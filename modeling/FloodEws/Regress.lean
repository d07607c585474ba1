import FloodEws.Spares
/-!
# Regress — an old snapshot reaches a follower

A snapshot may be delivered late or twice, and `handle(InstallSnapshot)` does not compare its index with what the follower
has.  At or above the base, an index of the committed log is retained, so nothing committed goes; below it `term_at` finds
nothing and the log is reset to the old index, and at index 0 it answers for the empty log.  The state machine is reset
from the snapshot in either case.

So handling a snapshot regresses nothing exactly if it is not below the base, and not below what was applied either when
the state machine can be loaded (`install_forward`).
-/
namespace FloodEws
namespace Raft

/-! ## Installing a snapshot -/

namespace Server

/-- The follower once the snapshot is in place, before it replies and goes on to apply. -/
def installPoint (cfg : Config) (io : Io) (is : InstallSnapshot) (s : Server) : Server :=
  ((s.maybeStepDown is.term).becomeFollower cfg io is.term is.leaderId).installed cfg io is

/-- **Handling the last chunk**: install, report, reply, apply. -/
theorem handleInstallSnapshot_done (cfg : Config) (io : Io) {is : InstallSnapshot} {s : Server}
    (ht : s.currentTerm ≤ is.term) (hd : is.done = true) : s.handleInstallSnapshot cfg io is =
      (((s.installPoint cfg io is).call (.persistLogCompact (s.installPoint cfg io is).log.base)).replySnapshot
        is).applyCommitted cfg io := by
  unfold handleInstallSnapshot
  rw [if_neg (Nat.not_lt.2 ht), hd]
  rfl

/-- Any other message leaves the log alone. -/
theorem handleInstallSnapshot_spares (cfg : Config) (io : Io) {is : InstallSnapshot} {s : Server}
    (h : ¬ (s.currentTerm ≤ is.term ∧ is.done = true)) : Spares Event.isLoad s (s.handleInstallSnapshot cfg io is) := by
  unfold handleInstallSnapshot
  split
  · exact .call _ rfl s
  · rename_i ht
    have hd : is.done = false := by
      cases hd : is.done with
      | false => rfl
      | true => exact absurd ⟨Nat.le_of_not_lt ht, hd⟩ h
    rw [hd]
    exact ((follow_spares @Event.not_load_of_stepping cfg io is.term is.leaderId s).trans (storeChunk_spares cfg is _)).trans
      (.call _ rfl _)

/-- **What is in place then**: the log retained or reset, and one load if the hook is bound. -/
theorem installPoint_spec (cfg : Config) (io : Io) (is : InstallSnapshot) (s : Server) :
    (s.installPoint cfg io is).log = installLog cfg is s.log ∧
    (s.installPoint cfg io is).commitIndex = max s.commitIndex is.lastIncludedIndex ∧
    (s.installPoint cfg io is).lastApplied = max s.lastApplied is.lastIncludedIndex ∧
    ∃ evs bytes, (∀ e ∈ evs, e.isLoad = false) ∧ (s.installPoint cfg io is).calls =
      (if io.snapshotLoad then [Event.snapshotLoad is.lastIncludedIndex bytes] else []) ++ evs ++ s.calls := by
  obtain ⟨-, hlog, hcommit, happlied, evs, hevs, hno⟩ :=
    (follow_spares @Event.not_load_of_stepping cfg io is.term is.leaderId s).trans (storeChunk_spares cfg is _)
  unfold installPoint installed
  generalize ((s.maybeStepDown is.term).becomeFollower cfg io is.term is.leaderId).storeChunk cfg is = x at hlog hcommit happlied hevs
  dsimp only
  rw [hlog, hcommit, happlied, installLog_base]
  cases hload : io.snapshotLoad with
  | true => exact ⟨rfl, rfl, rfl, evs, bytesAt x.snapBuf 0 x.snapLen, hno, by simp [Server.call, hevs]⟩
  | false => exact ⟨rfl, rfl, rfl, evs, [], hno, by simp [hevs]⟩

end Server

/-- **What a leader could have sent.**  `L` is the leader's log and `lc` what it had committed of it; the snapshot ends
there, and as far as both have committed, the follower's log `ℓ` is the leader's. -/
structure Sendable (s : Server) (ℓ L : List Entry) (lc : Nat) (is : InstallSnapshot) : Prop where
  index : is.lastIncludedIndex ≤ lc
  committed : lc ≤ L.length
  term : is.lastIncludedTerm = termOf L is.lastIncludedIndex
  agree : ℓ.take (min s.commitIndex lc) = L.take (min s.commitIndex lc)

/-- **Nothing has regressed** between `s` and `s'`, where the callbacks `evs` were made: the base is not lower, nothing
committed is past the end, a committed entry the snapshot does not cover is kept (or covered by a snapshot the follower
took itself), and nothing was loaded that is older than what was applied. -/
structure Forward (cfg : Config) (is : InstallSnapshot) (s s' : Server) (evs : List Event) : Prop where
  calls : s'.calls = evs ++ s.calls
  base : s.log.base ≤ s'.log.base
  commit : s'.commitIndex ≤ s'.log.lastIndex
  entries : ∀ i e, s.log.at? cfg i = some e → is.lastIncludedIndex < i → i ≤ s.commitIndex →
    s'.log.at? cfg i = some e ∨ ∃ index bytes, Event.snapshotSave index bytes ∈ evs ∧ i ≤ index
  loads : ∀ index bytes, Event.snapshotLoad index bytes ∈ evs → s.lastApplied ≤ index

section

variable {cfg : Config} {io : Io} {is : InstallSnapshot} {s : Server} {ℓ L : List Entry} {lc : Nat}

/-- **Installed at or above the base, the log keeps what was committed.** -/
theorem installLog_holds (hs : s.log.Holds cfg ℓ) (hcommit : s.commitIndex ≤ s.log.lastIndex) (hsend : Sendable s ℓ L lc is)
    (hb : s.log.base ≤ is.lastIncludedIndex) :
    ∃ ℓ', (Server.installLog cfg is s.log).Holds cfg ℓ' ∧ max s.commitIndex is.lastIncludedIndex ≤ ℓ'.length ∧
      ∀ i e, s.log.at? cfg i = some e → is.lastIncludedIndex < i → i ≤ s.commitIndex →
        (Server.installLog cfg is s.log).at? cfg i = some e := by
  have hlast := hs.lastIndex
  rw [hlast] at hcommit
  unfold Server.installLog
  rw [hlast]
  split
  · rename_i hretain
    obtain ⟨hle, hterm⟩ := hretain
    rw [hs.termAt_eq hb hle] at hterm
    have hholds := hs.compactTo hb hle (Option.some.inj hterm).symm
    refine ⟨ℓ, hholds, Nat.max_le.2 ⟨hcommit, hle⟩, fun i e he hi _ => ?_⟩
    obtain ⟨-, hil, he⟩ := hs.at?_eq_some.1 he
    exact hholds.at?_eq_some.2 ⟨hi, hil, he⟩
  · rename_i hdiscard
    -- The index is not a committed one: there the terms agree.
    have hnew : s.commitIndex ≤ is.lastIncludedIndex := by
      by_contra hlt
      refine hdiscard ⟨by omega, ?_⟩
      have hindex := hsend.index
      rw [hs.termAt_eq hb (by omega), hsend.term, ← termOf_take (k := min s.commitIndex lc) (by omega), hsend.agree,
        termOf_take (by omega)]
    have hlen : (L.take is.lastIncludedIndex).length = is.lastIncludedIndex := by
      have hindex := hsend.index
      have hcommitted := hsend.committed
      rw [List.length_take]
      omega
    have hterm : is.lastIncludedTerm = lastTermOf (L.take is.lastIncludedIndex) := by
      unfold lastTermOf
      rw [hlen, termOf_take (Nat.le_refl _), hsend.term]
    have hreset : (s.log.resetToSnapshot (L.take is.lastIncludedIndex).length is.lastIncludedTerm).Holds cfg
        (L.take is.lastIncludedIndex) := LogRing.holds_resetToSnapshot s.log hterm
    rw [hlen] at hreset
    refine ⟨_, hreset, by rw [hlen]; omega, fun i e _ hi hic => ?_⟩
    omega

theorem load_mem_of_append {load : Prop} [Decidable load] {evs : List Event} (hno : ∀ e ∈ evs, e.isLoad = false) {i j : Nat}
    {bytes bytes' : List Byte}
    (h : Event.snapshotLoad i bytes' ∈ (if load then [Event.snapshotLoad j bytes] else []) ++ evs) : load ∧ i = j := by
  rcases List.mem_append.1 h with h | h
  · split at h
    · rename_i hl
      cases List.mem_singleton.1 h
      exact ⟨hl, rfl⟩
    · cases h
  · have := hno _ h
    cases this

/-- **Not below the base, nor below what was applied if it is loaded: nothing regresses**, neither when the snapshot is in
place nor when it is handled. -/
theorem forward_of_le (hs : s.log.Holds cfg ℓ) (happlied : s.lastApplied ≤ s.commitIndex)
    (hcommit : s.commitIndex ≤ s.log.lastIndex) (hsend : Sendable s ℓ L lc is) (hb : s.log.base ≤ is.lastIncludedIndex)
    (hload : io.snapshotLoad = true → s.lastApplied ≤ is.lastIncludedIndex) (ht : s.currentTerm ≤ is.term)
    (hd : is.done = true) :
    (∃ evs, Forward cfg is s (s.installPoint cfg io is) evs) ∧ ∃ evs, Forward cfg is s (s.handleInstallSnapshot cfg io is) evs := by
  obtain ⟨hlog, hci, hla, pre, bytes, hno, hcalls⟩ := s.installPoint_spec cfg io is
  obtain ⟨ℓ', hholds, hlen, hkept⟩ := installLog_holds hs hcommit hsend hb
  have hbase := Server.installLog_base cfg is s.log
  rw [← hlog] at hholds hkept hbase
  have hloads : ∀ index bytes', Event.snapshotLoad index bytes' ∈
      (if io.snapshotLoad then [Event.snapshotLoad is.lastIncludedIndex bytes] else []) ++ pre → s.lastApplied ≤ index := by
    intro index bytes' h
    obtain ⟨hl, rfl⟩ := load_mem_of_append hno h
    exact hload hl
  constructor
  · refine ⟨_, hcalls, by omega, ?_, fun i e he hi hic => .inl (hkept i e he hi hic), hloads⟩
    rw [hci, hholds.lastIndex]
    exact hlen
  · rw [Server.handleInstallSnapshot_done cfg io ht hd]
    have hspares : Server.Spares Event.isLoad (s.installPoint cfg io is)
        (((s.installPoint cfg io is).call (.persistLogCompact (s.installPoint cfg io is).log.base)).replySnapshot is) :=
      (Server.Spares.call _ rfl _).trans (.call _ rfl _)
    obtain ⟨-, hlog', hci', hla', mid, hmid, hnomid⟩ := hspares
    generalize ((s.installPoint cfg io is).call (.persistLogCompact (s.installPoint cfg io is).log.base)).replySnapshot is = z
      at hlog' hci' hla' hmid
    have hcommit' : z.commitIndex = max s.commitIndex is.lastIncludedIndex := hci'.trans hci
    have hzlog : z.log.Holds cfg ℓ' := by
      rw [hlog']
      exact hholds
    obtain ⟨hciz, evs, hevs, hnoevs, hcases⟩ := z.applyCommitted_cases cfg io
    have hall : (z.applyCommitted cfg io).calls = (evs ++ mid ++
        ((if io.snapshotLoad then [Event.snapshotLoad is.lastIncludedIndex bytes] else []) ++ pre)) ++ s.calls := by
      rw [hevs, hmid, hcalls]
      simp only [List.append_assoc]
    have hloads' : ∀ index bytes', Event.snapshotLoad index bytes' ∈ evs ++ mid ++
        ((if io.snapshotLoad then [Event.snapshotLoad is.lastIncludedIndex bytes] else []) ++ pre) →
        s.lastApplied ≤ index := by
      intro index bytes' h
      rcases List.mem_append.1 h with h | h
      · rcases List.mem_append.1 h with h | h
        · cases (hnoevs _ h).1
        · cases hnomid _ h
      · exact hloads index bytes' h
    rcases hcases with hsame | ⟨k, t, saved, hk, hlt, hterm, hcompact, hsave⟩
    · refine ⟨_, hall, ?_, ?_, fun i e he hi hic => .inl ?_, hloads'⟩
      · rw [hsame, hlog']
        omega
      · rw [hciz, hsame, hzlog.lastIndex]
        omega
      · rw [hsame, hlog']
        exact hkept i e he hi hic
    · obtain rfl : k = z.commitIndex := by omega
      have hzlen : z.commitIndex ≤ ℓ'.length := by omega
      rw [hzlog.termAt_eq (Nat.le_of_lt hlt) hzlen] at hterm
      have hfinal := hzlog.compactTo (Nat.le_of_lt hlt) hzlen (Option.some.inj hterm).symm
      refine ⟨_, hall, ?_, ?_, fun i e he hi hic => .inr ⟨z.commitIndex, saved, ?_, by omega⟩, hloads'⟩
      · rw [hcompact]
        show s.log.base ≤ z.commitIndex
        omega
      · rw [hciz, hcompact, hfinal.lastIndex]
        exact hzlen
      · exact List.mem_append_left _ (List.mem_append_left _ hsave)

/-- **Otherwise something has regressed once the snapshot is in place.** -/
theorem le_of_forward {evs : List Event} (h : Forward cfg is s (s.installPoint cfg io is) evs) :
    s.log.base ≤ is.lastIncludedIndex ∧ (io.snapshotLoad = true → s.lastApplied ≤ is.lastIncludedIndex) := by
  obtain ⟨hlog, -, -, pre, bytes, -, hcalls⟩ := s.installPoint_spec cfg io is
  constructor
  · have hbase := h.base
    rw [hlog, Server.installLog_base] at hbase
    exact hbase
  · intro hload
    have hevs := List.append_cancel_right (h.calls.symm.trans hcalls)
    refine h.loads is.lastIncludedIndex bytes ?_
    rw [hevs, hload]
    exact List.mem_append_left _ (List.mem_singleton_self _)

end

/-- **Handling a snapshot regresses nothing exactly if it does nothing to the log (it is of an older term, or not the last
chunk), or it is at or above the base, and at or above what was applied if the state machine is loaded from it.** -/
theorem install_forward (cfg : Config) (io : Io) (is : InstallSnapshot) (s : Server) (ℓ L : List Entry) (lc : Nat)
    (hs : s.log.Holds cfg ℓ) (happlied : s.lastApplied ≤ s.commitIndex) (hcommit : s.commitIndex ≤ s.log.lastIndex)
    (hsend : Sendable s ℓ L lc is) :
    ((s.currentTerm ≤ is.term ∧ is.done = true → ∃ evs, Forward cfg is s (s.installPoint cfg io is) evs) ∧
      ∃ evs, Forward cfg is s (s.handleInstallSnapshot cfg io is) evs) ↔
    (s.currentTerm ≤ is.term ∧ is.done = true → s.log.base ≤ is.lastIncludedIndex ∧
      (io.snapshotLoad = true → s.lastApplied ≤ is.lastIncludedIndex)) := by
  constructor
  · rintro ⟨hpoint, -⟩ hacc
    obtain ⟨evs, h⟩ := hpoint hacc
    exact le_of_forward h
  · intro hok
    by_cases hacc : s.currentTerm ≤ is.term ∧ is.done = true
    · obtain ⟨hb, hload⟩ := hok hacc
      obtain ⟨hpoint, hend⟩ := forward_of_le hs happlied hcommit hsend hb hload hacc.1 hacc.2
      exact ⟨fun _ => hpoint, hend⟩
    · obtain ⟨-, hlog, hci, -, evs, hevs, hno⟩ := Server.handleInstallSnapshot_spares cfg io hacc
      refine ⟨fun h => absurd h hacc, evs, hevs, Nat.le_of_eq (by rw [hlog]), by rw [hci, hlog]; exact hcommit, ?_, ?_⟩
      · intro i e he _ _
        rw [hlog]
        exact .inl he
      · intro index bytes h
        cases hno _ h

/-- Three entries, the first two of them compacted. -/
def caughtUp : Server where
  selfId := 2
  currentTerm := 1
  log := { buf := fun k => { term := 1, index := k + 1 }, base := 2, baseTerm := 1, count := 1, head := 2 }
  commitIndex := 3
  lastApplied := 2

def threeEntries : List Entry := [{ term := 1, index := 1 }, { term := 1, index := 2 }, { term := 1, index := 3 }]

/-- The snapshot of the first `index` entries. -/
def snapshotAt (index : Nat) : InstallSnapshot where
  term := 1
  leaderId := 1
  lastIncludedIndex := index
  lastIncludedTerm := 1
  offset := 0
  totalLen := 1
  dataLen := 1
  done := true
  data := [0]

def loading : Io where
  now := fun _ => 0
  rand := fun _ => 0
  snapshotSave := none
  snapshotLoad := true

theorem caughtUp_holds : caughtUp.log.Holds defaultConfig threeEntries where
  last := rfl
  head_lt := by decide
  count_le := by decide
  live := by decide
  edge := rfl

theorem install_forward_again :
    ∃ evs, Forward defaultConfig (snapshotAt 2) caughtUp (caughtUp.handleInstallSnapshot defaultConfig loading (snapshotAt 2)) evs := by
  have hsend : Sendable caughtUp threeEntries threeEntries 3 (snapshotAt 2) := ⟨by decide, by decide, rfl, rfl⟩
  exact ((install_forward defaultConfig loading (snapshotAt 2) caughtUp threeEntries threeEntries 3 caughtUp_holds (by decide)
    (by decide) hsend).2 (fun _ => ⟨by decide, fun _ => by decide⟩)).2

/-- **A snapshot of one entry that comes late sets the log back.** -/
theorem late_snapshot_regresses :
    ¬ ∀ (cfg : Config) (io : Io) (is : InstallSnapshot) (s : Server) (ℓ L : List Entry) (lc : Nat), s.log.Holds cfg ℓ →
      s.log.base ≤ s.lastApplied → s.lastApplied ≤ s.commitIndex → s.commitIndex ≤ s.log.lastIndex → Sendable s ℓ L lc is →
      (s.currentTerm ≤ is.term ∧ is.done = true → ∃ evs, Forward cfg is s (s.installPoint cfg io is) evs) ∧
        ∃ evs, Forward cfg is s (s.handleInstallSnapshot cfg io is) evs := by
  intro h
  have hsend : Sendable caughtUp threeEntries threeEntries 3 (snapshotAt 1) := ⟨by decide, by decide, rfl, rfl⟩
  obtain ⟨evs, hforward⟩ := (h defaultConfig loading (snapshotAt 1) caughtUp threeEntries threeEntries 3 caughtUp_holds
    (by decide) (by decide) (by decide) hsend).1 ⟨by decide, rfl⟩
  exact absurd (le_of_forward hforward).1 (by decide)

end Raft
end FloodEws
