import Mathlib.Order.Bounds.Defs
import FloodEws.Order
import FloodEws.Spares
/-!
# Replicate — one message and one advance, exactly

What one `AppendEntries` does to a follower's log, whatever it overlaps, and how far one `leader_advance_commit` goes.  A
slice of a log the follower agrees with takes nothing away, however old it is, and the second time it comes it changes
nothing (`stale_append_harmless`).  The new commit index is the greatest a majority holds in the leader's own term
(`commit_advance_exact`).
-/
namespace FloodEws
namespace Raft

/-! ## A slice that is there -/

namespace LogRing

variable {cfg : Config}

/-- **A slice that is there already changes nothing.** -/
theorem appendAll_present : ∀ (es : List Entry) (i : Nat) {r : LogRing},
    (∀ j, j < es.length → r.base < i + j → r.termAt cfg (i + j) = es[j]?.map Entry.term) →
    (∀ j, j < es.length → r.base < i + j → i + j ≤ r.lastIndex) → r.appendAll cfg i es = r
  | [], _, _, _, _ => rfl
  | e :: es, i, r, hterm, hlast => by
    have hsame : r.appendEntry cfg i e = r := by
      rcases appendEntry_cases cfg r i e with ⟨-, hsame⟩ | ⟨hb, hl, -⟩ | ⟨hb, hl, hconf, -⟩
      · exact hsame
      · have := hlast 0 (by simp) (by omega)
        omega
      · exact absurd (by simpa using hterm 0 (by simp) (by omega)) hconf
    rw [LogRing.appendAll, hsame]
    refine appendAll_present es (i + 1) (fun j hj hb => ?_) fun j hj hb => ?_
    · have := hterm (j + 1) (by simpa using hj) (by omega)
      rw [show i + 1 + j = i + (j + 1) by omega, this]
      rfl
    · have := hlast (j + 1) (by simpa using hj) (by omega)
      omega

end LogRing

/-! ## One `AppendEntries` -/

namespace Server

variable {cfg : Config} {io io' : Io} {s x y : Server} {ae : AppendEntries}

/-- **What an `AppendEntries` can do**: be refused, with the log and its indices as they were; or be accepted. -/
theorem handleAppendEntries_cases (cfg : Config) (io : Io) (ae : AppendEntries) (s : Server) :
    (Spares Event.isApply s (s.handleAppendEntries cfg io ae) ∧
      (s.currentTerm ≤ ae.term → s.prevMismatch cfg ae ≠ none)) ∨
    (s.prevMismatch cfg ae = none ∧ ∃ x, Spares Event.isApply s x ∧
      s.handleAppendEntries cfg io ae = (x.accepted cfg ae).applyCommitted cfg io) := by
  rcases Nat.lt_or_ge ae.term s.currentTerm with ht | ht
  · refine .inl ⟨?_, fun h => absurd h (Nat.not_le.2 ht)⟩
    unfold handleAppendEntries
    rw [if_pos ht]
    exact .call _ rfl s
  have hx := following_spares @Event.not_apply_of_stepping cfg io ae s
  rw [handleAppendEntries_eq cfg io ht]
  cases hp : (s.following cfg io ae).prevMismatch cfg ae with
  | some resp =>
    refine .inl ⟨hx.trans (.call _ rfl _), fun _ hnone => ?_⟩
    rw [Ordered.prevMismatch_congr hx.log hnone] at hp
    cases hp
  | none => exact .inr ⟨Ordered.prevMismatch_congr hx.log.symm hp, _, hx, rfl⟩

/-- The applied index reaches the commit index, and compaction moves neither. -/
theorem applyCommitted_lastApplied (cfg : Config) (io : Io) (s : Server) :
    (s.applyCommitted cfg io).lastApplied = max s.lastApplied s.commitIndex := by
  obtain ⟨-, -, happlied, -⟩ := applyLoop_spec cfg (s.commitIndex - s.lastApplied) s
  have hmax : (applyLoop cfg (s.commitIndex - s.lastApplied) s).lastApplied = max s.lastApplied s.commitIndex := by
    omega
  unfold applyCommitted
  generalize applyLoop cfg (s.commitIndex - s.lastApplied) s = x at hmax
  rcases maybeCompact_cases cfg io x with ⟨-, reads, he⟩ | ⟨-, t, bytes, -, -, -, he⟩
  all_goals
    rw [he]
    exact hmax

/-- `m_snapshot_save` answers the same, whenever it is asked. -/
def SavesAlike (io io' : Io) : Prop := ∀ k k', savedAt io' k' = savedAt io k

/-- **Compacting again**: where it has been tried, trying again moves nothing, and applies nothing. -/
theorem maybeCompact_again (hsave : SavesAlike io io') (hlog : y.log = (x.maybeCompact cfg io).log)
    (happlied : y.lastApplied = x.lastApplied) : ∃ k, y.maybeCompact cfg io' = { y with reads := k } := by
  have hstays : y.Uncompacted cfg io' := by
    rcases maybeCompact_cases cfg io x with ⟨hx, reads, he⟩ | ⟨-, t, bytes, -, -, -, he⟩
    · rw [he] at hlog
      unfold Uncompacted NoSnapshot at hx ⊢
      rw [hlog, happlied, hsave x.reads y.reads]
      exact hx
    · rw [he] at hlog
      refine .inr (.inl ?_)
      rw [hlog, happlied]
      exact Nat.le_refl x.lastApplied
  rcases maybeCompact_cases cfg io' y with ⟨-, hy⟩ | ⟨hy, -⟩
  · exact hy
  · exact absurd hstays hy

/-- What accepting does to a server that has only followed: the log is rewritten, the commit index follows the message,
and nothing is applied yet. -/
theorem accepted_spec (cfg : Config) (ae : AppendEntries) (hx : Spares Event.isApply s x) :
    (x.accepted cfg ae).selfId = s.selfId ∧ (x.accepted cfg ae).log = s.log.appendAll cfg (ae.prevLogIndex + 1) ae.view ∧
      (x.accepted cfg ae).commitIndex = ae.commitFrom s.commitIndex ∧ (x.accepted cfg ae).lastApplied = s.lastApplied ∧
      ∃ evs : List Event, (x.accepted cfg ae).calls = evs ++ s.calls ∧ ∀ e ∈ evs, e.isApply = false := by
  obtain ⟨evs, hquiet, he⟩ := accepted_eq cfg ae x
  obtain ⟨evs', hcalls, hno⟩ := hx.calls
  obtain ⟨sent, hsent, hacc⟩ : ∃ sent : Event, sent.isApply = false ∧ (x.accepted cfg ae).calls = sent :: (evs ++ x.calls) :=
    ⟨_, rfl, congrArg Server.calls he⟩
  refine ⟨?_, ?_, ?_, ?_, sent :: (evs ++ evs'), ?_, fun e hmem => ?_⟩
  · rw [he, ← hx.self]
  · rw [he, ← hx.log]
  · rw [he, ← hx.commit]
  · rw [he, ← hx.applied]
  · rw [hacc, hcalls, List.cons_append, List.append_assoc]
  · rcases List.mem_cons.1 hmem with rfl | hmem
    · exact hsent
    rcases List.mem_append.1 hmem with hmem | hmem
    · exact Event.not_apply_of_quiet (hquiet e hmem)
    · exact hno e hmem

/-- Applying moves at most the edge, to the applied index. -/
theorem applyCommitted_live {ℓ : List Entry} (io : Io) (h : s.log.Live cfg ℓ) (hb : s.log.base ≤ s.lastApplied) :
    (s.applyCommitted cfg io).log.Live cfg ℓ ∧ s.log.base ≤ (s.applyCommitted cfg io).log.base ∧
      (s.applyCommitted cfg io).log.base ≤ (s.applyCommitted cfg io).lastApplied := by
  have happlied := applyCommitted_lastApplied cfg io s
  obtain ⟨-, evs, -, -, hlog | ⟨k, t, bytes, hk, hlt, hterm, hlog, -⟩⟩ := applyCommitted_cases cfg io s
  · rw [hlog, happlied]
    exact ⟨h, Nat.le_refl _, Nat.le_trans hb (Nat.le_max_left _ _)⟩
  · have hle : k ≤ ℓ.length := by
      rw [LogRing.termAt_live hlt, Option.map_eq_some_iff] at hterm
      obtain ⟨e, he, -⟩ := hterm
      exact (h.at?_eq_some.1 he).2.1
    rw [hlog, happlied]
    exact ⟨h.compactTo t (Nat.le_of_lt hlt) hle, Nat.le_of_lt hlt, Nat.le_of_eq hk⟩

/-- **An accepted message**: the log is spliced, then applied and perhaps compacted. -/
theorem accepted_splice {ℓ : List Entry} (h : s.log.Live cfg ℓ) (hp : s.prevMismatch cfg ae = none)
    (hx : Spares Event.isApply s x) :
    ∃ ℓ', LogRing.Spliced cfg s.log (x.accepted cfg ae).log ℓ ℓ' (ae.prevLogIndex + 1) ae.view := by
  obtain ⟨-, hlog, -⟩ := accepted_spec cfg ae hx
  rw [hlog]
  exact h.splice ae.view (ae.prevLogIndex + 1) (.inl (Ordered.prev_le (s := s) h hp))

end Server

/-- The log of the ring and `L` have the same entries up to index `m`, as far as they are live. -/
def LogRing.AgreesTo (cfg : Config) (r : LogRing) (L : List Entry) (m : Nat) : Prop :=
  ∀ i, r.base < i → i ≤ r.lastIndex → i ≤ m → r.at? cfg i = L[i - 1]?

/-- The previous entry and the entries of the message are a slice of `L`. -/
structure AppendEntries.SliceOf (L : List Entry) (ae : AppendEntries) : Prop where
  prev_le : ae.prevLogIndex ≤ L.length
  prev_term : ae.prevLogTerm = termOf L ae.prevLogIndex
  entries : ae.view <+: L.drop ae.prevLogIndex

namespace AppendEntries.SliceOf

variable {cfg : Config} {r : LogRing} {L : List Entry} {ae : AppendEntries}

theorem view_getElem? (h : ae.SliceOf L) {j : Nat} (hj : j < ae.view.length) : ae.view[j]? = L[ae.prevLogIndex + j]? := by
  obtain ⟨rest, hrest⟩ := h.entries
  rw [← List.getElem?_drop, ← hrest, List.getElem?_append_left hj]

/-- A slice of a log the ring agrees with conflicts with nothing. -/
theorem clear (h : ae.SliceOf L) {m : Nat} (hagree : r.AgreesTo cfg L m) :
    r.Clear cfg (ae.prevLogIndex + 1) ae.view (min m r.lastIndex) := by
  intro j hj hb hk
  rw [LogRing.termAt_live hb, hagree _ hb (by omega) (by omega), h.view_getElem? hj,
    show ae.prevLogIndex + 1 + j - 1 = ae.prevLogIndex + j by omega]

end AppendEntries.SliceOf

theorem AppendEntries.commitFrom_commitFrom (ae : AppendEntries) (c : Nat) :
    ae.commitFrom (ae.commitFrom c) = ae.commitFrom c := by
  unfold AppendEntries.commitFrom
  split
  · split
    · omega
    · rfl
  · rfl

namespace Server

variable {cfg : Config} {io io' : Io} {s x : Server} {ae : AppendEntries} {ℓ L : List Entry} {m : Nat}

/-- An entry the slice agrees with stays, until it is applied and compacted. -/
theorem accepted_keeps (io : Io) (h : s.log.Live cfg ℓ) (hb : s.log.base ≤ s.lastApplied) (hp : s.prevMismatch cfg ae = none)
    (hx : Spares Event.isApply s x) (hagree : s.log.AgreesTo cfg L m) (hslice : ae.SliceOf L) {i : Nat} {e : Entry}
    (he : s.log.at? cfg i = some e) (him : i ≤ m) :
    ((x.accepted cfg ae).applyCommitted cfg io).log.at? cfg i = some e ∨
      (i ≤ ((x.accepted cfg ae).applyCommitted cfg io).log.base ∧
        ((x.accepted cfg ae).applyCommitted cfg io).log.base ≤ ((x.accepted cfg ae).applyCommitted cfg io).lastApplied) := by
  obtain ⟨ℓ', hsplice⟩ := accepted_splice h hp hx
  obtain ⟨hbi, hil, hei⟩ := h.at?_eq_some.1 he
  obtain ⟨hlen, htake⟩ := hsplice.kept (min m s.log.lastIndex) (by rw [h.lastIndex]; omega) (hslice.clear hagree)
  rw [h.lastIndex] at hlen htake
  obtain ⟨-, -, -, happlied, -⟩ := accepted_spec cfg ae hx
  have hbase : (x.accepted cfg ae).log.base ≤ (x.accepted cfg ae).lastApplied := by
    rw [hsplice.base, happlied]
    exact hb
  obtain ⟨hlive, -, happlied⟩ := applyCommitted_live io hsplice.live hbase
  rcases Nat.lt_or_ge ((x.accepted cfg ae).applyCommitted cfg io).log.base i with hi | hi
  · refine .inl (hlive.at?_eq_some.2 ⟨hi, by omega, ?_⟩)
    rw [← List.getElem?_take_of_lt (show i - 1 < min m ℓ.length by omega), htake, List.getElem?_take_of_lt (by omega)]
    exact hei
  · exact .inr ⟨hi, happlied⟩

/-- With room for it, the whole slice is in the ring afterwards, as far as it is above the edge. -/
theorem accepted_holds (io : Io) (h : s.log.Live cfg ℓ) (hb : s.log.base ≤ s.lastApplied) (hp : s.prevMismatch cfg ae = none)
    (hx : Spares Event.isApply s x) (hroom : ae.prevLogIndex + ae.nEntries ≤ s.log.base + cfg.logCapacity) {j : Nat}
    (hj : j < ae.view.length) (hbj : ((x.accepted cfg ae).applyCommitted cfg io).log.base < ae.prevLogIndex + 1 + j) :
    ((x.accepted cfg ae).applyCommitted cfg io).log.termAt cfg (ae.prevLogIndex + 1 + j) = ae.view[j]?.map Entry.term ∧
      ae.prevLogIndex + 1 + j ≤ ((x.accepted cfg ae).applyCommitted cfg io).log.lastIndex := by
  obtain ⟨ℓ', hsplice⟩ := accepted_splice h hp hx
  obtain ⟨-, -, -, happlied, -⟩ := accepted_spec cfg ae hx
  obtain ⟨hlive, hedge, -⟩ := applyCommitted_live io hsplice.live (by rw [hsplice.base, happlied]; exact hb)
  have hbj' : (x.accepted cfg ae).log.base < ae.prevLogIndex + 1 + j := Nat.lt_of_le_of_lt hedge hbj
  have hterm := hsplice.taken (Ordered.prev_le (s := s) h hp) (by rw [AppendEntries.length_view]; omega) j hj
    (hsplice.base ▸ hbj')
  have hle : ae.prevLogIndex + 1 + j ≤ ℓ'.length := by
    rw [LogRing.termAt_live hbj', List.getElem?_eq_getElem hj] at hterm
    obtain ⟨e, he, -⟩ := Option.map_eq_some_iff.1 hterm
    exact (hsplice.live.at?_eq_some.1 he).2.1
  rw [hlive.lastIndex, ← hterm, LogRing.termAt_live hbj, LogRing.termAt_live hbj', hlive.at?_live hbj hle,
    hsplice.live.at?_live hbj' hle]
  exact ⟨rfl, hle⟩

/-- **The second time** the slice is there, the commit index is where the message puts it, and all of that is applied. -/
theorem accepted_again (h : s.log.Live cfg ℓ) (hb : s.log.base ≤ s.lastApplied) (hp : s.prevMismatch cfg ae = none)
    (hx : Spares Event.isApply s x) (hroom : ae.prevLogIndex + ae.nEntries ≤ s.log.base + cfg.logCapacity)
    (hsave : SavesAlike io io') {y : Server} (hy : Spares Event.isApply ((x.accepted cfg ae).applyCommitted cfg io) y) :
    Spares Event.isApply ((x.accepted cfg ae).applyCommitted cfg io) ((y.accepted cfg ae).applyCommitted cfg io') := by
  obtain ⟨-, -, hcommit, -⟩ := accepted_spec cfg ae hx
  obtain ⟨hkept, -⟩ := applyCommitted_cases cfg io (x.accepted cfg ae)
  have hall := applyCommitted_lastApplied cfg io (x.accepted cfg ae)
  obtain ⟨hself, hlog, hcommit', happlied', hcalls⟩ := accepted_spec cfg ae hy
  have hsame : (y.accepted cfg ae).log = ((x.accepted cfg ae).applyCommitted cfg io).log := by
    rw [hlog]
    exact LogRing.appendAll_present _ _ (fun j hj hbj => (accepted_holds io h hb hp hx hroom hj hbj).1)
      fun j hj hbj => (accepted_holds io h hb hp hx hroom hj hbj).2
  have hidle : (y.accepted cfg ae).commitIndex - (y.accepted cfg ae).lastApplied = 0 := by
    rw [hcommit', happlied', hkept, hall, hcommit, AppendEntries.commitFrom_commitFrom]
    omega
  obtain ⟨k, hk⟩ : ∃ k, (y.accepted cfg ae).applyCommitted cfg io' = { y.accepted cfg ae with reads := k } := by
    rw [applyCommitted, hidle]
    refine maybeCompact_again hsave (x := applyLoop cfg _ (x.accepted cfg ae)) hsame ?_
    show (y.accepted cfg ae).lastApplied = _
    rw [happlied', hall, (applyLoop_spec cfg _ _).2.2.1]
    omega
  rw [hk]
  refine ⟨hself, hsame, hcommit'.trans ?_, happlied', hcalls⟩
  rw [hkept, hcommit, AppendEntries.commitFrom_commitFrom]

/-- **Stale and duplicate `AppendEntries` are harmless.**  Let the ring agree with a log `L` up to `m`, and let the
message be a slice of `L`.  However the two overlap, every entry up to `m` stays or is compacted once it is applied, and
the commit index is not lowered.  If the ring has room for the slice, the same message again moves nothing and applies
nothing. -/
theorem stale_append_harmless (cfg : Config) (io io' : Io) (s : Server) (ae : AppendEntries) (ℓ L : List Entry) (m : Nat)
    (hring : s.log.Live cfg ℓ) (hbase : s.log.base ≤ s.lastApplied) (hagree : s.log.AgreesTo cfg L m)
    (hslice : ae.SliceOf L) (hterm : ae.term = s.currentTerm) :
    (∀ i e, s.log.at? cfg i = some e → i ≤ m → (s.handleAppendEntries cfg io ae).log.at? cfg i = some e ∨
      (i ≤ (s.handleAppendEntries cfg io ae).log.base ∧
        (s.handleAppendEntries cfg io ae).log.base ≤ (s.handleAppendEntries cfg io ae).lastApplied)) ∧
    s.commitIndex ≤ (s.handleAppendEntries cfg io ae).commitIndex ∧
    (ae.prevLogIndex + ae.nEntries ≤ s.log.base + cfg.logCapacity → SavesAlike io io' →
      Spares Event.isApply (s.handleAppendEntries cfg io ae)
        ((s.handleAppendEntries cfg io ae).handleAppendEntries cfg io' ae)) := by
  rcases handleAppendEntries_cases cfg io ae s with ⟨hspares, hrefused⟩ | ⟨hp, x, hx, he⟩
  · refine ⟨fun i e he _ => .inl (by rw [hspares.log]; exact he), Nat.le_of_eq hspares.commit.symm, fun _ _ => ?_⟩
    rcases handleAppendEntries_cases cfg io' ae (s.handleAppendEntries cfg io ae) with ⟨hagain, -⟩ | ⟨hp, -⟩
    · exact hagain
    · exact absurd (Ordered.prevMismatch_congr hspares.log.symm hp) (hrefused (Nat.le_of_eq hterm.symm))
  · rw [he]
    refine ⟨fun i e hi him => accepted_keeps io hring hbase hp hx hagree hslice hi him, ?_, fun hroom hsave => ?_⟩
    · rw [(applyCommitted_cases cfg io _).1, (accepted_spec cfg ae hx).2.2.1]
      exact ae.le_commitFrom s.commitIndex
    · rcases handleAppendEntries_cases cfg io' ae ((x.accepted cfg ae).applyCommitted cfg io) with
        ⟨hagain, -⟩ | ⟨-, y, hy, hagain⟩
      · exact hagain
      · rw [hagain]
        exact accepted_again hring hbase hp hx hroom hsave hy

/-- A follower with two entries, the first one applied, is sent both again with a third one behind, twice.  The first
time it applies two and compacts. -/
theorem stale_append_harmless_overlap :
    let cfg := { defaultConfig with snapshotThreshold := 2 }
    let e : Nat → Entry := fun i => { term := 1, index := i }
    let s : Server := { selfId := 2, currentTerm := 1, commitIndex := 1, lastApplied := 1,
                        log := { buf := fun k => e (k + 1), count := 2 } }
    let ae : AppendEntries := ⟨1, 1, 0, 0, 3, 3, [e 1, e 2, e 3]⟩
    let once := s.handleAppendEntries cfg (.saving [7] 100) ae
    once.log.base = 3 ∧ once.lastApplied = 3 ∧
      Spares Event.isApply once (once.handleAppendEntries cfg (.saving [7] 200) ae) := by
  intro cfg e s ae once
  have hring : s.log.Live cfg [e 1, e 2] := by
    refine ⟨rfl, by decide, by decide, fun k hk => ?_⟩
    rcases k with _ | _ | k
    · rfl
    · rfl
    · exact absurd hk (Nat.not_lt.2 (Nat.le_add_left 2 k))
  have hagree : s.log.AgreesTo cfg [e 1, e 2, e 3] 2 := by
    intro i hb _ hi
    rcases i with _ | _ | _ | i
    · exact absurd hb (by decide)
    · rfl
    · rfl
    · omega
  exact ⟨by decide, by decide, (stale_append_harmless cfg (.saving [7] 100) (.saving [7] 200) s ae _ _ 2 hring (by decide)
    hagree ⟨by decide, rfl, by decide⟩ rfl).2.2 (by decide) (fun _ _ => rfl)⟩

end Server

/-! ## One advance -/

namespace Server

variable {cfg : Config} {s : Server}

/-- The leader may commit up to `n`: a majority holds it and it is of the leader's term. -/
def Committable (cfg : Config) (s : Server) (n : Nat) : Prop :=
  n ≤ s.log.lastIndex ∧ s.log.termAt cfg n = some s.currentTerm ∧
    s.majority ≤ s.nodes.countP (fun p : Peer => p.isSelf || decide (n ≤ p.matchIndex))

/-- The downward scan misses nothing. -/
theorem le_findCommit {n : Nat} (hn : s.Committable cfg n) (hlt : s.commitIndex < n) :
    ∀ {k : Nat}, n ≤ s.commitIndex + k → ∃ next, findCommit cfg s k = some next ∧ n ≤ next
  | 0, hk => by omega
  | k + 1, hk => by
    rw [findCommit]
    split
    · exact ⟨_, rfl, hk⟩
    · rename_i hno
      refine le_findCommit hn hlt ?_
      by_contra hgt
      obtain rfl : n = s.commitIndex + (k + 1) := by omega
      exact hno ⟨hn.2.1, hn.2.2⟩

theorem leaderAdvanceCommit_commitIndex (cfg : Config) (io : Io) (s : Server) :
    (s.leaderAdvanceCommit cfg io).commitIndex =
      (findCommit cfg s (s.log.lastIndex - s.commitIndex)).getD s.commitIndex := by
  unfold leaderAdvanceCommit
  rw [(applyCommitted_cases cfg io _).1]
  split <;> rename_i h <;> rw [h] <;> rfl

/-- **Commit advance is exact**: the new commit index is the greatest of the old one and of all that may be committed. -/
theorem commit_advance_exact (cfg : Config) (io : Io) (s : Server) :
    IsGreatest {n | n = s.commitIndex ∨ s.Committable cfg n} (s.leaderAdvanceCommit cfg io).commitIndex ∧
      s.commitIndex ≤ (s.leaderAdvanceCommit cfg io).commitIndex ∧
      ((s.leaderAdvanceCommit cfg io).commitIndex ≠ s.commitIndex →
        s.log.termAt cfg (s.leaderAdvanceCommit cfg io).commitIndex = some s.currentTerm) := by
  have hnew := leaderAdvanceCommit_commitIndex cfg io s
  have hmem : (s.leaderAdvanceCommit cfg io).commitIndex = s.commitIndex ∨
      s.Committable cfg (s.leaderAdvanceCommit cfg io).commitIndex := by
    cases hf : findCommit cfg s (s.log.lastIndex - s.commitIndex) with
    | none => exact .inl (by rw [hnew, hf]; rfl)
    | some next =>
      obtain ⟨hlt, hle, hterm, hmaj⟩ := Ordered.findCommit_spec hf
      rw [hnew, hf]
      exact .inr ⟨show next ≤ _ by omega, hterm, hmaj⟩
  have hmax : ∀ n, n = s.commitIndex ∨ s.Committable cfg n → n ≤ (s.leaderAdvanceCommit cfg io).commitIndex := by
    have hold : s.commitIndex ≤ (s.leaderAdvanceCommit cfg io).commitIndex := by
      cases hf : findCommit cfg s (s.log.lastIndex - s.commitIndex) with
      | none => rw [hnew, hf]; exact Nat.le_refl _
      | some next => rw [hnew, hf]; exact Nat.le_of_lt (Ordered.findCommit_spec hf).1
    rintro n (rfl | hn)
    · exact hold
    rcases Nat.lt_or_ge s.commitIndex n with hlt | hge
    · have hle := hn.1
      obtain ⟨next, hf, hnext⟩ := le_findCommit hn hlt (k := s.log.lastIndex - s.commitIndex) (by omega)
      rw [hnew, hf]
      exact hnext
    · exact Nat.le_trans hge hold
  refine ⟨⟨hmem, hmax⟩, hmax _ (.inl rfl), fun hne => ?_⟩
  exact (hmem.resolve_left hne).2.1

end Server

end Raft
end FloodEws
