import FloodEws.Office
import FloodEws.Words
/-!
# Bounds — what a received message can make the server touch

The fields of a message come off the wire unchecked.  `accesses` lists the slots of the message's own array that its
handling reads and the bytes of `m_snap_buf` it writes; the entries it stores are those it persists.  `memory_safe_iff` says
exactly when all of them are in bounds.

An `AppendEntries` is handled in machine words here, so that an index that wraps is one that wraps.  The other messages
bring no entries: what their handling stores does not depend on how wide an index is.
-/
namespace FloodEws
namespace Raft

/-- A slot of `AppendEntries::m_entries` or of `InstallSnapshot::m_data` that is read, or of `m_snap_buf` that is
written. -/
inductive Access where
  | entry (i : Nat)
  | data (i : Nat)
  | snapBuf (i : Nat)
deriving DecidableEq, Repr

def Access.InBounds (cfg : Config) : Access → Prop
  | .entry i => i < cfg.maxAppendEntries
  | .data i => i < cfg.snapshotChunk
  | .snapBuf i => i < cfg.snapshotMax

/-- An entry that is stored has its data inside it, and a snapshot that is saved is inside the buffer. -/
def Event.InBounds (cfg : Config) : Event → Prop
  | .persistLogAppend e => e.dataLen ≤ cfg.maxEntryData
  | .snapshotSave _ bytes => bytes.length ≤ cfg.snapshotMax
  | _ => True

/-- The two sides of the `memcpy` of a chunk. -/
def chunkAccesses (cfg : Config) (is : InstallSnapshot) : List Access :=
  if add32 is.offset is.dataLen ≤ cfg.snapshotMax then
    (List.range is.dataLen).flatMap (fun k => [.data k, .snapBuf (is.offset + k)])
  else []

namespace WordServer

/-- The entries the append loop looks at: those above the edge, from the `i`-th on. -/
def appendReads (cfg : Config) : UInt64 → Nat → List Entry → WordServer → List Access
  | _, _, [], _ => []
  | nextIdx, i, e :: es, w =>
    (if nextIdx ≤ w.log.base then [] else [.entry i]) ++ appendReads cfg (nextIdx + 1) (i + 1) es (w.appendEntry cfg nextIdx e)

/-- **What the handling of a message reads of its arrays and writes of `m_snap_buf`.** -/
def accesses (cfg : Config) (io : Io) (w : WordServer) : Payload → List Access
  | .appendEntries ae =>
    if ae.term < w.rest.currentTerm then []
    else
      let w := w.following cfg io ae
      match w.prevMismatch cfg ae with
      | some _ => []
      | none => appendReads cfg (UInt64.ofNat ae.prevLogIndex + 1) 0 ae.view w
  | .installSnapshot is => if is.term < w.rest.currentTerm then [] else chunkAccesses cfg is
  | _ => []

/-- The server after the message. -/
def handled (cfg : Config) (io : Io) (w : WordServer) (msg : Message) : Server :=
  match msg.payload with
  | .appendEntries ae => (w.handleAppendEntries cfg io ae).rest
  | _ => w.view.handle cfg io msg

end WordServer

namespace Server

/-- All that was called since `s` is in bounds. -/
def Within (cfg : Config) (s s' : Server) : Prop := ∃ evs, s'.calls = evs ++ s.calls ∧ ∀ e ∈ evs, Event.InBounds cfg e

end Server

/-- **The handling of a message is memory safe.** -/
def WordServer.MemorySafe (cfg : Config) (io : Io) (w : WordServer) (msg : Message) : Prop :=
  (∀ a ∈ w.accesses cfg io msg.payload, a.InBounds cfg) ∧ Server.Within cfg w.rest (w.handled cfg io msg)

namespace Server

/-! ## What the methods call -/

variable {cfg : Config} {io : Io} {s x y : Server}

namespace Within

theorem refl (s : Server) : Within cfg s s := ⟨[], rfl, by simp⟩

theorem trans (h : Within cfg s x) (h' : Within cfg x y) : Within cfg s y := by
  obtain ⟨evs, hevs, hin⟩ := h
  obtain ⟨evs', hevs', hin'⟩ := h'
  refine ⟨evs' ++ evs, by rw [hevs', hevs, List.append_assoc], fun e he => ?_⟩
  rcases List.mem_append.1 he with he | he
  · exact hin' e he
  · exact hin e he

/-- Nothing was called. -/
theorem of_calls (h : x.calls = s.calls) : Within cfg s x := ⟨[], h, by simp⟩

/-- One thing was called. -/
theorem cons {e : Event} (hin : e.InBounds cfg) (h : x.calls = e :: s.calls) : Within cfg s x :=
  ⟨[e], h, by simpa using hin⟩

theorem emit (msg : Message) (s : Server) : Within cfg s (s.emit msg) :=
  .cons (e := .send s.currentTerm s.votedFor msg) trivial rfl

theorem of_spares (h : Spares (fun e => !e.stepping) s x) : Within cfg s x := by
  obtain ⟨evs, hevs, hno⟩ := h.calls
  refine ⟨evs, hevs, fun e he => ?_⟩
  have := hno e he
  cases e <;> trivial

/-- Sending is in bounds whatever is sent. -/
theorem of_sends (h : Sends s x) : Within cfg s x := by
  obtain ⟨ms, rfl⟩ := h
  refine ⟨_, rfl, fun e he => ?_⟩
  obtain ⟨m, -, rfl⟩ := List.mem_map.1 he
  trivial

end Within

theorem stepping_spares : ∀ e : Event, e.stepping = true → (!e.stepping) = false := fun _ h => by rw [h]; rfl

theorem setState_within (r : Role) (s : Server) : Within cfg s (s.setState r) :=
  .of_spares (setState_spares stepping_spares r s)

theorem maybeStepDown_within (t : Nat) (s : Server) : Within cfg s (s.maybeStepDown t) :=
  .of_spares (maybeStepDown_spares stepping_spares t s)

theorem resetElectionTimer_within (io : Io) (s : Server) : Within cfg s (s.resetElectionTimer cfg io) := by
  obtain ⟨d, k, he⟩ := resetElectionTimer_eq cfg io s
  rw [he]
  exact .of_calls rfl

theorem becomeLeader_within (io : Io) (s : Server) : Within cfg s (s.becomeLeader cfg io) := by
  have hstate : Within cfg s ({ s with preVoteActive := false }.setState .leader) := setState_within .leader _
  unfold becomeLeader
  dsimp only
  generalize { s with preVoteActive := false }.setState .leader = x at hstate
  split
  · exact hstate.trans (.cons (e := .persistLogAppend { term := _, index := _, type := .noop, dataLen := 0 })
      (Nat.zero_le _) rfl)
  · exact hstate

theorem beginCampaign_within (io : Io) (s : Server) : Within cfg s (s.beginCampaign cfg io) := by
  have hstate : Within cfg s ({ s with preVoteActive := false }.setState .candidate) := setState_within .candidate _
  unfold beginCampaign
  dsimp only
  generalize { s with preVoteActive := false }.setState .candidate = x at hstate
  have hpersist : Within cfg s (x.call (.persistState (wrap64 (x.currentTerm + 1)) x.selfId)) := 
    hstate.trans (.cons (e := .persistState _ _) trivial rfl)
  split
  all_goals exact hpersist.trans (resetElectionTimer_within io _)

theorem becomeCandidate_within (io : Io) (s : Server) : Within cfg s (s.becomeCandidate cfg io) := by
  have hbegin : Within cfg s (s.beginCampaign cfg io) := beginCampaign_within io s
  have hsent := hbegin.trans (.of_sends (sends_requestVotes cfg (s.beginCampaign cfg io)))
  unfold becomeCandidate
  dsimp only
  split
  · exact hsent.trans (becomeLeader_within io _)
  · exact hsent

theorem sendInstallSnapshot_within (peer : Peer) (s : Server) : Within cfg s (s.sendInstallSnapshot cfg peer) :=
  .of_sends (sends_sendInstallSnapshot cfg peer s)

theorem sendAppendEntries_within (peer : Peer) (s : Server) : Within cfg s (s.sendAppendEntries cfg peer) :=
  .of_sends (sends_sendAppendEntries cfg peer s)

/-- `m_snapshot_save` keeps to the buffer it is given. -/
def Fits (cfg : Config) (io : Io) : Prop := ∀ k bytes, savedAt io k = some bytes → bytes.length ≤ cfg.snapshotMax

theorem applyCommitted_within (hfits : Fits cfg io) (s : Server) : Within cfg s (s.applyCommitted cfg io) := by
  obtain ⟨-, -, -, evs, hevs, happly⟩ := applyLoop_spec cfg (s.commitIndex - s.lastApplied) s
  have hloop : Within cfg s (applyLoop cfg (s.commitIndex - s.lastApplied) s) := by
    refine ⟨evs, hevs, fun e he => ?_⟩
    have := happly e he
    cases e <;> trivial
  unfold applyCommitted
  generalize applyLoop cfg (s.commitIndex - s.lastApplied) s = x at hloop
  rcases maybeCompact_cases cfg io x with ⟨-, k, he⟩ | ⟨-, t, bytes, -, -, hsaved, he⟩
  · rw [he]
    exact hloop.trans (.of_calls rfl)
  · rw [he]
    have hsave : Within cfg x (x.call (.snapshotSave x.lastApplied bytes)) :=
      .cons (e := .snapshotSave x.lastApplied bytes) (hfits _ _ hsaved) rfl
    exact (hloop.trans hsave).trans (.cons (e := .persistLogCompact x.lastApplied) trivial rfl)

theorem leaderAdvanceCommit_within (hfits : Fits cfg io) (s : Server) : Within cfg s (s.leaderAdvanceCommit cfg io) := by
  unfold leaderAdvanceCommit
  split <;> exact applyCommitted_within hfits _

/-! ## The handlers that store nothing from the message -/

theorem handleRequestVote_within (io : Io) (rv : RequestVote) (s : Server) : Within cfg s (s.handleRequestVote cfg io rv) := by
  unfold handleRequestVote
  split
  · rename_i y hy
    have htick : Within cfg s s.tick := .of_calls rfl
    exact htick.trans (.of_sends (sends_requestVoteGuard hy))
  · dsimp only
    have hdown : Within cfg s (s.tick.maybeStepDown rv.term) := maybeStepDown_within rv.term s.tick
    generalize s.tick.maybeStepDown rv.term = x at hdown
    split
    · exact hdown.trans (.emit _ x)
    split
    · have hvote : Within cfg s ({ x with votedFor := rv.candidateId }.persistState) :=
        hdown.trans (.cons (e := .persistState _ _) trivial rfl)
      exact (hvote.trans (resetElectionTimer_within io _)).trans (.emit _ _)
    · exact hdown.trans (.emit _ x)

theorem handleRequestVoteResp_within (io : Io) (sender : Nat) (rr : RequestVoteResp) (s : Server) :
    Within cfg s (s.handleRequestVoteResp cfg io sender rr) := by
  unfold handleRequestVoteResp
  split
  · split
    · exact .refl s
    split
    · dsimp only
      split
      · exact becomeCandidate_within io { s with preVotesGranted := _, preVoteActive := false }
      · exact .of_calls rfl
    · exact .refl s
  split
  · exact .refl s
  split
  · exact maybeStepDown_within rr.term s
  split
  · exact .refl s
  split
  · exact .refl s
  split
  · exact .refl s
  split
  · dsimp only
    split
    · exact becomeLeader_within io { s with nodes := _, votesGranted := _ }
    · exact .of_calls rfl
  · exact .refl s

theorem handleAppendEntriesResp_within (hfits : Fits cfg io) (sender : Nat) (rr : AppendEntriesResp) (s : Server) :
    Within cfg s (s.handleAppendEntriesResp cfg io sender rr) := by
  unfold handleAppendEntriesResp
  split
  · exact maybeStepDown_within rr.term s
  split
  · exact .refl s
  split
  · exact .refl s
  dsimp only
  split
  · have hadvance := fun nodes => leaderAdvanceCommit_within hfits { s.tick with nodes := nodes }
    split
    · exact (hadvance _).trans (sendAppendEntries_within _ _)
    · exact hadvance _
  · exact (sendAppendEntries_within _ { s.tick with nodes := _ }).trans (applyCommitted_within hfits _)

theorem handleInstallSnapshot_within (hfits : Fits cfg io) (is : InstallSnapshot) (s : Server) :
    Within cfg s (s.handleInstallSnapshot cfg io is) := by
  unfold handleInstallSnapshot
  split
  · exact .emit _ s
  have hstore : Within cfg s (((s.maybeStepDown is.term).becomeFollower cfg io is.term is.leaderId).storeChunk cfg is) :=
    .of_spares ((follow_spares stepping_spares cfg io is.term is.leaderId s).trans (storeChunk_spares cfg is _))
  dsimp only
  generalize ((s.maybeStepDown is.term).becomeFollower cfg io is.term is.leaderId).storeChunk cfg is = x at hstore
  split
  · exact hstore.trans (.emit _ x)
  · have hload : ∀ y : Server, Within cfg s y → Within cfg s
        (((y.call (.persistLogCompact y.log.base)).replySnapshot is).applyCommitted cfg io) := by
      intro y hy
      refine Within.trans ?_ (applyCommitted_within hfits _)
      exact (hy.trans (.cons (e := .persistLogCompact y.log.base) trivial rfl)).trans (.emit _ _)
    refine hload _ ?_
    split
    · exact hstore.trans (.cons (e := .snapshotLoad _ _) trivial rfl)
    · exact hstore

theorem handleInstallSnapshotResp_within (hfits : Fits cfg io) (sender : Nat) (rr : InstallSnapshotResp) (s : Server) :
    Within cfg s (s.handleInstallSnapshotResp cfg io sender rr) := by
  unfold handleInstallSnapshotResp
  split
  · exact maybeStepDown_within rr.term s
  split
  · exact .refl s
  split
  · exact .refl s
  dsimp only
  split
  · exact sendInstallSnapshot_within _ { s.tick with nodes := _ }
  · exact (sendAppendEntries_within _ { s.tick with nodes := _ }).trans (applyCommitted_within hfits _)

end Server

/-! ## The append loop -/

/-- The `j`-th entry of the slice from index `i` on is new: it, or one before it, is above the edge and not in the ring. -/
def LogRing.Fresh (cfg : Config) (r : LogRing) (i : Nat) (es : List Entry) (j : Nat) : Prop :=
  ∃ k, k ≤ j ∧ r.base < i + k ∧ r.termAt cfg (i + k) ≠ es[k]?.map Entry.term

namespace LogRing

variable {cfg : Config} {r : LogRing} {i : Nat} {e : Entry} {es : List Entry}

theorem fresh_zero : r.Fresh cfg i (e :: es) 0 ↔ r.base < i ∧ r.termAt cfg i ≠ some e.term := by
  constructor
  · rintro ⟨k, hk, hb, hterm⟩
    obtain rfl : k = 0 := by omega
    exact ⟨hb, hterm⟩
  · rintro ⟨hb, hterm⟩
    exact ⟨0, Nat.le_refl _, hb, hterm⟩

theorem fresh_succ {j : Nat} :
    r.Fresh cfg i (e :: es) (j + 1) ↔ r.Fresh cfg i (e :: es) 0 ∨ r.Fresh cfg (i + 1) es j := by
  constructor
  · rintro ⟨k, hk, hb, hterm⟩
    cases k with
    | zero => exact .inl ⟨0, Nat.le_refl _, hb, hterm⟩
    | succ k =>
      rw [show i + (k + 1) = i + 1 + k by omega] at hb hterm
      exact .inr ⟨k, by omega, hb, hterm⟩
  · rintro (⟨k, hk, h⟩ | ⟨k, hk, hb, hterm⟩)
    · exact ⟨k, by omega, h⟩
    · refine ⟨k + 1, by omega, by omega, ?_⟩
      rw [show i + (k + 1) = i + 1 + k by omega]
      exact hterm

theorem fresh_of_zero (h : r.Fresh cfg i (e :: es) 0) : ∀ j, r.Fresh cfg i (e :: es) j
  | 0 => h
  | _ + 1 => fresh_succ.2 (.inl h)

/-- Past the end everything is new. -/
theorem fresh_past {j : Nat} (h : r.lastIndex < i) (he : es[j]? = some e) : r.Fresh cfg i es j := by
  have hb : r.base < i := Nat.lt_of_le_of_lt (Nat.le_add_right _ _) h
  refine ⟨0, Nat.zero_le _, hb, ?_⟩
  rw [Nat.add_zero, termAt_eq_none (by omega) (.inr h)]
  cases es with
  | nil => cases he
  | cons x es => exact fun h => by cases h

/-- The loop is at an index the ring reaches, or the ring is full below it. -/
def Reaches (cfg : Config) (r : LogRing) (i : Nat) : Prop :=
  i ≤ r.lastIndex + 1 ∨ (cfg.logCapacity ≤ r.count ∧ r.base + cfg.logCapacity < i)

end LogRing

namespace Server

variable {cfg : Config} {s x y : Server}

/-- In two parts. -/
theorem within_trans_iff (h : s.calls <:+ x.calls) (h' : x.calls <:+ y.calls) :
    Within cfg s y ↔ Within cfg s x ∧ Within cfg x y := by
  refine ⟨fun hy => ?_, fun hy => hy.1.trans hy.2⟩
  obtain ⟨new, hnew⟩ := h
  obtain ⟨newer, hnewer⟩ := h'
  obtain ⟨evs, hevs, hin⟩ := hy
  have hall : evs = newer ++ new := by
    rw [← hnewer, ← hnew, ← List.append_assoc] at hevs
    exact (List.append_cancel_right hevs).symm
  subst hall
  exact ⟨⟨new, hnew.symm, fun e he => hin e (List.mem_append.2 (.inr he))⟩,
    ⟨newer, hnewer.symm, fun e he => hin e (List.mem_append.2 (.inl he))⟩⟩

/-- **A push past the end**: it stores the entry exactly if the ring has room up to its index. -/
theorem pushEntry_within {i : Nat} (e : Entry) (hlt : s.log.lastIndex < i) (hi : s.log.Reaches cfg i) :
    (s.pushEntry cfg { e with index := i }).log.base = s.log.base ∧
      (s.pushEntry cfg { e with index := i }).log.lastIndex < i + 1 ∧
      (s.pushEntry cfg { e with index := i }).log.Reaches cfg (i + 1) ∧
      s.calls <:+ (s.pushEntry cfg { e with index := i }).calls ∧
      (Within cfg s (s.pushEntry cfg { e with index := i }) ↔
        (i ≤ s.log.base + cfg.logCapacity → e.dataLen ≤ cfg.maxEntryData)) := by
  unfold LogRing.Reaches LogRing.lastIndex at *
  unfold pushEntry LogRing.push LogRing.full
  by_cases hfull : cfg.logCapacity ≤ s.log.count
  · rw [if_pos (by simpa using hfull)]
    dsimp only
    exact ⟨rfl, Nat.lt_succ_of_lt hlt, .inr ⟨hfull, by omega⟩, List.suffix_refl _, fun _ h => by omega, fun _ => .refl s⟩
  · rw [if_neg (by simpa using hfull)]
    refine ⟨rfl, ?_, .inl ?_, List.suffix_cons _ _, fun hin _ => ?_, fun hlen => ?_⟩
    · show s.log.base + (s.log.count + 1) < i + 1
      omega
    · show i + 1 ≤ s.log.base + (s.log.count + 1) + 1
      omega
    · obtain ⟨evs, hevs, hall⟩ := hin
      obtain rfl : [.persistLogAppend { e with index := i }] = evs := List.append_cancel_right (hevs)
      exact hall _ (List.mem_singleton.2 rfl)
    · exact .cons (e := .persistLogAppend { e with index := i }) (hlen (by omega)) rfl

/-- One turn of the loop: either the entry is below the edge or there already, or it is new. -/
theorem appendEntry_within (i : Nat) (e : Entry) (hi : s.log.Reaches cfg i) :
    (¬ (s.log.base < i ∧ s.log.termAt cfg i ≠ some e.term) ∧ s.appendEntry cfg i e = s ∧ s.log.Reaches cfg (i + 1)) ∨
    ((s.log.base < i ∧ s.log.termAt cfg i ≠ some e.term) ∧ (s.appendEntry cfg i e).log.base = s.log.base ∧
      (s.appendEntry cfg i e).log.lastIndex < i + 1 ∧ (s.appendEntry cfg i e).log.Reaches cfg (i + 1) ∧
      s.calls <:+ (s.appendEntry cfg i e).calls ∧
      (Within cfg s (s.appendEntry cfg i e) ↔ (i ≤ s.log.base + cfg.logCapacity → e.dataLen ≤ cfg.maxEntryData))) := by
  unfold appendEntry
  by_cases hb : i ≤ s.log.base
  · rw [if_pos hb]
    exact .inl ⟨fun h => absurd h.1 (Nat.not_lt.2 hb), rfl, .inl (by unfold LogRing.lastIndex; omega)⟩
  rw [if_neg hb]
  have hb' : s.log.base < i := Nat.lt_of_not_le hb
  by_cases hl : i ≤ s.log.lastIndex
  · obtain ⟨t, ht⟩ : ∃ t, s.log.termAt cfg i = some t := LogRing.termAt_isSome hb' hl
    rw [if_pos hl, ht]
    dsimp only
    by_cases hte : t = e.term
    · rw [if_pos hte]
      exact .inl ⟨fun h => h.2 (by rw [hte]), rfl, .inl (by omega)⟩
    · rw [if_neg hte]
      obtain ⟨hlast, hbase⟩ := LogRing.truncateSuffix_lastIndex hb' hl
      have hcut : Within cfg s ({ s with log := s.log.truncateSuffix i }.call (.persistLogTruncate i)) :=
        .cons (e := .persistLogTruncate i) trivial rfl
      have hlt : ({ s with log := s.log.truncateSuffix i }.call (.persistLogTruncate i)).log.lastIndex < i :=
        Nat.lt_of_lt_of_eq (Nat.lt_succ_self _) hlast
      have hreach : ({ s with log := s.log.truncateSuffix i }.call (.persistLogTruncate i)).log.Reaches cfg i :=
        .inl (Nat.le_of_eq hlast.symm)
      obtain ⟨h1, h2, h3, h4, h5⟩ := pushEntry_within e hlt hreach
      refine .inr ⟨⟨hb', by simpa using hte⟩, h1.trans hbase, h2, h3, (List.suffix_cons _ _).trans h4, ?_⟩
      rw [within_trans_iff (s := s) (List.suffix_cons _ _) h4, h5]
      exact ⟨fun h => hbase ▸ h.2, fun h => ⟨hcut, hbase.symm ▸ h⟩⟩
  · rw [if_neg hl]
    have hl' : s.log.lastIndex < i := Nat.lt_of_not_le hl
    refine .inr ⟨⟨hb', ?_⟩, pushEntry_within e hl' hi⟩
    rw [LogRing.termAt_eq_none (by omega) (.inr hl')]
    exact fun h => by cases h

/-- **What the loop stores**: of the new entries, those the ring has room for. -/
theorem appendLoop_within : ∀ (es : List Entry) (i : Nat) (s : Server), s.log.Reaches cfg i →
    s.calls <:+ (appendLoop cfg i es s).calls ∧
    (Within cfg s (appendLoop cfg i es s) ↔ ∀ j e, es[j]? = some e → s.log.Fresh cfg i es j →
      i + j ≤ s.log.base + cfg.logCapacity → e.dataLen ≤ cfg.maxEntryData)
  | [], i, s, _ => ⟨List.suffix_refl _, fun _ j e he => (by cases he), fun _ => .refl s⟩
  | e :: es, i, s, hi => by
    rw [appendLoop]
    rcases appendEntry_within i e hi with ⟨hold, hsame, hnext⟩ | ⟨hnew, hbase, hlast, hnext, hcalls, hin⟩
    · rw [hsame]
      obtain ⟨hsuffix, hrest⟩ := appendLoop_within es (i + 1) s hnext
      refine ⟨hsuffix, hrest.trans ⟨fun h j x hx hfresh hroom => ?_, fun h j x hx hfresh hroom => ?_⟩⟩
      · cases j with
        | zero => exact absurd (LogRing.fresh_zero.1 hfresh) hold
        | succ j =>
          rcases LogRing.fresh_succ.1 hfresh with hfresh | hfresh
          · exact absurd (LogRing.fresh_zero.1 hfresh) hold
          · exact h j x hx hfresh (by omega)
      · exact h (j + 1) x hx (LogRing.fresh_succ.2 (.inr hfresh)) (by omega)
    · obtain ⟨hsuffix, hrest⟩ := appendLoop_within es (i + 1) (s.appendEntry cfg i e) hnext
      rw [hbase] at hrest
      have hfirst : s.log.Fresh cfg i (e :: es) 0 := LogRing.fresh_zero.2 hnew
      have hall := LogRing.fresh_of_zero hfirst
      refine ⟨hcalls.trans hsuffix, ?_⟩
      rw [within_trans_iff hcalls hsuffix, hin, hrest]
      constructor
      · rintro ⟨hhead, htail⟩ j x hx - hroom
        cases j with
        | zero =>
          obtain rfl : e = x := by simpa using hx
          exact hhead hroom
        | succ j => exact htail j x hx (LogRing.fresh_past hlast hx) (by omega)
      · intro h
        refine ⟨fun hroom => h 0 e rfl (hall 0) hroom, fun j x hx _ hroom => h (j + 1) x hx (hall (j + 1)) (by omega)⟩

end Server

/-! ## The loop in words -/

namespace WordRing

variable {cfg : Config} {r : WordRing}

/-- The last index, unless the sum goes past the last word. -/
theorem lastIndex_cases (r : WordRing) :
    (r.base.toNat + r.count.toNat < 2 ^ 64 ∧ r.lastIndex.toNat = r.base.toNat + r.count.toNat) ∨
      (2 ^ 64 ≤ r.base.toNat + r.count.toNat ∧ r.lastIndex.toNat + 2 ^ 64 = r.base.toNat + r.count.toNat) := by
  have hbase := r.base.toNat_lt
  have hcount := r.count.toNat_lt
  rw [WordRing.lastIndex, UInt64.toNat_add, UInt32.toNat_toUInt64]
  omega

/-- **A live index** is the same in numbers, in whatever state the ring is. -/
theorem termAt_live {i : UInt64} (hb : r.base < i) (hl : i ≤ r.lastIndex) :
    r.termAt cfg i = r.toLogRing.termAt cfg i.toNat := by
  have hbn := UInt64.lt_iff_toNat_lt.1 hb
  have hln := UInt64.le_iff_toNat_le.1 hl
  have hhead := r.head.toNat_lt
  have hcount := r.count.toNat_lt
  have hbase := r.base.toNat_lt
  obtain ⟨hroom, hlast⟩ : r.base.toNat + r.count.toNat < 2 ^ 64 ∧ r.lastIndex.toNat = r.base.toNat + r.count.toNat := by
    rcases r.lastIndex_cases with h | h <;> omega
  have hdist := toNat_above hbn
  have hzero : i ≠ 0 := by
    rintro rfl
    rw [UInt64.toNat_zero] at hbn
    omega
  have hne : i ≠ r.base := by
    rintro rfl
    omega
  have hout : ¬ (i ≤ r.base ∨ r.lastIndex < i) := by
    rw [UInt64.le_iff_toNat_le, UInt64.lt_iff_toNat_lt]
    omega
  unfold WordRing.termAt LogRing.termAt WordRing.at? LogRing.at?
  rw [if_neg hzero, if_neg hne, if_neg hout, if_neg (by omega : ¬ i.toNat = 0),
    if_neg (show ¬ i.toNat = r.toLogRing.base from fun h => hne (UInt64.toNat_inj.1 h)),
    if_neg (by rw [toLogRing_base, toLogRing_lastIndex]; omega), slot_toNat, UInt64.toNat_add, UInt32.toNat_toUInt64, hdist,
    Nat.mod_eq_of_lt (by omega : r.head.toNat + (i.toNat - r.base.toNat - 1) < 2 ^ 64)]
  rfl

theorem truncateSuffix_live {i : UInt64} (hb : r.base < i) (hl : i ≤ r.lastIndex) :
    (r.truncateSuffix i).count.toNat = i.toNat - r.base.toNat - 1 ∧ (r.truncateSuffix i).base = r.base := by
  have hbn := UInt64.lt_iff_toNat_lt.1 hb
  have hln := UInt64.le_iff_toNat_le.1 hl
  have hi := i.toNat_lt
  have hcount := r.count.toNat_lt
  have hbase := r.base.toNat_lt
  have hone : (r.base + 1).toNat = r.base.toNat + 1 := by
    rw [UInt64.toNat_add, UInt64.toNat_one, Nat.mod_eq_of_lt (by omega)]
  unfold WordRing.truncateSuffix
  by_cases hnext : i ≤ r.base + 1
  · rw [if_pos hnext]
    have hle := UInt64.le_iff_toNat_le.1 hnext
    refine ⟨?_, rfl⟩
    show 0 = _
    omega
  rw [if_neg hnext, if_neg (fun hpast => absurd (UInt64.lt_iff_toNat_lt.1 hpast) (by omega))]
  refine ⟨?_, rfl⟩
  show (i - r.base - 1).toUInt32.toNat = _
  rw [UInt64.toNat_toUInt32, toNat_above hbn]
  refine Nat.mod_eq_of_lt ?_
  rcases r.lastIndex_cases with h | h <;> omega

end WordRing

namespace WordServer

variable {cfg : Config} {io : Io} {w : WordServer} {s : Server} {n : Nat}

theorem pushEntry_base (cfg : Config) (e : Entry) (w : WordServer) : (w.pushEntry cfg e).log.base = w.log.base := by
  unfold pushEntry WordRing.push
  split
  · rename_i r hr
    split at hr
    · cases hr
    · cases hr
      rfl
  · rfl

theorem appendEntry_base (cfg : Config) (i : UInt64) (e : Entry) (w : WordServer) :
    (w.appendEntry cfg i e).log.base = w.log.base := by
  have hcut : (w.log.truncateSuffix i).base = w.log.base := by
    unfold WordRing.truncateSuffix
    split
    · rfl
    split <;> rfl
  unfold appendEntry
  split
  · rfl
  split
  · split
    · rfl
    · exact (pushEntry_base _ _ _).trans hcut
  · exact pushEntry_base _ _ _

/-- The loop in words is as far as the loop in numbers: the callbacks are the same, and so are the terms still to be
compared. -/
structure Tracks (cfg : Config) (n : Nat) (w : WordServer) (s : Server) : Prop where
  calls : w.rest.calls = s.calls
  base : s.log.base = w.log.base.toNat
  count : s.log.count = w.log.count.toNat
  terms : ∀ i : UInt64, n ≤ i.toNat → w.log.base < i → i ≤ w.log.lastIndex → w.log.termAt cfg i = s.log.termAt cfg i.toNat

theorem tracks_view (cfg : Config) (n : Nat) (w : WordServer) : Tracks cfg n w w.view :=
  ⟨rfl, rfl, rfl, fun _ _ hb hl => WordRing.termAt_live hb hl⟩

/-- Above all live indices a push is a push, wherever the slot. -/
theorem pushEntry_tracks (hcalls : w.rest.calls = s.calls) (hbase : s.log.base = w.log.base.toNat)
    (hcount : s.log.count = w.log.count.toNat) (e : Entry) (hn : n < 2 ^ 64)
    (hlt : w.log.base.toNat + w.log.count.toNat < n) :
    Tracks cfg (n + 1) (w.pushEntry cfg e) (s.pushEntry cfg e) ∧
      (w.pushEntry cfg e).log.base.toNat + (w.pushEntry cfg e).log.count.toNat < 2 ^ 64 := by
  have hcap := cfg.logCapacity_lt
  have hbelow : ∀ x : WordServer, x.log.base.toNat + x.log.count.toNat ≤ n → ∀ i : UInt64, n + 1 ≤ i.toNat →
      i ≤ x.log.lastIndex → False := by
    intro x hx i hi hl
    have := UInt64.le_iff_toNat_le.1 hl
    rcases x.log.lastIndex_cases with h | h <;> omega
  unfold pushEntry Server.pushEntry WordRing.push LogRing.push
  have hfull : s.log.full cfg = w.log.full cfg := by rw [LogRing.full, WordRing.full, hcount]
  rw [hfull]
  by_cases hf : w.log.full cfg = true
  · rw [if_pos hf, if_pos hf]
    exact ⟨⟨hcalls, hbase, hcount, fun i hi _ hl => (hbelow w (Nat.le_of_lt hlt) i hi hl).elim⟩, Nat.lt_trans hlt hn⟩
  · have hroom : w.log.count.toNat < cfg.logCapacity := by simpa [WordRing.full] using hf
    have hnext : (w.log.count + 1).toNat = w.log.count.toNat + 1 := by
      rw [UInt32.toNat_add, UInt32.toNat_one, Nat.mod_eq_of_lt (by omega)]
    rw [if_neg hf, if_neg hf]
    refine ⟨⟨congrArg (_ :: ·) hcalls, hbase, ?_, fun i hi _ hl => (hbelow _ ?_ i hi hl).elim⟩, ?_⟩
    · show s.log.count + 1 = (w.log.count + 1).toNat
      rw [hnext, hcount]
    · show w.log.base.toNat + (w.log.count + 1).toNat ≤ n
      omega
    · show w.log.base.toNat + (w.log.count + 1).toNat < 2 ^ 64
      omega

/-- **One turn**: an index at or below the edge is passed over; above it no sum goes past the last word. -/
theorem appendEntry_tracks (h : Tracks cfg n w s) (e : Entry) (hn : n < 2 ^ 64)
    (hroom : w.log.base.toNat + w.log.count.toNat < 2 ^ 64 ∨ n ≤ w.log.base.toNat) :
    Tracks cfg (n + 1) (w.appendEntry cfg (UInt64.ofNat n) e) (s.appendEntry cfg n e) ∧
      (w.log.base.toNat + w.log.count.toNat < 2 ^ 64 →
        w.log.base.toNat + (w.appendEntry cfg (UInt64.ofNat n) e).log.count.toNat < 2 ^ 64) := by
  have hword : (UInt64.ofNat n).toNat = n := toNat_ofNat hn
  have hskip : Tracks cfg (n + 1) w s := ⟨h.calls, h.base, h.count, fun i hi => h.terms i (by omega)⟩
  have hbasekept := appendEntry_base cfg (UInt64.ofNat n) e w
  rcases Nat.lt_or_ge w.log.base.toNat n with hb | hb
  · obtain ⟨hfit, hlast⟩ : w.log.base.toNat + w.log.count.toNat < 2 ^ 64 ∧
        w.log.lastIndex.toNat = w.log.base.toNat + w.log.count.toNat := by
      rcases w.log.lastIndex_cases with h | h <;> omega
    suffices hpair : Tracks cfg (n + 1) (w.appendEntry cfg (UInt64.ofNat n) e) (s.appendEntry cfg n e) ∧
        (w.appendEntry cfg (UInt64.ofNat n) e).log.base.toNat +
          (w.appendEntry cfg (UInt64.ofNat n) e).log.count.toNat < 2 ^ 64 from
      ⟨hpair.1, fun _ => by rw [← hbasekept]; exact hpair.2⟩
    unfold appendEntry Server.appendEntry
    rw [if_neg (show ¬ UInt64.ofNat n ≤ w.log.base by rw [UInt64.le_iff_toNat_le, hword]; omega),
      if_neg (show ¬ n ≤ s.log.base by rw [h.base]; omega)]
    have hslast : s.log.lastIndex = w.log.base.toNat + w.log.count.toNat := by rw [LogRing.lastIndex, h.base, h.count]
    rcases Nat.lt_or_ge (w.log.base.toNat + w.log.count.toNat) n with hl | hl
    · rw [if_neg (show ¬ UInt64.ofNat n ≤ w.log.lastIndex by rw [UInt64.le_iff_toNat_le, hword, hlast]; omega),
        if_neg (show ¬ n ≤ s.log.lastIndex by rw [hslast]; omega), hword]
      exact pushEntry_tracks h.calls h.base h.count _ hn hl
    · have hterm := h.terms (UInt64.ofNat n) (by omega) (UInt64.lt_iff_toNat_lt.2 (by omega))
        (UInt64.le_iff_toNat_le.2 (by omega))
      obtain ⟨t, ht⟩ : ∃ t, s.log.termAt cfg n = some t :=
        LogRing.termAt_isSome (by rw [h.base]; exact hb) (by rw [hslast]; exact hl)
      rw [if_pos (show UInt64.ofNat n ≤ w.log.lastIndex from UInt64.le_iff_toNat_le.2 (by omega)),
        if_pos (show n ≤ s.log.lastIndex by rw [hslast]; exact hl), hterm, hword, ht]
      dsimp only
      by_cases hte : t = e.term
      · rw [if_pos hte, if_pos hte]
        exact ⟨hskip, hfit⟩
      · rw [if_neg hte, if_neg hte]
        obtain ⟨hcut, hkept⟩ := WordRing.truncateSuffix_live (r := w.log) (i := UInt64.ofNat n)
          (UInt64.lt_iff_toNat_lt.2 (by omega)) (UInt64.le_iff_toNat_le.2 (by omega))
        obtain ⟨hscut, hskept⟩ := LogRing.truncateSuffix_lastIndex (r := s.log) (i := n) (by rw [h.base]; exact hb)
          (by rw [hslast]; exact hl)
        rw [LogRing.lastIndex, hskept, h.base] at hscut
        refine pushEntry_tracks (congrArg (_ :: ·) h.calls) ?_ ?_ _ hn ?_
        · exact hskept.trans (h.base.trans (congrArg UInt64.toNat hkept.symm))
        · show (s.log.truncateSuffix n).count = (w.log.truncateSuffix (UInt64.ofNat n)).count.toNat
          omega
        · show (w.log.truncateSuffix _).base.toNat + (w.log.truncateSuffix _).count.toNat < n
          rw [hkept]
          omega
  · unfold appendEntry Server.appendEntry
    rw [if_pos (UInt64.le_iff_toNat_le.2 (by omega)), if_pos (by rw [h.base]; exact hb)]
    exact ⟨hskip, id⟩

/-- **The loop in words and the loop in numbers make the same callbacks**, over the entries whose index is a word. -/
theorem appendLoop_tracks : ∀ (es : List Entry) {n : Nat} {w : WordServer} {s : Server}, Tracks cfg n w s →
    (w.log.base.toNat + w.log.count.toNat < 2 ^ 64 ∨ n + es.length ≤ w.log.base.toNat + 1) → n + es.length ≤ 2 ^ 64 →
    (w.appendLoop cfg (UInt64.ofNat n) es).rest.calls = (Server.appendLoop cfg n es s).calls ∧
      (w.appendLoop cfg (UInt64.ofNat n) es).log.base = w.log.base
  | [], _, _, _, h, _, _ => ⟨h.calls, rfl⟩
  | e :: es, n, w, s, h, hroom, hn => by
    rw [List.length_cons] at hroom hn
    obtain ⟨hnext, hkeeps⟩ := appendEntry_tracks h e (by omega) (hroom.imp id (by omega))
    have hbase := appendEntry_base cfg (UInt64.ofNat n) e w
    rw [appendLoop, Server.appendLoop, ofNat_succ]
    obtain ⟨hcalls, hkept⟩ := appendLoop_tracks es hnext (by
      rw [hbase]
      exact hroom.imp hkeeps (by omega)) (by omega)
    exact ⟨hcalls, hkept.trans hbase⟩

theorem appendLoop_append (cfg : Config) : ∀ (es es' : List Entry) (n : Nat) (w : WordServer),
    w.appendLoop cfg (UInt64.ofNat n) (es ++ es') =
      (w.appendLoop cfg (UInt64.ofNat n) es).appendLoop cfg (UInt64.ofNat (n + es.length)) es'
  | [], _, _, _ => rfl
  | e :: es, es', n, w => by
    rw [List.cons_append, appendLoop, appendLoop, ofNat_succ, appendLoop_append cfg es es' (n + 1), List.length_cons,
      show n + 1 + es.length = n + (es.length + 1) by omega]

/-- Entries whose indices are at or below the edge are passed over. -/
theorem appendLoop_below : ∀ (es : List Entry) {n : Nat} {w : WordServer},
    (∀ j, j < es.length → UInt64.ofNat (n + j) ≤ w.log.base) → w.appendLoop cfg (UInt64.ofNat n) es = w
  | [], _, _, _ => rfl
  | e :: es, n, w, h => by
    have hfirst : w.appendEntry cfg (UInt64.ofNat n) e = w := if_pos (h 0 (by simp))
    rw [appendLoop, hfirst, ofNat_succ]
    refine appendLoop_below es (fun j hj => ?_)
    have hj' := h (j + 1) (by simpa using hj)
    rwa [show n + (j + 1) = n + 1 + j by omega] at hj'

/-- **What the loop reads**: every entry above the edge. -/
theorem appendReads_inBounds : ∀ (es : List Entry) (n k : Nat) (w : WordServer),
    (∀ a ∈ appendReads cfg (UInt64.ofNat n) k es w, a.InBounds cfg) ↔
      ∀ j, j < es.length → w.log.base < UInt64.ofNat (n + j) → k + j < cfg.maxAppendEntries
  | [], _, _, _ => by simp [appendReads]
  | e :: es, n, k, w => by
    rw [appendReads, List.forall_mem_append, ofNat_succ, appendReads_inBounds es (n + 1) (k + 1), appendEntry_base]
    constructor
    · rintro ⟨hhead, htail⟩ j hj hb
      cases j with
      | zero =>
        rw [if_neg (show ¬ UInt64.ofNat n ≤ w.log.base from UInt64.not_le.2 hb)] at hhead
        exact hhead _ (List.mem_singleton.2 rfl)
      | succ j =>
        have := htail j (by simpa using hj) (by rwa [show n + 1 + j = n + (j + 1) by omega])
        omega
    · intro h
      refine ⟨fun a ha => ?_, fun j hj hb => ?_⟩
      · split at ha
        · cases ha
        · rename_i hb
          obtain rfl := List.mem_singleton.1 ha
          exact h 0 (by simp) (UInt64.not_le.1 hb)
      · have := h (j + 1) (by simpa using hj) (by rwa [show n + (j + 1) = n + 1 + j by omega])
        omega

end WordServer

/-! ## Exactly when nothing is out of bounds -/

namespace Server

variable {cfg : Config} {io : Io} {s x y : Server}

theorem chunkAccesses_inBounds (hmax : cfg.snapshotMax < 2 ^ 32) {is : InstallSnapshot} (hoffset : is.offset < 2 ^ 32) :
    (∀ a ∈ chunkAccesses cfg is, a.InBounds cfg) ↔ (add32 is.offset is.dataLen ≤ cfg.snapshotMax →
      is.dataLen ≤ cfg.snapshotChunk ∧ is.offset + is.dataLen < 2 ^ 32) := by
  unfold chunkAccesses
  split
  · rename_i hsum
    have hmem : (∀ a ∈ (List.range is.dataLen).flatMap (fun k => [Access.data k, .snapBuf (is.offset + k)]), a.InBounds cfg) ↔
        ∀ k, k < is.dataLen → k < cfg.snapshotChunk ∧ is.offset + k < cfg.snapshotMax := by
      simp only [List.mem_flatMap, List.mem_range, List.mem_cons, List.not_mem_nil, or_false]
      constructor
      · intro h k hk
        exact ⟨h (.data k) ⟨k, hk, .inl rfl⟩, h (.snapBuf (is.offset + k)) ⟨k, hk, .inr rfl⟩⟩
      · rintro h a ⟨k, hk, rfl | rfl⟩
        · exact (h k hk).1
        · exact (h k hk).2
    rw [hmem]
    constructor
    · intro h _
      rcases Nat.eq_zero_or_pos is.dataLen with hzero | hpos
      · omega
      · have := h (is.dataLen - 1) (by omega)
        omega
    · intro h k hk
      obtain ⟨hlen, hwrap⟩ := h hsum
      -- the sum is the true one
      rw [add32, Nat.mod_eq_of_lt hwrap] at hsum
      omega
  · rename_i hsum
    exact ⟨fun _ h => absurd h hsum, fun _ a ha => by cases ha⟩

theorem Within.suffix (h : Within cfg s x) : s.calls <:+ x.calls := by
  obtain ⟨evs, hevs, -⟩ := h
  exact ⟨evs, hevs.symm⟩

/-- What comes before and after is in bounds anyway. -/
theorem within_middle {z : Server} (h : Within cfg s x) (h' : Within cfg y z) (hxy : x.calls <:+ y.calls) :
    Within cfg s z ↔ Within cfg x y := by
  rw [within_trans_iff (h.suffix.trans hxy) h'.suffix, within_trans_iff h.suffix hxy]
  exact ⟨fun hz => hz.1.2, fun hy => ⟨⟨h, hy⟩, h'⟩⟩

/-- Only the callbacks matter. -/
theorem within_congr (h : x.calls = y.calls) : Within cfg s x ↔ Within cfg s y := by
  unfold Within
  rw [h]

end Server

/-- The entries of the message that have an index: `m_prev_log_index + 1 + i` is at most 2^64 − 1. -/
def AppendEntries.indexed (ae : AppendEntries) : List Entry := ae.view.take (2 ^ 64 - 1 - ae.prevLogIndex)

/-- The fields of a message that are lengths, offsets and the index before its entries fit their words. -/
def Payload.Typed : Payload → Prop
  | .appendEntries ae => ae.nEntries < 2 ^ 16 ∧ ae.prevLogIndex < 2 ^ 64
  | .installSnapshot is => is.offset < 2 ^ 32 ∧ is.dataLen < 2 ^ 16
  | _ => True

namespace WordServer

variable {cfg : Config} {io : Io} {w : WordServer}

/-- **The messages that do no harm.**  Of an `AppendEntries` that is not refused, no more entries have an index than there
are slots, unless all are below the edge, and no new entry the ring has room for claims more data than it has.  Of an
`InstallSnapshot` that is not old and whose chunk passes the bound check, the chunk is not longer than a chunk and the sum in
the check did not wrap. -/
def Benign (cfg : Config) (w : WordServer) : Payload → Prop
  | .appendEntries ae => w.rest.currentTerm ≤ ae.term → w.prevMismatch cfg ae = none →
      (ae.indexed.length ≤ cfg.maxAppendEntries ∨ ae.prevLogIndex + ae.indexed.length ≤ w.log.base.toNat) ∧
      ∀ j e, ae.indexed[j]? = some e → w.log.toLogRing.Fresh cfg (ae.prevLogIndex + 1) ae.indexed j →
        ae.prevLogIndex + 1 + j ≤ w.log.base.toNat + cfg.logCapacity → e.dataLen ≤ cfg.maxEntryData
  | .installSnapshot is => w.rest.currentTerm ≤ is.term → add32 is.offset is.dataLen ≤ cfg.snapshotMax →
      is.dataLen ≤ cfg.snapshotChunk ∧ is.offset + is.dataLen < 2 ^ 32
  | _ => True

/-- The check of the previous entry, which depends on the log alone. -/
theorem prevMismatch_eq_none {ae : AppendEntries} : w.prevMismatch cfg ae = none ↔
    ¬ w.log.lastIndex < UInt64.ofNat ae.prevLogIndex ∧ (UInt64.ofNat ae.prevLogIndex < w.log.base ∨
      w.log.termAt cfg (UInt64.ofNat ae.prevLogIndex) = some ae.prevLogTerm) := by
  unfold prevMismatch
  dsimp only
  by_cases hl : w.log.lastIndex < UInt64.ofNat ae.prevLogIndex
  · simp [hl]
  rw [if_neg hl]
  by_cases hb : UInt64.ofNat ae.prevLogIndex < w.log.base
  · simp [hl, hb]
  rw [if_neg hb]
  cases w.log.termAt cfg (UInt64.ofNat ae.prevLogIndex) with
  | none => simp [hb]
  | some t => by_cases ht : t = ae.prevLogTerm <;> simp [hl, hb, ht]

theorem prev_le_lastIndex {ae : AppendEntries} (hprev : ae.prevLogIndex < 2 ^ 64) (h : w.prevMismatch cfg ae = none) :
    ae.prevLogIndex ≤ w.log.lastIndex.toNat := by
  have hlast := (prevMismatch_eq_none.1 h).1
  rw [UInt64.lt_iff_toNat_lt, toNat_ofNat hprev] at hlast
  omega

/-- **An index that wraps is below the edge**: the entry before the slice is not past the last index, and a ring holds fewer
than 2^32 entries. -/
theorem wrapped_below {ae : AppendEntries} (htyped : Payload.Typed (.appendEntries ae)) (h : w.prevMismatch cfg ae = none)
    {j : Nat} (hj : j < ae.nEntries) (hwrap : 2 ^ 64 ≤ ae.prevLogIndex + 1 + j) :
    UInt64.ofNat (ae.prevLogIndex + 1 + j) ≤ w.log.base := by
  obtain ⟨hn, hprev⟩ := htyped
  have hle := prev_le_lastIndex hprev h
  have hcount := w.log.count.toNat_lt
  rw [UInt64.le_iff_toNat_le, UInt64.toNat_ofNat']
  rcases w.log.lastIndex_cases with hc | hc <;> omega

/-- A ring whose last index has wrapped is passed over whole. -/
theorem wrapped_ring {ae : AppendEntries} (htyped : Payload.Typed (.appendEntries ae)) (h : w.prevMismatch cfg ae = none) :
    w.log.base.toNat + w.log.count.toNat < 2 ^ 64 ∨ ae.prevLogIndex + 1 + ae.nEntries ≤ w.log.base.toNat + 1 := by
  obtain ⟨hn, hprev⟩ := htyped
  have hle := prev_le_lastIndex hprev h
  have hcount := w.log.count.toNat_lt
  have hbase := w.log.base.toNat_lt
  rcases w.log.lastIndex_cases with hc | hc <;> omega

theorem length_indexed (ae : AppendEntries) : ae.indexed.length = min (2 ^ 64 - 1 - ae.prevLogIndex) ae.nEntries := by
  rw [AppendEntries.indexed, List.length_take, AppendEntries.length_view]

/-- **What the loop reads and stores**, over the entries that have an index. -/
theorem appendLoop_safe {ae : AppendEntries} (htyped : Payload.Typed (.appendEntries ae)) (h : w.prevMismatch cfg ae = none) :
    ((∀ a ∈ appendReads cfg (UInt64.ofNat ae.prevLogIndex + 1) 0 ae.view w, a.InBounds cfg) ↔
      (ae.indexed.length ≤ cfg.maxAppendEntries ∨ ae.prevLogIndex + ae.indexed.length ≤ w.log.base.toNat)) ∧
    w.rest.calls <:+ (w.appendLoop cfg (UInt64.ofNat ae.prevLogIndex + 1) ae.view).rest.calls ∧
    (Server.Within cfg w.rest (w.appendLoop cfg (UInt64.ofNat ae.prevLogIndex + 1) ae.view).rest ↔
      ∀ j e, ae.indexed[j]? = some e → w.log.toLogRing.Fresh cfg (ae.prevLogIndex + 1) ae.indexed j →
        ae.prevLogIndex + 1 + j ≤ w.log.base.toNat + cfg.logCapacity → e.dataLen ≤ cfg.maxEntryData) := by
  have hlen := length_indexed ae
  have hprev : ae.prevLogIndex < 2 ^ 64 := htyped.2
  rw [ofNat_succ]
  refine ⟨?_, ?_⟩
  · rw [appendReads_inBounds, AppendEntries.length_view]
    constructor
    · intro hall
      by_contra hcon
      have hlast := hall (ae.indexed.length - 1) (by omega) (by
        rw [UInt64.lt_iff_toNat_lt, toNat_ofNat (by omega)]
        omega)
      omega
    · intro hor j hj hb
      have hfits : ae.prevLogIndex + 1 + j < 2 ^ 64 := by
        by_contra hwrap
        exact absurd (wrapped_below htyped h hj (Nat.le_of_not_lt hwrap)) (UInt64.not_le.2 hb)
      rw [UInt64.lt_iff_toNat_lt, toNat_ofNat hfits] at hb
      omega
  · -- The entries whose index wraps are passed over, and the others are those of the loop in numbers.
    have hsplit : ae.view = ae.indexed ++ ae.view.drop (2 ^ 64 - 1 - ae.prevLogIndex) := (List.take_append_drop _ _).symm
    have hroom := wrapped_ring htyped h
    obtain ⟨hcalls, hbase⟩ := appendLoop_tracks ae.indexed (tracks_view cfg (ae.prevLogIndex + 1) w)
      (hroom.imp id (by omega)) (by omega)
    have hrest : (w.appendLoop cfg (UInt64.ofNat (ae.prevLogIndex + 1)) ae.indexed).appendLoop cfg
        (UInt64.ofNat (ae.prevLogIndex + 1 + ae.indexed.length)) (ae.view.drop (2 ^ 64 - 1 - ae.prevLogIndex)) =
        w.appendLoop cfg (UInt64.ofNat (ae.prevLogIndex + 1)) ae.indexed := by
      refine appendLoop_below _ (fun j hj => ?_)
      rw [List.length_drop, AppendEntries.length_view] at hj
      rw [hbase, Nat.add_assoc (ae.prevLogIndex + 1)]
      exact wrapped_below htyped h (by omega) (by omega)
    have hwhole : w.appendLoop cfg (UInt64.ofNat (ae.prevLogIndex + 1)) ae.view =
        w.appendLoop cfg (UInt64.ofNat (ae.prevLogIndex + 1)) ae.indexed := by
      rw [← hrest, ← appendLoop_append, ← hsplit]
    have hreaches : w.view.log.Reaches cfg (ae.prevLogIndex + 1) := by
      have hle := prev_le_lastIndex hprev h
      refine .inl (Nat.succ_le_succ ?_)
      show ae.prevLogIndex ≤ w.log.base.toNat + w.log.count.toNat
      rcases w.log.lastIndex_cases with hc | hc <;> omega
    obtain ⟨hsuffix, hstored⟩ := Server.appendLoop_within ae.indexed (ae.prevLogIndex + 1) w.view hreaches
    rw [hwhole, hcalls]
    refine ⟨hsuffix, (Server.within_congr hcalls).trans hstored⟩

theorem applyLoop_within : ∀ (k : Nat) (w : WordServer), Server.Within cfg w.rest (applyLoop cfg k w).rest
  | 0, w => .refl w.rest
  | k + 1, w => by
    have hnext : Server.Within cfg w.rest (w.applyNext cfg).rest := by
      unfold applyNext
      dsimp only
      split
      · exact .of_calls rfl
      · exact .cons (e := .apply _ _) trivial rfl
    exact hnext.trans (applyLoop_within k (w.applyNext cfg))

theorem applyCommitted_within (hfits : Server.Fits cfg io) (w : WordServer) :
    Server.Within cfg w.rest (w.applyCommitted cfg io).rest := by
  have hloop : Server.Within cfg w.rest (applyLoop cfg (w.rest.commitIndex - w.rest.lastApplied) w).rest := applyLoop_within _ w
  unfold applyCommitted maybeCompact beginSnapshot
  generalize applyLoop cfg (w.rest.commitIndex - w.rest.lastApplied) w = x at hloop
  dsimp only
  split
  · exact hloop
  split
  · exact hloop
  rename_i save hsave
  split
  · exact hloop
  split
  · exact hloop
  split
  · exact hloop.trans (.of_calls rfl)
  · rename_i bytes hbytes
    have hlen : bytes.length ≤ cfg.snapshotMax := hfits x.rest.reads bytes (by rw [Server.savedAt, hsave]; exact hbytes)
    have hsaved : Server.Within cfg x.rest (x.rest.call (.snapshotSave x.rest.lastApplied bytes)) :=
      .cons (e := .snapshotSave x.rest.lastApplied bytes) hlen rfl
    exact (hloop.trans hsaved).trans (.cons (e := .persistLogCompact x.rest.lastApplied) trivial rfl)

/-- The handling of an `AppendEntries`. -/
theorem append_safe_iff (hfits : Server.Fits cfg io) {ae : AppendEntries} (htyped : Payload.Typed (.appendEntries ae))
    (w : WordServer) : ((∀ a ∈ w.accesses cfg io (.appendEntries ae), a.InBounds cfg) ∧
      Server.Within cfg w.rest (w.handleAppendEntries cfg io ae).rest) ↔ w.Benign cfg (.appendEntries ae) := by
  unfold accesses Benign handleAppendEntries
  dsimp only
  rcases Nat.lt_or_ge ae.term w.rest.currentTerm with ht | ht
  · rw [if_pos ht, if_pos ht]
    exact ⟨fun _ h => absurd h (Nat.not_le.2 ht), fun _ => ⟨by simp, .emit _ w.rest⟩⟩
  rw [if_neg (Nat.not_lt.2 ht), if_neg (Nat.not_lt.2 ht)]
  have hfollow : Server.Within cfg w.rest (w.following cfg io ae).rest :=
    .of_spares (Server.following_spares Server.stepping_spares cfg io ae w.rest)
  have hlog : (w.following cfg io ae).log = w.log := rfl
  generalize w.following cfg io ae = x at hfollow hlog
  have hsame : w.prevMismatch cfg ae = none ↔ x.prevMismatch cfg ae = none := by
    rw [prevMismatch_eq_none, prevMismatch_eq_none, hlog]
  cases hp : x.prevMismatch cfg ae with
  | some resp =>
    refine ⟨fun _ _ hnone => ?_, fun _ => ⟨by simp, hfollow.trans (.emit _ x.rest)⟩⟩
    rw [hsame.1 hnone] at hp
    cases hp
  | none =>
    obtain ⟨hread, hsuffix, hstored⟩ := appendLoop_safe htyped hp
    have hafter : Server.Within cfg (x.appendLoop cfg (UInt64.ofNat ae.prevLogIndex + 1) ae.view).rest
        ((((x.appendLoop cfg (UInt64.ofNat ae.prevLogIndex + 1) ae.view).followerCommit ae).replyAppend ae
          { term := ((x.appendLoop cfg (UInt64.ofNat ae.prevLogIndex + 1) ae.view).followerCommit ae).rest.currentTerm
            success := true
            lastLogIndex := ((x.appendLoop cfg (UInt64.ofNat ae.prevLogIndex + 1) ae.view).followerCommit
              ae).log.lastIndex.toNat }).applyCommitted cfg io).rest := by
      generalize x.appendLoop cfg (UInt64.ofNat ae.prevLogIndex + 1) ae.view = y
      refine Server.Within.trans ?_ (applyCommitted_within hfits _)
      have hcommit : (y.followerCommit ae).rest.calls = y.rest.calls := by
        unfold followerCommit
        split <;> rfl
      exact (Server.Within.of_calls hcommit).trans (.emit _ (y.followerCommit ae).rest)
    dsimp only
    rw [Server.within_middle hfollow hafter hsuffix, hread, hstored, hlog]
    exact ⟨fun h _ _ => h, fun h => h ht (hsame.2 hp)⟩

/-- **No out-of-bounds access from a received message, exactly when the message is benign**: for every state of the server
and every message whose fields are of their types. -/
theorem memory_safe_iff (cfg : Config) (io : Io) (w : WordServer) (msg : Message) (hfits : Server.Fits cfg io)
    (hmax : cfg.snapshotMax < 2 ^ 32) (htyped : msg.payload.Typed) :
    MemorySafe cfg io w msg ↔ w.Benign cfg msg.payload := by
  obtain ⟨src, dst, payload⟩ := msg
  unfold MemorySafe handled
  cases payload with
  | requestVote rv =>
    exact ⟨fun _ => trivial, fun _ => ⟨by simp [accesses], Server.handleRequestVote_within io rv w.view⟩⟩
  | requestVoteResp rr =>
    exact ⟨fun _ => trivial, fun _ => ⟨by simp [accesses], Server.handleRequestVoteResp_within io src rr w.view⟩⟩
  | appendEntries ae => exact append_safe_iff hfits htyped w
  | appendEntriesResp rr =>
    exact ⟨fun _ => trivial, fun _ => ⟨by simp [accesses], Server.handleAppendEntriesResp_within hfits src rr w.view⟩⟩
  | installSnapshot is =>
    have hcalls : Server.Within cfg w.rest (w.view.handle cfg io ⟨src, dst, .installSnapshot is⟩) :=
      Server.handleInstallSnapshot_within hfits is w.view
    unfold accesses Benign
    dsimp only
    split
    · rename_i ht
      exact ⟨fun _ h => absurd h (Nat.not_le.2 ht), fun _ => ⟨by simp, hcalls⟩⟩
    · rename_i ht
      rw [Server.chunkAccesses_inBounds hmax htyped.1]
      exact ⟨fun h _ => h.1, fun h => ⟨h (Nat.le_of_not_lt ht), hcalls⟩⟩
  | installSnapshotResp rr =>
    exact ⟨fun _ => trivial, fun _ => ⟨by simp [accesses], Server.handleInstallSnapshotResp_within hfits src rr w.view⟩⟩

/-- A fresh server. -/
def fresh (selfId : Nat) : WordServer := ⟨{ selfId := selfId }, {}⟩

/-- The second and last chunk of a snapshot of 300 bytes. -/
theorem memory_safe_second_chunk :
    let is : InstallSnapshot := ⟨1, 1, 5, 1, 256, 300, 44, true, List.replicate 44 7⟩
    MemorySafe defaultConfig (.saving [7] 100) (fresh 2) ⟨1, 2, .installSnapshot is⟩ := by
  intro is
  have hfits : Server.Fits defaultConfig (.saving [7] 100) := by
    intro k bytes h
    obtain rfl : [7] = bytes := Option.some.inj h
    decide
  exact (memory_safe_iff defaultConfig (.saving [7] 100) (fresh 2) ⟨1, 2, .installSnapshot is⟩ hfits (by decide)
    ⟨by decide, by decide⟩).2 (fun _ _ => ⟨by decide, by decide⟩)

/-- A chunk of 16 bytes at the offset `2 ^ 32 - 16`: the sum in the bound check wraps to 0, and the bytes are copied four
gigabytes behind the buffer. -/
theorem chunk_offset_wraps :
    let is : InstallSnapshot := ⟨1, 1, 5, 1, 2 ^ 32 - 16, 16, 16, false, List.replicate 16 7⟩
    Payload.Typed (.installSnapshot is) ∧
      ¬ MemorySafe defaultConfig (.saving [7] 100) (fresh 2) ⟨1, 2, .installSnapshot is⟩ := by
  intro is
  refine ⟨⟨by decide, by decide⟩, fun hsafe => ?_⟩
  have hwrite := hsafe.1 (.snapBuf (2 ^ 32 - 16)) (by decide)
  exact absurd hwrite (by unfold Access.InBounds; decide)

end WordServer

end Raft
end FloodEws
