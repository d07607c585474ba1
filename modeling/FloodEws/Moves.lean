import Mathlib.Logic.Relation
import FloodEws.Server
/-!
# Moves — everything a call can do, said once

A public call of the server runs through many branches, and every invariant of the cluster would have to follow each of
them.  Here each call is cut into moves, once: a move is one change of what the protocol is about (term, vote, role,
log, commit and applied index, match indices, snapshot buffer) or one callback, with the guard under which the code
makes it.  `Server.core` forgets the rest: timers, clock readings, leader hints, pre-vote counters and cursors.

That a call is a chain of moves is `perform_moves`, in the next module.  An invariant is then proved move by move, and
the lemmas at the end here say what the composite moves change.
-/
namespace FloodEws
namespace Raft

/-- The callbacks that only report: nothing is sent, applied, saved or loaded, and no vote is persisted. -/
def Event.quiet : Event → Bool
  | .persistLogAppend _ => true
  | .persistLogTruncate _ => true
  | .persistLogCompact _ => true
  | .onStateChange _ _ => true
  | _ => false

/-- A call of `m_snapshot_save` that returned a snapshot. -/
def Event.isSave : Event → Bool
  | .snapshotSave _ _ => true
  | _ => false

theorem Event.not_save_of_quiet {e : Event} (h : e.quiet = true) : e.isSave = false := by
  cases e <;> first | rfl | cases h

/-- How often the state machine has been serialised. -/
def Server.saves (s : Server) : Nat := s.calls.countP Event.isSave

theorem saves_append {s s' : Server} (evs : List Event) (hc : s'.calls = evs ++ s.calls)
    (h : ∀ e ∈ evs, e.isSave = false) : s'.saves = s.saves := by
  have hnone : evs.countP Event.isSave = 0 := List.countP_eq_zero.2 (fun e he => by simp [h e he])
  unfold Server.saves
  rw [hc, List.countP_append, hnone, Nat.zero_add]

theorem saves_lt {s s' : Server} {i : Nat} {bytes : List Byte} (evs : List Event)
    (hc : s'.calls = evs ++ .snapshotSave i bytes :: s.calls) : s.saves < s'.saves := by
  unfold Server.saves
  rw [hc, List.countP_append, List.countP_cons_of_pos (by rfl)]
  omega

/-- What the protocol knows of a peer. -/
def Peer.key (p : Peer) : Peer := { p with lastContact := 0, snapOffset := 0 }

namespace Server

/-- The server without its bookkeeping. -/
def core (s : Server) : Server :=
  { s with
    nodes := s.nodes.map Peer.key
    currentLeader := 0
    leaderHint := 0
    electionDeadline := 0
    lastHeartbeatSent := 0
    leaderSince := 0
    lastLeaderContact := 0
    preVotesGranted := 0
    snapIndex := 0
    snapTerm := 0
    running := false
    valid := false
    preVoteActive := false
    reads := 0 }

def after (evs : List Event) (s : Server) : Server := { s with calls := evs ++ s.calls }

/-- A peer other than the server itself has this id. -/
def HasPeer (s : Server) (n : Nat) : Prop := ∃ p ∈ s.nodes, p.isSelf = false ∧ p.id = n

/-- **What a message says about the server that sends it.** -/
def CanSend (cfg : Config) (s : Server) (m : Message) : Prop :=
  m.sender = s.selfId ∧
  match m.payload with
  | .requestVote rv =>
    (rv.preVote = true ∧ rv.candidateId = s.selfId) ∨ (s.state = .candidate ∧ s.votedFor = s.selfId ∧
      rv = { term := s.currentTerm, candidateId := s.selfId, lastLogIndex := s.log.lastIndex,
             lastLogTerm := s.log.lastTerm cfg })
  | .requestVoteResp rr =>
    rr.preVote = true ∨ rr.voteGranted = false ∨ (rr.term = s.currentTerm ∧ s.votedFor = m.recipient)
  | .appendEntries ae =>
    s.state = .leader ∧ s.HasPeer m.recipient ∧ s.log.base ≤ ae.prevLogIndex ∧
      ∃ next, s.log.termAt cfg (next - 1) = some ae.prevLogTerm ∧
        ae = { term := s.currentTerm, leaderId := s.selfId, prevLogIndex := next - 1, prevLogTerm := ae.prevLogTerm,
               leaderCommit := s.commitIndex, nEntries := (gather cfg s.log cfg.maxAppendEntries next).length,
               entries := gather cfg s.log cfg.maxAppendEntries next }
  | .appendEntriesResp rr => rr.success = false
  | .installSnapshot is =>
    s.state = .leader ∧ s.HasPeer m.recipient ∧ is.offset < s.snapLen ∧
      is = { term := s.currentTerm, leaderId := s.selfId, lastIncludedIndex := s.log.base,
             lastIncludedTerm := s.log.baseTerm, offset := is.offset, totalLen := s.snapLen,
             dataLen := min (s.snapLen - is.offset) cfg.snapshotChunk % 2 ^ 16,
             done := decide (s.snapLen ≤ add32 is.offset (min (s.snapLen - is.offset) cfg.snapshotChunk % 2 ^ 16)),
             data := bytesAt s.snapBuf is.offset (min (s.snapLen - is.offset) cfg.snapshotChunk % 2 ^ 16) }
  | .installSnapshotResp rr => rr.term = s.currentTerm ∧ rr.lastIncludedIndex = s.log.base

/-- The server once the log of a finished snapshot transfer is in place and the state machine was reset from it. -/
def installed (cfg : Config) (io : Io) (is : InstallSnapshot) (s : Server) : Server :=
  let s := s.storeChunk cfg is
  let log := installLog cfg is s.log
  let s := { s with
    log := log
    commitIndex := max s.commitIndex log.base
    lastApplied := max s.lastApplied log.base }
  if io.snapshotLoad then s.call (.snapshotLoad is.lastIncludedIndex (bytesAt s.snapBuf 0 s.snapLen)) else s

/-- The server after an accepted `AppendEntries`, its successful reply included. -/
def accepted (cfg : Config) (ae : AppendEntries) (s : Server) : Server :=
  let s := (appendLoop cfg (ae.prevLogIndex + 1) ae.view s).followerCommit ae
  s.replyAppend ae { term := s.currentTerm, success := true, lastLogIndex := s.log.lastIndex }

end Server

/-- The call has not yet touched the log, what was committed and applied of it, or the snapshot buffer, and has taken no
snapshot. -/
structure Server.Untouched (start s : Server) : Prop where
  term : start.currentTerm ≤ s.currentTerm
  log : s.log = start.log
  commit : s.commitIndex = start.commitIndex
  applied : s.lastApplied = start.lastApplied
  buf : s.snapBuf = start.snapBuf
  len : s.snapLen = start.snapLen
  saves : s.saves = start.saves

/-- A response that tells the leader how far the peer `sender` has come: up to `l`. -/
def Reports (s : Server) (heard : Option Message) (sender l : Nat) : Prop :=
  ∃ m, heard = some m ∧ m.sender = sender ∧
    ((∃ rr, m.payload = .appendEntriesResp rr ∧ rr.success = true ∧ rr.term = s.currentTerm ∧ rr.lastLogIndex = l) ∨
     (∃ rr, m.payload = .installSnapshotResp rr ∧ rr.term ≤ s.currentTerm ∧ rr.lastIncludedIndex = l))

/-- **When a server becomes leader in a call made at `start`**: alone in its cluster, or on the vote that completes its
majority. -/
def Server.Wins (heard : Option Message) (start s : Server) : Prop :=
  s.majority ≤ 1 ∨ ∃ m rr p, heard = some m ∧ m.payload = .requestVoteResp rr ∧ rr.preVote = false ∧
    rr.voteGranted = true ∧ rr.term = start.currentTerm ∧ start.state = .candidate ∧
    start.nodeById m.sender = some p ∧ p.voteGranted = false ∧ s.majority ≤ start.votesGranted + 1

open Server in
/-- **One move**, during a call made at the server `start` in which the environment answers `io` and the message
`heard`, if any, is handled.  Under `fit` the term counter does not wrap. -/
inductive Move (cfg : Config) (io : Io) (fit : Prop) (heard : Option Message) (start : Server) :
    Server → Server → Prop where
  | quiet (s : Server) (evs : List Event) (h : ∀ e ∈ evs, e.quiet = true) : Move cfg io fit heard start s (s.after evs)
  | aim (s : Server) (nodes : List Peer)
      (hk : nodes.map (fun p => { p with nextIndex := 0 }) = s.nodes.map (fun p => { p with nextIndex := 0 }))
      (hn : ∀ p ∈ nodes, 1 ≤ p.nextIndex ∨ p ∈ s.nodes) : Move cfg io fit heard start s { s with nodes := nodes }
  | adopt (s : Server) (t : Nat) (h : s.currentTerm < t) :
      Move cfg io fit heard start s
        { s with currentTerm := t, votedFor := badNode, state := .follower, calls := .persistState t badNode :: s.calls }
  | demote (s : Server) : Move cfg io fit heard start s { s with state := .follower }
  | campaign (s : Server) (hs : s.state ≠ .leader) (hf : fit → s.currentTerm + 1 < 2 ^ 64) :
      Move cfg io fit heard start s
        { s with
          state := .candidate
          currentTerm := wrap64 (s.currentTerm + 1)
          votedFor := s.selfId
          nodes := modifyNode s.selfId (fun p => { p with voteGranted := true })
            (s.nodes.map (fun p => { p with voteGranted := false }))
          votesGranted := if (s.nodeById s.selfId).isSome then 1 else 0
          calls := .persistState (wrap64 (s.currentTerm + 1)) s.selfId :: s.calls }
  | tally (s : Server) (m : Message) (rr : RequestVoteResp) (p : Peer) (hm : heard = some m)
      (hrr : m.payload = .requestVoteResp rr) (hpre : rr.preVote = false) (hg : rr.voteGranted = true)
      (ht : rr.term = s.currentTerm) (hs : s.state = .candidate) (hp : s.nodeById m.sender = some p)
      (hn : p.voteGranted = false) :
      Move cfg io fit heard start s
        { s with
          nodes := modifyNode m.sender (fun p => { p with voteGranted := true }) s.nodes
          votesGranted := s.votesGranted + 1 }
  | promote (s : Server) (hs : s.state = .candidate) (hm : s.majority ≤ s.votesGranted) (hw : Wins heard start s) :
      Move cfg io fit heard start s
        { s with
          state := .leader
          nodes := modifyNode s.selfId (fun p => { p with matchIndex := s.log.lastIndex })
            (s.nodes.map (fun p => { p with nextIndex := s.log.lastIndex + 1, matchIndex := 0 })) }
  | propose (s : Server) (e : Entry) (log : LogRing) (hs : s.state = .leader) (ht : e.term = s.currentTerm)
      (hi : e.index = s.log.lastIndex + 1) (hp : s.log.push cfg e = .ok log) :
      Move cfg io fit heard start s
        { s with
          log := log
          nodes := modifyNode s.selfId (fun p => { p with matchIndex := e.index }) s.nodes
          calls := .persistLogAppend e :: s.calls }
  | vote (s : Server) (m : Message) (rv : RequestVote) (hm : heard = some m) (hrv : m.payload = .requestVote rv)
      (hpre : rv.preVote = false) (ht : rv.term = s.currentTerm)
      (hv : s.votedFor = badNode ∨ s.votedFor = rv.candidateId) (hu : s.upToDate cfg rv = true) :
      Move cfg io fit heard start s
        { s with votedFor := rv.candidateId, calls := .persistState s.currentTerm rv.candidateId :: s.calls }
  | emit (s : Server) (m : Message) (h : CanSend cfg s m) : Move cfg io fit heard start s (s.emit m)
  | accept (s : Server) (m : Message) (ae : AppendEntries) (hm : heard = some m) (hae : m.payload = .appendEntries ae)
      (ht : ae.term = s.currentTerm) (hs : s.state = .follower) (hp : s.prevMismatch cfg ae = none)
      (h0 : Untouched start s) :
      Move cfg io fit heard start s (s.accepted cfg ae)
  | chunk (s : Server) (m : Message) (is : InstallSnapshot) (hm : heard = some m)
      (his : m.payload = .installSnapshot is) (ht : is.term = s.currentTerm) (hs : s.state = .follower)
      (hd : is.done = false) (h0 : Untouched start s) : Move cfg io fit heard start s (s.storeChunk cfg is).core
  | install (s : Server) (m : Message) (is : InstallSnapshot) (hm : heard = some m)
      (his : m.payload = .installSnapshot is) (ht : is.term = s.currentTerm) (hs : s.state = .follower)
      (hd : is.done = true) (h0 : Untouched start s) : Move cfg io fit heard start s (s.installed cfg io is).core
  | learn (s : Server) (sender l : Nat) (hs : s.state = .leader) (h : Reports s heard sender l) :
      Move cfg io fit heard start s
        { s with nodes := modifyNode sender (fun p => { p with matchIndex := max l p.matchIndex }) s.nodes }
  | advance (s : Server) (next : Nat) (hs : s.state = .leader)
      (h : findCommit cfg s (s.log.lastIndex - s.commitIndex) = some next) :
      Move cfg io fit heard start s { s with commitIndex := next }
  | apply (s : Server) (h : s.lastApplied < s.commitIndex) : Move cfg io fit heard start s (s.applyNext cfg)
  | compact (s : Server) (bytes : List Byte) (t : Nat) (hio : ∃ save k, io.snapshotSave = some save ∧ save k = some bytes)
      (hb : s.log.base < s.lastApplied) (ht : s.log.termAt cfg s.lastApplied = some t) :
      Move cfg io fit heard start s
        { s with
          snapBuf := splice s.snapBuf 0 bytes.length bytes
          snapLen := bytes.length
          log := s.log.compactTo cfg s.lastApplied t
          calls := .persistLogCompact s.lastApplied :: .snapshotSave s.lastApplied bytes :: s.calls }

/-- A chain of moves. -/
abbrev Moves (cfg : Config) (io : Io) (fit : Prop) (heard : Option Message) (start : Server) : Server → Server → Prop :=
  Relation.ReflTransGen (Move cfg io fit heard start)

/-- The message a call handles. -/
def Call.heard : Call → Option Message
  | .handle m => some m
  | _ => none

/-- The call starts an election: the probe already has a majority, or this response completes it. -/
def Server.electing (io : Io) (s : Server) : Call → Bool
  | .periodic => s.running && decide (s.state ≠ .leader) && decide (0 ≤ elapsed (io.now s.reads) s.electionDeadline) &&
      decide (s.majority ≤ 1)
  | .handle ⟨_, _, .requestVoteResp rr⟩ => rr.preVote && s.preVoteActive && decide (s.state ≠ .leader) &&
      rr.voteGranted && decide (rr.term ≤ wrap64 (s.currentTerm + 1)) && decide (s.majority ≤ s.preVotesGranted + 1)
  | _ => false

/-! ## What the composite moves change -/

/-- Append one entry unless the ring is full. -/
def LogRing.pushOrSkip (cfg : Config) (entry : Entry) (r : LogRing) : LogRing :=
  match r.push cfg entry with
  | .ok r' => r'
  | .error _ => r

/-- The ring after one turn of the append loop. -/
def LogRing.appendEntry (cfg : Config) (nextIdx : Nat) (nextEntry : Entry) (r : LogRing) : LogRing :=
  if nextIdx ≤ r.base then r
  else match (if nextIdx ≤ r.lastIndex then r.termAt cfg nextIdx else none) with
    | some existing =>
      if existing = nextEntry.term then r
      else (r.truncateSuffix nextIdx).pushOrSkip cfg { nextEntry with index := nextIdx }
    | none => r.pushOrSkip cfg { nextEntry with index := nextIdx }

/-- The ring after the append loop. -/
def LogRing.appendAll (cfg : Config) : Nat → List Entry → LogRing → LogRing
  | _, [], r => r
  | nextIdx, e :: es, r => appendAll cfg (nextIdx + 1) es (r.appendEntry cfg nextIdx e)

/-- The commit index after an accepted `AppendEntries`. -/
def AppendEntries.commitFrom (ae : AppendEntries) (commit : Nat) : Nat :=
  if commit < ae.leaderCommit then max (min ae.leaderCommit (ae.prevLogIndex + ae.nEntries)) commit else commit

theorem AppendEntries.le_commitFrom (ae : AppendEntries) (c : Nat) : c ≤ ae.commitFrom c := by
  unfold AppendEntries.commitFrom
  split
  · exact Nat.le_max_right _ _
  · exact Nat.le_refl _

namespace LogRing

variable {cfg : Config} {r r' : LogRing}

theorem push_base {e : Entry} (h : r.push cfg e = .ok r') : r'.base = r.base := by
  unfold push at h
  split at h
  · cases h
  · injection h with h
    rw [← h]

theorem pushOrSkip_base (r : LogRing) (e : Entry) : (r.pushOrSkip cfg e).base = r.base := by
  unfold pushOrSkip
  split
  · rename_i h
    exact push_base h
  · rfl

theorem truncateSuffix_base (r : LogRing) (i : Nat) : (r.truncateSuffix i).base = r.base := by
  unfold truncateSuffix
  split
  · rfl
  · split <;> rfl

theorem appendEntry_base (r : LogRing) (i : Nat) (e : Entry) : (r.appendEntry cfg i e).base = r.base := by
  unfold appendEntry
  split
  · rfl
  split
  · split
    · rfl
    · exact (pushOrSkip_base _ _).trans (truncateSuffix_base r i)
  · exact pushOrSkip_base _ _

theorem appendAll_base : ∀ (es : List Entry) (i : Nat) (r : LogRing), (r.appendAll cfg i es).base = r.base
  | [], _, _ => rfl
  | e :: es, i, r => (appendAll_base es (i + 1) _).trans (appendEntry_base r i e)

end LogRing

namespace Server

variable {cfg : Config} {io : Io} {s : Server}

theorem pushEntry_eq (cfg : Config) (e : Entry) (s : Server) :
    ∃ evs : List Event, (∀ x ∈ evs, x.quiet = true) ∧
      s.pushEntry cfg e = { s.after evs with log := s.log.pushOrSkip cfg e } := by
  unfold pushEntry
  split
  · rename_i r hr
    exact ⟨[.persistLogAppend e], by simp [Event.quiet], by rw [LogRing.pushOrSkip, hr]; rfl⟩
  · rename_i x hx
    exact ⟨[], by simp, by rw [LogRing.pushOrSkip, hx]; rfl⟩

theorem appendEntry_eq (cfg : Config) (i : Nat) (e : Entry) (s : Server) :
    ∃ evs : List Event, (∀ x ∈ evs, x.quiet = true) ∧
      s.appendEntry cfg i e = { s.after evs with log := s.log.appendEntry cfg i e } := by
  unfold appendEntry
  split
  · rename_i hb
    exact ⟨[], by simp, by rw [LogRing.appendEntry, if_pos hb]; rfl⟩
  rename_i hb
  split
  · rename_i existing hx
    split
    · rename_i ht
      exact ⟨[], by simp, by rw [LogRing.appendEntry, if_neg hb, hx]; dsimp only; rw [if_pos ht]; rfl⟩
    · rename_i ht
      obtain ⟨evs, hq, he⟩ := pushEntry_eq cfg { e with index := i }
        ({ s with log := s.log.truncateSuffix i }.call (.persistLogTruncate i))
      refine ⟨evs ++ [.persistLogTruncate i], ?_, ?_⟩
      · intro x hx
        rcases List.mem_append.1 hx with hx | hx
        · exact hq x hx
        · rw [List.mem_singleton.1 hx]; rfl
      · rw [he, LogRing.appendEntry, if_neg hb, hx]
        simp [after, call, ht]
  · rename_i hx
    obtain ⟨evs, hq, he⟩ := pushEntry_eq cfg { e with index := i } s
    exact ⟨evs, hq, by rw [he, LogRing.appendEntry, if_neg hb, hx]⟩

theorem appendLoop_eq (cfg : Config) : ∀ (es : List Entry) (i : Nat) (s : Server),
    ∃ evs : List Event, (∀ x ∈ evs, x.quiet = true) ∧
      appendLoop cfg i es s = { s.after evs with log := s.log.appendAll cfg i es }
  | [], _, _ => ⟨[], by simp, rfl⟩
  | e :: es, i, s => by
    obtain ⟨evs, hq, he⟩ := appendEntry_eq cfg i e s
    obtain ⟨evs', hq', he'⟩ := appendLoop_eq cfg es (i + 1) (s.appendEntry cfg i e)
    refine ⟨evs' ++ evs, ?_, ?_⟩
    · intro x hx
      rcases List.mem_append.1 hx with hx | hx
      · exact hq' x hx
      · exact hq x hx
    · rw [appendLoop, he', he]
      simp [after, LogRing.appendAll]

theorem followerCommit_eq (ae : AppendEntries) (s : Server) :
    s.followerCommit ae = { s with commitIndex := ae.commitFrom s.commitIndex } := by
  unfold followerCommit AppendEntries.commitFrom
  split <;> rfl

/-- **An accepted `AppendEntries`** rewrites the log, may raise the commit index and sends one reply. -/
theorem accepted_eq (cfg : Config) (ae : AppendEntries) (s : Server) :
    ∃ evs : List Event, (∀ x ∈ evs, x.quiet = true) ∧
      s.accepted cfg ae =
        { s with
          log := s.log.appendAll cfg (ae.prevLogIndex + 1) ae.view
          commitIndex := ae.commitFrom s.commitIndex
          calls := .send s.currentTerm s.votedFor ⟨s.selfId, ae.leaderId, .appendEntriesResp
              { term := s.currentTerm, success := true,
                lastLogIndex := (s.log.appendAll cfg (ae.prevLogIndex + 1) ae.view).lastIndex }⟩ :: (evs ++ s.calls) } := by
  obtain ⟨evs, hq, he⟩ := appendLoop_eq cfg ae.view (ae.prevLogIndex + 1) s
  refine ⟨evs, hq, ?_⟩
  unfold accepted
  rw [he, followerCommit_eq]
  rfl

/-- Appending leaves the snapshot edge where it is. -/
theorem accepted_base (cfg : Config) (ae : AppendEntries) (s : Server) : (s.accepted cfg ae).log.base = s.log.base := by
  obtain ⟨evs, -, he⟩ := accepted_eq cfg ae s
  rw [he]
  exact LogRing.appendAll_base _ _ _

/-- Storing a chunk touches the snapshot buffer only. -/
theorem storeChunk_eq (cfg : Config) (is : InstallSnapshot) (s : Server) :
    ∃ i t, s.storeChunk cfg is =
      { s with snapBuf := (s.storeChunk cfg is).snapBuf, snapLen := (s.storeChunk cfg is).snapLen, snapIndex := i,
               snapTerm := t } := by
  unfold storeChunk
  by_cases h0 : is.offset = 0
  · simp only [h0, if_true]
    split <;> exact ⟨_, _, rfl⟩
  · simp only [h0, if_false]
    split <;> exact ⟨s.snapIndex, s.snapTerm, rfl⟩

theorem installLog_base (cfg : Config) (is : InstallSnapshot) (log : LogRing) :
    (installLog cfg is log).base = is.lastIncludedIndex := by
  unfold installLog
  split <;> rfl

/-- **An installed snapshot** rewrites the log, lifts the commit and applied index to the new edge, and loads the
assembled bytes if the hook is bound. -/
theorem installed_eq (cfg : Config) (io : Io) (is : InstallSnapshot) (s : Server) :
    (s.installed cfg io is).core =
      { s.core with
        snapBuf := (s.storeChunk cfg is).snapBuf
        snapLen := (s.storeChunk cfg is).snapLen
        log := installLog cfg is s.log
        commitIndex := max s.commitIndex (installLog cfg is s.log).base
        lastApplied := max s.lastApplied (installLog cfg is s.log).base
        calls := (if io.snapshotLoad then [.snapshotLoad is.lastIncludedIndex
          (bytesAt (s.storeChunk cfg is).snapBuf 0 (s.storeChunk cfg is).snapLen)] else []) ++ s.calls } := by
  obtain ⟨i, t, he⟩ := storeChunk_eq cfg is s
  unfold installed
  generalize hb : (s.storeChunk cfg is).snapBuf = b at he
  generalize hl : (s.storeChunk cfg is).snapLen = l at he
  rw [he]
  dsimp only
  split <;> rfl

theorem chunk_eq (cfg : Config) (is : InstallSnapshot) (s : Server) :
    (s.storeChunk cfg is).core =
      { s.core with snapBuf := (s.storeChunk cfg is).snapBuf, snapLen := (s.storeChunk cfg is).snapLen } := by
  obtain ⟨i, t, he⟩ := storeChunk_eq cfg is s
  generalize hb : (s.storeChunk cfg is).snapBuf = b at he
  generalize hl : (s.storeChunk cfg is).snapLen = l at he
  rw [he]
  rfl

/-- What `m_snapshot_save` answers there; nothing when it is not bound or its answer does not fit. -/
def savedAt (io : Io) (k : Nat) : Option (List Byte) := io.snapshotSave.bind (· k)

/-- `begin_snapshot` has nothing to compact, or does not know its term, or gets no snapshot. -/
def NoSnapshot (cfg : Config) (io : Io) (s : Server) : Prop :=
  s.lastApplied ≤ s.log.base ∨ s.log.termAt cfg s.lastApplied = none ∨ savedAt io s.reads = none

/-- The snapshot `bytes` is taken and the edge moved to the applied index, where the term is `t`. -/
def compacted (cfg : Config) (t : Nat) (bytes : List Byte) (s : Server) : Server :=
  { s with
    snapBuf := splice s.snapBuf 0 bytes.length bytes
    snapLen := bytes.length
    log := s.log.compactTo cfg s.lastApplied t
    calls := .persistLogCompact s.lastApplied :: .snapshotSave s.lastApplied bytes :: s.calls
    reads := s.reads + 1 }

/-- **What `begin_snapshot` can do**: nothing but ask for a snapshot; or take one and compact. -/
theorem beginSnapshot_cases (cfg : Config) (io : Io) (s : Server) :
    (s.NoSnapshot cfg io ∧ ∃ k, (s.beginSnapshot cfg io).2 = { s with reads := k }) ∨
    (¬ s.NoSnapshot cfg io ∧ ∃ t bytes, s.log.base < s.lastApplied ∧ s.log.termAt cfg s.lastApplied = some t ∧
      savedAt io s.reads = some bytes ∧ (s.beginSnapshot cfg io).2 = s.compacted cfg t bytes) := by
  unfold beginSnapshot
  split
  · rename_i hio
    exact .inl ⟨.inr (.inr (by rw [savedAt, hio]; rfl)), _, rfl⟩
  rename_i save hio
  split
  · rename_i hbase
    exact .inl ⟨.inl hbase, _, rfl⟩
  rename_i hbase
  split
  · rename_i hterm
    exact .inl ⟨.inr (.inl hterm), _, rfl⟩
  rename_i t hterm
  split
  · rename_i hsave
    exact .inl ⟨.inr (.inr (by rw [savedAt, hio]; exact hsave)), _, rfl⟩
  · rename_i bytes hsave
    have hsaved : savedAt io s.reads = some bytes := by rw [savedAt, hio]; exact hsave
    refine .inr ⟨?_, t, bytes, Nat.lt_of_not_le hbase, hterm, hsaved, rfl⟩
    rintro (h | h | h)
    · exact hbase h
    · rw [hterm] at h
      cases h
    · rw [hsaved] at h
      cases h

theorem applyNext_eq (cfg : Config) (s : Server) :
    s.applyNext cfg =
      { s with
        lastApplied := s.lastApplied + 1
        calls := ((s.log.at? cfg (s.lastApplied + 1)).map (Event.apply (s.lastApplied + 1))).toList ++ s.calls } := by
  unfold applyNext
  dsimp only
  split
  · rename_i h; rw [h]; rfl
  · rename_i e h; rw [h]; rfl

/-- The record of callbacks only grows. -/
theorem Move.calls_grow {fit : Prop} {heard : Option Message} {start s' : Server} (h : Move cfg io fit heard start s s') :
    ∃ evs, s'.calls = evs ++ s.calls := by
  cases h with
  | quiet evs hq => exact ⟨evs, rfl⟩
  | accept m ae hm hae ht hs hp h0 =>
    obtain ⟨evs, -, he⟩ := accepted_eq cfg ae s
    rw [he]
    exact ⟨_ :: evs, rfl⟩
  | chunk m is hm his ht hs hd h0 =>
    rw [chunk_eq]
    exact ⟨[], rfl⟩
  | install m is hm his ht hs hd h0 =>
    rw [installed_eq]
    exact ⟨_, rfl⟩
  | apply hlt =>
    rw [applyNext_eq]
    exact ⟨_, rfl⟩
  | compact bytes t hio hb ht => exact ⟨[_, _], rfl⟩
  | adopt t ht => exact ⟨[_], rfl⟩
  | campaign hs hf => exact ⟨[_], rfl⟩
  | propose e log hs ht hi hp => exact ⟨[_], rfl⟩
  | vote m rv hm hrv hpre ht hv hu => exact ⟨[_], rfl⟩
  | emit m hsend => exact ⟨[_], rfl⟩
  | aim nodes hk hn => exact ⟨[], rfl⟩
  | demote => exact ⟨[], rfl⟩
  | tally m rr p hm hrr hpre hg ht hs hp hn => exact ⟨[], rfl⟩
  | promote hs hm hw => exact ⟨[], rfl⟩
  | learn sender l hs hr => exact ⟨[], rfl⟩
  | advance next hs hn => exact ⟨[], rfl⟩

theorem Moves.calls_grow {fit : Prop} {heard : Option Message} {start s' : Server} (h : Moves cfg io fit heard start s s') :
    ∃ evs, s'.calls = evs ++ s.calls := by
  induction h with
  | refl => exact ⟨[], rfl⟩
  | tail _ hmv ih =>
    obtain ⟨evs, he⟩ := ih
    obtain ⟨evs', he'⟩ := Move.calls_grow hmv
    exact ⟨evs' ++ evs, by rw [he', he, List.append_assoc]⟩

end Server

end Raft
end FloodEws
