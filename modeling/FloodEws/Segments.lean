import FloodEws.Reenter
import FloodEws.Spares
/-!
# Segments — the calls of the server, cut at their callbacks

`Application` calls `submit()` from inside the callbacks: `on_became_leader` does when an outstanding batch is no longer in
the log, `on_apply` does through `begin_egress`.  Here the calls of the server are cut at the callbacks of `become_leader`
and of `apply_committed`.  The other callbacks that could submit, those of a server turning follower or candidate, find it
so already and are refused (`submit_refused`), so nothing is cut there.  When no callback submits the segments make up
the calls of `Server` (`comes_operate`).
-/
namespace FloodEws
namespace Raft

/-- A public call, or the restore of what was persisted. -/
inductive Op where
  | restoreState (term votedFor : Nat)
  | call (k : Call)

/-- What is left to do when a callback returns: the callback itself, the rest of `become_leader` with the last index it
read, the loop of `apply_committed` with the compaction after it, and the next batch for the sender of a response. -/
inductive Frame where
  | callback
  | lead (last : Nat)
  | applying
  | pipeline (sender : Nat)
deriving DecidableEq

namespace Server

def operate (cfg : Config) (io : Io) (s : Server) : Op → Server
  | .restoreState term votedFor => s.restoreState term votedFor
  | .call k => s.perform cfg io k

/-! ## The calls, up to the first callback -/

/-- The rest of `become_leader`, after `set_state(State::LEADER)`. -/
def lead (cfg : Config) (io : Io) (last : Nat) (s : Server) : Server :=
  let s := { s with
    currentLeader := s.selfId
    leaderHint := s.selfId
    nodes := modifyNode s.selfId (fun p : Peer => { p with matchIndex := last })
      (s.nodes.map (fun p : Peer => { p with nextIndex := last + 1, matchIndex := 0 })) }
  let entry : Entry := { term := s.currentTerm, index := last + 1, type := .noop, dataLen := 0 }
  let s := match s.log.push cfg entry with
    | .ok log =>
      { { s with log := log }.call (.persistLogAppend entry) with
        nodes := modifyNode s.selfId (fun p : Peer => { p with matchIndex := entry.index }) s.nodes }
    | .error _ => s
  let now := io.now s.reads
  { s.tick with
    nodes := s.nodes.map (fun p : Peer => { p with lastContact := now })
    leaderSince := now
    lastHeartbeatSent := 0 }

def enterLeader (s : Server) : Server × List Frame :=
  let last := s.log.lastIndex
  ({ s with preVoteActive := false }.setState .leader,
    if s.state = .leader then [.lead last] else [.callback, .lead last])

def enterCandidate (cfg : Config) (io : Io) (s : Server) : Server × List Frame :=
  let s := s.beginCampaign cfg io
  let s := s.nodes.foldl (fun (s : Server) (p : Peer) => if p.isSelf then s else s.sendRequestVote cfg p) s
  if s.majority ≤ s.votesGranted then s.enterLeader else (s, [])

def enterPreVote (cfg : Config) (io : Io) (s : Server) : Server × List Frame :=
  let s := { s with preVoteActive := true, preVotesGranted := 1 }.resetElectionTimer cfg io
  let s := s.nodes.foldl (fun (s : Server) (p : Peer) => if p.isSelf then s else
      s.emit ⟨s.selfId, p.id, .requestVote
        { term := wrap64 (s.currentTerm + 1), candidateId := s.selfId, lastLogIndex := s.log.lastIndex,
          lastLogTerm := s.log.lastTerm cfg, preVote := true }⟩) s
  if s.majority ≤ s.preVotesGranted then { s with preVoteActive := false }.enterCandidate cfg io else (s, [])

def enterRequestVoteResp (cfg : Config) (io : Io) (sender : Nat) (rr : RequestVoteResp) (s : Server) :
    Server × List Frame :=
  if rr.preVote then
    if !s.preVoteActive ∨ s.state = .leader then (s, [])
    else if rr.voteGranted ∧ rr.term ≤ wrap64 (s.currentTerm + 1) then
      let s := { s with preVotesGranted := s.preVotesGranted + 1 }
      if s.majority ≤ s.preVotesGranted then { s with preVoteActive := false }.enterCandidate cfg io else (s, [])
    else (s, [])
  else if s.state ≠ .candidate then (s, [])
  else if s.currentTerm < rr.term then (s.maybeStepDown rr.term, [])
  else if rr.term < s.currentTerm then (s, [])
  else match s.nodeById sender with
    | none => (s, [])
    | some peer =>
      if peer.voteGranted then (s, [])
      else if rr.voteGranted then
        let s := { s with
          nodes := modifyNode sender (fun p : Peer => { p with voteGranted := true }) s.nodes
          votesGranted := s.votesGranted + 1 }
        if s.majority ≤ s.votesGranted then s.enterLeader else (s, [])
      else (s, [])

/-- `leader_advance_commit` up to its `apply_committed`. -/
def advanceCommit (cfg : Config) (s : Server) : Server :=
  match findCommit cfg s (s.log.lastIndex - s.commitIndex) with
  | some next => { s with commitIndex := next }
  | none => s

/-- An accepted request ends in `apply_committed`. -/
def enterAppendEntries (cfg : Config) (io : Io) (ae : AppendEntries) (s : Server) : Server × List Frame :=
  if ae.term < s.currentTerm then
    (s.replyAppend ae { term := s.currentTerm, success := false, lastLogIndex := s.log.lastIndex }, [])
  else
    let s := s.following cfg io ae
    match s.prevMismatch cfg ae with
    | some resp => (s.replyAppend ae resp, [])
    | none => (s.accepted cfg ae, [.applying])

def enterAppendEntriesResp (cfg : Config) (io : Io) (sender : Nat) (rr : AppendEntriesResp) (s : Server) :
    Server × List Frame :=
  if s.currentTerm < rr.term then (s.maybeStepDown rr.term, [])
  else if s.state ≠ .leader ∨ rr.term < s.currentTerm then (s, [])
  else match s.nodeById sender with
    | none => (s, [])
    | some peer =>
      let peer := { peer with lastContact := io.now s.reads }
      let s := s.tick
      if rr.success then
        let peer := { peer with
          nextIndex := max (rr.lastLogIndex + 1) peer.nextIndex
          matchIndex := max rr.lastLogIndex peer.matchIndex }
        ({ s with nodes := modifyNode sender (fun _ => peer) s.nodes }.advanceCommit cfg, [.applying, .pipeline sender])
      else
        let peer := { peer with nextIndex := s.backup cfg rr peer }
        let s := { s with nodes := modifyNode sender (fun _ => peer) s.nodes }
        (s.sendAppendEntries cfg peer, [.applying])

def enterInstallSnapshot (cfg : Config) (io : Io) (is : InstallSnapshot) (s : Server) : Server × List Frame :=
  if is.term < s.currentTerm then (s.replySnapshot is, [])
  else
    let s := (s.maybeStepDown is.term).becomeFollower cfg io is.term is.leaderId
    if !is.done then ((s.storeChunk cfg is).replySnapshot is, [])
    else
      let s := s.installed cfg io is
      ((s.call (.persistLogCompact s.log.base)).replySnapshot is, [.applying])

def enterInstallSnapshotResp (cfg : Config) (io : Io) (sender : Nat) (rr : InstallSnapshotResp) (s : Server) :
    Server × List Frame :=
  if s.currentTerm < rr.term then (s.maybeStepDown rr.term, [])
  else if s.state ≠ .leader then (s, [])
  else match s.nodeById sender with
    | none => (s, [])
    | some peer =>
      let peer := { peer with
        lastContact := io.now s.reads
        snapOffset := min (add32 peer.snapOffset cfg.snapshotChunk) s.snapLen }
      let s := s.tick
      if peer.snapOffset < s.snapLen then
        ({ s with nodes := modifyNode sender (fun _ => peer) s.nodes }.sendInstallSnapshot cfg peer, [])
      else
        let peer := { peer with
          snapOffset := 0
          nextIndex := max (rr.lastIncludedIndex + 1) peer.nextIndex
          matchIndex := max rr.lastIncludedIndex peer.matchIndex }
        let s := { s with nodes := modifyNode sender (fun _ => peer) s.nodes }
        (s.sendAppendEntries cfg peer, [.applying])

def enterHandle (cfg : Config) (io : Io) (msg : Message) (s : Server) : Server × List Frame :=
  match msg.payload with
  | .requestVote rv => (s.handleRequestVote cfg io rv, [])
  | .requestVoteResp rr => s.enterRequestVoteResp cfg io msg.sender rr
  | .appendEntries ae => s.enterAppendEntries cfg io ae
  | .appendEntriesResp rr => s.enterAppendEntriesResp cfg io msg.sender rr
  | .installSnapshot is => s.enterInstallSnapshot cfg io is
  | .installSnapshotResp rr => s.enterInstallSnapshotResp cfg io msg.sender rr

def enterPeriodic (cfg : Config) (io : Io) (s : Server) : Server × List Frame :=
  if !s.running then (s, [])
  else
    let now := io.now s.reads
    let s := s.tick
    if s.state = .leader then
      if !s.contactWithMajority cfg now then (s.becomeFollower cfg io s.currentTerm badNode, [])
      else if cfg.heartbeatIntervalMs ≤ sub64 now s.lastHeartbeatSent then
        ({ s with lastHeartbeatSent := now }.broadcast cfg, [.applying])
      else (s, [.applying])
    else if 0 ≤ elapsed now s.electionDeadline then
      ((s.enterPreVote cfg io).1, (s.enterPreVote cfg io).2 ++ [.applying])
    else (s, [.applying])

/-- A cluster of one commits and applies at once, and then applies again. -/
def enterSubmit (cfg : Config) (type : EntryType) (data : List Byte) (s : Server) :
    Except Error Nat × Server × List Frame :=
  if !s.running then (.error .shutdown, s, [])
  else if s.state ≠ .leader then (.error .notLeader, s, [])
  else if cfg.maxEntryData < data.length then (.error .badArg, s, [])
  else if s.log.full cfg then (.error .logFull, s, [])
  else
    let entry : Entry :=
      { term := s.currentTerm, index := s.log.lastIndex + 1, type := type, dataLen := data.length % 2 ^ 16, data := data }
    match s.log.push cfg entry with
    | .error _ => (.error .logFull, s, [])
    | .ok log =>
      let s := { s with log := log }.call (.persistLogAppend entry)
      let s := { s with nodes := modifyNode s.selfId (fun p : Peer => { p with matchIndex := entry.index }) s.nodes }
      let s := s.broadcast cfg
      (.ok entry.index, if s.nodes.length = 1 then (s.advanceCommit cfg, [.applying, .applying]) else (s, []))

def enter (cfg : Config) (io : Io) (s : Server) : Op → Server × List Frame
  | .restoreState term votedFor => (s.restoreState term votedFor, [])
  | .call .start => (s.start cfg io, [])
  | .call .stop => (s.stop, [])
  | .call .periodic => s.enterPeriodic cfg io
  | .call (.submit type data) => (s.enterSubmit cfg type data).2
  | .call .beginSnapshot => ((s.beginSnapshot cfg io).2, [])
  | .call (.handle msg) => s.enterHandle cfg io msg

/-- The index a successful submit is given. -/
def given (cfg : Config) (s : Server) : Op → Option Nat
  | .call (.submit type data) => (s.enterSubmit cfg type data).1.toOption
  | _ => none

/-! ## What a frame does -/

/-- One turn of the loop of `apply_committed`, or the compaction after it. -/
def resumeApplying (cfg : Config) (io : Io) (s : Server) : Server × List Frame :=
  if s.lastApplied < s.commitIndex then
    match s.log.at? cfg (s.lastApplied + 1) with
    | none => (s.applyNext cfg, [.applying])
    | some _ => (s.applyNext cfg, [.callback, .applying])
  else (s.maybeCompact cfg io, [])

def resume (cfg : Config) (io : Io) (s : Server) : Frame → Server × List Frame
  | .callback => (s, [])
  | .lead last => (s.lead cfg io last, [])
  | .applying => s.resumeApplying cfg io
  | .pipeline sender =>
    match s.nodeById sender with
    | none => (s, [])
    | some peer => if peer.nextIndex ≤ s.log.lastIndex then (s.sendAppendEntries cfg peer, []) else (s, [])

/-- The calls of the server in segments; a callback may submit. -/
def segments (cfg : Config) : Interrupted Server Frame Op Io where
  enter io s op := s.enter cfg io op
  resume io s f := s.resume cfg io f
  waits f := f = .callback
  again op := ∃ type data, op = .call (.submit type data)

/-! ## When no callback submits -/

section

variable {cfg : Config} {io : Io} {s : Server}

/-- A call in segments comes to `s'`. -/
def Comes (cfg : Config) (io : Io) (r : Server × List Frame) (s' : Server) : Prop :=
  (segments cfg).Settles io r.1 r.2 s'

theorem Comes.done (s : Server) : Comes cfg io (s, []) s := .nil s

theorem Comes.then {r : Server × List Frame} {x y : Server} {fs : List Frame} (h : Comes cfg io r x)
    (h' : Comes cfg io (x, fs) y) : Comes cfg io (r.1, r.2 ++ fs) y := Interrupted.Settles.append h h'

theorem comes_callback {fs : List Frame} {x : Server} (h : Comes cfg io (s, fs) x) : Comes cfg io (s, .callback :: fs) x :=
  .cons h

theorem applyCommitted_next (cfg : Config) (io : Io) (h : s.lastApplied < s.commitIndex) :
    (s.applyNext cfg).applyCommitted cfg io = s.applyCommitted cfg io := by
  obtain ⟨k, hk⟩ := Nat.exists_eq_succ_of_ne_zero (Nat.sub_ne_zero_of_lt h)
  have hnext : (s.applyNext cfg).commitIndex - (s.applyNext cfg).lastApplied = k := by
    rw [applyNext_eq]
    show s.commitIndex - (s.lastApplied + 1) = k
    omega
  unfold applyCommitted
  rw [hnext, hk]
  rfl

/-- The loop turn by turn. -/
theorem comes_applying (cfg : Config) (io : Io) (s : Server) : Comes cfg io (s, [.applying]) (s.applyCommitted cfg io) := by
  obtain ⟨k, hk⟩ : ∃ k, k = s.commitIndex - s.lastApplied := ⟨_, rfl⟩
  induction k generalizing s with
  | zero =>
    have hdone : s.resumeApplying cfg io = (s.maybeCompact cfg io, []) := if_neg (by omega)
    have hloop : s.applyCommitted cfg io = s.maybeCompact cfg io := by
      rw [applyCommitted, ← hk]
      rfl
    rw [hloop]
    exact .one hdone
  | succ k ih =>
    have hlt : s.lastApplied < s.commitIndex := by omega
    have hrest : Comes cfg io (s.applyNext cfg, [.applying]) (s.applyCommitted cfg io) := by
      rw [← applyCommitted_next cfg io hlt]
      refine ih _ ?_
      rw [applyNext_eq]
      show k = s.commitIndex - (s.lastApplied + 1)
      omega
    cases hat : s.log.at? cfg (s.lastApplied + 1) with
    | none =>
      have hturn : s.resumeApplying cfg io = (s.applyNext cfg, [.applying]) := by
        unfold resumeApplying
        rw [if_pos hlt, hat]
      exact .step hturn hrest
    | some e =>
      have hturn : s.resumeApplying cfg io = (s.applyNext cfg, [.callback, .applying]) := by
        unfold resumeApplying
        rw [if_pos hlt, hat]
      exact .step hturn (comes_callback hrest)

theorem comes_leader (cfg : Config) (io : Io) (s : Server) : Comes cfg io s.enterLeader (s.becomeLeader cfg io) := by
  have hlead : Comes cfg io ({ s with preVoteActive := false }.setState .leader, [.lead s.log.lastIndex])
      (s.becomeLeader cfg io) := .one rfl
  unfold enterLeader
  dsimp only
  split
  · exact hlead
  · exact comes_callback hlead

theorem comes_candidate (cfg : Config) (io : Io) (s : Server) :
    Comes cfg io (s.enterCandidate cfg io) (s.becomeCandidate cfg io) := by
  unfold enterCandidate becomeCandidate
  dsimp only
  split
  · exact comes_leader cfg io _
  · exact .done _

theorem comes_preVote (cfg : Config) (io : Io) (s : Server) :
    Comes cfg io (s.enterPreVote cfg io) (s.startPreVote cfg io) := by
  unfold enterPreVote startPreVote
  dsimp only
  split
  · exact comes_candidate cfg io _
  · exact .done _

theorem comes_requestVoteResp (cfg : Config) (io : Io) (sender : Nat) (rr : RequestVoteResp) (s : Server) :
    Comes cfg io (s.enterRequestVoteResp cfg io sender rr) (s.handleRequestVoteResp cfg io sender rr) := by
  unfold enterRequestVoteResp handleRequestVoteResp
  split
  · split
    · exact .done s
    split
    · dsimp only
      split
      · exact comes_candidate cfg io _
      · exact .done _
    · exact .done s
  split
  · exact .done s
  split
  · exact .done _
  split
  · exact .done s
  cases s.nodeById sender with
  | none => exact .done s
  | some peer =>
    dsimp only
    split
    · exact .done s
    split
    · split
      · exact comes_leader cfg io _
      · exact .done _
    · exact .done s

theorem comes_appendEntries (cfg : Config) (io : Io) (ae : AppendEntries) (s : Server) :
    Comes cfg io (s.enterAppendEntries cfg io ae) (s.handleAppendEntries cfg io ae) := by
  by_cases ht : ae.term < s.currentTerm
  · rw [enterAppendEntries, if_pos ht, handleAppendEntries, if_pos ht]
    exact .done _
  · rw [enterAppendEntries, if_neg ht, handleAppendEntries_eq cfg io (Nat.not_lt.1 ht)]
    dsimp only
    cases (s.following cfg io ae).prevMismatch cfg ae with
    | some resp => exact .done _
    | none => exact comes_applying cfg io _

/-- `leader_advance_commit`. -/
theorem comes_advance (cfg : Config) (io : Io) (s : Server) :
    Comes cfg io (s.advanceCommit cfg, [.applying]) (s.leaderAdvanceCommit cfg io) := comes_applying cfg io _

/-- The sender is found again after the commit, as it was left. -/
theorem comes_pipeline {sender : Nat} {q : Peer} (hq : s.nodeById sender = some q) :
    Comes cfg io (s.advanceCommit cfg, [.applying, .pipeline sender])
      (if q.nextIndex ≤ (s.leaderAdvanceCommit cfg io).log.lastIndex then
        (s.leaderAdvanceCommit cfg io).sendAppendEntries cfg q else s.leaderAdvanceCommit cfg io) := by
  have hfound : (s.leaderAdvanceCommit cfg io).nodeById sender = some q := by
    unfold nodeById
    rw [(leaderAdvanceCommit_frame cfg io s).1]
    exact hq
  refine (comes_advance cfg io s).then (.one ?_)
  show (match (s.leaderAdvanceCommit cfg io).nodeById sender with
    | none => (s.leaderAdvanceCommit cfg io, [])
    | some peer => if peer.nextIndex ≤ (s.leaderAdvanceCommit cfg io).log.lastIndex then
        ((s.leaderAdvanceCommit cfg io).sendAppendEntries cfg peer, []) else (s.leaderAdvanceCommit cfg io, [])) = _
  rw [hfound]
  dsimp only
  split <;> rfl

theorem comes_appendEntriesResp (cfg : Config) (io : Io) (sender : Nat) (rr : AppendEntriesResp) (s : Server) :
    Comes cfg io (s.enterAppendEntriesResp cfg io sender rr) (s.handleAppendEntriesResp cfg io sender rr) := by
  unfold enterAppendEntriesResp handleAppendEntriesResp
  split
  · exact .done _
  split
  · exact .done s
  cases hpeer : s.nodeById sender with
  | none => exact .done s
  | some peer =>
    have hid : peer.id = sender := by simpa using List.find?_some hpeer
    dsimp only
    split
    · refine comes_pipeline (q := { peer with
        lastContact := io.now s.reads, nextIndex := max (rr.lastLogIndex + 1) peer.nextIndex,
        matchIndex := max rr.lastLogIndex peer.matchIndex }) ?_
      exact nodeById_modifyNode (by exact hid) hpeer
    · exact comes_applying cfg io _

theorem comes_installSnapshot (cfg : Config) (io : Io) (is : InstallSnapshot) (s : Server) :
    Comes cfg io (s.enterInstallSnapshot cfg io is) (s.handleInstallSnapshot cfg io is) := by
  unfold enterInstallSnapshot handleInstallSnapshot
  split
  · exact .done _
  dsimp only
  split
  · exact .done _
  · exact comes_applying cfg io _

theorem comes_installSnapshotResp (cfg : Config) (io : Io) (sender : Nat) (rr : InstallSnapshotResp) (s : Server) :
    Comes cfg io (s.enterInstallSnapshotResp cfg io sender rr) (s.handleInstallSnapshotResp cfg io sender rr) := by
  unfold enterInstallSnapshotResp handleInstallSnapshotResp
  split
  · exact .done _
  split
  · exact .done s
  cases s.nodeById sender with
  | none => exact .done s
  | some peer =>
    dsimp only
    split
    · exact .done _
    · exact comes_applying cfg io _

theorem comes_periodic (cfg : Config) (io : Io) (s : Server) :
    Comes cfg io (s.enterPeriodic cfg io) (s.periodic cfg io) := by
  unfold enterPeriodic periodic
  split
  · exact .done s
  dsimp only
  split
  · split
    · exact .done _
    split
    · exact comes_applying cfg io _
    · exact comes_applying cfg io _
  · split
    · exact (comes_preVote cfg io s.tick).then (comes_applying cfg io _)
    · exact comes_applying cfg io _

theorem comes_submit (cfg : Config) (io : Io) (type : EntryType) (data : List Byte) (s : Server) :
    (s.enterSubmit cfg type data).1 = (s.submit cfg io type data).1 ∧
      Comes cfg io (s.enterSubmit cfg type data).2 (s.submit cfg io type data).2 := by
  unfold enterSubmit submit
  split
  · exact ⟨rfl, .done s⟩
  split
  · exact ⟨rfl, .done s⟩
  split
  · exact ⟨rfl, .done s⟩
  split
  · exact ⟨rfl, .done s⟩
  dsimp only
  generalize LogRing.push cfg s.log _ = pushed
  cases pushed with
  | error _ => exact ⟨rfl, .done s⟩
  | ok log =>
    refine ⟨rfl, ?_⟩
    dsimp only
    split
    · exact (comes_advance cfg io _).then (comes_applying cfg io _)
    · exact .done _

/-- **The segments are the calls of the server**: when every callback returns at once a call comes to what `operate` says. -/
theorem comes_operate (cfg : Config) (io : Io) (s : Server) (op : Op) :
    Comes cfg io (s.enter cfg io op) (s.operate cfg io op) := by
  cases op with
  | restoreState term votedFor => exact .done _
  | call k =>
    cases k with
    | start => exact .done _
    | stop => exact .done _
    | periodic => exact comes_periodic cfg io s
    | submit type data => exact (comes_submit cfg io type data s).2
    | beginSnapshot => exact .done _
    | handle msg =>
      obtain ⟨sender, recipient, payload⟩ := msg
      cases payload with
      | requestVote rv => exact .done _
      | requestVoteResp rr => exact comes_requestVoteResp cfg io sender rr s
      | appendEntries ae => exact comes_appendEntries cfg io ae s
      | appendEntriesResp rr => exact comes_appendEntriesResp cfg io sender rr s
      | installSnapshot is => exact comes_installSnapshot cfg io is s
      | installSnapshotResp rr => exact comes_installSnapshotResp cfg io sender rr s

theorem reaches_operate (cfg : Config) (io : Io) (s₀ s : Server) (op : Op) :
    ((segments cfg).sys s₀).Reaches Interrupted.Quiet (((segments cfg).sys s₀).exec (s, []) (.call io op))
      (s.operate cfg io op, []) :=
  (comes_operate cfg io s op).reaches s₀ []

end

/-- **Why nothing is cut elsewhere**: only a leader takes a submit. -/
theorem submit_refused (cfg : Config) (type : EntryType) (data : List Byte) {s : Server} (hs : s.state ≠ .leader) :
    (s.enterSubmit cfg type data).2 = (s, []) := by
  unfold enterSubmit
  rw [if_pos hs]
  split <;> rfl

end Server

end Raft
end FloodEws
