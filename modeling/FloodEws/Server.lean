import FloodEws.LogRing
/-!
# Server — `server/server.hpp` and its four `.inl` files

`Server<Cfg>` as explicit state passing: every method takes the server to the server it leaves behind.  Two fields are
not in the source: `calls`, the callbacks made so far, newest first, and `reads`, how many answers of the environment
have been taken.  Indices are numbers; `Words` has the handler whose indices a message can drive past 2^64.  The order of
the definitions is the source's: transitions and election (5.2, 5.4), replication (5.3), snapshots (7), the driver.
-/
namespace FloodEws
namespace Raft

structure Server where
  selfId : Nat
  nodes : List Peer := []
  currentTerm : Nat := 0
  votedFor : Nat := badNode
  log : LogRing := {}
  commitIndex : Nat := 0
  lastApplied : Nat := 0
  state : Role := .follower
  currentLeader : Nat := badNode
  leaderHint : Nat := badNode
  electionDeadline : Nat := 0
  lastHeartbeatSent : Nat := 0
  leaderSince : Nat := 0
  lastLeaderContact : Nat := 0
  votesGranted : Nat := 0
  preVotesGranted : Nat := 0
  snapBuf : Nat → Byte := fun _ => 0
  snapLen : Nat := 0
  snapIndex : Nat := 0
  snapTerm : Nat := 0
  running : Bool := false
  valid : Bool := false
  preVoteActive : Bool := false
  calls : List Event := []
  reads : Nat := 0

/-- `std::memcpy(buf + offset, data, len)`. -/
def splice (buf : Nat → Byte) (offset len : Nat) (data : List Byte) : Nat → Byte :=
  fun k => if offset ≤ k ∧ k < offset + len then data.getD (k - offset) 0 else buf k

/-- The `len` bytes of a buffer from `offset` on. -/
def bytesAt (buf : Nat → Byte) (offset len : Nat) : List Byte := (List.range len).map (fun k => buf (offset + k))

/-- Change the node `node_by_id` points at: the first one with this id. -/
def modifyNode (nid : Nat) (f : Peer → Peer) : List Peer → List Peer
  | [] => []
  | p :: ps => if p.id = nid then f p :: ps else p :: modifyNode nid f ps

/-- The constructor. -/
def Server.new (cfg : Config) (selfId : Nat) (nodeIds : List Nat) : Server :=
  if nodeIds.isEmpty ∨ cfg.maxNodes < nodeIds.length then { selfId := selfId }
  else
    { selfId := selfId
      nodes := nodeIds.map (fun i => { id := i, isSelf := i == selfId })
      valid := nodeIds.contains selfId }

namespace Server

def call (e : Event) (s : Server) : Server := { s with calls := e :: s.calls }

def emit (msg : Message) (s : Server) : Server := s.call (.send s.currentTerm s.votedFor msg)

def persistState (s : Server) : Server := s.call (.persistState s.currentTerm s.votedFor)

def restoreState (term votedFor : Nat) (s : Server) : Server := { s with currentTerm := term, votedFor := votedFor }

def majority (s : Server) : Nat := s.nodes.length / 2 + 1

def nodeById (nid : Nat) (s : Server) : Option Peer := s.nodes.find? (fun p => p.id == nid)

/-- Take one answer of the environment. -/
def tick (s : Server) : Server := { s with reads := s.reads + 1 }

/-! ## `server_election_impl.inl` -/

def setState (state : Role) (s : Server) : Server :=
  if s.state = state then s else { s with state := state }.call (.onStateChange s.state state)

def resetElectionTimer (cfg : Config) (io : Io) (s : Server) : Server :=
  let now := io.now s.reads
  let s := s.tick
  if 0 < cfg.electionTimeoutSpreadMs then
    let jitter := io.rand s.reads % (cfg.electionTimeoutSpreadMs + 1)
    { s.tick with electionDeadline := wrap64 (now + cfg.electionTimeoutMinMs + jitter) }
  else { s with electionDeadline := wrap64 (now + cfg.electionTimeoutMinMs) }

def maybeStepDown (term : Nat) (s : Server) : Server :=
  if s.currentTerm < term then
    let s := { s with currentTerm := term, votedFor := badNode }.persistState
    if s.state ≠ .follower then { s.setState .follower with currentLeader := badNode } else s
  else s

def becomeFollower (cfg : Config) (io : Io) (term leader : Nat) (s : Server) : Server :=
  let s := { s with preVoteActive := false }
  let s := if s.currentTerm < term then { s with currentTerm := term, votedFor := badNode }.persistState else s
  let s := { s.setState .follower with currentLeader := leader }
  let s := if leader ≠ badNode then { s with leaderHint := leader } else s
  s.resetElectionTimer cfg io

def sendRequestVote (cfg : Config) (peer : Peer) (s : Server) : Server :=
  s.emit ⟨s.selfId, peer.id, .requestVote
    { term := s.currentTerm, candidateId := s.selfId, lastLogIndex := s.log.lastIndex, lastLogTerm := s.log.lastTerm cfg }⟩

def becomeLeader (cfg : Config) (io : Io) (s : Server) : Server :=
  let last := s.log.lastIndex
  let s := { s with preVoteActive := false }.setState .leader
  let s := { s with
    currentLeader := s.selfId
    leaderHint := s.selfId
    nodes := modifyNode s.selfId (fun p : Peer => { p with matchIndex := last })
      (s.nodes.map (fun p : Peer => { p with nextIndex := last + 1, matchIndex := 0 })) }
  let entry : Entry := { term := s.currentTerm, index := last + 1, type := .noop, dataLen := 0 }
  let s := match s.log.push cfg entry with
    | .ok log =>
      { { s with log := log }.call (.persistLogAppend entry) with
        nodes := modifyNode s.selfId (fun p : Peer => { p with matchIndex := entry.index }) s.nodes }
    | .error _ => s
  let now := io.now s.reads
  { s.tick with
    nodes := s.nodes.map (fun p : Peer => { p with lastContact := now })
    leaderSince := now
    lastHeartbeatSent := 0 }

/-- `become_candidate` up to its `RequestVote`s: the new term, the vote for ourselves and a fresh tally. -/
def beginCampaign (cfg : Config) (io : Io) (s : Server) : Server :=
  let s := { s with preVoteActive := false }.setState .candidate
  let s := { s with currentTerm := wrap64 (s.currentTerm + 1), votedFor := s.selfId }.persistState
  let s := { s with
    currentLeader := badNode
    votesGranted := 0
    nodes := s.nodes.map (fun p : Peer => { p with voteGranted := false }) }
  let s := if (s.nodeById s.selfId).isSome then
      { s with
        nodes := modifyNode s.selfId (fun p : Peer => { p with voteGranted := true }) s.nodes
        votesGranted := 1 }
    else s
  s.resetElectionTimer cfg io

def becomeCandidate (cfg : Config) (io : Io) (s : Server) : Server :=
  let s := s.beginCampaign cfg io
  let s := s.nodes.foldl (fun (s : Server) (p : Peer) => if p.isSelf then s else s.sendRequestVote cfg p) s
  if s.majority ≤ s.votesGranted then s.becomeLeader cfg io else s

def contactWithMajority (cfg : Config) (now : Nat) (s : Server) : Bool :=
  let window : Int := cfg.electionTimeoutMinMs + cfg.electionTimeoutSpreadMs
  if elapsed now s.leaderSince < window then true
  else
    let reachable := 1 + s.nodes.countP (fun p : Peer => !p.isSelf && decide (elapsed now p.lastContact < window))
    decide (s.nodes.length / 2 < reachable)

def leaderIsLive (cfg : Config) (now : Nat) (s : Server) : Bool :=
  let window : Int := cfg.electionTimeoutMinMs + cfg.electionTimeoutSpreadMs
  if s.state = .leader then s.contactWithMajority cfg now
  else decide (s.currentLeader ≠ badNode) && decide (elapsed now s.lastLeaderContact < window)

/-- The candidate's log is at least as up-to-date as ours (5.4). -/
def upToDate (cfg : Config) (rv : RequestVote) (s : Server) : Bool :=
  decide (s.log.lastTerm cfg < rv.lastLogTerm) ||
    (decide (rv.lastLogTerm = s.log.lastTerm cfg) && decide (s.log.lastIndex ≤ rv.lastLogIndex))

/-- `request_vote_guard`: `some` is the server after the reply it emitted, `none` means no guard applied. -/
def requestVoteGuard (cfg : Config) (io : Io) (rv : RequestVote) (s : Server) : Option Server :=
  let now := io.now s.reads
  if rv.preVote then
    let wouldGrant := !s.leaderIsLive cfg now && decide (s.currentTerm ≤ rv.term) && s.upToDate cfg rv
    some (s.tick.emit ⟨s.selfId, rv.candidateId, .requestVoteResp ⟨s.currentTerm, wouldGrant, true⟩⟩)
  else if s.leaderIsLive cfg now ∧ s.currentTerm < rv.term then
    some (s.tick.emit ⟨s.selfId, rv.candidateId, .requestVoteResp ⟨s.currentTerm, false, false⟩⟩)
  else none

def handleRequestVote (cfg : Config) (io : Io) (rv : RequestVote) (s : Server) : Server :=
  match s.requestVoteGuard cfg io rv with
  | some s => s
  | none =>
    let s := s.tick.maybeStepDown rv.term
    if rv.term < s.currentTerm then
      s.emit ⟨s.selfId, rv.candidateId, .requestVoteResp ⟨s.currentTerm, false, false⟩⟩
    else if (s.votedFor = badNode ∨ s.votedFor = rv.candidateId) ∧ s.upToDate cfg rv then
      let s := { s with votedFor := rv.candidateId }.persistState.resetElectionTimer cfg io
      s.emit ⟨s.selfId, rv.candidateId, .requestVoteResp ⟨s.currentTerm, true, false⟩⟩
    else s.emit ⟨s.selfId, rv.candidateId, .requestVoteResp ⟨s.currentTerm, false, false⟩⟩

def handleRequestVoteResp (cfg : Config) (io : Io) (sender : Nat) (rr : RequestVoteResp) (s : Server) : Server :=
  if rr.preVote then
    if !s.preVoteActive ∨ s.state = .leader then s
    else if rr.voteGranted ∧ rr.term ≤ wrap64 (s.currentTerm + 1) then
      let s := { s with preVotesGranted := s.preVotesGranted + 1 }
      if s.majority ≤ s.preVotesGranted then { s with preVoteActive := false }.becomeCandidate cfg io else s
    else s
  else if s.state ≠ .candidate then s
  else if s.currentTerm < rr.term then s.maybeStepDown rr.term
  else if rr.term < s.currentTerm then s
  else match s.nodeById sender with
    | none => s
    | some peer =>
      if peer.voteGranted then s
      else if rr.voteGranted then
        let s := { s with
          nodes := modifyNode sender (fun p : Peer => { p with voteGranted := true }) s.nodes
          votesGranted := s.votesGranted + 1 }
        if s.majority ≤ s.votesGranted then s.becomeLeader cfg io else s
      else s

/-! ## `server_snapshot_impl.inl`, the sending half -/

def sendInstallSnapshot (cfg : Config) (peer : Peer) (s : Server) : Server :=
  if peer.isSelf then s
  else if s.snapLen = 0 then s
  else if s.snapLen ≤ peer.snapOffset then s
  else
    let offset := peer.snapOffset
    let chunk := min (s.snapLen - offset) cfg.snapshotChunk % 2 ^ 16
    s.emit ⟨s.selfId, peer.id, .installSnapshot
      { term := s.currentTerm
        leaderId := s.selfId
        lastIncludedIndex := s.log.base
        lastIncludedTerm := s.log.baseTerm
        offset := offset
        totalLen := s.snapLen
        dataLen := chunk
        done := decide (s.snapLen ≤ add32 offset chunk)
        data := bytesAt s.snapBuf offset chunk }⟩

/-! ## `server_replication_impl.inl` -/

/-- The entries from `idx` on that fit one message. -/
def gather (cfg : Config) (log : LogRing) : Nat → Nat → List Entry
  | 0, _ => []
  | k + 1, idx =>
    if idx ≤ log.lastIndex then
      match log.at? cfg idx with
      | none => []
      | some entry => entry :: gather cfg log k (idx + 1)
    else []

def sendAppendEntries (cfg : Config) (peer : Peer) (s : Server) : Server :=
  if peer.isSelf then s
  else
    let prevIndex := peer.nextIndex - 1
    if prevIndex < s.log.base then s.sendInstallSnapshot cfg peer
    else match s.log.termAt cfg prevIndex with
      | none => s.sendInstallSnapshot cfg peer
      | some prevTerm =>
        let entries := gather cfg s.log cfg.maxAppendEntries peer.nextIndex
        s.emit ⟨s.selfId, peer.id, .appendEntries
          { term := s.currentTerm
            leaderId := s.selfId
            prevLogIndex := prevIndex
            prevLogTerm := prevTerm
            leaderCommit := s.commitIndex
            nEntries := entries.length
            entries := entries }⟩

/-- Send to every peer but ourselves. -/
def broadcast (cfg : Config) (s : Server) : Server :=
  s.nodes.foldl (fun (s : Server) (p : Peer) => if p.isSelf then s else s.sendAppendEntries cfg p) s

/-- `begin_snapshot`; an error other than `OK` is `some`. -/
def beginSnapshot (cfg : Config) (io : Io) (s : Server) : Option Error × Server :=
  match io.snapshotSave with
  | none => (some .badArg, s)
  | some save =>
    if s.lastApplied ≤ s.log.base then (none, s)
    else match s.log.termAt cfg s.lastApplied with
      | none => (some .notFound, s)
      | some snapTerm =>
        match save s.reads with
        | none => (some .logFull, s.tick)
        | some bytes =>
          let s := s.tick.call (.snapshotSave s.lastApplied bytes)
          let s := { s with
            snapBuf := splice s.snapBuf 0 bytes.length bytes
            snapLen := bytes.length
            log := s.log.compactTo cfg s.lastApplied snapTerm }
          (none, s.call (.persistLogCompact s.lastApplied))

def maybeCompact (cfg : Config) (io : Io) (s : Server) : Server :=
  if s.lastApplied - s.log.base < cfg.snapshotThreshold then s else (s.beginSnapshot cfg io).2

/-- One turn of the loop of `apply_committed`: an index the ring does not hold is stepped over. -/
def applyNext (cfg : Config) (s : Server) : Server :=
  let s := { s with lastApplied := s.lastApplied + 1 }
  match s.log.at? cfg s.lastApplied with
  | none => s
  | some entry => s.call (.apply s.lastApplied entry)

def applyLoop (cfg : Config) : Nat → Server → Server
  | 0, s => s
  | k + 1, s => applyLoop cfg k (s.applyNext cfg)

def applyCommitted (cfg : Config) (io : Io) (s : Server) : Server :=
  (applyLoop cfg (s.commitIndex - s.lastApplied) s).maybeCompact cfg io

/-- The first index of the term `t` at or below `scan`, above the snapshot edge: the back-up hint. -/
def firstOfTerm (cfg : Config) (log : LogRing) (t : Nat) : Nat → Nat
  | 0 => 0
  | scan + 1 =>
    if log.base + 1 < scan + 1 ∧ log.termAt cfg scan = some t then firstOfTerm cfg log t scan else scan + 1

/-- Append one entry, if the ring has room for it. -/
def pushEntry (cfg : Config) (entry : Entry) (s : Server) : Server :=
  match s.log.push cfg entry with
  | .ok log => { s with log := log }.call (.persistLogAppend entry)
  | .error _ => s

/-- One turn of the append loop of `handle(AppendEntries)`. -/
def appendEntry (cfg : Config) (nextIdx : Nat) (nextEntry : Entry) (s : Server) : Server :=
  if nextIdx ≤ s.log.base then s
  else match (if nextIdx ≤ s.log.lastIndex then s.log.termAt cfg nextIdx else none) with
    | some existing =>
      if existing = nextEntry.term then s
      else
        ({ s with log := s.log.truncateSuffix nextIdx }.call (.persistLogTruncate nextIdx)).pushEntry cfg
          { nextEntry with index := nextIdx }
    | none => s.pushEntry cfg { nextEntry with index := nextIdx }

def appendLoop (cfg : Config) : Nat → List Entry → Server → Server
  | _, [], s => s
  | nextIdx, e :: es, s => appendLoop cfg (nextIdx + 1) es (s.appendEntry cfg nextIdx e)

/-- The commit index after an accepted `AppendEntries`. -/
def followerCommit (ae : AppendEntries) (s : Server) : Server :=
  if s.commitIndex < ae.leaderCommit then
    { s with commitIndex := max (min ae.leaderCommit (ae.prevLogIndex + ae.nEntries)) s.commitIndex }
  else s

def replyAppend (ae : AppendEntries) (resp : AppendEntriesResp) (s : Server) : Server :=
  s.emit ⟨s.selfId, ae.leaderId, .appendEntriesResp resp⟩

/-- The reply to an `AppendEntries` whose previous entry is not in the log, or `none` when it is (or is below the
snapshot edge, where nothing is checked). -/
def prevMismatch (cfg : Config) (ae : AppendEntries) (s : Server) : Option AppendEntriesResp :=
  if s.log.lastIndex < ae.prevLogIndex then
    some { term := s.currentTerm, success := false, conflictIndex := s.log.lastIndex + 1, conflictTerm := 0,
           lastLogIndex := s.log.lastIndex }
  else if ae.prevLogIndex < s.log.base then none
  else match s.log.termAt cfg ae.prevLogIndex with
    | some prevTerm =>
      if prevTerm ≠ ae.prevLogTerm then
        some { term := s.currentTerm, success := false, conflictTerm := prevTerm,
               conflictIndex := firstOfTerm cfg s.log prevTerm ae.prevLogIndex, lastLogIndex := s.log.lastIndex }
      else none
    | none => some { term := s.currentTerm, success := false, lastLogIndex := s.log.lastIndex }

def handleAppendEntries (cfg : Config) (io : Io) (ae : AppendEntries) (s : Server) : Server :=
  if ae.term < s.currentTerm then
    s.replyAppend ae { term := s.currentTerm, success := false, lastLogIndex := s.log.lastIndex }
  else
    let s := (s.maybeStepDown ae.term).becomeFollower cfg io ae.term ae.leaderId
    let s := { s.tick with lastLeaderContact := io.now s.reads }
    match s.prevMismatch cfg ae with
    | some resp => s.replyAppend ae resp
    | none =>
      let s := (appendLoop cfg (ae.prevLogIndex + 1) ae.view s).followerCommit ae
      let s := s.replyAppend ae { term := s.currentTerm, success := true, lastLogIndex := s.log.lastIndex }
      s.applyCommitted cfg io

/-- The highest index above the commit index, at most `k` above it, that a majority holds and that is of our term. -/
def findCommit (cfg : Config) (s : Server) : Nat → Option Nat
  | 0 => none
  | k + 1 =>
    let next := s.commitIndex + (k + 1)
    if s.log.termAt cfg next = some s.currentTerm ∧
        s.majority ≤ s.nodes.countP (fun p : Peer => p.isSelf || decide (next ≤ p.matchIndex)) then some next
    else findCommit cfg s k

def leaderAdvanceCommit (cfg : Config) (io : Io) (s : Server) : Server :=
  let s := match findCommit cfg s (s.log.lastIndex - s.commitIndex) with
    | some next => { s with commitIndex := next }
    | none => s
  s.applyCommitted cfg io

/-- The last index of the term `t`, at most `k` above the snapshot edge; 0 when there is none. -/
def findTerm (cfg : Config) (log : LogRing) (t : Nat) : Nat → Nat
  | 0 => 0
  | k + 1 => if log.termAt cfg (log.base + (k + 1)) = some t then log.base + (k + 1) else findTerm cfg log t k

/-- Where to retry after a failed consistency check (5.3). -/
def backup (cfg : Config) (rr : AppendEntriesResp) (peer : Peer) (s : Server) : Nat :=
  let b :=
    if rr.conflictTerm ≠ 0 then
      let found := findTerm cfg s.log rr.conflictTerm (s.log.lastIndex - s.log.base)
      if found ≠ 0 then found + 1 else rr.conflictIndex
    else if rr.conflictIndex = 0 then (if 1 < peer.nextIndex then peer.nextIndex - 1 else 1)
    else rr.conflictIndex
  max b 1

def handleAppendEntriesResp (cfg : Config) (io : Io) (sender : Nat) (rr : AppendEntriesResp) (s : Server) : Server :=
  if s.currentTerm < rr.term then s.maybeStepDown rr.term
  else if s.state ≠ .leader ∨ rr.term < s.currentTerm then s
  else match s.nodeById sender with
    | none => s
    | some peer =>
      let peer := { peer with lastContact := io.now s.reads }
      let s := s.tick
      if rr.success then
        let peer := { peer with
          nextIndex := max (rr.lastLogIndex + 1) peer.nextIndex
          matchIndex := max rr.lastLogIndex peer.matchIndex }
        let s := { s with nodes := modifyNode sender (fun _ => peer) s.nodes }.leaderAdvanceCommit cfg io
        if peer.nextIndex ≤ s.log.lastIndex then s.sendAppendEntries cfg peer else s
      else
        let peer := { peer with nextIndex := s.backup cfg rr peer }
        let s := { s with nodes := modifyNode sender (fun _ => peer) s.nodes }
        (s.sendAppendEntries cfg peer).applyCommitted cfg io

/-! ## `server_snapshot_impl.inl`, the receiving half -/

def replySnapshot (is : InstallSnapshot) (s : Server) : Server :=
  s.emit ⟨s.selfId, is.leaderId, .installSnapshotResp ⟨s.currentTerm, s.log.base⟩⟩

/-- Accumulate one chunk. -/
def storeChunk (cfg : Config) (is : InstallSnapshot) (s : Server) : Server :=
  let s := if is.offset = 0 then
      { s with snapLen := 0, snapIndex := is.lastIncludedIndex, snapTerm := is.lastIncludedTerm }
    else s
  if add32 is.offset is.dataLen ≤ cfg.snapshotMax then
    { s with
      snapBuf := splice s.snapBuf is.offset is.dataLen is.data
      snapLen := if s.snapLen < add32 is.offset is.dataLen then add32 is.offset is.dataLen else s.snapLen }
  else s

/-- Retain the entries after the snapshot's last one if the log holds that one, else discard the log. -/
def installLog (cfg : Config) (is : InstallSnapshot) (log : LogRing) : LogRing :=
  if is.lastIncludedIndex ≤ log.lastIndex ∧ log.termAt cfg is.lastIncludedIndex = some is.lastIncludedTerm then
    log.compactTo cfg is.lastIncludedIndex is.lastIncludedTerm
  else log.resetToSnapshot is.lastIncludedIndex is.lastIncludedTerm

def handleInstallSnapshot (cfg : Config) (io : Io) (is : InstallSnapshot) (s : Server) : Server :=
  if is.term < s.currentTerm then s.replySnapshot is
  else
    let s := (s.maybeStepDown is.term).becomeFollower cfg io is.term is.leaderId
    let s := s.storeChunk cfg is
    if !is.done then s.replySnapshot is
    else
      let log := installLog cfg is s.log
      let s := { s with
        log := log
        commitIndex := max s.commitIndex log.base
        lastApplied := max s.lastApplied log.base }
      let s := if io.snapshotLoad then
          s.call (.snapshotLoad is.lastIncludedIndex (bytesAt s.snapBuf 0 s.snapLen))
        else s
      let s := s.call (.persistLogCompact s.log.base)
      (s.replySnapshot is).applyCommitted cfg io

def handleInstallSnapshotResp (cfg : Config) (io : Io) (sender : Nat) (rr : InstallSnapshotResp) (s : Server) : Server :=
  if s.currentTerm < rr.term then s.maybeStepDown rr.term
  else if s.state ≠ .leader then s
  else match s.nodeById sender with
    | none => s
    | some peer =>
      let peer := { peer with
        lastContact := io.now s.reads
        snapOffset := min (add32 peer.snapOffset cfg.snapshotChunk) s.snapLen }
      let s := s.tick
      if peer.snapOffset < s.snapLen then
        { s with nodes := modifyNode sender (fun _ => peer) s.nodes }.sendInstallSnapshot cfg peer
      else
        let peer := { peer with
          snapOffset := 0
          nextIndex := max (rr.lastIncludedIndex + 1) peer.nextIndex
          matchIndex := max rr.lastIncludedIndex peer.matchIndex }
        let s := { s with nodes := modifyNode sender (fun _ => peer) s.nodes }
        (s.sendAppendEntries cfg peer).applyCommitted cfg io

/-! ## `server_driver_impl.inl` -/

def start (cfg : Config) (io : Io) (s : Server) : Server :=
  ({ s with running := true }.setState .follower).resetElectionTimer cfg io

def stop (s : Server) : Server := { s with running := false }

def startPreVote (cfg : Config) (io : Io) (s : Server) : Server :=
  let s := { s with preVoteActive := true, preVotesGranted := 1 }.resetElectionTimer cfg io
  let s := s.nodes.foldl (fun (s : Server) (p : Peer) => if p.isSelf then s else
      s.emit ⟨s.selfId, p.id, .requestVote
        { term := wrap64 (s.currentTerm + 1), candidateId := s.selfId, lastLogIndex := s.log.lastIndex,
          lastLogTerm := s.log.lastTerm cfg, preVote := true }⟩) s
  if s.majority ≤ s.preVotesGranted then { s with preVoteActive := false }.becomeCandidate cfg io else s

def periodic (cfg : Config) (io : Io) (s : Server) : Server :=
  if !s.running then s
  else
    let now := io.now s.reads
    let s := s.tick
    if s.state = .leader then
      if !s.contactWithMajority cfg now then s.becomeFollower cfg io s.currentTerm badNode
      else if cfg.heartbeatIntervalMs ≤ sub64 now s.lastHeartbeatSent then
        ({ s with lastHeartbeatSent := now }.broadcast cfg).applyCommitted cfg io
      else s.applyCommitted cfg io
    else if 0 ≤ elapsed now s.electionDeadline then (s.startPreVote cfg io).applyCommitted cfg io
    else s.applyCommitted cfg io

def submit (cfg : Config) (io : Io) (type : EntryType) (data : List Byte) (s : Server) : Except Error Nat × Server :=
  if !s.running then (.error .shutdown, s)
  else if s.state ≠ .leader then (.error .notLeader, s)
  else if cfg.maxEntryData < data.length then (.error .badArg, s)
  else if s.log.full cfg then (.error .logFull, s)
  else
    let entry : Entry :=
      { term := s.currentTerm, index := s.log.lastIndex + 1, type := type, dataLen := data.length % 2 ^ 16, data := data }
    match s.log.push cfg entry with
    | .error _ => (.error .logFull, s)
    | .ok log =>
      let s := { s with log := log }.call (.persistLogAppend entry)
      let s := { s with nodes := modifyNode s.selfId (fun p : Peer => { p with matchIndex := entry.index }) s.nodes }
      let s := s.broadcast cfg
      let s := if s.nodes.length = 1 then (s.leaderAdvanceCommit cfg io).applyCommitted cfg io else s
      (.ok entry.index, s)

/-- `can_read`. -/
def canRead (cfg : Config) (s : Server) : Bool :=
  decide (s.state = .leader) && decide (s.commitIndex ≠ 0) && decide (s.log.termAt cfg s.commitIndex = some s.currentTerm)

def handle (cfg : Config) (io : Io) (msg : Message) (s : Server) : Server :=
  match msg.payload with
  | .requestVote rv => s.handleRequestVote cfg io rv
  | .requestVoteResp rr => s.handleRequestVoteResp cfg io msg.sender rr
  | .appendEntries ae => s.handleAppendEntries cfg io ae
  | .appendEntriesResp rr => s.handleAppendEntriesResp cfg io msg.sender rr
  | .installSnapshot is => s.handleInstallSnapshot cfg io is
  | .installSnapshotResp rr => s.handleInstallSnapshotResp cfg io msg.sender rr

end Server

/-- The public calls a running server can receive. -/
inductive Call where
  | start
  | stop
  | periodic
  | submit (type : EntryType) (data : List Byte)
  | beginSnapshot
  | handle (msg : Message)

def Server.perform (cfg : Config) (io : Io) (s : Server) : Call → Server
  | .start => s.start cfg io
  | .stop => s.stop
  | .periodic => s.periodic cfg io
  | .submit type data => (s.submit cfg io type data).2
  | .beginSnapshot => (s.beginSnapshot cfg io).2
  | .handle msg => s.handle cfg io msg

end Raft
end FloodEws
