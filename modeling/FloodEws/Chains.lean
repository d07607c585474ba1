import FloodEws.Moves
/-!
# Chains — every method is a chain of moves

The methods of the server in the source's order, bottom up: what each one does to the core of the server is a chain of
moves.  The calls are put together from them in `Underway`.
-/
namespace FloodEws
namespace Raft

/-! ## What `core` keeps -/

namespace Server

variable {cfg : Config} {io : Io} {fit : Prop} {heard : Option Message} {start s : Server}

/-- Only the deadline moves, and the environment is asked. -/
theorem resetElectionTimer_eq (cfg : Config) (io : Io) (s : Server) :
    ∃ d k, s.resetElectionTimer cfg io = { s with electionDeadline := d, reads := k } := by
  unfold resetElectionTimer
  split <;> exact ⟨_, _, rfl⟩

theorem core_resetElectionTimer (cfg : Config) (io : Io) (s : Server) : (s.resetElectionTimer cfg io).core = s.core := by
  obtain ⟨d, k, he⟩ := resetElectionTimer_eq cfg io s
  rw [he]
  rfl

theorem setState_eq (r : Role) (s : Server) :
    ∃ evs : List Event, (∀ e ∈ evs, e.quiet = true) ∧ s.setState r = { s.after evs with state := r } := by
  unfold setState
  split
  · rename_i h
    exact ⟨[], by simp, by subst h; rfl⟩
  · exact ⟨[.onStateChange s.state r], by simp [Event.quiet], rfl⟩

theorem map_key_modifyNode {f g : Peer → Peer} (hf : ∀ p, (f p).key = g p.key) (n : Nat) :
    ∀ ps : List Peer, (modifyNode n f ps).map Peer.key = modifyNode n g (ps.map Peer.key)
  | [] => rfl
  | p :: ps => by
    simp only [modifyNode, List.map_cons]
    by_cases h : p.id = n
    · have hk : p.key.id = n := h
      rw [if_pos h, if_pos hk, List.map_cons, hf]
    · have hk : ¬ p.key.id = n := h
      rw [if_neg h, if_neg hk, List.map_cons, map_key_modifyNode hf n ps]

theorem modifyNode_const {n : Nat} {p : Peer} {f : Peer → Peer} :
    ∀ {ps : List Peer}, ps.find? (fun q => q.id == n) = some p → modifyNode n (fun _ => f p) ps = modifyNode n f ps
  | [], h => by cases h
  | q :: ps, h => by
    simp only [modifyNode]
    by_cases hq : q.id = n
    · rw [List.find?_cons_of_pos (by simpa using hq)] at h
      injection h with h
      rw [if_pos hq, if_pos hq, h]
    · rw [List.find?_cons_of_neg (by simpa using hq)] at h
      rw [if_neg hq, if_neg hq, modifyNode_const h]

theorem nodeById_modifyNode {n : Nat} {p q : Peer} (hq : q.id = n) :
    ∀ {ps : List Peer}, ps.find? (fun x => x.id == n) = some p →
      (modifyNode n (fun _ => q) ps).find? (fun x => x.id == n) = some q
  | [], h => by cases h
  | x :: ps, h => by
    simp only [modifyNode]
    by_cases hx : x.id = n
    · rw [if_pos hx, List.find?_cons_of_pos (by simpa using hq)]
    · rw [List.find?_cons_of_neg (by simpa using hx)] at h
      rw [if_neg hx, List.find?_cons_of_neg (by simpa using hx)]
      exact nodeById_modifyNode hq h

theorem nodeById_core (n : Nat) (s : Server) : s.core.nodeById n = (s.nodeById n).map Peer.key := by
  simp only [nodeById, core, List.find?_map]
  rfl

theorem core_pushEntry (e : Entry) (s : Server) : (s.pushEntry cfg e).core = s.core.pushEntry cfg e := by
  have hlog : s.core.log = s.log := rfl
  unfold pushEntry
  rw [hlog]
  split <;> rfl

theorem core_appendEntry (i : Nat) (e : Entry) (s : Server) :
    (s.appendEntry cfg i e).core = s.core.appendEntry cfg i e := by
  have hlog : s.core.log = s.log := rfl
  unfold appendEntry
  rw [hlog]
  split
  · rfl
  · split
    · split
      · rfl
      · rw [core_pushEntry]; rfl
    · rw [core_pushEntry]

theorem core_appendLoop : ∀ (es : List Entry) (i : Nat) (s : Server),
    (appendLoop cfg i es s).core = appendLoop cfg i es s.core
  | [], _, _ => rfl
  | e :: es, i, s => by rw [appendLoop, core_appendLoop es, core_appendEntry]; rfl

theorem core_accepted (cfg : Config) (ae : AppendEntries) (s : Server) : (s.accepted cfg ae).core = s.core.accepted cfg ae := by
  unfold accepted followerCommit
  rw [← core_appendLoop]
  generalize appendLoop cfg (ae.prevLogIndex + 1) ae.view s = x
  have hc : x.core.commitIndex = x.commitIndex := rfl
  rw [hc]
  split <;> rfl

@[simp] theorem key_key (p : Peer) : p.key.key = p.key := rfl

theorem core_storeChunk (is : InstallSnapshot) (s : Server) :
    (s.storeChunk cfg is).core = (s.core.storeChunk cfg is).core := by
  unfold storeChunk
  by_cases h0 : is.offset = 0
  · simp only [h0, if_true]
    split <;> simp only [core, List.map_map, Function.comp_def, key_key]
  · simp only [h0, if_false]
    split
    · simp only [core, List.map_map, Function.comp_def, key_key]; rfl
    · simp only [core, List.map_map, Function.comp_def, key_key]

theorem core_installed (is : InstallSnapshot) (s : Server) :
    (s.installed cfg io is).core = (s.core.installed cfg io is).core := by
  have h : (s.storeChunk cfg is).core = _ := core_storeChunk is s
  unfold installed
  generalize s.storeChunk cfg is = x at h
  generalize s.core.storeChunk cfg is = y at h
  have hlog : x.log = y.log := show x.core.log = y.core.log by rw [h]
  have hcom : x.commitIndex = y.commitIndex := show x.core.commitIndex = y.core.commitIndex by rw [h]
  have happ : x.lastApplied = y.lastApplied := show x.core.lastApplied = y.core.lastApplied by rw [h]
  have hbuf : x.snapBuf = y.snapBuf := show x.core.snapBuf = y.core.snapBuf by rw [h]
  have hlen : x.snapLen = y.snapLen := show x.core.snapLen = y.core.snapLen by rw [h]
  have hcal : x.calls = y.calls := show x.core.calls = y.core.calls by rw [h]
  simp only [core, call, Server.mk.injEq] at h ⊢
  split <;> simp_all

/-! ## Each method is a chain of moves -/

theorem maybeStepDown_moves (t : Nat) (s : Server) : Moves cfg io fit heard start s.core (s.maybeStepDown t).core := by
  unfold maybeStepDown
  split
  · rename_i ht
    refine .head (.adopt _ t ht) ?_
    dsimp only
    split
    · obtain ⟨evs, hq, he⟩ := setState_eq .follower ({ s with currentTerm := t, votedFor := badNode }.persistState)
      rw [he]
      exact .single (.quiet _ evs hq)
    · rename_i hf
      have hf : s.state = .follower := Classical.not_not.1 hf
      convert Relation.ReflTransGen.refl using 1
      simp only [core, persistState, call, hf]
  · exact .refl

theorem becomeFollower_moves {t leader : Nat} (h : t ≤ s.currentTerm) :
    Moves cfg io fit heard start s.core (s.becomeFollower cfg io t leader).core := by
  obtain ⟨evs, hq, he⟩ := setState_eq .follower { s with preVoteActive := false }
  have hle : ¬ s.currentTerm < t := Nat.not_lt.2 h
  refine .tail (.single (.quiet s.core evs hq)) ?_
  unfold becomeFollower
  dsimp only
  rw [core_resetElectionTimer, if_neg hle, he]
  split <;> exact .demote (s.core.after evs)

theorem sendRequestVote_move (p : Peer) (hs : s.state = .candidate) (hv : s.votedFor = s.selfId) :
    Move cfg io fit heard start s.core (s.sendRequestVote cfg p).core :=
  .emit s.core _ ⟨rfl, .inr ⟨hs, hv, rfl⟩⟩

theorem map_key_setMatch (n k : Nat) (ps : List Peer) :
    (modifyNode n (fun p => { p with matchIndex := k }) ps).map Peer.key =
      modifyNode n (fun p => { p with matchIndex := k }) (ps.map Peer.key) :=
  map_key_modifyNode (by intro p; rfl) n ps

theorem map_key_grant (n : Nat) (ps : List Peer) :
    (modifyNode n (fun p => { p with voteGranted := true }) ps).map Peer.key =
      modifyNode n (fun p => { p with voteGranted := true }) (ps.map Peer.key) :=
  map_key_modifyNode (by intro p; rfl) n ps

theorem core_map_contact (now : Nat) (ps : List Peer) :
    (ps.map (fun p : Peer => { p with lastContact := now })).map Peer.key = ps.map Peer.key := by
  rw [List.map_map]; rfl

/-- The part of `become_leader` before the no-op. -/
theorem promote_moves (hs : s.state = .candidate) (hm : s.majority ≤ s.votesGranted) (hw : Wins heard start s) :
    Moves cfg io fit heard start s.core
      { s.core with
        state := .leader
        nodes := modifyNode s.selfId (fun p => { p with matchIndex := s.log.lastIndex })
          (s.core.nodes.map (fun p => { p with nextIndex := s.log.lastIndex + 1, matchIndex := 0 }))
        calls := .onStateChange s.state .leader :: s.calls } := by
  have hm' : (s.core.after [.onStateChange s.state .leader]).majority ≤ s.votesGranted := by
    simpa [majority, after, core] using hm
  have hw' : Wins heard start (s.core.after [.onStateChange s.state .leader]) := by
    simpa [Wins, majority, after, core] using hw
  refine .tail (.single (.quiet s.core [.onStateChange s.state .leader] (by simp [Event.quiet]))) ?_
  exact .promote _ hs hm' hw'

theorem becomeLeader_moves (hs : s.state = .candidate) (hm : s.majority ≤ s.votesGranted) (hw : Wins heard start s) :
    Moves cfg io fit heard start s.core (s.becomeLeader cfg io).core := by
  have hne : ¬ s.state = .leader := by rw [hs]; decide
  have hfirst : Moves cfg io fit heard start s.core _ := promote_moves hs hm hw
  unfold becomeLeader
  simp only [setState, call, if_neg hne]
  split
  · rename_i log hp
    refine hfirst.tail ?_
    have hmv : Move cfg io fit heard start _ _ := Move.propose
      { s.core with
        state := .leader
        nodes := modifyNode s.selfId (fun p => { p with matchIndex := s.log.lastIndex })
          (s.core.nodes.map (fun p => { p with nextIndex := s.log.lastIndex + 1, matchIndex := 0 }))
        calls := .onStateChange s.state .leader :: s.calls }
      { term := s.currentTerm, index := s.log.lastIndex + 1, type := .noop, dataLen := 0 } log rfl rfl rfl hp
    convert hmv using 1
    simp only [core, tick, core_map_contact]
    rw [map_key_setMatch, map_key_setMatch, List.map_map, List.map_map]
    rfl
  · convert hfirst using 1
    simp only [core, tick, core_map_contact]
    rw [map_key_setMatch, List.map_map, List.map_map]
    rfl

/-- A run of sends: nothing but the record grows. -/
def Sends (s s' : Server) : Prop := ∃ ms : List Message, s' = s.after (ms.map (.send s.currentTerm s.votedFor))

theorem Sends.refl (s : Server) : Sends s s := ⟨[], rfl⟩

theorem Sends.emit {s s' : Server} (h : Sends s s') (m : Message) : Sends s (s'.emit m) := by
  obtain ⟨ms, rfl⟩ := h
  exact ⟨m :: ms, rfl⟩

/-- Going through the peers, sending to some of them. -/
theorem foldl_moves {g : Server → Peer → Server} {s : Server} :
    ∀ (ps : List Peer) (x : Server), Sends s x →
      (∀ y p, p ∈ ps → Sends s y → Sends s (g y p) ∧ Moves cfg io fit heard start y.core (g y p).core) →
      Sends s (ps.foldl g x) ∧ Moves cfg io fit heard start x.core (ps.foldl g x).core
  | [], _, hx, _ => ⟨hx, .refl⟩
  | p :: ps, x, hx, hg => by
    obtain ⟨h1, h2⟩ := hg x p List.mem_cons_self hx
    obtain ⟨h3, h4⟩ := foldl_moves ps (g x p) h1 (fun y q hq => hg y q (List.mem_cons_of_mem p hq))
    exact ⟨h3, h2.trans h4⟩

theorem modifyNode_of_none {n : Nat} {f : Peer → Peer} :
    ∀ {ps : List Peer}, ps.find? (fun q => q.id == n) = none → modifyNode n f ps = ps
  | [], _ => rfl
  | q :: ps, h => by
    rw [List.find?_cons] at h
    by_cases hq : q.id = n
    · simp [hq] at h
    · have hq' : (q.id == n) = false := by simpa using hq
      rw [hq'] at h
      rw [modifyNode, if_neg hq, modifyNode_of_none h]

theorem find?_map_id {f : Peer → Peer} (hf : ∀ p, (f p).id = p.id) (n : Nat) (ps : List Peer) :
    (ps.map f).find? (fun p => p.id == n) = (ps.find? (fun p => p.id == n)).map f := by
  rw [List.find?_map]
  congr 2
  funext p
  simp only [Function.comp_apply, hf]

/-- **A campaign is one move**, after the report of the new state. -/
theorem beginCampaign_moves (hs : s.state ≠ .leader) (hf : fit → s.currentTerm + 1 < 2 ^ 64) :
    Moves cfg io fit heard start s.core (s.beginCampaign cfg io).core := by
  obtain ⟨evs, hq, he⟩ := setState_eq .candidate { s with preVoteActive := false }
  refine .tail (.single (.quiet s.core evs hq)) ?_
  have hmv : Move cfg io fit heard start _ _ := Move.campaign (s.core.after evs) hs hf
  convert hmv using 1
  have hfresh : (s.nodes.map (fun p : Peer => { p with voteGranted := false })).map Peer.key =
      (s.nodes.map Peer.key).map (fun p : Peer => { p with voteGranted := false }) := by
    rw [List.map_map, List.map_map]; rfl
  have h1 := find?_map_id (f := fun p : Peer => { p with voteGranted := false }) (fun _ => rfl) s.selfId s.nodes
  have h2 := find?_map_id (f := Peer.key) (fun _ => rfl) s.selfId s.nodes
  have h3 := find?_map_id (f := fun p : Peer => { p with voteGranted := false }) (fun _ => rfl) s.selfId
    (s.nodes.map Peer.key)
  unfold beginCampaign
  rw [he, core_resetElectionTimer]
  simp only [after, persistState, call, nodeById, h1, Option.isSome_map]
  cases hself : s.nodes.find? (fun p => p.id == s.selfId) with
  | some p =>
    simp only [Option.isSome_some, if_true, core, map_key_grant, hfresh, h2, hself, Option.map_some]
  | none =>
    rw [hself, Option.map_none] at h2
    rw [h2, Option.map_none] at h3
    simp only [Option.isSome_none, Bool.false_eq_true, if_false, core, hfresh, h2]
    rw [modifyNode_of_none h3]

theorem beginCampaign_spec (cfg : Config) (io : Io) (s : Server) :
    (s.beginCampaign cfg io).state = .candidate ∧ (s.beginCampaign cfg io).votedFor = (s.beginCampaign cfg io).selfId := by
  obtain ⟨evs, -, he⟩ := setState_eq .candidate { s with preVoteActive := false }
  unfold beginCampaign
  rw [he]
  dsimp only
  split
  all_goals
    obtain ⟨d, k, hr⟩ := resetElectionTimer_eq cfg io _
    rw [hr]
    exact ⟨rfl, rfl⟩

theorem beginCampaign_votes (cfg : Config) (io : Io) (s : Server) : (s.beginCampaign cfg io).votesGranted ≤ 1 := by
  have hr : ∀ x : Server, (x.resetElectionTimer cfg io).votesGranted = x.votesGranted := by
    intro x
    obtain ⟨d, k, he⟩ := resetElectionTimer_eq cfg io x
    rw [he]
  unfold beginCampaign
  dsimp only
  rw [hr]
  split
  · exact Nat.le_refl 1
  · exact Nat.zero_le 1

/-- The requests for votes. -/
theorem requestVotes_moves (hs : s.state = .candidate) (hv : s.votedFor = s.selfId) :
    Sends s (s.nodes.foldl (fun (s : Server) (p : Peer) => if p.isSelf then s else s.sendRequestVote cfg p) s) ∧
      Moves cfg io fit heard start s.core
        (s.nodes.foldl (fun (s : Server) (p : Peer) => if p.isSelf then s else s.sendRequestVote cfg p) s).core := by
  refine foldl_moves s.nodes s (.refl s) ?_
  rintro y p - ⟨ms, rfl⟩
  split
  · exact ⟨⟨ms, rfl⟩, .refl⟩
  · exact ⟨Sends.emit ⟨ms, rfl⟩ _, .single (sendRequestVote_move p hs hv)⟩

/-- What `become_candidate` does once the campaign has begun. -/
theorem afterCampaign_moves (s : Server) :
    Moves cfg io fit heard start (s.beginCampaign cfg io).core (s.becomeCandidate cfg io).core := by
  obtain ⟨hst, hv⟩ := beginCampaign_spec cfg io s
  have hone := beginCampaign_votes cfg io s
  unfold becomeCandidate
  generalize s.beginCampaign cfg io = x at hst hv hone
  have hfold : Sends x _ ∧ Moves cfg io fit heard start x.core _ := requestVotes_moves hst hv
  obtain ⟨⟨ms, he⟩, hsend⟩ := hfold
  dsimp only
  rw [he] at hsend ⊢
  split
  · rename_i hm
    exact hsend.trans (becomeLeader_moves hst hm (.inl (Nat.le_trans hm hone)))
  · exact hsend

/-! ### Replication and snapshots -/

/-- The peer, or an updated copy of it, is one of the server's. -/
def Knows (s : Server) (p : Peer) : Prop := ∃ q ∈ s.nodes, q.isSelf = p.isSelf ∧ q.id = p.id

theorem Knows.hasPeer {p : Peer} (h : s.Knows p) (hp : ¬ p.isSelf = true) : s.core.HasPeer p.id := by
  obtain ⟨q, hq, h1, h2⟩ := h
  refine ⟨q.key, List.mem_map_of_mem hq, ?_, h2⟩
  show q.isSelf = false
  rw [h1]; simpa using hp

theorem sendInstallSnapshot_moves {p : Peer} (hs : s.state = .leader) (hp : s.Knows p) :
    Sends s (s.sendInstallSnapshot cfg p) ∧ Moves cfg io fit heard start s.core (s.sendInstallSnapshot cfg p).core := by
  unfold sendInstallSnapshot
  split
  · exact ⟨.refl s, .refl⟩
  rename_i hself
  split
  · exact ⟨.refl s, .refl⟩
  split
  · exact ⟨.refl s, .refl⟩
  rename_i hoff
  exact ⟨(Sends.refl s).emit _, .single (.emit s.core _ ⟨rfl, hs, hp.hasPeer hself, Nat.lt_of_not_le hoff, rfl⟩)⟩

theorem sendAppendEntries_moves {p : Peer} (hs : s.state = .leader) (hp : s.Knows p) :
    Sends s (s.sendAppendEntries cfg p) ∧ Moves cfg io fit heard start s.core (s.sendAppendEntries cfg p).core := by
  unfold sendAppendEntries
  split
  · exact ⟨.refl s, .refl⟩
  rename_i hself
  dsimp only
  split
  · exact sendInstallSnapshot_moves hs hp
  rename_i hb
  split
  · exact sendInstallSnapshot_moves hs hp
  · rename_i t ht
    exact ⟨(Sends.refl s).emit _,
      .single (.emit s.core _ ⟨rfl, hs, hp.hasPeer hself, Nat.le_of_not_lt hb, p.nextIndex, ht, rfl⟩)⟩

theorem broadcast_moves (hs : s.state = .leader) :
    Sends s (s.broadcast cfg) ∧ Moves cfg io fit heard start s.core (s.broadcast cfg).core := by
  refine foldl_moves s.nodes s (.refl s) ?_
  rintro y p hp ⟨ms, rfl⟩
  split
  · exact ⟨⟨ms, rfl⟩, .refl⟩
  · generalize hx : s.after (ms.map (.send s.currentTerm s.votedFor)) = x
    have hk : x.Knows p := by rw [← hx]; exact ⟨p, hp, rfl, rfl⟩
    have hsend : Sends x (x.sendAppendEntries cfg p) ∧ Moves cfg io fit heard start _ _ :=
      sendAppendEntries_moves (by rw [← hx]; exact hs) hk
    obtain ⟨⟨ms', he⟩, hmv⟩ := hsend
    exact ⟨⟨ms' ++ ms, by rw [he, ← hx]; simp [after]⟩, hmv⟩

theorem core_applyNext (s : Server) : (s.applyNext cfg).core = s.core.applyNext cfg := by
  have hlog : s.core.log = s.log := rfl
  have happ : s.core.lastApplied = s.lastApplied := rfl
  unfold applyNext
  dsimp only
  rw [hlog, happ]
  split <;> rfl

theorem applyNext_lastApplied (s : Server) : (s.applyNext cfg).lastApplied = s.lastApplied + 1 := by
  unfold applyNext
  dsimp only
  split <;> rfl

theorem applyNext_commitIndex (s : Server) : (s.applyNext cfg).commitIndex = s.commitIndex := by
  unfold applyNext
  dsimp only
  split <;> rfl

theorem applyLoop_moves : ∀ (k : Nat) (s : Server), s.lastApplied + k ≤ s.commitIndex →
    Moves cfg io fit heard start s.core (applyLoop cfg k s).core
  | 0, _, _ => .refl
  | k + 1, s, h => by
    have hmv : Move cfg io fit heard start s.core (s.applyNext cfg).core := by
      rw [core_applyNext]
      exact .apply s.core (show s.lastApplied < s.commitIndex by omega)
    refine .head hmv (applyLoop_moves k (s.applyNext cfg) ?_)
    rw [applyNext_lastApplied, applyNext_commitIndex]
    omega

theorem beginSnapshot_moves (s : Server) : Moves cfg io fit heard start s.core (s.beginSnapshot cfg io).2.core := by
  rcases beginSnapshot_cases cfg io s with ⟨-, k, he⟩ | ⟨-, t, bytes, hb, ht, hsaved, he⟩
  · rw [he]
    exact .refl
  · obtain ⟨save, hsave, hbytes⟩ := Option.bind_eq_some_iff.1 hsaved
    rw [he]
    exact .single (.compact s.core bytes t ⟨save, s.reads, hsave, hbytes⟩ hb ht)

theorem maybeCompact_moves (s : Server) : Moves cfg io fit heard start s.core (s.maybeCompact cfg io).core := by
  unfold maybeCompact
  split
  · exact .refl
  · exact beginSnapshot_moves s

theorem applyCommitted_moves (s : Server) : Moves cfg io fit heard start s.core (s.applyCommitted cfg io).core := by
  have hloop : Moves cfg io fit heard start s.core (applyLoop cfg (s.commitIndex - s.lastApplied) s).core := by
    rcases Nat.le_total s.lastApplied s.commitIndex with h | h
    · exact applyLoop_moves _ s (by omega)
    · rw [Nat.sub_eq_zero_of_le h]
      exact .refl
  exact hloop.trans (maybeCompact_moves _)

theorem findCommit_core (s : Server) : ∀ k, findCommit cfg s.core k = findCommit cfg s k
  | 0 => rfl
  | k + 1 => by
    have hlen : s.core.majority = s.majority := by simp [majority, core]
    have hcount : s.core.nodes.countP (fun p : Peer => p.isSelf || decide (s.commitIndex + (k + 1) ≤ p.matchIndex)) =
        s.nodes.countP (fun p : Peer => p.isSelf || decide (s.commitIndex + (k + 1) ≤ p.matchIndex)) := by
      simp only [core, List.countP_map]; rfl
    unfold findCommit
    rw [findCommit_core s k]
    simp only [hlen]
    rw [show s.core.commitIndex = s.commitIndex from rfl, hcount]
    rfl

/-! ### The handlers -/

theorem maybeStepDown_spec (t : Nat) (s : Server) :
    (s.maybeStepDown t).currentTerm = max s.currentTerm t ∧ Untouched s (s.maybeStepDown t) := by
  unfold maybeStepDown
  split
  · rename_i h
    have hle : s.currentTerm ≤ t := Nat.le_of_lt h
    dsimp only
    rw [Nat.max_eq_right hle]
    have hsaves : Server.saves ({ s with currentTerm := t, votedFor := badNode }.persistState) = s.saves :=
      saves_append [_] rfl (by simp [Event.isSave])
    split
    · obtain ⟨evs, hq, he⟩ := setState_eq .follower ({ s with currentTerm := t, votedFor := badNode }.persistState)
      rw [he]
      refine ⟨rfl, hle, rfl, rfl, rfl, rfl, rfl, Eq.trans ?_ hsaves⟩
      exact saves_append evs rfl (fun e he => Event.not_save_of_quiet (hq e he))
    · exact ⟨rfl, hle, rfl, rfl, rfl, rfl, rfl, hsaves⟩
  · rename_i h
    exact ⟨(Nat.max_eq_left (Nat.le_of_not_lt h)).symm, Nat.le_refl _, rfl, rfl, rfl, rfl, rfl, rfl⟩

theorem becomeFollower_spec (cfg : Config) (io : Io) (leader : Nat) {t : Nat} (h : t ≤ s.currentTerm) :
    (s.becomeFollower cfg io t leader).currentTerm = s.currentTerm ∧
      (s.becomeFollower cfg io t leader).state = .follower ∧ Untouched s (s.becomeFollower cfg io t leader) := by
  obtain ⟨evs, hq, he⟩ := setState_eq .follower { s with preVoteActive := false }
  have hle : ¬ s.currentTerm < t := Nat.not_lt.2 h
  unfold becomeFollower
  dsimp only
  rw [if_neg hle, he]
  split
  all_goals
    obtain ⟨d, k, hx⟩ := resetElectionTimer_eq cfg io _
    rw [hx]
    refine ⟨rfl, rfl, Nat.le_refl _, rfl, rfl, rfl, rfl, rfl, ?_⟩
    exact saves_append evs rfl (fun e he => Event.not_save_of_quiet (hq e he))

theorem replyVote_moves (rv : RequestVote) (rr : RequestVoteResp)
    (h : rr.preVote = true ∨ rr.voteGranted = false ∨ (rr.term = s.currentTerm ∧ s.votedFor = rv.candidateId)) :
    Moves cfg io fit heard start s.core (s.emit ⟨s.selfId, rv.candidateId, .requestVoteResp rr⟩).core :=
  .single (.emit s.core _ ⟨rfl, h⟩)

theorem requestVoteGuard_moves {rv : RequestVote} {s' : Server} (h : s.requestVoteGuard cfg io rv = some s') :
    Moves cfg io fit heard start s.core s'.core := by
  unfold requestVoteGuard at h
  dsimp only at h
  split at h
  · injection h with h
    subst h
    exact replyVote_moves rv _ (.inl rfl)
  · split at h
    · injection h with h
      subst h
      exact replyVote_moves rv _ (.inr (.inl rfl))
    · cases h

/-- With no guard in the way the request is no probe. -/
theorem requestVoteGuard_eq_none {rv : RequestVote} (h : s.requestVoteGuard cfg io rv = none) : rv.preVote = false := by
  unfold requestVoteGuard at h
  dsimp only at h
  split at h
  · cases h
  · rename_i hp
    simpa using hp

theorem handleRequestVote_moves {m : Message} {rv : RequestVote} (hm : m.payload = .requestVote rv) :
    Moves cfg io fit (some m) start s.core (s.handleRequestVote cfg io rv).core := by
  unfold handleRequestVote
  split
  · rename_i s' hg
    exact requestVoteGuard_moves hg
  rename_i hg
  have hpre := requestVoteGuard_eq_none hg
  have hstep : Moves cfg io fit (some m) start s.core (s.tick.maybeStepDown rv.term).core := maybeStepDown_moves _ s.tick
  have hterm := (maybeStepDown_spec rv.term s.tick).1
  dsimp only
  generalize s.tick.maybeStepDown rv.term = x at hstep hterm
  split
  · exact hstep.trans (replyVote_moves rv _ (.inr (.inl rfl)))
  rename_i hlt
  have heq : rv.term = x.currentTerm := by omega
  split
  · rename_i hv
    obtain ⟨hv, hu⟩ := hv
    refine (hstep.tail (.vote x.core m rv rfl hm hpre heq hv hu)).trans ?_
    have hcore := core_resetElectionTimer cfg io ({ x with votedFor := rv.candidateId }.persistState)
    generalize ({ x with votedFor := rv.candidateId }.persistState).resetElectionTimer cfg io = y at hcore
    have hvote : y.votedFor = rv.candidateId := show y.core.votedFor = _ by rw [hcore]; rfl
    have hreply : Moves cfg io fit (some m) start y.core _ := replyVote_moves rv ⟨y.currentTerm, true, false⟩ (.inr (.inr ⟨rfl, hvote⟩))
    rw [hcore] at hreply
    exact hreply
  · exact hstep.trans (replyVote_moves rv _ (.inr (.inl rfl)))

/-- Counting a vote. -/
theorem tally_moves {m : Message} {rr : RequestVoteResp} {peer : Peer} (hm : m.payload = .requestVoteResp rr)
    (hpre : rr.preVote = false) (hg : rr.voteGranted = true) (ht : rr.term = s.currentTerm) (hs : s.state = .candidate)
    (hnode : s.nodeById m.sender = some peer) (hng : peer.voteGranted = false) :
    Moves cfg io fit (some m) start s.core
      { s with
        nodes := modifyNode m.sender (fun p : Peer => { p with voteGranted := true }) s.nodes
        votesGranted := s.votesGranted + 1 }.core := by
  have hnode' : s.core.nodeById m.sender = some peer.key := by rw [nodeById_core, hnode]; rfl
  have hmv : Move cfg io fit (some m) start _ _ := .tally s.core m rr peer.key rfl hm hpre hg ht hs hnode' hng
  refine .single ?_
  convert hmv using 1
  simp only [core, map_key_grant]

theorem Untouched.trans {x y : Server} (h : Untouched s x) (h' : Untouched x y) : Untouched s y :=
  ⟨Nat.le_trans h.term h'.term, h'.log.trans h.log, h'.commit.trans h.commit, h'.applied.trans h.applied, h'.buf.trans h.buf,
    h'.len.trans h.len, h'.saves.trans h.saves⟩

theorem Untouched.core {x : Server} (h : Untouched s x) : Untouched s x.core :=
  ⟨h.term, h.log, h.commit, h.applied, h.buf, h.len, h.saves⟩

theorem stepDown_becomeFollower_moves {t : Nat} (leader : Nat) (h : s.currentTerm ≤ t) :
    Moves cfg io fit heard start s.core ((s.maybeStepDown t).becomeFollower cfg io t leader).core ∧
      ((s.maybeStepDown t).becomeFollower cfg io t leader).currentTerm = t ∧
      ((s.maybeStepDown t).becomeFollower cfg io t leader).state = .follower ∧
      Untouched s ((s.maybeStepDown t).becomeFollower cfg io t leader) := by
  have hstep : Moves cfg io fit heard start s.core (s.maybeStepDown t).core := maybeStepDown_moves t s
  obtain ⟨hterm, hsame⟩ := maybeStepDown_spec t s
  rw [Nat.max_eq_right h] at hterm
  obtain ⟨hterm', hst, hsame'⟩ := becomeFollower_spec cfg io leader (Nat.le_of_eq hterm.symm)
  exact ⟨hstep.trans (becomeFollower_moves (Nat.le_of_eq hterm.symm)), hterm'.trans hterm, hst, hsame.trans hsame'⟩

theorem replyAppend_moves {ae : AppendEntries} {rr : AppendEntriesResp} (h : rr.success = false) :
    Moves cfg io fit heard start s.core (s.replyAppend ae rr).core :=
  .single (.emit s.core _ ⟨rfl, h⟩)

theorem prevMismatch_success {ae : AppendEntries} {rr : AppendEntriesResp} (h : s.prevMismatch cfg ae = some rr) :
    rr.success = false := by
  unfold prevMismatch at h
  split at h
  · injection h with h; subst h; rfl
  split at h
  · cases h
  split at h
  · split at h
    · injection h with h; subst h; rfl
    · cases h
  · injection h with h; subst h; rfl

theorem replySnapshot_moves (is : InstallSnapshot) : Moves cfg io fit heard start s.core (s.replySnapshot is).core :=
  .single (.emit s.core _ ⟨rfl, rfl, rfl⟩)

theorem applyLoop_frame (cfg : Config) : ∀ (k : Nat) (s : Server),
    (applyLoop cfg k s).nodes = s.nodes ∧ (applyLoop cfg k s).state = s.state
  | 0, _ => ⟨rfl, rfl⟩
  | k + 1, s => by
    have hnext : (s.applyNext cfg).nodes = s.nodes ∧ (s.applyNext cfg).state = s.state := by
      unfold applyNext
      dsimp only
      split <;> exact ⟨rfl, rfl⟩
    obtain ⟨h1, h2⟩ := applyLoop_frame cfg k (s.applyNext cfg)
    exact ⟨h1.trans hnext.1, h2.trans hnext.2⟩

theorem applyCommitted_frame (cfg : Config) (io : Io) (s : Server) :
    (s.applyCommitted cfg io).nodes = s.nodes ∧ (s.applyCommitted cfg io).state = s.state := by
  have hloop := applyLoop_frame cfg (s.commitIndex - s.lastApplied) s
  unfold applyCommitted maybeCompact
  generalize applyLoop cfg (s.commitIndex - s.lastApplied) s = x at hloop
  split
  · exact hloop
  · rcases beginSnapshot_cases cfg io x with ⟨-, k, he⟩ | ⟨-, t, bytes, -, -, -, he⟩
    all_goals
      rw [he]
      exact hloop

theorem leaderAdvanceCommit_frame (cfg : Config) (io : Io) (s : Server) :
    (s.leaderAdvanceCommit cfg io).nodes = s.nodes ∧ (s.leaderAdvanceCommit cfg io).state = s.state := by
  unfold leaderAdvanceCommit
  split <;> exact applyCommitted_frame cfg io _

/-- The node table after a change of the sender's entry still knows the changed peer. -/
theorem mem_modifyNode {n : Nat} {p : Peer} {f : Peer → Peer} :
    ∀ {ps : List Peer}, ps.find? (fun q => q.id == n) = some p → f p ∈ modifyNode n f ps
  | [], h => by cases h
  | q :: ps, h => by
    simp only [modifyNode]
    by_cases hq : q.id = n
    · rw [List.find?_cons_of_pos (by simpa using hq)] at h
      injection h with h
      rw [if_pos hq, h]
      exact List.mem_cons_self
    · rw [List.find?_cons_of_neg (by simpa using hq)] at h
      rw [if_neg hq]
      exact List.mem_cons_of_mem q (mem_modifyNode h)

theorem modifyNode_modifyNode {n : Nat} {f g : Peer → Peer} (hg : ∀ p, (g p).id = p.id) :
    ∀ ps : List Peer, modifyNode n f (modifyNode n g ps) = modifyNode n (fun p => f (g p)) ps
  | [] => rfl
  | p :: ps => by
    simp only [modifyNode]
    by_cases h : p.id = n
    · have hgp : (g p).id = n := (hg p).trans h
      rw [if_pos h, if_pos h, modifyNode, if_pos hgp]
    · rw [if_neg h, if_neg h, modifyNode, if_neg h, modifyNode_modifyNode hg ps]

theorem aim_move {x : Server} {n : Nat} {g : Peer → Nat} (hg : ∀ p, 1 ≤ g p) :
    Move cfg io fit heard start x { x with nodes := modifyNode n (fun p => { p with nextIndex := g p }) x.nodes } := by
  have hk : ∀ ps : List Peer, (modifyNode n (fun p => { p with nextIndex := g p }) ps).map
      (fun p => { p with nextIndex := 0 }) = ps.map (fun p => { p with nextIndex := 0 }) := by
    intro ps
    induction ps with
    | nil => rfl
    | cons p ps ih =>
      rw [modifyNode]
      split
      · rfl
      · rw [List.map_cons, ih, List.map_cons]
  have hn : ∀ ps : List Peer, ∀ p ∈ modifyNode n (fun p => { p with nextIndex := g p }) ps,
      1 ≤ p.nextIndex ∨ p ∈ ps := by
    intro ps
    induction ps with
    | nil => intro p hp; cases hp
    | cons q ps ih =>
      intro p hp
      rw [modifyNode] at hp
      split at hp
      · rcases List.mem_cons.1 hp with rfl | hp
        · exact .inl (hg q)
        · exact .inr (List.mem_cons_of_mem q hp)
      · rcases List.mem_cons.1 hp with rfl | hp
        · exact .inr List.mem_cons_self
        · exact (ih p hp).imp_right (List.mem_cons_of_mem q)
  exact .aim x _ (hk x.nodes) (hn x.nodes)

/-- **Learning how far a peer has come**: its match index rises, and the next index may. -/
theorem learn_moves (contact off : Nat) {m : Message} {sender l : Nat} {p : Peer} (hs : s.state = .leader)
    (hp : s.nodeById sender = some p) (h : Reports s (some m) sender l) :
    Moves cfg io fit (some m) start s.core
      { s with nodes := modifyNode sender (fun _ => { p with
          lastContact := contact
          snapOffset := off
          nextIndex := max (l + 1) p.nextIndex
          matchIndex := max l p.matchIndex }) s.nodes }.core := by
  refine .tail (.single (.learn s.core sender l hs h)) ?_
  have haim : Move cfg io fit (some m) start _ _ := aim_move (n := sender) (g := fun p => max (l + 1) p.nextIndex)
    (x := { s.core with nodes := modifyNode sender (fun p => { p with matchIndex := max l p.matchIndex }) s.core.nodes })
    (by intro p; omega)
  convert haim using 1
  have hconst := modifyNode_const (f := fun p => { p with
    lastContact := contact, snapOffset := off, nextIndex := max (l + 1) p.nextIndex, matchIndex := max l p.matchIndex }) hp
  have hkey := map_key_modifyNode
    (f := fun p => { p with
      lastContact := contact, snapOffset := off, nextIndex := max (l + 1) p.nextIndex, matchIndex := max l p.matchIndex })
    (g := fun p => { p with nextIndex := max (l + 1) p.nextIndex, matchIndex := max l p.matchIndex })
    (by intro p; rfl) sender s.nodes
  simp only [core]
  rw [modifyNode_modifyNode (by intro p; rfl)]
  rw [hconst, hkey]

/-- Trying an earlier index. -/
theorem backup_moves (contact : Nat) {sender : Nat} {p : Peer} {k : Nat} (hp : s.nodeById sender = some p) (hk : 1 ≤ k) :
    Moves cfg io fit heard start s.core
      { s with nodes := modifyNode sender (fun _ => { p with lastContact := contact, nextIndex := k }) s.nodes }.core := by
  have haim : Move cfg io fit heard start s.core _ := aim_move (n := sender) (g := fun _ => k) (fun _ => hk)
  refine .single ?_
  convert haim using 1
  have hconst := modifyNode_const (f := fun p => { p with lastContact := contact, nextIndex := k }) hp
  have hkey := map_key_modifyNode (f := fun p => { p with lastContact := contact, nextIndex := k })
    (g := fun p => { p with nextIndex := k }) (by intro p; rfl) sender s.nodes
  simp only [core]
  rw [hconst, hkey]

/-- The changed peer is the one the server knows. -/
theorem knows_modifyNode {sender : Nat} {p q : Peer} (hp : s.nodeById sender = some p) :
    ({ s with nodes := modifyNode sender (fun _ => q) s.nodes } : Server).Knows q :=
  ⟨q, mem_modifyNode (f := fun _ => q) hp, rfl, rfl⟩

theorem one_le_backup (cfg : Config) (rr : AppendEntriesResp) (p : Peer) (s : Server) : 1 ≤ s.backup cfg rr p :=
  Nat.le_max_right _ _

/-- Moving the chunk cursor is no move. -/
theorem core_cursor {sender : Nat} {p : Peer} (contact off : Nat) (hp : s.nodeById sender = some p) :
    { s with nodes := modifyNode sender (fun _ => { p with lastContact := contact, snapOffset := off }) s.nodes }.core =
      s.core := by
  have hconst := modifyNode_const (f := fun p => { p with lastContact := contact, snapOffset := off }) hp
  have hkey := map_key_modifyNode (f := fun p => { p with lastContact := contact, snapOffset := off })
    (g := fun p => p) (by intro p; rfl) sender s.nodes
  have hid : ∀ ps : List Peer, modifyNode sender (fun p => p) ps = ps := by
    intro ps
    induction ps with
    | nil => rfl
    | cons q ps ih => rw [modifyNode, ih, ite_self]
  simp only [core]
  rw [hconst, hkey, hid]

/-! ### The driver -/

theorem start_moves (s : Server) : Moves cfg io fit heard start s.core (s.start cfg io).core := by
  obtain ⟨evs, hq, he⟩ := setState_eq .follower { s with running := true }
  unfold Server.start
  rw [core_resetElectionTimer, he]
  exact .tail (.single (.quiet s.core evs hq)) (.demote _)

/-- The probes of `start_pre_vote`. -/
theorem probes_moves (x : Server) :
    Sends x (x.nodes.foldl (fun (s : Server) (p : Peer) => if p.isSelf then s else
        s.emit ⟨s.selfId, p.id, .requestVote
          { term := wrap64 (s.currentTerm + 1), candidateId := s.selfId, lastLogIndex := s.log.lastIndex,
            lastLogTerm := s.log.lastTerm cfg, preVote := true }⟩) x) ∧
      Moves cfg io fit heard start x.core (x.nodes.foldl (fun (s : Server) (p : Peer) => if p.isSelf then s else
        s.emit ⟨s.selfId, p.id, .requestVote
          { term := wrap64 (s.currentTerm + 1), candidateId := s.selfId, lastLogIndex := s.log.lastIndex,
            lastLogTerm := s.log.lastTerm cfg, preVote := true }⟩) x).core := by
  refine foldl_moves x.nodes x (.refl x) ?_
  intro y p _ hy
  split
  · exact ⟨hy, .refl⟩
  · exact ⟨hy.emit _, .single (.emit y.core _ ⟨rfl, .inl ⟨rfl, rfl⟩⟩)⟩

/-- The probes, and the election they start at once in a cluster of one. -/
theorem startPreVote_eq (cfg : Config) (io : Io) (fit : Prop) (heard : Option Message) (start s : Server) :
    ∃ x : Server, x.core = s.core ∧ ∃ y, Sends x y ∧ Moves cfg io fit heard start x.core y.core ∧
      s.startPreVote cfg io =
        if s.majority ≤ 1 then { y with preVoteActive := false }.becomeCandidate cfg io else y := by
  obtain ⟨d, k, hx⟩ := resetElectionTimer_eq cfg io { s with preVoteActive := true, preVotesGranted := 1 }
  have hfold : Sends _ _ ∧ Moves cfg io fit heard start _ _ :=
    probes_moves { s with preVoteActive := true, preVotesGranted := 1, electionDeadline := d, reads := k }
  obtain ⟨⟨ms, he⟩, hsend⟩ := hfold
  refine ⟨{ s with preVoteActive := true, preVotesGranted := 1, electionDeadline := d, reads := k }, rfl, _,
    ⟨ms, he⟩, hsend, ?_⟩
  unfold startPreVote
  rw [hx]
  dsimp only
  rw [he]
  rfl

/-- The entry that `submit` appends. -/
theorem appended_move (type : EntryType) (data : List Byte) {log : LogRing} (hs : s.state = .leader)
    (hp : s.log.push cfg { term := s.currentTerm, index := s.log.lastIndex + 1, type := type,
                           dataLen := data.length % 2 ^ 16, data := data } = .ok log) :
    Move cfg io fit heard start s.core
      ({ s with
        log := log
        calls := .persistLogAppend { term := s.currentTerm, index := s.log.lastIndex + 1, type := type,
                                     dataLen := data.length % 2 ^ 16, data := data } :: s.calls
        nodes := modifyNode s.selfId (fun p : Peer => { p with matchIndex := s.log.lastIndex + 1 }) s.nodes } : Server).core := by
  have hmv : Move cfg io fit heard start s.core _ := .propose s.core
    { term := s.currentTerm, index := s.log.lastIndex + 1, type := type, dataLen := data.length % 2 ^ 16, data := data }
    log hs rfl rfl hp
  convert hmv using 1
  simp only [core, map_key_setMatch]

theorem beginCampaign_calls (cfg : Config) (io : Io) (s : Server) :
    ∃ evs : List Event, (∀ e ∈ evs, e.quiet = true) ∧ (s.beginCampaign cfg io).calls =
      .persistState (wrap64 (s.currentTerm + 1)) s.selfId :: (evs ++ s.calls) := by
  obtain ⟨evs, hq, he⟩ := setState_eq .candidate { s with preVoteActive := false }
  refine ⟨evs, hq, ?_⟩
  have hr : ∀ x : Server, (x.resetElectionTimer cfg io).calls = x.calls := by
    intro x
    show (x.resetElectionTimer cfg io).core.calls = x.core.calls
    rw [core_resetElectionTimer]
  unfold beginCampaign
  rw [he]
  dsimp only
  rw [hr]
  split <;> rfl

theorem becomeCandidate_calls (cfg : Config) (io : Io) (s : Server) :
    ∃ newer evs : List Event, (∀ e ∈ evs, e.quiet = true) ∧ (s.becomeCandidate cfg io).calls =
      newer ++ .persistState (wrap64 (s.currentTerm + 1)) s.selfId :: (evs ++ s.calls) := by
  obtain ⟨evs, hq, he⟩ := beginCampaign_calls cfg io s
  have hmv : Moves cfg io True none s _ _ := afterCampaign_moves s
  obtain ⟨newer, hn⟩ := Moves.calls_grow hmv
  exact ⟨newer, evs, hq, by rw [← he]; exact hn⟩

/-- **A call that starts an election persists the next term**, before any other pair. -/
theorem electing_persists (cfg : Config) {k : Call} (h : s.electing io k = true) :
    ∃ newer evs : List Event, (∀ e ∈ evs, ∀ t v, e ≠ .persistState t v) ∧ (s.perform cfg io k).calls =
      newer ++ .persistState (wrap64 (s.currentTerm + 1)) s.selfId :: (evs ++ s.calls) := by
  have hquiet : ∀ evs : List Event, (∀ e ∈ evs, e.quiet = true) → ∀ e ∈ evs, ∀ t v, e ≠ .persistState t v := by
    intro evs hq e he t v hp
    have := hq e he
    rw [hp] at this
    cases this
  cases k with
  | periodic =>
    simp only [electing, Bool.and_eq_true, decide_eq_true_eq] at h
    obtain ⟨⟨⟨hrun, hst⟩, hdl⟩, hm⟩ := h
    obtain ⟨x, hx, y, ⟨ms, rfl⟩, -, he⟩ := startPreVote_eq cfg io True none s s.tick
    obtain ⟨newer, evs, hq, hc⟩ := becomeCandidate_calls cfg io
      { x.after (ms.map (.send x.currentTerm x.votedFor)) with preVoteActive := false }
    have hmv : Moves cfg io True none s _ _ := applyCommitted_moves (s.tick.startPreVote cfg io)
    obtain ⟨last, hl⟩ := Moves.calls_grow hmv
    have hterm : x.currentTerm = s.currentTerm := show x.core.currentTerm = _ by rw [hx]; rfl
    have hself : x.selfId = s.selfId := show x.core.selfId = _ by rw [hx]; rfl
    have hcalls : x.calls = s.calls := show x.core.calls = _ by rw [hx]; rfl
    refine ⟨last ++ newer, evs ++ ms.map (.send x.currentTerm x.votedFor), ?_, ?_⟩
    · intro e he t v
      rcases List.mem_append.1 he with he | he
      · exact hquiet evs hq e he t v
      · obtain ⟨m, -, rfl⟩ := List.mem_map.1 he
        exact Event.noConfusion
    · have hper : s.perform cfg io .periodic = (s.tick.startPreVote cfg io).applyCommitted cfg io := by
        show s.periodic cfg io = _
        unfold periodic
        rw [if_neg (by simp [hrun])]
        dsimp only
        rw [if_neg (by exact hst), if_pos (by exact hdl)]
      have hmaj : s.tick.majority ≤ 1 := hm
      have hl' : ((s.tick.startPreVote cfg io).applyCommitted cfg io).calls =
          last ++ (s.tick.startPreVote cfg io).calls := hl
      rw [if_pos hmaj] at he
      rw [hper, hl', he, hc]
      simp only [after, hterm, hself, hcalls, List.append_assoc]
  | handle m =>
    obtain ⟨src, dst, pl⟩ := m
    cases pl with
    | requestVoteResp rr =>
      simp only [electing, Bool.and_eq_true, decide_eq_true_eq] at h
      obtain ⟨⟨⟨⟨⟨hpre, hact⟩, hst⟩, hg⟩, ht⟩, hm⟩ := h
      obtain ⟨newer, evs, hq, hc⟩ := becomeCandidate_calls cfg io
        { s with preVotesGranted := s.preVotesGranted + 1, preVoteActive := false }
      refine ⟨newer, evs, hquiet evs hq, ?_⟩
      rw [← hc]
      show (s.handleRequestVoteResp cfg io src rr).calls = _
      unfold handleRequestVoteResp
      rw [if_pos hpre, if_neg (by simp [hact, hst]), if_pos ⟨hg, ht⟩]
      dsimp only
      rw [if_pos (by exact hm)]
    | requestVote rv => cases h
    | appendEntries ae => cases h
    | appendEntriesResp rr => cases h
    | installSnapshot is => cases h
    | installSnapshotResp rr => cases h
  | start => cases h
  | stop => cases h
  | submit type data => cases h
  | beginSnapshot => cases h

end Server

end Raft
end FloodEws
