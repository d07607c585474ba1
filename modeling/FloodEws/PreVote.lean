import FloodEws.Majority
import FloodEws.Office
import FloodEws.Schedule
import FloodEws.Steps
/-!
# PreVote — who stands behind a campaign

Before it campaigns a server asks the others if they would vote for it.  The cluster is run together with the history of
every server's current round of probes: what was asked, which nodes would have granted it, and whose grants were counted.
The server itself keeps only the number of grants, and takes any grant that arrives while a round is open.  So the number
is that of the nodes behind it as long as no grant of an earlier round and no second copy of a grant is delivered.
-/
namespace FloodEws
namespace Raft

/-! ## What a call does to the probe -/

namespace Server

/-- The call opens a round of probes. -/
def probing (io : Io) (s : Server) : Call → Bool
  | .periodic => s.running && decide (s.state ≠ .leader) && decide (0 ≤ elapsed (io.now s.reads) s.electionDeadline)
  | _ => false

/-- The request such a round sends to every peer. -/
def probe (cfg : Config) (s : Server) : RequestVote :=
  { term := wrap64 (s.currentTerm + 1), candidateId := s.selfId, lastLogIndex := s.log.lastIndex,
    lastLogTerm := s.log.lastTerm cfg, preVote := true }

/-- The answer to a probe. -/
def wouldGrant (cfg : Config) (io : Io) (rv : RequestVote) (s : Server) : Bool :=
  !s.leaderIsLive cfg (io.now s.reads) && decide (s.currentTerm ≤ rv.term) && s.upToDate cfg rv

/-- The call grants the probe `rv`. -/
def grants (cfg : Config) (io : Io) (rv : RequestVote) (s : Server) : Call → Bool
  | .handle ⟨_, _, .requestVote rv'⟩ => decide (rv' = rv) && rv.preVote && s.wouldGrant cfg io rv
  | _ => false

/-- The node whose grant the call counts. -/
def counting (s : Server) : Call → Option Nat
  | .handle ⟨sender, _, .requestVoteResp rr⟩ =>
    if rr.preVote ∧ s.preVoteActive ∧ s.state ≠ .leader ∧ rr.voteGranted ∧ rr.term ≤ wrap64 (s.currentTerm + 1) then
      some sender
    else none
  | _ => none

/-- What a probe is about. -/
def poll (s : Server) : Bool × Nat × Role × Nat := (s.preVoteActive, s.preVotesGranted, s.state, s.currentTerm)

/-- A probe under way may be called off, but nothing is counted, and no candidacy begins. -/
structure Calm (s s' : Server) : Prop where
  active : s'.preVoteActive = true → s.preVoteActive = true
  count : s'.preVotesGranted = s.preVotesGranted
  role : s'.state = .candidate → s.state = .candidate ∧ s'.currentTerm = s.currentTerm

theorem Calm.of_poll {s s' : Server} (h : s'.poll = s.poll) : Calm s s' := by
  simp only [poll, Prod.mk.injEq] at h
  obtain ⟨h1, h2, h3, h4⟩ := h
  exact ⟨fun ha => h1 ▸ ha, h2, fun hs => ⟨h3 ▸ hs, h4⟩⟩

theorem poll_of_office {s s' : Server} (h : s'.office = s.office) : s'.poll = s.poll :=
  congrArg (fun o : Office => (o.preVoteActive, o.preVotesGranted, o.state, o.currentTerm)) h

theorem Calm.refl (s : Server) : Calm s s := .of_poll rfl

theorem Calm.trans {s s' s'' : Server} (h : Calm s s') (h' : Calm s' s'') : Calm s s'' where
  active := fun ha => h.active (h'.active ha)
  count := h'.count.trans h.count
  role := fun hs => by
    obtain ⟨hs', ht'⟩ := h'.role hs
    obtain ⟨hs, ht⟩ := h.role hs'
    exact ⟨hs, ht'.trans ht⟩

theorem Calm.of_poll_eq {s s' s'' : Server} (h : Calm s s') (h' : s''.poll = s'.poll) : Calm s s'' := h.trans (.of_poll h')

variable {cfg : Config} {io : Io} {s : Server}

/-! ### Methods that call it off -/

theorem calm_setState {r : Role} (hr : r ≠ .candidate) (s : Server) : Calm s (s.setState r) := by
  obtain ⟨evs, -, he⟩ := setState_eq r s
  rw [he]
  exact ⟨id, rfl, fun h => absurd h hr⟩

theorem calm_maybeStepDown (t : Nat) (s : Server) : Calm s (s.maybeStepDown t) := by
  unfold maybeStepDown
  split
  · dsimp only
    split
    · obtain ⟨evs, -, he⟩ := setState_eq .follower ({ s with currentTerm := t, votedFor := badNode }.persistState)
      rw [he]
      exact ⟨id, rfl, fun h => by cases h⟩
    · rename_i hf
      have hf : s.state = .follower := Classical.not_not.1 hf
      refine ⟨id, rfl, fun h => ?_⟩
      have h : s.state = .candidate := h
      rw [hf] at h
      cases h
  · exact .refl s

theorem calm_becomeFollower (t leader : Nat) (s : Server) : Calm s (s.becomeFollower cfg io t leader) := by
  unfold becomeFollower
  refine Calm.of_poll_eq ?_ (poll_of_office (office_resetElectionTimer cfg io _))
  have hset : ∀ x : Server, x.preVoteActive = false → x.preVotesGranted = s.preVotesGranted →
      Calm s { x.setState .follower with currentLeader := leader } := by
    intro x hx hc
    obtain ⟨evs, -, he⟩ := setState_eq .follower x
    rw [he]
    refine ⟨fun ha => ?_, hc, fun h => by cases h⟩
    have ha : x.preVoteActive = true := ha
    rw [hx] at ha
    cases ha
  dsimp only
  split
  · refine Calm.of_poll_eq (hset _ ?_ ?_) rfl
    · split <;> rfl
    · split <;> rfl
  · refine hset _ ?_ ?_
    · split <;> rfl
    · split <;> rfl

theorem calm_becomeLeader (s : Server) :
    (s.becomeLeader cfg io).preVoteActive = false ∧ Calm s (s.becomeLeader cfg io) := by
  obtain ⟨evs, -, he⟩ := setState_eq .leader { s with preVoteActive := false }
  unfold becomeLeader
  rw [he]
  dsimp only [after]
  split <;> exact ⟨rfl, ⟨fun h => (nomatch h), rfl, fun h => (nomatch h)⟩⟩

/-- A campaign ends the probe. -/
theorem becomeCandidate_inactive (cfg : Config) (io : Io) (s : Server) :
    (s.becomeCandidate cfg io).preVoteActive = false := by
  have hbegin : (s.beginCampaign cfg io).preVoteActive = false := by
    obtain ⟨evs, -, he⟩ := setState_eq .candidate { s with preVoteActive := false }
    have hr : ∀ x : Server, (x.resetElectionTimer cfg io).preVoteActive = x.preVoteActive :=
      fun x => congrArg Office.preVoteActive (office_resetElectionTimer cfg io x)
    unfold beginCampaign
    rw [he]
    dsimp only
    rw [hr]
    split <;> rfl
  have hsend : ∀ x : Server, (x.nodes.foldl
      (fun (s : Server) (p : Peer) => if p.isSelf then s else s.sendRequestVote cfg p) x).preVoteActive =
      x.preVoteActive :=
    fun x => congrArg Office.preVoteActive (sends_requestVotes cfg x).office
  unfold becomeCandidate
  dsimp only
  split
  · exact (calm_becomeLeader _).1
  · exact (hsend _).trans hbegin

/-! ### The calls -/

theorem calm_handleRequestVote (rv : RequestVote) (s : Server) : Calm s (s.handleRequestVote cfg io rv) := by
  unfold handleRequestVote
  split
  · rename_i s' h
    exact .of_poll (poll_of_office (sends_requestVoteGuard h).office)
  · have htick : Calm s s.tick := .of_poll rfl
    have hdown : Calm s (s.tick.maybeStepDown rv.term) := htick.trans (calm_maybeStepDown rv.term s.tick)
    dsimp only
    generalize s.tick.maybeStepDown rv.term = x at hdown
    split
    · exact hdown.of_poll_eq rfl
    split
    · have hreset := poll_of_office (office_resetElectionTimer cfg io ({ x with votedFor := rv.candidateId }.persistState))
      exact hdown.of_poll_eq hreset
    · exact hdown.of_poll_eq rfl

/-- A reply to a real vote request. -/
theorem calm_handleVote {rr : RequestVoteResp} (sender : Nat) (s : Server) (hpre : rr.preVote = false) :
    Calm s (s.handleRequestVoteResp cfg io sender rr) := by
  unfold handleRequestVoteResp
  rw [if_neg (by simp [hpre])]
  split
  · exact .refl s
  split
  · exact calm_maybeStepDown rr.term s
  split
  · exact .refl s
  split
  · exact .refl s
  split
  · exact .refl s
  split
  · dsimp only
    split
    · refine Calm.trans ?_ (calm_becomeLeader _).2
      exact .of_poll rfl
    · exact .of_poll rfl
  · exact .refl s

theorem calm_follow (cfg : Config) (io : Io) (t leader : Nat) (s : Server) :
    Calm s ((s.maybeStepDown t).becomeFollower cfg io t leader) :=
  (calm_maybeStepDown t s).trans (calm_becomeFollower t leader _)

theorem calm_handleAppendEntries (ae : AppendEntries) (s : Server) : Calm s (s.handleAppendEntries cfg io ae) := by
  unfold handleAppendEntries
  split
  · exact .of_poll rfl
  · have hf := calm_follow cfg io ae.term ae.leaderId s
    dsimp only
    generalize (s.maybeStepDown ae.term).becomeFollower cfg io ae.term ae.leaderId = x at hf
    split
    · exact hf.of_poll_eq rfl
    · exact hf.of_poll_eq ((poll_of_office (office_applyCommitted cfg io _)).trans
        (poll_of_office (office_accepted cfg ae { x.tick with lastLeaderContact := io.now x.reads })))

theorem calm_handleAppendEntriesResp (sender : Nat) (rr : AppendEntriesResp) (s : Server) :
    Calm s (s.handleAppendEntriesResp cfg io sender rr) := by
  unfold handleAppendEntriesResp
  split
  · exact calm_maybeStepDown rr.term s
  split
  · exact .refl s
  split
  · exact .refl s
  dsimp only
  split
  · split
    · exact .of_poll ((poll_of_office (sends_sendAppendEntries cfg _ _).office).trans (poll_of_office (office_leaderAdvanceCommit cfg io _)))
    · exact .of_poll (poll_of_office (office_leaderAdvanceCommit cfg io _))
  · exact .of_poll ((poll_of_office (office_applyCommitted cfg io _)).trans (poll_of_office (sends_sendAppendEntries cfg _ _).office))

theorem calm_handleInstallSnapshot (is : InstallSnapshot) (s : Server) : Calm s (s.handleInstallSnapshot cfg io is) := by
  unfold handleInstallSnapshot
  split
  · exact .of_poll rfl
  · have hf := (calm_follow cfg io is.term is.leaderId s).of_poll_eq (poll_of_office (office_storeChunk cfg is _))
    dsimp only
    generalize ((s.maybeStepDown is.term).becomeFollower cfg io is.term is.leaderId).storeChunk cfg is = x at hf
    split
    · exact hf.of_poll_eq rfl
    · refine hf.of_poll_eq ((poll_of_office (office_applyCommitted cfg io _)).trans ?_)
      split <;> rfl

theorem calm_handleInstallSnapshotResp (sender : Nat) (rr : InstallSnapshotResp) (s : Server) :
    Calm s (s.handleInstallSnapshotResp cfg io sender rr) := by
  unfold handleInstallSnapshotResp
  split
  · exact calm_maybeStepDown rr.term s
  split
  · exact .refl s
  split
  · exact .refl s
  dsimp only
  split
  · exact .of_poll (poll_of_office (sends_sendInstallSnapshot cfg _ _).office)
  · exact .of_poll ((poll_of_office (office_applyCommitted cfg io _)).trans (poll_of_office (sends_sendAppendEntries cfg _ _).office))

theorem calm_start (s : Server) : Calm s (s.start cfg io) := by
  refine Calm.of_poll_eq (Calm.trans ?_ (calm_setState (by decide) { s with running := true }))
    (poll_of_office (office_resetElectionTimer cfg io _))
  exact .of_poll rfl

/-- The probe goes to every peer. -/
theorem foldl_probe (cfg : Config) : ∀ (ps : List Peer) (s : Server),
    ps.foldl (fun (s : Server) (p : Peer) => if p.isSelf then s else
        s.emit ⟨s.selfId, p.id, .requestVote (s.probe cfg)⟩) s =
      s.after ((ps.filter (fun p => !p.isSelf)).reverse.map
        (fun p => .send s.currentTerm s.votedFor ⟨s.selfId, p.id, .requestVote (s.probe cfg)⟩))
  | [], _ => rfl
  | p :: ps, s => by
    rw [List.foldl_cons, foldl_probe cfg ps]
    by_cases hp : p.isSelf = true
    · rw [if_pos hp, List.filter_cons_of_neg (by simp [hp])]
    · rw [if_neg hp, List.filter_cons_of_pos (by simp [hp]), List.reverse_cons, List.map_append]
      simp only [after, emit, call, List.append_assoc]
      rfl

/-- **`start_pre_vote`**: a new count, a new deadline, one probe per peer, and a campaign at once in a cluster of one. -/
theorem startPreVote_spec (cfg : Config) (io : Io) (s : Server) :
    ∃ d k, ∃ evs : List Event,
      (∀ p ∈ s.nodes, p.isSelf = false →
        .send s.currentTerm s.votedFor ⟨s.selfId, p.id, .requestVote (s.probe cfg)⟩ ∈ evs) ∧
      s.startPreVote cfg io =
        if s.majority ≤ 1 then
          { s.after evs with
            preVoteActive := false, preVotesGranted := 1, electionDeadline := d, reads := k }.becomeCandidate cfg io
        else
          { s.after evs with preVoteActive := true, preVotesGranted := 1, electionDeadline := d, reads := k } := by
  obtain ⟨d, k, hx⟩ := resetElectionTimer_eq cfg io { s with preVoteActive := true, preVotesGranted := 1 }
  refine ⟨d, k, (s.nodes.filter (fun p => !p.isSelf)).reverse.map
    (fun p => .send s.currentTerm s.votedFor ⟨s.selfId, p.id, .requestVote (s.probe cfg)⟩), ?_, ?_⟩
  · intro p hp hs
    exact List.mem_map.2 ⟨p, List.mem_reverse.2 (List.mem_filter.2 ⟨hp, by simp [hs]⟩), rfl⟩
  · unfold startPreVote
    rw [hx]
    have hfold := foldl_probe cfg s.nodes
      { s with preVoteActive := true, preVotesGranted := 1, electionDeadline := d, reads := k }
    dsimp only [probe] at hfold ⊢
    rw [hfold]
    rfl

theorem periodic_of_probing (h : s.probing io .periodic = true) :
    s.periodic cfg io = (s.tick.startPreVote cfg io).applyCommitted cfg io := by
  simp only [probing, Bool.and_eq_true, decide_eq_true_eq] at h
  obtain ⟨⟨hrun, hst⟩, hdl⟩ := h
  unfold periodic
  rw [if_neg (by simp [hrun])]
  dsimp only
  rw [if_neg (by exact hst), if_pos (by exact hdl)]

theorem calm_periodic (h : s.probing io .periodic = false) : Calm s (s.periodic cfg io) := by
  unfold periodic
  split
  · exact .refl s
  rename_i hrun
  dsimp only
  split
  · split
    · refine Calm.trans ?_ (calm_becomeFollower _ _ s.tick)
      exact .of_poll rfl
    split
    · refine .of_poll ((poll_of_office (office_applyCommitted cfg io _)).trans ?_)
      exact poll_of_office (sends_broadcast cfg { s.tick with lastHeartbeatSent := io.now s.reads }).office
    · exact .of_poll (poll_of_office (office_applyCommitted cfg io s.tick))
  · rename_i hst
    split
    · rename_i hdl
      have hrun : s.running = true := by simpa using hrun
      have hst : s.state ≠ .leader := hst
      have hdl : 0 ≤ elapsed (io.now s.reads) s.electionDeadline := hdl
      simp [probing, hrun, hst, hdl] at h
    · exact .of_poll (poll_of_office (office_applyCommitted cfg io s.tick))

end Server

/-- **What a call does to the probe**: it ends in a campaign, opens a new round, counts one grant, or leaves the count
alone. -/
inductive Polls (cfg : Config) (io : Io) (s : Server) (k : Call) : Prop where
  | elects (h : s.electing io k = true) (ha : (s.perform cfg io k).preVoteActive = false)
  | opens (h : s.probing io k = true) (hp : (s.perform cfg io k).poll = (true, 1, s.state, s.currentTerm))
  | counts (b : Nat) (h : s.counting k = some b) (ha : s.preVoteActive = true)
      (hp : (s.perform cfg io k).poll = (s.preVoteActive, s.preVotesGranted + 1, s.state, s.currentTerm))
  | calm (hp : s.probing io k = false) (hc : s.counting k = none) (h : s.Calm (s.perform cfg io k))

namespace Server

variable {cfg : Config} {io : Io} {s : Server}

theorem polls_periodic (cfg : Config) (io : Io) (s : Server) : Polls cfg io s .periodic := by
  cases h : s.probing io .periodic with
  | false => exact .calm h rfl (calm_periodic h)
  | true =>
    obtain ⟨d, k, evs, -, he⟩ := startPreVote_spec cfg io s.tick
    have hper : (s.perform cfg io .periodic).poll = (s.tick.startPreVote cfg io).poll := by
      show (s.periodic cfg io).poll = _
      rw [periodic_of_probing h, poll_of_office (office_applyCommitted cfg io _)]
    rw [he] at hper
    split at hper
    · rename_i hm
      refine .elects ?_ ?_
      · simp only [probing] at h
        simp only [electing, h, Bool.true_and, decide_eq_true_eq]
        exact hm
      · exact (congrArg Prod.fst hper).trans (becomeCandidate_inactive cfg io _)
    · exact .opens h hper

theorem polls_preVoteResp {rr : RequestVoteResp} (hpre : rr.preVote = true) (src dst : Nat) :
    Polls cfg io s (.handle ⟨src, dst, .requestVoteResp rr⟩) := by
  have hdef : s.perform cfg io (.handle ⟨src, dst, .requestVoteResp rr⟩) = s.handleRequestVoteResp cfg io src rr := rfl
  have hcount : s.counting (.handle ⟨src, dst, .requestVoteResp rr⟩) = if rr.preVote ∧ s.preVoteActive ∧
      s.state ≠ .leader ∧ rr.voteGranted ∧ rr.term ≤ wrap64 (s.currentTerm + 1) then some src else none := rfl
  unfold handleRequestVoteResp at hdef
  rw [if_pos hpre] at hdef
  by_cases hskip : (!s.preVoteActive) = true ∨ s.state = .leader
  · rw [if_pos hskip] at hdef
    refine .calm rfl ?_ (by rw [hdef]; exact .refl s)
    rw [hcount, if_neg]
    rintro ⟨-, ha, hs, -⟩
    rcases hskip with h | h
    · rw [ha] at h; cases h
    · exact hs h
  · rw [if_neg hskip] at hdef
    obtain ⟨ha, hs⟩ := not_or.1 hskip
    have ha : s.preVoteActive = true := by simpa using ha
    by_cases hg : rr.voteGranted = true ∧ rr.term ≤ wrap64 (s.currentTerm + 1)
    · rw [if_pos hg] at hdef
      rw [if_pos ⟨hpre, ha, hs, hg.1, hg.2⟩] at hcount
      dsimp only at hdef
      split at hdef
      · rename_i hm
        refine .elects ?_ (by rw [hdef]; exact becomeCandidate_inactive cfg io _)
        simp only [electing, Bool.and_eq_true, decide_eq_true_eq]
        exact ⟨⟨⟨⟨⟨hpre, ha⟩, hs⟩, hg.1⟩, hg.2⟩, hm⟩
      · exact .counts src hcount ha (by rw [hdef]; rfl)
    · rw [if_neg hg] at hdef
      refine .calm rfl ?_ (by rw [hdef]; exact .refl s)
      rw [hcount, if_neg]
      rintro ⟨-, -, -, hg1, hg2⟩
      exact hg ⟨hg1, hg2⟩

theorem polls_perform (cfg : Config) (io : Io) (s : Server) (k : Call) : Polls cfg io s k := by
  cases k with
  | start => exact .calm rfl rfl (calm_start s)
  | stop => exact .calm rfl rfl (.of_poll rfl)
  | periodic => exact polls_periodic cfg io s
  | submit type data => exact .calm rfl rfl (.of_poll (poll_of_office (office_submit cfg io type data s)))
  | beginSnapshot => exact .calm rfl rfl (.of_poll (poll_of_office (office_beginSnapshot cfg io s)))
  | handle m =>
    obtain ⟨src, dst, pl⟩ := m
    cases pl with
    | requestVote rv => exact .calm rfl rfl (calm_handleRequestVote rv s)
    | requestVoteResp rr =>
      cases hpre : rr.preVote with
      | true => exact polls_preVoteResp hpre src dst
      | false => exact .calm rfl (if_neg (by simp [hpre])) (calm_handleVote src s hpre)
    | appendEntries ae => exact .calm rfl rfl (calm_handleAppendEntries ae s)
    | appendEntriesResp rr => exact .calm rfl rfl (calm_handleAppendEntriesResp src rr s)
    | installSnapshot is => exact .calm rfl rfl (calm_handleInstallSnapshot is s)
    | installSnapshotResp rr => exact .calm rfl rfl (calm_handleInstallSnapshotResp src rr s)

/-- **No candidacy begins but in a call that starts an election.** -/
theorem candidate_of_electing (cfg : Config) {k : Call} (h : (s.perform cfg io k).state = .candidate) :
    s.electing io k = true ∨ (s.state = .candidate ∧ (s.perform cfg io k).currentTerm = s.currentTerm) := by
  cases polls_perform cfg io s k with
  | elects he ha => exact .inl he
  | opens hp hpoll =>
    simp only [poll, Prod.mk.injEq] at hpoll
    exact .inr ⟨by rw [← hpoll.2.2.1]; exact h, hpoll.2.2.2⟩
  | counts b hb ha hpoll =>
    simp only [poll, Prod.mk.injEq] at hpoll
    exact .inr ⟨by rw [← hpoll.2.2.1]; exact h, hpoll.2.2.2⟩
  | calm hp hc hcalm => exact .inr (hcalm.role h)

/-- In a cluster of two or more, an election starts on a grant that completes the count. -/
theorem counting_of_electing {k : Call} (h : s.electing io k = true) (hm : ¬ s.majority ≤ 1) :
    ∃ b, s.counting k = some b ∧ s.preVoteActive = true ∧ s.majority ≤ s.preVotesGranted + 1 := by
  cases k with
  | periodic =>
    simp only [electing, Bool.and_eq_true, decide_eq_true_eq] at h
    exact absurd h.2 hm
  | handle m =>
    obtain ⟨src, dst, pl⟩ := m
    cases pl with
    | requestVoteResp rr =>
      simp only [electing, Bool.and_eq_true, decide_eq_true_eq] at h
      obtain ⟨⟨⟨⟨⟨hpre, ha⟩, hs⟩, hg⟩, ht⟩, hmaj⟩ := h
      exact ⟨src, if_pos ⟨hpre, ha, hs, hg, ht⟩, ha, hmaj⟩
    | _ => cases h
  | _ => cases h

/-- A round's probe goes out to every peer. -/
theorem probe_sent (cfg : Config) (h : s.probing io .periodic = true) {p : Peer} (hp : p ∈ s.nodes)
    (hs : p.isSelf = false) :
    ⟨s.selfId, p.id, .requestVote (s.probe cfg)⟩ ∈ (s.perform cfg io .periodic).sent := by
  obtain ⟨d, k, evs, hsend, he⟩ := startPreVote_spec cfg io s.tick
  have hstart : ∃ newer, (s.tick.startPreVote cfg io).calls = newer ++ (evs ++ s.calls) := by
    rw [he]
    split
    · obtain ⟨newer, evs', -, hc⟩ := becomeCandidate_calls cfg io
        { s.tick.after evs with preVoteActive := false, preVotesGranted := 1, electionDeadline := d, reads := k }
      exact ⟨newer ++ .persistState _ _ :: evs', by rw [hc, List.append_assoc]; rfl⟩
    · exact ⟨[], rfl⟩
  obtain ⟨newer, hn⟩ := hstart
  have hmv : Moves cfg io True none s _ _ := applyCommitted_moves (s.tick.startPreVote cfg io)
  obtain ⟨last, hl⟩ := Moves.calls_grow hmv
  have hl : ((s.tick.startPreVote cfg io).applyCommitted cfg io).calls =
      last ++ (s.tick.startPreVote cfg io).calls := hl
  rw [mem_sent]
  refine ⟨s.currentTerm, s.votedFor, ?_⟩
  show _ ∈ (s.periodic cfg io).calls
  rw [periodic_of_probing h, hl, hn]
  exact List.mem_append_right _ (List.mem_append_right _ (List.mem_append_left _ (hsend p hp hs)))

/-- The reply to a probe. -/
theorem grant_sent (cfg : Config) {rv : RequestVote} (hpre : rv.preVote = true) (src dst : Nat) :
    (s.perform cfg io (.handle ⟨src, dst, .requestVote rv⟩)).calls =
      .send s.currentTerm s.votedFor
        ⟨s.selfId, rv.candidateId, .requestVoteResp ⟨s.currentTerm, s.wouldGrant cfg io rv, true⟩⟩ :: s.calls := by
  show (s.handleRequestVote cfg io rv).calls = _
  unfold handleRequestVote requestVoteGuard
  simp only [hpre, if_true]
  rfl

theorem length_modifyNode {n : Nat} {f : Peer → Peer} (ps : List Peer) : (modifyNode n f ps).length = ps.length := by
  simpa using congrArg List.length (map_modifyNode (n := n) (f := f) (fun _ => ()) (fun _ => rfl) ps)

/-- The cluster a server was built for is fixed. -/
theorem Move.length_nodes {fit : Prop} {heard : Option Message} {start s' : Server}
    (h : Move cfg io fit heard start s s') : s'.nodes.length = s.nodes.length := by
  cases h with
  | aim nodes hk hn => simpa using congrArg List.length hk
  | accept m ae hm hae ht hs hp h0 =>
    obtain ⟨evs, -, he⟩ := accepted_eq cfg ae s
    rw [he]
  | chunk m is hm his ht hs hd h0 =>
    rw [chunk_eq]
    exact List.length_map _
  | install m is hm his ht hs hd h0 =>
    rw [installed_eq]
    exact List.length_map _
  | apply hlt => rw [applyNext_eq]
  | campaign hs hf => exact (length_modifyNode _).trans (List.length_map _)
  | promote hs hm hw => exact (length_modifyNode _).trans (List.length_map _)
  | tally m rr p hm hrr hpre hg ht hs hp hn => exact length_modifyNode _
  | propose e log hs ht hi hp => exact length_modifyNode _
  | learn sender l hs hr => exact length_modifyNode _
  | quiet evs hq => rfl
  | adopt t ht => rfl
  | demote => rfl
  | vote m rv hm hrv hpre ht hv hu => rfl
  | emit m hsend => rfl
  | advance next hs hn => rfl
  | compact bytes t hio hb ht => rfl

theorem length_nodes_perform (cfg : Config) (io : Io) (s : Server) (k : Call) :
    (s.perform cfg io k).nodes.length = s.nodes.length := by
  have hchain : ∀ y, Moves cfg io False k.heard s s.core y → y.nodes.length = s.core.nodes.length := by
    intro y hy
    induction hy with
    | refl => rfl
    | tail _ hmv ih => exact (Move.length_nodes hmv).trans ih
  have hcore : ∀ x : Server, x.core.nodes.length = x.nodes.length := fun x => List.length_map _
  rw [← hcore, hchain _ (perform_moves cfg io False s k (fun h => h.elim)), hcore]

end Server

/-! ## Runs -/

/-- A server's latest round of probes: the request it sent, the nodes that granted it since the round began, and those
whose grants were counted.  The server itself is the first of both. -/
structure Round where
  probe : Option RequestVote := none
  granted : List Nat := []
  counted : List Nat := []

/-- A cluster, and for every node its latest round. -/
structure Polled where
  cluster : Cluster
  round : Nat → Round

/-- The rounds after a call that the node `n` makes as `s`.  A grant is one once its reply is out, which a node that goes
down at once does not get to. -/
def roundsAfter (cfg : Config) (io : Io) (s : Server) (k : Call) (n : Nat) (replied : Bool) (round : Nat → Round) :
    Nat → Round := fun a =>
  if a = n ∧ s.probing io k then ⟨some (s.probe cfg), [n], [n]⟩
  else
    { round a with
      granted := if replied ∧ (round a).probe.any (fun rv => s.grants cfg io rv k) then n :: (round a).granted
        else (round a).granted
      counted := if a = n then (s.counting k).toList ++ (round a).counted else (round a).counted }

/-- The cluster's runs, with the rounds kept along. -/
def Setup.polled (S : Setup) : Sys Polled Action where
  init := ⟨S.init, fun _ => {}⟩
  enabled := fun x act => S.sys.enabled x.cluster act
  exec := fun x act => ⟨S.sys.exec x.cluster act, match act with
    | .call n io k => roundsAfter S.cfg io (x.cluster.node n) k n true x.round
    | .restart _ => x.round
    | .crash n io k made => roundsAfter S.cfg io (x.cluster.node n) k n (made ≠ 0) x.round⟩

/-- The grant that the call counts, if it does, answers the probe of the node's latest round, and none of the same sender
was counted in that round before. -/
def Polled.FreshGrant (x : Polled) (n : Nat) (k : Call) : Prop :=
  ∀ b ∈ (x.cluster.node n).counting k, b ∈ (x.round n).granted ∧ b ∉ (x.round n).counted

/-- **No stale grant is counted, and none twice.** -/
def Polled.Fresh (x : Polled) : Action → Prop
  | .call n _ k => x.FreshGrant n k
  | .restart _ => True
  | .crash n _ k _ => x.FreshGrant n k

/-- **The count of a server in an open round** is the number of distinct nodes that granted its probe. -/
structure RoundOk (S : Setup) (s : Server) (r : Round) : Prop where
  members : s.nodes.length = S.ids.length
  granters : ∀ b ∈ r.granted, b ∈ S.ids
  count : s.preVoteActive = true → s.preVotesGranted = r.counted.length
  nodup : s.preVoteActive = true → r.counted.Nodup
  backed : s.preVoteActive = true → ∀ b ∈ r.counted, b ∈ r.granted

theorem RoundOk.grant {S : Setup} {s : Server} {r : Round} (h : RoundOk S s r) {n : Nat} (hn : n ∈ S.ids) (c : Prop)
    [Decidable c] : RoundOk S s { r with granted := if c then n :: r.granted else r.granted } := by
  split
  · refine { h with granters := fun b hb => ?_, backed := fun ha b hb => List.mem_cons_of_mem n (h.backed ha b hb) }
    rcases List.mem_cons.1 hb with rfl | hb
    · exact hn
    · exact h.granters b hb
  · exact h

section
variable {S : Setup} {x : Polled} {n : Nat} {io : Io} {k : Call}

theorem length_nodes_rebuild (S : Setup) (n : Nat) (calls : List Event) :
    (S.rebuild n calls).nodes.length = S.ids.length := by
  have hne : ¬ (S.ids.isEmpty = true ∨ S.cfg.maxNodes < S.ids.length) := by
    rintro (h | h)
    · exact S.ne_nil (List.isEmpty_iff.1 h)
    · exact absurd S.le_max (Nat.not_le.2 h)
  show (Server.new S.cfg n S.ids).nodes.length = _
  unfold Server.new
  rw [if_neg hne]
  exact List.length_map _

theorem rebuild_inactive (S : Setup) (n : Nat) (calls : List Event) : (S.rebuild n calls).preVoteActive = false := by
  show (Server.new S.cfg n S.ids).preVoteActive = false
  unfold Server.new
  split <;> rfl

/-- With no round open there is nothing to count. -/
theorem RoundOk.closed {s : Server} {r : Round} (ha : s.preVoteActive = false) (hm : s.nodes.length = S.ids.length)
    (hg : ∀ b ∈ r.granted, b ∈ S.ids) : RoundOk S s r := by
  have hoff : ∀ {p : Prop}, s.preVoteActive = true → p := by
    intro p h
    rw [ha] at h
    cases h
  exact ⟨hm, hg, hoff, hoff, hoff⟩

theorem RoundOk.rebuild {r : Round} (hg : ∀ b ∈ r.granted, b ∈ S.ids) (calls : List Event) :
    RoundOk S (S.rebuild n calls) r :=
  .closed (rebuild_inactive S n calls) (length_nodes_rebuild S n calls) hg

/-- **A call keeps the count honest**, if the grant it counts is fresh. -/
theorem RoundOk.call {s : Server} {r : Round} (h : RoundOk S s r) (io : Io) (hn : n ∈ S.ids)
    (hf : ∀ b ∈ s.counting k, b ∈ r.granted ∧ b ∉ r.counted) :
    RoundOk S (s.perform S.cfg io k) (if s.probing io k then ⟨some (s.probe S.cfg), [n], [n]⟩
      else { r with counted := (s.counting k).toList ++ r.counted }) := by
  have hlen := (Server.length_nodes_perform S.cfg io s k).trans h.members
  have hopen : ∀ b ∈ [n], b ∈ S.ids := fun b hb => by rw [List.mem_singleton.1 hb]; exact hn
  cases Server.polls_perform S.cfg io s k with
  | elects he ha =>
    split
    · exact .closed ha hlen hopen
    · exact .closed ha hlen h.granters
  | opens hp hpoll =>
    rw [if_pos hp]
    simp only [Server.poll, Prod.mk.injEq] at hpoll
    exact ⟨hlen, hopen, fun _ => hpoll.2.1, fun _ => List.nodup_singleton n, fun _ b hb => hb⟩
  | counts b hb ha hpoll =>
    have hp : s.probing io k = false := by
      cases k with
      | periodic => cases hb
      | _ => rfl
    simp only [Server.poll, Prod.mk.injEq] at hpoll
    obtain ⟨hin, hnew⟩ := hf b hb
    rw [hp, if_neg (by simp), hb]
    refine ⟨hlen, h.granters, fun _ => ?_, fun _ => ?_, fun _ => ?_⟩
    · rw [hpoll.2.1, h.count ha]
      rfl
    · exact List.nodup_cons.2 ⟨hnew, h.nodup ha⟩
    · intro c hc
      rcases List.mem_cons.1 hc with rfl | hc
      · exact hin
      · exact h.backed ha c hc
  | calm hp hc hcalm =>
    rw [hp, if_neg (by simp), hc]
    exact ⟨hlen, h.granters, fun ha => hcalm.count.trans (h.count (hcalm.active ha)), fun ha => h.nodup (hcalm.active ha),
      fun ha => h.backed (hcalm.active ha)⟩

/-- Every node's count is honest. -/
def PollInv (S : Setup) (x : Polled) : Prop := ∀ a, RoundOk S (x.cluster.node a) (x.round a)

theorem PollInv.call (h : PollInv S x) (io : Io) (hn : n ∈ S.ids) (hf : x.FreshGrant n k) (replied : Bool) (a : Nat) :
    RoundOk S ((x.cluster.set n ((x.cluster.node n).perform S.cfg io k)).node a)
      (roundsAfter S.cfg io (x.cluster.node n) k n replied x.round a) := by
  unfold roundsAfter
  by_cases ha : a = n
  · subst ha
    have hcall := (h a).call io hn hf
    rw [Cluster.set_node_self]
    cases hp : (x.cluster.node a).probing io k with
    | true =>
      rw [hp, if_pos rfl] at hcall
      rw [if_pos ⟨rfl, rfl⟩]
      exact hcall
    | false =>
      rw [hp, if_neg (by simp)] at hcall
      rw [if_neg (by simp)]
      simp only [if_true]
      exact hcall.grant hn _
  · rw [Cluster.set_node_ne ha, if_neg (fun hc => ha hc.1)]
    simp only [ha, if_false]
    exact (h a).grant hn _

theorem pollInv_init (S : Setup) : PollInv S S.polled.init := fun _ => .rebuild (fun _ hb => by cases hb) []

/-- **Along every run in which only fresh grants are counted, every count is honest.** -/
theorem pollInv_reachable (h : S.polled.Reachable Polled.Fresh x) : PollInv S x := by
  refine h.invariant (pollInv_init S) ?_
  intro y act hy hen hok
  cases act with
  | call n io k => exact fun a => hy.call io hen.1 hok true a
  | restart n =>
    intro a
    show RoundOk S ((y.cluster.set n _).node a) (y.round a)
    by_cases ha : a = n
    · subst ha
      rw [Cluster.set_node_self]
      exact .rebuild (hy a).granters _
    · rw [Cluster.set_node_ne ha]
      exact hy a
  | crash n io k made =>
    intro a
    have hcall := hy.call io hen.1 hok (made ≠ 0) a
    show RoundOk S ((y.cluster.set n _).node a) (roundsAfter S.cfg io (y.cluster.node n) k n (made ≠ 0) y.round a)
    by_cases ha : a = n
    · subst ha
      rw [Cluster.set_node_self]
      exact .rebuild hcall.granters _
    · rw [Cluster.set_node_ne ha] at hcall ⊢
      exact hcall

/-- **Pre-vote protects the term**: along every run in which no stale grant is counted and none twice, a server of a
cluster of two or more starts an election only when a majority of the nodes, itself included, granted the probe of its
latest round. -/
theorem candidate_backed (hids : 2 ≤ S.ids.length) (h : S.polled.Reachable Polled.Fresh x)
    (hf : x.FreshGrant n k) (he : (x.cluster.node n).electing io k = true) :
    Quorum S.ids.toFinset (fun b => b ∈ (x.round n).granted) := by
  have hok := pollInv_reachable h n
  have hmaj : (x.cluster.node n).majority = S.ids.length / 2 + 1 := by unfold Server.majority; rw [hok.members]
  obtain ⟨b, hb, ha, hm⟩ := Server.counting_of_electing he (by rw [hmaj]; omega)
  obtain ⟨hin, hnew⟩ := hf b hb
  have hnodup : (b :: (x.round n).counted).Nodup := List.nodup_cons.2 ⟨hnew, hok.nodup ha⟩
  have hgranted : ∀ c ∈ b :: (x.round n).counted, c ∈ (x.round n).granted := by
    intro c hc
    rcases List.mem_cons.1 hc with rfl | hc
    · exact hin
    · exact hok.backed ha c hc
  refine ⟨(b :: (x.round n).counted).toFinset, ?_, ?_, ?_⟩
  · intro c hc
    rw [List.mem_toFinset] at hc ⊢
    exact hok.granters c (hgranted c hc)
  · rw [List.toFinset_card_of_nodup S.nodup, List.toFinset_card_of_nodup hnodup, List.length_cons, ← hok.count ha]
    rw [hmaj] at hm
    omega
  · intro c hc
    exact hgranted c (List.mem_toFinset.1 hc)

end

instance (x : Polled) (n : Nat) (k : Call) : Decidable (x.FreshGrant n k) :=
  inferInstanceAs (Decidable (∀ b ∈ (x.cluster.node n).counting k, b ∈ (x.round n).granted ∧ b ∉ (x.round n).counted))

instance (x : Polled) : ∀ act : Action, Decidable (x.Fresh act)
  | .call n _ k => inferInstanceAs (Decidable (x.FreshGrant n k))
  | .restart _ => inferInstanceAs (Decidable True)
  | .crash n _ k _ => inferInstanceAs (Decidable (x.FreshGrant n k))

theorem reachable_playOver_polled (S : Setup) (ok : Polled → Action → Prop) [∀ x a, Decidable (ok x a)]
    (env : Nat → Io) (ts : List Turn) :
    S.polled.Reachable ok (S.playOver S.polled Polled.cluster ok env ts S.polled.init) := by
  refine Setup.reaches_playOver ?_ ts S.polled.init
  exact fun _ _ h => h

/-- Node 1 opens a round, and node 2 grants its probe. -/
def firstRound : List Turn := startAll ++ [.periodic 1 5000, .deliver 1 2 0 5000]

/-- Node 2's reply. -/
def grantOfTwo : Message := ⟨2, 1, .requestVoteResp ⟨0, true, true⟩⟩

theorem candidate_backed_firstRound :
    let x := trio.playOver trio.polled Polled.cluster Polled.Fresh .at firstRound trio.polled.init
    (x.cluster.node 1).electing (.at 5000) (.handle grantOfTwo) = true ∧
      Quorum trio.ids.toFinset (fun b => b ∈ (x.round 1).granted) := by
  intro x
  have he : (x.cluster.node 1).electing (.at 5000) (.handle grantOfTwo) = true := by decide +kernel
  have hf : x.FreshGrant 1 (.handle grantOfTwo) := by decide +kernel
  have hx : trio.polled.Reachable Polled.Fresh x := reachable_playOver_polled trio _ _ _
  exact ⟨he, candidate_backed (by decide) hx hf he⟩

/-- The reply is delivered after node 1 has opened its next round, and is counted in that one: node 1 campaigns although
no other node has granted the probe it sent last. -/
theorem candidate_unbacked :
    let x := trio.playOver trio.polled Polled.cluster Sys.always .at (firstRound ++ [.periodic 1 10000]) trio.polled.init
    trio.polled.Reachable Sys.always x ∧ trio.Callable x.cluster 1 (.handle grantOfTwo) ∧
      (x.cluster.node 1).electing (.at 10000) (.handle grantOfTwo) = true ∧
      ¬ Quorum trio.ids.toFinset (fun b => b ∈ (x.round 1).granted) := by
  intro x
  refine ⟨reachable_playOver_polled trio _ _ _, ⟨by decide, ?_⟩, by decide +kernel, ?_⟩
  · rintro m ⟨⟩
    exact ⟨rfl, 2, by decide, by decide +kernel⟩
  · have hround : (x.round 1).granted = [1] := by decide +kernel
    rw [hround]
    rintro ⟨Q, -, hcard, hQ⟩
    have hsub : Q ⊆ {1} := fun b hb => by simpa using hQ b hb
    have hle : Q.card ≤ 1 := Finset.card_le_card hsub
    have hthree : trio.ids.toFinset.card = 3 := by decide
    omega

end Raft
end FloodEws
