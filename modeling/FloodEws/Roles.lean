import FloodEws.Office
import FloodEws.Schedule
import FloodEws.Segments
/-!
# Roles — who the server says is leader

`is_leader()` compares the leader id with the server's own and never looks at the role.  Every transition of the election
sets both, but `start()` sets the role alone: called on a leader it leaves a follower that still says it is leader.  Up to
that the two agree in every state (`isLeader_iff_leader`).
-/
namespace FloodEws
namespace Raft

/-- The leader a message speaks of. -/
def Message.leader (msg : Message) : Option Nat :=
  match msg.payload with
  | .appendEntries ae => some ae.leaderId
  | .installSnapshot is => some is.leaderId
  | _ => none

namespace Server

def isLeader (s : Server) : Bool := decide (s.currentLeader = s.selfId)

/-- The leader id is the server's own exactly in the role of leader. -/
structure InOffice (s : Server) : Prop where
  self : s.selfId ≠ badNode
  leader : s.currentLeader = s.selfId ↔ s.state = .leader

namespace InOffice

variable {s s' : Server}

theorem of_office (h : InOffice s) (ho : s'.office = s.office) : InOffice s' := by
  have hself : s'.selfId = s.selfId := congrArg Office.selfId ho
  have hstate : s'.state = s.state := congrArg Office.state ho
  have hleader : s'.currentLeader = s.currentLeader := congrArg Office.currentLeader ho
  exact ⟨hself ▸ h.self, by rw [hself, hstate, hleader]; exact h.leader⟩

/-- Not leader, by role and by id. -/
theorem vacant (hself : s.selfId ≠ badNode) (hleader : s.currentLeader ≠ s.selfId) (hstate : s.state ≠ .leader) :
    InOffice s :=
  ⟨hself, iff_of_false hleader hstate⟩

end InOffice

variable {cfg : Config} {io : Io} {s : Server}

/-! ## The transitions -/

theorem selfId_setState (r : Role) (s : Server) : (s.setState r).selfId = s.selfId := by
  obtain ⟨evs, -, he⟩ := setState_eq r s
  rw [he]
  rfl

theorem state_setState (r : Role) (s : Server) : (s.setState r).state = r := by
  obtain ⟨evs, -, he⟩ := setState_eq r s
  rw [he]

/-- A follower of somebody else, or of nobody. -/
theorem inOffice_follower {leader : Nat} (hself : s.selfId ≠ badNode) (hleader : leader ≠ s.selfId) :
    InOffice { s.setState .follower with currentLeader := leader } := by
  have hid := selfId_setState .follower s
  refine .vacant (hid.trans_ne hself) (hleader.trans_eq hid.symm) ?_
  rw [state_setState]
  decide

theorem inOffice_maybeStepDown (t : Nat) (h : InOffice s) : InOffice (s.maybeStepDown t) := by
  unfold maybeStepDown
  split
  · dsimp only
    split
    · exact inOffice_follower (s := { s with currentTerm := t, votedFor := badNode }.persistState) h.self h.self.symm
    · exact ⟨h.self, h.leader⟩
  · exact h

theorem selfId_maybeStepDown (t : Nat) (s : Server) : (s.maybeStepDown t).selfId = s.selfId := by
  unfold maybeStepDown
  split
  · dsimp only
    split
    · exact selfId_setState .follower _
    · rfl
  · rfl

theorem inOffice_becomeFollower (t : Nat) {leader : Nat} (hself : s.selfId ≠ badNode) (hleader : leader ≠ s.selfId) :
    InOffice (s.becomeFollower cfg io t leader) := by
  have hset : ∀ x : Server, x.selfId = s.selfId → InOffice { x.setState .follower with currentLeader := leader } :=
    fun x hx => inOffice_follower (hx.trans_ne hself) (hleader.trans_eq hx.symm)
  unfold becomeFollower
  dsimp only
  split
  all_goals
    refine InOffice.of_office (hset _ ?_) (office_resetElectionTimer cfg io _)
    split <;> rfl

theorem inOffice_follow (t : Nat) {leader : Nat} (h : InOffice s) (hleader : leader ≠ s.selfId) :
    InOffice ((s.maybeStepDown t).becomeFollower cfg io t leader) :=
  inOffice_becomeFollower t (inOffice_maybeStepDown t h).self (by rwa [selfId_maybeStepDown])

theorem inOffice_becomeLeader (hself : s.selfId ≠ badNode) : InOffice (s.becomeLeader cfg io) := by
  have hid := selfId_setState .leader { s with preVoteActive := false }
  have hst := state_setState .leader { s with preVoteActive := false }
  unfold becomeLeader
  dsimp only
  generalize { s with preVoteActive := false }.setState .leader = x at hid hst
  have hx : x.selfId ≠ badNode := hid.trans_ne hself
  split <;> exact ⟨hx, iff_of_true rfl hst⟩

theorem inOffice_beginCampaign (hself : s.selfId ≠ badNode) : InOffice (s.beginCampaign cfg io) := by
  have hid := selfId_setState .candidate { s with preVoteActive := false }
  have hst := state_setState .candidate { s with preVoteActive := false }
  unfold beginCampaign
  dsimp only
  generalize { s with preVoteActive := false }.setState .candidate = x at hid hst
  have hx : x.selfId ≠ badNode := hid.trans_ne hself
  have hnobody : ∀ y : Server, y.selfId = x.selfId → y.state = x.state → y.currentLeader = badNode → InOffice y := by
    intro y hy hys hyl
    refine .vacant (hy.trans_ne hx) (by rw [hy, hyl]; exact hx.symm) ?_
    rw [hys, hst]
    decide
  split
  all_goals
    refine InOffice.of_office (hnobody _ ?_ ?_ ?_) (office_resetElectionTimer cfg io _)
    all_goals rfl

theorem inOffice_becomeCandidate (hself : s.selfId ≠ badNode) : InOffice (s.becomeCandidate cfg io) := by
  have hsent := (@inOffice_beginCampaign cfg io s hself).of_office (sends_requestVotes cfg _).office
  unfold becomeCandidate
  dsimp only
  split
  · exact inOffice_becomeLeader hsent.self
  · exact hsent

theorem inOffice_startPreVote (h : InOffice s) : InOffice (s.startPreVote cfg io) := by
  obtain ⟨d, k, hx⟩ := resetElectionTimer_eq cfg io { s with preVoteActive := true, preVotesGranted := 1 }
  have hstart : InOffice { s with preVoteActive := true, preVotesGranted := 1, electionDeadline := d, reads := k } :=
    ⟨h.self, h.leader⟩
  have hprobed := hstart.of_office (sends_probes cfg _).office
  unfold startPreVote
  rw [hx]
  dsimp only at hprobed ⊢
  split
  · exact inOffice_becomeCandidate hprobed.self
  · exact hprobed

/-! ## The calls -/

theorem inOffice_handleRequestVote (rv : RequestVote) (h : InOffice s) : InOffice (s.handleRequestVote cfg io rv) := by
  unfold handleRequestVote
  split
  · rename_i s' hguard
    exact h.of_office (sends_requestVoteGuard hguard).office
  · have hdown := inOffice_maybeStepDown (s := s.tick) rv.term ⟨h.self, h.leader⟩
    dsimp only
    generalize s.tick.maybeStepDown rv.term = x at hdown
    split
    · exact ⟨hdown.self, hdown.leader⟩
    split
    · have hreset := office_resetElectionTimer cfg io ({ x with votedFor := rv.candidateId }.persistState)
      exact hdown.of_office hreset
    · exact ⟨hdown.self, hdown.leader⟩

theorem inOffice_handleRequestVoteResp (sender : Nat) (rr : RequestVoteResp) (h : InOffice s) :
    InOffice (s.handleRequestVoteResp cfg io sender rr) := by
  unfold handleRequestVoteResp
  split
  · split
    · exact h
    split
    · dsimp only
      split
      · exact inOffice_becomeCandidate h.self
      · exact ⟨h.self, h.leader⟩
    · exact h
  split
  · exact h
  split
  · exact inOffice_maybeStepDown rr.term h
  split
  · exact h
  split
  · exact h
  split
  · exact h
  split
  · dsimp only
    split
    · exact inOffice_becomeLeader h.self
    · exact ⟨h.self, h.leader⟩
  · exact h

theorem inOffice_handleAppendEntries {ae : AppendEntries} (h : InOffice s) (hleader : ae.leaderId ≠ s.selfId) :
    InOffice (s.handleAppendEntries cfg io ae) := by
  unfold handleAppendEntries
  split
  · exact ⟨h.self, h.leader⟩
  · have hf := @inOffice_follow cfg io s ae.term ae.leaderId h hleader
    dsimp only
    generalize (s.maybeStepDown ae.term).becomeFollower cfg io ae.term ae.leaderId = x at hf
    split
    · exact ⟨hf.self, hf.leader⟩
    · exact hf.of_office ((office_applyCommitted cfg io _).trans
        (office_accepted cfg ae { x.tick with lastLeaderContact := io.now x.reads }))

theorem inOffice_handleAppendEntriesResp (sender : Nat) (rr : AppendEntriesResp) (h : InOffice s) :
    InOffice (s.handleAppendEntriesResp cfg io sender rr) := by
  unfold handleAppendEntriesResp
  split
  · exact inOffice_maybeStepDown rr.term h
  split
  · exact h
  split
  · exact h
  dsimp only
  split
  · split
    · exact h.of_office ((sends_sendAppendEntries cfg _ _).office.trans (office_leaderAdvanceCommit cfg io _))
    · exact h.of_office (office_leaderAdvanceCommit cfg io _)
  · exact h.of_office ((office_applyCommitted cfg io _).trans (sends_sendAppendEntries cfg _ _).office)

theorem inOffice_handleInstallSnapshot {is : InstallSnapshot} (h : InOffice s) (hleader : is.leaderId ≠ s.selfId) :
    InOffice (s.handleInstallSnapshot cfg io is) := by
  unfold handleInstallSnapshot
  split
  · exact ⟨h.self, h.leader⟩
  · have hf := (@inOffice_follow cfg io s is.term is.leaderId h hleader).of_office (office_storeChunk cfg is _)
    dsimp only
    generalize ((s.maybeStepDown is.term).becomeFollower cfg io is.term is.leaderId).storeChunk cfg is = x at hf
    split
    · exact ⟨hf.self, hf.leader⟩
    · refine hf.of_office ((office_applyCommitted cfg io _).trans ?_)
      split <;> rfl

theorem inOffice_handleInstallSnapshotResp (sender : Nat) (rr : InstallSnapshotResp) (h : InOffice s) :
    InOffice (s.handleInstallSnapshotResp cfg io sender rr) := by
  unfold handleInstallSnapshotResp
  split
  · exact inOffice_maybeStepDown rr.term h
  split
  · exact h
  split
  · exact h
  dsimp only
  split
  · exact h.of_office (sends_sendInstallSnapshot cfg _ _).office
  · exact h.of_office ((office_applyCommitted cfg io _).trans (sends_sendAppendEntries cfg _ _).office)

theorem inOffice_handle {msg : Message} (h : InOffice s) (hleader : msg.leader ≠ some s.selfId) :
    InOffice (s.handle cfg io msg) := by
  obtain ⟨sender, recipient, payload⟩ := msg
  cases payload with
  | requestVote rv => exact inOffice_handleRequestVote rv h
  | requestVoteResp rr => exact inOffice_handleRequestVoteResp sender rr h
  | appendEntries ae => exact inOffice_handleAppendEntries h (fun he => hleader (congrArg some he))
  | appendEntriesResp rr => exact inOffice_handleAppendEntriesResp sender rr h
  | installSnapshot is => exact inOffice_handleInstallSnapshot h (fun he => hleader (congrArg some he))
  | installSnapshotResp rr => exact inOffice_handleInstallSnapshotResp sender rr h

theorem inOffice_periodic (h : InOffice s) : InOffice (s.periodic cfg io) := by
  unfold periodic
  split
  · exact h
  dsimp only
  split
  · split
    · exact inOffice_becomeFollower (s := s.tick) _ h.self h.self.symm
    split
    · exact h.of_office ((office_applyCommitted cfg io _).trans
        (sends_broadcast cfg { s.tick with lastHeartbeatSent := io.now s.reads }).office)
    · exact h.of_office (office_applyCommitted cfg io s.tick)
  · split
    · have hprobe := @inOffice_startPreVote cfg io s.tick ⟨h.self, h.leader⟩
      exact hprobe.of_office (office_applyCommitted cfg io _)
    · exact h.of_office (office_applyCommitted cfg io s.tick)

end Server

namespace Server

/-- A message never names the server itself as the leader. -/
def FromOther (s : Server) : Op → Prop
  | .call (.handle msg) => msg.leader ≠ some s.selfId
  | _ => True

/-- `start()` is not called on a leader. -/
def StartedDown (s : Server) : Op → Prop
  | .call .start => s.state ≠ .leader
  | _ => True

/-- The calls of one server, from its constructor. -/
def sys (cfg : Config) (selfId : Nat) (nodeIds : List Nat) : Sys Server (Io × Op) where
  init := Server.new cfg selfId nodeIds
  enabled s act := s.FromOther act.2
  exec s act := s.operate cfg act.1 act.2

theorem inOffice_new (cfg : Config) {selfId : Nat} (nodeIds : List Nat) (hself : selfId ≠ badNode) :
    InOffice (Server.new cfg selfId nodeIds) := by
  unfold Server.new
  split
  all_goals exact .vacant hself hself.symm Role.noConfusion

/-- `start` sets the role and leaves the leader id. -/
theorem start_office (cfg : Config) (io : Io) (s : Server) :
    (s.start cfg io).selfId = s.selfId ∧ (s.start cfg io).state = .follower ∧
      (s.start cfg io).currentLeader = s.currentLeader := by
  obtain ⟨evs, -, he⟩ := setState_eq .follower { s with running := true }
  obtain ⟨d, k, hx⟩ := resetElectionTimer_eq cfg io (({ s with running := true } : Server).setState .follower)
  unfold start
  rw [hx, he]
  exact ⟨rfl, rfl, rfl⟩

/-- **One call keeps the two together, unless it is a `start` of a leader.** -/
theorem inOffice_operate {op : Op} (h : InOffice s) (hother : s.FromOther op) (hdown : s.StartedDown op) :
    InOffice (s.operate cfg io op) := by
  cases op with
  | restoreState term votedFor => exact ⟨h.self, h.leader⟩
  | call k =>
    cases k with
    | start =>
      obtain ⟨hself, hstate, hleader⟩ := start_office cfg io s
      refine .vacant (hself.trans_ne h.self) ?_ ?_
      · show (s.start cfg io).currentLeader ≠ (s.start cfg io).selfId
        rw [hself, hleader]
        exact fun he => hdown (h.leader.1 he)
      · show (s.start cfg io).state ≠ _
        rw [hstate]
        decide
    | stop => exact ⟨h.self, h.leader⟩
    | periodic => exact inOffice_periodic h
    | submit type data => exact h.of_office (office_submit cfg io type data s)
    | beginSnapshot => exact h.of_office (office_beginSnapshot cfg io s)
    | handle msg => exact inOffice_handle h hother

/-- A leader that is started is a follower that says it is leader. -/
theorem start_leader (h : InOffice s) (hs : s.state = .leader) :
    (s.start cfg io).isLeader = true ∧ (s.start cfg io).state = .follower := by
  obtain ⟨hself, hstate, hleader⟩ := start_office cfg io s
  refine ⟨?_, hstate⟩
  rw [isLeader, hself, hleader, decide_eq_true_eq]
  exact h.leader.2 hs

theorem inOffice_reachable {selfId : Nat} {nodeIds : List Nat} (hself : selfId ≠ badNode)
    (h : (sys cfg selfId nodeIds).Reachable (fun s act => s.StartedDown act.2) s) : InOffice s :=
  h.invariant (inOffice_new cfg nodeIds hself) fun _ _ hx he hk => inOffice_operate hx he hk

/-- **`is_leader()` means `LEADER` as long as no leader is started.**  In every state of a run without such a `start` the
two agree; and from there a call keeps them together exactly when it is none either. -/
theorem isLeader_iff_leader (cfg : Config) (selfId : Nat) (nodeIds : List Nat) (hself : selfId ≠ badNode) (s : Server)
    (h : (sys cfg selfId nodeIds).Reachable (fun s act => s.StartedDown act.2) s) :
    (s.isLeader = true ↔ s.state = .leader) ∧
    ∀ act, (sys cfg selfId nodeIds).enabled s act →
      ((((sys cfg selfId nodeIds).exec s act).isLeader = true ↔ ((sys cfg selfId nodeIds).exec s act).state = .leader) ↔
        s.StartedDown act.2) := by
  have hin := inOffice_reachable hself h
  have hagree : ∀ x : Server, InOffice x → (x.isLeader = true ↔ x.state = .leader) := by
    intro x hx
    rw [isLeader, decide_eq_true_eq]
    exact hx.leader
  refine ⟨hagree s hin, fun act he => ⟨fun hkeep => ?_, fun hdown => hagree _ (inOffice_operate hin he hdown)⟩⟩
  rcases act with ⟨io, ⟨term, votedFor⟩ | k⟩
  · trivial
  cases k with
  | start =>
    intro hs
    obtain ⟨hleads, hstate⟩ := @start_leader s cfg io hin hs
    have hboth : (s.start cfg io).state = .leader := hkeep.1 hleads
    rw [hstate] at hboth
    cases hboth
  | _ => trivial

/-- A server alone in its cluster, once it has elected itself. -/
def aloneActs : List (Io × Op) := [(.at 0, .call .start), (.at 5000, .call .periodic)]

theorem isLeader_iff_leader_alone :
    let s := (sys defaultConfig 1 [1]).run aloneActs (Server.new defaultConfig 1 [1])
    1 ≠ badNode ∧ s.state = .leader ∧ (s.isLeader = true ↔ s.state = .leader) := by
  intro s
  have hreach : (sys defaultConfig 1 [1]).Reachable (fun s act => s.StartedDown act.2) s :=
    Sys.reaches_run aloneActs _ ⟨trivial, Role.noConfusion, trivial, trivial, trivial⟩
  exact ⟨by decide, by decide, (isLeader_iff_leader defaultConfig 1 [1] (by decide) s hreach).1⟩

/-- It is stopped and started again, as leader, and now follows itself. -/
theorem leader_started :
    let s := (sys defaultConfig 1 [1]).run (aloneActs ++ [(.at 6000, .call .stop), (.at 7000, .call .start)])
      (Server.new defaultConfig 1 [1])
    (sys defaultConfig 1 [1]).Reachable Sys.always s ∧ s.isLeader = true ∧ s.state = .follower := by
  intro s
  refine ⟨Sys.reaches_run _ _ ?_, by decide, by decide⟩
  exact ⟨trivial, trivial, trivial, trivial, trivial, trivial, trivial, trivial, trivial⟩

end Server

end Raft
end FloodEws
