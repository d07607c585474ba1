import FloodEws.Order
import FloodEws.Roles
/-!
# Callbacks — entries know their position

`become_leader` reads the last index before its callback and numbers its no-op by it.  So the entries of a server whose
callbacks submit know their position as long as that callback appends nothing (`entries_know_their_position`).
-/
namespace FloodEws
namespace Raft

namespace Server

/-! ## What a segment does to the log -/

/-- **What a segment can do**: keep the log, or make it longer; leave the role of leader; or append the entry of a submit,
which is given the next index. -/
inductive Segment (cfg : Config) (s s' : Server) (given : Option Nat) : Prop where
  | keep (hg : given = none) (htidy : s'.log.Tidy cfg) (hl : s.log.lastIndex ≤ s'.log.lastIndex)
  | leave (htidy : s'.log.Tidy cfg) (hs : s'.state ≠ .leader)
  | take (hg : given = some (s.log.lastIndex + 1)) (htidy : s'.log.Tidy cfg)
      (hl : s'.log.lastIndex = s.log.lastIndex + 1)

variable {cfg : Config} {io : Io} {s s' : Server}

theorem Segment.of_log (h : s.log.Tidy cfg) (hl : s'.log = s.log) : Segment cfg s s' none :=
  .keep rfl (hl ▸ h) (Nat.le_of_eq (congrArg LogRing.lastIndex hl.symm))

theorem no_event : ∀ e : Event, e.stepping = true → (fun _ : Event => false) e = false := fun _ _ => rfl

theorem log_maybeStepDown (t : Nat) (s : Server) : (s.maybeStepDown t).log = s.log :=
  (maybeStepDown_spares no_event t s).log

theorem log_setState (r : Role) (s : Server) : (s.setState r).log = s.log := (setState_spares no_event r s).log

theorem log_resetElectionTimer (cfg : Config) (io : Io) (s : Server) : (s.resetElectionTimer cfg io).log = s.log := by
  obtain ⟨d, k, he⟩ := resetElectionTimer_eq cfg io s
  rw [he]

theorem log_beginCampaign (cfg : Config) (io : Io) (s : Server) : (s.beginCampaign cfg io).log = s.log := by
  have hset := log_setState .candidate { s with preVoteActive := false }
  unfold beginCampaign
  dsimp only
  rw [log_resetElectionTimer]
  split <;> exact hset

theorem log_advanceCommit (cfg : Config) (s : Server) : (s.advanceCommit cfg).log = s.log := by
  unfold advanceCommit
  split <;> rfl

theorem log_enterLeader (s : Server) : s.enterLeader.1.log = s.log := log_setState .leader { s with preVoteActive := false }

theorem log_enterCandidate (cfg : Config) (io : Io) (s : Server) : (s.enterCandidate cfg io).1.log = s.log := by
  have hsent := (sends_requestVotes cfg (s.beginCampaign cfg io)).log.trans (log_beginCampaign cfg io s)
  unfold enterCandidate
  dsimp only
  split
  · exact (log_enterLeader _).trans hsent
  · exact hsent

theorem log_enterPreVote (cfg : Config) (io : Io) (s : Server) : (s.enterPreVote cfg io).1.log = s.log := by
  have hreset := log_resetElectionTimer cfg io { s with preVoteActive := true, preVotesGranted := 1 }
  have hsent := (sends_probes cfg
    (({ s with preVoteActive := true, preVotesGranted := 1 } : Server).resetElectionTimer cfg io)).log.trans hreset
  unfold enterPreVote
  dsimp only
  split
  · exact (log_enterCandidate cfg io _).trans hsent
  · exact hsent

theorem log_handleRequestVote (cfg : Config) (io : Io) (rv : RequestVote) (s : Server) :
    (s.handleRequestVote cfg io rv).log = s.log := by
  unfold handleRequestVote
  split
  · rename_i s' hguard
    exact (sends_requestVoteGuard hguard).log
  · have hdown := log_maybeStepDown rv.term s.tick
    dsimp only
    generalize s.tick.maybeStepDown rv.term = x at hdown
    split
    · exact hdown
    split
    · exact (log_resetElectionTimer cfg io ({ x with votedFor := rv.candidateId }.persistState)).trans hdown
    · exact hdown

theorem log_enterRequestVoteResp (cfg : Config) (io : Io) (sender : Nat) (rr : RequestVoteResp) (s : Server) :
    (s.enterRequestVoteResp cfg io sender rr).1.log = s.log := by
  unfold enterRequestVoteResp
  split
  · split
    · rfl
    split
    · dsimp only
      split
      · exact log_enterCandidate cfg io _
      · rfl
    · rfl
  split
  · rfl
  split
  · exact log_maybeStepDown rr.term s
  split
  · rfl
  split
  · rfl
  split
  · rfl
  split
  · dsimp only
    split
    · exact log_enterLeader _
    · rfl
  · rfl

theorem log_enterAppendEntriesResp (cfg : Config) (io : Io) (sender : Nat) (rr : AppendEntriesResp) (s : Server) :
    (s.enterAppendEntriesResp cfg io sender rr).1.log = s.log := by
  unfold enterAppendEntriesResp
  split
  · exact log_maybeStepDown rr.term s
  split
  · rfl
  split
  · rfl
  dsimp only
  split
  · exact log_advanceCommit cfg _
  · exact (sends_sendAppendEntries cfg _ _).log

theorem log_enterInstallSnapshotResp (cfg : Config) (io : Io) (sender : Nat) (rr : InstallSnapshotResp) (s : Server) :
    (s.enterInstallSnapshotResp cfg io sender rr).1.log = s.log := by
  unfold enterInstallSnapshotResp
  split
  · exact log_maybeStepDown rr.term s
  split
  · rfl
  split
  · rfl
  dsimp only
  split
  · exact (sends_sendInstallSnapshot cfg _ _).log
  · exact (sends_sendAppendEntries cfg _ _).log

theorem log_enterPeriodic (cfg : Config) (io : Io) (s : Server) : (s.enterPeriodic cfg io).1.log = s.log := by
  unfold enterPeriodic
  split
  · rfl
  dsimp only
  split
  · split
    · exact (becomeFollower_spares no_event cfg io s.tick.currentTerm badNode s.tick).log
    split
    · exact (sends_broadcast cfg { s.tick with lastHeartbeatSent := io.now s.reads }).log
    · rfl
  · split
    · exact log_enterPreVote cfg io s.tick
    · rfl

/-! ### The segments that change the log -/

theorem segment_beginSnapshot (io : Io) (h : s.log.Tidy cfg) : Segment cfg s (s.beginSnapshot cfg io).2 none := by
  rcases beginSnapshot_cases cfg io s with ⟨-, k, he⟩ | ⟨-, t, bytes, hb, ht, -, he⟩
  · rw [he]
    exact .of_log h rfl
  · rw [he]
    have hlast : s.lastApplied ≤ s.log.lastIndex := by
      by_contra hgt
      rw [LogRing.termAt_eq_none (by omega) (.inr (Nat.lt_of_not_le hgt))] at ht
      cases ht
    obtain ⟨htidy, hl⟩ := h.compactTo t (Nat.le_of_lt hb) hlast
    exact .keep rfl htidy (Nat.le_of_eq hl.symm)

theorem segment_maybeCompact (io : Io) (h : s.log.Tidy cfg) : Segment cfg s (s.maybeCompact cfg io) none := by
  unfold maybeCompact
  split
  · exact .of_log h rfl
  · exact segment_beginSnapshot io h

theorem segment_submit (type : EntryType) (data : List Byte) (h : s.log.Tidy cfg) :
    Segment cfg s (s.enterSubmit cfg type data).2.1 (s.enterSubmit cfg type data).1.toOption := by
  unfold enterSubmit
  split
  · exact .of_log h rfl
  split
  · exact .of_log h rfl
  split
  · exact .of_log h rfl
  split
  · exact .of_log h rfl
  dsimp only
  split
  · exact .of_log h rfl
  · rename_i log hp
    obtain ⟨htidy, hl, -⟩ := h.push rfl hp
    have hsent : ∀ x : Server, x.log = log → Segment cfg s x (some (s.log.lastIndex + 1)) := by
      intro x hx
      exact .take rfl (hx ▸ htidy) (hx ▸ hl)
    split
    · exact hsent _ ((log_advanceCommit cfg _).trans (sends_broadcast cfg _).log)
    · exact hsent _ (sends_broadcast cfg _).log

theorem follower_becomeFollower (cfg : Config) (io : Io) (t leader : Nat) (s : Server) :
    (s.becomeFollower cfg io t leader).state ≠ .leader := by
  have hset : ∀ x : Server, ((x.setState .follower).state ≠ .leader) := by
    intro x
    rw [state_setState]
    decide
  unfold becomeFollower
  dsimp only
  split
  all_goals
    obtain ⟨d, k, hx⟩ := resetElectionTimer_eq cfg io _
    rw [hx]
    exact hset _

theorem segment_appendEntries (io : Io) (ae : AppendEntries) (h : s.log.Tidy cfg) :
    Segment cfg s (s.enterAppendEntries cfg io ae).1 none := by
  unfold enterAppendEntries
  split
  · exact .of_log h rfl
  have hlog : (s.following cfg io ae).log = s.log := (following_spares no_event cfg io ae s).log
  have hstate : (s.following cfg io ae).state ≠ .leader := follower_becomeFollower cfg io ae.term ae.leaderId _
  dsimp only
  generalize s.following cfg io ae = x at hlog hstate
  split
  · exact .leave (hlog ▸ h) hstate
  · rename_i hp
    obtain ⟨evs, -, he⟩ := accepted_eq cfg ae x
    have htidy : (x.log.appendAll cfg (ae.prevLogIndex + 1) ae.view).Tidy cfg :=
      LogRing.Tidy.appendAll (hlog ▸ h) ae.view (Nat.succ_le_succ (prev_le_lastIndex hp))
    rw [he]
    exact .leave htidy hstate

/-- A finished snapshot that the log is said to cover is not from below the edge. -/
def Above (cfg : Config) (s : Server) : Op → Prop
  | .call (.handle ⟨_, _, .installSnapshot is⟩) => s.currentTerm ≤ is.term → is.done = true → s.log.Covers cfg is →
      s.log.base ≤ is.lastIncludedIndex
  | _ => True

theorem segment_installSnapshot (io : Io) {is : InstallSnapshot} (h : s.log.Tidy cfg)
    (hb : s.currentTerm ≤ is.term → is.done = true → s.log.Covers cfg is → s.log.base ≤ is.lastIncludedIndex) :
    Segment cfg s (s.enterInstallSnapshot cfg io is).1 none := by
  unfold enterInstallSnapshot
  split
  · exact .of_log h rfl
  rename_i ht
  have hlog : ((s.maybeStepDown is.term).becomeFollower cfg io is.term is.leaderId).log = s.log :=
    (follow_spares no_event cfg io is.term is.leaderId s).log
  have hstate := follower_becomeFollower cfg io is.term is.leaderId (s.maybeStepDown is.term)
  dsimp only
  generalize (s.maybeStepDown is.term).becomeFollower cfg io is.term is.leaderId = x at hlog hstate
  split
  · have hchunk := (storeChunk_spares (p := fun _ => false) cfg is x).log.trans hlog
    have hrole : (x.storeChunk cfg is).state = x.state := congrArg Office.state (office_storeChunk cfg is x)
    exact .leave (show (x.storeChunk cfg is).log.Tidy cfg from hchunk ▸ h) (fun hs => hstate (hrole.symm.trans hs))
  · rename_i hd
    have hinst := installed_eq cfg io is x
    have hxlog : (x.installed cfg io is).core.log = installLog cfg is x.log := by rw [hinst]
    have hxstate : (x.installed cfg io is).core.state = x.core.state := by rw [hinst]
    have htidy : (x.installed cfg io is).core.log.Tidy cfg := by
      rw [hxlog, hlog]
      exact h.installLog (hb (Nat.not_lt.1 ht) (by simpa using hd))
    exact .leave htidy (fun hs => hstate (hxstate.symm.trans hs))

/-- **Every call is a segment.** -/
theorem segment_enter (io : Io) {op : Op} (h : s.log.Tidy cfg) (hb : s.Above cfg op) :
    Segment cfg s (s.enter cfg io op).1 (s.given cfg op) := by
  cases op with
  | restoreState term votedFor => exact .of_log h rfl
  | call k =>
    cases k with
    | start => exact .of_log h ((log_resetElectionTimer cfg io _).trans (log_setState .follower { s with running := true }))
    | stop => exact .of_log h rfl
    | periodic => exact .of_log h (log_enterPeriodic cfg io s)
    | submit type data => exact segment_submit type data h
    | beginSnapshot => exact segment_beginSnapshot io h
    | handle msg =>
      obtain ⟨sender, recipient, payload⟩ := msg
      cases payload with
      | requestVote rv => exact .of_log h (log_handleRequestVote cfg io rv s)
      | requestVoteResp rr => exact .of_log h (log_enterRequestVoteResp cfg io sender rr s)
      | appendEntries ae => exact segment_appendEntries io ae h
      | appendEntriesResp rr => exact .of_log h (log_enterAppendEntriesResp cfg io sender rr s)
      | installSnapshot is => exact segment_installSnapshot io h hb
      | installSnapshotResp rr => exact .of_log h (log_enterInstallSnapshotResp cfg io sender rr s)

/-! ## The frames -/

theorem log_lead (cfg : Config) (io : Io) (last : Nat) (s : Server) :
    (s.lead cfg io last).log =
      s.log.pushOrSkip cfg { term := s.currentTerm, index := last + 1, type := .noop, dataLen := 0 } := by
  unfold lead LogRing.pushOrSkip
  dsimp only
  generalize LogRing.push cfg s.log _ = pushed
  cases pushed <;> rfl

/-- The no-op of `become_leader` has the next index, or there is no room for it. -/
def NextIndex (cfg : Config) (s : Server) : Frame → Prop
  | .lead last => last = s.log.lastIndex ∨ s.log.full cfg = true
  | _ => True

theorem segment_lead (io : Io) {last : Nat} (h : s.log.Tidy cfg) (hn : s.NextIndex cfg (.lead last)) :
    Segment cfg s (s.lead cfg io last) none := by
  have hlog := log_lead cfg io last s
  rw [LogRing.pushOrSkip] at hlog
  cases hp : s.log.push cfg { term := s.currentTerm, index := last + 1, type := .noop, dataLen := 0 } with
  | error err =>
    rw [hp] at hlog
    exact .of_log h hlog
  | ok log =>
    rw [hp] at hlog
    have hroom : ¬ s.log.full cfg = true := by
      intro hfull
      rw [LogRing.push, if_pos hfull] at hp
      cases hp
    obtain ⟨htidy, hl, -⟩ := h.push (congrArg (· + 1) (hn.resolve_right hroom)) hp
    exact .keep rfl (hlog ▸ htidy) (by rw [hlog, hl]; exact Nat.le_succ _)

/-- **Every frame is a segment**, if the no-op has the next index. -/
theorem segment_resume (io : Io) {f : Frame} (h : s.log.Tidy cfg) (hn : s.NextIndex cfg f) :
    Segment cfg s (s.resume cfg io f).1 none := by
  cases f with
  | callback => exact .of_log h rfl
  | lead last => exact segment_lead io h hn
  | applying =>
    have hnext : (s.applyNext cfg).log = s.log := by rw [applyNext_eq]
    show Segment cfg s (s.resumeApplying cfg io).1 none
    unfold resumeApplying
    split
    · split <;> exact .of_log h hnext
    · exact segment_maybeCompact io h
  | pipeline sender =>
    unfold resume
    dsimp only
    split
    · exact .of_log h rfl
    split
    · exact .of_log h (sends_sendAppendEntries cfg _ s).log
    · exact .of_log h rfl

/-- A no-op that has not the next index is in the log under another. -/
theorem lead_misplaces (io : Io) {last : Nat} (h : s.log.Tidy cfg) (hn : ¬ s.NextIndex cfg (.lead last)) :
    ∃ e, (s.lead cfg io last).log.at? cfg (s.log.lastIndex + 1) = some e ∧ e.index ≠ s.log.lastIndex + 1 := by
  obtain ⟨hne, hroom⟩ := not_or.1 hn
  obtain ⟨ℓ, hlive, -⟩ := h
  have hp : s.log.push cfg { term := s.currentTerm, index := last + 1, type := .noop, dataLen := 0 } = .ok _ := if_neg hroom
  have hlog := log_lead cfg io last s
  rw [LogRing.pushOrSkip, hp] at hlog
  refine ⟨{ term := s.currentTerm, index := last + 1, type := .noop, dataLen := 0 }, ?_,
    fun he => hne (Nat.succ.inj he)⟩
  rw [hlog]
  exact hlive.at?_pushed hp

end Server

/-! ## One leadership -/

/-- A server, and the indices its successful submits were given since it became leader, the latest first. -/
structure Tenure where
  server : Server
  assigned : List Nat := []

/-- The record ends with the leadership. -/
def Tenure.moved (t : Tenure) (given : Option Nat) (s : Server) : Tenure :=
  ⟨s, if s.state = .leader then given.toList ++ t.assigned else []⟩

/-- The segments of the server, with the record. -/
def tenures (cfg : Config) : Interrupted Tenure Frame Op Io where
  enter io t op := (t.moved (t.server.given cfg op) (t.server.enter cfg io op).1, (t.server.enter cfg io op).2)
  resume io t f := (t.moved none (t.server.resume cfg io f).1, (t.server.resume cfg io f).2)
  waits f := f = .callback
  again op := ∃ type data, op = .call (.submit type data)

/-- The record changes nothing. -/
theorem tenures_segments {cfg : Config} {s : Server} {ok : Tenure × List Frame → Interrupted.Act Op Io → Prop}
    {x : Tenure × List Frame} (h : ((tenures cfg).sys ⟨s, []⟩).Reachable ok x) :
    ((Server.segments cfg).sys s).Reachable Sys.always (x.1.server, x.2) := by
  refine Sys.Reachable.invariant (P := fun x : Tenure × List Frame =>
    ((Server.segments cfg).sys s).Reachable Sys.always (x.1.server, x.2)) h .refl ?_
  rintro ⟨t, fs⟩ act hx he -
  refine .tail hx ⟨act, ?_, trivial, ?_⟩
  · cases act <;> exact he
  · cases act with
    | call io op => rfl
    | reenter io op => rfl
    | go io => cases fs <;> rfl

/-- Entries carry their index; what was given was given once, and is in the log or compacted. -/
structure Tenure.Sound (cfg : Config) (t : Tenure) : Prop where
  tidy : t.server.log.Tidy cfg
  once : t.assigned.Nodup
  reached : ∀ i ∈ t.assigned, i ≤ t.server.log.lastIndex

theorem Tenure.Sound.moved {cfg : Config} {t : Tenure} {given : Option Nat} {s : Server} (h : t.Sound cfg)
    (hseg : Server.Segment cfg t.server s given) : (t.moved given s).Sound cfg := by
  unfold Tenure.moved
  by_cases hs : s.state = .leader
  · rw [if_pos hs]
    cases hseg with
    | keep hg htidy hl =>
      subst hg
      exact ⟨htidy, h.once, fun i hi => Nat.le_trans (h.reached i hi) hl⟩
    | leave htidy hleft => exact absurd hs hleft
    | take hg htidy hl =>
      subst hg
      refine ⟨htidy, List.nodup_cons.2 ⟨fun hmem => ?_, h.once⟩, fun i hi => ?_⟩
      · exact absurd (h.reached _ hmem) (Nat.not_succ_le_self _)
      · show i ≤ s.log.lastIndex
        rw [hl]
        rcases List.mem_cons.1 hi with rfl | hi
        · exact Nat.le_refl _
        · exact Nat.le_succ_of_le (h.reached i hi)
  · rw [if_neg hs]
    have htidy : s.log.Tidy cfg := by
      cases hseg with
      | keep _ htidy _ => exact htidy
      | leave htidy _ => exact htidy
      | take _ htidy _ => exact htidy
    exact ⟨htidy, List.nodup_nil, fun i hi => nomatch hi⟩

/-- No snapshot from below the edge is taken to be in the log, and nothing was appended when the no-op is. -/
def Undisturbed (cfg : Config) : Tenure × List Frame → Interrupted.Act Op Io → Prop
  | (t, _), .call _ op => t.server.Above cfg op
  | (_, _), .reenter _ _ => True
  | (_, []), .go _ => True
  | (t, f :: _), .go _ => t.server.NextIndex cfg f

theorem sound_reachable {cfg : Config} {selfId : Nat} {nodeIds : List Nat} {x : Tenure × List Frame}
    (h : ((tenures cfg).sys ⟨Server.new cfg selfId nodeIds, []⟩).Reachable (Undisturbed cfg) x) : x.1.Sound cfg := by
  refine Interrupted.reachable_invariant (P := Tenure.Sound cfg) (tenures cfg) h ?_ ?_ ?_ ?_
  · refine ⟨?_, List.nodup_nil, fun i hi => nomatch hi⟩
    have hlog : (Server.new cfg selfId nodeIds).log = {} := by
      unfold Server.new
      split <;> rfl
    show (Server.new cfg selfId nodeIds).log.Tidy cfg
    rw [hlog]
    exact LogRing.tidy_empty cfg
  · exact fun io op t fs ht hok => ht.moved (Server.segment_enter io ht.tidy hok)
  · rintro io op t fs ht ⟨type, data, rfl⟩ -
    exact ht.moved (Server.segment_enter io ht.tidy trivial)
  · exact fun io f t rest ht hok => ht.moved (Server.segment_resume io ht.tidy hok)

/-- **Entries know their position**, in every state of a run whose callbacks submit as they like, states inside a call
included, as long as `become_leader` finds the last index it read before its callback, or a full log, and no snapshot from
below the edge is taken to be in the log; and no index is given twice in one leadership.  A `become_leader` that finds
another last index, and room, misplaces its no-op. -/
theorem entries_know_their_position (cfg : Config) (selfId : Nat) (nodeIds : List Nat) (x : Tenure × List Frame)
    (h : ((tenures cfg).sys ⟨Server.new cfg selfId nodeIds, []⟩).Reachable (Undisturbed cfg) x) :
    (∀ i e, x.1.server.log.at? cfg i = some e → e.index = i) ∧ x.1.assigned.Nodup ∧
    ∀ io last, (∀ i e, (x.1.server.resume cfg io (.lead last)).1.log.at? cfg i = some e → e.index = i) ↔
      x.1.server.NextIndex cfg (.lead last) := by
  have hsound := sound_reachable h
  refine ⟨fun i e => hsound.tidy.index, hsound.once, fun io last => ⟨fun hall => ?_, fun hn => ?_⟩⟩
  · by_contra hn
    obtain ⟨e, he, hne⟩ := Server.lead_misplaces io hsound.tidy hn
    exact hne (hall _ e he)
  · have htidy := (hsound.moved (Server.segment_resume io hsound.tidy hn)).tidy
    exact fun i e => htidy.index

/-- A finished snapshot up to `index`, in one chunk. -/
def wholeSnapshot (index term : Nat) : InstallSnapshot :=
  { term := 1, leaderId := 2, lastIncludedIndex := index, lastIncludedTerm := term, offset := 0, totalLen := 1,
    dataLen := 1, done := true, data := [0] }

-- a snapshot from below the edge: index 0 is always in the log, and the ring goes on to show entries nobody appended
example :
    let s := Server.new defaultConfig 1 [1, 2, 3]
    let s := (s.enterInstallSnapshot defaultConfig (.at 0) (wholeSnapshot 70 1)).1
    let s := (s.enterInstallSnapshot defaultConfig (.at 0) (wholeSnapshot 0 0)).1
    s.log.at? defaultConfig 1 = some {} := by decide

/-- Node 1 of three starts, probes, campaigns and has its majority; it is in the callback of `become_leader`. -/
def electionActs : List (Interrupted.Act Op Io) :=
  [.call (.at 0) (.call .start), .call (.at 5000) (.call .periodic), .go (.at 5000),
   .call (.at 5000) (.call (.handle ⟨2, 1, .requestVoteResp ⟨0, true, true⟩⟩)),
   .call (.at 5000) (.call (.handle ⟨2, 1, .requestVoteResp ⟨1, true, false⟩⟩))]

/-- The callback returns, the no-op is appended and acknowledged, and the callback that applies it submits. -/
def applyActs : List (Interrupted.Act Op Io) :=
  [.go (.at 5000), .go (.at 5000), .call (.at 6000) (.call (.handle ⟨2, 1, .appendEntriesResp
    { term := 1, success := true, lastLogIndex := 1 }⟩)), .go (.at 6000),
   .reenter (.at 6000) (.call (.submit .egressMsg [1]))]

theorem entries_know_their_position_applying :
    let x := ((tenures defaultConfig).sys ⟨Server.new defaultConfig 1 [1, 2, 3], []⟩).run (electionActs ++ applyActs)
      (⟨Server.new defaultConfig 1 [1, 2, 3], []⟩, [])
    x.2 = [.callback, .applying, .pipeline 2] ∧ x.1.assigned = [2] ∧
      (∀ i e, x.1.server.log.at? defaultConfig i = some e → e.index = i) ∧ x.1.assigned.Nodup := by
  intro x
  have hreach : ((tenures defaultConfig).sys ⟨Server.new defaultConfig 1 [1, 2, 3], []⟩).Reachable
      (Undisturbed defaultConfig) x := by
    refine Sys.reaches_run (electionActs ++ applyActs) _ ?_
    exact ⟨rfl, trivial, rfl, trivial, List.cons_ne_nil _ _, trivial, rfl, trivial, rfl, trivial,
      List.cons_ne_nil _ _, trivial, List.cons_ne_nil _ _, .inl rfl, rfl, trivial, List.cons_ne_nil _ _, trivial,
      ⟨⟨_, _, rfl⟩, _, _, rfl, rfl⟩, trivial, trivial⟩
  have hpos := entries_know_their_position defaultConfig 1 [1, 2, 3] x hreach
  exact ⟨by decide, by decide, hpos.1, hpos.2.1⟩

/-- The callback of `become_leader` submits: the entry gets index 1, and so does the no-op after it. -/
theorem noop_misplaced :
    let x := ((tenures defaultConfig).sys ⟨Server.new defaultConfig 1 [1, 2, 3], []⟩).run
      (electionActs ++ [.reenter (.at 5000) (.call (.submit .egressMsg [1])), .go (.at 5000), .go (.at 5000)])
      (⟨Server.new defaultConfig 1 [1, 2, 3], []⟩, [])
    ((tenures defaultConfig).sys ⟨Server.new defaultConfig 1 [1, 2, 3], []⟩).Reachable Sys.always x ∧ x.2 = [] ∧
      x.1.server.log.at? defaultConfig 2 = some { term := 1, index := 1, type := .noop, dataLen := 0 } := by
  intro x
  refine ⟨Sys.reaches_run _ _ ?_, by decide, by decide⟩
  exact ⟨rfl, trivial, rfl, trivial, List.cons_ne_nil _ _, trivial, rfl, trivial, rfl, trivial,
    ⟨⟨_, _, rfl⟩, _, _, rfl, rfl⟩, trivial, List.cons_ne_nil _ _, trivial, List.cons_ne_nil _ _, trivial, trivial⟩

end Raft
end FloodEws
