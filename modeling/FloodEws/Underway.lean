import FloodEws.Segments
/-!
# Underway — every public call is a chain of moves

A call is followed segment by segment: at each callback it is a chain of moves so far, or it stands at the callback of
`become_leader`, which is between two halves of one (`Underway`).  So a call is a chain of moves when its callbacks return
at once (`perform_moves`), and also when they submit, unless that of `become_leader` does (`answered_moves`).  Nothing else
in the development follows the branches of the handlers.
-/
namespace FloodEws
namespace Raft

/-- A callback under way submits, or what is left of the call goes on. -/
inductive Answer where
  | go
  | submit (type : EntryType) (data : List Byte)
deriving DecidableEq

def Answer.act (io : Io) : Answer → Interrupted.Act Op Io
  | .go => .go io
  | .submit type data => .reenter io (.call (.submit type data))

/-- It is not the rest of `become_leader`. -/
def Frame.plain : Frame → Bool
  | .lead _ => false
  | _ => true

namespace Server

/-- A call and what its callbacks do, and what is left of it then. -/
def answered (cfg : Config) (io : Io) (k : Call) (answers : List Answer) (s : Server) : Server × List Frame :=
  ((segments cfg).sys s).run (answers.map (Answer.act io)) (s.enter cfg io (.call k))

/-- Each answer is possible when it is given, and they take the call to its end. -/
def Answers (cfg : Config) (io : Io) (k : Call) (answers : List Answer) (s : Server) : Prop :=
  ((segments cfg).sys s).Legal Sys.always (answers.map (Answer.act io)) (s.enter cfg io (.call k)) ∧
    (s.answered cfg io k answers).2 = []

/-- The callback of `become_leader` is given no index. -/
def Unsubmitted (cfg : Config) : Server × List Frame → Interrupted.Act Op Io → Prop
  | (s, .callback :: .lead _ :: _), .reenter _ op => s.given cfg op = none
  | _, _ => True

/-! ## Each segment is a chain of moves -/

/-- What has to hold of the server for what is left of a call: only a leader goes on to append its no-op, or to send. -/
def Steady (s : Server) : Frame → Prop
  | .lead _ => s.state = .leader
  | .pipeline _ => s.state = .leader
  | _ => True

variable {cfg : Config} {io : Io} {fit : Prop} {heard : Option Message} {start s : Server}

/-- **A call under way**: so far it is a chain of moves, or it stands at the callback of `become_leader`, which comes after
such a chain. -/
inductive Underway (cfg : Config) (io : Io) (fit : Prop) (heard : Option Message) (start : Server) :
    Server × List Frame → Prop where
  | steady {s : Server} {fs : List Frame} (h : Moves cfg io fit heard start start.core s.core)
      (hfs : ∀ f ∈ fs, f.plain = true ∧ s.Steady f) : Underway cfg io fit heard start (s, fs)
  | leading {x : Server} {fs rest : List Frame} (h : Moves cfg io fit heard start start.core x.core)
      (hs : x.state = .candidate) (hm : x.majority ≤ x.votesGranted) (hw : Wins heard start x)
      (hrest : ∀ f ∈ rest, f = .applying)
      (hfs : fs = .callback :: .lead x.log.lastIndex :: rest ∨ fs = .lead x.log.lastIndex :: rest) :
      Underway cfg io fit heard start (x.enterLeader.1, fs)

namespace Underway

theorem done {s : Server} (h : Moves cfg io fit heard start start.core s.core) :
    Underway cfg io fit heard start (s, []) := .steady h (by simp)

theorem one {s : Server} {f : Frame} (h : Moves cfg io fit heard start start.core s.core) (hp : f.plain = true)
    (hf : s.Steady f) : Underway cfg io fit heard start (s, [f]) :=
  .steady h (fun _ hg => by obtain rfl := List.mem_singleton.1 hg; exact ⟨hp, hf⟩)

theorem leader (h : Moves cfg io fit heard start start.core s.core) (hs : s.state = .candidate)
    (hm : s.majority ≤ s.votesGranted) (hw : Wins heard start s) : Underway cfg io fit heard start s.enterLeader := by
  have hframes : s.enterLeader.2 = [.callback, .lead s.log.lastIndex] := if_neg (by rw [hs]; decide)
  have he : s.enterLeader = (s.enterLeader.1, [.callback, .lead s.log.lastIndex]) := Prod.ext rfl hframes
  rw [he]
  exact .leading h hs hm hw (by simp) (.inl rfl)

theorem candidate (h : Moves cfg io fit heard start start.core s.core) (hs : s.state ≠ .leader)
    (hf : fit → s.currentTerm + 1 < 2 ^ 64) : Underway cfg io fit heard start (s.enterCandidate cfg io) := by
  have hbegin := h.trans (beginCampaign_moves hs hf)
  obtain ⟨hst, hv⟩ := beginCampaign_spec cfg io s
  have hone := beginCampaign_votes cfg io s
  unfold enterCandidate
  generalize s.beginCampaign cfg io = x at hbegin hst hv hone
  have hfold : Sends x _ ∧ Moves cfg io fit heard start x.core _ := requestVotes_moves hst hv
  obtain ⟨⟨ms, he⟩, hsend⟩ := hfold
  dsimp only
  rw [he] at hsend ⊢
  split
  · rename_i hm
    exact leader (hbegin.trans hsend) hst hm (.inl (Nat.le_trans hm hone))
  · exact done (hbegin.trans hsend)

theorem preVote (h : Moves cfg io fit heard start start.core s.core) (hs : s.state ≠ .leader)
    (hf : fit → s.majority ≤ 1 → s.currentTerm + 1 < 2 ^ 64) :
    Underway cfg io fit heard start (s.enterPreVote cfg io) := by
  obtain ⟨d, k, hx⟩ := resetElectionTimer_eq cfg io { s with preVoteActive := true, preVotesGranted := 1 }
  have hfold : Sends _ _ ∧ Moves cfg io fit heard start _ _ :=
    probes_moves { s with preVoteActive := true, preVotesGranted := 1, electionDeadline := d, reads := k }
  obtain ⟨⟨ms, he⟩, hsend⟩ := hfold
  unfold enterPreVote
  rw [hx]
  dsimp only
  rw [he] at hsend ⊢
  split
  · rename_i hm
    exact candidate (h.trans hsend) hs (fun hfit => hf hfit hm)
  · exact done (h.trans hsend)

theorem requestVoteResp {m : Message} {rr : RequestVoteResp} (hm : m.payload = .requestVoteResp rr)
    (hf : fit → s.electing io (.handle m) = true → s.currentTerm + 1 < 2 ^ 64) :
    Underway cfg io fit (some m) s (s.enterRequestVoteResp cfg io m.sender rr) := by
  unfold enterRequestVoteResp
  split
  · rename_i hpre
    split
    · exact done .refl
    rename_i hact
    have hact : s.preVoteActive = true ∧ s.state ≠ .leader := by simpa [not_or] using hact
    split
    · rename_i hgr
      dsimp only
      split
      · rename_i hmaj
        have hel : s.electing io (.handle m) = true := by
          obtain ⟨src, dst, pl⟩ := m
          simp only at hm
          subst hm
          simp only [electing, Bool.and_eq_true, decide_eq_true_eq]
          exact ⟨⟨⟨⟨⟨hpre, hact.1⟩, hact.2⟩, hgr.1⟩, hgr.2⟩, hmaj⟩
        exact candidate (s := { s with preVotesGranted := s.preVotesGranted + 1, preVoteActive := false }) .refl
          hact.2 (fun h => hf h hel)
      · exact done .refl
    · exact done .refl
  rename_i hpre
  split
  · exact done .refl
  rename_i hst
  have hst : s.state = .candidate := Classical.not_not.1 hst
  split
  · exact done (maybeStepDown_moves _ s)
  split
  · exact done .refl
  split
  · exact done .refl
  rename_i peer hnode
  split
  · exact done .refl
  rename_i hng
  split
  · rename_i hg
    have hterm : rr.term = s.currentTerm := by omega
    have htally : Moves cfg io fit (some m) s s.core _ :=
      tally_moves hm (by simpa using hpre) hg hterm hst hnode (by simpa using hng)
    dsimp only
    split
    · rename_i hmaj
      exact leader (s := { s with
        nodes := modifyNode m.sender (fun p : Peer => { p with voteGranted := true }) s.nodes
        votesGranted := s.votesGranted + 1 }) htally hst hmaj
        (.inr ⟨m, rr, peer, rfl, hm, by simpa using hpre, hg, hterm, hst, hnode, by simpa using hng, hmaj⟩)
    · exact done htally
  · exact done .refl

theorem appendEntries {m : Message} {ae : AppendEntries} (hm : m.payload = .appendEntries ae) :
    Underway cfg io fit (some m) s (s.enterAppendEntries cfg io ae) := by
  unfold enterAppendEntries
  split
  · exact done (replyAppend_moves rfl)
  rename_i hlt
  obtain ⟨hmoves, hterm, hst, hsame⟩ := stepDown_becomeFollower_moves ae.leaderId (Nat.le_of_not_lt hlt)
  unfold following
  dsimp only
  generalize (s.maybeStepDown ae.term).becomeFollower cfg io ae.term ae.leaderId = x at hmoves hterm hst hsame
  split
  · rename_i rr hrr
    exact done (hmoves.trans (replyAppend_moves (prevMismatch_success hrr)))
  · rename_i hnone
    have hacc : Move cfg io fit (some m) s x.core (x.core.accepted cfg ae) :=
      .accept x.core m ae rfl hm hterm.symm hst hnone hsame.core
    have hcore := core_accepted cfg ae { x.tick with lastLeaderContact := io.now x.reads }
    refine one ?_ rfl trivial
    rw [hcore]
    exact hmoves.tail hacc

theorem advanceCommit_moves (hs : s.state = .leader) :
    Moves cfg io fit heard start s.core (s.advanceCommit cfg).core := by
  unfold advanceCommit
  split
  · rename_i next hn
    exact .single (.advance s.core next hs (by rw [findCommit_core]; exact hn))
  · exact .refl

theorem advanceCommit_state (cfg : Config) (s : Server) : (s.advanceCommit cfg).state = s.state := by
  unfold advanceCommit
  split <;> rfl

theorem appendEntriesResp {m : Message} {rr : AppendEntriesResp} (hm : m.payload = .appendEntriesResp rr) :
    Underway cfg io fit (some m) s (s.enterAppendEntriesResp cfg io m.sender rr) := by
  unfold enterAppendEntriesResp
  split
  · exact done (maybeStepDown_moves _ s)
  rename_i hgt
  split
  · exact done .refl
  rename_i hst
  obtain ⟨hst, hlt⟩ : s.state = .leader ∧ ¬ rr.term < s.currentTerm := by simpa [not_or] using hst
  split
  · exact done .refl
  rename_i p hp
  dsimp only
  split
  · rename_i hsucc
    have hrep : Reports s.tick (some m) m.sender rr.lastLogIndex :=
      ⟨m, rfl, rfl, .inl ⟨rr, hm, hsucc, show rr.term = s.currentTerm by omega, rfl⟩⟩
    have hlearn : Moves cfg io fit (some m) s s.core _ := learn_moves (io.now s.reads) p.snapOffset (s := s.tick) hst hp hrep
    refine .steady (hlearn.trans (advanceCommit_moves hst)) (fun f hf => ?_)
    rcases List.mem_cons.1 hf with rfl | hf
    · exact ⟨rfl, trivial⟩
    · obtain rfl := List.mem_singleton.1 hf
      exact ⟨rfl, (advanceCommit_state cfg _).trans hst⟩
  · have hback : Moves cfg io fit (some m) s s.core _ := backup_moves (io.now s.reads) (s := s.tick) hp
      (one_le_backup cfg rr { p with lastContact := io.now s.reads } s.tick)
    refine one (hback.trans (sendAppendEntries_moves ?_ (knows_modifyNode (s := s.tick) hp)).2) rfl trivial
    exact hst

theorem installSnapshot {m : Message} {is : InstallSnapshot} (hm : m.payload = .installSnapshot is) :
    Underway cfg io fit (some m) s (s.enterInstallSnapshot cfg io is) := by
  unfold enterInstallSnapshot
  split
  · exact done (replySnapshot_moves is)
  rename_i hlt
  have hfol : Moves cfg io fit (some m) s s.core _ ∧ _ ∧ _ ∧ _ :=
    stepDown_becomeFollower_moves is.leaderId (Nat.le_of_not_lt hlt)
  dsimp only
  generalize (s.maybeStepDown is.term).becomeFollower cfg io is.term is.leaderId = x at hfol
  obtain ⟨hmoves, hterm, hst, hsame⟩ := hfol
  split
  · rename_i hd
    have hchunk : Move cfg io fit (some m) s x.core _ :=
      .chunk x.core m is rfl hm hterm.symm hst (by simpa using hd) hsame.core
    rw [← core_storeChunk] at hchunk
    exact done ((hmoves.tail hchunk).trans (replySnapshot_moves is))
  · rename_i hd
    have hinst : Move cfg io fit (some m) s x.core _ :=
      .install x.core m is rfl hm hterm.symm hst (by simpa using hd) hsame.core
    rw [← core_installed] at hinst
    have hcompact : Move cfg io fit (some m) s (x.installed cfg io is).core
        ((x.installed cfg io is).after [.persistLogCompact (x.installed cfg io is).log.base]).core :=
      .quiet _ [.persistLogCompact (x.installed cfg io is).log.base] (by simp [Event.quiet])
    exact one (((hmoves.tail hinst).tail hcompact).trans (replySnapshot_moves is)) rfl trivial

theorem installSnapshotResp {m : Message} {rr : InstallSnapshotResp} (hm : m.payload = .installSnapshotResp rr) :
    Underway cfg io fit (some m) s (s.enterInstallSnapshotResp cfg io m.sender rr) := by
  unfold enterInstallSnapshotResp
  split
  · exact done (maybeStepDown_moves _ s)
  rename_i hgt
  split
  · exact done .refl
  rename_i hst
  have hst : s.state = .leader := Classical.not_not.1 hst
  split
  · exact done .refl
  rename_i p hp
  dsimp only
  split
  · have hcur : _ = s.core := core_cursor (io.now s.reads)
      (min (add32 p.snapOffset cfg.snapshotChunk) s.snapLen) (s := s.tick) hp
    refine done ?_
    rw [← hcur]
    refine (sendInstallSnapshot_moves ?_ (knows_modifyNode (s := s.tick) hp)).2
    exact hst
  · have hrep : Reports s.tick (some m) m.sender rr.lastIncludedIndex :=
      ⟨m, rfl, rfl, .inr ⟨rr, hm, Nat.le_of_not_lt hgt, rfl⟩⟩
    have hlearn : Moves cfg io fit (some m) s s.core _ := learn_moves (io.now s.reads) 0 (s := s.tick) hst hp hrep
    refine one (hlearn.trans (sendAppendEntries_moves ?_ (knows_modifyNode (s := s.tick) hp)).2) rfl trivial
    exact hst

/-- What follows the call does not change this. -/
theorem append {r : Server × List Frame} (h : Underway cfg io fit heard start r) {gs : List Frame}
    (hgs : ∀ f ∈ gs, f = .applying) : Underway cfg io fit heard start (r.1, r.2 ++ gs) := by
  cases h with
  | steady h hfs =>
    refine .steady h (fun f hf => ?_)
    rcases List.mem_append.1 hf with hf | hf
    · exact hfs f hf
    · obtain rfl := hgs f hf
      exact ⟨rfl, trivial⟩
  | @leading x fs rest h hs hm hw hrest hfs =>
    have hrest' : ∀ f ∈ rest ++ gs, f = .applying := fun f hf => (List.mem_append.1 hf).elim (hrest f) (hgs f)
    refine .leading h hs hm hw hrest' ?_
    · rcases hfs with rfl | rfl
      · exact .inl rfl
      · exact .inr rfl

theorem periodic (hf : fit → s.electing io .periodic = true → s.currentTerm + 1 < 2 ^ 64) :
    Underway cfg io fit none s (s.enterPeriodic cfg io) := by
  unfold enterPeriodic
  split
  · exact done .refl
  rename_i hrun
  have hrun : s.running = true := by simpa using hrun
  dsimp only
  split
  · rename_i hst
    split
    · exact done (becomeFollower_moves (s := s.tick) (Nat.le_refl _))
    split
    · exact one (broadcast_moves (s := { s.tick with lastHeartbeatSent := io.now s.reads }) hst).2 rfl trivial
    · exact one (s := s.tick) .refl rfl trivial
  · rename_i hst
    split
    · rename_i hdl
      have hprobe : Underway cfg io fit none s (s.tick.enterPreVote cfg io) := by
        refine preVote .refl hst (fun h hm => hf h ?_)
        simp only [electing, Bool.and_eq_true, decide_eq_true_eq]
        exact ⟨⟨⟨hrun, hst⟩, hdl⟩, hm⟩
      exact hprobe.append (fun f hmem => List.mem_singleton.1 hmem)
    · exact one (s := s.tick) .refl rfl trivial

/-- The entry goes to the peers; a cluster of one commits it. -/
theorem broadcast_commit_moves (hs : s.state = .leader) {r : Server × List Frame}
    (hr : r = if (s.broadcast cfg).nodes.length = 1 then ((s.broadcast cfg).advanceCommit cfg, [.applying, .applying])
      else (s.broadcast cfg, [])) :
    Moves cfg io fit heard start s.core r.1.core ∧ r.1.state = .leader ∧ ∀ f ∈ r.2, f = .applying := by
  have hbroadcast : Sends s (s.broadcast cfg) ∧ Moves cfg io fit heard start s.core (s.broadcast cfg).core :=
    broadcast_moves hs
  obtain ⟨⟨evs, he⟩, hmoves⟩ := hbroadcast
  have hst : (s.broadcast cfg).state = .leader := by rw [he]; exact hs
  subst hr
  split
  · exact ⟨hmoves.trans (advanceCommit_moves hst), (advanceCommit_state cfg _).trans hst, by simp⟩
  · exact ⟨hmoves, hst, by simp⟩

/-- **A submit** is refused, or appends an entry to the log of a leader. -/
theorem enterSubmit_moves (type : EntryType) (data : List Byte) (s : Server) :
    Moves cfg io fit heard start s.core (s.enterSubmit cfg type data).2.1.core ∧
      (s.enterSubmit cfg type data).2.1.state = s.state ∧ ∀ f ∈ (s.enterSubmit cfg type data).2.2, f = .applying := by
  unfold enterSubmit
  split
  · exact ⟨.refl, rfl, by simp⟩
  split
  · exact ⟨.refl, rfl, by simp⟩
  rename_i hst
  have hst : s.state = .leader := Classical.not_not.1 hst
  split
  · exact ⟨.refl, rfl, by simp⟩
  split
  · exact ⟨.refl, rfl, by simp⟩
  dsimp only
  split
  · exact ⟨.refl, rfl, by simp⟩
  rename_i log hp
  have hrest : Moves cfg io fit heard start _ _ ∧ _ ∧ _ := broadcast_commit_moves (s := { s with
    log := log
    calls := .persistLogAppend { term := s.currentTerm, index := s.log.lastIndex + 1, type := type,
                                 dataLen := data.length % 2 ^ 16, data := data } :: s.calls
    nodes := modifyNode s.selfId (fun p : Peer => { p with matchIndex := s.log.lastIndex + 1 }) s.nodes }) hst rfl
  obtain ⟨hmoves, hleads, hframes⟩ := hrest
  exact ⟨.head (appended_move type data hst hp) hmoves, hleads.trans hst.symm, hframes⟩

theorem enter {k : Call} (hf : fit → s.electing io k = true → s.currentTerm + 1 < 2 ^ 64) :
    Underway cfg io fit k.heard s (s.enter cfg io (.call k)) := by
  cases k with
  | start => exact done (start_moves s)
  | stop => exact done (s := s.stop) .refl
  | periodic => exact periodic hf
  | submit type data =>
    obtain ⟨hmoves, -, hframes⟩ : Moves cfg io fit none s s.core _ ∧ _ ∧ _ := enterSubmit_moves type data s
    refine .steady hmoves (fun f hmem => ?_)
    obtain rfl := hframes f hmem
    exact ⟨rfl, trivial⟩
  | beginSnapshot => exact done (beginSnapshot_moves s)
  | handle m =>
    show Underway cfg io fit (some m) s (s.enterHandle cfg io m)
    unfold enterHandle
    split
    · rename_i rv h
      exact done (handleRequestVote_moves h)
    · rename_i rr h
      exact requestVoteResp h hf
    · rename_i ae h
      exact appendEntries h
    · rename_i rr h
      exact appendEntriesResp h
    · rename_i is h
      exact installSnapshot h
    · rename_i rr h
      exact installSnapshotResp h

end Underway

/-! ### What is left of a call -/

theorem Steady.of_state {x y : Server} {f : Frame} (h : x.Steady f) (hs : y.state = x.state) : y.Steady f := by
  cases f with
  | lead last => exact hs.trans h
  | pipeline sender => exact hs.trans h
  | _ => trivial

theorem maybeCompact_state (cfg : Config) (io : Io) (s : Server) : (s.maybeCompact cfg io).state = s.state := by
  unfold maybeCompact
  split
  · rfl
  · rcases beginSnapshot_cases cfg io s with ⟨-, k, he⟩ | ⟨-, t, bytes, -, -, -, he⟩
    · rw [he]
    · rw [he]
      rfl

/-- The rest of a call other than that of `become_leader` is a chain of moves too. -/
theorem resume_moves {f : Frame} (hp : f.plain = true) (hf : s.Steady f) :
    Moves cfg io fit heard start s.core (s.resume cfg io f).1.core ∧ (s.resume cfg io f).1.state = s.state ∧
      ∀ g ∈ (s.resume cfg io f).2, g.plain = true ∧ s.Steady g := by
  cases f with
  | lead last => cases hp
  | callback => exact ⟨.refl, rfl, by simp [resume]⟩
  | applying =>
    show Moves cfg io fit heard start s.core (s.resumeApplying cfg io).1.core ∧ (s.resumeApplying cfg io).1.state = s.state ∧
      ∀ g ∈ (s.resumeApplying cfg io).2, g.plain = true ∧ s.Steady g
    have hstate : (s.applyNext cfg).state = s.state := by rw [applyNext_eq]
    unfold resumeApplying
    split
    · rename_i hlt
      have hmv : Move cfg io fit heard start s.core (s.applyNext cfg).core := by
        rw [core_applyNext]
        exact .apply s.core hlt
      split
      · exact ⟨.single hmv, hstate, by simp [Frame.plain, Steady]⟩
      · exact ⟨.single hmv, hstate, by simp [Frame.plain, Steady]⟩
    · exact ⟨maybeCompact_moves s, maybeCompact_state cfg io s, by simp⟩
  | pipeline sender =>
    unfold resume
    dsimp only
    split
    · exact ⟨.refl, rfl, by simp⟩
    rename_i peer hpeer
    split
    · have hknows : s.Knows peer := ⟨peer, List.mem_of_find?_eq_some hpeer, rfl, rfl⟩
      have hsend : Sends s _ ∧ Moves cfg io fit heard start s.core (s.sendAppendEntries cfg peer).core :=
        sendAppendEntries_moves hf hknows
      obtain ⟨⟨ms, he⟩, hmoves⟩ := hsend
      exact ⟨hmoves, by rw [he]; rfl, by simp⟩
    · exact ⟨.refl, rfl, by simp⟩

namespace Underway

/-- **What is left goes on.** -/
theorem go {x : Server} {f : Frame} {rest : List Frame} (h : Underway cfg io fit heard start (x, f :: rest)) :
    Underway cfg io fit heard start ((x.resume cfg io f).1, (x.resume cfg io f).2 ++ rest) := by
  generalize hr : (x, f :: rest) = r at h
  cases h with
  | steady h hfs =>
    obtain ⟨rfl, rfl⟩ := Prod.mk.inj hr
    obtain ⟨hp, hf⟩ := hfs f List.mem_cons_self
    obtain ⟨hmoves, hstate, hframes⟩ : Moves cfg io fit heard start x.core (x.resume cfg io f).1.core ∧ _ ∧ _ :=
      resume_moves hp hf
    refine .steady (h.trans hmoves) (fun g hg => ?_)
    rcases List.mem_append.1 hg with hg | hg
    · exact ⟨(hframes g hg).1, (hframes g hg).2.of_state hstate⟩
    · exact ⟨(hfs g (List.mem_cons_of_mem f hg)).1, (hfs g (List.mem_cons_of_mem f hg)).2.of_state hstate⟩
  | @leading y fs under h hs hm hw hunder hfs =>
    obtain ⟨rfl, rfl⟩ := Prod.mk.inj hr
    rcases hfs with hfs | hfs
    · obtain ⟨rfl, rfl⟩ := List.cons.inj hfs
      exact .leading h hs hm hw hunder (.inr rfl)
    · obtain ⟨rfl, rfl⟩ := List.cons.inj hfs
      have hlead : (y.enterLeader.1.resume cfg io (.lead y.log.lastIndex)).1 = y.becomeLeader cfg io := rfl
      rw [hlead]
      refine .steady (h.trans (becomeLeader_moves hs hm hw)) (fun g hg => ?_)
      obtain rfl := hunder g hg
      exact ⟨rfl, trivial⟩

/-- A submit that is given no index leaves everything as it is. -/
theorem enterSubmit_refused {cfg : Config} {x : Server} {type : EntryType} {data : List Byte}
    (h : x.given cfg (.call (.submit type data)) = none) : (x.enterSubmit cfg type data).2 = (x, []) := by
  have h : (x.enterSubmit cfg type data).1.toOption = none := h
  unfold enterSubmit at h
  unfold enterSubmit
  split
  · rfl
  split
  · rfl
  split
  · rfl
  split
  · rfl
  rename_i hrun hst hlen hfull
  rw [if_neg hrun, if_neg hst, if_neg hlen, if_neg hfull] at h
  dsimp only at h ⊢
  split at h
  · rfl
  · cases h

/-- **A callback submits**: in `become_leader` to no avail. -/
theorem reenter {x : Server} {rest : List Frame} {type : EntryType} {data : List Byte}
    (h : Underway cfg io fit heard start (x, .callback :: rest))
    (hunled : Unsubmitted cfg (x, .callback :: rest) (.reenter io (.call (.submit type data)))) :
    Underway cfg io fit heard start
      ((x.enterSubmit cfg type data).2.1, (x.enterSubmit cfg type data).2.2 ++ .callback :: rest) := by
  generalize hr : (x, .callback :: rest) = r at h
  cases h with
  | steady h hfs =>
    obtain ⟨rfl, rfl⟩ := Prod.mk.inj hr
    obtain ⟨hmoves, hstate, hframes⟩ : Moves cfg io fit heard start x.core _ ∧ _ ∧ _ := enterSubmit_moves type data x
    refine .steady (h.trans hmoves) (fun g hg => ?_)
    rcases List.mem_append.1 hg with hg | hg
    · obtain rfl := hframes g hg
      exact ⟨rfl, trivial⟩
    · exact ⟨(hfs g hg).1, (hfs g hg).2.of_state hstate⟩
  | @leading y fs under h hs hm hw hunder hfs =>
    obtain ⟨rfl, rfl⟩ := Prod.mk.inj hr
    rcases hfs with hfs | hfs
    · obtain ⟨-, rfl⟩ := List.cons.inj hfs
      rw [enterSubmit_refused hunled]
      exact .leading h hs hm hw hunder (.inl rfl)
    · cases hfs

theorem run : ∀ (answers : List Answer) {x : Server × List Frame}, Underway cfg io fit heard start x →
    ((segments cfg).sys start).Legal (Unsubmitted cfg) (answers.map (Answer.act io)) x →
    Underway cfg io fit heard start (((segments cfg).sys start).run (answers.map (Answer.act io)) x)
  | [], _, h, _ => h
  | .go :: answers, (x, []), _, hlegal => absurd rfl hlegal.1
  | .go :: answers, (x, f :: rest), h, hlegal => run answers h.go hlegal.2.2
  | .submit type data :: answers, (x, fs), h, hlegal => by
    obtain ⟨⟨-, f, rest, hfs, hwaits⟩, hunled, hlegal⟩ := hlegal
    obtain rfl : f = .callback := hwaits
    obtain rfl : fs = .callback :: rest := hfs
    exact run answers (h.reenter hunled) hlegal

end Underway

/-- At the end of the call. -/
theorem Underway.ended {x : Server} (h : Underway cfg io fit heard start (x, [])) :
    Moves cfg io fit heard start start.core x.core := by
  generalize hr : (x, []) = r at h
  cases h with
  | steady h hfs =>
    obtain ⟨rfl, -⟩ := Prod.mk.inj hr
    exact h
  | leading h hs hm hw hrest hfs =>
    obtain ⟨-, rfl⟩ := Prod.mk.inj hr
    rcases hfs with hfs | hfs <;> cases hfs

/-- **A call whose callbacks submit is a chain of moves**, if that of `become_leader` appends nothing. -/
theorem answered_moves {k : Call} {answers : List Answer}
    (hf : fit → s.electing io k = true → s.currentTerm + 1 < 2 ^ 64)
    (hunled : ((segments cfg).sys s).Legal (Unsubmitted cfg) (answers.map (Answer.act io)) (s.enter cfg io (.call k)))
    (hdone : (s.answered cfg io k answers).2 = []) :
    Moves cfg io fit k.heard s s.core (s.answered cfg io k answers).1.core := by
  have hrun : Underway cfg io fit k.heard s (s.answered cfg io k answers) := (Underway.enter hf).run answers hunled
  rw [← Prod.eta (s.answered cfg io k answers), hdone] at hrun
  exact hrun.ended

/-- **When every callback returns at once**, the call is a chain of moves. -/
theorem Underway.settled {r : Server × List Frame} {y : Server} (h : Underway cfg io fit heard start r)
    (hsettles : (segments cfg).Settles io r.1 r.2 y) : Moves cfg io fit heard start start.core y.core := by
  obtain ⟨x, fs⟩ := r
  dsimp only at hsettles
  induction hsettles with
  | nil x => exact h.ended
  | cons _ ih => exact ih h.go

/-- **A call is a chain of moves.** -/
theorem perform_moves (cfg : Config) (io : Io) (fit : Prop) (s : Server) (k : Call)
    (hf : fit → s.electing io k = true → s.currentTerm + 1 < 2 ^ 64) :
    Moves cfg io fit k.heard s s.core (s.perform cfg io k).core :=
  (Underway.enter hf).settled (comes_operate cfg io s (.call k))

end Server

end Raft
end FloodEws
