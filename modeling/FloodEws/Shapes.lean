import FloodEws.Apply
import FloodEws.CatchUp
import FloodEws.Wire
/-!
# Shapes — what the server of the firmware keeps and sends

`Engine::make_cbs` binds an `m_snapshot_save` that writes nothing and no `m_snapshot_load`.  So the snapshot buffer stays
empty, `send_install_snapshot` always returns early, and no `InstallSnapshot` is ever sent; what is sent has its arrays
filled as its lengths say.  An entry is the no-op of a leader or was handed to `submit`, wherever it is found.  `Plain` is
kept by every call, as long as only such messages are handled.
-/
namespace FloodEws
namespace Raft

/-- A no-op, or what `P` allows to be submitted. -/
def Entry.From (P : EntryType → List Byte → Prop) (e : Entry) : Prop := (e.type = .noop ∧ e.data = []) ∨ P e.type e.data

/-- A well-formed entry that is a no-op or what `P` allows. -/
def Entry.Kept (P : EntryType → List Byte → Prop) (e : Entry) : Prop := e.Sized ∧ e.From P

/-- An RPC whose arrays hold what its lengths say, with such entries, and not one of a snapshot transfer. -/
def Payload.Plain (P : EntryType → List Byte → Prop) : Payload → Prop
  | .installSnapshot _ => False
  | .installSnapshotResp _ => False
  | .appendEntries ae => ae.entries.length = ae.nEntries ∧ ae.nEntries ≤ 8 ∧ ∀ e ∈ ae.entries, e.Kept P
  | _ => True

/-- What the state machine was given, newest first: entries, and snapshots. -/
def Server.fed (s : Server) : List Event := s.calls.filter (fun ev => !ev.idle)

/-- `m_snapshot_save` writes nothing. -/
def Io.Bare (io : Io) : Prop := ∀ k bytes, Server.savedAt io k = some bytes → bytes = []

/-- **The server of the firmware**: every slot of the ring is well formed and filled with what may be there, the snapshot
buffer is empty, what was sent is in shape, and the state machine was given no snapshots. -/
structure Server.Plain (P : EntryType → List Byte → Prop) (s : Server) : Prop where
  slots : ∀ i, (s.log.buf i).Kept P
  empty : s.snapLen = 0
  sent : ∀ m ∈ s.sent, m.payload.Plain P
  fed : ∀ ev ∈ s.fed, ∃ i e, ev = .apply i e ∧ e.From P

variable {P : EntryType → List Byte → Prop}

theorem Entry.kept_default : ({} : Entry).Kept P := ⟨⟨rfl, Nat.zero_le _⟩, .inl ⟨rfl, rfl⟩⟩

theorem Payload.Plain.sized {p : Payload} (h : p.Plain P) : p.Sized := by
  cases p with
  | appendEntries ae => exact ⟨h.1, h.2.1, fun e he => (h.2.2 e he).1⟩
  | installSnapshot is => exact absurd h id
  | _ => trivial

theorem Server.fed_of_calls {s x : Server} {evs : List Event} (h : x.calls = evs ++ s.calls)
    (hno : ∀ e ∈ evs, e.idle = true) : x.fed = s.fed := by
  have hnone : evs.filter (fun ev => !ev.idle) = [] := List.filter_eq_nil_iff.2 fun e he => by rw [hno e he]; decide
  unfold Server.fed
  rw [h, List.filter_append, hnone, List.nil_append]

/-! ## The ring -/

namespace LogRing

variable {cfg : Config} {r r' : LogRing}

/-- What is found is in a slot. -/
theorem at?_eq_buf {k : Nat} {e : Entry} (h : r.at? cfg k = some e) : ∃ i, r.buf i = e := by
  unfold at? at h
  split at h
  · cases h
  · exact ⟨_, Option.some.inj h⟩

theorem kept_push (h : ∀ i, (r.buf i).Kept P) {e : Entry} (he : e.Kept P) (hp : r.push cfg e = .ok r') (i : Nat) :
    (r'.buf i).Kept P := by
  unfold push at hp
  split at hp
  · cases hp
  · injection hp with hp
    subst hp
    show (Function.update r.buf ((r.head + r.count) % cfg.logCapacity) e i).Kept P
    by_cases hi : i = (r.head + r.count) % cfg.logCapacity
    · rw [hi, Function.update_self]
      exact he
    · rw [Function.update_of_ne hi]
      exact h i

theorem kept_pushOrSkip (h : ∀ i, (r.buf i).Kept P) {e : Entry} (he : e.Kept P) (i : Nat) :
    ((r.pushOrSkip cfg e).buf i).Kept P := by
  unfold pushOrSkip
  split
  · rename_i hp
    exact kept_push h he hp i
  · exact h i

theorem buf_truncateSuffix (r : LogRing) (k : Nat) : (r.truncateSuffix k).buf = r.buf := by
  unfold truncateSuffix
  split
  · rfl
  · split <;> rfl

theorem kept_appendEntry (h : ∀ i, (r.buf i).Kept P) (k : Nat) {e : Entry} (he : e.Kept P) (i : Nat) :
    ((r.appendEntry cfg k e).buf i).Kept P := by
  have hindex : ({ e with index := k } : Entry).Kept P := he
  unfold appendEntry
  split
  · exact h i
  split
  · split
    · exact h i
    · exact kept_pushOrSkip (by rw [buf_truncateSuffix]; exact h) hindex i
  · exact kept_pushOrSkip h hindex i

theorem kept_appendAll : ∀ (es : List Entry) (k : Nat) (r : LogRing), (∀ i, (r.buf i).Kept P) → (∀ e ∈ es, e.Kept P) →
    ∀ i, ((r.appendAll cfg k es).buf i).Kept P
  | [], _, _, h, _ => h
  | e :: es, k, _, h, hes =>
    kept_appendAll es (k + 1) _ (kept_appendEntry h k (hes e List.mem_cons_self))
      (fun x hx => hes x (List.mem_cons_of_mem e hx))

end LogRing

namespace Server

theorem kept_gather (cfg : Config) {log : LogRing} (h : ∀ i, (log.buf i).Kept P) : ∀ k idx,
    (gather cfg log k idx).length ≤ k ∧ ∀ e ∈ gather cfg log k idx, e.Kept P
  | 0, _ => ⟨Nat.le_refl 0, by simp [gather]⟩
  | k + 1, idx => by
    unfold gather
    split
    · split
      · exact ⟨Nat.zero_le _, by simp⟩
      · rename_i entry hat
        obtain ⟨hlen, hes⟩ := kept_gather cfg h k (idx + 1)
        refine ⟨Nat.succ_le_succ hlen, fun e he => ?_⟩
        rcases List.mem_cons.1 he with rfl | he
        · obtain ⟨i, hi⟩ := LogRing.at?_eq_buf hat
          exact hi ▸ h i
        · exact hes e he
    · exact ⟨Nat.zero_le _, by simp⟩

namespace Plain

variable {s x : Server}

/-- What is not part of it may change. -/
theorem frame (h : s.Plain P) (hbuf : x.log.buf = s.log.buf) (hlen : x.snapLen = s.snapLen) (hsent : x.sent = s.sent)
    (hfed : x.fed = s.fed) : x.Plain P :=
  ⟨fun i => hbuf ▸ h.slots i, hlen.trans h.empty, hsent ▸ h.sent, hfed ▸ h.fed⟩

theorem emit (h : s.Plain P) {m : Message} (hm : m.payload.Plain P) : (s.emit m).Plain P :=
  ⟨h.slots, h.empty, fun m' hm' => (List.mem_cons.1 hm').elim (fun he => he ▸ hm) (h.sent m'), h.fed⟩

theorem foldl {g : Server → Peer → Server} (hg : ∀ x p, x.Plain P → (g x p).Plain P) :
    ∀ (ps : List Peer) (s : Server), s.Plain P → (ps.foldl g s).Plain P
  | [], _, h => h
  | p :: ps, s, h => foldl hg ps (g s p) (hg s p h)

/-! ## `server_election_impl.inl` -/

theorem setState (h : s.Plain P) (r : Role) : (s.setState r).Plain P := by
  unfold Server.setState
  split
  · exact h
  · exact h.frame rfl rfl rfl rfl

theorem maybeStepDown (h : s.Plain P) (t : Nat) : (s.maybeStepDown t).Plain P := by
  unfold Server.maybeStepDown
  split
  · have hpersist : ({ s with currentTerm := t, votedFor := badNode }.persistState : Server).Plain P := h.frame rfl rfl rfl rfl
    dsimp only
    split
    · exact (hpersist.setState .follower).frame rfl rfl rfl rfl
    · exact hpersist
  · exact h

theorem resetElectionTimer (h : s.Plain P) (cfg : Config) (io : Io) : (s.resetElectionTimer cfg io).Plain P := by
  obtain ⟨d, k, he⟩ := resetElectionTimer_eq cfg io s
  rw [he]
  exact h.frame rfl rfl rfl rfl

theorem becomeFollower (h : s.Plain P) (cfg : Config) (io : Io) (t leader : Nat) :
    (s.becomeFollower cfg io t leader).Plain P := by
  have hterm : (if s.currentTerm < t then
      ({ s with preVoteActive := false, currentTerm := t, votedFor := badNode } : Server).persistState
      else { s with preVoteActive := false }).Plain P := by
    split <;> exact h.frame rfl rfl rfl rfl
  unfold Server.becomeFollower
  refine resetElectionTimer ?_ cfg io
  split
  all_goals exact (hterm.setState .follower).frame rfl rfl rfl rfl

theorem enterLeader (h : s.Plain P) : s.enterLeader.1.Plain P :=
  Plain.setState (s := { s with preVoteActive := false }) (h.frame rfl rfl rfl rfl) .leader

theorem lead (h : s.Plain P) (cfg : Config) (io : Io) (last : Nat) : (s.lead cfg io last).Plain P := by
  unfold Server.lead
  dsimp only
  split
  · rename_i log hpush
    exact ⟨LogRing.kept_push h.slots ⟨⟨rfl, Nat.zero_le _⟩, .inl ⟨rfl, rfl⟩⟩ hpush, h.empty, h.sent, h.fed⟩
  · exact h.frame rfl rfl rfl rfl

theorem beginCampaign (h : s.Plain P) (cfg : Config) (io : Io) : (s.beginCampaign cfg io).Plain P := by
  have hstate : ({ s with preVoteActive := false }.setState .candidate : Server).Plain P :=
    Plain.setState (s := { s with preVoteActive := false }) (h.frame rfl rfl rfl rfl) .candidate
  unfold Server.beginCampaign
  refine resetElectionTimer ?_ cfg io
  dsimp only
  split
  all_goals exact hstate.frame rfl rfl rfl rfl

theorem enterCandidate (h : s.Plain P) (cfg : Config) (io : Io) : (s.enterCandidate cfg io).1.Plain P := by
  have hsent : ((s.beginCampaign cfg io).nodes.foldl
      (fun (s : Server) (p : Peer) => if p.isSelf then s else s.sendRequestVote cfg p) (s.beginCampaign cfg io)).Plain P := by
    refine foldl (fun x p hx => ?_) _ _ (h.beginCampaign cfg io)
    split
    · exact hx
    · exact hx.emit trivial
  unfold Server.enterCandidate
  dsimp only
  split
  · exact hsent.enterLeader
  · exact hsent

theorem handleRequestVote (h : s.Plain P) (cfg : Config) (io : Io) (rv : RequestVote) :
    (s.handleRequestVote cfg io rv).Plain P := by
  have htick : s.tick.Plain P := h.frame rfl rfl rfl rfl
  unfold Server.handleRequestVote
  split
  · rename_i y hy
    unfold requestVoteGuard at hy
    dsimp only at hy
    split at hy
    · obtain rfl := Option.some.inj hy
      exact htick.emit trivial
    split at hy
    · obtain rfl := Option.some.inj hy
      exact htick.emit trivial
    · cases hy
  · have hdown := htick.maybeStepDown rv.term
    dsimp only
    generalize s.tick.maybeStepDown rv.term = x at hdown
    split
    · exact hdown.emit trivial
    split
    · have hvote : ({ x with votedFor := rv.candidateId }.persistState : Server).Plain P := hdown.frame rfl rfl rfl rfl
      exact (hvote.resetElectionTimer cfg io).emit trivial
    · exact hdown.emit trivial

theorem enterRequestVoteResp (h : s.Plain P) (cfg : Config) (io : Io) (sender : Nat) (rr : RequestVoteResp) :
    (s.enterRequestVoteResp cfg io sender rr).1.Plain P := by
  unfold Server.enterRequestVoteResp
  split
  · split
    · exact h
    split
    · dsimp only
      split
      · exact enterCandidate (s := { s with preVotesGranted := _, preVoteActive := false }) (h.frame rfl rfl rfl rfl) cfg io
      · exact h.frame rfl rfl rfl rfl
    · exact h
  split
  · exact h
  split
  · exact h.maybeStepDown rr.term
  split
  · exact h
  split
  · exact h
  split
  · exact h
  split
  · dsimp only
    split
    · refine enterLeader ?_
      exact h.frame rfl rfl rfl rfl
    · exact h.frame rfl rfl rfl rfl
  · exact h

/-! ## `server_replication_impl.inl` -/

/-- There is never anything to ship. -/
theorem sendInstallSnapshot_eq (h : s.Plain P) (cfg : Config) (p : Peer) : s.sendInstallSnapshot cfg p = s := by
  unfold Server.sendInstallSnapshot
  rw [if_pos h.empty, ite_self]

theorem sendAppendEntries (h : s.Plain P) (p : Peer) : (s.sendAppendEntries defaultConfig p).Plain P := by
  have hnone := h.sendInstallSnapshot_eq defaultConfig p
  unfold Server.sendAppendEntries
  split
  · exact h
  dsimp only
  split
  · exact hnone.symm ▸ h
  split
  · exact hnone.symm ▸ h
  · obtain ⟨hlen, hes⟩ := kept_gather defaultConfig h.slots defaultConfig.maxAppendEntries p.nextIndex
    exact h.emit (m := ⟨_, _, .appendEntries _⟩) ⟨rfl, hlen, hes⟩

theorem broadcast (h : s.Plain P) : (s.broadcast defaultConfig).Plain P := by
  refine foldl (fun x p hx => ?_) s.nodes s h
  split
  · exact hx
  · exact hx.sendAppendEntries p

theorem compacted (h : s.Plain P) (cfg : Config) (t : Nat) : (s.compacted cfg t []).Plain P :=
  ⟨h.slots, rfl, h.sent, h.fed⟩

theorem beginSnapshot (h : s.Plain P) (cfg : Config) {io : Io} (hio : io.Bare) : (s.beginSnapshot cfg io).2.Plain P := by
  rcases beginSnapshot_cases cfg io s with ⟨-, k, he⟩ | ⟨-, t, bytes, -, -, hsaved, he⟩
  · rw [he]
    exact h.frame rfl rfl rfl rfl
  · obtain rfl := hio _ _ hsaved
    rw [he]
    exact h.compacted cfg t

theorem applyNext (h : s.Plain P) (cfg : Config) : (s.applyNext cfg).Plain P := by
  unfold Server.applyNext
  dsimp only
  split
  · exact h.frame rfl rfl rfl rfl
  · rename_i entry hat
    refine ⟨h.slots, h.empty, h.sent, fun ev hev => ?_⟩
    rcases List.mem_cons.1 hev with rfl | hev
    · obtain ⟨i, hi⟩ := LogRing.at?_eq_buf hat
      exact ⟨_, _, rfl, hi ▸ (h.slots i).2⟩
    · exact h.fed ev hev

theorem resumeApplying (h : s.Plain P) (cfg : Config) {io : Io} (hio : io.Bare) : (s.resumeApplying cfg io).1.Plain P := by
  unfold Server.resumeApplying
  split
  · split <;> exact h.applyNext cfg
  · unfold maybeCompact
    split
    · exact h
    · exact h.beginSnapshot cfg hio

theorem accepted (h : s.Plain P) (cfg : Config) {ae : AppendEntries} (hae : (Payload.appendEntries ae).Plain P) :
    (s.accepted cfg ae).Plain P := by
  have hview : ∀ e ∈ ae.view, e.Kept P := by
    intro e he
    obtain ⟨i, -, rfl⟩ := List.mem_map.1 he
    rw [List.getD_eq_getElem?_getD]
    cases hi : ae.entries[i]? with
    | none => exact Entry.kept_default
    | some e => exact hae.2.2 e (List.mem_of_getElem? hi)
  obtain ⟨evs, hq, he⟩ := accepted_eq cfg ae s
  rw [he]
  have hfed : ({ s with calls := evs ++ s.calls } : Server).fed = s.fed :=
    fed_of_calls rfl (fun e hmem => Event.idle_of_quiet (hq e hmem))
  refine ⟨LogRing.kept_appendAll _ _ _ h.slots hview, h.empty, fun m hm => ?_, fun e hmem => h.fed e (hfed ▸ hmem)⟩
  have hquiet : ({ s with calls := evs ++ s.calls } : Server).sent = s.sent := sent_eq_of_calls rfl fun e hmem =>
    Event.not_send_of_routine (Event.routine_of_quiet (hq e hmem))
  rcases List.mem_cons.1 hm with rfl | hm
  · trivial
  · exact h.sent m (hquiet ▸ hm)

theorem enterAppendEntries (h : s.Plain P) (cfg : Config) (io : Io) {ae : AppendEntries}
    (hae : (Payload.appendEntries ae).Plain P) : (s.enterAppendEntries cfg io ae).1.Plain P := by
  have hfollow : (s.following cfg io ae).Plain P :=
    ((h.maybeStepDown ae.term).becomeFollower cfg io ae.term ae.leaderId).frame rfl rfl rfl rfl
  unfold Server.enterAppendEntries
  split
  · exact h.emit trivial
  dsimp only
  split
  · exact hfollow.emit trivial
  · exact hfollow.accepted cfg hae

theorem advanceCommit (h : s.Plain P) (cfg : Config) : (s.advanceCommit cfg).Plain P := by
  unfold Server.advanceCommit
  split
  · exact h.frame rfl rfl rfl rfl
  · exact h

theorem enterAppendEntriesResp (h : s.Plain P) (io : Io) (sender : Nat) (rr : AppendEntriesResp) :
    (s.enterAppendEntriesResp defaultConfig io sender rr).1.Plain P := by
  have hnodes : ∀ nodes, ({ s.tick with nodes := nodes } : Server).Plain P := fun nodes => h.frame rfl rfl rfl rfl
  unfold Server.enterAppendEntriesResp
  split
  · exact h.maybeStepDown rr.term
  split
  · exact h
  split
  · exact h
  dsimp only
  split
  · exact (hnodes _).advanceCommit defaultConfig
  · exact (hnodes _).sendAppendEntries _

/-! ## `server_driver_impl.inl` -/

theorem start (h : s.Plain P) (cfg : Config) (io : Io) : (s.start cfg io).Plain P :=
  (Plain.setState (s := { s with running := true }) (h.frame rfl rfl rfl rfl) .follower).resetElectionTimer cfg io

theorem enterPreVote (h : s.Plain P) (cfg : Config) (io : Io) : (s.enterPreVote cfg io).1.Plain P := by
  have hprobing : ({ s with preVoteActive := true, preVotesGranted := 1 } : Server).Plain P := h.frame rfl rfl rfl rfl
  have htimer := hprobing.resetElectionTimer cfg io
  unfold Server.enterPreVote
  dsimp only
  generalize ({ s with preVoteActive := true, preVotesGranted := 1 } : Server).resetElectionTimer cfg io = x at htimer
  have hsent := foldl (g := fun (s : Server) (p : Peer) => if p.isSelf then s else
      s.emit ⟨s.selfId, p.id, .requestVote
        { term := wrap64 (s.currentTerm + 1), candidateId := s.selfId, lastLogIndex := s.log.lastIndex,
          lastLogTerm := s.log.lastTerm cfg, preVote := true }⟩)
    (fun y p hy => by split; exacts [hy, hy.emit trivial]) x.nodes x htimer
  generalize x.nodes.foldl _ x = y at hsent
  split
  · exact enterCandidate (s := { y with preVoteActive := false }) (hsent.frame rfl rfl rfl rfl) cfg io
  · exact hsent

theorem enterPeriodic (h : s.Plain P) (io : Io) : (s.enterPeriodic defaultConfig io).1.Plain P := by
  have htick : s.tick.Plain P := h.frame rfl rfl rfl rfl
  unfold Server.enterPeriodic
  split
  · exact h
  dsimp only
  split
  · split
    · exact htick.becomeFollower defaultConfig io _ _
    split
    · exact Plain.broadcast (s := { s.tick with lastHeartbeatSent := _ }) (h.frame rfl rfl rfl rfl)
    · exact htick
  split
  · exact htick.enterPreVote defaultConfig io
  · exact htick

/-- What follows once the entry is in the log. -/
theorem submitted (h : s.Plain P) :
    (if (s.broadcast defaultConfig).nodes.length = 1 then
      ((s.broadcast defaultConfig).advanceCommit defaultConfig, [Frame.applying, .applying])
      else (s.broadcast defaultConfig, [])).1.Plain P := by
  split
  · exact h.broadcast.advanceCommit defaultConfig
  · exact h.broadcast

theorem enterSubmit (h : s.Plain P) {type : EntryType} {data : List Byte} (hdata : P type data) :
    (s.enterSubmit defaultConfig type data).2.1.Plain P := by
  unfold Server.enterSubmit
  split
  · exact h
  split
  · exact h
  split
  · exact h
  rename_i hlen
  split
  · exact h
  dsimp only
  split
  · exact h
  rename_i log hpush
  have hlen : data.length ≤ 96 := Nat.not_lt.1 hlen
  have hmod : data.length % 2 ^ 16 = data.length := Nat.mod_eq_of_lt (by omega)
  have hentry : ∀ term index, ({ term, index, type, dataLen := data.length % 2 ^ 16, data } : Entry).Kept P :=
    fun _ _ => ⟨⟨hmod.symm, hmod.symm ▸ hlen⟩, .inr hdata⟩
  refine submitted ?_
  exact ⟨LogRing.kept_push h.slots (hentry _ _) hpush, h.empty, h.sent, h.fed⟩

/-! ## Calls -/

/-- A call up to its first callback. -/
theorem enter (h : s.Plain P) {io : Io} (hio : io.Bare) {k : Call} (hk : ∀ m, k.heard = some m → m.payload.Plain P)
    (hdata : ∀ type data, k = .submit type data → P type data) : (s.enter defaultConfig io (.call k)).1.Plain P := by
  cases k with
  | start => exact h.start defaultConfig io
  | stop => exact h.frame rfl rfl rfl rfl
  | periodic => exact h.enterPeriodic io
  | submit type data => exact h.enterSubmit (hdata type data rfl)
  | beginSnapshot => exact h.beginSnapshot defaultConfig hio
  | handle m =>
    have hm := hk m rfl
    obtain ⟨sender, recipient, payload⟩ := m
    cases payload with
    | requestVote rv => exact h.handleRequestVote defaultConfig io rv
    | requestVoteResp rr => exact h.enterRequestVoteResp defaultConfig io sender rr
    | appendEntries ae => exact h.enterAppendEntries defaultConfig io hm
    | appendEntriesResp rr => exact h.enterAppendEntriesResp io sender rr
    | installSnapshot is => exact absurd hm id
    | installSnapshotResp rr => exact absurd hm id

/-- What is left of it. -/
theorem resume (h : s.Plain P) {io : Io} (hio : io.Bare) (f : Frame) : (s.resume defaultConfig io f).1.Plain P := by
  cases f with
  | callback => exact h
  | lead last => exact h.lead defaultConfig io last
  | applying => exact h.resumeApplying defaultConfig hio
  | pipeline sender =>
    unfold Server.resume
    dsimp only
    split
    · exact h
    split
    · exact h.sendAppendEntries _
    · exact h

/-- **Every call keeps the server plain**, if the message it handles is and what it submits is allowed. -/
theorem perform (h : s.Plain P) {io : Io} (hio : io.Bare) {k : Call} (hk : ∀ m, k.heard = some m → m.payload.Plain P)
    (hdata : ∀ type data, k = .submit type data → P type data) : (s.perform defaultConfig io k).Plain P := by
  have hsettles : ∀ {x y : Server} {fs : List Frame}, (segments defaultConfig).Settles io x fs y → x.Plain P → y.Plain P := by
    intro x y fs hs
    induction hs with
    | nil => exact id
    | cons _ ih => exact fun hx => ih (hx.resume hio _)
  exact hsettles (comes_operate defaultConfig io s (.call k)) (h.enter hio hk hdata)

/-- **So does a call whose callbacks submit what is allowed.** -/
theorem answered (h : s.Plain P) {io : Io} (hio : io.Bare) {k : Call} (hk : ∀ m, k.heard = some m → m.payload.Plain P)
    (hdata : ∀ type data, k = .submit type data → P type data) {answers : List Answer}
    (hans : ∀ type data, .submit type data ∈ answers → P type data) :
    (s.answered defaultConfig io k answers).1.Plain P := by
  have hrun : ∀ (answers : List Answer) (x : Server × List Frame), (∀ type data, .submit type data ∈ answers → P type data) →
      x.1.Plain P → (((segments defaultConfig).sys s).run (answers.map (Answer.act io)) x).1.Plain P := by
    intro answers
    induction answers with
    | nil => exact fun x _ hx => hx
    | cons ans answers ih =>
      intro x hans hx
      refine ih _ (fun type data hmem => hans type data (List.mem_cons_of_mem ans hmem)) ?_
      cases ans with
      | go =>
        obtain ⟨x, fs⟩ := x
        cases fs with
        | nil => exact hx
        | cons f rest => exact hx.resume hio f
      | submit type data => exact hx.enterSubmit (hans type data List.mem_cons_self)
  exact hrun answers _ hans (h.enter hio hk hdata)

end Plain

end Server

/-- A server built anew has an empty log, and its record is the old one. -/
theorem Setup.plain_rebuild (S : Setup) (n : Nat) {calls : List Event}
    (h : ∀ m ∈ (S.rebuild n calls).sent, m.payload.Plain P)
    (hfed : ∀ ev ∈ (S.rebuild n calls).fed, ∃ i e, ev = .apply i e ∧ e.From P) : (S.rebuild n calls).Plain P := by
  have hnew : (Server.new S.cfg n S.ids).log = {} ∧ (Server.new S.cfg n S.ids).snapLen = 0 := by
    unfold Server.new
    split <;> exact ⟨rfl, rfl⟩
  have hlog : (S.rebuild n calls).log = {} := hnew.1
  exact ⟨fun i => hlog ▸ Entry.kept_default, hnew.2, h, hfed⟩

end Raft
end FloodEws
