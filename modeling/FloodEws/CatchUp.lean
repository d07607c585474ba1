import FloodEws.Office
import FloodEws.Repair
import FloodEws.Spares
/-!
# CatchUp — a leader repairs a follower's log

An exchange is one `AppendEntries`, its handling and the handling of the response.  The exchanges are refused for a while,
each with a smaller `next_index`; from the first one that is accepted on, the follower's log is the beginning of the
leader's up to `next_index`, and the rest follows in slices (`catch_up`).
-/
namespace FloodEws
namespace Raft

/-! ## An exchange -/

/-- What a server has sent last since it was `before`. -/
def Server.newest (before after : Server) : Option Message :=
  if before.sent.length < after.sent.length then after.sent.head? else none

structure Pair where
  leader : Server
  follower : Server

namespace Pair

/-- The leader's `next_index` for the follower. -/
def next (p : Pair) : Nat := ((p.leader.nodeById p.follower.selfId).map Peer.nextIndex).getD 0

/-- **One exchange without loss**: the request, its handling, the handling of the response, which is returned too. -/
def exchange (cfg : Config) (io : Io × Io) (p : Pair) : Option AppendEntriesResp × Pair :=
  match p.leader.nodeById p.follower.selfId with
  | none => (none, p)
  | some peer =>
    let leader := p.leader.sendAppendEntries cfg peer
    match Server.newest p.leader leader with
    | none => (none, { p with leader := leader })
    | some request =>
      let follower := p.follower.handle cfg io.1 request
      match Server.newest p.follower follower with
      | none => (none, ⟨leader, follower⟩)
      | some reply =>
        (match reply.payload with
          | .appendEntriesResp rr => some rr
          | _ => none,
        ⟨leader.handle cfg io.2 reply, follower⟩)

/-- The pair after `k` exchanges. -/
def after (cfg : Config) (ios : Nat → Io × Io) (p : Pair) : Nat → Pair
  | 0 => p
  | k + 1 => ((p.after cfg ios k).exchange cfg (ios k)).2

/-- The response of the exchange after `k` others. -/
def response (cfg : Config) (ios : Nat → Io × Io) (p : Pair) (k : Nat) : Option AppendEntriesResp :=
  ((p.after cfg ios k).exchange cfg (ios k)).1

end Pair

namespace Server

variable {cfg : Config} {io : Io} {s : Server}

theorem sent_emit (m : Message) (s : Server) : (s.emit m).sent = m :: s.sent := rfl

theorem newest_emit {x : Server} {m : Message} (h : x.sent = m :: s.sent) : newest s x = some m := by
  unfold newest
  rw [h, if_pos (by simp)]
  rfl

theorem sent_eq_of_calls {x : Server} {evs : List Event} (h : x.calls = evs ++ s.calls) (hno : ∀ e ∈ evs, e.isSend = false) :
    x.sent = s.sent := by
  unfold sent
  rw [h, List.filterMap_append]
  refine (congrArg (· ++ _) (List.filterMap_eq_nil_iff.2 fun e he => ?_)).trans (List.nil_append _)
  have := hno e he
  cases e <;> first | rfl | cases this

theorem Spares.sent {x : Server} (h : Spares Event.isSend s x) : x.sent = s.sent := by
  obtain ⟨evs, hevs, hno⟩ := h.calls
  exact sent_eq_of_calls hevs hno

/-- What applying leaves: the log, if the base does not move, and all that was sent. -/
theorem applyCommitted_still (cfg : Config) (io : Io) (s : Server) :
    (s.applyCommitted cfg io).sent = s.sent ∧
      ((s.applyCommitted cfg io).log.base = s.log.base → (s.applyCommitted cfg io).log = s.log) := by
  obtain ⟨-, evs, hevs, hno, hlog⟩ := s.applyCommitted_cases cfg io
  refine ⟨sent_eq_of_calls hevs fun e he => (hno e he).2, fun hbase => ?_⟩
  rcases hlog with hlog | ⟨k, t, bytes, -, hlt, -, hlog, -⟩
  · exact hlog
  · rw [hlog] at hbase
    have : k = s.log.base := hbase
    omega

theorem applyCommitted_self (cfg : Config) (io : Io) (s : Server) :
    (s.applyCommitted cfg io).selfId = s.selfId ∧ (s.applyCommitted cfg io).currentTerm = s.currentTerm := by
  have hloop : ∀ (k : Nat) (x : Server), (applyLoop cfg k x).selfId = x.selfId ∧ (applyLoop cfg k x).currentTerm = x.currentTerm := by
    intro k
    induction k with
    | zero => exact fun x => ⟨rfl, rfl⟩
    | succ k ih =>
      intro x
      have hnext : (x.applyNext cfg).selfId = x.selfId ∧ (x.applyNext cfg).currentTerm = x.currentTerm := by
        rw [applyNext_eq]
        exact ⟨rfl, rfl⟩
      exact ⟨(ih _).1.trans hnext.1, (ih _).2.trans hnext.2⟩
  have hx := hloop (s.commitIndex - s.lastApplied) s
  unfold applyCommitted
  generalize applyLoop cfg (s.commitIndex - s.lastApplied) s = x at hx
  rcases maybeCompact_cases cfg io x with ⟨-, reads, he⟩ | ⟨-, t, bytes, -, -, -, he⟩
  all_goals
    rw [he]
    exact hx

/-! ## The request -/

/-- The request for a follower at `next`, from a leader with the log `L`. -/
def request (cfg : Config) (s : Server) (L : List Entry) (next : Nat) : AppendEntries where
  term := s.currentTerm
  leaderId := s.selfId
  prevLogIndex := next - 1
  prevLogTerm := termOf L (next - 1)
  leaderCommit := s.commitIndex
  nEntries := ((L.drop (next - 1)).take cfg.maxAppendEntries).length
  entries := (L.drop (next - 1)).take cfg.maxAppendEntries

theorem request_prevLogIndex (cfg : Config) (s : Server) (L : List Entry) (next : Nat) :
    (s.request cfg L next).prevLogIndex = next - 1 := rfl

theorem request_prevLogTerm (cfg : Config) (s : Server) (L : List Entry) (next : Nat) :
    (s.request cfg L next).prevLogTerm = termOf L (next - 1) := rfl

theorem sendAppendEntries_eq {L : List Entry} (hL : s.log.Holds cfg L) (hb : s.log.base = 0) {peer : Peer}
    (hself : peer.isSelf = false) (hpos : 1 ≤ peer.nextIndex) (hle : peer.nextIndex ≤ L.length + 1) :
    s.sendAppendEntries cfg peer = s.emit ⟨s.selfId, peer.id, .appendEntries (s.request cfg L peer.nextIndex)⟩ := by
  have hterm : s.log.termAt cfg (peer.nextIndex - 1) = some (termOf L (peer.nextIndex - 1)) :=
    hL.termAt_eq (by omega) (by omega)
  have hentries := hL.gather_eq cfg.maxAppendEntries peer.nextIndex (by omega)
  unfold sendAppendEntries
  rw [hself, if_neg Bool.false_ne_true]
  dsimp only
  rw [if_neg (by omega), hterm]
  dsimp only
  rw [hentries]
  rfl

/-! ## Its handling -/

theorem following_spec (cfg : Config) (io : Io) {ae : AppendEntries} (ht : s.currentTerm ≤ ae.term) :
    (s.following cfg io ae).currentTerm = ae.term ∧ Spares Event.isSend s (s.following cfg io ae) := by
  obtain ⟨hterm, -⟩ := maybeStepDown_spec ae.term s
  rw [Nat.max_eq_right ht] at hterm
  obtain ⟨hterm', -, -⟩ := becomeFollower_spec cfg io ae.leaderId (Nat.le_of_eq hterm.symm)
  exact ⟨hterm'.trans hterm, following_spares @Event.not_send_of_stepping cfg io ae s⟩

/-- **A refused request** changes nothing but the term and who is followed. -/
theorem handleAppendEntries_refused {ae : AppendEntries} {resp : AppendEntriesResp} (ht : s.currentTerm ≤ ae.term)
    (h : (s.following cfg io ae).prevMismatch cfg ae = some resp) :
    newest s (s.handleAppendEntries cfg io ae) = some ⟨s.selfId, ae.leaderId, .appendEntriesResp resp⟩ ∧
      (s.handleAppendEntries cfg io ae).log = s.log ∧ (s.handleAppendEntries cfg io ae).selfId = s.selfId ∧
      (s.handleAppendEntries cfg io ae).currentTerm = ae.term := by
  obtain ⟨hterm, hspares⟩ := following_spec cfg io ht
  rw [handleAppendEntries_eq cfg io ht, h]
  refine ⟨newest_emit ?_, hspares.log, hspares.self, hterm⟩
  rw [← hspares.sent, ← hspares.self]
  rfl

/-- **An accepted one** appends, as long as nothing is compacted. -/
theorem handleAppendEntries_accepted {ae : AppendEntries} (ht : s.currentTerm ≤ ae.term)
    (h : (s.following cfg io ae).prevMismatch cfg ae = none) :
    newest s (s.handleAppendEntries cfg io ae) = some ⟨s.selfId, ae.leaderId, .appendEntriesResp
        { term := ae.term, success := true,
          lastLogIndex := (s.log.appendAll cfg (ae.prevLogIndex + 1) ae.view).lastIndex }⟩ ∧
      (s.handleAppendEntries cfg io ae).selfId = s.selfId ∧ (s.handleAppendEntries cfg io ae).currentTerm = ae.term ∧
      ((s.handleAppendEntries cfg io ae).log.base = s.log.base →
        (s.handleAppendEntries cfg io ae).log = s.log.appendAll cfg (ae.prevLogIndex + 1) ae.view) := by
  obtain ⟨hterm, hspares⟩ := following_spec cfg io ht
  rw [handleAppendEntries_eq cfg io ht, h]
  dsimp only
  obtain ⟨evs, hquiet, hacc⟩ := accepted_eq cfg ae (s.following cfg io ae)
  have hbase : ((s.following cfg io ae).accepted cfg ae).log.base = s.log.base := by
    rw [accepted_base, hspares.log]
  obtain ⟨hsent, hlog⟩ := applyCommitted_still cfg io ((s.following cfg io ae).accepted cfg ae)
  obtain ⟨hself', hterm'⟩ := applyCommitted_self cfg io ((s.following cfg io ae).accepted cfg ae)
  have hreply : (((s.following cfg io ae).accepted cfg ae).applyCommitted cfg io).sent =
      ⟨s.selfId, ae.leaderId, .appendEntriesResp
        { term := ae.term, success := true,
          lastLogIndex := (s.log.appendAll cfg (ae.prevLogIndex + 1) ae.view).lastIndex }⟩ :: s.sent := by
    have hquiet' : ∀ e ∈ evs, e.isSend = false :=
      fun e he => Event.not_send_of_routine (Event.routine_of_quiet (hquiet e he))
    rw [hsent, hacc, ← hspares.sent, ← hterm, ← hspares.self, ← hspares.log]
    exact congrArg (_ :: ·) (sent_eq_of_calls (x := { s with calls := evs ++ (s.following cfg io ae).calls }) rfl hquiet')
  refine ⟨newest_emit hreply, ?_, ?_, fun hb => ?_⟩
  · rw [hself', hacc]
    exact hspares.self
  · rw [hterm', hacc]
    exact hterm
  · rw [hlog (hb.trans hbase.symm), hacc, hspares.log]

/-! ## The leader -/

/-- A leader of `term` with the log `r` that has `next` for the peer `b`. -/
structure Leads (r : LogRing) (term b next : Nat) (s : Server) : Prop where
  state : s.state = .leader
  term_eq : s.currentTerm = term
  log : s.log = r
  peer : ∃ peer, s.nodeById b = some peer ∧ peer.id = b ∧ peer.isSelf = false ∧ peer.nextIndex = next

variable {r : LogRing} {L : List Entry} {term b next : Nat}

theorem Leads.emit (h : Leads r term b next s) (m : Message) : Leads r term b next (s.emit m) := ⟨h.state, h.term_eq, h.log, h.peer⟩

theorem Leads.applyCommitted (h : Leads r term b next s) (hb : (s.applyCommitted cfg io).log.base = r.base) :
    Leads r term b next (s.applyCommitted cfg io) := by
  obtain ⟨hnodes, hstate⟩ := applyCommitted_frame cfg io s
  obtain ⟨-, hlog⟩ := applyCommitted_still cfg io s
  rw [h.log] at hlog
  refine ⟨hstate.trans h.state, (applyCommitted_self cfg io s).2.trans h.term_eq, hlog hb, ?_⟩
  unfold nodeById
  rw [hnodes]
  exact h.peer

theorem Leads.leaderAdvanceCommit (h : Leads r term b next s) (hb : (s.leaderAdvanceCommit cfg io).log.base = r.base) :
    Leads r term b next (s.leaderAdvanceCommit cfg io) := by
  unfold Server.leaderAdvanceCommit at hb ⊢
  split at hb
  · exact Leads.applyCommitted ⟨h.state, h.term_eq, h.log, h.peer⟩ hb
  · exact h.applyCommitted hb

theorem Leads.sendAppendEntries (h : Leads r term b next s) (hL : r.Holds cfg L) (hr : r.base = 0) {peer : Peer}
    (hself : peer.isSelf = false) (hpos : 1 ≤ peer.nextIndex) (hle : peer.nextIndex ≤ L.length + 1) :
    Leads r term b next (s.sendAppendEntries cfg peer) := by
  rw [sendAppendEntries_eq (h.log ▸ hL) (h.log ▸ hr) hself hpos hle]
  exact h.emit _

/-- The leader with the sender's entry rewritten. -/
theorem Leads.rewrite (h : Leads r term b next s) {q : Peer} (hid : q.id = b) (hself : q.isSelf = false) :
    Leads r term b q.nextIndex { s.tick with nodes := modifyNode b (fun _ => q) s.tick.nodes } := by
  obtain ⟨peer, hpeer, -⟩ := h.peer
  exact ⟨h.state, h.term_eq, h.log, q, nodeById_modifyNode hid hpeer, hid, hself, rfl⟩

/-- **A success** moves `next_index` past what the follower has. -/
theorem Leads.success (h : Leads r term b next s) (hL : r.Holds cfg L) (hr : r.base = 0) {rr : AppendEntriesResp}
    (hterm : rr.term = term) (hs : rr.success = true)
    (hb : (s.handleAppendEntriesResp cfg io b rr).log.base = 0) :
    Leads r term b (max (rr.lastLogIndex + 1) next) (s.handleAppendEntriesResp cfg io b rr) := by
  obtain ⟨peer, hpeer, hid, hself, hnext⟩ := h.peer
  have hnew := h.rewrite (q := { peer with
    lastContact := io.now s.reads
    nextIndex := max (rr.lastLogIndex + 1) peer.nextIndex
    matchIndex := max rr.lastLogIndex peer.matchIndex }) hid hself
  dsimp only at hnew
  rw [hnext] at hnew
  unfold handleAppendEntriesResp at hb ⊢
  rw [h.term_eq, hterm, if_neg (Nat.lt_irrefl _), if_neg (by simp [h.state]), hpeer] at hb ⊢
  dsimp only at hb ⊢
  rw [if_pos hs, hnext] at hb ⊢
  split at hb
  · rename_i hmore
    rw [if_pos hmore]
    rw [(sends_sendAppendEntries cfg _ _).log] at hb
    have hadv := hnew.leaderAdvanceCommit (hb.trans hr.symm)
    rw [hadv.log, hL.lastIndex] at hmore
    exact hadv.sendAppendEntries hL hr hself (show 1 ≤ max _ _ by omega) (Nat.le_succ_of_le hmore)
  · rename_i hmore
    rw [if_neg hmore]
    exact hnew.leaderAdvanceCommit (hb.trans hr.symm)

/-- **A refusal** moves it to where the response says. -/
theorem Leads.failure (h : Leads r term b next s) (hL : r.Holds cfg L) (hr : r.base = 0) {rr : AppendEntriesResp}
    (hterm : rr.term = term) (hs : rr.success = false) {next' : Nat} (hpos : 1 ≤ next') (hle : next' ≤ L.length)
    (hretry : ∀ peer : Peer, s.tick.backup cfg rr peer = next')
    (hb : (s.handleAppendEntriesResp cfg io b rr).log.base = 0) :
    Leads r term b next' (s.handleAppendEntriesResp cfg io b rr) := by
  obtain ⟨peer, hpeer, hid, hself, hnext⟩ := h.peer
  have hnew := h.rewrite (q := { peer with lastContact := io.now s.reads, nextIndex := next' }) hid hself
  dsimp only at hnew
  unfold handleAppendEntriesResp at hb ⊢
  rw [h.term_eq, hterm, if_neg (Nat.lt_irrefl _), if_neg (by simp [h.state]), hpeer] at hb ⊢
  dsimp only at hb ⊢
  rw [hs, if_neg Bool.false_ne_true, hretry] at hb ⊢
  have hsend := hnew.sendAppendEntries hL hr
    (show ({ peer with lastContact := io.now s.reads, nextIndex := next' } : Peer).isSelf = false from hself) hpos
    (Nat.le_succ_of_le hle)
  exact hsend.applyCommitted (hb.trans hr.symm)

/-! ## Without a snapshot callback -/

/-- Without a snapshot callback nothing is compacted. -/
theorem applyCommitted_log_of_none (hio : io.snapshotSave = none) (s : Server) : (s.applyCommitted cfg io).log = s.log := by
  obtain ⟨hlog, -⟩ := applyLoop_spec cfg (s.commitIndex - s.lastApplied) s
  unfold applyCommitted
  generalize applyLoop cfg (s.commitIndex - s.lastApplied) s = x at hlog
  rcases maybeCompact_cases cfg io x with ⟨-, k, he⟩ | ⟨-, t, bytes, -, -, hsaved, -⟩
  · rw [he]
    exact hlog
  · rw [savedAt, hio] at hsaved
    cases hsaved

theorem handleAppendEntriesResp_log_of_none (hio : io.snapshotSave = none) (sender : Nat) (rr : AppendEntriesResp) (s : Server) :
    (s.handleAppendEntriesResp cfg io sender rr).log = s.log := by
  unfold handleAppendEntriesResp
  split
  · exact (maybeStepDown_spares @Event.not_send_of_stepping rr.term s).log
  split
  · rfl
  split
  · rfl
  dsimp only
  split
  · have hadv : ∀ x : Server, (x.leaderAdvanceCommit cfg io).log = x.log := by
      intro x
      unfold leaderAdvanceCommit
      split <;> exact applyCommitted_log_of_none hio _
    split
    · rw [(sends_sendAppendEntries cfg _ _).log, hadv]
      rfl
    · exact hadv _
  · rw [applyCommitted_log_of_none hio, (sends_sendAppendEntries cfg _ _).log]
    rfl

/-- Whatever a request of its leader's is answered with, it is answered, and without a snapshot callback the edge stays. -/
theorem handleAppendEntries_answers (cfg : Config) {ae : AppendEntries} (hio : io.snapshotSave = none) (ht : s.currentTerm ≤ ae.term) :
    (∃ rr a, newest s (s.handleAppendEntries cfg io ae) = some ⟨s.selfId, a, .appendEntriesResp rr⟩) ∧
      (s.handleAppendEntries cfg io ae).log.base = s.log.base := by
  obtain ⟨-, hspares⟩ := following_spec cfg io ht
  cases hmis : (s.following cfg io ae).prevMismatch cfg ae with
  | some rr =>
    obtain ⟨hreply, hlog, -⟩ := handleAppendEntries_refused ht hmis
    exact ⟨⟨rr, _, hreply⟩, by rw [hlog]⟩
  | none =>
    obtain ⟨hreply, -⟩ := handleAppendEntries_accepted ht hmis
    refine ⟨⟨_, _, hreply⟩, ?_⟩
    rw [handleAppendEntries_eq cfg io ht, hmis]
    dsimp only
    rw [applyCommitted_log_of_none hio, accepted_base, hspares.log]

end Server

/-! ## The two sides -/

namespace Pair

/-- The leader has the log `r` and `next` for the follower, whose log is `F`. -/
structure At (cfg : Config) (r : LogRing) (term : Nat) (F : List Entry) (next : Nat) (p : Pair) : Prop where
  leads : Server.Leads r term p.follower.selfId next p.leader
  log : p.follower.log.Holds cfg F
  base : p.follower.log.base = 0
  term_le : p.follower.currentTerm ≤ term

variable {cfg : Config} {io : Io × Io} {r : LogRing} {L F : List Entry} {term : Nat} {p : Pair}

theorem At.next_eq {next : Nat} (h : At cfg r term F next p) : p.next = next := by
  obtain ⟨peer, hpeer, -, -, hnext⟩ := h.leads.peer
  unfold Pair.next
  rw [hpeer]
  exact hnext

/-- The exchange, when the follower's answer is `rr`. -/
theorem At.exchange_eq {next : Nat} (h : At cfg r term F next p) (hL : r.Holds cfg L) (hr : r.base = 0) (hpos : 1 ≤ next)
    (hle : next ≤ L.length + 1) {rr : AppendEntriesResp} {a : Nat}
    (hreply : Server.newest p.follower (p.follower.handleAppendEntries cfg io.1 (p.leader.request cfg L next)) =
      some ⟨p.follower.selfId, a, .appendEntriesResp rr⟩) :
    ∃ m : Message, p.exchange cfg io = (some rr,
      ⟨(p.leader.emit m).handleAppendEntriesResp cfg io.2 p.follower.selfId rr,
        p.follower.handleAppendEntries cfg io.1 (p.leader.request cfg L next)⟩) := by
  obtain ⟨peer, hpeer, -, hself, rfl⟩ := h.leads.peer
  refine ⟨⟨p.leader.selfId, peer.id, .appendEntries (p.leader.request cfg L peer.nextIndex)⟩, ?_⟩
  unfold exchange
  rw [hpeer]
  dsimp only
  rw [Server.sendAppendEntries_eq (h.leads.log ▸ hL) (h.leads.log ▸ hr) hself hpos hle, Server.newest_emit (Server.sent_emit _ _)]
  dsimp only [Server.handle]
  rw [hreply]

/-- **What the follower answers to a request whose previous entry it does not have**, and where it sends the leader. -/
theorem At.refused {next : Nat} (io : Io × Io) (h : At cfg r term F next p) (hL : r.Holds cfg L) (hr : r.base = 0) (hd : Diverged L F term)
    (hp : Probing L F next) (hno : next - 1 ≤ F.length → termOf F (next - 1) ≠ termOf L (next - 1)) :
    ∃ rr, (p.follower.following cfg io.1 (p.leader.request cfg L next)).prevMismatch cfg (p.leader.request cfg L next) = some rr ∧
      rr.success = false ∧ rr.term = term ∧
      ∃ next', Probing L F next' ∧ next' < next ∧ ∀ (s : Server) (peer : Peer), s.log = r → s.backup cfg rr peer = next' := by
  have hterm_le : p.follower.currentTerm ≤ (p.leader.request cfg L next).term := h.term_le.trans_eq h.leads.term_eq.symm
  obtain ⟨hterm, hspares⟩ := Server.following_spec cfg io.1 hterm_le
  have hterm := hterm.trans h.leads.term_eq
  have hle := hp.le
  unfold Server.prevMismatch
  rw [hspares.log, h.log.lastIndex, hterm, Server.request_prevLogIndex, Server.request_prevLogTerm]
  by_cases hshort : F.length < next - 1
  · rw [if_pos hshort]
    obtain ⟨hp', hlt⟩ := hp.short hshort
    refine ⟨_, rfl, rfl, rfl, F.length + 1, hp', hlt, fun s peer _ => ?_⟩
    unfold Server.backup
    dsimp only
    rw [if_neg (by simp), if_neg (by omega)]
    omega
  · have hprev : next - 1 ≤ F.length := by omega
    have hat : p.follower.log.termAt cfg (next - 1) = some (termOf F (next - 1)) := h.log.termAt_eq (by have := h.base; omega) hprev
    rw [if_neg hshort, if_neg (by have := h.base; omega), hat]
    dsimp only
    rw [if_pos (hno hprev)]
    have hpos : 1 ≤ next - 1 := by
      by_contra h0
      have h0 : next - 1 = 0 := by omega
      rw [h0] at hno
      exact hno (Nat.zero_le _) rfl
    -- Where the follower's term starts, and the leader's last entry of it.
    obtain ⟨h1, h2, h3, h4⟩ := h.log.firstOfTerm_spec h.base (termOf F (next - 1)) (next - 1) hpos hprev rfl
    obtain ⟨g1, g2, g3⟩ := hL.findTerm_spec hr (termOf F (next - 1)) L.length (Nat.le_refl _)
    obtain ⟨hp', hlt⟩ := hp.conflict hd hprev (hno hprev) ⟨h1, h2⟩ h3 h4 g1 g2 g3
    refine ⟨_, rfl, rfl, rfl, _, hp', hlt, fun s peer hs => ?_⟩
    have hne : termOf F (next - 1) ≠ 0 := by
      have := hd.follower.pos (next - 1) hpos hprev
      omega
    have hone := hp'.pos
    unfold Server.backup
    dsimp only
    rw [if_pos hne, hs, hL.lastIndex, hr, Nat.sub_zero]
    exact Nat.max_eq_left hone

/-- **An exchange that is refused.** -/
theorem At.step_refused {next : Nat} (h : At cfg r term F next p) (hL : r.Holds cfg L) (hr : r.base = 0) (hd : Diverged L F term)
    (hp : Probing L F next) (hno : next - 1 ≤ F.length → termOf F (next - 1) ≠ termOf L (next - 1))
    (hb : (p.exchange cfg io).2.leader.log.base = 0) :
    ∃ rr, (p.exchange cfg io).1 = some rr ∧ rr.success = false ∧
      ∃ next', Probing L F next' ∧ next' < next ∧ At cfg r term F next' (p.exchange cfg io).2 := by
  obtain ⟨rr, hmis, hsucc, hterm, next', hp', hlt, hback⟩ := h.refused io hL hr hd hp hno
  obtain ⟨hreply, hlog, hself, hcur⟩ := Server.handleAppendEntries_refused (h.term_le.trans_eq h.leads.term_eq.symm) hmis
  have hle := hp.le
  obtain ⟨m, hex⟩ := h.exchange_eq hL hr hp.pos (by omega) hreply
  rw [hex] at hb ⊢
  refine ⟨rr, rfl, hsucc, next', hp', hlt, ?_, ?_, ?_, ?_⟩
  · have hleads := (h.leads.emit m).failure hL hr hterm hsucc hp'.pos hp'.le (fun peer => hback _ peer h.leads.log) hb
    exact hself.symm ▸ hleads
  · exact hlog.symm ▸ h.log
  · exact hlog.symm ▸ h.base
  · exact hcur.trans_le (Nat.le_of_eq h.leads.term_eq)

/-- A request whose previous entry the follower has is accepted. -/
theorem At.matched {next : Nat} (io : Io × Io) (h : At cfg r term F next p) (hF : next - 1 ≤ F.length)
    (hsame : (F.take (next - 1)).map Entry.content = (L.take (next - 1)).map Entry.content) :
    (p.follower.following cfg io.1 (p.leader.request cfg L next)).prevMismatch cfg (p.leader.request cfg L next) = none := by
  have hterm_le : p.follower.currentTerm ≤ (p.leader.request cfg L next).term := h.term_le.trans_eq h.leads.term_eq.symm
  obtain ⟨-, hspares⟩ := Server.following_spec cfg io.1 hterm_le
  have hbase := h.base
  have hat : p.follower.log.termAt cfg (next - 1) = some (termOf F (next - 1)) := h.log.termAt_eq (by omega) hF
  have hterm : termOf F (next - 1) = termOf L (next - 1) := by
    rw [← termOf_take (Nat.le_refl (next - 1)), termOf_congr hsame, termOf_take (Nat.le_refl _)]
  unfold Server.prevMismatch
  rw [hspares.log, h.log.lastIndex, Server.request_prevLogIndex, Server.request_prevLogTerm, if_neg (by omega),
    if_neg (by omega), hat]
  dsimp only
  rw [if_neg (not_not.2 hterm)]

/-- **An exchange that is accepted**: the follower's log is the beginning of the leader's, up to what the request brought. -/
theorem At.step_accepted {next : Nat} (h : At cfg r term F next p) (hL : r.Holds cfg L) (hr : r.base = 0)
    (hM : 0 < cfg.maxAppendEntries) (hpos : 1 ≤ next) (hle : next ≤ L.length + 1) (hF : next - 1 ≤ F.length)
    (hsame : (F.take (next - 1)).map Entry.content = (L.take (next - 1)).map Entry.content)
    (hother : next ≤ F.length → next ≤ L.length ∧ termOf F next ≠ termOf L next)
    (hb : (p.exchange cfg io).2.leader.log.base = 0) (hb' : (p.exchange cfg io).2.follower.log.base = 0) :
    ∃ rr F', (p.exchange cfg io).1 = some rr ∧ rr.success = true ∧ InStep L F' (F'.length + 1) ∧
      F'.length = min (next - 1 + cfg.maxAppendEntries) L.length ∧
      At cfg r term F' (F'.length + 1) (p.exchange cfg io).2 := by
  have hterm_le : p.follower.currentTerm ≤ (p.leader.request cfg L next).term := h.term_le.trans_eq h.leads.term_eq.symm
  obtain ⟨hreply, hself, hcur, hlog⟩ := Server.handleAppendEntries_accepted hterm_le (h.matched io hF hsame)
  have hview : (p.leader.request cfg L next).view = (L.drop (next - 1)).take cfg.maxAppendEntries :=
    AppendEntries.view_eq rfl
  rw [hview, Server.request_prevLogIndex] at hreply hlog
  -- The log the entries make.
  have hroom : next - 1 + ((L.drop (next - 1)).take cfg.maxAppendEntries).length ≤ cfg.logCapacity := by
    have := hL.last
    have := hL.count_le
    rw [List.length_take, List.length_drop]
    omega
  obtain ⟨F', hF', hcontent⟩ := h.log.appendAll_new h.base hF hroom (slice_end hM hpos hF fun hlt => (hother hlt).1)
    (slice_head hpos fun hlt => (hother hlt).2)
  obtain ⟨hstep, hlast⟩ := inStep_take hsame hcontent
  have hidx : max (F'.length + 1) next = F'.length + 1 := by omega
  rw [hF'.lastIndex] at hreply
  obtain ⟨m, hex⟩ := h.exchange_eq hL hr hpos hle hreply
  rw [hex] at hb hb' ⊢
  have hlog := hlog (hb'.trans h.base.symm)
  refine ⟨_, F', rfl, rfl, hstep, hlast, ?_, hlog.symm ▸ hF', hb', ?_⟩
  · have hleads := (h.leads.emit m).success hL hr h.leads.term_eq rfl hb
    rw [hidx] at hleads
    exact hself.symm ▸ hleads
  · exact hcur.trans_le (Nat.le_of_eq h.leads.term_eq)

theorem At.uncompacted {next : Nat} (h : At cfg r term F next p) (hL : r.Holds cfg L) (hr : r.base = 0) (hpos : 1 ≤ next)
    (hle : next ≤ L.length + 1) (hio : io.1.snapshotSave = none) (hio' : io.2.snapshotSave = none) :
    (p.exchange cfg io).2.leader.log.base = 0 ∧ (p.exchange cfg io).2.follower.log.base = 0 := by
  have hterm_le : p.follower.currentTerm ≤ (p.leader.request cfg L next).term := h.term_le.trans_eq h.leads.term_eq.symm
  obtain ⟨⟨rr, a, hreply⟩, hbase⟩ := Server.handleAppendEntries_answers cfg hio hterm_le
  obtain ⟨m, hex⟩ := h.exchange_eq hL hr hpos hle hreply
  rw [hex]
  refine ⟨?_, hbase.trans h.base⟩
  dsimp only
  rw [Server.handleAppendEntriesResp_log_of_none hio']
  exact h.leads.log.symm ▸ hr

/-- An exchange before the first success: refused, or the first success. -/
theorem At.step_probing {next : Nat} (h : At cfg r term F next p) (hL : r.Holds cfg L) (hr : r.base = 0)
    (hM : 0 < cfg.maxAppendEntries) (hd : Diverged L F term) (hp : Probing L F next)
    (hb : (p.exchange cfg io).2.leader.log.base = 0) (hb' : (p.exchange cfg io).2.follower.log.base = 0) :
    ∃ rr, (p.exchange cfg io).1 = some rr ∧
      ((rr.success = false ∧ ∃ next', next' < next ∧ Probing L F next' ∧ At cfg r term F next' (p.exchange cfg io).2) ∨
        (rr.success = true ∧ ∃ F', InStep L F' (F'.length + 1) ∧ At cfg r term F' (F'.length + 1) (p.exchange cfg io).2)) := by
  have hpos := hp.pos
  have hle := hp.le
  by_cases hmatch : next - 1 ≤ F.length ∧ termOf F (next - 1) = termOf L (next - 1)
  · obtain ⟨hF, hterm⟩ := hmatch
    have hsame : (F.take (next - 1)).map Entry.content = (L.take (next - 1)).map Entry.content := by
      by_cases h0 : next - 1 = 0
      · rw [h0, List.take_zero, List.take_zero]
      · exact hd.matching _ (by omega) (by omega) hF hterm
    obtain ⟨rr, F', hresp, hsucc, hsync, -, hat⟩ :=
      h.step_accepted hL hr hM hpos (by omega) hF hsame (fun hlt => ⟨hle, hp.other hlt⟩) hb hb'
    exact ⟨rr, hresp, .inr ⟨hsucc, F', hsync, hat⟩⟩
  · obtain ⟨rr, hresp, hsucc, next', hp', hlt, hat⟩ :=
      h.step_refused hL hr hd hp (fun hF hterm => hmatch ⟨hF, hterm⟩) hb
    exact ⟨rr, hresp, .inl ⟨hsucc, next', hlt, hp', hat⟩⟩

/-- An exchange after it: accepted, and it brings as much as fits. -/
theorem At.step_inStep (h : At cfg r term F (F.length + 1) p) (hL : r.Holds cfg L) (hr : r.base = 0)
    (hM : 0 < cfg.maxAppendEntries) (hs : InStep L F (F.length + 1))
    (hb : (p.exchange cfg io).2.leader.log.base = 0) (hb' : (p.exchange cfg io).2.follower.log.base = 0) :
    ∃ rr F', (p.exchange cfg io).1 = some rr ∧ rr.success = true ∧ InStep L F' (F'.length + 1) ∧
      F'.length = min (F.length + cfg.maxAppendEntries) L.length ∧ At cfg r term F' (F'.length + 1) (p.exchange cfg io).2 := by
  have hle := hs.le
  refine h.step_accepted hL hr hM (by omega) (by omega) (by omega) ?_ (fun hlt => by omega) hb hb'
  rw [Nat.add_sub_cancel, List.take_length]
  exact hs.content

/-! ## Every run of exchanges -/

section

variable {ios : Nat → Io × Io} {next : Nat}

/-- **Where a run is**: still probing, with the index further down at each exchange, or in step. -/
theorem run_phase (h : At cfg r term F next p) (hL : r.Holds cfg L) (hr : r.base = 0) (hM : 0 < cfg.maxAppendEntries)
    (hd : Diverged L F term) (hp : Probing L F next) : ∀ k,
    (∀ j, j ≤ k → (p.after cfg ios j).leader.log.base = 0 ∧ (p.after cfg ios j).follower.log.base = 0) →
    (∃ next', next' + k ≤ next ∧ Probing L F next' ∧ At cfg r term F next' (p.after cfg ios k)) ∨
      ∃ F', InStep L F' (F'.length + 1) ∧ At cfg r term F' (F'.length + 1) (p.after cfg ios k)
  | 0, _ => .inl ⟨next, Nat.le_refl _, hp, h⟩
  | k + 1, hno => by
    obtain ⟨hb, hb'⟩ := hno (k + 1) (Nat.le_refl _)
    rcases run_phase h hL hr hM hd hp k (fun j hj => hno j (by omega)) with ⟨next', hlt, hp', hat⟩ | ⟨F', hs, hat⟩
    · obtain ⟨rr, -, ⟨-, next'', hlt', hp'', hat'⟩ | ⟨-, hsync⟩⟩ := hat.step_probing hL hr hM hd hp' hb hb'
      · exact .inl ⟨next'', by omega, hp'', hat'⟩
      · exact .inr hsync
    · obtain ⟨rr, F'', -, -, hs', -, hat'⟩ := hat.step_inStep hL hr hM hs hb hb'
      exact .inr ⟨F'', hs', hat'⟩

/-- Once in step, each exchange brings at least one entry that is missing. -/
theorem run_inStep (hL : r.Holds cfg L) (hr : r.base = 0) (hM : 0 < cfg.maxAppendEntries)
    (hno : ∀ k, (p.after cfg ios k).leader.log.base = 0 ∧ (p.after cfg ios k).follower.log.base = 0) {n : Nat}
    (h : ∃ F', InStep L F' (F'.length + 1) ∧ At cfg r term F' (F'.length + 1) (p.after cfg ios n)) :
    ∀ k, ∃ F', min k L.length ≤ F'.length ∧ InStep L F' (F'.length + 1) ∧
      At cfg r term F' (F'.length + 1) (p.after cfg ios (n + k))
  | 0 => by
    obtain ⟨F', hs, hat⟩ := h
    exact ⟨F', by omega, hs, hat⟩
  | k + 1 => by
    obtain ⟨hb, hb'⟩ := hno (n + k + 1)
    obtain ⟨F', hlen, hs, hat⟩ := run_inStep hL hr hM hno h k
    obtain ⟨rr, F'', -, -, hs', hlen', hat'⟩ := hat.step_inStep hL hr hM hs hb hb'
    exact ⟨F'', by omega, hs', hat'⟩

end

/-- **Where the exchanges start**: a leader of base 0 with the log `L`, and a follower of base 0 with the log `F` for which
it has its first index of its own term. -/
structure Start (cfg : Config) (L F : List Entry) (p : Pair) : Prop where
  state : p.leader.state = .leader
  leader_log : p.leader.log.Holds cfg L
  leader_base : p.leader.log.base = 0
  follower_log : p.follower.log.Holds cfg F
  follower_base : p.follower.log.base = 0
  term_le : p.follower.currentTerm ≤ p.leader.currentTerm
  diverged : Diverged L F p.leader.currentTerm
  peer : ∃ peer, p.leader.nodeById p.follower.selfId = some peer ∧ peer.isSelf = false ∧
    FirstOf L p.leader.currentTerm peer.nextIndex

theorem Start.at (h : Start cfg L F p) :
    ∃ next, At cfg p.leader.log p.leader.currentTerm F next p ∧ Probing L F next := by
  obtain ⟨peer, hpeer, hself, hfirst⟩ := h.peer
  have hid : peer.id = p.follower.selfId := by simpa using List.find?_some hpeer
  refine ⟨peer.nextIndex, ⟨⟨h.state, rfl, rfl, peer, hpeer, hid, hself, rfl⟩, h.follower_log, h.follower_base, h.term_le⟩,
    hfirst.pos, hfirst.le, fun hle => ?_⟩
  rw [hfirst.term]
  exact h.diverged.fresh _ hfirst.pos hle

/-- **Two servers without a snapshot callback never compact.** -/
theorem Start.uncompacted (ios : Nat → Io × Io) (h : Start cfg L F p) (hM : 0 < cfg.maxAppendEntries)
    (hio : ∀ k, (ios k).1.snapshotSave = none ∧ (ios k).2.snapshotSave = none) :
    ∀ k, (p.after cfg ios k).leader.log.base = 0 ∧ (p.after cfg ios k).follower.log.base = 0 := by
  obtain ⟨next, hat, hp⟩ := h.at
  intro k
  induction k using Nat.strong_induction_on with
  | _ k ih =>
    cases k with
    | zero => exact ⟨h.leader_base, h.follower_base⟩
    | succ k =>
      rcases run_phase hat h.leader_log h.leader_base hM h.diverged hp k (fun j hj => ih j (by omega)) with
        ⟨next', -, hp', hat'⟩ | ⟨F', hs, hat'⟩
      · have := hp'.le
        exact hat'.uncompacted h.leader_log h.leader_base hp'.pos (by omega) (hio k).1 (hio k).2
      · have := hs.le
        exact hat'.uncompacted h.leader_log h.leader_base (by omega) (by omega) (hio k).1 (hio k).2

/-- A follower in step and as long as the leader has the leader's log. -/
theorem At.same {next : Nat} (h : At cfg r term F next p) (hL : r.Holds cfg L) (hr : r.base = 0) (hs : InStep L F next)
    (hlen : F.length = L.length) : r.Same cfg p.follower.log := by
  have hcontent := hs.content
  rw [hlen, List.take_length] at hcontent
  refine ⟨by rw [hL.lastIndex, h.log.lastIndex, hlen], fun i => ?_⟩
  by_cases hi : 0 < i ∧ i ≤ L.length
  · rw [hL.at?_live (by omega) hi.2, h.log.at?_live (by have := h.base; omega) (by omega), ← List.getElem?_map,
      ← List.getElem?_map, hcontent]
  · have hnone : ∀ {x : LogRing}, x.base = 0 → x.lastIndex = L.length → x.at? cfg i = none := by
      intro x hb hl
      rw [← Option.not_isSome_iff_eq_none, LogRing.at?_isSome, hb, hl]
      exact hi
    rw [hnone hr hL.lastIndex, hnone h.base (h.log.lastIndex.trans hlen)]

/-- **Log catch-up ends, and repairs.**  Each exchange has a response; one that fails moves `next_index` down; after finitely
many there is a success; and from some exchange on the follower's log is the leader's, which stayed as it was. -/
theorem catch_up (cfg : Config) (hM : 0 < cfg.maxAppendEntries) (L F : List Entry) (p : Pair) (h : Start cfg L F p)
    (ios : Nat → Io × Io)
    (hno : ∀ k, (p.after cfg ios k).leader.log.base = 0 ∧ (p.after cfg ios k).follower.log.base = 0) :
    (∀ k, ∃ rr, p.response cfg ios k = some rr) ∧
      (∀ k rr, p.response cfg ios k = some rr → rr.success = false → (p.after cfg ios (k + 1)).next < (p.after cfg ios k).next) ∧
      (∃ k rr, p.response cfg ios k = some rr ∧ rr.success = true) ∧
      ∃ n, ∀ k, n ≤ k → (p.after cfg ios k).leader.log = p.leader.log ∧
        p.leader.log.Same cfg (p.after cfg ios k).follower.log := by
  obtain ⟨next, hat, hp⟩ := h.at
  have hL := h.leader_log
  have hr := h.leader_base
  have hphase := fun k => run_phase hat hL hr hM h.diverged hp k (fun j _ => hno j)
  have hstep : ∀ k, ∃ rr, p.response cfg ios k = some rr ∧
      (rr.success = false → (p.after cfg ios (k + 1)).next < (p.after cfg ios k).next) := by
    intro k
    obtain ⟨hb, hb'⟩ := hno (k + 1)
    rcases hphase k with ⟨next', -, hp', hat'⟩ | ⟨F', hs, hat'⟩
    · obtain ⟨rr, hresp, ⟨-, next'', hlt, -, hat''⟩ | ⟨hsucc, -⟩⟩ := hat'.step_probing hL hr hM h.diverged hp' hb hb'
      · refine ⟨rr, hresp, fun _ => ?_⟩
        rw [hat'.next_eq]
        exact hat''.next_eq.trans_lt hlt
      · exact ⟨rr, hresp, fun hfail => absurd (hsucc.symm.trans hfail) (by decide)⟩
    · obtain ⟨rr, F'', hresp, hsucc, -⟩ := hat'.step_inStep hL hr hM hs hb hb'
      exact ⟨rr, hresp, fun hfail => absurd (hsucc.symm.trans hfail) (by decide)⟩
  -- The index cannot go down more often than it is large.
  have hinStep : ∃ F', InStep L F' (F'.length + 1) ∧ At cfg p.leader.log p.leader.currentTerm F' (F'.length + 1) (p.after cfg ios next) := by
    rcases hphase next with ⟨next', hle, hp', -⟩ | hs
    · have := hp'.pos
      omega
    · exact hs
  refine ⟨fun k => ?_, fun k rr hresp hfail => ?_, ?_, next + L.length, fun k hk => ?_⟩
  · obtain ⟨rr, hresp, -⟩ := hstep k
    exact ⟨rr, hresp⟩
  · obtain ⟨rr', hresp', hlt⟩ := hstep k
    obtain rfl : rr' = rr := Option.some.inj (hresp'.symm.trans hresp)
    exact hlt hfail
  · obtain ⟨hb, hb'⟩ := hno (next + 1)
    obtain ⟨F', hs, hat'⟩ := hinStep
    obtain ⟨rr, F'', hresp, hsucc, -⟩ := hat'.step_inStep hL hr hM hs hb hb'
    exact ⟨next, rr, hresp, hsucc⟩
  · obtain ⟨j, rfl⟩ : ∃ j, k = next + j := ⟨k - next, by omega⟩
    obtain ⟨F', hlen, hs, hat'⟩ := run_inStep hL hr hM hno hinStep j
    have hle := hs.le
    exact ⟨hat'.leads.log, hat'.same hL hr hs (by omega)⟩

/-- A leader of term 3 with the entries of the terms 1, 1, 3, 3, and a follower with those of the terms 1, 2, 2. -/
def diverging : Pair where
  leader :=
    { selfId := 1
      currentTerm := 3
      state := .leader
      log := { buf := fun k => { term := if k < 2 then 1 else 3, index := k + 1 }, count := 4 }
      nodes := [{ id := 1, isSelf := true }, { id := 2, isSelf := false, nextIndex := 3 }] }
  follower :=
    { selfId := 2
      currentTerm := 2
      log := { buf := fun k => { term := if k < 1 then 1 else 2, index := k + 1 }, count := 3 }
      nodes := [{ id := 1, isSelf := false }, { id := 2, isSelf := true }] }

def leaderEntries : List Entry := [{ term := 1, index := 1 }, { term := 1, index := 2 }, { term := 3, index := 3 }, { term := 3, index := 4 }]

def followerEntries : List Entry := [{ term := 1, index := 1 }, { term := 2, index := 2 }, { term := 2, index := 3 }]

def idle : Io where
  now := fun _ => 0
  rand := fun _ => 0
  snapshotSave := none
  snapshotLoad := false

theorem ascending_of_le {ℓ : List Entry} (h : ∀ j ≤ ℓ.length, ∀ i ≤ j, 1 ≤ i → 0 < termOf ℓ i ∧ termOf ℓ i ≤ termOf ℓ j) :
    Ascending ℓ :=
  ⟨fun i hi hle => (h i hle i (Nat.le_refl i) hi).1, fun i j hi hij hle => (h j hle i hij hi).2⟩

theorem diverging_diverged : Diverged leaderEntries followerEntries 3 where
  leader := ascending_of_le (by decide)
  follower := ascending_of_le (by decide)
  matching := fun i hi _ hF => (by decide : ∀ i ≤ 3, 1 ≤ i → termOf followerEntries i = termOf leaderEntries i →
    (followerEntries.take i).map Entry.content = (leaderEntries.take i).map Entry.content) i hF hi
  starts := by
    intro t i j hi hj
    have hterm := hi.term.trans hj.term.symm
    obtain ⟨rfl, hi2⟩ := (by decide : ∀ i : Fin 5, ∀ j : Fin 4, 1 ≤ i.val → 1 ≤ j.val →
      termOf leaderEntries i.val = termOf followerEntries j.val → j.val = 1 ∧ i.val ≤ 2)
      ⟨i, Nat.lt_succ_of_le hi.le⟩ ⟨j, Nat.lt_succ_of_le hj.le⟩ hi.pos hj.pos hterm
    have hi2 : i ≤ 2 := hi2
    have hpos := hi.pos
    by_contra hne
    obtain rfl : i = 2 := by omega
    exact hi.first 1 (by decide) (by decide) hi.term
  fresh := fun i hi hle => (by decide : ∀ i ≤ 3, 1 ≤ i → termOf followerEntries i ≠ 3) i hle hi

theorem diverging_start : Start defaultConfig leaderEntries followerEntries diverging where
  state := rfl
  leader_log := ⟨⟨rfl, by decide, by decide, by decide⟩, rfl⟩
  leader_base := rfl
  follower_log := ⟨⟨rfl, by decide, by decide, by decide⟩, rfl⟩
  follower_base := rfl
  term_le := by decide
  diverged := diverging_diverged
  peer := ⟨_, rfl, rfl, by decide, by decide, rfl,
    fun j hj hlt => (by decide : ∀ j < 3, 1 ≤ j → termOf leaderEntries j ≠ 3) j hlt hj⟩

/-- The refusal, then the repair. -/
theorem catch_up_diverging : ∃ n, ∀ k, n ≤ k →
    diverging.leader.log.Same defaultConfig (diverging.after defaultConfig (fun _ => (idle, idle)) k).follower.log := by
  have hno := Start.uncompacted (fun _ => (idle, idle)) diverging_start (by decide) (fun _ => ⟨rfl, rfl⟩)
  obtain ⟨-, -, -, n, hn⟩ := catch_up defaultConfig (by decide) leaderEntries followerEntries diverging diverging_start
    (fun _ => (idle, idle)) hno
  exact ⟨n, fun k hk => (hn k hk).2⟩

end Pair

end Raft
end FloodEws
