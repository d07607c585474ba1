import FloodEws.CatchUp
import FloodEws.Elect
import FloodEws.Replicate
import FloodEws.Schedule
/-!
# Rounds — a leader in touch with a majority commits its log

A round of a leader with a peer: its heartbeat, the handling of the request and the handling of the response.  What the
heartbeat sends to the others may be lost.  Each round with a peer brings the peer's log nearer to the leader's, and
nothing that is done with one peer sets another back (`Within`).  When a majority has the whole log, the next round
commits it, and the one after that has it applied by the peer (`leader_commits`).
-/
namespace FloodEws
namespace Raft

/-- Nothing is compacted before more than `n` entries are applied. -/
def Io.Quiet (cfg : Config) (n : Nat) (io : Io) : Prop := io.snapshotSave = none ∨ n < cfg.snapshotThreshold

namespace Server

variable {cfg : Config} {io : Io} {s : Server} {r : LogRing} {L : List Entry} {term b next n : Nat}

/-- The newest message to `b`. -/
def newestTo (b : Nat) (s : Server) : Option Message := (s.sent.filter fun m => m.recipient == b)[0]?

theorem newestTo_head {x : Server} {m : Message} {ms : List Message} (hx : x.sent = m :: ms) (hm : m.recipient = b) :
    x.newestTo b = some m := by
  simp [newestTo, hx, hm]

/-! ## Applying -/

/-- Applying without compaction: the applied index reaches the commit index, and nothing else moves. -/
theorem applyCommitted_quiet (hio : io.Quiet cfg n) (hb : s.log.base = 0) (hcommit : s.commitIndex ≤ n)
    (happlied : s.lastApplied ≤ s.commitIndex) :
    (s.applyCommitted cfg io).log = s.log ∧ (s.applyCommitted cfg io).commitIndex = s.commitIndex ∧
      (s.applyCommitted cfg io).lastApplied = s.commitIndex ∧ (s.applyCommitted cfg io).sent = s.sent ∧
      (s.applyCommitted cfg io).running = s.running := by
  obtain ⟨hlog, hcommit', happlied', evs, hevs, happly⟩ := applyLoop_spec cfg (s.commitIndex - s.lastApplied) s
  have hrun : ∀ (k : Nat) (x : Server), (applyLoop cfg k x).running = x.running := by
    intro k
    induction k with
    | zero => exact fun x => rfl
    | succ k ih =>
      intro x
      refine (ih _).trans ?_
      rw [applyNext_eq]
  have hrun := hrun (s.commitIndex - s.lastApplied) s
  unfold applyCommitted
  generalize applyLoop cfg (s.commitIndex - s.lastApplied) s = x at *
  have hsent : x.sent = s.sent := sent_eq_of_calls hevs fun e he =>
    Event.not_send_of_routine (Event.routine_of_apply (happly e he))
  rcases maybeCompact_cases cfg io x with ⟨-, k, he⟩ | ⟨hcompact, t, bytes, -, -, hsaved, -⟩
  · rw [he]
    exact ⟨hlog, hcommit', by dsimp only; omega, hsent, hrun⟩
  · exfalso
    rcases hio with hnone | hlt
    · rw [savedAt, hnone] at hsaved
      cases hsaved
    · refine hcompact (.inl ?_)
      rw [hlog, hb]
      omega

/-! ## The heartbeat -/

theorem sent_sendAppendEntries (cfg : Config) (peer : Peer) (s : Server) :
    ∃ ms : List Message, (s.sendAppendEntries cfg peer).sent = ms ++ s.sent ∧ ∀ m ∈ ms, m.recipient = peer.id := by
  have hnone : ∃ ms : List Message, s.sent = ms ++ s.sent ∧ ∀ m ∈ ms, m.recipient = peer.id := ⟨[], rfl, by simp⟩
  have hsnap : ∃ ms : List Message, (s.sendInstallSnapshot cfg peer).sent = ms ++ s.sent ∧ ∀ m ∈ ms, m.recipient = peer.id := by
    unfold sendInstallSnapshot
    split
    · exact hnone
    split
    · exact hnone
    split
    · exact hnone
    · exact ⟨[_], sent_emit _ s, by simp⟩
  unfold sendAppendEntries
  split
  · exact hnone
  dsimp only
  split
  · exact hsnap
  split
  · exact hsnap
  · exact ⟨[_], sent_emit _ s, by simp⟩

/-- What is sent to others is not sent to `b`. -/
theorem newestTo_foldl (cfg : Config) : ∀ (ps : List Peer) (s : Server), (∀ p ∈ ps, p.id ≠ b) →
    (ps.foldl (fun (s : Server) (p : Peer) => if p.isSelf then s else s.sendAppendEntries cfg p) s).newestTo b = s.newestTo b
  | [], _, _ => rfl
  | p :: ps, s, h => by
    rw [List.foldl_cons, newestTo_foldl cfg ps _ fun q hq => h q (List.mem_cons_of_mem p hq)]
    split
    · rfl
    · obtain ⟨ms, hsent, hto⟩ := sent_sendAppendEntries cfg p s
      have hnone : ms.filter (fun m => m.recipient == b) = [] := by
        refine List.filter_eq_nil_iff.2 fun m hm => ?_
        rw [hto m hm]
        simpa using h p List.mem_cons_self
      rw [newestTo, hsent, List.filter_append, hnone, List.nil_append, newestTo]

/-- **The heartbeat sends every peer its request**, and nothing after it. -/
theorem newestTo_broadcast (hL : s.log.Holds cfg L) (hb : s.log.base = 0) (hids : (s.nodes.map Peer.id).Nodup) {peer : Peer}
    (hpeer : s.nodeById b = some peer) (hself : peer.isSelf = false) (hpos : 1 ≤ peer.nextIndex)
    (hle : peer.nextIndex ≤ L.length + 1) :
    (s.broadcast cfg).newestTo b = some ⟨s.selfId, b, .appendEntries (s.request cfg L peer.nextIndex)⟩ := by
  have hid : peer.id = b := by simpa using List.find?_some hpeer
  obtain ⟨pre, post, hnodes⟩ := List.append_of_mem (List.mem_of_find?_eq_some hpeer)
  have hpost : ∀ p ∈ post, p.id ≠ b := by
    intro p hp heq
    rw [hnodes, List.map_append, List.map_cons] at hids
    have hnot := (List.nodup_cons.1 (List.nodup_append.1 hids).2.1).1
    exact hnot (List.mem_map.2 ⟨p, hp, heq.trans hid.symm⟩)
  unfold broadcast
  rw [hnodes, List.foldl_append, List.foldl_cons, newestTo_foldl cfg post _ hpost, hself, if_neg Bool.false_ne_true]
  -- what was sent before has changed nothing that the request tells
  obtain ⟨ms, hx⟩ : Sends s (pre.foldl (fun (s : Server) (p : Peer) => if p.isSelf then s else s.sendAppendEntries cfg p) s) := by
    refine .foldl (fun x p => ?_) pre s
    split
    · exact .refl x
    · exact sends_sendAppendEntries cfg p x
  rw [hx, sendAppendEntries_eq (s := s.after _) hL hb hself hpos hle]
  subst hid
  exact newestTo_head (sent_emit _ _) rfl

/-! ## The leader -/

/-- A leader of `term` with the log `r` of `n` entries that runs and is not ahead of it. -/
structure Heads (cfg : Config) (r : LogRing) (term l n : Nat) (s : Server) : Prop where
  state : s.state = .leader
  running : s.running = true
  self_eq : s.selfId = l
  term_eq : s.currentTerm = term
  log : s.log = r
  commit : s.commitIndex ≤ n
  applied : s.lastApplied ≤ s.commitIndex
  ids : (s.nodes.map Peer.id).Nodup
  me : ∀ p ∈ s.nodes, p.isSelf = (p.id == l)

/-- The leader applies. -/
theorem Heads.apply {l : Nat} (h : Heads cfg r term l n s) (hio : io.Quiet cfg n) (hr : r.base = 0) :
    Heads cfg r term l n (s.applyCommitted cfg io) ∧ (s.applyCommitted cfg io).nodes = s.nodes ∧
      (s.applyCommitted cfg io).commitIndex = s.commitIndex ∧ (s.applyCommitted cfg io).lastApplied = s.commitIndex ∧
      (s.applyCommitted cfg io).sent = s.sent := by
  obtain ⟨hlog, hcommit, happlied, hsent, hrun⟩ := applyCommitted_quiet hio (h.log ▸ hr) h.commit h.applied
  obtain ⟨hnodes, hstate⟩ := applyCommitted_frame cfg io s
  obtain ⟨hself, hterm⟩ := applyCommitted_self cfg io s
  exact ⟨⟨hstate.trans h.state, hrun.trans h.running, hself.trans h.self_eq, hterm.trans h.term_eq, hlog.trans h.log,
    hcommit.trans_le h.commit, by omega, hnodes ▸ h.ids, hnodes ▸ h.me⟩, hnodes, hcommit, happlied, hsent⟩

/-- A tick that finds a majority in contact and a heartbeat due. -/
def Heartbeat (cfg : Config) (now : Nat) (s : Server) : Prop :=
  s.contactWithMajority cfg now = true ∧ cfg.heartbeatIntervalMs ≤ sub64 now s.lastHeartbeatSent

instance decidableHeartbeat (now : Nat) (s : Server) : Decidable (s.Heartbeat cfg now) := inferInstanceAs (Decidable (_ ∧ _))

/-- **The leader's tick.** -/
theorem Heads.periodic {l : Nat} (h : Heads cfg r term l n s) (hio : io.Quiet cfg n) (hL : r.Holds cfg L)
    (hr : r.base = 0) (hbeat : s.Heartbeat cfg (io.now s.reads)) :
    Heads cfg r term l n (s.periodic cfg io) ∧ (s.periodic cfg io).nodes = s.nodes ∧
      (s.periodic cfg io).commitIndex = s.commitIndex ∧ (s.periodic cfg io).lastApplied = s.commitIndex ∧
      ∀ b peer, s.nodeById b = some peer → peer.isSelf = false → 1 ≤ peer.nextIndex → peer.nextIndex ≤ L.length + 1 →
        (s.periodic cfg io).newestTo b = some ⟨l, b, .appendEntries (s.request cfg L peer.nextIndex)⟩ := by
  obtain ⟨x, hx⟩ : ∃ x : Server, x = { s.tick with lastHeartbeatSent := io.now s.reads } := ⟨_, rfl⟩
  have hperiodic : s.periodic cfg io = (x.broadcast cfg).applyCommitted cfg io := by
    unfold Server.periodic
    have hstate : s.tick.state = .leader := h.state
    have hcontact : s.tick.contactWithMajority cfg (io.now s.reads) = true := hbeat.1
    have hdue : cfg.heartbeatIntervalMs ≤ sub64 (io.now s.reads) s.tick.lastHeartbeatSent := hbeat.2
    rw [if_neg (by simp [h.running])]
    dsimp only
    rw [if_pos hstate, if_neg (by simp [hcontact]), if_pos hdue, hx]
  have hsends := sends_broadcast cfg x
  have hy : Heads cfg r term l n (x.broadcast cfg) ∧ (x.broadcast cfg).nodes = s.nodes ∧
      (x.broadcast cfg).commitIndex = s.commitIndex := by
    obtain ⟨ms, he⟩ := hsends
    rw [he, hx]
    exact ⟨⟨h.state, h.running, h.self_eq, h.term_eq, h.log, h.commit, h.applied, h.ids, h.me⟩, rfl, rfl⟩
  obtain ⟨hheads, hnodes, hcommit⟩ := hy
  obtain ⟨happly, hnodes', hcommit', happlied, hsent⟩ := hheads.apply hio hr
  rw [hperiodic]
  refine ⟨happly, hnodes'.trans hnodes, hcommit'.trans hcommit, happlied.trans hcommit,
    fun b peer hpeer hnot hpos hle => ?_⟩
  have hnew := newestTo_broadcast (s := x) (b := b) (L := L) (by rw [hx]; exact h.log ▸ hL) (by rw [hx]; exact h.log ▸ hr)
    (by rw [hx]; exact h.ids) (by rw [hx]; exact hpeer) hnot hpos hle
  rw [newestTo, hsent, ← newestTo, hnew, hx]
  exact congrArg (fun a => some (⟨a, b, _⟩ : Message)) h.self_eq

theorem Heads.sends {l : Nat} {x : Server} (h : Heads cfg r term l n s) (hx : Sends s x) : Heads cfg r term l n x := by
  obtain ⟨ms, rfl⟩ := hx
  exact ⟨h.state, h.running, h.self_eq, h.term_eq, h.log, h.commit, h.applied, h.ids, h.me⟩

/-- The leader with one peer's entry changed, but not its id. -/
theorem Heads.modify {l : Nat} (h : Heads cfg r term l n s) (b : Nat) {f : Peer → Peer} (hid : ∀ p, (f p).id = p.id)
    (hme : ∀ p, (f p).isSelf = p.isSelf) : Heads cfg r term l n { s.tick with nodes := modifyNode b f s.nodes } := by
  refine ⟨h.state, h.running, h.self_eq, h.term_eq, h.log, h.commit, h.applied, ?_, fun p hp => ?_⟩
  · have hmap : (modifyNode b f s.nodes).map Peer.id = s.nodes.map Peer.id := map_modifyNode Peer.id hid _
    exact hmap ▸ h.ids
  · rcases mem_modifyNode_iff hp with hp | ⟨q, hq, -, rfl⟩
    · exact h.me p hp
    · rw [hid, hme]
      exact h.me q hq

/-- **The commit index advances**: it never goes back, and it reaches the end of the log once a majority has it. -/
theorem Heads.advance {l : Nat} (h : Heads cfg r term l n s) (hio : io.Quiet cfg n) (hL : r.Holds cfg L) (hr : r.base = 0)
    (hn : L.length = n) :
    Heads cfg r term l n (s.leaderAdvanceCommit cfg io) ∧ (s.leaderAdvanceCommit cfg io).nodes = s.nodes ∧
      s.commitIndex ≤ (s.leaderAdvanceCommit cfg io).commitIndex ∧
      (s.leaderAdvanceCommit cfg io).lastApplied = (s.leaderAdvanceCommit cfg io).commitIndex ∧
      (s.Committable cfg n → (s.leaderAdvanceCommit cfg io).commitIndex = n) := by
  have hlast : s.log.lastIndex = n := by rw [h.log, hL.lastIndex, hn]
  obtain ⟨c, hc⟩ : ∃ c, c = (findCommit cfg s (s.log.lastIndex - s.commitIndex)).getD s.commitIndex := ⟨_, rfl⟩
  have hadv : s.leaderAdvanceCommit cfg io = ({ s with commitIndex := c } : Server).applyCommitted cfg io := by
    unfold leaderAdvanceCommit
    split <;> rename_i hf <;> rw [hf] at hc <;> rw [hc] <;> rfl
  have hrange : s.commitIndex ≤ c ∧ c ≤ n := by
    have := h.commit
    cases hf : findCommit cfg s (s.log.lastIndex - s.commitIndex) with
    | none =>
      rw [hf] at hc
      have hc : c = s.commitIndex := hc
      omega
    | some next =>
      rw [hf] at hc
      have hc : c = next := hc
      obtain ⟨hlt, hle, -⟩ := Ordered.findCommit_spec hf
      omega
  have hfull : s.Committable cfg n → c = n := by
    intro hcom
    by_cases hlt : s.commitIndex < n
    · obtain ⟨next, hf, hnext⟩ := le_findCommit hcom hlt (k := s.log.lastIndex - s.commitIndex) (by omega)
      rw [hf] at hc
      have hc : c = next := hc
      omega
    · omega
  have happ := h.applied
  obtain ⟨x, hx⟩ : ∃ x : Server, x = { s with commitIndex := c } := ⟨_, rfl⟩
  have hheads : Heads cfg r term l n x := by
    rw [hx]
    exact ⟨h.state, h.running, h.self_eq, h.term_eq, h.log, hrange.2, Nat.le_trans happ hrange.1, h.ids, h.me⟩
  obtain ⟨happly, hnodes, hcommit, happlied, -⟩ := hheads.apply hio hr
  have hxc : x.commitIndex = c := by rw [hx]
  rw [hadv, ← hx]
  exact ⟨happly, by rw [hnodes, hx], by omega, by omega, fun hcom => by rw [hcommit, hxc, hfull hcom]⟩

/-- What a response makes of the peer's entry. -/
structure Rewrites (b : Nat) (next mtch : Nat → Nat) (s s' : Server) : Prop where
  nodes : ∃ f : Peer → Peer, s'.nodes = modifyNode b f s.nodes ∧ ∀ p, (f p).id = p.id ∧ (f p).isSelf = p.isSelf ∧
    (f p).nextIndex = next p.nextIndex ∧ (f p).matchIndex = mtch p.matchIndex

/-- **The leader is told of a success.** -/
theorem Heads.success {l : Nat} (h : Heads cfg r term l n s) (hio : io.Quiet cfg n) (hL : r.Holds cfg L) (hr : r.base = 0)
    (hn : L.length = n) {peer : Peer} (hpeer : s.nodeById b = some peer) {rr : AppendEntriesResp} (hterm : rr.term = term)
    (hs : rr.success = true) :
    Heads cfg r term l n (s.handleAppendEntriesResp cfg io b rr) ∧
      Rewrites b (max (rr.lastLogIndex + 1)) (max rr.lastLogIndex) s (s.handleAppendEntriesResp cfg io b rr) ∧
      s.commitIndex ≤ (s.handleAppendEntriesResp cfg io b rr).commitIndex ∧
      (s.handleAppendEntriesResp cfg io b rr).lastApplied = (s.handleAppendEntriesResp cfg io b rr).commitIndex ∧
      (termOf L n = term → (s.handleAppendEntriesResp cfg io b rr).majority ≤
          (s.handleAppendEntriesResp cfg io b rr).nodes.countP (fun p : Peer => p.isSelf || decide (n ≤ p.matchIndex)) →
        (s.handleAppendEntriesResp cfg io b rr).commitIndex = n) := by
  obtain ⟨f, hf⟩ : ∃ f : Peer → Peer, f = fun p => { p with
      lastContact := io.now s.reads
      nextIndex := max (rr.lastLogIndex + 1) p.nextIndex
      matchIndex := max rr.lastLogIndex p.matchIndex } := ⟨_, rfl⟩
  have hfp : ∀ p, (f p).id = p.id ∧ (f p).isSelf = p.isSelf ∧ (f p).nextIndex = max (rr.lastLogIndex + 1) p.nextIndex ∧
      (f p).matchIndex = max rr.lastLogIndex p.matchIndex := by
    rw [hf]
    exact fun p => ⟨rfl, rfl, rfl, rfl⟩
  obtain ⟨x, hx⟩ : ∃ x : Server, x = { s.tick with nodes := modifyNode b f s.nodes } := ⟨_, rfl⟩
  have hheads : Heads cfg r term l n x := hx ▸ h.modify b (fun p => (hfp p).1) (fun p => (hfp p).2.1)
  obtain ⟨hadv, hnodes, hmono, happlied, hfull⟩ := hheads.advance hio hL hr hn
  have hsends : Sends (x.leaderAdvanceCommit cfg io) (s.handleAppendEntriesResp cfg io b rr) := by
    unfold handleAppendEntriesResp
    rw [h.term_eq, hterm, if_neg (Nat.lt_irrefl _), if_neg (by simp [h.state]), hpeer]
    dsimp only
    rw [if_pos hs]
    have hmodify : modifyNode b (fun _ => { peer with
        lastContact := io.now s.reads
        nextIndex := max (rr.lastLogIndex + 1) peer.nextIndex
        matchIndex := max rr.lastLogIndex peer.matchIndex }) s.tick.nodes = modifyNode b f s.nodes := by
      rw [hf]
      exact modifyNode_const (f := fun p => { p with
        lastContact := io.now s.reads
        nextIndex := max (rr.lastLogIndex + 1) p.nextIndex
        matchIndex := max rr.lastLogIndex p.matchIndex }) hpeer
    rw [hmodify, ← hx]
    split
    · exact sends_sendAppendEntries cfg _ _
    · exact .refl _
  obtain ⟨hsame, hsame'⟩ : (s.handleAppendEntriesResp cfg io b rr).commitIndex = (x.leaderAdvanceCommit cfg io).commitIndex ∧
      (s.handleAppendEntriesResp cfg io b rr).lastApplied = (x.leaderAdvanceCommit cfg io).lastApplied := by
    obtain ⟨ms, he⟩ := hsends
    rw [he]
    exact ⟨rfl, rfl⟩
  have hnodes' : (s.handleAppendEntriesResp cfg io b rr).nodes = x.nodes := hsends.nodes.trans hnodes
  refine ⟨hadv.sends hsends, ⟨f, by rw [hnodes', hx], hfp⟩, ?_, by rw [hsame, hsame', happlied], fun hend hmaj => ?_⟩
  · rw [hsame]
    exact (show s.commitIndex = x.commitIndex by rw [hx]; rfl) ▸ hmono
  · rw [hsame]
    refine hfull ⟨?_, ?_, ?_⟩
    · rw [hheads.log, hL.lastIndex, hn]
    · rw [hheads.log, hL.termAt_eq (by omega) (by omega), hend, hheads.term_eq]
    · unfold majority at hmaj ⊢
      rwa [hnodes'] at hmaj

/-- **The leader is told of a refusal.** -/
theorem Heads.failure {l : Nat} (h : Heads cfg r term l n s) (hio : io.Quiet cfg n) (hr : r.base = 0)
    {peer : Peer} (hpeer : s.nodeById b = some peer) {rr : AppendEntriesResp} (hterm : rr.term = term)
    (hs : rr.success = false) {next' : Nat} (hretry : ∀ peer : Peer, s.tick.backup cfg rr peer = next') :
    Heads cfg r term l n (s.handleAppendEntriesResp cfg io b rr) ∧
      Rewrites b (fun _ => next') id s (s.handleAppendEntriesResp cfg io b rr) ∧
      (s.handleAppendEntriesResp cfg io b rr).commitIndex = s.commitIndex ∧
      (s.handleAppendEntriesResp cfg io b rr).lastApplied = s.commitIndex := by
  obtain ⟨f, hf⟩ : ∃ f : Peer → Peer, f = fun p => { p with lastContact := io.now s.reads, nextIndex := next' } := ⟨_, rfl⟩
  have hfp : ∀ p, (f p).id = p.id ∧ (f p).isSelf = p.isSelf ∧ (f p).nextIndex = next' ∧ (f p).matchIndex = p.matchIndex := by
    rw [hf]
    exact fun p => ⟨rfl, rfl, rfl, rfl⟩
  obtain ⟨x, hx⟩ : ∃ x : Server, x = { s.tick with nodes := modifyNode b f s.nodes } := ⟨_, rfl⟩
  have hheads : Heads cfg r term l n x := hx ▸ h.modify b (fun p => (hfp p).1) (fun p => (hfp p).2.1)
  obtain ⟨y, hsends, hy⟩ : ∃ y, Sends x y ∧ s.handleAppendEntriesResp cfg io b rr = y.applyCommitted cfg io := by
    unfold handleAppendEntriesResp
    rw [h.term_eq, hterm, if_neg (Nat.lt_irrefl _), if_neg (by simp [h.state]), hpeer]
    dsimp only
    rw [hs, if_neg Bool.false_ne_true, hretry]
    have hmodify : modifyNode b (fun _ => { peer with lastContact := io.now s.reads, nextIndex := next' }) s.tick.nodes =
        modifyNode b f s.nodes := by
      rw [hf]
      exact modifyNode_const (f := fun p => { p with lastContact := io.now s.reads, nextIndex := next' }) hpeer
    rw [hmodify, ← hx]
    exact ⟨_, sends_sendAppendEntries cfg _ x, rfl⟩
  have hyheads := hheads.sends hsends
  have hcommit : y.commitIndex = s.commitIndex := by
    obtain ⟨ms, rfl⟩ := hsends
    rw [hx]
    rfl
  obtain ⟨happly, hnodes, hcommit', happlied, -⟩ := hyheads.apply hio hr
  rw [hy]
  refine ⟨happly, ⟨f, ?_, hfp⟩, hcommit'.trans hcommit, happlied.trans hcommit⟩
  rw [hnodes, hsends.nodes, hx]

/-! ## The follower -/

/-- A follower with the log `F` that is not ahead of `n`. -/
structure Keeps (cfg : Config) (F : List Entry) (term b n : Nat) (f : Server) : Prop where
  self_eq : f.selfId = b
  log : f.log.Holds cfg F
  base : f.log.base = 0
  term_le : f.currentTerm ≤ term
  commit : f.commitIndex ≤ n
  applied : f.lastApplied ≤ f.commitIndex

variable {F F' : List Entry} {f : Server} {ae : AppendEntries}

/-- **It refuses**: its log and what it has committed stay. -/
theorem Keeps.refuse (h : Keeps cfg F term b n f) (hterm : ae.term = term) {rr : AppendEntriesResp}
    (hmis : (f.following cfg io ae).prevMismatch cfg ae = some rr) :
    Keeps cfg F term b n (f.handleAppendEntries cfg io ae) ∧
      (f.handleAppendEntries cfg io ae).newestTo ae.leaderId = some ⟨b, ae.leaderId, .appendEntriesResp rr⟩ ∧
      (f.handleAppendEntries cfg io ae).commitIndex = f.commitIndex := by
  have ht : f.currentTerm ≤ ae.term := h.term_le.trans_eq hterm.symm
  obtain ⟨hcur, hspares⟩ := following_spec cfg io ht
  rw [handleAppendEntries_eq cfg io ht, hmis]
  refine ⟨⟨hspares.self.trans h.self_eq, ?_, ?_, (hcur.trans hterm).le, hspares.commit.trans_le h.commit, ?_⟩, ?_,
    hspares.commit⟩
  · exact hspares.log.symm ▸ h.log
  · exact hspares.log.symm ▸ h.base
  · exact hspares.applied.trans_le (h.applied.trans_eq hspares.commit.symm)
  · dsimp only [replyAppend]
    rw [hspares.self, h.self_eq]
    exact newestTo_head (sent_emit _ _) rfl

/-- **It accepts**: it has the log the entries make, commits as far as it is told, and applies that. -/
theorem Keeps.accept (h : Keeps cfg F term b n f) (hio : io.Quiet cfg n) (hterm : ae.term = term)
    (hmis : (f.following cfg io ae).prevMismatch cfg ae = none)
    (hF' : (f.log.appendAll cfg (ae.prevLogIndex + 1) ae.view).Holds cfg F') (hcommit : ae.leaderCommit ≤ n) :
    Keeps cfg F' term b n (f.handleAppendEntries cfg io ae) ∧
      (f.handleAppendEntries cfg io ae).newestTo ae.leaderId = some ⟨b, ae.leaderId, .appendEntriesResp
        { term := term, success := true, lastLogIndex := F'.length }⟩ ∧
      (f.handleAppendEntries cfg io ae).commitIndex = ae.commitFrom f.commitIndex ∧
      (f.handleAppendEntries cfg io ae).lastApplied = ae.commitFrom f.commitIndex := by
  have ht : f.currentTerm ≤ ae.term := h.term_le.trans_eq hterm.symm
  obtain ⟨hcur, hspares⟩ := following_spec cfg io ht
  obtain ⟨x, hx⟩ : ∃ x, x = (f.following cfg io ae).accepted cfg ae := ⟨_, rfl⟩
  obtain ⟨evs, -, hacc⟩ := accepted_eq cfg ae (f.following cfg io ae)
  rw [← hx] at hacc
  have hlog : x.log = f.log.appendAll cfg (ae.prevLogIndex + 1) ae.view := by rw [hacc, hspares.log]
  have hbase : x.log.base = 0 := by rw [hx, accepted_base, hspares.log, h.base]
  have hxcommit : x.commitIndex = ae.commitFrom f.commitIndex := by rw [hacc, hspares.commit]
  have hle : f.commitIndex ≤ ae.commitFrom f.commitIndex ∧ ae.commitFrom f.commitIndex ≤ n := by
    have := h.commit
    unfold AppendEntries.commitFrom
    split <;> omega
  have hxapplied : x.lastApplied = f.lastApplied := by rw [hacc, hspares.applied]
  have happ := h.applied
  obtain ⟨hlog', hcommit', happlied, hsent, -⟩ :=
    applyCommitted_quiet (s := x) hio hbase (by omega) (by omega)
  obtain ⟨hself, hterm'⟩ := applyCommitted_self cfg io x
  have hreply : x.sent = ⟨b, ae.leaderId, .appendEntriesResp { term := term, success := true, lastLogIndex := F'.length }⟩ ::
      ({ x with calls := evs ++ (f.following cfg io ae).calls } : Server).sent := by
    rw [← hF'.lastIndex, ← hspares.log, ← hterm, ← hcur, ← h.self_eq, ← hspares.self, hacc]
    rfl
  rw [handleAppendEntries_eq cfg io ht, hmis]
  dsimp only
  rw [← hx]
  refine ⟨⟨?_, ?_, ?_, ?_, by omega, by omega⟩, newestTo_head (hsent.trans hreply) rfl, by omega, by omega⟩
  · rw [hself, hacc]
    exact hspares.self.trans h.self_eq
  · rw [hlog', hlog]
    exact hF'
  · rw [hlog']
    exact hbase
  · rw [hterm', hacc]
    exact (hcur.trans hterm).le

end Server

/-! ## A round in the cluster -/

namespace Setup

variable {S : Setup} {env : Nat → Io}

/-- A round of the leader `l` with the peer `t.1`, at the time `t.2`. -/
def roundTurns (l : Nat) (t : Nat × Nat) : List Turn := [.periodic l t.2, .deliver l t.1 0 t.2, .deliver t.1 l 0 t.2]

def round (S : Setup) (env : Nat → Io) (l : Nat) (c : Cluster) (t : Nat × Nat) : Cluster :=
  S.play Sys.always env (roundTurns l t) c

theorem reaches_rounds (S : Setup) (env : Nat → Io) (l : Nat) (ts : List (Nat × Nat)) (c : Cluster) :
    S.sys.Reaches Sys.always c (ts.foldl (S.round env l) c) := by
  induction ts generalizing c with
  | nil => exact .refl
  | cons t ts ih => exact Relation.ReflTransGen.trans (reaches_play _ env (roundTurns l t) c) (ih _)

/-- **What a round does**, when the heartbeat has sent the peer a request and the peer a response. -/
theorem round_eq {l b now : Nat} (hl : l ∈ S.ids) (hb : b ∈ S.ids) (hne : b ≠ l) {c : Cluster} {ae : AppendEntries}
    {rr : AppendEntriesResp} {x f : Server} (hx : (c.node l).periodic S.cfg (env now) = x)
    (hto : x.newestTo b = some ⟨l, b, .appendEntries ae⟩)
    (hf : (c.node b).handleAppendEntries S.cfg (env now) ae = f)
    (hback : f.newestTo l = some ⟨b, l, .appendEntriesResp rr⟩) :
    S.round env l c (b, now) =
      ((c.set l x).set b f).set l (x.handleAppendEntriesResp S.cfg (env now) b rr) := by
  have hxnode : ((c.set l x).set b f).node l = x := by simp [Cluster.set, hne.symm]
  have hfnode : ((c.set l x).set b f).node b = f := by simp [Cluster.set]
  have hbnode : (c.set l x).node b = c.node b := by simp [Cluster.set, hne]
  have hlnode : (c.set l x).node l = x := by simp [Cluster.set]
  have hfirst : S.play Sys.always env (roundTurns l (b, now)) c =
      S.play Sys.always env [.deliver l b 0 now, .deliver b l 0 now] (c.set l x) := by
    rw [roundTurns, play, action, if_pos hl]
    dsimp only
    rw [if_pos (show Sys.always c _ from trivial), ← hx]
    rfl
  have hsecond : S.play Sys.always env [.deliver l b 0 now, .deliver b l 0 now] (c.set l x) =
      S.play Sys.always env [.deliver b l 0 now] ((c.set l x).set b f) := by
    rw [play, action, if_pos ⟨hl, hb⟩, hlnode]
    rw [Server.newestTo] at hto
    rw [hto]
    dsimp only [Option.map_some]
    rw [if_pos (show Sys.always (c.set l x) _ from trivial)]
    show S.play Sys.always env _ ((c.set l x).set b (((c.set l x).node b).handleAppendEntries S.cfg (env now) ae)) = _
    rw [hbnode, hf]
  rw [round, hfirst, hsecond, play, action, if_pos ⟨hb, hl⟩, hfnode]
  rw [Server.newestTo] at hback
  rw [hback]
  dsimp only [Option.map_some]
  rw [if_pos (show Sys.always ((c.set l x).set b f) _ from trivial), play]
  show ((c.set l x).set b f).set l ((((c.set l x).set b f).node l).handleAppendEntriesResp S.cfg (env now) b rr) = _
  rw [hxnode]

end Setup

/-! ## Progress with one peer -/

section

open Server

variable {S : Setup} {env : Nat → Io} {r : LogRing} {L F : List Entry} {term l b next mtch k now : Nat} {c c' : Cluster}

/-- The follower `b` with the log `F`, and the leader's entry for it. -/
structure Linked (S : Setup) (L : List Entry) (term l b : Nat) (F : List Entry) (next mtch : Nat) (c : Cluster) : Prop where
  keeps : Keeps S.cfg F term b L.length (c.node b)
  peer : ∃ peer, (c.node l).nodeById b = some peer ∧ peer.isSelf = false ∧ peer.nextIndex = next ∧ peer.matchIndex = mtch

/-- The leader still leads after a round with `b`, and nothing else has happened to the others. -/
structure Rounded (S : Setup) (r : LogRing) (L : List Entry) (term l b : Nat) (c c' : Cluster) : Prop where
  heads : Heads S.cfg r term l L.length (c'.node l)
  commit : (c.node l).commitIndex ≤ (c'.node l).commitIndex
  applied : (c'.node l).lastApplied = (c'.node l).commitIndex
  others : ∀ a, a ≠ l → a ≠ b → c'.node a = c.node a
  table : ∃ f : Peer → Peer, (c'.node l).nodes = modifyNode b f (c.node l).nodes ∧
    ∀ p, (f p).id = p.id ∧ (f p).isSelf = p.isSelf

theorem nodeById_modifyNode_other {a : Nat} {f : Peer → Peer} (hf : ∀ p, (f p).id = p.id) (hne : a ≠ b) :
    ∀ ps : List Peer, (modifyNode b f ps).find? (fun p => p.id == a) = ps.find? (fun p => p.id == a)
  | [] => rfl
  | p :: ps => by
    rw [modifyNode]
    split
    · rename_i hp
      have hpa : (p.id == a) = false := by simp [hp, hne.symm]
      have hfa : ((f p).id == a) = false := by rw [hf, hpa]
      rw [List.find?_cons, List.find?_cons, hpa, hfa]
    · rw [List.find?_cons, List.find?_cons, nodeById_modifyNode_other hf hne ps]

theorem nodeById_modifyNode_self {f : Peer → Peer} (hf : ∀ p, (f p).id = p.id) {ps : List Peer} {peer : Peer}
    (h : ps.find? (fun p => p.id == b) = some peer) : (modifyNode b f ps).find? (fun p => p.id == b) = some (f peer) := by
  have hid : peer.id = b := by simpa using List.find?_some h
  rw [← modifyNode_const h]
  exact nodeById_modifyNode ((hf peer).trans hid) h

/-- A round with another peer leaves the peer as it stands. -/
theorem Linked.aside {a : Nat} (h : Linked S L term l a F next mtch c) (hr : Rounded S r L term l b c c') (hal : a ≠ l)
    (hab : a ≠ b) : Linked S L term l a F next mtch c' := by
  obtain ⟨f, hnodes, hf⟩ := hr.table
  obtain ⟨peer, hpeer, hrest⟩ := h.peer
  refine ⟨by rw [hr.others a hal hab]; exact h.keeps, peer, ?_, hrest⟩
  rw [nodeById, hnodes, nodeById_modifyNode_other (fun p => (hf p).1) hab]
  exact hpeer

/-- The pair of the leader and the peer. -/
theorem Linked.at (h : Linked S L term l b F next mtch c) (hheads : Heads S.cfg r term l L.length (c.node l)) :
    Pair.At S.cfg r term F next ⟨c.node l, c.node b⟩ := by
  obtain ⟨peer, hpeer, hself, hnext, -⟩ := h.peer
  have hid : peer.id = b := by simpa using List.find?_some hpeer
  refine ⟨⟨hheads.state, hheads.term_eq, hheads.log, ?_⟩, h.keeps.log, h.keeps.base, h.keeps.term_le⟩
  rw [show (Pair.mk (c.node l) (c.node b)).follower.selfId = b from h.keeps.self_eq]
  exact ⟨peer, hpeer, hid, hself, hnext⟩

variable (hl : l ∈ S.ids) (hb : b ∈ S.ids) (hne : b ≠ l) (hquiet : (env now).Quiet S.cfg L.length)
  (hheads : Heads S.cfg r term l L.length (c.node l)) (hL : r.Holds S.cfg L) (hr : r.base = 0)
  (hbeat : (c.node l).Heartbeat S.cfg ((env now).now (c.node l).reads))

include hl hb hne hquiet hheads hL hr hbeat

/-- **A round in which the peer refuses.** -/
theorem round_refused (h : Linked S L term l b F next mtch c) (hd : Diverged L F term) (hp : Probing L F next)
    (hno : next - 1 ≤ F.length → termOf F (next - 1) ≠ termOf L (next - 1)) :
    Rounded S r L term l b c (S.round env l c (b, now)) ∧
      ∃ next', next' < next ∧ Probing L F next' ∧ Linked S L term l b F next' mtch (S.round env l c (b, now)) := by
  obtain ⟨rr, hmis, hsucc, hterm, next', hp', hlt, hback⟩ :=
    (h.at hheads).refused (env now, env now) hL hr hd hp hno
  obtain ⟨peer, hpeer, hself, rfl, rfl⟩ := h.peer
  obtain ⟨hx, hnodes, hxcommit, -, hto⟩ := hheads.periodic hquiet hL hr hbeat
  have hle := hp.le
  have hto := hto b peer hpeer hself hp.pos (by omega)
  obtain ⟨hkeeps, hreply, -⟩ := h.keeps.refuse hheads.term_eq hmis
  have hself' : ((c.node l).request S.cfg L peer.nextIndex).leaderId = l := hheads.self_eq
  rw [hself'] at hreply
  have hxpeer : ((c.node l).periodic S.cfg (env now)).nodeById b = some peer := by
    rw [nodeById, hnodes]
    exact hpeer
  obtain ⟨hy, ⟨f, hf, hfp⟩, hycommit, hyapplied⟩ := hx.failure hquiet hr hxpeer hterm hsucc
    (fun peer => hback _ peer hx.log)
  rw [Setup.round_eq hl hb hne rfl hto rfl hreply]
  have hlnode : ∀ x f y : Server, (((c.set l x).set b f).set l y).node l = y := by simp [Cluster.set]
  have hbnode : ∀ x f y : Server, (((c.set l x).set b f).set l y).node b = f := by simp [Cluster.set, hne]
  refine ⟨⟨?_, ?_, ?_, fun a hal hab => by simp [Cluster.set, hal, hab], f, ?_, fun p => ⟨(hfp p).1, (hfp p).2.1⟩⟩,
    next', hlt, hp', ?_, f peer, ?_, ?_, ?_, ?_⟩
  · rw [hlnode]
    exact hy
  · rw [hlnode, hycommit, hxcommit]
  · rw [hlnode, hyapplied, hycommit]
  · rw [hlnode, hf, hnodes]
  · rw [hbnode]
    exact hkeeps
  · rw [hlnode, nodeById, hf]
    exact nodeById_modifyNode_self (fun p => (hfp p).1) hxpeer
  · rw [(hfp peer).2.1, hself]
  · exact (hfp peer).2.2.1
  · exact (hfp peer).2.2.2

/-- **A round in which it accepts.** -/
theorem round_accepted (hM : 0 < S.cfg.maxAppendEntries) (h : Linked S L term l b F next mtch c) (hpos : 1 ≤ next)
    (hle : next ≤ L.length + 1) (hF : next - 1 ≤ F.length)
    (hsame : (F.take (next - 1)).map Entry.content = (L.take (next - 1)).map Entry.content)
    (hother : next ≤ F.length → next ≤ L.length ∧ termOf F next ≠ termOf L next) :
    Rounded S r L term l b c (S.round env l c (b, now)) ∧
      ((c.node l).commitIndex = L.length → next = L.length + 1 →
        ((S.round env l c (b, now)).node b).commitIndex = L.length ∧
          ((S.round env l c (b, now)).node b).lastApplied = L.length) ∧
      (termOf L L.length = term → ((S.round env l c (b, now)).node l).majority ≤
          ((S.round env l c (b, now)).node l).nodes.countP (fun p : Peer => p.isSelf || decide (L.length ≤ p.matchIndex)) →
        ((S.round env l c (b, now)).node l).commitIndex = L.length) ∧
      ∃ F', InStep L F' (F'.length + 1) ∧ F'.length = min (next - 1 + S.cfg.maxAppendEntries) L.length ∧
        Linked S L term l b F' (F'.length + 1) (max F'.length mtch) (S.round env l c (b, now)) := by
  have hmis := (h.at hheads).matched (env now, env now) hF hsame
  obtain ⟨peer, hpeer, hself, rfl, rfl⟩ := h.peer
  obtain ⟨hx, hnodes, hxcommit, -, hto⟩ := hheads.periodic hquiet hL hr hbeat
  have hto := hto b peer hpeer hself hpos hle
  -- the log the entries make
  have hview : ((c.node l).request S.cfg L peer.nextIndex).view =
      (L.drop (peer.nextIndex - 1)).take S.cfg.maxAppendEntries := AppendEntries.view_eq rfl
  have hroom : peer.nextIndex - 1 + ((L.drop (peer.nextIndex - 1)).take S.cfg.maxAppendEntries).length ≤ S.cfg.logCapacity := by
    have := hL.last
    have := hL.count_le
    rw [List.length_take, List.length_drop]
    omega
  obtain ⟨F', hF', hcontent⟩ := h.keeps.log.appendAll_new h.keeps.base hF hroom
    (slice_end hM hpos hF fun hlt => (hother hlt).1) (slice_head hpos fun hlt => (hother hlt).2)
  obtain ⟨hstep, hlast⟩ := inStep_take hsame hcontent
  have hrequest : ((c.node l).request S.cfg L peer.nextIndex).term = term := hheads.term_eq
  obtain ⟨hkeeps, hreply, hcommit, happlied⟩ := h.keeps.accept hquiet hrequest hmis
    (by rw [hview]; exact hF') hheads.commit
  have hself' : ((c.node l).request S.cfg L peer.nextIndex).leaderId = l := hheads.self_eq
  rw [hself'] at hreply
  have hxpeer : ((c.node l).periodic S.cfg (env now)).nodeById b = some peer := by
    rw [nodeById, hnodes]
    exact hpeer
  have hresponse : ({ term := term, success := true, lastLogIndex := F'.length } : AppendEntriesResp).term = term := rfl
  obtain ⟨hy, ⟨f, hf, hfp⟩, hycommit, hyapplied, hfull⟩ := hx.success hquiet hL hr rfl hxpeer hresponse rfl
  rw [Setup.round_eq hl hb hne rfl hto rfl hreply]
  have hlnode : ∀ x f y : Server, (((c.set l x).set b f).set l y).node l = y := by simp [Cluster.set]
  have hbnode : ∀ x f y : Server, (((c.set l x).set b f).set l y).node b = f := by simp [Cluster.set, hne]
  have hall : (c.node l).commitIndex = L.length → peer.nextIndex = L.length + 1 →
      ((c.node l).request S.cfg L peer.nextIndex).commitFrom (c.node b).commitIndex = L.length := by
    intro hlead hnext
    have hold := h.keeps.commit
    unfold AppendEntries.commitFrom
    rw [request_prevLogIndex, show ((c.node l).request S.cfg L peer.nextIndex).leaderCommit = L.length from hlead]
    split <;> omega
  refine ⟨⟨?_, ?_, ?_, fun a hal hab => by simp [Cluster.set, hal, hab], f, ?_, fun p => ⟨(hfp p).1, (hfp p).2.1⟩⟩,
    fun hlead hnext => ?_, ?_, F', hstep, hlast, ?_, f peer, ?_, ?_, ?_, ?_⟩
  · rw [hlnode]
    exact hy
  · rw [hlnode]
    exact hxcommit.symm.trans_le hycommit
  · rw [hlnode, hyapplied]
  · rw [hlnode, hf, hnodes]
  · rw [hbnode]
    exact ⟨hcommit.trans (hall hlead hnext), happlied.trans (hall hlead hnext)⟩
  · rw [hlnode]
    exact hfull
  · rw [hbnode]
    exact hkeeps
  · rw [hlnode, nodeById, hf]
    exact nodeById_modifyNode_self (fun p => (hfp p).1) hxpeer
  · rw [(hfp peer).2.1, hself]
  · rw [(hfp peer).2.2.1]
    dsimp only
    omega
  · exact (hfp peer).2.2.2

omit hl hb hne hquiet hheads hL hr hbeat

/-- **How far the peer still is**: the leader looks for the place where their logs part, or its log is a beginning of the
leader's and there are at most `k` entries to go. -/
inductive Within (S : Setup) (L : List Entry) (term l b k : Nat) (c : Cluster) : Prop where
  | probing (F : List Entry) (next mtch : Nat) (link : Linked S L term l b F next mtch c) (diverged : Diverged L F term)
      (probing : Probing L F next) (le : next + L.length ≤ k)
  | inStep (F : List Entry) (mtch : Nat) (link : Linked S L term l b F (F.length + 1) mtch c)
      (step : InStep L F (F.length + 1)) (known : F.length ≤ mtch) (le : L.length ≤ F.length + k)

theorem Within.mono {k' : Nat} (h : Within S L term l b k c) (hle : k ≤ k') : Within S L term l b k' c := by
  cases h with
  | probing F next mtch link diverged probing le => exact .probing F next mtch link diverged probing (by omega)
  | inStep F mtch link step known le => exact .inStep F mtch link step known (by omega)

theorem Within.aside {a : Nat} (h : Within S L term l a k c) (hr : Rounded S r L term l b c c') (hal : a ≠ l) (hab : a ≠ b) :
    Within S L term l a k c' := by
  cases h with
  | probing F next mtch link diverged probing le => exact .probing F next mtch (link.aside hr hal hab) diverged probing le
  | inStep F mtch link step known le => exact .inStep F mtch (link.aside hr hal hab) step known le

include hl hb hne hquiet hheads hL hr hbeat

/-- **Each round brings the peer nearer**; when it has everything, a round hands on what is committed. -/
theorem Within.round (hM : 0 < S.cfg.maxAppendEntries) (h : Within S L term l b k c) :
    Rounded S r L term l b c (S.round env l c (b, now)) ∧ Within S L term l b (k - 1) (S.round env l c (b, now)) ∧
      (k = 0 → (c.node l).commitIndex = L.length →
        ((S.round env l c (b, now)).node b).commitIndex = L.length ∧
          ((S.round env l c (b, now)).node b).lastApplied = L.length) ∧
      (k = 0 → termOf L L.length = term → ((S.round env l c (b, now)).node l).majority ≤
          ((S.round env l c (b, now)).node l).nodes.countP (fun p : Peer => p.isSelf || decide (L.length ≤ p.matchIndex)) →
        ((S.round env l c (b, now)).node l).commitIndex = L.length) := by
  cases h with
  | probing F next mtch link diverged probing le =>
    have hpos := probing.pos
    have hle := probing.le
    by_cases hmatch : next - 1 ≤ F.length ∧ termOf F (next - 1) = termOf L (next - 1)
    · obtain ⟨hF, hterm⟩ := hmatch
      have hsame : (F.take (next - 1)).map Entry.content = (L.take (next - 1)).map Entry.content := by
        by_cases h0 : next - 1 = 0
        · rw [h0, List.take_zero, List.take_zero]
        · exact diverged.matching _ (by omega) (by omega) hF hterm
      obtain ⟨hround, -, -, F', hstep, hlen, hlink⟩ := round_accepted hl hb hne hquiet hheads hL hr hbeat hM link hpos
        (by omega) hF hsame (fun hlt => ⟨hle, probing.other hlt⟩)
      exact ⟨hround, .inStep F' _ hlink hstep (Nat.le_max_left _ _) (by omega), fun h0 => by omega, fun h0 => by omega⟩
    · obtain ⟨hround, next', hlt, hp', hlink⟩ := round_refused hl hb hne hquiet hheads hL hr hbeat link diverged probing
        (fun hF hterm => hmatch ⟨hF, hterm⟩)
      exact ⟨hround, .probing F next' mtch hlink diverged hp' (by omega), fun h0 => by omega, fun h0 => by omega⟩
  | inStep F mtch link step known le =>
    have hle := step.le
    obtain ⟨hround, hpeer, hlead, F', hstep, hlen, hlink⟩ := round_accepted hl hb hne hquiet hheads hL hr hbeat hM link
      (by omega) (by omega) (by omega) (by rw [Nat.add_sub_cancel, List.take_length]; exact step.content) (fun hlt => by omega)
    exact ⟨hround, .inStep F' _ hlink hstep (Nat.le_max_left _ _) (by omega), fun h0 hc => hpeer hc (by omega),
      fun _ => hlead⟩

end

/-! ## Progress with a majority -/

section

open Server

variable {S : Setup} {env : Nat → Io} {r : LogRing} {L : List Entry} {term l : Nat} {Q : List Nat} {c c' : Cluster}

/-- The peers `Q` are a majority together with the leader. -/
def Backing (Q : List Nat) (s : Server) : Prop :=
  s.majority ≤ s.nodes.countP (fun p : Peer => p.isSelf || decide (p.id ∈ Q))

theorem Rounded.backing {b : Nat} (h : Rounded S r L term l b c c') (hQ : Backing Q (c.node l)) : Backing Q (c'.node l) := by
  obtain ⟨f, hnodes, hf⟩ := h.table
  have hcol : (c'.node l).nodes.map (fun p : Peer => (p.id, p.isSelf)) = (c.node l).nodes.map (fun p => (p.id, p.isSelf)) := by
    rw [hnodes]
    exact map_modifyNode _ (fun p => by rw [(hf p).1, (hf p).2]) _
  have hcount : ∀ s : Server, s.nodes.countP (fun p : Peer => p.isSelf || decide (p.id ∈ Q)) =
      (s.nodes.map fun p : Peer => (p.id, p.isSelf)).countP (fun x => x.2 || decide (x.1 ∈ Q)) := by
    intro s
    rw [List.countP_map]
    rfl
  have hlen := congrArg List.length hcol
  rw [List.length_map, List.length_map] at hlen
  unfold Backing majority at hQ ⊢
  rw [hcount, hcol, ← hcount, hlen]
  exact hQ

/-- When the peers of `Q` have everything, a majority has. -/
theorem Backing.full (hQ : Backing Q (c.node l)) (hheads : Heads S.cfg r term l L.length (c.node l))
    (hall : ∀ b ∈ Q, Within S L term l b 0 c) :
    (c.node l).majority ≤ (c.node l).nodes.countP (fun p : Peer => p.isSelf || decide (L.length ≤ p.matchIndex)) := by
  refine Nat.le_trans hQ (List.countP_mono_left fun p hp hpQ => ?_)
  rw [Bool.or_eq_true, decide_eq_true_eq] at hpQ ⊢
  refine hpQ.imp id fun hin => ?_
  have hmatch : ∀ mtch, (∃ peer, (c.node l).nodeById p.id = some peer ∧ peer.matchIndex = mtch) → p.matchIndex = mtch := by
    rintro mtch ⟨peer, hpeer, rfl⟩
    have hid : peer.id = p.id := by simpa using List.find?_some hpeer
    rw [List.inj_on_of_nodup_map hheads.ids (List.mem_of_find?_eq_some hpeer) hp hid]
  cases hall p.id hin with
  | probing F next mtch link diverged probing le =>
    have := probing.pos
    omega
  | inStep F mtch link step known le =>
    obtain ⟨peer, hpeer, -, -, hm⟩ := link.peer
    rw [hmatch mtch ⟨peer, hpeer, hm⟩]
    omega

/-- A leader whose ticks find a heartbeat due and a majority in contact, for the rounds to come. -/
def Beats (S : Setup) (env : Nat → Io) (l : Nat) (ts : List (Nat × Nat)) (c : Cluster) : Prop :=
  ∀ pre t post, ts = pre ++ t :: post →
    ((pre.foldl (S.round env l) c).node l).Heartbeat S.cfg ((env t.2).now ((pre.foldl (S.round env l) c).node l).reads)

theorem Beats.head {t : Nat × Nat} {ts : List (Nat × Nat)} (h : Beats S env l (t :: ts) c) :
    (c.node l).Heartbeat S.cfg ((env t.2).now (c.node l).reads) := h [] t ts rfl

theorem Beats.tail {t : Nat × Nat} {ts : List (Nat × Nat)} (h : Beats S env l (t :: ts) c) :
    Beats S env l ts (S.round env l c t) := fun pre u post he => h (t :: pre) u post (by rw [he, List.cons_append])

theorem Beats.nil : Beats S env l [] c := fun pre t post he => by cases pre <;> cases he

theorem Beats.cons {t : Nat × Nat} {ts : List (Nat × Nat)}
    (h : (c.node l).Heartbeat S.cfg ((env t.2).now (c.node l).reads)) (hts : Beats S env l ts (S.round env l c t)) :
    Beats S env l (t :: ts) c := by
  rintro (_ | ⟨u, pre⟩) v post he
  · obtain ⟨rfl, -⟩ := List.cons.inj he
    exact h
  · rw [List.cons_append] at he
    obtain ⟨rfl, hrest⟩ := List.cons.inj he
    exact hts pre v post hrest

theorem Beats.append {as bs : List (Nat × Nat)} (h : Beats S env l (as ++ bs) c) :
    Beats S env l as c ∧ Beats S env l bs (as.foldl (S.round env l) c) := by
  refine ⟨fun pre t post he => h pre t (post ++ bs) (by rw [he, List.append_assoc, List.cons_append]), fun pre t post he => ?_⟩
  have := h (as ++ pre) t post (by rw [he, List.append_assoc])
  rwa [List.foldl_append] at this

variable (hl : l ∈ S.ids) (hQ : ∀ b ∈ Q, b ∈ S.ids ∧ b ≠ l) (hquiet : ∀ now, (env now).Quiet S.cfg L.length)
  (hL : r.Holds S.cfg L) (hr : r.base = 0) (hM : 0 < S.cfg.maxAppendEntries)

include hl hQ hquiet hL hr hM

/-- **Rounds in any order**: each peer comes nearer by its own. -/
theorem rounds_within : ∀ (ts : List (Nat × Nat)) (k : Nat → Nat) {c : Cluster}, (∀ t ∈ ts, t.1 ∈ Q) → Beats S env l ts c →
    Heads S.cfg r term l L.length (c.node l) → Backing Q (c.node l) → (∀ b ∈ Q, Within S L term l b (k b) c) →
      Heads S.cfg r term l L.length ((ts.foldl (S.round env l) c).node l) ∧
        Backing Q ((ts.foldl (S.round env l) c).node l) ∧
        ∀ b ∈ Q, Within S L term l b (k b - (ts.map Prod.fst).count b) (ts.foldl (S.round env l) c)
  | [], _, _, _, _, hheads, hback, hall => ⟨hheads, hback, hall⟩
  | t :: ts, k, c, hts, hbeats, hheads, hback, hall => by
    have ht : t.1 ∈ Q := hts t List.mem_cons_self
    obtain ⟨hin, hne⟩ := hQ t.1 ht
    obtain ⟨hround, hwithin, -⟩ := (hall t.1 ht).round hl hin hne (hquiet t.2) hheads hL hr hbeats.head hM
    have hstep : ∀ b ∈ Q, Within S L term l b (if b = t.1 then k b - 1 else k b) (S.round env l c t) := by
      intro b hb
      split
      · rename_i heq
        rw [heq]
        exact hwithin
      · rename_i heq
        exact (hall b hb).aside hround (hQ b hb).2 heq
    obtain ⟨hheads', hback', hrest⟩ := rounds_within ts _ (fun u hu => hts u (List.mem_cons_of_mem t hu)) hbeats.tail
      hround.heads (hround.backing hback) hstep
    refine ⟨hheads', hback', fun b hb => (hrest b hb).mono ?_⟩
    rw [List.map_cons, List.count_cons]
    by_cases heq : b = t.1
    · rw [if_pos heq, heq, beq_self_eq_true, if_pos rfl]
      omega
    · rw [if_neg heq]
      have hneq : (t.1 == b) = false := by simpa using fun h => heq h.symm
      rw [hneq, if_neg Bool.false_ne_true]
      exact Nat.le_refl _

/-- The peer has committed and applied the whole log. -/
def Done (L : List Entry) (b : Nat) (c : Cluster) : Prop :=
  (c.node b).commitIndex = L.length ∧ (c.node b).lastApplied = L.length

/-- **Once the leader has committed everything**, so does each peer that a round is made with. -/
theorem rounds_done : ∀ (ts : List (Nat × Nat)) {c : Cluster}, (∀ t ∈ ts, t.1 ∈ Q) → Beats S env l ts c →
    Heads S.cfg r term l L.length (c.node l) → (∀ b ∈ Q, Within S L term l b 0 c) → Done L l c →
      Heads S.cfg r term l L.length ((ts.foldl (S.round env l) c).node l) ∧
        (∀ b ∈ Q, Within S L term l b 0 (ts.foldl (S.round env l) c)) ∧ Done L l (ts.foldl (S.round env l) c) ∧
        ∀ b ∈ Q, Done L b c ∨ b ∈ ts.map Prod.fst → Done L b (ts.foldl (S.round env l) c)
  | [], _, _, _, hheads, hall, hlead => ⟨hheads, hall, hlead, fun b _ h => h.elim id (by simp)⟩
  | t :: ts, c, hts, hbeats, hheads, hall, hlead => by
    have ht : t.1 ∈ Q := hts t List.mem_cons_self
    obtain ⟨hin, hne⟩ := hQ t.1 ht
    obtain ⟨hround, hwithin, hpeer, -⟩ := (hall t.1 ht).round hl hin hne (hquiet t.2) hheads hL hr hbeats.head hM
    have hround : Rounded S r L term l t.1 c (S.round env l c t) := hround
    have hlead' : Done L l (S.round env l c t) := by
      have hge := hround.commit
      have hle := hround.heads.commit
      have happ := hround.applied
      have hold := hlead.1
      exact ⟨by omega, by omega⟩
    obtain ⟨hheads', hall', hdone, hrest⟩ := rounds_done ts (fun u hu => hts u (List.mem_cons_of_mem t hu)) hbeats.tail
      hround.heads (fun b hb => if heq : b = t.1 then heq ▸ hwithin else (hall b hb).aside hround (hQ b hb).2 heq) hlead'
    refine ⟨hheads', hall', hdone, fun b hb h => hrest b hb ?_⟩
    by_cases heq : b = t.1
    · exact .inl (heq ▸ hpeer rfl hlead.1)
    · refine h.imp (fun hd => ?_) fun hmem => ?_
      · unfold Done
        rw [hround.others b (hQ b hb).2 heq]
        exact hd
      · rw [List.map_cons] at hmem
        exact (List.mem_cons.1 hmem).resolve_left heq

end

/-- **Where it starts**: the leader `l` has the log `L`, whose last entry is of its own term, and for each of the peers `Q`
its first entry of that term next; with the peers it is a majority, and none has committed more than it has. -/
structure Established (S : Setup) (l : Nat) (Q : List Nat) (L : List Entry) (c : Cluster) : Prop where
  leader : l ∈ S.ids
  peers : ∀ b ∈ Q, b ∈ S.ids ∧ b ≠ l
  heads : Server.Heads S.cfg (c.node l).log (c.node l).currentTerm l L.length (c.node l)
  log : (c.node l).log.Holds S.cfg L
  base : (c.node l).log.base = 0
  own : termOf L L.length = (c.node l).currentTerm
  backing : Backing Q (c.node l)
  follower : ∀ b ∈ Q, ∃ F, Server.Keeps S.cfg F (c.node l).currentTerm b L.length (c.node b) ∧
    Diverged L F (c.node l).currentTerm
  next : ∀ b ∈ Q, ∃ peer, (c.node l).nodeById b = some peer ∧ peer.isSelf = false ∧
    FirstOf L (c.node l).currentTerm peer.nextIndex

theorem Established.within {S : Setup} {l b : Nat} {Q : List Nat} {L : List Entry} {c : Cluster} (h : Established S l Q L c)
    (hb : b ∈ Q) : Within S L (c.node l).currentTerm l b (2 * L.length) c := by
  obtain ⟨F, hkeeps, hdiverged⟩ := h.follower b hb
  obtain ⟨peer, hpeer, hself, hfirst⟩ := h.next b hb
  have hle := hfirst.le
  refine .probing F peer.nextIndex peer.matchIndex ⟨hkeeps, peer, hpeer, hself, rfl, rfl⟩ hdiverged
    ⟨hfirst.pos, hle, fun hF => ?_⟩ (by omega)
  rw [hfirst.term]
  exact hdiverged.fresh _ hfirst.pos hF

/-- **A leader in touch with a majority commits its whole log, and has it applied.**  The rounds may come in any order: each
peer of the majority takes part in at least `2 * L.length` of the first and in two of the others. -/
theorem leader_commits {S : Setup} {env : Nat → Io} {l : Nat} {Q : List Nat} {L : List Entry} {c : Cluster}
    (hM : 0 < S.cfg.maxAppendEntries) (hquiet : ∀ now, (env now).Quiet S.cfg L.length) (h : Established S l Q L c)
    (hne : Q ≠ []) (first rest : List (Nat × Nat)) (hmem : ∀ t ∈ first ++ rest, t.1 ∈ Q)
    (hbeats : Beats S env l (first ++ rest) c) (hfirst : ∀ b ∈ Q, 2 * L.length ≤ (first.map Prod.fst).count b)
    (hrest : ∀ b ∈ Q, 2 ≤ (rest.map Prod.fst).count b) :
    S.sys.Reaches Sys.always c ((first ++ rest).foldl (S.round env l) c) ∧
      (((first ++ rest).foldl (S.round env l) c).node l).state = .leader ∧
      Done L l ((first ++ rest).foldl (S.round env l) c) ∧
      ∀ b ∈ Q, Done L b ((first ++ rest).foldl (S.round env l) c) ∧
        (c.node l).log.Same S.cfg (((first ++ rest).foldl (S.round env l) c).node b).log := by
  refine ⟨Setup.reaches_rounds S env l (first ++ rest) c, ?_⟩
  obtain ⟨hbeats1, hbeats2⟩ := hbeats.append
  obtain ⟨hheads, hback, hall⟩ := rounds_within h.leader h.peers hquiet h.log h.base hM first (fun _ => 2 * L.length)
    (fun t ht => hmem t (List.mem_append_left rest ht)) hbeats1 h.heads h.backing (fun b hb => h.within hb)
  have hall : ∀ b ∈ Q, Within S L (c.node l).currentTerm l b 0 (first.foldl (S.round env l) c) :=
    fun b hb => (hall b hb).mono (by have := hfirst b hb; omega)
  rw [List.foldl_append]
  generalize first.foldl (S.round env l) c = c1 at hbeats2 hheads hback hall ⊢
  -- the first of the other rounds commits at the leader
  obtain ⟨b0, hb0⟩ := List.exists_mem_of_ne_nil Q hne
  cases rest with
  | nil =>
    have := hrest b0 hb0
    simp at this
  | cons t rest =>
    have ht : t.1 ∈ Q := hmem t (List.mem_append_right first List.mem_cons_self)
    obtain ⟨hin, hnel⟩ := h.peers t.1 ht
    obtain ⟨hround, hwithin, -, hlead⟩ := (hall t.1 ht).round h.leader hin hnel (hquiet t.2) hheads h.log h.base hbeats2.head hM
    have hall2 : ∀ b ∈ Q, Within S L (c.node l).currentTerm l b 0 (S.round env l c1 t) := fun b hb =>
      if heq : b = t.1 then heq ▸ hwithin else (hall b hb).aside hround (h.peers b hb).2 heq
    have hcommit := hlead rfl h.own ((hround.backing hback).full hround.heads hall2)
    obtain ⟨hheads3, hall3, hdone, hdone'⟩ := rounds_done h.leader h.peers hquiet h.log h.base hM rest
      (fun u hu => hmem u (List.mem_append_right first (List.mem_cons_of_mem t hu))) hbeats2.tail hround.heads hall2
      ⟨hcommit, hround.applied.trans hcommit⟩
    rw [List.foldl_cons]
    refine ⟨hheads3.state, hdone, fun b hb => ⟨hdone' b hb (.inr ?_), ?_⟩⟩
    · have hcount := hrest b hb
      rw [List.map_cons, List.count_cons] at hcount
      refine List.count_pos_iff.1 ?_
      split at hcount <;> omega
    · cases hall3 b hb with
      | probing F next mtch link diverged probing le =>
        have := probing.pos
        omega
      | inStep F mtch link step known le =>
        have hle := step.le
        exact (link.at hheads3).same h.log h.base step (by omega)

/-- Node 1 leads in term 3 with four entries; node 2 has three, two of them of another term, and node 3 is not heard of. -/
def parted : Cluster where
  node n :=
    if n = 1 then
      { Pair.diverging.leader with
        running := true
        nodes := [{ id := 1, isSelf := true }, { id := 2, isSelf := false, nextIndex := 3 },
          { id := 3, isSelf := false, nextIndex := 3 }] }
    else if n = 2 then Pair.diverging.follower
    else { selfId := n }

/-- Rounds with node 2, a second apart. -/
def everySecond (k : Nat) : Nat × Nat := (2, 1000 * (k + 1))

theorem parted_established : Established trio 1 [2] Pair.leaderEntries parted where
  leader := by decide
  peers := by decide
  heads := ⟨rfl, rfl, rfl, rfl, rfl, by decide, by decide, by decide, by decide⟩
  log := ⟨⟨rfl, by decide, by decide, by decide⟩, rfl⟩
  base := rfl
  own := by decide
  backing := by unfold Backing; decide
  follower := by
    intro b hb
    obtain rfl := List.mem_singleton.1 hb
    exact ⟨Pair.followerEntries, ⟨rfl, ⟨⟨rfl, by decide, by decide, by decide⟩, rfl⟩, rfl, by decide, by decide, by decide⟩,
      Pair.diverging_diverged⟩
  next := by
    intro b hb
    obtain rfl := List.mem_singleton.1 hb
    exact ⟨_, rfl, rfl, by decide, by decide, rfl,
      fun j hj hlt => (by decide : ∀ j < 3, 1 ≤ j → termOf Pair.leaderEntries j ≠ 3) j hlt hj⟩

theorem leader_commits_parted :
    let c := (((List.range 8).map everySecond) ++ [everySecond 8, everySecond 9]).foldl (trio.round Io.at 1) parted
    (c.node 1).commitIndex = 4 ∧ (c.node 2).lastApplied = 4 := by
  intro c
  have hbeats : Beats trio Io.at 1 (((List.range 8).map everySecond) ++ [everySecond 8, everySecond 9]) parted := by
    refine .cons ?_ (.cons ?_ (.cons ?_ (.cons ?_ (.cons ?_ (.cons ?_ (.cons ?_ (.cons ?_ (.cons ?_ (.cons ?_ .nil)))))))))
    all_goals decide
  obtain ⟨-, -, hlead, hpeers⟩ := leader_commits (by decide) (fun now => .inl rfl) parted_established (by decide)
    ((List.range 8).map everySecond) [everySecond 8, everySecond 9] (by decide) hbeats (by decide) (by decide)
  exact ⟨hlead.1, (hpeers 2 (by decide)).1.2⟩

end Raft
end FloodEws
