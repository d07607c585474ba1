import FloodEws.Safety
/-!
# Acks — what a match index is worth

A follower in the leader's term has the leader's log up to the match index the leader holds for it.  There are two
grounds for a match index: an `AppendEntriesResp`, whose last index the follower acknowledged in the leader's term, and an
`InstallSnapshotResp`, whose index its snapshot edge has not fallen below since (`Backed`).  The first takes more than
state machine safety does: a log that goes on past the slice must go on with the leader's entries, even where the leader
has committed that far.
-/
namespace FloodEws
namespace Raft

/-- **When what the receiver `s` reports is in the leader's log.**  Where its log goes on past the slice, and the sender
leads on, the last entry is of the leader's own term, or committed as far as the receiver knows, or one the leader
holds; a finished `InstallSnapshot` does not lie below the edge. -/
def AckOk (S : Setup) (c : Cluster) (s : Server) : Option Message → Prop
  | some ⟨_, _, .appendEntries ae⟩ => s.GoesOn S.cfg ae → (c.node ae.leaderId).state = .leader →
      (c.node ae.leaderId).currentTerm = ae.term →
      s.log.termAt S.cfg s.log.lastIndex = some ae.term ∨ s.log.lastIndex ≤ s.commitIndex ∨
        (c.node ae.leaderId).log.termAt S.cfg s.log.lastIndex = s.log.termAt S.cfg s.log.lastIndex
  | some ⟨_, _, .installSnapshot is⟩ => s.currentTerm ≤ is.term → is.done = true → s.log.base ≤ is.lastIncludedIndex
  | _ => True

/-- **What a report is worth as long as it can be heard.** -/
def Report (g : Replog Nat Entry) (c : Cluster) (m : Message) : Prop :=
  match m.payload with
  | .appendEntriesResp rr => rr.success = true → rr.lastLogIndex ≤ g.acked m.sender rr.term ∨
      ((c.node m.recipient).state = .leader → (c.node m.recipient).currentTerm ≠ rr.term)
  | .installSnapshotResp rr => rr.lastIncludedIndex ≤ (c.node m.sender).log.base
  | _ => True

/-- The peer has acknowledged its match index in the term `t`, or compacted that far. -/
def Backed (g : Replog Nat Entry) (c : Cluster) (t : Nat) (p : Peer) : Prop :=
  p.matchIndex ≤ g.acked p.id t ∨ p.matchIndex ≤ (c.node p.id).log.base

structure Counted (S : Setup) (g : Replog Nat Entry) (c : Cluster) : Prop where
  safe : Safe S g c
  sent : ∀ a, ∀ m ∈ (c.node a).sent, Report g c m
  peers : ∀ a, (c.node a).state = .leader → ∀ p ∈ (c.node a).nodes, p.isSelf = false →
    Backed g c (c.node a).currentTerm p

/-! ## The frame rule -/

variable {S : Setup} {g g' : Replog Nat Entry} {c : Cluster} {n : Nat} {x y : Server} {io : Io} {heard : Option Message}

/-- No edge goes down when one node moves. -/
theorem base_le_set (hbase : x.log.base ≤ y.log.base) (a : Nat) : ((c.set n x).node a).log.base ≤ ((c.set n y).node a).log.base := by
  by_cases ha : a = n
  · subst ha
    rw [Cluster.set_node_self, Cluster.set_node_self]
    exact hbase
  · rw [Cluster.set_node_ne ha, Cluster.set_node_ne ha]

theorem Backed.step {t : Nat} {p q : Peer} (h : Backed g (c.set n x) t q) (hg : g.Grows g') (hbase : x.log.base ≤ y.log.base)
    (hid : p.id = q.id) (hmatch : p.matchIndex = q.matchIndex) : Backed g' (c.set n y) t p := by
  unfold Backed at h ⊢
  rw [hid, hmatch]
  rcases h with h | h
  · exact .inl (Nat.le_trans h (hg.acked _ _))
  · exact .inr (Nat.le_trans h (base_le_set hbase _))

theorem Report.step {m : Message} (h : Report g (c.set n x) m) (hpl : Pledge S g (c.set n x) m) (hg : g.Grows g')
    (hbase : x.log.base ≤ y.log.base)
    (hlead : y.state = .leader → (x.state = .leader ∧ y.currentTerm = x.currentTerm) ∨ g.leader y.currentTerm ≠ some n) :
    Report g' (c.set n y) m := by
  unfold Report at h ⊢
  cases hp : m.payload with
  | requestVote rv => trivial
  | requestVoteResp rr => trivial
  | appendEntries ae => trivial
  | installSnapshot is => trivial
  | installSnapshotResp rr =>
    rw [hp] at h
    exact Nat.le_trans h (base_le_set hbase _)
  | appendEntriesResp rr =>
    rw [hp] at h
    unfold Pledge at hpl
    rw [hp] at hpl
    intro hsucc
    rcases h hsucc with h | h
    · exact .inl (Nat.le_trans h (hg.acked _ _))
    · refine .inr fun hst hterm => ?_
      by_cases hrec : m.recipient = n
      · -- A node that led the term once is not elected in it again.
        rw [hrec, Cluster.set_node_self] at h hst hterm
        rcases hlead hst with ⟨hx, ht⟩ | hno
        · exact h hx (ht.symm.trans hterm)
        · exact hno (by rw [hterm, ← hrec]; exact (hpl hsucc).1)
      · rw [Cluster.set_node_ne hrec] at h hst hterm
        exact h hst hterm

namespace Counted

/-- **The frame rule**: one node moves. -/
theorem step (h : Counted S g (c.set n x)) (hsafe : Safe S g' (c.set n y)) (hg : g.Grows g')
    (hbase : x.log.base ≤ y.log.base)
    (hlead : y.state = .leader → (x.state = .leader ∧ y.currentTerm = x.currentTerm) ∨ g.leader y.currentTerm ≠ some n)
    (hpeers : y.state = .leader → ∀ p ∈ y.nodes, p.isSelf = false → Backed g' (c.set n y) y.currentTerm p)
    (hsent : ∀ m ∈ y.sent, m ∈ x.sent ∨ Report g' (c.set n y) m) : Counted S g' (c.set n y) := by
  refine ⟨hsafe, ?_, ?_⟩
  · intro a m hm
    have hold : m ∈ ((c.set n x).node a).sent → Report g' (c.set n y) m :=
      fun hm => (h.sent a m hm).step (h.safe.sent a m hm) hg hbase hlead
    by_cases ha : a = n
    · subst ha
      rw [Cluster.set_node_self] at hm hold
      rcases hsent m hm with hm | hm
      · exact hold hm
      · exact hm
    · rw [Cluster.set_node_ne ha] at hm hold
      exact hold hm
  · intro a hst p hp hself
    by_cases ha : a = n
    · subst ha
      rw [Cluster.set_node_self] at hst hp ⊢
      exact hpeers hst p hp hself
    · have hold := h.peers a
      rw [Cluster.set_node_ne ha] at hst hp hold ⊢
      exact (hold hst p hp hself).step hg hbase rfl rfl

theorem core_iff : Counted S g (c.set n x) ↔ Counted S g (c.set n x.core) := by
  constructor
  · intro h
    refine h.step (Safe.core_iff.1 h.safe) (.refl g) (Nat.le_refl _) (fun hl => .inl ⟨hl, rfl⟩) ?_ (fun m hm => .inl hm)
    intro hst p hp hself
    obtain ⟨q, hq, rfl⟩ := List.mem_map.1 hp
    have hold := h.peers n
    rw [Cluster.set_node_self] at hold
    exact (hold hst q hq hself).step (.refl g) (Nat.le_refl _) rfl rfl
  · intro h
    refine h.step (Safe.core_iff.2 h.safe) (.refl g) (Nat.le_refl _) (fun hl => .inl ⟨hl, rfl⟩) ?_ (fun m hm => .inl hm)
    intro hst p hp hself
    have hold := h.peers n
    rw [Cluster.set_node_self] at hold
    exact (hold hst p.key (List.mem_map_of_mem hp) hself).step (.refl g) (Nat.le_refl _) rfl rfl

/-- **What is reported to a leader is backed.** -/
theorem report (h : Counted S g (c.set n x)) (hst : x.state = .leader)
    (hheard : ∀ m, heard = some m → m.recipient = n ∧ S.InFlight (c.set n x) m) {sender l : Nat}
    (hr : Reports x heard sender l) :
    l ≤ g.acked sender x.currentTerm ∨ l ≤ ((c.set n x).node sender).log.base := by
  obtain ⟨m, hm, rfl, hr⟩ := hr
  obtain ⟨hrec, a, -, hsent⟩ := hheard m hm
  have hrep := h.sent a m hsent
  unfold Report at hrep
  rcases hr with ⟨rr, hrr, hsucc, ht, rfl⟩ | ⟨rr, hrr, -, rfl⟩
  · rw [hrr] at hrep
    rcases hrep hsucc with hrep | hrep
    · exact .inl (ht ▸ hrep)
    · rw [hrec, Cluster.set_node_self] at hrep
      exact absurd ht.symm (hrep hst)
  · rw [hrr] at hrep
    exact .inr hrep

/-- **A log that goes on past an accepted slice goes on with the leader's entries**, while it leads. -/
theorem prefix_of_ackOk {m : Message} {ae : AppendEntries} (h : Safe S g (c.set n x)) (hok : AckOk S c (c.node n) (some m))
    (h0 : Server.Untouched (c.node n) x) (hae : m.payload = .appendEntries ae) (hl : g.leader ae.term ≠ none)
    (ht : x.currentTerm ≤ ae.term) (hgoes : (c.node n).GoesOn S.cfg ae) (hne : ae.leaderId ≠ n)
    (hst : (c.node ae.leaderId).state = .leader) (hterm : (c.node ae.leaderId).currentTerm = ae.term) :
    g.log n <+: g.llog ae.term := by
  have hring := h.self_mirror.ring
  have hlt := hgoes.2.2.2
  obtain ⟨src, dst, pl⟩ := m
  cases hae
  have hend := hok hgoes hst hterm
  rw [← h0.log, ← h0.commit, hring.lastIndex] at hend
  rw [← h0.log, hring.lastIndex] at hlt
  rcases hend with hown | hcommit | hheld
  · -- An entry of the leader's term was its own, and so were those before it.
    rw [hring.termAt_eq hring.base_le (Nat.le_refl _)] at hown
    obtain ⟨i, hi⟩ : ∃ i, (g.log n).length = i + 1 := ⟨(g.log n).length - 1, by omega⟩
    obtain ⟨e, he⟩ : ∃ e, (g.log n)[i]? = some e := ⟨_, List.getElem?_eq_getElem (by omega)⟩
    rw [hi, termOf_succ he] at hown
    have hpre := h.mirrors.coherent.log n i e he
    rw [List.take_of_length_le (by omega), Option.some.inj hown] at hpre
    exact hpre
  · have hpre := (h.self_trust.commit.grows (.refl g) ht).at_leader h.sound hl
    rwa [List.take_of_length_le hcommit] at hpre
  · have hpre := h.prefix_of_termAt hne hst (Nat.zero_lt_of_lt hlt) hheld
    rwa [hterm] at hpre

/-- What is in the leader's log does no harm. -/
theorem safeOk_of_ackOk (h : Safe S g c) (hheard : ∀ m, heard = some m → m.recipient = n ∧ S.InFlight c m)
    (hok : AckOk S c (c.node n) heard) : SafeOk S c (c.node n) heard := by
  cases heard with
  | none => trivial
  | some m =>
    have hflight := (hheard m rfl).2
    obtain ⟨src, dst, pl⟩ := m
    cases pl with
    | appendEntries ae =>
      intro hgoes hst hterm
      by_cases hne : ae.leaderId = n
      · rw [hne]
        exact .inr ⟨Nat.le_refl _, rfl⟩
      · have hl : g.leader ae.term ≠ none := by
          rw [(h.mirrors.heard h.votes hflight).1.1]
          exact Option.some_ne_none _
        have hset : Safe S g (c.set n (c.node n)) := by
          rw [Cluster.set_self]
          exact h
        have hpre := prefix_of_ackOk hset hok ⟨Nat.le_refl _, rfl, rfl, rfl, rfl, rfl, rfl⟩ rfl hl hgoes.1 hgoes hne hst hterm
        have hring := (h.mirrors.node n).ring
        have hlead := h.mirrors.node ae.leaderId
        have hlog := (hlead.leads hst).2
        rw [hterm] at hlog
        have hle : (g.log n).length ≤ (g.log ae.leaderId).length := by
          rw [hlog]
          exact hpre.length_le
        rw [hring.lastIndex, hlead.ring.lastIndex, hring.termAt_eq hring.base_le (Nat.le_refl _)]
        by_cases hb : (c.node ae.leaderId).log.base ≤ (g.log n).length
        · refine .inr ⟨hle, ?_⟩
          rw [hlead.ring.termAt_eq hb hle, hlog, ← termOf_take (Nat.le_refl _), ← List.prefix_iff_eq_take.1 hpre]
        · have := (h.trust ae.leaderId).base_le
          exact .inl (by omega)
    | installSnapshot is => exact hok
    | requestVote rv => trivial
    | requestVoteResp rr => trivial
    | appendEntriesResp rr => trivial
    | installSnapshotResp rr => trivial

/-! ## Every move -/

/-- Reports that are sent, but for the reply to an accepted `AppendEntries`. -/
theorem report_of_canSend {m : Message} (h : Safe S g (c.set n x)) (hcan : x.CanSend S.cfg m) (hbase : x.log.base ≤ y.log.base) :
    Report g' (c.set n y) m := by
  obtain ⟨hsender, hcan⟩ := hcan
  unfold Report
  cases hp : m.payload with
  | requestVote rv => trivial
  | requestVoteResp rr => trivial
  | appendEntries ae => trivial
  | installSnapshot is => trivial
  | appendEntriesResp rr =>
    rw [hp] at hcan
    have hcan : rr.success = false := hcan
    intro hsucc
    rw [hcan] at hsucc
    cases hsucc
  | installSnapshotResp rr =>
    rw [hp] at hcan
    dsimp only
    rw [hcan.2, hsender, h.self_voter.self, Cluster.set_node_self]
    exact hbase

/-- **The reply to an accepted `AppendEntries`** reports what was acknowledged, or the leader leads no more. -/
theorem accept {m : Message} {ae : AppendEntries} (h : Safe S g (c.set n x)) (hv : VoteInv S (c.set n (x.accepted S.cfg ae)))
    (hflight : S.InFlight (c.set n x) m) (hsafe : SafeOk S c (c.node n) (some m)) (hok : AckOk S c (c.node n) (some m))
    (h0 : Server.Untouched (c.node n) x) (hae : m.payload = .appendEntries ae) (ht : ae.term = x.currentTerm)
    (hst : x.state = .follower) (hp : x.prevMismatch S.cfg ae = none) :
    ∃ g', g.Grows g' ∧ Safe S g' (c.set n (x.accepted S.cfg ae)) ∧
      Report g' (c.set n (x.accepted S.cfg ae)) ⟨x.selfId, ae.leaderId, .appendEntriesResp
        { term := x.currentTerm, success := true, lastLogIndex := (x.accepted S.cfg ae).log.lastIndex }⟩ := by
  obtain ⟨g', hg, hs, hworth⟩ := h.accept hv hflight hsafe h0 hae ht hst hp
  refine ⟨g', hg, hs, fun _ => ?_⟩
  rcases hworth with hacked | ⟨hgoes, hnot⟩
  · rw [h.self_voter.self]
    exact .inl hacked
  · refine .inr fun hlead hterm => ?_
    have hl : g.leader ae.term ≠ none := by
      rw [((h.mirrors.heard h.votes hflight).1.appendEntries hae).1]
      exact Option.some_ne_none _
    have hne : ae.leaderId ≠ n := by
      intro hself
      obtain ⟨evs, -, he⟩ := Server.accepted_eq S.cfg ae x
      dsimp only at hlead
      rw [hself, Cluster.set_node_self, he] at hlead
      exact absurd (hst.symm.trans hlead) (by decide)
    dsimp only at hlead hterm
    rw [Cluster.set_node_ne hne] at hlead hterm
    have hpre := prefix_of_ackOk h hok h0 hae hl (Nat.le_of_eq ht.symm) hgoes hne hlead (hterm.trans ht.symm)
    rw [ht] at hpre
    exact hnot hpre

theorem leads_move {fit : Prop} {start : Server} (h : Safe S g (c.set n x)) (hmv : Move S.cfg io fit heard start x y)
    (hst : y.state = .leader) :
    (x.state = .leader ∧ y.currentTerm = x.currentTerm) ∨ g.leader y.currentTerm ≠ some n := by
  rcases hmv.leading h.self_voter.isSelf_of_self hst with ⟨hx, ht, -⟩ | ⟨hx, ht, -⟩
  · exact .inl ⟨hx, ht⟩
  · rw [ht]
    exact .inr (h.self_mirror.runs hx).2

/-- **A leader's match indices after a move** are backed as they were, by the report at hand, or 0. -/
theorem backed_move {fit : Prop} {start : Server} (h : Counted S g (c.set n x))
    (hheard : ∀ m, heard = some m → m.recipient = n ∧ S.InFlight (c.set n x) m) (hmv : Move S.cfg io fit heard start x y)
    (hbase : x.log.base ≤ y.log.base) (hg : g.Grows g') (hst : y.state = .leader) {p : Peer} (hp : p ∈ y.nodes)
    (hpself : p.isSelf = false) : Backed g' (c.set n y) y.currentTerm p := by
  rcases hmv.leading h.safe.self_voter.isSelf_of_self hst with ⟨hx, ht, hnodes⟩ | ⟨-, -, hzero⟩
  · obtain ⟨q, hq, hqself, hid, hmatch⟩ := hnodes p hp hpself
    have hold := h.peers n
    rw [Cluster.set_node_self] at hold
    have hback := hold hx q hq hqself
    rw [ht]
    rcases hmatch with hmatch | ⟨l, hr, hmatch⟩
    · exact hback.step hg hbase hid hmatch
    · rcases Nat.le_total l q.matchIndex with hle | hle
      · exact hback.step hg hbase hid (hmatch.trans (Nat.max_eq_right hle))
      · have hreport : Backed g (c.set n x) x.currentTerm { q with matchIndex := l } := by
          unfold Backed
          rw [← hid]
          exact h.report hx hheard hr
        exact hreport.step hg hbase hid (hmatch.trans (Nat.max_eq_left hle))
  · rw [Backed, hzero p hp hpself]
    exact .inl (Nat.zero_le _)

/-- **Every move keeps the match indices backed**, if what the message at hand makes the node report is in the leader's
log. -/
theorem move (hids : badNode ∉ S.ids) (hn : n ∈ S.ids) (h : Counted S g (c.set n x))
    (hheard : ∀ m, heard = some m → m.recipient = n ∧ S.InFlight (c.set n x) m) (hsafe : SafeOk S c (c.node n) heard)
    (hok : AckOk S c (c.node n) heard) (hmv : Move S.cfg io True heard (c.node n) x y) :
    ∃ g', g.Grows g' ∧ Counted S g' (c.set n y) := by
  have hbase : x.log.base ≤ y.log.base := by
    refine hmv.base_le fun m is hm his ht hd h0 => ?_
    rw [hm] at hok
    obtain ⟨src, dst, pl⟩ := m
    cases his
    rw [h0.log]
    exact hok (ht ▸ h0.term) hd
  have hframe : ∀ g', g.Grows g' → Safe S g' (c.set n y) → (∀ m ∈ y.sent, m ∈ x.sent ∨ Report g' (c.set n y) m) →
      Counted S g' (c.set n y) :=
    fun g' hg hs hsent => h.step hs hg hbase (leads_move h.safe hmv)
      (fun hst p hp hpself => h.backed_move hheard hmv hbase hg hst hp hpself) hsent
  by_cases hacc : ∃ m ae, heard = some m ∧ m.payload = .appendEntries ae ∧ ae.term = x.currentTerm ∧
      (x.state = .follower ∧ x.prevMismatch S.cfg ae = none ∧ Server.Untouched (c.node n) x) ∧ y = x.accepted S.cfg ae
  · obtain ⟨m, ae, hm, hae, ht, ⟨hst, hp, h0⟩, rfl⟩ := hacc
    have hv : VoteInv S (c.set n (x.accepted S.cfg ae)) := h.safe.votes.move hheard hmv
    rw [hm] at hsafe hok
    obtain ⟨g', hg, hs, hreply⟩ := accept h.safe hv (hheard m hm).2 hsafe hok h0 hae ht hst hp
    refine ⟨g', hg, hframe g' hg hs fun m' hm' => ?_⟩
    rcases hmv.sends hm' with hm' | hcan | ⟨m₀, ae', hm₀, hae', -, -, -, rfl⟩
    · exact .inl hm'
    · exact .inr (report_of_canSend h.safe hcan hbase)
    · obtain rfl : m = m₀ := Option.some.inj (hm.symm.trans hm₀)
      obtain rfl : ae = ae' := by
        rw [hae] at hae'
        injection hae'
      exact .inr hreply
  · obtain ⟨g', hg, hs⟩ := h.safe.move hids hn hheard hsafe hmv
    refine ⟨g', hg, hframe g' hg hs fun m' hm' => ?_⟩
    rcases hmv.sends hm' with hm' | hcan | ⟨m₀, ae, hm₀, hae, ht, hfits, hy, -⟩
    · exact .inl hm'
    · exact .inr (report_of_canSend h.safe hcan hbase)
    · exact absurd ⟨m₀, ae, hm₀, hae, ht, hfits, hy⟩ hacc

theorem init (hfresh : S.Fresh) : Counted S S.blank S.init := by
  refine ⟨.init hfresh, ?_, ?_⟩
  · intro a m hm
    obtain ⟨t, v, hev⟩ := mem_sent.1 hm
    cases hev
  · intro a hst
    have hnot : (S.rebuild a []).state ≠ .leader := by
      unfold Setup.rebuild Server.new
      split <;> exact fun hf => (by cases hf)
    exact absurd hst hnot

/-- **The match index of a peer in the leader's term**: both logs reach that far, and agree up to there. -/
theorem take_eq (h : Counted S g c) {a : Nat} (hst : (c.node a).state = .leader) {p : Peer} (hp : p ∈ (c.node a).nodes)
    (hself : p.isSelf = false) (hterm : (c.node p.id).currentTerm = (c.node a).currentTerm) :
    p.matchIndex ≤ (g.log a).length ∧ p.matchIndex ≤ (g.log p.id).length ∧
      (g.log p.id).take p.matchIndex = (g.log a).take p.matchIndex := by
  obtain ⟨hl, hlog⟩ := (h.safe.mirrors.node a).leads hst
  have hl : g.leader (c.node a).currentTerm ≠ none := by
    rw [hl]
    exact Option.some_ne_none a
  have hle := (h.safe.trust a).match_le hst p hp hself
  have hring := (h.safe.mirrors.node p.id).ring
  have htr := h.safe.trust p.id
  rw [hlog]
  refine ⟨hle, ?_⟩
  rcases h.peers a hst p hp hself with hacked | hbase
  · -- Nothing comes between the leader's term and the peer's.
    rcases h.safe.sound.kept p.id _ _ hacked with hpre | ⟨t, h1, h2, -⟩
    · have hlen := hpre.length_le
      rw [List.length_take] at hlen
      refine ⟨by omega, ?_⟩
      have heq := List.prefix_iff_eq_take.1 hpre
      rw [List.length_take, Nat.min_eq_left hle] at heq
      exact heq.symm
    · rw [(h.safe.mirrors.node p.id).term, hterm] at h2
      omega
  · have hlen := hring.base_le
    have hcommit := htr.commit
    rw [hterm] at hcommit
    exact ⟨by omega, hcommit.take_eq h.safe.sound hl (hbase.trans htr.base_le) (by omega)⟩

end Counted

/-! ## Runs -/

/-- No node goes down, no election is started at the last term, and what every accepted message makes its receiver report
is in the leader's log. -/
def Setup.AckSteps (S : Setup) (c : Cluster) : Action → Prop
  | .call n io k => ((c.node n).electing io k = true → (c.node n).currentTerm + 1 < 2 ^ 64) ∧ AckOk S c (c.node n) k.heard
  | .restart _ => False
  | .crash _ _ _ _ => False

theorem counted_exec (hids : badNode ∉ S.ids) {act : Action} (h : ∃ g, Counted S g c) (hen : S.sys.enabled c act)
    (hok : S.AckSteps c act) : ∃ g, Counted S g (S.sys.exec c act) := by
  cases act with
  | call n io k =>
    obtain ⟨hfit, hack⟩ := hok
    have hheard : ∀ m, k.heard = some m → m.recipient = n ∧ S.InFlight c m := by
      intro m hm
      refine hen.2 m ?_
      cases k <;> first | cases hm; rfl | cases hm
    have hsafe : SafeOk S c (c.node n) k.heard := by
      obtain ⟨g, hc⟩ := h
      exact Counted.safeOk_of_ackOk hc.safe hheard hack
    refine Setup.call_invariant (P := fun c => ∃ g, Counted S g c) True h hen (fun _ => hfit) ?_ ?_
    · intro x
      exact exists_congr (fun g => Counted.core_iff)
    · rintro x y ⟨g, hx⟩ - hheard hmv
      obtain ⟨g', -, hy⟩ := hx.move hids hen.1 hheard hsafe hack hmv
      exact ⟨g', hy⟩
  | restart n => exact hok.elim
  | crash n io k made => exact hok.elim

/-- **Match indices are sound**: in every state of a run whose accepted messages meet the condition, a leader's match index
for a peer in its term lies within both logs, and both agree at every index up to it that both hold. -/
theorem match_index_sound (S : Setup) (hids : badNode ∉ S.ids) (hfresh : S.Fresh) (c : Cluster)
    (h : S.sys.Reachable S.AckSteps c) (a : Nat) (hst : (c.node a).state = .leader) (p : Peer) (hp : p ∈ (c.node a).nodes)
    (hself : p.isSelf = false) (hterm : (c.node p.id).currentTerm = (c.node a).currentTerm) :
    p.matchIndex ≤ (c.node a).log.lastIndex ∧ ∀ i, i ≤ p.matchIndex → i ≤ (c.node p.id).log.lastIndex ∧
      ∀ ea eb, (c.node a).log.at? S.cfg i = some ea → (c.node p.id).log.at? S.cfg i = some eb →
        ea.term = eb.term ∧ ea.type = eb.type ∧ ea.payload = eb.payload := by
  have hinv : ∃ g, Counted S g c :=
    h.invariant (P := fun c => ∃ g, Counted S g c) ⟨_, .init hfresh⟩ (fun _ _ hx hen hok => counted_exec hids hx hen hok)
  obtain ⟨g, hg⟩ := hinv
  obtain ⟨hle, hle', heq⟩ := hg.take_eq hst hp hself hterm
  have hring := (hg.safe.mirrors.node a).ring
  have hring' := (hg.safe.mirrors.node p.id).ring
  rw [hring.lastIndex, hring'.lastIndex]
  refine ⟨hle, fun i hi => ⟨by omega, fun ea eb ha hb => ?_⟩⟩
  obtain ⟨hpos, -, hea⟩ := hring.at?_eq_some.1 ha
  obtain ⟨-, -, heb⟩ := hring'.at?_eq_some.1 hb
  have hsame : some ea = some eb := by
    rw [← hea, ← heb, ← List.getElem?_take_of_lt (show i - 1 < p.matchIndex by omega), ← heq,
      List.getElem?_take_of_lt (by omega)]
  injection hsame with hsame
  rw [hsame]
  exact ⟨rfl, rfl, rfl⟩

instance (S : Setup) (c : Cluster) (s : Server) : ∀ heard : Option Message, Decidable (AckOk S c s heard)
  | some ⟨_, _, .appendEntries ae⟩ => inferInstanceAs (Decidable (s.GoesOn S.cfg ae → (c.node ae.leaderId).state = .leader →
      (c.node ae.leaderId).currentTerm = ae.term →
      s.log.termAt S.cfg s.log.lastIndex = some ae.term ∨ s.log.lastIndex ≤ s.commitIndex ∨
        (c.node ae.leaderId).log.termAt S.cfg s.log.lastIndex = s.log.termAt S.cfg s.log.lastIndex))
  | some ⟨_, _, .installSnapshot is⟩ => inferInstanceAs (Decidable (s.currentTerm ≤ is.term → is.done = true →
      s.log.base ≤ is.lastIncludedIndex))
  | some ⟨_, _, .requestVote _⟩ => inferInstanceAs (Decidable True)
  | some ⟨_, _, .requestVoteResp _⟩ => inferInstanceAs (Decidable True)
  | some ⟨_, _, .appendEntriesResp _⟩ => inferInstanceAs (Decidable True)
  | some ⟨_, _, .installSnapshotResp _⟩ => inferInstanceAs (Decidable True)
  | none => inferInstanceAs (Decidable True)

instance (S : Setup) (c : Cluster) : ∀ act : Action, Decidable (S.AckSteps c act)
  | .call n io k => inferInstanceAs (Decidable (((c.node n).electing io k = true → (c.node n).currentTerm + 1 < 2 ^ 64) ∧
      AckOk S c (c.node n) k.heard))
  | .restart _ => inferInstanceAs (Decidable False)
  | .crash _ _ _ _ => inferInstanceAs (Decidable False)

/-- Node 1 leads and has replicated its no-op to node 2, which is in its term. -/
theorem match_index_sound_firstCommit :
    let c := trio.play trio.AckSteps .at firstCommit trio.init
    ∃ p ∈ (c.node 1).nodes, p.id = 2 ∧ p.matchIndex = 1 ∧ 1 ≤ (c.node 2).log.lastIndex := by
  intro c
  have hc : trio.sys.Reachable trio.AckSteps c := Setup.reachable_play _ _ _
  have hp : ∃ p ∈ (c.node 1).nodes, (c.node 1).state = .leader ∧ p.isSelf = false ∧ p.id = 2 ∧ p.matchIndex = 1 ∧
      (c.node p.id).currentTerm = (c.node 1).currentTerm := by decide +kernel
  obtain ⟨p, hmem, hst, hself, hid, hmatch, hterm⟩ := hp
  refine ⟨p, hmem, hid, hmatch, ?_⟩
  have hsound := (match_index_sound trio (by decide) (fun _ => .inl rfl) c hc 1 hst p hmem hself hterm).2 1 (by omega)
  exact hid ▸ hsound.1

/-- `staleTail` up to where node 1 hears that node 2 has taken the slice. -/
def staleMatch : List Turn := staleTail.take 47

/-- **Node 1 leads term 3 with a match index of 9 for node 2, which is in term 3 and has an entry of term 2 there.** -/
theorem match_index_of_stale_tail :
    let c := trio.play NoRestart .at staleMatch trio.init
    trio.sys.Reachable NoRestart c ∧ (c.node 1).state = .leader ∧ (c.node 1).currentTerm = 3 ∧ (c.node 2).currentTerm = 3 ∧
      (∃ p ∈ (c.node 1).nodes, p.id = 2 ∧ p.isSelf = false ∧ p.matchIndex = 9) ∧
      (c.node 1).log.at? trio.cfg 9 = some { term := 3, index := 9 } ∧
      (c.node 2).log.at? trio.cfg 9 = some { term := 2, index := 9 } :=
  ⟨Setup.reachable_play _ _ _, by decide +kernel⟩

end Raft
end FloodEws
