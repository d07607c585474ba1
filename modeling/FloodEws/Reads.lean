import FloodEws.Safety
/-!
# Reads — when a leader's commit index is the highest

`can_read` holds at a leader that has committed an entry of its own term.  A leader that was deposed and has not noticed
still answers yes, when its successor may have committed more.  To say when this is, the cluster is run together with
the marks of its leaders: for every term, the last index that the leader of the term counted as committed, an entry of
that term.  Every other commit index was carried by a message from one of these.
-/
namespace FloodEws
namespace Raft

/-- The commit index a message reports. -/
def Message.reports (m : Message) : Nat :=
  match m.payload with
  | .appendEntries ae => ae.leaderCommit
  | .installSnapshot is => is.lastIncludedIndex
  | _ => 0

/-- How far the message at hand can carry a commit index. -/
def reported (heard : Option Message) : Nat := (heard.map Message.reports).getD 0

/-! ## One move -/

section
open Server
variable {cfg : Config} {io : Io} {fit : Prop} {heard : Option Message} {start x y : Server}

/-- **What a move does to the commit index**: nothing, a leader counts, or the message at hand carries it. -/
theorem Move.commit_cases (hmv : Move cfg io fit heard start x y) :
    y.commitIndex = x.commitIndex ∨
      (x.state = .leader ∧ findCommit cfg x (x.log.lastIndex - x.commitIndex) = some y.commitIndex ∧
        y = { x with commitIndex := y.commitIndex }) ∨
      (x.commitIndex ≤ y.commitIndex ∧ y.commitIndex ≤ max x.commitIndex (reported heard)) := by
  cases hmv with
  | advance next hs hn => exact .inr (.inl ⟨hs, hn, rfl⟩)
  | accept m ae hm hae ht hs hp h0 =>
    obtain ⟨evs, -, he⟩ := accepted_eq cfg ae x
    have hr : reported heard = ae.leaderCommit := by
      rw [hm]
      show m.reports = _
      unfold Message.reports
      rw [hae]
    rw [he, hr]
    refine .inr (.inr ?_)
    show x.commitIndex ≤ ae.commitFrom x.commitIndex ∧ ae.commitFrom x.commitIndex ≤ _
    unfold AppendEntries.commitFrom
    split <;> omega
  | install m is hm his ht hs hd h0 =>
    have hr : reported heard = is.lastIncludedIndex := by
      rw [hm]
      show m.reports = _
      unfold Message.reports
      rw [his]
    rw [installed_eq, hr]
    refine .inr (.inr ?_)
    show x.commitIndex ≤ max x.commitIndex (installLog cfg is x.log).base ∧
      max x.commitIndex (installLog cfg is x.log).base ≤ _
    rw [installLog_base]
    omega
  | chunk m is hm his ht hs hd h0 =>
    rw [chunk_eq]
    exact .inl rfl
  | apply hlt =>
    rw [applyNext_eq]
    exact .inl rfl
  | quiet evs hq => exact .inl rfl
  | aim nodes hk hn => exact .inl rfl
  | adopt t ht => exact .inl rfl
  | demote => exact .inl rfl
  | campaign hs hf => exact .inl rfl
  | tally m rr p hm hrr hpre hg ht hs hp hn => exact .inl rfl
  | promote hs hm hw => exact .inl rfl
  | propose e log hs ht hi hp => exact .inl rfl
  | vote m rv hm hrv hpre ht hv hu => exact .inl rfl
  | emit m hsend => exact .inl rfl
  | learn sender l hs hr => exact .inl rfl
  | compact bytes t hio hb ht => exact .inl rfl

/-- A server reports no more than its own commit index. -/
theorem reports_le {m : Message} (h : CanSend cfg x m) (hb : x.log.base ≤ x.commitIndex) : m.reports ≤ x.commitIndex := by
  obtain ⟨-, h⟩ := h
  unfold Message.reports
  cases hpl : m.payload with
  | appendEntries ae =>
    rw [hpl] at h
    obtain ⟨-, -, -, next, -, he⟩ := h
    have hc : ae.leaderCommit = x.commitIndex := by rw [he]
    exact Nat.le_of_eq hc
  | installSnapshot is =>
    rw [hpl] at h
    obtain ⟨-, -, -, he⟩ := h
    have hi : is.lastIncludedIndex = x.log.base := by rw [he]
    exact Nat.le_trans (Nat.le_of_eq hi) hb
  | requestVote rv => exact Nat.zero_le _
  | requestVoteResp rr => exact Nat.zero_le _
  | appendEntriesResp rr => exact Nat.zero_le _
  | installSnapshotResp rr => exact Nat.zero_le _

theorem Move.reports (hmv : Move cfg io fit heard start x y) (hb : x.log.base ≤ x.commitIndex) {m : Message}
    (hm : m ∈ y.sent) : m ∈ x.sent ∨ m.reports ≤ x.commitIndex := by
  rcases hmv.sends hm with hm | hcan | ⟨m₀, ae, -, -, -, -, -, rfl⟩
  · exact .inl hm
  · exact .inr (reports_le hcan hb)
  · exact .inr (Nat.zero_le _)

end

/-! ## One call -/

/-- **Where the commit index of `n` stands inside a call made at `s`**: within what it was or what the message at hand
carries, or at an entry that `n` counted as the leader of its term; and what was sent since reports no more. -/
structure Commits (S : Setup) (g : Replog Nat Entry) (n bound : Nat) (s x : Server) : Prop where
  mono : s.commitIndex ≤ x.commitIndex
  rises : x.commitIndex ≤ max s.commitIndex bound ∨
    ∃ t, g.Chosen Entry.term S.ids.toFinset t x.commitIndex ∧ g.leader t = some n ∧ x.commitIndex ≤ g.acked n t
  sent : ∀ m ∈ x.sent, m ∈ s.sent ∨ m.reports ≤ x.commitIndex

section
variable {S : Setup} {g g' : Replog Nat Entry} {c : Cluster} {n bound : Nat} {s x y : Server} {io : Io} {k : Call}

theorem Commits.refl (s : Server) : Commits S g n bound s s := ⟨Nat.le_refl _, .inl (Nat.le_max_left _ _), fun _ hm => .inl hm⟩

theorem Commits.core_iff : Commits S g n bound s x ↔ Commits S g n bound s x.core :=
  ⟨fun h => ⟨h.mono, h.rises, h.sent⟩, fun h => ⟨h.mono, h.rises, h.sent⟩⟩

/-- A move that counts nothing. -/
theorem Commits.carried (h : Commits S g n bound s x) (hg : g.Grows g') (hmono : x.commitIndex ≤ y.commitIndex)
    (hle : y.commitIndex ≤ max x.commitIndex bound)
    (hsent : ∀ m ∈ y.sent, m ∈ x.sent ∨ m.reports ≤ x.commitIndex) : Commits S g' n bound s y := by
  refine ⟨Nat.le_trans h.mono hmono, ?_, ?_⟩
  · rcases h.rises with hr | ⟨t, hc, hl, hack⟩
    · exact .inl (by omega)
    · rcases Nat.lt_or_ge x.commitIndex y.commitIndex with hlt | hge
      · exact .inl (by omega)
      · rw [Nat.le_antisymm hge hmono]
        exact .inr ⟨t, hc.grows hg, hg.leader t n hl, Nat.le_trans hack (hg.acked n t)⟩
  · intro m hm
    rcases hsent m hm with hm | hm
    · rcases h.sent m hm with hm | hm
      · exact .inl hm
      · exact .inr (Nat.le_trans hm hmono)
    · exact .inr (Nat.le_trans hm hmono)

/-- **Every move keeps to that.** -/
theorem Commits.move (h : Commits S g n (reported k.heard) s x) (hids : badNode ∉ S.ids) (hn : n ∈ S.ids)
    (hs : Safe S g (c.set n x)) (hheard : ∀ m, k.heard = some m → m.recipient = n ∧ S.InFlight (c.set n x) m)
    (hok : SafeOk S c (c.node n) k.heard) (hmv : Move S.cfg io True k.heard (c.node n) x y) :
    ∃ g', g.Grows g' ∧ Safe S g' (c.set n y) ∧ Commits S g' n (reported k.heard) s y := by
  have hb := hs.self_trust.base_le
  have hsent : ∀ m ∈ y.sent, m ∈ x.sent ∨ m.reports ≤ x.commitIndex := fun m hm => hmv.reports hb hm
  rcases hmv.commit_cases with heq | ⟨hst, hfind, hy⟩ | ⟨hmono, hle⟩
  · obtain ⟨g', hg, hs'⟩ := hs.move hids hn hheard hok hmv
    exact ⟨g', hg, hs', h.carried hg (Nat.le_of_eq heq.symm) (by omega) hsent⟩
  · -- The leader counts: its new commit index is chosen, in its own term.
    have hv : VoteInv S (c.set n y) := hs.votes.move hheard hmv
    obtain ⟨g', hg, hs', hchosen, hack⟩ := hs.advance hv hst hmv hfind hy
    have hlead := hg.leader _ _ (hs.self_mirror.leads hst).1
    have hgt := (Ordered.findCommit_spec hfind).1
    refine ⟨g', hg, hs', Nat.le_trans h.mono (Nat.le_of_lt hgt), .inr ⟨x.currentTerm, hchosen, hlead, hack⟩, ?_⟩
    intro m hm
    rcases hsent m hm with hm | hm
    · rcases h.sent m hm with hm | hm
      · exact .inl hm
      · exact .inr (by omega)
    · exact .inr (by omega)
  · obtain ⟨g', hg, hs'⟩ := hs.move hids hn hheard hok hmv
    exact ⟨g', hg, hs', h.carried hg hmono hle hsent⟩

/-- **A call.** -/
theorem commits_call (hids : badNode ∉ S.ids) (h : Safe S g c) (hk : S.Callable c n k)
    (hok : S.SafeSteps c (.call n io k)) :
    ∃ g', g.Grows g' ∧ Safe S g' (c.set n ((c.node n).perform S.cfg io k)) ∧
      Commits S g' n (reported k.heard) (c.node n) ((c.node n).perform S.cfg io k) := by
  obtain ⟨hfit, hsafe⟩ := hok
  have hrun : ∃ g', g.Grows g' ∧ Safe S g' (c.set n ((c.node n).perform S.cfg io k)) ∧
      Commits S g' n (reported k.heard) (c.node n) ((c.set n ((c.node n).perform S.cfg io k)).node n) := by
    refine Setup.call_invariant (P := fun c' => ∃ g', g.Grows g' ∧ Safe S g' c' ∧
      Commits S g' n (reported k.heard) (c.node n) (c'.node n)) True ⟨g, .refl g, h, .refl _⟩ hk (fun _ => hfit) ?_ ?_
    · intro x
      rw [Cluster.set_node_self, Cluster.set_node_self]
      exact exists_congr (fun g' => and_congr_right (fun _ => and_congr Safe.core_iff Commits.core_iff))
    · rintro x y ⟨g₁, hg₁, hx, hcx⟩ - hheard hmv
      rw [Cluster.set_node_self] at hcx ⊢
      obtain ⟨g₂, hg₂, hy, hcy⟩ := hcx.move hids hk.1 hx hheard hsafe hmv
      exact ⟨g₂, hg₁.trans hg₂, hy, hcy⟩
  rw [Cluster.set_node_self] at hrun
  exact hrun

end

/-! ## Runs -/

/-- A cluster, and for every term the last index that its leader has counted. -/
structure Marked where
  cluster : Cluster
  mark : Nat → Nat

/-- The marks after a call from `s` to `s'`: a commit index that rises above what the message at hand carries was counted,
and the entry it stops at is of the term of the leader that did. -/
def marksAfter (cfg : Config) (s s' : Server) (k : Call) (mark : Nat → Nat) : Nat → Nat :=
  if max s.commitIndex (reported k.heard) < s'.commitIndex then
    Function.update mark ((s'.log.termAt cfg s'.commitIndex).getD 0) s'.commitIndex
  else mark

/-- The cluster's runs, with the marks kept along. -/
def Setup.marked (S : Setup) : Sys Marked Action where
  init := ⟨S.init, fun _ => 0⟩
  enabled := fun x act => S.sys.enabled x.cluster act
  exec := fun x act => ⟨S.sys.exec x.cluster act, match act with
    | .call n io k => marksAfter S.cfg (x.cluster.node n) ((x.cluster.node n).perform S.cfg io k) k x.mark
    | .restart _ => x.mark
    | .crash n io k _ => marksAfter S.cfg (x.cluster.node n) ((x.cluster.node n).perform S.cfg io k) k x.mark⟩

/-- **What the marks stand for**: every commit index is within one of them, and each was chosen, by a leader that still
has it. -/
structure MarksOk (S : Setup) (g : Replog Nat Entry) (x : Marked) : Prop where
  commit : ∀ a, ∃ t, (x.cluster.node a).commitIndex ≤ x.mark t
  sent : ∀ a, ∀ m ∈ (x.cluster.node a).sent, ∃ t, m.reports ≤ x.mark t
  chosen : ∀ t, x.mark t ≠ 0 → g.Chosen Entry.term S.ids.toFinset t (x.mark t)
  owner : ∀ t, x.mark t ≠ 0 →
    ∃ b, g.leader t = some b ∧ x.mark t ≤ g.acked b t ∧ x.mark t ≤ (x.cluster.node b).commitIndex

section
variable {S : Setup} {g g' : Replog Nat Entry} {x : Marked} {n : Nat} {io : Io} {k : Call}

/-- The entry a leader counted up to is still where it was, and of the leader's term. -/
theorem Safe.termAt_counted {c : Cluster} {s : Server} {t : Nat} (h : Safe S g (c.set n s))
    (hc : g.Chosen Entry.term S.ids.toFinset t s.commitIndex) (hack : s.commitIndex ≤ g.acked n t) :
    s.log.termAt S.cfg s.commitIndex = some t := by
  obtain ⟨e, he, het⟩ := hc.own
  have hpos := hc.pos
  have hle := hc.le
  have hp := h.sound.has_chosen hc hack
  have hlen : s.commitIndex ≤ (g.log n).length := by
    have := hp.length_le
    rw [List.length_take] at this
    omega
  have hget : (g.log n)[s.commitIndex - 1]? = some e := by
    obtain ⟨ext, hext⟩ := hp
    rw [← hext, List.getElem?_append_left (by rw [List.length_take]; omega), List.getElem?_take_of_lt (by omega)]
    exact he
  have hterm : termOf (g.log n) s.commitIndex = e.term := by
    rw [show s.commitIndex = s.commitIndex - 1 + 1 by omega]
    exact termOf_succ hget
  rw [h.self_mirror.ring.termAt_eq h.self_trust.base_le hlen, hterm, het]

/-- What the message at hand carries is within a mark. -/
theorem MarksOk.heard (h : MarksOk S g x) (hk : S.Callable x.cluster n k) : ∃ t, reported k.heard ≤ x.mark t := by
  cases k with
  | handle m =>
    obtain ⟨-, a, -, hm⟩ := hk.2 m rfl
    exact h.sent a m hm
  | _ => exact ⟨0, Nat.zero_le _⟩

/-- **The marks after a call**: the old one, or where the called node, as the leader of the term, has counted to. -/
theorem MarksOk.marks (h : MarksOk S g x) (hg : g.Grows g') {s' : Server} (hs : Safe S g' (x.cluster.set n s'))
    (hc : Commits S g' n (reported k.heard) (x.cluster.node n) s') (t : Nat) :
    x.mark t ≤ marksAfter S.cfg (x.cluster.node n) s' k x.mark t ∧
      (marksAfter S.cfg (x.cluster.node n) s' k x.mark t = x.mark t ∨
        (marksAfter S.cfg (x.cluster.node n) s' k x.mark t = s'.commitIndex ∧
          g'.Chosen Entry.term S.ids.toFinset t s'.commitIndex ∧ g'.leader t = some n ∧
          s'.commitIndex ≤ g'.acked n t)) := by
  unfold marksAfter
  split
  · rename_i hlt
    rcases hc.rises with hle | ⟨t₀, hchosen, hlead, hack⟩
    · omega
    rw [hs.termAt_counted hchosen hack, Option.getD_some]
    by_cases ht : t = t₀
    · subst ht
      rw [Function.update_self]
      refine ⟨?_, .inr ⟨rfl, hchosen, hlead, hack⟩⟩
      by_cases hz : x.mark t = 0
      · omega
      · -- The leader of a term is one node, and it had counted no further.
        obtain ⟨b, hb, -, hle⟩ := h.owner t hz
        have hbn := hg.leader t b hb
        rw [hlead] at hbn
        injection hbn with hbn
        subst hbn
        exact Nat.le_trans hle hc.mono
    · rw [Function.update_of_ne ht]
      exact ⟨Nat.le_refl _, .inl rfl⟩
  · exact ⟨Nat.le_refl _, .inl rfl⟩

/-- The commit index after a call is within a mark. -/
theorem MarksOk.commit_call (h : MarksOk S g x) (hk : S.Callable x.cluster n k) {s' : Server}
    (hmono : ∀ t, x.mark t ≤ marksAfter S.cfg (x.cluster.node n) s' k x.mark t) :
    ∃ t, s'.commitIndex ≤ marksAfter S.cfg (x.cluster.node n) s' k x.mark t := by
  rcases Nat.lt_or_ge (max (x.cluster.node n).commitIndex (reported k.heard)) s'.commitIndex with hlt | hge
  · refine ⟨(s'.log.termAt S.cfg s'.commitIndex).getD 0, ?_⟩
    rw [marksAfter, if_pos hlt, Function.update_self]
  · rcases Nat.le_total (reported k.heard) (x.cluster.node n).commitIndex with hle | hle
    · obtain ⟨t, ht⟩ := h.commit n
      have := hmono t
      exact ⟨t, by omega⟩
    · obtain ⟨t, ht⟩ := h.heard hk
      have := hmono t
      exact ⟨t, by omega⟩

/-- **Every call keeps the marks.** -/
theorem MarksOk.call (h : MarksOk S g x) (hids : badNode ∉ S.ids) (hs : Safe S g x.cluster)
    (hk : S.Callable x.cluster n k) (hok : S.SafeSteps x.cluster (.call n io k)) :
    ∃ g', Safe S g' (S.marked.exec x (.call n io k)).cluster ∧ MarksOk S g' (S.marked.exec x (.call n io k)) := by
  obtain ⟨g', hg, hs', hc⟩ := commits_call hids hs hk hok
  refine ⟨g', hs', ?_⟩
  show MarksOk S g' ⟨x.cluster.set n ((x.cluster.node n).perform S.cfg io k),
    marksAfter S.cfg (x.cluster.node n) ((x.cluster.node n).perform S.cfg io k) k x.mark⟩
  generalize (x.cluster.node n).perform S.cfg io k = s' at hs' hc ⊢
  have hmarks := h.marks hg hs' hc
  have hcommit := h.commit_call hk (fun t => (hmarks t).1)
  generalize marksAfter S.cfg (x.cluster.node n) s' k x.mark = mark' at hmarks hcommit ⊢
  have hold : ∀ {i : Nat}, (∃ t, i ≤ x.mark t) → ∃ t, i ≤ mark' t := by
    rintro i ⟨t, ht⟩
    exact ⟨t, Nat.le_trans ht (hmarks t).1⟩
  refine ⟨?_, ?_, ?_, ?_⟩
  · intro a
    show ∃ t, ((x.cluster.set n s').node a).commitIndex ≤ mark' t
    by_cases ha : a = n
    · subst ha
      rw [Cluster.set_node_self]
      exact hcommit
    · rw [Cluster.set_node_ne ha]
      exact hold (h.commit a)
  · intro a m hm
    have hm : m ∈ ((x.cluster.set n s').node a).sent := hm
    by_cases ha : a = n
    · subst ha
      rw [Cluster.set_node_self] at hm
      rcases hc.sent m hm with hm | hm
      · exact hold (h.sent a m hm)
      · obtain ⟨t, ht⟩ := hcommit
        exact ⟨t, Nat.le_trans hm ht⟩
    · rw [Cluster.set_node_ne ha] at hm
      exact hold (h.sent a m hm)
  · intro t hz
    have hz : mark' t ≠ 0 := hz
    show g'.Chosen Entry.term S.ids.toFinset t (mark' t)
    rcases (hmarks t).2 with he | ⟨he, hchosen, -⟩
    · rw [he] at hz ⊢
      exact (h.chosen t hz).grows hg
    · rw [he]
      exact hchosen
  · intro t hz
    have hz : mark' t ≠ 0 := hz
    show ∃ b, g'.leader t = some b ∧ mark' t ≤ g'.acked b t ∧ mark' t ≤ ((x.cluster.set n s').node b).commitIndex
    rcases (hmarks t).2 with he | ⟨he, -, hlead, hack⟩
    · rw [he] at hz ⊢
      obtain ⟨b, hb, hack, hle⟩ := h.owner t hz
      refine ⟨b, hg.leader t b hb, Nat.le_trans hack (hg.acked b t), ?_⟩
      by_cases hbn : b = n
      · subst hbn
        rw [Cluster.set_node_self]
        exact Nat.le_trans hle hc.mono
      · rw [Cluster.set_node_ne hbn]
        exact hle
    · rw [he]
      exact ⟨n, hlead, hack, by rw [Cluster.set_node_self]⟩

/-- A node with an empty log has counted nothing, so that a restart loses no mark. -/
theorem MarksOk.restart (h : MarksOk S g x) (hs : Safe S g x.cluster) (hlog : (x.cluster.node n).log.lastIndex = 0) :
    MarksOk S g (S.marked.exec x (.restart n)) := by
  show MarksOk S g ⟨x.cluster.set n (S.rebuild n (x.cluster.node n).calls), x.mark⟩
  have hzero : (S.rebuild n (x.cluster.node n).calls).commitIndex = 0 := (rebuild_log S n _).2.1
  refine ⟨?_, ?_, h.chosen, ?_⟩
  · intro a
    show ∃ t, ((x.cluster.set n _).node a).commitIndex ≤ x.mark t
    by_cases ha : a = n
    · subst ha
      rw [Cluster.set_node_self, hzero]
      exact ⟨0, Nat.zero_le _⟩
    · rw [Cluster.set_node_ne ha]
      exact h.commit a
  · intro a m hm
    have hm : m ∈ ((x.cluster.set n (S.rebuild n (x.cluster.node n).calls)).node a).sent := hm
    by_cases ha : a = n
    · subst ha
      rw [Cluster.set_node_self] at hm
      exact h.sent a m hm
    · rw [Cluster.set_node_ne ha] at hm
      exact h.sent a m hm
  · intro t hz
    obtain ⟨b, hb, hack, hle⟩ := h.owner t hz
    have hbn : b ≠ n := by
      rintro rfl
      have hp := (hs.sound.has_chosen (h.chosen t hz) hack).length_le
      have hlen := (h.chosen t hz).le
      rw [(hs.mirrors.node b).ring.lastIndex] at hlog
      have hpos := (h.chosen t hz).pos
      rw [List.length_take] at hp
      omega
    refine ⟨b, hb, hack, ?_⟩
    show x.mark t ≤ ((x.cluster.set n _).node b).commitIndex
    rw [Cluster.set_node_ne hbn]
    exact hle

/-- **Along every safe run.** -/
theorem marksOk_reachable (hids : badNode ∉ S.ids) (hfresh : S.Fresh)
    (h : S.marked.Reachable (fun x act => S.SafeSteps x.cluster act) x) :
    ∃ g, Safe S g x.cluster ∧ MarksOk S g x := by
  refine h.invariant (P := fun x => ∃ g, Safe S g x.cluster ∧ MarksOk S g x) ⟨_, .init hfresh, ?_⟩ ?_
  · refine ⟨fun a => ⟨0, ?_⟩, fun a m hm => ?_, fun t hz => absurd rfl hz, fun t hz => absurd rfl hz⟩
    · exact Nat.le_of_eq (rebuild_log S a []).2.1
    · obtain ⟨t, v, hev⟩ := mem_sent.1 hm
      cases hev
  · rintro y act ⟨g, hs, hm⟩ hen hok
    cases act with
    | call n io k => exact hm.call hids hs hen hok
    | restart n => exact ⟨g, hs.restart hok, hm.restart hs hok⟩
    | crash n io k made => exact hok.elim

/-- **A leader that can read has committed an entry of its own.** -/
theorem Safe.own_of_canRead {c : Cluster} {a : Nat} (h : Safe S g c) (hr : (c.node a).canRead S.cfg = true) :
    (c.node a).state = .leader ∧ 0 < (c.node a).commitIndex ∧
      ∃ e, (g.llog (c.node a).currentTerm)[(c.node a).commitIndex - 1]? = some e ∧ e.term = (c.node a).currentTerm := by
  simp only [Server.canRead, Bool.and_eq_true, decide_eq_true_eq] at hr
  obtain ⟨⟨hst, hz⟩, hat⟩ := hr
  have hn := h.mirrors.node a
  obtain ⟨hlen, hterm⟩ := hn.ring.termAt_eq_some (h.trust a).base_le hat
  rw [(hn.leads hst).2] at hlen hterm
  obtain ⟨i, hi⟩ : ∃ i, (c.node a).commitIndex = i + 1 := ⟨(c.node a).commitIndex - 1, by omega⟩
  rw [hi] at hlen hterm ⊢
  obtain ⟨e, he⟩ : ∃ e, (g.llog (c.node a).currentTerm)[i]? = some e := ⟨_, List.getElem?_eq_getElem (by omega)⟩
  rw [termOf_succ he] at hterm
  exact ⟨hst, Nat.succ_pos i, e, he, hterm.symm⟩

/-- **`can_read` holds at a leader with the highest commit index of the cluster exactly when no leader of a later term has
committed an entry of its own**, along every run whose accepted messages do no harm. -/
theorem canRead_highest_iff (S : Setup) (hids : badNode ∉ S.ids) (hfresh : S.Fresh) (x : Marked)
    (h : S.marked.Reachable (fun x act => S.SafeSteps x.cluster act) x) (a : Nat)
    (hr : (x.cluster.node a).canRead S.cfg = true) :
    (∀ b, (x.cluster.node b).commitIndex ≤ (x.cluster.node a).commitIndex) ↔
      ∀ t, (x.cluster.node a).currentTerm < t → x.mark t = 0 := by
  obtain ⟨g, hs, hm⟩ := marksOk_reachable hids hfresh h
  obtain ⟨hst, hpos, e, he, het⟩ := hs.own_of_canRead hr
  constructor
  · -- What a later leader has counted lies above all that was chosen before.
    intro hall t ht
    by_contra hz
    obtain ⟨b, -, -, hle⟩ := hm.owner t hz
    obtain ⟨e', he', het'⟩ := (hm.chosen t hz).own
    rcases (hs.trust a).commit with hzero | ⟨t₀, k, ht₀, hc, hk, -⟩
    · omega
    · have hlt := hs.sound.chosen_lt_own hc (Nat.lt_of_le_of_lt ht₀ ht) he' het'
      have := hall b
      have := (hm.chosen t hz).pos
      omega
  · intro hlater b
    obtain ⟨t, ht⟩ := hm.commit b
    refine Nat.le_trans ht ?_
    by_cases hz : x.mark t = 0
    · omega
    rcases Nat.lt_trichotomy t (x.cluster.node a).currentTerm with hlt | heq | hgt
    · -- An earlier leader's mark is below the entry of the term that `a` has committed.
      have := hs.sound.chosen_lt_own (hm.chosen t hz) hlt he het
      omega
    · -- The mark of its own term is the leader's.
      obtain ⟨b', hb', -, hle⟩ := hm.owner t hz
      have hlead := ((hs.mirrors.node a).leads hst).1
      rw [← heq, hb'] at hlead
      injection hlead with hlead
      rw [← hlead]
      exact hle
    · exact absurd (hlater t hgt) hz

end

/-- Node 1 has committed its no-op, and no later leader has. -/
theorem canRead_highest_firstCommit :
    let x := trio.playOver trio.marked Marked.cluster (fun x act => trio.SafeSteps x.cluster act) .at firstCommit
      trio.marked.init
    (x.cluster.node 1).canRead trio.cfg = true ∧
      ((∀ b, (x.cluster.node b).commitIndex ≤ (x.cluster.node 1).commitIndex) ↔
        ∀ t, (x.cluster.node 1).currentTerm < t → x.mark t = 0) := by
  intro x
  have hr : (x.cluster.node 1).canRead trio.cfg = true := by decide +kernel
  have hx : trio.marked.Reachable (fun x act => trio.SafeSteps x.cluster act) x := by
    refine Setup.reaches_playOver ?_ firstCommit trio.marked.init
    exact fun _ _ h => h
  exact ⟨hr, canRead_highest_iff trio (by decide) (fun _ => .inl rfl) x hx 1 hr⟩

/-- **A deposed leader**: node 1 has committed its no-op when nodes 2 and 3 elect node 2, which commits one of its own.
Node 1 has heard nothing of it and still says that it can be read from. -/
theorem canRead_behind :
    let c := trio.play trio.SafeSteps .at (firstCommit ++ elect 2 3 20000 ++
      [.periodic 2 21000, .deliver 2 3 0 21000, .deliver 3 2 0 21000, .deliver 2 3 0 21000, .deliver 3 2 0 21000])
      trio.init
    trio.sys.Reachable trio.SafeSteps c ∧ (c.node 1).canRead trio.cfg = true ∧
      (c.node 1).commitIndex < (c.node 2).commitIndex :=
  ⟨Setup.reachable_play _ _ _, by decide +kernel⟩

end Raft
end FloodEws
