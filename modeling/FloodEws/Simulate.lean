import FloodEws.Mirror
/-!
# Simulate — every move of a server is a step of the replicated log

Or none: `Mirrors.move`.  Two moves need a word.  An `AppendEntries` that starts below the receiver's snapshot edge is
accepted unchecked, so that the two logs agree at the edge has to come from elsewhere; a finished `InstallSnapshot` for
index 0 is taken for a log that is held, so it must not meet a compacted one.
-/
namespace FloodEws
namespace Raft

/-- The history after a move of node `n`, whose log becomes `ℓ`. -/
structure Next (S : Setup) (careful : Prop) (n : Nat) (ℓ : List Entry) (g g' : Replog Nat Entry) : Prop where
  step : g' = g ∨ g.Step Entry.term S.ids.toFinset careful g'
  log : g'.log = Function.update g.log n ℓ
  acked : g'.acked = g.acked

theorem Next.refl (S : Setup) (careful : Prop) (n : Nat) (g : Replog Nat Entry) : Next S careful n (g.log n) g g :=
  ⟨.inl rfl, (Function.update_eq_self n g.log).symm, rfl⟩

theorem Next.grows {S : Setup} {careful : Prop} {n : Nat} {ℓ : List Entry} {g g' : Replog Nat Entry}
    (h : Next S careful n ℓ g g') (hco : g.Coherent Entry.term S.ids.toFinset) : g.Grows g' := by
  rcases h.step with rfl | hs
  · exact .refl _
  · exact hs.grows hco

/-- A careful step is sound. -/
theorem Next.sound {S : Setup} {n : Nat} {ℓ : List Entry} {g g' : Replog Nat Entry} (h : Next S True n ℓ g g')
    (hs : g.Sound Entry.term S.ids.toFinset) : g'.Sound Entry.term S.ids.toFinset := by
  rcases h.step with rfl | hst
  · exact hs
  · exact hs.step hst

theorem indexed_concat {ℓ : List Entry} {e : Entry} (h : Indexed 0 ℓ) (he : e.index = ℓ.length + 1) :
    Indexed 0 (ℓ ++ [e]) := by
  have := h.push e
  rwa [← he] at this

theorem indexed_update {L : Nat → List Entry} {t : Nat} {ℓ : List Entry} (h : ∀ t, Indexed 0 (L t)) (hℓ : Indexed 0 ℓ)
    (t' : Nat) : Indexed 0 (Function.update L t ℓ t') := by
  by_cases ht : t' = t
  · subst ht
    rw [Function.update_self]
    exact hℓ
  · rw [Function.update_of_ne ht]
    exact h t'

theorem upToDate_iff {cfg : Config} {s : Server} {rv : RequestVote} {ℓ ℓ' : List Entry} (h : s.log.Holds cfg ℓ)
    (hi : rv.lastLogIndex = ℓ'.length) (ht : rv.lastLogTerm = lastTermOf ℓ') :
    s.upToDate cfg rv = true ↔ UpToDate Entry.term ℓ ℓ' := by
  unfold Server.upToDate UpToDate
  rw [h.lastTerm_eq, hi, ht, h.lastIndex, lastTermOf_eq, lastTermOf_eq]
  simp only [Bool.or_eq_true, Bool.and_eq_true, decide_eq_true_eq]
  rw [eq_comm (a := lastTm Entry.term ℓ')]

namespace Mirrors

variable {S : Setup} {g : Replog Nat Entry} {c : Cluster} {n : Nat} {x y : Server} {careful : Prop}

theorem self (h : Mirrors S g (c.set n x)) : Mirror S.cfg g n x := by
  have := h.node n
  rwa [Cluster.set_node_self] at this

/-- A change of the table at one node. -/
theorem update_other {α : Type} {f : Nat → α} {v : α} {a : Nat} (h : a ≠ n) : Function.update f n v a = f a :=
  Function.update_of_ne h _ _

theorem adopt (h : Mirrors S g (c.set n x)) {t : Nat} (ht : x.currentTerm < t)
    (hy : y = { x with currentTerm := t, votedFor := badNode, state := .follower,
                       calls := .persistState t badNode :: x.calls }) :
    ∃ g', Next S careful n (g.log n) g g' ∧ Mirrors S g' (c.set n y) := by
  have hn := h.self
  have hstep : g.Step Entry.term S.ids.toFinset careful { g with term := Function.update g.term n t } :=
    .raise g n t (by rw [hn.term]; exact ht)
  subst hy
  refine ⟨_, ⟨.inr hstep, (Function.update_eq_self n g.log).symm, rfl⟩, h.step hstep ⟨fun a ha => update_other ha, fun _ _ => rfl, fun _ _ _ hl => hl, fun _ _ _ _ => rfl⟩
    h.indexed ?_ ?_⟩
  · refine ⟨Function.update_self _ _ _, hn.ring, hn.indexed, fun hs => (by cases hs), fun hs => (by cases hs), ?_⟩
    intro m hm
    exact (hn.sent m (mem_sent_of_silent [.persistState t badNode] rfl (by simp [Event.silent]) hm)).grows (hstep.grows h.coherent)
  · intro v t' a
    rw [granted_of_persist rfl, h.votes]
    constructor
    · rintro ⟨h1, h2⟩
      exact ⟨.inl h1, h2⟩
    · rintro ⟨h1 | ⟨-, -, h1⟩, h2⟩
      · exact ⟨h1, h2⟩
      · exact absurd h1 h2

theorem campaign (h : Mirrors S g (c.set n x)) (hself : x.selfId = n) (hne : n ≠ badNode) {t : Nat} {nodes : List Peer}
    {votes : Nat} (ht : x.currentTerm < t)
    (hy : y = { x with state := .candidate, currentTerm := t, votedFor := x.selfId, nodes := nodes,
                       votesGranted := votes, calls := .persistState t x.selfId :: x.calls }) :
    ∃ g', Next S careful n (g.log n) g g' ∧ Mirrors S g' (c.set n y) := by
  have hn := h.self
  have hstep : g.Step Entry.term S.ids.toFinset careful
      { g with
        term := Function.update g.term n t
        cand := Function.update g.cand t (Function.update (g.cand t) n (g.log n))
        voted := fun v t' b => g.voted v t' b ∨ (v = n ∧ t' = t ∧ b = n) } :=
    .campaign g n t (by rw [hn.term]; exact ht)
  subst hy
  refine ⟨_, ⟨.inr hstep, (Function.update_eq_self n g.log).symm, rfl⟩, h.step hstep ⟨fun a ha => update_other ha, fun _ _ => rfl, fun _ _ _ hl => hl, fun _ _ _ _ => rfl⟩
    h.indexed ?_ ?_⟩
  · refine ⟨Function.update_self _ _ _, hn.ring, hn.indexed, fun hs => (by cases hs), fun _ => ⟨?_, ?_⟩, ?_⟩
    · show Function.update g.cand t (Function.update (g.cand t) n (g.log n)) t n = g.log n
      rw [Function.update_self, Function.update_self]
    · -- A node that has led a term has been in it.
      intro hl
      have := (h.coherent.chosen t n hl).1
      rw [hn.term] at this
      omega
    · intro m hm
      exact (hn.sent m (mem_sent_of_silent [.persistState t x.selfId] rfl (by simp [Event.silent]) hm)).grows (hstep.grows h.coherent)
  · intro v t' a
    rw [granted_of_persist rfl, hself]
    show g.voted v t' a ∨ (v = n ∧ t' = t ∧ a = n) ↔ _
    rw [h.votes]
    constructor
    · rintro (⟨h1, h2⟩ | ⟨h1, h2, rfl⟩)
      · exact ⟨.inl h1, h2⟩
      · exact ⟨.inr ⟨h1, h2, rfl⟩, hne⟩
    · rintro ⟨h1 | h1, h2⟩
      · exact .inl ⟨h1, h2⟩
      · exact .inr h1

/-- The vote in memory is the node's only one in its term. -/
theorem vote_unique (h : Mirrors S g (c.set n x)) (hv : VoteInv S (c.set n x)) {b : Nat}
    (hb : g.voted n x.currentTerm b) : x.votedFor = b := by
  have hsync := (hv n).synced
  rw [Cluster.set_node_self] at hsync
  obtain ⟨hgr, hne⟩ := (h.votes _ _ _).1 hb
  unfold Setup.Granted at hgr
  rw [Cluster.set_node_self] at hgr
  have hf := lastPersisted_follows hsync.disciplined _ hgr
  rw [hsync.last] at hf
  rcases hf with hf | ⟨-, hf | hf⟩
  · exact absurd hf (Nat.lt_irrefl _)
  · exact hf.symm
  · exact absurd hf hne

theorem vote (h : Mirrors S g (c.set n x)) (hv : VoteInv S (c.set n x)) {m : Message} {rv : RequestVote}
    (htold : Says g m) (hsender : m.sender ≠ badNode) (hrv : m.payload = .requestVote rv) (hpre : rv.preVote = false)
    (ht : rv.term = x.currentTerm) (hvf : x.votedFor = badNode ∨ x.votedFor = rv.candidateId)
    (hu : x.upToDate S.cfg rv = true)
    (hy : y = { x with votedFor := rv.candidateId, calls := .persistState x.currentTerm rv.candidateId :: x.calls }) :
    ∃ g', Next S careful n (g.log n) g g' ∧ Mirrors S g' (c.set n y) := by
  have hn := h.self
  unfold Says at htold
  rw [hrv] at htold
  obtain ⟨h1, h2, h3, h4⟩ := htold hpre
  have hterm : g.term n = rv.term := hn.term.trans ht.symm
  have hstep : g.Step Entry.term S.ids.toFinset careful
      { g with voted := fun v t b => g.voted v t b ∨ (v = n ∧ t = g.term n ∧ b = m.sender) } := by
    refine .grant g n m.sender (by rw [hterm]; exact h2) ?_ ?_
    · intro b hb
      rw [hn.term] at hb
      have hmem := h.vote_unique hv hb
      rcases hvf with hvf | hvf
      · have := (h.votes _ _ _).1 hb
        exact absurd (hmem.symm.trans hvf) this.2
      · rw [← hmem, hvf, h1]
    · rw [hterm]
      exact (upToDate_iff hn.ring h3 h4).1 hu
  subst hy
  refine ⟨_, ⟨.inr hstep, (Function.update_eq_self n g.log).symm, rfl⟩, h.step hstep ⟨fun _ _ => rfl, fun _ _ => rfl, fun _ _ _ hl => hl, fun _ _ _ _ => rfl⟩ h.indexed ?_ ?_⟩
  · refine ⟨hn.term, hn.ring, hn.indexed, hn.leads, hn.runs, ?_⟩
    intro m' hm
    exact (hn.sent m' (mem_sent_of_silent [.persistState x.currentTerm rv.candidateId] rfl (by simp [Event.silent]) hm)).grows (hstep.grows h.coherent)
  · intro v t' a
    rw [granted_of_persist rfl, h1, ← hn.term]
    show g.voted v t' a ∨ (v = n ∧ t' = g.term n ∧ a = m.sender) ↔ _
    rw [h.votes]
    constructor
    · rintro (⟨h5, h6⟩ | ⟨h5, h6, rfl⟩)
      · exact ⟨.inl h5, h6⟩
      · exact ⟨.inr ⟨h5, h6, rfl⟩, hsender⟩
    · rintro ⟨h5 | h5, h6⟩
      · exact .inl ⟨h5, h6⟩
      · exact .inr h5

theorem promote (h : Mirrors S g (c.set n x)) (hne : n ≠ badNode) (hv' : VoteInv S (c.set n y)) (hst : x.state = .candidate)
    {nodes : List Peer} (hy : y = { x with state := .leader, nodes := nodes }) :
    ∃ g', Next S careful n (g.log n) g g' ∧ Mirrors S g' (c.set n y) := by
  have hn := h.self
  obtain ⟨hcand, hnot⟩ := hn.runs hst
  have hgr : ∀ v t a, S.Granted (c.set n y) v t a ↔ S.Granted (c.set n x) v t a :=
    granted_of_casts [] (by rw [hy]; rfl) (by simp)
  -- The votes counted are on storage.
  have hq : Quorum S.ids.toFinset (fun v => g.voted v (g.term n) n) := by
    have hok := hv' n
    rw [Cluster.set_node_self] at hok
    have hquorum := hok.quorum (by rw [hy])
    refine hquorum.mono ?_
    intro v _ hgv
    rw [hn.term, h.votes]
    have hterm : y.currentTerm = x.currentTerm := by rw [hy]
    rw [hterm] at hgv
    exact ⟨(hgr _ _ _).1 hgv, hne⟩
  have hl : g.leader (g.term n) = none := by
    cases hl : g.leader (g.term n) with
    | none => rfl
    | some b =>
      obtain ⟨-, -, hqb, hvb⟩ := h.coherent.chosen _ b hl
      obtain ⟨v, -, h1, h2⟩ := hq.meet hqb
      have hb := h.coherent.voted_unique v _ _ _ h1 (hvb v h2)
      subst hb
      rw [hn.term] at hl
      exact absurd hl hnot
  have hlog : g.log n = g.cand (g.term n) n := by rw [hn.term, hcand]
  have hstep : g.Step Entry.term S.ids.toFinset careful
      { g with
        leader := Function.update g.leader (g.term n) (some n)
        elector := Function.update g.elector (g.term n) (fun v => g.voted v (g.term n) n)
        vlog := Function.update g.vlog (g.term n) (g.log n)
        llog := Function.update g.llog (g.term n) (g.log n) } := .elect g n hl hlog hq
  have hg := hstep.grows h.coherent
  subst hy
  refine ⟨_, ⟨.inr hstep, (Function.update_eq_self n g.log).symm, rfl⟩, h.step hstep ⟨fun _ _ => rfl, fun _ _ => rfl, ?_, ?_⟩ (indexed_update h.indexed hn.indexed) ?_ ?_⟩
  · intro a t ha hla
    have hla : Function.update g.leader (g.term n) (some n) t = some a := hla
    by_cases ht : t = g.term n
    · subst ht
      rw [Function.update_self] at hla
      injection hla with hla
      exact absurd hla.symm ha
    · rwa [Function.update_of_ne ht] at hla
  · intro a t ha hla
    refine Function.update_of_ne ?_ _ _
    rintro rfl
    rw [hl] at hla
    cases hla
  · refine ⟨hn.term, hn.ring, hn.indexed, fun _ => ⟨?_, ?_⟩, fun hs => (by cases hs), fun m hm => (hn.sent m hm).grows hg⟩
    · show Function.update g.leader (g.term n) (some n) x.currentTerm = some n
      rw [← hn.term, Function.update_self]
    · show g.log n = Function.update g.llog (g.term n) (g.log n) x.currentTerm
      rw [← hn.term, Function.update_self]
  · intro v t a
    rw [hgr]
    exact h.votes v t a

theorem propose (h : Mirrors S g (c.set n x)) (hst : x.state = .leader) {e : Entry} {log : LogRing} {nodes : List Peer}
    (ht : e.term = x.currentTerm) (hi : e.index = x.log.lastIndex + 1) (hp : x.log.push S.cfg e = .ok log)
    (hy : y = { x with log := log, nodes := nodes, calls := .persistLogAppend e :: x.calls }) :
    ∃ g', Next S careful n (g.log n ++ [e]) g g' ∧ Mirrors S g' (c.set n y) := by
  have hn := h.self
  obtain ⟨hl, hlog⟩ := hn.leads hst
  rw [← hn.term] at hl hlog ht
  have hstep : g.Step Entry.term S.ids.toFinset careful
      { g with
        log := Function.update g.log n (g.log n ++ [e])
        llog := Function.update g.llog (g.term n) (g.log n ++ [e]) } := .append g n e hl hlog ht
  have hidx : Indexed 0 (g.log n ++ [e]) := indexed_concat hn.indexed (by rw [hi, hn.ring.lastIndex])
  subst hy
  refine ⟨_, ⟨.inr hstep, rfl, rfl⟩, h.step hstep ⟨fun _ _ => rfl, fun a ha => update_other ha, fun _ _ _ hla => hla, ?_⟩
    (indexed_update h.indexed hidx) ?_ ?_⟩
  · intro a t ha hla
    refine Function.update_of_ne ?_ _ _
    rintro rfl
    rw [hl] at hla
    injection hla with hla
    exact ha hla.symm
  · have hself : Function.update g.log n (g.log n ++ [e]) n = g.log n ++ [e] := Function.update_self _ _ _
    refine ⟨hn.term, ?_, ?_, fun _ => ⟨?_, ?_⟩, fun hs => ?_, ?_⟩
    · show log.Holds S.cfg (Function.update g.log n (g.log n ++ [e]) n)
      rw [hself]
      exact hn.ring.push hp
    · show Indexed 0 (Function.update g.log n (g.log n ++ [e]) n)
      rw [hself]
      exact hidx
    · show g.leader x.currentTerm = some n
      rw [← hn.term]
      exact hl
    · show Function.update g.log n (g.log n ++ [e]) n = Function.update g.llog (g.term n) (g.log n ++ [e]) x.currentTerm
      rw [hself, ← hn.term, Function.update_self]
    · have hs : x.state = .candidate := hs
      rw [hst] at hs
      cases hs
    · intro m hm
      exact (hn.sent m (mem_sent_of_silent [.persistLogAppend e] rfl (by simp [Event.silent]) hm)).grows
        (hstep.grows h.coherent)
  · intro v t a
    rw [granted_of_casts [.persistLogAppend e] rfl (by simp [Event.casts])]
    exact h.votes v t a

/-- A follower takes over a beginning of its leader's log, or keeps its own. -/
theorem replace (h : Mirrors S g (c.set n x)) {ℓ : List Entry} (hl : g.leader x.currentTerm ≠ none)
    (hfrom : ℓ = g.log n ∨ ∃ k, k ≤ (g.llog x.currentTerm).length ∧ ℓ = (g.llog x.currentTerm).take k)
    (hkeep : careful → ∀ m, m ≤ (g.log n).length → (g.log n).take m = (g.llog x.currentTerm).take m → m ≤ ℓ.length)
    (hring : y.log.Holds S.cfg ℓ) (hterm : y.currentTerm = x.currentTerm) (hst : y.state = .follower)
    (hsent : ∀ m ∈ y.sent, m ∈ x.sent ∨ Says g m)
    (hvotes : ∀ v t a, S.Granted (c.set n y) v t a ↔ S.Granted (c.set n x) v t a) :
    ∃ g', Next S careful n ℓ g g' ∧ Mirrors S g' (c.set n y) := by
  have hn := h.self
  rcases hfrom with rfl | ⟨k, hk, rfl⟩
  · exact ⟨g, .refl S careful n g, h.stay (hn.still hterm hring (.inr hst) hsent) (fun v t a => by rw [hvotes])⟩
  · rw [← hn.term] at hl hk hkeep
    have hlen : ((g.llog (g.term n)).take k).length = k := by
      rw [List.length_take]
      omega
    have hstep : g.Step Entry.term S.ids.toFinset careful
        { g with log := Function.update g.log n ((g.llog (g.term n)).take k) } :=
      .follow g n k hl hk (fun hc m hm heq => hlen ▸ hkeep hc m hm heq)
    have hg := hstep.grows h.coherent
    rw [← hn.term] at hring ⊢
    refine ⟨_, ⟨.inr hstep, rfl, rfl⟩, h.step hstep
      ⟨fun _ _ => rfl, fun a ha => update_other ha, fun _ _ _ hla => hla, fun _ _ _ _ => rfl⟩ h.indexed ?_ ?_⟩
    · have hself : Function.update g.log n ((g.llog (g.term n)).take k) n = (g.llog (g.term n)).take k :=
        Function.update_self _ _ _
      refine ⟨hn.term.trans hterm.symm, ?_, ?_, fun hs => ?_, fun hs => ?_, ?_⟩
      · show y.log.Holds S.cfg (Function.update g.log n _ n)
        rw [hself]
        exact hring
      · show Indexed 0 (Function.update g.log n _ n)
        rw [hself]
        exact (h.indexed _).take k
      · rw [hst] at hs
        cases hs
      · rw [hst] at hs
        cases hs
      · intro m hm
        rcases hsent m hm with hm | hm
        · exact (hn.sent m hm).grows hg
        · exact hm.grows hg
    · intro v t a
      rw [hvotes]
      exact h.votes v t a

/-- The two logs agree up to where an accepted slice starts, and up to the edge. -/
theorem aligned_of_accept (h : Mirrors S g (c.set n x)) {m : Message} {ae : AppendEntries} (htold : Says g m)
    (hae : m.payload = .appendEntries ae) (ht : ae.term = x.currentTerm) (hp : x.prevMismatch S.cfg ae = none)
    (hedge : ae.prevLogIndex < x.log.base →
      (g.log n).take x.log.base = (g.llog x.currentTerm).take x.log.base) :
    x.log.Aligned S.cfg (g.log n) (g.llog x.currentTerm) ae.prevLogIndex := by
  have hn := h.self
  obtain ⟨-, -, -, hle, hpt, -⟩ := htold.appendEntries hae
  rw [ht] at hle hpt
  unfold Server.prevMismatch at hp
  split at hp
  · cases hp
  rename_i hlast
  rw [hn.ring.lastIndex] at hlast
  refine .inl ⟨by omega, ?_⟩
  split at hp
  · rename_i hb
    rw [Nat.max_eq_right (by omega)]
    exact hedge hb
  rename_i hb
  rw [Nat.max_eq_left (by omega)]
  rw [hn.ring.termAt_eq (by omega) (by omega)] at hp
  dsimp only at hp
  split at hp
  · cases hp
  rename_i heq
  rw [not_not, hpt] at heq
  -- The entries before the slice are of one term, so the logs agree up to there.
  cases hprev : ae.prevLogIndex with
  | zero => rfl
  | succ i =>
    rw [hprev] at heq hle hlast
    obtain ⟨e, he⟩ : ∃ e, (g.log n)[i]? = some e := ⟨_, List.getElem?_eq_getElem (by omega)⟩
    obtain ⟨e', he'⟩ : ∃ e', (g.llog x.currentTerm)[i]? = some e' := ⟨_, List.getElem?_eq_getElem (by omega)⟩
    rw [termOf_succ he, termOf_succ he'] at heq
    exact (h.coherent.log n).agree (h.coherent.llog _) he he' heq

/-- **An accepted `AppendEntries`** takes over the leader's log as far as the slice and the ring reach. -/
theorem accept (h : Mirrors S g (c.set n x)) {m : Message} {ae : AppendEntries} (htold : Says g m)
    (hae : m.payload = .appendEntries ae) (ht : ae.term = x.currentTerm) (hst : x.state = .follower)
    (hp : x.prevMismatch S.cfg ae = none)
    (hedge : ae.prevLogIndex < x.log.base → x.log.base < ae.prevLogIndex + ae.nEntries →
      (g.log n).take x.log.base = (g.llog x.currentTerm).take x.log.base) :
    ∃ ℓ g', Next S careful n ℓ g g' ∧ Mirrors S g' (c.set n (x.accepted S.cfg ae)) ∧
      (ae.prevLogIndex + ae.nEntries ≤ x.log.base ∧ ae.prevLogIndex < x.log.base ∧ ℓ = g.log n ∨
        LogRing.Appended S.cfg x.log (x.accepted S.cfg ae).log (g.log n) ℓ (g.llog x.currentTerm)
          (ae.prevLogIndex + ae.nEntries)) := by
  have hn := h.self
  obtain ⟨evs, hq, he⟩ := Server.accepted_eq S.cfg ae x
  have hlog : (x.accepted S.cfg ae).log = x.log.appendAll S.cfg (ae.prevLogIndex + 1) ae.view := by rw [he]
  have hterm : (x.accepted S.cfg ae).currentTerm = x.currentTerm := by rw [he]
  have hstate : (x.accepted S.cfg ae).state = .follower := by rw [he]; exact hst
  have hsent : ∀ m ∈ (x.accepted S.cfg ae).sent, m ∈ x.sent ∨ Says g m := by
    intro m' hm'
    obtain ⟨t, v, hev⟩ := mem_sent.1 hm'
    rw [he] at hev
    rcases send_of_send evs rfl (fun e he => Event.silent_of_plain (Event.plain_of_quiet (hq e he))) hev with
      ⟨-, -, rfl⟩ | hev
    · exact .inr trivial
    · exact .inl (mem_sent.2 ⟨t, v, hev⟩)
  have hvotes : ∀ v t a, S.Granted (c.set n (x.accepted S.cfg ae)) v t a ↔ S.Granted (c.set n x) v t a := by
    refine granted_of_casts (_ :: evs) (by rw [he]; rfl) ?_
    intro e hmem
    rcases List.mem_cons.1 hmem with rfl | hmem
    · rfl
    · exact Event.casts_of_quiet (hq e hmem)
  obtain ⟨hl, -, hcount, -, -, hslice⟩ := htold.appendEntries hae
  rw [ht] at hl hslice
  have hview : ae.view = ae.entries := AppendEntries.view_eq hcount
  rw [hview] at hlog
  have hl' : g.leader x.currentTerm ≠ none := by
    rw [hl]
    exact Option.some_ne_none _
  by_cases hbelow : ae.prevLogIndex < x.log.base ∧ ae.prevLogIndex + ae.nEntries ≤ x.log.base
  · -- Nothing of the slice is above the edge.
    rw [LogRing.appendAll_below _ _ (by rw [← hcount]; exact hbelow.2)] at hlog
    exact ⟨g.log n, g, .refl S careful n g, h.stay (hn.still hterm (hlog ▸ hn.ring) (.inr hstate) hsent)
      (fun v t a => by rw [hvotes]), .inl ⟨hbelow.2, hbelow.1, rfl⟩⟩
  · have halign := h.aligned_of_accept htold hae ht hp (fun hb => hedge hb (by omega))
    obtain ⟨ℓ, happ⟩ := hn.ring.appendAll (h.coherent.llog x.currentTerm) (h.indexed _) ae.entries ae.prevLogIndex
      (h.coherent.log n) hslice halign
    rw [← hlog, ← hcount] at happ
    have hkeep : careful → ∀ m, m ≤ (g.log n).length → (g.log n).take m = (g.llog x.currentTerm).take m → m ≤ ℓ.length :=
      fun _ m hm heq => (happ.shared m hm heq).1
    obtain ⟨g', h1, h2⟩ := h.replace hl' happ.from_leader hkeep happ.holds hterm hstate hsent hvotes
    exact ⟨ℓ, g', h1, h2, .inr happ⟩

/-- **A finished `InstallSnapshot`** leaves the log as it is, if the snapshot's last entry is in it, or makes it the
leader's log up to there. -/
theorem install (h : Mirrors S g (c.set n x)) (io : Io) {m : Message} {is : InstallSnapshot} (htold : Says g m)
    (his : m.payload = .installSnapshot is) (ht : is.term = x.currentTerm) (hst : x.state = .follower)
    (hzero : is.lastIncludedIndex = 0 → x.log.base = 0) (hcare : careful → x.log.base ≤ is.lastIncludedIndex) :
    ∃ ℓ g', Next S careful n ℓ g g' ∧ Mirrors S g' (c.set n (x.installed S.cfg io is).core) ∧
      (ℓ = g.log n ∨ ℓ = (g.llog x.currentTerm).take is.lastIncludedIndex) ∧
      ℓ.take is.lastIncludedIndex = (g.llog x.currentTerm).take is.lastIncludedIndex ∧ is.lastIncludedIndex ≤ ℓ.length := by
  have hn := h.self
  have he := Server.installed_eq S.cfg io is x
  generalize x.installed S.cfg io is = z at he ⊢
  have hlog : z.core.log = Server.installLog S.cfg is x.log := by rw [he]
  have hterm : z.core.currentTerm = x.currentTerm := by rw [he]; rfl
  have hstate : z.core.state = .follower := by rw [he]; exact hst
  obtain ⟨evs, hcalls, hload⟩ : ∃ evs : List Event, z.core.calls = evs ++ x.calls ∧
      ∀ e ∈ evs, e.silent = true ∧ e.casts = false := by
    refine ⟨_, by rw [he], ?_⟩
    intro e hmem
    split at hmem
    · rw [List.mem_singleton.1 hmem]
      exact ⟨rfl, rfl⟩
    · cases hmem
  have hsent : ∀ m ∈ z.core.sent, m ∈ x.sent ∨ Says g m :=
    fun m' hm' => .inl (mem_sent_of_silent evs hcalls (fun e hmem => (hload e hmem).1) hm')
  have hvotes : ∀ v t a, S.Granted (c.set n z.core) v t a ↔ S.Granted (c.set n x) v t a :=
    granted_of_casts evs hcalls (fun e hmem => (hload e hmem).2)
  obtain ⟨hl, -, hle, hlt⟩ := htold.installSnapshot his
  rw [ht] at hl hle hlt
  rw [Server.installLog] at hlog
  split at hlog
  · rename_i hcov
    have hbase : x.log.base ≤ is.lastIncludedIndex := by
      by_contra hlt'
      have h0 : is.lastIncludedIndex = 0 := by
        by_contra h0
        rw [LogRing.termAt_eq_none h0 (.inl (by omega))] at hcov
        cases hcov.2
      have := hzero h0
      omega
    obtain ⟨hlen, hedge⟩ := hn.ring.termAt_eq_some hbase hcov.2
    have hring : z.core.log.Holds S.cfg (g.log n) := by
      rw [hlog]
      exact hn.ring.compactTo hbase hlen hedge
    refine ⟨g.log n, g, .refl S careful n g, h.stay (hn.still hterm hring (.inr hstate) hsent)
      (fun v t a => by rw [hvotes]), .inl rfl, ?_, hlen⟩
    -- The entry is there, with the leader's term.
    rw [hlt] at hedge
    cases hli : is.lastIncludedIndex with
    | zero => rfl
    | succ i =>
      rw [hli] at hedge hle hlen
      obtain ⟨e, he⟩ : ∃ e, (g.log n)[i]? = some e := ⟨_, List.getElem?_eq_getElem (by omega)⟩
      obtain ⟨e', he'⟩ : ∃ e', (g.llog x.currentTerm)[i]? = some e' := ⟨_, List.getElem?_eq_getElem (by omega)⟩
      rw [termOf_succ he, termOf_succ he'] at hedge
      exact (h.coherent.log n).agree (h.coherent.llog _) he he' hedge.symm
  · rename_i hcov
    have hlen : ((g.llog x.currentTerm).take is.lastIncludedIndex).length = is.lastIncludedIndex := by
      rw [List.length_take]
      omega
    have hring : z.core.log.Holds S.cfg ((g.llog x.currentTerm).take is.lastIncludedIndex) := by
      have hlast : is.lastIncludedTerm = lastTermOf ((g.llog x.currentTerm).take is.lastIncludedIndex) := by
        rw [lastTermOf, hlen, termOf_take (Nat.le_refl _)]
        exact hlt
      have hreset : (x.log.resetToSnapshot ((g.llog x.currentTerm).take is.lastIncludedIndex).length
          is.lastIncludedTerm).Holds S.cfg ((g.llog x.currentTerm).take is.lastIncludedIndex) :=
        LogRing.holds_resetToSnapshot x.log hlast
      rw [hlen] at hreset
      rw [hlog]
      exact hreset
    have hkeep : careful → ∀ m, m ≤ (g.log n).length → (g.log n).take m = (g.llog x.currentTerm).take m →
        m ≤ ((g.llog x.currentTerm).take is.lastIncludedIndex).length := by
      intro hc m hm heq
      rw [hlen]
      by_contra hgt
      -- The log would hold the snapshot's last entry.
      refine hcov ⟨by rw [hn.ring.lastIndex]; omega, ?_⟩
      have hterms : termOf ((g.log n).take m) is.lastIncludedIndex = termOf ((g.llog x.currentTerm).take m) is.lastIncludedIndex := by
        rw [heq]
      rw [termOf_take (by omega), termOf_take (by omega)] at hterms
      rw [hn.ring.termAt_eq (hcare hc) (by omega), hlt, hterms]
    have hl' : g.leader x.currentTerm ≠ none := by
      rw [hl]
      exact Option.some_ne_none _
    obtain ⟨g', h1, h2⟩ := h.replace hl' (.inr ⟨_, hle, rfl⟩) hkeep hring hterm hstate hsent hvotes
    exact ⟨_, g', h1, h2, .inr rfl, by rw [List.take_take, Nat.min_self], Nat.le_of_eq hlen.symm⟩

/-- What is known of a message on its way. -/
theorem heard (h : Mirrors S g c) (hv : VoteInv S c) {m : Message} (hm : S.InFlight c m) :
    Says g m ∧ m.sender ∈ S.ids := by
  obtain ⟨a, ha, hm⟩ := hm
  refine ⟨(h.node a).sent m hm, ?_⟩
  obtain ⟨t, v, hev⟩ := mem_sent.1 hm
  rw [((hv a).sends t v m hev).1]
  exact ha

/-- A move that leaves the history as it is. -/
theorem hold {io : Io} {fit : Prop} {heard : Option Message} {start : Server} (h : Mirrors S g (c.set n x))
    (hself : x.selfId = n) (hmv : Move S.cfg io fit heard start x y) (evs : List Event) (hc : y.calls = evs ++ x.calls)
    (hcasts : ∀ e ∈ evs, e.casts = false) (hterm : y.currentTerm = x.currentTerm) (hring : y.log.Holds S.cfg (g.log n))
    (hst : y.state = x.state ∨ y.state = .follower) : Mirrors S g (c.set n y) := by
  refine h.stay (h.self.still hterm hring hst ?_) (fun v t a => by rw [granted_of_casts evs hc hcasts])
  intro m hm
  rcases hmv.sends hm with hm | hm | ⟨_, _, _, _, _, _, _, hm⟩
  · exact .inl hm
  · exact .inr (h.self.tells hself hm)
  · rw [hm]
    exact .inr trivial

theorem holds_compact (h : Mirror S.cfg g n x) {t : Nat} (hb : x.log.base < x.lastApplied)
    (ht : x.log.termAt S.cfg x.lastApplied = some t) : (x.log.compactTo S.cfg x.lastApplied t).Holds S.cfg (g.log n) := by
  obtain ⟨hle, hedge⟩ := h.ring.termAt_eq_some (Nat.le_of_lt hb) ht
  exact h.ring.compactTo (Nat.le_of_lt hb) hle hedge

/-- **Every move of a server is a step of the replicated log, or none.** -/
theorem move {io : Io} {heard : Option Message} {start : Server} (hids : badNode ∉ S.ids) (hn : n ∈ S.ids)
    (hv : VoteInv S (c.set n x)) (h : Mirrors S g (c.set n x))
    (hheard : ∀ m, heard = some m → m.recipient = n ∧ S.InFlight (c.set n x) m)
    (hmv : Move S.cfg io True heard start x y)
    (hedge : ∀ m ae, heard = some m → m.payload = .appendEntries ae → ae.term = x.currentTerm →
      x.prevMismatch S.cfg ae = none → Server.Untouched start x → ae.prevLogIndex < x.log.base →
      x.log.base < ae.prevLogIndex + ae.nEntries →
      (g.log n).take x.log.base = (g.llog x.currentTerm).take x.log.base)
    (hzero : ∀ m is, heard = some m → m.payload = .installSnapshot is → is.term = x.currentTerm → is.done = true →
      Server.Untouched start x → (is.lastIncludedIndex = 0 → x.log.base = 0) ∧
        (careful → x.log.base ≤ is.lastIncludedIndex)) :
    ∃ ℓ g', Next S careful n ℓ g g' ∧ Mirrors S g' (c.set n y) := by
  have hself : x.selfId = n := by
    have := (hv n).self
    rwa [Cluster.set_node_self] at this
  have hne : n ≠ badNode := fun he => hids (he ▸ hn)
  have hv' : VoteInv S (c.set n y) := hv.move hheard hmv
  have hring := h.self.ring
  have hquiet : ∀ evs : List Event, (∀ e ∈ evs, e.quiet = true) → ∀ e ∈ evs, e.casts = false :=
    fun evs hq e he => Event.casts_of_quiet (hq e he)
  have hnil : ∀ e ∈ ([] : List Event), e.casts = false := by simp
  have hstay : Mirrors S g (c.set n y) → ∃ ℓ g', Next S careful n ℓ g g' ∧ Mirrors S g' (c.set n y) :=
    fun hm => ⟨_, g, .refl S careful n g, hm⟩
  have hall := hmv
  cases hmv with
  | quiet evs hq => exact hstay (h.hold hself hall evs rfl (hquiet evs hq) rfl hring (.inl rfl))
  | aim nodes hk hna => exact hstay (h.hold hself hall [] rfl hnil rfl hring (.inl rfl))
  | adopt t ht => exact ⟨_, h.adopt ht rfl⟩
  | demote => exact hstay (h.hold hself hall [] rfl hnil rfl hring (.inr rfl))
  | campaign hs hf =>
    have hfit : wrap64 (x.currentTerm + 1) = x.currentTerm + 1 := Nat.mod_eq_of_lt (hf trivial)
    rw [hfit]
    exact ⟨_, h.campaign hself hne (Nat.lt_succ_self _) rfl⟩
  | tally m rr p hm hrr hpre hg ht hs hp hnv => exact hstay (h.hold hself hall [] rfl hnil rfl hring (.inl rfl))
  | promote hs hm _ => exact ⟨_, h.promote hne hv' hs rfl⟩
  | propose e log hs ht hi hp => exact ⟨_, h.propose hs ht hi hp rfl⟩
  | vote m rv hm hrv hpre ht hvf hu =>
    obtain ⟨htold, hsender⟩ := h.heard hv (hheard m hm).2
    exact ⟨_, h.vote hv htold (fun he => hids (he ▸ hsender)) hrv hpre ht hvf hu rfl⟩
  | emit m hsend => exact hstay (h.hold hself hall [_] rfl (by simp [Event.casts]) rfl hring (.inl rfl))
  | accept m ae hm hae ht hs hp h0 =>
    obtain ⟨ℓ, g', h1, h2, -⟩ := h.accept (h.heard hv (hheard m hm).2).1 hae ht hs hp (hedge m ae hm hae ht hp h0)
    exact ⟨ℓ, g', h1, h2⟩
  | chunk m is hm his ht hs hd h0 =>
    have he := Server.chunk_eq S.cfg is x
    exact hstay (h.hold hself hall [] (by rw [he]; rfl) hnil (by rw [he]; rfl) (by rw [he]; exact hring)
      (.inl (by rw [he]; rfl)))
  | install m is hm his ht hs hd h0 =>
    obtain ⟨h1, h2⟩ := hzero m is hm his ht hd h0
    obtain ⟨ℓ, g', h3, h4, -⟩ := h.install io (h.heard hv (hheard m hm).2).1 his ht hs h1 h2
    exact ⟨ℓ, g', h3, h4⟩
  | learn sender l hs hr => exact hstay (h.hold hself hall [] rfl hnil rfl hring (.inl rfl))
  | advance next hs hnx => exact hstay (h.hold hself hall [] rfl hnil rfl hring (.inl rfl))
  | apply hlt =>
    have he := Server.applyNext_eq S.cfg x
    refine hstay (h.hold hself hall _ (by rw [he]) ?_ (by rw [he]) (by rw [he]; exact hring) (.inl (by rw [he])))
    cases x.log.at? S.cfg (x.lastApplied + 1) with
    | none => exact hnil
    | some e => simp [Event.casts]
  | compact bytes t hio hb ht =>
    exact hstay (h.hold hself hall [_, _] rfl (by simp [Event.casts]) rfl (holds_compact h.self hb ht) (.inl rfl))

theorem core_iff : Mirrors S g (c.set n x) ↔ Mirrors S g (c.set n x.core) := by
  have hG : ∀ v t a, S.Granted (c.set n x.core) v t a ↔ S.Granted (c.set n x) v t a :=
    granted_of_casts [] rfl (by simp)
  constructor
  · intro h
    exact h.stay (Mirror.core_iff.2 h.self) (fun v t a => by rw [hG])
  · intro h
    exact h.stay (Mirror.core_iff.1 h.self) (fun v t a => by rw [hG])

/-- The servers as they are built, with nothing on record. -/
theorem init (hfresh : S.Fresh) : Mirrors S S.blank S.init := by
  refine ⟨(S.sound_blank hfresh).toCoherent, fun t i e _ he => (by cases he), fun a => ?_, ?_⟩
  · obtain ⟨h1, -, -⟩ := rebuild_log S a []
    have hst : (S.rebuild a []).state = .follower ∧ (S.rebuild a []).currentTerm = (S.boot a).1 := by
      unfold Setup.rebuild Server.new
      split <;> exact ⟨rfl, rfl⟩
    refine ⟨hst.2.symm, ?_, fun i e _ he => (by cases he), fun hs => ?_, fun hs => ?_, fun m hm => ?_⟩
    · show (S.rebuild a []).log.Holds S.cfg []
      rw [h1]
      exact LogRing.holds_nil S.cfg
    · have hs : (S.rebuild a []).state = .leader := hs
      rw [hst.1] at hs
      cases hs
    · have hs : (S.rebuild a []).state = .candidate := hs
      rw [hst.1] at hs
      cases hs
    · obtain ⟨t, v, hev⟩ := mem_sent.1 hm
      cases hev
  · intro v t a
    have hboot : S.Granted S.init v t a ↔ (t, a) ∈ [S.boot v] := Iff.rfl
    rw [hboot, List.mem_singleton]
    exact Iff.rfl

end Mirrors

end Raft
end FloodEws
