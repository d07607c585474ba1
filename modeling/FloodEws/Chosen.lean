import FloodEws.Replog
/-!
# Chosen — what a majority acknowledged, every later leader has

An index of a leader's log is chosen once a majority has acknowledged the log up to it and its entry is of the leader's
own term.  By induction on the term, the log every later leader was elected with extends the chosen prefix: one of its
electors had acknowledged it, still had it when voting, and found the candidate's log at least as up-to-date.

That a node still has what it acknowledged is not an invariant by itself: it holds until some leader in between lacks
it (`Keeps`), and the induction excludes that.
-/
namespace FloodEws

universe u v

variable {ν : Type u} {ε : Type v}

namespace Replog

/-- The log `ℓ` still has the first `k` entries of the leader's log of `t`, or a leader after `t` and before `T` was
elected without them. -/
def Keeps (s : Replog ν ε) (t k T : Nat) (ℓ : List ε) : Prop :=
  (s.llog t).take k <+: ℓ ∨
    ∃ t', t < t' ∧ t' < T ∧ s.leader t' ≠ none ∧ ¬ (s.llog t).take k <+: s.vlog t'

/-- **Nodes keep what they acknowledged, and vote with it.** -/
structure Sound (tm : ε → Nat) (V : Finset ν) (s : Replog ν ε) : Prop extends Coherent tm V s where
  acked_le : ∀ v t, s.acked v t ≤ (s.llog t).length
  acked_term : ∀ v t, 0 < s.acked v t → t ≤ s.term v
  kept : ∀ v t k, k ≤ s.acked v t → s.Keeps t k (s.term v + 1) (s.log v)
  backed : ∀ v t a, s.voted v t a → (s.leader t = none ∨ s.elector t v) →
    ∃ ℓ, Canonical tm s.llog ℓ ∧ UpToDate tm ℓ (s.cand t a) ∧ ∀ t' k, t' < t → k ≤ s.acked v t' → s.Keeps t' k t ℓ

/-- The first `k` entries of the log of the leader of `t` are chosen. -/
structure Chosen (tm : ε → Nat) (V : Finset ν) (s : Replog ν ε) (t k : Nat) : Prop where
  own : ∃ e, (s.llog t)[k - 1]? = some e ∧ tm e = t
  pos : 0 < k
  quorum : Quorum V (fun v => k ≤ s.acked v t)

variable {tm : ε → Nat} {V : Finset ν} {s s' : Replog ν ε}

namespace Keeps

variable {t k T T' : Nat} {ℓ ℓ' : List ε}

theorem mono (h : s.Keeps t k T ℓ) (hT : T ≤ T') (hℓ : ℓ <+: ℓ') : s.Keeps t k T' ℓ' := by
  rcases h with h | ⟨t', h1, h2, h3⟩
  · exact .inl (h.trans hℓ)
  · exact .inr ⟨t', h1, Nat.lt_of_lt_of_le h2 hT, h3⟩

theorem grows (h : s.Keeps t k T ℓ) (hg : Grows s s') (hk : k ≤ (s.llog t).length) : s'.Keeps t k T ℓ := by
  unfold Keeps
  rw [take_eq_of_isPrefix (hg.llog t) hk]
  rcases h with h | ⟨t', h1, h2, h3, h4⟩
  · exact .inl h
  · obtain ⟨a, ha⟩ := Option.ne_none_iff_exists'.1 h3
    refine .inr ⟨t', h1, h2, ?_, ?_⟩
    · rw [hg.leader t' a ha]
      exact Option.some_ne_none a
    · rw [hg.vlog t' h3]
      exact h4

/-- Nobody is leader of the term just before `T`. -/
theorem drop_idle (h : s.Keeps t k (T + 1) ℓ) (hT : s.leader T = none) : s.Keeps t k T ℓ := by
  rcases h with h | ⟨t', h1, h2, h3, h4⟩
  · exact .inl h
  · have hne : t' ≠ T := by
      rintro rfl
      exact h3 hT
    exact .inr ⟨t', h1, by omega, h3, h4⟩

end Keeps

theorem UpToDate.refl (tm : ε → Nat) (ℓ : List ε) : UpToDate tm ℓ ℓ := .inr ⟨rfl, Nat.le_refl _⟩

namespace Sound

theorem blank (term : ν → Nat) : Sound tm V (Replog.blank term : Replog ν ε) where
  toCoherent := Coherent.blank term
  acked_le := fun _ _ => Nat.le_refl _
  acked_term := fun _ _ h => absurd h (Nat.lt_irrefl 0)
  kept := by
    intro v t k hk
    have hk : k = 0 := Nat.le_zero.1 hk
    subst hk
    exact .inl List.nil_prefix
  backed := fun _ _ _ h => h.elim

/-- Nothing has happened but some votes. -/
theorem blank_voted (term : ν → Nat) (voted : ν → Nat → ν → Prop)
    (hle : ∀ v t a, voted v t a → t ≤ term v ∧ t ≤ term a) (huniq : ∀ v t a b, voted v t a → voted v t b → a = b) :
    Sound tm V ({ Replog.blank term with voted := voted } : Replog ν ε) := by
  have hblank : Sound tm V (Replog.blank term : Replog ν ε) := .blank term
  have hco : ({ Replog.blank term with voted := voted } : Replog ν ε).Coherent tm V :=
    { hblank.toCoherent with
      chosen := fun _ _ h => by cases h
      voted_le := hle
      voted_unique := huniq }
  refine { hco with acked_le := hblank.acked_le, acked_term := hblank.acked_term, kept := hblank.kept, backed := ?_ }
  rintro v t a - -
  -- Every log is empty, so nobody has acknowledged anything.
  refine ⟨[], Canonical.nil, .inr ⟨rfl, Nat.le_refl _⟩, fun t' k _ hk => .inl ?_⟩
  rw [Nat.le_zero.1 hk]
  exact List.nil_prefix

/-- The frame rule: acknowledgements stand, logs and terms grow, and the votes with their candidates are the same. -/
theorem frame (h : Sound tm V s) (hco : Coherent tm V s') (hg : Grows s s') (hack : s'.acked = s.acked)
    (hlog : ∀ v, s.log v <+: s'.log v)
    (hvote : ∀ v t a, s'.voted v t a → (s'.leader t = none ∨ s'.elector t v) →
      s.voted v t a ∧ (s.leader t = none ∨ s.elector t v)) : Sound tm V s' := by
  refine ⟨hco, ?_, ?_, ?_, ?_⟩
  · intro v t
    rw [hack]
    exact Nat.le_trans (h.acked_le v t) (hg.llog t).length_le
  · intro v t ht
    rw [hack] at ht
    exact Nat.le_trans (h.acked_term v t ht) (hg.term v)
  · intro v t k hk
    rw [hack] at hk
    exact ((h.kept v t k hk).mono (Nat.succ_le_succ (hg.term v)) (hlog v)).grows hg (Nat.le_trans hk (h.acked_le v t))
  · intro v t a hv he
    obtain ⟨hv, he⟩ := hvote v t a hv he
    obtain ⟨ℓ, h1, h2, h3⟩ := h.backed v t a hv he
    refine ⟨ℓ, h1.mono hg.llog, ?_, ?_⟩
    · rw [hg.cand t a (h.voted_le v t a hv).2]
      exact h2
    · intro t' k ht hk
      rw [hack] at hk
      exact (h3 t' k ht hk).grows hg (Nat.le_trans hk (h.acked_le v t'))

theorem grant (h : Sound tm V s) {v a : ν} (ht : s.term v ≤ s.term a) (h1 : ∀ b, s.voted v (s.term v) b → b = a)
    (hu : UpToDate tm (s.log v) (s.cand (s.term v) a)) :
    Sound tm V { s with voted := fun v' t b => s.voted v' t b ∨ (v' = v ∧ t = s.term v ∧ b = a) } := by
  refine ⟨h.toCoherent.grant ht h1, h.acked_le, h.acked_term, h.kept, ?_⟩
  rintro w t b (hw | ⟨rfl, rfl, rfl⟩) hb
  · exact h.backed w t b hw hb
  · cases hl : s.leader (s.term w) with
    | none =>
      -- The new vote is cast with the log as it is.
      exact ⟨s.log w, h.log w, hu, fun t' k _ hk => (h.kept w t' k hk).drop_idle hl⟩
    | some c =>
      -- The voter already counted in this term's election, so the vote is not new.
      have hel : s.elector (s.term w) w := by
        rcases hb with hb | hb
        · have hb : s.leader (s.term w) = none := hb
          rw [hl] at hb
          cases hb
        · exact hb
      have hold := (h.chosen _ c hl).2.2.2 w hel
      have hcb := h1 c hold
      subst hcb
      exact h.backed w _ c hold (.inr hel)

variable [DecidableEq ν]

theorem campaign (h : Sound tm V s) {a : ν} {t : Nat} (ht : s.term a < t) (hs : Step tm V True s s')
    (he : s' = { s with
      term := Function.update s.term a t
      cand := Function.update s.cand t (Function.update (s.cand t) a (s.log a))
      voted := fun v t' b => s.voted v t' b ∨ (v = a ∧ t' = t ∧ b = a) }) : Sound tm V s' := by
  have hco := h.toCoherent.step hs
  have hg := hs.grows h.toCoherent
  subst he
  -- All but the new vote is the frame rule, for the state without it.
  refine ⟨hco, h.acked_le, ?_, ?_, ?_⟩
  · exact fun v t' hp => Nat.le_trans (h.acked_term v t' hp) (hg.term v)
  · intro v t' k hk
    exact ((h.kept v t' k hk).mono (Nat.succ_le_succ (hg.term v)) (List.prefix_refl _)).grows hg
      (Nat.le_trans hk (h.acked_le v t'))
  · rintro v t' b (hv | ⟨rfl, rfl, rfl⟩) hb
    · obtain ⟨ℓ, h1, h2, h3⟩ := h.backed v t' b hv hb
      refine ⟨ℓ, h1, ?_, fun t'' k h4 hk => (h3 t'' k h4 hk).grows hg (Nat.le_trans hk (h.acked_le v t''))⟩
      rw [hg.cand t' b (h.voted_le v t' b hv).2]
      exact h2
    · refine ⟨s.log b, h.log b, ?_, ?_⟩
      · show UpToDate tm _ (Function.update s.cand t' _ t' b)
        rw [Function.update_self, Function.update_self]
        exact UpToDate.refl tm _
      · intro t'' k h4 hk
        exact ((h.kept b t'' k hk).mono ht (List.prefix_refl _)).grows hg (Nat.le_trans hk (h.acked_le b t''))

theorem elect (h : Sound tm V s) {a : ν} (hl : s.leader (s.term a) = none) (hs : Step tm V True s s')
    (he : s' = { s with
      leader := Function.update s.leader (s.term a) (some a)
      elector := Function.update s.elector (s.term a) (fun v => s.voted v (s.term a) a)
      vlog := Function.update s.vlog (s.term a) (s.log a)
      llog := Function.update s.llog (s.term a) (s.log a) }) : Sound tm V s' := by
  have hco := h.toCoherent.step hs
  have hg := hs.grows h.toCoherent
  subst he
  refine h.frame hco hg rfl (fun v => List.prefix_refl _) ?_
  intro v t b hv hb
  refine ⟨hv, ?_⟩
  by_cases hta : t = s.term a
  · subst hta
    exact .inl hl
  · have hb : Function.update s.leader (s.term a) (some a) t = none ∨
        Function.update s.elector (s.term a) (fun v => s.voted v (s.term a) a) t v := hb
    rw [Function.update_of_ne hta, Function.update_of_ne hta] at hb
    exact hb

theorem follow (h : Sound tm V s) {v : ν} {k : Nat} (hl : s.leader (s.term v) ≠ none)
    (hkeep : ∀ m, m ≤ (s.log v).length → (s.log v).take m = (s.llog (s.term v)).take m → m ≤ k) :
    Sound tm V { s with log := Function.update s.log v ((s.llog (s.term v)).take k) } := by
  refine ⟨h.toCoherent.follow v k, h.acked_le, h.acked_term, ?_, h.backed⟩
  intro w t j hj
  have hj : j ≤ s.acked w t := hj
  show Keeps s t j (s.term w + 1) (Function.update s.log v ((s.llog (s.term v)).take k) w)
  by_cases hw : w = v
  case neg =>
    rw [Function.update_of_ne hw]
    exact h.kept w t j hj
  subst hw
  rw [Function.update_self]
  have hlen : ((s.llog t).take j).length = j := by
    have := h.acked_le w t
    rw [List.length_take]
    omega
  -- What the old log and the leader's log share stays.
  have hshare : (s.llog t).take j <+: s.log w → (s.llog t).take j <+: s.llog (s.term w) →
      (s.llog t).take j <+: (s.llog (s.term w)).take k := by
    intro hp hp'
    have h1 := List.prefix_iff_eq_take.1 hp
    have h2 := List.prefix_iff_eq_take.1 hp'
    rw [hlen] at h1 h2
    have hjk : j ≤ k := hkeep j (hlen ▸ hp.length_le) (h1.symm.trans h2)
    rw [h2]
    exact List.take_prefix_take_left hjk
  rcases h.kept w t j hj with hp | hlost
  case inr => exact .inr hlost
  rcases Nat.lt_trichotomy t (s.term w) with ht | ht | ht
  · by_cases hv : (s.llog t).take j <+: s.vlog (s.term w)
    · obtain ⟨ext, heq, -⟩ := h.own (s.term w)
      exact .inl (hshare hp (hv.trans (heq ▸ List.prefix_append _ _)))
    · exact .inr ⟨s.term w, ht, Nat.lt_succ_self _, hl, hv⟩
  · subst ht
    exact .inl (hshare hp (List.take_prefix _ _))
  · have hzero : s.acked w t = 0 := by
      by_contra hne
      have := h.acked_term w t (Nat.pos_of_ne_zero hne)
      omega
    have hj : j = 0 := by omega
    subst hj
    exact .inl List.nil_prefix

theorem acknowledge (h : Sound tm V s) {v : ν} {k : Nat} (hk : k ≤ (s.llog (s.term v)).length)
    (hp : (s.llog (s.term v)).take k <+: s.log v) :
    Sound tm V { s with
      acked := Function.update s.acked v
        (Function.update (s.acked v) (s.term v) (max k (s.acked v (s.term v)))) } := by
  have hcase : ∀ w t, (w = v ∧ t = s.term v) ∨
      Function.update s.acked v (Function.update (s.acked v) (s.term v) (max k (s.acked v (s.term v)))) w t =
        s.acked w t := by
    intro w t
    by_cases hw : w = v
    · subst hw
      by_cases ht : t = s.term w
      · exact .inl ⟨rfl, ht⟩
      · rw [Function.update_self, Function.update_of_ne ht]
        exact .inr rfl
    · rw [Function.update_of_ne hw]
      exact .inr rfl
  have hself : Function.update s.acked v (Function.update (s.acked v) (s.term v) (max k (s.acked v (s.term v)))) v
      (s.term v) = max k (s.acked v (s.term v)) := by
    rw [Function.update_self, Function.update_self]
  refine ⟨{ h.toCoherent with }, ?_, ?_, ?_, ?_⟩
  · intro w t
    show Function.update s.acked v _ w t ≤ _
    rcases hcase w t with ⟨rfl, rfl⟩ | he
    · rw [hself]
      exact Nat.max_le.2 ⟨hk, h.acked_le w _⟩
    · rw [he]
      exact h.acked_le w t
  · intro w t ht
    have ht : 0 < Function.update s.acked v _ w t := ht
    rcases hcase w t with ⟨rfl, rfl⟩ | he
    · exact Nat.le_refl _
    · rw [he] at ht
      exact h.acked_term w t ht
  · intro w t j hj
    have hj : j ≤ Function.update s.acked v _ w t := hj
    rcases hcase w t with ⟨rfl, rfl⟩ | he
    · rw [hself] at hj
      by_cases hjk : j ≤ k
      · exact .inl ((List.take_prefix_take_left hjk).trans hp)
      · exact h.kept w _ j (by omega)
    · rw [he] at hj
      exact h.kept w t j hj
  · intro w t a hw hb
    obtain ⟨ℓ, h1, h2, h3⟩ := h.backed w t a hw hb
    refine ⟨ℓ, h1, h2, fun t' j ht hj => ?_⟩
    have hj : j ≤ Function.update s.acked v _ w t' := hj
    rcases hcase w t' with ⟨rfl, rfl⟩ | he
    · have := (h.voted_le w t a hw).1
      omega
    · rw [he] at hj
      exact h3 t' j ht hj

/-- **Every careful step is sound.** -/
theorem step (h : Sound tm V s) (hs : Step tm V True s s') : Sound tm V s' := by
  have hco := h.toCoherent.step hs
  have hg := hs.grows h.toCoherent
  have hall := hs
  cases hs with
  | raise v t ht => exact h.frame hco hg rfl (fun _ => List.prefix_refl _) (fun _ _ _ hv hb => ⟨hv, hb⟩)
  | campaign a t ht => exact h.campaign ht hall rfl
  | grant v a ht h1 hu => exact h.grant ht h1 hu
  | elect a hl hlog hq => exact h.elect hl hall rfl
  | append a e hl hlog he =>
    refine h.frame hco hg rfl ?_ (fun _ _ _ hv hb => ⟨hv, hb⟩)
    intro v
    show s.log v <+: Function.update s.log a (s.log a ++ [e]) v
    by_cases hv : v = a
    · subst hv
      rw [Function.update_self]
      exact List.prefix_append _ _
    · rw [Function.update_of_ne hv]
  | follow v k hl hk hkeep => exact h.follow hl (hkeep trivial)
  | acknowledge v k hk hp => exact h.acknowledge hk hp

end Sound

/-! ## Chosen prefixes -/

namespace Chosen

variable {t k : Nat}

theorem le (h : Chosen tm V s t k) : k ≤ (s.llog t).length := by
  obtain ⟨e, he, -⟩ := h.own
  have := (List.getElem?_eq_some_iff.1 he).1
  omega

theorem led (h : Chosen tm V s t k) (hco : Coherent tm V s) : s.leader t ≠ none := by
  intro hl
  have := h.le
  rw [hco.idle t hl, List.length_nil] at this
  have := h.pos
  omega

theorem grows (h : Chosen tm V s t k) (hg : Grows s s') : Chosen tm V s' t k := by
  obtain ⟨e, he, ht⟩ := h.own
  refine ⟨⟨e, ?_, ht⟩, h.pos, h.quorum.mono (fun v _ hv => Nat.le_trans hv (hg.acked v t))⟩
  obtain ⟨ext, heq⟩ := hg.llog t
  rw [← heq, List.getElem?_append_left (List.getElem?_eq_some_iff.1 he).1]
  exact he

end Chosen

/-- The last entry of a log. -/
theorem exists_lastTm {ℓ : List ε} (tm : ε → Nat) (hne : ℓ ≠ []) : ∃ e ∈ ℓ, tm e = lastTm tm ℓ :=
  ⟨ℓ.getLast hne, List.getLast_mem hne, by rw [lastTm, List.getLast?_eq_some_getLast hne]; rfl⟩

/-- **A log at least as up-to-date carries the prefix on**, if every leader after `t` and up to its last term had it. -/
theorem Coherent.carry (h : Coherent tm V s) {t k T : Nat} (hown : ∃ e, (s.llog t)[k - 1]? = some e ∧ tm e = t)
    (hpos : 0 < k) {ℓ c : List ε} (hℓ : Canonical tm s.llog ℓ) (hc : Canonical tm s.llog c) (hlt : ∀ e ∈ c, tm e < T)
    (hu : UpToDate tm ℓ c) (hp : (s.llog t).take k <+: ℓ)
    (hbetween : ∀ t', t < t' → t' < T → s.leader t' ≠ none → (s.llog t).take k <+: s.vlog t') :
    (s.llog t).take k <+: c := by
  obtain ⟨e, he, het⟩ := hown
  have hmem : e ∈ (s.llog t).take k := by
    refine List.mem_of_getElem? (i := k - 1) ?_
    rw [List.getElem?_take_of_lt (by omega)]
    exact he
  have hℓne : ℓ ≠ [] := List.ne_nil_of_mem (hp.subset hmem)
  have hle : t ≤ lastTm tm ℓ := het ▸ h.llog_le ((hℓ.prefix_last hℓne).subset (hp.subset hmem))
  have hcne : c ≠ [] := by
    rintro rfl
    rcases hu with hu | ⟨-, hu⟩
    · exact absurd hu (Nat.not_lt_zero _)
    · exact hℓne (List.length_eq_zero_iff.1 (Nat.le_zero.1 hu))
  have hcp := hc.prefix_last hcne
  rcases hu with hu | ⟨heq, hlen⟩
  · -- The last entry of `c` is of a later term, so `c` reaches past the log that term's leader was elected with.
    obtain ⟨x, hx, hxt⟩ := exists_lastTm tm hcne
    have hled : s.leader (lastTm tm c) ≠ none := by
      intro hnone
      rw [h.idle _ hnone] at hcp
      exact hcne (List.prefix_nil.1 hcp)
    have hv := hbetween (lastTm tm c) (Nat.lt_of_le_of_lt hle hu) (hxt ▸ hlt x hx) hled
    obtain ⟨ext, hext, -⟩ := h.own (lastTm tm c)
    have hvp : s.vlog (lastTm tm c) <+: s.llog (lastTm tm c) := hext ▸ List.prefix_append _ _
    rcases Nat.le_total c.length (s.vlog (lastTm tm c)).length with hl | hl
    · have hcv := List.prefix_of_prefix_length_le hcp hvp hl
      have := h.vlog_lt _ x (hcv.subset hx)
      omega
    · exact hv.trans (List.prefix_of_prefix_length_le hvp hcp hl)
  · have hℓp := hℓ.prefix_last hℓne
    rw [heq] at hℓp
    exact hp.trans (List.prefix_of_prefix_length_le hℓp hcp hlen)

/-- **Leader completeness**: every later leader was elected with the chosen prefix. -/
theorem Sound.carried [DecidableEq ν] (h : Sound tm V s) {t k : Nat} (hc : Chosen tm V s t k) :
    ∀ T, t < T → s.leader T ≠ none → (s.llog t).take k <+: s.vlog T := by
  intro T
  induction T using Nat.strong_induction_on with
  | _ T ih =>
    intro hT hl
    obtain ⟨a, ha⟩ := Option.ne_none_iff_exists'.1 hl
    obtain ⟨-, hvlog, hq, hvoted⟩ := h.chosen T a ha
    obtain ⟨v, -, hack, hel⟩ := hc.quorum.meet hq
    obtain ⟨ℓ, hℓ, hu, hkeeps⟩ := h.backed v T a (hvoted v hel) (.inr hel)
    rw [hvlog]
    refine h.carry hc.own hc.pos hℓ (h.cand T a) (h.cand_lt T a) hu ?_ (fun t' h1 h2 h3 => ih t' h2 h1 h3)
    rcases hkeeps t k hT hack with hp | ⟨t', h1, h2, h3, h4⟩
    · exact hp
    · exact absurd (ih t' h2 h1 h3) h4

/-- **Every leader from the term on has the chosen prefix.** -/
theorem Sound.carried_llog [DecidableEq ν] (h : Sound tm V s) {t k T : Nat} (hc : Chosen tm V s t k) (hT : t ≤ T)
    (hl : s.leader T ≠ none) : (s.llog t).take k <+: s.llog T := by
  rcases Nat.eq_or_lt_of_le hT with rfl | hT
  · exact List.take_prefix _ _
  · obtain ⟨ext, hext, -⟩ := h.own T
    exact (h.carried hc T hT hl).trans (hext ▸ List.prefix_append _ _)

/-- An entry of a leader's own term lies past the log it was elected with. -/
theorem Coherent.vlog_length_le (h : Coherent tm V s) {t i : Nat} {e : ε} (he : (s.llog t)[i]? = some e) (ht : tm e = t) :
    (s.vlog t).length ≤ i := by
  obtain ⟨ext, hext, -⟩ := h.own t
  by_contra hlt
  rw [hext, List.getElem?_append_left (by omega)] at he
  have := h.vlog_lt t e (List.mem_of_getElem? he)
  omega

/-- **What is chosen in an earlier term lies below every entry of a leader's own.** -/
theorem Sound.chosen_lt_own [DecidableEq ν] (h : Sound tm V s) {t k T i : Nat} {e : ε} (hc : Chosen tm V s t k) (hT : t < T)
    (he : (s.llog T)[i]? = some e) (het : tm e = T) : k ≤ i := by
  have hled : s.leader T ≠ none := by
    intro hn
    rw [h.idle T hn] at he
    cases he
  have hlen := (h.carried hc T hT hled).length_le
  have hle := hc.le
  have hv := h.toCoherent.vlog_length_le he het
  rw [List.length_take] at hlen
  omega

/-- A node still has what it acknowledged, once that is chosen. -/
theorem Sound.has_chosen [DecidableEq ν] (h : Sound tm V s) {t k : Nat} {v : ν} (hc : Chosen tm V s t k)
    (hack : k ≤ s.acked v t) : (s.llog t).take k <+: s.log v := by
  rcases h.kept v t k hack with hp | ⟨t', h1, -, h3, h4⟩
  · exact hp
  · exact absurd (h.carried hc t' h1 h3) h4

/-- **Two chosen prefixes agree** where both reach. -/
theorem Sound.chosen_agree [DecidableEq ν] (h : Sound tm V s) {t k t' k' i : Nat} (hc : Chosen tm V s t k)
    (hc' : Chosen tm V s t' k') (hi : i < k) (hi' : i < k') : (s.llog t)[i]? = (s.llog t')[i]? := by
  have hone : ∀ {t k t' k'}, Chosen tm V s t k → Chosen tm V s t' k' → t ≤ t' → i < k → (s.llog t)[i]? = (s.llog t')[i]? := by
    intro t k t' k' hc hc' ht hi
    obtain ⟨ext, hext⟩ := h.carried_llog hc ht (hc'.led h.toCoherent)
    have hlen : i < ((s.llog t).take k).length := by
      have := hc.le
      rw [List.length_take]
      omega
    rw [← hext, List.getElem?_append_left hlen, List.getElem?_take_of_lt hi]
  rcases Nat.le_total t t' with ht | ht
  · exact hone hc hc' ht hi
  · exact (hone hc' hc ht hi').symm

end Replog

end FloodEws
