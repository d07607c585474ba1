import Mathlib.Data.List.Infix
import Mathlib.Logic.Function.Basic
import Mathlib.Logic.Relation
import FloodEws.Majority
/-!
# Replog — replicated logs, and why a chosen prefix survives

Nodes of some type `ν` keep logs of entries of some type `ε`, each entry stamped with a term.  What has happened so far
is kept whole: the log every candidate ran with, the votes, the leader of each term with the voters that elected it,
the log it was elected with and its log since, and how far each node has acknowledged each leader's log.

Two levels of trust.  `Coherent` needs no promise about acknowledgements: every log is made of prefixes of leaders'
logs, so two logs with an entry of the same term at one index agree up to there.  `Sound` is what holds when a node
never gives up what it shares with its leader: an index that a majority acknowledged, of the leader's own term, is in
the log of every later leader.
-/
namespace FloodEws

universe u v

variable {ν : Type u} {ε : Type v}

/-! ## Canonical logs -/

/-- **The log up to each entry is a prefix of the log of the leader of that entry's term.** -/
def Canonical (tm : ε → Nat) (L : Nat → List ε) (ℓ : List ε) : Prop :=
  ∀ i e, ℓ[i]? = some e → ℓ.take (i + 1) <+: L (tm e)

theorem take_succ_eq_append {ℓ : List ε} {i : Nat} {e : ε} (h : ℓ[i]? = some e) : ℓ.take (i + 1) = ℓ.take i ++ [e] := by
  rw [List.take_add_one, h]
  rfl

/-- Two prefixes of one list, of the same length. -/
theorem eq_of_isPrefix {a b ℓ : List ε} (ha : a <+: ℓ) (hb : b <+: ℓ) (h : a.length = b.length) : a = b := by
  rw [List.prefix_iff_eq_take.1 ha, List.prefix_iff_eq_take.1 hb, h]

/-- A prefix of a list is its own `take`. -/
theorem take_eq_of_isPrefix {ℓ m : List ε} {k : Nat} (h : ℓ <+: m) (hk : k ≤ ℓ.length) : m.take k = ℓ.take k := by
  obtain ⟨ext, rfl⟩ := h
  rw [List.take_append_of_le_length hk]

namespace Canonical

variable {tm : ε → Nat} {L L' : Nat → List ε} {ℓ ℓ' : List ε}

theorem nil : Canonical tm L [] := fun i e h => by simp at h

theorem of_isPrefix (h : Canonical tm L ℓ) (hp : ℓ' <+: ℓ) : Canonical tm L ℓ' := by
  intro i e he
  have hi : i < ℓ'.length := (List.getElem?_eq_some_iff.1 he).1
  have heq : ℓ.take (i + 1) = ℓ'.take (i + 1) := take_eq_of_isPrefix hp hi
  rw [← heq]
  refine h i e ?_
  obtain ⟨ext, rfl⟩ := hp
  rw [List.getElem?_append_left hi]
  exact he

theorem mono (h : Canonical tm L ℓ) (hL : ∀ t, L t <+: L' t) : Canonical tm L' ℓ :=
  fun i e he => (h i e he).trans (hL _)

theorem concat (h : Canonical tm L ℓ) {e : ε} (he : ℓ ++ [e] <+: L (tm e)) : Canonical tm L (ℓ ++ [e]) := by
  intro i x hx
  rcases Nat.lt_or_ge i ℓ.length with hi | hi
  · rw [List.getElem?_append_left hi] at hx
    rw [List.take_append_of_le_length hi]
    exact h i x hx
  · obtain ⟨hlt, hget⟩ := List.getElem?_eq_some_iff.1 hx
    rw [List.length_append, List.length_singleton] at hlt
    have hil : i = ℓ.length := by omega
    subst hil
    rw [List.getElem_concat_length rfl] at hget
    subst hget
    rw [List.take_of_length_le (by simp)]
    exact he

/-- **Log matching**: two canonical logs with entries of one term at one index agree up to it. -/
theorem agree (h : Canonical tm L ℓ) (h' : Canonical tm L ℓ') {i : Nat} {e e' : ε} (he : ℓ[i]? = some e)
    (he' : ℓ'[i]? = some e') (ht : tm e = tm e') : ℓ.take (i + 1) = ℓ'.take (i + 1) := by
  have hi := (List.getElem?_eq_some_iff.1 he).1
  have hi' := (List.getElem?_eq_some_iff.1 he').1
  refine eq_of_isPrefix (h i e he) (ht ▸ h' i e' he') ?_
  rw [List.length_take, List.length_take]
  omega

end Canonical

/-- The term of the last entry, 0 for the empty log. -/
def lastTm (tm : ε → Nat) (ℓ : List ε) : Nat := (ℓ.getLast?.map tm).getD 0

/-- The second log is at least as up-to-date as the first. -/
def UpToDate (tm : ε → Nat) (ℓ c : List ε) : Prop :=
  lastTm tm ℓ < lastTm tm c ∨ (lastTm tm ℓ = lastTm tm c ∧ ℓ.length ≤ c.length)

/-- A canonical log is a prefix of the log of its last term's leader. -/
theorem Canonical.prefix_last {tm : ε → Nat} {L : Nat → List ε} {ℓ : List ε} (h : Canonical tm L ℓ) (hne : ℓ ≠ []) :
    ℓ <+: L (lastTm tm ℓ) := by
  obtain ⟨e, he⟩ : ∃ e, ℓ.getLast? = some e := ⟨ℓ.getLast hne, List.getLast?_eq_some_getLast hne⟩
  have hlast : lastTm tm ℓ = tm e := by rw [lastTm, he]; rfl
  rw [List.getLast?_eq_getElem?] at he
  have hp := h _ e he
  have hpos : 0 < ℓ.length := List.length_pos_of_ne_nil hne
  rw [List.take_of_length_le (by omega)] at hp
  rw [hlast]
  exact hp

/-! ## What has happened so far -/

structure Replog (ν : Type u) (ε : Type v) where
  term : ν → Nat
  log : ν → List ε
  /-- The log a node ran with in a term. -/
  cand : Nat → ν → List ε
  voted : ν → Nat → ν → Prop
  leader : Nat → Option ν
  /-- Who had voted for the leader of a term when it was elected. -/
  elector : Nat → ν → Prop
  /-- The log the leader of a term was elected with, and its log since. -/
  vlog : Nat → List ε
  llog : Nat → List ε
  /-- How far a node has acknowledged the log of a term's leader. -/
  acked : ν → Nat → Nat

namespace Replog

/-- Nothing has happened: every node is in some term, and its log is empty. -/
def blank (term : ν → Nat) : Replog ν ε where
  term := term
  log := fun _ => []
  cand := fun _ _ => []
  voted := fun _ _ _ => False
  leader := fun _ => none
  elector := fun _ _ => False
  vlog := fun _ => []
  llog := fun _ => []
  acked := fun _ _ => 0

variable [DecidableEq ν]

/-- **One step of the protocol**, among the voters `V`.  In a `careful` run a node that takes over its leader's log
keeps all that the two logs have in common. -/
inductive Step (tm : ε → Nat) (V : Finset ν) (careful : Prop) : Replog ν ε → Replog ν ε → Prop where
  | raise (s : Replog ν ε) (v : ν) (t : Nat) (h : s.term v < t) :
      Step tm V careful s { s with term := Function.update s.term v t }
  | campaign (s : Replog ν ε) (a : ν) (t : Nat) (h : s.term a < t) :
      Step tm V careful s
        { s with
          term := Function.update s.term a t
          cand := Function.update s.cand t (Function.update (s.cand t) a (s.log a))
          voted := fun v t' b => s.voted v t' b ∨ (v = a ∧ t' = t ∧ b = a) }
  | grant (s : Replog ν ε) (v a : ν) (ht : s.term v ≤ s.term a) (h : ∀ b, s.voted v (s.term v) b → b = a)
      (hu : UpToDate tm (s.log v) (s.cand (s.term v) a)) :
      Step tm V careful s
        { s with voted := fun v' t b => s.voted v' t b ∨ (v' = v ∧ t = s.term v ∧ b = a) }
  | elect (s : Replog ν ε) (a : ν) (hl : s.leader (s.term a) = none) (hlog : s.log a = s.cand (s.term a) a)
      (hq : Quorum V (fun v => s.voted v (s.term a) a)) :
      Step tm V careful s
        { s with
          leader := Function.update s.leader (s.term a) (some a)
          elector := Function.update s.elector (s.term a) (fun v => s.voted v (s.term a) a)
          vlog := Function.update s.vlog (s.term a) (s.log a)
          llog := Function.update s.llog (s.term a) (s.log a) }
  | append (s : Replog ν ε) (a : ν) (e : ε) (hl : s.leader (s.term a) = some a) (hlog : s.log a = s.llog (s.term a))
      (he : tm e = s.term a) :
      Step tm V careful s
        { s with
          log := Function.update s.log a (s.log a ++ [e])
          llog := Function.update s.llog (s.term a) (s.log a ++ [e]) }
  | follow (s : Replog ν ε) (v : ν) (k : Nat) (hl : s.leader (s.term v) ≠ none) (hk : k ≤ (s.llog (s.term v)).length)
      (hkeep : careful → ∀ m, m ≤ (s.log v).length → (s.log v).take m = (s.llog (s.term v)).take m → m ≤ k) :
      Step tm V careful s { s with log := Function.update s.log v ((s.llog (s.term v)).take k) }
  | acknowledge (s : Replog ν ε) (v : ν) (k : Nat) (hk : k ≤ (s.llog (s.term v)).length)
      (h : (s.llog (s.term v)).take k <+: s.log v) :
      Step tm V careful s
        { s with acked := Function.update s.acked v (Function.update (s.acked v) (s.term v) (max k (s.acked v (s.term v)))) }

/-- What later states keep of earlier ones. -/
structure Grows (s s' : Replog ν ε) : Prop where
  term : ∀ v, s.term v ≤ s'.term v
  cand : ∀ t a, t ≤ s.term a → s'.cand t a = s.cand t a
  voted : ∀ v t a, s.voted v t a → s'.voted v t a
  leader : ∀ t a, s.leader t = some a → s'.leader t = some a
  vlog : ∀ t, s.leader t ≠ none → s'.vlog t = s.vlog t
  llog : ∀ t, s.llog t <+: s'.llog t
  acked : ∀ v t, s.acked v t ≤ s'.acked v t

/-- **Every log is made of prefixes of leaders' logs.** -/
structure Coherent (tm : ε → Nat) (V : Finset ν) (s : Replog ν ε) : Prop where
  log : ∀ v, Canonical tm s.llog (s.log v)
  log_le : ∀ v, ∀ e ∈ s.log v, tm e ≤ s.term v
  cand : ∀ t a, Canonical tm s.llog (s.cand t a)
  cand_lt : ∀ t a, ∀ e ∈ s.cand t a, tm e < t
  llog : ∀ t, Canonical tm s.llog (s.llog t)
  own : ∀ t, ∃ ext, s.llog t = s.vlog t ++ ext ∧ ∀ e ∈ ext, tm e = t
  vlog_lt : ∀ t, ∀ e ∈ s.vlog t, tm e < t
  idle : ∀ t, s.leader t = none → s.llog t = []
  chosen : ∀ t a, s.leader t = some a → t ≤ s.term a ∧ s.vlog t = s.cand t a ∧ Quorum V (s.elector t) ∧
    ∀ v, s.elector t v → s.voted v t a
  voted_le : ∀ v t a, s.voted v t a → t ≤ s.term v ∧ t ≤ s.term a
  voted_unique : ∀ v t a b, s.voted v t a → s.voted v t b → a = b

end Replog


namespace Replog

variable {tm : ε → Nat} {V : Finset ν} {careful : Prop} {s s' : Replog ν ε}

theorem Grows.refl (s : Replog ν ε) : Grows s s where
  term := fun _ => Nat.le_refl _
  cand := fun _ _ _ => rfl
  voted := fun _ _ _ h => h
  leader := fun _ _ h => h
  vlog := fun _ _ => rfl
  llog := fun _ => List.prefix_refl _
  acked := fun _ _ => Nat.le_refl _

theorem Grows.trans {s'' : Replog ν ε} (h : Grows s s') (h' : Grows s' s'') : Grows s s'' where
  term := fun v => Nat.le_trans (h.term v) (h'.term v)
  cand := fun t a ht => (h'.cand t a (Nat.le_trans ht (h.term a))).trans (h.cand t a ht)
  voted := fun v t a hv => h'.voted v t a (h.voted v t a hv)
  leader := fun t a hl => h'.leader t a (h.leader t a hl)
  vlog := by
    intro t ht
    obtain ⟨a, ha⟩ := Option.ne_none_iff_exists'.1 ht
    refine (h'.vlog t ?_).trans (h.vlog t ht)
    rw [h.leader t a ha]
    exact Option.some_ne_none a
  llog := fun t => (h.llog t).trans (h'.llog t)
  acked := fun v t => Nat.le_trans (h.acked v t) (h'.acked v t)

theorem Coherent.blank (term : ν → Nat) : Coherent tm V (Replog.blank term : Replog ν ε) where
  log := fun _ => Canonical.nil
  log_le := fun _ e he => by cases he
  cand := fun _ _ => Canonical.nil
  cand_lt := fun _ _ e he => by cases he
  llog := fun _ => Canonical.nil
  own := fun _ => ⟨[], rfl, fun e he => by cases he⟩
  vlog_lt := fun _ e he => by cases he
  idle := fun _ _ => rfl
  chosen := fun _ _ h => by cases h
  voted_le := fun _ _ _ h => h.elim
  voted_unique := fun _ _ _ _ h => h.elim

theorem Coherent.llog_le (h : Coherent tm V s) {t : Nat} {e : ε} (he : e ∈ s.llog t) : tm e ≤ t := by
  obtain ⟨ext, heq, hext⟩ := h.own t
  rw [heq] at he
  rcases List.mem_append.1 he with he | he
  · exact Nat.le_of_lt (h.vlog_lt t e he)
  · exact Nat.le_of_eq (hext e he)

theorem Coherent.grant (h : Coherent tm V s) {v a : ν} (ht : s.term v ≤ s.term a) (h1 : ∀ b, s.voted v (s.term v) b → b = a) :
    Coherent tm V { s with voted := fun v' t b => s.voted v' t b ∨ (v' = v ∧ t = s.term v ∧ b = a) } := by
  refine { h with chosen := ?_, voted_le := ?_, voted_unique := ?_ }
  · intro t b hb
    obtain ⟨hc1, hc2, hc3, hc4⟩ := h.chosen t b hb
    exact ⟨hc1, hc2, hc3, fun w hw => .inl (hc4 w hw)⟩
  · rintro w t b (hw | ⟨rfl, rfl, rfl⟩)
    · exact h.voted_le w t b hw
    · exact ⟨Nat.le_refl _, ht⟩
  · rintro w t b b' (hw | ⟨rfl, rfl, rfl⟩) (hw' | ⟨h2, h3, rfl⟩)
    · exact h.voted_unique w t b b' hw hw'
    · subst h2 h3
      exact h1 b hw
    · exact (h1 b' hw').symm
    · rfl

variable [DecidableEq ν]

theorem le_update {f : ν → Nat} {a : ν} {t : Nat} (h : f a ≤ t) (v : ν) : f v ≤ Function.update f a t v := by
  by_cases hv : v = a
  · subst hv
    rw [Function.update_self]
    exact h
  · rw [Function.update_of_ne hv]

/-- A leader's log only grows: each term's log is set once, from nothing, and then appended to. -/
theorem prefix_update {L : Nat → List ε} {t : Nat} {ℓ : List ε} (h : L t <+: ℓ) (t' : Nat) :
    L t' <+: Function.update L t ℓ t' := by
  by_cases ht : t' = t
  · subst ht
    rw [Function.update_self]
    exact h
  · rw [Function.update_of_ne ht]

/-- **Every step keeps what has happened.** -/
theorem Step.grows (h : Coherent tm V s) (hs : Step tm V careful s s') : Grows s s' := by
  cases hs with
  | raise v t ht => exact { Grows.refl s with term := le_update (Nat.le_of_lt ht) }
  | campaign a t ht =>
    refine { Grows.refl s with term := le_update (Nat.le_of_lt ht), cand := ?_, voted := fun _ _ _ hv => .inl hv }
    intro t' b hb
    show Function.update s.cand t _ t' b = s.cand t' b
    by_cases htt : t' = t
    · subst htt
      have hba : b ≠ a := by
        rintro rfl
        omega
      rw [Function.update_self, Function.update_of_ne hba]
    · rw [Function.update_of_ne htt]
  | grant v a ht h1 hu => exact { Grows.refl s with voted := fun _ _ _ hv => .inl hv }
  | elect a hl hlog hq =>
    have hne : ∀ t, s.leader t ≠ none → t ≠ s.term a := by
      rintro t ht rfl
      exact ht hl
    refine { Grows.refl s with leader := ?_, vlog := ?_, llog := ?_ }
    · intro t b hb
      exact (Function.update_of_ne (hne t (by rw [hb]; exact Option.some_ne_none b)) _ _).trans hb
    · intro t ht
      exact Function.update_of_ne (hne t ht) _ _
    · refine prefix_update ?_
      rw [h.idle _ hl]
      exact List.nil_prefix
  | append a e hl hlog he =>
    refine { Grows.refl s with llog := prefix_update ?_ }
    rw [← hlog]
    exact List.prefix_append _ _
  | follow v k hl hk hkeep => exact { Grows.refl s with }
  | acknowledge v k hk hp =>
    refine { Grows.refl s with acked := ?_ }
    intro w t
    show s.acked w t ≤ Function.update s.acked v _ w t
    by_cases hw : w = v
    · subst hw
      rw [Function.update_self]
      exact le_update (Nat.le_max_right _ _) t
    · rw [Function.update_of_ne hw]

namespace Coherent

theorem raise (h : Coherent tm V s) {v : ν} {t : Nat} (ht : s.term v < t) :
    Coherent tm V { s with term := Function.update s.term v t } := by
  have hle := le_update (Nat.le_of_lt ht)
  refine { h with log_le := ?_, chosen := ?_, voted_le := ?_ }
  · exact fun w e he => Nat.le_trans (h.log_le w e he) (hle w)
  · intro t' a ha
    obtain ⟨h1, h2⟩ := h.chosen t' a ha
    exact ⟨Nat.le_trans h1 (hle a), h2⟩
  · intro w t' a hv
    obtain ⟨h1, h2⟩ := h.voted_le w t' a hv
    exact ⟨Nat.le_trans h1 (hle w), Nat.le_trans h2 (hle a)⟩

theorem campaign (h : Coherent tm V s) {a : ν} {t : Nat} (ht : s.term a < t) :
    Coherent tm V { s with
      term := Function.update s.term a t
      cand := Function.update s.cand t (Function.update (s.cand t) a (s.log a))
      voted := fun v t' b => s.voted v t' b ∨ (v = a ∧ t' = t ∧ b = a) } := by
  have hr := h.raise ht
  have hg : Grows s _ := Step.grows h (.campaign s a t ht : Step tm V False s _)
  -- The log a node ran with is an old one, or its log now.
  have hcand : ∀ (P : Nat → List ε → Prop), (∀ t' b, P t' (s.cand t' b)) → P t (s.log a) →
      ∀ t' b, P t' (Function.update s.cand t (Function.update (s.cand t) a (s.log a)) t' b) := by
    intro P hold hnew t' b
    by_cases htt : t' = t
    · subst htt
      rw [Function.update_self]
      by_cases hba : b = a
      · subst hba
        rw [Function.update_self]
        exact hnew
      · rw [Function.update_of_ne hba]
        exact hold _ _
    · rw [Function.update_of_ne htt]
      exact hold _ _
  refine { hr with cand := ?_, cand_lt := ?_, chosen := ?_, voted_le := ?_, voted_unique := ?_ }
  · exact hcand (fun _ ℓ => Canonical tm s.llog ℓ) h.cand (h.log a)
  · exact hcand (fun t' ℓ => ∀ e ∈ ℓ, tm e < t') h.cand_lt (fun e he => Nat.lt_of_le_of_lt (h.log_le a e he) ht)
  · intro t' b hb
    obtain ⟨h1, h2, h3, h4⟩ := h.chosen t' b hb
    exact ⟨(hr.chosen t' b hb).1, h2.trans (hg.cand t' b h1).symm, h3, fun v hv => .inl (h4 v hv)⟩
  · rintro v t' b (hv | ⟨rfl, rfl, rfl⟩)
    · exact hr.voted_le v t' b hv
    · show t' ≤ Function.update s.term _ t' _ ∧ t' ≤ Function.update s.term _ t' _
      rw [Function.update_self]
      exact ⟨Nat.le_refl _, Nat.le_refl _⟩
  · rintro v t' b b' (hv | ⟨rfl, rfl, rfl⟩) (hv' | ⟨h1, h2, rfl⟩)
    · exact h.voted_unique v t' b b' hv hv'
    · subst h1 h2
      have := (h.voted_le _ _ _ hv).1
      omega
    · have := (h.voted_le _ _ _ hv').1
      omega
    · rfl

theorem elect (h : Coherent tm V s) {a : ν} (hl : s.leader (s.term a) = none) (hlog : s.log a = s.cand (s.term a) a)
    (hq : Quorum V (fun v => s.voted v (s.term a) a)) :
    Coherent tm V { s with
      leader := Function.update s.leader (s.term a) (some a)
      elector := Function.update s.elector (s.term a) (fun v => s.voted v (s.term a) a)
      vlog := Function.update s.vlog (s.term a) (s.log a)
      llog := Function.update s.llog (s.term a) (s.log a) } := by
  have hg : Grows s _ := Step.grows h (.elect s a hl hlog hq : Step tm V False s _)
  refine { h with log := ?_, cand := ?_, llog := ?_, own := ?_, vlog_lt := ?_, idle := ?_, chosen := ?_ }
  · exact fun v => (h.log v).mono hg.llog
  · exact fun t b => (h.cand t b).mono hg.llog
  · intro t
    refine Canonical.mono ?_ hg.llog
    show Canonical tm s.llog (Function.update s.llog (s.term a) (s.log a) t)
    by_cases ht : t = s.term a
    · subst ht
      rw [Function.update_self]
      exact h.log a
    · rw [Function.update_of_ne ht]
      exact h.llog t
  · intro t
    show ∃ ext, Function.update s.llog (s.term a) (s.log a) t = Function.update s.vlog (s.term a) (s.log a) t ++ ext ∧ _
    by_cases ht : t = s.term a
    · subst ht
      rw [Function.update_self, Function.update_self]
      exact ⟨[], (List.append_nil _).symm, fun e he => by cases he⟩
    · rw [Function.update_of_ne ht, Function.update_of_ne ht]
      exact h.own t
  · intro t e he
    have he : e ∈ Function.update s.vlog (s.term a) (s.log a) t := he
    by_cases ht : t = s.term a
    · subst ht
      rw [Function.update_self, hlog] at he
      exact h.cand_lt _ _ e he
    · rw [Function.update_of_ne ht] at he
      exact h.vlog_lt t e he
  · intro t ht
    have ht : Function.update s.leader (s.term a) (some a) t = none := ht
    show Function.update s.llog (s.term a) (s.log a) t = []
    by_cases hta : t = s.term a
    · subst hta
      rw [Function.update_self] at ht
      cases ht
    · rw [Function.update_of_ne hta] at ht ⊢
      exact h.idle t ht
  · intro t b hb
    have hb : Function.update s.leader (s.term a) (some a) t = some b := hb
    show t ≤ s.term b ∧ Function.update s.vlog (s.term a) (s.log a) t = s.cand t b ∧
      Quorum V (Function.update s.elector (s.term a) (fun v => s.voted v (s.term a) a) t) ∧
      ∀ v, Function.update s.elector (s.term a) (fun v => s.voted v (s.term a) a) t v → s.voted v t b
    by_cases hta : t = s.term a
    · subst hta
      simp only [Function.update_self] at hb ⊢
      injection hb with hb
      subst hb
      exact ⟨Nat.le_refl _, hlog, hq, fun v hv => hv⟩
    · rw [Function.update_of_ne hta] at hb
      rw [Function.update_of_ne hta, Function.update_of_ne hta]
      exact h.chosen t b hb

theorem append (h : Coherent tm V s) {a : ν} {e : ε} (hl : s.leader (s.term a) = some a)
    (hlog : s.log a = s.llog (s.term a)) (he : tm e = s.term a) :
    Coherent tm V { s with
      log := Function.update s.log a (s.log a ++ [e])
      llog := Function.update s.llog (s.term a) (s.log a ++ [e]) } := by
  have hg : Grows s _ := Step.grows h (.append s a e hl hlog he : Step tm V False s _)
  have hnew : Canonical tm (Function.update s.llog (s.term a) (s.log a ++ [e])) (s.log a ++ [e]) := by
    refine Canonical.concat ((h.log a).mono hg.llog) ?_
    rw [he]
    show _ <+: Function.update s.llog (s.term a) (s.log a ++ [e]) (s.term a)
    rw [Function.update_self]
  refine { h with log := ?_, log_le := ?_, cand := ?_, llog := ?_, own := ?_, idle := ?_ }
  · intro v
    show Canonical tm _ (Function.update s.log a (s.log a ++ [e]) v)
    by_cases hv : v = a
    · subst hv
      rw [Function.update_self]
      exact hnew
    · rw [Function.update_of_ne hv]
      exact (h.log v).mono hg.llog
  · intro v x hx
    have hx : x ∈ Function.update s.log a (s.log a ++ [e]) v := hx
    show tm x ≤ s.term v
    by_cases hv : v = a
    · subst hv
      rw [Function.update_self] at hx
      rcases List.mem_append.1 hx with hx | hx
      · exact h.log_le v x hx
      · rw [List.mem_singleton.1 hx, he]
    · rw [Function.update_of_ne hv] at hx
      exact h.log_le v x hx
  · exact fun t b => (h.cand t b).mono hg.llog
  · intro t
    show Canonical tm _ (Function.update s.llog (s.term a) (s.log a ++ [e]) t)
    by_cases ht : t = s.term a
    · subst ht
      rw [Function.update_self]
      exact hnew
    · rw [Function.update_of_ne ht]
      exact (h.llog t).mono hg.llog
  · intro t
    show ∃ ext, Function.update s.llog (s.term a) (s.log a ++ [e]) t = s.vlog t ++ ext ∧ _
    obtain ⟨ext, heq, hext⟩ := h.own t
    by_cases ht : t = s.term a
    · subst ht
      refine ⟨ext ++ [e], by rw [Function.update_self, hlog, heq, List.append_assoc], ?_⟩
      intro x hx
      rcases List.mem_append.1 hx with hx | hx
      · exact hext x hx
      · rw [List.mem_singleton.1 hx, he]
    · rw [Function.update_of_ne ht]
      exact ⟨ext, heq, hext⟩
  · intro t ht
    show Function.update s.llog (s.term a) (s.log a ++ [e]) t = []
    by_cases hta : t = s.term a
    · subst hta
      rw [hl] at ht
      cases ht
    · rw [Function.update_of_ne hta]
      exact h.idle t ht

theorem follow (h : Coherent tm V s) (v : ν) (k : Nat) :
    Coherent tm V { s with log := Function.update s.log v ((s.llog (s.term v)).take k) } := by
  refine { h with log := ?_, log_le := ?_ }
  · intro w
    show Canonical tm s.llog (Function.update s.log v ((s.llog (s.term v)).take k) w)
    by_cases hw : w = v
    · subst hw
      rw [Function.update_self]
      exact (h.llog _).of_isPrefix (List.take_prefix _ _)
    · rw [Function.update_of_ne hw]
      exact h.log w
  · intro w x hx
    have hx : x ∈ Function.update s.log v ((s.llog (s.term v)).take k) w := hx
    show tm x ≤ s.term w
    by_cases hw : w = v
    · subst hw
      rw [Function.update_self] at hx
      exact h.llog_le (List.mem_of_mem_take hx)
    · rw [Function.update_of_ne hw] at hx
      exact h.log_le w x hx

/-- **Every step keeps the logs coherent.** -/
theorem step (h : Coherent tm V s) (hs : Step tm V careful s s') : Coherent tm V s' := by
  cases hs with
  | raise v t ht => exact h.raise ht
  | campaign a t ht => exact h.campaign ht
  | grant v a ht h1 hu => exact h.grant ht h1
  | elect a hl hlog hq => exact h.elect hl hlog hq
  | append a e hl hlog he => exact h.append hl hlog he
  | follow v k hl hk hkeep => exact h.follow v k
  | acknowledge v k hk hp => exact { h with }

end Coherent

end Replog

end FloodEws
