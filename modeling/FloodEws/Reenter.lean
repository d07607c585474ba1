import FloodEws.Runs
/-!
# Reenter — calls that are interrupted by callbacks

A component whose calls are cut where it calls back.  A call leaves frames behind, what is left to do innermost first;
a frame may be a callback under way, in which some of the calls may be made again; and resuming a frame may leave others.
The state is seen by everybody at every cut, so invariants are about all of these states, not only those between calls.
-/
namespace FloodEws

structure Interrupted (σ φ α ι : Type) where
  enter : ι → σ → α → σ × List φ
  resume : ι → σ → φ → σ × List φ
  /-- The frame is a callback under way. -/
  waits : φ → Prop
  /-- The call may be made from a callback. -/
  again : α → Prop

namespace Interrupted

inductive Act (α ι : Type) where
  | call (i : ι) (a : α)
  | reenter (i : ι) (a : α)
  | go (i : ι)

variable {σ φ α ι : Type} (I : Interrupted σ φ α ι)

def sys (s : σ) : Sys (σ × List φ) (Act α ι) where
  init := (s, [])
  enabled x
    | .call _ _ => x.2 = []
    | .reenter _ a => I.again a ∧ ∃ f rest, x.2 = f :: rest ∧ I.waits f
    | .go _ => x.2 ≠ []
  exec x
    | .call i a => ((I.enter i x.1 a).1, (I.enter i x.1 a).2 ++ x.2)
    | .reenter i a => ((I.enter i x.1 a).1, (I.enter i x.1 a).2 ++ x.2)
    | .go i => match x.2 with
      | [] => x
      | f :: rest => ((I.resume i x.1 f).1, (I.resume i x.1 f).2 ++ rest)

/-- Nothing is called from a callback. -/
def Quiet : σ × List φ → Act α ι → Prop
  | _, .go _ => True
  | _, _ => False

/-- **What every segment preserves holds at every cut.** -/
theorem reachable_invariant {P : σ → Prop} {ok : σ × List φ → Act α ι → Prop} {s : σ} {x : σ × List φ}
    (h : (I.sys s).Reachable ok x) (h0 : P s)
    (hcall : ∀ i a s fs, P s → ok (s, fs) (.call i a) → P (I.enter i s a).1)
    (hagain : ∀ i a s fs, P s → I.again a → ok (s, fs) (.reenter i a) → P (I.enter i s a).1)
    (hgo : ∀ i f s rest, P s → ok (s, f :: rest) (.go i) → P (I.resume i s f).1) : P x.1 := by
  refine Sys.Reachable.invariant (P := fun x : σ × List φ => P x.1) h h0 ?_
  rintro ⟨s, fs⟩ act hx he hk
  cases act with
  | call i a => exact hcall i a s fs hx hk
  | reenter i a => exact hagain i a s fs hx he.1 hk
  | go i =>
    cases fs with
    | nil => exact absurd rfl he
    | cons f rest => exact hgo i f s rest hx hk

/-- The frames run to their end with every callback returning at once. -/
inductive Settles (i : ι) : σ → List φ → σ → Prop where
  | nil (s : σ) : Settles i s [] s
  | cons {s s' : σ} {f : φ} {rest : List φ} (h : Settles i (I.resume i s f).1 ((I.resume i s f).2 ++ rest) s') :
      Settles i s (f :: rest) s'

variable {I} {i : ι}

theorem Settles.append {s x y : σ} {fs gs : List φ} (h : I.Settles i s fs x) (h' : I.Settles i x gs y) :
    I.Settles i s (fs ++ gs) y := by
  induction h with
  | nil s => exact h'
  | @cons s x f rest _ ih =>
    rw [List.append_assoc] at ih
    exact .cons (ih h')

/-- One frame, then what it leaves. -/
theorem Settles.step {s s' x : σ} {f : φ} {fs : List φ} (hf : I.resume i s f = (s', fs)) (h : I.Settles i s' fs x) :
    I.Settles i s [f] x := by
  refine .cons ?_
  rw [hf, List.append_nil]
  exact h

/-- One frame that leaves none. -/
theorem Settles.one {s s' : σ} {f : φ} (hf : I.resume i s f = (s', [])) : I.Settles i s [f] s' := .step hf (.nil s')

/-- What settles is a run in which nothing is called from a callback, whatever waits below. -/
theorem Settles.reaches {s x : σ} {fs : List φ} (s₀ : σ) (h : I.Settles i s fs x) (rest : List φ) :
    (I.sys s₀).Reaches Quiet (s, fs ++ rest) (x, rest) := by
  induction h with
  | nil s => exact .refl
  | @cons s x f below _ ih =>
    refine Relation.ReflTransGen.head ⟨.go i, List.cons_ne_nil f _, trivial, rfl⟩ ?_
    rw [List.append_assoc] at ih
    exact ih

end Interrupted

end FloodEws
