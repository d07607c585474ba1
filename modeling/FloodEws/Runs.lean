import Mathlib.Logic.Relation
/-!
# Runs — guarded transition systems

A system is an initial state, a guard and a deterministic step per action: all the nondeterminism is in the choice of
actions.  A run is any sequence of enabled actions; `Reaches ok` restricts it to steps that also meet a side condition
`ok`, read at the state before the step.
-/
namespace FloodEws

universe u v

structure Sys (σ : Type u) (α : Type v) where
  init : σ
  enabled : σ → α → Prop
  exec : σ → α → σ

namespace Sys

variable {σ : Type u} {α : Type v} (M : Sys σ α) (ok : σ → α → Prop)

/-- One enabled action that meets `ok`. -/
def Step (s s' : σ) : Prop := ∃ a, M.enabled s a ∧ ok s a ∧ s' = M.exec s a

def Reaches : σ → σ → Prop := Relation.ReflTransGen (M.Step ok)

def Reachable (s : σ) : Prop := M.Reaches ok M.init s

/-- The side condition that excludes nothing. -/
def always : σ → α → Prop := fun _ _ => True

variable {M ok}

/-- **What every step preserves, every run preserves.** -/
theorem Reaches.invariant {P : σ → Prop} {s s' : σ} (h : M.Reaches ok s s') (h0 : P s)
    (hstep : ∀ x a, P x → M.enabled x a → ok x a → P (M.exec x a)) : P s' := by
  induction h with
  | refl => exact h0
  | tail _ hs ih =>
    obtain ⟨a, he, hk, rfl⟩ := hs
    exact hstep _ a ih he hk

/-- **The invariant rule**: what holds initially and is preserved by every step holds in every reachable state. -/
theorem Reachable.invariant {P : σ → Prop} {s : σ} (h : M.Reachable ok s) (h0 : P M.init)
    (hstep : ∀ x a, P x → M.enabled x a → ok x a → P (M.exec x a)) : P s :=
  Reaches.invariant h h0 hstep

/-- The same, with what is already known of reachable states at hand. -/
theorem Reachable.invariant_with {P : σ → Prop} {s : σ} (h : M.Reachable ok s) (h0 : P M.init)
    (hstep : ∀ x a, M.Reachable ok x → P x → M.enabled x a → ok x a → P (M.exec x a)) : P s := by
  have hboth : M.Reachable ok s ∧ P s := by
    refine Reachable.invariant (P := fun x => M.Reachable ok x ∧ P x) h ⟨.refl, h0⟩ ?_
    rintro x a ⟨hx, hp⟩ he hk
    exact ⟨.tail hx ⟨a, he, hk, rfl⟩, hstep x a hx hp he hk⟩
  exact hboth.2

theorem Reachable.trans {s s' : σ} (h : M.Reachable ok s) (h' : M.Reaches ok s s') : M.Reachable ok s' :=
  Relation.ReflTransGen.trans h h'

theorem Reaches.mono {ok' : σ → α → Prop} (hk : ∀ x a, ok x a → ok' x a) {s s' : σ} (h : M.Reaches ok s s') :
    M.Reaches ok' s s' :=
  Relation.ReflTransGen.mono (fun _ _ ⟨a, he, ha, hx⟩ => ⟨a, he, hk _ a ha, hx⟩) _ _ h

/-- **Simulation**: if every step of the system, from a state that meets `P`, is a run of another one under the abstraction
`abs`, then so is every run. -/
theorem Reaches.simulated {τ : Type*} {β : Type*} {N : Sys τ β} {okN : τ → β → Prop} (abs : σ → τ) {P : σ → Prop}
    (hstep : ∀ x a, P x → M.enabled x a → ok x a → N.Reaches okN (abs x) (abs (M.exec x a)) ∧ P (M.exec x a))
    {s s' : σ} (h : M.Reaches ok s s') (h0 : P s) : N.Reaches okN (abs s) (abs s') ∧ P s' := by
  induction h with
  | refl => exact ⟨.refl, h0⟩
  | tail _ hs ih =>
    obtain ⟨a, he, hk, rfl⟩ := hs
    obtain ⟨hrun, hp⟩ := ih
    obtain ⟨hone, hp'⟩ := hstep _ a hp he hk
    exact ⟨Relation.ReflTransGen.trans hrun hone, hp'⟩

/-- **What has come to hold, came to hold in some step.** -/
theorem Reachable.arises {Q : σ → Prop} {s : σ} (h : M.Reachable ok s) (h0 : ¬ Q M.init) (hs : Q s) :
    ∃ x a, M.Reachable ok x ∧ M.enabled x a ∧ ok x a ∧ ¬ Q x ∧ Q (M.exec x a) ∧ M.Reaches ok (M.exec x a) s := by
  induction h with
  | refl => exact absurd hs h0
  | @tail b c hb hstep ih =>
    by_cases hq : Q b
    · obtain ⟨x, a, hx, he, hk, hnot, hafter, hrun⟩ := ih hq
      exact ⟨x, a, hx, he, hk, hnot, hafter, .tail hrun hstep⟩
    · obtain ⟨a, he, hk, rfl⟩ := hstep
      exact ⟨b, a, hb, he, hk, hq, hs, .refl⟩

/-- Every action of the list is enabled, and meets `ok`, when its turn comes. -/
def Legal (M : Sys σ α) (ok : σ → α → Prop) : List α → σ → Prop
  | [], _ => True
  | a :: as, s => M.enabled s a ∧ ok s a ∧ Legal M ok as (M.exec s a)

def run (M : Sys σ α) (as : List α) (s : σ) : σ := as.foldl M.exec s

theorem reaches_run : ∀ (as : List α) (s : σ), M.Legal ok as s → M.Reaches ok s (M.run as s)
  | [], _, _ => .refl
  | a :: as, s, ⟨he, hk, h⟩ => Relation.ReflTransGen.head ⟨a, he, hk, rfl⟩ (reaches_run as (M.exec s a) h)

end Sys

end FloodEws
