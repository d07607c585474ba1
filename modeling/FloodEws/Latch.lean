import Mathlib.Data.List.Basic
import Mathlib.Data.List.Induction
/-!
# Latch — a latch that lets go after enough quiet inputs

A trigger sets the latch; the `hold`-th input in a row without one clears it.  The latch and its counter of quiet inputs
are a window over the history: it is set exactly if one of the last `hold` inputs was a trigger (`run_active`).
-/
namespace FloodEws

structure Latch where
  active : Bool := false
  quiet : Nat := 0
deriving DecidableEq, Repr

namespace Latch

def step (hold : Nat) (l : Latch) (trigger : Bool) : Latch :=
  if trigger then ⟨true, 0⟩
  else if l.active then
    if hold ≤ l.quiet + 1 then ⟨false, 0⟩ else ⟨true, l.quiet + 1⟩
  else l

/-- The latch after these inputs, oldest first. -/
def run (hold : Nat) (l : Latch) (inputs : List Bool) : Latch := inputs.foldl (step hold) l

/-- **What the latch says of the inputs so far**, newest first: set, the last trigger is as far back as it counted; clear,
there is none near. -/
inductive Follows (hold : Nat) : Latch → List Bool → Prop
  | set (quiet : Nat) (older : List Bool) (h : quiet < hold) :
      Follows hold ⟨true, quiet⟩ (List.replicate quiet false ++ true :: older)
  | clear (quiet : Nat) (recent : List Bool) (h : true ∉ recent.take hold) : Follows hold ⟨false, quiet⟩ recent

variable {hold : Nat} {l : Latch} {recent : List Bool}

theorem Follows.step (h : Follows hold l recent) (hhold : 0 < hold) (trigger : Bool) :
    Follows hold (l.step hold trigger) (trigger :: recent) := by
  cases trigger with
  | true => exact .set 0 recent hhold
  | false =>
    cases h with
    | set quiet older h =>
      have hmore : false :: (List.replicate quiet false ++ true :: older) =
          List.replicate (quiet + 1) false ++ true :: older := rfl
      rw [hmore]
      simp only [Latch.step, Bool.false_eq_true, if_false, if_true]
      split
      · rename_i hle
        -- the trigger is just out of sight
        refine .clear _ _ fun hmem => ?_
        rw [List.take_append_of_le_length (by simpa using hle)] at hmem
        have := List.eq_of_mem_replicate (List.mem_of_mem_take hmem)
        cases this
      · rename_i hlt
        exact .set (quiet + 1) older (by omega)
    | clear quiet _ h =>
      refine .clear quiet _ fun hmem => h ?_
      obtain ⟨n, rfl⟩ : ∃ n, hold = n + 1 := ⟨hold - 1, by omega⟩
      rw [List.take_succ_cons, List.mem_cons] at hmem
      rcases hmem with hmem | hmem
      · cases hmem
      · exact (List.take_subset_take_left recent (Nat.le_succ n)) hmem

theorem Follows.active_iff (h : Follows hold l recent) : l.active = true ↔ true ∈ recent.take hold := by
  cases h with
  | set quiet older h =>
    refine iff_of_true rfl (List.mem_iff_getElem?.2 ⟨quiet, ?_⟩)
    rw [List.getElem?_take_of_lt h, List.getElem?_append_right (by simp)]
    simp
  | clear quiet _ h => exact iff_of_false Bool.false_ne_true h

theorem follows_run (hhold : 0 < hold) (inputs : List Bool) : Follows hold (run hold {} inputs) inputs.reverse := by
  induction inputs using List.reverseRecOn with
  | nil => exact .clear 0 [] (by simp)
  | append_singleton inputs trigger ih =>
    rw [List.reverse_append, run, List.foldl_append]
    exact ih.step hhold trigger

/-- **The latch is a window over the history.** -/
theorem run_active (hhold : 0 < hold) (inputs : List Bool) :
    (run hold {} inputs).active = true ↔ true ∈ inputs.reverse.take hold :=
  (follows_run hhold inputs).active_iff

end Latch

end FloodEws
