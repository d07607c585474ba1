import Mathlib.Data.List.Basic
/-!
# Window — a ring that keeps the last items

A ring of fixed length is written at its head, which then moves on.  Read oldest first it is a window: what it was filled
with, moved out item by item as new ones come in at the end.
-/
namespace FloodEws

universe u

structure Window (α : Type u) where
  cells : List α
  head : Nat
  head_lt : head < cells.length

/-- The last `n` items, all of them when there are fewer. -/
def recent {α : Type u} (n : Nat) (xs : List α) : List α := xs.drop (xs.length - n)

namespace Window

variable {α : Type u}

def fill (n : Nat) (h : 0 < n) (z : α) : Window α := ⟨List.replicate n z, 0, by simpa using h⟩

def push (w : Window α) (x : α) : Window α where
  cells := w.cells.set w.head x
  head := (w.head + 1) % w.cells.length
  head_lt := by
    rw [List.length_set]
    exact Nat.mod_lt _ (Nat.lt_of_le_of_lt (Nat.zero_le _) w.head_lt)

@[ext] theorem ext {w w' : Window α} (hcells : w.cells = w'.cells) (hhead : w.head = w'.head) : w = w' := by
  cases w
  cases w'
  cases hcells
  cases hhead
  rfl

/-- The cells, oldest first. -/
def view (w : Window α) : List α := w.cells.drop w.head ++ w.cells.take w.head

@[simp] theorem length_push (w : Window α) (x : α) : (w.push x).cells.length = w.cells.length := List.length_set ..

@[simp] theorem length_pushes (xs : List α) (w : Window α) : (xs.foldl push w).cells.length = w.cells.length := by
  induction xs generalizing w with
  | nil => rfl
  | cons x xs ih => rw [List.foldl_cons, ih, length_push]

theorem mem_view (w : Window α) (x : α) : x ∈ w.view ↔ x ∈ w.cells := by
  rw [view, List.mem_append, Or.comm, ← List.mem_append, List.take_append_drop]

/-- **A push moves the oldest cell out.** -/
theorem view_push (w : Window α) (x : α) : (w.push x).view = w.view.tail ++ [x] := by
  have hlt := w.head_lt
  have hold : w.view.tail = w.cells.drop (w.head + 1) ++ w.cells.take w.head := by
    rw [view, List.drop_eq_getElem_cons hlt, List.cons_append, List.tail_cons]
  rw [hold, view, push]
  by_cases hend : w.head + 1 = w.cells.length
  · -- the head wraps: the cell written is the last of the ring
    have htake : w.cells.set w.head x = w.cells.take w.head ++ [x] := by
      rw [List.set_eq_take_append_cons_drop, if_pos hlt, List.drop_of_length_le (by omega)]
    simp only [hend, Nat.mod_self, List.drop_zero, List.take_zero, List.append_nil, List.drop_length, List.nil_append,
      htake]
  · have hnext : (w.head + 1) % w.cells.length = w.head + 1 := Nat.mod_eq_of_lt (by omega)
    simp only [hnext, List.drop_set_of_lt (Nat.lt_succ_self w.head), List.append_assoc]
    rw [List.take_succ_eq_append_getElem (by simpa using hlt), List.take_set_of_le (Nat.le_refl _)]
    simp only [List.getElem_set_self]

theorem view_pushes (xs : List α) (w : Window α) : (xs.foldl push w).view = (w.view ++ xs).drop xs.length := by
  induction xs generalizing w with
  | nil => simp
  | cons x xs ih =>
    have hne : w.view ≠ [] := by
      intro h
      have hlen : w.view.length = w.cells.length := by simp [view]; have := w.head_lt; omega
      rw [h, List.length_nil] at hlen
      exact absurd w.head_lt (by omega)
    obtain ⟨y, ys, hv⟩ := List.exists_cons_of_ne_nil hne
    rw [List.foldl_cons, ih, view_push, hv]
    simp

theorem head_pushes (xs : List α) (w : Window α) : (xs.foldl push w).head = (w.head + xs.length) % w.cells.length := by
  induction xs generalizing w with
  | nil => simp [Nat.mod_eq_of_lt w.head_lt]
  | cons x xs ih =>
    rw [List.foldl_cons, ih, length_push, List.length_cons, push, Nat.mod_add_mod]
    congr 1
    omega

section

variable {n : Nat} (h : 0 < n) (z : α) (xs : List α)

/-- **The window after any pushes**: what is left of the filling, then the last items pushed. -/
theorem view_fill : (xs.foldl push (fill n h z)).view = List.replicate (n - xs.length) z ++ recent n xs := by
  have hfill : (fill n h z).view = List.replicate n z := by simp [view, fill]
  rw [view_pushes, hfill, List.drop_append, List.drop_replicate, List.length_replicate, recent]

theorem mem_fill (x : α) :
    x ∈ (xs.foldl push (fill n h z)).cells ↔ (xs.length < n ∧ x = z) ∨ x ∈ recent n xs := by
  rw [← mem_view, view_fill, List.mem_append, List.mem_replicate]
  constructor <;> rintro (⟨h, rfl⟩ | h)
  · exact .inl ⟨by omega, rfl⟩
  · exact .inr h
  · exact .inl ⟨by omega, rfl⟩
  · exact .inr h

theorem head_fill : (xs.foldl push (fill n h z)).head = xs.length % n := by
  rw [head_pushes]
  simp [fill]

end

end Window

end FloodEws
