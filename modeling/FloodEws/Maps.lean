import Mathlib.Logic.Function.Basic
import Mathlib.Data.List.Nodup
import Mathlib.Data.List.Induction
/-!
# Maps — maps as functions to `Option`, and loops over their keys

A map built from a list by writing each element under its key, and the loops that range over a map: in no given order,
each key once.  A loop whose turn for a key touches nothing but that key is read off key by key (`foldl_at`).
-/
namespace FloodEws

universe u v w

variable {κ : Type u} {α : Type v}

/-- The map with each element to keep under its key; a later one replaces an earlier one. -/
def indexBy [DecidableEq κ] (key : α → κ) (keep : α → Bool) (xs : List α) : κ → Option α :=
  xs.foldl (fun m x => if keep x then Function.update m (key x) (some x) else m) (fun _ => none)

/-- An order in which a loop may range over the map. -/
structure Ranges (m : κ → Option α) (order : List κ) : Prop where
  nodup : order.Nodup
  mem_iff : ∀ k, k ∈ order ↔ (m k).isSome

section

variable [DecidableEq κ] {key : α → κ} {keep : α → Bool}

theorem indexBy_concat (xs : List α) (x : α) :
    indexBy key keep (xs ++ [x]) =
      if keep x then Function.update (indexBy key keep xs) (key x) (some x) else indexBy key keep xs := by
  simp [indexBy, List.foldl_append]

/-- What a map built from a list holds. -/
theorem indexBy_some {xs : List α} {k : κ} {x : α} (h : indexBy key keep xs k = some x) :
    x ∈ xs ∧ keep x = true ∧ key x = k := by
  induction xs using List.reverseRecOn with
  | nil => cases h
  | append_singleton xs y ih =>
    rw [indexBy_concat] at h
    by_cases hy : keep y = true
    · rw [if_pos hy] at h
      by_cases hk : k = key y
      · subst hk
        rw [Function.update_self] at h
        cases h
        exact ⟨by simp, hy, rfl⟩
      · rw [Function.update_of_ne hk] at h
        obtain ⟨h1, h2⟩ := ih h
        exact ⟨by simp [h1], h2⟩
    · rw [if_neg hy] at h
      obtain ⟨h1, h2⟩ := ih h
      exact ⟨by simp [h1], h2⟩

/-- **With distinct keys the map holds exactly the elements to keep.** -/
theorem indexBy_eq_some_iff {xs : List α} (hxs : (xs.map key).Nodup) {k : κ} {x : α} :
    indexBy key keep xs k = some x ↔ x ∈ xs ∧ keep x = true ∧ key x = k := by
  refine ⟨indexBy_some, ?_⟩
  rintro ⟨hx, hkeep, rfl⟩
  induction xs using List.reverseRecOn with
  | nil => cases hx
  | append_singleton xs y ih =>
    rw [List.map_append, List.map_singleton, List.nodup_append] at hxs
    obtain ⟨hnodup, -, hdisj⟩ := hxs
    rw [indexBy_concat]
    rcases List.mem_append.1 hx with hx | hx
    · have hne : key x ≠ key y := hdisj _ (List.mem_map_of_mem hx) _ (List.mem_singleton_self _)
      by_cases hy : keep y = true
      · rw [if_pos hy, Function.update_of_ne hne]
        exact ih hnodup hx
      · rw [if_neg hy]
        exact ih hnodup hx
    · rw [List.mem_singleton.1 hx] at hkeep ⊢
      rw [if_pos hkeep, Function.update_self]

/-- The order of the list does not matter then. -/
theorem indexBy_perm {xs ys : List α} (h : xs.Perm ys) (hxs : (xs.map key).Nodup) :
    indexBy key keep xs = indexBy key keep ys := by
  have hys : (ys.map key).Nodup := (h.map key).nodup_iff.1 hxs
  funext k
  refine Option.ext fun x => ?_
  rw [indexBy_eq_some_iff hxs, indexBy_eq_some_iff hys, h.mem_iff]

end

section

variable {σ : Type w} {β : Type v} {f : σ → κ → σ} {g : σ → κ → β}

/-- A loop that keeps `P` leaves the keys it does not come to. -/
theorem foldl_frame_of {P : σ → Prop} (hkeep : ∀ s k, P s → P (f s k))
    (hown : ∀ s k k', P s → k' ≠ k → g (f s k) k' = g s k') {order : List κ} {k : κ} (hk : k ∉ order) {s : σ} (hs : P s) :
    g (order.foldl f s) k = g s k := by
  induction order generalizing s with
  | nil => rfl
  | cons k' order ih =>
    rw [List.mem_cons, not_or] at hk
    rw [List.foldl_cons, ih hk.2 (hkeep s k' hs), hown s k' k hs hk.1]

/-- **A loop key by key**: the turn for `k` finds `k` as it was before the loop, and the loop leaves it as that turn did. -/
theorem foldl_at_of {P : σ → Prop} (hkeep : ∀ s k, P s → P (f s k))
    (hown : ∀ s k k', P s → k' ≠ k → g (f s k) k' = g s k') {order : List κ} (hnodup : order.Nodup) {k : κ}
    (hk : k ∈ order) {s : σ} (hs : P s) : ∃ s', P s' ∧ g s' k = g s k ∧ g (order.foldl f s) k = g (f s' k) k := by
  induction order generalizing s with
  | nil => cases hk
  | cons k' order ih =>
    rw [List.nodup_cons] at hnodup
    rw [List.foldl_cons]
    rcases List.mem_cons.1 hk with rfl | hmem
    · exact ⟨s, hs, rfl, foldl_frame_of hkeep hown hnodup.1 (hkeep s k hs)⟩
    · have hne : k ≠ k' := by
        rintro rfl
        exact hnodup.1 hmem
      obtain ⟨s', hs', h1, h2⟩ := ih hnodup.2 hmem (hkeep s k' hs)
      exact ⟨s', hs', h1.trans (hown s k' k hs hne), h2⟩

theorem foldl_frame (hown : ∀ s k k', k' ≠ k → g (f s k) k' = g s k') {order : List κ} {k : κ} (hk : k ∉ order) (s : σ) :
    g (order.foldl f s) k = g s k :=
  foldl_frame_of (P := fun _ => True) (fun _ _ _ => trivial) (fun s k k' _ => hown s k k') hk trivial

theorem foldl_at (hown : ∀ s k k', k' ≠ k → g (f s k) k' = g s k') {order : List κ} (hnodup : order.Nodup) {k : κ}
    (hk : k ∈ order) (s : σ) : ∃ s', g s' k = g s k ∧ g (order.foldl f s) k = g (f s' k) k := by
  obtain ⟨s', -, h⟩ :=
    foldl_at_of (P := fun _ => True) (fun _ _ _ => trivial) (fun s k k' _ => hown s k k') hnodup hk (s := s) trivial
  exact ⟨s', h⟩

end

/-! ## Tables -/

/-- A table with a primary key. -/
structure Table (key : α → κ) where
  rows : List α
  nodup : (rows.map key).Nodup

namespace Table

variable [DecidableEq κ] {key : α → κ}

def empty : Table key := ⟨[], .nil⟩

/-- The row replaces the one with its key, if there is one. -/
def upsert (t : Table key) (x : α) : Table key where
  rows := if key x ∈ t.rows.map key then t.rows.map (fun y => if key y = key x then x else y) else t.rows ++ [x]
  nodup := by
    split
    · have hkeys : (t.rows.map (fun y => if key y = key x then x else y)).map key = t.rows.map key := by
        rw [List.map_map]
        refine List.map_congr_left fun y _ => ?_
        by_cases hy : key y = key x
        · simp [hy]
        · simp [hy]
      rw [hkeys]
      exact t.nodup
    · rename_i hnew
      rw [List.map_append, List.nodup_append]
      refine ⟨t.nodup, by simp, fun a ha b hb => ?_⟩
      rintro rfl
      have hb : a = key x := by simpa using hb
      exact hnew (hb ▸ ha)

def delete (t : Table key) (k : κ) : Table key where
  rows := t.rows.filter (fun y => key y ≠ k)
  nodup := t.nodup.sublist (List.filter_sublist.map key)

/-- The row with a key. -/
def find (t : Table key) (k : κ) : Option α := t.rows.find? (fun y => decide (key y = k))

theorem find_eq_none_iff {t : Table key} {k : κ} : t.find k = none ↔ k ∉ t.rows.map key := by
  simp [find, List.find?_eq_none]

theorem find_upsert (t : Table key) (x : α) : (t.upsert x).find = Function.update t.find (key x) (some x) := by
  funext k
  by_cases hmem : key x ∈ t.rows.map key
  · have hrows : (t.upsert x).rows = t.rows.map (fun y => if key y = key x then x else y) := if_pos hmem
    have hkey : (fun y => decide (key y = k)) ∘ (fun y => if key y = key x then x else y) =
        fun y => decide (key y = k) := by
      funext y
      by_cases hy : key y = key x
      · simp [hy]
      · simp [hy]
    unfold find
    rw [hrows, List.find?_map, hkey]
    by_cases hk : k = key x
    · subst hk
      rw [Function.update_self]
      cases hfind : t.find (key x) with
      | none => exact absurd hmem (find_eq_none_iff.1 hfind)
      | some y =>
        have hy : key y = key x := by simpa using List.find?_some hfind
        unfold find at hfind
        rw [hfind, Option.map_some, if_pos hy]
    · rw [Function.update_of_ne hk]
      cases hfind : t.rows.find? (fun y => decide (key y = k)) with
      | none => rfl
      | some y =>
        have hy : key y = k := by simpa using List.find?_some hfind
        rw [Option.map_some, if_neg (fun h => hk (hy.symm.trans h))]
  · have hrows : (t.upsert x).rows = t.rows ++ [x] := if_neg hmem
    unfold find
    rw [hrows, List.find?_append]
    by_cases hk : k = key x
    · subst hk
      have hnone : t.rows.find? (fun y => decide (key y = key x)) = none := find_eq_none_iff.2 hmem
      rw [Function.update_self, hnone]
      simp
    · have hne : ¬ key x = k := fun h => hk h.symm
      rw [Function.update_of_ne hk]
      simp [hne]

theorem find_delete (t : Table key) (k : κ) : (t.delete k).find = Function.update t.find k none := by
  funext k'
  unfold find delete
  rw [List.find?_filter]
  by_cases hk : k' = k
  · subst hk
    rw [Function.update_self, List.find?_eq_none]
    intro y _
    simp
  · rw [Function.update_of_ne hk]
    congr 1
    funext y
    by_cases hy : key y = k'
    · simp [hy, hk]
    · simp [hy]

end Table

/-- What every turn keeps, the loop keeps. -/
theorem foldl_invariant {σ : Type w} {f : σ → α → σ} {P : σ → Prop} (hstep : ∀ s x, P s → P (f s x)) (xs : List α) {s : σ}
    (h : P s) : P (xs.foldl f s) := by
  induction xs generalizing s with
  | nil => exact h
  | cons x xs ih => exact ih (hstep s x h)

end FloodEws
