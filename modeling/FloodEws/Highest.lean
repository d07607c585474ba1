import Mathlib.Data.List.Induction
import Mathlib.Data.List.Nodup
import Mathlib.Order.Lattice
/-!
# Highest — the highest admitted element, by one scan

A scan that keeps the best element so far: an admitted one replaces it unless its key is lower.  When the keys of the
list are distinct the order of the list does not matter.
-/
namespace FloodEws
namespace Highest

universe u v

variable {ι : Type u} {α : Type v} [LinearOrder α] {key : ι → α} {allow : ι → Bool}

/-- One turn of the scan. -/
def keep (key : ι → α) (allow : ι → Bool) (best : Option ι) (x : ι) : Option ι :=
  if allow x ∧ ∀ b ∈ best, key b ≤ key x then some x else best

def scan (key : ι → α) (allow : ι → Bool) (xs : List ι) : Option ι := xs.foldl (keep key allow) none

/-- An admitted element of `xs`, as high as any other. -/
structure Tops (key : ι → α) (allow : ι → Bool) (xs : List ι) (b : ι) : Prop where
  mem : b ∈ xs
  admitted : allow b
  highest : ∀ x ∈ xs, allow x → key x ≤ key b

theorem scan_concat (xs : List ι) (x : ι) : scan key allow (xs ++ [x]) = keep key allow (scan key allow xs) x := by
  simp [scan, List.foldl_append]

theorem scan_eq_none {xs : List ι} : scan key allow xs = none ↔ ∀ x ∈ xs, allow x = false := by
  induction xs using List.reverseRecOn with
  | nil => simp [scan]
  | append_singleton xs x ih =>
    rw [scan_concat, keep]
    by_cases hx : allow x = true
    · constructor
      · intro h
        split at h
        · cases h
        · rename_i hnot
          refine absurd ⟨hx, fun b hb => ?_⟩ hnot
          rw [h] at hb
          cases hb
      · intro h
        rw [h x (by simp)] at hx
        cases hx
    · have hx' : allow x = false := Bool.eq_false_iff.2 hx
      rw [if_neg (fun h => hx h.1), ih]
      constructor
      · intro h y hy
        rcases List.mem_append.1 hy with hy | hy
        · exact h y hy
        · rw [List.mem_singleton.1 hy, hx']
      · exact fun h y hy => h y (List.mem_append_left _ hy)

/-- **What the scan finds is at the top.** -/
theorem tops_scan {xs : List ι} {b : ι} (h : scan key allow xs = some b) : Tops key allow xs b := by
  induction xs using List.reverseRecOn generalizing b with
  | nil => cases h
  | append_singleton xs x ih =>
    rw [scan_concat, keep] at h
    split at h
    · rename_i hx
      cases h
      refine ⟨by simp, hx.1, fun y hy hallow => ?_⟩
      rcases List.mem_append.1 hy with hy | hy
      · cases hbest : scan key allow xs with
        | none => rw [scan_eq_none.1 hbest y hy] at hallow; cases hallow
        | some b => exact ((ih hbest).highest y hy hallow).trans (hx.2 b (by rw [hbest]; rfl))
      · rw [List.mem_singleton.1 hy]
    · rename_i hx
      have hb := ih h
      refine ⟨List.mem_append_left _ hb.mem, hb.admitted, fun y hy hallow => ?_⟩
      rcases List.mem_append.1 hy with hy | hy
      · exact hb.highest y hy hallow
      · -- the last element was passed over: it is lower
        rw [List.mem_singleton.1 hy] at hallow ⊢
        refine le_of_not_ge fun hle => hx ⟨hallow, fun b' hb' => ?_⟩
        rw [h] at hb'
        cases hb'
        exact hle

/-- With distinct keys there is one top. -/
theorem Tops.unique {xs : List ι} (hxs : (xs.map key).Nodup) {b b' : ι} (h : Tops key allow xs b)
    (h' : Tops key allow xs b') : b = b' :=
  List.inj_on_of_nodup_map hxs h.mem h'.mem
    (le_antisymm (h'.highest b h.mem h.admitted) (h.highest b' h'.mem h'.admitted))

/-- **With distinct keys the scan finds the top.** -/
theorem scan_eq_some_iff {xs : List ι} (hxs : (xs.map key).Nodup) {b : ι} :
    scan key allow xs = some b ↔ Tops key allow xs b := by
  refine ⟨tops_scan, fun h => ?_⟩
  cases hscan : scan key allow xs with
  | none =>
    have hnot := scan_eq_none.1 hscan b h.mem
    rw [h.admitted] at hnot
    cases hnot
  | some b' => rw [h.unique hxs (tops_scan hscan)]

theorem Tops.perm {xs ys : List ι} (hp : xs.Perm ys) {b : ι} (h : Tops key allow xs b) : Tops key allow ys b :=
  ⟨hp.mem_iff.1 h.mem, h.admitted, fun x hx => h.highest x (hp.mem_iff.2 hx)⟩

/-- The order of the list does not matter then. -/
theorem scan_perm {xs ys : List ι} (hp : xs.Perm ys) (hxs : (xs.map key).Nodup) :
    scan key allow xs = scan key allow ys := by
  have hys : (ys.map key).Nodup := (hp.map key).nodup_iff.1 hxs
  refine Option.ext fun b => ?_
  rw [scan_eq_some_iff hxs, scan_eq_some_iff hys]
  exact ⟨fun h => h.perm hp, fun h => h.perm hp.symm⟩

/-- Admitting more raises the top. -/
theorem scan_mono {allow' : ι → Bool} (hmono : ∀ x, allow x → allow' x) {xs : List ι} {b : ι}
    (h : scan key allow xs = some b) : ∃ b', scan key allow' xs = some b' ∧ key b ≤ key b' := by
  have hb := tops_scan h
  cases hscan : scan key allow' xs with
  | none =>
    have hnot := scan_eq_none.1 hscan b hb.mem
    rw [hmono b hb.admitted] at hnot
    cases hnot
  | some b' => exact ⟨b', rfl, (tops_scan hscan).highest b hb.mem (hmono b hb.admitted)⟩

end Highest
end FloodEws
