import Mathlib.Data.List.Basic
import Mathlib.Data.List.Sort
import Mathlib.Order.Lattice
import Mathlib.Order.MinMax
/-!
# Median — order statistics, and what a majority says about them

The item of rank `k` in a list has at most `k` smaller items before it and more than `k` at or below it: it is the one in
place `k` when the list is sorted (`Ranked.sorted`).  Whatever the others are, a strict majority inside an interval holds
the middle ranks there (`Ranked.mem_interval`).
-/
namespace FloodEws

universe u v

variable {α : Type u} [LinearOrder α]

/-- `m` is the `k`-th smallest item, counted from zero. -/
structure Ranked (xs : List α) (k : Nat) (m : α) : Prop where
  below : xs.countP (fun x => decide (x < m)) ≤ k
  upto : k < xs.countP (fun x => decide (x ≤ m))

/-- **What `nth_element` leaves**: nothing before place `k` is above the item there, and nothing after it below. -/
structure Partitioned (ys : List α) (k : Nat) (m : α) : Prop where
  mid : ys[k]? = some m
  before : ∀ x ∈ ys.take k, x ≤ m
  after : ∀ x ∈ ys.drop k, m ≤ x

/-- **`nth_element`**: the items in some order that is partitioned at place `k`, which one is left open. -/
structure NthElement (α : Type u) [LinearOrder α] where
  rearrange : List α → Nat → List α
  perm : ∀ xs k, (rearrange xs k).Perm xs
  partitioned : ∀ xs k, k < xs.length → ∃ m, Partitioned (rearrange xs k) k m

/-- The two middle items, the same one where their number is odd. -/
structure Middle (xs : List α) (a b : α) : Prop where
  lower : Ranked xs ((xs.length - 1) / 2) a
  upper : Ranked xs (xs.length / 2) b

namespace Ranked

variable {xs ys : List α} {k : Nat} {m lo hi : α}

theorem perm (h : Ranked xs k m) (hp : xs.Perm ys) : Ranked ys k m :=
  ⟨hp.countP_eq _ ▸ h.below, hp.countP_eq _ ▸ h.upto⟩

theorem le_of_countP (h : Ranked xs k m) (hc : xs.countP (fun x => decide (hi < x)) + k < xs.length) : m ≤ hi := by
  by_contra hlt
  have hmono : xs.countP (fun x => decide (¬ x < m)) ≤ xs.countP (fun x => decide (hi < x)) := by
    refine List.countP_mono_left fun x _ hx => ?_
    simp only [decide_eq_true_eq] at hx ⊢
    exact lt_of_lt_of_le (lt_of_not_ge hlt) (le_of_not_gt hx)
  have hsplit := List.length_eq_countP_add_countP (l := xs) (fun x => decide (x < m))
  have := h.below
  simp only [decide_eq_true_eq] at hsplit
  omega

theorem ge_of_countP (h : Ranked xs k m) (hc : xs.countP (fun x => decide (x < lo)) ≤ k) : lo ≤ m := by
  by_contra hlt
  have hmono : xs.countP (fun x => decide (x ≤ m)) ≤ xs.countP (fun x => decide (x < lo)) := by
    refine List.countP_mono_left fun x _ hx => ?_
    simp only [decide_eq_true_eq] at hx ⊢
    exact lt_of_le_of_lt hx (lt_of_not_ge hlt)
  have := h.upto
  omega

/-- **A majority holds the middle ranks**: with `c` items in an interval, the ranks below `c` from either end are in it. -/
theorem mem_interval (h : Ranked xs k m) (hk : k < xs.countP (fun x => decide (lo ≤ x ∧ x ≤ hi)))
    (hk' : xs.length ≤ k + xs.countP (fun x => decide (lo ≤ x ∧ x ≤ hi))) : lo ≤ m ∧ m ≤ hi := by
  have hsplit := List.length_eq_countP_add_countP (l := xs) (fun x => decide (lo ≤ x ∧ x ≤ hi))
  simp only [decide_eq_true_eq] at hsplit
  constructor
  · refine h.ge_of_countP ?_
    have hmono : xs.countP (fun x => decide (x < lo)) ≤ xs.countP (fun x => decide (¬ (lo ≤ x ∧ x ≤ hi))) := by
      refine List.countP_mono_left fun x _ hx => ?_
      simp only [decide_eq_true_eq] at hx ⊢
      exact fun hin => absurd hx (not_lt_of_ge hin.1)
    omega
  · refine h.le_of_countP ?_
    have hmono : xs.countP (fun x => decide (hi < x)) ≤ xs.countP (fun x => decide (¬ (lo ≤ x ∧ x ≤ hi))) := by
      refine List.countP_mono_left fun x _ hx => ?_
      simp only [decide_eq_true_eq] at hx ⊢
      exact fun hin => absurd hx (not_lt_of_ge hin.2)
    omega

theorem lt_length (h : Ranked xs k m) : k < xs.length := lt_of_lt_of_le h.upto List.countP_le_length

theorem unique {m' : α} (h : Ranked xs k m) (h' : Ranked xs k m') : m = m' :=
  le_antisymm (h'.ge_of_countP h.below) (h.ge_of_countP h'.below)

theorem map {β : Type v} [LinearOrder β] {f : α → β} (hf : StrictMono f) (h : Ranked xs k m) :
    Ranked (xs.map f) k (f m) := by
  constructor
  · rw [List.countP_map]
    simpa only [Function.comp_def, hf.lt_iff_lt] using h.below
  · rw [List.countP_map]
    simpa only [Function.comp_def, hf.le_iff_le] using h.upto

end Ranked

namespace Partitioned

variable {xs ys : List α} {k : Nat} {m l : α}

theorem lt_length (h : Partitioned ys k m) : k < ys.length := (List.getElem?_eq_some_iff.1 h.mid).1

/-- The item at place `k` has rank `k`. -/
theorem ranked (h : Partitioned ys k m) : Ranked ys k m := by
  have hlt := h.lt_length
  have hcount : ∀ p : α → Bool, ys.countP p = (ys.take k).countP p + (ys.drop k).countP p := by
    intro p
    rw [← List.countP_append, List.take_append_drop]
  have hdrop : ys.drop k = m :: ys.drop (k + 1) := by
    rw [List.drop_eq_getElem_cons hlt, (List.getElem?_eq_some_iff.1 h.mid).2]
  constructor
  · have hnone : (ys.drop k).countP (fun x => decide (x < m)) = 0 := by
      refine List.countP_eq_zero.2 fun x hx => ?_
      simpa using h.after x hx
    have hle := List.countP_le_length (l := ys.take k) (p := fun x => decide (x < m))
    rw [List.length_take] at hle
    rw [hcount, hnone]
    omega
  · have hall : (ys.take k).countP (fun x => decide (x ≤ m)) = k := by
      rw [List.countP_eq_length.2 fun x hx => by simpa using h.before x hx, List.length_take]
      omega
    rw [hcount, hall, hdrop, List.countP_cons_of_pos (by simp)]
    omega

/-- The greatest item before place `k + 1` has rank `k`. -/
theorem ranked_max (h : Partitioned ys (k + 1) m) (hl : l ∈ ys.take (k + 1)) (hmax : ∀ x ∈ ys.take (k + 1), x ≤ l) :
    Ranked ys k l := by
  have hlt := h.lt_length
  have hcount : ∀ p : α → Bool, ys.countP p = (ys.take (k + 1)).countP p + (ys.drop (k + 1)).countP p := by
    intro p
    rw [← List.countP_append, List.take_append_drop]
  have hlen : (ys.take (k + 1)).length = k + 1 := by
    rw [List.length_take]
    omega
  constructor
  · have hnone : (ys.drop (k + 1)).countP (fun x => decide (x < l)) = 0 := by
      refine List.countP_eq_zero.2 fun x hx => ?_
      simpa using le_trans (h.before l hl) (h.after x hx)
    -- `l` itself is not below `l`
    have hstrict : (ys.take (k + 1)).countP (fun x => decide (x < l)) < (ys.take (k + 1)).length := by
      rcases Nat.lt_or_ge ((ys.take (k + 1)).countP (fun x => decide (x < l))) (ys.take (k + 1)).length with hc | hc
      · exact hc
      · have heq := Nat.le_antisymm List.countP_le_length hc
        have := List.countP_eq_length.1 heq l hl
        simp at this
    rw [hcount, hnone]
    omega
  · have hall : (ys.take (k + 1)).countP (fun x => decide (x ≤ l)) = k + 1 := by
      rw [List.countP_eq_length.2 fun x hx => by simpa using hmax x hx, hlen]
    rw [hcount, hall]
    omega

/-- A sorted list is partitioned everywhere. -/
theorem of_pairwise (hs : ys.Pairwise (· ≤ ·)) (hm : ys[k]? = some m) : Partitioned ys k m := by
  have hlt : k < ys.length := (List.getElem?_eq_some_iff.1 hm).1
  have hdrop : ys.drop k = m :: ys.drop (k + 1) := by
    rw [List.drop_eq_getElem_cons hlt, (List.getElem?_eq_some_iff.1 hm).2]
  have hsplit : (ys.take k ++ ys.drop k).Pairwise (· ≤ ·) := by
    rw [List.take_append_drop]
    exact hs
  obtain ⟨-, hright, hcross⟩ := List.pairwise_append.1 hsplit
  refine ⟨hm, fun x hx => hcross x hx m (by rw [hdrop]; exact List.mem_cons_self ..), fun x hx => ?_⟩
  rw [hdrop] at hx hright
  rcases List.mem_cons.1 hx with rfl | hx
  · exact le_refl _
  · exact (List.pairwise_cons.1 hright).1 x hx

theorem middle_odd {n : Nat} (h : Partitioned ys (n / 2) m) (hlen : ys.length = n) (hodd : n % 2 = 1) :
    Middle ys m m := by
  subst hlen
  have hsame : (ys.length - 1) / 2 = ys.length / 2 := by omega
  exact ⟨hsame ▸ h.ranked, h.ranked⟩

/-- An even number: the greatest item before the middle place is the other middle one. -/
theorem middle_even {n : Nat} (h : Partitioned ys (n / 2) m) (hlen : ys.length = n) (heven : n % 2 = 0) :
    ∃ l, (ys.take (n / 2)).max? = some l ∧ Middle ys l m := by
  subst hlen
  have hlt := h.lt_length
  obtain ⟨k, hk⟩ : ∃ k, ys.length / 2 = k + 1 := ⟨ys.length / 2 - 1, by omega⟩
  have hbefore : (ys.length - 1) / 2 = k := by omega
  obtain ⟨l, hl⟩ : ∃ l, (ys.take (ys.length / 2)).max? = some l := by
    refine Option.isSome_iff_exists.1 (List.isSome_max?_of_ne_nil fun hnil => ?_)
    have := congrArg List.length hnil
    rw [List.length_take, List.length_nil] at this
    omega
  obtain ⟨hin, hmax⟩ := List.max?_eq_some_iff.1 hl
  refine ⟨l, hl, ?_, h.ranked⟩
  rw [hk] at h hin hmax
  rw [hbefore]
  exact h.ranked_max hin hmax

end Partitioned

/-- **Rank is place in the sorted list.** -/
theorem Ranked.sorted {xs : List α} {k : Nat} {m : α} (h : Ranked xs k m) :
    (xs.insertionSort (· ≤ ·))[k]? = some m := by
  have hlt : k < (xs.insertionSort (· ≤ ·)).length := by
    rw [List.length_insertionSort]
    exact h.lt_length
  have hplace := Partitioned.of_pairwise (List.pairwise_insertionSort (· ≤ ·) xs) (List.getElem?_eq_getElem hlt)
  rw [List.getElem?_eq_getElem hlt, (hplace.ranked.perm (List.perm_insertionSort (· ≤ ·) xs)).unique h]

theorem Ranked.mem {xs : List α} {k : Nat} {m : α} (h : Ranked xs k m) : m ∈ xs :=
  (List.mem_insertionSort (· ≤ ·)).1 (List.mem_of_getElem? h.sorted)

/-- Sorting it all is one of the arrangements `nth_element` is free to leave. -/
def NthElement.sorting (α : Type u) [LinearOrder α] : NthElement α where
  rearrange xs _ := xs.insertionSort (· ≤ ·)
  perm xs _ := List.perm_insertionSort _ xs
  partitioned xs k hk := by
    have hlt : k < (xs.insertionSort (· ≤ ·)).length := by
      rw [List.length_insertionSort]
      exact hk
    exact ⟨_, .of_pairwise (List.pairwise_insertionSort _ xs) (List.getElem?_eq_getElem hlt)⟩

namespace Middle

variable {xs ys : List α} {a b lo hi : α}

theorem perm (h : Middle xs a b) (hp : xs.Perm ys) : Middle ys a b :=
  ⟨hp.length_eq ▸ h.lower.perm hp, hp.length_eq ▸ h.upper.perm hp⟩

theorem unique {a' b' : α} (h : Middle xs a b) (h' : Middle xs a' b') : a = a' ∧ b = b' :=
  ⟨h.lower.unique h'.lower, h.upper.unique h'.upper⟩

theorem map {β : Type v} [LinearOrder β] {f : α → β} (hf : StrictMono f) (h : Middle xs a b) :
    Middle (xs.map f) (f a) (f b) := by
  constructor
  · rw [List.length_map]
    exact h.lower.map hf
  · rw [List.length_map]
    exact h.upper.map hf

/-- A strict majority in an interval holds both middle items. -/
theorem mem_interval (h : Middle xs a b)
    (hmaj : xs.length < 2 * xs.countP (fun x => decide (lo ≤ x ∧ x ≤ hi))) :
    (lo ≤ a ∧ a ≤ hi) ∧ lo ≤ b ∧ b ≤ hi :=
  ⟨h.lower.mem_interval (by omega) (by omega), h.upper.mem_interval (by omega) (by omega)⟩

end Middle

/-- **What selecting the middle place finds**: the item there, and where the number is even the greatest before it. -/
theorem NthElement.middle (nth : NthElement α) {xs : List α} {n : Nat} (d : α) (hlen : xs.length = n) (hpos : 0 < n) :
    let buf := nth.rearrange xs (n / 2)
    Middle xs (if n % 2 = 0 then ((buf.take (n / 2)).max?).getD d else buf.getD (n / 2) d) (buf.getD (n / 2) d) := by
  intro buf
  have hperm : buf.Perm xs := nth.perm xs _
  have hcount : buf.length = n := hperm.length_eq.trans hlen
  obtain ⟨m, hm⟩ := nth.partitioned xs (n / 2) (by omega)
  have hmid : buf.getD (n / 2) d = m := by
    rw [List.getD_eq_getElem?_getD, hm.mid, Option.getD_some]
  rw [hmid]
  split
  · rename_i heven
    obtain ⟨l, hl, hmiddle⟩ := hm.middle_even hcount heven
    rw [hl, Option.getD_some]
    exact hmiddle.perm hperm
  · exact (hm.middle_odd hcount (by omega)).perm hperm

end FloodEws
