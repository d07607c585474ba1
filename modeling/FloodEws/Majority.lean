import Mathlib.Data.Finset.Card
import Mathlib.Data.List.Nodup
/-!
# Majority — strict majorities of a finite set of voters

Two strict majorities share a voter.  Counts over a table of records, one per voter, give majorities of the voters.
-/
namespace FloodEws

universe u v

variable {α : Type u} {β : Type v}

/-- **More than half of the voters satisfy `p`.** -/
def Quorum (V : Finset α) (p : α → Prop) : Prop := ∃ Q : Finset α, Q ⊆ V ∧ V.card < 2 * Q.card ∧ ∀ v ∈ Q, p v

namespace Quorum

variable {V : Finset α} {p q : α → Prop}

theorem mono (h : Quorum V p) (hpq : ∀ v ∈ V, p v → q v) : Quorum V q := by
  obtain ⟨Q, hQ, hcard, hp⟩ := h
  exact ⟨Q, hQ, hcard, fun v hv => hpq v (hQ hv) (hp v hv)⟩

/-- **Two majorities meet.** -/
theorem meet [DecidableEq α] (hp : Quorum V p) (hq : Quorum V q) : ∃ v ∈ V, p v ∧ q v := by
  obtain ⟨P, hP, hcP, hp⟩ := hp
  obtain ⟨Q, hQ, hcQ, hq⟩ := hq
  by_contra hno
  have hdisj : Disjoint P Q := by
    rw [Finset.disjoint_left]
    intro v hvP hvQ
    exact hno ⟨v, hP hvP, hp v hvP, hq v hvQ⟩
  have hle : (P ∪ Q).card ≤ V.card := Finset.card_le_card (Finset.union_subset hP hQ)
  rw [Finset.card_union_of_disjoint hdisj] at hle
  omega

end Quorum

/-- A majority of the records of a table with distinct keys is a majority of the keys. -/
theorem quorum_of_countP [DecidableEq α] {ps : List β} {key : β → α} {f : β → Bool} (hn : (ps.map key).Nodup)
    (h : ps.length / 2 + 1 ≤ ps.countP f) :
    Quorum (ps.map key).toFinset (fun a => ∃ p ∈ ps, key p = a ∧ f p = true) := by
  have hsub : ((ps.filter f).map key).Sublist (ps.map key) := List.Sublist.map key List.filter_sublist
  refine ⟨((ps.filter f).map key).toFinset, ?_, ?_, ?_⟩
  · intro a ha
    rw [List.mem_toFinset] at ha ⊢
    exact hsub.subset ha
  · rw [List.toFinset_card_of_nodup hn, List.toFinset_card_of_nodup (hn.sublist hsub), List.length_map, List.length_map,
      ← List.countP_eq_length_filter]
    omega
  · intro a ha
    rw [List.mem_toFinset, List.mem_map] at ha
    obtain ⟨p, hp, rfl⟩ := ha
    rw [List.mem_filter] at hp
    exact ⟨p, hp.1, rfl, hp.2⟩

end FloodEws
