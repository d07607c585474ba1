import FloodEws.Ballot
/-!
# Middle — `median_n`, in the words of its span

`median_n` copies at most `MAX_SENSORS` readings, has `nth_element` select the middle place and, where the number is even,
takes the greatest of what is before it for the other middle reading; the two are added in 32 bits.  Which of its
arrangements `nth_element` leaves is open, and makes no difference: the result is the middle of the sorted readings
(`medianN_is_median`), and the median the vote goes by in every run (`median_run`).
-/
namespace FloodEws
namespace Vote
namespace Span

scoped instance linearOrderUInt16 : LinearOrder UInt16 where
  le_refl := UInt16.le_refl
  le_trans _ _ _ := UInt16.le_trans
  lt_iff_le_not_ge a b := by
    rw [UInt16.not_le]
    exact ⟨fun h => ⟨UInt16.le_of_lt h, h⟩, And.right⟩
  le_antisymm _ _ := UInt16.le_antisymm
  le_total := UInt16.le_total
  toDecidableLE := inferInstance

theorem strictMono_toNat : StrictMono UInt16.toNat := fun _ _ => UInt16.lt_iff_toNat_lt.1

/-- `median_n`. -/
def medianN (nth : NthElement UInt16) (M : Nat) (xs : List UInt16) : UInt16 :=
  let numSensors := min xs.length M
  if numSensors = 0 then 0
  else
    let buf := nth.rearrange (xs.take numSensors) (numSensors / 2)
    let mid := buf.getD (numSensors / 2) 0
    if numSensors % 2 = 0 then
      let maxIt := ((buf.take (numSensors / 2)).max?).getD 0
      ((maxIt.toUInt32 + mid.toUInt32) / 2).toUInt16
    else mid

/-- Neither the sum nor the half of it is cut. -/
theorem floorMean_toNat (a b : UInt16) : ((a.toUInt32 + b.toUInt32) / 2).toUInt16.toNat = (a.toNat + b.toNat) / 2 := by
  have ha := a.toNat_lt
  have hb := b.toNat_lt
  simp only [UInt32.toNat_toUInt16, UInt32.toNat_div, UInt32.toNat_add, UInt16.toNat_toUInt32]
  have htwo : (2 : UInt32).toNat = 2 := rfl
  rw [htwo]
  omega

section

variable (nth : NthElement UInt16) {M : Nat} {xs : List UInt16}

/-- **The result is the floor of the mean of the two middle readings**, and where they are one it is that one. -/
theorem medianN_middle (hpos : 0 < min xs.length M) :
    ∃ a b, Middle (xs.take (min xs.length M)) a b ∧ (medianN nth M xs).toNat = (a.toNat + b.toNat) / 2 := by
  have hlen : (xs.take (min xs.length M)).length = min xs.length M := by
    rw [List.length_take]
    omega
  refine ⟨_, _, nth.middle 0 hlen hpos, ?_⟩
  unfold medianN
  dsimp only
  rw [if_neg (by omega)]
  split
  · exact floorMean_toNat _ _
  · have hself : ∀ m : Nat, m = (m + m) / 2 := fun m => by omega
    exact hself _

theorem medianN_of_middle {a b : UInt16} (hpos : 0 < xs.length) (hM : xs.length ≤ M) (h : Middle xs a b) :
    (medianN nth M xs).toNat = (a.toNat + b.toNat) / 2 := by
  obtain ⟨a', b', h', hm⟩ := medianN_middle nth (show 0 < min xs.length M by omega)
  rw [Nat.min_eq_left hM, List.take_length] at h'
  obtain ⟨rfl, rfl⟩ := h.unique h'
  exact hm

end

/-- **`median_n` is the median**: the middle of the sorted readings, whatever order they come in and `nth_element` leaves
them in, and no lower than the least nor higher than the greatest of them. -/
theorem medianN_is_median (nth : NthElement UInt16) (M : Nat) (xs : List UInt16) (hpos : 0 < xs.length)
    (hM : xs.length ≤ M) :
    let sorted := xs.insertionSort (· ≤ ·)
    (xs.length % 2 = 1 → sorted[xs.length / 2]? = some (medianN nth M xs)) ∧
    (xs.length % 2 = 0 → ∃ a b, sorted[xs.length / 2 - 1]? = some a ∧ sorted[xs.length / 2]? = some b ∧
      (medianN nth M xs).toNat = (a.toNat + b.toNat) / 2) ∧
    (∀ (nth' : NthElement UInt16) (ys : List UInt16), xs.Perm ys → medianN nth' M ys = medianN nth M xs) ∧
    ∃ lo hi, xs.min? = some lo ∧ xs.max? = some hi ∧ lo ≤ medianN nth M xs ∧ medianN nth M xs ≤ hi := by
  intro sorted
  obtain ⟨a, b, hmiddle, hm⟩ := medianN_middle nth (show 0 < min xs.length M by omega)
  rw [Nat.min_eq_left hM, List.take_length] at hmiddle
  refine ⟨fun hodd => ?_, fun heven => ?_, fun nth' ys hp => ?_, ?_⟩
  · have hsame : (xs.length - 1) / 2 = xs.length / 2 := by omega
    have hab : a = b := (hsame ▸ hmiddle.lower).unique hmiddle.upper
    have hb : medianN nth M xs = b := by
      rw [← UInt16.toNat_inj, hm, hab]
      omega
    rw [hb]
    exact hmiddle.upper.sorted
  · have hbefore : (xs.length - 1) / 2 = xs.length / 2 - 1 := by omega
    exact ⟨a, b, hbefore ▸ hmiddle.lower.sorted, hmiddle.upper.sorted, hm⟩
  · rw [← UInt16.toNat_inj, hm]
    exact medianN_of_middle nth' (hp.length_eq ▸ hpos) (hp.length_eq ▸ hM) (hmiddle.perm hp)
  · obtain ⟨lo, hlo⟩ : ∃ lo, xs.min? = some lo :=
      Option.isSome_iff_exists.1 (List.isSome_min?_of_ne_nil (List.ne_nil_of_length_pos hpos))
    obtain ⟨hi, hhi⟩ : ∃ hi, xs.max? = some hi :=
      Option.isSome_iff_exists.1 (List.isSome_max?_of_ne_nil (List.ne_nil_of_length_pos hpos))
    have hleast := (List.min?_eq_some_iff.1 hlo).2
    have hgreatest := (List.max?_eq_some_iff.1 hhi).2
    have hbounds : ∀ m ∈ xs, lo.toNat ≤ m.toNat ∧ m.toNat ≤ hi.toNat := fun m hmem =>
      ⟨UInt16.le_iff_toNat_le.1 (hleast m hmem), UInt16.le_iff_toNat_le.1 (hgreatest m hmem)⟩
    have ha := hbounds a hmiddle.lower.mem
    have hb := hbounds b hmiddle.upper.mem
    refine ⟨lo, hi, hlo, hhi, UInt16.le_iff_toNat_le.2 ?_, UInt16.le_iff_toNat_le.2 ?_⟩ <;> omega

/-- Readings at the top of the range, where a sum of two does not fit 16 bits. -/
def topReadings : List UInt16 := [0xFFFF, 7, 0xFFFE, 0xFFFF]

theorem medianN_is_median_topReadings :
    0 < topReadings.length ∧ topReadings.length ≤ 4 ∧ medianN (.sorting UInt16) 4 topReadings = 0xFFFE ∧
      ∀ (nth : NthElement UInt16) (ys : List UInt16), topReadings.Perm ys → medianN nth 4 ys = 0xFFFE := by
  have hvalue : medianN (.sorting UInt16) 4 topReadings = 0xFFFE := by decide
  obtain ⟨-, -, hsame, -⟩ := medianN_is_median (.sorting UInt16) 4 topReadings (by decide) (by decide)
  exact ⟨by decide, by decide, hvalue, fun nth ys hp => (hsame nth ys hp).trans hvalue⟩

/-- The model over natural numbers computes the same. -/
theorem toNat_medianN (nth : NthElement UInt16) (M : Nat) (xs : List UInt16) :
    (medianN nth M xs).toNat = Vote.medianN M (xs.map UInt16.toNat) := by
  rcases Nat.eq_zero_or_pos (min xs.length M) with hzero | hpos
  · have hmap : min (xs.map UInt16.toNat).length M = 0 := by rw [List.length_map, hzero]
    unfold medianN Vote.medianN
    dsimp only
    rw [if_pos hzero, if_pos hmap]
    rfl
  · obtain ⟨a, b, hmiddle, hm⟩ := medianN_middle nth hpos
    have hpos' : 0 < min (xs.map UInt16.toNat).length M := by rwa [List.length_map]
    obtain ⟨a', b', hmiddle', hm'⟩ := Vote.medianN_middle hpos'
    rw [List.length_map, ← List.map_take] at hmiddle'
    obtain ⟨rfl, rfl⟩ := (hmiddle.map strictMono_toNat).unique hmiddle'
    rw [hm, hm']

section

variable {M : Nat} {e : VoteEngine M}

/-- Every level the engine keeps is a 16-bit word. -/
def Narrow (e : VoteEngine M) : Prop := ∀ s ∈ e.slots, s.reading < 2 ^ 16

/-- Levels come in 16 bits. -/
def NarrowCall : Call → Prop
  | .accumulate entry => entry.waterLevelMm < 2 ^ 16
  | _ => True

theorem mem_slots_accumulate {entry : Entry} {s : Slot} (hs : s ∈ (e.accumulate entry).2.slots) :
    s ∈ e.slots ∨ s = entry.slot := by
  unfold VoteEngine.accumulate at hs
  split at hs
  · exact List.mem_or_eq_of_mem_set hs
  split at hs
  · simpa using hs
  · exact .inl hs

theorem narrow_perform (h : Narrow e) {c : Call} (hc : NarrowCall c) : Narrow (e.perform c) := by
  cases c with
  | accumulate entry =>
    intro s hs
    rcases mem_slots_accumulate hs with hold | rfl
    · exact h s hold
    · exact hc
  | openWindow => exact h
  | closeWindow =>
    intro s hs
    exact h s (e.closeWindow_slots.1 ▸ hs)
  | checkAlert batch =>
    intro s hs
    exact h s ((e.checkAlert_slots batch).1 ▸ hs)

theorem narrow_run (calls : List Call) (hc : ∀ c ∈ calls, NarrowCall c) (h : Narrow e) : Narrow (e.run calls) := by
  induction calls generalizing e with
  | nil => exact h
  | cons c calls ih =>
    rw [List.forall_mem_cons] at hc
    exact ih hc.2 (narrow_perform h hc.1)

/-- **In every run the vote goes by this median**, whatever `nth_element` leaves. -/
theorem median_run (nth : NthElement UInt16) (calls : List Call) (hc : ∀ c ∈ calls, NarrowCall c) :
    ((VoteEngine.new M).run calls).median =
      (medianN nth M (((VoteEngine.new M).run calls).reporters.map fun s => .ofNat s.reading)).toNat := by
  have hnarrow := narrow_run (e := VoteEngine.new M) calls hc nofun
  generalize (VoteEngine.new M).run calls = e at hnarrow
  rw [toNat_medianN, List.map_map, VoteEngine.median]
  refine congrArg (Vote.medianN M) (List.map_congr_left fun s hs => ?_)
  have hslot : s ∈ e.slots := (collect_sublist _ _ _).subset hs
  exact (UInt16.toNat_ofNat_of_lt (hnarrow s hslot)).symm

end

end Span
end Vote
end FloodEws
