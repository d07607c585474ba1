import FloodEws.Sensor
import Mathlib.Data.List.Dedup
/-!
# Replay — the detector's table as a map with a capacity

`SensorReplayDetection` keeps its nodes in a table of fixed length whose slots are claimed as nodes turn up.  A slot is
matched on its EUI even while it is inactive, and an inactive slot's EUI is zero, so the node with EUI zero is a case of
its own.  The slots in use are always the first ones, one for each node accepted, each with the largest number accepted
(`Holds`), and so the table answers as a map from EUIs to numbers with room for `maxSensors` of them (`isFresh_iff`).
-/
namespace FloodEws
namespace Sensor

namespace SensorReplayDetection

/-- The slot of a node, or one not claimed yet. -/
def slot : Option SensorReadingWire → SensorReplayEntry
  | some r => { eui := r.eui, lastSequence := r.seq, isActive := true }
  | none => {}

/-- The table's first slots are those of the nodes `known`, with the last number of each; the others are free. -/
structure Holds (known : List SensorReadingWire) (d : SensorReplayDetection) : Prop where
  entries : ∀ i : Fin maxSensors, d.entries i = slot known[i.val]?
  nodup : (known.map SensorReadingWire.eui).Nodup
  room : known.length ≤ maxSensors

theorem find?_finRange {n : Nat} {p : Fin n → Bool} {i : Fin n} (hi : p i = true) (hlt : ∀ j < i, p j = false) :
    (List.finRange n).find? p = some i := by
  rw [← Fin.find?_eq_find?_finRange]
  exact Fin.find?_eq_some_iff.2 ⟨hi, hlt⟩

namespace Holds

variable {known : List SensorReadingWire} {d : SensorReplayDetection} {r : SensorReadingWire}

theorem empty : Holds [] {} := ⟨fun _ => rfl, .nil, Nat.zero_le _⟩

/-- No two places of `known` have the same EUI. -/
theorem eui_inj (h : Holds known d) {i j : Nat} {a b : SensorReadingWire} (hi : known[i]? = some a)
    (hj : known[j]? = some b) (heq : a.eui = b.eui) : i = j := by
  have hi' : (known.map SensorReadingWire.eui)[i]? = some a.eui := by simp [hi]
  have hj' : (known.map SensorReadingWire.eui)[j]? = some a.eui := by simp [hj, heq]
  have hlt := (List.getElem?_eq_some_iff.1 hi').1
  exact (List.getElem?_inj hlt h.nodup).1 (hi'.trans hj'.symm)

/-- **A node that is known is found in its slot.** -/
theorem find_known (h : Holds known d) {i : Fin maxSensors} {last : Nat} (hi : known[i.val]? = some ⟨r.eui, last⟩) :
    d.findOrCreate r.eui = some (i, d) := by
  have hfind : (List.finRange maxSensors).find? (fun j => (d.entries j).eui == r.eui) = some i := by
    refine find?_finRange (by simp [h.entries, hi, slot]) (fun j hj => ?_)
    -- the slots before a known node's are those of other nodes
    have hlen : j.val < known.length := Nat.lt_trans hj (List.getElem?_eq_some_iff.1 hi).1
    have hj' : known[j.val]? = some known[j.val] := List.getElem?_eq_getElem hlen
    have hne : known[j.val].eui ≠ r.eui := by
      intro heq
      have := h.eui_inj hj' hi heq
      exact absurd hj (by omega)
    simpa [h.entries, hj', slot] using hne
  simp [findOrCreate, hfind]

/-- **A node that is not known gets the first free slot**, also if its EUI is the zero of the free slots. -/
theorem find_unknown (h : Holds known d) (hnew : ∀ a ∈ known, a.eui ≠ r.eui) (hroom : known.length < maxSensors) :
    d.findOrCreate r.eui = some (⟨known.length, hroom⟩,
      ⟨Function.update d.entries ⟨known.length, hroom⟩ { eui := r.eui }⟩) := by
  have hfree : d.entries ⟨known.length, hroom⟩ = {} := by simp [h.entries, slot]
  have hbefore : ∀ j : Fin maxSensors, j < (⟨known.length, hroom⟩ : Fin maxSensors) →
      (d.entries j).isActive = true ∧ (d.entries j).eui ≠ r.eui := by
    intro j hj
    have hj' : known[j.val]? = some known[j.val] := List.getElem?_eq_getElem hj
    simp only [h.entries, hj', slot, true_and]
    exact hnew _ (List.getElem_mem _)
  unfold findOrCreate
  by_cases hzero : r.eui = 0
  · have hfind : (List.finRange maxSensors).find? (fun j => (d.entries j).eui == r.eui) = some ⟨known.length, hroom⟩ :=
      find?_finRange (by simp [hfree, hzero]) (fun j hj => by simpa using (hbefore j hj).2)
    have hsame : Function.update d.entries ⟨known.length, hroom⟩ { eui := r.eui } = d.entries := by
      rw [hzero]
      exact Function.update_eq_self_iff.2 hfree.symm
    simp [hfind, hsame]
  · have hnone : (List.finRange maxSensors).find? (fun j => (d.entries j).eui == r.eui) = none := by
      refine List.find?_eq_none.2 fun j _ => ?_
      cases hj : known[j.val]? with
      | none => simp [h.entries, hj, slot, Ne.symm hzero]
      | some a => simpa [h.entries, hj, slot] using hnew a (List.mem_of_getElem? hj)
    have hfind : (List.finRange maxSensors).find? (fun j => !(d.entries j).isActive) = some ⟨known.length, hroom⟩ :=
      find?_finRange (by simp [hfree]) (fun j hj => by simp [(hbefore j hj).1])
    simp [hnone, hfind, hfree]

theorem find_full (h : Holds known d) (hnew : ∀ a ∈ known, a.eui ≠ r.eui) (hfull : known.length = maxSensors) :
    d.findOrCreate r.eui = none := by
  have hslot : ∀ j : Fin maxSensors, (d.entries j).isActive = true ∧ (d.entries j).eui ≠ r.eui := by
    intro j
    have hj' : known[j.val]? = some known[j.val] := List.getElem?_eq_getElem (by omega)
    simp only [h.entries, hj', slot, true_and]
    exact hnew _ (List.getElem_mem _)
  have hnone : (List.finRange maxSensors).find? (fun j => (d.entries j).eui == r.eui) = none :=
    List.find?_eq_none.2 fun j _ => by simpa using (hslot j).2
  have hfull' : (List.finRange maxSensors).find? (fun j => !(d.entries j).isActive) = none :=
    List.find?_eq_none.2 fun j _ => by simp [(hslot j).1]
  simp [findOrCreate, hnone, hfull']

theorem set (h : Holds known d) {i : Fin maxSensors} {last seq : Nat} (hi : known[i.val]? = some ⟨r.eui, last⟩)
    (hr : r.seq = seq) :
    Holds (known.set i.val r) ⟨Function.update d.entries i { d.entries i with lastSequence := seq }⟩ := by
  subst hr
  obtain ⟨hlt, hget⟩ := List.getElem?_eq_some_iff.1 hi
  refine ⟨fun j => ?_, ?_, by simpa using h.room⟩
  · by_cases hj : j = i
    · subst hj
      simp [h.entries, slot, hlt, hget]
    · have hne : i.val ≠ j.val := fun heq => hj (Fin.ext heq.symm)
      simp [Function.update_of_ne hj, h.entries, List.getElem?_set_ne hne]
  · have hsame : (known.set i.val r).map SensorReadingWire.eui = known.map SensorReadingWire.eui := by
      rw [List.map_set]
      refine List.ext_getElem? fun j => ?_
      by_cases hj : i.val = j
      · subst hj
        simp [hlt, hget]
      · simp [List.getElem?_set_ne hj]
    rw [hsame]
    exact h.nodup

theorem concat (h : Holds known d) (hnew : ∀ a ∈ known, a.eui ≠ r.eui) (hroom : known.length < maxSensors) :
    Holds (known ++ [r]) ⟨Function.update d.entries ⟨known.length, hroom⟩ (slot (some r))⟩ := by
  refine ⟨fun j => ?_, ?_, by simpa using Nat.succ_le_of_lt hroom⟩
  · show Function.update d.entries ⟨known.length, hroom⟩ (slot (some r)) j = _
    by_cases hj : j = ⟨known.length, hroom⟩
    · subst hj
      simp
    · have hne : j.val ≠ known.length := fun heq => hj (Fin.ext heq)
      rw [Function.update_of_ne hj, h.entries]
      rcases Nat.lt_or_gt_of_ne hne with hlt | hgt
      · rw [List.getElem?_append_left hlt]
      · rw [List.getElem?_eq_none (by omega), List.getElem?_eq_none (by simp; omega)]
  · rw [List.map_append, List.nodup_append]
    refine ⟨h.nodup, by simp, fun a ha b hb => ?_⟩
    obtain ⟨k, hk, rfl⟩ := List.mem_map.1 ha
    rw [List.map_singleton, List.mem_singleton] at hb
    rw [hb]
    exact hnew k hk

/-- What is known once `r` has taken the place of its node's reading. -/
theorem mem_set (h : Holds known d) {n last : Nat} (hn : known[n]? = some ⟨r.eui, last⟩) (a : SensorReadingWire) :
    a ∈ known.set n r ↔ a = r ∨ (a ∈ known ∧ a.eui ≠ r.eui) := by
  have hlt := (List.getElem?_eq_some_iff.1 hn).1
  constructor
  · intro ha
    obtain ⟨m, hm⟩ := List.mem_iff_getElem?.1 ha
    by_cases hmn : n = m
    · subst hmn
      rw [List.getElem?_set_self hlt] at hm
      exact .inl (Option.some.inj hm).symm
    · rw [List.getElem?_set_ne hmn] at hm
      exact .inr ⟨List.mem_of_getElem? hm, fun heq => hmn (h.eui_inj hn hm heq.symm)⟩
  · rintro (rfl | ⟨hmem, hne⟩)
    · exact List.mem_set hlt _
    · obtain ⟨m, hm⟩ := List.mem_iff_getElem?.1 hmem
      have hmn : n ≠ m := by
        rintro rfl
        rw [hn] at hm
        exact hne (by rw [← Option.some.inj hm])
      exact List.mem_of_getElem? ((List.getElem?_set_ne hmn).trans hm)

/-- The answer for a node the table has, with `last` its last number. -/
theorem isFresh_known (h : Holds known d) {last : Nat} (hk : ⟨r.eui, last⟩ ∈ known) :
    (last < r.seq ∧ (d.isFresh r).1 = true ∧
      ∃ known', Holds known' (d.isFresh r).2 ∧ ∀ a, a ∈ known' ↔ a = r ∨ (a ∈ known ∧ a.eui ≠ r.eui)) ∨
    (r.seq ≤ last ∧ d.isFresh r = (false, d)) := by
  obtain ⟨n, hn⟩ := List.mem_iff_getElem?.1 hk
  have hlt := (List.getElem?_eq_some_iff.1 hn).1
  let i : Fin maxSensors := ⟨n, Nat.lt_of_lt_of_le hlt h.room⟩
  have hi : known[i.val]? = some ⟨r.eui, last⟩ := hn
  have hentry : d.entries i = { eui := r.eui, lastSequence := last, isActive := true } := by simp [h.entries, hi, slot]
  by_cases hseq : last < r.seq
  · refine .inl ⟨hseq, by simp [isFresh, h.find_known hi, hentry, hseq], known.set n r, ?_, h.mem_set hn⟩
    have hset := h.set hi rfl
    simpa [isFresh, h.find_known hi, hentry, hseq] using hset
  · exact .inr ⟨Nat.le_of_not_lt hseq, by simp [isFresh, h.find_known hi, hentry, hseq]⟩

/-- The answer for a node the table does not have. -/
theorem isFresh_unknown (h : Holds known d) (hnew : ∀ a ∈ known, a.eui ≠ r.eui) :
    (known.length < maxSensors ∧ (d.isFresh r).1 = true ∧ Holds (known ++ [r]) (d.isFresh r).2) ∨
    (known.length = maxSensors ∧ d.isFresh r = (false, d)) := by
  rcases Nat.lt_or_eq_of_le h.room with hroom | hfull
  · refine .inl ⟨hroom, by simp [isFresh, h.find_unknown hnew hroom], ?_⟩
    simpa [isFresh, h.find_unknown hnew hroom, slot] using h.concat hnew hroom
  · exact .inr ⟨hfull, by simp [isFresh, h.find_full hnew hfull]⟩

end Holds

/-! ## Over every sequence of readings -/

/-- The readings that were accepted, oldest first. -/
def accepted : List SensorReadingWire → SensorReplayDetection → List SensorReadingWire
  | [], _ => []
  | r :: rs, d => if (d.isFresh r).1 then r :: accepted rs (d.isFresh r).2 else accepted rs (d.isFresh r).2

/-- The detector once the readings have been passed to it. -/
def after (rs : List SensorReadingWire) (d : SensorReplayDetection) : SensorReplayDetection :=
  rs.foldl (fun d r => (d.isFresh r).2) d

/-- The table has, of each node accepted and of no other, the largest number accepted. -/
structure Tracks (acc known : List SensorReadingWire) (d : SensorReplayDetection) : Prop where
  holds : Holds known d
  mem : ∀ k ∈ known, k ∈ acc
  largest : ∀ k ∈ known, ∀ a ∈ acc, a.eui = k.eui → a.seq ≤ k.seq
  covers : ∀ a ∈ acc, ∃ k ∈ known, k.eui = a.eui

namespace Tracks

variable {acc known known' : List SensorReadingWire} {d d' : SensorReplayDetection} {r : SensorReadingWire}

theorem empty : Tracks [] [] {} := ⟨.empty, nofun, nofun, nofun⟩

/-- **A reading is accepted**: it is above what is known of its node, and takes its place. -/
theorem accept (h : Tracks acc known d) (hd : Holds known' d')
    (hmem : ∀ a, a ∈ known' ↔ a = r ∨ (a ∈ known ∧ a.eui ≠ r.eui))
    (hfresh : ∀ k ∈ known, k.eui = r.eui → k.seq < r.seq) : Tracks (acc ++ [r]) known' d' := by
  refine ⟨hd, fun k hk => ?_, fun k hk a ha heq => ?_, fun a ha => ?_⟩
  · rcases (hmem k).1 hk with rfl | ⟨hk, -⟩
    · simp
    · exact List.mem_append_left _ (h.mem k hk)
  · rw [List.mem_append, List.mem_singleton] at ha
    rcases (hmem k).1 hk with rfl | ⟨hk, hne⟩
    · rcases ha with ha | rfl
      · obtain ⟨k', hk', heq'⟩ := h.covers a ha
        have hle := h.largest k' hk' a ha heq'.symm
        have hlt := hfresh k' hk' (heq'.trans heq)
        omega
      · exact Nat.le_refl _
    · rcases ha with ha | rfl
      · exact h.largest k hk a ha heq
      · exact absurd heq.symm hne
  · rw [List.mem_append, List.mem_singleton] at ha
    rcases ha with ha | rfl
    · obtain ⟨k, hk, heq⟩ := h.covers a ha
      by_cases hr : k.eui = r.eui
      · exact ⟨r, (hmem r).2 (.inl rfl), hr.symm.trans heq⟩
      · exact ⟨k, (hmem k).2 (.inr ⟨hk, hr⟩), heq⟩
    · exact ⟨a, (hmem a).2 (.inl rfl), rfl⟩

/-- **One reading**: accepted, or refused with the table left as it is. -/
theorem isFresh_cases (h : Tracks acc known d) (r : SensorReadingWire) :
    ((d.isFresh r).1 = true ∧ (∃ known', Tracks (acc ++ [r]) known' (d.isFresh r).2) ∧
      ((∃ k ∈ known, k.eui = r.eui ∧ k.seq < r.seq) ∨
        ((∀ k ∈ known, k.eui ≠ r.eui) ∧ known.length < maxSensors))) ∨
    (d.isFresh r = (false, d) ∧ (∀ k ∈ known, k.eui = r.eui → r.seq ≤ k.seq) ∧
      ((∀ k ∈ known, k.eui ≠ r.eui) → known.length = maxSensors)) := by
  by_cases hknown : ∃ k ∈ known, k.eui = r.eui
  · obtain ⟨⟨eui, last⟩, hk, heui⟩ := hknown
    obtain rfl : eui = r.eui := heui
    -- no other reading of the node is known
    have honly : ∀ k ∈ known, k.eui = r.eui → k.seq = last :=
      fun k hk' heq => Nat.le_antisymm (h.largest _ hk k (h.mem k hk') heq) (h.largest k hk' _ (h.mem _ hk) heq.symm)
    rcases h.holds.isFresh_known hk with ⟨hlt, htrue, known', hd, hmem⟩ | ⟨hle, hrefused⟩
    · refine .inl ⟨htrue, ⟨known', h.accept hd hmem fun k hk' heq => ?_⟩, .inl ⟨_, hk, rfl, hlt⟩⟩
      rw [honly k hk' heq]
      exact hlt
    · refine .inr ⟨hrefused, fun k hk' heq => ?_, fun hno => (hno _ hk rfl).elim⟩
      rw [honly k hk' heq]
      exact hle
  · have hnew : ∀ k ∈ known, k.eui ≠ r.eui := fun k hk heq => hknown ⟨k, hk, heq⟩
    rcases h.holds.isFresh_unknown hnew with ⟨hroom, htrue, hd⟩ | ⟨hfull, hrefused⟩
    · refine .inl ⟨htrue, ⟨known ++ [r], h.accept hd (fun a => ?_) fun k hk heq => absurd heq (hnew k hk)⟩,
        .inr ⟨hnew, hroom⟩⟩
      rw [List.mem_append, List.mem_singleton]
      constructor
      · rintro (ha | ha)
        · exact .inr ⟨ha, hnew a ha⟩
        · exact .inl ha
      · rintro (ha | ⟨ha, -⟩)
        · exact .inr ha
        · exact .inl ha
    · exact .inr ⟨hrefused, fun k hk heq => absurd heq (hnew k hk), fun _ => hfull⟩

theorem run (rs : List SensorReadingWire) (h : Tracks acc known d) :
    ∃ known', Tracks (acc ++ accepted rs d) known' (after rs d) := by
  induction rs generalizing acc known d with
  | nil => exact ⟨known, by simpa [accepted, after] using h⟩
  | cons r rs ih =>
    rcases h.isFresh_cases r with ⟨htrue, ⟨known', hnext⟩, -⟩ | ⟨hrefused, -, -⟩
    · obtain ⟨known'', hrun⟩ := ih hnext
      refine ⟨known'', ?_⟩
      rw [accepted, if_pos htrue]
      simpa [after] using hrun
    · obtain ⟨known'', hrun⟩ := ih h
      refine ⟨known'', ?_⟩
      rw [accepted, hrefused]
      simpa [after, hrefused] using hrun

/-- The slots in use count the nodes accepted. -/
theorem length_known (h : Tracks acc known d) : known.length = (acc.map SensorReadingWire.eui).dedup.length := by
  have hperm : (known.map SensorReadingWire.eui).Perm (acc.map SensorReadingWire.eui).dedup := by
    refine (List.perm_ext_iff_of_nodup h.holds.nodup (List.nodup_dedup _)).2 fun e => ?_
    rw [List.mem_dedup, List.mem_map, List.mem_map]
    constructor
    · rintro ⟨k, hk, rfl⟩
      exact ⟨k, h.mem k hk, rfl⟩
    · rintro ⟨a, ha, rfl⟩
      exact h.covers a ha
  rw [← hperm.length_eq, List.length_map]

end Tracks

/-- **Replay protection.**  After any readings, a reading is fresh exactly when its node has been accepted before and its
number is above every number accepted of it, or its node has not been accepted and fewer than `maxSensors` have; a
reading that is not fresh leaves the detector as it was. -/
theorem isFresh_iff (rs : List SensorReadingWire) (r : SensorReadingWire) :
    (((after rs {}).isFresh r).1 = true ↔
      ((∃ a ∈ accepted rs {}, a.eui = r.eui) ∧ ∀ a ∈ accepted rs {}, a.eui = r.eui → a.seq < r.seq) ∨
      ((∀ a ∈ accepted rs {}, a.eui ≠ r.eui) ∧
        ((accepted rs {}).map SensorReadingWire.eui).dedup.length < maxSensors)) ∧
    (((after rs {}).isFresh r).1 = false → ((after rs {}).isFresh r).2 = after rs {}) := by
  obtain ⟨known, h⟩ := Tracks.empty.run rs
  rw [List.nil_append] at h
  rcases h.isFresh_cases r with ⟨htrue, -, hwhy⟩ | ⟨hrefused, hold, hfull⟩
  · refine ⟨iff_of_true htrue ?_, fun hfalse => by rw [htrue] at hfalse; cases hfalse⟩
    rcases hwhy with ⟨k, hk, heq, hlt⟩ | ⟨hnew, hroom⟩
    · refine .inl ⟨⟨k, h.mem k hk, heq⟩, fun a ha heq' => ?_⟩
      exact Nat.lt_of_le_of_lt (h.largest k hk a ha (heq'.trans heq.symm)) hlt
    · refine .inr ⟨fun a ha heq => ?_, h.length_known ▸ hroom⟩
      obtain ⟨k, hk, heq'⟩ := h.covers a ha
      exact hnew k hk (heq'.trans heq)
  · refine ⟨iff_of_false (by simp [hrefused]) ?_, fun _ => by rw [hrefused]⟩
    rintro (⟨⟨a, ha, heq⟩, hlt⟩ | ⟨hnew, hroom⟩)
    · obtain ⟨k, hk, heq'⟩ := h.covers a ha
      exact absurd (hlt k (h.mem k hk) (heq'.trans heq)) (Nat.not_lt.2 (hold k hk (heq'.trans heq)))
    · rw [← h.length_known] at hroom
      exact absurd (hfull fun k hk => hnew k (h.mem k hk)) (Nat.ne_of_lt hroom)

end SensorReplayDetection

end Sensor
end FloodEws
