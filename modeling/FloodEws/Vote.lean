import Mathlib.Data.List.Induction
import Mathlib.Data.List.Nodup
import Mathlib.Data.List.Sort
import FloodEws.Median
/-!
# Vote — `outlier_vote/engine.hpp`

The vote over the readings of one collection window.  A sensor keeps the slot it was given first; a bit of `m_reported`
says whether it reported in this window.  Closing the window takes the median of what was reported, flags what deviates
from it by more than the tolerance, and keeps a reputation for each sensor.  `M` is `MAX_SENSORS`; the slots and the
reputations in use are always the first of their arrays, so each array is the list of those.  Levels are natural
numbers: the sum of two is taken in 32 bits and a difference is that of the larger and the smaller, so nothing wraps.

A strict majority of readings close together is never flagged, whatever the others report (`majority_unflagged`), and
alerts follow it (`alerts_follow_majority`).
-/
namespace FloodEws
namespace Vote

abbrev toleranceMm : Nat := 200
abbrev alertThresholdMm : Nat := 1500
abbrev alertClearWindows : Nat := 3
abbrev reputationPenalty : Nat := 20
abbrev reputationRecovery : Nat := 5
abbrev reputationMin : Nat := 20
abbrev reputationReadmit : Nat := 40
abbrev reputationInitial : Nat := 100
abbrev minReporters : Nat := 3
abbrev maxReputation : Nat := 100
abbrev minReputation : Nat := 10

/-- `IEC61850_Validity`; the byte of a reading off the wire may be none of its values. -/
inductive Validity where
  | good
  | invalid
  | questionable
  | other (code : UInt8)
deriving DecidableEq, Repr

def detailOutlier : UInt8 := 0x10

/-- `SensorReadingWire`. -/
structure Entry where
  eui : UInt64
  timestamp : UInt64 := 0
  waterLevelMm : Nat
  validity : Validity := .good
  detail : UInt8 := 0
  seq : UInt32 := 0
deriving DecidableEq, Repr

/-- What the engine keeps of a sensor's latest reading; the clock is cut to 32 bits. -/
structure Slot where
  eui : UInt64
  reading : Nat
  validity : Validity
  detail : UInt8
  timestamp : UInt32
deriving DecidableEq, Repr

def Entry.slot (e : Entry) : Slot := ⟨e.eui, e.waterLevelMm, e.validity, e.detail, e.timestamp.toUInt32⟩

structure Batch where
  entries : List Entry := []
  alertActive : Bool := false
deriving DecidableEq, Repr

/-- A reputation that is known. -/
structure Reputation where
  eui : UInt64
  reputation : Nat := reputationInitial
  excluded : Bool := false
deriving DecidableEq, Repr

def clampReputation (value : Int) : Nat := (max (minReputation : Int) (min value maxReputation)).toNat

/-- The part of `build_entry` between `rep_for` and the entry. -/
def Reputation.judge (isOutlier : Bool) (r : Reputation) : Reputation :=
  if isOutlier then
    let value := clampReputation ((r.reputation : Int) - reputationPenalty)
    { r with reputation := value, excluded := r.excluded || decide (value < reputationMin) }
  else
    let value := clampReputation ((r.reputation : Int) + reputationRecovery)
    { r with reputation := value, excluded := r.excluded && !decide ( reputationReadmit ≤ value) }

/-- `m_reputation`. -/
structure Standings (M : Nat) where
  rows : List Reputation := []
  room : rows.length ≤ M
  distinct : (rows.map Reputation.eui).Nodup
  bounded : ∀ r ∈ rows, r.reputation ≤ maxReputation

theorem Reputation.judge_eui (o : Bool) (r : Reputation) : (r.judge o).eui = r.eui := by
  cases o <;> rfl

theorem clampReputation_le (value : Int) : clampReputation value ≤ maxReputation := by
  unfold clampReputation maxReputation minReputation
  omega

theorem Reputation.judge_le (o : Bool) (r : Reputation) : (r.judge o).reputation ≤ maxReputation := by
  cases o <;> exact clampReputation_le _

namespace Standings

variable {M : Nat}

def lookup (t : Standings M) (eui : UInt64) : Option Reputation := t.rows.find? (fun r => r.eui == eui)

/-- The table after `rep_for`, which claims a free row for a new sensor if there is one.  What it returns a pointer to is
the sensor's row in it. -/
def repFor (t : Standings M) (eui : UInt64) : Standings M :=
  if hnew : t.lookup eui = none ∧ t.rows.length < M then
    { rows := t.rows ++ [{ eui := eui }]
      room := by
        rw [List.length_append, List.length_singleton]
        exact hnew.2
      distinct := by
        rw [List.map_append, List.nodup_append]
        refine ⟨t.distinct, by simp, fun a ha b hb => ?_⟩
        obtain ⟨r, hr, rfl⟩ := List.mem_map.1 ha
        have hne := List.find?_eq_none.1 hnew.1 r hr
        rintro rfl
        simp at hb hne
        exact hne hb
      bounded := by
        intro r hr
        rcases List.mem_append.1 hr with hr | hr
        · exact t.bounded r hr
        · rw [List.mem_singleton.1 hr] }
  else t

/-- Write through the pointer. -/
def judge (t : Standings M) (eui : UInt64) (isOutlier : Bool) : Standings M where
  rows := t.rows.map (fun r => if r.eui = eui then r.judge isOutlier else r)
  room := by
    rw [List.length_map]
    exact t.room
  distinct := by
    have hkeys : (t.rows.map (fun r => if r.eui = eui then r.judge isOutlier else r)).map Reputation.eui =
        t.rows.map Reputation.eui := by
      rw [List.map_map]
      refine List.map_congr_left fun r _ => ?_
      by_cases hr : r.eui = eui
      · simp [hr, Reputation.judge_eui]
      · simp [hr]
    rw [hkeys]
    exact t.distinct
  bounded := by
    intro x hx
    obtain ⟨r, hr, rfl⟩ := List.mem_map.1 hx
    by_cases he : r.eui = eui
    · rw [if_pos he]
      exact r.judge_le isOutlier
    · rw [if_neg he]
      exact t.bounded r hr

end Standings

/-- Bit `slot` of `m_reported` is set. -/
def bit (slot : Nat) : BitVec 32 := 1#32 <<< slot

def hasReported (reported : BitVec 32) (slot : Nat) : Bool := (reported &&& bit slot) != 0#32

structure VoteEngine (M : Nat) where
  slots : List Slot := []
  room : slots.length ≤ M
  distinct : (slots.map Slot.eui).Nodup
  reported : BitVec 32 := 0#32
  reputation : Standings M
  alertActive : Bool := false
  cleanWindows : Nat := 0

/-- What `nth_element` leaves: sorting it all is one of the arrangements it is free to choose. -/
def nthElement (xs : List Nat) : List Nat := xs.insertionSort (· ≤ ·)

/-- `median_n`. -/
def medianN (M : Nat) (xs : List Nat) : Nat :=
  let numSensors := min xs.length M
  if numSensors = 0 then 0
  else
    let buf := nthElement (xs.take numSensors)
    let mid := buf.getD (numSensors / 2) 0
    if numSensors % 2 = 0 then (((buf.take (numSensors / 2)).max?).getD 0 + mid) / 2 else mid

namespace Slot

/-- `|val - med|` is more than the tolerance. -/
def isOutlier (s : Slot) (med : Nat) : Bool := decide (toleranceMm < max s.reading med - min s.reading med)

/-- The entry that is sent, given the sensor's row if it has one. -/
def entry (s : Slot) (med : Nat) (rep : Option Reputation) : Entry :=
  let excluded := (rep.map Reputation.excluded).getD false
  { eui := s.eui
    timestamp := s.timestamp.toUInt64
    waterLevelMm := s.reading
    validity := if excluded then .invalid else if s.isOutlier med then .questionable else s.validity
    detail := if excluded || s.isOutlier med then s.detail ||| detailOutlier else s.detail
    seq := 0 }

end Slot

/-- `build_entry`. -/
def buildEntry {M : Nat} (s : Slot) (med : Nat) (out : Batch) (t : Standings M) : Batch × Standings M :=
  let t := (t.repFor s.eui).judge s.eui (s.isOutlier med)
  ({ out with entries := out.entries ++ [s.entry med (t.lookup s.eui)] }, t)

/-- The second loop of `close_window`. -/
def buildEntries {M : Nat} (med : Nat) : List Slot → Batch → Standings M → Batch × Standings M
  | [], out, t => (out, t)
  | s :: ss, out, t =>
    if M ≤ out.entries.length then (out, t)
    else buildEntries med ss (buildEntry s med out t).1 (buildEntry s med out t).2

/-- The first loop of `close_window`, from slot `i` on: the slots that reported. -/
def collect (reported : BitVec 32) : Nat → List Slot → List Slot
  | _, [] => []
  | i, s :: ss => if hasReported reported i then s :: collect reported (i + 1) ss else collect reported (i + 1) ss

/-- The loop of `check_alert`. -/
def Batch.triggers (b : Batch) : Bool :=
  b.entries.any (fun x => decide (x.validity = .good) && decide (alertThresholdMm ≤ x.waterLevelMm))

namespace VoteEngine

variable {M : Nat}

def new (M : Nat) : VoteEngine M where
  slots := []
  room := Nat.zero_le M
  distinct := .nil
  reputation := ⟨[], Nat.zero_le M, .nil, nofun⟩

/-- The latest reading of each sensor that reported in this window. -/
def reporters (e : VoteEngine M) : List Slot := collect e.reported 0 e.slots

/-- `accumulate`, with `slot_for`: the sensor's slot, or a new one if there is room. -/
def accumulate (e : VoteEngine M) (entry : Entry) : Bool × VoteEngine M :=
  match h : e.slots.findIdx? (fun s => s.eui == entry.eui) with
  | some i =>
    (true, { e with
      slots := e.slots.set i entry.slot
      room := by
        rw [List.length_set]
        exact e.room
      distinct := by
        obtain ⟨hi, heq, -⟩ := List.findIdx?_eq_some_iff_getElem.1 h
        have hi' : i < (e.slots.map Slot.eui).length := by
          rw [List.length_map]
          exact hi
        have hkey : entry.slot.eui = (e.slots.map Slot.eui)[i] := by
          rw [List.getElem_map]
          exact (by simpa using heq : e.slots[i].eui = entry.eui).symm
        rw [List.map_set, hkey, List.set_getElem_self]
        exact e.distinct
      reported := e.reported ||| bit i })
  | none =>
    if hroom : e.slots.length < M then
      (true, { e with
        slots := e.slots ++ [entry.slot]
        room := by
          rw [List.length_append, List.length_singleton]
          exact hroom
        distinct := by
          rw [List.map_append, List.nodup_append]
          refine ⟨e.distinct, by simp, fun a ha b hb => ?_⟩
          obtain ⟨s, hs, rfl⟩ := List.mem_map.1 ha
          have hne := List.findIdx?_eq_none_iff.1 h s hs
          rintro rfl
          simp [Entry.slot] at hb hne
          exact hne hb
        reported := e.reported ||| bit e.slots.length })
    else (false, e)

def openWindow (e : VoteEngine M) : VoteEngine M := { e with reported := 0#32 }

def closeWindow (e : VoteEngine M) : Option Batch × VoteEngine M :=
  let reporters := e.reporters
  let e := { e with reported := 0#32 }
  if reporters.length < minReporters then (none, e)
  else
    let med := medianN M (reporters.map Slot.reading)
    let (out, t) := buildEntries med reporters {} e.reputation
    let e := { e with reputation := t }
    if out.entries.length = 0 then (none, e) else (some out, e)

def checkAlert (e : VoteEngine M) (batch : Batch) : Bool × VoteEngine M :=
  let e :=
    if batch.triggers then { e with cleanWindows := 0, alertActive := true }
    else if e.alertActive then
      if alertClearWindows ≤ e.cleanWindows + 1 then { e with alertActive := false, cleanWindows := 0 }
      else { e with cleanWindows := e.cleanWindows + 1 }
    else e
  (e.alertActive, e)

/-- A sensor's reputation; one that is not known yet has the initial one. -/
def reputationOf (e : VoteEngine M) (eui : UInt64) : Nat :=
  ((e.reputation.lookup eui).map Reputation.reputation).getD reputationInitial

def excluded (e : VoteEngine M) (eui : UInt64) : Bool := ((e.reputation.lookup eui).map Reputation.excluded).getD false

end VoteEngine

/-! ## The median -/

/-- The middle readings, and the floor of their mean. -/
theorem medianN_middle {M : Nat} {xs : List Nat} (hpos : 0 < min xs.length M) :
    ∃ a b, Middle (xs.take (min xs.length M)) a b ∧ medianN M xs = (a + b) / 2 := by
  have hlen : (xs.take (min xs.length M)).length = min xs.length M := by
    rw [List.length_take]
    omega
  refine ⟨_, _, (NthElement.sorting Nat).middle 0 hlen hpos, ?_⟩
  unfold medianN
  dsimp only
  rw [if_neg (by omega)]
  split
  · rfl
  · have hself : ∀ m : Nat, m = (m + m) / 2 := fun m => by omega
    exact hself _

/-- **The median is where a strict majority is.** -/
theorem medianN_mem {M : Nat} {xs : List Nat} {lo hi : Nat} (hM : xs.length ≤ M)
    (hmaj : xs.length < 2 * xs.countP (fun x => decide (lo ≤ x ∧ x ≤ hi))) :
    lo ≤ medianN M xs ∧ medianN M xs ≤ hi := by
  have hcount := List.countP_le_length (p := fun x => decide (lo ≤ x ∧ x ≤ hi)) (l := xs)
  obtain ⟨a, b, hmiddle, hm⟩ := medianN_middle (show 0 < min xs.length M by omega)
  rw [Nat.min_eq_left hM, List.take_length] at hmiddle
  obtain ⟨ha, hb⟩ := hmiddle.mem_interval hmaj
  rw [hm]
  omega

/-! ## Who reported -/

theorem collect_sublist (reported : BitVec 32) (ss : List Slot) (i : Nat) : (collect reported i ss).Sublist ss := by
  induction ss generalizing i with
  | nil => exact .slnil
  | cons s ss ih =>
    rw [collect]
    split
    · exact (ih (i + 1)).cons_cons s
    · exact (ih (i + 1)).cons s

theorem getLsbD_bit {i j : Nat} (hj : j < 32) : (bit i).getLsbD j = decide (j = i) := by
  simp only [bit, BitVec.getLsbD_shiftLeft, BitVec.getLsbD_one]
  by_cases hji : j = i
  · subst hji
    simp [hj]
  · by_cases hlt : j < i
    · simp [hji, hlt]
    · have : j - i ≠ 0 := by omega
      simp [hji, this]

theorem hasReported_eq (reported : BitVec 32) {i : Nat} (hi : i < 32) : hasReported reported i = reported.getLsbD i := by
  have hbit : ∀ j, j < 32 → (reported &&& bit i).getLsbD j = (reported.getLsbD j && decide (j = i)) := by
    intro j hj
    rw [BitVec.getLsbD_and, getLsbD_bit hj]
  unfold hasReported
  cases hb : reported.getLsbD i with
  | true =>
    have hne : reported &&& bit i ≠ 0#32 := by
      intro hz
      have := hbit i hi
      rw [hz, hb] at this
      simp at this
    simpa using hne
  | false =>
    have hz : reported &&& bit i = 0#32 := by
      refine BitVec.eq_of_getLsbD_eq fun j hj => ?_
      rw [hbit j hj, BitVec.getLsbD_zero]
      by_cases hji : j = i
      · subst hji
        simp [hb]
      · simp [hji]
    simp [hz]

theorem hasReported_or (reported : BitVec 32) (i : Nat) {j : Nat} (hj : j < 32) :
    hasReported (reported ||| bit i) j = (hasReported reported j || decide (j = i)) := by
  rw [hasReported_eq _ hj, hasReported_eq _ hj, BitVec.getLsbD_or, getLsbD_bit hj]

theorem mem_collect {reported : BitVec 32} {s : Slot} {ss : List Slot} {i : Nat} :
    s ∈ collect reported i ss ↔ ∃ j, ss[j]? = some s ∧ hasReported reported (i + j) = true := by
  induction ss generalizing i with
  | nil => simp [collect]
  | cons s' ss ih =>
    have hsplit : (∃ j, (s' :: ss)[j]? = some s ∧ hasReported reported (i + j) = true) ↔
        (s' = s ∧ hasReported reported i = true) ∨ ∃ j, ss[j]? = some s ∧ hasReported reported (i + 1 + j) = true := by
      constructor
      · rintro ⟨j, hj, hr⟩
        cases j with
        | zero => exact .inl ⟨by simpa using hj, hr⟩
        | succ j => exact .inr ⟨j, by simpa using hj, by rwa [show i + 1 + j = i + (j + 1) by omega]⟩
      · rintro (⟨rfl, hr⟩ | ⟨j, hj, hr⟩)
        · exact ⟨0, rfl, hr⟩
        · exact ⟨j + 1, by simpa using hj, by rwa [show i + (j + 1) = i + 1 + j by omega]⟩
    rw [hsplit, collect]
    split
    · rename_i hr
      rw [List.mem_cons, ih, eq_comm (a := s)]
      simp [hr]
    · rename_i hr
      rw [ih]
      simp [hr]

namespace VoteEngine

variable {M : Nat}

theorem nodup_reporters (e : VoteEngine M) : (e.reporters.map Slot.eui).Nodup :=
  e.distinct.sublist ((collect_sublist _ _ _).map _)

theorem length_reporters (e : VoteEngine M) : e.reporters.length ≤ M :=
  Nat.le_trans (collect_sublist _ _ _).length_le e.room

theorem reporters_openWindow (e : VoteEngine M) : e.openWindow.reporters = [] := by
  have hnone : ∀ (ss : List Slot) (i : Nat), collect 0#32 i ss = [] := by
    intro ss
    induction ss with
    | nil => exact fun _ => rfl
    | cons s ss ih => exact fun i => by rw [collect, if_neg (by simp [hasReported]), ih]
  exact hnone e.slots 0

/-- **A reading that is taken replaces the sensor's reading in this window**, and leaves the others'. -/
theorem mem_reporters_accumulate (hM : M ≤ 32) (e : VoteEngine M) (entry : Entry) (s : Slot) :
    s ∈ (e.accumulate entry).2.reporters ↔
      ((e.accumulate entry).1 = true ∧ s = entry.slot) ∨ (s ∈ e.reporters ∧ s.eui ≠ entry.eui) := by
  have hroom := e.room
  unfold accumulate
  split
  · rename_i i h
    obtain ⟨hi, heq, -⟩ := List.findIdx?_eq_some_iff_getElem.1 h
    have hkey : e.slots[i].eui = entry.eui := by simpa using heq
    -- no other slot has this EUI
    have honly : ∀ j (hj : j < e.slots.length), e.slots[j].eui = entry.eui → j = i := by
      intro j hj he
      have hlj : j < (e.slots.map Slot.eui).length := by simpa using hj
      have hli : i < (e.slots.map Slot.eui).length := by simpa using hi
      have hsame : (e.slots.map Slot.eui)[j] = (e.slots.map Slot.eui)[i] := by simp [he, hkey]
      exact e.distinct.getElem_inj_iff.1 hsame
    simp only [reporters, mem_collect, Nat.zero_add, true_and]
    constructor
    · rintro ⟨j, hj, hr⟩
      by_cases hji : j = i
      · subst hji
        rw [List.getElem?_set_self hi] at hj
        exact .inl (Option.some.inj hj).symm
      · rw [List.getElem?_set_ne (Ne.symm hji)] at hj
        obtain ⟨hlt, rfl⟩ := List.getElem?_eq_some_iff.1 hj
        rw [hasReported_or _ _ (by omega)] at hr
        exact .inr ⟨⟨j, hj, by simpa [hji] using hr⟩, fun he => hji (honly j hlt he)⟩
    · rintro (rfl | ⟨⟨j, hj, hr⟩, hne⟩)
      · exact ⟨i, List.getElem?_set_self hi, by rw [hasReported_or _ _ (by omega)]; simp⟩
      · obtain ⟨hlt, rfl⟩ := List.getElem?_eq_some_iff.1 hj
        have hji : j ≠ i := by
          rintro rfl
          exact hne hkey
        exact ⟨j, by rw [List.getElem?_set_ne (Ne.symm hji)]; exact hj,
          by rw [hasReported_or _ _ (by omega), hr]; rfl⟩
  · rename_i h
    have hnew : ∀ x ∈ e.slots, x.eui ≠ entry.eui := by
      intro x hx
      simpa using List.findIdx?_eq_none_iff.1 h x hx
    split
    · rename_i hlt
      simp only [reporters, mem_collect, Nat.zero_add, true_and]
      constructor
      · rintro ⟨j, hj, hr⟩
        rcases Nat.lt_or_ge j e.slots.length with hj' | hj'
        · rw [List.getElem?_append_left hj'] at hj
          rw [hasReported_or _ _ (by omega)] at hr
          refine .inr ⟨⟨j, hj, ?_⟩, hnew s (List.mem_of_getElem? hj)⟩
          simpa [Nat.ne_of_lt hj'] using hr
        · rw [List.getElem?_append_right hj'] at hj
          exact .inl (List.mem_singleton.1 (List.mem_of_getElem? hj))
      · rintro (rfl | ⟨⟨j, hj, hr⟩, -⟩)
        · exact ⟨e.slots.length, by simp, by rw [hasReported_or _ _ (by omega)]; simp⟩
        · have hj' := (List.getElem?_eq_some_iff.1 hj).1
          exact ⟨j, by rw [List.getElem?_append_left hj']; exact hj,
            by rw [hasReported_or _ _ (by omega), hr]; rfl⟩
    · simp only [Bool.false_eq_true, false_and, false_or]
      exact ⟨fun hs => ⟨hs, hnew s ((collect_sublist _ _ _).subset hs)⟩, fun hs => hs.1⟩

end VoteEngine

namespace VoteEngine

variable {M : Nat}

/-- A window from its start: the readings in the order they came in. -/
def window (e : VoteEngine M) (readings : List Entry) : VoteEngine M :=
  readings.foldl (fun e x => (e.accumulate x).2) e.openWindow

/-- **The reporters of a window are its latest readings**, one for each sensor that has a slot. -/
theorem mem_reporters_window (hM : M ≤ 32) (e : VoteEngine M) (readings : List Entry) (s : Slot) :
    s ∈ (e.window readings).reporters ↔ ∃ pre x post, readings = pre ++ x :: post ∧ s = x.slot ∧
      ((e.window pre).accumulate x).1 = true ∧ ∀ y ∈ post, y.eui ≠ x.eui := by
  induction readings using List.reverseRecOn with
  | nil => simp [window, reporters_openWindow]
  | append_singleton readings y ih =>
    have hstep : e.window (readings ++ [y]) = ((e.window readings).accumulate y).2 := by
      simp [window, List.foldl_append]
    rw [hstep, mem_reporters_accumulate hM, ih]
    constructor
    · rintro (⟨hok, rfl⟩ | ⟨⟨pre, x, post, rfl, rfl, hok, hpost⟩, hne⟩)
      · exact ⟨readings, y, [], rfl, rfl, hok, nofun⟩
      · refine ⟨pre, x, post ++ [y], by simp, rfl, hok, fun z hz => ?_⟩
        rcases List.mem_append.1 hz with hz | hz
        · exact hpost z hz
        · rw [List.mem_singleton.1 hz]
          exact Ne.symm hne
    · rintro ⟨pre, x, post, heq, rfl, hok, hpost⟩
      rcases List.eq_nil_or_concat post with rfl | ⟨post, z, rfl⟩
      · obtain ⟨rfl, rfl⟩ : readings = pre ∧ y = x := by simpa using List.append_inj' heq rfl
        exact .inl ⟨hok, rfl⟩
      · rw [List.concat_eq_append, ← List.cons_append, ← List.append_assoc] at heq
        obtain ⟨rfl, rfl⟩ : readings = pre ++ x :: post ∧ y = z := by simpa using List.append_inj' heq rfl
        refine .inr ⟨⟨pre, x, post, rfl, rfl, hok, fun z hz => hpost z (by simp [hz])⟩, ?_⟩
        exact Ne.symm (hpost y (by simp))

end VoteEngine

/-! ## One sensor at a time -/

namespace Standings

variable {M : Nat} {t : Standings M} {eui eui' : UInt64}

theorem judge_rows (t : Standings M) (eui : UInt64) (o : Bool) :
    (t.judge eui o).rows = t.rows.map (fun r => if r.eui = eui then r.judge o else r) := rfl

theorem lookup_judge_self (t : Standings M) (eui : UInt64) (o : Bool) :
    (t.judge eui o).lookup eui = (t.lookup eui).map (Reputation.judge o) := by
  unfold lookup
  rw [judge_rows]
  induction t.rows with
  | nil => rfl
  | cons r rows ih =>
    by_cases hr : r.eui = eui
    · simp [hr, Reputation.judge_eui]
    · simpa [hr] using ih

theorem lookup_judge_of_ne (t : Standings M) (hne : eui' ≠ eui) (o : Bool) :
    (t.judge eui o).lookup eui' = t.lookup eui' := by
  unfold lookup
  rw [judge_rows]
  induction t.rows with
  | nil => rfl
  | cons r rows ih =>
    by_cases hr : r.eui = eui
    · simpa [hr, Reputation.judge_eui, Ne.symm hne] using ih
    · by_cases hr' : r.eui = eui'
      · simp [hr', hne]
      · simpa [hr, hr'] using ih

/-- The row a sensor is judged by: its own, or a new one if there is room. -/
def Row (t : Standings M) (eui : UInt64) (rep : Option Reputation) : Prop :=
  rep = t.lookup eui ∨ (t.lookup eui = none ∧ rep = some { eui := eui })

theorem row_repFor (t : Standings M) (eui : UInt64) : t.Row eui ((t.repFor eui).lookup eui) := by
  unfold repFor
  split
  · rename_i hnew
    refine .inr ⟨hnew.1, ?_⟩
    have hnone : t.rows.find? (fun r => r.eui == eui) = none := hnew.1
    unfold lookup
    rw [List.find?_append, hnone]
    simp
  · exact .inl rfl

theorem lookup_repFor_of_ne (t : Standings M) (hne : eui' ≠ eui) : (t.repFor eui).lookup eui' = t.lookup eui' := by
  unfold repFor
  split
  · unfold lookup
    rw [List.find?_append]
    simp [Ne.symm hne]
  · rfl

theorem lookup_bounded {r : Reputation} (h : t.lookup eui = some r) : r.reputation ≤ maxReputation :=
  t.bounded r (List.mem_of_find?_eq_some h)

end Standings

/-- **What closing the window makes of one reading**: a row to judge it by, the entry made with the row once judged,
and that row in the table afterwards. -/
def Judged {M : Nat} (med : Nat) (t t' : Standings M) (s : Slot) (x : Entry) : Prop :=
  ∃ rep, t.Row s.eui rep ∧ t'.lookup s.eui = rep.map (Reputation.judge (s.isOutlier med)) ∧
    x = s.entry med (rep.map (Reputation.judge (s.isOutlier med)))

section

variable {M : Nat} {med : Nat} {t t' : Standings M}

theorem buildEntry_frame (s : Slot) (out : Batch) (t : Standings M) {eui : UInt64} (hne : eui ≠ s.eui) :
    (buildEntry s med out t).2.lookup eui = t.lookup eui := by
  unfold buildEntry
  dsimp only
  rw [Standings.lookup_judge_of_ne _ hne, Standings.lookup_repFor_of_ne _ hne]

theorem buildEntries_frame (ss : List Slot) (out : Batch) (t : Standings M) {eui : UInt64}
    (hne : eui ∉ ss.map Slot.eui) : (buildEntries med ss out t).2.lookup eui = t.lookup eui := by
  induction ss generalizing out t with
  | nil => rfl
  | cons s ss ih =>
    rw [List.map_cons, List.mem_cons, not_or] at hne
    rw [buildEntries]
    split
    · rfl
    · rw [ih _ _ hne.2, buildEntry_frame s out t hne.1]

/-- Other sensors' rows do not matter. -/
theorem Judged.congr {t₀ : Standings M} {s : Slot} {x : Entry} (h : Judged med t₀ t' s x)
    (heq : t₀.lookup s.eui = t.lookup s.eui) : Judged med t t' s x := by
  obtain ⟨rep, hrow, hrest⟩ := h
  refine ⟨rep, ?_, hrest⟩
  unfold Standings.Row at hrow ⊢
  rwa [heq] at hrow

/-- **The second loop**: with room for all, one entry per reporter, each as if it were alone. -/
theorem buildEntries_spec (ss : List Slot) (out : Batch) (t : Standings M) (hnodup : (ss.map Slot.eui).Nodup)
    (hroom : out.entries.length + ss.length ≤ M) :
    ∃ xs, (buildEntries med ss out t).1.entries = out.entries ++ xs ∧
      List.Forall₂ (Judged med t (buildEntries med ss out t).2) ss xs := by
  induction ss generalizing out t with
  | nil => exact ⟨[], by simp [buildEntries], .nil⟩
  | cons s ss ih =>
    rw [List.map_cons, List.nodup_cons] at hnodup
    rw [List.length_cons] at hroom
    rw [buildEntries, if_neg (by omega)]
    have hlen : (buildEntry s med out t).1.entries.length = out.entries.length + 1 := by
      simp [buildEntry]
    obtain ⟨xs, hentries, hall⟩ := ih (buildEntry s med out t).1 (buildEntry s med out t).2 hnodup.2 (by omega)
    refine ⟨s.entry med (((t.repFor s.eui).judge s.eui (s.isOutlier med)).lookup s.eui) :: xs, ?_, .cons ?_ ?_⟩
    · rw [hentries]
      simp [buildEntry]
    · refine ⟨(t.repFor s.eui).lookup s.eui, t.row_repFor s.eui, ?_, ?_⟩
      · rw [buildEntries_frame _ _ _ hnodup.1]
        exact Standings.lookup_judge_self _ _ _
      · rw [Standings.lookup_judge_self]
    · have hother : ∀ s' ∈ ss, s'.eui ≠ s.eui :=
        fun s' hs' he => hnodup.1 (he ▸ List.mem_map_of_mem (f := Slot.eui) hs')
      refine ((List.forall₂_and_left _ _).2 ⟨hother, hall⟩).imp ?_
      rintro s' x ⟨hne, hj⟩
      exact hj.congr (buildEntry_frame s out t hne)

end

/-! ## Closing the window -/

namespace VoteEngine

variable {M : Nat}

/-- The median of the window. -/
def median (e : VoteEngine M) : Nat := medianN M (e.reporters.map Slot.reading)

/-- **What closing a window returns**: with enough reporters one entry each, in the order of their slots. -/
theorem closeWindow_spec (e : VoteEngine M) (hmin : minReporters ≤ e.reporters.length) :
    ∃ batch, e.closeWindow.1 = some batch ∧
      List.Forall₂ (Judged e.median e.reputation e.closeWindow.2.reputation) e.reporters batch.entries := by
  obtain ⟨xs, hentries, hall⟩ : ∃ xs, (buildEntries e.median e.reporters {} e.reputation).1.entries = [] ++ xs ∧
      List.Forall₂ (Judged e.median e.reputation (buildEntries e.median e.reporters {} e.reputation).2) e.reporters xs :=
    buildEntries_spec e.reporters {} e.reputation e.nodup_reporters (by simpa using e.length_reporters)
  have hlen := hall.length_eq
  have hpos : ¬ (buildEntries e.median e.reporters {} e.reputation).1.entries.length = 0 := by
    rw [hentries]
    simp only [List.nil_append]
    unfold minReporters at hmin
    omega
  have hclose : e.closeWindow = (some (buildEntries e.median e.reporters {} e.reputation).1,
      { e with reported := 0#32, reputation := (buildEntries e.median e.reporters {} e.reputation).2 }) := by
    unfold closeWindow
    dsimp only
    rw [if_neg (by omega)]
    exact if_neg hpos
  refine ⟨(buildEntries e.median e.reporters {} e.reputation).1, by rw [hclose], ?_⟩
  rw [hclose, hentries]
  exact hall

theorem minReporters_le_of_closeWindow {e : VoteEngine M} {batch : Batch} (h : e.closeWindow.1 = some batch) :
    minReporters ≤ e.reporters.length := by
  by_contra hlt
  unfold closeWindow at h
  dsimp only at h
  rw [if_pos (by omega)] at h
  cases h

/-- A reading in an interval no wider than the tolerance, with a strict majority in it, is no outlier. -/
theorem not_outlier (e : VoteEngine M) {lo hi : Nat} (htol : hi - lo ≤ toleranceMm)
    (hmaj : e.reporters.length < 2 * e.reporters.countP (fun s => decide (lo ≤ s.reading ∧ s.reading ≤ hi)))
    {s : Slot} (hlo : lo ≤ s.reading) (hhi : s.reading ≤ hi) : s.isOutlier e.median = false := by
  have hmed : lo ≤ e.median ∧ e.median ≤ hi := by
    refine medianN_mem ?_ ?_
    · rw [List.length_map]
      exact e.length_reporters
    · rw [List.length_map, List.countP_map]
      exact hmaj
  simp only [Slot.isOutlier, decide_eq_false_iff_not, Nat.not_lt]
  omega

end VoteEngine

theorem Reputation.judge_clean {r : Reputation} (h : r.reputation ≤ maxReputation) :
    r.reputation ≤ (r.judge false).reputation ∧ ((r.judge false).excluded = true → r.excluded = true) := by
  constructor
  · show r.reputation ≤ clampReputation _
    unfold clampReputation
    unfold maxReputation minReputation reputationRecovery at *
    omega
  · intro hex
    simp only [judge, Bool.false_eq_true, if_false, Bool.and_eq_true] at hex
    exact hex.1

section

variable {M : Nat} {med : Nat} {t t' : Standings M} {s : Slot} {x : Entry}

theorem Judged.reading (h : Judged med t t' s x) : x.eui = s.eui ∧ x.waterLevelMm = s.reading := by
  obtain ⟨rep, -, -, rfl⟩ := h
  exact ⟨rfl, rfl⟩

/-- **What a reading near the median comes to**: its own quality unless the sensor is excluded, and no worse a standing. -/
theorem Judged.clean (h : Judged med t t' s x) (ho : s.isOutlier med = false) :
    ((x.detail = s.detail ∧ x.validity = s.validity) ∨ ((t'.lookup s.eui).map Reputation.excluded).getD false = true) ∧
    ((t.lookup s.eui).map Reputation.reputation).getD reputationInitial ≤
      ((t'.lookup s.eui).map Reputation.reputation).getD reputationInitial ∧
    (((t'.lookup s.eui).map Reputation.excluded).getD false = true →
      ((t.lookup s.eui).map Reputation.excluded).getD false = true) := by
  obtain ⟨rep, hrow, hlook, rfl⟩ := h
  rw [ho] at hlook ⊢
  refine ⟨?_, ?_⟩
  · rw [hlook]
    cases hex : ((rep.map (Reputation.judge false)).map Reputation.excluded).getD false with
    | true => exact .inr rfl
    | false => exact .inl (by simp only [Slot.entry, hex, ho, Bool.or_self, Bool.false_eq_true, if_false, and_self])
  · rw [hlook]
    rcases hrow with rfl | ⟨hnone, rfl⟩
    · cases hr : t.lookup s.eui with
      | none => exact ⟨Nat.le_refl _, id⟩
      | some r => exact Reputation.judge_clean (Standings.lookup_bounded hr)
    · rw [hnone]
      exact Reputation.judge_clean (r := { eui := s.eui }) (Nat.le_refl _)

end

/-- Related lists, item by item. -/
theorem exists_of_forall₂ {α β : Type*} {R : α → β → Prop} {as : List α} {bs : List β} (h : List.Forall₂ R as bs) :
    (∀ a ∈ as, ∃ b ∈ bs, R a b) ∧ ∀ b ∈ bs, ∃ a ∈ as, R a b := by
  induction h with
  | nil => exact ⟨nofun, nofun⟩
  | @cons a b as bs hab _ ih =>
    constructor
    · intro a' ha
      rcases List.mem_cons.1 ha with rfl | ha
      · exact ⟨b, List.mem_cons_self .., hab⟩
      · obtain ⟨b', hb, hR⟩ := ih.1 a' ha
        exact ⟨b', List.mem_cons_of_mem _ hb, hR⟩
    · intro b' hb
      rcases List.mem_cons.1 hb with rfl | hb
      · exact ⟨a, List.mem_cons_self .., hab⟩
      · obtain ⟨a', ha, hR⟩ := ih.2 b' hb
        exact ⟨a', List.mem_cons_of_mem _ ha, hR⟩

/-- **A strict majority of readings within the tolerance is not flagged**, and none of its sensors is penalised,
whatever the others report: an entry keeps the quality its reading came with, unless its sensor is excluded, which it
then was before; no reputation of the majority goes down. -/
theorem majority_unflagged {M : Nat} (e : VoteEngine M) (lo hi : Nat) (htol : hi - lo ≤ toleranceMm)
    (hmin : minReporters ≤ e.reporters.length)
    (hmaj : e.reporters.length < 2 * e.reporters.countP (fun s => decide (lo ≤ s.reading ∧ s.reading ≤ hi))) :
    ∃ batch, e.closeWindow.1 = some batch ∧ batch.entries.map Entry.eui = e.reporters.map Slot.eui ∧
      ∀ s ∈ e.reporters, lo ≤ s.reading → s.reading ≤ hi →
        (∀ x ∈ batch.entries, x.eui = s.eui →
          (x.detail = s.detail ∧ x.validity = s.validity) ∨ e.closeWindow.2.excluded s.eui = true) ∧
        e.reputationOf s.eui ≤ e.closeWindow.2.reputationOf s.eui ∧
        (e.closeWindow.2.excluded s.eui = true → e.excluded s.eui = true) := by
  obtain ⟨batch, hclose, hall⟩ := e.closeWindow_spec hmin
  have heuis : batch.entries.map Entry.eui = e.reporters.map Slot.eui := by
    have hkeys : List.Forall₂ (fun (s : Slot) (x : Entry) => s.eui = x.eui) e.reporters batch.entries :=
      hall.imp fun s x h => h.reading.1.symm
    have := (List.forall₂_map_left_iff (f := Slot.eui)).2 ((List.forall₂_map_right_iff (f := Entry.eui)).2 hkeys)
    rw [List.forall₂_eq_eq_eq] at this
    exact this.symm
  refine ⟨batch, hclose, heuis, fun s hs hlo hhi => ?_⟩
  have ho := e.not_outlier htol hmaj hlo hhi
  obtain ⟨hentry, hreporter⟩ := exists_of_forall₂ hall
  obtain ⟨y, -, hy⟩ := hentry s hs
  refine ⟨fun x hx hxs => ?_, (hy.clean ho).2⟩
  -- the entry with the sensor's EUI is its own
  obtain ⟨s', hs', hj⟩ := hreporter x hx
  obtain rfl : s' = s := List.inj_on_of_nodup_map e.nodup_reporters hs' hs (hj.reading.1.symm.trans hxs)
  exact (hj.clean ho).1

/-- Two sensors agree and the third reports something else. -/
def liar : VoteEngine 3 :=
  (VoteEngine.new 3).window [{ eui := 1, waterLevelMm := 500 }, { eui := 2, waterLevelMm := 650, detail := 8 },
    { eui := 3, waterLevelMm := 60000 }]

theorem majority_unflagged_liar :
    ∃ batch, liar.closeWindow.1 = some batch ∧ batch.entries.map Entry.eui = [1, 2, 3] ∧
      (∀ x ∈ batch.entries, x.eui = 2 → (x.detail = 8 ∧ x.validity = .good) ∨ liar.closeWindow.2.excluded 2 = true) ∧
      liar.reputationOf 2 ≤ liar.closeWindow.2.reputationOf 2 := by
  obtain ⟨batch, hclose, heuis, hall⟩ := majority_unflagged liar 500 700 (by decide) (by decide) (by decide)
  obtain ⟨hflag, hrep, -⟩ := hall ⟨2, 650, .good, 8, 0⟩ (by decide) (by decide) (by decide)
  exact ⟨batch, hclose, heuis.trans (by decide), hflag, hrep⟩

/-! ## The alert -/

namespace VoteEngine

variable {M : Nat}

theorem checkAlert_of_triggers {e : VoteEngine M} {batch : Batch} (h : batch.triggers = true) :
    (e.checkAlert batch).1 = true := by
  simp [checkAlert, h]

theorem checkAlert_of_not_triggers {e : VoteEngine M} {batch : Batch} (h : batch.triggers = false)
    (hactive : (e.checkAlert batch).2.alertActive = true) : e.alertActive = true := by
  cases ha : e.alertActive with
  | true => rfl
  | false => simp [checkAlert, h, ha] at hactive

end VoteEngine

/-- An entry that triggers is of a sensor that is not excluded and whose reading is no outlier. -/
theorem Judged.of_good {M : Nat} {med : Nat} {t t' : Standings M} {s : Slot} {x : Entry} (h : Judged med t t' s x)
    (hgood : x.validity = .good) : s.isOutlier med = false := by
  obtain ⟨rep, -, -, rfl⟩ := h
  cases ho : s.isOutlier med with
  | false => rfl
  | true =>
    simp only [Slot.entry, ho] at hgood
    split at hgood <;> cases hgood

/-- **Alerts follow the majority.**  With a strict majority of the readings below the threshold by more than the
tolerance, the batch does not trigger, so no alert is turned on; with a strict majority of sensors that are not
excluded and report good levels at or above the threshold, within the tolerance of each other, it does. -/
theorem alerts_follow_majority {M : Nat} (e : VoteEngine M) (batch : Batch) (hb : e.closeWindow.1 = some batch) :
    (e.reporters.length < 2 * e.reporters.countP (fun s => decide (s.reading < alertThresholdMm - toleranceMm)) →
      batch.triggers = false ∧
        ∀ x : VoteEngine M, (x.checkAlert batch).2.alertActive = true → x.alertActive = true) ∧
    ∀ honest : Slot → Bool, e.reporters.length < 2 * e.reporters.countP honest →
      (∀ s ∈ e.reporters, honest s = true → e.excluded s.eui = false ∧ s.validity = .good ∧ alertThresholdMm ≤ s.reading) →
      (∀ s ∈ e.reporters, ∀ s' ∈ e.reporters, honest s = true → honest s' = true → s'.reading - s.reading ≤ toleranceMm) →
      ∀ x : VoteEngine M, (x.checkAlert batch).1 = true := by
  have hmin := VoteEngine.minReporters_le_of_closeWindow hb
  obtain ⟨batch', hclose, hall⟩ := e.closeWindow_spec hmin
  obtain rfl : batch' = batch := Option.some.inj (hclose.symm.trans hb)
  obtain ⟨hentry, hreporter⟩ := exists_of_forall₂ hall
  constructor
  · intro hlow
    have hmed : e.median < alertThresholdMm - toleranceMm := by
      have hmem : 0 ≤ e.median ∧ e.median ≤ alertThresholdMm - toleranceMm - 1 := by
        refine medianN_mem ?_ ?_
        · rw [List.length_map]
          exact e.length_reporters
        · rw [List.length_map, List.countP_map]
          refine Nat.lt_of_lt_of_le hlow (Nat.mul_le_mul_left 2 (List.countP_mono_left fun s _ hs => ?_))
          simp only [decide_eq_true_eq, Function.comp_apply] at hs ⊢
          exact ⟨Nat.zero_le _, Nat.le_sub_one_of_lt hs⟩
      unfold alertThresholdMm toleranceMm at *
      omega
    have hno : batch'.triggers = false := by
      refine List.any_eq_false.2 fun x hx htrig => ?_
      simp only [Bool.and_eq_true, decide_eq_true_eq] at htrig
      obtain ⟨s, -, hj⟩ := hreporter x hx
      have ho := hj.of_good htrig.1
      rw [hj.reading.2] at htrig
      simp only [Slot.isOutlier, decide_eq_false_iff_not, Nat.not_lt] at ho
      unfold alertThresholdMm toleranceMm at *
      omega
    exact ⟨hno, fun x => VoteEngine.checkAlert_of_not_triggers hno⟩
  · intro honest hmaj hgood hnear x
    classical
    -- the lowest of them: the others are at most the tolerance above it
    have hsome : ∃ r, ∃ s ∈ e.reporters, honest s = true ∧ s.reading = r := by
      obtain ⟨s, hs, hh⟩ := List.countP_pos_iff.1 (show 0 < e.reporters.countP honest by omega)
      exact ⟨_, s, hs, hh, rfl⟩
    obtain ⟨s, hs, hh, hr⟩ := Nat.find_spec hsome
    have hlow : ∀ s' ∈ e.reporters, honest s' = true → s.reading ≤ s'.reading ∧ s'.reading ≤ s.reading + toleranceMm := by
      intro s' hs' hh'
      have hle := Nat.find_min' hsome ⟨s', hs', hh', rfl⟩
      have hnear := hnear s hs s' hs' hh hh'
      omega
    have hmaj' : e.reporters.length < 2 * e.reporters.countP
        (fun s' => decide (s.reading ≤ s'.reading ∧ s'.reading ≤ s.reading + toleranceMm)) := by
      refine Nat.lt_of_lt_of_le hmaj (Nat.mul_le_mul_left 2 (List.countP_mono_left fun s' hs' hh' => ?_))
      exact decide_eq_true (hlow s' hs' hh')
    have ho := e.not_outlier (by omega) hmaj' (Nat.le_refl s.reading) (Nat.le_add_right _ _)
    obtain ⟨hex, hvalid, hlevel⟩ := hgood s hs hh
    obtain ⟨y, hy, hj⟩ := hentry s hs
    obtain ⟨hquality, -, hstays⟩ := hj.clean ho
    refine VoteEngine.checkAlert_of_triggers (List.any_eq_true.2 ⟨y, hy, ?_⟩)
    have hkept : y.validity = .good := by
      rcases hquality with ⟨-, hv⟩ | hex'
      · rw [hv, hvalid]
      · exact absurd (hstays hex') (by rw [← VoteEngine.excluded, hex]; exact Bool.false_ne_true)
    simp only [Bool.and_eq_true, decide_eq_true_eq]
    exact ⟨hkept, hj.reading.2 ▸ hlevel⟩

/-- Two sensors see the flood, the third does not. -/
def flood : VoteEngine 3 :=
  (VoteEngine.new 3).window [{ eui := 1, waterLevelMm := 1500 }, { eui := 2, waterLevelMm := 1700 },
    { eui := 3, waterLevelMm := 0 }]

theorem alerts_follow_majority_flood :
    ∃ batch, flood.closeWindow.1 = some batch ∧ (flood.closeWindow.2.checkAlert batch).1 = true := by
  have hbatch : flood.closeWindow.1 = some (flood.closeWindow.1.getD {}) := by decide
  refine ⟨_, hbatch, (alerts_follow_majority flood _ hbatch).2 (fun s => decide (1500 ≤ s.reading)) ?_ ?_ ?_ _⟩
  · decide
  · decide
  · decide

end Vote
end FloodEws
