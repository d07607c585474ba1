import FloodEws.Cadence
import FloodEws.Replica
/-!
# Provenance — from the sensors to the alert

In front of the engine of each fog node stand the endpoint that the sensors send their signed readings to and the vote
service that makes batches of them.  A batch is submitted as the bytes of a struct, goes through the log of whatever node
leads, and comes out at every node.

So every batch that a node applies was filed by the vote service of some node, has the readings of three sensors, and each
of these came in at that node in a datagram signed with the key of its sensor (`applied_batch_signed`); and no node sends
an alert because of one sensor alone (`alert_needs_two`).
-/
namespace FloodEws

open Layout (number)
open Raft (Byte word flag fixed)

namespace Vote

/-! ## A batch as data of an entry -/

namespace Validity

/-- The byte of the enumerator. -/
def code : Validity → Nat
  | good => 0
  | invalid => 1
  | questionable => 2
  | other code => code.toNat

def ofCode : Nat → Validity
  | 0 => good
  | 1 => invalid
  | 2 => questionable
  | n => other (.ofNat n)

/-- A byte that is no enumerator stands for none of them. -/
def Proper : Validity → Prop
  | other code => 2 < code.toNat
  | _ => True

theorem proper_ofCode {n : Nat} (h : n < 256) : (ofCode n).Proper := by
  match n with
  | 0 => trivial
  | 1 => trivial
  | 2 => trivial
  | n + 3 =>
    show 2 < (UInt8.ofNat (n + 3)).toNat
    rw [UInt8.toNat_ofNat']
    omega

theorem code_lt (v : Validity) : v.code < 256 := by
  cases v with
  | other code => exact code.toNat_lt
  | _ => decide

theorem ofCode_code {v : Validity} (h : v.Proper) : ofCode v.code = v := by
  cases v with
  | other code =>
    have hlt : 2 < code.toNat := h
    unfold ofCode Validity.code
    dsimp only
    split
    · omega
    · omega
    · omega
    · rw [UInt8.ofNat_toNat]
  | _ => rfl

end Validity

namespace Entry

/-- The fields of `SensorReadingWire`. -/
def fields : List (Nat × Nat) := [Ingress.u64, Ingress.u64, Ingress.u16, Ingress.u8, Ingress.u8, Ingress.u32]

def values (x : Entry) : List (List Byte) :=
  [word 8 x.eui.toNat, word 8 x.timestamp.toNat, word 2 x.waterLevelMm, word 1 x.validity.code, word 1 x.detail.toNat,
    word 4 x.seq.toNat]

/-- The struct has no padding. -/
def image (x : Entry) : List Byte := Layout.image (fun _ => 0) fields x.values

def read (bytes : List Byte) : Entry :=
  { eui := .ofNat (number (Layout.field fields 0 bytes))
    timestamp := .ofNat (number (Layout.field fields 1 bytes))
    waterLevelMm := number (Layout.field fields 2 bytes)
    validity := .ofCode (number (Layout.field fields 3 bytes))
    detail := .ofNat (number (Layout.field fields 4 bytes))
    seq := .ofNat (number (Layout.field fields 5 bytes)) }

/-- It fits the struct. -/
def Small (x : Entry) : Prop := x.waterLevelMm < 2 ^ 16 ∧ x.validity.Proper

theorem fits (x : Entry) : Layout.Fits fields x.values := by
  simp [Layout.Fits, fields, values, Ingress.u64, Ingress.u32, Ingress.u16, Ingress.u8]

theorem length_image (x : Entry) : x.image.length = 24 := Layout.length_image _ x.fits

/-- **A reading is read back.** -/
theorem read_image {x : Entry} (h : x.Small) : read x.image = x := by
  have hread : ∀ i bytes, x.values[i]? = some bytes → Layout.field fields i x.image = bytes :=
    fun i bytes hb => Layout.field_image _ x.fits hb
  obtain ⟨eui, timestamp, level, validity, detail, seq⟩ := x
  obtain ⟨hlevel, hproper⟩ := h
  have hbyte : ∀ n, n < 256 → number (word 1 n) = n := fun n hn => Layout.number_littleEndian_of_lt (by omega)
  unfold read
  rw [hread 0 _ rfl, hread 1 _ rfl, hread 2 _ rfl, hread 3 _ rfl, hread 4 _ rfl, hread 5 _ rfl,
    Raft.number_word8 eui.toNat_lt, Raft.number_word8 timestamp.toNat_lt, Raft.number_word2 hlevel,
    hbyte _ validity.code_lt, hbyte _ detail.toNat_lt, Raft.number_word4 seq.toNat_lt, Validity.ofCode_code hproper,
    UInt64.ofNat_toNat, UInt64.ofNat_toNat, UInt8.ofNat_toNat, UInt32.ofNat_toNat]

/-- What is read fits the struct. -/
theorem small_read (bytes : List Byte) : (read bytes).Small := by
  have hlt : ∀ i w, (fields.map Prod.fst).getD i 0 = w → number (Layout.field fields i bytes) < 256 ^ w := by
    intro i w hw
    refine (Layout.number_lt _).trans_le (Nat.pow_le_pow_right (by decide) ?_)
    unfold Layout.field Bytes.slice
    rw [List.length_take, hw]
    exact Nat.min_le_left _ _
  exact ⟨hlt 2 2 rfl, Validity.proper_ofCode (hlt 3 1 rfl)⟩

end Entry

namespace Batch

/-- The three slots, the count and the flag of `SensorBatch`; slots that are not used are zero. -/
def values (b : Batch) : List (List Byte) :=
  [fixed 72 (b.entries.flatMap Entry.image), word 1 b.entries.length, flag b.alertActive]

def image (gap : Nat → Byte) (b : Batch) : List Byte := Layout.image gap Raft.batchFields b.values

def read (bytes : List Byte) : Batch :=
  { entries := (List.range (number (Layout.field Raft.batchFields 1 bytes))).map
      (fun i => .read (Bytes.slice (Layout.field Raft.batchFields 0 bytes) (24 * i) 24))
    alertActive := Raft.readFlag (Layout.field Raft.batchFields 2 bytes) }

/-- It fits the struct. -/
def Small (b : Batch) : Prop := b.entries.length ≤ 3 ∧ ∀ x ∈ b.entries, x.Small

theorem fits (b : Batch) : Layout.Fits Raft.batchFields b.values := by
  refine .cons ⟨by decide, Raft.length_fixed 72 _⟩ (.cons ⟨by decide, ?_⟩ (.cons ⟨by decide, ?_⟩ .nil))
  · exact Bytes.length_littleEndian 1 _
  · rfl

theorem length_image (gap : Nat → Byte) (b : Batch) : (b.image gap).length = Raft.batchSize :=
  Layout.length_image gap b.fits

/-- **A batch is read back from the log.** -/
theorem read_image (gap : Nat → Byte) {b : Batch} (h : b.Small) : read (b.image gap) = b := by
  have hread : ∀ i bytes, b.values[i]? = some bytes → Layout.field Raft.batchFields i (b.image gap) = bytes :=
    fun i bytes hb => Layout.field_image gap b.fits hb
  obtain ⟨entries, alertActive⟩ := b
  obtain ⟨hlen, hsmall⟩ := h
  have hcount : number (word 1 entries.length) = entries.length := by
    refine Layout.number_littleEndian_of_lt ?_
    have hlen : entries.length ≤ 3 := hlen
    omega
  unfold read
  rw [hread 0 _ rfl, hread 1 _ rfl, hread 2 _ rfl, hcount, Raft.readFlag_flag]
  refine congrArg (fun xs => Batch.mk xs alertActive) (List.ext_getElem? (fun i => ?_))
  rw [List.getElem?_map]
  rcases Nat.lt_or_ge i entries.length with hi | hi
  · have hlen : entries.length ≤ 3 := hlen
    have hslot : entries[i]? = some entries[i] := List.getElem?_eq_getElem hi
    have hslice := Bytes.slice_flatMap (f := Entry.image) Entry.length_image entries i _ hslot
    have htotal := Bytes.length_flatMap_blocks (f := Entry.image) Entry.length_image entries
    have hfixed : Bytes.slice (fixed 72 (entries.flatMap Entry.image)) (24 * i) 24 =
        Bytes.slice (entries.flatMap Entry.image) (24 * i) 24 := Raft.slice_fixed (by omega) (by omega)
    rw [List.getElem?_range hi, Option.map_some, hfixed, hslice, Entry.read_image (hsmall _ (List.getElem_mem hi)), hslot]
  · rw [List.getElem?_eq_none (by simpa using hi), List.getElem?_eq_none hi]
    rfl

/-- `check_alert` sees the flag of the batch. -/
theorem batchAlert_image (gap : Nat → Byte) (b : Batch) : Raft.batchAlert (b.image gap) = b.alertActive := by
  have hlen : (b.image gap).length = 80 := b.length_image gap
  have hslice : Layout.field Raft.batchFields 2 (fixed 96 (b.image gap)) = Layout.field Raft.batchFields 2 (b.image gap) :=
    Raft.slice_fixed (o := 73) (w := 1) (by omega) (by omega)
  unfold Raft.batchAlert
  rw [hslice]
  show Raft.readFlag (Layout.field Raft.batchFields 2 (Layout.image gap Raft.batchFields b.values)) = _
  rw [Layout.field_image gap b.fits (i := 2) rfl, Raft.readFlag_flag]

end Batch

/-! ## What it takes to trigger -/

namespace VoteEngine

variable {M : Nat}

/-- An entry that is good was made from a reading that was, and that is no outlier. -/
theorem good_of_judged {med : Nat} {t t' : Standings M} {s : Slot} {x : Entry} (h : Judged med t t' s x)
    (hgood : x.validity = .good) : s.validity = .good := by
  have ho := h.of_good hgood
  obtain ⟨rep, -, -, rfl⟩ := h
  simp only [Slot.entry, ho] at hgood
  split at hgood
  · cases hgood
  · exact hgood

/-- **A batch that triggers** has a good reading at or above the threshold, and a second sensor reported a level no
further below the threshold than the tolerance. -/
theorem triggers_two {e : VoteEngine M} {batch : Batch} (hb : e.closeWindow.1 = some batch) (ht : batch.triggers = true) :
    ∃ s ∈ e.reporters, ∃ s' ∈ e.reporters, s.eui ≠ s'.eui ∧ s.validity = .good ∧ alertThresholdMm ≤ s.reading ∧
      alertThresholdMm - toleranceMm ≤ s'.reading := by
  have hmin := minReporters_le_of_closeWindow hb
  obtain ⟨batch', hclose, hall⟩ := e.closeWindow_spec hmin
  obtain rfl : batch' = batch := Option.some.inj (hclose.symm.trans hb)
  obtain ⟨y, hy, htrig⟩ := List.any_eq_true.1 ht
  simp only [Bool.and_eq_true, decide_eq_true_eq] at htrig
  obtain ⟨hgood, hlevel⟩ := htrig
  obtain ⟨s, hs, hj⟩ := (exists_of_forall₂ hall).2 y hy
  have ho := hj.of_good hgood
  rw [hj.reading.2] at hlevel
  -- Were less than half of the levels that high, the median would be too low for `s` to be no outlier.
  have hhalf : e.reporters.length ≤
      2 * e.reporters.countP (fun s => decide (alertThresholdMm - toleranceMm ≤ s.reading)) := by
    by_contra hfew
    have hsplit := List.length_eq_countP_add_countP
      (fun s : Slot => decide (alertThresholdMm - toleranceMm ≤ s.reading)) (l := e.reporters)
    have hmed : 0 ≤ e.median ∧ e.median ≤ alertThresholdMm - toleranceMm - 1 := by
      refine medianN_mem ?_ ?_
      · rw [List.length_map]
        exact e.length_reporters
      · have hlow : e.reporters.countP (fun s => decide (¬ decide (alertThresholdMm - toleranceMm ≤ s.reading) = true)) ≤
            e.reporters.countP ((fun x => decide (0 ≤ x ∧ x ≤ alertThresholdMm - toleranceMm - 1)) ∘ Slot.reading) := by
          refine List.countP_mono_left fun s _ hlt => ?_
          simp only [decide_eq_true_eq, Nat.not_le, Function.comp_apply] at hlt ⊢
          exact ⟨Nat.zero_le _, Nat.le_sub_one_of_lt hlt⟩
        rw [List.length_map, List.countP_map]
        omega
    simp only [Slot.isOutlier, decide_eq_false_iff_not, Nat.not_lt] at ho
    unfold alertThresholdMm toleranceMm at *
    omega
  -- So at least two are, and `s` is not both of them.
  obtain ⟨high, hhigh⟩ : ∃ high,
      high = e.reporters.filter (fun s => decide (alertThresholdMm - toleranceMm ≤ s.reading)) := ⟨_, rfl⟩
  have htwo : 2 ≤ high.length := by
    rw [hhigh, ← List.countP_eq_length_filter]
    unfold minReporters at hmin
    omega
  have hnodup : high.Nodup := hhigh ▸ (e.nodup_reporters.of_map _).filter _
  obtain ⟨s', hs', hne⟩ : ∃ s' ∈ high, s' ≠ s := by
    by_contra hall
    have hsub : high ⊆ [s] := fun s' hs' => List.mem_singleton.2 (by
      by_contra hne
      exact hall ⟨s', hs', hne⟩)
    have hle := (hnodup.subperm hsub).length_le
    rw [List.length_singleton] at hle
    omega
  rw [hhigh] at hs'
  obtain ⟨hmem, hlevel'⟩ := List.mem_filter.1 hs'
  exact ⟨s, hs, s', hmem, fun he => hne (List.inj_on_of_nodup_map e.nodup_reporters hmem hs he.symm),
    good_of_judged hj hgood, hlevel, of_decide_eq_true hlevel'⟩

theorem mem_takenFrom {x : Entry} (calls : List Call) {e : VoteEngine M} {xs : List Entry}
    (h : x ∈ e.takenFrom xs calls) : x ∈ xs ∨ .accumulate x ∈ calls := by
  induction calls generalizing e xs with
  | nil => exact .inl h
  | cons c calls ih =>
    rcases ih h with h | h
    · cases c with
      | accumulate entry =>
        by_cases hok : (e.accumulate entry).1 = true
        · rw [take, if_pos hok] at h
          rcases List.mem_cons.1 h with rfl | h
          · exact .inr List.mem_cons_self
          · exact .inl h
        · rw [take, if_neg hok] at h
          exact .inl h
      | openWindow => cases h
      | closeWindow => cases h
      | checkAlert batch => exact .inl h
    · exact .inr (List.mem_cons_of_mem c h)

theorem mem_latest {x : Entry} : ∀ {xs : List Entry}, x ∈ latest xs → x ∈ xs
  | [], h => h
  | _ :: _, h => by
    rcases mem_latest_cons.1 h with rfl | ⟨h, -⟩
    · exact List.mem_cons_self
    · exact List.mem_cons_of_mem _ (mem_latest h)

/-- Every reporter is the slot of a reading that was accumulated. -/
theorem reporter_accumulated (hM : M ≤ 32) {calls : List Call} {s : Slot} (h : s ∈ ((new M).run calls).reporters) :
    ∃ e, .accumulate e ∈ calls ∧ e.slot = s := by
  obtain ⟨e, he, hslot⟩ := List.mem_map.1 ((heard_run hM calls s).1 h)
  rcases mem_takenFrom calls (mem_latest he) with h | h
  · cases h
  · exact ⟨e, h, hslot⟩

end VoteEngine

/-- What a batch says, given the readings that were received. -/
structure Batch.Founded (H : Entry → Prop) (b : Batch) : Prop where
  three : b.entries.length = 3
  distinct : (b.entries.map Entry.eui).Nodup
  small : ∀ x ∈ b.entries, x.Small
  received : ∀ x ∈ b.entries, ∃ e, H e ∧ x.report = e.slot.report ∧ (x.validity = .good → e.validity = .good)
  alert : b.alertActive = true → ∃ e e', H e ∧ H e' ∧ e.eui ≠ e'.eui ∧ e.validity = .good ∧
    alertThresholdMm ≤ e.waterLevelMm ∧ alertThresholdMm - toleranceMm ≤ e'.waterLevelMm

theorem Batch.Founded.mono {H H' : Entry → Prop} (hH : ∀ e, H e → H' e) {b : Batch} (h : b.Founded H) : b.Founded H' where
  three := h.three
  distinct := h.distinct
  small := h.small
  received x hx := by
    obtain ⟨e, he, hreport⟩ := h.received x hx
    exact ⟨e, hH e he, hreport⟩
  alert ha := by
    obtain ⟨e, e', he, he', hrest⟩ := h.alert ha
    exact ⟨e, e', hH e he, hH e' he', hrest⟩

namespace VoteService

variable {M : Nat}

/-- The batch that the action hands to `m_submit`: it is then the first of `submitted`. -/
def batchOf (s : VoteService M) : ServiceAct → Option Batch
  | .submitBatch => match s.closing with
    | .closed (some batch) _ => some { batch with alertActive := (s.engine.checkAlert batch).1 }
    | _ => none
  | _ => none

/-- What the engine has been told goes on. -/
theorem calls_exec (s : VoteService M) (a : ServiceAct) (ha : ∀ entry, a ≠ .accumulate entry) (entry : Entry) :
    .accumulate entry ∈ ((sys M).exec s a).calls → .accumulate entry ∈ s.calls := by
  have htell : ∀ c : Call, c ≠ .accumulate entry → .accumulate entry ∈ s.calls ++ [c] → .accumulate entry ∈ s.calls := by
    intro c hc h
    rcases List.mem_append.1 h with h | h
    · exact h
    · exact absurd (List.mem_singleton.1 h).symm hc
  cases a with
  | accumulate x => exact absurd rfl (ha x)
  | windowStart now => exact htell _ nofun
  | closeWindow => exact htell _ nofun
  | submitBatch =>
    show .accumulate entry ∈ s.submitBatch.calls → _
    unfold submitBatch
    split
    · exact htell _ nofun
    · exact id
    · exact id
  | rearm now =>
    show .accumulate entry ∈ (s.rearm now).calls → _
    unfold rearm
    split <;> exact id
  | _ => exact id

/-- **A batch that is handed over says what was received.** -/
theorem Served.founded {s : VoteService 3} (h : Served s) {H : Entry → Prop}
    (hH : ∀ e, .accumulate e ∈ s.calls → H e ∧ e.Small) {a : ServiceAct} {b : Batch} (hb : s.batchOf a = some b) :
    b.Founded H := by
  obtain ⟨batch, n, hclosing, rfl⟩ : ∃ batch n, s.closing = .closed (some batch) n ∧
      b = { batch with alertActive := (s.engine.checkAlert batch).1 } := by
    unfold batchOf at hb
    split at hb
    · split at hb
      · rename_i batch n hclosing
        exact ⟨batch, n, hclosing, (Option.some.inj hb).symm⟩
      · cases hb
    · cases hb
  obtain ⟨pre, hpre, hclose⟩ := h.closing batch n hclosing
  have hheard : ∀ (pre : List Call) {s' : Slot}, pre ++ [.closeWindow] <+: s.calls →
      s' ∈ ((VoteEngine.new 3).run pre).reporters → ∃ e, H e ∧ e.Small ∧ e.slot = s' := by
    intro pre s' hpre hs'
    obtain ⟨e, he, hslot⟩ := VoteEngine.reporter_accumulated (by decide) hs'
    obtain ⟨hHe, hsmall⟩ := hH e (hpre.subset (List.mem_append_left _ he))
    exact ⟨e, hHe, hsmall, hslot⟩
  have hmin := VoteEngine.minReporters_le_of_closeWindow hclose
  obtain ⟨batch', hclose', hall⟩ := ((VoteEngine.new 3).run pre).closeWindow_spec hmin
  obtain rfl : batch' = batch := Option.some.inj (hclose'.symm.trans hclose)
  have hreports := VoteEngine.closeWindow_reports hclose
  have hentry : ∀ x ∈ batch'.entries, ∃ e, H e ∧ e.Small ∧ x.report = e.slot.report ∧
      (x.validity = .good → e.validity = .good) ∧ x.waterLevelMm = e.waterLevelMm ∧
      (x.validity = .invalid ∨ x.validity = .questionable ∨ x.validity = e.validity) := by
    intro x hx
    obtain ⟨s', hs', hj⟩ := (exists_of_forall₂ hall).2 x hx
    obtain ⟨e, hHe, hsmall, rfl⟩ := hheard pre hpre hs'
    refine ⟨e, hHe, hsmall, hj.report, fun hgood => VoteEngine.good_of_judged hj hgood, hj.reading.2, ?_⟩
    obtain ⟨rep, -, -, rfl⟩ := hj
    simp only [Slot.entry]
    split
    · exact .inl rfl
    · split
      · exact .inr (.inl rfl)
      · exact .inr (.inr rfl)
  constructor
  · have hlen := congrArg List.length hreports
    have hle := ((VoteEngine.new 3).run pre).length_reporters
    rw [List.length_map, List.length_map] at hlen
    unfold minReporters at hmin
    show batch'.entries.length = 3
    omega
  · have heuis := congrArg (List.map Prod.fst) hreports
    rw [List.map_map, List.map_map] at heuis
    show (batch'.entries.map (Prod.fst ∘ Entry.report)).Nodup
    rw [heuis]
    exact ((VoteEngine.new 3).run pre).nodup_reporters
  · intro x hx
    obtain ⟨e, -, hsmall, -, -, hlevel, hvalid⟩ := hentry x hx
    refine ⟨hlevel ▸ hsmall.1, ?_⟩
    rcases hvalid with hv | hv | hv <;> rw [hv]
    · trivial
    · trivial
    · exact hsmall.2
  · intro x hx
    obtain ⟨e, hHe, -, hreport, hgood, -⟩ := hentry x hx
    exact ⟨e, hHe, hreport, hgood⟩
  · intro hactive
    have hlatch : true ∈ ((batch' :: (Vote.checked s.calls).reverse).take alertClearWindows).map Batch.triggers :=
      (h.engine ▸ checkAlert_run s.calls batch').1 (h.engine ▸ hactive)
    obtain ⟨b, hb, htriggers⟩ := List.mem_map.1 hlatch
    obtain ⟨pre, hpre, hclose⟩ : Origin (M := 3) s.calls b := by
      rcases List.mem_cons.1 (List.mem_of_mem_take hb) with rfl | hold
      · exact h.closing _ n hclosing
      · exact h.checked b (List.mem_reverse.1 hold)
    obtain ⟨s₁, hs₁, s₂, hs₂, hne, hgood, hhigh, hnear⟩ := VoteEngine.triggers_two hclose htriggers
    obtain ⟨e₁, hH₁, -, rfl⟩ := hheard pre hpre hs₁
    obtain ⟨e₂, hH₂, -, rfl⟩ := hheard pre hpre hs₂
    exact ⟨e₁, e₂, hH₁, hH₂, hne, hgood, hhigh, hnear⟩

end VoteService

end Vote

namespace Raft

open Ingress (psaSuccess readingSize sigLen)
open Vote (Batch ServiceAct VoteService)

/-! ## The nodes with their sensors -/

/-- A datagram on the endpoint of the sensors, and the network time it came in at. -/
structure SensorMsg where
  bytes : List Byte
  timeUs : Nat

namespace SensorMsg

/-- The reading that `m_on_reading` is handed. -/
def reading (r : SensorMsg) : Ingress.Reading := ⟨Bytes.slice r.bytes 0 readingSize, r.timeUs⟩

/-- The EUI it claims. -/
def eui (r : SensorMsg) : Nat := Ingress.u64At 0 r.bytes

/-- The water level in it. -/
def level (r : SensorMsg) : Nat := Layout.number (Bytes.slice r.bytes 16 2)

/-- It is signed with the key that the node has for the EUI. -/
def Signed (D : Deployment) (n : Nat) (r : SensorMsg) : Prop :=
  (D.store n).verify D.psa r.eui (Bytes.slice r.bytes 0 readingSize) (Bytes.slice r.bytes readingSize sigLen) =
    psaSuccess

end SensorMsg

/-- The reading as the vote service takes it: the network time stands in the place of the timestamp. -/
def entryOf (reading : Ingress.Reading) : Vote.Entry :=
  { Vote.Entry.read reading.bytes with timestamp := .ofNat reading.timestamp }

/-- What stands in front of the engine of a node: the replay table of the sensor service, and the vote service. -/
structure Intake where
  replay : Sensor.SensorReplayDetection := {}
  service : VoteService 3 := {}

/-- `on_reading`, and the callback that feeds the vote service. -/
def Intake.receive (D : Deployment) (n : Nat) (r : SensorMsg) (t : Intake) : Intake :=
  let (reading, replay) := Ingress.sensorRequestHandler D.psa (D.store n) true r.timeUs r.bytes t.replay
  { replay := replay
    service := match reading with
      | none => t.service
      | some reading => t.service.tell (.accumulate (entryOf reading)) }

/-- The fog nodes with all that is in front of their engines.  `heard` records the datagrams of the sensors with the nodes
they came in at, `filed` the batches that were submitted with the nodes that did. -/
structure Basin where
  fog : Fog
  intake : Nat → Intake := fun _ => {}
  heard : List (Nat × SensorMsg) := []
  filed : List (Nat × Batch) := []

inductive BasinAct where
  | fog (a : FogAction)
  | report (n : Nat) (r : SensorMsg)
  | serve (n : Nat) (a : ServiceAct) (env : Env) (how : Manner) (hooks : Nat → Egress.Hooks)

/-- The step of the fog nodes: a batch that is handed over is submitted. -/
def Basin.fogStep (x : Basin) : BasinAct → Option FogAction
  | .fog a => some a
  | .report _ _ => none
  | .serve n a env how hooks => ((x.intake n).service.batchOf a).map
      (fun b => .step (.task n env (.submit .sensorData (b.image env.gap)) how) hooks)

/-- The node that boots in the step. -/
def FogAction.boots : FogAction → Option Nat
  | .step (.boot n _) _ => some n
  | _ => none

/-- The data of a record of the coordinator. -/
def IsRecord (type : EntryType) (data : List Byte) : Prop :=
  type = .egressMsg ∧ data.length = Egress.EgressRecord.size

def Answer.Records : Answer → Prop
  | .go => True
  | .submit type data => IsRecord type data

/-- What the callbacks submit are records. -/
def Manner.Records (how : Manner) : Prop := ∀ ans ∈ how.answers, ans.Records

/-- What the step submits, if anything, are records. -/
def FogAction.Records : FogAction → Prop
  | .step (.task _ _ (.submit type data) how) _ => IsRecord type data ∧ how.Records
  | .step (.task _ _ _ how) _ => how.Records
  | _ => True

/-- What stands in front of the engines after the step, of nodes that do not boot. -/
def Basin.taken (D : Deployment) (x : Basin) : BasinAct → Nat → Intake
  | .fog _ => x.intake
  | .report n r => Function.update x.intake n ((x.intake n).receive D n r)
  | .serve n a _ _ _ =>
    Function.update x.intake n { x.intake n with service := (VoteService.sys 3).exec (x.intake n).service a }

namespace Deployment

variable (D : Deployment)

/-- Batches are submitted by the vote services alone, and these are fed by their sensor service alone.  What else calls a
vote service, such as the application when the alert changes, may do so at any time. -/
def basin : Sys Basin BasinAct where
  init := { fog := D.fog.init }
  enabled x a := (∀ b, x.fogStep a = some b → D.fog.enabled x.fog b) ∧ match a with
    | .fog a => a.Records
    | .report n r => n ∈ expectedEuis ∧ r.timeUs < 2 ^ 64
    | .serve n a _ how _ => n ∈ expectedEuis ∧ (VoteService.sys 3).enabled (x.intake n).service a ∧
        (∀ entry, a ≠ .accumulate entry) ∧ how.Records
  exec x a :=
    { fog := match x.fogStep a with
        | none => x.fog
        | some b => D.fog.exec x.fog b
      intake := match (x.fogStep a).bind FogAction.boots with
        | none => x.taken D a
        | some n => Function.update (x.taken D a) n {}
      heard := match a with
        | .report n r => (n, r) :: x.heard
        | _ => x.heard
      filed := match a with
        | .serve n a _ _ _ => (((x.intake n).service.batchOf a).map (fun b => (n, b))).toList ++ x.filed
        | _ => x.filed }

end Deployment

/-- The steps of the fog nodes meet `ok`. -/
def BasinMeets (ok : Fog → FogAction → Prop) (x : Basin) (a : BasinAct) : Prop := ∀ b, x.fogStep a = some b → ok x.fog b

/-- The reading came in at the node in a datagram signed with the key of its sensor. -/
def Basin.Received (D : Deployment) (x : Basin) (n : Nat) (e : Vote.Entry) : Prop :=
  ∃ r, (n, r) ∈ x.heard ∧ r.Signed D n ∧ r.timeUs < 2 ^ 64 ∧ e = entryOf r.reading

/-- **What the vote services know was received**, and what they filed says what was. -/
structure Sourced (D : Deployment) (x : Basin) : Prop where
  served : ∀ n, (x.intake n).service.Served
  received : ∀ n e, .accumulate e ∈ (x.intake n).service.calls → x.Received D n e
  filed : ∀ n b, (n, b) ∈ x.filed → b.Founded (x.Received D n)

theorem served_new : (({} : VoteService 3)).Served :=
  ⟨rfl, .nil, fun b hb => (by cases hb), fun b n hb => (by cases hb)⟩

theorem small_entryOf (reading : Ingress.Reading) : (entryOf reading).Small := Vote.Entry.small_read reading.bytes

theorem Basin.Received.mono {D : Deployment} {x y : Basin} (hheard : ∀ p ∈ x.heard, p ∈ y.heard) {n : Nat}
    {e : Vote.Entry} (h : x.Received D n e) : y.Received D n e := by
  obtain ⟨r, hr, hrest⟩ := h
  exact ⟨r, hheard _ hr, hrest⟩

/-- A reading that is let in is that of the datagram, whose signature verifies. -/
theorem receive_spec (D : Deployment) (n : Nat) (r : SensorMsg) (t : Intake) :
    (t.receive D n r).service = t.service ∨
      (r.Signed D n ∧ (t.receive D n r).service = t.service.tell (.accumulate (entryOf r.reading))) := by
  unfold Intake.receive
  cases hreading : (Ingress.sensorRequestHandler D.psa (D.store n) true r.timeUs r.bytes t.replay).1 with
  | none => exact .inl (by simp only [hreading])
  | some reading =>
    refine .inr ⟨Ingress.sensorRequestHandler_eq_some hreading, ?_⟩
    have hsame : reading = r.reading := by
      unfold Ingress.sensorRequestHandler at hreading
      split at hreading
      · cases hreading
      · rename_i buf hbuf
        obtain rfl := Ingress.coapGetData_eq_some hbuf
        split at hreading
        · cases hreading
        · dsimp only at hreading
          split at hreading
          · cases hreading
          · split at hreading
            · cases hreading
            · exact (Option.some.inj hreading).symm
    simp only [hreading, hsame]

section

variable {D : Deployment} {ok : Fog → FogAction → Prop} {x : Basin}

/-- What came in and what was filed stays on record. -/
theorem record_exec (D : Deployment) (x : Basin) (a : BasinAct) :
    (∀ p ∈ x.heard, p ∈ (D.basin.exec x a).heard) ∧ ∀ p ∈ x.filed, p ∈ (D.basin.exec x a).filed := by
  cases a with
  | fog a => exact ⟨fun p hp => hp, fun p hp => hp⟩
  | report n r => exact ⟨fun p hp => List.mem_cons_of_mem _ hp, fun p hp => hp⟩
  | serve n a env how hooks => exact ⟨fun p hp => hp, fun p hp => List.mem_append_right _ hp⟩

theorem heard_reaches {y : Basin} (h : D.basin.Reaches (BasinMeets ok) x y) : ∀ p ∈ x.heard, p ∈ y.heard :=
  h.invariant (P := fun y => ∀ p ∈ x.heard, p ∈ y.heard) (fun _ hp => hp)
    (fun y a hy _ _ p hp => (record_exec D y a).1 p (hy p hp))

theorem filed_reaches {y : Basin} (h : D.basin.Reaches (BasinMeets ok) x y) : ∀ p ∈ x.filed, p ∈ y.filed :=
  h.invariant (P := fun y => ∀ p ∈ x.filed, p ∈ y.filed) (fun _ hp => hp)
    (fun y a hy _ _ p hp => (record_exec D y a).2 p (hy p hp))

/-- What stands in front of an engine, unless the node boots. -/
theorem intake_exec (D : Deployment) (x : Basin) (a : BasinAct) (k : Nat) :
    (D.basin.exec x a).intake k = x.taken D a k ∨ (D.basin.exec x a).intake k = {} := by
  have hexec : (D.basin.exec x a).intake = match (x.fogStep a).bind FogAction.boots with
      | none => x.taken D a
      | some n => Function.update (x.taken D a) n {} := rfl
  rw [hexec]
  cases (x.fogStep a).bind FogAction.boots with
  | none => exact .inl rfl
  | some n =>
    dsimp only
    by_cases hk : k = n
    · rw [hk, Function.update_self]
      exact .inr rfl
    · exact .inl (Function.update_of_ne hk _ _)

theorem served_taken (h : Sourced D x) {a : BasinAct} (hen : D.basin.enabled x a) (k : Nat) :
    (x.taken D a k).service.Served := by
  cases a with
  | fog a => exact h.served k
  | report n r =>
    unfold Basin.taken
    dsimp only
    by_cases hk : k = n
    · rw [hk, Function.update_self]
      rcases receive_spec D n r (x.intake n) with hs | ⟨-, hs⟩ <;> rw [hs]
      · exact h.served n
      · exact (h.served n).tell rfl
    · rw [Function.update_of_ne hk]
      exact h.served k
  | serve n a env how hooks =>
    obtain ⟨-, -, hen, -⟩ := hen
    unfold Basin.taken
    dsimp only
    by_cases hk : k = n
    · rw [hk, Function.update_self]
      exact (h.served n).exec hen
    · rw [Function.update_of_ne hk]
      exact h.served k

/-- A vote service has been told what it knew, and the reading that has come in now. -/
theorem received_taken (h : Sourced D x) {a : BasinAct} (hen : D.basin.enabled x a) {k : Nat} {e : Vote.Entry}
    (he : .accumulate e ∈ (x.taken D a k).service.calls) : (D.basin.exec x a).Received D k e := by
  have hmono : ∀ {e}, x.Received D k e → (D.basin.exec x a).Received D k e := fun hr => hr.mono (record_exec D x a).1
  cases a with
  | fog a => exact hmono (h.received k e he)
  | report n r =>
    obtain ⟨-, -, hfits⟩ := hen
    unfold Basin.taken at he
    dsimp only at he
    by_cases hk : k = n
    · subst hk
      rw [Function.update_self] at he
      rcases receive_spec D k r (x.intake k) with hs | ⟨hsigned, hs⟩ <;> rw [hs] at he
      · exact hmono (h.received k e he)
      · rcases List.mem_append.1 he with he | he
        · exact hmono (h.received k e he)
        · have heq := List.mem_singleton.1 he
          injection heq with heq
          exact ⟨r, List.mem_cons_self, hsigned, hfits, heq⟩
    · rw [Function.update_of_ne hk] at he
      exact hmono (h.received k e he)
  | serve n a env how hooks =>
    obtain ⟨-, -, -, hno, -⟩ := hen
    unfold Basin.taken at he
    dsimp only at he
    by_cases hk : k = n
    · subst hk
      rw [Function.update_self] at he
      exact hmono (h.received k e ((x.intake k).service.calls_exec a hno e he))
    · rw [Function.update_of_ne hk] at he
      exact hmono (h.received k e he)

theorem Sourced.exec (h : Sourced D x) {a : BasinAct} (hen : D.basin.enabled x a) : Sourced D (D.basin.exec x a) := by
  have hmono : ∀ {n e}, x.Received D n e → (D.basin.exec x a).Received D n e :=
    fun hr => hr.mono (record_exec D x a).1
  refine ⟨fun k => ?_, fun k e he => ?_, fun k b hb => ?_⟩
  · rcases intake_exec D x a k with hk | hk <;> rw [hk]
    · exact served_taken h hen k
    · exact served_new
  · rcases intake_exec D x a k with hk | hk <;> rw [hk] at he
    · exact received_taken h hen he
    · cases he
  · cases a with
    | serve n a env how hooks =>
      rcases List.mem_append.1 hb with hb | hb
      · obtain ⟨b', hb', heq⟩ := Option.map_eq_some_iff.1 (Option.mem_toList.1 hb)
        obtain ⟨rfl, rfl⟩ := Prod.mk.inj heq
        refine ((h.served n).founded (H := x.Received D n) (fun e he => ?_) hb').mono fun e => hmono
        obtain ⟨r, hr, hsigned, hfits, rfl⟩ := h.received n e he
        exact ⟨⟨r, hr, hsigned, hfits, rfl⟩, small_entryOf _⟩
      · exact (h.filed k b hb).mono fun e => hmono
    | _ => exact (h.filed k b hb).mono fun e => hmono

theorem sourced_reachable (h : D.basin.Reachable (BasinMeets ok) x) : Sourced D x :=
  Sys.Reachable.invariant (P := Sourced D) h
    ⟨fun _ => served_new, fun _ _ he => (by cases he), fun _ _ hb => (by cases hb)⟩ (fun _ _ hy hen _ => hy.exec hen)

/-! ## What the nodes apply -/

/-- The data of a batch that was filed, or of a record. -/
def FiledIn (filed : List (Nat × Batch)) : EntryType → List Byte → Prop
  | .sensorData, data => ∃ n b gap, (n, b) ∈ filed ∧ data = b.image gap
  | .egressMsg, data => data.length = Egress.EgressRecord.size
  | .noop, _ => False

/-- A call submits what `P` allows, if it does so itself and in its callbacks. -/
theorem submits_act {P : EntryType → List Byte → Prop} (c : Cluster) (n : Nat) (io : Io) {k : Call} {how : Manner}
    (hk : ∀ type data, k = .submit type data → P type data)
    (hans : ∀ type data, .submit type data ∈ how.answers → P type data) :
    Nests (fun _ a => Submits P a) c (how.act n io k) := by
  have hcall : Submits P (.call n io k) := by
    cases k with
    | submit type data => exact hk type data rfl
    | _ => trivial
  have hcrash : ∀ made, Submits P (.crash n io k made) := by
    intro made
    cases k with
    | submit type data => exact hk type data rfl
    | _ => trivial
  cases how with
  | whole => exact hcall
  | nested answers =>
    refine ⟨hcall, fun ans hmem => ?_⟩
    cases ans with
    | go => trivial
    | submit type data => exact hans type data hmem
  | cut answers made =>
    refine ⟨hcrash made, fun ans hmem => ?_⟩
    cases ans with
    | go => trivial
    | submit type data => exact hans type data hmem

/-- A step of the fog nodes submits what `P` allows if its task does so, and what its callbacks submit. -/
theorem fogMeets_submits {ok : Cluster → Action → Prop} {P : EntryType → List Byte → Prop} {f : Fog} {b : FogAction}
    (h : D.FogMeets (Nests ok) f b)
    (hP : ∀ n env t how hooks, b = .step (.task n env t how) hooks →
      (∀ type data, t = .submit type data → P type data) ∧ ∀ type data, .submit type data ∈ how.answers → P type data) :
    D.FogMeets (Nests fun c a => ok c a ∧ Submits P a) f b := by
  cases b with
  | alert n packet => trivial
  | step a hooks =>
    refine ⟨h.1.mono fun act hact c hok => hok.and ?_, h.2⟩
    cases a with
    | boot n env =>
      rcases List.mem_cons.1 hact with rfl | hact
      · trivial
      · rw [List.mem_singleton.1 hact]
        trivial
    | task n env t how =>
      obtain ⟨ht, hans⟩ := hP n env t how hooks rfl
      obtain ⟨k, hk, rfl⟩ := Option.map_eq_some_iff.1 (Option.mem_toList.1 hact)
      refine submits_act c n env.io (fun type data hl => ?_) hans
      subst hl
      cases t with
      | tick => cases hk
      | submit type' data' =>
        obtain ⟨rfl, rfl⟩ := Call.submit.inj (Option.some.inj hk)
        exact ht _ _ rfl
      | drain =>
        obtain ⟨m, -, hm⟩ := Option.map_eq_some_iff.1 hk
        cases hm
    | deliver p => cases hact

/-- **Nothing is submitted but records and what was filed by the end of the run.** -/
theorem fog_runs (hmeets : ∀ f b, ok f b → D.FogMeets (Nests engineSetup.TermsFit) f b) {y : Basin}
    (h : D.basin.Reaches (BasinMeets ok) y x) :
    D.fog.Reaches (fun f b => ok f b ∧ D.FogMeets (Nests fun c a =>
        engineSetup.TermsFit c a ∧ Submits (FiledIn x.filed) a) f b)
      y.fog x.fog := by
  induction h using Relation.ReflTransGen.head_induction_on with
  | refl => exact .refl
  | @head y y' hstep hrest ih =>
    obtain ⟨a, ⟨hfog, hen⟩, hok, rfl⟩ := hstep
    have hkept := filed_reaches hrest
    cases hb : y.fogStep a with
    | none =>
      have hsame : (D.basin.exec y a).fog = y.fog := by simp only [Deployment.basin, hb]
      rw [← hsame]
      exact ih
    | some b =>
      have hexec : (D.basin.exec y a).fog = D.fog.exec y.fog b := by simp only [Deployment.basin, hb]
      refine .head ⟨b, hfog b hb, ⟨hok b hb, fogMeets_submits (hmeets _ b (hok b hb)) ?_⟩, hexec⟩ ih
      rintro n env t how hooks rfl
      have hrecord : ∀ {type data}, IsRecord type data → FiledIn x.filed type data := by
        rintro type data ⟨rfl, hlen⟩
        exact hlen
      cases a with
      | report k r => cases hb
      | fog a =>
        obtain rfl := Option.some.inj hb
        have hrecords : (∀ type data, t = .submit type data → IsRecord type data) ∧ how.Records := by
          cases t with
          | submit type' data' =>
            refine ⟨fun type data hl => ?_, hen.2⟩
            obtain ⟨rfl, rfl⟩ := Task.submit.inj hl
            exact hen.1
          | _ => exact ⟨nofun, hen⟩
        exact ⟨fun type data hl => hrecord (hrecords.1 type data hl),
          fun type data hmem => hrecord (hrecords.2 _ hmem)⟩
      | serve k a env' how' hooks' =>
        obtain ⟨batch, hbatch, heq⟩ := Option.map_eq_some_iff.1 hb
        obtain ⟨hstep, -⟩ := FogAction.step.inj heq
        obtain ⟨-, rfl, rfl, rfl⟩ := FleetAction.task.inj hstep
        refine ⟨fun type data hl => ?_, fun type data hmem => hrecord (hen.2.2.2 _ hmem)⟩
        obtain ⟨rfl, rfl⟩ := Task.submit.inj hl
        refine ⟨k, batch, env'.gap, hkept _ (List.mem_append_left _ ?_), rfl⟩
        rw [hbatch]
        exact List.mem_singleton_self _

/-- The reading is where the struct has it. -/
theorem entryOf_reading (r : SensorMsg) :
    (entryOf r.reading).eui.toNat = r.eui ∧ (entryOf r.reading).waterLevelMm = r.level := by
  have hslice : ∀ off len, off + len ≤ 24 →
      Bytes.slice (Bytes.slice r.bytes 0 readingSize) off len = Bytes.slice r.bytes off len := by
    intro off len hle
    show ((r.bytes.take 24).drop off).take len = (r.bytes.drop off).take len
    rw [List.drop_take, List.take_take, Nat.min_eq_left (by omega)]
  constructor
  · show (UInt64.ofNat (number (Bytes.slice (Bytes.slice r.bytes 0 readingSize) 0 8))).toNat = _
    rw [hslice 0 8 (by decide), UInt64.toNat_ofNat']
    have hlen : (Bytes.slice r.bytes 0 8).length ≤ 8 := List.length_take_le 8 _
    have hword : 256 ^ (Bytes.slice r.bytes 0 8).length ≤ 256 ^ 8 := Nat.pow_le_pow_right (by decide) hlen
    exact Nat.mod_eq_of_lt ((Layout.number_lt _).trans_le hword)
  · show number (Bytes.slice (Bytes.slice r.bytes 0 readingSize) 16 2) = _
    rw [hslice 16 2 (by decide)]
    rfl

/-- What a filed batch says of a sensor was in a datagram signed with its key. -/
theorem founded_signed {m : Nat} {b : Batch} (h : b.Founded (x.Received D m)) : ∀ y ∈ b.entries, ∃ r, (m, r) ∈ x.heard ∧
    r.Signed D m ∧ y.eui.toNat = r.eui ∧ y.waterLevelMm = r.level ∧ y.timestamp.toNat = r.timeUs % 2 ^ 32 := by
  intro y hy
  obtain ⟨e, ⟨r, hr, hsigned, htime, rfl⟩, hreport, -⟩ := h.received y hy
  obtain ⟨heui, hlevel⟩ := entryOf_reading r
  have hy₁ : y.eui = (entryOf r.reading).eui := congrArg Prod.fst hreport
  have hy₂ : y.waterLevelMm = (entryOf r.reading).waterLevelMm := congrArg (fun p => p.2.1) hreport
  have hy₃ : y.timestamp = (UInt64.ofNat r.timeUs).toUInt32.toUInt64 := congrArg (fun p => p.2.2) hreport
  refine ⟨r, hr, hsigned, hy₁ ▸ heui, hy₂.trans hlevel, ?_⟩
  rw [hy₃, UInt32.toNat_toUInt64, UInt64.toNat_toUInt32, UInt64.toNat_ofNat', Nat.mod_eq_of_lt htime]

/-- A flag that is up stands for two sensors. -/
theorem founded_two {m : Nat} {b : Batch} (h : b.Founded (x.Received D m)) (hactive : b.alertActive = true) :
    ∃ r r', (m, r) ∈ x.heard ∧ (m, r') ∈ x.heard ∧ r.Signed D m ∧ r'.Signed D m ∧ r.eui ≠ r'.eui ∧
      (entryOf r.reading).validity = .good ∧ 1500 ≤ r.level ∧ 1300 ≤ r'.level := by
  obtain ⟨_, _, ⟨r, hr, hsigned, -, rfl⟩, ⟨r', hr', hsigned', -, rfl⟩, hne, hgood, hhigh, hnear⟩ := h.alert hactive
  obtain ⟨heui, hlevel⟩ := entryOf_reading r
  obtain ⟨heui', hlevel'⟩ := entryOf_reading r'
  refine ⟨r, r', hr, hr', hsigned, hsigned', fun he => hne (UInt64.toNat_inj.1 ?_), hgood, hlevel ▸ hhigh, hlevel' ▸ hnear⟩
  rw [heui, heui', he]

/-- An entry that a node has applied as a batch is one that was filed. -/
theorem applied_filed (h : D.basin.Reachable (BasinMeets (D.FogMeets (Nests engineSetup.TermsFit))) x) {n : Nat}
    (hn : n ∈ expectedEuis) {e : Entry} (he : e ∈ appliedEntries (x.fog.fleet.node n).server.calls)
    (htype : e.type = .sensorData) :
    ∃ m b gap, (m, b) ∈ x.filed ∧ e.data = b.image gap := by
  have hplain := fog_plain ((fog_runs (fun _ _ hok => hok) h).mono (fun _ _ hok => hok.2)) hn
  obtain ⟨i, hi⟩ := mem_appliedEntries.1 he
  obtain ⟨j, e', hee, hfrom⟩ := hplain.fed _ (List.mem_filter.2 ⟨hi, rfl⟩)
  cases hee
  rcases hfrom with ⟨hnoop, -⟩ | hfiled
  · rw [htype] at hnoop
    cases hnoop
  · rw [htype] at hfiled
    exact hfiled

/-- What turned an alert on was a batch that was filed with its flag up. -/
theorem alert_filed (h : D.basin.Reachable (BasinMeets (D.FogMeets (Nests engineSetup.TermsFit))) x) {n : Nat}
    (hn : n ∈ expectedEuis) {p : AlertPacket} (hp : p ∈ (x.fog.app n).alerts) (hactive : p.alertActive = true) :
    ∃ m b, (m, b) ∈ x.filed ∧ b.alertActive = true := by
  obtain ⟨data, hfiled, hflag⟩ := app_invariant (P := FiledIn x.filed) (G := fun _ => True)
    (Q := fun app => ∀ p ∈ app.alerts, p.alertActive = true →
      ∃ data, FiledIn x.filed .sensorData data ∧ batchAlert data = true)
    (fun _ _ hok => hok.2) (fun _ _ _ _ _ _ _ _ _ _ => trivial) (fun p hp => (by cases hp))
    (fun leads packet app hq => by rw [(Application.same_onAlert leads packet app).alerts]; exact hq)
    (fun hooks ev app _ hq hev => by
      cases ev with
      | apply k e =>
        show ∀ p ∈ (app.onApply hooks e).alerts, _
        unfold Application.onApply
        cases htype : e.type with
        | noop => exact hq
        | egressMsg =>
          dsimp only
          split <;> exact hq
        | sensorData =>
          dsimp only
          unfold Application.checkAlert
          dsimp only
          split
          · exact hq
          · split
            · rename_i hon
              intro p hp hactive
              rcases List.mem_cons.1 hp with rfl | hp
              · rcases hev k e rfl with ⟨hnoop, -⟩ | hfrom
                · rw [htype] at hnoop
                  cases hnoop
                · exact ⟨e.data, htype ▸ hfrom, hon⟩
              · exact hq p hp hactive
            · intro p hp hactive
              rcases List.mem_cons.1 hp with rfl | hp
              · cases hactive
              · exact hq p hp hactive
      | onStateChange old new =>
        have hother : ∀ i e, Event.onStateChange old new ≠ .apply i e := fun _ _ he => by cases he
        rw [(Application.same_callback hooks app hother).alerts]
        exact hq
      | _ => exact hq) (fog_runs (fun _ _ hok => hok) h) hn p hp hactive
  obtain ⟨m, b, gap, hb, rfl⟩ := hfiled
  exact ⟨m, b, hb, by rw [← hflag, Batch.batchAlert_image]⟩

end

/-- **Every batch that a node applies is signed for**: in every run, the entry is byte for byte a batch that the vote
service of some node filed, is read back as it was filed, and has readings of three different sensors; and for each of
these that node was sent a datagram, signed with the key of the sensor, with this level, at the time whose lower 32 bits
the reading has. -/
theorem applied_batch_signed (D : Deployment) (x : Basin)
    (h : D.basin.Reachable (BasinMeets (D.FogMeets (Nests engineSetup.TermsFit))) x) (n : Nat) (hn : n ∈ expectedEuis)
    (e : Entry) (he : e ∈ appliedEntries (x.fog.fleet.node n).server.calls)
    (htype : e.type = .sensorData) :
    ∃ m b gap, (m, b) ∈ x.filed ∧ e.data = b.image gap ∧ Batch.read e.data = b ∧ b.entries.length = 3 ∧
      (b.entries.map Vote.Entry.eui).Nodup ∧
      ∀ y ∈ b.entries, ∃ r, (m, r) ∈ x.heard ∧ r.Signed D m ∧ y.eui.toNat = r.eui ∧ y.waterLevelMm = r.level ∧
        y.timestamp.toNat = r.timeUs % 2 ^ 32 := by
  obtain ⟨m, b, gap, hb, hdata⟩ := applied_filed h hn he htype
  have hfounded := (sourced_reachable h).filed m b hb
  refine ⟨m, b, gap, hb, hdata, ?_, hfounded.three, hfounded.distinct, founded_signed hfounded⟩
  rw [hdata]
  exact Batch.read_image gap ⟨Nat.le_of_eq hfounded.three, hfounded.small⟩

/-- **No alert because of one sensor alone**: in every run, a node that has sent an active alert did so because some node
was sent a good reading at or above the threshold and, from another sensor, one that is no more than the tolerance below
it, each in a datagram signed with the key of its sensor. -/
theorem alert_needs_two (D : Deployment) (x : Basin)
    (h : D.basin.Reachable (BasinMeets (D.FogMeets (Nests engineSetup.TermsFit))) x) (n : Nat) (hn : n ∈ expectedEuis)
    (p : AlertPacket) (hp : p ∈ (x.fog.app n).alerts) (hactive : p.alertActive = true) :
    ∃ m r r', (m, r) ∈ x.heard ∧ (m, r') ∈ x.heard ∧ r.Signed D m ∧ r'.Signed D m ∧ r.eui ≠ r'.eui ∧
      (entryOf r.reading).validity = .good ∧ 1500 ≤ r.level ∧ 1300 ≤ r'.level := by
  obtain ⟨m, b, hb, hflag⟩ := alert_filed h hn hp hactive
  exact ⟨m, founded_two ((sourced_reachable h).filed m b hb) hflag⟩

/-! ## A run written down -/

inductive BasinTurn where
  | fleet (t : FleetTurn)
  | report (n : Nat) (bytes : List Byte) (timeUs : Nat)
  | serve (n now : Nat) (a : ServiceAct)

/-- The vote service can do this now. -/
def ready (s : VoteService 3) : ServiceAct → Bool
  | .start none => true
  | .expire => s.timer.isSome
  | .closeWindow => s.queued && decide (s.closing = .idle)
  | .submitBatch => match s.closing with
    | .closed _ _ => true
    | _ => false
  | _ => false

theorem enabled_of_ready {s : VoteService 3} {a : ServiceAct} (h : ready s a = true) :
    (VoteService.sys 3).enabled s a ∧ ∀ entry, a ≠ .accumulate entry := by
  cases a with
  | start now =>
    cases now with
    | none => exact ⟨⟨nofun, trivial⟩, nofun⟩
    | some t => cases h
  | expire => exact ⟨⟨trivial, h⟩, nofun⟩
  | closeWindow =>
    obtain ⟨hqueued, hidle⟩ := Bool.and_eq_true_iff.1 h
    exact ⟨⟨trivial, hqueued, of_decide_eq_true hidle⟩, nofun⟩
  | submitBatch =>
    unfold ready at h
    dsimp only at h
    split at h
    · rename_i batch n hclosing
      exact ⟨⟨trivial, batch, n, hclosing⟩, nofun⟩
    · cases h
  | _ => cases h

instance decidableIsRecord (type : EntryType) (data : List Byte) : Decidable (IsRecord type data) :=
  inferInstanceAs (Decidable (_ ∧ _))

instance decidableAnswerRecords : ∀ ans : Answer, Decidable ans.Records
  | .go => inferInstanceAs (Decidable True)
  | .submit type data => inferInstanceAs (Decidable (IsRecord type data))

instance decidableMannerRecords (how : Manner) : Decidable how.Records :=
  inferInstanceAs (Decidable (∀ ans ∈ how.answers, ans.Records))

instance decidableRecords : ∀ b : FogAction, Decidable b.Records
  | .step (.task _ _ (.submit _ _) _) _ => inferInstanceAs (Decidable (_ ∧ _))
  | .step (.task _ _ .tick how) _ => inferInstanceAs (Decidable how.Records)
  | .step (.task _ _ .drain how) _ => inferInstanceAs (Decidable how.Records)
  | .step (.boot _ _) _ => inferInstanceAs (Decidable True)
  | .step (.deliver _) _ => inferInstanceAs (Decidable True)
  | .alert _ _ => inferInstanceAs (Decidable True)

instance decidableFogMeets (ok : Cluster → NestedAct → Prop) [∀ c a, Decidable (ok c a)] (D : Deployment) (f : Fog) :
    ∀ b : FogAction, Decidable (D.FogMeets ok f b)
  | .step a _ => inferInstanceAs (Decidable (D.Meets ok f.fleet a))
  | .alert _ _ => inferInstanceAs (Decidable True)

instance decidableBasinMeets (ok : Fog → FogAction → Prop) [∀ f b, Decidable (ok f b)] (x : Basin) (a : BasinAct) :
    Decidable (BasinMeets ok x a) := inferInstanceAs (Decidable (∀ b ∈ x.fogStep a, ok x.fog b))

/-- Hooks that ask this server. -/
def hooksOf (s : Server) : Egress.Hooks where
  isLeader := decide (s.state = .leader)
  submitEgress _ := decide (s.state = .leader)
  readEntry i := (s.log.at? defaultConfig i).filter (fun e => decide (e.index = i))
  read_index _ _ h := of_decide_eq_true (Option.filter_eq_some_iff.1 h).2

/-- The hooks of the node that runs a task in the step, as they answer when it is done. -/
def Fog.hooksAt (f : Fog) (a : FleetAction) : Egress.Hooks :=
  match a.node with
  | none => deaf
  | some n => hooksOf ((openMesh.sys.exec f.fleet a).node n).server

/-- The action a turn stands for, if it is possible. -/
def Basin.turn (x : Basin) : BasinTurn → Option BasinAct
  | .fleet t => ((x.fog.fleet.action t).map (fun a => FogAction.step a (fun _ => x.fog.hooksAt a))).bind
      (fun b => if b.Records then some (.fog b) else none)
  | .report n bytes timeUs => if n ∈ expectedEuis ∧ timeUs < 2 ^ 64 then some (.report n ⟨bytes, timeUs⟩) else none
  | .serve n now a => if n ∈ expectedEuis ∧ ready (x.intake n).service a = true then
      some (.serve n a (.at now) .whole (fun _ => match (x.intake n).service.batchOf a with
        | none => deaf
        | some b => x.fog.hooksAt (.task n (.at now) (.submit .sensorData (b.image (Env.at now).gap)) .whole))) else none

theorem enabled_turn {x : Basin} {t : BasinTurn} {a : BasinAct} (h : x.turn t = some a) : openMesh.basin.enabled x a := by
  cases t with
  | fleet t =>
    obtain ⟨b, hb, h⟩ := Option.bind_eq_some_iff.1 h
    obtain ⟨act, hact, rfl⟩ := Option.map_eq_some_iff.1 hb
    split at h
    · rename_i hrecords
      obtain rfl := Option.some.inj h
      refine ⟨fun b hb => ?_, hrecords⟩
      obtain rfl := Option.some.inj hb
      exact action_enabled_fleet hact
    · cases h
  | report n bytes timeUs =>
    unfold Basin.turn at h
    dsimp only at h
    split at h
    · rename_i hfits
      obtain rfl := Option.some.inj h
      exact ⟨fun b hb => (by cases hb), hfits⟩
    · cases h
  | serve n now act =>
    unfold Basin.turn at h
    dsimp only at h
    split at h
    · rename_i hready
      obtain ⟨hn, hready⟩ := hready
      obtain rfl := Option.some.inj h
      obtain ⟨hservice, hno⟩ := enabled_of_ready hready
      refine ⟨fun b hb => ?_, hn, hservice, hno, fun _ hmem => by cases hmem⟩
      obtain ⟨batch, -, rfl⟩ := Option.map_eq_some_iff.1 hb
      exact ⟨hn, signs_at hn now, _, rfl, trivial⟩
    · cases h

section

variable (ok : Fog → FogAction → Prop) [∀ f b, Decidable (ok f b)]

def playBasin : List BasinTurn → Basin → Basin
  | [], x => x
  | t :: ts, x => playBasin ts (match x.turn t with
    | some a => if BasinMeets ok x a then openMesh.basin.exec x a else x
    | none => x)

/-- The turns meet what else their actions do. -/
theorem reaches_playBasin {ok' : Fog → FogAction → Prop}
    (h : ∀ x t a, Basin.turn x t = some a → BasinMeets ok x a → BasinMeets ok' x a) : ∀ (ts : List BasinTurn) (x : Basin),
    openMesh.basin.Reaches (BasinMeets ok') x (playBasin ok ts x)
  | [], _ => .refl
  | t :: ts, x => by
    refine .trans ?_ (reaches_playBasin h ts _)
    split
    · rename_i a ha
      split
      · rename_i hmeets
        exact .single ⟨a, enabled_turn ha, h _ t a ha hmeets, rfl⟩
      · exact .refl
    · exact .refl

end

/-- A datagram that claims the EUI. -/
def datagram (eui : UInt64) (level : Nat) : List Byte :=
  Vote.Entry.image { eui := eui, waterLevelMm := level, seq := 1 } ++ List.replicate 64 7

/-- The first node is elected.  Each of the three trusted devices reports to it once, and its window closes; the batch goes
through its log to the second node.  When the first applies it, the callback submits the record that it is being sent. -/
def reportFlood : List BasinTurn :=
  let a := 0xf4ce360a4eac3643
  let b := 0xf4ce363a5c916092
  electFirst.map .fleet ++ [.serve a 0 (.start none), .report a (datagram 0xf4ce360a4eac3643 1400) 5000000,
    .report a (datagram 0xf4ce363a5c916092 1510) 5000001, .report a (datagram 0xf4ce3696247825d1 1520) 5000002,
    .serve a 6000 .expire, .serve a 6000 .closeWindow, .serve a 6000 .submitBatch] ++
  [.deliver 1, .drain b 6000, .deliver 0,
    .task a 6000 .drain (.nested [.go, .go, .go, .submit .egressMsg ((Egress.EgressRecord.mk 2 0 .started).image fun _ => 0),
      .go, .go, .go]), .tick a 9000, .deliver 1, .drain b 9000].map .fleet

def flooded : Basin := playBasin (openMesh.FogMeets (Nests engineSetup.TermsFit)) reportFlood openMesh.basin.init

theorem reachable_flooded : openMesh.basin.Reachable (BasinMeets (openMesh.FogMeets (Nests engineSetup.TermsFit))) flooded :=
  reaches_playBasin (openMesh.FogMeets (Nests engineSetup.TermsFit)) (fun _ _ _ _ hmeets => hmeets) reportFlood _

/-- The second node has applied the batch, and each of its readings was signed for. -/
theorem applied_batch_signed_flooded :
    ∃ e ∈ appliedEntries (flooded.fog.fleet.node 0xf4ce363a5c916092).server.calls, e.type = .sensorData ∧
      ∃ m b gap, (m, b) ∈ flooded.filed ∧ e.data = b.image gap ∧ b.entries.length = 3 := by
  have hsome : (appliedEntries (flooded.fog.fleet.node 0xf4ce363a5c916092).server.calls).any
      (fun e => decide (e.type = .sensorData)) = true := by decide +kernel
  obtain ⟨e, he, htype⟩ := List.any_eq_true.1 hsome
  have htype := of_decide_eq_true htype
  obtain ⟨m, b, gap, hb, hdata, -, hthree, -⟩ :=
    applied_batch_signed openMesh flooded reachable_flooded 0xf4ce363a5c916092 (by decide) e he htype
  exact ⟨e, he, htype, m, b, gap, hb, hdata, hthree⟩

/-- The second node has sent an alert, and two devices were heard. -/
theorem alert_needs_two_flooded :
    ⟨30000, true⟩ ∈ (flooded.fog.app 0xf4ce363a5c916092).alerts ∧
      ∃ m r r', (m, r) ∈ flooded.heard ∧ (m, r') ∈ flooded.heard ∧ r.eui ≠ r'.eui ∧ 1500 ≤ r.level ∧ 1300 ≤ r'.level := by
  have hsent : (⟨30000, true⟩ : AlertPacket) ∈ (flooded.fog.app 0xf4ce363a5c916092).alerts := by decide +kernel
  obtain ⟨m, r, r', hr, hr', -, -, hne, -, hhigh, hnear⟩ :=
    alert_needs_two openMesh flooded reachable_flooded 0xf4ce363a5c916092 (by decide) ⟨30000, true⟩ hsent rfl
  exact ⟨hsent, m, r, r', hr, hr', hne, hhigh, hnear⟩

end Raft
end FloodEws
