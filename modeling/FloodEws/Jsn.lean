import Mathlib.Algebra.Group.Nat.Defs
import FloodEws.Vote
/-!
# Jsn — `edge/src/jsn`, from the echo to a reading

The driver of the JSN-SR04T and the arithmetic between the width of the echo and the water level.  Interrupts are
disabled by the code that handles them and each handler is run as a whole, so the sequence lock around the published pair
is left out; so are the power and trigger pins, which nothing reads.  The kernel's conversion of clock cycles to
microseconds is the environment's.

The distance is cut to sixteen bits before its range is checked.  An echo of 380109 µs or more, well before the timeout,
can pass for one of a few milliseconds (`good_level_iff`).
-/
namespace FloodEws
namespace Jsn

open Vote (Validity)

def minDistanceMm : UInt16 := 250

/-- `config::SENSOR_TIMEOUT_MS` and `config::GROUND_DIST_MM`. -/
def sensorTimeoutMs : Nat := 1000

def groundDistMm : UInt16 := 2000

def distanceMmFromUs (pulseWidthUs : UInt32) : UInt32 := pulseWidthUs * 10 / 58

inductive ReadingState where
  | idle
  | inFlight
  | valid
  | outOfRange
  | timeout
deriving DecidableEq, Repr

def detailNone : UInt8 := 0x00
def detailOverflow : UInt8 := 0x01
def detailOutOfRange : UInt8 := 0x02
def detailFailure : UInt8 := 0x04

structure SensorReading where
  waterLevel : UInt16
  validity : Validity
  detail : UInt8
deriving DecidableEq, Repr

def calculateReading (isValid : Bool) (dist groundDist : UInt16) : SensorReading :=
  if !isValid then ⟨0, .invalid, detailFailure⟩
  else if groundDist < dist then ⟨0, .questionable, detailOutOfRange⟩
  else if dist < minDistanceMm then ⟨groundDist, .questionable, detailOverflow⟩
  else ⟨groundDist - dist, .good, detailNone⟩

/-! ## The driver -/

/-- `Driver`: the published pair, who resolved the measurement, the cycle of the rising edge (0 for none yet) and whether
the echo interrupt is configured. -/
structure Driver where
  state : ReadingState := .idle
  distanceMm : UInt16 := 0
  resolved : Bool := false
  risingCycles : UInt32 := 0
  armed : Bool := false
deriving DecidableEq, Repr

namespace Driver

def publish (state : ReadingState) (dist : UInt16) (d : Driver) : Driver := { d with state := state, distanceMm := dist }

def trigger (d : Driver) : Driver := { { d with resolved := false }.publish .inFlight 0 with risingCycles := 0, armed := true }

/-- `on_timeout`, and what it calls `m_done` with if it does. -/
def onTimeout (d : Driver) : Driver × Option ReadingState :=
  if d.resolved then (d, none)
  else ({ d with resolved := true, armed := false }.publish .timeout 0, some .timeout)

def reset (d : Driver) : Driver := { d with resolved := false }.publish .idle 0

/-- `on_edge`, with the level of the echo pin and the cycle counter; an interrupt that is not configured does not come. -/
def onEdge (cycToUs : UInt32 → UInt32) (level : Bool) (cycles : UInt32) (d : Driver) : Driver × Option ReadingState :=
  if !d.armed then (d, none)
  else if level ∧ d.state = .inFlight then ({ d with risingCycles := cycles }, none)
  else if !level ∧ d.state = .inFlight ∧ d.risingCycles ≠ 0 then
    let dist := distanceMmFromUs (cycToUs (cycles - d.risingCycles))
    if d.resolved then (d, none)
    else ({ d with resolved := true, armed := false }.publish .valid dist.toUInt16, some .valid)
  else (d, none)

end Driver

/-- What `do_read` and `send_sensor_reading` make of the driver's snapshot. -/
def readingOf (d : Driver) (groundDist : UInt16) : SensorReading :=
  calculateReading (decide (d.state = .valid)) d.distanceMm groundDist

/-- The reading of an echo of this width. -/
def readingOfWidth (us : UInt32) (groundDist : UInt16) : SensorReading :=
  calculateReading true (distanceMmFromUs us).toUInt16 groundDist

/-- **The falling edge publishes the reading of the width** between the edges. -/
theorem readingOf_onEdge (cycToUs : UInt32 → UInt32) {d : Driver} (harmed : d.armed = true)
    (hflight : d.state = .inFlight) (hrising : d.risingCycles ≠ 0) (hopen : d.resolved = false) (cycles : UInt32)
    (groundDist : UInt16) :
    (d.onEdge cycToUs false cycles).2 = some .valid ∧
      readingOf (d.onEdge cycToUs false cycles).1 groundDist =
        readingOfWidth (cycToUs (cycles - d.risingCycles)) groundDist := by
  simp [Driver.onEdge, Driver.publish, readingOf, readingOfWidth, harmed, hflight, hrising, hopen]

/-! ## Widths and levels -/

/-- The distance in exact arithmetic. -/
def exactMm (us : UInt32) : Nat := 10 * us.toNat / 58

/-- The echo can end before the timeout guard. -/
def BeforeTimeout (us : UInt32) : Prop := us.toNat ≤ sensorTimeoutMs * 1000

instance (us : UInt32) : Decidable (BeforeTimeout us) := inferInstanceAs (Decidable (_ ≤ _))

/-- The exact distance is in the range in which a reading is good. -/
def InRange (us : UInt32) (groundDist : UInt16) : Prop :=
  minDistanceMm.toNat ≤ exactMm us ∧ exactMm us ≤ groundDist.toNat

section

variable {us : UInt32} {groundDist : UInt16}

/-- No product overflows before the timeout. -/
theorem distanceMm_toNat (h : BeforeTimeout us) : (distanceMmFromUs us).toNat = exactMm us := by
  unfold BeforeTimeout sensorTimeoutMs at h
  simp only [distanceMmFromUs, exactMm, UInt32.toNat_div, UInt32.toNat_mul, UInt32.reduceToNat]
  rw [Nat.mod_eq_of_lt (by omega), Nat.mul_comm]

theorem narrow_toNat (h : BeforeTimeout us) : (distanceMmFromUs us).toUInt16.toNat = exactMm us % 2 ^ 16 := by
  rw [UInt32.toNat_toUInt16, distanceMm_toNat h]

theorem calculateReading_good {dist : UInt16} :
    (calculateReading true dist groundDist).validity = .good ↔
      minDistanceMm.toNat ≤ dist.toNat ∧ dist.toNat ≤ groundDist.toNat := by
  unfold calculateReading
  simp only [Bool.not_true, Bool.false_eq_true, ↓reduceIte, UInt16.lt_iff_toNat_lt]
  split
  · simp only [reduceCtorEq, false_iff]
    omega
  · split
    · simp only [reduceCtorEq, false_iff]
      omega
    · simp only [true_iff]
      omega

theorem calculateReading_level {dist : UInt16} (hmin : minDistanceMm.toNat ≤ dist.toNat)
    (hmax : dist.toNat ≤ groundDist.toNat) :
    (calculateReading true dist groundDist).waterLevel.toNat = groundDist.toNat - dist.toNat := by
  unfold calculateReading
  simp only [Bool.not_true, Bool.false_eq_true, ↓reduceIte, UInt16.lt_iff_toNat_lt]
  rw [if_neg (by omega), if_neg (by omega)]
  exact UInt16.toNat_sub_of_le _ _ (UInt16.le_iff_toNat_le.2 hmax)

/-- **When a reading is good**: the distance cut to sixteen bits is in range. -/
theorem readingOfWidth_good (h : BeforeTimeout us) :
    (readingOfWidth us groundDist).validity = .good ↔
      minDistanceMm.toNat ≤ exactMm us % 2 ^ 16 ∧ exactMm us % 2 ^ 16 ≤ groundDist.toNat := by
  rw [readingOfWidth, calculateReading_good, narrow_toNat h]

theorem exactMm_lt (h : InRange us groundDist) : exactMm us < 2 ^ 16 := by
  have hle := h.2
  have hlt := groundDist.toNat_lt
  omega

theorem readingOfWidth_level (h : BeforeTimeout us) (hr : InRange us groundDist) :
    (readingOfWidth us groundDist).waterLevel.toNat = groundDist.toNat - exactMm us := by
  have hcut := narrow_toNat h
  rw [Nat.mod_eq_of_lt (exactMm_lt hr)] at hcut
  rw [readingOfWidth, calculateReading_level (by rw [hcut]; exact hr.1) (by rw [hcut]; exact hr.2), hcut]

theorem exactMm_mono {us' : UInt32} (h : us ≤ us') : exactMm us ≤ exactMm us' := by
  unfold exactMm
  have := UInt32.le_iff_toNat_le.1 h
  omega

/-- A good reading is that of the exact distance, which is in range. -/
def GoodIsTrue (us : UInt32) (groundDist : UInt16) : Prop :=
  (readingOfWidth us groundDist).validity = .good →
    InRange us groundDist ∧ (readingOfWidth us groundDist).waterLevel.toNat = groundDist.toNat - exactMm us

/-- The distance does not fit sixteen bits and, cut to them, is in range. -/
def WrapsIntoRange (us : UInt32) (groundDist : UInt16) : Prop :=
  2 ^ 16 ≤ exactMm us ∧ minDistanceMm.toNat ≤ exactMm us % 2 ^ 16 ∧ exactMm us % 2 ^ 16 ≤ groundDist.toNat

/-- **When a good level is a true level**: unless the distance wraps into the range.  In range, the level never rises as
the echo gets longer. -/
theorem good_level_iff (h : BeforeTimeout us) :
    (GoodIsTrue us groundDist ↔ ¬WrapsIntoRange us groundDist) ∧
      ∀ us', BeforeTimeout us' → us ≤ us' → InRange us groundDist → InRange us' groundDist →
        (readingOfWidth us' groundDist).waterLevel ≤ (readingOfWidth us groundDist).waterLevel := by
  refine ⟨⟨?_, ?_⟩, ?_⟩
  · rintro htrue ⟨hbig, hmin, hmax⟩
    have hlt := exactMm_lt (htrue ((readingOfWidth_good h).2 ⟨hmin, hmax⟩)).1
    omega
  · intro hfits hgood
    obtain ⟨hmin, hmax⟩ := (readingOfWidth_good h).1 hgood
    have hlt : exactMm us < 2 ^ 16 := by
      by_contra hge
      exact hfits ⟨by omega, hmin, hmax⟩
    rw [Nat.mod_eq_of_lt hlt] at hmin hmax
    exact ⟨⟨hmin, hmax⟩, readingOfWidth_level h ⟨hmin, hmax⟩⟩
  · intro us' h' hle hr hr'
    rw [UInt16.le_iff_toNat_le, readingOfWidth_level h hr, readingOfWidth_level h' hr']
    have := exactMm_mono hle
    omega

end

/-- The good level of a metre is true, and a longer echo is no higher one. -/
theorem good_level_iff_metre :
    GoodIsTrue 5800 groundDistMm ∧
      (readingOfWidth 5900 groundDistMm).waterLevel ≤ (readingOfWidth 5800 groundDistMm).waterLevel := by
  obtain ⟨hiff, hmono⟩ := @good_level_iff 5800 groundDistMm (by decide)
  refine ⟨hiff.2 (fun hwraps => absurd hwraps.1 (by decide)), hmono 5900 (by decide) (by decide) ?_ ?_⟩
  · exact ⟨by decide, by decide⟩
  · exact ⟨by decide, by decide⟩

/-- **An echo of 385.9 ms is read as a metre of water**: 66534 mm cut to sixteen bits are 998 mm. -/
theorem long_echo_is_good :
    ¬∀ (us : UInt32) (groundDist : UInt16), BeforeTimeout us → GoodIsTrue us groundDist := by
  intro h
  have htrue := h 385900 groundDistMm (by decide) (by decide)
  exact absurd htrue.1.2 (by decide)

end Jsn
end FloodEws
