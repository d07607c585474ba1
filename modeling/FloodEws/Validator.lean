import FloodEws.Highest
import FloodEws.Policy
import FloodEws.Poller
import Mathlib.Algebra.Order.Ring.Unbundled.Rat
import Mathlib.Order.WithBot
/-!
# Validator — `gateway/server/poller`, from a response body to the sink

`genericValidator` and what `pollOnce` does with its advisory, with `Stale` of `gateway/server/advisory`.  Values are
kept exactly and a NaN is no value.  An instant is the nanoseconds since Go's zero time, so the zero time is 0.

What gjson finds in a body, what `json.Unmarshal` makes of the field map and what `time.Parse` makes of a text are the
environment's.
-/
namespace FloodEws
namespace Gateway

/-- `advisory.Severity`, in the order of its `iota`. -/
inductive Severity where
  | unknown
  | info
  | watch
  | warning
  | critical
deriving DecidableEq, Repr

namespace Severity

def code : Severity → Int
  | .unknown => 0
  | .info => 1
  | .watch => 2
  | .warning => 3
  | .critical => 4

def ofStr (s : String) : Severity :=
  match s with
  | "info" => .info
  | "watch" => .watch
  | "warning" => .warning
  | "critical" => .critical
  | _ => .unknown

theorem unknown_le (s : Severity) : unknown.code ≤ s.code := by cases s <;> decide

end Severity

structure SeverityThreshold (V : Type) where
  min : V
  severity : String
deriving DecidableEq, Repr

/-! ## Severity from thresholds -/

namespace Thresholds

variable {V : Type} [LinearOrder V]

/-- The three variables of the loop; `bestMin` starts at −∞. -/
structure Best (V : Type) where
  found : Bool := false
  bestMin : WithBot V := ⊥
  bestSev : String := ""

def Best.consider (value : V) (b : Best V) (t : SeverityThreshold V) : Best V :=
  if t.min ≤ value ∧ b.bestMin ≤ t.min then ⟨true, t.min, t.severity⟩ else b

def severityFromThresholds (value : V) (thresholds : List (SeverityThreshold V)) : Severity × Bool :=
  let b := thresholds.foldl (Best.consider value) {}
  if !b.found then (.unknown, false) else (.ofStr b.bestSev, true)

/-- The threshold the value clears. -/
def clears (value : V) (t : SeverityThreshold V) : Bool := decide (t.min ≤ value)

def chosen (value : V) (thresholds : List (SeverityThreshold V)) : Option (SeverityThreshold V) :=
  Highest.scan SeverityThreshold.min (clears value) thresholds

/-- The loop variables after a threshold was taken. -/
def Best.of : Option (SeverityThreshold V) → Best V
  | none => {}
  | some t => ⟨true, t.min, t.severity⟩

theorem consider_of (value : V) (b : Option (SeverityThreshold V)) (t : SeverityThreshold V) :
    (Best.of b).consider value t = .of (Highest.keep SeverityThreshold.min (clears value) b t) := by
  unfold Best.consider Highest.keep
  have hbest : (Best.of b).bestMin ≤ t.min ↔ ∀ u ∈ b, u.min ≤ t.min := by
    cases b with
    | none => simp [Best.of]
    | some u => simp [Best.of, WithBot.coe_le_coe]
  simp only [hbest, clears, decide_eq_true_eq]
  split <;> rfl

/-- **The loop is a scan for the highest threshold cleared.** -/
theorem severityFromThresholds_eq (value : V) (thresholds : List (SeverityThreshold V)) :
    severityFromThresholds value thresholds =
      match chosen value thresholds with
      | none => (.unknown, false)
      | some t => (.ofStr t.severity, true) := by
  have hloop : thresholds.foldl (Best.consider value) {} = .of (chosen value thresholds) := by
    unfold chosen
    induction thresholds using List.reverseRecOn with
    | nil => rfl
    | append_singleton ts t ih => rw [List.foldl_append, List.foldl_cons, List.foldl_nil, ih, consider_of,
        Highest.scan_concat]
  unfold severityFromThresholds
  rw [hloop]
  cases chosen value thresholds <;> rfl

theorem clears_mono {v w : V} (hvw : v ≤ w) (t : SeverityThreshold V) (h : clears v t) : clears w t := by
  simp only [clears, decide_eq_true_eq] at h ⊢
  exact h.trans hvw

theorem chosen_eq_none {value : V} {thresholds : List (SeverityThreshold V)} :
    chosen value thresholds = none ↔ ∀ t ∈ thresholds, value < t.min := by
  simp [chosen, Highest.scan_eq_none, clears]

/-- Severities that rise with their `min`. -/
def Rising (thresholds : List (SeverityThreshold V)) : Prop :=
  ∀ t ∈ thresholds, ∀ u ∈ thresholds, t.min ≤ u.min → (Severity.ofStr t.severity).code ≤ (Severity.ofStr u.severity).code

theorem severity_mono {thresholds : List (SeverityThreshold V)} (hrising : Rising thresholds) {v w : V} (hvw : v ≤ w) :
    (severityFromThresholds v thresholds).1.code ≤ (severityFromThresholds w thresholds).1.code := by
  rw [severityFromThresholds_eq v, severityFromThresholds_eq w]
  cases hv : chosen v thresholds with
  | none => exact Severity.unknown_le _
  | some t =>
    obtain ⟨u, hu, hle⟩ := Highest.scan_mono (clears_mono hvw) hv
    have hw : chosen w thresholds = some u := hu
    rw [hw]
    exact hrising t (Highest.tops_scan hv).mem u (Highest.tops_scan hu).mem hle

/-- **Severity thresholds need no order.**  Over thresholds with distinct `min` the severity is that of the highest one
the value clears, and none is found exactly when the value clears none; so the order of the list does not matter, and
severities that rise with their `min` rise with the value. -/
theorem severity_of_highest {thresholds : List (SeverityThreshold V)}
    (hdistinct : (thresholds.map SeverityThreshold.min).Nodup) :
    (∀ value,
      (∃ t ∈ thresholds, t.min ≤ value ∧ (∀ u ∈ thresholds, u.min ≤ value → u.min ≤ t.min) ∧
        severityFromThresholds value thresholds = (.ofStr t.severity, true)) ∨
      ((∀ t ∈ thresholds, value < t.min) ∧ severityFromThresholds value thresholds = (.unknown, false))) ∧
    (∀ value, (severityFromThresholds value thresholds).2 = false ↔ ∀ t ∈ thresholds, value < t.min) ∧
    (∀ value shuffled, thresholds.Perm shuffled →
      severityFromThresholds value shuffled = severityFromThresholds value thresholds) ∧
    (Rising thresholds → ∀ v w, v ≤ w →
      (severityFromThresholds v thresholds).1.code ≤ (severityFromThresholds w thresholds).1.code) := by
  refine ⟨fun value => ?_, fun value => ?_, fun value shuffled hperm => ?_, fun hrising v w => severity_mono hrising⟩
  · rw [severityFromThresholds_eq]
    cases ht : chosen value thresholds with
    | none => exact .inr ⟨chosen_eq_none.1 ht, rfl⟩
    | some t =>
      have htop := Highest.tops_scan ht
      exact .inl ⟨t, htop.mem, of_decide_eq_true htop.admitted,
        fun u hu hle => htop.highest u hu (decide_eq_true hle), rfl⟩
  · rw [severityFromThresholds_eq, ← chosen_eq_none]
    cases chosen value thresholds <;> simp
  · rw [severityFromThresholds_eq, severityFromThresholds_eq, chosen, ← Highest.scan_perm hperm hdistinct]
    rfl

/-- The thresholds of the source's comment, shuffled. -/
def commented : List (SeverityThreshold Int) := [⟨4000, "warning"⟩, ⟨0, "info"⟩, ⟨8000, "critical"⟩, ⟨2000, "watch"⟩]

theorem severity_of_highest_commented :
    (commented.map SeverityThreshold.min).Nodup ∧
      ((severityFromThresholds 4200 commented).2 = false ↔ ∀ t ∈ commented, 4200 < t.min) ∧
      severityFromThresholds 4200 commented = (.warning, true) :=
  ⟨by decide, (@severity_of_highest ℤ _ commented (by decide)).2.1 4200, by decide⟩

end Thresholds

/-! ## The advisory and its age -/

namespace Poller

/-- `advisory.Advisory` as a validator makes it: without an intended action. -/
structure Advisory where
  sourceId : String
  kind : String
  severity : Severity := .unknown
  value : Rat
  unit : String
  observedAt : Int := 0
  receivedAt : Int
deriving DecidableEq, Repr

/-- What the policy engine reads of it; `format` is `Time.Format`. -/
def Advisory.forPolicy (format : Int → String) (adv : Advisory) : Gateway.Advisory where
  sourceId := adv.sourceId
  kind := adv.kind
  severity := adv.severity.code
  receivedAt := format adv.receivedAt

/-- `Time.Sub`: the nanoseconds between two instants, saturated to a `time.Duration`. -/
def sub (t u : Int) : Int := max (-2 ^ 63) (min (t - u) (2 ^ 63 - 1))

/-- `Stale`, the duration in nanoseconds. -/
def Advisory.stale (a : Advisory) (now maxAge : Int) : Bool :=
  if a.observedAt = 0 then true else decide (maxAge < sub now a.observedAt)

/-- `time.Millisecond`. -/
def millisecond : Int := 1000000

/-! ## `genericValidator` -/

structure FieldMapping where
  valuePath : String := ""
  unitPath : String := ""
  observedAtPath : String := ""
  kindPath : String := ""
  severityPath : String := ""
  severityMap : String → Option String := fun _ => none
  severityThresholds : List (SeverityThreshold Rat) := []

/-- A `gjson.Result` that exists; its `Float` is `none` when that is NaN. -/
structure Found where
  float : Option Rat
  string : String

/-- What the libraries answer: `gjson.GetBytes`, `json.Unmarshal` and `time.Parse`. -/
structure Libraries (Body : Type) where
  get : Body → String → Option Found
  unmarshal : String → Option FieldMapping
  parse : String → String → Option Int

inductive ValidationError where
  | badFieldMap (id : String)
  | valuePathNotFound (id path : String)
  | valueNaN (id : String)
  | invalidTimestamp (id raw : String)
deriving DecidableEq, Repr

section

variable {Body : Type} (libs : Libraries Body)

/-- The layouts of `parseTimestamp`, in the order they are tried. -/
def layouts : List String :=
  ["2006-01-02T15:04:05Z07:00", "2006-01-02T15:04:05.999999999Z07:00", "2006-01-02T15:04:05"]

def parseTimestamp (raw : String) : Option Int := layouts.findSome? (fun layout => libs.parse layout raw)

def getStringWithFallback (body : Body) (path fallback : String) : String :=
  if path = "" then fallback
  else match libs.get body path with
    | none => fallback
    | some res => if res.string = "" then fallback else res.string

def severityFromMapped (val : String) (m : String → Option String) : Severity := .ofStr ((m val).getD val)

/-- The field map of a source; an empty text is the empty mapping. -/
def fieldMapping (src : ExternalSource) : Except ValidationError FieldMapping :=
  if src.fieldMap ≠ "" then
    match libs.unmarshal src.fieldMap with
    | none => .error (.badFieldMap src.id)
    | some fm => .ok fm
  else .ok {}

/-- The severity field when the mapping names one and the body has it, else the thresholds. -/
def severityOf (fm : FieldMapping) (body : Body) (value : Rat) : Severity :=
  match if fm.severityPath ≠ "" then libs.get body fm.severityPath else none with
  | some res => severityFromMapped res.string fm.severityMap
  | none => (Thresholds.severityFromThresholds value fm.severityThresholds).1

/-- The body's observation time, when the mapping names one and the body has it. -/
def observation (fm : FieldMapping) (body : Body) : Option Found :=
  if fm.observedAtPath ≠ "" then libs.get body fm.observedAtPath else none

def genericValidator (src : ExternalSource) (body : Body) (now : Int) : Except ValidationError Advisory := do
  let fm ← fieldMapping libs src
  match libs.get body fm.valuePath with
  | none => .error (.valuePathNotFound src.id fm.valuePath)
  | some res => match res.float with
    | none => .error (.valueNaN src.id)
    | some value =>
      let adv : Advisory :=
        { sourceId := src.id
          value := value
          kind := getStringWithFallback libs body fm.kindPath src.kind
          unit := getStringWithFallback libs body fm.unitPath ""
          receivedAt := now
          severity := severityOf libs fm body value }
      match observation libs fm body with
      | none => .ok adv
      | some res => match parseTimestamp libs res.string with
        | none => .error (.invalidTimestamp src.id res.string)
        | some t => .ok { adv with observedAt := t }

end

/-! ## `pollOnce` -/

abbrev Validator (Body : Type) := ExternalSource → Body → Int → Except ValidationError Advisory

/-- The validator of a source's kind, the generic one for a kind that has none. -/
def validatorFor {Body : Type} (validators : String → Option (Validator Body)) (src : ExternalSource) :
    Option (Validator Body) :=
  validators src.kind <|> validators "generic"

def outOfBounds (src : ExternalSource) (adv : Advisory) : Bool :=
  decide (src.maxValue ≠ 0) && (decide (adv.value < src.minValue) || decide (src.maxValue < adv.value))

/-- The validators of `New`. -/
def newValidators {Body : Type} (libs : Libraries Body) (kind : String) : Option (Validator Body) :=
  if kind = "generic" then some (genericValidator libs) else none

/-- `pollOnce`: what it submits to the sink, of the body `fetch` returned. -/
def pollOnce {Body : Type} (validators : String → Option (Validator Body)) (src : ExternalSource) (fetched : Option Body)
    (now : Int) : Option Advisory :=
  match fetched, validatorFor validators src with
  | some body, some v => match v src body now with
    | .error _ => none
    | .ok adv =>
      if outOfBounds src adv then none
      else if src.maxAgeMs ≠ 0 ∧ adv.stale now src.maxAgeMs then none
      else some adv
  | _, _ => none

section

variable {Body : Type}

/-- The instant of an accepted body: what `parseTimestamp` read where the mapping points, else the zero time. -/
theorem genericValidator_observedAt {libs : Libraries Body} {src : ExternalSource} {body : Body} {now : Int}
    {adv : Advisory} (h : genericValidator libs src body now = .ok adv) :
    ∃ fm, fieldMapping libs src = .ok fm ∧
      (observation libs fm body).elim (some 0) (fun res => parseTimestamp libs res.string) = some adv.observedAt := by
  unfold genericValidator at h
  cases hfm : fieldMapping libs src with
  | error e => rw [hfm] at h; cases h
  | ok fm =>
    refine ⟨fm, rfl, ?_⟩
    simp only [hfm, bind, Except.bind] at h
    split at h
    · cases h
    split at h
    · cases h
    split at h
    · rename_i hobs
      cases h
      rw [hobs]
      rfl
    · rename_i res hobs
      split at h
      · cases h
      · rename_i t ht
        cases h
        rw [hobs]
        exact ht

/-- An advisory carries the id of its source. -/
theorem genericValidator_sourceId {libs : Libraries Body} {src : ExternalSource} {body : Body} {now : Int}
    {adv : Advisory} (h : genericValidator libs src body now = .ok adv) : adv.sourceId = src.id := by
  unfold genericValidator at h
  cases hfm : fieldMapping libs src with
  | error e => rw [hfm] at h; cases h
  | ok fm =>
    simp only [hfm, bind, Except.bind] at h
    split at h
    · cases h
    split at h
    · cases h
    split at h
    · cases h
      rfl
    · split at h
      · cases h
      · cases h
        rfl

/-- **A polled advisory fires the rules that are about its source, its kind and no higher severity**: what another source
reports never fires a rule that names this one. -/
theorem matches_polled {libs : Libraries Body} {src : ExternalSource} {body : Body} {now : Int} {adv : Advisory}
    (h : pollOnce (newValidators libs) src (some body) now = some adv) (format : Int → String) (r : Rule) :
    r.matches (adv.forPolicy format) = true ↔ r.enabled = true ∧ (r.matchKind = "" ∨ r.matchKind = adv.kind) ∧
      r.matchMinSeverity ≤ adv.severity.code ∧ (r.matchSourceId = "" ∨ r.matchSourceId = src.id) := by
  have hsource : adv.sourceId = src.id := by
    have hv : validatorFor (newValidators libs) src = some (genericValidator libs) := by
      unfold validatorFor newValidators
      split <;> rfl
    unfold pollOnce at h
    rw [hv] at h
    dsimp only at h
    split at h
    · cases h
    rename_i adv' hadv
    split at h
    · cases h
    split at h
    · cases h
    · exact Option.some.inj h ▸ genericValidator_sourceId hadv
  rw [← hsource]
  unfold Rule.matches Advisory.forPolicy
  simp only [Bool.not_eq_true']
  split
  · rename_i hoff
    simp [hoff]
  rename_i hon
  split
  · rename_i hkind
    simp [hkind.1, hkind.2]
  rename_i hkind
  split
  · rename_i hsev
    simp [Int.not_le.2 hsev]
  rename_i hsev
  split
  · rename_i hsrc
    simp [hsrc.1, hsrc.2]
  · rename_i hsrc
    simp only [not_and_or, not_not] at hkind hsrc
    simp only [true_iff]
    exact ⟨by simpa using hon, hkind, Int.not_lt.1 hsev, hsrc⟩

/-- The value is within the source's bounds; a maximum of zero is none. -/
def InBounds (src : ExternalSource) (adv : Advisory) : Prop :=
  src.maxValue = 0 ∨ src.minValue ≤ adv.value ∧ adv.value ≤ src.maxValue

theorem outOfBounds_eq_false (src : ExternalSource) (adv : Advisory) :
    outOfBounds src adv = false ↔ InBounds src adv := by
  unfold outOfBounds InBounds
  by_cases hmax : src.maxValue = 0
  · simp [hmax]
  · simp [hmax, not_lt]

/-- The advisory has an observation time, at most `maxAgeMs` milliseconds ago; a maximum of zero is none. -/
def Fresh (src : ExternalSource) (adv : Advisory) (now : Int) : Prop :=
  src.maxAgeMs = 0 ∨ adv.observedAt ≠ 0 ∧ now - adv.observedAt ≤ src.maxAgeMs * millisecond

/-- `maxAgeMs` nanoseconds and `maxAgeMs` milliseconds disagree on the age of the observation. -/
def BetweenUnits (src : ExternalSource) (adv : Advisory) (now : Int) : Prop :=
  src.maxAgeMs ≠ 0 ∧ adv.observedAt ≠ 0 ∧
    (src.maxAgeMs < sub now adv.observedAt ∧ now - adv.observedAt ≤ src.maxAgeMs * millisecond ∨
      sub now adv.observedAt ≤ src.maxAgeMs ∧ src.maxAgeMs * millisecond < now - adv.observedAt)

/-- The code's age check is the one in milliseconds, but between the units. -/
theorem stale_iff (src : ExternalSource) (adv : Advisory) (now : Int) :
    (¬(src.maxAgeMs ≠ 0 ∧ adv.stale now src.maxAgeMs = true) ↔ Fresh src adv now) ↔ ¬BetweenUnits src adv now := by
  unfold Fresh BetweenUnits Advisory.stale
  by_cases hmax : src.maxAgeMs = 0
  · simp [hmax]
  · by_cases hobs : adv.observedAt = 0
    · simp [hmax, hobs]
    · simp only [hmax, hobs, if_false, decide_eq_true_eq]
      generalize sub now adv.observedAt = age
      generalize now - adv.observedAt = exact
      generalize src.maxAgeMs * millisecond = limit
      simp only [ne_eq, false_or]
      omega

theorem pollOnce_eq {validators : String → Option (Validator Body)} {src : ExternalSource} {v : Validator Body}
    (hv : validatorFor validators src = some v) {body : Body} {now : Int} {adv : Advisory}
    (hadv : v src body now = .ok adv) :
    pollOnce validators src (some body) now = some adv ↔
      InBounds src adv ∧ ¬(src.maxAgeMs ≠ 0 ∧ adv.stale now src.maxAgeMs = true) := by
  simp only [pollOnce, hv, hadv]
  rw [← outOfBounds_eq_false]
  cases outOfBounds src adv with
  | true => simp
  | false =>
    rw [if_neg (by decide)]
    split
    · rename_i h
      simp [h]
    · rename_i h
      simp only [true_and, true_iff]
      exact h

/-- **When the poller's age check is the configured one.**  Whatever the validator accepts is submitted exactly if its
value is in bounds and its observation at most `maxAgeMs` milliseconds old, but for a value in bounds whose age lies
between `maxAgeMs` nanoseconds, which the code compares with, and `maxAgeMs` milliseconds. -/
theorem submits_fresh_iff {validators : String → Option (Validator Body)} {src : ExternalSource} {v : Validator Body}
    (hv : validatorFor validators src = some v) {body : Body} {now : Int} {adv : Advisory}
    (hadv : v src body now = .ok adv) :
    (pollOnce validators src (some body) now = some adv ↔ InBounds src adv ∧ Fresh src adv now) ↔
      ¬(InBounds src adv ∧ BetweenUnits src adv now) := by
  rw [pollOnce_eq hv hadv]
  have hage := stale_iff src adv now
  by_cases hin : InBounds src adv
  · simpa only [hin, true_and] using hage
  · simp only [hin, false_and, not_false_eq_true]

end

/-- 2026-01-01T00:00:00Z. -/
def newYear : Int := 63902822400 * 1000 * millisecond

/-- A body `{"level": 42, "at": "2026-01-01T00:00:00Z"}`. -/
def gauge : Libraries Unit where
  get _ path :=
    if path = "level" then some ⟨some 42, "42"⟩
    else if path = "at" then some ⟨none, "2026-01-01T00:00:00Z"⟩
    else none
  unmarshal _ := some { valuePath := "level", observedAtPath := "at" }
  parse layout raw :=
    if layout = "2006-01-02T15:04:05Z07:00" ∧ raw = "2026-01-01T00:00:00Z" then some newYear else none

/-- A source that allows its readings to be a minute old. -/
def minuteOld : ExternalSource :=
  { id := "gauge", url := "http://gauge", kind := "generic", maxAgeMs := 60000,
    fieldMap := "\x7b\"value_path\": \"level\", \"observed_at_path\": \"at\"\x7d" }

def level (receivedAt : Int) : Advisory :=
  { sourceId := "gauge", kind := "generic", value := 42, unit := "", observedAt := newYear, receivedAt := receivedAt }

theorem gauge_level (now : Int) : genericValidator gauge minuteOld () now = .ok (level now) := rfl

/-- A reading that is no older than the minute in nanoseconds is submitted, being in bounds and fresh. -/
theorem submits_fresh_iff_gauge :
    let now := newYear + 60000
    InBounds minuteOld (level now) ∧ Fresh minuteOld (level now) now := by
  intro now
  have hv : validatorFor (newValidators gauge) minuteOld = some (genericValidator gauge) := rfl
  have hsubmits := (submits_fresh_iff hv (gauge_level now)).2 (fun h => absurd h.2.2.2 (by decide))
  exact hsubmits.1 (by decide)

/-- **A reading one second old is dropped**, though the source allows a minute. -/
theorem second_old_dropped :
    ¬∀ (libs : Libraries Unit) (src : ExternalSource) (body : Unit) (now : Int) (adv : Advisory),
      genericValidator libs src body now = .ok adv →
        (pollOnce (newValidators libs) src (some body) now = some adv ↔ InBounds src adv ∧ Fresh src adv now) := by
  intro h
  have hfresh : Fresh minuteOld (level (newYear + 1000 * millisecond)) (newYear + 1000 * millisecond) :=
    .inr ⟨by decide, by decide⟩
  have hsubmitted := (h gauge minuteOld () (newYear + 1000 * millisecond) _ (gauge_level _)).2 ⟨.inl rfl, hfresh⟩
  have hdropped : pollOnce (newValidators gauge) minuteOld (some ()) (newYear + 1000 * millisecond) = none := by decide
  rw [hdropped] at hsubmitted
  cases hsubmitted

end Poller

end Gateway
end FloodEws
