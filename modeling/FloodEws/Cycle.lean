import FloodEws.Jsn
import FloodEws.Runs
/-!
# Cycle — `edge/src/sensor/sensor_cycle.hpp`, over `common/periodic_task.hpp`

Sleep, warm up, trigger, wait for the echo or the timeout, read, sleep.  A timer that expires submits its work to the
system queue, which runs one handler after the other; stopping a timer does not take its work back.  How long a timer
runs is left open, so any timer that is set may expire next.

As designed, a measurement goes through the stages of `Phase`.  `reschedule` takes it back to the first one, unless a
handler is queued: that one still runs (`one_reading_per_trigger`).
-/
namespace FloodEws
namespace Jsn

inductive Timer where
  | sleep
  | warmup
  | timeout
deriving DecidableEq, Repr

/-- The `k_work` of each timer, and `m_read_work`. -/
inductive Work where
  | elapsed (t : Timer)
  | read
deriving DecidableEq, Repr

/-- What happens to a measurement.  A timeout that resolves it carries the number of triggers when its work was queued. -/
inductive Happening where
  | trigger
  | valid
  | timedOut (queuedAt : Nat)
  | abort
  | emit (isReady : Bool) (raw : UInt16)
deriving DecidableEq, Repr

/-- Beside the source's, the history, newest first, and the number of triggers when the timeout's work was last queued. -/
structure SensorCycle where
  driver : Driver := {}
  sleep : Bool := false
  warmup : Bool := false
  timeout : Bool := false
  queue : List Work := []
  log : List Happening := []
  queuedAt : Nat := 0
deriving DecidableEq

inductive CycleAct where
  | expire (t : Timer)
  | work
  | edge (level : Bool) (cycles : UInt32)
  | reschedule
deriving DecidableEq

def triggers (log : List Happening) : Nat := log.count .trigger

/-- What has happened since the last trigger. -/
def sinceTrigger (log : List Happening) : List Happening := log.takeWhile (· ≠ .trigger)

namespace SensorCycle

def set (t : Timer) (on : Bool) (c : SensorCycle) : SensorCycle :=
  match t with
  | .sleep => { c with sleep := on }
  | .warmup => { c with warmup := on }
  | .timeout => { c with timeout := on }

def isSet (t : Timer) (c : SensorCycle) : Bool :=
  match t with
  | .sleep => c.sleep
  | .warmup => c.warmup
  | .timeout => c.timeout

def oneShot (t : Timer) (c : SensorCycle) : SensorCycle := c.set t true

def stop (t : Timer) (c : SensorCycle) : SensorCycle := c.set t false

/-- `k_work_submit`: work that is queued already is not queued again. -/
def submit (w : Work) (c : SensorCycle) : SensorCycle := if w ∈ c.queue then c else { c with queue := c.queue ++ [w] }

/-- `timer_trampoline`, of a one-shot timer. -/
def expire (t : Timer) (c : SensorCycle) : SensorCycle :=
  { (c.stop t).submit (.elapsed t) with
    queuedAt := if t = .timeout ∧ .elapsed .timeout ∉ c.queue then triggers c.log else c.queuedAt }

/-- The callback of `on_done`. -/
def onDone (c : SensorCycle) : SensorCycle := (c.stop .timeout).submit .read

/-- `start`: the sleep timer is set. -/
def start (c : SensorCycle) : SensorCycle := c.oneShot .sleep

def abort (c : SensorCycle) : SensorCycle :=
  { ((c.stop .sleep).stop .warmup).stop .timeout with driver := c.driver.reset, log := .abort :: c.log }

def reschedule (c : SensorCycle) : SensorCycle := c.abort.oneShot .sleep

def onSleepElapsed (c : SensorCycle) : SensorCycle := c.oneShot .warmup

def onWarmupElapsed (c : SensorCycle) : SensorCycle :=
  { c with driver := c.driver.trigger, log := .trigger :: c.log }.oneShot .timeout

def onTimeoutElapsed (c : SensorCycle) : SensorCycle :=
  match c.driver.onTimeout with
  | (d, none) => { c with driver := d }
  | (d, some _) => { c with driver := d, log := .timedOut c.queuedAt :: c.log }.onDone

def doRead (c : SensorCycle) : SensorCycle :=
  let isReady := decide (c.driver.state = .valid)
  { c with driver := c.driver.reset, log := .emit isReady c.driver.distanceMm :: c.log }.oneShot .sleep

def run : Work → SensorCycle → SensorCycle
  | .elapsed .sleep => onSleepElapsed
  | .elapsed .warmup => onWarmupElapsed
  | .elapsed .timeout => onTimeoutElapsed
  | .read => doRead

/-- The queue hands out its oldest item, which may be queued again from then on. -/
def work (c : SensorCycle) : SensorCycle :=
  match c.queue with
  | [] => c
  | w :: rest => { c with queue := rest }.run w

def edge (cycToUs : UInt32 → UInt32) (level : Bool) (cycles : UInt32) (c : SensorCycle) : SensorCycle :=
  match c.driver.onEdge cycToUs level cycles with
  | (d, none) => { c with driver := d }
  | (d, some _) => { c with driver := d, log := .valid :: c.log }.onDone

def enabled (c : SensorCycle) : CycleAct → Prop
  | .expire t => c.isSet t = true
  | .work => c.queue ≠ []
  | .edge _ _ => c.driver.armed = true
  | .reschedule => True

def exec (cycToUs : UInt32 → UInt32) (c : SensorCycle) : CycleAct → SensorCycle
  | .expire t => c.expire t
  | .work => c.work
  | .edge level cycles => c.edge cycToUs level cycles
  | .reschedule => c.reschedule

def sys (cycToUs : UInt32 → UInt32) : Sys SensorCycle CycleAct where
  init := start {}
  enabled := enabled
  exec := exec cycToUs

end SensorCycle

/-! ## One reading a measurement -/

/-- The driver reached VALID or TIMEOUT. -/
def Happening.resolves : Happening → Bool
  | .valid => true
  | .timedOut _ => true
  | _ => false

/-- A measurement was triggered, not aborted, and no reading was made of it. -/
structure Open (past : List Happening) : Prop where
  triggered : .trigger ∈ past
  first : ∀ isReady raw, .emit isReady raw ∉ sinceTrigger past
  kept : .abort ∉ sinceTrigger past

/-- The measurement is open, and the driver has resolved it. -/
structure Earned (past : List Happening) : Prop extends Open past where
  resolved : ∃ h ∈ sinceTrigger past, h.resolves

/-- Every reading is of an open measurement that is resolved, and no timeout resolves a later measurement than the one it
was queued for. -/
def OneReading : List Happening → Prop
  | [] => True
  | .emit _ _ :: past => Earned past ∧ OneReading past
  | .timedOut queuedAt :: past => queuedAt = triggers past ∧ OneReading past
  | _ :: past => OneReading past

section

variable {log : List Happening}

theorem sinceTrigger_cons {h : Happening} (hne : h ≠ .trigger) : sinceTrigger (h :: log) = h :: sinceTrigger log := by
  simp [sinceTrigger, hne]

theorem open_trigger : Open (.trigger :: log) := ⟨by simp, by simp [sinceTrigger], by simp [sinceTrigger]⟩

/-- An open measurement that is resolved is earned. -/
theorem Open.resolve (hopen : Open log) {h : Happening} (hres : h.resolves = true) : Earned (h :: log) := by
  have hne : h ≠ .trigger := by
    rintro rfl
    cases hres
  refine ⟨⟨List.mem_cons_of_mem _ hopen.triggered, fun isReady raw hmem => ?_, fun hmem => ?_⟩, h, ?_, hres⟩
  · rw [sinceTrigger_cons hne] at hmem
    rcases List.mem_cons.1 hmem with rfl | hmem
    · cases hres
    · exact hopen.first _ _ hmem
  · rw [sinceTrigger_cons hne] at hmem
    rcases List.mem_cons.1 hmem with rfl | hmem
    · cases hres
    · exact hopen.kept hmem
  · rw [sinceTrigger_cons hne]
    exact List.mem_cons_self

end

/-- **What an edge does**: nothing the cycle sees, or it resolves the measurement in flight. -/
theorem Driver.onEdge_cases (cycToUs : UInt32 → UInt32) (level : Bool) (cycles : UInt32) (d : Driver) :
    (∃ d', d.onEdge cycToUs level cycles = (d', none) ∧ d'.state = d.state ∧ d'.resolved = d.resolved ∧
      d'.armed = d.armed) ∨
    (d.state = .inFlight ∧ ∃ d', d.onEdge cycToUs level cycles = (d', some .valid) ∧ d'.state = .valid ∧
      d'.resolved = true) := by
  unfold Driver.onEdge
  split
  · exact .inl ⟨d, rfl, rfl, rfl, rfl⟩
  split
  · exact .inl ⟨_, rfl, rfl, rfl, rfl⟩
  split
  · rename_i hfall
    dsimp only
    split
    · exact .inl ⟨d, rfl, rfl, rfl, rfl⟩
    · exact .inr ⟨hfall.2.1, _, rfl, rfl, rfl⟩
  · exact .inl ⟨d, rfl, rfl, rfl, rfl⟩

/-! ## The stages of a measurement -/

inductive Phase where
  | asleep
  | slept
  | warming
  | warmed
  | inFlight
  | expired
  | resolved
  /-- resolved by the echo with the timeout queued before it -/
  | resolvedLate
deriving DecidableEq, Repr

namespace Phase

/-- The one timer that is set. -/
def timer : Phase → Option Timer
  | .asleep => some .sleep
  | .warming => some .warmup
  | .inFlight => some .timeout
  | _ => none

def queue : Phase → List Work
  | .slept => [.elapsed .sleep]
  | .warmed => [.elapsed .warmup]
  | .expired => [.elapsed .timeout]
  | .resolved => [.read]
  | .resolvedLate => [.elapsed .timeout, .read]
  | _ => []

def Driving (d : Driver) : Phase → Prop
  | .inFlight | .expired => d.state = .inFlight ∧ d.resolved = false
  | .resolved | .resolvedLate => d.state ≠ .inFlight ∧ d.resolved = true
  | _ => d.state = .idle ∧ d.resolved = false

def Past (log : List Happening) (queuedAt : Nat) : Phase → Prop
  | .inFlight => Open log
  | .expired => Open log ∧ queuedAt = triggers log
  | .resolved | .resolvedLate => Earned log
  | _ => True

end Phase

/-- The cycle is at this stage, and every reading so far was earned. -/
structure At (p : Phase) (c : SensorCycle) : Prop where
  sleep : c.sleep = decide (p.timer = some .sleep)
  warmup : c.warmup = decide (p.timer = some .warmup)
  timeout : c.timeout = decide (p.timer = some .timeout)
  queue : c.queue = p.queue
  driver : p.Driving c.driver
  past : p.Past c.log c.queuedAt
  log : OneReading c.log

namespace SensorCycle

/-- `reschedule` is called while no work is queued. -/
def Quiet (c : SensorCycle) : CycleAct → Prop
  | .reschedule => c.queue = []
  | _ => True

end SensorCycle

namespace At

variable {p : Phase} {c : SensorCycle}

theorem timer_of_isSet (h : At p c) {t : Timer} (ht : c.isSet t = true) : p.timer = some t := by
  cases t with
  | sleep => exact of_decide_eq_true (h.sleep ▸ ht)
  | warmup => exact of_decide_eq_true (h.warmup ▸ ht)
  | timeout => exact of_decide_eq_true (h.timeout ▸ ht)

theorem expire (h : At p c) {t : Timer} (ht : c.isSet t = true) : ∃ p', At p' (c.expire t) := by
  have htimer := h.timer_of_isSet ht
  obtain ⟨driver, sleep, warmup, timeout, queue, log, queuedAt⟩ := c
  obtain ⟨rfl, rfl, rfl, rfl, hdriver, hpast, hlog⟩ := h
  cases p <;> cases htimer
  · exact ⟨.slept, rfl, rfl, rfl, rfl, hdriver, trivial, hlog⟩
  · exact ⟨.warmed, rfl, rfl, rfl, rfl, hdriver, trivial, hlog⟩
  · exact ⟨.expired, rfl, rfl, rfl, rfl, hdriver, ⟨hpast, rfl⟩, hlog⟩

theorem work (h : At p c) (hne : c.queue ≠ []) : ∃ p', At p' c.work := by
  obtain ⟨driver, sleep, warmup, timeout, queue, log, queuedAt⟩ := c
  obtain ⟨rfl, rfl, rfl, rfl, hdriver, hpast, hlog⟩ := h
  cases p with
  | asleep => exact absurd rfl hne
  | warming => exact absurd rfl hne
  | inFlight => exact absurd rfl hne
  | slept => exact ⟨.warming, rfl, rfl, rfl, rfl, hdriver, trivial, hlog⟩
  | warmed => exact ⟨.inFlight, rfl, rfl, rfl, rfl, ⟨rfl, rfl⟩, open_trigger, hlog⟩
  | expired =>
    -- the timeout claims the measurement that is still in flight
    obtain ⟨hopen, hqueued⟩ := hpast
    obtain ⟨dstate, dist, dresolved, rising, armed⟩ := driver
    obtain ⟨-, rfl⟩ : _ ∧ dresolved = false := hdriver
    exact ⟨.resolved, rfl, rfl, rfl, rfl, ⟨nofun, rfl⟩, hopen.resolve rfl, hqueued, hlog⟩
  | resolved => exact ⟨.asleep, rfl, rfl, rfl, rfl, ⟨rfl, rfl⟩, trivial, hpast, hlog⟩
  | resolvedLate =>
    -- the timeout comes after the echo
    obtain ⟨dstate, dist, dresolved, rising, armed⟩ := driver
    obtain ⟨hstate, rfl⟩ : _ ∧ dresolved = true := hdriver
    exact ⟨.resolved, rfl, rfl, rfl, rfl, ⟨hstate, rfl⟩, hpast, hlog⟩

theorem edge (h : At p c) (cycToUs : UInt32 → UInt32) (level : Bool) (cycles : UInt32) :
    ∃ p', At p' (c.edge cycToUs level cycles) := by
  obtain ⟨driver, sleep, warmup, timeout, queue, log, queuedAt⟩ := c
  obtain ⟨rfl, rfl, rfl, rfl, hdriver, hpast, hlog⟩ := h
  unfold SensorCycle.edge
  rcases driver.onEdge_cases cycToUs level cycles with ⟨d, hd, hstate, hresolved, -⟩ | ⟨hflight, d, hd, hstate, hresolved⟩
  · have hsame : p.Driving d := by
      cases p <;> simpa only [Phase.Driving, hstate, hresolved] using hdriver
    simp only [hd]
    exact ⟨p, rfl, rfl, rfl, rfl, hsame, hpast, hlog⟩
  · have hdone : d.state ≠ .inFlight ∧ d.resolved = true := by
      rw [hstate]
      exact ⟨nofun, hresolved⟩
    have hidle : ¬(driver.state = .idle ∧ driver.resolved = false) := by
      rintro ⟨hidle, -⟩
      rw [hflight] at hidle
      cases hidle
    simp only [hd]
    cases p with
    | inFlight => exact ⟨.resolved, rfl, rfl, rfl, rfl, hdone, Open.resolve hpast rfl, hlog⟩
    | expired => exact ⟨.resolvedLate, rfl, rfl, rfl, rfl, hdone, Open.resolve hpast.1 rfl, hlog⟩
    | asleep => exact absurd hdriver hidle
    | slept => exact absurd hdriver hidle
    | warming => exact absurd hdriver hidle
    | warmed => exact absurd hdriver hidle
    | resolved => exact absurd hflight hdriver.1
    | resolvedLate => exact absurd hflight hdriver.1

theorem reschedule (h : At p c) (hquiet : c.queue = []) : At .asleep c.reschedule := by
  obtain ⟨driver, sleep, warmup, timeout, queue, log, queuedAt⟩ := c
  exact ⟨rfl, rfl, rfl, hquiet, ⟨rfl, rfl⟩, trivial, h.log⟩

theorem exec (h : At p c) (cycToUs : UInt32 → UInt32) {a : CycleAct} (he : c.enabled a) (hq : c.Quiet a) :
    ∃ p', At p' (c.exec cycToUs a) := by
  cases a with
  | expire t => exact h.expire he
  | work => exact h.work he
  | edge level cycles => exact h.edge cycToUs level cycles
  | reschedule => exact ⟨.asleep, h.reschedule hq⟩

end At

/-- **A quiet cycle is always at one of the stages.** -/
theorem exists_phase {cycToUs : UInt32 → UInt32} {c : SensorCycle}
    (h : (SensorCycle.sys cycToUs).Reachable SensorCycle.Quiet c) : ∃ p, At p c := by
  refine h.invariant (P := fun c => ∃ p, At p c) ?_ (fun _ _ ⟨_, hp⟩ he hq => hp.exec cycToUs he hq)
  exact ⟨.asleep, rfl, rfl, rfl, rfl, ⟨rfl, rfl⟩, trivial, trivial⟩

/-! ## A reschedule with work queued -/

/-- The cycle triggers while the sleep timer of a reschedule runs. -/
def rewoken : List CycleAct := [.expire .sleep, .work, .expire .warmup, .expire .timeout, .work, .work]

/-- From a reschedule at this stage, a run to a reading or a timeout that should not be. -/
def leak : Phase → List CycleAct
  | .slept => [.work, .expire .warmup, .work] ++ rewoken
  | .warmed => .work :: rewoken
  | .expired | .resolvedLate => [.work, .work]
  | .resolved => [.work]
  | _ => []

/-- **A reschedule with work queued reaches a false reading**: the one of the measurement it aborted, or a second
measurement that the timeout of the first resolves. -/
theorem At.leaks {p : Phase} {c : SensorCycle} (h : At p c) (hne : c.queue ≠ []) (cycToUs : UInt32 → UInt32) :
    (SensorCycle.sys cycToUs).Legal Sys.always (leak p) c.reschedule ∧
      ¬OneReading ((SensorCycle.sys cycToUs).run (leak p) c.reschedule).log := by
  obtain ⟨⟨dstate, dist, dresolved, rising, armed⟩, sleep, warmup, timeout, queue, log, queuedAt⟩ := c
  obtain ⟨rfl, rfl, rfl, rfl, hdriver, hpast, hlog⟩ := h
  cases p with
  | asleep => exact absurd rfl hne
  | warming => exact absurd rfl hne
  | inFlight => exact absurd rfl hne
  | slept =>
    refine ⟨⟨nofun, trivial, rfl, trivial, nofun, trivial, rfl, trivial, nofun, trivial, rfl, trivial, rfl, trivial,
      nofun, trivial, nofun, trivial, trivial⟩, fun hone => ?_⟩
    have htwice : triggers (.trigger :: .abort :: log) = triggers (.trigger :: .trigger :: .abort :: log) := hone.1
    simp [triggers] at htwice
  | warmed =>
    refine ⟨⟨nofun, trivial, rfl, trivial, nofun, trivial, rfl, trivial, rfl, trivial, nofun, trivial, nofun, trivial,
      trivial⟩, fun hone => ?_⟩
    have htwice : triggers (.trigger :: .abort :: log) = triggers (.trigger :: .trigger :: .abort :: log) := hone.1
    simp [triggers] at htwice
  | expired =>
    refine ⟨⟨nofun, trivial, nofun, trivial, trivial⟩, fun hone => ?_⟩
    have habort : .abort ∈ sinceTrigger (.timedOut queuedAt :: .abort :: log) := by simp [sinceTrigger]
    exact hone.1.kept habort
  | resolved =>
    refine ⟨⟨nofun, trivial, trivial⟩, fun hone => ?_⟩
    have habort : .abort ∈ sinceTrigger (.abort :: log) := by simp [sinceTrigger]
    exact hone.1.kept habort
  | resolvedLate =>
    refine ⟨⟨nofun, trivial, nofun, trivial, trivial⟩, fun hone => ?_⟩
    have habort : .abort ∈ sinceTrigger (.timedOut queuedAt :: .abort :: log) := by simp [sinceTrigger]
    exact hone.1.kept habort

/-- **When there is one reading per measurement.**  In every run in which `reschedule` comes only while no work is queued,
every reading is the first of a measurement triggered, resolved and not aborted, and no timeout resolves a later
measurement than its own; a `reschedule` that comes while work is queued lets one through that is not. -/
theorem one_reading_per_trigger (cycToUs : UInt32 → UInt32) (c : SensorCycle)
    (h : (SensorCycle.sys cycToUs).Reachable SensorCycle.Quiet c) :
    OneReading c.log ∧
      (c.queue ≠ [] → ∃ c', (SensorCycle.sys cycToUs).Reaches Sys.always (c.exec cycToUs .reschedule) c' ∧
        ¬OneReading c'.log) := by
  obtain ⟨p, hp⟩ := exists_phase h
  refine ⟨hp.log, fun hne => ?_⟩
  obtain ⟨hlegal, hleak⟩ := hp.leaks hne cycToUs
  exact ⟨_, Sys.reaches_run _ _ hlegal, hleak⟩

/-- A measurement up to its echo: the read work is queued. -/
def echoed : List CycleAct := [.expire .sleep, .work, .expire .warmup, .work, .edge true 1000, .edge false 6800]

theorem legal_echoed (ok : SensorCycle → CycleAct → Prop)
    (hok : ∀ c a, a ≠ .reschedule → ok c a) : (SensorCycle.sys id).Legal ok echoed (SensorCycle.sys id).init :=
  ⟨rfl, hok _ _ nofun, nofun, hok _ _ nofun, rfl, hok _ _ nofun, nofun, hok _ _ nofun, rfl, hok _ _ nofun, rfl,
    hok _ _ nofun, trivial⟩

theorem one_reading_per_trigger_echoed :
    let c := (SensorCycle.sys id).run (echoed ++ [.work]) (SensorCycle.sys id).init
    c.log = [.emit true 1000, .valid, .trigger] ∧ OneReading c.log := by
  have hreach : (SensorCycle.sys id).Reachable SensorCycle.Quiet
      ((SensorCycle.sys id).run [.work] ((SensorCycle.sys id).run echoed (SensorCycle.sys id).init)) := by
    refine Sys.Reachable.trans (Sys.reaches_run _ _ (legal_echoed _ ?_)) (Sys.reaches_run _ _ ⟨nofun, trivial, trivial⟩)
    rintro c (t | _ | _ | _) hne <;> trivial
  exact ⟨by decide, (one_reading_per_trigger id _ hreach).1⟩

/-- **A reading of an aborted measurement**: `reschedule` comes between the echo and its read work. -/
theorem reading_after_abort :
    ¬∀ c, (SensorCycle.sys id).Reachable Sys.always c → OneReading c.log := by
  intro h
  have hreach : (SensorCycle.sys id).Reachable Sys.always
      ((SensorCycle.sys id).run [.reschedule, .work] ((SensorCycle.sys id).run echoed (SensorCycle.sys id).init)) :=
    Sys.Reachable.trans (Sys.reaches_run _ _ (legal_echoed _ fun _ _ _ => trivial))
      (Sys.reaches_run _ _ ⟨trivial, trivial, nofun, trivial, trivial⟩)
  exact (h _ hreach).1.kept (by decide)

end Jsn
end FloodEws
