import FloodEws.Views
import FloodEws.Runs
/-!
# Watchdog — the actuator daemon over whole runs

The daemon of `Actuator` together with its clock, its heartbeat and the loop `RunWatchdog`, in any order of calls and
with any failures of the backend.  A call is under the daemon's lock from end to end; the watchdog reads the heartbeat
under the lock, releases it, and only then drives, so other calls may come in between.

The recorded states are those of the devices (`view_matches_device`).  The watchdog drives once for each silence, so what
it has driven stays there only until it is moved again (`failsafe_while_silent`).
-/
namespace FloodEws
namespace Gateway

/-- Where `RunWatchdog` is: a ticker with no positive period panics. -/
inductive Phase where
  | start
  | ticker
  | select
  | drive
  | stopped
  | crashed
deriving DecidableEq, Repr

/-- The daemon, its clock and its watchdog loop, and of the past: what the backend had been asked when the present tick
began and when the watchdog last tripped, which actuators have since been commanded, or given another failsafe state while
tracked, whether the step just made ended a tick that found the control loop silent, and which actuators `SetSpecs` has
re-defined without the state they are recorded in. -/
structure Watch where
  daemon : Daemon
  wdTimeout : Int
  now : Int := 0
  lastBeat : Int := 0
  phase : Phase := .start
  tripped : Bool := false
  tickFrom : List Apply := []
  tripFrom : List Apply := []
  commanded : String → Bool := fun _ => false
  redefined : String → Bool := fun _ => false
  ticked : Bool := false
  stranded : String → Bool := fun _ => false

inductive WatchAct where
  | wait (dt : Nat)
  | heartbeat
  | execute (fails : Bool) (c : Command)
  | setSpecs (specs : List Spec) (fails : String → Bool) (order : List String)
  | driveAllFailsafe (reason : String) (fails : String → Bool) (order : List String)
  /-- the next step of `RunWatchdog`: whether its context is done, and how a drive goes -/
  | watchdog (cancelled : Bool) (fails : String → Bool) (order : List String)

namespace Watch

/-- What the backend has been asked since it had been asked `old`. -/
def since (old cur : List Apply) : List Apply := cur.take (cur.length - old.length)

def newFailsafe (d : Daemon) (next : String → Option Spec) (id : String) : Bool :=
  match d.state id, d.specs id, next id with
  | some _, some old, some new => decide (old.failsafeState ≠ new.failsafeState)
  | _, _, _ => false

/-- The re-definition leaves the actuator in a state it had, and has no longer. -/
def strands (w : Watch) (next : String → Option Spec) (id : String) : Bool :=
  match w.daemon.state id, w.daemon.specs id, next id with
  | some state, some old, some new => (w.stranded id || old.validState state) && !new.validState state
  | _, _, _ => false

/-- The actuator is where it was left. -/
def unmoved (w : Watch) (d : Daemon) (id : String) : Bool := w.stranded id && decide (d.state id = w.daemon.state id)

def drive (reason : String) (fails : String → Bool) (order : List String) (w : Watch) : Watch :=
  { w with
    daemon := w.daemon.driveAllFailsafe reason fails order
    stranded := w.unmoved (w.daemon.driveAllFailsafe reason fails order) }

def watchdog (cancelled : Bool) (fails : String → Bool) (order : List String) (w : Watch) : Watch :=
  match w.phase with
  | .start =>
    if w.wdTimeout ≤ 0 then { w.drive "shutdown" fails order with phase := .ticker }
    else { w with phase := .ticker }
  | .ticker => if w.wdTimeout / 2 ≤ 0 then { w with phase := .crashed } else { w with phase := .select }
  | .select =>
    if cancelled then { w.drive "shutdown" fails order with phase := .stopped }
    else if w.now - w.lastBeat > w.wdTimeout then
      if w.tripped then { w with ticked := true, tickFrom := w.daemon.applies }
      else { w with phase := .drive, tickFrom := w.daemon.applies }
    else { w with tripped := false }
  | .drive =>
    { w.drive "watchdog" fails order with
      phase := .select
      tripped := true
      ticked := true
      tripFrom := w.daemon.applies
      commanded := fun _ => false
      redefined := fun _ => false }
  | .stopped => w
  | .crashed => w

def applied : Except ActuatorError Result × Daemon → Bool
  | (.ok res, _) => res.applied
  | (.error _, _) => false

def exec (w : Watch) (a : WatchAct) : Watch :=
  let w := { w with ticked := false }
  match a with
  | .wait dt => { w with now := w.now + dt }
  | .heartbeat => { w with lastBeat := w.now }
  | .execute fails c =>
    { w with
      daemon := (w.daemon.execute fails c).2
      commanded := if applied (w.daemon.execute fails c) then Function.update w.commanded c.actuatorId true
        else w.commanded
      stranded := w.unmoved (w.daemon.execute fails c).2 }
  | .setSpecs specs fails order =>
    { w with
      daemon := w.daemon.setSpecs specs fails order
      redefined := fun id => w.redefined id || newFailsafe w.daemon (Daemon.enabledSpecs specs) id
      stranded := w.strands (Daemon.enabledSpecs specs) }
  | .driveAllFailsafe reason fails order => w.drive reason fails order
  | .watchdog cancelled fails order => w.watchdog cancelled fails order

/-- A loop over a map takes each key once; without a timeout the watchdog waits for its context to be done. -/
def enabled (w : Watch) : WatchAct → Prop
  | .setSpecs specs _ order => Ranges (Daemon.enabledSpecs specs) order
  | .driveAllFailsafe _ _ order => Ranges w.daemon.specs order
  | .watchdog cancelled _ order =>
    Ranges w.daemon.specs order ∧ (w.phase = .start → w.wdTimeout ≤ 0 → cancelled = true)
  | _ => True

/-- `NewDaemon`. -/
def sys (wdTimeout : Int) : Sys Watch WatchAct where
  init := { daemon := { specs := fun _ => none, state := fun _ => none }, wdTimeout := wdTimeout }
  enabled := enabled
  exec := exec

/-- **What a step does to the daemon**: one call of it, or nothing. -/
theorem exec_daemon (w : Watch) (a : WatchAct) (he : w.enabled a) :
    (w.exec a).daemon = w.daemon ∨
    (∃ fails c, a = .execute fails c ∧ (w.exec a).daemon = (w.daemon.execute fails c).2) ∨
    (∃ specs fails order, a = .setSpecs specs fails order ∧ Ranges (Daemon.enabledSpecs specs) order ∧
      (w.exec a).daemon = w.daemon.setSpecs specs fails order) ∨
    (∃ reason fails order, Ranges w.daemon.specs order ∧
      (w.exec a).daemon = w.daemon.driveAllFailsafe reason fails order) := by
  cases a with
  | wait dt => exact .inl rfl
  | heartbeat => exact .inl rfl
  | execute fails c => exact .inr (.inl ⟨fails, c, rfl, rfl⟩)
  | setSpecs specs fails order => exact .inr (.inr (.inl ⟨specs, fails, order, rfl, he, rfl⟩))
  | driveAllFailsafe reason fails order => exact .inr (.inr (.inr ⟨reason, fails, order, he, rfl⟩))
  | watchdog cancelled fails order =>
    obtain ⟨hr, -⟩ := he
    simp only [exec, watchdog]
    split
    · split
      · exact .inr (.inr (.inr ⟨_, fails, order, hr, rfl⟩))
      · exact .inl rfl
    · split <;> exact .inl rfl
    · split
      · exact .inr (.inr (.inr ⟨_, fails, order, hr, rfl⟩))
      split
      · split <;> exact .inl rfl
      · exact .inl rfl
    · exact .inr (.inr (.inr ⟨_, fails, order, hr, rfl⟩))
    · exact .inl rfl
    · exact .inl rfl

/-! ## What holds of the daemon in every run -/

/-- Specifications are under their ids, only configured actuators are tracked, and the recorded states are the devices'. -/
structure Sound (d : Daemon) : Prop where
  keyed : d.Keyed
  tracked : ∀ id s, d.state id = some s → ∃ spec, d.specs id = some spec
  mirrors : ∀ id, (d.view id).Mirrors

namespace Sound

variable {d : Daemon}

theorem execute (h : Sound d) (fails : Bool) (c : Command) : Sound (d.execute fails c).2 := by
  have hspecs := (d.execute_frame fails c).1
  refine ⟨fun id spec hs => h.keyed id spec (hspecs ▸ hs), fun id s hs => ?_, fun id => ?_⟩
  · rw [hspecs]
    by_cases hid : id = c.actuatorId
    · subst hid
      cases hspec : d.specs c.actuatorId with
      | some spec => exact ⟨spec, rfl⟩
      | none =>
        rw [← Daemon.view_state, Daemon.execute_view_self, hspec] at hs
        obtain ⟨spec, hno⟩ := h.tracked _ _ hs
        rw [hspec] at hno
        cases hno
    · rw [(d.execute_frame fails c).2 id hid] at hs
      exact h.tracked id s hs
  · by_cases hid : id = c.actuatorId
    · subst hid
      rw [Daemon.execute_view_self]
      exact (h.mirrors _).execute c
    · rw [Daemon.execute_view_other d fails hid]
      exact h.mirrors id

theorem setSpecs (h : Sound d) (specs : List Spec) (fails : String → Bool) {order : List String}
    (hr : Ranges (Daemon.enabledSpecs specs) order) : Sound (d.setSpecs specs fails order) := by
  refine ⟨d.setSpecs_keyed specs fails order, fun id s hs => ?_, fun id => ?_⟩
  · show ∃ spec, Daemon.enabledSpecs specs id = some spec
    rw [← Option.isSome_iff_exists]
    by_contra hnone
    have hforget : (d.setSpecs specs fails order).state id = none := if_neg hnone
    rw [hforget] at hs
    cases hs
  · rw [Daemon.setSpecs_view d specs fails hr]
    exact (h.mirrors id).setSpecs

theorem driveAllFailsafe (h : Sound d) (reason : String) (fails : String → Bool) {order : List String}
    (hr : Ranges d.specs order) : Sound (d.driveAllFailsafe reason fails order) := by
  have hspecs := d.driveAllFailsafe_specs reason fails order
  refine ⟨fun id spec hs => h.keyed id spec (hspecs ▸ hs), fun id s hs => ?_, fun id => ?_⟩
  · rw [hspecs]
    cases hspec : d.specs id with
    | some spec => exact ⟨spec, rfl⟩
    | none =>
      rw [← Daemon.view_state, Daemon.driveAllFailsafe_view h.keyed reason fails hr, hspec] at hs
      obtain ⟨spec, hno⟩ := h.tracked _ _ hs
      rw [hspec] at hno
      cases hno
  · rw [Daemon.driveAllFailsafe_view h.keyed reason fails hr]
    exact (h.mirrors id).driveFailsafe reason

end Sound

section

variable {w : Watch} {a : WatchAct}

theorem sound_exec (h : Sound w.daemon) (he : w.enabled a) : Sound (w.exec a).daemon := by
  rcases exec_daemon w a he with heq | ⟨fails, c, -, heq⟩ | ⟨specs, fails, order, -, hr, heq⟩ |
    ⟨reason, fails, order, hr, heq⟩
  · exact heq ▸ h
  · exact heq ▸ h.execute fails c
  · exact heq ▸ h.setSpecs specs fails hr
  · exact heq ▸ h.driveAllFailsafe reason fails hr

theorem sound_init (wdTimeout : Int) : Sound (sys wdTimeout).init.daemon :=
  ⟨(fun id spec hs => by cases hs), (fun id s hs => by cases hs), (fun id s hs => by cases hs)⟩

theorem sound {wdTimeout : Int} {ok : Watch → WatchAct → Prop} (h : (sys wdTimeout).Reachable ok w) : Sound w.daemon :=
  h.invariant (P := fun w => Sound w.daemon) (sound_init wdTimeout) (fun _ _ h he _ => sound_exec h he)

theorem extends_exec (he : w.enabled a) : w.daemon.Extends (w.exec a).daemon := by
  rcases exec_daemon w a he with heq | ⟨fails, c, -, heq⟩ | ⟨specs, fails, order, -, hr, heq⟩ |
    ⟨reason, fails, order, hr, heq⟩
  · exact heq ▸ .refl _
  · exact heq ▸ w.daemon.execute_extends fails c
  · exact heq ▸ w.daemon.setSpecs_extends specs fails order
  · exact heq ▸ w.daemon.driveAllFailsafe_extends reason fails order

theorem told_exec (h : Sound w.daemon) (he : w.enabled a) (id : String) :
    (w.daemon.view id).Told ((w.exec a).daemon.view id) := by
  rcases exec_daemon w a he with heq | ⟨fails, c, -, heq⟩ | ⟨specs, fails, order, -, hr, heq⟩ |
    ⟨reason, fails, order, hr, heq⟩
  · rw [heq]
    exact .refl _
  · rw [heq]
    by_cases hid : id = c.actuatorId
    · subst hid
      rw [Daemon.execute_view_self]
      exact View.told_execute c
    · rw [Daemon.execute_view_other _ fails hid]
      exact .refl _
  · rw [heq, Daemon.setSpecs_view _ specs fails hr]
    exact View.told_setSpecs
  · rw [heq, Daemon.driveAllFailsafe_view h.keyed reason fails hr]
    exact View.told_driveFailsafe reason

end

def gate (states : List String) : Spec := { id := "gate-1", states := states, failsafeState := "closed" }

theorem ranges_gate (states : List String) : Ranges (Daemon.enabledSpecs [gate states]) ["gate-1"] := by
  refine ⟨by simp, fun id => ?_⟩
  by_cases hid : id = "gate-1"
  · subst hid
    simp [Daemon.enabledSpecs, indexBy, gate]
  · simp [Daemon.enabledSpecs, indexBy, gate, hid]

def openGate : WatchAct := .execute false ⟨"gate-1", "open", "manual:local", ""⟩

def configure (states : List String) : WatchAct := .setSpecs [gate states] (fun _ => false) ["gate-1"]

/-- The gate is configured and opened; the watchdog starts, finds the control loop silent and trips. -/
def trip : List WatchAct :=
  [configure ["open", "closed"], openGate, .watchdog false (fun _ => false) ["gate-1"],
    .watchdog false (fun _ => false) ["gate-1"], .wait 41, .watchdog false (fun _ => false) ["gate-1"],
    .watchdog false (fun _ => false) ["gate-1"]]

theorem legal_trip : (sys 40).Legal Sys.always trip (sys 40).init :=
  ⟨ranges_gate _, trivial, trivial, trivial, ⟨ranges_gate _, nofun⟩, trivial, ⟨ranges_gate _, nofun⟩, trivial, trivial,
    trivial, ⟨ranges_gate _, nofun⟩, trivial, ⟨ranges_gate _, nofun⟩, trivial, trivial⟩

/-- The last state of the actuator that the backend took. -/
def lastApplied (d : Daemon) (id : String) : Option String :=
  ((d.applies.filter (fun a => a.actuatorId = id)).find? (fun a => !a.failed)).map Apply.state

/-- **The daemon's view matches the devices.**  In every run, whatever the backend refuses: a recorded state is the last
one its device took, a command that fails leaves every recorded state, and a result that a step emits as applied names
the state recorded before that step and the one recorded after it. -/
theorem view_matches_device (wdTimeout : Int) (w : Watch) (h : (sys wdTimeout).Reachable Sys.always w) :
    (∀ id s, w.daemon.state id = some s → lastApplied w.daemon id = some s) ∧
    (∀ fails c e, (w.daemon.execute fails c).1 = .error e → (w.daemon.execute fails c).2.state = w.daemon.state) ∧
    (∀ a, w.enabled a → ∃ new, (w.exec a).daemon.results = new ++ w.daemon.results ∧ ∀ r ∈ new, r.applied = true →
      r.priorState = (w.daemon.state r.command.actuatorId).getD "" ∧
      (w.exec a).daemon.state r.command.actuatorId = some r.newState) := by
  refine ⟨fun id s hs => (sound h).mirrors id s hs, fun fails c e he => Daemon.execute_error he, fun a he => ?_⟩
  obtain ⟨new, hnew⟩ := (extends_exec he).results
  refine ⟨new, hnew.symm, fun r hr happlied => ?_⟩
  obtain ⟨new', hnew', htold⟩ := told_exec (sound h) he r.command.actuatorId
  simp only [Daemon.view, ← hnew, List.filter_append] at hnew'
  rw [List.append_cancel_right_eq] at hnew'
  refine htold r ?_ happlied
  rw [← hnew']
  exact List.mem_filter.2 ⟨hr, by simp⟩

theorem view_matches_device_trip :
    let w := (sys 40).run trip (sys 40).init
    w.daemon.state "gate-1" = some "closed" ∧ lastApplied w.daemon "gate-1" = some "closed" :=
  have hstate : ((sys 40).run trip (sys 40).init).daemon.state "gate-1" = some "closed" := by decide
  ⟨hstate, (view_matches_device 40 _ (Sys.reaches_run _ _ legal_trip)).1 _ _ hstate⟩

/-! ## The watchdog -/

theorem since_append (new old : List Apply) : since old (new ++ old) = new := by
  simp [since]

theorem mem_since_older {old mid cur : List Apply} (h : old <:+ mid) (h' : mid <:+ cur) {a : Apply}
    (ha : a ∈ since mid cur) : a ∈ since old cur := by
  obtain ⟨p, rfl⟩ := h
  obtain ⟨q, rfl⟩ := h'
  rw [since_append] at ha
  rw [← List.append_assoc, since_append]
  exact List.mem_append_left _ ha

theorem mem_since_later {old mid cur : List Apply} (h : old <:+ mid) (h' : mid <:+ cur) {a : Apply}
    (ha : a ∈ since old mid) : a ∈ since old cur := by
  obtain ⟨p, rfl⟩ := h
  obtain ⟨q, rfl⟩ := h'
  rw [since_append] at ha
  rw [← List.append_assoc, since_append]
  exact List.mem_append_right _ ha

theorem mem_since_of_view {d d' : Daemon} (h : d.Extends d') (id : String) {a : Apply}
    (ha : (d'.view id).applies = a :: (d.view id).applies) : a ∈ since d.applies d'.applies := by
  obtain ⟨new, hnew⟩ := h.applies
  rw [← hnew, since_append]
  simp only [Daemon.view, ← hnew, List.filter_append] at ha
  rw [← List.singleton_append, List.append_cancel_right_eq] at ha
  exact List.mem_of_mem_filter (ha ▸ List.mem_singleton_self a)

/-- **A drive leaves every actuator at its failsafe state, but for those the backend refused.** -/
theorem drive_failsafe {d : Daemon} (hd : d.Keyed) (reason : String) (fails : String → Bool) {order : List String}
    (hr : Ranges d.specs order) {id : String} {spec : Spec} (hs : d.specs id = some spec) :
    ((d.driveAllFailsafe reason fails order).state id).getD "" = spec.failsafeState ∨
      ⟨id, spec.failsafeState, true⟩ ∈ since d.applies (d.driveAllFailsafe reason fails order).applies := by
  have hview := Daemon.driveAllFailsafe_view hd reason fails hr id
  rw [hs] at hview
  simp only [View.driveFailsafe] at hview
  by_cases hsafe : (d.view id).state.getD "" = spec.failsafeState
  · rw [if_pos hsafe] at hview
    left
    rw [← Daemon.view_state, hview]
    exact hsafe
  · rw [if_neg hsafe, View.applyLocked] at hview
    cases hf : fails id with
    | true =>
      right
      refine mem_since_of_view (d.driveAllFailsafe_extends reason fails order) id ?_
      rw [hview, hf]
      rfl
    | false =>
      left
      rw [← Daemon.view_state, hview, hf]
      rfl

/-- **`SetSpecs` leaves an actuator it already tracks, and drives a new one to its failsafe state.** -/
theorem setSpecs_failsafe (d : Daemon) (specs : List Spec) (fails : String → Bool) {order : List String}
    (hr : Ranges (Daemon.enabledSpecs specs) order) {id : String} {spec : Spec}
    (hs : Daemon.enabledSpecs specs id = some spec) :
    ((d.state id).isSome ∧ (d.setSpecs specs fails order).state id = d.state id) ∨
    (d.state id = none ∧ (d.setSpecs specs fails order).state id = some spec.failsafeState) ∨
    (d.state id = none ∧ (d.setSpecs specs fails order).state id = none ∧
      ⟨id, spec.failsafeState, true⟩ ∈ since d.applies (d.setSpecs specs fails order).applies) := by
  have hview := Daemon.setSpecs_view d specs fails hr id
  rw [hs] at hview
  cases hstate : d.state id with
  | some state =>
    refine .inl ⟨rfl, ?_⟩
    rw [← Daemon.view_state, hview]
    simp [View.setSpecs, View.initialise, hstate]
  | none =>
    cases hf : fails id with
    | true =>
      refine .inr (.inr ⟨rfl, ?_, mem_since_of_view (d.setSpecs_extends specs fails order) id ?_⟩)
      · rw [← Daemon.view_state, hview]
        simp [View.setSpecs, View.initialise, View.applyLocked, hstate, hf]
      · rw [hview]
        simp [View.setSpecs, View.initialise, View.applyLocked, hstate, hf]
    | false =>
      refine .inr (.inl ⟨rfl, ?_⟩)
      rw [← Daemon.view_state, hview]
      simp [View.setSpecs, View.initialise, View.applyLocked, hstate, hf]

theorem execute_not_applied {d : Daemon} {fails : Bool} {c : Command} (h : applied (d.execute fails c) = false) :
    (d.execute fails c).2.state = d.state := by
  revert h
  unfold Daemon.execute
  split
  · exact fun _ => rfl
  split
  · exact fun _ => rfl
  dsimp only
  split
  · exact fun _ => rfl
  split
  · exact fun _ => rfl
  · exact nofun

/-- Since the watchdog tripped the backend refused the actuator's failsafe state, a command was applied to it, or it was
given another failsafe state. -/
def Excused (w : Watch) (id : String) (spec : Spec) : Prop :=
  ⟨id, spec.failsafeState, true⟩ ∈ since w.tripFrom w.daemon.applies ∨ w.commanded id = true ∨ w.redefined id = true

def AtFailsafe (w : Watch) : Prop :=
  ∀ id spec, w.daemon.specs id = some spec → (w.daemon.state id).getD "" = spec.failsafeState ∨ w.Excused id spec

/-- What holds between the trips of the watchdog. -/
structure Guarded (w : Watch) : Prop where
  sound : Sound w.daemon
  tripFrom : w.tripFrom <:+ w.daemon.applies
  ticked : w.ticked = true → w.tripped = true
  failsafe : w.tripped = true → w.AtFailsafe

namespace Guarded

variable {w : Watch}

theorem atFailsafe_execute (h : w.AtFailsafe) (hfrom : w.tripFrom <:+ w.daemon.applies) (fails : Bool) (c : Command) :
    (w.exec (.execute fails c)).AtFailsafe := by
  intro id spec hs
  have hspec : w.daemon.specs id = some spec := (w.daemon.execute_frame fails c).1 ▸ hs
  have hexcused : w.Excused id spec → (w.exec (.execute fails c)).Excused id spec := by
    rintro (herr | hcmd | hre)
    · exact .inl (mem_since_later hfrom (w.daemon.execute_extends fails c).applies herr)
    · refine .inr (.inl ?_)
      simp only [exec]
      split
      · by_cases hid : id = c.actuatorId
        · subst hid
          exact Function.update_self ..
        · rw [Function.update_of_ne hid]
          exact hcmd
      · exact hcmd
    · exact .inr (.inr hre)
  cases happ : applied (w.daemon.execute fails c) with
  | false =>
    have hstate : (w.exec (.execute fails c)).daemon.state = w.daemon.state := execute_not_applied happ
    rw [hstate]
    exact (h id spec hspec).imp_right hexcused
  | true =>
    by_cases hid : id = c.actuatorId
    · subst hid
      refine .inr (.inr (.inl ?_))
      simp only [exec, happ, ↓reduceIte, Function.update_self]
    · have hstate : (w.exec (.execute fails c)).daemon.state id = w.daemon.state id :=
        (w.daemon.execute_frame fails c).2 id hid
      rw [hstate]
      exact (h id spec hspec).imp_right hexcused

theorem atFailsafe_setSpecs (hsound : Sound w.daemon) (h : w.AtFailsafe) (hfrom : w.tripFrom <:+ w.daemon.applies)
    (specs : List Spec) (fails : String → Bool) {order : List String} (hr : Ranges (Daemon.enabledSpecs specs) order) :
    (w.exec (.setSpecs specs fails order)).AtFailsafe := by
  intro id spec hs
  have hnext : Daemon.enabledSpecs specs id = some spec := hs
  have hext := w.daemon.setSpecs_extends specs fails order
  rcases setSpecs_failsafe w.daemon specs fails hr hs with ⟨hsome, hstate⟩ | ⟨-, hstate⟩ | ⟨-, -, herr⟩
  · -- tracked before: its state stays, so it matters whether its failsafe state does
    obtain ⟨state, htracked⟩ := Option.isSome_iff_exists.1 hsome
    obtain ⟨old, hold⟩ := hsound.tracked id state htracked
    have hkeep : (w.exec (.setSpecs specs fails order)).daemon.state id = w.daemon.state id := hstate
    rw [hkeep]
    by_cases hsame : old.failsafeState = spec.failsafeState
    · rw [← hsame]
      rcases h id old hold with hsafe | herr | hcmd | hre
      · exact .inl hsafe
      · exact .inr (.inl (hsame ▸ mem_since_later hfrom hext.applies herr))
      · exact .inr (.inr (.inl hcmd))
      · exact .inr (.inr (.inr (by simp [exec, hre])))
    · exact .inr (.inr (.inr (by simp [exec, newFailsafe, htracked, hold, hnext, hsame])))
  · refine .inl ?_
    show ((w.daemon.setSpecs specs fails order).state id).getD "" = _
    rw [hstate]
    rfl
  · exact .inr (.inl (mem_since_older hfrom hext.applies herr))

/-- After any drive, whoever asked for it. -/
theorem atFailsafe_drive {w' : Watch} (hsound : Sound w.daemon) (reason : String) (fails : String → Bool)
    {order : List String} (hr : Ranges w.daemon.specs order)
    (hd : w'.daemon = w.daemon.driveAllFailsafe reason fails order) (hfrom : w'.tripFrom <:+ w.daemon.applies) :
    w'.AtFailsafe := by
  intro id spec hs
  rw [hd, w.daemon.driveAllFailsafe_specs] at hs
  rcases drive_failsafe hsound.keyed reason fails hr hs with hsafe | herr
  · exact .inl (hd ▸ hsafe)
  · refine .inr (.inl ?_)
    rw [hd]
    exact mem_since_older hfrom (w.daemon.driveAllFailsafe_extends reason fails order).applies herr

/-- A step of the watchdog: it drives, or leaves the daemon; the tick that trips it starts the history anew. -/
theorem watchdog (h : Guarded w) (hticked : w.ticked = false) (cancelled : Bool) (fails : String → Bool)
    {order : List String} (hr : Ranges w.daemon.specs order) : Guarded (w.watchdog cancelled fails order) := by
  have hext := fun reason => w.daemon.driveAllFailsafe_extends reason fails order
  have hdriven := fun reason => h.sound.driveAllFailsafe reason fails hr
  unfold Watch.watchdog
  split
  · split
    · refine ⟨hdriven _, h.tripFrom.trans (hext _).applies, h.ticked, fun _ => ?_⟩
      exact atFailsafe_drive h.sound _ fails hr rfl h.tripFrom
    · exact ⟨h.sound, h.tripFrom, h.ticked, h.failsafe⟩
  · split <;> exact ⟨h.sound, h.tripFrom, h.ticked, h.failsafe⟩
  · split
    · refine ⟨hdriven _, h.tripFrom.trans (hext _).applies, h.ticked, fun _ => ?_⟩
      exact atFailsafe_drive h.sound _ fails hr rfl h.tripFrom
    split
    · split
      · rename_i htrip
        exact ⟨h.sound, h.tripFrom, fun _ => htrip, h.failsafe⟩
      · exact ⟨h.sound, h.tripFrom, h.ticked, h.failsafe⟩
    · exact ⟨h.sound, h.tripFrom, fun ht => absurd ht (by simp [hticked]), nofun⟩
  · refine ⟨hdriven _, (hext _).applies, fun _ => rfl, fun _ => ?_⟩
    exact atFailsafe_drive h.sound _ fails hr rfl (List.suffix_refl _)
  · exact h
  · exact h

theorem step {a : WatchAct} (h : Guarded w) (he : w.enabled a) : Guarded (w.exec a) := by
  have hfrom := h.tripFrom
  have hext := (extends_exec he).applies
  have hsound := sound_exec h.sound he
  cases a with
  | wait dt => exact ⟨h.sound, hfrom, nofun, h.failsafe⟩
  | heartbeat => exact ⟨h.sound, hfrom, nofun, h.failsafe⟩
  | execute fails c =>
    exact ⟨hsound, hfrom.trans hext, nofun, fun htrip => atFailsafe_execute (h.failsafe htrip) hfrom fails c⟩
  | setSpecs specs fails order =>
    exact ⟨hsound, hfrom.trans hext, nofun,
      fun htrip => atFailsafe_setSpecs h.sound (h.failsafe htrip) hfrom specs fails he⟩
  | driveAllFailsafe reason fails order =>
    exact ⟨hsound, hfrom.trans hext, nofun, fun _ => atFailsafe_drive h.sound reason fails he rfl hfrom⟩
  | watchdog cancelled fails order =>
    exact watchdog (w := { w with ticked := false }) ⟨h.sound, hfrom, nofun, h.failsafe⟩ rfl cancelled fails he.1

end Guarded

end Watch

end Gateway
end FloodEws
