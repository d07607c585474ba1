import FloodEws.Maps
/-!
# Actuator — `gateway/server/actuator`

The daemon that owns the state of every actuator.  Its two Go maps are functions to `Option`; whether the backend takes
a command is up to the environment, so each call is told.  Log lines and the clock (`Command.At`, the heartbeat) are left
out here.

Three calls reach the backend: `Execute`, and `SetSpecs` and `DriveAllFailsafe` through `applyLocked`.
-/
namespace FloodEws
namespace Gateway

/-- The configuration of one actuator. -/
structure Spec where
  id : String
  states : List String
  failsafeState : String
  enabled : Bool := true
deriving DecidableEq, Repr

def Spec.validState (s : Spec) (state : String) : Bool := s.states.contains state

structure Command where
  actuatorId : String
  targetState : String
  reason : String
  correlationId : String
deriving DecidableEq, Repr

inductive ActuatorError where
  | unknownActuator (id : String)
  | invalidState (id state : String)
  | backend
deriving DecidableEq, Repr

/-- The outcome of a command, as `OnResult` is told it. -/
structure Result where
  command : Command
  priorState : String := ""
  newState : String := ""
  applied : Bool := false
  err : Option ActuatorError := none
deriving DecidableEq, Repr

/-- A call of the backend's `Apply`. -/
structure Apply where
  actuatorId : String
  state : String
  failed : Bool
deriving DecidableEq, Repr

/-- `results` is what `OnResult` has been told and `applies` what the backend has been asked, newest first. -/
structure Daemon where
  specs : String → Option Spec
  state : String → Option String
  results : List Result := []
  applies : List Apply := []

namespace Daemon

def currentState (d : Daemon) (actuatorId : String) : Except ActuatorError String :=
  match d.state actuatorId with
  | none => .error (.unknownActuator actuatorId)
  | some state => .ok state

/-- `Execute`, with `backendFails` what the backend's `Apply` would do.  A missing key of the Go map reads as `""`. -/
def execute (d : Daemon) (backendFails : Bool) (c : Command) : Except ActuatorError Result × Daemon :=
  match d.specs c.actuatorId with
  | none => (.error (.unknownActuator c.actuatorId), d)
  | some spec =>
    if !spec.validState c.targetState then (.error (.invalidState c.actuatorId c.targetState), d)
    else
      let prior := (d.state c.actuatorId).getD ""
      if prior = c.targetState then
        let res : Result := { command := c, priorState := prior, newState := prior }
        (.ok res, { d with results := res :: d.results })
      else if backendFails then
        let res : Result := { command := c, priorState := prior, newState := prior, err := some .backend }
        (.error .backend, { d with results := res :: d.results, applies := ⟨c.actuatorId, c.targetState, true⟩ :: d.applies })
      else
        let res : Result := { command := c, priorState := prior, newState := c.targetState, applied := true }
        (.ok res, { d with
          state := Function.update d.state c.actuatorId (some c.targetState)
          results := res :: d.results
          applies := ⟨c.actuatorId, c.targetState, false⟩ :: d.applies })

def applyLocked (d : Daemon) (backendFails : Bool) (spec : Spec) (state reason corr : String) : Daemon :=
  if backendFails then { d with applies := ⟨spec.id, state, true⟩ :: d.applies }
  else
    let res : Result :=
      { command := ⟨spec.id, state, reason, corr⟩, priorState := (d.state spec.id).getD "", newState := state, applied := true }
    { d with
      state := Function.update d.state spec.id (some state)
      results := res :: d.results
      applies := ⟨spec.id, state, false⟩ :: d.applies }

/-- A new actuator is driven to its failsafe state. -/
def initialise (next : String → Option Spec) (fails : String → Bool) (d : Daemon) (id : String) : Daemon :=
  match next id, d.state id with
  | some s, none => d.applyLocked (fails id) s s.failsafeState "init:failsafe" ""
  | _, _ => d

/-- The map `next` of `SetSpecs`. -/
def enabledSpecs (specs : List Spec) : String → Option Spec := indexBy Spec.id Spec.enabled specs

/-- `SetSpecs`: `fails` says which devices cannot be driven, `order` is how Go ranges over the map. -/
def setSpecs (d : Daemon) (specs : List Spec) (fails : String → Bool) (order : List String) : Daemon :=
  let next := enabledSpecs specs
  let d := order.foldl (initialise next fails) d
  { d with state := fun id => if (next id).isSome then d.state id else none, specs := next }

def driveFailsafe (reason : String) (fails : String → Bool) (d : Daemon) (id : String) : Daemon :=
  match d.specs id with
  | none => d
  | some spec =>
    if (d.state id).getD "" = spec.failsafeState then d
    else d.applyLocked (fails id) spec spec.failsafeState reason ""

def driveAllFailsafe (d : Daemon) (reason : String) (fails : String → Bool) (order : List String) : Daemon :=
  order.foldl (driveFailsafe reason fails) d

/-- What `Execute` refuses before it asks the backend. -/
def refuses (d : Daemon) (actuatorId state : String) : Bool :=
  match d.specs actuatorId with
  | none => true
  | some spec => !spec.validState state

/-- **A command touches no other actuator**, and no specification. -/
theorem execute_frame (d : Daemon) (fails : Bool) (c : Command) :
    (d.execute fails c).2.specs = d.specs ∧
      ∀ id, id ≠ c.actuatorId → (d.execute fails c).2.state id = d.state id := by
  unfold execute
  split
  · exact ⟨rfl, fun _ _ => rfl⟩
  split
  · exact ⟨rfl, fun _ _ => rfl⟩
  dsimp only
  split
  · exact ⟨rfl, fun _ _ => rfl⟩
  split
  · exact ⟨rfl, fun _ _ => rfl⟩
  · exact ⟨rfl, fun id hid => Function.update_of_ne hid _ _⟩

/-- **A command that fails changes no state.** -/
theorem execute_error {d : Daemon} {fails : Bool} {c : Command} {e : ActuatorError}
    (h : (d.execute fails c).1 = .error e) : (d.execute fails c).2.state = d.state := by
  unfold execute at h ⊢
  split
  · rfl
  rename_i spec hs
  rw [hs] at h
  dsimp only at h
  split
  · rfl
  rename_i hv
  rw [if_neg hv] at h
  dsimp only at h ⊢
  split
  · rfl
  rename_i hp
  rw [if_neg hp] at h
  split
  · rfl
  · rename_i hf
    rw [if_neg hf] at h
    cases h

/-- **When a command for another state than the current one succeeds.** -/
theorem execute_isOk {d : Daemon} (fails : Bool) {c : Command} (hstate : d.state c.actuatorId ≠ some c.targetState)
    {s : String} (hs : d.state c.actuatorId = some s) :
    (∃ res, (d.execute fails c).1 = .ok res) ↔ d.refuses c.actuatorId c.targetState = false ∧ fails = false := by
  have hne : s ≠ c.targetState := fun he => hstate (by rw [hs, he])
  unfold execute refuses
  cases hspec : d.specs c.actuatorId with
  | none => simp
  | some spec =>
    cases hv : spec.validState c.targetState with
    | false => simp [hv]
    | true =>
      cases fails with
      | true => simp [hs, hne, hv]
      | false => simp [hs, hne, hv]

/-! ## What reaches the backend -/

/-- The specification under an id is that actuator's. -/
def Keyed (d : Daemon) : Prop := ∀ id spec, d.specs id = some spec → spec.id = id

/-- The backend was asked nothing more, but for what `P` allows. -/
def Asked (P : Apply → Prop) (d d' : Daemon) : Prop :=
  ∃ new, d'.applies = new ++ d.applies ∧ ∀ a ∈ new, P a

theorem Asked.refl {P : Apply → Prop} (d : Daemon) : Asked P d d := ⟨[], rfl, fun _ h => by cases h⟩

theorem Asked.trans {P : Apply → Prop} {d d' d'' : Daemon} (h : Asked P d d') (h' : Asked P d' d'') : Asked P d d'' := by
  obtain ⟨new, he, hP⟩ := h
  obtain ⟨new', he', hP'⟩ := h'
  refine ⟨new' ++ new, by rw [he', he, List.append_assoc], fun a ha => ?_⟩
  rcases List.mem_append.1 ha with ha | ha
  · exact hP' a ha
  · exact hP a ha

theorem Asked.mono {P Q : Apply → Prop} {d d' : Daemon} (h : Asked P d d') (hPQ : ∀ a, P a → Q a) : Asked Q d d' := by
  obtain ⟨new, he, hP⟩ := h
  exact ⟨new, he, fun a ha => hPQ a (hP a ha)⟩

/-- What is not yet the `n`-th command and then is, is asked in between. -/
theorem Asked.nth {P : Apply → Prop} {d d' : Daemon} (h : Asked P d d') {n : Nat} {a : Apply}
    (hnot : ¬ d.applies.reverse[n]? = some a) (ha : d'.applies.reverse[n]? = some a) :
    d.applies.length ≤ n ∧ n < d'.applies.length ∧ P a := by
  obtain ⟨new, he, hP⟩ := h
  have hlt : n < d'.applies.length := by simpa using (List.getElem?_eq_some_iff.1 ha).1
  rw [he, List.reverse_append] at ha
  have hge : d.applies.length ≤ n := by
    by_contra hn
    have hn : n < d.applies.reverse.length := by simpa using hn
    rw [List.getElem?_append_left hn] at ha
    exact hnot ha
  rw [List.getElem?_append_right (by simpa using hge)] at ha
  exact ⟨hge, hlt, hP a (List.mem_reverse.1 (List.mem_of_getElem? ha))⟩

/-- The command is for a state its actuator has. -/
def Accepts (d : Daemon) (actuatorId state : String) : Prop :=
  ∃ spec, d.specs actuatorId = some spec ∧ state ∈ spec.states

/-- **What `Execute` asks of the backend**: its command, for a state the specification has. -/
theorem execute_asked (d : Daemon) (fails : Bool) (c : Command) :
    Asked (fun a => a.actuatorId = c.actuatorId ∧ a.state = c.targetState ∧ d.Accepts c.actuatorId c.targetState) d
      (d.execute fails c).2 := by
  unfold execute
  split
  · exact .refl d
  rename_i spec hs
  split
  · exact .refl d
  rename_i hv
  have haccepts : d.Accepts c.actuatorId c.targetState := ⟨spec, hs, by simpa [Spec.validState] using hv⟩
  dsimp only
  split
  · exact ⟨[], rfl, fun _ h => by cases h⟩
  split
  · exact ⟨[_], rfl, fun a ha => by rw [List.mem_singleton.1 ha]; exact ⟨rfl, rfl, haccepts⟩⟩
  · exact ⟨[_], rfl, fun a ha => by rw [List.mem_singleton.1 ha]; exact ⟨rfl, rfl, haccepts⟩⟩

theorem applyLocked_asked (d : Daemon) (fails : Bool) (spec : Spec) (state reason corr : String) :
    Asked (fun a => a.actuatorId = spec.id ∧ a.state = state) d (d.applyLocked fails spec state reason corr) := by
  unfold applyLocked
  split
  · exact ⟨[_], rfl, fun a ha => by rw [List.mem_singleton.1 ha]; exact ⟨rfl, rfl⟩⟩
  · exact ⟨[_], rfl, fun a ha => by rw [List.mem_singleton.1 ha]; exact ⟨rfl, rfl⟩⟩

@[simp] theorem applyLocked_specs (d : Daemon) (fails : Bool) (spec : Spec) (state reason corr : String) :
    (d.applyLocked fails spec state reason corr).specs = d.specs := by
  unfold applyLocked
  split <;> rfl

theorem enabledSpecs_some {specs : List Spec} {id : String} {spec : Spec} (h : enabledSpecs specs id = some spec) :
    spec ∈ specs ∧ spec.enabled = true ∧ spec.id = id :=
  indexBy_some h

/-- **What `SetSpecs` asks of the backend**: the failsafe state of an enabled specification. -/
theorem setSpecs_asked (d : Daemon) (specs : List Spec) (fails : String → Bool) (order : List String) :
    Asked (fun a => ∃ spec, spec ∈ specs ∧ spec.enabled = true ∧ spec.id = a.actuatorId ∧ a.state = spec.failsafeState) d
      (d.setSpecs specs fails order) := by
  -- Forgetting the removed actuators asks for nothing: what is asked is asked in the loop.
  show Asked _ d (order.foldl (initialise (enabledSpecs specs) fails) d)
  refine foldl_invariant (P := fun d' => Asked _ d d') ?_ order (.refl d)
  intro d' id h
  refine h.trans ?_
  unfold initialise
  split
  · rename_i s hnext _
    obtain ⟨hmem, hen, -⟩ := enabledSpecs_some hnext
    refine (d'.applyLocked_asked _ s _ _ _).mono ?_
    rintro a ⟨hid, hstate⟩
    exact ⟨s, hmem, hen, hid.symm, hstate⟩
  · exact .refl d'

theorem setSpecs_keyed (d : Daemon) (specs : List Spec) (fails : String → Bool) (order : List String) :
    (d.setSpecs specs fails order).Keyed :=
  fun _ _ h => (enabledSpecs_some h).2.2

theorem driveFailsafe_specs (reason : String) (fails : String → Bool) (d : Daemon) (id : String) :
    (driveFailsafe reason fails d id).specs = d.specs := by
  unfold driveFailsafe
  split
  · rfl
  split
  · rfl
  · simp

theorem driveAllFailsafe_specs (d : Daemon) (reason : String) (fails : String → Bool) (order : List String) :
    (d.driveAllFailsafe reason fails order).specs = d.specs :=
  foldl_invariant (P := fun d' => d'.specs = d.specs) (fun d' id h => (driveFailsafe_specs reason fails d' id).trans h)
    order rfl

/-- **What `DriveAllFailsafe` asks of the backend**: an actuator's own failsafe state. -/
theorem driveAllFailsafe_asked {d : Daemon} (hd : d.Keyed) (reason : String) (fails : String → Bool) (order : List String) :
    Asked (fun a => ∃ spec, d.specs a.actuatorId = some spec ∧ a.state = spec.failsafeState) d
      (d.driveAllFailsafe reason fails order) := by
  have hboth : (d.driveAllFailsafe reason fails order).specs = d.specs ∧
      Asked (fun a => ∃ spec, d.specs a.actuatorId = some spec ∧ a.state = spec.failsafeState) d
        (d.driveAllFailsafe reason fails order) := by
    refine foldl_invariant (P := fun d' => d'.specs = d.specs ∧ Asked _ d d') ?_ order ⟨rfl, .refl d⟩
    rintro d' id ⟨hspecs, hasked⟩
    refine ⟨(driveFailsafe_specs reason fails d' id).trans hspecs, hasked.trans ?_⟩
    unfold driveFailsafe
    split
    · exact .refl d'
    rename_i spec hspec
    rw [hspecs] at hspec
    split
    · exact .refl d'
    refine (d'.applyLocked_asked _ spec _ _ _).mono ?_
    rintro a ⟨hid, hstate⟩
    exact ⟨spec, by rw [hid, hd id spec hspec, hspec], hstate⟩
  exact hboth.2

end Daemon

end Gateway
end FloodEws
