import FloodEws.Actuator
/-!
# Views — what a call does to one actuator

A call of the daemon under its lock is read off one actuator at a time (`Daemon.view`): its recorded state, the results
emitted for it and what the backend was asked for it.  Each call of the daemon is such a function at each actuator
(`execute_view_self`, `setSpecs_view`, `driveAllFailsafe_view`), whatever the order in which its loops take the map.
-/
namespace FloodEws
namespace Gateway

/-- What the daemon has of one actuator. -/
structure View where
  state : Option String
  results : List Result
  applies : List Apply

namespace View

/-- `applyLocked`, seen at its actuator. -/
def applyLocked (fails : Bool) (id state reason corr : String) (v : View) : View :=
  if fails then { v with applies := ⟨id, state, true⟩ :: v.applies }
  else
    { state := some state
      results := { command := ⟨id, state, reason, corr⟩, priorState := v.state.getD "", newState := state, applied := true } ::
        v.results
      applies := ⟨id, state, false⟩ :: v.applies }

def execute (spec : Option Spec) (fails : Bool) (c : Command) (v : View) : View :=
  match spec with
  | none => v
  | some spec =>
    if !spec.validState c.targetState then v
    else if v.state.getD "" = c.targetState then
      { v with results := { command := c, priorState := v.state.getD "", newState := v.state.getD "" } :: v.results }
    else if fails then
      { v with
        results := { command := c, priorState := v.state.getD "", newState := v.state.getD "", err := some .backend } ::
          v.results
        applies := ⟨c.actuatorId, c.targetState, true⟩ :: v.applies }
    else
      { state := some c.targetState
        results := { command := c, priorState := v.state.getD "", newState := c.targetState, applied := true } :: v.results
        applies := ⟨c.actuatorId, c.targetState, false⟩ :: v.applies }

def initialise (spec : Option Spec) (fails : Bool) (id : String) (v : View) : View :=
  match spec, v.state with
  | some s, none => v.applyLocked fails id s.failsafeState "init:failsafe" ""
  | _, _ => v

def setSpecs (spec : Option Spec) (fails : Bool) (id : String) (v : View) : View :=
  { v.initialise spec fails id with state := if spec.isSome then (v.initialise spec fails id).state else none }

def driveFailsafe (spec : Option Spec) (reason : String) (fails : Bool) (id : String) (v : View) : View :=
  match spec with
  | none => v
  | some spec =>
    if v.state.getD "" = spec.failsafeState then v else v.applyLocked fails id spec.failsafeState reason ""

/-- The recorded state is the last one the backend took. -/
def Mirrors (v : View) : Prop := ∀ s, v.state = some s → (v.applies.find? (fun a => !a.failed)).map Apply.state = some s

/-- A result that says it was applied names the state before and the state after. -/
def Told (v v' : View) : Prop :=
  ∃ new, v'.results = new ++ v.results ∧
    ∀ r ∈ new, r.applied = true → r.priorState = v.state.getD "" ∧ v'.state = some r.newState

variable {v : View} {spec : Option Spec} {fails : Bool} {id : String}

theorem Mirrors.applyLocked (h : v.Mirrors) (state reason corr : String) :
    (v.applyLocked fails id state reason corr).Mirrors := by
  unfold View.applyLocked
  split
  · exact fun s hs => by simpa using h s hs
  · exact fun s hs => by simpa using hs

theorem Mirrors.execute (h : v.Mirrors) (c : Command) : (v.execute spec fails c).Mirrors := by
  unfold View.execute
  split
  · exact h
  split
  · exact h
  split
  · exact h
  split
  · exact fun s hs => by simpa using h s hs
  · exact fun s hs => by simpa using hs

theorem Mirrors.setSpecs (h : v.Mirrors) : (v.setSpecs spec fails id).Mirrors := by
  have hinit : (v.initialise spec fails id).Mirrors := by
    unfold initialise
    split
    · exact h.applyLocked _ _ _
    · exact h
  intro s hs
  refine hinit s ?_
  simp only [View.setSpecs] at hs
  split at hs
  · exact hs
  · cases hs

theorem Mirrors.driveFailsafe (h : v.Mirrors) (reason : String) : (v.driveFailsafe spec reason fails id).Mirrors := by
  unfold View.driveFailsafe
  split
  · exact h
  split
  · exact h
  · exact h.applyLocked _ _ _

theorem Told.refl (v : View) : v.Told v := ⟨[], rfl, fun r hr => by cases hr⟩

theorem told_applyLocked (state reason corr : String) : v.Told (v.applyLocked fails id state reason corr) := by
  unfold applyLocked
  split
  · exact ⟨[], rfl, fun r hr => by cases hr⟩
  · refine ⟨[_], rfl, fun r hr _ => ?_⟩
    rw [List.mem_singleton.1 hr]
    exact ⟨rfl, rfl⟩

theorem told_execute (c : Command) : v.Told (v.execute spec fails c) := by
  unfold execute
  split
  · exact .refl v
  split
  · exact .refl v
  split
  · refine ⟨[_], rfl, fun r hr happlied => ?_⟩
    rw [List.mem_singleton.1 hr] at happlied
    cases happlied
  split
  · refine ⟨[_], rfl, fun r hr happlied => ?_⟩
    rw [List.mem_singleton.1 hr] at happlied
    cases happlied
  · refine ⟨[_], rfl, fun r hr _ => ?_⟩
    rw [List.mem_singleton.1 hr]
    exact ⟨rfl, rfl⟩

theorem told_setSpecs : v.Told (v.setSpecs spec fails id) := by
  unfold setSpecs initialise
  split
  · exact told_applyLocked ..
  · exact ⟨[], rfl, fun r hr => by cases hr⟩

theorem told_driveFailsafe (reason : String) : v.Told (v.driveFailsafe spec reason fails id) := by
  unfold driveFailsafe
  split
  · exact .refl v
  split
  · exact .refl v
  · exact told_applyLocked ..

end View

namespace Daemon

variable {d : Daemon} {id : String}

def view (d : Daemon) (id : String) : View where
  state := d.state id
  results := d.results.filter (fun r => r.command.actuatorId = id)
  applies := d.applies.filter (fun a => a.actuatorId = id)

@[simp] theorem view_state (d : Daemon) (id : String) : (d.view id).state = d.state id := rfl

theorem applyLocked_view_self (d : Daemon) (fails : Bool) {spec : Spec} (state reason corr : String) (h : spec.id = id) :
    (d.applyLocked fails spec state reason corr).view id = (d.view id).applyLocked fails id state reason corr := by
  subst h
  unfold applyLocked View.applyLocked view
  split <;> simp

theorem applyLocked_view_other (d : Daemon) (fails : Bool) {spec : Spec} (state reason corr : String)
    (h : id ≠ spec.id) : (d.applyLocked fails spec state reason corr).view id = d.view id := by
  unfold applyLocked view
  split <;> simp [h, Ne.symm h]

theorem execute_view_other (d : Daemon) (fails : Bool) {c : Command} (h : id ≠ c.actuatorId) :
    (d.execute fails c).2.view id = d.view id := by
  unfold execute view
  split
  · rfl
  split
  · rfl
  dsimp only
  split
  · simp [Ne.symm h]
  split
  · simp [Ne.symm h]
  · simp [h, Ne.symm h]

/-- **What `Execute` does to its actuator.** -/
theorem execute_view_self (d : Daemon) (fails : Bool) (c : Command) :
    (d.execute fails c).2.view c.actuatorId = (d.view c.actuatorId).execute (d.specs c.actuatorId) fails c := by
  unfold execute View.execute
  cases d.specs c.actuatorId with
  | none => rfl
  | some spec =>
    dsimp only
    split
    · rfl
    by_cases hprior : (d.state c.actuatorId).getD "" = c.targetState
    · simp [view, hprior]
    · cases fails with
      | true => simp [view, hprior]
      | false => simp [view, hprior]

theorem initialise_view_other {next : String → Option Spec} (hnext : ∀ id s, next id = some s → s.id = id)
    (fails : String → Bool) (d : Daemon) {k : String} (h : id ≠ k) : (initialise next fails d k).view id = d.view id := by
  unfold initialise
  split
  · rename_i s hs _
    exact applyLocked_view_other d _ _ _ _ (by rw [hnext k s hs]; exact h)
  · rfl

theorem initialise_view_self {next : String → Option Spec} (hnext : ∀ id s, next id = some s → s.id = id)
    (fails : String → Bool) (d : Daemon) (id : String) :
    (initialise next fails d id).view id = (d.view id).initialise (next id) (fails id) id := by
  unfold initialise View.initialise
  cases hs : next id with
  | none => rfl
  | some s =>
    cases hstate : d.state id with
    | none =>
      simp only [view_state, hstate]
      exact applyLocked_view_self d _ _ _ _ (hnext id s hs)
    | some _ => simp only [view_state, hstate]

/-- **What `SetSpecs` does to each actuator.** -/
theorem setSpecs_view (d : Daemon) (specs : List Spec) (fails : String → Bool) {order : List String}
    (hr : Ranges (enabledSpecs specs) order) (id : String) :
    (d.setSpecs specs fails order).view id = (d.view id).setSpecs (enabledSpecs specs id) (fails id) id := by
  have hnext : ∀ id s, enabledSpecs specs id = some s → s.id = id := fun _ _ h => (enabledSpecs_some h).2.2
  have hloop : (order.foldl (initialise (enabledSpecs specs) fails) d).view id =
      (d.view id).initialise (enabledSpecs specs id) (fails id) id := by
    by_cases hmem : id ∈ order
    · obtain ⟨d', hd', hloop⟩ := foldl_at (g := view)
        (fun s k k' hk => initialise_view_other hnext fails s hk) hr.nodup hmem d
      rw [hloop, initialise_view_self hnext, hd']
    · rw [foldl_frame (g := view) (fun s k k' hk => initialise_view_other hnext fails s hk) hmem]
      have hnone : enabledSpecs specs id = none := by
        simpa using fun h => hmem ((hr.mem_iff id).2 h)
      rw [hnone]
      rfl
  simp only [View.setSpecs, ← hloop]
  rfl

theorem driveFailsafe_view_other (hd : d.Keyed) (reason : String) (fails : String → Bool) {k : String} (h : id ≠ k) :
    (driveFailsafe reason fails d k).view id = d.view id := by
  unfold driveFailsafe
  split
  · rfl
  · rename_i spec hs
    split
    · rfl
    · exact applyLocked_view_other d _ _ _ _ (by rw [hd k spec hs]; exact h)

theorem driveFailsafe_view_self (hd : d.Keyed) (reason : String) (fails : String → Bool) (id : String) :
    (driveFailsafe reason fails d id).view id = (d.view id).driveFailsafe (d.specs id) reason (fails id) id := by
  unfold driveFailsafe View.driveFailsafe
  cases hs : d.specs id with
  | none => rfl
  | some spec =>
    by_cases hsafe : (d.state id).getD "" = spec.failsafeState
    · simp only [view_state, hsafe, ↓reduceIte]
    · simp only [view_state, hsafe, ↓reduceIte]
      exact applyLocked_view_self d _ _ _ _ (hd id spec hs)

/-- **What `DriveAllFailsafe` does to each actuator.** -/
theorem driveAllFailsafe_view (hd : d.Keyed) (reason : String) (fails : String → Bool) {order : List String}
    (hr : Ranges d.specs order) (id : String) :
    (d.driveAllFailsafe reason fails order).view id = (d.view id).driveFailsafe (d.specs id) reason (fails id) id := by
  have hkeep : ∀ d' k, d'.specs = d.specs → (driveFailsafe reason fails d' k).specs = d.specs :=
    fun d' k h => (driveFailsafe_specs reason fails d' k).trans h
  have hkeyed : ∀ d' : Daemon, d'.specs = d.specs → d'.Keyed := fun d' h id spec hs => hd id spec (h ▸ hs)
  have hown : ∀ (d' : Daemon) (k k' : String), d'.specs = d.specs → k' ≠ k →
      (driveFailsafe reason fails d' k).view k' = d'.view k' :=
    fun d' k k' h hk => driveFailsafe_view_other (hkeyed d' h) reason fails hk
  by_cases hmem : id ∈ order
  · obtain ⟨d', hspecs, hd', hloop⟩ := foldl_at_of (g := view) hkeep hown hr.nodup hmem rfl
    rw [driveAllFailsafe, hloop, driveFailsafe_view_self (hkeyed d' hspecs), hd', hspecs]
  · rw [driveAllFailsafe, foldl_frame_of (g := view) hkeep hown hmem rfl]
    have hnone : d.specs id = none := by
      simpa using fun h => hmem ((hr.mem_iff id).2 h)
    rw [hnone]
    rfl

/-! ## The histories only grow -/

structure Extends (d d' : Daemon) : Prop where
  results : d.results <:+ d'.results
  applies : d.applies <:+ d'.applies

theorem Extends.refl (d : Daemon) : d.Extends d := ⟨List.suffix_refl _, List.suffix_refl _⟩

theorem Extends.trans {d d' d'' : Daemon} (h : d.Extends d') (h' : d'.Extends d'') : d.Extends d'' :=
  ⟨h.results.trans h'.results, h.applies.trans h'.applies⟩

theorem applyLocked_extends (d : Daemon) (fails : Bool) (spec : Spec) (state reason corr : String) :
    d.Extends (d.applyLocked fails spec state reason corr) := by
  unfold applyLocked
  split
  · exact ⟨List.suffix_refl _, List.suffix_cons _ _⟩
  · exact ⟨List.suffix_cons _ _, List.suffix_cons _ _⟩

theorem execute_extends (d : Daemon) (fails : Bool) (c : Command) : d.Extends (d.execute fails c).2 := by
  unfold execute
  split
  · exact .refl d
  split
  · exact .refl d
  dsimp only
  split
  · exact ⟨List.suffix_cons _ _, List.suffix_refl _⟩
  split
  · exact ⟨List.suffix_cons _ _, List.suffix_cons _ _⟩
  · exact ⟨List.suffix_cons _ _, List.suffix_cons _ _⟩

theorem setSpecs_extends (d : Daemon) (specs : List Spec) (fails : String → Bool) (order : List String) :
    d.Extends (d.setSpecs specs fails order) := by
  have hloop : d.Extends (order.foldl (initialise (enabledSpecs specs) fails) d) := by
    refine foldl_invariant (P := fun d' => d.Extends d') ?_ order (.refl d)
    intro d' id h
    unfold initialise
    split
    · exact h.trans (applyLocked_extends ..)
    · exact h
  exact ⟨hloop.results, hloop.applies⟩

theorem driveAllFailsafe_extends (d : Daemon) (reason : String) (fails : String → Bool) (order : List String) :
    d.Extends (d.driveAllFailsafe reason fails order) := by
  refine foldl_invariant (P := fun d' => d.Extends d') ?_ order (.refl d)
  intro d' id h
  unfold driveFailsafe
  split
  · exact h
  split
  · exact h
  · exact h.trans (applyLocked_extends ..)

end Daemon

end Gateway
end FloodEws
