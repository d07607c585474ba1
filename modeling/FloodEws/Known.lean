import FloodEws.Watchdog
/-!
# Known — which actuators exist

`Execute` goes by the specifications and `CurrentState`, and with it the policy engine, by the recorded states.  The two
have the same keys until `SetSpecs` fails to drive a new actuator: then it is configured without a state, a command for
it is carried out and a rule for it is skipped (`configured_without_state`).
-/
namespace FloodEws
namespace Gateway

namespace View

variable {v : View} {spec : Option Spec} {fails : Bool} {id : String}

theorem applyLocked_keeps (state reason corr : String) (h : v.state.isSome) :
    (v.applyLocked fails id state reason corr).state.isSome := by
  unfold applyLocked
  split
  · exact h
  · rfl

theorem execute_keeps (c : Command) (h : v.state.isSome) : (v.execute spec fails c).state.isSome := by
  unfold execute
  split
  · exact h
  split
  · exact h
  split
  · exact h
  split
  · exact h
  · rfl

theorem driveFailsafe_keeps (reason : String) (h : v.state.isSome) :
    (v.driveFailsafe spec reason fails id).state.isSome := by
  unfold driveFailsafe
  split
  · exact h
  split
  · exact h
  · exact applyLocked_keeps _ _ _ h

/-- **What `SetSpecs` leaves of a configured actuator**: a state, if it had one or could be driven. -/
theorem setSpecs_isSome (s : Spec) :
    (v.setSpecs (some s) fails id).state.isSome ↔ v.state.isSome ∨ fails = false := by
  unfold setSpecs initialise
  cases hstate : v.state with
  | some state => simp [hstate]
  | none => cases fails <;> simp [applyLocked, hstate]

end View

namespace Watch

/-- The actuators with a state are the configured ones. -/
def Agrees (d : Daemon) : Prop := ∀ id, (d.state id).isSome ↔ (d.specs id).isSome

/-- No device fails that `SetSpecs` has to drive: the enabled actuators it does not know yet. -/
def Initialised (w : Watch) : WatchAct → Prop
  | .setSpecs specs fails _ =>
    ∀ id, (Daemon.enabledSpecs specs id).isSome → w.daemon.state id = none → fails id = false
  | _ => True

theorem agrees_execute {d : Daemon} (h : Agrees d) (fails : Bool) (c : Command) : Agrees (d.execute fails c).2 := by
  obtain ⟨hspecs, hother⟩ := d.execute_frame fails c
  intro id
  rw [hspecs]
  by_cases hid : id = c.actuatorId
  · subst hid
    rw [← Daemon.view_state, Daemon.execute_view_self]
    cases hspec : d.specs c.actuatorId with
    | none =>
      have hnone := h c.actuatorId
      rw [hspec] at hnone
      exact hnone
    | some spec =>
      have hsome : (d.view c.actuatorId).state.isSome := (h c.actuatorId).2 (by rw [hspec]; rfl)
      exact ⟨fun _ => rfl, fun _ => View.execute_keeps c hsome⟩
  · rw [hother id hid]
    exact h id

theorem agrees_driveAllFailsafe {d : Daemon} (hkeyed : d.Keyed) (h : Agrees d) (reason : String)
    (fails : String → Bool) {order : List String} (hr : Ranges d.specs order) :
    Agrees (d.driveAllFailsafe reason fails order) := by
  intro id
  rw [d.driveAllFailsafe_specs, ← Daemon.view_state, Daemon.driveAllFailsafe_view hkeyed reason fails hr]
  cases hspec : d.specs id with
  | none =>
    have hnone := h id
    rw [hspec] at hnone
    exact hnone
  | some spec =>
    have hsome : (d.view id).state.isSome := (h id).2 (by rw [hspec]; rfl)
    exact ⟨fun _ => rfl, fun _ => View.driveFailsafe_keeps reason hsome⟩

/-- **When `SetSpecs` leaves the two maps with the same keys.** -/
theorem agrees_setSpecs_iff (d : Daemon) (specs : List Spec) (fails : String → Bool) {order : List String}
    (hr : Ranges (Daemon.enabledSpecs specs) order) :
    Agrees (d.setSpecs specs fails order) ↔
      ∀ id, (Daemon.enabledSpecs specs id).isSome → d.state id = none → fails id = false := by
  have hstate : ∀ id s, Daemon.enabledSpecs specs id = some s →
      (((d.setSpecs specs fails order).state id).isSome ↔ (d.state id).isSome ∨ fails id = false) := by
    intro id s hs
    rw [← Daemon.view_state, Daemon.setSpecs_view d specs fails hr, hs]
    exact View.setSpecs_isSome s
  constructor
  · intro h id hconf hnone
    obtain ⟨s, hs⟩ := Option.isSome_iff_exists.1 hconf
    rcases (hstate id s hs).1 ((h id).2 hconf) with hsome | hok
    · rw [hnone] at hsome
      cases hsome
    · exact hok
  · intro hok id
    show ((d.setSpecs specs fails order).state id).isSome ↔ (Daemon.enabledSpecs specs id).isSome
    cases hs : Daemon.enabledSpecs specs id with
    | none =>
      have hforget : (d.setSpecs specs fails order).state id = none := if_neg (by rw [hs]; decide)
      simp only [hforget, Option.isSome_none]
    | some s =>
      rw [hstate id s hs]
      refine ⟨fun _ => rfl, fun _ => ?_⟩
      cases hd : d.state id with
      | none => exact .inr (hok id (by rw [hs]; rfl) hd)
      | some state => exact .inl rfl

theorem agrees_exec {w : Watch} {a : WatchAct} (hsound : Sound w.daemon) (h : Agrees w.daemon) (he : w.enabled a)
    (hok : w.Initialised a) : Agrees (w.exec a).daemon := by
  rcases exec_daemon w a he with heq | ⟨fails, c, -, heq⟩ | ⟨specs, fails, order, rfl, hr, heq⟩ |
    ⟨reason, fails, order, hr, heq⟩
  · exact heq ▸ h
  · exact heq ▸ agrees_execute h fails c
  · exact heq ▸ (agrees_setSpecs_iff w.daemon specs fails hr).2 hok
  · exact heq ▸ agrees_driveAllFailsafe hsound.keyed h reason fails hr

theorem currentState_isOk (d : Daemon) (id : String) :
    (∃ state, d.currentState id = .ok state) ↔ (d.state id).isSome := by
  unfold Daemon.currentState
  cases d.state id <;> simp

/-- **When policy and daemon agree on which actuators exist.**  In every run in which each `SetSpecs` can drive the
enabled actuators it does not know yet, whatever else the backend refuses, `CurrentState` succeeds exactly for the
configured actuators; and a `SetSpecs` that cannot leaves one for which it fails. -/
theorem currentState_configured (wdTimeout : Int) (w : Watch) (h : (sys wdTimeout).Reachable Initialised w) :
    (∀ id, (∃ state, w.daemon.currentState id = .ok state) ↔ (w.daemon.specs id).isSome) ∧
    ∀ specs fails order, w.enabled (.setSpecs specs fails order) →
      ((∀ id, (∃ state, (w.exec (.setSpecs specs fails order)).daemon.currentState id = .ok state) ↔
          ((w.exec (.setSpecs specs fails order)).daemon.specs id).isSome) ↔
        w.Initialised (.setSpecs specs fails order)) := by
  have hagrees : Agrees w.daemon := by
    refine h.invariant_with (P := fun w => Agrees w.daemon) (fun id => by simp [sys]) ?_
    exact fun x a hx hagrees he hok => agrees_exec (sound hx) hagrees he hok
  refine ⟨fun id => (currentState_isOk w.daemon id).trans (hagrees id), fun specs fails order he => ?_⟩
  simp only [currentState_isOk]
  exact agrees_setSpecs_iff w.daemon specs fails he

theorem currentState_configured_gate :
    let w := (sys 40).run [configure ["open", "closed"]] (sys 40).init
    (∃ state, w.daemon.currentState "gate-1" = .ok state) ↔ (w.daemon.specs "gate-1").isSome :=
  have hlegal : (sys 40).Legal Initialised [configure ["open", "closed"]] (sys 40).init :=
    ⟨ranges_gate _, fun _ _ _ => rfl, trivial⟩
  (currentState_configured 40 _ (Sys.reaches_run _ _ hlegal)).1 "gate-1"

/-- **A gate that fails to close is configured without a state**: `CurrentState` does not know it, and a command for it is
carried out. -/
theorem configured_without_state :
    ¬∀ (wdTimeout : Int) (w : Watch), (sys wdTimeout).Reachable Sys.always w →
      ∀ id, (∃ state, w.daemon.currentState id = .ok state) ↔ (w.daemon.specs id).isSome := by
  intro h
  have hlegal : (sys 40).Legal Sys.always [.setSpecs [gate ["open", "closed"]] (fun _ => true) ["gate-1"]] (sys 40).init :=
    ⟨ranges_gate _, trivial, trivial⟩
  obtain ⟨state, hstate⟩ := (h 40 _ (Sys.reaches_run _ _ hlegal) "gate-1").2 rfl
  cases hstate

end Watch

end Gateway
end FloodEws
