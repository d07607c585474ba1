import FloodEws.Watchdog
import FloodEws.Store
/-!
# Legal — recorded states and specifications

`SetSpecs` drives the actuators it has not seen and leaves the others where they are, whatever states their new
specification has.  Over validated specifications that is the only way to a recorded state that is not one of its
actuator's states (`state_legal_or_stranded`).
-/
namespace FloodEws
namespace Gateway
namespace Watch

/-- The specifications have passed `validateActuator`. -/
def Validated (_ : Watch) : WatchAct → Prop
  | .setSpecs specs _ _ => ∀ s ∈ specs, validateActuator s = .ok ()
  | _ => True

theorem failsafe_mem {s : Spec} (h : validateActuator s = .ok ()) : s.failsafeState ∈ s.states := by
  unfold validateActuator at h
  split at h
  · cases h
  split at h
  · assumption
  · cases h

/-- A specification's failsafe state is one of its states, and a recorded state is too, but where it is stranded. -/
structure Lawful (w : Watch) : Prop where
  sound : Sound w.daemon
  failsafe : ∀ id spec, w.daemon.specs id = some spec → spec.failsafeState ∈ spec.states
  state : ∀ id s spec, w.daemon.state id = some s → w.daemon.specs id = some spec →
    s ∈ spec.states ∨ w.stranded id = true

namespace Lawful

variable {w w' : Watch}

theorem congr (h : Lawful w) (hd : w'.daemon = w.daemon) (hk : w'.stranded = w.stranded) : Lawful w' :=
  ⟨hd ▸ h.sound, hd ▸ h.failsafe, hd ▸ hk ▸ h.state⟩

/-- A call that changes no specification, and moves an actuator to one of its states if it moves it. -/
theorem moved {d : Daemon} (h : Lawful w) (hd : w'.daemon = d) (hk : w'.stranded = w.unmoved d) (hsound : Sound d)
    (hspecs : d.specs = w.daemon.specs)
    (hmove : ∀ id s spec, w.daemon.specs id = some spec → d.state id = some s → d.state id ≠ w.daemon.state id →
      s ∈ spec.states) : Lawful w' := by
  refine ⟨hd ▸ hsound, fun id spec hs => ?_, fun id s spec hst hs => ?_⟩
  · rw [hd, hspecs] at hs
    exact h.failsafe id spec hs
  · rw [hd] at hst hs
    rw [hspecs] at hs
    by_cases hsame : d.state id = w.daemon.state id
    · rcases h.state id s spec (hsame ▸ hst) hs with hlegal | hstranded
      · exact .inl hlegal
      · exact .inr (by simp [hk, unmoved, hstranded, hsame])
    · exact .inl (hmove id s spec hs hst hsame)

theorem drive (h : Lawful w) (reason : String) (fails : String → Bool) {order : List String}
    (hr : Ranges w.daemon.specs order) : Lawful (w.drive reason fails order) := by
  refine h.moved (d := w.daemon.driveAllFailsafe reason fails order) rfl rfl
    (h.sound.driveAllFailsafe reason fails hr) (w.daemon.driveAllFailsafe_specs reason fails order) ?_
  intro id s spec hs hst hne
  rw [← Daemon.view_state, Daemon.driveAllFailsafe_view h.sound.keyed reason fails hr, hs] at hst hne
  simp only [View.driveFailsafe] at hst hne
  split at hst
  · rename_i hsafe
    exact absurd (if_pos hsafe ▸ rfl) hne
  · rename_i hsafe
    rw [if_neg hsafe] at hne
    simp only [View.applyLocked] at hst hne
    split at hst
    · rename_i hf
      exact absurd (by rw [hf]; rfl) hne
    · rw [← Option.some.inj hst]
      exact h.failsafe id spec hs

theorem execute (h : Lawful w) (fails : Bool) (c : Command) : Lawful (w.exec (.execute fails c)) := by
  refine h.moved (d := (w.daemon.execute fails c).2) rfl rfl (h.sound.execute fails c) (w.daemon.execute_frame fails c).1 ?_
  intro id s spec hs hst hne
  by_cases hid : id = c.actuatorId
  · subst hid
    rw [← Daemon.view_state, Daemon.execute_view_self, hs] at hst hne
    revert hst hne
    simp only [View.execute]
    split
    · exact fun _ hne => absurd rfl hne
    rename_i hvalid
    split
    · exact fun _ hne => absurd rfl hne
    split
    · exact fun _ hne => absurd rfl hne
    · intro hst _
      rw [← Option.some.inj hst]
      simpa [Spec.validState] using hvalid
  · exact absurd ((w.daemon.execute_frame fails c).2 id hid) hne

theorem setSpecs (h : Lawful w) {specs : List Spec} (hvalid : ∀ s ∈ specs, validateActuator s = .ok ())
    (fails : String → Bool) {order : List String} (hr : Ranges (Daemon.enabledSpecs specs) order) :
    Lawful (w.exec (.setSpecs specs fails order)) := by
  have hfailsafe : ∀ id spec, Daemon.enabledSpecs specs id = some spec → spec.failsafeState ∈ spec.states :=
    fun id spec hs => failsafe_mem (hvalid spec (Daemon.enabledSpecs_some hs).1)
  refine ⟨h.sound.setSpecs specs fails hr, hfailsafe, fun id s spec hst hs => ?_⟩
  have hst : (w.daemon.setSpecs specs fails order).state id = some s := hst
  have hs : Daemon.enabledSpecs specs id = some spec := hs
  show _ ∨ w.strands (Daemon.enabledSpecs specs) id = true
  rcases setSpecs_failsafe w.daemon specs fails hr hs with ⟨-, hkeep⟩ | ⟨-, hnew⟩ | ⟨-, hnone, -⟩
  · -- left where it was: legal under the old specification, or stranded before
    rw [hkeep] at hst
    obtain ⟨old, hold⟩ := h.sound.tracked id s hst
    by_cases hmem : s ∈ spec.states
    · exact .inl hmem
    · right
      rcases h.state id s old hst hold with hlegal | hstranded
      · simp [strands, hst, hold, hs, Spec.validState, hlegal, hmem]
      · simp [strands, hst, hold, hs, Spec.validState, hstranded, hmem]
  · rw [hnew] at hst
    rw [← Option.some.inj hst]
    exact .inl (hfailsafe id spec hs)
  · rw [hnone] at hst
    cases hst

theorem step {a : WatchAct} (h : Lawful w) (he : w.enabled a) (hok : Validated w a) : Lawful (w.exec a) := by
  have h' : Lawful { w with ticked := false } := h.congr rfl rfl
  cases a with
  | wait dt => exact h.congr rfl rfl
  | heartbeat => exact h.congr rfl rfl
  | execute fails c => exact h.execute fails c
  | setSpecs specs fails order => exact h.setSpecs hok fails he
  | driveAllFailsafe reason fails order => exact h'.drive reason fails he
  | watchdog cancelled fails order =>
    obtain ⟨hr, -⟩ := he
    have hdrive := fun reason => h'.drive reason fails hr
    simp only [exec, Watch.watchdog]
    split
    · split
      · exact (hdrive _).congr rfl rfl
      · exact h.congr rfl rfl
    · split <;> exact h.congr rfl rfl
    · split
      · exact (hdrive _).congr rfl rfl
      split
      · split <;> exact h.congr rfl rfl
      · exact h.congr rfl rfl
    · exact (hdrive _).congr rfl rfl
    · exact h.congr rfl rfl
    · exact h.congr rfl rfl

end Lawful

/-- **Recorded states are legal, but for those a re-definition left behind.**  In every run over validated specifications a
tracked actuator is configured, and its recorded state is one of its specification's states, unless a `SetSpecs` took
that state away from it (the call drives only actuators it has not seen) and it has not been moved since. -/
theorem state_legal_or_stranded (wdTimeout : Int) (w : Watch) (h : (sys wdTimeout).Reachable Validated w) (id s : String)
    (hst : w.daemon.state id = some s) :
    ∃ spec, w.daemon.specs id = some spec ∧ (s ∈ spec.states ∨ w.stranded id = true) := by
  have hlawful : Lawful w := by
    refine h.invariant (P := Lawful) ?_ (fun _ _ hw he hok => hw.step he hok)
    exact ⟨sound_init wdTimeout, nofun, nofun⟩
  obtain ⟨spec, hs⟩ := hlawful.sound.tracked id s hst
  exact ⟨spec, hs, hlawful.state id s spec hst hs⟩

/-- The gate is opened, and then re-defined. -/
def redefine (states : List String) : List WatchAct := [configure ["open", "closed"], openGate, configure states]

theorem legal_redefine {states : List String} (h : validateActuator (gate states) = .ok ()) :
    (sys 40).Legal Validated (redefine states) (sys 40).init := by
  refine ⟨ranges_gate _, fun s hs => ?_, trivial, trivial, ranges_gate _, fun s hs => ?_, trivial⟩
  · rw [List.mem_singleton.1 hs]
    rfl
  · rw [List.mem_singleton.1 hs]
    exact h

theorem state_legal_or_stranded_redefine :
    let w := (sys 40).run (redefine ["open", "ajar", "closed"]) (sys 40).init
    w.daemon.state "gate-1" = some "open" ∧ w.stranded "gate-1" = false ∧
      ∃ spec, w.daemon.specs "gate-1" = some spec ∧ ("open" ∈ spec.states ∨ w.stranded "gate-1" = true) :=
  have hstate : ((sys 40).run (redefine ["open", "ajar", "closed"]) (sys 40).init).daemon.state "gate-1" = some "open" := by
    decide
  ⟨hstate, by decide, state_legal_or_stranded 40 _ (Sys.reaches_run _ _ (legal_redefine rfl)) _ _ hstate⟩

/-- **A re-definition may leave a state behind that the actuator no longer has.** -/
theorem illegal_after_redefine :
    ¬ ∀ (wdTimeout : Int) (w : Watch), (sys wdTimeout).Reachable Validated w → ∀ id s, w.daemon.state id = some s →
      ∃ spec, w.daemon.specs id = some spec ∧ s ∈ spec.states := by
  intro h
  obtain ⟨spec, hs, hmem⟩ := h 40 _ (Sys.reaches_run (redefine ["closed"]) _ (legal_redefine rfl)) "gate-1" "open" (by decide)
  have hspec : spec = gate ["closed"] := (Option.some.inj hs).symm
  rw [hspec] at hmem
  exact absurd hmem (by decide)

end Watch

end Gateway
end FloodEws
