import FloodEws.Policy
/-!
# Repeat — the same advisory twice

A poller sends an unchanged advisory again at every interval.  The second evaluation meets the world the first one left:
where a rule was executed its actuator is at the rule's target, where it was queued its action is pending, and the other
actuators look as they did (`evaluate_traces`).  Whether anything more happens is up to the rules that were passed over
because another was first (`repeat_quiet_iff`).
-/
namespace FloodEws
namespace Gateway

/-- Neither the database nor the backend fails. -/
def Faults.never : Faults := ⟨fun _ => false, fun _ => false, fun _ => false⟩

namespace World

/-- The backend was not asked, and the queue is as it was. -/
structure Quiet (w w' : World) : Prop where
  applies : w'.daemon.applies = w.daemon.applies
  queue : w'.queue = w.queue

/-- How much has been asked of the backend and put into the queue. -/
def effort (w : World) : Nat := w.daemon.applies.length + w.queue.length

theorem Quiet.refl (w : World) : Quiet w w := ⟨rfl, rfl⟩

theorem Quiet.effort {w w' : World} (h : Quiet w w') : w'.effort = w.effort := by
  unfold World.effort
  rw [h.applies, h.queue]

end World

/-! ## One rule, without faults -/

/-- **What a rule that acts leaves for its actuator**: its target as the state, or its action pending. -/
structure Rule.Leaves (r : Rule) (w w' : World) : Prop where
  specs : w'.daemon.specs = w.daemon.specs
  state : w'.daemon.state r.actuatorId =
    if r.disposition = .operatorApproved then w.daemon.state r.actuatorId else some r.targetState
  pending : ∀ s, hasPendingFor w'.queue r.actuatorId s =
    (hasPendingFor w.queue r.actuatorId s || (decide (r.disposition = .operatorApproved) && decide (s = r.targetState)))

namespace Rule.Leaves

variable {r : Rule} {w w' w'' : World}

theorem trans_same (h : r.Leaves w w') (hs : SameFor r.actuatorId w' w'') : r.Leaves w w'' :=
  ⟨hs.specs.trans h.specs, hs.state.trans h.state, fun s => (hs.pending s).trans (h.pending s)⟩

theorem same_trans (hs : SameFor r.actuatorId w w') (h : r.Leaves w' w'') : r.Leaves w w'' := by
  refine ⟨h.specs.trans hs.specs, ?_, fun s => ?_⟩
  · rw [h.state, hs.state]
  · rw [h.pending, hs.pending]

end Rule.Leaves

/-- A command for another state, to a backend that does not fail: it is refused and nothing happens, or it is carried
out. -/
theorem Daemon.execute_never {d : Daemon} {c : Command} {current : String} (hs : d.state c.actuatorId = some current)
    (ht : current ≠ c.targetState) :
    (d.refuses c.actuatorId c.targetState = true ∧ ∃ err, d.execute false c = (.error err, d)) ∨
    (d.refuses c.actuatorId c.targetState = false ∧ ∃ res, d.execute false c = (.ok res, { d with
      state := Function.update d.state c.actuatorId (some c.targetState)
      results := res :: d.results
      applies := ⟨c.actuatorId, c.targetState, false⟩ :: d.applies })) := by
  unfold Daemon.refuses Daemon.execute
  cases hspec : d.specs c.actuatorId with
  | none => exact .inl ⟨rfl, _, rfl⟩
  | some spec =>
    cases hv : spec.validState c.targetState with
    | false => exact .inl ⟨by simp [hv], _, by simp [hv]; rfl⟩
    | true => exact .inr ⟨by simp [hv], _, by simp [hv, hs, ht]; rfl⟩

theorem hasPendingFor_concat (queue : List QueuedAdvisory) (r : Rule) (a : Advisory) (s : String) :
    hasPendingFor (queue ++ [(r.pendingAdvisory a).row]) r.actuatorId s =
      (hasPendingFor queue r.actuatorId s || decide (s = r.targetState)) := by
  unfold hasPendingFor
  rw [List.countP_append, List.countP_singleton]
  by_cases hst : s = r.targetState
  · subst hst
    simp [Advisory.row, Rule.pendingAdvisory]
  · have : ¬ r.targetState = s := fun h => hst h.symm
    simp [Advisory.row, Rule.pendingAdvisory, hst, this]

/-- **Handling one rule without faults**: nothing happens; or the rule acts, and leaves what it leaves. -/
theorem evaluateRule_never (a : Advisory) (k : Nat) (r : Rule) (e : Evaluation) :
    ((evaluateRule .never a k r e).1.acts = false ∧ (evaluateRule .never a k r e).2 = e) ∨
    ((evaluateRule .never a k r e).1.acts = true ∧ r.Leaves e.world (evaluateRule .never a k r e).2.world ∧
      e.world.effort < (evaluateRule .never a k r e).2.world.effort) := by
  unfold evaluateRule
  split
  · exact .inl ⟨rfl, rfl⟩
  split
  · exact .inl ⟨rfl, rfl⟩
  split
  · exact .inl ⟨rfl, rfl⟩
  split
  · exact .inl ⟨rfl, rfl⟩
  rename_i current hcurrent
  split
  · exact .inl ⟨rfl, rfl⟩
  rename_i htarget
  split
  · exact .inl ⟨rfl, rfl⟩
  split
  · rename_i hop
    rw [if_neg (show ¬ Faults.never.insert k = true from Bool.false_ne_true)]
    refine .inr ⟨rfl, ⟨rfl, (if_pos hop).symm, fun s => ?_⟩, ?_⟩
    · rw [hasPendingFor_concat]
      simp [hop]
    · show _ + _ < _ + (_ ++ [_]).length
      rw [List.length_append, List.length_singleton]
      exact Nat.lt_succ_self _
  · rename_i hop
    have hs : e.world.daemon.state (r.command a).actuatorId = some current := by
      unfold Daemon.currentState at hcurrent
      split at hcurrent
      · cases hcurrent
      · rename_i s hs
        cases hcurrent
        exact hs
    rw [show Faults.never.apply k = false from rfl]
    rcases Daemon.execute_never (c := r.command a) hs htarget with ⟨-, err, hx⟩ | ⟨-, res, hx⟩
    · rw [hx]
      exact .inl ⟨rfl, rfl⟩
    · rw [hx]
      refine .inr ⟨rfl, ⟨rfl, ?_, fun s => by simp [hop]⟩, ?_⟩
      · rw [if_neg hop]
        exact Function.update_self _ _ _
      · show _ + _ < e.world.daemon.applies.length + 1 + e.world.queue.length
        omega

/-! ## The loop, without faults -/

/-- Before the `k`-th rule: as `Tracks`, and each rule that was first to act on its actuator has left what it leaves. -/
structure Traces (a : Advisory) (rules : List Rule) (w : World) (k : Nat) (e : Evaluation) : Prop
    extends Tracks .never a rules w k e where
  left : ∀ j r, j < k → rules[j]? = some r → r.canAct .never a j w = true →
    ¬ ActsBefore .never a rules w j r.actuatorId → r.Leaves w e.world

theorem Traces.rule {a : Advisory} {rules : List Rule} {w : World} {k : Nat} {e : Evaluation} {r : Rule}
    (h : Traces a rules w k e) (hr : rules[k]? = some r) : Traces a rules w (k + 1) (evaluateRule .never a k r e).2 := by
  obtain ⟨hsettles, hnext⟩ := h.toTracks.rule hr
  refine ⟨hnext, fun j r' hj hr' hcan hfirst => ?_⟩
  by_cases hjk : j = k
  · -- the rule that is handled now
    subst hjk
    obtain rfl : r = r' := Option.some.inj (hr.symm.trans hr')
    have hsame : SameFor r.actuatorId w e.world :=
      h.same _ (Bool.eq_false_iff.2 fun hyes => hfirst ((h.acted _).1 hyes))
    rcases evaluateRule_never a j r e with ⟨hno, -⟩ | ⟨-, hleaves, -⟩
    · rw [(hsettles.first hfirst).acts, hcan] at hno
      cases hno
    · exact hleaves.same_trans hsame
  · -- one before: its actuator is acted on, so no other rule touches it
    have hleft := h.left j r' (by omega) hr' hcan hfirst
    rcases evaluateRule_cases .never a k r e with ⟨he, -⟩ | ⟨o, w', he, -, -, hs⟩ | ⟨o, w', he, -, ha, -, hs⟩
    · rw [he]
      exact hleft
    · rw [he]
      exact hleft.trans_same (hs _)
    · rw [he]
      refine hleft.trans_same (hs _ fun hx => ?_)
      rw [← hx, (h.acted _).2 ⟨j, r', by omega, hr', rfl, hcan⟩] at ha
      cases ha

theorem evaluateFrom_traces {a : Advisory} {rules : List Rule} {w : World} (rs : List Rule) :
    ∀ (k : Nat) (e : Evaluation), rules.drop k = rs → Traces a rules w k e →
      Traces a rules w (k + rs.length) (evaluateFrom .never a k rs e).2 := by
  induction rs with
  | nil => exact fun k e _ h => h
  | cons r rs ih =>
    intro k e hdrop h
    have hr : rules[k]? = some r := by
      rw [← List.head?_drop, hdrop]
      rfl
    have hdrop' : rules.drop (k + 1) = rs := by
      rw [← List.tail_drop, hdrop]
      rfl
    have := ih (k + 1) _ hdrop' (h.rule hr)
    rwa [show k + 1 + rs.length = k + (r :: rs).length by rw [List.length_cons]; omega] at this

/-- **The world after an evaluation.** -/
theorem evaluate_traces (e : Engine) (a : Advisory) (w : World) :
    ∃ ev : Evaluation, Traces a e.rules w e.rules.length ev ∧ (e.evaluate .never a w).2 = ev.world := by
  have hstart : Traces a e.rules w 0 { world := w } :=
    ⟨⟨fun x => ⟨fun hx => by simp at hx, fun ⟨i, _, hi, _⟩ => by omega⟩, fun x _ => .refl x w⟩, fun j r hj => by omega⟩
  refine ⟨(evaluateFrom .never a 0 e.rules { world := w }).2, ?_, rfl⟩
  have := evaluateFrom_traces e.rules 0 { world := w } rfl hstart
  rwa [Nat.zero_add] at this

/-- An evaluation asks and queues something exactly if some rule acts. -/
theorem evaluateFrom_quiet (a : Advisory) : ∀ (rs : List Rule) (k : Nat) (e : Evaluation),
    ((∀ p ∈ (evaluateFrom .never a k rs e).1, p.2.acts = false) ∧ e.world.Quiet (evaluateFrom .never a k rs e).2.world) ∨
    ((∃ p ∈ (evaluateFrom .never a k rs e).1, p.2.acts = true) ∧
      e.world.effort < (evaluateFrom .never a k rs e).2.world.effort)
  | [], _, e => .inl ⟨fun p hp => by simp [evaluateFrom] at hp, .refl e.world⟩
  | r :: rs, k, e => by
    have hrest := evaluateFrom_quiet a rs (k + 1) (evaluateRule .never a k r e).2
    simp only [evaluateFrom]
    rcases evaluateRule_never a k r e with ⟨hno, he⟩ | ⟨hacts, -, hlt⟩
    · rw [he] at hrest ⊢
      rcases hrest with ⟨hall, hquiet⟩ | ⟨⟨p, hp, hacts⟩, hlt⟩
      · refine .inl ⟨fun p hp => ?_, hquiet⟩
        rcases List.mem_cons.1 hp with rfl | hp
        · exact hno
        · exact hall p hp
      · exact .inr ⟨⟨p, List.mem_cons_of_mem _ hp, hacts⟩, hlt⟩
    · refine .inr ⟨⟨_, List.mem_cons_self, hacts⟩, ?_⟩
      rcases hrest with ⟨-, hquiet⟩ | ⟨-, hlt'⟩
      · rw [hquiet.effort]
        exact hlt
      · exact Nat.lt_trans hlt hlt'

theorem evaluate_quiet_iff (e : Engine) (a : Advisory) (w : World) :
    w.Quiet (e.evaluate .never a w).2 ↔ ∀ p ∈ (e.evaluate .never a w).1, p.2.acts = false := by
  rcases evaluateFrom_quiet a e.rules 0 { world := w } with ⟨hall, hquiet⟩ | ⟨⟨p, hp, hacts⟩, hlt⟩
  · exact ⟨fun _ => hall, fun _ => hquiet⟩
  · refine ⟨fun hquiet => ?_, fun hall => ?_⟩
    · have : (e.evaluate .never a w).2.effort = w.effort := hquiet.effort
      exact absurd hlt (Nat.not_lt.2 (Nat.le_of_eq this))
    · rw [hall p hp] at hacts
      cases hacts

/-- Among the rules that could act on an actuator there is a first one. -/
theorem ActsBefore.first {f : Faults} {a : Advisory} {rules : List Rule} {w : World} {x : String} :
    ∀ {k : Nat}, ActsBefore f a rules w k x → ∃ j r, j < k ∧ rules[j]? = some r ∧ r.actuatorId = x ∧
      r.canAct f a j w = true ∧ ¬ ActsBefore f a rules w j x
  | k, ⟨j, r, hj, hr, hx, hcan⟩ => by
    by_cases hb : ActsBefore f a rules w j x
    · obtain ⟨i, r', hi, h⟩ := hb.first
      exact ⟨i, r', by omega, h⟩
    · exact ⟨j, r, hj, hr, hx, hcan, hb⟩

/-- **Some rule acts exactly if some rule can**, in the world the evaluation starts in. -/
theorem evaluate_acts_iff (e : Engine) (f : Faults) (a : Advisory) (w : World) :
    (∀ p ∈ (e.evaluate f a w).1, p.2.acts = false) ↔
      ∀ (i : Nat) (r : Rule), e.rules[i]? = some r → r.canAct f a i w = false := by
  have hall := (evaluate_spec e f a w).2
  constructor
  · intro h i r hr
    rw [Bool.eq_false_iff]
    intro hcan
    obtain ⟨j, r', -, hr', hx, hcan', hfirst⟩ := ActsBefore.first ⟨i, r, Nat.lt_succ_self i, hr, rfl, hcan⟩
    obtain ⟨o, ho⟩ := outcome_at (f := f) (a := a) (w := w) hr'
    have hacts := ((hall j r' o ho).first (hx ▸ hfirst)).acts
    rw [hcan', h _ (List.mem_of_getElem? ho)] at hacts
    cases hacts
  · rintro h ⟨r, o⟩ hp
    obtain ⟨j, ho⟩ := List.mem_iff_getElem?.1 hp
    by_cases hb : ActsBefore f a e.rules w j r.actuatorId
    · exact (hall j r o ho).late hb
    · rw [((hall j r o ho).first hb).acts]
      exact h j r (rule_at ho)

/-! ## Twice -/

/-- Once `r` has acted, `r'` has nothing to do for the same actuator: it has the same target; or its action is pending; or
the actuator, which `r` left to the operator, is at its target; or the daemon refuses it. -/
def Rule.Rests (w : World) (r r' : Rule) : Prop :=
  r'.targetState = r.targetState ∨ hasPendingFor w.queue r.actuatorId r'.targetState = true ∨
    (r.disposition = .operatorApproved ∧ w.daemon.state r.actuatorId = some r'.targetState) ∨
    (r'.disposition ≠ .operatorApproved ∧ w.daemon.refuses r.actuatorId r'.targetState = true)

/-- **When the same advisory again does nothing**: of two rules for one actuator that match, of which the first acts, the
other rests. -/
def Engine.Agrees (e : Engine) (a : Advisory) (w : World) : Prop :=
  ∀ (j : Nat) (r : Rule) (i : Nat) (r' : Rule), e.rules[j]? = some r → r.canAct .never a j w = true →
    ¬ ActsBefore .never a e.rules w j r.actuatorId →
    e.rules[i]? = some r' → r'.actuatorId = r.actuatorId → r'.matches a = true → r.Rests w r'

/-- A rule in the world the first rule for its actuator has left. -/
theorem Rule.Leaves.canAct_iff {r r' : Rule} {w w' : World} {a : Advisory} {j i : Nat} (h : r.Leaves w w')
    (hcan : r.canAct .never a j w = true) (hx : r'.actuatorId = r.actuatorId) :
    r'.canAct .never a i w' = false ↔ (r'.matches a = true → r.Rests w r') := by
  have hstate : (w.daemon.state r.actuatorId).isSome = true := by
    unfold Rule.canAct at hcan
    simp only [Bool.and_eq_true] at hcan
    exact hcan.1.1.2
  have hrefuses : w'.daemon.refuses r.actuatorId r'.targetState = w.daemon.refuses r.actuatorId r'.targetState := by
    unfold Daemon.refuses
    rw [h.specs]
  have hnever : ∀ k, Faults.never.lookup k = false ∧ Faults.never.insert k = false ∧ Faults.never.apply k = false :=
    fun _ => ⟨rfl, rfl, rfl⟩
  unfold Rule.canAct Rule.Rests
  rw [hx, h.pending, h.state, hrefuses]
  by_cases hop : r.disposition = .operatorApproved <;> by_cases hop' : r'.disposition = .operatorApproved <;> grind

/-- **The same advisory twice in a row**: the second time the backend is not asked and nothing is queued, exactly when of
the rules for an actuator that is acted on all others rest. -/
theorem repeat_quiet_iff (e : Engine) (a : Advisory) (w : World) :
    (e.evaluate .never a w).2.Quiet (e.evaluate .never a (e.evaluate .never a w).2).2 ↔ e.Agrees a w := by
  rw [evaluate_quiet_iff, evaluate_acts_iff]
  obtain ⟨ev, htraces, hw⟩ := evaluate_traces e a w
  rw [hw]
  constructor
  · intro h j r i r' hj hcan hfirst hi hx
    have hlt : j < e.rules.length := (List.getElem?_eq_some_iff.1 hj).1
    exact ((htraces.left j r hlt hj hcan hfirst).canAct_iff hcan hx).1 (h i r' hi)
  · intro h i r' hi
    have hlt : i < e.rules.length := (List.getElem?_eq_some_iff.1 hi).1
    cases hacted : ev.acted r'.actuatorId with
    | false =>
      rw [canAct_congr (htraces.same _ hacted), Bool.eq_false_iff]
      intro hcan
      rw [(htraces.acted _).2 ⟨i, r', hlt, hi, rfl, hcan⟩] at hacted
      cases hacted
    | true =>
      obtain ⟨j, r, hjlt, hj, hx, hcan, hfirst⟩ := ((htraces.acted _).1 hacted).first
      rw [← hx] at hfirst
      exact ((htraces.left j r hjlt hj hcan hfirst).canAct_iff hcan hx.symm).2 (h j r i r' hj hcan hfirst hi hx.symm)

/-- Two rules for one barrier, the one that raises it of higher priority, and an advisory both match.  The first time the
barrier is raised.  The second time it is at that rule's target, so the rule is passed over and the other one lowers it. -/
theorem repeat_lowers_barrier :
    ¬ ∀ (e : Engine) (a : Advisory) (w : World),
      (e.evaluate .never a w).2.Quiet (e.evaluate .never a (e.evaluate .never a w).2).2 := by
  intro h
  let raise : Rule := { id := "barrier-raise", matchKind := "river_level", matchMinSeverity := 4, actuatorId := "barrier-1",
                        targetState := "RAISED", priority := 10 }
  let lower : Rule := { id := "barrier-lower", matchKind := "river_level", matchMinSeverity := 1, actuatorId := "barrier-1",
                        targetState := "LOWERED", priority := 5 }
  let spec : Spec := { id := "barrier-1", states := ["RAISED", "LOWERED"], failsafeState := "LOWERED" }
  let w : World :=
    { daemon := { specs := fun id => if id = "barrier-1" then some spec else none
                  state := fun id => if id = "barrier-1" then some "LOWERED" else none }
      queue := [] }
  have hquiet := h ⟨[raise, lower], by decide⟩ { sourceId := "ea-gauge-1", kind := "river_level", severity := 4 } w
  exact absurd hquiet.applies (by decide)

end Gateway
end FloodEws
