import Mathlib.Data.List.Basic
import Mathlib.Data.List.Sort
import FloodEws.Actuator
/-!
# Policy — `gateway/server/policy`, with the operator queue of `gateway/server/store`

The policy engine goes through its rules, highest priority first, and drives the daemon or the operator queue.  A
rule's handling is one of nine outcomes, recorded rule by rule.  The database and the backend may fail at any step; a
`Faults` says where.

An actuator is acted on at most once per evaluation, by the first rule that can act on it.  Until then nothing an
evaluation does is visible to the rules for that actuator, so each of them meets the daemon and the queue as they were
at the start (`evaluateFrom_spec`).
-/
namespace FloodEws
namespace Gateway

/-- `advisory.Disposition`; any other string is neither constant. -/
inductive Disposition where
  | advisory
  | operatorApproved
  | other (text : String)
deriving DecidableEq, Repr

structure IntendedAction where
  actuatorId : String
  targetState : String
  ruleId : String
deriving DecidableEq, Repr

/-- `advisory.Advisory`, with `receivedAt` as it is formatted into a correlation id. -/
structure Advisory where
  sourceId : String
  kind : String
  severity : Int
  receivedAt : String := ""
  intendedAction : Option IntendedAction := none
deriving DecidableEq, Repr

structure Rule where
  id : String
  enabled : Bool := true
  matchKind : String := ""
  matchMinSeverity : Int := 0
  matchSourceId : String := ""
  actuatorId : String
  targetState : String
  disposition : Disposition := .advisory
  priority : Int
deriving DecidableEq, Repr

def Rule.matches (r : Rule) (a : Advisory) : Bool :=
  if !r.enabled then false
  else if r.matchKind ≠ "" ∧ r.matchKind ≠ a.kind then false
  else if a.severity < r.matchMinSeverity then false
  else if r.matchSourceId ≠ "" ∧ r.matchSourceId ≠ a.sourceId then false
  else true

/-- The `status` column of `queued_advisory`. -/
inductive QueueStatus where
  | pending
  | approved
  | rejected
  | resolved
deriving DecidableEq, Repr

/-- A row of `queued_advisory`. -/
structure QueuedAdvisory where
  sourceId : String
  kind : String
  severity : Int
  actuatorId : String
  targetState : String
  ruleId : String
  status : QueueStatus := .pending
  resolvedBy : String := ""
deriving DecidableEq, Repr

/-- `CountPendingAction` > 0. -/
def hasPendingFor (queue : List QueuedAdvisory) (actuatorId targetState : String) : Bool :=
  decide (0 < queue.countP (fun q =>
    decide (q.actuatorId = actuatorId) && decide (q.targetState = targetState) && decide (q.status = .pending)))

/-- `Enqueue`: the row that is inserted. -/
def Advisory.row (a : Advisory) : QueuedAdvisory :=
  let action := a.intendedAction.getD ⟨"", "", ""⟩
  { sourceId := a.sourceId, kind := a.kind, severity := a.severity, actuatorId := action.actuatorId,
    targetState := action.targetState, ruleId := action.ruleId }

/-- Which steps of the handling of the `k`-th rule fail: the lookup or the insert in the database, the backend. -/
structure Faults where
  lookup : Nat → Bool
  insert : Nat → Bool
  apply : Nat → Bool

structure World where
  daemon : Daemon
  queue : List QueuedAdvisory

/-- What became of one rule. -/
inductive Outcome where
  | noMatch
  | lookupFailed
  | alreadyPending
  | stateFailed
  | atTarget
  | alreadyActed
  | queued
  | enqueueFailed
  | executed
  | executeFailed
deriving DecidableEq, Repr

/-- The rule's action was executed or enqueued. -/
def Outcome.acts : Outcome → Bool
  | .queued => true
  | .executed => true
  | _ => false

/-- Handling the rule returned an error. -/
def Outcome.failed : Outcome → Bool
  | .lookupFailed => true
  | .stateFailed => true
  | .enqueueFailed => true
  | .executeFailed => true
  | _ => false

/-- The rule was passed over in silence: its action is pending, or its actuator is at its target. -/
def Outcome.skipped : Outcome → Bool
  | .alreadyPending => true
  | .atTarget => true
  | _ => false

/-- The state of an evaluation: the world, and the map `acted`. -/
structure Evaluation where
  world : World
  acted : String → Bool := fun _ => false

def Rule.command (r : Rule) (a : Advisory) : Command :=
  { actuatorId := r.actuatorId, targetState := r.targetState, reason := "policy:" ++ r.id,
    correlationId := a.sourceId ++ "@" ++ a.receivedAt }

def Rule.pendingAdvisory (r : Rule) (a : Advisory) : Advisory :=
  { a with intendedAction := some ⟨r.actuatorId, r.targetState, r.id⟩ }

/-- The body of the loop of `evaluate`, for the `k`-th rule. -/
def evaluateRule (f : Faults) (a : Advisory) (k : Nat) (r : Rule) (e : Evaluation) : Outcome × Evaluation :=
  if !r.matches a then (.noMatch, e)
  else if f.lookup k then (.lookupFailed, e)
  else if hasPendingFor e.world.queue r.actuatorId r.targetState then (.alreadyPending, e)
  else match e.world.daemon.currentState r.actuatorId with
    | .error _ => (.stateFailed, e)
    | .ok current =>
      if current = r.targetState then (.atTarget, e)
      else if e.acted r.actuatorId then (.alreadyActed, e)
      else if r.disposition = .operatorApproved then
        if f.insert k then (.enqueueFailed, e)
        else (.queued,
          { world := { e.world with queue := e.world.queue ++ [(r.pendingAdvisory a).row] }
            acted := Function.update e.acted r.actuatorId true })
      else match e.world.daemon.execute (f.apply k) (r.command a) with
        | (.error _, d) => (.executeFailed, { e with world := { e.world with daemon := d } })
        | (.ok _, d) => (.executed,
            { world := { e.world with daemon := d }, acted := Function.update e.acted r.actuatorId true })

def evaluateFrom (f : Faults) (a : Advisory) : Nat → List Rule → Evaluation → List (Rule × Outcome) × Evaluation
  | _, [], e => ([], e)
  | k, r :: rs, e =>
    let (o, e') := evaluateRule f a k r e
    let (out, e'') := evaluateFrom f a (k + 1) rs e'
    ((r, o) :: out, e'')

/-- The engine: its rules as `SetRules` leaves them, sorted by priority, highest first.  `slices.SortFunc` is not stable,
so any order of rules of one priority is possible. -/
structure Engine where
  rules : List Rule
  sorted : rules.Pairwise (fun r r' => r'.priority ≤ r.priority)

/-- No rule is loaded. -/
def Engine.empty : Engine := ⟨[], .nil⟩

/-- `evaluate`: what became of each rule, and the world after. -/
def Engine.evaluate (e : Engine) (f : Faults) (a : Advisory) (w : World) : List (Rule × Outcome) × World :=
  let (out, ev) := evaluateFrom f a 0 e.rules { world := w }
  (out, ev.world)

/-! ## One rule at a time -/

/-- The rule matches, and its action is pending or its actuator already at its target. -/
def Rule.skips (f : Faults) (a : Advisory) (k : Nat) (r : Rule) (w : World) : Bool :=
  r.matches a && !f.lookup k &&
    (hasPendingFor w.queue r.actuatorId r.targetState || decide (w.daemon.state r.actuatorId = some r.targetState))

/-- The rule matches, its action is neither pending nor done, and executing or enqueueing it succeeds. -/
def Rule.canAct (f : Faults) (a : Advisory) (k : Nat) (r : Rule) (w : World) : Bool :=
  r.matches a && !f.lookup k && !hasPendingFor w.queue r.actuatorId r.targetState &&
    (w.daemon.state r.actuatorId).isSome && decide (w.daemon.state r.actuatorId ≠ some r.targetState) &&
    (if r.disposition = .operatorApproved then !f.insert k
     else !w.daemon.refuses r.actuatorId r.targetState && !f.apply k)

/-- Two worlds look the same to the rules for one actuator. -/
structure SameFor (x : String) (w w' : World) : Prop where
  specs : w'.daemon.specs = w.daemon.specs
  state : w'.daemon.state x = w.daemon.state x
  pending : ∀ s, hasPendingFor w'.queue x s = hasPendingFor w.queue x s

theorem SameFor.refl (x : String) (w : World) : SameFor x w w := ⟨rfl, rfl, fun _ => rfl⟩

theorem SameFor.trans {x : String} {w w' w'' : World} (h : SameFor x w w') (h' : SameFor x w' w'') : SameFor x w w'' :=
  ⟨h'.specs.trans h.specs, h'.state.trans h.state, fun s => (h'.pending s).trans (h.pending s)⟩

theorem canAct_congr {f : Faults} {a : Advisory} {k : Nat} {r : Rule} {w w' : World} (h : SameFor r.actuatorId w w') :
    r.canAct f a k w' = r.canAct f a k w := by
  unfold Rule.canAct Daemon.refuses
  rw [h.specs, h.state, h.pending]

theorem skips_congr {f : Faults} {a : Advisory} {k : Nat} {r : Rule} {w w' : World} (h : SameFor r.actuatorId w w') :
    r.skips f a k w' = r.skips f a k w := by
  unfold Rule.skips
  rw [h.state, h.pending]

theorem hasPendingFor_append {queue : List QueuedAdvisory} {q : QueuedAdvisory} {x s : String} (h : q.actuatorId ≠ x) :
    hasPendingFor (queue ++ [q]) x s = hasPendingFor queue x s := by
  unfold hasPendingFor
  rw [List.countP_append, List.countP_singleton]
  simp [h]

/-- The outcome of a rule that meets the world `w`, its actuator not yet acted on. -/
structure Rule.Meets (f : Faults) (a : Advisory) (k : Nat) (r : Rule) (w : World) (o : Outcome) : Prop where
  acts : o.acts = r.canAct f a k w
  skipped : o.skipped = r.skips f a k w
  failed : r.matches a = true → o.acts = false → o.skipped = false → o.failed = true

theorem Rule.Meets.congr {f : Faults} {a : Advisory} {k : Nat} {r : Rule} {w w' : World} {o : Outcome}
    (h : r.Meets f a k w' o) (hs : SameFor r.actuatorId w w') : r.Meets f a k w o :=
  ⟨h.acts.trans (canAct_congr hs), h.skipped.trans (skips_congr hs), h.failed⟩

/-- The rule meets the world and changes nothing that other rules see. -/
def Rule.PassedOver (f : Faults) (a : Advisory) (k : Nat) (r : Rule) (e : Evaluation) : Prop :=
  ∃ o w, evaluateRule f a k r e = (o, { e with world := w }) ∧ o.acts = false ∧ r.Meets f a k e.world o ∧
    ∀ x, SameFor x e.world w

/-- The rule meets the world and acts, on its own actuator only. -/
def Rule.Acted (f : Faults) (a : Advisory) (k : Nat) (r : Rule) (e : Evaluation) : Prop :=
  ∃ o w, evaluateRule f a k r e = (o, { world := w, acted := Function.update e.acted r.actuatorId true }) ∧
    o.acts = true ∧ e.acted r.actuatorId = false ∧ r.Meets f a k e.world o ∧
    ∀ x, x ≠ r.actuatorId → SameFor x e.world w

/-- An autonomous rule that gets as far as its action: the daemon executes it, or nothing happens. -/
theorem evaluateRule_autonomous {f : Faults} {a : Advisory} {k : Nat} {r : Rule} {e : Evaluation} {current : String}
    (hm : r.matches a = true) (hl : f.lookup k = false)
    (hp : hasPendingFor e.world.queue r.actuatorId r.targetState = false)
    (hs : e.world.daemon.state r.actuatorId = some current) (ht : current ≠ r.targetState)
    (ha : e.acted r.actuatorId = false) (hd : r.disposition ≠ .operatorApproved) :
    r.PassedOver f a k e ∨ r.Acted f a k e := by
  have hskips : r.skips f a k e.world = false := by simp [Rule.skips, hp, hs, ht]
  have hstate : e.world.daemon.state (r.command a).actuatorId ≠ some (r.command a).targetState := by
    intro he
    exact ht (Option.some.inj (hs.symm.trans he))
  have hok := Daemon.execute_isOk (f.apply k) hstate hs
  obtain ⟨hspec, hframe⟩ := e.world.daemon.execute_frame (f.apply k) (r.command a)
  cases hx : e.world.daemon.execute (f.apply k) (r.command a) with
  | mk res d =>
  rw [hx] at hok hspec hframe
  have hcan : r.canAct f a k e.world =
      (!e.world.daemon.refuses r.actuatorId r.targetState && !f.apply k) := by
    simp [Rule.canAct, hm, hl, hp, hs, ht, hd]
  cases res with
  | ok res =>
    obtain ⟨h1, h2⟩ := hok.1 ⟨res, rfl⟩
    have h1 : e.world.daemon.refuses r.actuatorId r.targetState = false := h1
    refine .inr ⟨.executed, { e.world with daemon := d },
      by simp [evaluateRule, Daemon.currentState, hm, hl, hp, hs, ht, ha, hd, hx], rfl, ha,
      ⟨by rw [hcan, h1, h2]; rfl, hskips.symm, fun _ h => by cases h⟩, ?_⟩
    exact fun x hne => ⟨hspec, hframe x hne, fun _ => rfl⟩
  | error err =>
    have hno : r.canAct f a k e.world = false := by
      rw [hcan, Bool.eq_false_iff]
      intro hboth
      simp only [Bool.and_eq_true, Bool.not_eq_true'] at hboth
      obtain ⟨res, hres⟩ := hok.2 hboth
      cases hres
    have herr : (e.world.daemon.execute (f.apply k) (r.command a)).1 = .error err := by rw [hx]
    have hstay := Daemon.execute_error herr
    rw [hx] at hstay
    exact .inl ⟨.executeFailed, { e.world with daemon := d },
      by simp [evaluateRule, Daemon.currentState, hm, hl, hp, hs, ht, ha, hd, hx], rfl,
      ⟨hno.symm, hskips.symm, fun _ _ _ => rfl⟩, fun x => ⟨hspec, congrFun hstay x, fun _ => rfl⟩⟩

/-- **What handling one rule can do.**  It passes over an actuator already acted on; or it meets the world and changes
what other rules see only by acting, and then only for its own actuator. -/
theorem evaluateRule_cases (f : Faults) (a : Advisory) (k : Nat) (r : Rule) (e : Evaluation) :
    (evaluateRule f a k r e = (.alreadyActed, e) ∧ e.acted r.actuatorId = true) ∨
    r.PassedOver f a k e ∨ r.Acted f a k e := by
  have hquiet : ∀ o, evaluateRule f a k r e = (o, e) → o.acts = false → r.Meets f a k e.world o →
      r.PassedOver f a k e :=
    fun o h ho hm => ⟨o, e.world, h, ho, hm, fun x => .refl x e.world⟩
  cases hm : r.matches a with
  | false =>
    exact .inr (.inl (hquiet .noMatch (by simp [evaluateRule, hm]) rfl ⟨by simp [Rule.canAct, hm, Outcome.acts],
      by simp [Rule.skips, hm, Outcome.skipped], fun h => by simp [hm] at h⟩))
  | true =>
  cases hl : f.lookup k with
  | true =>
    exact .inr (.inl (hquiet .lookupFailed (by simp [evaluateRule, hm, hl]) rfl
      ⟨by simp [Rule.canAct, hl, Outcome.acts], by simp [Rule.skips, hl, Outcome.skipped], fun _ _ _ => rfl⟩))
  | false =>
  cases hp : hasPendingFor e.world.queue r.actuatorId r.targetState with
  | true =>
    exact .inr (.inl (hquiet .alreadyPending (by simp [evaluateRule, hm, hl, hp]) rfl
      ⟨by simp [Rule.canAct, hp, Outcome.acts], by simp [Rule.skips, hm, hl, hp, Outcome.skipped],
        fun _ _ h => by cases h⟩))
  | false =>
  cases hs : e.world.daemon.state r.actuatorId with
  | none =>
    exact .inr (.inl (hquiet .stateFailed (by simp [evaluateRule, Daemon.currentState, hm, hl, hp, hs]) rfl
      ⟨by simp [Rule.canAct, hs, Outcome.acts], by simp [Rule.skips, hp, hs, Outcome.skipped], fun _ _ _ => rfl⟩))
  | some current =>
  by_cases ht : current = r.targetState
  · exact .inr (.inl (hquiet .atTarget (by simp [evaluateRule, Daemon.currentState, hm, hl, hp, hs, ht]) rfl
      ⟨by simp [Rule.canAct, hs, ht, Outcome.acts], by simp [Rule.skips, hm, hl, hs, ht, Outcome.skipped],
        fun _ _ h => by cases h⟩))
  have hskips : r.skips f a k e.world = false := by simp [Rule.skips, hp, hs, ht]
  cases ha : e.acted r.actuatorId with
  | true => exact .inl ⟨by simp [evaluateRule, Daemon.currentState, hm, hl, hp, hs, ht, ha], rfl⟩
  | false =>
  by_cases hd : r.disposition = .operatorApproved
  · cases hi : f.insert k with
    | true =>
      exact .inr (.inl (hquiet .enqueueFailed
        (by simp [evaluateRule, Daemon.currentState, hm, hl, hp, hs, ht, ha, hd, hi]) rfl
        ⟨by simp [Rule.canAct, hd, hi, Outcome.acts], hskips.symm, fun _ _ _ => rfl⟩))
    | false =>
      refine .inr (.inr ⟨.queued, { e.world with queue := e.world.queue ++ [(r.pendingAdvisory a).row] },
        by simp [evaluateRule, Daemon.currentState, hm, hl, hp, hs, ht, ha, hd, hi], rfl, ha,
        ⟨by simp [Rule.canAct, hm, hl, hp, hs, ht, hd, hi, Outcome.acts], hskips.symm, fun _ h => by cases h⟩, ?_⟩)
      intro x hx
      exact ⟨rfl, rfl, fun s => hasPendingFor_append (fun he => hx he.symm)⟩
  · exact .inr (evaluateRule_autonomous hm hl hp hs ht ha hd)

/-! ## The loop -/

/-- A rule for `x` before the `j`-th can act in the world the evaluation starts in. -/
def ActsBefore (f : Faults) (a : Advisory) (rules : List Rule) (w : World) (j : Nat) (x : String) : Prop :=
  ∃ i r, i < j ∧ rules[i]? = some r ∧ r.actuatorId = x ∧ r.canAct f a i w = true

theorem actsBefore_succ {f : Faults} {a : Advisory} {rules : List Rule} {w : World} {k : Nat} {r : Rule}
    (hr : rules[k]? = some r) (x : String) :
    ActsBefore f a rules w (k + 1) x ↔
      ActsBefore f a rules w k x ∨ (r.actuatorId = x ∧ r.canAct f a k w = true) := by
  constructor
  · rintro ⟨i, r', hi, hr', hx, hc⟩
    by_cases hik : i = k
    · subst hik
      rw [hr] at hr'
      cases hr'
      exact .inr ⟨hx, hc⟩
    · exact .inl ⟨i, r', by omega, hr', hx, hc⟩
  · rintro (⟨i, r', hi, hr', hx, hc⟩ | ⟨hx, hc⟩)
    · exact ⟨i, r', by omega, hr', hx, hc⟩
    · exact ⟨k, r, by omega, hr, hx, hc⟩

/-- Before the `k`-th rule: the actuators acted on are those a rule could act on, the others look as they did. -/
structure Tracks (f : Faults) (a : Advisory) (rules : List Rule) (w : World) (k : Nat) (e : Evaluation) : Prop where
  acted : ∀ x, e.acted x = true ↔ ActsBefore f a rules w k x
  same : ∀ x, e.acted x = false → SameFor x w e.world

/-- The outcome of the `k`-th rule: it does not act once an earlier rule could, and else it meets the world `w`. -/
structure Settles (f : Faults) (a : Advisory) (rules : List Rule) (w : World) (k : Nat) (r : Rule) (o : Outcome) : Prop where
  late : ActsBefore f a rules w k r.actuatorId → o.acts = false
  first : ¬ ActsBefore f a rules w k r.actuatorId → r.Meets f a k w o

theorem Tracks.rule {f : Faults} {a : Advisory} {rules : List Rule} {w : World} {k : Nat} {e : Evaluation} {r : Rule}
    (h : Tracks f a rules w k e) (hr : rules[k]? = some r) :
    Settles f a rules w k r (evaluateRule f a k r e).1 ∧ Tracks f a rules w (k + 1) (evaluateRule f a k r e).2 := by
  have hfree : ¬ ActsBefore f a rules w k r.actuatorId → SameFor r.actuatorId w e.world := by
    intro hno
    exact h.same _ (Bool.eq_false_iff.2 fun hyes => hno ((h.acted _).1 hyes))
  rcases evaluateRule_cases f a k r e with ⟨he, ha⟩ | ⟨o, w', he, ho, hm, hs⟩ | ⟨o, w', he, ho, ha, hm, hs⟩
  · rw [he]
    have hyes := (h.acted _).1 ha
    refine ⟨⟨fun _ => rfl, fun hno => absurd hyes hno⟩, ⟨fun x => ?_, h.same⟩⟩
    rw [actsBefore_succ hr, h.acted]
    refine ⟨.inl, ?_⟩
    rintro (hx | ⟨rfl, -⟩)
    · exact hx
    · exact hyes
  · rw [he]
    have hmeets : ¬ ActsBefore f a rules w k r.actuatorId → r.Meets f a k w o := fun hno => hm.congr (hfree hno)
    refine ⟨⟨fun _ => ho, hmeets⟩, ⟨fun x => ?_, fun x hx => (h.same x hx).trans (hs x)⟩⟩
    rw [actsBefore_succ hr, h.acted]
    refine ⟨.inl, ?_⟩
    rintro (hx | ⟨rfl, hc⟩)
    · exact hx
    · by_contra hno
      have := (hmeets hno).acts
      rw [ho, hc] at this
      cases this
  · rw [he]
    have hno : ¬ ActsBefore f a rules w k r.actuatorId := by
      rw [← h.acted, ha]
      exact Bool.false_ne_true
    have hmeets : r.Meets f a k w o := hm.congr (hfree hno)
    refine ⟨⟨fun hyes => absurd hyes hno, fun _ => hmeets⟩, ⟨fun x => ?_, fun x hx => ?_⟩⟩
    · rw [actsBefore_succ hr, ← h.acted]
      by_cases hx : x = r.actuatorId
      · subst hx
        simp [← hmeets.acts, ho]
      · simp [Function.update_of_ne hx, Ne.symm hx]
    · by_cases hxr : x = r.actuatorId
      · subst hxr
        simp at hx
      · have hx : e.acted x = false := by simpa [Function.update_of_ne hxr] using hx
        exact (h.same x hx).trans (hs x hxr)

/-- **What became of each rule**, from the `k`-th on. -/
theorem evaluateFrom_spec {f : Faults} {a : Advisory} {rules : List Rule} {w : World} (rs : List Rule) :
    ∀ (k : Nat) (e : Evaluation), rules.drop k = rs → Tracks f a rules w k e →
      (evaluateFrom f a k rs e).1.map Prod.fst = rs ∧
      ∀ j r o, (evaluateFrom f a k rs e).1[j]? = some (r, o) → Settles f a rules w (k + j) r o := by
  induction rs with
  | nil =>
    intro k e _ _
    exact ⟨rfl, fun j r o h => by simp [evaluateFrom] at h⟩
  | cons r₀ rs ih =>
    intro k e hdrop h
    have hr₀ : rules[k]? = some r₀ := by
      rw [← List.head?_drop, hdrop]
      rfl
    have hdrop' : rules.drop (k + 1) = rs := by
      rw [← List.tail_drop, hdrop]
      rfl
    obtain ⟨hsettles, hnext⟩ := h.rule hr₀
    obtain ⟨hmap, hrest⟩ := ih (k + 1) _ hdrop' hnext
    refine ⟨by simp [evaluateFrom, hmap], fun j r o hj => ?_⟩
    cases j with
    | zero =>
      have hj : (r₀, (evaluateRule f a k r₀ e).1) = (r, o) := by simpa [evaluateFrom] using hj
      cases hj
      exact hsettles
    | succ j =>
      rw [show k + (j + 1) = k + 1 + j by omega]
      exact hrest j r o (by simpa [evaluateFrom] using hj)

theorem evaluate_spec (e : Engine) (f : Faults) (a : Advisory) (w : World) :
    (e.evaluate f a w).1.map Prod.fst = e.rules ∧
      ∀ j r o, (e.evaluate f a w).1[j]? = some (r, o) → Settles f a e.rules w j r o := by
  have hstart : Tracks f a e.rules w 0 { world := w } :=
    ⟨fun x => ⟨fun hx => by simp at hx, fun ⟨i, _, hi, _⟩ => by omega⟩, fun x _ => .refl x w⟩
  obtain ⟨hmap, hall⟩ := evaluateFrom_spec e.rules 0 { world := w } rfl hstart
  refine ⟨hmap, fun j r o hj => ?_⟩
  have := hall j r o hj
  rwa [Nat.zero_add] at this

/-! ## Rule priority -/

/-- A rule acts only if every matching rule of higher priority for its actuator failed. -/
def PriorityRespected (a : Advisory) (out : List (Rule × Outcome)) : Prop :=
  ∀ r o, (r, o) ∈ out → o.acts = true → ∀ r' o', (r', o') ∈ out → r'.matches a = true →
    r'.actuatorId = r.actuatorId → r.priority < r'.priority → o'.failed = true

/-- The first rule that can act on an actuator comes after no rule of higher priority that is skipped in silence: one
whose action is pending, or whose actuator is already at its target. -/
def Engine.NoSkippedAbove (e : Engine) (f : Faults) (a : Advisory) (w : World) : Prop :=
  ∀ (j : Nat) (r : Rule) (i : Nat) (r' : Rule), e.rules[j]? = some r → r.canAct f a j w = true →
    ¬ ActsBefore f a e.rules w j r.actuatorId → e.rules[i]? = some r' → r'.actuatorId = r.actuatorId → r.priority < r'.priority → r'.skips f a i w = false

theorem Engine.lt_of_priority_lt (e : Engine) {i j : Nat} {r r' : Rule} (hi : e.rules[i]? = some r')
    (hj : e.rules[j]? = some r) (hp : r.priority < r'.priority) : i < j := by
  by_contra hle
  have hij : j ≠ i := by
    rintro rfl
    rw [hi] at hj
    cases hj
    omega
  obtain ⟨hi', rfl⟩ := List.getElem?_eq_some_iff.1 hi
  obtain ⟨hj', rfl⟩ := List.getElem?_eq_some_iff.1 hj
  have := List.pairwise_iff_getElem.1 e.sorted j i hj' hi' (by omega)
  omega

theorem outcome_at {e : Engine} {f : Faults} {a : Advisory} {w : World} {j : Nat} {r : Rule}
    (hr : e.rules[j]? = some r) : ∃ o, (e.evaluate f a w).1[j]? = some (r, o) := by
  rw [← (evaluate_spec e f a w).1, List.getElem?_map] at hr
  obtain ⟨⟨r', o⟩, ho, rfl⟩ := Option.map_eq_some_iff.1 hr
  exact ⟨o, ho⟩

theorem rule_at {e : Engine} {f : Faults} {a : Advisory} {w : World} {j : Nat} {r : Rule} {o : Outcome}
    (h : (e.evaluate f a w).1[j]? = some (r, o)) : e.rules[j]? = some r := by
  rw [← (evaluate_spec e f a w).1, List.getElem?_map, h]
  rfl

theorem ActsBefore.mono {f : Faults} {a : Advisory} {rules : List Rule} {w : World} {i j : Nat} {x : String}
    (h : ActsBefore f a rules w i x) (hij : i ≤ j) : ActsBefore f a rules w j x := by
  obtain ⟨l, r, hl, hr⟩ := h
  exact ⟨l, r, by omega, hr⟩

/-- **When rule priority is respected**: exactly when no rule is skipped in silence above the first rule that can act. -/
theorem priority_respected_iff (e : Engine) (f : Faults) (a : Advisory) (w : World) :
    PriorityRespected a (e.evaluate f a w).1 ↔ e.NoSkippedAbove f a w := by
  have hall := (evaluate_spec e f a w).2
  constructor
  · intro h j r i r' hj hcan hfirst hi hx hp
    obtain ⟨o, ho⟩ := outcome_at (f := f) (a := a) (w := w) hj
    obtain ⟨o', ho'⟩ := outcome_at (f := f) (a := a) (w := w) hi
    have hij := e.lt_of_priority_lt hi hj hp
    have hacts : o.acts = true := ((hall j r o ho).first hfirst).acts.trans hcan
    have hfirst' : ¬ ActsBefore f a e.rules w i r'.actuatorId := by
      intro hb
      rw [hx] at hb
      exact hfirst (hb.mono (by omega))
    have hmeets := (hall i r' o' ho').first hfirst'
    rw [← hmeets.skipped]
    cases hm : r'.matches a with
    | false => rw [hmeets.skipped]; simp [Rule.skips, hm]
    | true =>
      have hfail := h r o (List.mem_of_getElem? ho) hacts r' o' (List.mem_of_getElem? ho') hm hx hp
      cases o' <;> first | rfl | cases hfail
  · intro h r o hmem hacts r' o' hmem' hm hx hp
    obtain ⟨j, ho⟩ := List.mem_iff_getElem?.1 hmem
    obtain ⟨i, ho'⟩ := List.mem_iff_getElem?.1 hmem'
    have hij := e.lt_of_priority_lt (rule_at ho') (rule_at ho) hp
    have hfirst : ¬ ActsBefore f a e.rules w j r.actuatorId := by
      intro hb
      rw [(hall j r o ho).late hb] at hacts
      cases hacts
    have hfirst' : ¬ ActsBefore f a e.rules w i r'.actuatorId := by
      intro hb
      rw [hx] at hb
      exact hfirst (hb.mono (by omega))
    have hcan := ((hall j r o ho).first hfirst).acts.symm.trans hacts
    have hmeets := (hall i r' o' ho').first hfirst'
    have hskip := h j r i r' (rule_at ho) hcan hfirst (rule_at ho') hx hp
    refine hmeets.failed hm ?_ (hmeets.skipped.trans hskip)
    rw [hmeets.acts, Bool.eq_false_iff]
    intro hcan'
    exact hfirst ⟨i, r', hij, rule_at ho', hx, hcan'⟩

/-- A barrier that is closed, a rule that wants it closed and one, of lower priority, that wants it open. -/
def closedBarrier : World where
  daemon :=
    { specs := fun id => if id = "barrier" then some { id := "barrier", states := ["open", "closed"], failsafeState := "open" } else none
      state := fun id => if id = "barrier" then some "closed" else none
      results := [] }
  queue := []

/-- **A rule skipped because its actuator is at its target blocks nothing**: the rule of lower priority opens the
barrier. -/
theorem priority_ignored_at_target :
    ¬ ∀ (e : Engine) (f : Faults) (a : Advisory) (w : World), PriorityRespected a (e.evaluate f a w).1 := by
  intro h
  let close : Rule := { id := "close", actuatorId := "barrier", targetState := "closed", priority := 10 }
  let reopen : Rule := { id := "open", actuatorId := "barrier", targetState := "open", priority := 1 }
  have hout := h ⟨[close, reopen], by decide⟩ ⟨fun _ => false, fun _ => false, fun _ => false⟩
    { sourceId := "gauge", kind := "flood", severity := 3 } closedBarrier
  have hfail : Outcome.failed .atTarget = true :=
    hout reopen .executed (by decide) rfl close .atTarget (by decide) (by decide) rfl (by decide)
  cases hfail

end Gateway
end FloodEws
