import FloodEws.Requests
/-!
# Pending — one pending item per action

The policy engine asks `HasPendingFor` before it queues an action, and queues it in a later query.  Two evaluations that
both ask first both queue.
-/
namespace FloodEws
namespace Gateway

/-- How many pending rows ask for an action. -/
def pendingCount (queue : List QueuedAdvisory) (actuatorId targetState : String) : Nat :=
  queue.countP (fun q =>
    decide (q.actuatorId = actuatorId) && decide (q.targetState = targetState) && decide (q.status = .pending))

/-- No two pending rows ask for the same action. -/
def PendingUnique (s : Shared) : Prop :=
  ∀ actuatorId targetState, actuatorId ≠ "" → targetState ≠ "" → pendingCount s.store.queue actuatorId targetState ≤ 1

/-- The action an evaluation may queue, having found it not pending. -/
def Thread.intends : Thread → Option (String × String)
  | .currentState _ _ r _ => if r.disposition = .operatorApproved then some (r.actuatorId, r.targetState) else none
  | .act _ _ r _ => if r.disposition = .operatorApproved then some (r.actuatorId, r.targetState) else none
  | _ => none

/-- The action the next step looks up before queueing it. -/
def Thread.looksUp : Thread → Option (String × String)
  | .lookup a _ (r :: _) =>
    if r.matches a = true ∧ r.disposition = .operatorApproved then some (r.actuatorId, r.targetState) else none
  | _ => none

/-- **When a lookup is good for what follows**: no other evaluation has looked the action up and not queued it yet. -/
def Unhurried (p : Pool Shared Thread) : Sched Thread Bool → Prop
  | .spawn _ => True
  | .run i _ => ∀ t, p.threads[i]? = some t → ∀ action, t.looksUp = some action →
    ∀ u, Prog.Other p i u → u.intends ≠ some action

theorem hasPendingFor_eq (queue : List QueuedAdvisory) (x st : String) :
    hasPendingFor queue x st = decide (0 < pendingCount queue x st) := rfl

theorem pendingCount_concat (queue : List QueuedAdvisory) (q : QueuedAdvisory) (x st : String) :
    pendingCount (queue ++ [q]) x st =
      pendingCount queue x st + if q.actuatorId = x ∧ q.targetState = st ∧ q.status = .pending then 1 else 0 := by
  unfold pendingCount
  rw [List.countP_append, List.countP_singleton]
  simp [and_assoc]

/-- A row that is no longer pending does not count. -/
theorem pendingCount_set_le (queue : List QueuedAdvisory) (n : Nat) (q : QueuedAdvisory) (x st : String)
    (hq : q.status ≠ .pending) : pendingCount (queue.set n q) x st ≤ pendingCount queue x st := by
  induction queue generalizing n with
  | nil => exact Nat.le_refl _
  | cons q' queue ih =>
    unfold pendingCount at ih ⊢
    cases n with
    | zero => simp [List.countP_cons, hq]
    | succ n =>
      have := ih n
      simp only [List.set_cons_succ, List.countP_cons]
      omega

theorem resolveUpdate_pendingCount {s : Store} {fails : Bool} {id : Nat} {status : QueueStatus} {actor : String}
    (hstatus : status ≠ .pending) (x st : String) :
    pendingCount (s.resolveUpdate fails id status actor).2.queue x st ≤ pendingCount s.queue x st := by
  rcases s.resolveUpdate_cases fails id status actor with ⟨h, -⟩ | ⟨-, n, existing, -, -, -, -, h⟩
  · rw [h]
  · rw [h]
    exact pendingCount_set_le _ _ _ _ _ hstatus

/-! ## What one step does -/

/-- What an evaluation or a request knows: the action it intends is not pending, and it resolves to another status. -/
structure Thread.Knows (s : Shared) (t : Thread) : Prop where
  absent : ∀ x st, t.intends = some (x, st) → pendingCount s.store.queue x st = 0
  status : ∀ id status actor after, t = .update id status actor after → status ≠ .pending

def Thread.Differs (t u : Thread) : Prop := ∀ action, t.intends = some action → u.intends ≠ some action

/-- **Who intends an action after a step**: one who did, or one who has just looked it up. -/
theorem Thread.intends_step {fails : Bool} {t : Thread} {s : Shared} {x st : String}
    (h : (t.step fails s).1.intends = some (x, st)) :
    (t.step fails s).2 = s ∧
      (t.intends = some (x, st) ∨ (t.looksUp = some (x, st) ∧ pendingCount s.store.queue x st = 0)) := by
  cases t with
  | lookup a acted rules =>
    cases rules with
    | nil => cases h
    | cons r rules =>
      have hsame : ((lookup a acted (r :: rules)).step fails s).2 = s := by
        simp only [step]
        repeat' split
        all_goals rfl
      simp only [step] at h
      split at h
      · cases h
      rename_i hmatches
      split at h
      · cases h
      split at h
      · cases h
      rename_i hpending
      have hlooks : (lookup a acted (r :: rules)).looksUp = some (x, st) := by
        have hmatches : r.matches a = true := by simpa using hmatches
        simpa [looksUp, intends, hmatches] using h
      refine ⟨hsame, .inr ⟨hlooks, ?_⟩⟩
      have hboth : r.actuatorId = x ∧ r.targetState = st := by
        by_cases hd : r.disposition = .operatorApproved
        · simpa [intends, hd] using h
        · simp [intends, hd] at h
      rw [hboth.1, hboth.2, hasPendingFor_eq] at hpending
      simpa using hpending
  | currentState a acted r rules =>
    have hsame : ((currentState a acted r rules).step fails s).2 = s := by
      simp only [step]
      repeat' split
      all_goals rfl
    simp only [step] at h
    split at h
    · cases h
    split at h
    · cases h
    split at h
    · cases h
    · exact ⟨hsame, .inl h⟩
  | check id status actor after =>
    simp only [step] at h
    split at h
    · cases after <;> cases h
    · cases h
  | update id status actor after =>
    simp only [step] at h
    cases after <;> cases h
  | _ =>
    simp only [step] at h
    repeat' split at h
    all_goals cases h

/-- A step queues no action but the one it intends. -/
theorem Thread.pendingCount_step {fails : Bool} {t : Thread} {s : Shared} (h : t.Knows s) (x st : String) :
    pendingCount (t.step fails s).2.store.queue x st ≤ pendingCount s.store.queue x st ∨
    (t.intends = some (x, st) ∧ pendingCount (t.step fails s).2.store.queue x st = 1) := by
  rcases t.step_queue fails s with hq | ⟨a, acted, r, rules, rfl, hd, hq⟩ | ⟨id, status, actor, after, rfl, hq⟩
  · exact .inl (by rw [hq])
  · rw [hq, pendingCount_concat]
    by_cases hsame : r.actuatorId = x ∧ r.targetState = st
    · right
      have hintends : (Thread.act a acted r rules).intends = some (x, st) := by simp [intends, hd, hsame]
      rw [h.absent x st hintends]
      exact ⟨hintends, by simp [Advisory.row, Rule.pendingAdvisory, hsame]⟩
    · left
      have hno : ¬ ((r.pendingAdvisory a).row.actuatorId = x ∧ (r.pendingAdvisory a).row.targetState = st ∧
          (r.pendingAdvisory a).row.status = .pending) := fun ⟨h1, h2, _⟩ => hsame ⟨h1, h2⟩
      rw [if_neg hno]
      omega
  · rw [hq]
    exact .inl (resolveUpdate_pendingCount (h.status id status actor after rfl) x st)

theorem Thread.update_step {fails : Bool} {t : Thread} {s : Shared} {id : Nat} {status : QueueStatus} {actor : String}
    {after : Option QueuedAdvisory} (h : (t.step fails s).1 = .update id status actor after) : status ≠ .pending := by
  cases t with
  | check j st actor' after' =>
    simp only [step] at h
    split at h
    · cases after' <;> cases h
    · rename_i hcheck
      cases h
      rintro rfl
      simp [Store.resolveCheck] at hcheck
  | lookup a acted rules =>
    cases rules with
    | nil => cases h
    | cons r rules =>
      simp only [step] at h
      repeat' split at h
      all_goals cases h
  | update j st actor' after' =>
    simp only [step] at h
    cases after' <;> cases h
  | _ =>
    simp only [step] at h
    repeat' split at h
    all_goals cases h

theorem Thread.intends_of_fresh {t : Thread} (h : t.fresh) : t.intends = none := by
  cases t with
  | currentState a acted r rules => cases h
  | act a acted r rules => cases h
  | _ => rfl

theorem pending_local {s : Shared} {p : Pool Shared Thread} (hs : PendingUnique s)
    (h : (requests.sys s).Reachable Unhurried p) : Prog.Local PendingUnique Thread.Knows Thread.Differs p := by
  refine Prog.local_invariant h hs ?_ ?_
  · intro x t ht
    have hnone := Thread.intends_of_fresh ht
    refine ⟨⟨fun x st hint => ?_, fun id status actor after he => ?_⟩, fun u => ⟨fun action hint => ?_, fun action _ hint => ?_⟩⟩
    · rw [hnone] at hint
      cases hint
    · rw [he] at ht
      cases ht
    · rw [hnone] at hint
      cases hint
    · rw [hnone] at hint
      cases hint
  · intro p i t fails _ ht _ hok hp
    have hknows := hp.each t (List.mem_of_getElem? ht)
    refine ⟨fun x st hx hst => ?_, ⟨fun x st hint => ?_, fun id status actor after he => Thread.update_step he⟩, ?_⟩
    · rcases @Thread.pendingCount_step fails _ _ hknows x st with hle | ⟨-, hone⟩
      · exact hle.trans (hp.shared x st hx hst)
      · exact hone.le
    · obtain ⟨hsame, hint⟩ := Thread.intends_step hint
      have hsame : (requests.step fails t p.shared).2 = p.shared := hsame
      rw [hsame]
      rcases hint with hint | ⟨-, hzero⟩
      · exact hknows.absent x st hint
      · exact hzero
    · intro u hu hL htu hut
      have hdiffers : (t.step fails p.shared).1.Differs u := by
        rintro ⟨x, st⟩ hint
        obtain ⟨-, hint | ⟨hlooks, -⟩⟩ := Thread.intends_step hint
        · exact htu _ hint
        · exact hok t ht _ hlooks u hu
      refine ⟨⟨fun x st hint => ?_, hL.status⟩, hdiffers, fun action hint hint' => hdiffers action hint' hint⟩
      rcases @Thread.pendingCount_step fails _ _ hknows x st with hle | ⟨hint', -⟩
      · exact Nat.le_zero.1 (hle.trans (hL.absent x st hint).le)
      · exact absurd hint (htu _ hint')

/-- **One pending item per action, in every run whose lookups are unhurried.** -/
theorem pending_unique {s : Shared} {p : Pool Shared Thread} (hs : PendingUnique s)
    (h : (requests.sys s).Reachable Unhurried p) : PendingUnique p.shared :=
  (pending_local hs h).shared

/-- The condition, computed. -/
def unhurried (p : Pool Shared Thread) (i : Nat) : Bool :=
  match p.threads[i]? with
  | none => true
  | some t => (p.threads.eraseIdx i).all (fun u => t.looksUp.isNone || decide (u.intends ≠ t.looksUp))

theorem unhurried_of {p : Pool Shared Thread} {i : Nat} {fails : Bool} (h : unhurried p i = true) :
    Unhurried p (.run i fails) := by
  intro t ht action haction u ⟨j, hj, hu⟩ hint
  simp only [unhurried, ht, List.all_eq_true] at h
  have := h u (List.mem_eraseIdx_iff_getElem?.2 ⟨j, hj, hu⟩)
  simp [haction, hint] at this

/-- The flood gate is closed, and nothing is queued. -/
def gateClosed : Shared := { gateQueued with store := {} }

/-- Two sources report a flood to an engine whose one rule asks an operator to open the gate. -/
def openRule : Rule :=
  { id := "open", actuatorId := "flood-gate", targetState := "open", disposition := .operatorApproved, priority := 1 }

def floodSeen (source : String) : Thread :=
  .lookup { sourceId := source, kind := "flood", severity := 3 } (fun _ => false) [openRule]

/-- The second looks up after the first has queued. -/
def oneAfterTheOther : List (Sched Thread Bool) :=
  [.spawn (floodSeen "a"), .spawn (floodSeen "b"), .run 0 false, .run 0 false, .run 0 false, .run 1 false]

theorem pendingUnique_gateClosed : PendingUnique gateClosed := fun _ _ _ _ => Nat.zero_le 1

theorem pending_unique_oneAfterTheOther :
    ((requests.sys gateClosed).run oneAfterTheOther ⟨gateClosed, []⟩).shared.store.queue.length = 1 ∧
      PendingUnique ((requests.sys gateClosed).run oneAfterTheOther ⟨gateClosed, []⟩).shared := by
  have hlegal : (requests.sys gateClosed).Legal Unhurried oneAfterTheOther ⟨gateClosed, []⟩ :=
    ⟨rfl, trivial, rfl, trivial, ⟨_, rfl, trivial⟩, unhurried_of (by decide), ⟨_, rfl, trivial⟩,
      unhurried_of (by decide), ⟨_, rfl, trivial⟩, unhurried_of (by decide), ⟨_, rfl, trivial⟩,
      unhurried_of (by decide), trivial⟩
  exact ⟨by decide, pending_unique pendingUnique_gateClosed (Sys.reaches_run _ _ hlegal)⟩

/-- Both look up before either queues. -/
def bothLookUp : List (Sched Thread Bool) :=
  [.spawn (floodSeen "a"), .spawn (floodSeen "b"), .run 0 false, .run 1 false, .run 0 false, .run 0 false, .run 1 false,
    .run 1 false]

/-- **Two evaluations at once queue the same action twice.** -/
theorem action_queued_twice :
    ¬ ∀ (s : Shared) (p : Pool Shared Thread), PendingUnique s → (requests.sys s).Reachable Sys.always p →
      PendingUnique p.shared := by
  intro h
  have hlegal : (requests.sys gateClosed).Legal Sys.always bothLookUp ⟨gateClosed, []⟩ :=
    ⟨rfl, trivial, rfl, trivial, ⟨_, rfl, trivial⟩, trivial, ⟨_, rfl, trivial⟩, trivial, ⟨_, rfl, trivial⟩, trivial,
      ⟨_, rfl, trivial⟩, trivial, ⟨_, rfl, trivial⟩, trivial, ⟨_, rfl, trivial⟩, trivial, trivial⟩
  have hle := h gateClosed _ pendingUnique_gateClosed (Sys.reaches_run _ _ hlegal) "flood-gate" "open" (by decide)
    (by decide)
  exact absurd hle (by decide)

end Gateway
end FloodEws
