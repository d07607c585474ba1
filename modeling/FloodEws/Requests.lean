import FloodEws.Threads
import FloodEws.Api
/-!
# Requests — evaluations and operator requests side by side

Each poller, the uplink handler and each HTTP request runs in a goroutine of its own, and they share the daemon and the
store.  A call of the daemon is under its lock and a query or transaction is atomic, so between two of these any other
goroutine may run.

Two things a request checks first may change before it acts.  An approval looks whether its item is pending, drives the
actuator and only then resolves the item (`approval_atomic`); an evaluation looks whether its action is pending and only
later queues it (`pending_unique`).
-/
namespace FloodEws
namespace Gateway

/-- What the goroutines share.  `approvals` are the items for which an approval's `Execute` succeeded, newest first; one that
finds the actuator in its state already, and changes nothing, counts too. -/
structure Shared where
  daemon : Daemon
  store : Store
  approvals : List Nat := []

/-- A goroutine, stopped before its next step on what is shared. -/
inductive Thread where
  /-- `evaluate`, before its next rule -/
  | lookup (a : Advisory) (acted : String → Bool) (rules : List Rule)
  /-- `HasPendingFor` said no -/
  | currentState (a : Advisory) (acted : String → Bool) (r : Rule) (rules : List Rule)
  /-- about to call `Enqueue` or `Execute` -/
  | act (a : Advisory) (acted : String → Bool) (r : Rule) (rules : List Rule)
  /-- `handleActuate` -/
  | actuate (actor now : String) (req : ActuateRequest)
  /-- `handleApprovePending` from its start -/
  | getPending (id : Nat) (actor : String)
  /-- the item was pending: about to call `ApprovePending` -/
  | approve (id : Nat) (actor : String) (item : QueuedAdvisory)
  /-- `ResolvePending` from its start; `after` is the item whose action has been executed -/
  | check (id : Nat) (status : QueueStatus) (actor : String) (after : Option QueuedAdvisory)
  /-- the item was still pending: about to run the transaction -/
  | update (id : Nat) (status : QueueStatus) (actor : String) (after : Option QueuedAdvisory)
  | record (actor actuatorId targetState : String)
  | done

namespace Thread

/-- What is left once `ResolvePending` has returned. -/
def resolved (actor : String) : Option QueuedAdvisory → Thread
  | some item => .record actor item.actuatorId item.targetState
  | none => .done

/-- `SubmitAdvisory`, the two requests on a queued item, a manual command. -/
def fresh : Thread → Prop
  | .lookup _ acted _ => acted = fun _ => false
  | .actuate _ _ _ => True
  | .getPending _ _ => True
  | .check _ .rejected _ none => True
  | _ => False

/-- One step; `fails` is whether the query, the transaction or the backend fails in it. -/
def step (fails : Bool) (t : Thread) (s : Shared) : Thread × Shared :=
  match t with
  | .lookup _ _ [] => (.done, s)
  | .lookup a acted (r :: rules) =>
    if !r.matches a then (.lookup a acted rules, s)
    else if fails then (.lookup a acted rules, s)
    else if hasPendingFor s.store.queue r.actuatorId r.targetState then (.lookup a acted rules, s)
    else (.currentState a acted r rules, s)
  | .currentState a acted r rules =>
    match s.daemon.currentState r.actuatorId with
    | .error _ => (.lookup a acted rules, s)
    | .ok current =>
      if current = r.targetState then (.lookup a acted rules, s)
      else if acted r.actuatorId then (.lookup a acted rules, s)
      else (.act a acted r rules, s)
  | .act a acted r rules =>
    if r.disposition = .operatorApproved then
      if fails then (.lookup a acted rules, s)
      else (.lookup a (Function.update acted r.actuatorId true) rules,
        { s with store := s.store.enqueue (r.pendingAdvisory a) })
    else match s.daemon.execute fails (r.command a) with
      | (.error _, d) => (.lookup a acted rules, { s with daemon := d })
      | (.ok _, d) => (.lookup a (Function.update acted r.actuatorId true) rules, { s with daemon := d })
  | .actuate actor now req =>
    let reason := if req.reason = "" then "manual:" ++ actor else req.reason
    match s.daemon.execute fails ⟨req.actuatorId, req.targetState, reason, "manual@" ++ now⟩ with
    | (.error _, d) => (.done, { s with daemon := d })
    | (.ok _, d) => (.record actor req.actuatorId req.targetState, { s with daemon := d })
  | .getPending id actor =>
    match s.store.getPending fails id with
    | .error _ => (.done, s)
    | .ok item =>
      if item.status ≠ .pending then (.done, s)
      else if item.actuatorId = "" then (.check id .approved actor none, s)
      else (.approve id actor item, s)
  | .approve id actor item =>
    match s.daemon.execute fails
        ⟨item.actuatorId, item.targetState, "operator_approved:" ++ actor, "pending@" ++ toString id⟩ with
    | (.error _, d) => (.done, { s with daemon := d })
    | (.ok _, d) => (.check id .approved actor (some item), { s with daemon := d, approvals := id :: s.approvals })
  | .check id status actor after =>
    match s.store.resolveCheck fails id status with
    | .error _ => (resolved actor after, s)
    | .ok _ => (.update id status actor after, s)
  | .update id status actor after =>
    (resolved actor after, { s with store := (s.store.resolveUpdate fails id status actor).2 })
  | .record actor actuatorId targetState =>
    (.done, { s with store := s.store.recordControlAction fails actor actuatorId targetState })
  | .done => (.done, s)

end Thread

def requests : Prog Shared Thread Bool where
  fresh := Thread.fresh
  may := fun _ _ _ => True
  step := Thread.step

/-! ## A goroutine on its own -/

/-- The evaluation's world and what it leaves alone. -/
def Evaluation.shared (e : Evaluation) (audit : List AuditLog) (approvals : List Nat) : Shared :=
  ⟨e.world.daemon, ⟨e.world.queue, audit⟩, approvals⟩

/-- **Without others in between, the steps for a rule are its handling in `evaluate`.** -/
theorem evaluateRule_solo (f : Faults) (a : Advisory) (k : Nat) (r : Rule) (rules : List Rule) (e : Evaluation)
    (audit : List AuditLog) (approvals : List Nat) :
    ∃ ks, requests.solo ks (.lookup a e.acted (r :: rules), e.shared audit approvals) =
      (.lookup a (evaluateRule f a k r e).2.acted rules, (evaluateRule f a k r e).2.shared audit approvals) := by
  have hone : ∀ o, evaluateRule f a k r e = (o, e) →
      Thread.step (f.lookup k) (.lookup a e.acted (r :: rules)) (e.shared audit approvals) =
        (.lookup a e.acted rules, e.shared audit approvals) →
      ∃ ks, requests.solo ks (.lookup a e.acted (r :: rules), e.shared audit approvals) =
        (.lookup a (evaluateRule f a k r e).2.acted rules, (evaluateRule f a k r e).2.shared audit approvals) := by
    intro o ho hstep
    rw [ho]
    exact ⟨[f.lookup k], hstep⟩
  cases hm : r.matches a with
  | false => exact hone .noMatch (by simp [evaluateRule, hm]) (by simp [Thread.step, hm])
  | true =>
  cases hl : f.lookup k with
  | true => exact hone .lookupFailed (by simp [evaluateRule, hm, hl]) (by simp [Thread.step, hm, hl])
  | false =>
  cases hp : hasPendingFor e.world.queue r.actuatorId r.targetState with
  | true =>
    exact hone .alreadyPending (by simp [evaluateRule, hm, hl, hp])
      (by simp [Thread.step, Evaluation.shared, hm, hl, hp])
  | false =>
  cases hs : e.world.daemon.state r.actuatorId with
  | none =>
    exact ⟨[false, false], by simp [Prog.solo, requests, Thread.step, evaluateRule, Evaluation.shared,
      Daemon.currentState, hm, hl, hp, hs]⟩
  | some current =>
  by_cases ht : current = r.targetState
  · exact ⟨[false, false], by simp [Prog.solo, requests, Thread.step, evaluateRule, Evaluation.shared,
      Daemon.currentState, hm, hl, hp, hs, ht]⟩
  cases ha : e.acted r.actuatorId with
  | true =>
    exact ⟨[false, false], by simp [Prog.solo, requests, Thread.step, evaluateRule, Evaluation.shared,
      Daemon.currentState, hm, hl, hp, hs, ht, ha]⟩
  | false =>
  by_cases hd : r.disposition = .operatorApproved
  · refine ⟨[false, false, f.insert k], ?_⟩
    cases hi : f.insert k <;>
      simp [Prog.solo, requests, Thread.step, evaluateRule, Evaluation.shared, Daemon.currentState, Store.enqueue, hm, hl,
        hp, hs, ht, ha, hd, hi]
  · refine ⟨[false, false, f.apply k], ?_⟩
    cases hx : e.world.daemon.execute (f.apply k) (r.command a) with
    | mk res d =>
      cases res <;>
        simp [Prog.solo, requests, Thread.step, evaluateRule, Evaluation.shared, Daemon.currentState, hm, hl, hp, hs, ht,
          ha, hd, hx]

/-- **An evaluation on its own is `evaluate`.** -/
theorem evaluateFrom_solo (f : Faults) (a : Advisory) (audit : List AuditLog) (approvals : List Nat) (rules : List Rule) :
    ∀ (k : Nat) (e : Evaluation), ∃ ks, requests.solo ks (.lookup a e.acted rules, e.shared audit approvals) =
      (.done, (evaluateFrom f a k rules e).2.shared audit approvals) := by
  induction rules with
  | nil => exact fun k e => ⟨[false], rfl⟩
  | cons r rules ih =>
    intro k e
    obtain ⟨ks, hks⟩ := evaluateRule_solo f a k r rules e audit approvals
    obtain ⟨ks', hks'⟩ := ih (k + 1) (evaluateRule f a k r e).2
    refine ⟨ks ++ ks', ?_⟩
    rw [Prog.solo_append, hks, hks']
    rfl

/-- **An approval on its own is `handleApprovePending`.** -/
theorem approve_solo (g : Server) (f : ApproveFaults) (id : Nat) (actor : String) (approvals : List Nat) :
    ∃ ks approvals', requests.solo ks (.getPending id actor, ⟨g.daemon, g.store, approvals⟩) =
      (.done, ⟨(g.handleApprovePending f id actor).2.daemon, (g.handleApprovePending f id actor).2.store, approvals'⟩) := by
  cases hget : g.store.getPending f.get id with
  | error e => exact ⟨[f.get], approvals, by simp [Prog.solo, requests, Thread.step, Server.handleApprovePending, hget]⟩
  | ok item =>
  by_cases hp : item.status = .pending
  swap
  · exact ⟨[f.get], approvals, by simp [Prog.solo, requests, Thread.step, Server.handleApprovePending, hget, hp]⟩
  by_cases ha : item.actuatorId = ""
  · refine ⟨[f.get, f.check, f.update], approvals, ?_⟩
    cases hc : g.store.resolveCheck f.check id .approved with
    | error e =>
      simp [Prog.solo, requests, Thread.step, Thread.resolved, Server.handleApprovePending, Server.resolvePending, hget, hp,
        ha, hc]
    | ok _ =>
      cases hu : g.store.resolveUpdate f.update id .approved actor with
      | mk res store =>
        cases res <;>
          simp [Prog.solo, requests, Thread.step, Thread.resolved, Server.handleApprovePending, Server.resolvePending, hget,
            hp, ha, hc, hu]
  cases hx : g.daemon.execute f.apply
      ⟨item.actuatorId, item.targetState, "operator_approved:" ++ actor, "pending@" ++ id.repr⟩ with
  | mk res d =>
  cases res with
  | error e =>
    exact ⟨[f.get, f.apply], approvals, by simp [Prog.solo, requests, Thread.step, Server.handleApprovePending,
      Server.approvePending, hget, hp, ha, hx]⟩
  | ok res =>
    cases hc : g.store.resolveCheck f.check id .approved with
    | error e =>
      exact ⟨[f.get, f.apply, f.check, f.record], id :: approvals, by simp [Prog.solo, requests, Thread.step,
        Thread.resolved, Server.handleApprovePending, Server.approvePending, Server.resolvePending, hget, hp, ha, hx, hc]⟩
    | ok _ =>
      exact ⟨[f.get, f.apply, f.check, f.update, f.record], id :: approvals, by simp [Prog.solo, requests, Thread.step,
        Thread.resolved, Server.handleApprovePending, Server.approvePending, Server.resolvePending, hget, hp, ha, hx, hc]⟩

/-- **A rejection on its own is `handleRejectPending`.** -/
theorem reject_solo (g : Server) (f : ApproveFaults) (id : Nat) (actor : String) (approvals : List Nat) :
    ∃ ks, requests.solo ks (.check id .rejected actor none, ⟨g.daemon, g.store, approvals⟩) =
      (.done, ⟨(g.handleRejectPending f id actor).2.daemon, (g.handleRejectPending f id actor).2.store, approvals⟩) := by
  refine ⟨[f.check, f.update], ?_⟩
  cases hc : g.store.resolveCheck f.check id .rejected with
  | error e =>
    simp [Prog.solo, requests, Thread.step, Thread.resolved, Server.handleRejectPending, Server.resolvePending, hc]
  | ok _ =>
    cases hu : g.store.resolveUpdate f.update id .rejected actor with
    | mk res store =>
      cases res <;>
        simp [Prog.solo, requests, Thread.step, Thread.resolved, Server.handleRejectPending, Server.resolvePending, hc, hu]

namespace Thread

/-- The item an approval has found pending and not yet resolved. -/
def holds : Thread → Option Nat
  | .approve id _ _ => some id
  | .check id .approved _ (some _) => some id
  | .update id .approved _ (some _) => some id
  | _ => none

/-- The item an approval has executed and not yet resolved. -/
def owes : Thread → Option Nat
  | .check id .approved _ (some _) => some id
  | .update id .approved _ (some _) => some id
  | _ => none

/-- The item the next step decides on: whether an approval goes ahead, or what becomes of it. -/
def decides : Thread → Option Nat
  | .getPending id _ => some id
  | .update id _ _ _ => some id
  | _ => none

/-- The item an operator request in progress is about. -/
def concerns : Thread → Option Nat
  | .getPending id _ => some id
  | .approve id _ _ => some id
  | .check id _ _ _ => some id
  | .update id _ _ _ => some id
  | _ => none

/-! ## What one step does -/

/-- The rows after a step: `Enqueue` adds one, the transaction of `ResolvePending` changes one. -/
theorem step_queue (fails : Bool) (t : Thread) (s : Shared) :
    (t.step fails s).2.store.queue = s.store.queue ∨
    (∃ a acted r rules, t = .act a acted r rules ∧ r.disposition = .operatorApproved ∧
      (t.step fails s).2.store.queue = s.store.queue ++ [(r.pendingAdvisory a).row]) ∨
    (∃ id status actor after, t = .update id status actor after ∧
      (t.step fails s).2.store = (s.store.resolveUpdate fails id status actor).2) := by
  cases t with
  | act a acted r rules =>
    by_cases hd : r.disposition = .operatorApproved
    · cases fails with
      | true => exact .inl (by simp [step, hd])
      | false => exact .inr (.inl ⟨a, acted, r, rules, rfl, hd, by simp [step, hd, Store.enqueue]⟩)
    · left
      simp only [step, hd, if_false]
      split <;> rfl
  | update id status actor after => exact .inr (.inr ⟨id, status, actor, after, rfl, rfl⟩)
  | lookup a acted rules =>
    left
    cases rules with
    | nil => rfl
    | cons r rules =>
      simp only [step]
      split
      · rfl
      split
      · rfl
      split <;> rfl
  | currentState a acted r rules =>
    left
    simp only [step]
    split
    · rfl
    split
    · rfl
    split <;> rfl
  | actuate actor now req =>
    left
    simp only [step]
    split <;> rfl
  | getPending id actor =>
    left
    simp only [step]
    split
    · rfl
    split
    · rfl
    split <;> rfl
  | approve id actor item =>
    left
    simp only [step]
    split <;> rfl
  | check id status actor after =>
    left
    simp only [step]
    split <;> rfl
  | record actor actuatorId targetState =>
    left
    simp only [step, Store.recordControlAction]
    split <;> rfl
  | done => exact .inl rfl

/-- Only an approval that goes through is one, and it then owes its item's resolution. -/
theorem step_approvals (fails : Bool) (t : Thread) (s : Shared) :
    (t.step fails s).2.approvals = s.approvals ∨
    ∃ id actor item, t = .approve id actor item ∧ (t.step fails s).2.approvals = id :: s.approvals ∧
      (t.step fails s).1 = .check id .approved actor (some item) := by
  cases t with
  | approve id actor item =>
    cases hx : s.daemon.execute fails
        ⟨item.actuatorId, item.targetState, "operator_approved:" ++ actor, "pending@" ++ toString id⟩ with
    | mk res d =>
      cases res with
      | error e => exact .inl (by simp only [step, hx])
      | ok res => exact .inr ⟨id, actor, item, rfl, by simp only [step, hx], by simp only [step, hx]⟩
  | lookup a acted rules =>
    left
    cases rules with
    | nil => rfl
    | cons r rules =>
      simp only [step]
      repeat' split
      all_goals rfl
  | _ =>
    left
    simp only [step]
    repeat' split
    all_goals rfl

/-- A row once there stays, and only the transaction that resolves it changes it. -/
theorem step_row {fails : Bool} {t : Thread} {s : Shared} {id : Nat} {item : QueuedAdvisory}
    (hrow : s.store.row id = some item) :
    (t.step fails s).2.store.row id = some item ∨
    ∃ status actor after, t = .update id status actor after ∧ item.status = .pending ∧
      (t.step fails s).2.store.row id = some { item with status := status, resolvedBy := actor } := by
  cases id with
  | zero => cases hrow
  | succ n =>
  have hget : s.store.queue[n]? = some item := hrow
  rcases t.step_queue fails s with h | ⟨a, acted, r, rules, -, -, h⟩ | ⟨j, status, actor, after, rfl, h⟩
  · left
    simp only [Store.row]
    rw [h, hget]
  · left
    simp only [Store.row]
    rw [h, List.getElem?_append_left (List.getElem?_eq_some_iff.1 hget).1, hget]
  · by_cases hj : n + 1 = j
    · subst hj
      rcases s.store.resolveUpdate_cases fails (n + 1) status actor with ⟨hs, -⟩ | ⟨rfl, m, existing, hm, hex, hp, -, -⟩
      · left
        rw [h, hs, hrow]
      · obtain rfl : n = m := by omega
        rw [hget] at hex
        cases hex
        right
        refine ⟨status, actor, after, rfl, hp, ?_⟩
        rw [h, Store.resolveUpdate_pending hrow hp]
    · left
      rw [h, Store.resolveUpdate_frame _ _ _ _ _ hj, hrow]

end Thread

/-! ## Approving and rejecting one item -/

/-- An item's action is executed through approval at most once, never if the item is rejected, and once no request for
the item is in progress only if it is approved. -/
def Atomic (p : Pool Shared Thread) : Prop :=
  ∀ id, p.shared.approvals.count id ≤ 1 ∧
    (∀ item, p.shared.store.row id = some item → item.status = .rejected → p.shared.approvals.count id = 0) ∧
    ((∀ t ∈ p.threads, t.concerns ≠ some id) → 0 < p.shared.approvals.count id →
      ∃ item, p.shared.store.row id = some item ∧ item.status = .approved)

/-- **When a request leaves approvals atomic.**  No request decides on an item while another has found it pending and not
yet resolved it, and the database does not fail an approval that has executed its action. -/
def Exclusive (p : Pool Shared Thread) : Sched Thread Bool → Prop
  | .spawn _ => True
  | .run i fails => ∀ t, p.threads[i]? = some t →
    (∀ id, t.decides = some id → ∀ u, Prog.Other p i u → u.holds ≠ some id) ∧ (t.owes ≠ none → fails = false)

/-- The item is not approved and unresolved. -/
def Resolved (id : Nat) (s : Shared) : Prop :=
  s.approvals.count id = 0 ∨ ∃ item, s.store.row id = some item ∧ item.status ≠ .pending

namespace Thread

theorem row_isSome_step {fails : Bool} {t : Thread} {s : Shared} {id : Nat} (h : (s.store.row id).isSome) :
    ((t.step fails s).2.store.row id).isSome := by
  obtain ⟨item, hitem⟩ := Option.isSome_iff_exists.1 h
  rcases @step_row fails t _ _ _ hitem with h | ⟨_, _, _, -, -, h⟩ <;> simp [h]

/-- The rows after a step: those before, one of them resolved, or a new one that is pending. -/
theorem row_step {fails : Bool} {t : Thread} {s : Shared} {id : Nat} {item : QueuedAdvisory}
    (h : (t.step fails s).2.store.row id = some item) :
    s.store.row id = some item ∨ item.status = .pending ∨
    ∃ old status actor after, t = .update id status actor after ∧ s.store.row id = some old ∧ old.status = .pending ∧
      item.status = status := by
  cases hold : s.store.row id with
  | some old =>
    rcases @step_row fails t _ _ _ hold with h' | ⟨status, actor, after, rfl, hp, h'⟩
    · exact .inl (h'.symm.trans h)
    · rw [h] at h'
      cases h'
      exact .inr (.inr ⟨old, status, actor, after, rfl, rfl, hp, rfl⟩)
  | none =>
    right
    left
    cases id with
    | zero => cases h
    | succ n =>
    have hnone : s.store.queue[n]? = none := hold
    simp only [Store.row] at h
    rcases t.step_queue fails s with hq | ⟨a, acted, r, rules, -, -, hq⟩ | ⟨j, status, actor, after, rfl, hq⟩
    · rw [hq, hnone] at h
      cases h
    · rw [hq, List.getElem?_append_right (List.getElem?_eq_none_iff.1 hnone)] at h
      rw [List.mem_singleton.1 (List.mem_of_getElem? h)]
      rfl
    · rw [hq] at h
      rcases s.store.resolveUpdate_cases fails j status actor with ⟨hs, -⟩ | ⟨-, m, _, -, -, -, -, hs⟩
      · rw [hs, hnone] at h
        cases h
      · rw [hs, List.getElem?_eq_none_iff.2 (by simpa using hnone)] at h
        cases h

/-- **Who holds an item after a step**: an approval that held it, or one that has just found it pending. -/
theorem holds_step {fails : Bool} {t : Thread} {s : Shared} {id : Nat} (h : (t.step fails s).1.holds = some id) :
    (t.holds = some id ∧ (t.step fails s).1.owes = some id) ∨
    ∃ actor item, t = .getPending id actor ∧ s.store.row id = some item ∧ item.status = .pending ∧ (t.step fails s).2 = s := by
  cases t with
  | getPending j actor =>
    right
    simp only [step] at h ⊢
    split at h
    · cases h
    rename_i item hget
    split at h
    · cases h
    rename_i hp
    split at h
    · cases h
    rename_i ha
    cases h
    exact ⟨actor, item, rfl, Store.getPending_ok hget, by simpa using hp, by simp [hp, ha]⟩
  | approve j actor item =>
    left
    simp only [step] at h ⊢
    split at h
    · cases h
    · exact ⟨h, h⟩
  | check j status actor after =>
    left
    simp only [step] at h ⊢
    split at h
    · cases after <;> cases h
    · cases status <;> cases after <;> exact ⟨h, h⟩
  | update j status actor after =>
    simp only [step] at h
    cases after <;> cases h
  | lookup a acted rules =>
    cases rules with
    | nil => cases h
    | cons r rules =>
      simp only [step] at h
      repeat' split at h
      all_goals cases h
  | _ =>
    simp only [step] at h
    repeat' split at h
    all_goals cases h

theorem holds_of_owes {t : Thread} {id : Nat} (h : t.owes = some id) : t.holds = some id := by
  cases t with
  | check j status actor after => cases status <;> cases after <;> exact h
  | update j status actor after => cases status <;> cases after <;> exact h
  | _ => cases h

theorem concerns_of_owes {t : Thread} {id : Nat} (h : t.owes = some id) : t.concerns = some id := by
  cases t with
  | check j status actor after => cases status <;> cases after <;> first | exact h | cases h
  | update j status actor after => cases status <;> cases after <;> first | exact h | cases h
  | _ => cases h

theorem holds_of_fresh {t : Thread} (h : t.fresh) : t.holds = none := by
  cases t with
  | approve id actor item => cases h
  | check id status actor after => cases status <;> cases after <;> first | rfl | cases h
  | update id status actor after => cases h
  | _ => rfl

end Thread

open Thread in
/-- **A step leaves an item resolved, or owes its resolution.** -/
theorem resolved_step {fails : Bool} {t : Thread} {s : Shared} {id : Nat} (h : Resolved id s) :
    Resolved id (t.step fails s).2 ∨ (t.step fails s).1.owes = some id := by
  rcases h with h | ⟨item, hrow, hp⟩
  · rcases t.step_approvals fails s with ha | ⟨j, actor, item, rfl, ha, ht⟩
    · exact .inl (.inl (by rw [ha, h]))
    · by_cases hj : j = id
      · subst hj
        exact .inr (by rw [ht]; rfl)
      · exact .inl (.inl (by rw [ha, List.count_cons_of_ne hj, h]))
  · rcases @step_row fails t _ _ _ hrow with hrow | ⟨_, _, _, -, hp', -⟩
    · exact .inl (.inr ⟨item, hrow, hp⟩)
    · exact absurd hp' hp

open Thread in
/-- **What is owed is paid**, unless the database fails. -/
theorem owes_step {t : Thread} {s : Shared} {id : Nat} (h : t.owes = some id) (hrow : (s.store.row id).isSome) :
    Resolved id (t.step false s).2 ∨ (t.step false s).1.owes = some id := by
  obtain ⟨item, hitem⟩ := Option.isSome_iff_exists.1 hrow
  by_cases hp : item.status = .pending
  swap
  · exact resolved_step (.inr ⟨item, hitem, hp⟩)
  cases t with
  | check j status actor after =>
    cases status <;> cases after <;> cases h
    simp [step, Store.resolveCheck, Store.getPending, hitem, hp, owes]
  | update j status actor after =>
    cases status <;> cases after <;> cases h
    exact .inl (.inr ⟨_, Store.resolveUpdate_pending hitem hp _ _, by simp⟩)
  | _ => cases h

/-- An item held by an approval is there. -/
theorem held_row {s : Shared} {ok : Pool Shared Thread → Sched Thread Bool → Prop} {p : Pool Shared Thread}
    (h : (requests.sys s).Reachable ok p) :
    Prog.Local (fun _ => True) (fun s t => ∀ id, t.holds = some id → (s.store.row id).isSome) (fun _ _ => True) p := by
  refine Prog.local_invariant h trivial ?_ ?_
  · intro x t ht
    refine ⟨fun id hid => ?_, fun _ => ⟨trivial, trivial⟩⟩
    rw [Thread.holds_of_fresh ht] at hid
    cases hid
  · intro p i t fails _ ht _ _ hp
    refine ⟨trivial, fun id hid => ?_, fun u _ hu _ _ => ⟨fun id hid => Thread.row_isSome_step (hu id hid), trivial, trivial⟩⟩
    rcases Thread.holds_step hid with ⟨hh, -⟩ | ⟨_, item, -, hrow, -, -⟩
    · exact Thread.row_isSome_step (hp.each t (List.mem_of_getElem? ht) id hh)
    · exact Thread.row_isSome_step (by simp [hrow])

/-- **Every item is resolved or its resolution is owed.** -/
theorem resolved_or_owed {s : Shared} {p : Pool Shared Thread} (h : (requests.sys s).Reachable Exclusive p)
    (hs : s.approvals = []) : Prog.Owed Resolved (fun id _ t => t.owes = some id) p := by
  refine Prog.owed_invariant h (fun id => .inl (by simp [hs])) ?_
  intro p i t fails id hreach ht _ hok hid
  obtain ⟨-, hfails⟩ := hok t ht
  rcases hid with hid | hid | hother
  · exact (resolved_step hid).imp_right .inl
  · obtain rfl := hfails (by simp [hid])
    have hrow := (held_row hreach).each t (List.mem_of_getElem? ht) id (Thread.holds_of_owes hid)
    exact (owes_step hid hrow).imp_right .inl
  · exact .inr (.inr hother)

/-- No item is executed twice, and one that is neither pending nor approved was not executed. -/
def Approved (s : Shared) : Prop :=
  ∀ id, s.approvals.count id ≤ 1 ∧
    ∀ item, s.store.row id = some item → item.status ≠ .pending → item.status ≠ .approved → s.approvals.count id = 0

/-- The item an approval holds is pending, and was not executed before. -/
def Thread.Holding (s : Shared) (t : Thread) : Prop :=
  ∀ id, t.holds = some id →
    (∃ item, s.store.row id = some item ∧ item.status = .pending) ∧ (t.owes = none → s.approvals.count id = 0)

/-- Two approvals hold different items. -/
def Thread.Apart (t u : Thread) : Prop := ∀ id, t.holds = some id → u.holds ≠ some id

/-- Nobody else holds the item, and this thread owes nothing: if the item is pending it was not executed. -/
theorem count_eq_zero {s : Shared} {p : Pool Shared Thread} (h : (requests.sys s).Reachable Exclusive p)
    (hs : s.approvals = []) {i : Nat} {t : Thread} (ht : p.threads[i]? = some t) {id : Nat} (hnone : t.owes ≠ some id)
    (hothers : ∀ u, Prog.Other p i u → u.holds ≠ some id) {item : QueuedAdvisory}
    (hrow : p.shared.store.row id = some item) (hp : item.status = .pending) : p.shared.approvals.count id = 0 := by
  rcases resolved_or_owed h hs id with (hzero | ⟨item', hrow', hp'⟩) | ⟨u, hu, howes⟩
  · exact hzero
  · rw [hrow] at hrow'
    cases hrow'
    exact absurd hp hp'
  · rcases (Prog.mem_iff_self_or_other ht).1 hu with rfl | hu
    · exact absurd howes hnone
    · exact absurd (Thread.holds_of_owes howes) (hothers u hu)

section

variable {s : Shared} {p : Pool Shared Thread} {i : Nat} {t : Thread} {fails : Bool}

theorem approved_step (h : (requests.sys s).Reachable Exclusive p) (hs : s.approvals = [])
    (ht : p.threads[i]? = some t) (hok : Exclusive p (.run i fails))
    (hp : Prog.Local Approved Thread.Holding Thread.Apart p) : Approved (t.step fails p.shared).2 := by
  obtain ⟨hdecides, -⟩ := hok t ht
  have hholding := hp.each t (List.mem_of_getElem? ht)
  intro id
  obtain ⟨hone, hrest⟩ := hp.shared id
  rcases t.step_approvals fails p.shared with ha | ⟨j, actor, item, rfl, ha, hnext⟩
  · rw [ha]
    refine ⟨hone, fun item hrow hpending happroved => ?_⟩
    rcases Thread.row_step hrow with hrow | hpend | ⟨old, status, actor, after, rfl, hold, hpend, hstatus⟩
    · exact hrest item hrow hpending happroved
    · exact absurd hpend hpending
    · -- The item was resolved in this step, and not as approved.
      refine count_eq_zero h hs ht ?_ (fun u hu => hdecides id rfl u hu) hold hpend
      rw [hstatus] at happroved
      cases status <;> cases after <;> first | exact absurd rfl happroved | (intro hno; cases hno)
  · obtain ⟨⟨held, hheld, hpend⟩, hzero⟩ := hholding j rfl
    rw [ha]
    by_cases hj : j = id
    · subst hj
      rw [List.count_cons_self, hzero rfl]
      refine ⟨le_refl 1, fun item' hrow hpending happroved => ?_⟩
      -- The step is not a transaction, so the row is still the one that is pending.
      rcases @Thread.step_row fails (.approve j actor item) _ _ _ hheld with hsame | ⟨_, _, _, hno, -, -⟩
      · rw [hsame] at hrow
        cases hrow
        exact absurd hpend hpending
      · cases hno
    · rw [List.count_cons_of_ne hj]
      refine ⟨hone, fun item' hrow hpending happroved => ?_⟩
      rcases Thread.row_step hrow with hrow | hpend' | ⟨_, _, _, _, hno, -, -, -⟩
      · exact hrest item' hrow hpending happroved
      · exact absurd hpend' hpending
      · cases hno

theorem holding_step (h : (requests.sys s).Reachable Exclusive p) (hs : s.approvals = [])
    (ht : p.threads[i]? = some t) (hok : Exclusive p (.run i fails))
    (hp : Prog.Local Approved Thread.Holding Thread.Apart p) :
    (t.step fails p.shared).1.Holding (t.step fails p.shared).2 := by
  obtain ⟨hdecides, -⟩ := hok t ht
  intro id hid
  rcases Thread.holds_step hid with ⟨hheld, howes⟩ | ⟨actor, item, rfl, hrow, hpend, hsame⟩
  · obtain ⟨⟨item, hrow, hpend⟩, -⟩ := hp.each t (List.mem_of_getElem? ht) id hheld
    refine ⟨?_, fun hno => by rw [howes] at hno; cases hno⟩
    rcases @Thread.step_row fails t _ _ _ hrow with hrow | ⟨status, actor, after, rfl, -, -⟩
    · exact ⟨item, hrow, hpend⟩
    · cases after <;> cases hid
  · rw [hsame]
    exact ⟨⟨item, hrow, hpend⟩, fun _ => count_eq_zero h hs ht (fun hno => by cases hno)
      (fun u hu => hdecides id rfl u hu) hrow hpend⟩

/-- **A step disturbs no other approval.** -/
theorem others_step (ht : p.threads[i]? = some t) (hok : Exclusive p (.run i fails)) {u : Thread} (hu : Prog.Other p i u)
    (hL : u.Holding p.shared) (htu : t.Apart u) (hut : u.Apart t) :
    u.Holding (t.step fails p.shared).2 ∧ (t.step fails p.shared).1.Apart u ∧ u.Apart (t.step fails p.shared).1 := by
  obtain ⟨hdecides, -⟩ := hok t ht
  have hapart : (t.step fails p.shared).1.Apart u := by
    intro id hid
    rcases Thread.holds_step hid with ⟨hheld, -⟩ | ⟨actor, item, rfl, -, -, -⟩
    · exact htu id hheld
    · exact hdecides id rfl u hu
  refine ⟨fun id hid => ?_, hapart, fun id hid hid' => hapart id hid' hid⟩
  obtain ⟨⟨item, hrow, hpend⟩, hzero⟩ := hL id hid
  constructor
  · rcases @Thread.step_row fails t _ _ _ hrow with hrow | ⟨status, actor, after, rfl, -, -⟩
    · exact ⟨item, hrow, hpend⟩
    · exact absurd hid (hdecides id rfl u hu)
  · intro hnone
    rcases t.step_approvals fails p.shared with ha | ⟨j, actor, item, rfl, ha, -⟩
    · rw [ha, hzero hnone]
    · have hj : j ≠ id := by
        rintro rfl
        exact htu j rfl hid
      rw [ha, List.count_cons_of_ne hj, hzero hnone]

end

theorem approved_local {s : Shared} {p : Pool Shared Thread} (h : (requests.sys s).Reachable Exclusive p)
    (hs : s.approvals = []) (hstart : Approved s) : Prog.Local Approved Thread.Holding Thread.Apart p := by
  refine Prog.local_invariant h hstart ?_ ?_
  · intro x t ht
    refine ⟨fun id hid => ?_, fun u => ⟨fun id hid => ?_, fun id _ hid => ?_⟩⟩ <;>
      · rw [Thread.holds_of_fresh ht] at hid
        cases hid
  · intro p i t fails hreach ht _ hok hp
    exact ⟨approved_step hreach hs ht hok hp, holding_step hreach hs ht hok hp,
      fun u hu hL htu hut => others_step ht hok hu hL htu hut⟩

/-- **Approvals are atomic in every run whose steps are exclusive.** -/
theorem approval_atomic {s : Shared} {p : Pool Shared Thread} (hs : s.approvals = [])
    (h : (requests.sys s).Reachable Exclusive p) : Atomic p := by
  have hlocal := approved_local h hs (fun id => by simp [hs])
  intro id
  obtain ⟨hone, hrest⟩ := hlocal.shared id
  refine ⟨hone, fun item hrow hstatus => hrest item hrow (by simp [hstatus]) (by simp [hstatus]), ?_⟩
  intro hdone hpos
  rcases resolved_or_owed h hs id with (hzero | ⟨item, hrow, hp⟩) | ⟨u, hu, howes⟩
  · omega
  · refine ⟨item, hrow, ?_⟩
    by_contra happroved
    have := hrest item hrow hp happroved
    omega
  · exact absurd (Thread.concerns_of_owes howes) (hdone u hu)

/-- The condition, computed. -/
def exclusive (p : Pool Shared Thread) (i : Nat) (fails : Bool) : Bool :=
  match p.threads[i]? with
  | none => true
  | some t =>
    (p.threads.eraseIdx i).all (fun u => t.decides.isNone || decide (u.holds ≠ t.decides)) && (t.owes.isNone || !fails)

theorem exclusive_of {p : Pool Shared Thread} {i : Nat} {fails : Bool} (h : exclusive p i fails = true) :
    Exclusive p (.run i fails) := by
  intro t ht
  simp only [exclusive, ht, Bool.and_eq_true, List.all_eq_true, Bool.or_eq_true] at h
  obtain ⟨hothers, howes⟩ := h
  constructor
  · rintro id hid u ⟨j, hj, hu⟩ hheld
    have := hothers u (List.mem_eraseIdx_iff_getElem?.2 ⟨j, hj, hu⟩)
    simp [hid, hheld] at this
  · intro hsome
    rcases howes with hnone | hfails
    · simp only [Option.isNone_iff_eq_none] at hnone
      exact absurd hnone hsome
    · simpa using hfails

/-- The flood gate is closed, and a rule's wish to open it is queued as item 1. -/
def gateQueued : Shared where
  daemon :=
    { specs := fun id => if id = "flood-gate" then some Server.floodGate else none
      state := fun id => if id = "flood-gate" then some "closed" else none }
  store :=
    { queue := [{ sourceId := "gauge", kind := "flood", severity := 3, actuatorId := "flood-gate",
                  targetState := "open", ruleId := "open" }] }

/-- One operator approves the item; another rejects it, too late. -/
def approveThenReject : List (Sched Thread Bool) :=
  [.spawn (.getPending 1 "local"), .spawn (.check 1 .rejected "other" none), .run 0 false, .run 0 false, .run 0 false,
    .run 0 false, .run 1 false, .run 0 false]

theorem approval_atomic_approveThenReject :
    ((requests.sys gateQueued).run approveThenReject ⟨gateQueued, []⟩).shared.approvals = [1] ∧
      Atomic ((requests.sys gateQueued).run approveThenReject ⟨gateQueued, []⟩) := by
  have hlegal : (requests.sys gateQueued).Legal Exclusive approveThenReject ⟨gateQueued, []⟩ :=
    ⟨trivial, trivial, trivial, trivial, ⟨_, rfl, trivial⟩, exclusive_of (by decide), ⟨_, rfl, trivial⟩,
      exclusive_of (by decide), ⟨_, rfl, trivial⟩, exclusive_of (by decide), ⟨_, rfl, trivial⟩,
      exclusive_of (by decide), ⟨_, rfl, trivial⟩, exclusive_of (by decide), ⟨_, rfl, trivial⟩,
      exclusive_of (by decide), trivial⟩
  exact ⟨by decide, approval_atomic rfl (Sys.reaches_run _ _ hlegal)⟩

/-- The rejection comes between the actuation and the resolution. -/
def rejectedMeanwhile : List (Sched Thread Bool) :=
  [.spawn (.getPending 1 "local"), .spawn (.check 1 .rejected "other" none), .run 0 false, .run 0 false, .run 1 false,
    .run 1 false]

/-- **An item that ends up rejected may have been executed.** -/
theorem executed_though_rejected :
    ¬ ∀ (s : Shared) (p : Pool Shared Thread), s.approvals = [] → (requests.sys s).Reachable Sys.always p → Atomic p := by
  intro h
  have hlegal : (requests.sys gateQueued).Legal Sys.always rejectedMeanwhile ⟨gateQueued, []⟩ :=
    ⟨trivial, trivial, trivial, trivial, ⟨_, rfl, trivial⟩, trivial, ⟨_, rfl, trivial⟩, trivial, ⟨_, rfl, trivial⟩,
      trivial, ⟨_, rfl, trivial⟩, trivial, trivial⟩
  obtain ⟨-, hrejected, -⟩ := h gateQueued _ rfl (Sys.reaches_run _ _ hlegal) 1
  exact absurd (hrejected _ rfl rfl) (by decide)

end Gateway
end FloodEws
