import FloodEws.Policy
import FloodEws.Poller
/-!
# Store — `gateway/server/store`

The operator queue and the audit log in the database, and the checks a specification, a rule or a source passes before
it is stored.  Rows of the queue are never deleted and their ids count up from one, so the row with id `n + 1` is the one at
place `n`.  One query or one transaction is one step, and any of them may fail; times and the detail column of the audit
log are left out.
-/
namespace FloodEws
namespace Gateway

inductive StoreError where
  | actuatorIncomplete
  | failsafeNotInStates (id failsafeState : String)
  | ruleIncomplete
  | sourceIncomplete
  | pollIntervalTooSmall (id : String)
  | minAboveMax (id : String)
  | invalidDisposition (id : String) (disposition : Disposition)
  | pendingNotFound
  | alreadyResolved
  | invalidStatus (status : QueueStatus)
  | database
deriving DecidableEq, Repr

def Disposition.valid (d : Disposition) : Bool := decide (d = .advisory) || decide (d = .operatorApproved)

def validateActuator (a : Spec) : Except StoreError Unit :=
  if a.id = "" ∨ a.states.length = 0 then .error .actuatorIncomplete
  else if a.failsafeState ∈ a.states then .ok ()
  else .error (.failsafeNotInStates a.id a.failsafeState)

def validateRule (r : Rule) : Except StoreError Unit :=
  if r.id = "" ∨ r.actuatorId = "" ∨ r.targetState = "" then .error .ruleIncomplete
  else if !r.disposition.valid then .error (.invalidDisposition r.id r.disposition)
  else .ok ()

def validateSource (e : ExternalSource) : Except StoreError Unit :=
  if e.id = "" ∨ e.url = "" then .error .sourceIncomplete
  else if e.pollMs < 1000 then .error (.pollIntervalTooSmall e.id)
  else if e.maxValue ≠ 0 ∧ e.minValue > e.maxValue then .error (.minAboveMax e.id)
  else .ok ()

structure AuditLog where
  actor : String
  action : String
  entity : String
deriving DecidableEq, Repr

structure Store where
  queue : List QueuedAdvisory := []
  audit : List AuditLog := []

/-- The text of the status column. -/
def QueueStatus.text : QueueStatus → String
  | .pending => "pending"
  | .approved => "approved"
  | .rejected => "rejected"
  | .resolved => "resolved"

namespace Store

/-- The row with an id. -/
def row (s : Store) : Nat → Option QueuedAdvisory
  | 0 => none
  | n + 1 => s.queue[n]?

def getPending (s : Store) (fails : Bool) (id : Nat) : Except StoreError QueuedAdvisory :=
  if fails then .error .pendingNotFound
  else match s.row id with
    | none => .error .pendingNotFound
    | some item => .ok item

def enqueue (s : Store) (a : Advisory) : Store := { s with queue := s.queue ++ [a.row] }

def recordControlAction (s : Store) (fails : Bool) (actor actuatorId targetState : String) : Store :=
  if fails then s else { s with audit := s.audit ++ [⟨actor, "control:" ++ targetState, actuatorId⟩] }

/-- The first half of `ResolvePending`: the status asked for, and the row as it is read. -/
def resolveCheck (s : Store) (fails : Bool) (id : Nat) (status : QueueStatus) : Except StoreError QueuedAdvisory :=
  if status ≠ .approved ∧ status ≠ .rejected then .error (.invalidStatus status)
  else match s.getPending fails id with
    | .error e => .error e
    | .ok existing => if existing.status ≠ .pending then .error .alreadyResolved else .ok existing

/-- The second half: the guarded `UPDATE` with its audit entry, in one transaction. -/
def resolveUpdate (s : Store) (fails : Bool) (id : Nat) (status : QueueStatus) (actor : String) :
    Except StoreError Unit × Store :=
  if fails then (.error .database, s)
  else match id, s.row id with
    | n + 1, some existing =>
      if existing.status = .pending then
        (.ok (), { s with
          queue := s.queue.set n { existing with status := status, resolvedBy := actor }
          audit := s.audit ++ [⟨actor, "operator_queue:" ++ status.text, toString (n + 1)⟩] })
      else (.error .alreadyResolved, s)
    | _, _ => (.error .alreadyResolved, s)

/-- **What the guarded `UPDATE` can do**: nothing, or give a pending row the status. -/
theorem resolveUpdate_cases (s : Store) (fails : Bool) (id : Nat) (status : QueueStatus) (actor : String) :
    ((s.resolveUpdate fails id status actor).2 = s ∧ ∃ e, (s.resolveUpdate fails id status actor).1 = .error e) ∨
    (fails = false ∧ ∃ n existing, id = n + 1 ∧ s.queue[n]? = some existing ∧ existing.status = .pending ∧
      (s.resolveUpdate fails id status actor).1 = .ok () ∧
      (s.resolveUpdate fails id status actor).2.queue = s.queue.set n { existing with status := status, resolvedBy := actor }) := by
  cases fails with
  | true => exact .inl ⟨rfl, _, rfl⟩
  | false =>
  cases id with
  | zero => exact .inl ⟨rfl, _, rfl⟩
  | succ n =>
  cases hrow : s.queue[n]? with
  | none => exact .inl (by simp [resolveUpdate, row, hrow])
  | some existing =>
    by_cases hp : existing.status = .pending
    · exact .inr ⟨rfl, n, existing, rfl, hrow, hp, by simp [resolveUpdate, row, hrow, hp]⟩
    · exact .inl (by simp [resolveUpdate, row, hrow, hp])

/-- A pending row takes the status, unless the database fails. -/
theorem resolveUpdate_pending {s : Store} {id : Nat} {existing : QueuedAdvisory} (hrow : s.row id = some existing)
    (hp : existing.status = .pending) (status : QueueStatus) (actor : String) :
    (s.resolveUpdate false id status actor).2.row id = some { existing with status := status, resolvedBy := actor } := by
  cases id with
  | zero => cases hrow
  | succ n =>
    have hrow : s.queue[n]? = some existing := hrow
    have hlt : n < s.queue.length := (List.getElem?_eq_some_iff.1 hrow).1
    have hqueue : (s.resolveUpdate false (n + 1) status actor).2.queue =
        s.queue.set n { existing with status := status, resolvedBy := actor } := by
      simp [resolveUpdate, row, hrow, hp]
    simp only [row]
    rw [hqueue, List.getElem?_set_self hlt]

/-- The other rows are left. -/
theorem resolveUpdate_frame (s : Store) (fails : Bool) (id : Nat) (status : QueueStatus) (actor : String) {j : Nat}
    (hj : j ≠ id) : (s.resolveUpdate fails id status actor).2.row j = s.row j := by
  rcases s.resolveUpdate_cases fails id status actor with ⟨h, -⟩ | ⟨-, n, existing, rfl, -, -, -, h⟩
  · rw [h]
  · cases j with
    | zero => rfl
    | succ m =>
      have hmn : n ≠ m := by omega
      simp only [row]
      rw [h, List.getElem?_set_ne hmn]

theorem getPending_ok {s : Store} {fails : Bool} {id : Nat} {item : QueuedAdvisory}
    (h : s.getPending fails id = .ok item) : s.row id = some item := by
  unfold getPending at h
  cases fails with
  | true => cases h
  | false =>
    cases hrow : s.row id with
    | none => simp [hrow] at h
    | some existing => simpa [hrow] using h

end Store

end Gateway
end FloodEws
