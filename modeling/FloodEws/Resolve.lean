import FloodEws.Threads
import FloodEws.Store
/-!
# Resolve — `ResolvePending` from many callers

`ResolvePending` reads the row and checks it, and only then opens the transaction.  Two callers may both find the item
pending: what decides is the `WHERE status = 'pending'` of the `UPDATE`, the number of rows it affected, and that the
transaction is rolled back when any statement in it fails.

Any number of calls on one item, in any interleaving, resolve it at most once, with one audit entry, and whatever fails
leaves the database as it was (`resolved_once`).
-/
namespace FloodEws
namespace Gateway

/-! ## Transactions -/

/-- Which statements of a transaction fail, besides those of its body. -/
structure TxFaults where
  begin : Bool := false
  audit : Bool := false
  commit : Bool := false

/-- `withAuditTx`: the body, then one audit entry, then the commit.  On an error the deferred `Rollback` leaves the
database as it was. -/
def withAuditTx {σ : Type*} (f : TxFaults) (insertAuditLog : AuditLog → σ → Except StoreError σ) (entry : AuditLog)
    (fn : σ → Except StoreError σ) (s : σ) : Except StoreError Unit × σ :=
  if f.begin then (.error .database, s)
  else match fn s with
    | .error e => (.error e, s)
    | .ok s₁ =>
      if f.audit then (.error .database, s)
      else match insertAuditLog entry s₁ with
        | .error e => (.error e, s)
        | .ok s₂ => if f.commit then (.error .database, s) else (.ok (), s₂)

/-- **A transaction happens as a whole or not at all.** -/
theorem withAuditTx_cases {σ : Type*} (f : TxFaults) (insertAuditLog : AuditLog → σ → Except StoreError σ)
    (entry : AuditLog) (fn : σ → Except StoreError σ) (s : σ) :
    ((∃ e, (withAuditTx f insertAuditLog entry fn s).1 = .error e) ∧ (withAuditTx f insertAuditLog entry fn s).2 = s) ∨
    ((withAuditTx f insertAuditLog entry fn s).1 = .ok () ∧
      ∃ s₁, fn s = .ok s₁ ∧ insertAuditLog entry s₁ = .ok (withAuditTx f insertAuditLog entry fn s).2) := by
  unfold withAuditTx
  split
  · exact .inl ⟨⟨_, rfl⟩, rfl⟩
  split
  · exact .inl ⟨⟨_, rfl⟩, rfl⟩
  rename_i s₁ hfn
  split
  · exact .inl ⟨⟨_, rfl⟩, rfl⟩
  split
  · exact .inl ⟨⟨_, rfl⟩, rfl⟩
  rename_i s₂ haudit
  split
  · exact .inl ⟨⟨_, rfl⟩, rfl⟩
  · exact .inr ⟨rfl, s₁, hfn, haudit⟩

/-! ## One call -/

namespace Store

def insertAuditLog (entry : AuditLog) (s : Store) : Except StoreError Store := .ok { s with audit := s.audit ++ [entry] }

/-- The query `ResolvePending`, with the number of rows it affected. -/
def updatePending (s : Store) (id : Nat) (status : QueueStatus) (actor : String) : Nat × Store :=
  match id, s.row id with
  | n + 1, some existing =>
    if existing.status = .pending then
      (1, { s with queue := s.queue.set n { existing with status := status, resolvedBy := actor } })
    else (0, s)
  | _, _ => (0, s)

end Store

/-- Which statements of a call fail: reading the row, the `UPDATE`, `RowsAffected`, the rest of the transaction. -/
structure ResolveFaults where
  get : Bool := false
  update : Bool := false
  rowsAffected : Bool := false
  tx : TxFaults := {}

namespace Store

/-- The transaction of `ResolvePending`. -/
def resolveTx (s : Store) (f : ResolveFaults) (id : Nat) (status : QueueStatus) (actor : String) :
    Except StoreError Unit × Store :=
  withAuditTx f.tx insertAuditLog ⟨actor, "operator_queue:" ++ status.text, toString id⟩ (fun s =>
    if f.update then .error .database
    else
      let (n, s) := s.updatePending id status actor
      if f.rowsAffected then .error .database
      else if n = 0 then .error .alreadyResolved
      else .ok s) s

/-- **What the transaction can do**: nothing, or resolve the row if it is pending and say so in the audit log. -/
theorem resolveTx_cases (s : Store) (f : ResolveFaults) (id : Nat) (status : QueueStatus) (actor : String) :
    ((∃ e, (s.resolveTx f id status actor).1 = .error e) ∧ (s.resolveTx f id status actor).2 = s) ∨
    ((s.resolveTx f id status actor).1 = .ok () ∧ ∃ n existing, id = n + 1 ∧ s.queue[n]? = some existing ∧
      existing.status = .pending ∧ (s.resolveTx f id status actor).2 =
        { queue := s.queue.set n { existing with status := status, resolvedBy := actor }
          audit := s.audit ++ [⟨actor, "operator_queue:" ++ status.text, toString id⟩] }) := by
  unfold resolveTx
  rcases withAuditTx_cases f.tx insertAuditLog _ _ s with h | ⟨hok, s₁, hfn, haudit⟩
  · exact .inl h
  · refine .inr ⟨hok, ?_⟩
    dsimp only at hfn
    split at hfn
    · cases hfn
    split at hfn
    · cases hfn
    split at hfn
    · cases hfn
    rename_i hn
    cases id with
    | zero => simp [updatePending] at hn
    | succ n =>
    cases hrow : s.queue[n]? with
    | none => simp [updatePending, row, hrow] at hn
    | some existing =>
      by_cases hp : existing.status = .pending
      · refine ⟨n, existing, rfl, hrow, hp, ?_⟩
        simp only [updatePending, row, hrow, hp, if_true] at hfn
        cases hfn
        exact (Except.ok.inj haudit).symm
      · simp [updatePending, row, hrow, hp] at hn

/-- Without faults it is the guarded `UPDATE` with its audit entry. -/
theorem resolveTx_eq (s : Store) (id : Nat) (status : QueueStatus) (actor : String) :
    s.resolveTx {} id status actor = s.resolveUpdate false id status actor := by
  cases id with
  | zero => rfl
  | succ n =>
  cases hrow : s.queue[n]? with
  | none => simp [resolveTx, withAuditTx, resolveUpdate, updatePending, row, hrow]
  | some existing =>
    by_cases hp : existing.status = .pending
    · simp [resolveTx, withAuditTx, resolveUpdate, updatePending, insertAuditLog, row, hrow, hp]
    · simp [resolveTx, withAuditTx, resolveUpdate, updatePending, row, hrow, hp]

end Store

/-! ## Many calls -/

/-- How a call ends. -/
inductive Resolution where
  | invalidStatus (status : String)
  | failed (e : StoreError)
  | resolved
deriving DecidableEq

inductive Stage where
  | check
  /-- the item was pending: about to open the transaction -/
  | update (status : QueueStatus)
  | done (r : Resolution)

/-- A call of `ResolvePending`. -/
structure Resolver where
  status : String
  actor : String
  stage : Stage := .check

/-- The statuses an item may be given. -/
def resolveStatus (status : String) : Option QueueStatus :=
  if status = "approved" then some .approved
  else if status = "rejected" then some .rejected
  else none

namespace Resolver

def step (id : Nat) (f : ResolveFaults) (t : Resolver) (s : Store) : Resolver × Store :=
  match t.stage with
  | .check =>
    match resolveStatus t.status with
    | none => ({ t with stage := .done (.invalidStatus t.status) }, s)
    | some status =>
      match s.resolveCheck f.get id status with
      | .error e => ({ t with stage := .done (.failed e) }, s)
      | .ok _ => ({ t with stage := .update status }, s)
  | .update status =>
    match s.resolveTx f id status t.actor with
    | (.error e, s) => ({ t with stage := .done (.failed e) }, s)
    | (.ok _, s) => ({ t with stage := .done .resolved }, s)
  | .done _ => (t, s)

def succeeded (t : Resolver) : Bool :=
  match t.stage with
  | .done .resolved => true
  | _ => false

end Resolver

/-- Any number of calls on the item `id`. -/
def resolvers (id : Nat) : Prog Store Resolver ResolveFaults where
  fresh := fun t => t.stage = .check
  may := fun _ _ _ => True
  step := Resolver.step id

/-- The database once the call `t` has resolved the item of the database `s`. -/
def Resolver.Resolved (id : Nat) (s : Store) (t : Resolver) (s' : Store) : Prop :=
  ∃ n existing status, id = n + 1 ∧ s.queue[n]? = some existing ∧ existing.status = .pending ∧
    resolveStatus t.status = some status ∧ s' =
      { queue := s.queue.set n { existing with status := status, resolvedBy := t.actor }
        audit := s.audit ++ [⟨t.actor, "operator_queue:" ++ t.status, toString id⟩] }

namespace Resolver

variable {id : Nat} {f : ResolveFaults} {t : Resolver} {s : Store}

theorem resolveStatus_text {text : String} {status : QueueStatus} (h : resolveStatus text = some status) :
    status.text = text := by
  unfold resolveStatus at h
  split at h
  · rename_i heq
    cases h
    exact heq.symm
  split at h
  · rename_i heq
    cases h
    exact heq.symm
  · cases h

theorem step_call (id : Nat) (f : ResolveFaults) (t : Resolver) (s : Store) :
    (t.step id f s).1.status = t.status ∧ (t.step id f s).1.actor = t.actor := by
  unfold step
  split
  · split
    · exact ⟨rfl, rfl⟩
    · split <;> exact ⟨rfl, rfl⟩
  · split <;> exact ⟨rfl, rfl⟩
  · exact ⟨rfl, rfl⟩

/-- The transaction of a call is for the status it was asked for. -/
def Checked (t : Resolver) : Prop := ∀ status, t.stage = .update status → resolveStatus t.status = some status

theorem Checked.step (id : Nat) (f : ResolveFaults) (t : Resolver) (s : Store) : (t.step id f s).1.Checked := by
  intro status hs
  unfold Resolver.step at hs ⊢
  split at hs
  · split at hs
    · cases hs
    · rename_i st hst
      split at hs
      · cases hs
      · cases hs
        exact hst
  · split at hs <;> cases hs
  · rename_i heq
    rw [heq] at hs
    cases hs

/-- **What a step of a call can do**: nothing to the database; or it succeeds and resolves a pending item. -/
theorem step_cases (id : Nat) (f : ResolveFaults) (t : Resolver) (s : Store) (ht : t.Checked) :
    ((t.step id f s).2 = s ∧ (t.step id f s).1.succeeded = t.succeeded) ∨
    (t.succeeded = false ∧ (t.step id f s).1.succeeded = true ∧ t.Resolved id s (t.step id f s).2) := by
  obtain ⟨text, actor, stage⟩ := t
  cases stage with
  | check =>
    refine .inl ?_
    simp only [step]
    split
    · exact ⟨rfl, rfl⟩
    · split
      · exact ⟨rfl, rfl⟩
      · exact ⟨rfl, rfl⟩
  | done r => exact .inl ⟨rfl, rfl⟩
  | update status =>
    have hstatus : resolveStatus text = some status := ht status rfl
    simp only [step]
    cases hx : s.resolveTx f id status actor with
    | mk res s' =>
      have hcases := s.resolveTx_cases f id status actor
      rw [hx] at hcases
      rcases hcases with ⟨⟨e, rfl⟩, rfl⟩ | ⟨rfl, n, existing, hid, hrow, hp, heq⟩
      · exact .inl ⟨rfl, rfl⟩
      · refine .inr ⟨rfl, rfl, n, existing, status, hid, hrow, hp, hstatus, ?_⟩
        rw [resolveStatus_text hstatus] at heq
        exact heq

/-- What a call resolves depends on its arguments only. -/
theorem Resolved.step {s₀ : Store} {s' : Store} (h : t.Resolved id s₀ s') : (t.step id f s).1.Resolved id s₀ s' := by
  obtain ⟨hstatus, hactor⟩ := step_call id f t s
  unfold Resolved
  rw [hstatus, hactor]
  exact h

/-- **An item that is resolved is not pending.** -/
theorem Resolved.not_again {s₀ : Store} {u : Resolver} {s' : Store} (h : u.Resolved id s₀ s) : ¬ t.Resolved id s s' := by
  obtain ⟨n, existing, status, rfl, hrow, -, hstatus, rfl⟩ := h
  rintro ⟨m, existing', -, hid, hrow', hp, -⟩
  obtain rfl : n = m := by omega
  have hlt : n < s₀.queue.length := (List.getElem?_eq_some_iff.1 hrow).1
  simp only [List.getElem?_set_self hlt, Option.some.injEq] at hrow'
  subst hrow'
  unfold resolveStatus at hstatus
  split at hstatus
  · cases hstatus
    cases hp
  split at hstatus
  · cases hstatus
    cases hp
  · cases hstatus

end Resolver

/-! ## Runs -/

/-- Nothing has happened, or one call has succeeded and the database is what it made of it. -/
structure Tally (id : Nat) (s₀ : Store) (p : Pool Store Resolver) : Prop where
  checked : ∀ t ∈ p.threads, t.Checked
  one : (p.shared = s₀ ∧ ∀ t ∈ p.threads, t.succeeded = false) ∨
    ∃ i t, p.threads[i]? = some t ∧ t.succeeded = true ∧ t.Resolved id s₀ p.shared ∧
      ∀ u, Prog.Other p i u → u.succeeded = false

namespace Tally

variable {id : Nat} {s₀ : Store} {p : Pool Store Resolver}

theorem spawn (h : Tally id s₀ p) {t : Resolver} (ht : t.stage = .check) :
    Tally id s₀ ((resolvers id).exec p (.spawn t)) := by
  have hnew : t.Checked ∧ t.succeeded = false := by
    obtain ⟨text, actor, stage⟩ := t
    cases ht
    exact ⟨nofun, rfl⟩
  refine ⟨fun u hu => ?_, ?_⟩
  · rcases List.mem_append.1 hu with hu | hu
    · exact h.checked u hu
    · rw [List.mem_singleton.1 hu]
      exact hnew.1
  · rcases h.one with ⟨hs, hnone⟩ | ⟨i, u, hi, hu, hres, hothers⟩
    · refine .inl ⟨hs, fun u hu => ?_⟩
      rcases List.mem_append.1 hu with hu | hu
      · exact hnone u hu
      · rw [List.mem_singleton.1 hu]
        exact hnew.2
    · have hlt := (List.getElem?_eq_some_iff.1 hi).1
      refine .inr ⟨i, u, (List.getElem?_append_left hlt).trans hi, hu, hres, ?_⟩
      rintro v ⟨j, hj, hv⟩
      have hv : (p.threads ++ [t])[j]? = some v := hv
      by_cases hjlt : j < p.threads.length
      · rw [List.getElem?_append_left hjlt] at hv
        exact hothers v ⟨j, hj, hv⟩
      · rw [List.getElem?_append_right (by omega)] at hv
        rw [List.mem_singleton.1 (List.mem_of_getElem? hv)]
        exact hnew.2

theorem run (h : Tally id s₀ p) {i : Nat} {t : Resolver} (ht : p.threads[i]? = some t) (f : ResolveFaults) :
    Tally id s₀ ((resolvers id).stepAt p i t f) := by
  have hchecked := h.checked t (List.mem_of_getElem? ht)
  have hself : ((resolvers id).stepAt p i t f).threads[i]? = some (t.step id f p.shared).1 := by
    rw [Prog.getElem?_stepAt ht, if_pos rfl]
    rfl
  have hother : ∀ {j : Nat} {u : Resolver}, j ≠ i → ((resolvers id).stepAt p i t f).threads[j]? = some u →
      p.threads[j]? = some u := by
    intro j u hj hu
    rwa [Prog.getElem?_stepAt ht, if_neg hj] at hu
  refine ⟨fun u hu => ?_, ?_⟩
  · rcases Prog.mem_stepAt ht hu with rfl | hu
    · exact Resolver.Checked.step id f t p.shared
    · exact h.checked u hu.mem
  rcases Resolver.step_cases id f t p.shared hchecked with ⟨hsame, hsucc⟩ | ⟨hno, hyes, hres⟩
  · have hshared : ((resolvers id).stepAt p i t f).shared = p.shared := hsame
    rw [hshared]
    rcases h.one with ⟨hs, hnone⟩ | ⟨j, u, hj, hu, hres, hothers⟩
    · refine .inl ⟨hs, fun u hu => ?_⟩
      rcases Prog.mem_stepAt ht hu with rfl | hu
      · exact hsucc.trans (hnone t (List.mem_of_getElem? ht))
      · exact hnone u hu.mem
    · by_cases hji : j = i
      · subst hji
        obtain rfl : t = u := Option.some.inj (ht.symm.trans hj)
        refine .inr ⟨j, _, hself, hsucc.trans hu, hres.step, ?_⟩
        rintro v ⟨l, hl, hv⟩
        exact hothers v ⟨l, hl, hother hl hv⟩
      · refine .inr ⟨j, u, ?_, hu, hres, ?_⟩
        · rw [Prog.getElem?_stepAt ht, if_neg hji]
          exact hj
        · rintro v ⟨l, hl, hv⟩
          by_cases hli : l = i
          · subst hli
            rw [hself] at hv
            rw [← Option.some.inj hv, hsucc]
            exact hothers t ⟨l, hl, ht⟩
          · exact hothers v ⟨l, hl, hother hli hv⟩
  · rcases h.one with ⟨hs, hnone⟩ | ⟨j, u, hj, hu, hres', hothers⟩
    · rw [hs] at hres
      refine .inr ⟨i, _, hself, hyes, ?_, ?_⟩
      · show (t.step id f p.shared).1.Resolved id s₀ (t.step id f p.shared).2
        rw [hs] at hyes ⊢
        exact hres.step
      · rintro v ⟨l, hl, hv⟩
        exact hnone v (List.mem_of_getElem? (hother hl hv))
    · exact absurd hres hres'.not_again

theorem reachable (h : ((resolvers id).sys s₀).Reachable Sys.always p) : Tally id s₀ p := by
  refine h.invariant (P := Tally id s₀) ⟨(fun t ht => by cases ht), .inl ⟨rfl, (fun t ht => by cases ht)⟩⟩ ?_
  intro p a hp he _
  cases a with
  | spawn t => exact hp.spawn he
  | run i f =>
    obtain ⟨t, ht, -⟩ := he
    show Tally id s₀ ((resolvers id).exec p (.run i f))
    rw [Prog.exec_run ht]
    exact hp.run ht f

/-- The call that succeeded is the only one. -/
theorem resolved (h : Tally id s₀ p) {i : Nat} {t : Resolver} (ht : p.threads[i]? = some t) (hs : t.succeeded = true) :
    t.Resolved id s₀ p.shared ∧ ∀ u, Prog.Other p i u → u.succeeded = false := by
  rcases h.one with ⟨-, hnone⟩ | ⟨j, u, hj, hu, hres, hothers⟩
  · rw [hnone t (List.mem_of_getElem? ht)] at hs
    cases hs
  · by_cases hij : i = j
    · subst hij
      obtain rfl : t = u := Option.some.inj (ht.symm.trans hj)
      exact ⟨hres, hothers⟩
    · rw [hothers t ⟨i, hij, ht⟩] at hs
      cases hs

end Tally

/-- **Once a call has succeeded, nothing changes the database.** -/
theorem resolved_stays {id : Nat} {s₀ : Store} {p p' : Pool Store Resolver}
    (h : ((resolvers id).sys s₀).Reachable Sys.always p) {i : Nat} {t : Resolver} (ht : p.threads[i]? = some t)
    (hs : t.succeeded = true) (hreach : ((resolvers id).sys s₀).Reaches Sys.always p p') : p'.shared = p.shared := by
  have hboth : p'.shared = p.shared ∧ ((resolvers id).sys s₀).Reachable Sys.always p' ∧
      ∃ u, p'.threads[i]? = some u ∧ u.succeeded = true := by
    refine hreach.invariant (P := fun x => x.shared = p.shared ∧ ((resolvers id).sys s₀).Reachable Sys.always x ∧
      ∃ u, x.threads[i]? = some u ∧ u.succeeded = true) ⟨rfl, h, t, ht, hs⟩ ?_
    rintro x a ⟨hshared, hx, u, hu, hsu⟩ he _
    have hnext : ((resolvers id).sys s₀).Reachable Sys.always (((resolvers id).sys s₀).exec x a) :=
      .tail hx ⟨a, he, trivial, rfl⟩
    cases a with
    | spawn v => exact ⟨hshared, hnext, u, (List.getElem?_append_left (List.getElem?_eq_some_iff.1 hu).1).trans hu, hsu⟩
    | run j f =>
      obtain ⟨v, hv, -⟩ := he
      have hexec : ((resolvers id).sys s₀).exec x (.run j f) = (resolvers id).stepAt x j v f := Prog.exec_run hv f
      refine ⟨?_, hnext, ?_⟩
      · rw [hexec, ← hshared]
        rcases Resolver.step_cases id f v x.shared ((Tally.reachable hx).checked v (List.mem_of_getElem? hv)) with
          ⟨hsame, -⟩ | ⟨-, -, hres⟩
        · exact hsame
        · exact absurd hres ((Tally.reachable hx).resolved hu hsu).1.not_again
      · rw [hexec, Prog.getElem?_stepAt hv]
        split
        · rename_i hij
          subst hij
          obtain rfl : u = v := Option.some.inj (hu.symm.trans hv)
          refine ⟨_, rfl, ?_⟩
          rcases Resolver.step_cases id f u x.shared ((Tally.reachable hx).checked u (List.mem_of_getElem? hv)) with
            ⟨-, hsucc⟩ | ⟨-, hyes, -⟩
          · exact hsucc.trans hsu
          · exact hyes
        · exact ⟨u, hu, hsu⟩
  exact hboth.1

/-- **An item is resolved at most once.**  In every interleaving of any number of calls on it: at most one succeeds; while
none has, the database is as it was; once one has, the row was pending and has its status and actor, one audit entry was
written, and the database stays so; a step that does not succeed leaves the database. -/
theorem resolved_once (id : Nat) (s₀ : Store) {p : Pool Store Resolver}
    (h : ((resolvers id).sys s₀).Reachable Sys.always p) :
    (∀ (i j : Nat) (t u : Resolver), p.threads[i]? = some t → p.threads[j]? = some u → t.succeeded = true →
      u.succeeded = true → i = j) ∧
    ((∀ t ∈ p.threads, t.succeeded = false) → p.shared = s₀) ∧
    (∀ t ∈ p.threads, t.succeeded = true → t.Resolved id s₀ p.shared ∧
      ∀ p', ((resolvers id).sys s₀).Reaches Sys.always p p' → p'.shared = p.shared) ∧
    ∀ t ∈ p.threads, ∀ f, (t.step id f p.shared).1.succeeded = false → (t.step id f p.shared).2 = p.shared := by
  have htally := Tally.reachable h
  refine ⟨fun i j t u ht hu hts hus => ?_, fun hnone => ?_, fun t ht hs => ?_, fun t ht f hno => ?_⟩
  · by_contra hij
    rw [(htally.resolved ht hts).2 u ⟨j, Ne.symm hij, hu⟩] at hus
    cases hus
  · rcases htally.one with ⟨hs, -⟩ | ⟨i, t, hi, hs, -⟩
    · exact hs
    · rw [hnone t (List.mem_of_getElem? hi)] at hs
      cases hs
  · obtain ⟨i, hi⟩ := List.mem_iff_getElem?.1 ht
    exact ⟨(htally.resolved hi hs).1, fun p' hreach => resolved_stays h hi hs hreach⟩
  · rcases Resolver.step_cases id f t p.shared (htally.checked t ht) with ⟨hsame, -⟩ | ⟨-, hyes, -⟩
    · exact hsame
    · rw [hno] at hyes
      cases hyes

/-- Two operators find the item pending; one approves it, the other rejects it. -/
def race : List (Sched Resolver ResolveFaults) :=
  [.spawn ⟨"approved", "ann", .check⟩, .spawn ⟨"rejected", "bob", .check⟩, .run 0 {}, .run 1 {}, .run 0 {}, .run 1 {}]

def oneAlert : Store where
  queue := [{ sourceId := "met", kind := "rain", severity := 3, actuatorId := "flood-gate", targetState := "open", ruleId := "r" }]

theorem resolved_once_race :
    let p := ((resolvers 1).sys oneAlert).run race ⟨oneAlert, []⟩
    p.threads.map Resolver.succeeded = [true, false] ∧ p.shared.audit = [⟨"ann", "operator_queue:approved", "1"⟩] ∧
      ∀ p', ((resolvers 1).sys oneAlert).Reaches Sys.always p p' → p'.shared = p.shared := by
  have hlegal : ((resolvers 1).sys oneAlert).Legal Sys.always race ⟨oneAlert, []⟩ :=
    ⟨rfl, trivial, rfl, trivial, ⟨_, rfl, trivial⟩, trivial, ⟨_, rfl, trivial⟩, trivial, ⟨_, rfl, trivial⟩, trivial,
      ⟨_, rfl, trivial⟩, trivial, trivial⟩
  have hall := resolved_once 1 oneAlert (Sys.reaches_run _ _ hlegal)
  exact ⟨by decide, by decide, (hall.2.2.1 _ (List.mem_cons_self ..) rfl).2⟩

end Gateway
end FloodEws
