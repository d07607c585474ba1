import FloodEws.Resolve
/-!
# Schema — the database and `migrate`

`Open` runs `schema.sql` each time the gateway starts.  The script creates the tables that are missing and then inserts
one actuator, the flood gate, unless a row has its id.

So a start leaves the database as it is just as long as that row is there: an operator who deletes the flood gate has it
back after the next start (`reopen_unchanged`).
-/
namespace FloodEws

/-- `ON CONFLICT (id) DO NOTHING`. -/
def Table.insertNew {α κ : Type*} [DecidableEq κ] {key : α → κ} (t : Table key) (x : α) : Table key :=
  if key x ∈ t.rows.map key then t else t.upsert x

theorem Table.insertNew_eq_self {α κ : Type*} [DecidableEq κ] {key : α → κ} (t : Table key) (x : α) :
    t.insertNew x = t ↔ key x ∈ t.rows.map key := by
  unfold insertNew
  constructor
  · intro heq
    by_contra hnew
    rw [if_neg hnew] at heq
    have hlen := congrArg (fun t : Table key => t.rows.length) heq
    simp [upsert, hnew] at hlen
  · exact fun h => if_pos h

namespace Gateway

/-- A row of `actuator`; the JSON text of `states` is kept decoded. -/
structure ActuatorRow extends Spec where
  name : String := ""
deriving DecidableEq, Repr

/-- A row of `policy_rule`. -/
structure RuleRow extends Rule where
  name : String := ""
deriving DecidableEq, Repr

/-- A row of `egress_target`. -/
structure EgressTarget where
  id : String
  name : String := ""
  enabled : Bool := true
  type : String
  dsn : String := ""
  webhookUrl : String := ""
  authToken : String := ""
  minSeverity : Int := 0
deriving DecidableEq, Repr

inductive TargetError where
  | idRequired
  | needsDsn (id : String)
  | needsUrl (id : String)
  | unknownType (id type : String)
deriving DecidableEq, Repr

def validateTarget (t : EgressTarget) : Except TargetError Unit :=
  if t.id = "" then .error .idRequired
  else if t.type = "supabase" then
    if t.dsn = "" then .error (.needsDsn t.id) else .ok ()
  else if t.type = "webhook" then
    if t.webhookUrl = "" then .error (.needsUrl t.id) else .ok ()
  else .error (.unknownType t.id t.type)

/-- The content of the file; a table that was not created is `none`. -/
structure Database where
  externalSource : Option (Table ExternalSource.id) := none
  actuator : Option (Table (fun a : ActuatorRow => a.id)) := none
  policyRule : Option (Table (fun r : RuleRow => r.id)) := none
  auditLog : Option (List AuditLog) := none
  egressTarget : Option (Table EgressTarget.id) := none
  queuedAdvisory : Option (List QueuedAdvisory) := none

/-! ## `migrate` -/

/-- The statements of `schema.sql`, in its order. -/
inductive Statement where
  | createExternalSource
  | createActuator
  | insertActuator (row : ActuatorRow)
  | createPolicyRule
  | createAuditLog
  | createEgressTarget
  | createQueuedAdvisory

/-- `CREATE TABLE IF NOT EXISTS`, and the insert; a table that is missing is an error. -/
def Statement.exec (db : Database) : Statement → Except StoreError Database
  | .createExternalSource => .ok { db with externalSource := db.externalSource <|> some .empty }
  | .createActuator => .ok { db with actuator := db.actuator <|> some .empty }
  | .insertActuator row =>
    match db.actuator with
    | none => .error .database
    | some t => .ok { db with actuator := some (t.insertNew row) }
  | .createPolicyRule => .ok { db with policyRule := db.policyRule <|> some .empty }
  | .createAuditLog => .ok { db with auditLog := db.auditLog <|> some [] }
  | .createEgressTarget => .ok { db with egressTarget := db.egressTarget <|> some .empty }
  | .createQueuedAdvisory => .ok { db with queuedAdvisory := db.queuedAdvisory <|> some [] }

def mainFloodGate : ActuatorRow where
  id := "flood-gate"
  name := "Main flood gate"
  states := ["closed", "open"]
  failsafeState := "closed"

def embeddedSchema : List Statement :=
  [.createExternalSource, .createActuator, .insertActuator mainFloodGate, .createPolicyRule, .createAuditLog,
    .createEgressTarget, .createQueuedAdvisory]

/-- `migrate`: the first statement that fails ends it. -/
def migrate (db : Database) : Except StoreError Database := embeddedSchema.foldlM Statement.exec db

/-! ## The store's calls -/

namespace Database

def insertAuditLog (entry : AuditLog) (db : Database) : Except StoreError Database :=
  match db.auditLog with
  | none => .error .database
  | some log => .ok { db with auditLog := some (log ++ [entry]) }

/-- The body of a transaction with one statement. -/
def statement (fails : Bool) (change : Database → Option Database) (db : Database) : Except StoreError Database :=
  if fails then .error .database
  else match change db with
    | none => .error .database
    | some db => .ok db

end Database

/-- The calls that write, but for the actor of the first nine. -/
inductive Write where
  | upsertSource (e : ExternalSource)
  | deleteSource (id : String)
  | upsertActuator (a : ActuatorRow)
  | deleteActuator (id : String)
  | upsertRule (r : RuleRow)
  | deleteRule (id : String)
  | upsertTarget (t : EgressTarget)
  | deleteTarget (id : String)
  | recordControlAction (actuatorId targetState : String)
  | resolvePending (id : Nat) (status : String)
  | enqueue (a : Advisory)
  /-- `Close` and `Open` -/
  | reopen

structure Request where
  write : Write
  actor : String := ""
  faults : ResolveFaults := {}

namespace Database

/-- One statement and its audit entry. -/
def audited (f : ResolveFaults) (actor action entity : String) (change : Database → Option Database) (db : Database) :
    Database :=
  (withAuditTx f.tx insertAuditLog ⟨actor, action, entity⟩ (statement f.update change) db).2

/-- The database after a call; what it returns is left out. -/
def exec (db : Database) (r : Request) : Database :=
  let f := r.faults
  match r.write with
  | .upsertSource e =>
    match validateSource e with
    | .error _ => db
    | .ok _ => db.audited f r.actor "upsert_source" e.id (fun db =>
        db.externalSource.map fun t => { db with externalSource := some (t.upsert e) })
  | .deleteSource id => db.audited f r.actor "delete_source" id (fun db =>
        db.externalSource.map fun t => { db with externalSource := some (t.delete id) })
  | .upsertActuator a =>
    match validateActuator a.toSpec with
    | .error _ => db
    | .ok _ => db.audited f r.actor "upsert_actuator" a.id (fun db =>
        db.actuator.map fun t => { db with actuator := some (t.upsert a) })
  | .deleteActuator id => db.audited f r.actor "delete_actuator" id (fun db =>
        db.actuator.map fun t => { db with actuator := some (t.delete id) })
  | .upsertRule rule =>
    match validateRule rule.toRule with
    | .error _ => db
    | .ok _ => db.audited f r.actor "upsert_rule" rule.id (fun db =>
        db.policyRule.map fun t => { db with policyRule := some (t.upsert rule) })
  | .deleteRule id => db.audited f r.actor "delete_rule" id (fun db =>
        db.policyRule.map fun t => { db with policyRule := some (t.delete id) })
  | .upsertTarget target =>
    match validateTarget target with
    | .error _ => db
    | .ok _ => db.audited f r.actor "upsert_target" target.id (fun db =>
        db.egressTarget.map fun t => { db with egressTarget := some (t.upsert target) })
  | .deleteTarget id => db.audited f r.actor "delete_target" id (fun db =>
        db.egressTarget.map fun t => { db with egressTarget := some (t.delete id) })
  | .recordControlAction actuatorId targetState => db.audited f r.actor ("control:" ++ targetState) actuatorId some
  | .resolvePending id status =>
    match resolveStatus status, db.queuedAdvisory, db.auditLog with
    | some status, some queue, some log =>
      match Store.resolveCheck ⟨queue, log⟩ f.get id status with
      | .error _ => db
      | .ok _ =>
        let s := (Store.resolveTx ⟨queue, log⟩ f id status r.actor).2
        { db with queuedAdvisory := some s.queue, auditLog := some s.audit }
    | _, _, _ => db
  | .enqueue a =>
    match statement f.update (fun db =>
        db.queuedAdvisory.map fun queue => { db with queuedAdvisory := some (queue ++ [a.row]) }) db with
    | .error _ => db
    | .ok db => db
  | .reopen =>
    match migrate db with
    | .error _ => db
    | .ok db => db

/-- What `Open` makes of an empty file. -/
def fresh : Database where
  externalSource := some .empty
  actuator := some (Table.empty.upsert mainFloodGate)
  policyRule := some .empty
  auditLog := some []
  egressTarget := some .empty
  queuedAdvisory := some []

def sys : Sys Database Request where
  init := fresh
  enabled := fun _ _ => True
  exec := exec

end Database

/-! ## What a start changes -/

namespace Database

/-- Every table was created. -/
structure Complete (db : Database) : Prop where
  externalSource : db.externalSource.isSome
  actuator : db.actuator.isSome
  policyRule : db.policyRule.isSome
  auditLog : db.auditLog.isSome
  egressTarget : db.egressTarget.isSome
  queuedAdvisory : db.queuedAdvisory.isSome

variable {db : Database}

/-- **What `migrate` does to a database with all its tables**: it inserts the flood gate if it is not there. -/
theorem Complete.migrate_eq (h : db.Complete) :
    migrate db = .ok { db with actuator := db.actuator.map fun t => t.insertNew mainFloodGate } := by
  obtain ⟨_, _, _, _, _, _⟩ := db
  obtain ⟨h1, h2, h3, h4, h5, h6⟩ := h
  obtain ⟨_, rfl⟩ := Option.isSome_iff_exists.1 h1
  obtain ⟨_, rfl⟩ := Option.isSome_iff_exists.1 h2
  obtain ⟨_, rfl⟩ := Option.isSome_iff_exists.1 h3
  obtain ⟨_, rfl⟩ := Option.isSome_iff_exists.1 h4
  obtain ⟨_, rfl⟩ := Option.isSome_iff_exists.1 h5
  obtain ⟨_, rfl⟩ := Option.isSome_iff_exists.1 h6
  rfl

/-- The flood gate's row is there. -/
def hasFloodGate (db : Database) : Bool :=
  match db.actuator with
  | none => false
  | some t => t.rows.any fun a => a.id == mainFloodGate.id

theorem Complete.migrate_iff (h : db.Complete) : migrate db = .ok db ↔ db.hasFloodGate = true := by
  obtain ⟨t, ht⟩ := Option.isSome_iff_exists.1 h.actuator
  have hrow : db.hasFloodGate = true ↔ mainFloodGate.id ∈ t.rows.map (fun a : ActuatorRow => a.id) := by
    simp [hasFloodGate, ht, List.mem_map]
  rw [h.migrate_eq, hrow, ← Table.insertNew_eq_self t mainFloodGate]
  constructor
  · intro heq
    have hact := congrArg Database.actuator (Except.ok.inj heq)
    rw [ht] at hact
    exact Option.some.inj hact
  · intro heq
    rw [ht, Option.map_some, heq, ← ht]

/-! ## No call drops a table -/

theorem Complete.audited (h : db.Complete) (f : ResolveFaults) (actor action entity : String)
    {change : Database → Option Database} (hchange : ∀ db' : Database, db.Complete → change db = some db' → db'.Complete) :
    (db.audited f actor action entity change).Complete := by
  unfold Database.audited
  rcases withAuditTx_cases f.tx insertAuditLog ⟨actor, action, entity⟩ (statement f.update change) db with
    ⟨-, heq⟩ | ⟨-, db₁, hfn, haudit⟩
  · rw [heq]
    exact h
  · have h₁ : db₁.Complete := by
      unfold statement at hfn
      split at hfn
      · cases hfn
      split at hfn
      · cases hfn
      · rename_i hdb
        cases hfn
        exact hchange db₁ h hdb
    generalize (withAuditTx f.tx insertAuditLog ⟨actor, action, entity⟩ (statement f.update change) db).2 = db₂ at haudit ⊢
    unfold insertAuditLog at haudit
    split at haudit
    · cases haudit
    · rw [← Except.ok.inj haudit]
      exact { h₁ with auditLog := rfl }

/-- A write to one of the tables that are there. -/
theorem complete_of_map {α : Type} {o : Option α} {set : α → Database} {db' : Database} (heq : o.map set = some db')
    (h : ∀ a, (set a).Complete) : db'.Complete := by
  obtain ⟨a, -, rfl⟩ := Option.map_eq_some_iff.1 heq
  exact h a

theorem Complete.exec (h : db.Complete) (r : Request) : (db.exec r).Complete := by
  obtain ⟨write, actor, f⟩ := r
  cases write with
  | upsertSource e =>
    simp only [Database.exec]
    split
    · exact h
    · exact h.audited f _ _ _ fun db' hdb heq => complete_of_map heq fun t => { hdb with externalSource := rfl }
  | deleteSource id => exact h.audited f _ _ _ fun db' hdb heq => complete_of_map heq fun t => { hdb with externalSource := rfl }
  | upsertActuator a =>
    simp only [Database.exec]
    split
    · exact h
    · exact h.audited f _ _ _ fun db' hdb heq => complete_of_map heq fun t => { hdb with actuator := rfl }
  | deleteActuator id => exact h.audited f _ _ _ fun db' hdb heq => complete_of_map heq fun t => { hdb with actuator := rfl }
  | upsertRule rule =>
    simp only [Database.exec]
    split
    · exact h
    · exact h.audited f _ _ _ fun db' hdb heq => complete_of_map heq fun t => { hdb with policyRule := rfl }
  | deleteRule id => exact h.audited f _ _ _ fun db' hdb heq => complete_of_map heq fun t => { hdb with policyRule := rfl }
  | upsertTarget target =>
    simp only [Database.exec]
    split
    · exact h
    · exact h.audited f _ _ _ fun db' hdb heq => complete_of_map heq fun t => { hdb with egressTarget := rfl }
  | deleteTarget id => exact h.audited f _ _ _ fun db' hdb heq => complete_of_map heq fun t => { hdb with egressTarget := rfl }
  | recordControlAction actuatorId targetState =>
    refine h.audited f _ _ _ fun db' hdb heq => ?_
    rw [← Option.some.inj heq]
    exact hdb
  | resolvePending id status =>
    simp only [Database.exec]
    split
    · split
      · exact h
      · exact { h with queuedAdvisory := rfl, auditLog := rfl }
    · exact h
  | enqueue a =>
    simp only [Database.exec, statement]
    split
    · exact h
    · rename_i db' heq
      split at heq
      · cases heq
      split at heq
      · cases heq
      · rename_i db₁ hdb
        cases heq
        exact complete_of_map hdb fun queue => { h with queuedAdvisory := rfl }
  | reopen =>
    simp only [Database.exec, h.migrate_eq]
    exact { h with actuator := by simpa using h.actuator }

theorem complete {db : Database} (h : sys.Reachable Sys.always db) : db.Complete :=
  h.invariant (P := Complete) ⟨rfl, rfl, rfl, rfl, rfl, rfl⟩ (fun _ r hdb _ _ => hdb.exec r)

/-- **A start leaves the database as it is exactly if the flood gate's row is there**, whatever was written before. -/
theorem reopen_unchanged {db : Database} (h : sys.Reachable Sys.always db) :
    migrate db = .ok db ↔ db.hasFloodGate = true := (complete h).migrate_iff

/-- The flood gate is renamed. -/
def renameGate : Request where
  write := .upsertActuator { mainFloodGate with name := "North gate" }

theorem reopen_unchanged_renameGate : migrate (fresh.exec renameGate) = .ok (fresh.exec renameGate) := by
  have hreach : sys.Reachable Sys.always (fresh.exec renameGate) := .tail .refl ⟨renameGate, trivial, trivial, rfl⟩
  exact (reopen_unchanged hreach).2 (by decide)

/-- **A flood gate that was deleted is back after a start.** -/
theorem deleted_gate_returns : ¬ ∀ db : Database, sys.Reachable Sys.always db → migrate db = .ok db := by
  intro h
  let delete : Request := { write := .deleteActuator "flood-gate", actor := "local" }
  have hreach : sys.Reachable Sys.always (fresh.exec delete) := .tail .refl ⟨delete, trivial, trivial, rfl⟩
  have heq := h _ hreach
  rw [(complete hreach).migrate_eq] at heq
  have hrows := congrArg (fun db : Database => db.actuator.map fun t => t.rows.length) (Except.ok.inj heq)
  exact absurd hrows (by decide)

end Database

end Gateway
end FloodEws
