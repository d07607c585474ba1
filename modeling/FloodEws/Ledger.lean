import FloodEws.Schema
/-!
# Ledger — what the audit log tells

A write on a configuration table or on the status of a queued advisory goes into the audit log in the same transaction,
the log entry with the row that was written.  So the log is a ledger of the database: read from its start, and from
nothing else, it gives every configured row and the decision on every queued advisory; read up to an earlier entry, it
gives them as they were then (`ledger_tells`).

The one row the log knows nothing of is the flood gate as `schema.sql` inserts it.
-/
namespace FloodEws
namespace Gateway

/-- The column `detail`, with the JSON text kept decoded.  The text of a control action is left out. -/
inductive Snapshot where
  | nothing
  | source (e : ExternalSource)
  | actuator (a : ActuatorRow)
  | rule (r : RuleRow)
  | target (t : EgressTarget)
  | item (q : QueuedAdvisory)
deriving DecidableEq, Repr

/-! ## The configuration according to a log -/

/-- What is configured and decided.  An item of the queue goes by its id as the log has it, in digits. -/
structure Ledger where
  sources : String → Option ExternalSource := fun _ => none
  actuators : String → Option ActuatorRow := fun _ => none
  rules : String → Option RuleRow := fun _ => none
  targets : String → Option EgressTarget := fun _ => none
  decisions : String → QueueStatus × String := fun _ => (.pending, "")

namespace Ledger

/-- The ledger after one more entry. -/
def redo (l : Ledger) (e : AuditLog × Snapshot) : Ledger :=
  let ⟨entry, detail⟩ := e
  match entry.action, detail with
  | "upsert_source", .source x => { l with sources := Function.update l.sources entry.entity (some x) }
  | "delete_source", _ => { l with sources := Function.update l.sources entry.entity none }
  | "upsert_actuator", .actuator x => { l with actuators := Function.update l.actuators entry.entity (some x) }
  | "delete_actuator", _ => { l with actuators := Function.update l.actuators entry.entity none }
  | "upsert_rule", .rule x => { l with rules := Function.update l.rules entry.entity (some x) }
  | "delete_rule", _ => { l with rules := Function.update l.rules entry.entity none }
  | "upsert_target", .target x => { l with targets := Function.update l.targets entry.entity (some x) }
  | "delete_target", _ => { l with targets := Function.update l.targets entry.entity none }
  | "operator_queue:approved", _ =>
    { l with decisions := Function.update l.decisions entry.entity (.approved, entry.actor) }
  | "operator_queue:rejected", _ =>
    { l with decisions := Function.update l.decisions entry.entity (.rejected, entry.actor) }
  | _, _ => l

def ofLog (log : List (AuditLog × Snapshot)) : Ledger := log.foldl redo {}

theorem ofLog_concat (log : List (AuditLog × Snapshot)) (e : AuditLog × Snapshot) :
    ofLog (log ++ [e]) = (ofLog log).redo e := by
  simp [ofLog, List.foldl_append]

theorem redo_control (l : Ledger) (actor state entity : String) (detail : Snapshot) :
    l.redo (⟨actor, "control:" ++ state, entity⟩, detail) = l := by
  have hne : ∀ action : String, action.toList.head? ≠ some 'c' → "control:" ++ state ≠ action := by
    rintro action h rfl
    simp [String.toList_append] at h
  unfold redo
  dsimp only
  split
  all_goals first | rfl | exact absurd ‹"control:" ++ state = _› (hne _ (by decide))

end Ledger

/-! ## The log with its details -/

namespace Database

def log (db : Database) : List AuditLog := db.auditLog.getD []

/-- The row of the queue with an id. -/
def item (db : Database) (id : Nat) : Option QueuedAdvisory := Store.row ⟨db.queuedAdvisory.getD [], []⟩ id

/-- What was decided on an item, and by whom. -/
def decision (db : Database) (id : Nat) : QueueStatus × String :=
  match db.item id with
  | none => (.pending, "")
  | some q => (q.status, q.resolvedBy)

end Database

/-- What a call hands to `withAuditTx` beside the entry. -/
def Write.snapshot (db : Database) : Write → Snapshot
  | .upsertSource e => .source e
  | .upsertActuator a => .actuator a
  | .upsertRule r => .rule r
  | .upsertTarget t => .target t
  | .resolvePending id _ => match db.item id with
    | none => .nothing
    | some q => .item q
  | _ => .nothing

/-- The database, with the column `detail` of its audit log. -/
structure Journal where
  db : Database
  details : List Snapshot := []

namespace Journal

/-- The entry and its detail are one row: a call that writes the one writes the other. -/
def exec (j : Journal) (r : Request) : Journal where
  db := j.db.exec r
  details := if j.db.log.length < (j.db.exec r).log.length then j.details ++ [r.write.snapshot j.db] else j.details

def log (j : Journal) : List (AuditLog × Snapshot) := j.db.log.zip j.details

def sys : Sys Journal Request where
  init := { db := .fresh }
  enabled := fun _ _ => True
  exec := exec

end Journal

/-- The ledger has everything right but a flood gate the script inserted. -/
structure Ledger.Tells (l : Ledger) (db : Database) : Prop where
  complete : db.Complete
  sources : db.externalSource.map Table.find = some l.sources
  rules : db.policyRule.map Table.find = some l.rules
  targets : db.egressTarget.map Table.find = some l.targets
  actuators : ∀ t, db.actuator = some t → ∀ id, t.find id = l.actuators id ∨
    (id = mainFloodGate.id ∧ l.actuators id = none ∧ t.find id = some mainFloodGate)
  decisions : ∀ id, db.decision id = l.decisions (toString id)

/-! ## What a call adds -/

namespace Ledger

variable {l : Ledger} {db : Database}

/-- After a call: nothing was logged and the ledger tells the database still, or the entry that was logged brings the
ledger up to it. -/
def Follows (l : Ledger) (db : Database) (detail : Snapshot) (db' : Database) : Prop :=
  (db'.log = db.log ∧ l.Tells db') ∨ ∃ e, db'.log = db.log ++ [e] ∧ (l.redo (e, detail)).Tells db'

theorem Tells.withLog (h : l.Tells db) (log : List AuditLog) : l.Tells { db with auditLog := some log } where
  complete := { h.complete with auditLog := rfl }
  sources := h.sources
  rules := h.rules
  targets := h.targets
  actuators := h.actuators
  decisions := h.decisions

/-- **A transaction is logged with what it changes.** -/
theorem Tells.audited (h : l.Tells db) (f : ResolveFaults) {actor action entity : String} {detail : Snapshot}
    {change : Database → Option Database} (hlog : ∀ db', change db = some db' → db'.auditLog = db.auditLog)
    (hchange : ∀ db', change db = some db' → (l.redo (⟨actor, action, entity⟩, detail)).Tells db') :
    l.Follows db detail (db.audited f actor action entity change) := by
  unfold Database.audited
  rcases withAuditTx_cases f.tx Database.insertAuditLog ⟨actor, action, entity⟩ (Database.statement f.update change) db with
    ⟨-, heq⟩ | ⟨-, db₁, hfn, haudit⟩
  · rw [heq]
    exact .inl ⟨rfl, h⟩
  · have hdb₁ : change db = some db₁ := by
      unfold Database.statement at hfn
      split at hfn
      · cases hfn
      split at hfn
      · cases hfn
      · rename_i hdb
        cases hfn
        exact hdb
    obtain ⟨log, hsome⟩ := Option.isSome_iff_exists.1 h.complete.auditLog
    have hlog₁ : db₁.auditLog = some log := (hlog db₁ hdb₁).trans hsome
    generalize (withAuditTx f.tx Database.insertAuditLog ⟨actor, action, entity⟩
      (Database.statement f.update change) db).2 = db₂ at haudit ⊢
    simp only [Database.insertAuditLog, hlog₁] at haudit
    rw [← Except.ok.inj haudit]
    refine .inr ⟨⟨actor, action, entity⟩, ?_, (hchange db₁ hdb₁).withLog _⟩
    simp [Database.log, hsome]

/-- A change of one table that is there. -/
theorem Tells.audited_map (h : l.Tells db) (f : ResolveFaults) (actor action entity : String) (detail : Snapshot)
    {α : Type} (table : Database → Option α) (set : Database → α → Database)
    (hlog : ∀ t, (set db t).auditLog = db.auditLog)
    (hset : ∀ t, table db = some t → (l.redo (⟨actor, action, entity⟩, detail)).Tells (set db t)) :
    l.Follows db detail (db.audited f actor action entity fun db => (table db).map (set db)) := by
  refine h.audited f (fun db' heq => ?_) (fun db' heq => ?_)
  · obtain ⟨t, -, rfl⟩ := Option.map_eq_some_iff.1 heq
    exact hlog t
  · obtain ⟨t, ht, rfl⟩ := Option.map_eq_some_iff.1 heq
    exact hset t ht

/-- A source's row changes, in the table and in the ledger. -/
theorem Tells.withSource (h : l.Tells db) {t t' : Table ExternalSource.id} (ht : db.externalSource = some t)
    {id : String} {row : Option ExternalSource} (ht' : t'.find = Function.update t.find id row) :
    ({ l with sources := Function.update l.sources id row } : Ledger).Tells { db with externalSource := some t' } := by
  have hfind : t.find = l.sources := by simpa [ht] using h.sources
  exact ⟨{ h.complete with externalSource := rfl }, by simp [ht', hfind], h.rules, h.targets, h.actuators, h.decisions⟩

theorem Tells.withRule (h : l.Tells db) {t t' : Table (fun r : RuleRow => r.id)} (ht : db.policyRule = some t)
    {id : String} {row : Option RuleRow} (ht' : t'.find = Function.update t.find id row) :
    ({ l with rules := Function.update l.rules id row } : Ledger).Tells { db with policyRule := some t' } := by
  have hfind : t.find = l.rules := by simpa [ht] using h.rules
  exact ⟨{ h.complete with policyRule := rfl }, h.sources, by simp [ht', hfind], h.targets, h.actuators, h.decisions⟩

theorem Tells.withTarget (h : l.Tells db) {t t' : Table EgressTarget.id} (ht : db.egressTarget = some t)
    {id : String} {row : Option EgressTarget} (ht' : t'.find = Function.update t.find id row) :
    ({ l with targets := Function.update l.targets id row } : Ledger).Tells { db with egressTarget := some t' } := by
  have hfind : t.find = l.targets := by simpa [ht] using h.targets
  exact ⟨{ h.complete with egressTarget := rfl }, h.sources, h.rules, by simp [ht', hfind], h.actuators, h.decisions⟩

theorem Tells.withActuator (h : l.Tells db) {t t' : Table (fun a : ActuatorRow => a.id)} (ht : db.actuator = some t)
    {id : String} {row : Option ActuatorRow} (ht' : t'.find = Function.update t.find id row) :
    ({ l with actuators := Function.update l.actuators id row } : Ledger).Tells { db with actuator := some t' } where
  complete := { h.complete with actuator := rfl }
  sources := h.sources
  rules := h.rules
  targets := h.targets
  decisions := h.decisions
  actuators := by
    rintro t'' ht'' id'
    cases ht''
    rw [ht']
    by_cases hid : id' = id
    · subst hid
      exact .inl (by simp)
    · simp only [Function.update_of_ne hid]
      exact h.actuators t ht id'

end Ledger

namespace Ledger

variable {l : Ledger} {db : Database}

/-- The queue changes, and the ledger has the decisions on it. -/
theorem Tells.withQueue (h : l.Tells db) (queue : List QueuedAdvisory) {decisions : String → QueueStatus × String}
    (hdecisions : ∀ id, Database.decision { db with queuedAdvisory := some queue } id = decisions (toString id)) :
    ({ l with decisions := decisions } : Ledger).Tells { db with queuedAdvisory := some queue } :=
  ⟨{ h.complete with queuedAdvisory := rfl }, h.sources, h.rules, h.targets, h.actuators, hdecisions⟩

/-- Ids are told apart in the log. -/
theorem toString_inj {m n : Nat} (h : toString m = toString n) : m = n := by
  have hdigits := congrArg String.toList h
  rw [Nat.toString_eq_repr, Nat.toString_eq_repr, Nat.toList_repr, Nat.toList_repr] at hdigits
  rw [← Nat.ofDigitChars_ten_toDigits (n := m), hdigits, Nat.ofDigitChars_ten_toDigits]

/-- An item is approved or rejected. -/
theorem resolveStatus_cases {text : String} {status : QueueStatus} (h : resolveStatus text = some status) :
    status = .approved ∨ status = .rejected := by
  unfold resolveStatus at h
  split at h
  · exact .inl (Option.some.inj h).symm
  split at h
  · exact .inr (Option.some.inj h).symm
  · cases h

theorem Tells.resolve (h : l.Tells db) (f : ResolveFaults) (id : Nat) (text actor : String) :
    l.Follows db (Write.snapshot db (.resolvePending id text)) (db.exec ⟨.resolvePending id text, actor, f⟩) := by
  simp only [Database.exec]
  split
  · rename_i status queue log hstatus hqueue hlog
    split
    · exact .inl ⟨rfl, h⟩
    rcases Store.resolveTx_cases ⟨queue, log⟩ f id status actor with ⟨-, heq⟩ | ⟨-, n, existing, rfl, hrow, hp, heq⟩
    · rw [heq]
      refine .inl ⟨by simp [Database.log, hlog], ?_⟩
      have hsame : db = { db with queuedAdvisory := some queue, auditLog := some log } := by rw [← hqueue, ← hlog]
      exact hsame ▸ h
    · rw [heq]
      refine .inr ⟨⟨actor, "operator_queue:" ++ status.text, toString (n + 1)⟩, by simp [Database.log, hlog], ?_⟩
      have hdecisions : ∀ id, Database.decision { db with queuedAdvisory := some (queue.set n { existing with
          status := status, resolvedBy := actor }) } id =
            Function.update l.decisions (toString (n + 1)) (status, actor) (toString id) := by
        intro id
        by_cases hid : id = n + 1
        · subst hid
          have hlt : n < queue.length := (List.getElem?_eq_some_iff.1 hrow).1
          simp [Database.decision, Database.item, Store.row, List.getElem?_set_self hlt]
        · rw [Function.update_of_ne (fun heq => hid (toString_inj heq)), ← h.decisions id]
          cases id with
          | zero => rfl
          | succ m =>
            have hne : n ≠ m := by omega
            simp [Database.decision, Database.item, Store.row, hqueue, List.getElem?_set_ne hne]
      have hredo : l.redo (⟨actor, "operator_queue:" ++ status.text, toString (n + 1)⟩,
          Write.snapshot db (.resolvePending (n + 1) text)) =
          { l with decisions := Function.update l.decisions (toString (n + 1)) (status, actor) } := by
        rcases resolveStatus_cases hstatus with rfl | rfl
        · rfl
        · rfl
      rw [hredo]
      exact (h.withQueue _ hdecisions).withLog _
  · exact .inl ⟨rfl, h⟩

theorem Tells.enqueue (h : l.Tells db) (f : ResolveFaults) (a : Advisory) (actor : String) (detail : Snapshot) :
    l.Follows db detail (db.exec ⟨.enqueue a, actor, f⟩) := by
  obtain ⟨queue, hqueue⟩ := Option.isSome_iff_exists.1 h.complete.queuedAdvisory
  simp only [Database.exec, Database.statement, hqueue, Option.map_some]
  split
  · exact .inl ⟨rfl, h⟩
  · rename_i db' heq
    split at heq
    · cases heq
    cases heq
    refine .inl ⟨rfl, h.withQueue (queue ++ [a.row]) fun id => ?_⟩
    rw [← h.decisions id]
    cases id with
    | zero => rfl
    | succ n =>
      rcases Nat.lt_trichotomy n queue.length with hlt | rfl | hgt
      · simp [Database.decision, Database.item, Store.row, hqueue, List.getElem?_append_left hlt]
      · simp [Database.decision, Database.item, Store.row, hqueue, Advisory.row]
      · simp [Database.decision, Database.item, Store.row, hqueue, List.getElem?_eq_none hgt.le,
          List.getElem?_append_right hgt.le, Nat.sub_ne_zero_of_lt hgt]

theorem Tells.reopen (h : l.Tells db) (f : ResolveFaults) (actor : String) (detail : Snapshot) :
    l.Follows db detail (db.exec ⟨.reopen, actor, f⟩) := by
  obtain ⟨t, ht⟩ := Option.isSome_iff_exists.1 h.complete.actuator
  have hcomplete := h.complete.exec ⟨.reopen, actor, f⟩
  simp only [Database.exec, h.complete.migrate_eq] at hcomplete ⊢
  refine .inl ⟨rfl, ⟨hcomplete, h.sources, h.rules, h.targets, ?_, h.decisions⟩⟩
  rintro t' ht' id
  simp only [ht, Option.map_some, Option.some.injEq] at ht'
  subst ht'
  unfold Table.insertNew
  split
  · exact h.actuators t ht id
  · rename_i hnew
    rw [Table.find_upsert]
    by_cases hid : id = mainFloodGate.id
    · subst hid
      have hnone := Table.find_eq_none_iff.2 hnew
      rcases h.actuators t ht mainFloodGate.id with heq | ⟨-, -, heq⟩
      · exact .inr ⟨rfl, heq.symm.trans hnone, by simp⟩
      · exact .inr ⟨rfl, absurd (hnone.symm.trans heq) (by simp), by simp⟩
    · rw [Function.update_of_ne hid]
      exact h.actuators t ht id

/-- **What a call does, the entry it logs redoes.** -/
theorem Tells.exec (h : l.Tells db) (r : Request) : l.Follows db (r.write.snapshot db) (db.exec r) := by
  obtain ⟨write, actor, f⟩ := r
  cases write with
  | upsertSource e =>
    simp only [Database.exec]
    split
    · exact .inl ⟨rfl, h⟩
    · exact h.audited_map f actor "upsert_source" e.id (.source e) Database.externalSource
        (fun db t => { db with externalSource := some (t.upsert e) }) (fun _ => rfl)
        (fun t ht => h.withSource ht (t.find_upsert e))
  | deleteSource id =>
    exact h.audited_map f actor "delete_source" id .nothing Database.externalSource
      (fun db t => { db with externalSource := some (t.delete id) }) (fun _ => rfl)
      (fun t ht => h.withSource ht (t.find_delete id))
  | upsertActuator a =>
    simp only [Database.exec]
    split
    · exact .inl ⟨rfl, h⟩
    · exact h.audited_map f actor "upsert_actuator" a.id (.actuator a) Database.actuator
        (fun db t => { db with actuator := some (t.upsert a) }) (fun _ => rfl)
        (fun t ht => h.withActuator ht (t.find_upsert a))
  | deleteActuator id =>
    exact h.audited_map f actor "delete_actuator" id .nothing Database.actuator
      (fun db t => { db with actuator := some (t.delete id) }) (fun _ => rfl)
      (fun t ht => h.withActuator ht (t.find_delete id))
  | upsertRule rule =>
    simp only [Database.exec]
    split
    · exact .inl ⟨rfl, h⟩
    · exact h.audited_map f actor "upsert_rule" rule.id (.rule rule) Database.policyRule
        (fun db t => { db with policyRule := some (t.upsert rule) }) (fun _ => rfl)
        (fun t ht => h.withRule ht (t.find_upsert rule))
  | deleteRule id =>
    exact h.audited_map f actor "delete_rule" id .nothing Database.policyRule
      (fun db t => { db with policyRule := some (t.delete id) }) (fun _ => rfl)
      (fun t ht => h.withRule ht (t.find_delete id))
  | upsertTarget target =>
    simp only [Database.exec]
    split
    · exact .inl ⟨rfl, h⟩
    · exact h.audited_map f actor "upsert_target" target.id (.target target) Database.egressTarget
        (fun db t => { db with egressTarget := some (t.upsert target) }) (fun _ => rfl)
        (fun t ht => h.withTarget ht (t.find_upsert target))
  | deleteTarget id =>
    exact h.audited_map f actor "delete_target" id .nothing Database.egressTarget
      (fun db t => { db with egressTarget := some (t.delete id) }) (fun _ => rfl)
      (fun t ht => h.withTarget ht (t.find_delete id))
  | recordControlAction actuatorId targetState =>
    refine h.audited f (fun db' heq => ?_) (fun db' heq => ?_)
    · rw [← Option.some.inj heq]
    · rw [← Option.some.inj heq, redo_control]
      exact h
  | resolvePending id text => exact h.resolve f id text actor
  | enqueue a => exact h.enqueue f a actor _
  | reopen => exact h.reopen f actor _

end Ledger

/-! ## Runs -/

namespace Journal

/-- Each entry has its detail, and the log tells the database. -/
structure Sound (j : Journal) : Prop where
  paired : j.details.length = j.db.log.length
  tells : (Ledger.ofLog j.log).Tells j.db

theorem Sound.exec {j : Journal} (h : j.Sound) (r : Request) : (j.exec r).Sound ∧ j.log <+: (j.exec r).log := by
  rcases h.tells.exec r with ⟨hlog, htells⟩ | ⟨e, hlog, htells⟩
  · have hdetails : (j.exec r).details = j.details := by simp [Journal.exec, hlog]
    have hsame : (j.exec r).log = j.log := by
      unfold Journal.log
      rw [hdetails]
      exact congrArg (fun log => log.zip j.details) hlog
    refine ⟨⟨?_, ?_⟩, ?_⟩
    · rw [hdetails, h.paired]
      exact (congrArg List.length hlog).symm
    · rw [hsame]
      exact htells
    · exact hsame.symm ▸ List.prefix_refl j.log
  · have hdetails : (j.exec r).details = j.details ++ [r.write.snapshot j.db] := by simp [Journal.exec, hlog]
    have hmore : (j.exec r).log = j.log ++ [(e, r.write.snapshot j.db)] := by
      unfold Journal.log
      rw [hdetails]
      exact (congrArg (fun log => log.zip (j.details ++ [r.write.snapshot j.db])) hlog).trans
        (List.zip_append h.paired.symm)
    refine ⟨⟨?_, ?_⟩, ?_⟩
    · show (j.exec r).details.length = (j.db.exec r).log.length
      rw [hdetails, hlog, List.length_append, List.length_append, h.paired]
      rfl
    · rw [hmore, Ledger.ofLog_concat]
      exact htells
    · rw [hmore]
      exact List.prefix_append _ _

theorem sound {j : Journal} (h : sys.Reachable Sys.always j) : j.Sound := by
  refine h.invariant ⟨rfl, ⟨⟨rfl, rfl, rfl, rfl, rfl, rfl⟩, rfl, rfl, rfl, ?_, ?_⟩⟩ (fun j r hj _ _ => (hj.exec r).1)
  · rintro t ht id
    cases ht
    rw [Table.find_upsert]
    by_cases hid : id = mainFloodGate.id
    · subst hid
      exact .inr ⟨rfl, rfl, by simp⟩
    · rw [Function.update_of_ne hid]
      exact .inl rfl
  · intro id
    cases id <;> rfl

/-- **The audit log is a ledger of the database.**  In every run of the store's calls, with failures in any of their
statements and with any number of restarts, the log read up to where it was at any moment tells the configuration and the
decisions as they were at that moment. -/
theorem ledger_tells {j j' : Journal} (h : sys.Reachable Sys.always j) (hrun : sys.Reaches Sys.always j j') :
    j.log <+: j'.log ∧ (Ledger.ofLog j.log).Tells j.db := by
  refine ⟨?_, (sound h).tells⟩
  have hboth : j'.Sound ∧ j.log <+: j'.log := by
    refine hrun.invariant (P := fun x => x.Sound ∧ j.log <+: x.log) ⟨sound h, List.prefix_refl _⟩ ?_
    rintro x r ⟨hx, hle⟩ _ _
    obtain ⟨hx', hle'⟩ := hx.exec r
    exact ⟨hx', hle.trans hle'⟩
  exact hboth.2

/-- The gate gets another name and is deleted; the gateway restarts. -/
def gateDeleted : List Request :=
  [Database.renameGate, { write := .deleteActuator "flood-gate", actor := "local" }, { write := .reopen }]

/-- While the gate is there, the log tells its new name, and goes on from there. -/
theorem ledger_tells_gateDeleted :
    (sys.run [Database.renameGate] sys.init).log <+: (sys.run gateDeleted sys.init).log ∧
      ∃ t, (sys.run [Database.renameGate] sys.init).db.actuator = some t ∧
        t.find "flood-gate" = some { mainFloodGate with name := "North gate" } := by
  have hrename : sys.Reachable Sys.always (sys.run [Database.renameGate] sys.init) :=
    Sys.reaches_run [Database.renameGate] _ ⟨trivial, trivial, trivial⟩
  have hdelete : sys.Reaches Sys.always (sys.run [Database.renameGate] sys.init) (sys.run gateDeleted sys.init) :=
    Sys.reaches_run (gateDeleted.drop 1) _ ⟨trivial, trivial, trivial, trivial, trivial⟩
  obtain ⟨hgrows, htells⟩ := ledger_tells hrename hdelete
  obtain ⟨t, ht⟩ := Option.isSome_iff_exists.1 htells.complete.actuator
  refine ⟨hgrows, t, ht, ?_⟩
  rcases htells.actuators t ht "flood-gate" with htold | ⟨-, hnone, -⟩
  · rw [htold]
    decide
  · exact absurd hnone (by decide)

/-- The log has it that the gate is gone, but the script has put it back. -/
example : (Ledger.ofLog (sys.run gateDeleted sys.init).log).actuators "flood-gate" = none ∧
    (sys.run gateDeleted sys.init).db.actuator.bind (fun t => t.find "flood-gate") = some mainFloodGate := by decide

end Journal

end Gateway
end FloodEws
