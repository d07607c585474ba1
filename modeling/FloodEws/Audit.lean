import FloodEws.Api
/-!
# Audit — who the audit log says did it

`main` makes the audit log a sink of the daemon: for each command applied, `OnResult` writes a control entry under the
name `policy`.  The handlers of `/v1/control` write one too, under the operator's name, and do not ask whether anything
was applied.

So an operator's command that is accepted has one control entry too many, and the log attributes what was done to who did
it just as long as no operator does anything (`audit_attributed`).
-/
namespace FloodEws
namespace Gateway

/-- The callback `main` registers with the daemon.  What `RecordControlAction` returns is dropped there; it is taken to
have written. -/
def Store.onResult (s : Store) (r : Result) : Store :=
  if r.applied then s.recordControlAction false "policy" r.command.actuatorId r.newState else s

/-- What the callback is told between two states of the daemon, oldest first. -/
def Daemon.told (d d' : Daemon) : List Result := (d'.results.take (d'.results.length - d.results.length)).reverse

/-! ## The gateway as `main` wires it -/

namespace Main

/-- The callbacks of a call of the daemon.  Nothing else in such a call touches the audit log. -/
def report (before : Daemon) (g : Server) : Server :=
  { g with store := (before.told g.daemon).foldl Store.onResult g.store }

def approvePending (g : Server) (fails : Bool) (actuatorId targetState reason corr : String) :
    Except ActuatorError Result × Server :=
  let (res, g') := g.approvePending fails actuatorId targetState reason corr
  (res, report g.daemon g')

def handleActuate (g : Server) (f : ApproveFaults) (actor now : String) (req : ActuateRequest) : Nat × Server :=
  let reason := if req.reason = "" then "manual:" ++ actor else req.reason
  match approvePending g f.apply req.actuatorId req.targetState reason ("manual@" ++ now) with
  | (.error _, g) => (400, g)
  | (.ok _, g) => (200, { g with store := g.store.recordControlAction f.record actor req.actuatorId req.targetState })

def handleApprovePending (g : Server) (f : ApproveFaults) (id : Nat) (actor : String) : Nat × Server :=
  match g.store.getPending f.get id with
  | .error e => (Server.pendingErr e, g)
  | .ok item =>
    if item.status ≠ .pending then (Server.pendingErr .alreadyResolved, g)
    else if item.actuatorId = "" then
      match g.resolvePending f id .approved actor with
      | (.error e, g) => (Server.pendingErr e, g)
      | (.ok _, g) => (200, g)
    else match approvePending g f.apply item.actuatorId item.targetState ("operator_approved:" ++ actor)
        ("pending@" ++ toString id) with
      | (.error _, g) => (400, g)
      | (.ok _, g) =>
        let g := (g.resolvePending f id .approved actor).2
        (200, { g with store := g.store.recordControlAction f.record actor item.actuatorId item.targetState })

def exec (g : Server) : Call → Server
  | .submitAdvisory f a => report g.daemon (g.submitAdvisory f a)
  | .setRules _ engine => { g with engine := engine }
  | .setSpecs specs fails order => report g.daemon { g with daemon := g.daemon.setSpecs specs fails order }
  | .actuate f actor now req => (handleActuate g f actor now req).2
  | .approve f id actor => (handleApprovePending g f id actor).2
  | .reject f id actor => (g.handleRejectPending f id actor).2
  | .driveAllFailsafe reason fails order => report g.daemon { g with daemon := g.daemon.driveAllFailsafe reason fails order }

def sys (store : Store) : Sys Server Call where
  init := .start store
  enabled := Server.enabled
  exec := exec

end Main

/-! ## The control entries -/

/-- An entry of `RecordControlAction`. -/
def AuditLog.isControl (e : AuditLog) : Bool := "control:".toList.isPrefixOf e.action.toList

def Store.controls (s : Store) : List AuditLog := s.audit.filter AuditLog.isControl

/-- The entry for a change `actor` has caused. -/
def Result.entry (actor : String) (r : Result) : AuditLog := ⟨actor, "control:" ++ r.newState, r.command.actuatorId⟩

/-- Who causes what is applied in a call. -/
def Call.party : Call → String
  | .actuate _ actor _ _ => actor
  | .approve _ _ actor => actor
  | _ => "policy"

theorem isControl_control (actor state entity : String) : (AuditLog.mk actor ("control:" ++ state) entity).isControl = true := by
  simp [AuditLog.isControl, String.toList_append]

theorem isControl_operatorQueue (actor status entity : String) :
    (AuditLog.mk actor ("operator_queue:" ++ status) entity).isControl = false := by
  simp [AuditLog.isControl, String.toList_append, List.isPrefixOf]

namespace Store

theorem controls_recordControlAction (s : Store) (actor actuatorId targetState : String) :
    (s.recordControlAction false actor actuatorId targetState).controls =
      s.controls ++ [⟨actor, "control:" ++ targetState, actuatorId⟩] := by
  simp [recordControlAction, controls, List.filter_append, isControl_control]

/-- **What the callback writes**: one entry for each command applied, in the name of the policy. -/
theorem controls_onResults (rs : List Result) :
    ∀ s : Store, (rs.foldl onResult s).controls = s.controls ++ (rs.filter Result.applied).map (Result.entry "policy") := by
  induction rs with
  | nil => simp
  | cons r rs ih =>
    intro s
    rw [List.foldl_cons, ih]
    cases hr : r.applied with
    | true => simp [onResult, hr, controls_recordControlAction, Result.entry]
    | false => simp [onResult, hr]

theorem controls_resolveUpdate (s : Store) (fails : Bool) (id : Nat) (status : QueueStatus) (actor : String) :
    (s.resolveUpdate fails id status actor).2.controls = s.controls := by
  unfold resolveUpdate
  split
  · rfl
  split
  · split
    · simp [controls, List.filter_append, isControl_operatorQueue]
    · rfl
  · rfl

end Store

theorem Server.controls_resolvePending (g : Server) (f : ApproveFaults) (id : Nat) (status : QueueStatus) (actor : String) :
    (g.resolvePending f id status actor).2.store.controls = g.store.controls := by
  unfold resolvePending
  split
  · rfl
  · exact g.store.controls_resolveUpdate f.update id status actor

/-! ## What the daemon reports -/

namespace Daemon

variable {d d' : Daemon}

theorem told_self (d : Daemon) : d.told d = [] := by simp [told]

theorem told_cons {r : Result} (h : d'.results = r :: d.results) : d.told d' = [r] := by simp [told, h]

/-- The command is accepted: `Execute` does not refuse it, and the actuator is in the state already or the backend takes
it. -/
def takes (d : Daemon) (fails : Bool) (actuatorId state : String) : Bool :=
  !d.refuses actuatorId state && (decide ((d.state actuatorId).getD "" = state) || !fails)

/-- **A command that is not accepted** is an error, and nothing is applied. -/
theorem execute_not_taken {fails : Bool} {c : Command} (h : d.takes fails c.actuatorId c.targetState = false) :
    (∃ e, (d.execute fails c).1 = .error e) ∧ (d.told (d.execute fails c).2).filter Result.applied = [] := by
  unfold takes refuses at h
  unfold execute
  cases hs : d.specs c.actuatorId with
  | none => exact ⟨⟨_, rfl⟩, by simp [told_self]⟩
  | some spec =>
    cases hv : spec.validState c.targetState with
    | false => exact ⟨⟨.invalidState c.actuatorId c.targetState, by simp [hv]⟩, by simp [hv, told_self]⟩
    | true =>
      by_cases hp : (d.state c.actuatorId).getD "" = c.targetState
      · simp [hs, hv, hp] at h
      · cases fails with
        | false => simp [hs, hv] at h
        | true =>
          simp only [hv, hp, Bool.not_true, Bool.false_eq_true, if_false, if_true]
          refine ⟨⟨_, rfl⟩, ?_⟩
          rw [told_cons rfl]
          rfl

/-- One that is accepted succeeds. -/
theorem execute_taken {fails : Bool} {c : Command} (h : d.takes fails c.actuatorId c.targetState = true) :
    ∃ res, (d.execute fails c).1 = .ok res := by
  unfold takes refuses at h
  unfold execute
  cases hs : d.specs c.actuatorId with
  | none => simp [hs] at h
  | some spec =>
    cases hv : spec.validState c.targetState with
    | false => simp [hs, hv] at h
    | true =>
      by_cases hp : (d.state c.actuatorId).getD "" = c.targetState
      · exact ⟨_, by simp [hv, hp]; rfl⟩
      · cases fails with
        | false => exact ⟨_, by simp [hv, hp]; rfl⟩
        | true => simp [hs, hv, hp] at h

end Daemon

/-! ## What one call writes -/

namespace Main

/-- An operator's command is accepted in the call: a manual one, or the action of a pending item. -/
def attended (g : Server) : Call → Bool
  | .actuate f _ _ req => g.daemon.takes f.apply req.actuatorId req.targetState
  | .approve f id _ =>
    match g.store.getPending f.get id with
    | .error _ => false
    | .ok item => decide (item.status = .pending) && decide (item.actuatorId ≠ "") &&
        g.daemon.takes f.apply item.actuatorId item.targetState
  | _ => false

/-- The control entries of the handlers are written. -/
def Audited (_ : Server) : Call → Prop
  | .actuate f _ _ _ => f.record = false
  | .approve f _ _ => f.record = false
  | _ => True

/-- The state changes of a call. -/
def applied (g : Server) (c : Call) : List Result := (g.daemon.told (exec g c).daemon).filter Result.applied

@[simp] theorem report_daemon (before : Daemon) (g : Server) : (report before g).daemon = g.daemon := rfl

theorem report_controls (before : Daemon) (g : Server) : (report before g).store.controls =
    g.store.controls ++ ((before.told g.daemon).filter Result.applied).map (Result.entry "policy") :=
  Store.controls_onResults _ g.store

/-- The gateway once `Execute` has returned to the handler. -/
def executed (g : Server) (fails : Bool) (c : Command) : Server :=
  report g.daemon { g with daemon := (g.daemon.execute fails c).2 }

theorem approvePending_eq (g : Server) (fails : Bool) (actuatorId targetState reason corr : String) :
    approvePending g fails actuatorId targetState reason corr =
      ((g.daemon.execute fails ⟨actuatorId, targetState, reason, corr⟩).1,
        executed g fails ⟨actuatorId, targetState, reason, corr⟩) := rfl

theorem executed_controls (g : Server) (fails : Bool) (c : Command) : (executed g fails c).store.controls =
    g.store.controls ++ ((g.daemon.told (executed g fails c).daemon).filter Result.applied).map (Result.entry "policy") :=
  report_controls g.daemon { g with daemon := (g.daemon.execute fails c).2 }

/-- A handler's command: `finish` is what it does once the command is accepted. -/
def operate (g : Server) (fails : Bool) (c : Command) (finish : Server → Server) : Server :=
  match (g.daemon.execute fails c).1 with
  | .error _ => executed g fails c
  | .ok _ => finish (executed g fails c)

/-- **What an operator's command writes**: nothing if it is not accepted; the handler's entry comes on top of the
callback's. -/
theorem operate_controls (g : Server) (fails : Bool) (c : Command) (finish : Server → Server) {own : AuditLog}
    (hdaemon : ∀ x, (finish x).daemon = x.daemon) (hfinish : ∀ x, (finish x).store.controls = x.store.controls ++ [own]) :
    (g.daemon.takes fails c.actuatorId c.targetState = true ∧ (operate g fails c finish).store.controls =
      g.store.controls ++ ((g.daemon.told (operate g fails c finish).daemon).filter Result.applied).map (Result.entry "policy") ++
        [own]) ∨
    (g.daemon.takes fails c.actuatorId c.targetState = false ∧
      (operate g fails c finish).store.controls = g.store.controls ∧
      (g.daemon.told (operate g fails c finish).daemon).filter Result.applied = []) := by
  have hcontrols := executed_controls g fails c
  cases htake : g.daemon.takes fails c.actuatorId c.targetState with
  | true =>
    obtain ⟨res, hres⟩ := Daemon.execute_taken htake
    refine .inl ⟨rfl, ?_⟩
    unfold operate
    rw [hres]
    simp only [hfinish, hdaemon, hcontrols]
  | false =>
    obtain ⟨⟨e, hres⟩, hnone⟩ := Daemon.execute_not_taken htake
    have hdaemon : (executed g fails c).daemon = (g.daemon.execute fails c).2 := rfl
    refine .inr ⟨rfl, ?_⟩
    unfold operate
    rw [hres]
    refine ⟨?_, hnone⟩
    rw [hcontrols, hdaemon, hnone, List.map_nil, List.append_nil]

/-- A manual command is one of an operator. -/
theorem handleActuate_eq (g : Server) (f : ApproveFaults) (actor now : String) (req : ActuateRequest) :
    ∃ reason corr, (handleActuate g f actor now req).2 = operate g f.apply ⟨req.actuatorId, req.targetState, reason, corr⟩
      (fun g => { g with store := g.store.recordControlAction f.record actor req.actuatorId req.targetState }) := by
  refine ⟨if req.reason = "" then "manual:" ++ actor else req.reason, "manual@" ++ now, ?_⟩
  simp only [handleActuate, approvePending_eq, operate]
  cases (g.daemon.execute f.apply _).1 <;> rfl

/-- **An approval is one, of the action of a pending item**; without such an item nothing is controlled. -/
theorem handleApprovePending_cases (g : Server) (f : ApproveFaults) (id : Nat) (actor : String) :
    (attended g (.approve f id actor) = false ∧ (handleApprovePending g f id actor).2.daemon = g.daemon ∧
      (handleApprovePending g f id actor).2.store.controls = g.store.controls) ∨
    ∃ actuatorId targetState reason corr,
      attended g (.approve f id actor) = g.daemon.takes f.apply actuatorId targetState ∧
      (handleApprovePending g f id actor).2 = operate g f.apply ⟨actuatorId, targetState, reason, corr⟩ (fun g =>
        { (g.resolvePending f id .approved actor).2 with
          store := (g.resolvePending f id .approved actor).2.store.recordControlAction f.record actor actuatorId targetState }) := by
  unfold handleApprovePending attended
  cases hget : g.store.getPending f.get id with
  | error e => exact .inl ⟨by simp [hget], rfl, rfl⟩
  | ok item =>
    dsimp only
    by_cases hp : item.status = .pending
    · by_cases ha : item.actuatorId = ""
      · refine .inl ⟨by simp [hget, ha], ?_⟩
        have hdaemon := g.resolvePending_daemon f id .approved actor
        have hcontrols := g.controls_resolvePending f id .approved actor
        rw [if_neg (by simp [hp]), if_pos ha]
        split <;> rename_i heq <;> rw [heq] at hdaemon hcontrols <;> exact ⟨hdaemon, hcontrols⟩
      · refine .inr ⟨item.actuatorId, item.targetState, "operator_approved:" ++ actor, "pending@" ++ toString id,
          by simp [hget, hp, ha], ?_⟩
        rw [if_neg (by simp [hp]), if_neg ha]
        simp only [approvePending_eq, operate]
        cases (g.daemon.execute f.apply _).1 <;> rfl
    · refine .inl ⟨by simp [hget, hp], ?_⟩
      rw [if_pos hp]
      exact ⟨rfl, rfl⟩

/-- **What a call writes.**  If an operator's command is accepted in it, an entry in the policy's name for each change and
one more; otherwise an entry for each change, in the name of who caused it. -/
theorem exec_controls (g : Server) (c : Call) (h : Audited g c) :
    (attended g c = true ∧ ∃ own, (exec g c).store.controls =
      g.store.controls ++ (applied g c).map (Result.entry "policy") ++ [own]) ∨
    (attended g c = false ∧ (exec g c).store.controls = g.store.controls ++ (applied g c).map (Result.entry c.party)) := by
  cases c with
  | submitAdvisory f a => exact .inr ⟨rfl, report_controls g.daemon (g.submitAdvisory f a)⟩
  | setRules rules engine => exact .inr ⟨rfl, by simp [exec, applied, Daemon.told_self]⟩
  | setSpecs specs fails order =>
    exact .inr ⟨rfl, report_controls g.daemon { g with daemon := g.daemon.setSpecs specs fails order }⟩
  | driveAllFailsafe reason fails order =>
    exact .inr ⟨rfl, report_controls g.daemon { g with daemon := g.daemon.driveAllFailsafe reason fails order }⟩
  | reject f id actor =>
    refine .inr ⟨rfl, ?_⟩
    have hcontrols := g.controls_resolvePending f id .rejected actor
    have hstore : (exec g (.reject f id actor)).store = (g.resolvePending f id .rejected actor).2.store := by
      simp only [exec, Server.handleRejectPending]
      split <;> rename_i heq <;> rw [heq]
    have hdaemon : (exec g (.reject f id actor)).daemon = g.daemon := g.handleRejectPending_daemon f id actor
    rw [applied, hdaemon, hstore, hcontrols, Daemon.told_self]
    simp
  | actuate f actor now req =>
    obtain ⟨reason, corr, heq⟩ := handleActuate_eq g f actor now req
    have hrecord : f.record = false := h
    have hcall := operate_controls g f.apply ⟨req.actuatorId, req.targetState, reason, corr⟩
      (fun g => { g with store := g.store.recordControlAction f.record actor req.actuatorId req.targetState })
      (fun x => rfl) (fun x => by rw [hrecord]; exact x.store.controls_recordControlAction _ _ _)
    rw [← heq] at hcall
    rcases hcall with ⟨htake, hcontrols⟩ | ⟨htake, hcontrols, hnone⟩
    · exact .inl ⟨htake, _, hcontrols⟩
    · refine .inr ⟨htake, ?_⟩
      have hnone : applied g (.actuate f actor now req) = [] := hnone
      rw [hnone, List.map_nil, List.append_nil]
      exact hcontrols
  | approve f id actor =>
    have hrecord : f.record = false := h
    rcases handleApprovePending_cases g f id actor with ⟨hno, hdaemon, hcontrols⟩ | ⟨aid, state, reason, corr, htakes, heq⟩
    · have hdaemon : (exec g (.approve f id actor)).daemon = g.daemon := hdaemon
      have hcontrols : (exec g (.approve f id actor)).store.controls = g.store.controls := hcontrols
      refine .inr ⟨hno, ?_⟩
      rw [applied, hdaemon, hcontrols, Daemon.told_self]
      simp
    · have hcall := operate_controls g f.apply ⟨aid, state, reason, corr⟩
        (fun g => { (g.resolvePending f id .approved actor).2 with
          store := (g.resolvePending f id .approved actor).2.store.recordControlAction f.record actor aid state })
        (fun x => x.resolvePending_daemon f id .approved actor) (fun x => by
          rw [hrecord]
          refine (Store.controls_recordControlAction _ _ _ _).trans ?_
          rw [x.controls_resolvePending])
      rw [← heq] at hcall
      rw [htakes]
      rcases hcall with ⟨htake, hcontrols⟩ | ⟨htake, hcontrols, hnone⟩
      · exact .inl ⟨htake, _, hcontrols⟩
      · refine .inr ⟨htake, ?_⟩
        have hnone : applied g (.approve f id actor) = [] := hnone
        rw [hnone, List.map_nil, List.append_nil]
        exact hcontrols

/-! ## Runs -/

/-- The state changes of a run, each with who caused it. -/
def changes (g : Server) : List Call → List (String × Result)
  | [] => []
  | c :: cs => (applied g c).map (Prod.mk c.party) ++ changes (exec g c) cs

/-- No operator's command is accepted in the step. -/
def Unattended (g : Server) (c : Call) : Prop := attended g c = false

/-- The entries a run should leave. -/
def due (g : Server) (cs : List Call) : List AuditLog := (changes g cs).map (fun x => x.2.entry x.1)

/-- **Unattended, a run leaves what it should.** -/
theorem controls_of_unattended (store : Store) (cs : List Call) : ∀ g : Server, (sys store).Legal Audited cs g →
    (sys store).Legal Unattended cs g → ((sys store).run cs g).store.controls = g.store.controls ++ due g cs := by
  induction cs with
  | nil => exact fun g _ _ => (List.append_nil _).symm
  | cons c cs ih =>
    rintro g ⟨-, haudit, hrest⟩ ⟨-, hno, hrest'⟩
    have hno : attended g c = false := hno
    rcases exec_controls g c haudit with ⟨hyes, -⟩ | ⟨-, hcontrols⟩
    · rw [hno] at hyes
      cases hyes
    · calc ((sys store).run cs (exec g c)).store.controls
        _ = (exec g c).store.controls ++ due (exec g c) cs := ih (exec g c) hrest hrest'
        _ = g.store.controls ++ due g (c :: cs) := by
          rw [hcontrols]
          simp [due, changes, Function.comp_def]

/-- **No run leaves fewer entries than it should, and each command accepted of an operator one more.** -/
theorem length_controls (store : Store) (cs : List Call) : ∀ g : Server, (sys store).Legal Audited cs g →
    g.store.controls.length + (due g cs).length ≤ ((sys store).run cs g).store.controls.length ∧
    (((sys store).run cs g).store.controls.length = g.store.controls.length + (due g cs).length →
      (sys store).Legal Unattended cs g) := by
  induction cs with
  | nil => exact fun g _ => ⟨Nat.le_refl _, fun _ => trivial⟩
  | cons c cs ih =>
    rintro g ⟨hen, haudit, hrest⟩
    obtain ⟨hle, hlegal⟩ := ih (exec g c) hrest
    have hdue : (due g (c :: cs)).length = (applied g c).length + (due (exec g c) cs).length := by simp [due, changes]
    have hrun : (sys store).run (c :: cs) g = (sys store).run cs (exec g c) := rfl
    rw [hrun, hdue]
    rcases exec_controls g c haudit with ⟨-, own, hcontrols⟩ | ⟨hno, hcontrols⟩
    · have hlen := congrArg List.length hcontrols
      simp only [List.length_append, List.length_map, List.length_singleton] at hlen
      exact ⟨by omega, fun heq => by omega⟩
    · have hlen := congrArg List.length hcontrols
      simp only [List.length_append, List.length_map] at hlen
      exact ⟨by omega, fun heq => ⟨hen, hno, hlegal (by omega)⟩⟩

/-- **The audit log has one control entry for each state change, in the name of who caused it, exactly in the runs in
which no operator's command is accepted.** -/
theorem audit_attributed (store : Store) (cs : List Call) (h : (sys store).Legal Audited cs (.start store)) :
    ((sys store).run cs (.start store)).store.controls.Perm (store.controls ++ due (.start store) cs) ↔
      (sys store).Legal Unattended cs (.start store) := by
  constructor
  · intro hperm
    have hlen := hperm.length_eq
    rw [List.length_append] at hlen
    exact (length_controls store cs (.start store) h).2 hlen
  · intro hno
    rw [controls_of_unattended store cs (.start store) h hno]
    exact .refl _

/-- The flood gate is configured; then everything is driven to failsafe. -/
def standby : List Call :=
  [.setSpecs [Server.floodGate] (fun _ => false) ["flood-gate"], .driveAllFailsafe "shutdown" (fun _ => false) ["flood-gate"]]

theorem ranges_floodGate : Ranges (Daemon.enabledSpecs [Server.floodGate]) ["flood-gate"] := by
  refine ⟨by decide, fun k => ?_⟩
  by_cases hk : k = "flood-gate"
  · subst hk
    decide
  · simp [Daemon.enabledSpecs, indexBy, Server.floodGate, hk]

theorem audit_attributed_standby :
    ((sys {}).run standby (.start {})).store.controls.Perm [⟨"policy", "control:closed", "flood-gate"⟩] := by
  have hlegal : (sys {}).Legal Audited standby (.start {}) :=
    ⟨⟨by decide, ranges_floodGate⟩, trivial, ranges_floodGate, trivial, trivial⟩
  have hno : (sys {}).Legal Unattended standby (.start {}) :=
    ⟨⟨by decide, ranges_floodGate⟩, rfl, ranges_floodGate, rfl, trivial⟩
  have hdue : due (.start {}) standby = [⟨"policy", "control:closed", "flood-gate"⟩] := by decide
  have hperm := (audit_attributed {} standby hlegal).2 hno
  rwa [hdue] at hperm

/-- **An operator opens the flood gate: the log has the policy do it, too.** -/
theorem operator_command_audited_twice :
    ¬ ∀ (store : Store) (cs : List Call), (sys store).Legal Audited cs (.start store) →
      ((sys store).run cs (.start store)).store.controls.Perm (store.controls ++ due (.start store) cs) := by
  intro h
  have hlegal : (sys {}).Legal Audited Server.openGate (.start {}) :=
    ⟨⟨by decide, ranges_floodGate⟩, trivial, trivial, rfl, trivial⟩
  have hlen := (h {} Server.openGate hlegal).length_eq
  exact absurd hlen (by decide)

end Main

end Gateway
end FloodEws
