import FloodEws.Runs
import FloodEws.Store
/-!
# Api — the gateway call by call

The gateway as its callers see it: advisories from the pollers and the uplink, new rules and specifications, the
operator's requests on `/v1/control` and the drives to failsafe, one call after the other.

External data is advisory: nothing reaches a device but what a specification calls safe, what an operator asked for, or
what an enabled rule allows without one (`actuation_provenance`).
-/
namespace FloodEws
namespace Gateway

structure Server where
  engine : Engine
  daemon : Daemon
  store : Store

structure ActuateRequest where
  actuatorId : String
  targetState : String
  reason : String := ""

/-- Which steps of an approval fail: reading the item, the backend, the two halves of `ResolvePending`, the audit entry. -/
structure ApproveFaults where
  get : Bool := false
  apply : Bool := false
  check : Bool := false
  update : Bool := false
  record : Bool := false

namespace Server

def submitAdvisory (g : Server) (f : Faults) (a : Advisory) : Server :=
  let w := (g.engine.evaluate f a ⟨g.daemon, g.store.queue⟩).2
  { g with daemon := w.daemon, store := { g.store with queue := w.queue } }

/-- `Engine.ApprovePending`. -/
def approvePending (g : Server) (fails : Bool) (actuatorId targetState reason corr : String) :
    Except ActuatorError Result × Server :=
  let (res, daemon) := g.daemon.execute fails ⟨actuatorId, targetState, reason, corr⟩
  (res, { g with daemon := daemon })

/-- The status a handler replies with when the queue refuses. -/
def pendingErr : StoreError → Nat
  | .pendingNotFound => 404
  | .alreadyResolved => 409
  | _ => 500

/-- `ResolvePending`, both halves in one go. -/
def resolvePending (g : Server) (f : ApproveFaults) (id : Nat) (status : QueueStatus) (actor : String) :
    Except StoreError Unit × Server :=
  match g.store.resolveCheck f.check id status with
  | .error e => (.error e, g)
  | .ok _ =>
    let (res, store) := g.store.resolveUpdate f.update id status actor
    (res, { g with store := store })

/-- The operator's override; `now` is the time as it is formatted.  The reply is the HTTP status. -/
def handleActuate (g : Server) (f : ApproveFaults) (actor now : String) (req : ActuateRequest) : Nat × Server :=
  let reason := if req.reason = "" then "manual:" ++ actor else req.reason
  match g.approvePending f.apply req.actuatorId req.targetState reason ("manual@" ++ now) with
  | (.error _, g) => (400, g)
  | (.ok _, g) => (200, { g with store := g.store.recordControlAction f.record actor req.actuatorId req.targetState })

def handleApprovePending (g : Server) (f : ApproveFaults) (id : Nat) (actor : String) : Nat × Server :=
  match g.store.getPending f.get id with
  | .error e => (pendingErr e, g)
  | .ok item =>
    if item.status ≠ .pending then (pendingErr .alreadyResolved, g)
    else if item.actuatorId = "" then
      match g.resolvePending f id .approved actor with
      | (.error e, g) => (pendingErr e, g)
      | (.ok _, g) => (200, g)
    else match g.approvePending f.apply item.actuatorId item.targetState ("operator_approved:" ++ actor)
        ("pending@" ++ toString id) with
      | (.error _, g) => (400, g)
      | (.ok _, g) =>
        -- What `ResolvePending` returns is only logged.
        let g := (g.resolvePending f id .approved actor).2
        (200, { g with store := g.store.recordControlAction f.record actor item.actuatorId item.targetState })

def handleRejectPending (g : Server) (f : ApproveFaults) (id : Nat) (actor : String) : Nat × Server :=
  match g.resolvePending f id .rejected actor with
  | (.error e, g) => (pendingErr e, g)
  | (.ok _, g) => (200, g)

end Server

/-- A call of the gateway, with what the environment decides in it.  The sort in `SetRules` is not stable: `engine` is
what it leaves. -/
inductive Call where
  | submitAdvisory (f : Faults) (a : Advisory)
  | setRules (rules : List Rule) (engine : Engine)
  | setSpecs (specs : List Spec) (fails : String → Bool) (order : List String)
  | actuate (f : ApproveFaults) (actor now : String) (req : ActuateRequest)
  | approve (f : ApproveFaults) (id : Nat) (actor : String)
  | reject (f : ApproveFaults) (id : Nat) (actor : String)
  | driveAllFailsafe (reason : String) (fails : String → Bool) (order : List String)

namespace Server

def exec (g : Server) : Call → Server
  | .submitAdvisory f a => g.submitAdvisory f a
  | .setRules _ engine => { g with engine := engine }
  | .setSpecs specs fails order => { g with daemon := g.daemon.setSpecs specs fails order }
  | .actuate f actor now req => (g.handleActuate f actor now req).2
  | .approve f id actor => (g.handleApprovePending f id actor).2
  | .reject f id actor => (g.handleRejectPending f id actor).2
  | .driveAllFailsafe reason fails order => { g with daemon := g.daemon.driveAllFailsafe reason fails order }

/-- `SetSpecs` is given what the store has accepted; the loops come to each key of their map once. -/
def enabled (g : Server) : Call → Prop
  | .setRules rules engine => engine.rules.Perm rules
  | .setSpecs specs _ order =>
    (∀ s ∈ specs, validateActuator s = .ok ()) ∧ Ranges (Daemon.enabledSpecs specs) order
  | .driveAllFailsafe _ _ order => Ranges g.daemon.specs order
  | _ => True

/-- The gateway as it comes up: no rules, no specifications, any content of the database. -/
def start (store : Store) : Server where
  engine := .empty
  daemon := { specs := fun _ => none, state := fun _ => none }
  store := store

def sys (store : Store) : Sys Server Call where
  init := start store
  enabled := enabled
  exec := exec

/-! ## Where a command comes from -/

/-- Why the backend was asked `a` in a call made in the state `g`. -/
inductive Provenance (g : Server) : Call → Apply → Prop where
  | initialised {specs : List Spec} {fails : String → Bool} {order : List String} {a : Apply} {spec : Spec}
      (hmem : spec ∈ specs) (henabled : spec.enabled = true) (hid : spec.id = a.actuatorId)
      (hstate : a.state = spec.failsafeState) : Provenance g (.setSpecs specs fails order) a
  | failsafe {reason : String} {fails : String → Bool} {order : List String} {a : Apply} {spec : Spec}
      (hspec : g.daemon.specs a.actuatorId = some spec) (hstate : a.state = spec.failsafeState) :
      Provenance g (.driveAllFailsafe reason fails order) a
  | actuated {f : ApproveFaults} {actor now : String} {req : ActuateRequest} {a : Apply}
      (hid : a.actuatorId = req.actuatorId) (hstate : a.state = req.targetState)
      (haccepts : g.daemon.Accepts a.actuatorId a.state) : Provenance g (.actuate f actor now req) a
  | approved {f : ApproveFaults} {id : Nat} {actor : String} {a : Apply} {item : QueuedAdvisory}
      (hitem : g.store.row id = some item) (hpending : item.status = .pending) (hid : a.actuatorId = item.actuatorId)
      (hstate : a.state = item.targetState) (haccepts : g.daemon.Accepts a.actuatorId a.state) :
      Provenance g (.approve f id actor) a
  | rule {f : Faults} {adv : Advisory} {a : Apply} {r : Rule} (hmem : r ∈ g.engine.rules) (henabled : r.enabled = true)
      (hmatches : r.matches adv = true) (hdisposition : r.disposition ≠ .operatorApproved)
      (hid : a.actuatorId = r.actuatorId) (hstate : a.state = r.targetState)
      (haccepts : g.daemon.Accepts a.actuatorId a.state) : Provenance g (.submitAdvisory f adv) a

theorem enabled_of_matches {r : Rule} {a : Advisory} (h : r.matches a = true) : r.enabled = true := by
  cases he : r.enabled with
  | true => rfl
  | false => simp [Rule.matches, he] at h

/-- **What one rule asks of the backend.** -/
theorem evaluateRule_asked (f : Faults) (a : Advisory) (k : Nat) (r : Rule) (e : Evaluation) :
    (evaluateRule f a k r e).2.world.daemon.specs = e.world.daemon.specs ∧
    Daemon.Asked (fun p => r.matches a = true ∧ r.disposition ≠ .operatorApproved ∧ p.actuatorId = r.actuatorId ∧
        p.state = r.targetState ∧ e.world.daemon.Accepts p.actuatorId p.state)
      e.world.daemon (evaluateRule f a k r e).2.world.daemon := by
  unfold evaluateRule
  split
  · exact ⟨rfl, .refl _⟩
  rename_i hm
  have hm : r.matches a = true := by simpa using hm
  split
  · exact ⟨rfl, .refl _⟩
  split
  · exact ⟨rfl, .refl _⟩
  split
  · exact ⟨rfl, .refl _⟩
  split
  · exact ⟨rfl, .refl _⟩
  split
  · exact ⟨rfl, .refl _⟩
  split
  · split
    · exact ⟨rfl, .refl _⟩
    · exact ⟨rfl, .refl _⟩
  · rename_i hd
    have hasked := (e.world.daemon.execute_asked (f.apply k) (r.command a)).mono
      (Q := fun p => r.matches a = true ∧ r.disposition ≠ .operatorApproved ∧ p.actuatorId = r.actuatorId ∧
        p.state = r.targetState ∧ e.world.daemon.Accepts p.actuatorId p.state) (by
        rintro p ⟨hid, hstate, haccepts⟩
        rw [hid, hstate]
        exact ⟨hm, hd, rfl, rfl, haccepts⟩)
    have hspecs := (e.world.daemon.execute_frame (f.apply k) (r.command a)).1
    cases hx : e.world.daemon.execute (f.apply k) (r.command a) with
    | mk res d =>
      rw [hx] at hasked hspecs
      cases res with
      | error err => exact ⟨hspecs, hasked⟩
      | ok res => exact ⟨hspecs, hasked⟩

/-- **What an evaluation asks of the backend.** -/
theorem evaluateFrom_asked (f : Faults) (a : Advisory) (rules : List Rule) :
    ∀ (k : Nat) (e : Evaluation),
      (evaluateFrom f a k rules e).2.world.daemon.specs = e.world.daemon.specs ∧
      Daemon.Asked (fun p => ∃ r ∈ rules, r.matches a = true ∧ r.disposition ≠ .operatorApproved ∧
          p.actuatorId = r.actuatorId ∧ p.state = r.targetState ∧ e.world.daemon.Accepts p.actuatorId p.state)
        e.world.daemon (evaluateFrom f a k rules e).2.world.daemon := by
  induction rules with
  | nil => exact fun k e => ⟨rfl, .refl _⟩
  | cons r rules ih =>
    intro k e
    obtain ⟨hspecs, hasked⟩ := evaluateRule_asked f a k r e
    obtain ⟨hspecs', hasked'⟩ := ih (k + 1) (evaluateRule f a k r e).2
    refine ⟨hspecs'.trans hspecs, (hasked.mono ?_).trans (hasked'.mono ?_)⟩
    · exact fun p hp => ⟨r, List.mem_cons_self, hp⟩
    · rintro p ⟨r', hr', hm, hd, hid, hstate, haccepts⟩
      unfold Daemon.Accepts at haccepts ⊢
      rw [hspecs] at haccepts
      exact ⟨r', List.mem_cons_of_mem _ hr', hm, hd, hid, hstate, haccepts⟩

theorem approvePending_asked (g : Server) (fails : Bool) (actuatorId targetState reason corr : String) :
    (g.approvePending fails actuatorId targetState reason corr).2.daemon.specs = g.daemon.specs ∧
    Daemon.Asked (fun p => p.actuatorId = actuatorId ∧ p.state = targetState ∧ g.daemon.Accepts p.actuatorId p.state)
      g.daemon (g.approvePending fails actuatorId targetState reason corr).2.daemon := by
  refine ⟨(g.daemon.execute_frame fails _).1, (g.daemon.execute_asked fails _).mono ?_⟩
  rintro p ⟨hid, hstate, haccepts⟩
  exact ⟨hid, hstate, by rw [hid, hstate]; exact haccepts⟩

@[simp] theorem resolvePending_daemon (g : Server) (f : ApproveFaults) (id : Nat) (status : QueueStatus) (actor : String) :
    (g.resolvePending f id status actor).2.daemon = g.daemon := by
  unfold resolvePending
  split <;> rfl

/-- **A manual command reaches the daemon as it is**, and nothing else does. -/
theorem handleActuate_daemon (g : Server) (f : ApproveFaults) (actor now : String) (req : ActuateRequest) :
    ∃ reason corr, (g.handleActuate f actor now req).2.daemon =
      (g.approvePending f.apply req.actuatorId req.targetState reason corr).2.daemon := by
  refine ⟨if req.reason = "" then "manual:" ++ actor else req.reason, "manual@" ++ now, ?_⟩
  unfold handleActuate
  dsimp only
  split
  · rename_i h
    rw [h]
  · rename_i h
    rw [h]

/-- **An approval reaches the daemon only with the action of a pending item.** -/
theorem handleApprovePending_daemon (g : Server) (f : ApproveFaults) (id : Nat) (actor : String) :
    (g.handleApprovePending f id actor).2.daemon = g.daemon ∨
    ∃ item reason corr, g.store.row id = some item ∧ item.status = .pending ∧
      (g.handleApprovePending f id actor).2.daemon =
        (g.approvePending f.apply item.actuatorId item.targetState reason corr).2.daemon := by
  unfold handleApprovePending
  split
  · exact .inl rfl
  rename_i item hget
  split
  · exact .inl rfl
  rename_i hstatus
  split
  · left
    have hdaemon := g.resolvePending_daemon f id .approved actor
    split
    · rename_i h
      rw [h] at hdaemon
      exact hdaemon
    · rename_i h
      rw [h] at hdaemon
      exact hdaemon
  · refine .inr ⟨item, "operator_approved:" ++ actor, "pending@" ++ toString id, Store.getPending_ok hget,
      by simpa using hstatus, ?_⟩
    split
    · rename_i h
      rw [h]
    · rename_i h
      rw [h]
      simp

theorem handleRejectPending_daemon (g : Server) (f : ApproveFaults) (id : Nat) (actor : String) :
    (g.handleRejectPending f id actor).2.daemon = g.daemon := by
  have hdaemon := g.resolvePending_daemon f id .rejected actor
  unfold handleRejectPending
  split
  · rename_i h
    rw [h] at hdaemon
    exact hdaemon
  · rename_i h
    rw [h] at hdaemon
    exact hdaemon

/-- **What a call asks of the backend has a provenance**, and every specification stays under its own id. -/
theorem exec_asked {g : Server} (hg : g.daemon.Keyed) (c : Call) :
    (g.exec c).daemon.Keyed ∧ Daemon.Asked (Provenance g c) g.daemon (g.exec c).daemon := by
  have hkeyed : ∀ d : Daemon, d.specs = g.daemon.specs → d.Keyed := by
    intro d hd id spec hspec
    rw [hd] at hspec
    exact hg id spec hspec
  cases c with
  | submitAdvisory f a =>
    obtain ⟨hspecs, hasked⟩ := evaluateFrom_asked f a g.engine.rules 0 { world := ⟨g.daemon, g.store.queue⟩ }
    refine ⟨hkeyed _ hspecs, hasked.mono ?_⟩
    rintro p ⟨r, hr, hm, hd, hid, hstate, haccepts⟩
    exact .rule hr (enabled_of_matches hm) hm hd hid hstate haccepts
  | setRules rules engine => exact ⟨hg, .refl _⟩
  | setSpecs specs fails order =>
    refine ⟨g.daemon.setSpecs_keyed specs fails order, (g.daemon.setSpecs_asked specs fails order).mono ?_⟩
    rintro p ⟨spec, hmem, hen, hid, hstate⟩
    exact .initialised hmem hen hid hstate
  | actuate f actor now req =>
    obtain ⟨reason, corr, hdaemon⟩ := g.handleActuate_daemon f actor now req
    obtain ⟨hspecs, hasked⟩ := g.approvePending_asked f.apply req.actuatorId req.targetState reason corr
    simp only [exec]
    rw [hdaemon]
    refine ⟨hkeyed _ hspecs, hasked.mono ?_⟩
    rintro p ⟨hid, hstate, haccepts⟩
    exact .actuated hid hstate haccepts
  | approve f id actor =>
    simp only [exec]
    rcases g.handleApprovePending_daemon f id actor with hdaemon | ⟨item, reason, corr, hitem, hpending, hdaemon⟩
    · rw [hdaemon]
      exact ⟨hg, .refl _⟩
    · obtain ⟨hspecs, hasked⟩ := g.approvePending_asked f.apply item.actuatorId item.targetState reason corr
      rw [hdaemon]
      refine ⟨hkeyed _ hspecs, hasked.mono ?_⟩
      rintro p ⟨hid, hstate, haccepts⟩
      exact .approved hitem hpending hid hstate haccepts
  | reject f id actor =>
    simp only [exec]
    rw [handleRejectPending_daemon]
    exact ⟨hg, .refl _⟩
  | driveAllFailsafe reason fails order =>
    refine ⟨hkeyed _ (g.daemon.driveAllFailsafe_specs reason fails order),
      (Daemon.driveAllFailsafe_asked hg reason fails order).mono ?_⟩
    rintro p ⟨spec, hspec, hstate⟩
    exact .failsafe hspec hstate

theorem keyed {store : Store} {g : Server} (h : (sys store).Reachable Sys.always g) : g.daemon.Keyed :=
  h.invariant (P := fun g => g.daemon.Keyed) (fun _ _ hspec => by cases hspec) (fun _ c hg _ _ => (exec_asked hg c).1)

/-- **Nothing but a safe state, an operator's request or an enabled rule reaches a device.**  Each command the backend
was given in a run (`older` are those before it) was given in a call of that run and has its provenance there. -/
theorem actuation_provenance {store : Store} {g : Server} (h : (sys store).Reachable Sys.always g) {a : Apply}
    {newer older : List Apply} (ha : g.daemon.applies = newer ++ a :: older) :
    ∃ g' c, (sys store).Reachable Sys.always g' ∧ g'.enabled c ∧ (sys store).Reaches Sys.always (g'.exec c) g ∧
      g'.daemon.applies <:+ older ∧ a :: older <:+ (g'.exec c).daemon.applies ∧ Provenance g' c a := by
  induction h generalizing newer with
  | refl => simp [sys, start] at ha
  | @tail b _ hb hs ih =>
    obtain ⟨c, he, hk, rfl⟩ := hs
    obtain ⟨-, new, hnew, hP⟩ := exec_asked (keyed hb) c
    have ha : new ++ b.daemon.applies = newer ++ a :: older := hnew.symm.trans ha
    -- Either the command is among those of the last call, or it was there before.
    rcases List.append_eq_append_iff.1 ha with ⟨mid, hnewer, hold⟩ | ⟨mid, hsplit, hold⟩
    · obtain ⟨g', c', h1, h2, h3, h4⟩ := ih hold
      exact ⟨g', c', h1, h2, .tail h3 ⟨c, he, hk, rfl⟩, h4⟩
    · cases mid with
      | nil =>
        obtain ⟨g', c', h1, h2, h3, h4⟩ := ih (show b.daemon.applies = [] ++ a :: older by simpa using hold.symm)
        exact ⟨g', c', h1, h2, .tail h3 ⟨c, he, hk, rfl⟩, h4⟩
      | cons a' mid =>
        obtain ⟨rfl, rfl⟩ := List.cons.inj hold
        refine ⟨b, c, hb, he, .refl, ⟨mid, rfl⟩, ⟨newer, ?_⟩, hP _ (by rw [hsplit]; simp)⟩
        exact (hnew.trans ha).symm

def floodGate : Spec where
  id := "flood-gate"
  states := ["closed", "open"]
  failsafeState := "closed"

/-- The gate is configured and an operator opens it. -/
def openGate : List Call :=
  [.setSpecs [floodGate] (fun _ => false) ["flood-gate"],
    .actuate {} "local" "noon" { actuatorId := "flood-gate", targetState := "open" }]

theorem actuation_provenance_openGate :
    ∃ g' c, (sys {}).Reachable Sys.always g' ∧ g'.enabled c ∧
      (sys {}).Reaches Sys.always (g'.exec c) ((sys {}).run openGate (start {})) ∧
      g'.daemon.applies <:+ [⟨"flood-gate", "closed", false⟩] ∧
      [⟨"flood-gate", "open", false⟩, ⟨"flood-gate", "closed", false⟩] <:+ (g'.exec c).daemon.applies ∧
      Provenance g' c ⟨"flood-gate", "open", false⟩ := by
  have hranges : Ranges (Daemon.enabledSpecs [floodGate]) ["flood-gate"] := by
    refine ⟨by decide, fun k => ?_⟩
    by_cases hk : k = "flood-gate"
    · subst hk
      decide
    · simp [Daemon.enabledSpecs, indexBy, floodGate, hk]
  have hrun : (sys {}).Reachable Sys.always ((sys {}).run openGate (start {})) :=
    Sys.reaches_run openGate (start {}) ⟨⟨by decide, hranges⟩, trivial, trivial, trivial, trivial⟩
  exact @actuation_provenance {} _ hrun _ [] _ (by decide)

end Server

end Gateway
end FloodEws
