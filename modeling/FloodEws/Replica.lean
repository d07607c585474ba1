import FloodEws.Alike
import FloodEws.Egress
/-!
# Replica — what the applications make of one log

Above the engine of each fog node stands an `Application`.  It is told of every entry that is applied: a record goes to
the tracker of the `EgressCoordinator`, a batch may turn the alert on or off and is then sent on by the leader.  What the
trackers hold, whether an alert is active and which alerts were sent follow from the applied entries alone, so of two
nodes of the fleet the one that is behind has sent the beginning of the alerts of the other, and nodes that have applied
equally much hold the same (`replicas_agree`).

What the coordinator submits from inside a callback is among the answers of the step.  A node that loses power inside a
task has been told of the callbacks until then, and builds its application anew when it boots.
-/
namespace FloodEws

open Layout (number)
open Raft (Byte word)

namespace Egress.EgressRecord

/-! ## A record as data of an entry -/

/-- The fields of `EgressRecord`. -/
def fields : List (Nat × Nat) := [Ingress.u64, Ingress.u32, Ingress.u8]

def values (r : EgressRecord) : List (List Byte) :=
  [word 8 r.batchLogIndex, word 4 r.seq, word 1 (match r.phase with | .started => 0 | .sent => 1)]

def image (gap : Nat → Byte) (r : EgressRecord) : List Byte := Layout.image gap fields r.values

/-- `std::memcpy(&egr, &entry.m_data, sizeof(egr))`.  A phase that is no enumerator is not `STARTED`. -/
def read (bytes : List Byte) : EgressRecord :=
  { batchLogIndex := number (Layout.field fields 0 bytes)
    seq := number (Layout.field fields 1 bytes)
    phase := if number (Layout.field fields 2 bytes) = 0 then .started else .sent }

/-- `sizeof(EgressRecord)`. -/
def size : Nat := Layout.structSize fields

/-- Its numbers fit their words. -/
def Small (r : EgressRecord) : Prop := r.batchLogIndex < 2 ^ 64 ∧ r.seq < 2 ^ 32

theorem fits (r : EgressRecord) : Layout.Fits fields r.values := by
  simp [Layout.Fits, fields, values, Ingress.u64, Ingress.u32, Ingress.u8]

theorem length_image (gap : Nat → Byte) (r : EgressRecord) : (r.image gap).length = size :=
  Layout.length_image gap r.fits

/-- **A record is read back from the log.** -/
theorem read_image (gap : Nat → Byte) {r : EgressRecord} (h : r.Small) : read (r.image gap) = r := by
  have hread : ∀ i bytes, r.values[i]? = some bytes → Layout.field fields i (r.image gap) = bytes :=
    fun i bytes hb => Layout.field_image gap r.fits hb
  obtain ⟨batchLogIndex, seq, phase⟩ := r
  unfold read
  rw [hread 0 _ rfl, hread 1 _ rfl, hread 2 _ rfl, Raft.number_word8 h.1, Raft.number_word4 h.2]
  cases phase <;> rfl

end Egress.EgressRecord

namespace Raft

open Egress (EgressRecord EgressTracker EgressCoordinator)

/-! ## `SensorBatch` -/

/-- The fields of `SensorBatch`: three readings, their count, and whether an alert is active. -/
def batchFields : List (Nat × Nat) := [Ingress.array 3 (Ingress.readingSize, 8), Ingress.u8, Ingress.u8]

/-- `sizeof(batch::SensorBatch)`. -/
def batchSize : Nat := Layout.structSize batchFields

/-- `m_alert_active` of the batch in the data of an entry, whose tail is zero. -/
def batchAlert (data : List Byte) : Bool := readFlag (Layout.field batchFields 2 (fixed 96 data))

/-! ## `Application` -/

def alertTimeoutMs : Nat := 30000
def defaultTimeoutMs : Nat := 300000

/-- `Alert::AlertPacket`. -/
structure AlertPacket where
  alertIntervalMs : Nat
  alertActive : Bool
deriving DecidableEq

/-- The application of a node: `window` is the collection window of its vote service, `alerts` is what it has handed to
`send_alert`, newest first. -/
structure Application where
  coordinator : EgressCoordinator 4 := ⟨.empty 4 (by decide), []⟩
  alertActive : Bool := false
  window : Nat := defaultTimeoutMs
  alerts : List AlertPacket := []

namespace Application

/-- `check_alert`. -/
def checkAlert (entry : Entry) (app : Application) : Application :=
  let active := batchAlert entry.data
  if active = app.alertActive then app
  else if active then
    { app with alertActive := active, alerts := ⟨alertTimeoutMs, true⟩ :: app.alerts, window := alertTimeoutMs }
  else { app with alertActive := active, alerts := ⟨0, false⟩ :: app.alerts, window := defaultTimeoutMs }

def onApply (hooks : Egress.Hooks) (entry : Entry) (app : Application) : Application :=
  match entry.type with
  | .egressMsg =>
    if entry.dataLen = EgressRecord.size then
      { app with coordinator := app.coordinator.onEgressApplied (.read entry.data) }
    else app
  | .sensorData =>
    let app := app.checkAlert entry
    { app with coordinator := app.coordinator.beginEgress batchSize hooks entry.index }
  | .noop => app

/-- The callbacks of the engine that reach the application: `on_apply`, and the state change. -/
def callback (hooks : Egress.Hooks) (app : Application) : Event → Application
  | .apply _ entry => app.onApply hooks entry
  | .onStateChange _ new =>
    if new = .leader then { app with coordinator := app.coordinator.onBecameLeader batchSize hooks } else app
  | _ => app

/-- The callbacks of a step, the newest of which come first.  The hooks may answer each of them differently. -/
def feed (hooks : Nat → Egress.Hooks) : List Event → Application → Application
  | [], app => app
  | ev :: evs, app => (feed hooks evs app).callback (hooks evs.length) ev

/-- The callback of `m_alert_service`: an alert that came in, unless this node leads. -/
def onAlert (isLeader : Bool) (alert : AlertPacket) (app : Application) : Application :=
  if isLeader then app
  else if alert.alertActive then { app with window := alert.alertIntervalMs }
  else { app with window := defaultTimeoutMs }

end Application

/-! ## The fog nodes -/

/-- The fleet, with an application on each engine. -/
structure Fog where
  fleet : Fleet
  app : Nat → Application

/-- A step of the fleet with the answers of the hooks, or an alert that comes in at a node. -/
inductive FogAction where
  | step (a : FleetAction) (hooks : Nat → Egress.Hooks)
  | alert (n : Nat) (packet : AlertPacket)

/-- The node that runs a task in the step. -/
def FleetAction.node : FleetAction → Option Nat
  | .boot n _ => some n
  | .task n _ _ _ => some n
  | .deliver _ => none

/-- The application before the step: a node that boots builds it anew. -/
def Fog.before (x : Fog) : FleetAction → Nat → Application
  | .boot _ _, _ => {}
  | _, n => x.app n

/-- The applications after a step that takes the fleet to `F`. -/
def Fog.told (x : Fog) (hooks : Nat → Egress.Hooks) (a : FleetAction) (F : Fleet) : Nat → Application :=
  match a.node with
  | none => x.app
  | some n =>
    let new := newEvents (x.fleet.node n).server.calls (F.node n).server.calls
    Function.update x.app n (Application.feed hooks new (x.before a n))

namespace Deployment

variable (D : Deployment)

def fog : Sys Fog FogAction where
  init := { fleet := D.sys.init, app := fun _ => {} }
  enabled x
    | .step a _ => D.sys.enabled x.fleet a
    | .alert _ _ => True
  exec x
    | .step a hooks => { fleet := D.sys.exec x.fleet a, app := x.told hooks a (D.sys.exec x.fleet a) }
    | .alert n packet =>
      let leads := decide ((x.fleet.node n).server.state = .leader)
      { x with app := Function.update x.app n ((x.app n).onAlert leads packet) }

/-- The steps of the fleet meet `ok`. -/
def FogMeets (ok : Cluster → NestedAct → Prop) (x : Fog) : FogAction → Prop
  | .step a _ => D.Meets ok x.fleet a
  | .alert _ _ => True

end Deployment

/-! ## What the applied entries decide -/

/-- The hooks of a node that never leads. -/
def deaf : Egress.Hooks where
  isLeader := false
  submitEgress _ := false
  readEntry _ := none
  read_index _ _ h := by cases h

namespace Application

/-- An application that is told of these entries, the newest of which come first, and of nothing else. -/
def replay (es : List Entry) (app : Application) : Application := es.foldr (fun e app => app.onApply deaf e) app

/-- Two applications hold the same, but for the next seq and the collection window. -/
structure Same (p q : Application) : Prop where
  slots : p.coordinator.tracker.slots = q.coordinator.tracker.slots
  head : p.coordinator.tracker.head = q.coordinator.tracker.head
  alertActive : p.alertActive = q.alertActive
  alerts : p.alerts = q.alerts

theorem Same.refl (p : Application) : Same p p := ⟨rfl, rfl, rfl, rfl⟩

theorem Same.symm {p q : Application} (h : Same p q) : Same q p :=
  ⟨h.slots.symm, h.head.symm, h.alertActive.symm, h.alerts.symm⟩

theorem Same.trans {p q r : Application} (h : Same p q) (h' : Same q r) : Same p r :=
  ⟨h.slots.trans h'.slots, h.head.trans h'.head, h.alertActive.trans h'.alertActive, h.alerts.trans h'.alerts⟩

end Application

end Raft

namespace Egress

variable {cap : Nat}

/-- What a record does to the ring depends on the ring alone. -/
theorem EgressTracker.onApply_congr {t t' : EgressTracker cap} (hs : t.slots = t'.slots) (hh : t.head = t'.head)
    (rec : EgressRecord) :
    (t.onApply rec).slots = (t'.onApply rec).slots ∧ (t.onApply rec).head = (t'.onApply rec).head := by
  obtain ⟨slots, head, nextSeq⟩ := t
  obtain ⟨slots', head', nextSeq'⟩ := t'
  obtain rfl : slots = slots' := hs
  obtain rfl : head = head' := hh
  have hslot : ∀ n, EgressTracker.slotOf rec.seq ⟨slots, head, n⟩ = EgressTracker.slotOf rec.seq ⟨slots, head, 0⟩ :=
    fun _ => rfl
  unfold EgressTracker.onApply
  simp only [hslot]
  cases EgressTracker.slotOf rec.seq ⟨slots, head, 0⟩ <;> exact ⟨rfl, rfl⟩

theorem EgressTracker.outstanding_head (t : EgressTracker cap) : t.outstanding.2.head = t.head := by
  unfold outstanding
  split <;> rfl

namespace EgressCoordinator

variable (size : Nat) (hooks : Hooks)

theorem beginEgress_tracker (index : Nat) (c : EgressCoordinator cap) :
    (c.beginEgress size hooks index).tracker = c.tracker := by
  unfold EgressCoordinator.beginEgress
  split
  · rfl
  · dsimp only
    split
    · rfl
    · exact dispatch_tracker size hooks _ _ _

/-- A node that becomes leader may set the next seq back, but leaves the ring. -/
theorem onBecameLeader_ring (c : EgressCoordinator cap) :
    (c.onBecameLeader size hooks).tracker.slots = c.tracker.slots ∧
      (c.onBecameLeader size hooks).tracker.head = c.tracker.head := by
  rw [onBecameLeader_eq]
  split
  · exact ⟨rfl, rfl⟩
  · rw [dispatch_tracker]
    exact ⟨c.tracker.outstanding_slots, c.tracker.outstanding_head⟩

end EgressCoordinator

end Egress

namespace Raft

open Egress (EgressRecord EgressTracker EgressCoordinator)

namespace Application

variable {p q : Application}

theorem Same.checkAlert (h : Same p q) (e : Entry) : Same (p.checkAlert e) (q.checkAlert e) := by
  unfold Application.checkAlert
  dsimp only
  rw [h.alertActive, h.alerts]
  split
  · exact h
  split
  · exact ⟨h.slots, h.head, rfl, rfl⟩
  · exact ⟨h.slots, h.head, rfl, rfl⟩

/-- **An entry does the same to both**, whether the node leads or not. -/
theorem Same.onApply (h : Same p q) (hooks hooks' : Egress.Hooks) (e : Entry) :
    Same (p.onApply hooks e) (q.onApply hooks' e) := by
  unfold Application.onApply
  cases e.type with
  | noop => exact h
  | egressMsg =>
    dsimp only
    split
    · obtain ⟨hslots, hhead⟩ := EgressTracker.onApply_congr h.slots h.head (.read e.data)
      exact ⟨hslots, hhead, h.alertActive, h.alerts⟩
    · exact h
  | sensorData =>
    have hcheck := h.checkAlert e
    refine ⟨?_, ?_, hcheck.alertActive, hcheck.alerts⟩
    · dsimp only
      rw [EgressCoordinator.beginEgress_tracker, EgressCoordinator.beginEgress_tracker]
      exact hcheck.slots
    · dsimp only
      rw [EgressCoordinator.beginEgress_tracker, EgressCoordinator.beginEgress_tracker]
      exact hcheck.head

/-- Any other callback leaves all this alone. -/
theorem same_callback (hooks : Egress.Hooks) (app : Application) {ev : Event} (h : ∀ i e, ev ≠ .apply i e) :
    Same (app.callback hooks ev) app := by
  cases ev with
  | apply i e => exact absurd rfl (h i e)
  | onStateChange old new =>
    unfold Application.callback
    dsimp only
    split
    · obtain ⟨hslots, hhead⟩ := EgressCoordinator.onBecameLeader_ring batchSize hooks app.coordinator
      exact ⟨hslots, hhead, rfl, rfl⟩
    · exact .refl app
  | _ => exact .refl app

/-- **The callbacks of a step do what the entries among them do.** -/
theorem Same.feed (h : Same p q) (hooks : Nat → Egress.Hooks) :
    ∀ evs : List Event, Same (Application.feed hooks evs p) (replay (appliedEntries evs) q)
  | [] => h
  | ev :: evs => by
    have ih := h.feed hooks evs
    cases ev with
    | apply i e => exact ih.onApply (hooks evs.length) deaf e
    | _ => exact (same_callback (hooks evs.length) _ (fun _ _ he => by cases he)).trans ih

theorem same_onAlert (isLeader : Bool) (packet : AlertPacket) (app : Application) :
    Same (app.onAlert isLeader packet) app := by
  unfold Application.onAlert
  split
  · exact .refl app
  · split <;> exact ⟨rfl, rfl, rfl, rfl⟩

end Application

/-! ## Runs -/

section

variable {D : Deployment} {F : Fleet} {x : Fog} {ok : Cluster → NestedAct → Prop}

/-- A record only grows, and only that of the node that runs a task. -/
theorem exec_calls {a : FleetAction} (hen : D.sys.enabled F a) (k : Nat) :
    ∃ evs, ((D.sys.exec F a).node k).server.calls = evs ++ (F.node k).server.calls ∧ (a.node ≠ some k → evs = []) := by
  have hnode : ∀ (n : Nat) (env : Env) (e : Engine), (∃ evs, e.server.calls = evs ++ (F.node n).server.calls) →
      ∃ evs, ((F.settle n env e).node k).server.calls = evs ++ (F.node k).server.calls ∧ (some n ≠ some k → evs = []) := by
    rintro n env e ⟨evs, hevs⟩
    by_cases hk : k = n
    · subst hk
      exact ⟨evs, by rw [settle_self]; exact hevs, fun hne => absurd rfl hne⟩
    · exact ⟨[], by rw [settle_other F hk]; rfl, fun _ => rfl⟩
  cases a with
  | boot n env =>
    have hrestored : (Engine.restored n (F.node n).load (F.node n).server.calls).calls = (F.node n).server.calls := rfl
    have hgrow : ∃ evs, (Manner.whole.after engineSetup n env.io .start
        (Engine.restored n (F.node n).load (F.node n).server.calls)).calls = evs ++ _ := Manner.after_grow .whole trivial
    obtain ⟨evs, hevs⟩ := hgrow
    exact hnode n env _ ⟨evs, hrestored ▸ hevs⟩
  | task n env t how =>
    obtain ⟨-, -, c, hc, hp⟩ := hen
    obtain ⟨evs, hevs⟩ := Manner.after_grow (S := engineSetup) (n := n) how hp
    exact hnode n env _ ⟨evs, (run_calls hc n env how).trans hevs⟩
  | deliver p =>
    refine ⟨[], ?_, fun _ => rfl⟩
    show ((D.sys.exec F (.deliver p)).node k).server.calls = (F.node k).server.calls
    cases hdecode : D.decode p with
    | none => simp only [Deployment.sys, hdecode]
    | some msg =>
      simp only [Deployment.sys, hdecode]
      by_cases hk : k = p.dest
      · rw [hk, Function.update_self, (Carried.receive_server msg _).1]
      · rw [Function.update_of_ne hk]

/-- A run of the fog nodes is one of their fleet. -/
theorem fog_fleet (h : D.fog.Reachable (D.FogMeets ok) x) : D.sys.Reachable (D.Meets ok) x.fleet :=
  (h.simulated Fog.fleet (P := fun _ => True) (fun y a _ hen hmeets => by
    cases a with
    | step a hooks => exact ⟨.single ⟨a, hen, hmeets, rfl⟩, trivial⟩
    | alert n packet => exact ⟨.refl, trivial⟩) trivial).1

end

/-- What a callback keeps, all of a step keep. -/
theorem Application.feed_keeps {P : EntryType → List Byte → Prop} {G : Egress.Hooks → Prop} {Q : Application → Prop}
    (hcallback : ∀ hooks ev app, G hooks → Q app → (∀ i e, ev = .apply i e → e.From P) → Q (app.callback hooks ev))
    (hooks : Nat → Egress.Hooks) (hhooks : ∀ k, G (hooks k)) {app : Application} (h : Q app) : ∀ evs : List Event,
    (∀ i e, .apply i e ∈ evs → e.From P) → Q (feed hooks evs app)
  | [], _ => h
  | ev :: evs, hevs => hcallback (hooks evs.length) ev _ (hhooks evs.length)
      (feed_keeps hcallback hooks hhooks h evs (fun i e he => hevs i e (List.mem_cons_of_mem ev he)))
      (fun i e he => hevs i e (he ▸ List.mem_cons_self))

/-- The ring of every node has only what was submitted. -/
theorem fog_plain {P : EntryType → List Byte → Prop} {D : Deployment} {x : Fog}
    (h : D.fog.Reachable (D.FogMeets (Nests fun c a => engineSetup.TermsFit c a ∧ Submits P a)) x) {n : Nat}
    (hn : n ∈ expectedEuis) : (x.fleet.node n).server.Plain P :=
  (Carried.reachable (blind_submits P) (fog_fleet h)).2.plain n hn

/-- **What holds of a new application, and is kept when it is told of an alert or of an entry that `P` allows, holds of
every application**, in every run whose nodes submit only what `P` allows.  `G` is what is known of the hooks. -/
theorem app_invariant {P : EntryType → List Byte → Prop} {G : Egress.Hooks → Prop} {Q : Application → Prop}
    {D : Deployment} {ok : Fog → FogAction → Prop}
    (hmeets : ∀ x a, ok x a → D.FogMeets (Nests fun c a => engineSetup.TermsFit c a ∧ Submits P a) x a)
    (hhooks : ∀ x a hooks n, D.fog.Reachable ok x → D.fog.enabled x (.step a hooks) → ok x (.step a hooks) →
      a.node = some n → n ∈ expectedEuis → ∀ k, G (hooks k))
    (hnew : Q {}) (halert : ∀ leads packet app, Q app → Q (Application.onAlert leads packet app))
    (hcallback : ∀ hooks ev app, G hooks → Q app → (∀ i e, ev = .apply i e → e.From P) → Q (app.callback hooks ev))
    {x : Fog} (h : D.fog.Reachable ok x) {n : Nat} (hn : n ∈ expectedEuis) : Q (x.app n) := by
  refine Sys.Reachable.invariant_with (P := fun x => ∀ n ∈ expectedEuis, Q (x.app n)) h (fun _ _ => hnew) ?_ n hn
  intro y act hreach hy hen hok k hk
  cases act with
  | alert n packet =>
    show Q (Function.update y.app n _ k)
    by_cases hkn : k = n
    · subst hkn
      rw [Function.update_self]
      exact halert _ packet _ (hy k hk)
    · rw [Function.update_of_ne hkn]
      exact hy k hk
  | step a hooks =>
    show Q (y.told hooks a (D.sys.exec y.fleet a) k)
    have hplain := fog_plain ((hreach.mono hmeets).trans (.single ⟨.step a hooks, hen, hmeets _ _ hok, rfl⟩)) hk
    obtain ⟨evs, hevs, -⟩ := exec_calls hen k
    have hfrom : ∀ i e, .apply i e ∈ evs → e.From P := by
      intro i e he
      have hmem : .apply i e ∈ ((D.sys.exec y.fleet a).node k).server.calls := by
        rw [hevs]
        exact List.mem_append_left _ he
      obtain ⟨j, e', hee, hfrom⟩ := hplain.fed _ (List.mem_filter.2 ⟨hmem, rfl⟩)
      cases hee
      exact hfrom
    have hbefore : Q (y.before a k) := by
      cases a with
      | boot n env => exact hnew
      | _ => exact hy k hk
    unfold Fog.told
    cases hnode : a.node with
    | none => exact hy k hk
    | some n =>
      dsimp only
      by_cases hkn : k = n
      · subst hkn
        rw [Function.update_self, newEvents_eq hevs]
        exact Application.feed_keeps hcallback hooks (hhooks y a hooks k hreach hen hok hnode hk) hbefore evs hfrom
      · rw [Function.update_of_ne hkn]
        exact hy k hk

/-! ## What a tracker holds was submitted -/

/-- A record of the ring goes back to records that `R` allows: one for its batch, one for its phase. -/
def Tracked (R : EgressRecord → Prop) (r : EgressRecord) : Prop :=
  (∃ r', R r' ∧ r'.seq = r.seq ∧ r'.batchLogIndex = r.batchLogIndex) ∧ ∃ r', R r' ∧ r'.seq = r.seq ∧ r'.phase = r.phase

/-- The data of a record that `R` allows, or another type of entry. -/
def RecordsOf (R : EgressRecord → Prop) (type : EntryType) (data : List Byte) : Prop :=
  type = .egressMsg → ∃ r gap, R r ∧ r.Small ∧ data = r.image gap

section

variable {R : EgressRecord → Prop}

theorem tracked_onApply {cap : Nat} {t : EgressTracker cap} (h : ∀ i r, t.slots i = some r → Tracked R r)
    {rec : EgressRecord} (hrec : R rec) : ∀ i r, (t.onApply rec).slots i = some r → Tracked R r := by
  intro i r hr
  rcases t.onApply_slots rec with ⟨-, hslots⟩ | ⟨j, old, hold, hseq, hslots⟩
  · rw [hslots] at hr
    by_cases hi : i = t.head
    · rw [hi, Function.update_self] at hr
      obtain rfl := Option.some.inj hr
      exact ⟨⟨rec, hrec, rfl, rfl⟩, rec, hrec, rfl, rfl⟩
    · rw [Function.update_of_ne hi] at hr
      exact h i r hr
  · rw [hslots] at hr
    by_cases hi : i = j
    · rw [hi, Function.update_self] at hr
      obtain rfl := Option.some.inj hr
      exact ⟨(h j old hold).1, rec, hrec, hseq.symm, rfl⟩
    · rw [Function.update_of_ne hi] at hr
      exact h i r hr

namespace Application

theorem tracked_callback {app : Application} (h : ∀ i r, app.coordinator.tracker.slots i = some r → Tracked R r)
    (hooks : Egress.Hooks) {ev : Event} (hev : ∀ i e, ev = .apply i e → e.From (RecordsOf R)) :
    ∀ i r, (app.callback hooks ev).coordinator.tracker.slots i = some r → Tracked R r := by
  cases ev with
  | apply k e =>
    show ∀ i r, (app.onApply hooks e).coordinator.tracker.slots i = some r → Tracked R r
    unfold Application.onApply
    cases htype : e.type with
    | noop => exact h
    | egressMsg =>
      dsimp only
      split
      · rcases hev k e rfl with ⟨hnoop, -⟩ | hrec
        · rw [htype] at hnoop
          cases hnoop
        · obtain ⟨r, gap, hr, hsmall, hdata⟩ := hrec htype
          rw [hdata, EgressRecord.read_image gap hsmall]
          exact tracked_onApply h hr
      · exact h
    | sensorData =>
      dsimp only
      rw [EgressCoordinator.beginEgress_tracker]
      unfold Application.checkAlert
      dsimp only
      split
      · exact h
      · split <;> exact h
  | onStateChange old new =>
    have hother : ∀ i e, Event.onStateChange old new ≠ .apply i e := fun _ _ he => by cases he
    rw [(same_callback hooks app hother).slots]
    exact h
  | _ => exact h

end Application

end

/-- **Whatever a tracker holds was submitted**: in every run whose nodes submit as records only the images of ones that
`R` allows, every slot of every tracker has its seq and batch from one such record, and its phase from another with the
same seq. -/
theorem tracked_was_submitted (R : EgressRecord → Prop) (D : Deployment) (x : Fog)
    (h : D.fog.Reachable (D.FogMeets (Nests fun c a => engineSetup.TermsFit c a ∧ Submits (RecordsOf R) a)) x) (n : Nat)
    (hn : n ∈ expectedEuis) (i : Fin 4) (r : EgressRecord) (hr : (x.app n).coordinator.tracker.slots i = some r) :
    (∃ r', R r' ∧ r'.seq = r.seq ∧ r'.batchLogIndex = r.batchLogIndex) ∧
      ∃ r', R r' ∧ r'.seq = r.seq ∧ r'.phase = r.phase := by
  refine app_invariant (P := RecordsOf R) (G := fun _ => True)
    (Q := fun app => ∀ i r, app.coordinator.tracker.slots i = some r → Tracked R r) (fun _ _ hmeets => hmeets)
    (fun _ _ _ _ _ _ _ _ _ _ => trivial) (fun i r hr => (by cases hr)) (fun leads packet app hq => ?_)
    (fun hooks ev app _ hq hev => Application.tracked_callback hq hooks hev) h hn i r hr
  rw [(Application.same_onAlert leads packet app).slots]
  exact hq

/-! ## A run written down -/

section

variable (ok : Cluster → NestedAct → Prop) [∀ c a, Decidable (ok c a)]

/-- Play a schedule with applications whose hooks are deaf. -/
def playFog : List FleetTurn → Fog → Fog
  | [], x => x
  | t :: ts, x => playFog ts (match x.fleet.action t with
    | some a => if openMesh.Meets ok x.fleet a then openMesh.fog.exec x (.step a (fun _ => deaf)) else x
    | none => x)

theorem reaches_playFog : ∀ (ts : List FleetTurn) (x : Fog),
    openMesh.fog.Reaches (openMesh.FogMeets ok) x (playFog ok ts x)
  | [], _ => .refl
  | t :: ts, x => by
    refine .trans ?_ (reaches_playFog ts _)
    split
    · rename_i a ha
      split
      · rename_i hmeets
        exact .single ⟨.step a _, action_enabled_fleet ha, hmeets, rfl⟩
      · exact .refl
    · exact .refl

end

/-- A batch without readings that turns the alert on. -/
def alertBatch : List Byte := Layout.image (fun _ => 0xAA) batchFields [List.replicate 72 0, word 1 0, flag true]

/-- The record that batch 2 is being sent under seq 7. -/
def startedSeven : EgressRecord := ⟨2, 7, .started⟩

/-- The first node is elected; the batch and then the record go through its log to the second one. -/
def raiseAlert : List FleetTurn :=
  let a := 0xf4ce360a4eac3643
  let b := 0xf4ce363a5c916092
  electFirst ++ [.submit a 6000 .sensorData alertBatch, .submit a 6000 .egressMsg (startedSeven.image (fun _ => 0xAA)),
    .deliver 1, .drain b 6000, .deliver 0, .drain a 6000, .tick a 9000, .deliver 1, .drain b 9000]

theorem fogMeets_mono {D : Deployment} {ok ok' : Cluster → NestedAct → Prop} (h : ∀ c a, ok c a → ok' c a) (x : Fog)
    (act : FogAction) (hmeets : D.FogMeets ok x act) : D.FogMeets ok' x act := by
  cases act with
  | step a hooks => exact ⟨hmeets.1.mono (fun a _ c => h c a), hmeets.2⟩
  | alert n packet => trivial

/-- In a run whose only record is `startedSeven`, the tracker of the second node has it, and it has nothing else. -/
theorem tracked_was_submitted_seven :
    let x := playFog (Nests fun c a => engineSetup.TermsFit c a ∧
      Submits (fun type data => type = .egressMsg → data = startedSeven.image (fun _ => 0xAA)) a) raiseAlert
      openMesh.fog.init
    (x.app 0xf4ce363a5c916092).coordinator.tracker.slots 0 = some startedSeven ∧
      ∀ i r, (x.app 0xf4ce363a5c916092).coordinator.tracker.slots i = some r → r.seq = 7 := by
  intro x
  refine ⟨by decide +kernel, fun i r hr => ?_⟩
  have hreach : openMesh.fog.Reachable (openMesh.FogMeets (Nests fun c a =>
      engineSetup.TermsFit c a ∧ Submits (RecordsOf (· = startedSeven)) a)) x := by
    have hrecords : ∀ type data, (type = .egressMsg → data = startedSeven.image (fun _ => 0xAA)) →
        RecordsOf (· = startedSeven) type data :=
      fun type data h htype => ⟨startedSeven, _, rfl, ⟨by decide, by decide⟩, h htype⟩
    exact (reaches_playFog _ raiseAlert _).mono (fun y act => fogMeets_mono (fun c a ha =>
      ha.mono (fun c a hk => ⟨hk.1, hk.2.mono hrecords⟩)) y act)
  obtain ⟨⟨r', rfl, hseq, -⟩, -⟩ := tracked_was_submitted (· = startedSeven) openMesh x hreach _ (by decide) i r hr
  exact hseq.symm

end Raft
end FloodEws
