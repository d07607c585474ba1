import FloodEws.Schema
import FloodEws.Window
/-!
# Telemetry — the gateway's uplink hub and bridge

`gateway/server/telemetry`: the hub with its ring of recent uplinks and its client channels (`hub.go`), the uplink types
(`types.go`), and the bridge that drops duplicates and hands each uplink to the clients, the live store, the policy
engine and the egress buffer (`bridge.go`).

The hub also keeps, beside what the code keeps, the uplinks `Record` has buffered (`recorded`), the sends that panicked
and what each client's connection was written.
-/
namespace FloodEws
namespace Telemetry

open Gateway (Advisory EgressTarget)

structure Config where
  historySize : Int := 0
  wsClientBuf : Int := 0

def Config.withDefaults (c : Config) : Config where
  historySize := if c.historySize ≤ 0 then 100 else c.historySize
  wsClientBuf := if c.wsClientBuf ≤ 0 then 32 else c.wsClientBuf

structure SensorEntry where
  deviceEui : String := ""
  waterLevelMm : UInt64 := 0
  validity : String := ""
  validityCode : UInt64 := 0
  outlier : Bool := false
  detail : UInt64 := 0
  timestamp : UInt64 := 0
deriving DecidableEq, Repr

/-- What the codec decodes, inside the ChirpStack uplink; a `FlexUint` is a `uint64`. -/
structure Data where
  nodeId : String := ""
  raftTerm : UInt64 := 0
  raftLogIndex : UInt64 := 0
  seq : UInt64 := 0
  alert : Bool := false
  count : UInt64 := 0
  entries : List SensorEntry := []
deriving DecidableEq, Repr

/-- With every field at its default this is the zero value a fresh ring is full of. -/
structure Uplink where
  receivedAt : String := ""
  devEui : String := ""
  deviceName : String := ""
  applicationId : String := ""
  fCnt : UInt32 := 0
  fPort : UInt8 := 0
  object : Data := {}
  rxRssi : Option Int := none
deriving DecidableEq, Repr

/-- The ChirpStack envelope, with the signal strength at each gateway that heard the uplink. -/
structure ChirpstackUplink where
  devEui : String := ""
  deviceName : String := ""
  applicationId : String := ""
  fCnt : UInt32 := 0
  fPort : UInt8 := 0
  data : Data := {}
  rxInfo : List Int := []
deriving DecidableEq, Repr

def ChirpstackUplink.toUplink (cs : ChirpstackUplink) (now : String) : Uplink where
  receivedAt := now
  devEui := cs.devEui
  deviceName := cs.deviceName
  applicationId := cs.applicationId
  fCnt := cs.fCnt
  fPort := cs.fPort
  object := cs.data
  rxRssi := match cs.rxInfo with
    | [] => none
    | rssi :: rest => some (rest.foldl (fun best rx => if rx > best then rx else best) rssi)

def severityInfo : Int := 1

def severityCritical : Int := 4

namespace Uplink

def getSeq (u : Uplink) : UInt32 := u.object.seq.toUInt32

def severity (u : Uplink) : Int := if u.object.alert then severityCritical else severityInfo

def kind (_ : Uplink) : String := "sensor_reading"

def sensors (u : Uplink) : String → Option SensorEntry :=
  indexBy SensorEntry.deviceEui (fun e => e.deviceEui ≠ "") u.object.entries

end Uplink

/-- A client's channel, and what has been written to the connection that drains it. -/
structure Client where
  queued : List Uplink := []
  closed : Bool := false
  wire : List Uplink := []

structure Hub where
  /-- the channels of `h.clients` -/
  clients : List Nat := []
  history : Window Uplink
  filled : Bool := false
  clientBuf : Nat
  /-- the channels made so far, each under its number -/
  made : Nat := 0
  chans : Nat → Client := fun _ => {}
  recorded : List Uplink := []
  panics : List Nat := []

namespace Hub

def capacity (h : Hub) : Nat := h.history.cells.length

theorem historySize_pos (cfg : Config) : 0 < cfg.withDefaults.historySize.toNat := by
  simp only [Config.withDefaults]
  split <;> omega

/-- `NewHub`. -/
def new (cfg : Config) : Hub where
  history := .fill cfg.withDefaults.historySize.toNat (historySize_pos cfg) {}
  clientBuf := cfg.withDefaults.wsClientBuf.toNat

/-- The scan is over every slot of the ring, written or not. -/
def isUnique (h : Hub) (u : Uplink) : Bool := !h.history.cells.any (fun v => v.getSeq == u.getSeq)

/-- What `Record` does to the ring under the lock. -/
def buffer (u : Uplink) (h : Hub) : Hub :=
  { h with
    history := h.history.push u
    filled := h.filled || (h.history.push u).head == 0
    recorded := h.recorded ++ [u] }

/-- `select` of a send with a `default`: dropped when the channel is full, a panic when it is closed. -/
def trySend (u : Uplink) (h : Hub) (c : Nat) : Hub :=
  if (h.chans c).closed then { h with panics := c :: h.panics }
  else if (h.chans c).queued.length < h.clientBuf then
    { h with chans := Function.update h.chans c { h.chans c with queued := (h.chans c).queued ++ [u] } }
  else h

/-- `Record`, with `order` the order in which `range` takes the clients. -/
def record (u : Uplink) (marshalFails : Bool) (order : List Nat) (h : Hub) : Hub :=
  if marshalFails then h else order.foldl (trySend u) (h.buffer u)

/-- `Snapshot`. -/
def snapshot (h : Hub) : List Uplink :=
  if !h.filled then h.history.cells.take h.history.head
  else h.history.cells.drop h.history.head ++ h.history.cells.take h.history.head

/-- The ring is what `recorded` left of a fresh one. -/
structure Kept (n : Nat) (hn : 0 < n) (h : Hub) : Prop where
  history : h.history = h.recorded.foldl Window.push (.fill n hn {})
  filled : h.filled = decide (n ≤ h.recorded.length)

@[simp] theorem trySend_history (u : Uplink) (h : Hub) (c : Nat) : (h.trySend u c).history = h.history := by
  unfold trySend
  split
  · rfl
  · split <;> rfl

@[simp] theorem trySend_filled (u : Uplink) (h : Hub) (c : Nat) : (h.trySend u c).filled = h.filled := by
  unfold trySend
  split
  · rfl
  · split <;> rfl

@[simp] theorem trySend_recorded (u : Uplink) (h : Hub) (c : Nat) : (h.trySend u c).recorded = h.recorded := by
  unfold trySend
  split
  · rfl
  · split <;> rfl

@[simp] theorem trySend_clients (u : Uplink) (h : Hub) (c : Nat) : (h.trySend u c).clients = h.clients := by
  unfold trySend
  split
  · rfl
  · split <;> rfl

@[simp] theorem trySend_made (u : Uplink) (h : Hub) (c : Nat) : (h.trySend u c).made = h.made := by
  unfold trySend
  split
  · rfl
  · split <;> rfl

namespace Kept

variable {n : Nat} {hn : 0 < n} {h h' : Hub}

theorem fresh (cfg : Config) : Kept cfg.withDefaults.historySize.toNat (historySize_pos cfg) (new cfg) :=
  ⟨rfl, by have := historySize_pos cfg; simp [new]; omega⟩

theorem congr (k : Kept n hn h) (hhist : h'.history = h.history) (hf : h'.filled = h.filled)
    (hr : h'.recorded = h.recorded) : Kept n hn h' :=
  ⟨by rw [hhist, hr, k.history], by rw [hf, hr, k.filled]⟩

theorem capacity_eq (k : Kept n hn h) : h.capacity = n := by
  rw [capacity, k.history, Window.length_pushes]
  simp [Window.fill]

theorem buffer (k : Kept n hn h) (u : Uplink) : Kept n hn (h.buffer u) := by
  have hpush : h.history.push u = (h.recorded ++ [u]).foldl Window.push (.fill n hn {}) := by
    rw [List.foldl_append, ← k.history]
    rfl
  refine ⟨hpush, ?_⟩
  show (h.filled || (h.history.push u).head == 0) = decide (n ≤ (h.recorded ++ [u]).length)
  rw [hpush, Window.head_fill, k.filled, List.length_append, List.length_singleton]
  by_cases hle : n ≤ h.recorded.length
  · simp only [hle, decide_true, Bool.true_or, true_eq_decide_iff]
    omega
  · have hwrap : (h.recorded.length + 1) % n = 0 ↔ n ≤ h.recorded.length + 1 := by
      by_cases heq : h.recorded.length + 1 = n
      · simp [heq]
      · rw [Nat.mod_eq_of_lt (by omega)]
        omega
    rw [decide_eq_false hle, Bool.false_or]
    exact Bool.eq_iff_iff.2 (by rw [beq_iff_eq, hwrap, decide_eq_true_eq])

theorem trySends (k : Kept n hn h) (u : Uplink) (order : List Nat) : Kept n hn (order.foldl (trySend u) h) := by
  induction order generalizing h with
  | nil => exact k
  | cons c order ih => exact ih (k.congr (by simp) (by simp) (by simp))

theorem record (k : Kept n hn h) (u : Uplink) (fails : Bool) (order : List Nat) :
    Kept n hn (h.record u fails order) := by
  unfold Hub.record
  split
  · exact k
  · exact (k.buffer u).trySends u order

/-- **The scan of the raw ring**: a duplicate of one of the last uplinks, or of the zero value while the ring still has
slots nothing was written to. -/
theorem isUnique_eq_false (k : Kept n hn h) (u : Uplink) :
    h.isUnique u = false ↔
      (∃ v ∈ recent n h.recorded, v.getSeq = u.getSeq) ∨ (h.recorded.length < n ∧ u.getSeq = 0) := by
  have hscan : h.isUnique u = false ↔ ∃ v ∈ h.history.cells, v.getSeq = u.getSeq := by
    simp [isUnique]
  rw [hscan, k.history]
  constructor
  · rintro ⟨v, hv, hseq⟩
    rcases (Window.mem_fill hn {} h.recorded v).1 hv with ⟨hlt, rfl⟩ | hv
    · exact .inr ⟨hlt, hseq.symm⟩
    · exact .inl ⟨v, hv, hseq⟩
  · rintro (⟨v, hv, hseq⟩ | ⟨hlt, hseq⟩)
    · exact ⟨v, (Window.mem_fill hn {} h.recorded v).2 (.inr hv), hseq⟩
    · exact ⟨{}, (Window.mem_fill hn {} h.recorded _).2 (.inl ⟨hlt, rfl⟩), hseq.symm⟩

/-- **`Snapshot` is the window over what was recorded**, without the slots nothing was written to. -/
theorem snapshot_eq (k : Kept n hn h) : h.snapshot = recent n h.recorded := by
  have hview : h.history.view = List.replicate (n - h.recorded.length) ({} : Uplink) ++ recent n h.recorded := by
    rw [k.history, Window.view_fill]
  have hlen : h.history.cells.length = n := k.capacity_eq
  unfold snapshot
  rw [k.filled]
  by_cases hle : n ≤ h.recorded.length
  · rw [Nat.sub_eq_zero_of_le hle, List.replicate_zero, List.nil_append] at hview
    rw [decide_eq_true hle, if_neg (by decide)]
    exact hview
  · -- the head has not come round: what was written lies before it
    have hhead : h.history.head = h.recorded.length := by
      rw [k.history, Window.head_fill, Nat.mod_eq_of_lt (by omega)]
    rw [decide_eq_false hle, if_pos (by decide)]
    refine List.append_inj_right hview ?_
    rw [List.length_drop, List.length_replicate, hlen, hhead]

end Kept

/-- `Record`s one after the other, marshalling succeeding. -/
def records (us : List (Uplink × List Nat)) (h : Hub) : Hub := us.foldl (fun h u => h.record u.1 false u.2) h

theorem records_kept {n : Nat} {hn : 0 < n} (us : List (Uplink × List Nat)) {h : Hub} (k : Kept n hn h) :
    Kept n hn (h.records us) ∧ (h.records us).recorded = h.recorded ++ us.map Prod.fst := by
  induction us generalizing h with
  | nil => exact ⟨k, by simp [records]⟩
  | cons u us ih =>
    obtain ⟨hkept, hrec⟩ := ih (k.record u.1 false u.2)
    have hone : (h.record u.1 false u.2).recorded = h.recorded ++ [u.1] :=
      foldl_invariant (P := fun h' : Hub => h'.recorded = h.recorded ++ [u.1])
        (fun h' c hh => (trySend_recorded u.1 h' c).trans hh) u.2 rfl
    refine ⟨hkept, hrec.trans ?_⟩
    rw [hone, List.append_assoc]
    rfl

/-- **History is the last uplinks in order.**  After any `Record`s on a fresh hub `Snapshot` returns the last of them,
oldest first, as many as the ring has slots or all of them when they are fewer. -/
theorem snapshot_records (cfg : Config) (us : List (Uplink × List Nat)) :
    ((new cfg).records us).snapshot =
        (us.map Prod.fst).drop (us.length - cfg.withDefaults.historySize.toNat) ∧
      ((new cfg).records us).snapshot.length = min us.length cfg.withDefaults.historySize.toNat := by
  obtain ⟨hkept, hrec⟩ := records_kept us (Kept.fresh cfg)
  have hfresh : (new cfg).recorded = [] := rfl
  have hsnap := hkept.snapshot_eq
  rw [hrec, hfresh, List.nil_append, recent, List.length_map] at hsnap
  refine ⟨hsnap, ?_⟩
  rw [hsnap, List.length_drop, List.length_map]
  omega

end Hub

/-- `egress.TelemetryEvent`, with the object that its payload is the JSON of. -/
structure TelemetryEvent where
  time : String
  source : String
  kind : String
  severity : Int
  payload : Data
deriving DecidableEq, Repr

def Uplink.event (u : Uplink) : TelemetryEvent := ⟨u.receivedAt, u.devEui, u.kind, u.severity, u.object⟩

/-- The bridge and what its collaborators have been handed; `live`, `egress` and `webhook` may be nil. -/
structure Bridge where
  hub : Hub
  live : Option (String → Option SensorEntry) := none
  egress : Bool := false
  webhook : Bool := false
  targets : List EgressTarget := []
  pending : List TelemetryEvent := []
  advisories : List Advisory := []
  forwards : List (EgressTarget × TelemetryEvent) := []

/-- One MQTT message: the payload, `none` when it does not parse, the clock, and what the calls on the way return. -/
structure Arrival where
  payload : Option ChirpstackUplink
  now : String := ""
  recordFails : Bool := false
  objectFails : Bool := false
  order : List Nat := []

def Arrival.uplink? (a : Arrival) : Option Uplink := a.payload.map (·.toUplink a.now)

inductive Handled where
  | parseError
  | duplicate
  | marshalError
  | fannedOut
deriving DecidableEq, Repr

namespace Bridge

def enqueueEgress (ev : TelemetryEvent) (b : Bridge) : Bridge :=
  { b with
    pending := if b.egress then b.pending ++ [ev] else b.pending
    forwards := if b.webhook then
        b.forwards ++ (b.targets.filter (fun t => t.enabled && t.type == "webhook")).map (·, ev)
      else b.forwards }

def updateSensors (u : Uplink) (live : String → Option SensorEntry) : String → Option SensorEntry :=
  fun eui => (u.sensors eui).or (live eui)

def handleUplink (a : Arrival) (b : Bridge) : Handled × Bridge :=
  match a.uplink? with
  | none => (.parseError, b)
  | some u =>
    if !b.hub.isUnique u then (.duplicate, b)
    else
      let b := { b with hub := b.hub.record u a.recordFails a.order, live := b.live.map (updateSensors u) }
      if a.objectFails then (.marshalError, b)
      else
        let adv : Advisory := { sourceId := "local", kind := u.kind, severity := u.severity, receivedAt := a.now }
        (.fannedOut, { b with advisories := b.advisories ++ [adv] }.enqueueEgress u.event)

def handleAll (arrivals : List Arrival) (b : Bridge) : Bridge := arrivals.foldl (fun b a => (b.handleUplink a).2) b

/-- **What handling an uplink does to the hub**: nothing, or one `Record` of an uplink the scan did not find. -/
theorem handleUplink_hub (a : Arrival) (b : Bridge) :
    (b.handleUplink a).2.hub = b.hub ∨ ∃ u, a.uplink? = some u ∧ b.hub.isUnique u = true ∧
      (b.handleUplink a).2.hub = b.hub.record u a.recordFails a.order := by
  unfold handleUplink
  split
  · exact .inl rfl
  · rename_i u hu
    split
    · exact .inl rfl
    · rename_i hunique
      refine .inr ⟨u, hu, by simpa using hunique, ?_⟩
      split <;> rfl

theorem handleUplink_duplicate {a : Arrival} {u : Uplink} (b : Bridge) (hu : a.uplink? = some u) :
    (b.handleUplink a).1 = .duplicate ↔ b.hub.isUnique u = false := by
  simp only [handleUplink, hu]
  cases b.hub.isUnique u with
  | false => simp
  | true =>
    simp only [Bool.not_true, Bool.false_eq_true, ↓reduceIte, Bool.true_eq_false, iff_false]
    split <;> simp

/-- The ring keeps to what was recorded, and the first uplinks to fill it are not numbered zero: the scan would have
found the zero value of a slot not written yet. -/
structure Filling (n : Nat) (hn : 0 < n) (h : Hub) : Prop where
  kept : h.Kept n hn
  nonzero : ∀ v ∈ h.recorded.take n, v.getSeq ≠ 0

theorem Filling.record {n : Nat} {hn : 0 < n} {h : Hub} (k : Filling n hn h) {u : Uplink} (hu : h.isUnique u = true)
    (fails : Bool) (order : List Nat) : Filling n hn (h.record u fails order) := by
  refine ⟨k.kept.record u fails order, ?_⟩
  cases fails with
  | true => exact k.nonzero
  | false =>
    have hrec : ∀ (order : List Nat) (h : Hub), (order.foldl (Hub.trySend u) h).recorded = h.recorded := by
      intro order
      induction order with
      | nil => exact fun _ => rfl
      | cons c order ih => exact fun h => (ih _).trans (Hub.trySend_recorded u h c)
    show ∀ v ∈ (order.foldl (Hub.trySend u) (h.buffer u)).recorded.take n, v.getSeq ≠ 0
    rw [hrec]
    show ∀ v ∈ (h.recorded ++ [u]).take n, v.getSeq ≠ 0
    intro v hv
    by_cases hlt : h.recorded.length < n
    · rcases List.mem_append.1 (List.mem_of_mem_take hv) with hv | hv
      · exact k.nonzero v (by rwa [List.take_of_length_le (Nat.le_of_lt hlt)])
      · rw [List.mem_singleton.1 hv]
        intro hz
        have hfound := (k.kept.isUnique_eq_false u).2 (.inr ⟨hlt, hz⟩)
        rw [hu] at hfound
        cases hfound
    · rw [List.take_append_of_le_length (by omega)] at hv
      exact k.nonzero v hv

theorem filling_handleAll {n : Nat} {hn : 0 < n} (arrivals : List Arrival) {b : Bridge} (k : Filling n hn b.hub) :
    Filling n hn (b.handleAll arrivals).hub := by
  induction arrivals generalizing b with
  | nil => exact k
  | cons a arrivals ih =>
    refine ih ?_
    rcases handleUplink_hub a b with hb | ⟨u, -, hu, hb⟩
    · rw [hb]
      exact k
    · rw [hb]
      exact k.record hu _ _

/-- The arrival is dropped as a duplicate exactly when one of the last uplinks recorded has its sequence number. -/
def ExactAt (b : Bridge) (a : Arrival) : Prop :=
  ∀ u, a.uplink? = some u →
    ((b.handleUplink a).1 = .duplicate ↔ ∃ v ∈ recent b.hub.capacity b.hub.recorded, v.getSeq = u.getSeq)

/-- An uplink numbered zero while the ring is not full yet. -/
def ZeroEarly (b : Bridge) (a : Arrival) : Prop :=
  ∃ u, a.uplink? = some u ∧ u.getSeq = 0 ∧ b.hub.recorded.length < b.hub.capacity

theorem exactAt_iff {n : Nat} {hn : 0 < n} {b : Bridge} (k : Filling n hn b.hub) (a : Arrival) :
    b.ExactAt a ↔ ¬b.ZeroEarly a := by
  have hdup : ∀ u, a.uplink? = some u → ((b.handleUplink a).1 = .duplicate ↔
      (∃ v ∈ recent b.hub.capacity b.hub.recorded, v.getSeq = u.getSeq) ∨
        (b.hub.recorded.length < b.hub.capacity ∧ u.getSeq = 0)) := by
    intro u hu
    rw [handleUplink_duplicate b hu, k.kept.capacity_eq]
    exact k.kept.isUnique_eq_false u
  constructor
  · rintro hexact ⟨u, hu, hz, hlt⟩
    obtain ⟨v, hv, hseq⟩ := (hexact u hu).1 ((hdup u hu).2 (.inr ⟨hlt, hz⟩))
    rw [k.kept.capacity_eq] at hlt
    refine k.nonzero v ?_ (hseq.trans hz)
    rw [List.take_of_length_le (Nat.le_of_lt hlt)]
    exact List.mem_of_mem_drop hv
  · intro hzero u hu
    rw [hdup u hu]
    constructor
    · rintro (hv | ⟨hlt, hz⟩)
      · exact hv
      · exact absurd ⟨u, hu, hz, hlt⟩ hzero
    · exact .inl

/-- Every arrival, handled after those before it by a bridge whose hub was fresh, is answered exactly. -/
def Deduplicates (cfg : Config) (b : Bridge) (arrivals : List Arrival) : Prop :=
  ∀ pre a post, arrivals = pre ++ a :: post → ({ b with hub := .new cfg }.handleAll pre).ExactAt a

/-- **When deduplication is exact**: on a fresh hub of any capacity, over any uplinks, every answer is the right one if
and only if no uplink numbered zero arrives before the ring has been filled. -/
theorem deduplicates_iff (cfg : Config) (b : Bridge) (arrivals : List Arrival) :
    Deduplicates cfg b arrivals ↔
      ∀ pre a post, arrivals = pre ++ a :: post → ¬({ b with hub := .new cfg }.handleAll pre).ZeroEarly a := by
  have hfill : ∀ pre, Filling cfg.withDefaults.historySize.toNat (Hub.historySize_pos cfg)
      ({ b with hub := .new cfg }.handleAll pre).hub :=
    fun pre => filling_handleAll pre ⟨.fresh cfg, fun v hv => by simp [Hub.new] at hv⟩
  constructor
  · intro h pre a post heq
    exact (exactAt_iff (hfill pre) a).1 (h pre a post heq)
  · intro h pre a post heq
    exact (exactAt_iff (hfill pre) a).2 (h pre a post heq)

/-- The first uplink a node sends is numbered zero: nothing has been recorded, and it is dropped all the same. -/
theorem first_uplink_dropped :
    let b : Bridge := { hub := .new { historySize := 4 } }
    let a : Arrival := { payload := some { devEui := "0004a30b001c0530", data := { seq := 0, raftTerm := 1 } } }
    (b.handleUplink a).1 = .duplicate ∧ ¬Deduplicates { historySize := 4 } b [a] := by
  refine ⟨by decide, fun h => ?_⟩
  obtain ⟨v, hv, -⟩ := (h [] _ [] rfl _ rfl).1 (by decide)
  simp [handleAll, recent, Hub.new] at hv

end Bridge

end Telemetry
end FloodEws
