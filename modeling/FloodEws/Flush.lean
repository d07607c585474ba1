import FloodEws.Telemetry
import FloodEws.Runs
/-!
# Flush — the egress buffer and its flusher

`enqueueEgress` appends to the buffer under the lock.  The flusher (`RunEgressFlusher`) swaps the buffer out under the lock,
appends the batch to the cloud read-model without it, and on failure puts the batch back in front of what has arrived
since; a cancelled context gives one last flush.

The batches appended, the batch in flight and the buffer are always the events enqueued, in order (`egress_conserved`).
-/
namespace FloodEws
namespace Telemetry

/-- Where the flusher is: at the `select`, in a call of `FlushEgress`, which is the `last` one once the context is done, or
returned. -/
inductive Flusher where
  | waiting
  | flush (last : Bool)
  | append (batch : List TelemetryEvent) (last : Bool)
  | requeue (batch : List TelemetryEvent) (last : Bool)
  | stopped
deriving DecidableEq, Repr

namespace Flusher

def returned (last : Bool) : Flusher := if last then .stopped else .waiting

/-- The batch taken from the buffer and neither appended nor put back yet. -/
def inFlight : Flusher → List TelemetryEvent
  | .append batch _ => batch
  | .requeue batch _ => batch
  | .waiting | .flush _ | .stopped => []

theorem inFlight_returned (last : Bool) : (returned last).inFlight = [] := by
  cases last <;> rfl

end Flusher

structure Flow where
  bridge : Bridge
  flusher : Flusher := .waiting
  /-- the batches `AppendBatch` has accepted -/
  appended : List (List TelemetryEvent) := []
  /-- the events `enqueueEgress` has been called with -/
  enqueued : List TelemetryEvent := []

inductive FlowAct where
  | enqueueEgress (ev : TelemetryEvent)
  /-- the next step of the flusher: whether its context is done, whether `AppendBatch` fails -/
  | flusher (cancelled fails : Bool)

namespace Flow

def flusherStep (cancelled fails : Bool) (w : Flow) : Flow :=
  match w.flusher with
  | .waiting => { w with flusher := .flush cancelled }
  | .flush last =>
    if !w.bridge.egress then { w with flusher := .returned last }
    else if w.bridge.pending.isEmpty then { w with flusher := .returned last }
    else { w with flusher := .append w.bridge.pending last, bridge := { w.bridge with pending := [] } }
  | .append batch last =>
    if fails then { w with flusher := .requeue batch last }
    else { w with flusher := .returned last, appended := w.appended ++ [batch] }
  | .requeue batch last =>
    { w with flusher := .returned last, bridge := { w.bridge with pending := batch ++ w.bridge.pending } }
  | .stopped => w

def exec (w : Flow) : FlowAct → Flow
  | .enqueueEgress ev => { w with bridge := w.bridge.enqueueEgress ev, enqueued := w.enqueued ++ [ev] }
  | .flusher cancelled fails => w.flusherStep cancelled fails

/-- `NewBridge` leaves the buffer nil. -/
def sys (b : Bridge) : Sys Flow FlowAct where
  init := { bridge := { b with pending := [] } }
  enabled := fun _ _ => True
  exec := exec

/-- All there is of the events, from the first appended to the last buffered. -/
def events (w : Flow) : List TelemetryEvent := w.appended.flatten ++ w.flusher.inFlight ++ w.bridge.pending

/-- **The flusher moves events and keeps their order.** -/
theorem events_flusherStep (cancelled fails : Bool) (w : Flow) :
    (w.flusherStep cancelled fails).events = w.events ∧
      (w.flusherStep cancelled fails).bridge.egress = w.bridge.egress ∧
      (w.flusherStep cancelled fails).enqueued = w.enqueued := by
  unfold flusherStep
  split
  case h_1 hf => exact ⟨by simp [events, hf, Flusher.inFlight], rfl, rfl⟩
  case h_2 last hf =>
    have hidle : { w with flusher := .returned last }.events = w.events := by
      simp only [events, hf, Flusher.inFlight_returned]
      rfl
    split
    · exact ⟨hidle, rfl, rfl⟩
    · split
      · exact ⟨hidle, rfl, rfl⟩
      · exact ⟨by simp [events, hf, Flusher.inFlight], rfl, rfl⟩
  case h_3 batch last hf =>
    split
    · exact ⟨by simp only [events, hf, Flusher.inFlight], rfl, rfl⟩
    · refine ⟨?_, rfl, rfl⟩
      simp only [events, hf, Flusher.inFlight_returned]
      simp [Flusher.inFlight]
  case h_4 batch last hf =>
    refine ⟨?_, rfl, rfl⟩
    simp only [events, hf, Flusher.inFlight_returned]
    simp [Flusher.inFlight]
  case h_5 => exact ⟨rfl, rfl, rfl⟩

theorem events_enqueueEgress (w : Flow) (ev : TelemetryEvent) :
    (w.exec (.enqueueEgress ev)).events = if w.bridge.egress then w.events ++ [ev] else w.events := by
  simp only [exec, events, Bridge.enqueueEgress]
  split <;> simp

/-- **Cloud egress loses and duplicates nothing**: at every point, whatever fails, the batches appended, the batch in
flight and the buffer are the events enqueued so far, in order; without a sink none is kept. -/
theorem egress_conserved (b : Bridge) (w : Flow) (h : (sys b).Reachable Sys.always w) :
    w.appended.flatten ++ w.flusher.inFlight ++ w.bridge.pending = if w.bridge.egress then w.enqueued else [] := by
  show w.events = _
  refine h.invariant (P := fun w => w.events = if w.bridge.egress then w.enqueued else []) ?_ ?_
  · show ([] : List TelemetryEvent) = if b.egress then [] else []
    split <;> rfl
  · intro w a hw _ _
    cases a with
    | enqueueEgress ev =>
      show (w.exec (.enqueueEgress ev)).events = if w.bridge.egress then w.enqueued ++ [ev] else []
      rw [events_enqueueEgress, hw]
      split <;> rfl
    | flusher cancelled fails =>
      obtain ⟨hev, heg, hen⟩ := events_flusherStep cancelled fails w
      show (w.flusherStep cancelled fails).events = _
      rw [hev, hw]
      show _ = if (w.flusherStep cancelled fails).bridge.egress then (w.flusherStep cancelled fails).enqueued else []
      rw [heg, hen]

/-- The first batch fails and is put back in front of an event that came in meanwhile. -/
def failedFlush (first second : TelemetryEvent) : List FlowAct :=
  [.enqueueEgress first, .flusher false false, .flusher false false, .enqueueEgress second, .flusher false true,
    .flusher false false]

theorem egress_conserved_failedFlush :
    let b : Bridge := { hub := .new {}, egress := true }
    let reading := fun seq => Uplink.event { object := { seq := seq } }
    let w := (sys b).run (failedFlush (reading 1) (reading 2)) (sys b).init
    w.bridge.pending = [reading 1, reading 2] ∧
      w.appended.flatten ++ w.flusher.inFlight ++ w.bridge.pending = [reading 1, reading 2] := by
  intro b reading w
  have hlegal : (sys b).Legal Sys.always (failedFlush (reading 1) (reading 2)) (sys b).init := by
    simp [failedFlush, Sys.Legal, sys, Sys.always]
  exact ⟨rfl, egress_conserved b w (Sys.reaches_run _ _ hlegal)⟩

end Flow

end Telemetry
end FloodEws
