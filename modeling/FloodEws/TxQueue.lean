import FloodEws.Runs
import FloodEws.Lorawan
import FloodEws.Vote
/-!
# TxQueue — `lorawan/service.hpp`, the queue in front of the modem

`send_batch` packs a batch and puts it into a message queue of `TX_QUEUE_DEPTH` items without waiting.  The LoRaWAN
thread joins the network, takes a payload from the queue, transmits it, and reports it through `m_on_complete` or puts it
back; producers may run between any two of its steps.  A payload is told from others with the same content by the
number of the `send_batch` that put it there.

The slot a payload was taken from is free for others while it is being transmitted.  As long as there is room when a
payload is put back, none is lost or completed twice (`uplinks_kept`); nothing reserves that room
(`uplink_lost_when_full`).
-/
namespace FloodEws

universe u

/-- `common::MessageQueue`: a `k_msgq`, first in first out, of at most `depth` items. -/
structure MessageQueue (α : Type u) (depth : Nat) where
  items : List α
  room : items.length ≤ depth

namespace MessageQueue

variable {α : Type u} {depth : Nat}

def empty : MessageQueue α depth := ⟨[], Nat.zero_le depth⟩

/-- The put fails only when the queue is full. -/
def tryPut (q : MessageQueue α depth) (item : α) : Bool × MessageQueue α depth :=
  if h : q.items.length < depth then
    (true, ⟨q.items ++ [item], by rw [List.length_append, List.length_singleton]; exact h⟩)
  else (false, q)

def get (q : MessageQueue α depth) : Option α × MessageQueue α depth :=
  (q.items.head?, ⟨q.items.tail, by rw [List.length_tail]; exact Nat.le_trans (Nat.sub_le _ _) q.room⟩)

theorem tryPut_items (q : MessageQueue α depth) (item : α) :
    (q.tryPut item).2.items = if (q.tryPut item).1 then q.items ++ [item] else q.items := by
  unfold tryPut
  split <;> rfl

theorem tryPut_of_lt {q : MessageQueue α depth} (h : q.items.length < depth) (item : α) :
    (q.tryPut item).2.items = q.items ++ [item] := by
  rw [tryPut, dif_pos h]

end MessageQueue

namespace Lorawan

abbrev txQueueDepth : Nat := 8

abbrev bufferSize : Nat := 256

inductive CmdResult where
  | matched
  | timeout
  | atError
  | notJoined
deriving DecidableEq, Repr

def validityCode : Vote.Validity → UInt8
  | .good => 0
  | .invalid => 1
  | .questionable => 2
  | .other code => code

/-- One entry of a batch as the payload has it; the clock is cut to 32 bits. -/
def Entry.ofReading (x : Vote.Entry) : Entry where
  deviceRloc := x.eui
  waterLevelMm := .ofNat x.waterLevelMm
  validity := validityCode x.validity
  detail := x.detail
  timestamp := x.timestamp.toUInt32

/-- The payload `send_batch` packs. -/
def Payload.ofBatch (nodeId : UInt64) (batch : Vote.Batch) (term index : UInt64) (seq : UInt32) : Payload where
  nodeId := nodeId
  raftTerm := term.toUInt32
  raftLogIndex := index.toUInt32
  sequence := seq
  alert := if batch.alertActive then 1 else 0
  count := .ofNat (min maxEntries batch.entries.length)
  entries := .ofFn fun i => ((batch.entries[i.val]?).map Entry.ofReading).getD {}

/-- A payload, and the number of the `send_batch` that put it into the queue. -/
structure TxItem where
  ticket : Nat
  payload : Payload
deriving DecidableEq, Repr

/-- Where the LoRaWAN thread is: at the head of its loop, in `ship_payload` before the command, after it with the modem's
answer, or about to put the payload back. -/
inductive TxThread where
  | loop
  | ship (x : TxItem)
  | answered (x : TxItem) (res : CmdResult)
  | requeue (x : TxItem)
deriving DecidableEq, Repr

/-- The payload being transmitted. -/
def TxThread.inFlight : TxThread → List TxItem
  | .loop => []
  | .ship x => [x]
  | .answered x _ => [x]
  | .requeue x => [x]

/-- The service while it runs.  `accepted` are the payloads `send_batch` has returned `true` for, by ticket, and
`completed` those `m_on_complete` has been called for. -/
structure TxService where
  queue : MessageQueue TxItem txQueueDepth := .empty
  thread : TxThread := .loop
  joined : Bool := false
  accepted : List Payload := []
  completed : List TxItem := []

inductive TxAct where
  | sendBatch (nodeId : UInt64) (batch : Vote.Batch) (term index : UInt64) (seq : UInt32)
  /-- the next step of the LoRaWAN thread, with what `run_join` and the modem answer in it -/
  | thread (joinOk : Bool) (res : CmdResult)

namespace TxService

/-- What `send_batch` returns, and the service after it. -/
def sendBatch (nodeId : UInt64) (batch : Vote.Batch) (term index : UInt64) (seq : UInt32) (s : TxService) :
    Bool × TxService :=
  let payload := Payload.ofBatch nodeId batch term index seq
  match s.queue.tryPut ⟨s.accepted.length, payload⟩ with
  | (true, q) => (true, { s with queue := q, accepted := s.accepted ++ [payload] })
  | (false, q) => (false, { s with queue := q })

/-- `thread_entry` and `ship_payload`, up to the next point where another thread may run. -/
def threadStep (joinOk : Bool) (res : CmdResult) (s : TxService) : TxService :=
  match s.thread with
  | .loop =>
    if !s.joined then { s with joined := joinOk }
    else match s.queue.get with
      | (some x, q) => { s with queue := q, thread := .ship x }
      | (none, _) => s
  | .ship x =>
    if (buildUplink x.payload bufferSize).isNone then { s with thread := .loop }
    else { s with thread := .answered x res }
  | .answered x res =>
    if res = .matched then { s with thread := .loop, completed := s.completed ++ [x] }
    else { s with joined := if res = .notJoined then false else s.joined, thread := .requeue x }
  | .requeue x => { s with queue := (s.queue.tryPut x).2, thread := .loop }

def exec (s : TxService) : TxAct → TxService
  | .sendBatch nodeId batch term index seq => (s.sendBatch nodeId batch term index seq).2
  | .thread joinOk res => s.threadStep joinOk res

def sys : Sys TxService TxAct where
  init := {}
  enabled := fun _ _ => True
  exec := exec

/-- Everything there is of the payloads. -/
def items (s : TxService) : List TxItem := s.queue.items ++ s.thread.inFlight ++ s.completed

/-- **There is room in the queue whenever a payload is put back.** -/
def Roomy (s : TxService) : TxAct → Prop
  | .sendBatch _ _ _ _ _ => True
  | .thread _ _ => ∀ x, s.thread = .requeue x → s.queue.items.length < txQueueDepth

/-- **What a step of the LoRaWAN thread does to the payloads**: it moves one, or drops one that cannot be packed. -/
theorem items_threadStep {s : TxService} {joinOk : Bool} {res : CmdResult} (h : s.Roomy (.thread joinOk res)) :
    (s.threadStep joinOk res).accepted = s.accepted ∧
      ((s.threadStep joinOk res).items.Perm s.items ∨
        ∃ x, (buildUplink x.payload bufferSize).isSome = false ∧ s.items.Perm (x :: (s.threadStep joinOk res).items)) := by
  unfold threadStep
  split
  · rename_i hthread
    split
    · exact ⟨rfl, .inl (.refl _)⟩
    · split
      · rename_i x q hget
        have hitems : s.queue.items = x :: q.items := by
          simp only [MessageQueue.get, Prod.mk.injEq] at hget
          obtain ⟨hhead, rfl⟩ := hget
          exact List.eq_cons_of_mem_head? hhead
        refine ⟨rfl, .inl ?_⟩
        simp only [items, TxThread.inFlight, hthread, hitems, List.append_nil]
        rw [List.append_assoc, List.singleton_append, List.cons_append]
        exact List.perm_middle
      · exact ⟨rfl, .inl (.refl _)⟩
  · rename_i x hthread
    split
    · rename_i hnone
      refine ⟨rfl, .inr ⟨x, by simpa using hnone, ?_⟩⟩
      simp only [items, TxThread.inFlight, hthread, List.append_nil]
      rw [List.append_assoc, List.singleton_append]
      exact List.perm_middle
    · exact ⟨rfl, .inl (by simp only [items, TxThread.inFlight, hthread]; exact .refl _)⟩
  · rename_i x res hthread
    split
    · refine ⟨rfl, .inl ?_⟩
      simp only [items, TxThread.inFlight, hthread, List.append_nil, List.append_assoc]
      exact (List.perm_append_comm).append_left _
    · exact ⟨rfl, .inl (by simp only [items, TxThread.inFlight, hthread]; exact .refl _)⟩
  · rename_i x hthread
    refine ⟨rfl, .inl ?_⟩
    simp only [items, TxThread.inFlight, hthread, MessageQueue.tryPut_of_lt (h x hthread), List.append_nil]
    exact .refl _

/-- Every payload there is was accepted under its ticket, and every one accepted is there once if it can be packed. -/
structure Kept (s : TxService) : Prop where
  known : ∀ x ∈ s.items, s.accepted[x.ticket]? = some x.payload
  once : ∀ x, s.accepted[x.ticket]? = some x.payload → (buildUplink x.payload bufferSize).isSome = true →
    s.items.count x = 1

theorem Kept.threadStep {s : TxService} (hk : s.Kept) {joinOk : Bool} {res : CmdResult}
    (h : s.Roomy (.thread joinOk res)) : (s.threadStep joinOk res).Kept := by
  obtain ⟨hacc, hperm | ⟨y, hnone, hperm⟩⟩ := items_threadStep h
  · refine ⟨fun x hx => ?_, fun x hx hb => ?_⟩
    · rw [hacc]
      exact hk.known x (hperm.mem_iff.1 hx)
    · rw [hacc] at hx
      rw [hperm.count_eq]
      exact hk.once x hx hb
  · refine ⟨fun x hx => ?_, fun x hx hb => ?_⟩
    · rw [hacc]
      exact hk.known x (hperm.mem_iff.2 (List.mem_cons_of_mem _ hx))
    · rw [hacc] at hx
      have hne : y ≠ x := by
        rintro rfl
        rw [hnone] at hb
        cases hb
      rw [← hk.once x hx hb, hperm.count_eq, List.count_cons_of_ne hne]

theorem Kept.sendBatch {s : TxService} (hk : s.Kept) (nodeId : UInt64) (batch : Vote.Batch) (term index : UInt64)
    (seq : UInt32) : (s.sendBatch nodeId batch term index seq).2.Kept := by
  unfold TxService.sendBatch
  generalize Payload.ofBatch nodeId batch term index seq = payload
  have hput := s.queue.tryPut_items ⟨s.accepted.length, payload⟩
  dsimp only
  split
  · rename_i q hq
    rw [hq] at hput
    have hput : q.items = s.queue.items ++ [⟨s.accepted.length, payload⟩] := hput
    have hperm : ({ s with queue := q, accepted := s.accepted ++ [payload] } : TxService).items.Perm
        (⟨s.accepted.length, payload⟩ :: s.items) := by
      simp only [items, hput, List.append_assoc, List.singleton_append]
      exact List.perm_middle
    refine ⟨fun x hx => ?_, fun x hx hb => ?_⟩
    · rcases List.mem_cons.1 (hperm.mem_iff.1 hx) with rfl | hx
      · exact List.getElem?_concat_length
      · have hold := hk.known x hx
        rw [List.getElem?_append_left (List.getElem?_eq_some_iff.1 hold).1]
        exact hold
    · rw [hperm.count_eq]
      have hx : (s.accepted ++ [payload])[x.ticket]? = some x.payload := hx
      rcases Nat.lt_or_ge x.ticket s.accepted.length with hlt | hge
      · -- an older one: the new ticket is not its own
        rw [List.getElem?_append_left hlt] at hx
        rw [List.count_cons_of_ne (by rintro rfl; exact Nat.lt_irrefl _ hlt)]
        exact hk.once x hx hb
      · obtain rfl : x = ⟨s.accepted.length, payload⟩ := by
          rw [List.getElem?_append_right hge] at hx
          obtain ⟨hzero, hpay⟩ := List.getElem?_eq_some_iff.1 hx
          rw [List.length_singleton] at hzero
          simp only [List.getElem_singleton] at hpay
          obtain ⟨ticket, pl⟩ := x
          have : ticket = s.accepted.length := by
            dsimp only at hge hzero
            omega
          simp only at hpay
          rw [this, hpay]
        have hnew : (⟨s.accepted.length, payload⟩ : TxItem) ∉ s.items := by
          intro hmem
          exact Nat.lt_irrefl _ (List.getElem?_eq_some_iff.1 (hk.known _ hmem)).1
        rw [List.count_cons_self, List.count_eq_zero_of_not_mem hnew]
  · rename_i q hq
    rw [hq] at hput
    have hput : q.items = s.queue.items := hput
    have heq : ({ s with queue := q } : TxService).items = s.items := by simp only [items, hput]
    exact ⟨fun x hx => hk.known x (heq ▸ hx), fun x hx hb => by rw [heq]; exact hk.once x hx hb⟩

/-- **No queued uplink is lost, nor completed twice**, in every run in which there is room whenever one is put back: a
payload that was accepted and can be packed is in the queue, being transmitted or completed, and only one of these, and
once. -/
theorem uplinks_kept (s : TxService) (h : sys.Reachable Roomy s) (ticket : Nat) (payload : Payload)
    (hacc : s.accepted[ticket]? = some payload) (hb : (buildUplink payload bufferSize).isSome = true) :
    s.queue.items.count ⟨ticket, payload⟩ + s.thread.inFlight.count ⟨ticket, payload⟩ +
      s.completed.count ⟨ticket, payload⟩ = 1 := by
  have hk : s.Kept := by
    refine h.invariant (P := Kept) ⟨nofun, nofun⟩ fun s a hs _ hroom => ?_
    cases a with
    | sendBatch nodeId batch term index seq => exact hs.sendBatch nodeId batch term index seq
    | thread joinOk res => exact hs.threadStep hroom
  have := hk.once ⟨ticket, payload⟩ hacc hb
  rwa [items, List.count_append, List.count_append] at this

instance (s : TxService) : ∀ a, Decidable (s.Roomy a)
  | .sendBatch _ _ _ _ _ => .isTrue trivial
  | .thread _ _ =>
    match h : s.thread with
    | .requeue x => decidable_of_iff (s.queue.items.length < txQueueDepth)
        ⟨fun hlt _ _ => hlt, fun hall => hall x h⟩
    | .loop => .isTrue (fun x hx => by rw [h] at hx; cases hx)
    | .ship _ => .isTrue (fun x hx => by rw [h] at hx; cases hx)
    | .answered _ _ => .isTrue (fun x hx => by rw [h] at hx; cases hx)

/-- A batch whose first transmission gets no answer. -/
def secondTry : List TxAct :=
  [.sendBatch 1 {} 1 1 7, .thread true .matched, .thread true .matched, .thread true .timeout, .thread true .matched,
    .thread true .matched, .thread true .matched, .thread true .matched, .thread true .matched]

theorem uplinks_kept_secondTry :
    let s := sys.run secondTry {}
    let payload := Payload.ofBatch 1 {} 1 1 7
    sys.Reachable Roomy s ∧ s.accepted = [payload] ∧
      s.queue.items.count ⟨0, payload⟩ + s.thread.inFlight.count ⟨0, payload⟩ + s.completed.count ⟨0, payload⟩ = 1 := by
  intro s payload
  have hlegal : sys.Legal Roomy secondTry {} :=
    ⟨trivial, trivial, trivial, by decide, trivial, by decide, trivial, by decide, trivial, by decide, trivial,
      by decide, trivial, by decide, trivial, by decide, trivial, by decide, trivial⟩
  have hs : sys.Reachable Roomy s := Sys.reaches_run _ _ hlegal
  exact ⟨hs, rfl, uplinks_kept s hs 0 payload rfl (by decide)⟩

/-- While the first batch is being transmitted eight others fill the queue; then the transmission fails. -/
def crowdedOut : List TxAct :=
  [.sendBatch 1 {} 1 1 7, .thread true .matched, .thread true .matched] ++
    (List.range 8).map (fun k => .sendBatch 1 {} 1 (.ofNat (k + 2)) (.ofNat (k + 8))) ++
    [.thread true .timeout, .thread true .matched, .thread true .matched]

/-- **The first batch is nowhere any more**, and `m_on_complete` was not called for it. -/
theorem uplink_lost_when_full :
    let s := sys.run crowdedOut {}
    let payload := Payload.ofBatch 1 {} 1 1 7
    sys.Reachable Sys.always s ∧ s.accepted[0]? = some payload ∧ (buildUplink payload bufferSize).isSome = true ∧
      ⟨0, payload⟩ ∉ s.queue.items ∧ s.thread.inFlight = [] ∧ s.completed = [] := by
  have hlegal : ∀ (as : List TxAct) (s : TxService), sys.Legal Sys.always as s := by
    intro as
    induction as with
    | nil => exact fun _ => trivial
    | cons a as ih => exact fun s => ⟨trivial, trivial, ih _⟩
  exact ⟨Sys.reaches_run _ _ (hlegal _ _), by decide⟩

end TxService

end Lorawan
end FloodEws
