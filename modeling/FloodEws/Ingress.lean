import FloodEws.Layout
import FloodEws.Sensor
/-!
# Ingress — signed datagrams

The signed CoAP endpoints of the firmware: the six `raft/*` endpoints, the readings of the sensors and the alerts.  A
datagram is bytes; each endpoint lays its own struct over them, checks the signature against the key registered for the
EUI the datagram claims, and calls back into the application.

Two of the three handlers stop when the check fails; the one for alerts only logs it (`authenticated_iff`).
-/
namespace FloodEws
namespace Ingress

open Bytes (slice)
open Layout (number structSize)
open Raft (Byte)
open Sensor (SensorReplayDetection)

/-! ## Structs in memory -/

def u64 : Nat × Nat := (8, 8)
def u32 : Nat × Nat := (4, 4)
def u16 : Nat × Nat := (2, 2)
def u8 : Nat × Nat := (1, 1)

/-- `std::array<T, n>`, with the size and the alignment of `T`. -/
def array (n : Nat) (t : Nat × Nat) : Nat × Nat := (n * t.1, t.2)

def u64At (off : Nat) (bytes : List Byte) : Nat := number (slice bytes off 8)

inductive RpcType where
  | requestVote
  | requestVoteResp
  | appendEntries
  | appendEntriesResp
  | installSnapshot
  | installSnapshotResp
deriving DecidableEq, Repr

namespace RpcType

/-- `Entry<>`: term, index, type, length and data. -/
def entry : Nat × Nat := (structSize [u64, u64, u8, u16, array 96 u8], 8)

/-- The fields of the RPC structs of `raft_types.hpp`, in their order. -/
def fields : RpcType → List (Nat × Nat)
  | requestVote => [u64, u64, u64, u64, u8]
  | requestVoteResp => [u64, u8, u8]
  | appendEntries => [u64, u64, u64, u64, u64, u16, array 8 entry]
  | appendEntriesResp => [u64, u8, u64, u64, u64]
  | installSnapshot => [u64, u64, u64, u64, u32, u32, u16, u8, array 256 u8]
  | installSnapshotResp => [u64, u64]

def size (t : RpcType) : Nat := structSize t.fields

/-- The responses, whose sender the endpoint resolves. -/
def isResp : RpcType → Bool
  | requestVote => false
  | requestVoteResp => true
  | appendEntries => false
  | appendEntriesResp => true
  | installSnapshot => false
  | installSnapshotResp => true

example : [requestVote, requestVoteResp, appendEntries, appendEntriesResp, installSnapshot, installSnapshotResp].map size =
    [40, 16, 1008, 40, 304, 16] := by decide

end RpcType

def sigLen : Nat := 64

/-- `SensorReadingWire`: eui, timestamp, water level, validity, detail, seq. -/
def readingSize : Nat := structSize [u64, u64, u16, u8, u8, u32]

/-- `SensorReadingSigned`. -/
def readingSignedSize : Nat := structSize [(readingSize, 8), array sigLen u8]

/-- `AlertPacket`: interval and whether the alert is active. -/
def packetSize : Nat := structSize [u16, u8]

/-- `SignedAlertPacket`. -/
def packetSignedSize : Nat := structSize [u64, (packetSize, 2), array sigLen u8]

/-! ## `TrustedDeviceStore` -/

abbrev PsaStatus := Int

def psaSuccess : PsaStatus := 0
def psaErrorInvalidHandle : PsaStatus := -136

/-- The PSA crypto library: the SHA-256 digest, or the status of the step that failed, and the check of a signature
under a key. -/
structure Psa where
  computeDigest : List Byte → Except PsaStatus (List Byte)
  verifyHash : Nat → List Byte → List Byte → PsaStatus

structure TrustedPeer where
  eui : Nat := 0
  pubkeyId : Nat := 0
  inUse : Bool := false

structure TrustedDeviceStore where
  peers : List TrustedPeer

namespace TrustedDeviceStore

def findPeer (eui : Nat) (store : TrustedDeviceStore) : Option TrustedPeer :=
  store.peers.find? (fun p => p.inUse && p.eui == eui)

def verify (psa : Psa) (senderEui : Nat) (rpcBytes sig : List Byte) (store : TrustedDeviceStore) : PsaStatus :=
  match store.findPeer senderEui with
  | none => psaErrorInvalidHandle
  | some peer =>
    match psa.computeDigest rpcBytes with
    | .error status => status
    | .ok digest => psa.verifyHash peer.pubkeyId digest sig

end TrustedDeviceStore

/-! ## The handlers -/

/-- `coap_get_data` into a buffer of `cap` bytes. -/
def coapGetData (cap : Nat) (msg : List Byte) : Option (List Byte) := if cap < msg.length then none else some msg

/-- A value of one of the RPC structs, as it is in memory. -/
structure Rpc where
  type : RpcType
  bytes : List Byte
deriving DecidableEq

/-- What `m_on_inbound` is handed; `sender` is `Message::from`. -/
structure Inbound where
  sender : Nat := 0
  rpc : Rpc
deriving DecidableEq

/-- `decode_response<T>`, on the endpoint of `T`. -/
def decodeResponse (psa : Psa) (store : TrustedDeviceStore) (t : RpcType) (msg : List Byte) : Option Inbound :=
  let envelopeLen := 8 + 4 + t.size + sigLen
  match coapGetData envelopeLen msg with
  | none => none
  | some buf =>
    if buf.length ≠ envelopeLen then none
    else
      let senderEui := u64At 0 buf
      let payload := slice buf 8 t.size
      let sig := slice buf (8 + t.size) sigLen
      if store.verify psa senderEui payload sig ≠ psaSuccess then none
      else some { sender := if t.isResp then senderEui else 0, rpc := ⟨t, payload⟩ }

/-- What `m_on_reading` is handed: the reading, with the time it came in. -/
structure Reading where
  bytes : List Byte
  timestamp : Nat
deriving DecidableEq

/-- `sensor_request_handler` and `on_reading`.  The replay table changes with the reading. -/
def sensorRequestHandler (psa : Psa) (store : TrustedDeviceStore) (bound : Bool) (timeUs : Nat) (msg : List Byte)
    (replay : SensorReplayDetection) : Option Reading × SensorReplayDetection :=
  match coapGetData readingSignedSize msg with
  | none => (none, replay)
  | some buf =>
    if buf.length ≠ readingSignedSize then (none, replay)
    else
      let reading := slice buf 0 readingSize
      let eui := u64At 0 reading
      if store.verify psa eui reading (slice buf readingSize sigLen) ≠ psaSuccess then (none, replay)
      else
        let seq := number (slice reading 20 4)
        let (fresh, replay) := replay.isFresh ⟨eui, seq⟩
        if !fresh then (none, replay)
        else if bound then (some ⟨reading, timeUs⟩, replay) else (none, replay)

/-- `alert_handler`: the bytes of the packet that `m_on_alert` is handed.  `echo` says that the datagram is the node's
own multicast. -/
def alertHandler (psa : Psa) (store : TrustedDeviceStore) (echo : Bool) (msg : List Byte) : Option (List Byte) :=
  if echo then none
  else
    match coapGetData packetSignedSize msg with
    | none => none
    | some buf =>
      if buf.length ≠ packetSignedSize then none
      else
        let packet := slice buf 8 packetSize
        -- The status is looked at, and logged.
        let _signRes := store.verify psa (u64At 0 buf) packet (slice buf (8 + packetSize) sigLen)
        some packet

inductive Endpoint where
  | raft (t : RpcType)
  | sensor
  | alert
deriving DecidableEq

/-- A node's side of the endpoints.  The alert service has a store of its own. -/
structure Node where
  store : TrustedDeviceStore
  alertStore : TrustedDeviceStore
  replay : SensorReplayDetection := {}
  onReadingBound : Bool := true

/-- A datagram, and what the network layer says about it. -/
structure Datagram where
  bytes : List Byte
  echo : Bool := false
  timeUs : Nat := 0

inductive Callback where
  | onInbound (item : Inbound)
  | onReading (reading : Reading)
  | onAlert (packet : List Byte)
deriving DecidableEq

/-- The callback that the datagram leads to, if any, and the node afterwards. -/
def deliver (psa : Psa) (node : Node) (d : Datagram) : Endpoint → Option Callback × Node
  | .raft t => ((decodeResponse psa node.store t d.bytes).map .onInbound, node)
  | .sensor =>
    let (reading, replay) := sensorRequestHandler psa node.store node.onReadingBound d.timeUs d.bytes node.replay
    (reading.map .onReading, { node with replay := replay })
  | .alert => ((alertHandler psa node.alertStore d.echo d.bytes).map .onAlert, node)

/-! ## Who is let in -/

namespace Endpoint

/-- The length a datagram must have. -/
def length : Endpoint → Nat
  | raft t => 8 + 4 + t.size + sigLen
  | sensor => readingSignedSize
  | alert => packetSignedSize

/-- The bytes that are signed. -/
def payload : Endpoint → List Byte → List Byte
  | raft t, bytes => slice bytes 8 t.size
  | sensor, bytes => slice bytes 0 readingSize
  | alert, bytes => slice bytes 8 packetSize

def signature : Endpoint → List Byte → List Byte
  | raft t, bytes => slice bytes (8 + t.size) sigLen
  | sensor, bytes => slice bytes readingSize sigLen
  | alert, bytes => slice bytes (8 + packetSize) sigLen

def storeOf (node : Node) : Endpoint → TrustedDeviceStore
  | raft _ => node.store
  | sensor => node.store
  | alert => node.alertStore

/-- `verify` succeeds for the payload under the key of the EUI that the datagram claims. -/
def Verified (psa : Psa) (node : Node) (ep : Endpoint) (bytes : List Byte) : Prop :=
  (ep.storeOf node).verify psa (u64At 0 bytes) (ep.payload bytes) (ep.signature bytes) = psaSuccess

end Endpoint

theorem coapGetData_eq_some {cap : Nat} {msg buf : List Byte} (h : coapGetData cap msg = some buf) : buf = msg := by
  unfold coapGetData at h
  split at h
  · cases h
  · injection h with h
    exact h.symm

/-- **What is accepted as an RPC**: an envelope of the right length whose signature verifies. -/
theorem decodeResponse_eq_some {psa : Psa} {store : TrustedDeviceStore} {t : RpcType} {msg : List Byte} {item : Inbound}
    (h : decodeResponse psa store t msg = some item) :
    msg.length = 8 + 4 + t.size + sigLen ∧
      store.verify psa (u64At 0 msg) (slice msg 8 t.size) (slice msg (8 + t.size) sigLen) = psaSuccess ∧
      item = { sender := if t.isResp then u64At 0 msg else 0, rpc := ⟨t, slice msg 8 t.size⟩ } := by
  unfold decodeResponse at h
  dsimp only at h
  split at h
  · cases h
  rename_i buf hbuf
  have heq := coapGetData_eq_some hbuf
  subst heq
  split at h
  · cases h
  rename_i hlen
  split at h
  · cases h
  rename_i hver
  injection h with h
  exact ⟨not_not.1 hlen, not_not.1 hver, h.symm⟩

theorem slice_slice_zero (bytes : List Byte) (h : 8 ≤ readingSize) : u64At 0 (slice bytes 0 readingSize) = u64At 0 bytes := by
  unfold u64At slice
  simp [List.take_take, Nat.min_eq_left h]

theorem sensorRequestHandler_eq_some {psa : Psa} {store : TrustedDeviceStore} {bound : Bool} {timeUs : Nat}
    {msg : List Byte} {replay : SensorReplayDetection} {reading : Reading}
    (h : (sensorRequestHandler psa store bound timeUs msg replay).1 = some reading) :
    store.verify psa (u64At 0 msg) (slice msg 0 readingSize) (slice msg readingSize sigLen) = psaSuccess := by
  unfold sensorRequestHandler at h
  split at h
  · cases h
  rename_i buf hbuf
  have heq := coapGetData_eq_some hbuf
  subst heq
  split at h
  · cases h
  dsimp only at h
  split at h
  · cases h
  rename_i hver
  rw [slice_slice_zero _ (by decide)] at hver
  exact not_not.1 hver

/-- **An alert is let in by its length alone.** -/
theorem alertHandler_eq_some_iff {psa : Psa} {store : TrustedDeviceStore} {echo : Bool} {msg packet : List Byte} :
    alertHandler psa store echo msg = some packet ↔
      echo = false ∧ msg.length = packetSignedSize ∧ packet = slice msg 8 packetSize := by
  unfold alertHandler coapGetData
  cases echo with
  | true => simp
  | false =>
    by_cases hlen : msg.length = packetSignedSize
    · simp [hlen, eq_comm]
    · by_cases hlt : packetSignedSize < msg.length
      · simp [hlt, hlen]
      · simp [hlt, hlen]

/-- **A callback is made only for a datagram that verifies, exactly when** the datagram is not an alert that goes
unverified: one of the right length, not the node's own echo, whose signature does not verify. -/
theorem authenticated_iff (psa : Psa) (node : Node) (d : Datagram) (ep : Endpoint) :
    ((deliver psa node d ep).1.isSome = true → ep.Verified psa node d.bytes) ↔
      (ep = .alert → d.echo = false → d.bytes.length = packetSignedSize → ep.Verified psa node d.bytes) := by
  cases ep with
  | raft t =>
    refine iff_of_true (fun h => ?_) (fun h => (by cases h))
    rw [Option.isSome_iff_exists] at h
    obtain ⟨cb, hcb⟩ := h
    obtain ⟨item, hitem, -⟩ := Option.map_eq_some_iff.1 hcb
    exact (decodeResponse_eq_some hitem).2.1
  | sensor =>
    refine iff_of_true (fun h => ?_) (fun h => (by cases h))
    rw [Option.isSome_iff_exists] at h
    obtain ⟨cb, hcb⟩ := h
    obtain ⟨reading, hreading, -⟩ := Option.map_eq_some_iff.1 hcb
    exact sensorRequestHandler_eq_some hreading
  | alert =>
    have hsome : (deliver psa node d .alert).1.isSome = true ↔ d.echo = false ∧ d.bytes.length = packetSignedSize := by
      rw [Option.isSome_iff_exists]
      constructor
      · rintro ⟨cb, hcb⟩
        obtain ⟨packet, hp, -⟩ := Option.map_eq_some_iff.1 hcb
        obtain ⟨h1, h2, -⟩ := alertHandler_eq_some_iff.1 hp
        exact ⟨h1, h2⟩
      · rintro ⟨h1, h2⟩
        exact ⟨_, Option.map_eq_some_iff.2 ⟨_, alertHandler_eq_some_iff.2 ⟨h1, h2, rfl⟩, rfl⟩⟩
    rw [hsome]
    constructor
    · exact fun h _ h1 h2 => h ⟨h1, h2⟩
    · rintro h ⟨h1, h2⟩
      exact h rfl h1 h2

/-- A library whose digest is the identity and that knows the signature `good` of one digest, under one key. -/
def onlySigned (key : Nat) (digest good : List Byte) : Psa where
  computeDigest := fun bytes => .ok bytes
  verifyHash := fun k d sig => if k = key ∧ d = digest ∧ sig = good then psaSuccess else -149

/-- **Eighty zero bytes are taken for an alert**, by a node that trusts nobody. -/
theorem unsigned_alert_is_let_in :
    let psa := onlySigned 1 [] []
    let node : Node := ⟨⟨[]⟩, ⟨[]⟩, {}, true⟩
    let d : Datagram := ⟨List.replicate 80 0, false, 0⟩
    (deliver psa node d .alert).1 = some (.onAlert [0, 0, 0, 0]) ∧ ¬ Endpoint.alert.Verified psa node d.bytes := by
  refine ⟨by decide, ?_⟩
  unfold Endpoint.Verified
  decide

/-- Node 5 is trusted, under key 3. -/
def trustsFive : TrustedDeviceStore := ⟨[⟨5, 3, true⟩]⟩

end Ingress
end FloodEws
