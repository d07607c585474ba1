import FloodEws.Ingress
import FloodEws.Layout
/-!
# Wire — an RPC on the air

`coap_put` copies the struct of an RPC into an envelope as it lies in memory, padding and all, between the EUI of the
sender and its signature; `decode_response` copies it back.  Both ends run on the same processor, so words are little
endian on both.  What one node puts, any node that trusts its key takes for the same RPC (`decode_put`).
-/
namespace FloodEws
namespace Raft

open Layout (number image)
open Ingress (RpcType Psa TrustedDeviceStore u64 u32 u16 u8 sigLen psaSuccess)

/-! ## The structs -/

/-- The `w` bytes of a word. -/
def word (w n : Nat) : List Byte := Bytes.littleEndian w n

/-- A `bool`. -/
def flag (b : Bool) : List Byte := [if b then 1 else 0]

/-- A `std::array` of `n` bytes whose tail is zero. -/
def fixed (n : Nat) (data : List Byte) : List Byte := (data ++ List.replicate n 0).take n

def readFlag (bytes : List Byte) : Bool := decide (number bytes ≠ 0)

namespace EntryType

def code : EntryType → Nat
  | noop => 0
  | sensorData => 1
  | egressMsg => 2

/-- The enumerator of this number.  A number that is none is read as the type nothing is done for. -/
def ofCode : Nat → EntryType
  | 1 => sensorData
  | 2 => egressMsg
  | _ => noop

@[simp] theorem ofCode_code (t : EntryType) : ofCode t.code = t := by cases t <;> rfl

end EntryType

namespace Entry

/-- The fields of `Entry<>`. -/
def fields : List (Nat × Nat) := [u64, u64, u8, u16, Ingress.array 96 u8]

def values (e : Entry) : List (List Byte) :=
  [word 8 e.term, word 8 e.index, word 1 e.type.code, word 2 e.dataLen, fixed 96 e.data]

def image (gap : Nat → Byte) (e : Entry) : List Byte := Layout.image gap fields e.values

/-- The entry in these bytes, with the filled part of its data. -/
def read (bytes : List Byte) : Entry :=
  let dataLen := number (Layout.field fields 3 bytes)
  { term := number (Layout.field fields 0 bytes)
    index := number (Layout.field fields 1 bytes)
    type := .ofCode (number (Layout.field fields 2 bytes))
    dataLen := dataLen
    data := (Layout.field fields 4 bytes).take dataLen }

/-- Its numbers fit their words. -/
def Small (e : Entry) : Prop := e.term < 2 ^ 64 ∧ e.index < 2 ^ 64

/-- Its data is inside its array. -/
def Sized (e : Entry) : Prop := e.data.length = e.dataLen ∧ e.dataLen ≤ 96

end Entry

/-- `m_entries`: the filled slots, then value-initialised ones.  `gap` is the padding of the whole array. -/
def slots (gap : Nat → Byte) (es : List Entry) : List Byte :=
  ((es ++ List.replicate (8 - es.length) ({} : Entry)).zipIdx).flatMap
    (fun (p : Entry × Nat) => p.1.image (fun k => gap (120 * p.2 + k)))

/-- The first `n` of the eight slots. -/
def readSlots (n : Nat) (bytes : List Byte) : List Entry :=
  (List.range (min n 8)).map (fun i => Entry.read (Bytes.slice bytes (120 * i) 120))

namespace Payload

def type : Payload → RpcType
  | requestVote _ => .requestVote
  | requestVoteResp _ => .requestVoteResp
  | appendEntries _ => .appendEntries
  | appendEntriesResp _ => .appendEntriesResp
  | installSnapshot _ => .installSnapshot
  | installSnapshotResp _ => .installSnapshotResp

/-- The bytes of the fields of the struct. -/
def values (gap : Nat → Byte) : Payload → List (List Byte)
  | requestVote rv =>
    [word 8 rv.term, word 8 rv.candidateId, word 8 rv.lastLogIndex, word 8 rv.lastLogTerm, flag rv.preVote]
  | requestVoteResp rr => [word 8 rr.term, flag rr.voteGranted, flag rr.preVote]
  | appendEntries ae =>
    [word 8 ae.term, word 8 ae.leaderId, word 8 ae.prevLogIndex, word 8 ae.prevLogTerm, word 8 ae.leaderCommit,
      word 2 ae.nEntries, slots gap ae.entries]
  | appendEntriesResp rr =>
    [word 8 rr.term, flag rr.success, word 8 rr.conflictIndex, word 8 rr.conflictTerm, word 8 rr.lastLogIndex]
  | installSnapshot is =>
    [word 8 is.term, word 8 is.leaderId, word 8 is.lastIncludedIndex, word 8 is.lastIncludedTerm, word 4 is.offset,
      word 4 is.totalLen, word 2 is.dataLen, flag is.done, fixed 256 is.data]
  | installSnapshotResp rr => [word 8 rr.term, word 8 rr.lastIncludedIndex]

def image (gap : Nat → Byte) (p : Payload) : List Byte := Layout.image gap p.type.fields (p.values gap)

/-- `std::memcpy(&rpc, payload_ptr, sizeof(T))`. -/
def read (t : RpcType) (bytes : List Byte) : Payload :=
  let at' := fun i => Layout.field t.fields i bytes
  match t with
  | .requestVote => requestVote
    { term := number (at' 0), candidateId := number (at' 1), lastLogIndex := number (at' 2),
      lastLogTerm := number (at' 3), preVote := readFlag (at' 4) }
  | .requestVoteResp => requestVoteResp
    { term := number (at' 0), voteGranted := readFlag (at' 1), preVote := readFlag (at' 2) }
  | .appendEntries => appendEntries
    { term := number (at' 0), leaderId := number (at' 1), prevLogIndex := number (at' 2), prevLogTerm := number (at' 3),
      leaderCommit := number (at' 4), nEntries := number (at' 5), entries := readSlots (number (at' 5)) (at' 6) }
  | .appendEntriesResp => appendEntriesResp
    { term := number (at' 0), success := readFlag (at' 1), conflictIndex := number (at' 2),
      conflictTerm := number (at' 3), lastLogIndex := number (at' 4) }
  | .installSnapshot => installSnapshot
    { term := number (at' 0), leaderId := number (at' 1), lastIncludedIndex := number (at' 2),
      lastIncludedTerm := number (at' 3), offset := number (at' 4), totalLen := number (at' 5),
      dataLen := number (at' 6), done := readFlag (at' 7), data := (at' 8).take (number (at' 6)) }
  | .installSnapshotResp => installSnapshotResp { term := number (at' 0), lastIncludedIndex := number (at' 1) }

/-- Its numbers fit their words. -/
def Small : Payload → Prop
  | requestVote rv =>
    rv.term < 2 ^ 64 ∧ rv.candidateId < 2 ^ 64 ∧ rv.lastLogIndex < 2 ^ 64 ∧ rv.lastLogTerm < 2 ^ 64
  | requestVoteResp rr => rr.term < 2 ^ 64
  | appendEntries ae => ae.term < 2 ^ 64 ∧ ae.leaderId < 2 ^ 64 ∧ ae.prevLogIndex < 2 ^ 64 ∧ ae.prevLogTerm < 2 ^ 64 ∧
      ae.leaderCommit < 2 ^ 64 ∧ ∀ e ∈ ae.entries, e.Small
  | appendEntriesResp rr =>
    rr.term < 2 ^ 64 ∧ rr.conflictIndex < 2 ^ 64 ∧ rr.conflictTerm < 2 ^ 64 ∧ rr.lastLogIndex < 2 ^ 64
  | installSnapshot is => is.term < 2 ^ 64 ∧ is.leaderId < 2 ^ 64 ∧ is.lastIncludedIndex < 2 ^ 64 ∧
      is.lastIncludedTerm < 2 ^ 64 ∧ is.offset < 2 ^ 32 ∧ is.totalLen < 2 ^ 32
  | installSnapshotResp rr => rr.term < 2 ^ 64 ∧ rr.lastIncludedIndex < 2 ^ 64

/-- Its arrays hold what their lengths say. -/
def Sized : Payload → Prop
  | appendEntries ae => ae.entries.length = ae.nEntries ∧ ae.nEntries ≤ 8 ∧ ∀ e ∈ ae.entries, e.Sized
  | installSnapshot is => is.data.length = is.dataLen ∧ is.dataLen ≤ 256
  | _ => True

end Payload

/-! ## The envelope -/

/-- The bytes `coap_put` sends: the sender's EUI, the struct, the signature, and four bytes that are never written. -/
def envelope (ownEui : Nat) (payload sig : List Byte) : List Byte := word 8 ownEui ++ (payload ++ (sig ++ [0, 0, 0, 0]))

/-- `coap_put`: nothing is sent when signing fails. -/
def coapPut (gap : Nat → Byte) (sign : List Byte → Option (List Byte)) (ownEui : Nat) (p : Payload) :
    Option (RpcType × List Byte) :=
  (sign (p.image gap)).map (fun sig => (p.type, envelope ownEui (p.image gap) sig))

/-- `decode_response<T>`: the `Message` handed to `m_on_inbound`.  Its `to` is left at 0, and so is the `from` of a
request. -/
def decodeMessage (psa : Psa) (store : TrustedDeviceStore) (t : RpcType) (msg : List Byte) : Option Message :=
  (Ingress.decodeResponse psa store t msg).map (fun item => ⟨item.sender, 0, .read item.rpc.type item.rpc.bytes⟩)

/-! ## Reading back -/

@[simp] theorem length_word (w n : Nat) : (word w n).length = w := Bytes.length_littleEndian w n

@[simp] theorem length_fixed (n : Nat) (data : List Byte) : (fixed n data).length = n := by
  simp [fixed]

theorem length_flag (b : Bool) : (flag b).length = 1 := rfl

@[simp] theorem readFlag_flag (b : Bool) : readFlag (flag b) = b := by cases b <;> decide

theorem number_word8 {n : Nat} (h : n < 2 ^ 64) : number (word 8 n) = n := Layout.number_littleEndian_of_lt h

theorem number_word4 {n : Nat} (h : n < 2 ^ 32) : number (word 4 n) = n := Layout.number_littleEndian_of_lt h

theorem number_word2 {n : Nat} (h : n < 2 ^ 16) : number (word 2 n) = n := Layout.number_littleEndian_of_lt h

theorem number_code (t : EntryType) : number (word 1 t.code) = t.code := by cases t <;> decide

theorem take_fixed {n : Nat} {data : List Byte} (h : data.length ≤ n) : (fixed n data).take data.length = data := by
  rw [fixed, List.take_take, Nat.min_eq_left h, List.take_left]

theorem slice_fixed {n o w : Nat} {data : List Byte} (hn : o + w ≤ n) (h : o + w ≤ data.length) :
    Bytes.slice (fixed n data) o w = Bytes.slice data o w := by
  rw [fixed, Bytes.slice_take hn, Bytes.slice_append_left h]

namespace Entry

theorem fits (e : Entry) : Layout.Fits fields e.values := by
  simp [Layout.Fits, fields, values, u64, u16, u8, Ingress.array]

theorem length_image (gap : Nat → Byte) (e : Entry) : (e.image gap).length = 120 :=
  Layout.length_image gap e.fits

/-- **An entry is read back**, whatever its padding. -/
theorem read_image (gap : Nat → Byte) {e : Entry} (hsmall : e.Small) (hsized : e.Sized) : read (e.image gap) = e := by
  have hread : ∀ i bytes, e.values[i]? = some bytes → Layout.field fields i (e.image gap) = bytes :=
    fun i bytes hb => Layout.field_image gap e.fits hb
  obtain ⟨hterm, hindex⟩ := hsmall
  obtain ⟨hdata, hlen⟩ := hsized
  have htake : (fixed 96 e.data).take e.dataLen = e.data := by rw [← hdata, take_fixed (by omega)]
  unfold read
  dsimp only
  rw [hread 0 _ rfl, hread 1 _ rfl, hread 2 _ rfl, hread 3 _ rfl, hread 4 _ rfl, number_word8 hterm,
    number_word8 hindex, number_code, number_word2 (by omega), EntryType.ofCode_code, htake]

end Entry

theorem length_slots (gap : Nat → Byte) {es : List Entry} (h : es.length ≤ 8) : (slots gap es).length = 960 := by
  have hblock : ∀ p : Entry × Nat, (p.1.image (fun k => gap (120 * p.2 + k))).length = 120 :=
    fun p => p.1.length_image _
  rw [slots, Bytes.length_flatMap_blocks hblock]
  simp
  omega

/-- **The filled slots are read back.** -/
theorem readSlots_slots (gap : Nat → Byte) {es : List Entry} (h : es.length ≤ 8) (hsmall : ∀ e ∈ es, e.Small)
    (hsized : ∀ e ∈ es, e.Sized) : readSlots es.length (slots gap es) = es := by
  refine List.ext_getElem? (fun i => ?_)
  unfold readSlots
  rw [List.getElem?_map, Nat.min_eq_left h]
  rcases Nat.lt_or_ge i es.length with hi | hi
  · have hslot : ((es ++ List.replicate (8 - es.length) ({} : Entry)).zipIdx)[i]? = some (es[i], i) := by
      rw [List.getElem?_zipIdx, List.getElem?_append_left hi, List.getElem?_eq_getElem hi]
      simp
    have hslice := Bytes.slice_flatMap (f := fun p : Entry × Nat => p.1.image (fun k => gap (120 * p.2 + k)))
      (fun p => p.1.length_image _) _ i _ hslot
    have hmem : es[i] ∈ es := List.getElem_mem hi
    rw [List.getElem?_range hi, Option.map_some, slots, hslice,
      Entry.read_image _ (hsmall _ hmem) (hsized _ hmem), List.getElem?_eq_getElem hi]
  · rw [List.getElem?_eq_none (by simpa using hi), List.getElem?_eq_none hi]
    rfl

namespace Payload

theorem fits (gap : Nat → Byte) {p : Payload} (h : p.Sized) : Layout.Fits p.type.fields (p.values gap) := by
  cases p with
  | appendEntries ae =>
    have hslots : (slots gap ae.entries).length = 960 := length_slots gap (h.1 ▸ h.2.1)
    simp [Layout.Fits, type, values, RpcType.fields, RpcType.entry, u64, u16, u8, Ingress.array, Layout.structSize,
      Layout.fieldsEnd, Layout.alignUp, hslots]
  | _ => simp [Layout.Fits, type, values, RpcType.fields, u64, u32, u16, u8, Ingress.array, length_flag]

theorem length_image (gap : Nat → Byte) {p : Payload} (h : p.Sized) : (p.image gap).length = p.type.size := by
  have hsize : ∀ t : RpcType, Layout.structSize t.fields = t.size := by intro t; cases t <;> decide
  rw [← hsize]
  exact Layout.length_image gap (fits gap h)

/-- **Every RPC is read back from its struct**, whatever the padding. -/
theorem read_image (gap : Nat → Byte) {p : Payload} (hsmall : p.Small) (hsized : p.Sized) :
    read p.type (p.image gap) = p := by
  have hread : ∀ t i bytes, p.type = t → (p.values gap)[i]? = some bytes →
      Layout.field t.fields i (p.image gap) = bytes := by
    rintro t i bytes rfl hb
    exact Layout.field_image gap (fits gap hsized) hb
  cases p with
  | requestVote rv =>
    have hf := fun i bytes => hread .requestVote i bytes rfl
    obtain ⟨h0, h1, h2, h3⟩ := hsmall
    unfold read
    simp only [type]
    rw [hf 0 _ rfl, hf 1 _ rfl, hf 2 _ rfl, hf 3 _ rfl, hf 4 _ rfl, number_word8 h0, number_word8 h1,
      number_word8 h2, number_word8 h3, readFlag_flag]
  | requestVoteResp rr =>
    have hf := fun i bytes => hread .requestVoteResp i bytes rfl
    unfold read
    simp only [type]
    rw [hf 0 _ rfl, hf 1 _ rfl, hf 2 _ rfl, number_word8 hsmall, readFlag_flag, readFlag_flag]
  | appendEntries ae =>
    have hf := fun i bytes => hread .appendEntries i bytes rfl
    obtain ⟨h0, h1, h2, h3, h4, hes⟩ := hsmall
    obtain ⟨hlen, hle, hsz⟩ := hsized
    have hslots : readSlots ae.nEntries (slots gap ae.entries) = ae.entries := by
      rw [← hlen]
      exact readSlots_slots gap (hlen ▸ hle) hes hsz
    unfold read
    simp only [type]
    rw [hf 0 _ rfl, hf 1 _ rfl, hf 2 _ rfl, hf 3 _ rfl, hf 4 _ rfl, hf 5 _ rfl, hf 6 _ rfl, number_word8 h0,
      number_word8 h1, number_word8 h2, number_word8 h3, number_word8 h4, number_word2 (by omega), hslots]
  | appendEntriesResp rr =>
    have hf := fun i bytes => hread .appendEntriesResp i bytes rfl
    obtain ⟨h0, h1, h2, h3⟩ := hsmall
    unfold read
    simp only [type]
    rw [hf 0 _ rfl, hf 1 _ rfl, hf 2 _ rfl, hf 3 _ rfl, hf 4 _ rfl, number_word8 h0, number_word8 h1,
      number_word8 h2, number_word8 h3, readFlag_flag]
  | installSnapshot is =>
    have hf := fun i bytes => hread .installSnapshot i bytes rfl
    obtain ⟨h0, h1, h2, h3, h4, h5⟩ := hsmall
    obtain ⟨hdata, hle⟩ := hsized
    have htake : (fixed 256 is.data).take is.dataLen = is.data := by rw [← hdata, take_fixed (by omega)]
    unfold read
    simp only [type]
    rw [hf 0 _ rfl, hf 1 _ rfl, hf 2 _ rfl, hf 3 _ rfl, hf 4 _ rfl, hf 5 _ rfl, hf 6 _ rfl, hf 7 _ rfl, hf 8 _ rfl,
      number_word8 h0, number_word8 h1, number_word8 h2, number_word8 h3, number_word4 h4, number_word4 h5,
      number_word2 (by omega), readFlag_flag, htake]
  | installSnapshotResp rr =>
    have hf := fun i bytes => hread .installSnapshotResp i bytes rfl
    obtain ⟨h0, h1⟩ := hsmall
    unfold read
    simp only [type]
    rw [hf 0 _ rfl, hf 1 _ rfl, number_word8 h0, number_word8 h1]

end Payload

/-! ## Put and decoded -/

theorem length_envelope (ownEui : Nat) {payload sig : List Byte} {n : Nat} (hp : payload.length = n)
    (hs : sig.length = sigLen) : (envelope ownEui payload sig).length = 8 + 4 + n + sigLen := by
  rw [envelope, List.length_append, List.length_append, List.length_append, length_word, hp, hs]
  show 8 + (n + (sigLen + 4)) = _
  omega

/-- **The parts of an envelope.** -/
theorem parts_envelope {ownEui : Nat} (he : ownEui < 2 ^ 64) {payload sig : List Byte} {n : Nat}
    (hp : payload.length = n) (hs : sig.length = sigLen) :
    Ingress.u64At 0 (envelope ownEui payload sig) = ownEui ∧ Bytes.slice (envelope ownEui payload sig) 8 n = payload ∧
      Bytes.slice (envelope ownEui payload sig) (8 + n) sigLen = sig := by
  refine ⟨?_, ?_, ?_⟩
  · show number (Bytes.slice (word 8 ownEui ++ _) 0 8) = ownEui
    rw [Bytes.slice_append_first (length_word 8 ownEui), number_word8 he]
  · show Bytes.slice (word 8 ownEui ++ _) (8 + 0) n = payload
    rw [Bytes.slice_append_right (length_word 8 ownEui), Bytes.slice_append_first hp]
  · show Bytes.slice (word 8 ownEui ++ _) (8 + n) sigLen = sig
    rw [Bytes.slice_append_right (length_word 8 ownEui)]
    show Bytes.slice (payload ++ _) (n + 0) sigLen = sig
    rw [Bytes.slice_append_right hp, Bytes.slice_append_first hs]

/-- **What a node puts, a node that trusts its key decodes to the same RPC**, from the EUI of the sender where the
endpoint resolves it. -/
theorem decode_put (psa : Psa) (store : TrustedDeviceStore) (gap : Nat → Byte) (sign : List Byte → Option (List Byte))
    (ownEui : Nat) (he : ownEui < 2 ^ 64) (p : Payload) (hsmall : p.Small) (hsized : p.Sized)
    (hsign : ∀ sig, sign (p.image gap) = some sig →
      sig.length = sigLen ∧ store.verify psa ownEui (p.image gap) sig = psaSuccess)
    (t : RpcType) (msg : List Byte) (hput : coapPut gap sign ownEui p = some (t, msg)) :
    t = p.type ∧ decodeMessage psa store t msg = some ⟨if t.isResp then ownEui else 0, 0, p⟩ := by
  obtain ⟨sig, hsig, hput⟩ := Option.map_eq_some_iff.1 hput
  obtain ⟨rfl, rfl⟩ := Prod.mk.inj hput
  obtain ⟨hlen, hver⟩ := hsign sig hsig
  obtain ⟨heui, hpayload, hsigned⟩ := parts_envelope he (Payload.length_image gap hsized) hlen
  have hwhole := length_envelope ownEui (Payload.length_image gap hsized) hlen
  refine ⟨rfl, ?_⟩
  have hdecoded : Ingress.decodeResponse psa store p.type (envelope ownEui (p.image gap) sig) =
      some { sender := if p.type.isResp then ownEui else 0, rpc := ⟨p.type, p.image gap⟩ } := by
    have hget : Ingress.coapGetData (8 + 4 + p.type.size + sigLen) (envelope ownEui (p.image gap) sig) =
        some (envelope ownEui (p.image gap) sig) := by
      rw [Ingress.coapGetData, hwhole, if_neg (Nat.lt_irrefl _)]
    unfold Ingress.decodeResponse
    simp only [hget, hwhole, heui, hpayload, hsigned, hver, ne_eq, not_true_eq_false, if_false]
  rw [decodeMessage, hdecoded, Option.map_some, Payload.read_image gap hsmall hsized]

/-- Node 5 grants a vote in term 1. -/
def granted : Payload := .requestVoteResp { term := 1, voteGranted := true }

/-- The vote of node 5 gets through, with `[9, 9, …]` for its signature and rubbish in the padding. -/
theorem decode_put_granted :
    let bytes := granted.image (fun _ => 0xAA)
    decodeMessage (Ingress.onlySigned 3 bytes (List.replicate 64 9)) Ingress.trustsFive .requestVoteResp
      (envelope 5 bytes (List.replicate 64 9)) = some ⟨5, 0, granted⟩ := by
  refine (decode_put (Ingress.onlySigned 3 (granted.image (fun _ => 0xAA)) (List.replicate 64 9)) Ingress.trustsFive
    (fun _ => 0xAA) (fun _ => some (List.replicate 64 9)) 5 (by decide) granted
    (by decide : (1 : Nat) < 2 ^ 64) trivial ?_ .requestVoteResp _ rfl).2
  intro sig hsig
  obtain rfl := Option.some.inj hsig
  exact ⟨by decide, by decide⟩

end Raft
end FloodEws
