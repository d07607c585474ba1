import FloodEws.Bytes
import Mathlib.Data.Nat.Bitwise
/-!
# Lorawan — an uplink on the wire, from the firmware to the network server

The fog node packs a batch into a `Payload` (`lorawan/protocol.hpp`) and hands its bytes to the modem as the hexadecimal
text of an `AT+MSGHEX` command (`build_uplink` of `lorawan/join.hpp`).  The network server decodes the bytes in JavaScript
(`decodeUplink` of `chirpstack-codec/codec.js`), where the bit operators work on signed 32-bit integers and 64-bit values
are handed on as decimal strings.

The two sides agree on every payload, and a frame that was cut off is reported and decoded up to its last whole entry
(`uplink_round_trip`).
-/
namespace FloodEws
namespace Lorawan

open Bytes

/-! ## The firmware -/

abbrev maxEntries : Nat := 3

structure Entry where
  deviceRloc : UInt64 := 0
  waterLevelMm : UInt16 := 0
  validity : UInt8 := 0
  detail : UInt8 := 0
  timestamp : UInt32 := 0
deriving DecidableEq, Repr

structure Payload where
  nodeId : UInt64 := 0
  raftTerm : UInt32 := 0
  raftLogIndex : UInt32 := 0
  sequence : UInt32 := 0
  alert : UInt8 := 0
  count : UInt8 := 0
  entries : Vector Entry maxEntries := .replicate maxEntries {}
deriving DecidableEq, Repr

/-- An entry in memory: packed, on a little-endian machine. -/
def Entry.image (e : Entry) : List UInt8 :=
  littleEndian 8 e.deviceRloc.toNat ++ (littleEndian 2 e.waterLevelMm.toNat ++
    ([e.validity, e.detail] ++ littleEndian 4 e.timestamp.toNat))

namespace Payload

/-- The fields before the entries. -/
def header (p : Payload) : List UInt8 :=
  littleEndian 8 p.nodeId.toNat ++ (littleEndian 4 p.raftTerm.toNat ++ (littleEndian 4 p.raftLogIndex.toNat ++
    (littleEndian 4 p.sequence.toNat ++ [p.alert, p.count])))

def image (p : Payload) : List UInt8 := p.header ++ p.entries.toList.flatMap Entry.image

end Payload

def wireLen (p : Payload) : Nat := 22 + p.count.toNat * 16

def wireBytes (p : Payload) : List UInt8 := p.image.take (wireLen p)

/-- `to_hex`, into a buffer of `outSize` characters. -/
def toHex (bytes : List UInt8) (outSize : Nat) : Option (List Char) :=
  if outSize < bytes.length * 2 then none else some (hex bytes)

def msgStartCmd : List Char := "AT+MSGHEX=\"".toList

def msgEndCmd : List Char := "\"".toList

def buildUplink (p : Payload) (outSize : Nat) : Option (List Char) :=
  if outSize < msgStartCmd.length + (wireBytes p).length * 2 + msgEndCmd.length then none
  else match toHex (wireBytes p) (outSize - msgStartCmd.length) with
    | none => none
    | some text => some (msgStartCmd ++ text ++ msgEndCmd)

/-! ## The codec -/

/-- `b[o]`. -/
def byteAt (b : List UInt8) (o : Nat) : Nat := (b.getD o 0).toNat

/-- `b[o]` as an operand of a bit operator. -/
def operand (b : List UInt8) (o : Nat) : BitVec 32 := BitVec.ofNat 32 (byteAt b o)

def rdU16LE (b : List UInt8) (o : Nat) : Int := (operand b o ||| operand b (o + 1) <<< 8).toInt

/-- The last operator, `>>> 0`, reads the result as unsigned. -/
def rdU32LE (b : List UInt8) (o : Nat) : Nat :=
  (operand b o ||| operand b (o + 1) <<< 8 ||| operand b (o + 2) <<< 16 ||| operand b (o + 3) <<< 24).toNat

def rdU64LE (b : List UInt8) (o : Nat) : String := toString (rdU32LE b (o + 4) <<< 32 ||| rdU32LE b o)

def headerSize : Nat := 22

def entrySize : Nat := 16

def validityName : Nat → String
  | 0 => "GOOD"
  | 1 => "INVALID"
  | 2 => "QUESTIONABLE"
  | code => "UNKNOWN_" ++ toString code

structure DecodedEntry where
  deviceEui : String
  waterLevelMm : Int
  validity : String
  validityCode : Nat
  outlier : Bool
  detail : Nat
  timestamp : Nat
deriving DecidableEq, Repr

structure Decoded where
  nodeId : String
  raftTerm : Nat
  raftLogIndex : Nat
  seq : Nat
  alert : Bool
  count : Nat
  entries : List DecodedEntry
deriving DecidableEq, Repr

structure Input where
  bytes : List UInt8
  fPort : Option Nat
deriving DecidableEq, Repr

/-- `none` for an empty `data`, and for `errors` and `warnings` that are undefined. -/
structure Output where
  data : Option Decoded
  errors : Option (List String)
  warnings : Option (List String)
deriving DecidableEq, Repr

def decodeEntry (b : List UInt8) (off : Nat) : DecodedEntry where
  deviceEui := rdU64LE b off
  waterLevelMm := rdU16LE b (off + 8)
  validity := validityName (byteAt b (off + 10))
  validityCode := byteAt b (off + 10)
  outlier := decide (byteAt b (off + 11) &&& 0x10 ≠ 0)
  detail := byteAt b (off + 11)
  timestamp := rdU32LE b (off + 12)

/-- The whole entries a frame of this length has room for. -/
def clampCount (length : Nat) : Nat :=
  let count : Int := ((length : Int) - headerSize) / entrySize
  (if count < 0 then 0 else count).toNat

def warningsFor (fPort : Option Nat) : Option (List String) :=
  match fPort with
  | none => none
  | some port => if port ≠ 1 then some ["unexpected fPort " ++ toString port] else none

def tooShort (count length : Nat) : String :=
  "payload too short: count=" ++ toString count ++ " expects " ++ toString (headerSize + count * entrySize) ++
    " bytes, got " ++ toString length

def decodeUplink (input : Input) : Output :=
  let b := input.bytes
  if b.length < headerSize then
    { data := none, errors := some ["payload shorter than 18-byte header"], warnings := none }
  else
    let declared := byteAt b 21
    let short := b.length < headerSize + declared * entrySize
    let count := if short then clampCount b.length else declared
    { data := some
        { nodeId := rdU64LE b 0
          raftTerm := rdU32LE b 8
          raftLogIndex := rdU32LE b 12
          seq := rdU32LE b 16
          alert := decide (byteAt b 20 = 1)
          count := count
          entries := (List.range count).map (fun i => decodeEntry b (headerSize + i * entrySize)) }
      errors := if short then some [tooShort declared b.length] else none
      warnings := warningsFor input.fPort }

/-! ## Reading a word back -/

section

variable {b : List UInt8} {o w : Nat}

theorem byteAt_slice {i : Nat} (h : i < w) : byteAt (slice b o w) i = byteAt b (o + i) := by
  rw [byteAt, byteAt, getD_slice h]

theorem rdU16LE_slice (h : o + 2 ≤ w) (n : Nat) : rdU16LE (slice b n w) o = rdU16LE b (n + o) := by
  simp (disch := omega) only [rdU16LE, operand, byteAt_slice, Nat.add_assoc]

theorem rdU32LE_slice (h : o + 4 ≤ w) (n : Nat) : rdU32LE (slice b n w) o = rdU32LE b (n + o) := by
  simp (disch := omega) only [rdU32LE, operand, byteAt_slice, Nat.add_assoc]

theorem rdU64LE_slice (h : o + 8 ≤ w) (n : Nat) : rdU64LE (slice b n w) o = rdU64LE b (n + o) := by
  simp (disch := omega) only [rdU64LE, rdU32LE_slice, Nat.add_assoc]

end

/-- **The signed operators assemble the bytes**: four of them fill the word and no two overlap. -/
theorem or_bytes {a b c d : Nat} (ha : a < 256) (hb : b < 256) (hc : c < 256) (hd : d < 256) :
    (BitVec.ofNat 32 a ||| BitVec.ofNat 32 b <<< 8 ||| BitVec.ofNat 32 c <<< 16 ||| BitVec.ofNat 32 d <<< 24).toNat =
      a + 2 ^ 8 * b + 2 ^ 16 * c + 2 ^ 24 * d := by
  have h1 : b <<< 8 + a = b <<< 8 ||| a := Nat.shiftLeft_add_eq_or_of_lt (by omega) b
  have h2 : c <<< 16 + (b <<< 8 + a) = c <<< 16 ||| (b <<< 8 + a) :=
    Nat.shiftLeft_add_eq_or_of_lt (by rw [Nat.shiftLeft_eq]; omega) c
  have h3 : d <<< 24 + (c <<< 16 + (b <<< 8 + a)) = d <<< 24 ||| (c <<< 16 + (b <<< 8 + a)) :=
    Nat.shiftLeft_add_eq_or_of_lt (by simp only [Nat.shiftLeft_eq]; omega) d
  simp only [BitVec.toNat_or, BitVec.toNat_shiftLeft, BitVec.toNat_ofNat]
  rw [Nat.mod_eq_of_lt (a := a) (by omega), Nat.mod_eq_of_lt (a := b) (by omega), Nat.mod_eq_of_lt (a := c) (by omega),
    Nat.mod_eq_of_lt (a := d) (by omega)]
  rw [Nat.mod_eq_of_lt (a := b <<< 8) (by rw [Nat.shiftLeft_eq]; omega),
    Nat.mod_eq_of_lt (a := c <<< 16) (by rw [Nat.shiftLeft_eq]; omega),
    Nat.mod_eq_of_lt (a := d <<< 24) (by rw [Nat.shiftLeft_eq]; omega)]
  rw [Nat.or_comm a, ← h1, Nat.or_comm _ (c <<< 16), ← h2, Nat.or_comm _ (d <<< 24), ← h3]
  simp only [Nat.shiftLeft_eq]
  omega

theorem rdU32LE_eq (b : List UInt8) (o : Nat) :
    rdU32LE b o = byteAt b o + 2 ^ 8 * byteAt b (o + 1) + 2 ^ 16 * byteAt b (o + 2) + 2 ^ 24 * byteAt b (o + 3) :=
  or_bytes (UInt8.toNat_lt _) (UInt8.toNat_lt _) (UInt8.toNat_lt _) (UInt8.toNat_lt _)

theorem rdU16LE_eq (b : List UInt8) (o : Nat) : rdU16LE b o = byteAt b o + 2 ^ 8 * byteAt b (o + 1) := by
  have h0 : byteAt b o < 256 := UInt8.toNat_lt _
  have h1 : byteAt b (o + 1) < 256 := UInt8.toNat_lt _
  have hnat := or_bytes h0 h1 (Nat.zero_lt_succ 255) (Nat.zero_lt_succ 255)
  simp only [BitVec.zero_shiftLeft, BitVec.or_zero] at hnat
  rw [rdU16LE, operand, operand, BitVec.toInt_eq_toNat_of_lt (by omega), hnat]
  omega

theorem rdU64LE_eq (b : List UInt8) (o : Nat) : rdU64LE b o = toString (2 ^ 32 * rdU32LE b (o + 4) + rdU32LE b o) := by
  have hlow : rdU32LE b o < 2 ^ 32 := BitVec.isLt _
  rw [rdU64LE, ← Nat.shiftLeft_add_eq_or_of_lt hlow, Nat.shiftLeft_eq, Nat.mul_comm]

theorem byteAt_littleEndian (w : Nat) : ∀ (n i : Nat), i < w → byteAt (littleEndian w n) i = n / 256 ^ i % 256 := by
  induction w with
  | zero => exact fun n i h => absurd h (Nat.not_lt_zero i)
  | succ w ih =>
    intro n i h
    cases i with
    | zero => simp [byteAt, littleEndian]
    | succ i =>
      rw [Nat.pow_succ', ← Nat.div_div_eq_div_mul, ← ih (n / 256) i (by omega)]
      rfl

theorem rdU16LE_littleEndian (x : UInt16) : rdU16LE (littleEndian 2 x.toNat) 0 = x.toNat := by
  have hx := x.toNat_lt
  rw [rdU16LE_eq, byteAt_littleEndian 2 _ _ (by omega), byteAt_littleEndian 2 _ _ (by omega)]
  omega

theorem rdU32LE_littleEndian (x : UInt32) : rdU32LE (littleEndian 4 x.toNat) 0 = x.toNat := by
  have hx := x.toNat_lt
  rw [rdU32LE_eq, byteAt_littleEndian 4 _ _ (by omega), byteAt_littleEndian 4 _ _ (by omega),
    byteAt_littleEndian 4 _ _ (by omega), byteAt_littleEndian 4 _ _ (by omega)]
  omega

theorem rdU64LE_littleEndian (x : UInt64) : rdU64LE (littleEndian 8 x.toNat) 0 = toString x.toNat := by
  have hx := x.toNat_lt
  have hword : 2 ^ 32 * rdU32LE (littleEndian 8 x.toNat) (0 + 4) + rdU32LE (littleEndian 8 x.toNat) 0 = x.toNat := by
    simp (disch := omega) only [rdU32LE_eq, byteAt_littleEndian]
    omega
  rw [rdU64LE_eq, hword]

/-! ## The round trip -/

/-- What an entry says, in the codec's terms. -/
def Entry.decoded (e : Entry) : DecodedEntry where
  deviceEui := toString e.deviceRloc.toNat
  waterLevelMm := e.waterLevelMm.toNat
  validity := validityName e.validity.toNat
  validityCode := e.validity.toNat
  outlier := e.detail.toNat.testBit 4
  detail := e.detail.toNat
  timestamp := e.timestamp.toNat

/-- What a payload says, in the codec's terms, with its first `n` entries. -/
def Payload.decoded (p : Payload) (n : Nat) : Decoded where
  nodeId := toString p.nodeId.toNat
  raftTerm := p.raftTerm.toNat
  raftLogIndex := p.raftLogIndex.toNat
  seq := p.sequence.toNat
  alert := decide (p.alert ≠ 0)
  count := n
  entries := (p.entries.toList.take n).map Entry.decoded

theorem length_image (e : Entry) : e.image.length = 16 := by
  simp [Entry.image]

theorem length_header (p : Payload) : p.header.length = 22 := by
  simp [Payload.header]

theorem decodeEntry_slice (b : List UInt8) (off : Nat) : decodeEntry (slice b off 16) 0 = decodeEntry b off := by
  simp (disch := omega) only [decodeEntry, rdU16LE_slice, rdU32LE_slice, rdU64LE_slice, byteAt_slice, Nat.zero_add,
    Nat.add_zero]

/-- Where the fields of an entry are. -/
theorem image_fields (e : Entry) :
    slice e.image 0 8 = littleEndian 8 e.deviceRloc.toNat ∧ slice e.image 8 2 = littleEndian 2 e.waterLevelMm.toNat ∧
    slice e.image 10 2 = [e.validity, e.detail] ∧ slice e.image 12 4 = littleEndian 4 e.timestamp.toNat := by
  have hlen := length_littleEndian
  refine ⟨slice_append_first (hlen _ _), ?_, ?_, ?_⟩
  · rw [Entry.image, slice_append_right (k := 0) (hlen _ _)]
    exact slice_append_first (hlen _ _)
  · rw [Entry.image, slice_append_right (k := 2) (hlen _ _), slice_append_right (k := 0) (hlen _ _)]
    exact slice_append_first rfl
  · rw [Entry.image, slice_append_right (k := 4) (hlen _ _), slice_append_right (k := 2) (hlen _ _)]
    show (littleEndian 4 e.timestamp.toNat).take 4 = _
    rw [List.take_of_length_le (by simp)]

/-- Where the fields of the header are. -/
theorem header_fields (p : Payload) :
    slice p.header 0 8 = littleEndian 8 p.nodeId.toNat ∧ slice p.header 8 4 = littleEndian 4 p.raftTerm.toNat ∧
    slice p.header 12 4 = littleEndian 4 p.raftLogIndex.toNat ∧ slice p.header 16 4 = littleEndian 4 p.sequence.toNat ∧
    slice p.header 20 2 = [p.alert, p.count] := by
  have hlen := length_littleEndian
  refine ⟨slice_append_first (hlen _ _), ?_, ?_, ?_, ?_⟩
  · rw [Payload.header, slice_append_right (k := 0) (hlen _ _)]
    exact slice_append_first (hlen _ _)
  · rw [Payload.header, slice_append_right (k := 4) (hlen _ _), slice_append_right (k := 0) (hlen _ _)]
    exact slice_append_first (hlen _ _)
  · rw [Payload.header, slice_append_right (k := 8) (hlen _ _), slice_append_right (k := 4) (hlen _ _),
      slice_append_right (k := 0) (hlen _ _)]
    exact slice_append_first (hlen _ _)
  · rw [Payload.header, slice_append_right (k := 12) (hlen _ _), slice_append_right (k := 8) (hlen _ _),
      slice_append_right (k := 4) (hlen _ _), slice_append_right (k := 0) (hlen _ _)]
    rfl

/-- **An entry is decoded to what it says.** -/
theorem decodeEntry_image (e : Entry) : decodeEntry e.image 0 = e.decoded := by
  obtain ⟨heui, hlevel, hbytes, htime⟩ := image_fields e
  have hvalidity : byteAt e.image 10 = e.validity.toNat := by
    rw [← byteAt_slice (b := e.image) (o := 10) (w := 2) (i := 0) (by omega), hbytes]
    rfl
  have hdetail : byteAt e.image 11 = e.detail.toNat := by
    rw [← byteAt_slice (b := e.image) (o := 10) (w := 2) (i := 1) (by omega), hbytes]
    rfl
  have houtlier : decide (e.detail.toNat &&& 0x10 ≠ 0) = e.detail.toNat.testBit 4 := by
    have hbit : e.detail.toNat &&& 0x10 = (e.detail.toNat.testBit 4).toNat * 2 ^ 4 := Nat.and_two_pow _ 4
    rw [hbit]
    cases e.detail.toNat.testBit 4 <;> rfl
  have heui' : rdU64LE e.image 0 = toString e.deviceRloc.toNat := by
    rw [← rdU64LE_littleEndian, ← heui, rdU64LE_slice (by omega)]
  have hlevel' : rdU16LE e.image 8 = e.waterLevelMm.toNat := by
    rw [← rdU16LE_littleEndian, ← hlevel, rdU16LE_slice (by omega)]
  have htime' : rdU32LE e.image 12 = e.timestamp.toNat := by
    rw [← rdU32LE_littleEndian, ← htime, rdU32LE_slice (by omega)]
  simp only [decodeEntry, Entry.decoded, Nat.zero_add, heui', hlevel', htime', hvalidity, hdetail, houtlier]

section

variable (p : Payload) (rest : List UInt8)

theorem slice_header {o w : Nat} (h : o + w ≤ 22) : slice (p.header ++ rest) o w = slice p.header o w :=
  slice_append_left (by rw [length_header]; exact h)

theorem byteAt_alert : byteAt (p.header ++ rest) 20 = p.alert.toNat := by
  rw [← byteAt_slice (b := p.header ++ rest) (o := 20) (w := 2) (i := 0) (by omega), slice_header p rest (by omega),
    (header_fields p).2.2.2.2]
  rfl

theorem byteAt_count : byteAt (p.header ++ rest) 21 = p.count.toNat := by
  rw [← byteAt_slice (b := p.header ++ rest) (o := 20) (w := 2) (i := 1) (by omega), slice_header p rest (by omega),
    (header_fields p).2.2.2.2]
  rfl

/-- The header is decoded to what it says, whatever follows. -/
theorem rd_header :
    rdU64LE (p.header ++ rest) 0 = toString p.nodeId.toNat ∧ rdU32LE (p.header ++ rest) 8 = p.raftTerm.toNat ∧
    rdU32LE (p.header ++ rest) 12 = p.raftLogIndex.toNat ∧ rdU32LE (p.header ++ rest) 16 = p.sequence.toNat := by
  obtain ⟨hnode, hterm, hindex, hseq, -⟩ := header_fields p
  refine ⟨?_, ?_, ?_, ?_⟩
  · rw [← rdU64LE_littleEndian, ← hnode, ← slice_header p rest (by omega), rdU64LE_slice (by omega)]
  · rw [← rdU32LE_littleEndian, ← hterm, ← slice_header p rest (by omega), rdU32LE_slice (by omega)]
  · rw [← rdU32LE_littleEndian, ← hindex, ← slice_header p rest (by omega), rdU32LE_slice (by omega)]
  · rw [← rdU32LE_littleEndian, ← hseq, ← slice_header p rest (by omega), rdU32LE_slice (by omega)]

end

/-- The entries that are sent. -/
def Payload.body (p : Payload) : List UInt8 := (p.entries.toList.take p.count.toNat).flatMap Entry.image

theorem wireBytes_eq (p : Payload) : wireBytes p = p.header ++ p.body := by
  rw [wireBytes, Payload.image, wireLen, ← length_header p, List.take_length_add_append, Nat.mul_comm,
    take_flatMap length_image]
  rfl

section

variable {p : Payload} (hcount : p.count.toNat ≤ maxEntries)

include hcount

theorem length_body : p.body.length = 16 * p.count.toNat := by
  rw [Payload.body, length_flatMap_blocks length_image, List.length_take, Vector.length_toList, Nat.min_eq_left hcount]

/-- **The whole entries of what is left of the frame are decoded to what they say.** -/
theorem decode_entries {m n : Nat} (hn : n * 16 ≤ m) (hm : m ≤ p.body.length) :
    (List.range n).map (fun i => decodeEntry (p.header ++ p.body.take m) (headerSize + i * entrySize)) =
      (p.entries.toList.take n).map Entry.decoded := by
  have hle : n ≤ p.count.toNat := by
    rw [length_body hcount] at hm
    omega
  have hlen : (p.entries.toList.take n).length = n := by
    rw [List.length_take, Vector.length_toList]
    omega
  refine List.ext_getElem (by rw [List.length_map, List.length_range, List.length_map, hlen]) fun i hi hi' => ?_
  have hin : i < n := by simpa using hi
  obtain ⟨e, he⟩ : ∃ e, (p.entries.toList.take n)[i]? = some e := ⟨_, List.getElem?_eq_getElem (by omega)⟩
  have hsent : (p.entries.toList.take p.count.toNat)[i]? = some e := by
    rw [List.getElem?_take_of_lt (by omega)]
    rwa [List.getElem?_take_of_lt hin] at he
  have hslice : slice (p.header ++ p.body.take m) (headerSize + i * entrySize) 16 = e.image := by
    rw [headerSize, slice_append_right (length_header p), entrySize, slice_take (by omega), Nat.mul_comm]
    exact slice_flatMap length_image _ i e hsent
  obtain ⟨hlt, hget⟩ := List.getElem?_eq_some_iff.1 he
  rw [List.getElem_map, List.getElem_map, List.getElem_range, hget, ← decodeEntry_slice, hslice, decodeEntry_image]

/-- **What the codec makes of the first `m` bytes after the header.** -/
theorem decode_cut (halert : p.alert = 0 ∨ p.alert = 1) {m : Nat} (hm : m ≤ p.body.length) (fPort : Option Nat) :
    decodeUplink ⟨p.header ++ p.body.take m, fPort⟩ =
      if m < p.body.length then
        { data := some (p.decoded (m / 16)), errors := some [tooShort p.count.toNat (22 + m)], warnings := warningsFor fPort }
      else { data := some (p.decoded p.count.toNat), errors := none, warnings := warningsFor fPort } := by
  have hbody := length_body hcount
  have hlen : (p.header ++ p.body.take m).length = 22 + m := by
    rw [List.length_append, length_header, List.length_take, Nat.min_eq_left hm]
  have hflag : decide (p.alert.toNat = 1) = decide (p.alert ≠ 0) := by
    rcases halert with h | h <;> rw [h] <;> rfl
  obtain ⟨hnode, hterm, hindex, hseq⟩ := rd_header p (p.body.take m)
  have hheader : ¬22 + m < headerSize := by simp [headerSize]
  have hclamp : clampCount (22 + m) = m / 16 := by
    simp only [clampCount, headerSize, entrySize]
    omega
  simp only [decodeUplink, hlen, byteAt_alert, byteAt_count, hnode, hterm, hindex, hseq, hflag, if_neg hheader]
  by_cases hshort : m < p.body.length
  · have hlt : 22 + m < headerSize + p.count.toNat * entrySize := by
      simp only [headerSize, entrySize]
      omega
    rw [if_pos hshort]
    simp only [hlt, ↓reduceIte, hclamp, decode_entries hcount (Nat.div_mul_le_self m 16) hm]
    rfl
  · have hge : ¬22 + m < headerSize + p.count.toNat * entrySize := by
      simp only [headerSize, entrySize]
      omega
    rw [if_neg hshort]
    simp only [hge, ↓reduceIte, decode_entries hcount (by omega : p.count.toNat * 16 ≤ m) hm]
    rfl

end

/-- The characters between the first quotation mark and the next. -/
def quoted (text : List Char) : List Char :=
  ((text.dropWhile (fun c => c.toNat ≠ 34)).drop 1).takeWhile (fun c => c.toNat ≠ 34)

theorem quoted_buildUplink {p : Payload} {outSize : Nat} {text : List Char} (h : buildUplink p outSize = some text) :
    quoted text = hex (wireBytes p) := by
  have hhex : ∀ c ∈ hex (wireBytes p), c.toNat ≠ 34 := by
    intro c hc
    have hall : hexDigits.all (fun c => decide (c.toNat ≠ 34)) = true := by decide
    exact of_decide_eq_true (List.all_eq_true.1 hall c (mem_hexDigits hc))
  unfold buildUplink toHex at h
  split at h
  · cases h
  split at h
  · cases h
  · rename_i text' htext
    split at htext
    · cases htext
    · rw [← Option.some.inj h, ← Option.some.inj htext, quoted]
      show ((hex (wireBytes p)) ++ msgEndCmd).takeWhile _ = _
      rw [List.takeWhile_append_of_pos (by simpa using hhex)]
      have hend : msgEndCmd.takeWhile (fun c => decide (c.toNat ≠ 34)) = [] := by decide
      rw [hend, List.append_nil]

/-- `build_uplink` gives a command exactly when the buffer has room for it. -/
theorem buildUplink_isSome (p : Payload) (outSize : Nat) :
    (buildUplink p outSize).isSome ↔ msgStartCmd.length + 2 * (wireBytes p).length + msgEndCmd.length ≤ outSize := by
  unfold buildUplink toHex
  by_cases hroom : outSize < msgStartCmd.length + (wireBytes p).length * 2 + msgEndCmd.length
  · rw [if_pos hroom]
    simp only [Option.isSome_none, Bool.false_eq_true, false_iff]
    omega
  · have hhex : ¬outSize - msgStartCmd.length < (wireBytes p).length * 2 := by omega
    rw [if_neg hroom, if_neg hhex]
    simp only [Option.isSome_some, true_iff]
    omega

/-- **The wire round trip.**  For every payload the firmware can send: the command is built whenever the buffer has room,
what it holds between its quotation marks is the hexadecimal text of the bytes, the codec decodes those bytes without
an error to what the payload says, and of a frame cut off behind the header it reports an error and decodes every
whole entry that is left. -/
theorem uplink_round_trip (p : Payload) (hcount : p.count.toNat ≤ maxEntries) (halert : p.alert = 0 ∨ p.alert = 1) :
    (∀ outSize, msgStartCmd.length + 2 * (wireBytes p).length + msgEndCmd.length ≤ outSize →
      ∃ text, buildUplink p outSize = some text) ∧
    (∀ outSize text, buildUplink p outSize = some text → hexDecode (quoted text) = some (wireBytes p)) ∧
    (∀ fPort, decodeUplink ⟨wireBytes p, fPort⟩ =
      { data := some (p.decoded p.count.toNat), errors := none, warnings := warningsFor fPort }) ∧
    ∀ k fPort, 22 ≤ k → k < (wireBytes p).length → decodeUplink ⟨(wireBytes p).take k, fPort⟩ =
      { data := some (p.decoded ((k - 22) / 16)), errors := some [tooShort p.count.toNat k],
        warnings := warningsFor fPort } := by
  refine ⟨fun outSize h => ?_, fun outSize text h => ?_, fun fPort => ?_, fun k fPort hk hlt => ?_⟩
  · exact Option.isSome_iff_exists.1 ((buildUplink_isSome p outSize).2 h)
  · rw [quoted_buildUplink h, hexDecode_hex]
  · have hwhole := decode_cut hcount halert (Nat.le_refl p.body.length) fPort
    rw [List.take_length, if_neg (Nat.lt_irrefl _)] at hwhole
    rw [wireBytes_eq, hwhole]
  · rw [wireBytes_eq, List.length_append, length_header] at hlt
    have hcut := decode_cut hcount halert (m := k - 22) (by omega) fPort
    rw [if_pos (by omega), Nat.add_sub_cancel' hk] at hcut
    rw [wireBytes_eq, List.take_append, length_header, List.take_of_length_le (by rw [length_header]; exact hk), hcut]

/-- Two entries and an alert, cut off inside the second entry. -/
theorem uplink_round_trip_two :
    let p : Payload :=
      { nodeId := 0xF4CE36A1B2C3D4E5, raftTerm := 7, raftLogIndex := 0x80000001, sequence := 0, alert := 1, count := 2
        entries := #v[{ deviceRloc := 0xFFFFFFFFFFFFFFFF, waterLevelMm := 0x8001, validity := 2, detail := 0x10,
                        timestamp := 0xFFFFFFFF }, { deviceRloc := 1 }, {}] }
    (wireBytes p).length = 54 ∧
      decodeUplink ⟨wireBytes p, some 1⟩ = { data := some (p.decoded 2), errors := none, warnings := none } ∧
      decodeUplink ⟨(wireBytes p).take 40, some 1⟩ =
        { data := some (p.decoded 1), errors := some [tooShort 2 40], warnings := none } := by
  intro p
  obtain ⟨-, -, hwhole, hcut⟩ := uplink_round_trip p (by decide) (by decide)
  exact ⟨by decide, hwhole (some 1), hcut 40 (some 1) (by decide) (by decide)⟩

end Lorawan
end FloodEws
