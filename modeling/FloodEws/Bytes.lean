import Mathlib.Algebra.Group.Nat.Defs
import Mathlib.Data.List.Basic
/-!
# Bytes — little-endian words, slices and hexadecimal text

Words of a fixed number of bytes, least significant first, and back; reading a slice of a list of bytes, which is not
changed by cutting the list off behind it; two hexadecimal digits for each byte, and back.
-/
namespace FloodEws
namespace Bytes

/-- The `w` bytes of `n`, least significant first. -/
def littleEndian : Nat → Nat → List UInt8
  | 0, _ => []
  | w + 1, n => UInt8.ofNat (n % 256) :: littleEndian w (n / 256)

@[simp] theorem length_littleEndian (w n : Nat) : (littleEndian w n).length = w := by
  induction w generalizing n with
  | zero => rfl
  | succ w ih => rw [littleEndian, List.length_cons, ih]

/-! ## Slices -/

section

variable {α : Type} {xs ys : List α} {o w k : Nat}

def slice (xs : List α) (o w : Nat) : List α := (xs.drop o).take w

theorem slice_take (h : o + w ≤ k) : slice (xs.take k) o w = slice xs o w := by
  rw [slice, slice, List.drop_take, List.take_take, Nat.min_eq_left (by omega)]

theorem slice_append_right (hx : xs.length = o) : slice (xs ++ ys) (o + k) w = slice ys k w := by
  subst hx
  rw [slice, slice, ← List.drop_drop, List.drop_left]

theorem slice_append_left (h : o + w ≤ xs.length) : slice (xs ++ ys) o w = slice xs o w := by
  rw [slice, slice, List.drop_append_of_le_length (by omega), List.take_append_of_le_length]
  rw [List.length_drop]
  omega

theorem slice_append_first (hx : xs.length = w) : slice (xs ++ ys) 0 w = xs := by
  subst hx
  rw [slice, List.drop_zero, List.take_left]

theorem getD_slice {i : Nat} (h : i < w) (d : α) : (slice xs o w).getD i d = xs.getD (o + i) d := by
  rw [slice, List.getD_eq_getElem?_getD, List.getD_eq_getElem?_getD, List.getElem?_take_of_lt h, List.getElem?_drop]

/-- **Blocks of one length are found by their place.** -/
theorem slice_flatMap {β : Type} {f : β → List α} (hf : ∀ x, (f x).length = w) :
    ∀ (bs : List β) (i : Nat) (b : β), bs[i]? = some b → slice (bs.flatMap f) (w * i) w = f b
  | [], _, _, h => by cases h
  | x :: bs, 0, b, h => by
    rw [List.getElem?_cons_zero] at h
    rw [← Option.some.inj h, List.flatMap_cons, Nat.mul_zero, slice, List.drop_zero, ← hf x, List.take_left]
  | x :: bs, i + 1, b, h => by
    rw [List.getElem?_cons_succ] at h
    rw [List.flatMap_cons, Nat.mul_succ, Nat.add_comm, slice_append_right (hf x)]
    exact slice_flatMap hf bs i b h

theorem take_flatMap {β : Type} {f : β → List α} (hf : ∀ x, (f x).length = w) :
    ∀ (bs : List β) (i : Nat), (bs.flatMap f).take (w * i) = (bs.take i).flatMap f
  | [], i => by simp
  | _ :: _, 0 => by simp
  | x :: bs, i + 1 => by
    rw [List.flatMap_cons, List.take_succ_cons, List.flatMap_cons, Nat.mul_succ, Nat.add_comm, ← hf x,
      List.take_length_add_append, hf x, take_flatMap hf bs i]

theorem length_flatMap_blocks {β : Type} {f : β → List α} (hf : ∀ x, (f x).length = w) (bs : List β) :
    (bs.flatMap f).length = w * bs.length := by
  induction bs with
  | nil => rfl
  | cons x bs ih => rw [List.flatMap_cons, List.length_append, hf, ih, List.length_cons, Nat.mul_succ, Nat.add_comm]

end

/-! ## Hexadecimal text -/

def hexDigits : List Char := "0123456789ABCDEF".toList

def hexDigit (n : Nat) : Char := hexDigits.getD n '0'

/-- The two digits of each byte. -/
def hex (bytes : List UInt8) : List Char :=
  bytes.flatMap (fun (b : UInt8) => [hexDigit (b >>> 4).toNat, hexDigit (b &&& 0x0F).toNat])

def hexValue (c : Char) : Option Nat :=
  if '0' ≤ c ∧ c ≤ '9' then some (c.toNat - '0'.toNat)
  else if 'A' ≤ c ∧ c ≤ 'F' then some (c.toNat - 'A'.toNat + 10)
  else if 'a' ≤ c ∧ c ≤ 'f' then some (c.toNat - 'a'.toNat + 10)
  else none

def hexDecode : List Char → Option (List UInt8)
  | [] => some []
  | [_] => none
  | h :: l :: cs => do
    let h ← hexValue h
    let l ← hexValue l
    let bytes ← hexDecode cs
    return UInt8.ofNat (16 * h + l) :: bytes

theorem high_toNat (b : UInt8) : (b >>> 4).toNat = b.toNat / 16 := by
  simp [Nat.shiftRight_eq_div_pow]

theorem low_toNat (b : UInt8) : (b &&& 0x0F).toNat = b.toNat % 16 := by
  rw [UInt8.toNat_and]
  exact Nat.and_two_pow_sub_one_eq_mod b.toNat 4

theorem hexValue_hexDigit {n : Nat} (h : n < 16) : hexValue (hexDigit n) = some n := by
  have hall : ∀ m : Fin 16, hexValue (hexDigit m) = some m.val := by decide
  exact hall ⟨n, h⟩

/-- **The text decodes to the bytes.** -/
theorem hexDecode_hex (bytes : List UInt8) : hexDecode (hex bytes) = some bytes := by
  induction bytes with
  | nil => rfl
  | cons b bytes ih =>
    have hb := b.toNat_lt
    have hcat : 16 * (b.toNat / 16) + b.toNat % 16 = b.toNat := Nat.div_add_mod _ _
    have hbyte : UInt8.ofNat (16 * (b.toNat / 16) + b.toNat % 16) = b := by rw [hcat, UInt8.ofNat_toNat]
    show hexDecode (hexDigit (b >>> 4).toNat :: hexDigit (b &&& 0x0F).toNat :: hex bytes) = _
    rw [high_toNat, low_toNat, hexDecode, hexValue_hexDigit (by omega), hexValue_hexDigit (by omega), ih]
    show some (UInt8.ofNat (16 * (b.toNat / 16) + b.toNat % 16) :: bytes) = _
    rw [hbyte]

theorem mem_hexDigits {c : Char} {bytes : List UInt8} (h : c ∈ hex bytes) : c ∈ hexDigits := by
  have hall : ∀ m : Fin 16, hexDigit m ∈ hexDigits := by decide
  obtain ⟨b, -, hc⟩ := List.mem_flatMap.1 h
  have hb := b.toNat_lt
  rw [high_toNat, low_toNat] at hc
  rcases List.mem_pair.1 hc with rfl | rfl
  · exact hall ⟨b.toNat / 16, by omega⟩
  · exact hall ⟨b.toNat % 16, by omega⟩

end Bytes
end FloodEws
