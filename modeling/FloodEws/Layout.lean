import FloodEws.Bytes
/-!
# Layout — structs in memory

A struct is its fields one after the other, each at the next multiple of its alignment.  What lies between two fields,
or behind the last one, is padding and may be anything.  Every field is read back from its own place, whatever the
padding holds (`field_image`).
-/
namespace FloodEws
namespace Layout

open Bytes

/-- The number that the bytes stand for, lowest byte first. -/
def number (bytes : List UInt8) : Nat := bytes.foldr (fun b n => b.toNat + 256 * n) 0

theorem number_littleEndian (w n : Nat) : number (littleEndian w n) = n % 256 ^ w := by
  induction w generalizing n with
  | zero => rw [Nat.pow_zero, Nat.mod_one]; rfl
  | succ w ih =>
    have hbyte : (UInt8.ofNat (n % 256)).toNat = n % 256 := by
      rw [UInt8.toNat_ofNat']
      omega
    show (UInt8.ofNat (n % 256)).toNat + 256 * number (littleEndian w (n / 256)) = _
    rw [hbyte, ih, Nat.pow_succ, Nat.mul_comm (256 ^ w), Nat.mod_mul]

/-- **A number that fits its word is read back.** -/
theorem number_littleEndian_of_lt {w n : Nat} (h : n < 256 ^ w) : number (littleEndian w n) = n := by
  rw [number_littleEndian, Nat.mod_eq_of_lt h]

theorem number_lt (bytes : List UInt8) : number bytes < 256 ^ bytes.length := by
  induction bytes with
  | nil => decide
  | cons b bs ih =>
    have hb := b.toNat_lt
    show b.toNat + 256 * number bs < 256 ^ (bs.length + 1)
    rw [Nat.pow_succ]
    omega

/-! ## Places -/

/-- The next multiple of the alignment. -/
def alignUp (n a : Nat) : Nat := (n + a - 1) / a * a

theorem le_alignUp {n a : Nat} (h : 0 < a) : n ≤ alignUp n a := by
  have hmod := Nat.mod_lt (n + a - 1) h
  have hdiv := Nat.div_add_mod (n + a - 1) a
  unfold alignUp
  rw [Nat.mul_comm]
  omega

/-- Where each field starts: the fields are given by size and alignment and laid out from `off` on. -/
def starts : Nat → List (Nat × Nat) → List Nat
  | _, [] => []
  | off, (size, align) :: fields => alignUp off align :: starts (alignUp off align + size) fields

/-- Where the last field ends. -/
def fieldsEnd : Nat → List (Nat × Nat) → Nat
  | off, [] => off
  | off, (size, align) :: fields => fieldsEnd (alignUp off align + size) fields

/-- `sizeof`: the end, rounded up to the largest alignment. -/
def structSize (fields : List (Nat × Nat)) : Nat :=
  alignUp (fieldsEnd 0 fields) ((fields.map Prod.snd).foldl max 1)

/-! ## Images -/

/-- The padding from `off` up to `stop`. -/
def filler (gap : Nat → UInt8) (off stop : Nat) : List UInt8 := (List.range (stop - off)).map (fun k => gap (off + k))

@[simp] theorem length_filler (gap : Nat → UInt8) (off stop : Nat) : (filler gap off stop).length = stop - off := by
  simp [filler]

/-- The fields from `off` on, with the bytes of their values. -/
def place (gap : Nat → UInt8) : Nat → List (Nat × Nat) → List (List UInt8) → List UInt8
  | off, (size, align) :: fields, bytes :: values =>
    filler gap off (alignUp off align) ++ (bytes ++ place gap (alignUp off align + size) fields values)
  | _, _, _ => []

/-- The bytes of a struct. -/
def image (gap : Nat → UInt8) (fields : List (Nat × Nat)) (values : List (List UInt8)) : List UInt8 :=
  place gap 0 fields values ++ filler gap (fieldsEnd 0 fields) (structSize fields)

/-- The bytes at the place of the `i`-th field. -/
def field (fields : List (Nat × Nat)) (i : Nat) (bytes : List UInt8) : List UInt8 :=
  slice bytes ((starts 0 fields).getD i 0) ((fields.map Prod.fst).getD i 0)

/-- Every value is as long as its field. -/
def Fits (fields : List (Nat × Nat)) (values : List (List UInt8)) : Prop :=
  List.Forall₂ (fun f bytes => 0 < f.2 ∧ bytes.length = f.1) fields values

instance decidableFits (fields : List (Nat × Nat)) (values : List (List UInt8)) : Decidable (Fits fields values) :=
  inferInstanceAs (Decidable (List.Forall₂ _ fields values))

section

variable (gap : Nat → UInt8) {fields : List (Nat × Nat)} {values : List (List UInt8)}

theorem length_place (h : Fits fields values) :
    ∀ off, off + (place gap off fields values).length = fieldsEnd off fields := by
  induction h with
  | nil => exact fun off => rfl
  | @cons f bytes fields values hf _ ih =>
    intro off
    obtain ⟨hpos, hlen⟩ := hf
    have hle : off ≤ alignUp off f.2 := le_alignUp hpos
    have hrest := ih (alignUp off f.2 + f.1)
    rw [place, List.length_append, List.length_append, length_filler, hlen, fieldsEnd, ← hrest]
    omega

theorem foldl_max_pos (ns : List Nat) (n : Nat) (h : 0 < n) : 0 < ns.foldl max n := by
  induction ns generalizing n with
  | nil => exact h
  | cons m ns ih => exact ih (max n m) (by omega)

/-- **The image of a struct is as long as the struct.** -/
theorem length_image (h : Fits fields values) : (image gap fields values).length = structSize fields := by
  have hplace := length_place gap h 0
  have hle : fieldsEnd 0 fields ≤ structSize fields := le_alignUp (foldl_max_pos _ 1 Nat.one_pos)
  rw [image, List.length_append, length_filler]
  omega

theorem slice_place (h : Fits fields values) : ∀ (off i : Nat) (bytes : List UInt8), values[i]? = some bytes →
    off ≤ (starts off fields).getD i 0 ∧
      slice (place gap off fields values) ((starts off fields).getD i 0 - off) ((fields.map Prod.fst).getD i 0) =
        bytes := by
  induction h with
  | nil => exact fun _ _ _ hb => by cases hb
  | @cons f first fields values hf _ ih =>
    intro off i bytes hb
    obtain ⟨hpos, hlen⟩ := hf
    have hle : off ≤ alignUp off f.2 := le_alignUp hpos
    cases i with
    | zero =>
      rw [List.getElem?_cons_zero] at hb
      obtain rfl := Option.some.inj hb
      refine ⟨hle, ?_⟩
      show slice (filler gap off (alignUp off f.2) ++ _) (alignUp off f.2 - off + 0) f.1 = first
      rw [slice_append_right (length_filler gap off _), slice_append_first hlen]
    | succ i =>
      rw [List.getElem?_cons_succ] at hb
      obtain ⟨hnext, hslice⟩ := ih (alignUp off f.2 + f.1) i bytes hb
      have hstart : (starts off (f :: fields)).getD (i + 1) 0 = (starts (alignUp off f.2 + f.1) fields).getD i 0 := rfl
      have hsize : ((f :: fields).map Prod.fst).getD (i + 1) 0 = (fields.map Prod.fst).getD i 0 := rfl
      rw [hstart, hsize]
      refine ⟨by omega, ?_⟩
      generalize (starts (alignUp off f.2 + f.1) fields).getD i 0 = o at hnext hslice ⊢
      -- Skip the padding, then the first field.
      rw [show o - off = (alignUp off f.2 - off) + (f.1 + (o - (alignUp off f.2 + f.1))) by omega, place,
        slice_append_right (length_filler gap off _), slice_append_right hlen]
      exact hslice

/-- **Every field is read back from its own place.** -/
theorem field_image (h : Fits fields values) {i : Nat} {bytes : List UInt8} (hb : values[i]? = some bytes) :
    field fields i (image gap fields values) = bytes := by
  obtain ⟨-, hslice⟩ := slice_place gap h 0 i bytes hb
  have hlen : bytes.length = (fields.map Prod.fst).getD i 0 := by
    have hmap : values.map List.length = fields.map Prod.fst := by
      clear hb hslice
      induction h with
      | nil => rfl
      | cons hf _ ih => rw [List.map_cons, List.map_cons, hf.2, ih]
    rw [← hmap, List.getD_eq_getElem?_getD, List.getElem?_map, hb]
    rfl
  rw [Nat.sub_zero] at hslice
  unfold field image
  rcases Nat.eq_zero_or_pos bytes.length with h0 | hpos
  · rw [← hlen, h0, slice, List.take_zero, List.length_eq_zero_iff.1 h0]
  · rw [slice_append_left, hslice]
    -- The slice is whole, so it ends inside the fields.
    have hwhole := congrArg List.length hslice
    rw [slice, List.length_take, List.length_drop] at hwhole
    omega

end

end Layout
end FloodEws
