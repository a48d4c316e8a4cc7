import Mathlib.Tactic.Common

namespace Wire

abbrev Byte := UInt8

/-- The `w` low bytes of a number, least significant first. -/
def bytesOf : Nat → Nat → List Byte
  | 0, _ => []
  | w + 1, n => .ofNat n :: bytesOf w (n / 256)

def numberOf : List Byte → Nat
  | [] => 0
  | b :: bs => b.toNat + 256 * numberOf bs

/-- How many different values `w` bytes have. -/
def range : Nat → Nat
  | 0 => 1
  | w + 1 => 256 * range w

theorem bytesOf_length (w n : Nat) : (bytesOf w n).length = w := by
  induction w generalizing n with
  | zero => rfl
  | succ w ih => simp [bytesOf, ih]

theorem numberOf_bytesOf {w n : Nat} (h : n < range w) : numberOf (bytesOf w n) = n := by
  induction w generalizing n with
  | zero =>
    unfold range at h
    simp only [bytesOf, numberOf]
    omega
  | succ w ih =>
    unfold range at h
    have hdiv : n / 256 < range w := by omega
    simp only [bytesOf, numberOf, ih hdiv, UInt8.toNat_ofNat']
    omega

theorem numberOf_lt (bs : List Byte) : numberOf bs < range bs.length := by
  induction bs with
  | nil => exact Nat.zero_lt_one
  | cons b bs ih =>
    have hb := UInt8.toNat_lt b
    simp only [numberOf, List.length_cons, range]
    omega

theorem bytesOf_numberOf (bs : List Byte) : bytesOf bs.length (numberOf bs) = bs := by
  induction bs with
  | nil => rfl
  | cons b bs ih =>
    have hb := UInt8.toNat_lt b
    have hdiv : (b.toNat + 256 * numberOf bs) / 256 = numberOf bs := by omega
    have hlow : UInt8.ofNat (b.toNat + 256 * numberOf bs) = b := by
      apply UInt8.toNat.inj
      rw [UInt8.toNat_ofNat']
      omega
    simp only [List.length_cons, bytesOf, numberOf, hdiv, hlow, ih]

/-- The fields of a struct, or one field, as bytes: the values correspond to the byte
strings of length `size`. -/
structure Codec (α : Type) where
  size : Nat
  align : Nat
  encode : α → List Byte
  decode : List Byte → α
  align_pos : 0 < align
  length_encode : ∀ a, (encode a).length = size
  decode_encode : ∀ a, decode (encode a) = a
  encode_decode : ∀ bs, bs.length = size → encode (decode bs) = bs

namespace Codec

variable {α β : Type}

def uint32 : Codec UInt32 where
  size := 4
  align := 4
  encode x := bytesOf 4 x.toNat
  decode bs := .ofNat (numberOf bs)
  align_pos := by decide
  length_encode _ := bytesOf_length 4 _
  decode_encode x := by rw [numberOf_bytesOf (UInt32.toNat_lt x), UInt32.ofNat_toNat]
  encode_decode bs h := by
    have hlt := numberOf_lt bs
    rw [h] at hlt
    rw [UInt32.toNat_ofNat_of_lt' hlt, ← h, bytesOf_numberOf]

def uint64 : Codec UInt64 where
  size := 8
  align := 8
  encode x := bytesOf 8 x.toNat
  decode bs := .ofNat (numberOf bs)
  align_pos := by decide
  length_encode _ := bytesOf_length 8 _
  decode_encode x := by rw [numberOf_bytesOf (UInt64.toNat_lt x), UInt64.ofNat_toNat]
  encode_decode bs h := by
    have hlt := numberOf_lt bs
    rw [h] at hlt
    rw [UInt64.toNat_ofNat_of_lt' hlt, ← h, bytesOf_numberOf]

/-- The same bytes, read as another type. -/
def cast (c : Codec α) (f : α → β) (g : β → α) (hf : ∀ b, f (g b) = b) (hg : ∀ a, g (f a) = a) :
    Codec β where
  size := c.size
  align := c.align
  encode b := c.encode (g b)
  decode bs := f (c.decode bs)
  align_pos := c.align_pos
  length_encode b := c.length_encode (g b)
  decode_encode b := by rw [c.decode_encode, hf]
  encode_decode bs h := by rw [hg, c.encode_decode bs h]

def int32 : Codec Int32 :=
  uint32.cast UInt32.toInt32 Int32.toUInt32 (fun _ => rfl) (fun _ => rfl)

def int64 : Codec Int64 :=
  uint64.cast UInt64.toInt64 Int64.toUInt64 (fun _ => rfl) (fun _ => rfl)

/-- Two values one after the other, where the second needs no padding before it. -/
def pair (c : Codec α) (d : Codec β) (_ : d.align ∣ c.size) : Codec (α × β) where
  size := c.size + d.size
  align := max c.align d.align
  encode x := c.encode x.1 ++ d.encode x.2
  decode bs := (c.decode (bs.take c.size), d.decode (bs.drop c.size))
  align_pos := Nat.lt_of_lt_of_le c.align_pos (Nat.le_max_left _ _)
  length_encode x := by rw [List.length_append, c.length_encode, d.length_encode]
  decode_encode x := by
    rw [← c.length_encode x.1, List.take_left, List.drop_left, c.decode_encode, d.decode_encode]
  encode_decode bs h := by
    rw [c.encode_decode _ (by rw [List.length_take]; omega),
      d.encode_decode _ (by rw [List.length_drop]; omega), List.take_append_drop]

variable (c : Codec α)

/-- What a struct of these fields occupies: the fields and the padding after them. -/
def sizeof : Nat := (c.size + c.align - 1) / c.align * c.align

theorem size_le_sizeof : c.size ≤ c.sizeof := by
  have hpos := c.align_pos
  have hmod := Nat.mod_lt (c.size + c.align - 1) hpos
  have hdiv := Nat.div_add_mod' (c.size + c.align - 1) c.align
  unfold sizeof
  omega

/-- A struct in memory after its fields have been assigned. The padding is what it was. -/
def image (prior : Nat → Byte) (a : α) : List Byte :=
  c.encode a ++ (List.range' c.size (c.sizeof - c.size)).map prior

/-- The fields of a struct in memory. -/
def fields (bs : List Byte) : α := c.decode (bs.take c.size)

theorem length_image (prior : Nat → Byte) (a : α) : (c.image prior a).length = c.sizeof := by
  have hle := c.size_le_sizeof
  unfold image
  rw [List.length_append, c.length_encode, List.length_map, List.length_range']
  omega

theorem fields_image (prior : Nat → Byte) (a : α) : c.fields (c.image prior a) = a := by
  unfold fields image
  rw [← c.length_encode a, List.take_left, c.decode_encode]

theorem encode_fields {bs : List Byte} (h : bs.length = c.size) : c.encode (c.fields bs) = bs := by
  unfold fields
  rw [List.take_of_length_le (Nat.le_of_eq h), c.encode_decode bs h]

/-- A struct at the front of a stream can be read in one way only. -/
theorem encode_append_inj {a b : α} {s t : List Byte} (h : c.encode a ++ s = c.encode b ++ t) :
    a = b ∧ s = t := by
  obtain ⟨he, hst⟩ := List.append_inj h (by rw [c.length_encode, c.length_encode])
  refine ⟨?_, hst⟩
  rw [← c.decode_encode a, he, c.decode_encode]

end Codec

end Wire
