/-!
# Bytes

Strings of bytes, strings of a known number of bytes, and what is written in
them: numbers, least byte first, and text in UTF-8.

A number is written in a chosen number of bytes (`littleEndian`), its high part
lost if it does not fit; `ofLittleEndian` reads any string of bytes.
-/

namespace Escrow

/-- A string of bytes. -/
abbrev Bytes := List UInt8

namespace Bytes

/-- The low `width` bytes of `n`, least byte first. -/
def littleEndian : (width n : Nat) → Bytes
  | 0, _ => []
  | width + 1, n => UInt8.ofNat n :: littleEndian width (n / 256)

/-- The number written in a string of bytes, least byte first. -/
def ofLittleEndian : Bytes → Nat
  | [] => 0
  | b :: rest => b.toNat + 256 * ofLittleEndian rest

@[simp] theorem length_littleEndian (width n : Nat) : (littleEndian width n).length = width := by
  induction width generalizing n with
  | zero => rfl
  | succ width ih => simp [littleEndian, ih]

/-- A number that fits is read back. -/
theorem ofLittleEndian_littleEndian {width n : Nat} (h : n < Nat.pow 256 width) :
    ofLittleEndian (littleEndian width n) = n := by
  induction width generalizing n with
  | zero =>
    obtain rfl : n = 0 := Nat.lt_one_iff.1 h
    rfl
  | succ width ih =>
    have : n / 256 < Nat.pow 256 width := Nat.div_lt_of_lt_mul (Nat.mul_comm .. ▸ h)
    rw [littleEndian, ofLittleEndian, ih this, UInt8.toNat_ofNat']
    omega

/-- The bytes of a text in UTF-8. -/
def ofText (s : String) : Bytes :=
  s.toUTF8.data.toList

/-- The text that a string of bytes is in UTF-8, if it is one. -/
def text? (bs : Bytes) : Option String :=
  String.fromUTF8? ⟨bs.toArray⟩

end Bytes

/-- A string of exactly `n` bytes. -/
@[ext] structure Octets (n : Nat) where
  bytes : Bytes
  length_eq : bytes.length = n
  deriving DecidableEq

namespace Octets

/-- A string of bytes as one of `n` bytes, if it has that length. -/
def ofBytes? (n : Nat) (bs : Bytes) : Option (Octets n) :=
  if h : bs.length = n then some ⟨bs, h⟩ else none

/-- The byte `b` written `n` times. -/
def fill (n : Nat) (b : UInt8) : Octets n :=
  ⟨List.replicate n b, List.length_replicate⟩

@[simp] theorem ofBytes?_bytes {n : Nat} (o : Octets n) : ofBytes? n o.bytes = some o := by
  simp [ofBytes?, o.length_eq]

end Octets

end Escrow
