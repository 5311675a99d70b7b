import Escrow.Wire

/-!
# Readers

A reader takes a value from the front of a string of bytes. It leaves the rest
of them, also when it fails: what a failed reader has consumed stays consumed,
so that another may go on from there. A field's name says in errors what was
being read.

Lengths and counts are compared with what is left before anything is read, and
a compact size that has a shorter form is refused.
-/

namespace Escrow

/-- Takes a value from the front of a string of bytes. -/
abbrev Reader := EStateM DecodeError Bytes

namespace Reader

/-- The next `n` bytes. -/
def take (field : String) (n : Nat) : Reader Bytes := fun rest =>
  if rest.length < n then .error (.endOfData field n rest.length) rest
  else .ok (rest.take n) (rest.drop n)

/-- The number of bytes left. -/
def remaining : Reader Nat := fun rest =>
  .ok rest.length rest

/-- The next byte. -/
def byte (field : String) : Reader UInt8 := fun
  | [] => .error (.endOfData field 1 0) []
  | b :: rest => .ok b rest

/-- The next `n` bytes, as a string of that length. -/
def octets (field : String) (n : Nat) : Reader (Octets n) := fun rest =>
  if h : rest.length < n then .error (.endOfData field n rest.length) rest
  else .ok ⟨rest.take n, List.length_take_of_le (Nat.le_of_not_lt h)⟩ (rest.drop n)

/-- A 32-bit number. -/
def word (field : String) : Reader UInt32 := do
  return UInt32.ofNat (Bytes.ofLittleEndian (← take field 4))

/-- A signed 64-bit number. -/
def signed (field : String) : Reader Int64 := do
  return (UInt64.ofNat (Bytes.ofLittleEndian (← take field 8))).toInt64

/-- The part of a compact size after its mark: `width` bytes that hold a number
    not below `least`, as a smaller one has a shorter form. -/
def compactTail (field : String) (width least : Nat) : Reader Nat := do
  let n := Bytes.ofLittleEndian (← take field width)
  if n < least then throw (.nonCanonical field)
  return n

/-- A compact size. -/
def compactSize (field : String) : Reader Nat := do
  let mark ← byte field
  if mark = 0xfd then compactTail field 2 0xfd
  else if mark = 0xfe then compactTail field 4 0x10000
  else if mark = 0xff then compactTail field 8 0x100000000
  else return mark.toNat

/-- A compact size that counts things of at least `size` bytes each, of which
    that many must be left. -/
def count (field : String) (size : Nat) : Reader Nat := do
  let n ← compactSize field
  let left ← remaining
  if n > left / size then throw (.lengthOverflow field n left)
  return n

/-- Bytes after their length. -/
def varBytes (field : String) : Reader Bytes := do
  take field (← count field 1)

/-- Text after its length. -/
def text (field : String) : Reader String := do
  match Bytes.text? (← varBytes field) with
  | some s => return s
  | none => throw (.invalidText field)

/-- A number of values in a row. -/
def times {α : Type} (r : Reader α) : Nat → Reader (List α)
  | 0 => return []
  | n + 1 => do
    let a ← r
    return a :: (← times r n)

/-- A list of byte strings after their count. -/
def bytesList (field : String) : Reader (List Bytes) := do
  times (varBytes field) (← count field 1)

/-- The end of the bytes. -/
def finish : Reader Unit := fun
  | [] => .ok () []
  | rest => .error (.trailingBytes rest.length) rest

/-- The value of a whole string of bytes, with nothing left over. -/
def decode {α : Type} (r : Reader α) (bs : Bytes) : Except DecodeError α :=
  match (do let a ← r; finish; return a : Reader α) bs with
  | .ok a _ => .ok a
  | .error e _ => .error e

end Reader

end Escrow
