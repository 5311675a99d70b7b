import Escrow.Bytes
import Escrow.Text.Hex

/-!
# Wire format

How the fields of transactions and payloads are laid out in bytes, and why a
string of bytes may fail to be the layout of anything.

Fixed numbers are written least byte first. A *compact size* is a count in its
shortest form: one byte below `0xfd`, otherwise a mark (`0xfd`, `0xfe`, `0xff`)
and two, four or eight bytes. Bytes of variable length and text follow their
length; a list follows its count.

The reading side is `Escrow.Wire.Reader`.
-/

namespace Escrow

/-- Why bytes, or the text of an id, cannot be decoded. -/
inductive DecodeError
  | endOfData (field : String) (needed remaining : Nat)
  | trailingBytes (count : Nat)
  | invalidText (field : String)
  | lengthOverflow (field : String) (length remaining : Nat)
  | invalidLength (field : String) (length : Nat)
  | wrongEvalCode (expected found : UInt8)
  | unknownFunction (tag : UInt8)
  | functionMismatch (expected found : Char)
  | invalidTag (field : String) (tag : UInt8)
  | nonCanonical (field : String)
  | hex (cause : Hex.Error)
  deriving DecidableEq

/-- The wording of an error. -/
def DecodeError.message : DecodeError → String
  | .endOfData field needed remaining =>
    s!"unexpected end of data reading {field}: needed {needed} bytes, {remaining} remaining"
  | .trailingBytes count => s!"{count} trailing bytes after payload"
  | .invalidText field => s!"invalid UTF-8 in {field}"
  | .lengthOverflow field length remaining =>
    s!"length prefix {length} for {field} exceeds remaining {remaining} bytes"
  | .invalidLength field length => s!"invalid length {length} for {field}"
  | .wrongEvalCode expected found =>
    "eval code mismatch: expected " ++ Hex.ofByte expected ++ ", found " ++ Hex.ofByte found
  | .unknownFunction tag => "unknown function id " ++ Hex.ofByte tag
  | .functionMismatch expected found => s!"expected function id '{expected}', found '{found}'"
  | .invalidTag field tag => "invalid tag " ++ Hex.ofByte tag ++ s!" for {field}"
  | .nonCanonical field => s!"non-canonical compact size for {field}"
  | .hex cause => "hex decode error: " ++ cause.message

namespace Wire

/-- A 32-bit number. -/
def word (n : UInt32) : Bytes :=
  Bytes.littleEndian 4 n.toNat

/-- A signed 64-bit number, in two's complement. -/
def signed (n : Int64) : Bytes :=
  Bytes.littleEndian 8 n.toUInt64.toNat

/-- A count in its shortest form. -/
def compactSize (n : Nat) : Bytes :=
  if n < 0xfd then [UInt8.ofNat n]
  else if n < 0x10000 then 0xfd :: Bytes.littleEndian 2 n
  else if n < 0x100000000 then 0xfe :: Bytes.littleEndian 4 n
  else 0xff :: Bytes.littleEndian 8 n

/-- Bytes after their length. -/
def varBytes (bs : Bytes) : Bytes :=
  compactSize bs.length ++ bs

/-- Text after its length in bytes. -/
def text (s : String) : Bytes :=
  varBytes (Bytes.ofText s)

/-- A list of byte strings after their count. -/
def bytesList (items : List Bytes) : Bytes :=
  compactSize items.length ++ items.flatMap varBytes

end Wire

end Escrow
