import Escrow.Bytes

/-!
# Hexadecimal text

Each byte is written as two digits, the high half first, in lower case. Reading
takes either case; it refuses a text of an odd number of bytes before it looks
at any of them, and otherwise the first byte that is no digit.
-/

namespace Escrow.Hex

/-- Why a text is not hexadecimal. -/
inductive Error
  | oddLength
  | badDigit (byte : UInt8) (position : Nat)
  deriving DecidableEq

/-- A byte named in a message: the character of that number in Latin-1, in
    quotes, escaped if it is not printable. -/
def quoteByte (b : UInt8) : String :=
  let n := b.toNat
  let hex := String.ofList (Nat.toDigits 16 n)
  let body :=
    if n = 0 then "\\0"
    else if n = 9 then "\\t"
    else if n = 10 then "\\n"
    else if n = 13 then "\\r"
    else if n = 39 then "\\'"
    else if n = 92 then "\\\\"
    else if n < 32 || (127 ≤ n && n ≤ 160) || n = 0xad then "\\u\x7b" ++ hex ++ "\x7d"
    else String.singleton (Char.ofNat n)
  "'" ++ body ++ "'"

/-- The wording of an error. -/
def Error.message : Error → String
  | .oddLength => "Odd number of digits"
  | .badDigit b i => "Invalid character " ++ quoteByte b ++ " at position " ++ toString i

/-- The digit of a number below sixteen. -/
def digit (n : Nat) : Char :=
  Char.ofNat (if n < 10 then 48 + n else 87 + n)

/-- The number a byte stands for as a digit. -/
def digit? (b : UInt8) : Option Nat :=
  let n := b.toNat
  if 48 ≤ n ∧ n ≤ 57 then some (n - 48)
  else if 97 ≤ n ∧ n ≤ 102 then some (n - 87)
  else if 65 ≤ n ∧ n ≤ 70 then some (n - 55)
  else none

/-- The two digits of a byte. -/
def digits (b : UInt8) : List Char :=
  [digit (b.toNat / 16), digit (b.toNat % 16)]

/-- Bytes as hexadecimal text. -/
def encode (bs : Bytes) : String :=
  String.ofList (bs.flatMap digits)

/-- A byte as two digits after `0x`. -/
def ofByte (b : UInt8) : String :=
  "0x" ++ encode [b]

/-- Digits read two by two, the first of them at a position of the text. -/
def pairs : (position : Nat) → Bytes → Except Error Bytes
  | i, a :: b :: rest =>
    match digit? a, digit? b with
    | some high, some low => (UInt8.ofNat (16 * high + low) :: ·) <$> pairs (i + 2) rest
    | none, _ => .error (.badDigit a i)
    | _, none => .error (.badDigit b (i + 1))
  | _, _ => .ok []

/-- The bytes that a text is the hexadecimal form of. -/
def decode (s : String) : Except Error Bytes :=
  let bs := Bytes.ofText s
  if bs.length % 2 = 1 then .error .oddLength else pairs 0 bs

end Escrow.Hex
