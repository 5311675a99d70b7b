import Escrow.Json

/-!
# JSON text to values

The grammar of RFC 8259. A text holds one value, blank characters around it.

A number that is no integer stands for one of binary64 and is beyond its range if
that is infinite: the digits that fit in 64 bits make a significand, the others
only count for the exponent, and both the significand and its power of ten are
rounded before they are multiplied.
-/

namespace Escrow.Json.Parser

def isSpace (c : Char) : Bool :=
  c = ' ' || c = '\n' || c = '\t' || c = '\r'

/-- Text without the blank characters in front. -/
def skip (cs : List Char) : List Char :=
  cs.dropWhile isSpace

def hexValue? (c : Char) : Option Nat :=
  let n := c.toNat
  if 48 ≤ n ∧ n ≤ 57 then some (n - 48)
  else if 97 ≤ n ∧ n ≤ 102 then some (n - 87)
  else if 65 ≤ n ∧ n ≤ 70 then some (n - 55)
  else none

/-- The number of four hexadecimal digits. -/
def unit? (a b c d : Char) : Option Nat := do
  return ((← hexValue? a) * 16 + (← hexValue? b)) * 256 + (← hexValue? c) * 16 + (← hexValue? d)

/-- The character of an escape of one letter. -/
def escape? : Char → Option Char
  | '"' => some '"'
  | '\\' => some '\\'
  | '/' => some '/'
  | 'b' => some '\x08'
  | 'f' => some '\x0c'
  | 'n' => some '\n'
  | 'r' => some '\r'
  | 't' => some '\t'
  | _ => none

/-- Code points with one more, the last one first; the second half of a surrogate
    pair is joined to the first. -/
def push (n : Nat) : List Nat → List Nat
  | m :: rest =>
    if 0xd800 ≤ m ∧ m < 0xdc00 ∧ 0xdc00 ≤ n ∧ n < 0xe000 then
      (0x10000 + (m - 0xd800) * 0x400 + (n - 0xdc00)) :: rest
    else n :: m :: rest
  | [] => [n]

/-- The text of code points, the last one first, unless half of a surrogate pair is
    among them. -/
def ofCodePoints (ns : List Nat) : Option String :=
  if ns.all fun n => decide n.isValidChar then some (String.ofList (ns.reverse.map Char.ofNat))
  else none

/-- The rest of a string after its opening quote, and what follows it; `done` is
    what has been read of it, last code point first. -/
def string (done : List Nat) : List Char → Option (Option String × List Char)
  | '"' :: rest => some (ofCodePoints done, rest)
  | '\\' :: 'u' :: a :: b :: c :: d :: rest => do string (push (← unit? a b c d) done) rest
  | '\\' :: c :: rest => do string ((← escape? c).toNat :: done) rest
  | c :: rest => if c.toNat < 0x20 then none else string (c.toNat :: done) rest
  | [] => none

/-- The digits in front of a text, at least one, and what follows. -/
def digits? (cs : List Char) : Option (List Char × List Char) :=
  match cs.takeWhile Char.isDigit with
  | [] => none
  | ds => some (ds, cs.dropWhile Char.isDigit)

/-- The number that decimal digits stand for. -/
def ofDigits (ds : List Char) : Nat :=
  ds.foldl (fun n d => 10 * n + (d.toNat - 48)) 0

/-- The part of a number after its point, if it has one. -/
def fraction : List Char → Option (List Char × List Char)
  | '.' :: rest => do
    let (ds, rest) ← digits? rest
    return ('.' :: ds, rest)
  | cs => some ([], cs)

/-- The exponent of a number, if it has one. -/
def exponent : List Char → Option (List Char × List Char)
  | e :: rest =>
    if e = 'e' ∨ e = 'E' then
      let (sign, rest) := match rest with
        | '+' :: r => (['+'], r)
        | '-' :: r => (['-'], r)
        | r => ([], r)
      (digits? rest).map fun (ds, rest) => (e :: sign ++ ds, rest)
    else some ([], e :: rest)
  | [] => some ([], [])

/-- Digits put behind a number as long as it fits in 64 bits, and how many are left. -/
def append (n : Nat) : List Char → Nat × Nat
  | [] => (n, 0)
  | d :: rest =>
    let m := 10 * n + (d.toNat - 48)
    if m < 0x10000000000000000 then append m rest else (n, rest.length + 1)

/-- The nearest number of 53 binary digits and zeros, the even one of two. -/
def rounded (n : Nat) : Nat :=
  let unit := Nat.pow 2 (n.log2 - 52)
  let below := n / unit
  let more := n % unit * 2
  if unit < more ∨ (unit = more ∧ below % 2 = 1) then (below + 1) * unit else below * unit

/-- The least number that is rounded to infinity. -/
def infinity : Nat :=
  Nat.pow 2 1024 - Nat.pow 2 970

/-- The exponent that is written behind a number: a letter, a sign or none, and
    digits. -/
def ofExponent : List Char → Int
  | _ :: '-' :: ds => -(ofDigits ds : Int)
  | _ :: '+' :: ds => ofDigits ds
  | _ :: ds => ofDigits ds
  | [] => 0

/-- Whether a number is in the range of binary64: the digits in front of the point,
    the point and those behind it, and the exponent. -/
def isFinite (whole fracPart expPart : List Char) : Bool :=
  let decimals := fracPart.tail
  let (n, long) := append 0 whole
  let (n, unused) := append n decimals
  let e : Int := long - (decimals.length - unused : Nat) + ofExponent expPart
  n = 0 || e < 0 || (e ≤ 308 && rounded n * rounded (Nat.pow 10 e.toNat) < infinity)

/-- An integer that fits in 64 bits as such, any other number as its text. A zero
    with a sign is no integer. -/
def ofLiteral (negative : Bool) (whole fracPart expPart : List Char) : Json :=
  let n : Int := ofDigits whole
  let n := if negative then -n else n
  let tail := fracPart ++ expPart
  if tail.isEmpty && !(negative && n = 0) && -0x8000000000000000 ≤ n && n ≤ 0xffffffffffffffff then
    .int n
  else if isFinite whole fracPart expPart then
    .real (String.ofList ((if negative then ['-'] else []) ++ whole ++ tail))
  else .unreadable

/-- A number, and what follows it. -/
def number (cs : List Char) : Option (Json × List Char) := do
  let (negative, cs) := match cs with
    | '-' :: r => (true, r)
    | r => (false, r)
  let (whole, cs) ← digits? cs
  if whole.head? = some '0' ∧ whole.length ≠ 1 then none
  let (fracPart, cs) ← fraction cs
  let (expPart, cs) ← exponent cs
  return (ofLiteral negative whole fracPart expPart, cs)

/-- A string as a value. -/
def ofString : Option String → Json
  | some s => .str s
  | none => .unreadable

/-- An object of members, all of whose names have to be readable. -/
def ofMembers (members : List (Option String × Json)) : Json :=
  match members.mapM fun m => m.1.map fun name => (name, m.2) with
  | some ms => .obj ms
  | none => .unreadable

mutual

/-- A value, and what follows it. Each call uses up one of `fuel`. -/
def value : (fuel : Nat) → List Char → Option (Json × List Char)
  | 0, _ => none
  | fuel + 1, cs =>
    match skip cs with
    | 'n' :: 'u' :: 'l' :: 'l' :: rest => some (.null, rest)
    | 't' :: 'r' :: 'u' :: 'e' :: rest => some (.bool true, rest)
    | 'f' :: 'a' :: 'l' :: 's' :: 'e' :: rest => some (.bool false, rest)
    | '"' :: rest => do
      let (s, rest) ← string [] rest
      return (ofString s, rest)
    | '[' :: rest =>
      match skip rest with
      | ']' :: rest => some (.arr [], rest)
      | _ => do
        let (items, rest) ← items fuel rest
        return (.arr items, rest)
    | '\x7b' :: rest =>
      match skip rest with
      | '\x7d' :: rest => some (.obj [], rest)
      | _ => do
        let (members, rest) ← members fuel rest
        return (ofMembers members, rest)
    | rest => number rest

/-- The items of an array up to its end. -/
def items : (fuel : Nat) → List Char → Option (List Json × List Char)
  | 0, _ => none
  | fuel + 1, cs => do
    let (v, rest) ← value fuel cs
    match skip rest with
    | ',' :: rest =>
      let (vs, rest) ← items fuel rest
      return (v :: vs, rest)
    | ']' :: rest => return ([v], rest)
    | _ => none

/-- The members of an object up to its end. -/
def members : (fuel : Nat) → List Char → Option (List (Option String × Json) × List Char)
  | 0, _ => none
  | fuel + 1, cs =>
    match skip cs with
    | '"' :: rest => do
      let (name, rest) ← string [] rest
      match skip rest with
      | ':' :: rest =>
        let (v, rest) ← value fuel rest
        match skip rest with
        | ',' :: rest =>
          let (ms, rest) ← members fuel rest
          return ((name, v) :: ms, rest)
        | '\x7d' :: rest => return ([(name, v)], rest)
        | _ => none
      | _ => none
    | _ => none

end

end Parser

/-- The value written in a text. -/
def parse? (s : String) : Option Json :=
  let cs := s.toList
  match Parser.value (cs.length + 1) cs with
  | some (v, rest) => if (Parser.skip rest).isEmpty then some v else none
  | none => none

end Escrow.Json
