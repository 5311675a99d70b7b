import Escrow.Bytes
import Escrow.Yaml.Cursor

/-!
# Tags

What a thing is said to be, in front of it: `!<` a name `>` in full, or a suffix
after a *handle* that stands for the front part of names. The handles `!` and
`!!` stand for themselves and for the names of the language unless a directive
says otherwise; any other has to be declared by one.

Names are bytes, of which all from a zero byte on are lost.
-/

namespace Escrow.Yaml

/-- Handles and what they stand for, those declared first in front. -/
abbrev Handles := List (String × Bytes)

/-- The handles of every text. -/
def Handles.default : Handles :=
  [("!", Bytes.ofText "!"), ("!!", Bytes.ofText "tag:yaml.org,2002:")]

/-- The name of integers. -/
def intTag : Bytes :=
  Bytes.ofText "tag:yaml.org,2002:int"

/-- A character of a handle, an anchor or a directive's name. -/
def isNameChar (c : Char) : Bool :=
  c.isAlphanum || c = '-' || c = '_'

/-- A character of a tag. The last three are only allowed in a name in full. -/
def isTagChar (inFull : Bool) (c : Char) : Bool :=
  isNameChar c || ";/?:@&=+$.%!~*'()".contains c || (inFull && (c = ',' || c = '[' || c = ']'))

def hexDigit? (c : Char) : Option Nat :=
  if '0' ≤ c ∧ c ≤ '9' then some (c.toNat - '0'.toNat)
  else if 'a' ≤ c ∧ c ≤ 'f' then some (c.toNat - 'a'.toNat + 10)
  else if 'A' ≤ c ∧ c ≤ 'F' then some (c.toNat - 'A'.toNat + 10)
  else none

/-- The number of bytes that follow the first one of a character in UTF-8. -/
def continuation? (b : Nat) : Option Nat :=
  if b < 0x80 then some 0
  else if b < 0xc0 then none
  else if b < 0xe0 then some 1
  else if b < 0xf0 then some 2
  else if b < 0xf8 then some 3
  else none

/-- The bytes of characters of a tag; `%` and two digits stand for a byte, and such
    bytes for whole characters. `pending` bytes are still missing of one. -/
def tagBytes? : (pending : Nat) → List Char → Option Bytes
  | pending, '%' :: a :: b :: rest => do
    let n := (← hexDigit? a) * 16 + (← hexDigit? b)
    let pending ←
      if pending = 0 then continuation? n
      else if 0x80 ≤ n ∧ n < 0xc0 then some (pending - 1)
      else none
    return UInt8.ofNat n :: (← tagBytes? pending rest)
  | 0, c :: rest => if c = '%' then none else return UInt8.ofNat c.toNat :: (← tagBytes? 0 rest)
  | 0, [] => some []
  | _ + 1, _ => none

/-- Characters of a tag as they stand. -/
def tagChars (inFull : Bool) : Scan (List Char) := fun k =>
  let cs := k.rest.takeWhile (isTagChar inFull)
  some (cs, k.advance cs.length)

/-- The bytes of a tag up to a zero byte. -/
def tagName? (cs : List Char) : Option Bytes :=
  (tagBytes? 0 cs).map fun bs => bs.takeWhile (· ≠ 0)

/-- A handle in front of a text: an exclamation mark, or a word between two. -/
def handle? (cs : List Char) : Option String :=
  match cs with
  | '!' :: rest =>
    let word := rest.takeWhile isNameChar
    match rest.drop word.length with
    | '!' :: _ => some (String.ofList ('!' :: word ++ ['!']))
    | _ => if word.isEmpty then some "!" else none
  | _ => none

/-- A tag, which has to end like a thing. -/
def tag (handles : Handles) : Scan Bytes := do
  let start := (← get).rest
  let name ←
    if start.take 2 = ['!', '<'] then do
      modify (Cursor.advance 2)
      let cs ← tagChars true
      if cs.isEmpty then failure
      expect '>'
      tagName? cs
    else
      match handle? start with
      | some "!" | none => do
        expect '!'
        let suffix ← tagName? (← tagChars false)
        if suffix.isEmpty then pure (Bytes.ofText "!")
        else pure ((← handles.lookup "!") ++ suffix)
      | some handle => do
        modify (Cursor.advance handle.length)
        let cs ← tagChars false
        if cs.isEmpty then failure
        let front ← handles.lookup handle
        pure (front ++ (← tagName? cs))
  if !endsThing (← get).rest then failure
  return name

end Escrow.Yaml
