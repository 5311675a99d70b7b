/-!
# Places in a text of settings

A text of settings is read from front to back. A *cursor* holds what is left of
it, the column, and whether a name may begin here: outside brackets only as the
first thing on its line, or after a mark that says so. Where a name may begin,
the space in front of it tells how deep it is, and must not be made of tabs.

All the ways to end a line are one here (`joinLines`). Some characters must not
occur at all, not even in comments (`isPrintable`).
-/

namespace Escrow.Yaml

/-- A character that a text of settings may hold. -/
def isPrintable (c : Char) : Bool :=
  let n := c.toNat
  n = 0x09 || n = 0x0a || n = 0x0d || (0x20 ≤ n && n ≤ 0x7e) || n = 0x85 ||
    (0xa0 ≤ n && n ≤ 0xfffd) || 0x10000 ≤ n

/-- Characters with every end of a line made a line feed: a carriage return, with
    or without a line feed, a next line, and the two separators of Unicode. -/
def joinLines : List Char → List Char
  | [] => []
  | '\r' :: '\n' :: rest => '\n' :: joinLines rest
  | c :: rest =>
    (if c = '\r' || c = '\x85' || c = '\u2028' || c = '\u2029' then '\n' else c) :: joinLines rest

def isBlank (c : Char) : Bool :=
  c = ' ' || c = '\t'

/-- Whether a thing ends where these characters begin: at a blank, or the end of
    the line or the text. -/
def endsThing : List Char → Bool
  | [] => true
  | c :: _ => isBlank c || c = '\n'

/-- A place in a text. -/
structure Cursor where
  rest : List Char
  column : Nat := 0
  /-- Whether a name may begin here. -/
  fresh : Bool := true

/-- Reads something at a place, and says where it ends. -/
abbrev Scan := StateT Cursor Option

namespace Cursor

/-- The place some characters later on the same line. No name may begin there. -/
def advance (n : Nat) (k : Cursor) : Cursor :=
  { rest := k.rest.drop n, column := k.column + n, fresh := false }

/-- Whether three characters stand here at the start of a line, as a thing of
    their own. -/
def isMark (mark : Char) (k : Cursor) : Bool :=
  k.column = 0 && k.rest.take 3 = [mark, mark, mark] && endsThing (k.rest.drop 3)

/-- Whether a character stands here as a thing of its own. -/
def isSign (sign : Char) (k : Cursor) : Bool :=
  k.rest.head? = some sign && endsThing k.rest.tail

/-- Whether a place is within reach of an earlier one: on the same line, and no
    more than 1024 characters on. -/
def isNear (start k : Cursor) : Bool :=
  let between := start.rest.take (start.rest.length - k.rest.length)
  between.length ≤ 1024 && !between.contains '\n'

end Cursor

/-- Goes on past a character that has to come next. -/
def expect (c : Char) : Scan Unit := fun k =>
  if k.rest.head? = some c then some ((), k.advance 1) else none

/-- Goes on past blanks on the same line. -/
def skipBlanks : Scan Unit := fun k =>
  some ((), { k with
    rest := k.rest.dropWhile isBlank
    column := k.column + (k.rest.takeWhile isBlank).length })

/-- Goes on to the next thing, past blanks, comments, ends of lines, and a byte
    order mark at the start of a line. `inBrackets` says whether all space is alike;
    `inComment`, whether a comment has begun. -/
def skipFrom (inBrackets : Bool) :
    (inComment : Bool) → (column : Nat) → (fresh : Bool) → List Char → Cursor
  | _, column, fresh, [] => ⟨[], column, fresh⟩
  | inComment, column, fresh, c :: rest =>
    if c = '\n' then skipFrom inBrackets false 0 (fresh || !inBrackets) rest
    else if inComment then skipFrom inBrackets true (column + 1) fresh rest
    else if c = ' ' || (c = '\t' && (inBrackets || !fresh)) || (c = '\ufeff' && column = 0) then
      skipFrom inBrackets false (column + 1) fresh rest
    else if c = '#' then skipFrom inBrackets true (column + 1) fresh rest
    else ⟨c :: rest, column, fresh⟩

/-- Goes on to the next thing. -/
def skip (inBrackets : Bool) : Scan Unit := fun k =>
  some ((), skipFrom inBrackets false k.column k.fresh k.rest)

/-- Goes on past the rest of a line, which may only hold a comment. -/
def endLine : Scan Unit := fun k =>
  let rest := k.rest.dropWhile isBlank
  let rest := if rest.head? = some '#' then rest.dropWhile (· ≠ '\n') else rest
  match rest with
  | [] => some ((), { k with rest := [] })
  | '\n' :: rest => some ((), { k with rest := rest, column := 0 })
  | _ => none

end Escrow.Yaml
