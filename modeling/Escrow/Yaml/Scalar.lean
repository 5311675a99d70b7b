import Escrow.Yaml.Tag

/-!
# Names and values

Names and values are *words* of letters, digits, dashes, underscores and plus
signs. A word may stand plain, in quotes of either kind, or in a *block*, on a
line of its own below a sign that says how far it is indented and whether the end
of its line belongs to it. Something with any other text in it is neither the
name of a setting nor a number, so it is not read at all.

In front of a word there may be an anchor, a name by which an alias refers to it,
and a tag. A value may be an alias instead.
-/

namespace Escrow.Yaml

/-- How a word is written. -/
inductive Style
  | plain
  | quoted
  | literal
  | folded
  deriving DecidableEq

/-- What stands in front of a thing. -/
structure Properties where
  anchor : Option String := none
  tag : Option Bytes := none
  deriving DecidableEq

/-- A word and how it is written. -/
structure Scalar where
  properties : Properties
  style : Style
  text : String
  deriving DecidableEq

/-- A value: a word, or a reference to another one. -/
inductive Value
  | scalar (scalar : Scalar)
  | alias (anchor : String)
  deriving DecidableEq

/-- Where something is read: in brackets, or below a name in a column. -/
inductive Context
  | brackets
  | block (column : Nat)
  deriving DecidableEq

/-- Whether this is inside of brackets. -/
def Context.inBrackets : Context → Bool
  | .brackets => true
  | .block _ => false

def isWordChar (c : Char) : Bool :=
  isNameChar c || c = '+'

/-! ## Anchors, aliases and tags -/

/-- The name of an anchor, after its sign. -/
def anchorName (sign : Char) : Scan String := do
  expect sign
  let cs := (← get).rest.takeWhile isNameChar
  if cs.isEmpty then failure
  modify (Cursor.advance cs.length)
  return String.ofList cs

/-- Reads an anchor or a tag into what is known of the thing. Neither may be given
    twice. -/
def property (handles : Handles) (p : Properties) : Scan Properties := do
  match (← get).rest.head? with
  | some '&' =>
    let name ← anchorName '&'
    if p.anchor.isSome || !endsThing (← get).rest then failure
    return { p with anchor := some name }
  | some '!' =>
    let name ← tag handles
    if p.tag.isSome then failure
    return { p with tag := some name }
  | _ => failure

/-- Whether an anchor or a tag stands here. -/
def Cursor.atProperty (k : Cursor) : Bool :=
  k.rest.head? = some '&' || k.rest.head? = some '!'

/-! ## Plain and quoted words -/

/-- A plain word. -/
def plainWord : Scan String := do
  let cs := (← get).rest.takeWhile isWordChar
  if cs.isEmpty then failure
  modify (Cursor.advance cs.length)
  return String.ofList cs

/-- The rest of a text in single quotes, where two of them stand for one; `done` is
    what has been read of it, last character first. -/
def singleQuoted (done : List Char) : List Char → Option (String × List Char)
  | '\'' :: '\'' :: rest => singleQuoted ('\'' :: done) rest
  | '\'' :: rest => some (String.ofList done.reverse, rest)
  | c :: rest => if isBlank c || c = '\n' then none else singleQuoted (c :: done) rest
  | [] => none

/-- The character of an escape of one letter. -/
def escape? : Char → Option Char
  | '0' => some '\x00'
  | 'a' => some '\x07'
  | 'b' => some '\x08'
  | 't' | '\t' => some '\t'
  | 'n' => some '\n'
  | 'v' => some '\x0b'
  | 'f' => some '\x0c'
  | 'r' => some '\r'
  | 'e' => some '\x1b'
  | ' ' => some ' '
  | '"' => some '"'
  | '/' => some '/'
  | '\\' => some '\\'
  | 'N' => some '\x85'
  | '_' => some '\xa0'
  | 'L' => some '\u2028'
  | 'P' => some '\u2029'
  | _ => none

/-- The number of digits of an escape that gives the number of a character. -/
def escapeLength? : Char → Option Nat
  | 'x' => some 2
  | 'u' => some 4
  | 'U' => some 8
  | _ => none

/-- The character of a number in hexadecimal digits. -/
def numbered? (ds : List Char) : Option Char := do
  let n ← ds.foldlM (fun n d => do return n * 16 + (← hexDigit? d)) 0
  if n.isValidChar then return Char.ofNat n else none

/-- The rest of a text in double quotes. A backslash at the end of a line joins it
    to the next one, whose blanks in front do not count. `escape` says what has
    been read of an escape, and `joined` whether a line has just been joined. -/
def doubleQuoted (done : List Char) : (escape : Option (Option (Nat × List Char))) →
    (joined : Bool) → List Char → Option (String × List Char)
  | none, joined, c :: rest =>
    if c = '"' then some (String.ofList done.reverse, rest)
    else if c = '\\' then doubleQuoted done (some none) false rest
    else if isBlank c then if joined then doubleQuoted done none true rest else none
    else if c = '\n' then none
    else doubleQuoted (c :: done) none false rest
  | some none, _, c :: rest =>
    if c = '\n' then doubleQuoted done none true rest
    else
      match escapeLength? c with
      | some n => doubleQuoted done (some (some (n, []))) false rest
      | none => (escape? c).bind fun e => doubleQuoted (e :: done) none false rest
  | some (some (n, ds)), _, c :: rest =>
    if n ≤ 1 then
      (numbered? (ds ++ [c])).bind fun e => doubleQuoted (e :: done) none false rest
    else doubleQuoted done (some (some (n - 1, ds ++ [c]))) false rest
  | _, _, [] => none

/-- A text in quotes. -/
def quoted : Scan String := fun k => do
  let (s, rest) ← match k.rest with
    | '\'' :: rest => singleQuoted [] rest
    | '"' :: rest => doubleQuoted [] none false rest
    | _ => none
  let between := k.rest.take (k.rest.length - rest.length)
  let last := (between.reverse.takeWhile (· ≠ '\n')).length
  let column := if between.contains '\n' then last else k.column + last
  return (s, ⟨rest, column, false⟩)

/-! ## Blocks -/

/-- What the sign of a block says: whether the end of the line is left out, and how
    far the line is indented. -/
structure BlockHeader where
  strip : Bool := false
  indent : Option Nat := none

/-- The number of columns that a digit stands for, which is not zero. -/
def columns? (c : Char) : Option Nat :=
  if '1' ≤ c ∧ c ≤ '9' then some (c.toNat - '0'.toNat) else none

/-- The header of a block after its sign, up to the end of the line. -/
def blockHeader : Scan BlockHeader := do
  let signs := (← get).rest.takeWhile fun c => c = '+' || c = '-' || c.isDigit
  modify (Cursor.advance signs.length)
  let header ← match signs with
    | [] => pure {}
    | [c] =>
      if c.isDigit then pure { indent := some (← columns? c) } else pure { strip := c = '-' }
    | [c, d] =>
      if c.isDigit && !d.isDigit then pure { strip := d = '-', indent := some (← columns? c) }
      else if !c.isDigit && d.isDigit then pure { strip := c = '-', indent := some (← columns? d) }
      else failure
    | _ => failure
  endLine
  return header

/-- Goes on past empty lines after a block, and the space in front of the next thing
    as far as the block is indented. No tab may be in that space. -/
def skipEmptyLines (indent : Nat) : (column : Nat) → List Char → Option Cursor
  | column, [] => some ⟨[], column, true⟩
  | column, c :: rest =>
    if c = '\n' then skipEmptyLines indent 0 rest
    else if column < indent then
      if c = ' ' then skipEmptyLines indent (column + 1) rest
      else if c = '\t' then none
      else some ⟨c :: rest, column, true⟩
    else some ⟨c :: rest, column, true⟩

/-- A word in a block below a name in a column. It is on the first line after the
    header, and nothing but that line is in the block. -/
def blockWord (column : Nat) : Scan String := do
  modify (Cursor.advance 1)
  let header ← blockHeader
  let space := ((← get).rest.takeWhile (· = ' ')).length
  let indent := match header.indent with
    | some n => column + n
    | none => max space (column + 1)
  if space ≠ indent then failure
  modify (Cursor.advance space)
  let word ← plainWord
  match (← get).rest with
  | [] => return word
  | '\n' :: rest =>
    if !header.strip then failure
    let k ← skipEmptyLines indent 0 rest
    if k.column = indent && !k.rest.isEmpty then failure
    set k
    return word
  | _ => failure

/-! ## Names and values -/

/-- Whether a column is deeper than where this is. In brackets every column is. -/
def Context.isBelow (ctx : Context) (place : Nat) : Bool :=
  match ctx with
  | .brackets => true
  | .block column => column < place

/-- Goes on past what may follow a plain word: blanks and empty lines. No tab may be
    in the space where a name could begin. -/
def plainEnd (ctx : Context) : (place : Nat) → (fresh : Bool) → List Char → Option Cursor
  | place, fresh, [] => some ⟨[], place, fresh⟩
  | place, fresh, c :: rest =>
    if c = '\n' then plainEnd ctx 0 true rest
    else if c = '\t' && fresh && !ctx.isBelow place then none
    else if isBlank c then plainEnd ctx (place + 1) fresh rest
    else some ⟨c :: rest, place, fresh⟩

/-- Whether the next thing in brackets may begin here without any space. -/
def Cursor.atBracketSign (k : Cursor) : Bool :=
  k.rest.head? = some ',' || k.rest.head? = some '\x7d' || k.isSign ':'

/-- The text of a word that has no properties left to read. -/
def text (ctx : Context) : Scan (Style × String) := do
  let k ← get
  match k.rest.head?, ctx with
  | some '|', .block column => return (.literal, ← blockWord column)
  | some '>', .block column => return (.folded, ← blockWord column)
  | some '"', _ | some '\'', _ => return (.quoted, ← quoted)
  | _, _ => return (.plain, ← plainWord)

/-- Whether something below a name may begin here. If it is the first thing on its
    line, it has to be deeper than the name; only a block need not. -/
def Context.allows (ctx : Context) (k : Cursor) : Bool :=
  match ctx with
  | .brackets => true
  | .block column =>
    !k.fresh || column < k.column ||
      (column = k.column && (k.rest.head? = some '|' || k.rest.head? = some '>'))

/-- Reads the properties in front of a thing, each of which may be on a line of its
    own. -/
def properties (handles : Handles) (ctx : Context) : (fuel : Nat) → Properties → Scan Properties
  | 0, _ => failure
  | fuel + 1, p => do
    let k ← get
    if !ctx.allows k then failure
    if !k.atProperty then return p
    let p ← property handles p
    skip ctx.inBrackets
    properties handles ctx fuel p

/-- Reads the properties of a word and the word. After a plain one nothing may stand
    that would be a part of it. -/
def scalar (handles : Handles) (ctx : Context) : Scan Scalar := do
  let p ← properties handles ctx 3 {}
  let (style, text) ← text ctx
  if style = .plain then
    let k ← get
    if !endsThing k.rest && !(ctx.inBrackets && k.atBracketSign) then failure
    let k ← plainEnd ctx k.column k.fresh k.rest
    if ctx.inBrackets && !(k.atBracketSign || k.rest.head? = some '#') then failure
    set k
  return ⟨p, style, text⟩

/-- Reads a value. -/
def value (handles : Handles) (ctx : Context) : Scan Value := do
  if (← get).rest.head? = some '*' then
    if !ctx.allows (← get) then failure
    let name ← anchorName '*'
    let k ← get
    if !endsThing k.rest && !(ctx.inBrackets && k.atBracketSign) then failure
    return .alias name
  else return .scalar (← scalar handles ctx)

end Escrow.Yaml
