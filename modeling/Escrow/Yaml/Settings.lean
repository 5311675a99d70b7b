import Escrow.Yaml.Scalar

/-!
# Settings in YAML

Texts of YAML that hold the settings of a program: names, each with a number,
either on lines of their own at one depth or in braces. What else YAML has,
collections inside of collections above all, no settings are made of, so a text
that uses it has none.

A text is one document. Directives and `---` may come before it, and `...` after
it. A document without anything in it holds no settings, which is not the same as
one that holds something else.

Anchors are numbered by how many names of anchors were in use before each. Of
things with one number the last one counts, also for aliases before it.
-/

namespace Escrow.Yaml

/-- A name and its value as they are written. -/
structure Entry where
  name : Scalar
  value : Value
  deriving DecidableEq

/-- What a document holds: the properties of the whole and the entries in it. -/
structure Document where
  properties : Properties := {}
  entries : List Entry := []
  deriving DecidableEq

/-! ## Entries -/

/-- A name and its colon within reach, on one line. In braces the colon of a quoted
    name need not be followed by a blank. -/
def lineName (handles : Handles) (ctx : Context) : Scan Scalar := do
  let start ← get
  let s ← match ctx with
    | .brackets => scalar handles .brackets
    | .block _ => do
      let p ← properties handles .brackets 3 {}
      let (style, text) ← text .brackets
      pure ⟨p, style, text⟩
  match ctx with
  | .brackets => skip true
  | .block _ =>
    skipBlanks
    if !(← get).isSign ':' then failure
  if !start.isNear (← get) then failure
  expect ':'
  return s

/-- A name behind a question mark, and the colon in front of its value. On lines of
    their own both marks are in the column of the names. -/
def markedName (handles : Handles) (ctx : Context) : Scan Scalar := do
  modify fun k => { k.advance 1 with fresh := !ctx.inBrackets }
  skip ctx.inBrackets
  let s ← scalar handles ctx
  skip ctx.inBrackets
  if let .block column := ctx then
    let k ← get
    if !(k.fresh && k.column = column && k.isSign ':') then failure
  expect ':'
  modify fun k => { k with fresh := !ctx.inBrackets }
  return s

/-- Whether a question mark that stands for itself is here. -/
def Cursor.atQuestion (k : Cursor) (ctx : Context) : Bool :=
  match ctx with
  | .brackets => k.rest.head? = some '?'
  | .block _ => k.isSign '?'

/-- A name and its value, up to the next thing. -/
def entry (handles : Handles) (ctx : Context) : Scan Entry := do
  let name ←
    if (← get).atQuestion ctx then markedName handles ctx else lineName handles ctx
  skip ctx.inBrackets
  let v ← value handles ctx
  skip ctx.inBrackets
  return ⟨name, v⟩

/-- Whether the document ends here. -/
def Cursor.atEnd (k : Cursor) : Bool :=
  k.rest.isEmpty || k.isMark '.'

/-- Entries on lines of their own, all of them in one column. -/
def lineEntries (handles : Handles) (column : Nat) : (fuel : Nat) → Scan (List Entry)
  | 0 => failure
  | fuel + 1 => do
    let e ← entry handles (.block column)
    let k ← get
    if k.atEnd then return [e]
    if !(k.fresh && k.column = column) then failure
    return e :: (← lineEntries handles column fuel)

/-- Entries in braces, after the opening one. A comma may follow the last entry. -/
def braceEntries (handles : Handles) : (fuel : Nat) → Scan (List Entry)
  | 0 => failure
  | fuel + 1 => do
    skip true
    if (← get).rest.head? = some '\x7d' then
      expect '\x7d'
      return []
    let e ← entry handles .brackets
    if (← get).rest.head? = some ',' then
      expect ','
      return e :: (← braceEntries handles fuel)
    else
      expect '\x7d'
      return [e]

/-! ## Documents -/

/-- The contents of a document, after the properties of the whole that have been
    read. `marked` says whether they came after a `---`, so that they may be
    nothing even if the document has an end of its own. -/
def contents (handles : Handles) (marked : Bool) : (fuel : Nat) → Properties → Scan Document
  | 0, _ => failure
  | fuel + 1, p => do
    skip false
    let k ← get
    if k.atEnd then
      if k.rest.isEmpty || marked || p ≠ {} then return { properties := p } else failure
    else if k.rest.head? = some '\x7b' then
      expect '\x7b'
      return ⟨p, ← braceEntries handles (fuel + k.rest.length)⟩
    else
      match (if k.fresh then lineEntries handles k.column (k.rest.length + 1) k else none) with
      | some (entries, k) =>
        set k
        return ⟨p, entries⟩
      | none => contents handles marked fuel (← property handles p)

/-- A number of a version, of nine digits at most. -/
def versionNumber : Scan Nat := do
  let ds := (← get).rest.takeWhile Char.isDigit
  if ds.isEmpty || 9 < ds.length then failure
  modify (Cursor.advance ds.length)
  return ds.foldl (fun n d => 10 * n + (d.toNat - '0'.toNat)) 0

/-- The directive of the version, which has to be 1.1 or 1.2. -/
def versionDirective : Scan Unit := do
  let major ← versionNumber
  expect '.'
  let minor ← versionNumber
  if !(major = 1 && (minor = 1 || minor = 2)) then failure

/-- A directive that declares a handle. -/
def handleDirective (handles : Handles) : Scan Handles := do
  let handle ← handle? (← get).rest
  modify (Cursor.advance handle.length)
  if handles.any (·.1 = handle) || !(← get).rest.head?.any isBlank then failure
  skipBlanks
  let cs ← tagChars true
  if cs.isEmpty || !endsThing (← get).rest then failure
  return handles ++ [(handle, ← tagName? cs)]

/-- Directives at the start of lines, and the handles that they declare. -/
def directives : (fuel : Nat) → (versioned : Bool) → Handles → Scan (Bool × Handles)
  | 0, _, _ => failure
  | fuel + 1, versioned, handles => do
    skip false
    let k ← get
    if !(k.column = 0 && k.rest.head? = some '%') then
      return (versioned || !handles.isEmpty, handles)
    expect '%'
    let name := (← get).rest.takeWhile isNameChar
    modify (Cursor.advance name.length)
    if !endsThing (← get).rest then failure
    skipBlanks
    if name = ['Y', 'A', 'M', 'L'] && !versioned then
      versionDirective
      endLine
      directives fuel true handles
    else if name = ['T', 'A', 'G'] then
      let handles ← handleDirective handles
      endLine
      directives fuel versioned handles
    else failure

/-- Marks of the end of a document, after which nothing comes. -/
def ending : (fuel : Nat) → Scan Unit
  | 0 => failure
  | fuel + 1 => do
    skip false
    let k ← get
    if k.rest.isEmpty then return
    if !k.isMark '.' then failure
    modify (Cursor.advance 3)
    ending fuel

/-- The one document of a text. -/
def document (fuel : Nat) : Scan Document := do
  let (directed, declared) ← directives fuel false []
  let marked := (← get).isMark '-'
  if marked then modify (Cursor.advance 3)
  else if directed then failure
  let d ← contents (declared ++ Handles.default) marked fuel {}
  ending fuel
  return d

/-! ## Aliases -/

/-- The numbers of the names of anchors, and what the numbers stand for, if it is a
    word. -/
structure Anchors where
  numbers : List (String × Nat) := []
  things : List (Nat × Option Scalar) := []

namespace Anchors

/-- Anchors with one more, if a thing has one. -/
def add (a : Anchors) (p : Properties) (thing : Option Scalar) : Anchors :=
  match p.anchor with
  | none => a
  | some name =>
    let n := a.numbers.length
    { numbers := (name, n) :: a.numbers.filter (·.1 ≠ name)
      things := (n, thing) :: a.things }

/-- The names of entries with their values, an alias being given as a number, and
    the anchors among them. An alias has to follow its anchor. -/
def number (a : Anchors) : List Entry → Option (List (String × (Scalar ⊕ Nat)) × Anchors)
  | [] => some ([], a)
  | e :: rest => do
    let a := a.add e.name.properties (some e.name)
    let (v, a) ← match e.value with
      | .scalar s => some (.inl s, a.add s.properties (some s))
      | .alias name => (a.numbers.lookup name).map fun n => (.inr n, a)
    let (vs, a) ← number a rest
    return ((e.name.text, v) :: vs, a)

end Anchors

/-- The word of a value that may be a number: a plain one, or one in a literal block
    that has the tag of integers. -/
def Scalar.number? (s : Scalar) : Option String :=
  if s.style = .plain || (s.style = .literal && s.properties.tag = some intTag) then some s.text
  else none

/-- The names and the words of numbers in a document. -/
def Document.settings? (d : Document) : Option (List (String × String)) := do
  let (entries, a) ← (Anchors.add {} d.properties none).number d.entries
  entries.mapM fun (name, v) => do
    let s ← match v with
      | .inl s => some s
      | .inr n => (a.things.lookup n).join
    return (name, ← s.number?)

/-- The settings in a text: names, and words that may be numbers. -/
def settings? (s : String) : Option (List (String × String)) := do
  if !s.toList.all isPrintable then none
  let cs := joinLines s.toList
  let (d, _) ← document (cs.length + 1) { rest := cs }
  d.settings?

end Escrow.Yaml
