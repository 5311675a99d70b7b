import Escrow.Amount
import Escrow.Json

/-!
# Reading JSON values

A *record* is read from an object, by the names of its fields, or from an array
of its fields in order. Members of other names are ignored; a field given twice
is refused. Where a field is optional, null stands for a missing one.

Numbers must be integers of the range that is read.

Of what is ignored nothing is asked. But a record whose kind is not known before
all of it has been seen is held as a whole first, and then nothing in it may be
unreadable or nest too deep (`isWhole`).
-/

namespace Escrow.Json

/-- The integer of a value, if it is one between `low` and `high`. -/
def int? (low high : Int) : Json → Option Int
  | .int n => if low ≤ n ∧ n ≤ high then some n else none
  | _ => none

/-- A natural number below `bound`. -/
def nat? (bound : Nat) (j : Json) : Option Nat :=
  (j.int? 0 (bound - 1)).map Int.toNat

def byte? (j : Json) : Option UInt8 :=
  (j.nat? 0x100).map UInt8.ofNat

def word? (j : Json) : Option UInt32 :=
  (j.nat? 0x100000000).map UInt32.ofNat

/-- A natural number of 64 bits. -/
def size? (j : Json) : Option Nat :=
  j.nat? 0x10000000000000000

def amount? (j : Json) : Option Amount :=
  (j.int? Amount.least Amount.greatest).map Int64.ofInt

def text? : Json → Option String
  | .str s => some s
  | _ => none

def bool? : Json → Option Bool
  | .bool b => some b
  | _ => none

/-- A list of values that are all read by `f`. -/
def list? {α : Type} (f : Json → Option α) : Json → Option (List α)
  | .arr items => items.mapM f
  | _ => none

def bytes? : Json → Option (List UInt8) :=
  list? byte?

/-- A field that has to be there. -/
def required {α : Type} (f : Json → Option α) (field : Option Json) : Option α :=
  field.bind f

/-- A field that may be missing or null. -/
def optional {α : Type} (f : Json → Option α) : Option Json → Option (Option α)
  | none => some none
  | some .null => some none
  | some j => (f j).map some

/-- A field that stands for a default when it is missing. -/
def orElse {α : Type} (f : Json → Option α) (dflt : α) : Option Json → Option α
  | none => some dflt
  | some j => f j

/-- The one value of a name among members; `none` if two have it. -/
def unique? (name : String) (members : List (String × Json)) : Option (Option Json) :=
  match members.filter (·.1 = name) with
  | [] => some none
  | [m] => some (some m.2)
  | _ => none

/-- The fields of a record, in the order of `names`. An array of fields may end
    early, but not before the first `least` of them. -/
def record? (names : List String) (least : Nat) : Json → Option (List (Option Json))
  | .obj ms => names.mapM (unique? · ms)
  | .arr items =>
    if least ≤ items.length ∧ items.length ≤ names.length then
      some (items.map some ++ List.replicate (names.length - items.length) none)
    else none
  | _ => none

/-- Whether every member of an object has one of some names. -/
def onlyNames (names : List String) : Json → Bool
  | .obj ms => ms.all fun m => names.contains m.1
  | _ => true

mutual

/-- Whether a value can be held as a whole: all of it is readable, and arrays and
    objects nest at most `depth` deep. -/
def isWhole (depth : Nat) : Json → Bool
  | .arr items => 0 < depth && areWhole (depth - 1) items
  | .obj ms => 0 < depth && areWholeMembers (depth - 1) ms
  | .unreadable => false
  | _ => true

def areWhole (depth : Nat) : List Json → Bool
  | [] => true
  | v :: rest => isWhole depth v && areWhole depth rest

def areWholeMembers (depth : Nat) : List (String × Json) → Bool
  | [] => true
  | (_, v) :: rest => isWhole depth v && areWholeMembers depth rest

end

/-- A record that says what it is: the text under the name `tag`, or at the front
    of an array, and the other members. -/
def tagged? (tag : String) : Json → Option (String × Json)
  | .obj ms =>
    match unique? tag ms with
    | some (some (.str s)) => some (s, .obj (ms.filter (·.1 ≠ tag)))
    | _ => none
  | .arr (.str s :: items) => some (s, .arr items)
  | _ => none

end Escrow.Json
