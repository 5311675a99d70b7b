/-!
# JSON values

Values as they are read and written: numbers that are integers of at most 64 bits
are held as such, any other number as the text it was written in.

A text may hold things that are well-formed but stand for nothing: a string with
half of a surrogate pair, or a number beyond the range of binary64. They can be
passed over, but not read (`Json.unreadable`).

Objects that the program makes (`Json.object`) hold each name once, in order of
names; of two members of one name the first is kept.
-/

namespace Escrow

/-- A JSON value. -/
inductive Json
  | null
  | bool (b : Bool)
  | int (n : Int)
  | real (literal : String)
  | str (s : String)
  | arr (items : List Json)
  | obj (members : List (String × Json))
  /-- A string or number that stands for nothing, or an object with such a name. -/
  | unreadable

namespace Json

/-- Puts a member in its place among ordered ones, unless its name is there. -/
def insertNew (name : String) (value : Json) :
    List (String × Json) → List (String × Json)
  | [] => [(name, value)]
  | (n, v) :: rest =>
    if name < n then (name, value) :: (n, v) :: rest
    else if name = n then (n, v) :: rest
    else (n, v) :: insertNew name value rest

/-- The object of some members. -/
def object (members : List (String × Json)) : Json :=
  .obj (members.foldl (fun ms m => insertNew m.1 m.2 ms) [])

/-- A value that may be missing, written as null. -/
def ofOption {α : Type} (f : α → Json) : Option α → Json
  | none => .null
  | some a => f a

/-- A natural number. -/
def nat (n : Nat) : Json :=
  .int n

/-- A list of values. -/
def list {α : Type} (f : α → Json) (as : List α) : Json :=
  .arr (as.map f)

/-- The value of a member, the last one of its name. -/
def member? (name : String) : Json → Option Json
  | .obj ms => (ms.reverse.find? (·.1 = name)).map (·.2)
  | _ => none

/-- The members of an object laid over those of another. -/
def overlay (above : Json) (base : Json) : Json :=
  match above, base with
  | .obj as, .obj bs => object (as.reverse ++ bs)
  | _, b => b

end Json

end Escrow
