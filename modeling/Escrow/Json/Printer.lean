import Escrow.Json

/-!
# JSON values to text

A value on one line (`compact`), or with each item and member on a line of its
own, indented by two blanks a level (`pretty`). Control characters are escaped,
all others written as they are. What cannot be read is written as such again.
-/

namespace Escrow.Json

/-- A character inside a string. -/
def escape (c : Char) : String :=
  if c = '"' then "\\\""
  else if c = '\\' then "\\\\"
  else if c = '\n' then "\\n"
  else if c = '\r' then "\\r"
  else if c = '\t' then "\\t"
  else if c = '\x08' then "\\b"
  else if c = '\x0c' then "\\f"
  else if c.toNat < 0x20 then
    "\\u00" ++ String.ofList [Nat.digitChar (c.toNat / 16), Nat.digitChar (c.toNat % 16)]
  else String.singleton c

/-- A text in quotes. -/
def quote (s : String) : String :=
  "\"" ++ String.join (s.toList.map escape) ++ "\""

/-- Half of a surrogate pair in quotes. -/
def halfPair : String :=
  "\"\\ud800\""

mutual

/-- A value on one line. -/
def compact : Json → String
  | .null => "null"
  | .bool b => if b then "true" else "false"
  | .int n => toString n
  | .real literal => literal
  | .str s => quote s
  | .arr items => "[" ++ compactItems items ++ "]"
  | .obj ms => "\x7b" ++ compactMembers ms ++ "\x7d"
  | .unreadable => halfPair

def compactItems : List Json → String
  | [] => ""
  | [v] => compact v
  | v :: rest => compact v ++ "," ++ compactItems rest

def compactMembers : List (String × Json) → String
  | [] => ""
  | [(n, v)] => quote n ++ ":" ++ compact v
  | (n, v) :: rest => quote n ++ ":" ++ compact v ++ "," ++ compactMembers rest

end

/-- The start of a line at a level. -/
def newline (level : Nat) : String :=
  "\n" ++ String.ofList (List.replicate (2 * level) ' ')

mutual

/-- A value whose parts are on lines of their own, one level further in. -/
def prettyAt (level : Nat) : Json → String
  | .null => "null"
  | .bool b => if b then "true" else "false"
  | .int n => toString n
  | .real literal => literal
  | .str s => quote s
  | .arr [] => "[]"
  | .arr (v :: rest) =>
    "[" ++ newline (level + 1) ++ prettyAt (level + 1) v ++ prettyItems (level + 1) rest ++
      newline level ++ "]"
  | .obj [] => "\x7b\x7d"
  | .obj ((n, v) :: rest) =>
    "\x7b" ++ newline (level + 1) ++ quote n ++ ": " ++ prettyAt (level + 1) v ++
      prettyMembers (level + 1) rest ++ newline level ++ "\x7d"
  | .unreadable => halfPair

def prettyItems (level : Nat) : List Json → String
  | [] => ""
  | v :: rest => "," ++ newline level ++ prettyAt level v ++ prettyItems level rest

def prettyMembers (level : Nat) : List (String × Json) → String
  | [] => ""
  | (n, v) :: rest =>
    "," ++ newline level ++ quote n ++ ": " ++ prettyAt level v ++ prettyMembers level rest

end

/-- A value on as many lines as it has parts. -/
def pretty (j : Json) : String :=
  prettyAt 0 j

end Escrow.Json
