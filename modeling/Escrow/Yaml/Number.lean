import Escrow.Yaml.Tag

/-!
# Numbers in settings

Whole numbers are decimal without a leading zero, or in another base after `0x`,
`0o` or `0b`. A number that may be negative has a sign of either kind or none; one
that may not be has a plus sign or none, so that not even `-0` is one.
-/

namespace Escrow.Yaml

/-- A number in the digits of a base, at least one. -/
def digits? (base : Nat) (cs : List Char) : Option Nat :=
  if cs.isEmpty then none
  else
    cs.foldlM (fun n c => do
      let d ← hexDigit? c
      if d < base then return n * base + d else none) 0

/-- A number without a sign. -/
def magnitude? : List Char → Option Nat
  | '0' :: 'x' :: cs => digits? 16 cs
  | '0' :: 'o' :: cs => digits? 8 cs
  | '0' :: 'b' :: cs => digits? 2 cs
  | '0' :: _ :: _ => none
  | cs => digits? 10 cs

/-- A number that may be negative. -/
def signed? (s : String) : Option Int :=
  match s.toList with
  | '-' :: cs => (magnitude? cs).map fun n => -n
  | '+' :: cs => (magnitude? cs).map fun n => n
  | cs => (magnitude? cs).map fun n => n

/-- A number that may not be negative. -/
def unsigned? (s : String) : Option Nat :=
  match s.toList with
  | '+' :: cs => magnitude? cs
  | cs => magnitude? cs

end Escrow.Yaml
