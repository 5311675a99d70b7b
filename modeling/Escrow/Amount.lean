/-!
# Amounts

Value is counted in signed 64-bit numbers. Sums are exact: a sum that leaves the
range is either refused (`add?`, `total?`) or stays at the end of the range that
it would leave (`saturatingAdd`).
-/

namespace Escrow

/-- An amount of value. -/
abbrev Amount := Int64

namespace Amount

/-- The least amount. -/
def least : Int := -0x8000000000000000

/-- The greatest amount. -/
def greatest : Int := 0x7fffffffffffffff

/-- A number as an amount, if it is in the range. -/
def ofInt? (n : Int) : Option Amount :=
  if least ≤ n ∧ n ≤ greatest then some (Int64.ofInt n) else none

/-- The sum of two amounts, if it is in the range. -/
def add? (a b : Amount) : Option Amount :=
  ofInt? (a.toInt + b.toInt)

/-- The difference of two amounts, if it is in the range. -/
def sub? (a b : Amount) : Option Amount :=
  ofInt? (a.toInt - b.toInt)

/-- The sum of amounts, if every sum on the way is in the range. -/
def total? (amounts : List Amount) : Option Amount :=
  amounts.foldlM add? 0

/-- The sum of two amounts, or the end of the range that it passes. -/
def saturatingAdd (a b : Amount) : Amount :=
  Int64.ofInt (max least (min greatest (a.toInt + b.toInt)))

/-- The sum of amounts from the left, kept in the range at every step. -/
def saturatingTotal (amounts : List Amount) : Amount :=
  amounts.foldl saturatingAdd 0

/-- An amount in decimal digits. -/
def text (a : Amount) : String :=
  toString a.toInt

end Amount

end Escrow
