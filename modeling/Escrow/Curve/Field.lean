/-!
# The field of the curve

Numbers modulo the prime 2²⁵⁵ − 19, each held as its least representative. Powers
are taken bit by bit, the greatest bit first; the inverse of a number and the
root of a quotient are powers.
-/

namespace Escrow.Field

/-- The size of the field. -/
def prime : Nat := Nat.pow 2 255 - 19

def add (a b : Nat) : Nat :=
  (a + b) % prime

def sub (a b : Nat) : Nat :=
  (a + (prime - b)) % prime

def mul (a b : Nat) : Nat :=
  (a * b) % prime

/-- The low `width` bits of a number, greatest first. -/
def bits : (width n : Nat) → List Bool
  | 0, _ => []
  | width + 1, n => n.testBit width :: bits width n

/-- The power of `a` to a number of fewer than 256 bits. -/
def pow (a n : Nat) : Nat :=
  (bits 256 n).foldl (fun r bit => if bit then mul (mul r r) a else mul r r) 1

/-- The number whose product with `a` is one; zero for zero. -/
def inverse (a : Nat) : Nat :=
  pow a (prime - 2)

/-- A root of minus one. -/
def rootOfMinusOne : Nat :=
  pow 2 ((prime - 1) / 4)

/-- The even root of `u / v`, if it has a root. -/
def sqrtRatio? (u v : Nat) : Option Nat :=
  let v3 := mul (mul v v) v
  let r := mul (mul u v3) (pow (mul u (mul (mul v3 v3) v)) ((prime - 5) / 8))
  let square := mul v (mul r r)
  let root :=
    if square = u then some r
    else if square = sub 0 u then some (mul r rootOfMinusOne)
    else none
  root.map fun r => if r % 2 = 1 then prime - r else r

end Escrow.Field
