import Escrow.Bytes
import Escrow.Curve.Field

/-!
# Points of the curve

The points of −x² + y² = 1 + d·x²·y² over the field, in extended coordinates: a
point (x, y) is held as (X : Y : Z : T) with x = X/Z, y = Y/Z and T = XY/Z. The
formulas for sums and doubles hold for all points.

A point is written in 32 bytes: y, least byte first, and in the last bit whether
x is odd.
-/

namespace Escrow

open Escrow.Field

/-- A point in extended coordinates. -/
structure Point where
  x : Nat
  y : Nat
  z : Nat
  t : Nat

namespace Point

/-- The constant of the curve, −121665/121666. -/
def d : Nat :=
  mul (sub 0 121665) (inverse 121666)

/-- Twice the constant of the curve. -/
def twoD : Nat :=
  add d d

/-- The neutral point. -/
def zero : Point :=
  ⟨0, 1, 1, 0⟩

def add (p q : Point) : Point :=
  let a := mul (sub p.y p.x) (sub q.y q.x)
  let b := mul (Field.add p.y p.x) (Field.add q.y q.x)
  let c := mul (mul p.t twoD) q.t
  let e := mul (Field.add p.z p.z) q.z
  let f := sub b a
  let g := sub e c
  let h := Field.add e c
  let k := Field.add b a
  ⟨mul f g, mul h k, mul g h, mul f k⟩

def double (p : Point) : Point :=
  let a := mul p.x p.x
  let b := mul p.y p.y
  let zz := mul p.z p.z
  let c := Field.add zz zz
  let h := Field.add a b
  let s := Field.add p.x p.y
  let e := sub h (mul s s)
  let g := sub a b
  let f := Field.add c g
  ⟨mul e f, mul g h, mul f g, mul e h⟩

def neg (p : Point) : Point :=
  ⟨sub 0 p.x, p.y, p.z, sub 0 p.t⟩

/-- The point `p` taken `n` times, for `n` of fewer than 256 bits. -/
def smul (n : Nat) (p : Point) : Point :=
  (bits 256 n).foldl (fun r bit => if bit then r.double.add p else r.double) zero

/-- The sum of `p` taken `m` times and `q` taken `n` times, for `m` and `n` of
    fewer than 256 bits. -/
def smulAdd (m : Nat) (p : Point) (n : Nat) (q : Point) : Point :=
  let both := p.add q
  ((bits 256 m).zip (bits 256 n)).foldl
    (fun r bit => match bit with
      | (true, true) => r.double.add both
      | (true, false) => r.double.add p
      | (false, true) => r.double.add q
      | (false, false) => r.double)
    zero

/-- The bytes of a point. -/
def encode (p : Point) : Octets 32 :=
  let i := inverse p.z
  let x := mul p.x i
  let y := mul p.y i
  ⟨Bytes.littleEndian 32 (y + (x % 2) * Nat.pow 2 255), Bytes.length_littleEndian ..⟩

/-- The point that bytes stand for. A y beyond the field stands for its
    remainder; that x is odd may also be said of the x that is zero. -/
def decode? (bytes : Octets 32) : Option Point :=
  let n := Bytes.ofLittleEndian bytes.bytes
  let y := (n % Nat.pow 2 255) % prime
  let yy := mul y y
  (sqrtRatio? (sub yy 1) (Field.add (mul yy d) 1)).map fun x =>
    let x := if n.testBit 255 then sub 0 x else x
    ⟨x, y, 1, mul x y⟩

/-- The y of the base point, four fifths. -/
def baseY : Nat :=
  mul 4 (inverse 5)

/-- The base point, whose x is even. -/
def base : Point :=
  (decode? ⟨Bytes.littleEndian 32 baseY, Bytes.length_littleEndian ..⟩).getD zero

/-- The number of multiples of the base point. -/
def order : Nat :=
  Nat.pow 2 252 + 27742317777372353535851937790883648493

end Point

end Escrow
