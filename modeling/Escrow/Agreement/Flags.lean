import Escrow.Bytes
import Escrow.Text.Blank

/-!
# Flags

Sets of flags, each flag a bit of a byte. Bits without a name are kept, so that a
byte is read and written back as it was; whether they are allowed is for the
rules to say.

As text a set is the names of its flags in order and any bits left over in
hexadecimal, joined by `|`.
-/

namespace Escrow

/-- The flags of an offer. -/
@[ext] structure OfferFlags where
  bits : UInt8
  deriving DecidableEq

/-- The flags of a dispute. -/
@[ext] structure DisputeFlags where
  bits : UInt8
  deriving DecidableEq

namespace Flags

/-- The flags of `bits` that have names, and the other bits. -/
def split (names : List (String × UInt8)) (bits : UInt8) : List String × UInt8 :=
  let named := names.filter fun f => bits &&& f.2 ≠ 0
  (named.map (·.1), named.foldl (fun b f => b &&& ~~~f.2) bits)

/-- The text of a set of flags. -/
def text (names : List (String × UInt8)) (bits : UInt8) : String :=
  let (named, rest) := split names bits
  let pieces :=
    if rest = 0 then named
    else named ++ ["0x" ++ String.ofList (Nat.toDigits 16 rest.toNat)]
  String.intercalate " | " pieces

/-- The number of a hexadecimal digit. -/
def hexDigit? (c : Char) : Option Nat :=
  let n := c.toNat
  if 48 ≤ n ∧ n ≤ 57 then some (n - 48)
  else if 97 ≤ n ∧ n ≤ 102 then some (n - 87)
  else if 65 ≤ n ∧ n ≤ 70 then some (n - 55)
  else none

/-- A byte in hexadecimal digits, at least one, a plus sign allowed in front. -/
def hexByte? (cs : List Char) : Option UInt8 := do
  let ds := match cs with
    | '+' :: r => r
    | r => r
  if ds.isEmpty then none
  let n ← ds.foldlM (fun n d => (hexDigit? d).map (16 * n + ·)) 0
  if n < 256 then some (UInt8.ofNat n) else none

/-- The bits of a piece of a text: a number after `0x`, or else a name. -/
def piece? (names : List (String × UInt8)) (s : String) : Option UInt8 :=
  match s.toList with
  | '0' :: 'x' :: cs => hexByte? cs
  | _ => (names.find? (·.1 = s)).map (·.2)

/-- Characters cut at every bar. -/
def pieces : List Char → List (List Char)
  | [] => [[]]
  | c :: rest =>
    if c = '|' then [] :: pieces rest
    else
      match pieces rest with
      | p :: ps => (c :: p) :: ps
      | [] => [[c]]

/-- The set of flags written in a text, blank characters around each piece
    ignored. A blank text is the empty set. -/
def ofText? (names : List (String × UInt8)) (s : String) : Option UInt8 :=
  if (Text.trim s).isEmpty then some 0
  else
    (pieces s.toList).foldlM
      (fun bits p => (piece? names (Text.trim (String.ofList p))).map (bits ||| ·)) 0

end Flags

namespace OfferFlags

/-- The offer replaces an agreement by a new one, or closes it. -/
def amendment : OfferFlags := ⟨0x01⟩

/-- The offer closes an agreement. -/
def close : OfferFlags := ⟨0x02⟩

/-- The source cannot withdraw the offer. -/
def noCancel : OfferFlags := ⟨0x04⟩

/-- The agreement cannot be disputed. -/
def noDisputes : OfferFlags := ⟨0x08⟩

/-- The agreement cannot be unlocked. -/
def noUnlock : OfferFlags := ⟨0x10⟩

/-- The offer is acceptable only once it is notarized. -/
def awaitNotaries : OfferFlags := ⟨0x20⟩

/-- The names of the flags, in order. -/
def names : List (String × UInt8) :=
  [("AMENDMENT", amendment.bits), ("CLOSE", close.bits), ("NOCANCEL", noCancel.bits),
    ("NODISPUTES", noDisputes.bits), ("NOUNLOCK", noUnlock.bits),
    ("AWAITNOTARIES", awaitNotaries.bits)]

/-- Whether all flags of `g` are among those of `f`. -/
def has (f g : OfferFlags) : Bool :=
  f.bits &&& g.bits = g.bits

/-- Whether two sets have a flag in common. -/
def meets (f g : OfferFlags) : Bool :=
  f.bits &&& g.bits ≠ 0

def union (f g : OfferFlags) : OfferFlags :=
  ⟨f.bits ||| g.bits⟩

/-- The flags of `f` that are not in `g`. -/
def without (f g : OfferFlags) : OfferFlags :=
  ⟨f.bits &&& ~~~g.bits⟩

/-- Whether all bits have names. -/
def isKnown (f : OfferFlags) : Bool :=
  f.bits &&& 0x3f = f.bits

def text (f : OfferFlags) : String :=
  Flags.text names f.bits

def ofText? (s : String) : Option OfferFlags :=
  (Flags.ofText? names s).map OfferFlags.mk

end OfferFlags

namespace DisputeFlags

/-- No flags. -/
def none : DisputeFlags := ⟨0⟩

/-- The dispute cannot be withdrawn. -/
def final : DisputeFlags := ⟨0x01⟩

/-- The names of the flags, in order. -/
def names : List (String × UInt8) :=
  [("FINAL", final.bits)]

/-- Whether all flags of `g` are among those of `f`. -/
def has (f g : DisputeFlags) : Bool :=
  f.bits &&& g.bits = g.bits

/-- Whether all bits have names. -/
def isKnown (f : DisputeFlags) : Bool :=
  f.bits &&& 0x01 = f.bits

def text (f : DisputeFlags) : String :=
  Flags.text names f.bits

def ofText? (s : String) : Option DisputeFlags :=
  (Flags.ofText? names s).map DisputeFlags.mk

end DisputeFlags

end Escrow
