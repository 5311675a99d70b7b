import Escrow.Bytes
import Escrow.Digest.Constants

/-!
# SHA-512

The hash of FIPS 180-4 with 64-bit words: the message is padded to whole blocks
of 128 bytes, and each block is mixed into a state of eight words in 80 rounds.
-/

namespace Escrow.Sha512

/-- The eight words that the blocks are mixed into. -/
structure State where
  a : UInt64
  b : UInt64
  c : UInt64
  d : UInt64
  e : UInt64
  f : UInt64
  g : UInt64
  h : UInt64

/-- A word turned right by `n` bits. -/
def rotate (x n : UInt64) : UInt64 :=
  (x >>> n) ||| (x <<< (64 - n))

def smallSigma0 (x : UInt64) : UInt64 :=
  rotate x 1 ^^^ rotate x 8 ^^^ (x >>> 7)

def smallSigma1 (x : UInt64) : UInt64 :=
  rotate x 19 ^^^ rotate x 61 ^^^ (x >>> 6)

def bigSigma0 (x : UInt64) : UInt64 :=
  rotate x 28 ^^^ rotate x 34 ^^^ rotate x 39

def bigSigma1 (x : UInt64) : UInt64 :=
  rotate x 14 ^^^ rotate x 18 ^^^ rotate x 41

/-- Bytes read eight by eight as words, greatest byte first. -/
def words : Bytes → List UInt64
  | a :: b :: c :: d :: e :: f :: g :: h :: rest =>
    ((a.toUInt64 <<< 56) ||| (b.toUInt64 <<< 48) ||| (c.toUInt64 <<< 40) ||| (d.toUInt64 <<< 32) |||
      (e.toUInt64 <<< 24) ||| (f.toUInt64 <<< 16) ||| (g.toUInt64 <<< 8) ||| h.toUInt64) :: words rest
  | _ => []

/-- A word as eight bytes, greatest byte first. -/
def wordBytes (w : UInt64) : Bytes :=
  [(w >>> 56).toUInt8, (w >>> 48).toUInt8, (w >>> 40).toUInt8, (w >>> 32).toUInt8,
    (w >>> 24).toUInt8, (w >>> 16).toUInt8, (w >>> 8).toUInt8, w.toUInt8]

/-- Adds `n` words to a schedule, which is held last word first: each is made of
    the words 2, 7, 15 and 16 places before it. -/
def extend : Nat → List UInt64 → List UInt64
  | 0, ws => ws
  | n + 1, ws =>
    extend n ((smallSigma1 (ws.getD 1 0) + ws.getD 6 0 + smallSigma0 (ws.getD 14 0) +
      ws.getD 15 0) :: ws)

/-- The words mixed in for a block, one per round. -/
def schedule (block : Bytes) : List UInt64 :=
  (extend 64 (words block).reverse).reverse

/-- A round, with its constant and its word of the schedule. -/
def round (s : State) (k : UInt64 × UInt64) : State :=
  let t₁ := s.h + bigSigma1 s.e + ((s.e &&& s.f) ^^^ (~~~s.e &&& s.g)) + k.1 + k.2
  let t₂ := bigSigma0 s.a + ((s.a &&& s.b) ^^^ (s.a &&& s.c) ^^^ (s.b &&& s.c))
  ⟨t₁ + t₂, s.a, s.b, s.c, s.d + t₁, s.e, s.f, s.g⟩

/-- Mixes a block into the state. -/
def compress (s : State) (block : Bytes) : State :=
  let t := (Digest.cubeRoots.zip (schedule block)).foldl round s
  ⟨s.a + t.a, s.b + t.b, s.c + t.c, s.d + t.d, s.e + t.e, s.f + t.f, s.g + t.g, s.h + t.h⟩

/-- Mixes in the first `n` blocks of a padded message. -/
def absorb : Nat → State → Bytes → State
  | 0, s, _ => s
  | n + 1, s, bs => absorb n (compress s (bs.take 128)) (bs.drop 128)

/-- The state before any block. -/
def start : State :=
  let w i := Digest.squareRoots.getD i 0
  ⟨w 0, w 1, w 2, w 3, w 4, w 5, w 6, w 7⟩

/-- The number of blocks that a message of `n` bytes is padded to: it gains a
    mark of one byte and its length in sixteen. -/
def blockCount (n : Nat) : Nat :=
  (n + 144) / 128

/-- A message padded to whole blocks. -/
def pad (bs : Bytes) : Bytes :=
  let n := bs.length
  bs ++ 0x80 :: List.replicate (128 * blockCount n - n - 17) 0 ++
    (Bytes.littleEndian 16 (8 * n)).reverse

/-- The state as bytes. -/
def State.octets (s : State) : Octets 64 :=
  ⟨wordBytes s.a ++ wordBytes s.b ++ wordBytes s.c ++ wordBytes s.d ++ wordBytes s.e ++
    wordBytes s.f ++ wordBytes s.g ++ wordBytes s.h, rfl⟩

/-- The SHA-512 hash of a string of bytes. -/
def hash (bs : Bytes) : Octets 64 :=
  (absorb (blockCount bs.length) start (pad bs)).octets

end Escrow.Sha512
