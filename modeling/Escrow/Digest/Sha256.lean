import Escrow.Bytes
import Escrow.Digest.Constants

/-!
# SHA-256

The hash of FIPS 180-4 with 32-bit words: the message is padded to whole blocks
of 64 bytes, and each block is mixed into a state of eight words in 64 rounds.
-/

namespace Escrow.Sha256

/-- The eight words that the blocks are mixed into. -/
structure State where
  a : UInt32
  b : UInt32
  c : UInt32
  d : UInt32
  e : UInt32
  f : UInt32
  g : UInt32
  h : UInt32

/-- A word turned right by `n` bits. -/
def rotate (x n : UInt32) : UInt32 :=
  (x >>> n) ||| (x <<< (32 - n))

def smallSigma0 (x : UInt32) : UInt32 :=
  rotate x 7 ^^^ rotate x 18 ^^^ (x >>> 3)

def smallSigma1 (x : UInt32) : UInt32 :=
  rotate x 17 ^^^ rotate x 19 ^^^ (x >>> 10)

def bigSigma0 (x : UInt32) : UInt32 :=
  rotate x 2 ^^^ rotate x 13 ^^^ rotate x 22

def bigSigma1 (x : UInt32) : UInt32 :=
  rotate x 6 ^^^ rotate x 11 ^^^ rotate x 25

/-- Bytes read four by four as words, greatest byte first. -/
def words : Bytes → List UInt32
  | a :: b :: c :: d :: rest =>
    ((a.toUInt32 <<< 24) ||| (b.toUInt32 <<< 16) ||| (c.toUInt32 <<< 8) ||| d.toUInt32) :: words rest
  | _ => []

/-- A word as four bytes, greatest byte first. -/
def wordBytes (w : UInt32) : Bytes :=
  [(w >>> 24).toUInt8, (w >>> 16).toUInt8, (w >>> 8).toUInt8, w.toUInt8]

/-- Adds `n` words to a schedule, which is held last word first: each is made of
    the words 2, 7, 15 and 16 places before it. -/
def extend : Nat → List UInt32 → List UInt32
  | 0, ws => ws
  | n + 1, ws =>
    extend n ((smallSigma1 (ws.getD 1 0) + ws.getD 6 0 + smallSigma0 (ws.getD 14 0) +
      ws.getD 15 0) :: ws)

/-- The words mixed in for a block, one per round. -/
def schedule (block : Bytes) : List UInt32 :=
  (extend 48 (words block).reverse).reverse

/-- A round, with its constant and its word of the schedule. -/
def round (s : State) (k : UInt64 × UInt32) : State :=
  let t₁ := s.h + bigSigma1 s.e + ((s.e &&& s.f) ^^^ (~~~s.e &&& s.g)) + Digest.upperHalf k.1 + k.2
  let t₂ := bigSigma0 s.a + ((s.a &&& s.b) ^^^ (s.a &&& s.c) ^^^ (s.b &&& s.c))
  ⟨t₁ + t₂, s.a, s.b, s.c, s.d + t₁, s.e, s.f, s.g⟩

/-- Mixes a block into the state. -/
def compress (s : State) (block : Bytes) : State :=
  let t := (Digest.cubeRoots.zip (schedule block)).foldl round s
  ⟨s.a + t.a, s.b + t.b, s.c + t.c, s.d + t.d, s.e + t.e, s.f + t.f, s.g + t.g, s.h + t.h⟩

/-- Mixes in the first `n` blocks of a padded message. -/
def absorb : Nat → State → Bytes → State
  | 0, s, _ => s
  | n + 1, s, bs => absorb n (compress s (bs.take 64)) (bs.drop 64)

/-- The state before any block. -/
def start : State :=
  let w i := Digest.upperHalf (Digest.squareRoots.getD i 0)
  ⟨w 0, w 1, w 2, w 3, w 4, w 5, w 6, w 7⟩

/-- The number of blocks that a message of `n` bytes is padded to: it gains a
    mark of one byte and its length in eight. -/
def blockCount (n : Nat) : Nat :=
  (n + 72) / 64

/-- A message padded to whole blocks. -/
def pad (bs : Bytes) : Bytes :=
  let n := bs.length
  bs ++ 0x80 :: List.replicate (64 * blockCount n - n - 9) 0 ++
    (Bytes.littleEndian 8 (8 * n)).reverse

/-- The state as bytes. -/
def State.octets (s : State) : Octets 32 :=
  ⟨wordBytes s.a ++ wordBytes s.b ++ wordBytes s.c ++ wordBytes s.d ++ wordBytes s.e ++
    wordBytes s.f ++ wordBytes s.g ++ wordBytes s.h, rfl⟩

/-- The SHA-256 hash of a string of bytes. -/
def hash (bs : Bytes) : Octets 32 :=
  (absorb (blockCount bs.length) start (pad bs)).octets

end Escrow.Sha256
