import Escrow.Curve.Point
import Escrow.Digest.Sha256
import Escrow.Digest.Sha512
import Escrow.Identity

/-!
# Keys and signatures

Ed25519, as in RFC 8032, over messages that are digests of 32 bytes. A key pair
is made from a seed of 32 bytes; a public key is any 32 bytes, whether a point
or not; a signature is a point R followed by a number S.

A signature holds if the point S·B − k·A is written as R, with A the public key,
B the base point and k the hash of R, the key and the message. The three ways to
fail are looked at in this order: the key is no point, S is not below the order
of the base point, the equation does not hold.
-/

namespace Escrow

/-- What is signed. -/
abbrev Digest32 := Octets 32

/-- A public key. -/
@[ext] structure PublicKey where
  octets : Octets 32
  deriving DecidableEq

/-- A signature. -/
@[ext] structure Signature where
  octets : Octets 64
  deriving DecidableEq

/-- Why a key or a signature is refused. -/
inductive KeyError
  | hex (cause : Hex.Error)
  | publicKeyLength (found : Nat)
  | secretLength (found : Nat)
  | signatureLength (found : Nat)
  | notOnCurve
  | scalarTooLarge
  | equationFails
  deriving DecidableEq

/-- The wording of an error. -/
def KeyError.message : KeyError → String
  | .hex cause => "hex decode error: " ++ cause.message
  | .publicKeyLength n => s!"invalid Ed25519 public key: expected 32 bytes, got {n}"
  | .secretLength n => s!"invalid secret key: expected 32 bytes, got {n}"
  | .signatureLength n => s!"Ed25519 verification failed: signature must be 64 bytes, got {n}"
  | .notOnCurve => "invalid Ed25519 public key: signature error: Cannot decompress Edwards point"
  | .scalarTooLarge =>
    "Ed25519 verification failed: signature error: Cannot use scalar with high-bit set"
  | .equationFails =>
    "Ed25519 verification failed: signature error: Verification equation was not satisfied"

/-- The `n` bytes written in a text, blank characters around them ignored. -/
def Octets.ofHex (n : Nat) (badLength : Nat → KeyError) (s : String) :
    Except KeyError (Octets n) :=
  match Hex.decode (Text.trim s) with
  | .error e => .error (.hex e)
  | .ok bs =>
    match Octets.ofBytes? n bs with
    | some o => .ok o
    | none => .error (badLength bs.length)

/-- The number that the SHA-512 hash of some bytes stands for, modulo the order
    of the base point. -/
def hashToScalar (bs : Bytes) : Nat :=
  Bytes.ofLittleEndian (Sha512.hash bs).bytes % Point.order

namespace PublicKey

def bytes (k : PublicKey) : Bytes :=
  k.octets.bytes

def hex (k : PublicKey) : String :=
  Hex.encode k.bytes

/-- A key shortened for people to read. -/
def brief (k : PublicKey) : String :=
  "PublicKey(" ++ Hex.encode (k.bytes.take 4) ++ "...)"

def ofHex (s : String) : Except KeyError PublicKey :=
  PublicKey.mk <$> Octets.ofHex 32 .publicKeyLength s

/-- Whether a key is a point of the curve. -/
def isValid (k : PublicKey) : Bool :=
  (Point.decode? k.octets).isSome

/-- Whether a signature of a digest holds, and otherwise why not. -/
def verify (k : PublicKey) (digest : Digest32) (signature : Signature) : Except KeyError Unit :=
  match Point.decode? k.octets with
  | none => .error .notOnCurve
  | some a =>
    let r := signature.octets.bytes.take 32
    let s := Bytes.ofLittleEndian (signature.octets.bytes.drop 32)
    if Point.order ≤ s then .error .scalarTooLarge
    else
      let n := hashToScalar (r ++ k.bytes ++ digest.bytes)
      if (Point.smulAdd s Point.base n a.neg).encode.bytes = r then .ok ()
      else .error .equationFails

end PublicKey

namespace Signature

def bytes (s : Signature) : Bytes :=
  s.octets.bytes

def hex (s : Signature) : String :=
  Hex.encode s.bytes

/-- A signature shortened for people to read. -/
def brief (s : Signature) : String :=
  "Signature(" ++ Hex.encode (s.bytes.take 4) ++ "...)"

def ofHex (s : String) : Except KeyError Signature :=
  Signature.mk <$> Octets.ofHex 64 .signatureLength s

end Signature

/-- The secret number of a seed: half of its hash, with some bits fixed. -/
def secretScalar (seed : Octets 32) : Nat :=
  let n := Bytes.ofLittleEndian ((Sha512.hash seed.bytes).bytes.take 32)
  n % Nat.pow 2 254 - n % 8 + Nat.pow 2 254

/-- The public key of a seed. -/
def publicKeyOf (seed : Octets 32) : PublicKey :=
  ⟨(Point.smul (secretScalar seed) Point.base).encode⟩

/-- The name of the contract that this is about. -/
def contractName : String := "agreements"

/-- A seed and its public key. -/
structure KeyPair where
  seed : Octets 32
  publicKey : PublicKey
  publicKey_eq : publicKey = publicKeyOf seed

namespace KeyPair

def ofSeed (seed : Octets 32) : KeyPair :=
  ⟨seed, publicKeyOf seed, rfl⟩

def ofHex (s : String) : Except KeyError KeyPair :=
  ofSeed <$> Octets.ofHex 32 .secretLength s

/-- The signature of a digest. -/
def sign (k : KeyPair) (digest : Digest32) : Signature :=
  let nonce := hashToScalar ((Sha512.hash k.seed.bytes).bytes.drop 32 ++ digest.bytes)
  let r := (Point.smul nonce Point.base).encode
  let n := hashToScalar (r.bytes ++ k.publicKey.bytes ++ digest.bytes)
  let s := (nonce + n * secretScalar k.seed) % Point.order
  ⟨⟨r.bytes ++ Bytes.littleEndian 32 s, by
    rw [List.length_append, r.length_eq, Bytes.length_littleEndian]⟩⟩

/-- The key pair of all agreements, which anyone can make. -/
def global : KeyPair :=
  ofSeed (Sha256.hash (Bytes.ofText contractName))

/-- The key pair that belongs to a public key and a transaction. -/
def tweaked (base : PublicKey) (id : TxId) : KeyPair :=
  ofSeed (Sha256.hash (Bytes.ofText "agr/tweak/v1" ++ base.bytes ++ id.bytes))

end KeyPair

end Escrow
