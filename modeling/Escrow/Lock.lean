import Escrow.Key
import Escrow.Wire.Reader

/-!
# Locks

What an output is locked with: a public key, a *condition* or nothing, as the
output only carries data. A condition lists keys, any of which may sign, and
names by its *eval code* the contract whose rules a transaction has to obey that
creates or spends such an output. The threshold of a condition is recorded but
not used.

An output that can be spent is found by the *address* of its lock, a letter for
the kind of lock and the first 40 digits of the hash of its bytes.
-/

namespace Escrow

/-- Keys under the rules of a contract. -/
structure Condition where
  evalCode : UInt8
  threshold : UInt8
  keys : List PublicKey
  deriving DecidableEq

/-- A condition of one key. -/
def Condition.oneOfOne (code : UInt8) (key : PublicKey) : Condition :=
  ⟨code, 1, [key]⟩

/-- A condition of two keys, one of which signs. -/
def Condition.oneOfTwo (code : UInt8) (a b : PublicKey) : Condition :=
  ⟨code, 1, [a, b]⟩

/-- What an output is locked with. -/
inductive Lock
  | key (key : PublicKey)
  | condition (condition : Condition)
  | data (data : Bytes)
  deriving DecidableEq

namespace Lock

/-- The key of a lock that is one. -/
def key? : Lock → Option PublicKey
  | .key k => some k
  | _ => none

/-- The condition of a lock that is one. -/
def condition? : Lock → Option Condition
  | .condition c => some c
  | _ => none

/-- The data of an output that only carries data. -/
def data? : Lock → Option Bytes
  | .data d => some d
  | _ => none

/-- Whether a lock is a condition of a contract. -/
def isOf (code : UInt8) : Lock → Bool
  | .condition c => c.evalCode = code
  | _ => false

/-- Whether a key may sign for a lock. -/
def authorizes (key : PublicKey) : Lock → Bool
  | .key k => k = key
  | .condition c => c.keys.contains key
  | .data _ => false

/-- The bytes of a lock: a tag for its kind, and its parts. -/
def wire : Lock → Bytes
  | .key k => 0 :: k.bytes
  | .condition c =>
    1 :: c.evalCode :: c.threshold :: Wire.compactSize c.keys.length ++ c.keys.flatMap PublicKey.bytes
  | .data d => 2 :: Wire.varBytes d

/-- Reads a public key. -/
def readKey (field : String) : Reader PublicKey :=
  PublicKey.mk <$> Reader.octets field 32

/-- Reads a lock. -/
def read : Reader Lock := do
  let tag ← Reader.byte "script tag"
  if tag = 0 then
    return .key (← readKey "script pubkey")
  else if tag = 1 then
    let code ← Reader.byte "condition eval code"
    let threshold ← Reader.byte "condition threshold"
    let n ← Reader.count "condition keys" 32
    return .condition ⟨code, threshold, ← Reader.times (readKey "condition key") n⟩
  else if tag = 2 then
    return .data (← Reader.varBytes "op_return")
  else
    throw (.invalidTag "script" tag)

end Lock

/-- Where outputs of a lock are found. -/
structure Address where
  text : String
  deriving DecidableEq

namespace Address

/-- The address of a lock, with a letter for its kind. -/
def encode (letter : Char) (lock : Lock) : Address :=
  ⟨String.ofList (letter :: ((Sha256.hash lock.wire).bytes.flatMap Hex.digits).take 40)⟩

/-- The address of a lock, unless it only carries data. -/
def ofLock? (lock : Lock) : Option Address :=
  match lock with
  | .key _ => some (encode 'R' lock)
  | .condition _ => some (encode 'C' lock)
  | .data _ => none

def ofKey (k : PublicKey) : Address :=
  encode 'R' (.key k)

def ofCondition (c : Condition) : Address :=
  encode 'C' (.condition c)

/-- Whether an address is that of a condition. -/
def isCondition (a : Address) : Bool :=
  a.text.toList.head? = some 'C'

/-- The address written in a text: a letter `R` or `C` and 40 hexadecimal digits
    of either case, which are kept as they are. -/
def ofText? (s : String) : Option Address :=
  match s.toList with
  | c :: body =>
    if (c = 'R' ∨ c = 'C') ∧ body.length = 40 ∧
        body.all (fun d => (Hex.digit? (UInt8.ofNat d.toNat)).isSome && d.toNat < 128) then
      some ⟨s⟩
    else none
  | [] => none

/-- What is said of a text that is no address. -/
def malformedMessage (s : String) : String :=
  s!"malformed address: {s}"

end Address

end Escrow
