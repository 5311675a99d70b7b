import Escrow.Amount
import Escrow.Lock

/-!
# Transactions

A transaction spends outputs of earlier ones and makes new outputs, each a value
under a lock. An input may carry a *witness*, a key and its signature.

The id of a transaction is the hash of its bytes without witnesses, so signing
leaves it as it is. What is signed for an input is a hash of those same bytes and
of the position of the input.
-/

namespace Escrow

/-- A key that signs for an input, with its signature. -/
structure Witness where
  key : PublicKey
  signature : Signature
  deriving DecidableEq

/-- The spending of an output. -/
structure Input where
  /-- The output spent. -/
  prevout : Outpoint
  witness : Option Witness := none
  deriving DecidableEq

/-- A value under a lock. -/
structure Output where
  value : Amount
  lock : Lock
  deriving DecidableEq

/-- A transaction. -/
structure Transaction where
  version : UInt32 := 1
  inputs : List Input := []
  outputs : List Output := []
  lockTime : UInt32 := 0
  deriving DecidableEq

namespace Input

/-- The bytes of an input, with its witness or as if it had none. -/
def wire (withWitness : Bool) (i : Input) : Bytes :=
  i.prevout.txid.bytes ++ Wire.word i.prevout.vout ++
    match i.witness, withWitness with
    | some w, true => 1 :: w.key.bytes ++ w.signature.bytes
    | _, _ => [0]

/-- Reads a witness, after the flag that says whether there is one. -/
def readWitness : Reader (Option Witness) := do
  let flag ← Reader.byte "witness flag"
  if flag = 0 then
    return none
  else if flag = 1 then
    let key ← Lock.readKey "witness pubkey"
    let signature ← Reader.octets "witness signature" 64
    return some ⟨key, ⟨signature⟩⟩
  else
    throw (.invalidTag "witness flag" flag)

/-- Reads an input. -/
def read : Reader Input := do
  let txid ← Reader.octets "prevout txid" 32
  let vout ← Reader.word "prevout vout"
  return ⟨⟨⟨txid⟩, vout⟩, ← readWitness⟩

end Input

namespace Output

/-- The bytes of an output. -/
def wire (o : Output) : Bytes :=
  Wire.signed o.value ++ o.lock.wire

/-- Reads an output. -/
def read : Reader Output := do
  let value ← Reader.signed "output value"
  return ⟨value, ← Lock.read⟩

end Output

namespace Transaction

/-- The bytes of a transaction, with the witnesses or as if it had none. -/
def wire (withWitness : Bool) (tx : Transaction) : Bytes :=
  Wire.word tx.version ++
    Wire.compactSize tx.inputs.length ++ tx.inputs.flatMap (Input.wire withWitness) ++
    Wire.compactSize tx.outputs.length ++ tx.outputs.flatMap Output.wire ++
    Wire.word tx.lockTime

/-- The bytes of a transaction. -/
def bytes (tx : Transaction) : Bytes :=
  tx.wire true

def hex (tx : Transaction) : String :=
  Hex.encode tx.bytes

/-- Reads a transaction. An input takes at least 37 bytes and an output at least
    10, which bounds their counts. -/
def read : Reader Transaction := do
  let version ← Reader.word "tx version"
  let inputs ← Reader.times Input.read (← Reader.count "tx inputs" 37)
  let outputs ← Reader.times Output.read (← Reader.count "tx outputs" 10)
  let lockTime ← Reader.word "lock time"
  return ⟨version, inputs, outputs, lockTime⟩

/-- The transaction that bytes stand for. -/
def ofBytes (bs : Bytes) : Except DecodeError Transaction :=
  Reader.decode read bs

/-- The transaction that a hexadecimal text stands for, blank characters around
    it ignored. -/
def ofHex (s : String) : Except DecodeError Transaction :=
  match Hex.decode (Text.trim s) with
  | .error e => .error (.hex e)
  | .ok bs => ofBytes bs

/-- The id of a transaction. -/
def txid (tx : Transaction) : TxId :=
  ⟨Sha256.hash (tx.wire false)⟩

/-- What is signed for the input at a position. -/
def sighash (tx : Transaction) (vin : Nat) : Digest32 :=
  Sha256.hash (Bytes.ofText "agr/sighash/v1" ++ tx.wire false ++ Wire.word (UInt32.ofNat vin))

/-- The sum of the values of the outputs, if it is in the range of amounts. -/
def outputTotal? (tx : Transaction) : Option Amount :=
  Amount.total? (tx.outputs.map Output.value)

/-- The data of the last output, if it carries data. -/
def payload? (tx : Transaction) : Option Bytes :=
  tx.outputs.getLast?.bind fun o => o.lock.data?

/-- Whether a transaction spends nothing. -/
def isCoinbase (tx : Transaction) : Bool :=
  tx.inputs.isEmpty

/-- A transaction without its witnesses. -/
def unsigned (tx : Transaction) : Transaction :=
  { tx with inputs := tx.inputs.map fun i => { i with witness := none } }

/-- A transaction whose input at a position is signed with a key. -/
def signInput (tx : Transaction) (vin : Nat) (k : KeyPair) : Transaction :=
  let w : Witness := ⟨k.publicKey, k.sign (tx.sighash vin)⟩
  { tx with inputs := tx.inputs.modify vin fun i => { i with witness := some w } }

end Transaction

end Escrow
