import Escrow.Agreement.Operation
import Escrow.Params
import Escrow.Wire.Reader

/-!
# Payloads

The bytes that say what a transaction does: the eval code of agreements, the tag
of the operation, a version, and the fields of the operation. A party left out is
written as no bytes, an agreement left out as the null id.
-/

namespace Escrow

/-- An operation and the version it is written in. -/
structure Payload where
  version : UInt8
  operation : Operation
  deriving DecidableEq

/-- The bytes of a party that may be left out. -/
def Party.wire : Option Party → Bytes
  | none => Wire.varBytes []
  | some p => Wire.varBytes p.bytes

/-- Reads a party that may be left out. -/
def Party.readOptional (field : String) : Reader (Option Party) := do
  return Party.ofBytes? (← Reader.varBytes field)

/-- Reads a party. -/
def Party.read (field : String) : Reader Party := do
  match ← Party.readOptional field with
  | some p => return p
  | none => throw (.invalidLength field 0)

/-- Reads an id. -/
def TxId.read (field : String) : Reader TxId :=
  TxId.mk <$> Reader.octets field 32

/-- The bytes of the terms of an offer. -/
def Offer.wire (o : Offer) : Bytes :=
  Party.wire o.source ++ Party.wire o.destination ++ Party.wire o.arbitrator ++ [o.flags.bits] ++
    (o.amends.getD TxId.null).bytes ++ Wire.signed o.deposit ++ Wire.signed o.payment ++
    Wire.signed o.disputeFee ++ Wire.text o.name ++ Wire.text o.memo ++
    Wire.bytesList o.unlockConditions

/-- Reads the terms of an offer. -/
def Offer.read : Reader Offer := do
  let source ← Party.read "source"
  let destination ← Party.read "destination"
  let arbitrator ← Party.readOptional "arbitrator"
  let flags ← Reader.byte "offer flags"
  let amends ← TxId.read "ref agreement"
  let deposit ← Reader.signed "deposit"
  let payment ← Reader.signed "payment"
  let disputeFee ← Reader.signed "dispute fee"
  let name ← Reader.text "name"
  let memo ← Reader.text "memo"
  let unlockConditions ← Reader.bytesList "unlock conditions"
  return {
    source, destination, arbitrator, flags := ⟨flags⟩, amends := amends.nonNull?, deposit, payment,
    disputeFee, name, memo, unlockConditions }

namespace Operation

/-- The bytes of the fields of an operation. -/
def wire : Operation → Bytes
  | offer o => o.wire
  | stopOffer o memo => o.bytes ++ Wire.text memo
  | accept o => o.bytes
  | close a o payout => a.bytes ++ o.bytes ++ Wire.signed payout
  | dispute d =>
    d.agreement.bytes ++ Party.wire d.claimant ++ [d.flags.bits] ++ Wire.text d.memo
  | stopDispute a d memo => a.bytes ++ d.bytes ++ Wire.text memo
  | resolve a d payout memo => a.bytes ++ d.bytes ++ Wire.signed payout ++ Wire.text memo
  | unlock a conditions => a.bytes ++ Wire.bytesList conditions

/-- Reads the fields of an operation of a kind. -/
def read : FunctionId → Reader Operation
  | .offer => offer <$> Offer.read
  | .stopOffer => do
    let o ← TxId.read "offer txid"
    return stopOffer o (← Reader.text "memo")
  | .accept => accept <$> TxId.read "offer txid"
  | .close => do
    let a ← TxId.read "agreement txid"
    let o ← TxId.read "offer txid"
    return close a o (← Reader.signed "payout")
  | .dispute => do
    let a ← TxId.read "agreement txid"
    let claimant ← Party.read "claimant"
    let flags ← Reader.byte "dispute flags"
    return dispute ⟨a, claimant, ⟨flags⟩, ← Reader.text "memo"⟩
  | .stopDispute => do
    let a ← TxId.read "agreement txid"
    let d ← TxId.read "dispute txid"
    return stopDispute a d (← Reader.text "memo")
  | .resolve => do
    let a ← TxId.read "agreement txid"
    let d ← TxId.read "dispute txid"
    let payout ← Reader.signed "claimant payout"
    return resolve a d payout (← Reader.text "memo")
  | .unlock => do
    let a ← TxId.read "agreement txid"
    return unlock a (← Reader.bytesList "unlock conditions")

/-- The bytes of an operation at the current version. -/
def encode (op : Operation) : Bytes :=
  evalCode :: op.function.tag :: payloadVersion :: op.wire

end Operation

namespace Payload

/-- The bytes of a payload. -/
def encode (p : Payload) : Bytes :=
  evalCode :: p.operation.function.tag :: p.version :: p.operation.wire

/-- Reads a payload. -/
def read : Reader Payload := do
  let code ← Reader.byte "eval code"
  if code ≠ evalCode then throw (.wrongEvalCode evalCode code)
  let tag ← Reader.byte "function id"
  match FunctionId.ofTag? tag with
  | none => throw (.unknownFunction tag)
  | some f =>
    let version ← Reader.byte "version"
    return ⟨version, ← Operation.read f⟩

/-- The payload that bytes stand for. -/
def decode (bs : Bytes) : Except DecodeError Payload :=
  Reader.decode read bs

/-- The operation of a payload that has to be of a kind. -/
def decodeAs (f : FunctionId) (bs : Bytes) : Except DecodeError Operation := do
  let p ← decode bs
  if p.operation.function ≠ f then
    throw (.functionMismatch f.letter p.operation.function.letter)
  return p.operation

end Payload

end Escrow
