import Escrow.Agreement.Lock
import Escrow.Agreement.Violation
import Escrow.Host

/-!
# The rules of agreements

What a transaction has to obey that does something to an agreement. Its last
output carries the payload and no other one does; the inputs and outputs under
the locks of agreements are at fixed positions:

* an *offer* makes a marker in output 0;
* a *stop-offer* spends the marker of an offer;
* an *accept* spends the marker, makes the baton in output 0 and the deposit in
  output 1, and pays the source in output 2; one that amends an agreement also
  spends the last baton and the deposit of that;
* a *close* spends the baton and the deposit of an agreement and the marker of
  the closing offer, and pays the source in output 0;
* a *dispute* spends the baton and makes a new one that holds the dispute fee;
* a *stop-dispute* spends the baton of a dispute and makes a new one;
* a *resolve* spends the baton of a dispute and the deposit, which it divides
  between the claimant and the other party;
* an *unlock* is never allowed.

Someone signs a transaction by spending outputs of theirs, of a sum above zero,
that are locked with their key alone. An agreement that a transaction refers to
has to be confirmed, and so has an offer, a dispute or the event whose baton is
spent. The first rule broken, in the order below, is the one reported.
-/

namespace Escrow

/-- What the value of an output has to be. -/
inductive ValueRule
  | exactly (value : Amount)
  | atLeast (value : Amount)

/-- A transaction under inspection. -/
structure Inspection where
  ledger : Ledger
  params : Params
  tx : Transaction
  /-- The outputs that the inputs spend, in their order. -/
  spent : List Output

/-- The payload that a transaction carries where and as it has to. -/
def Transaction.soundPayload (params : Params) (tx : Transaction) :
    Except Violation Payload := do
  let some last := tx.outputs.getLast? | throw .noOutputs
  if let some vout := tx.outputs.dropLast.findIdx? (·.lock.data?.isSome) then
    throw (.extraPayload vout)
  let some data := last.lock.data? | throw .missingPayload
  if params.maxPayload < data.length then
    throw (.payloadTooLarge data.length params.maxPayload)
  match Payload.decode data with
  | .error e => throw (.malformedPayload e)
  | .ok p =>
    if p.version ≠ payloadVersion then throw (.unsupportedVersion p.version)
    return p

/-- The outputs that inputs spend, the first of them at a position. -/
def Ledger.prevouts (l : Ledger) : (vin : Nat) → List Input → Except Violation (List Output)
  | _, [] => .ok []
  | vin, i :: rest =>
    match l.prevout? i.prevout with
    | none => .error (.missingPrevout vin i.prevout)
    | some o => (o :: ·) <$> l.prevouts (vin + 1) rest

/-- The key of a party, which has to be a point. -/
def Party.validKey (role : String) : Party → Except Violation PublicKey
  | .key k => if k.isValid then .ok k else .error (.invalidPartyKey role)
  | .script _ => .error (.scriptKey role)

/-- The lock that pays a party. -/
def Party.paymentLock (role : String) : Party → Except Violation Lock
  | .key k => .ok (.key k)
  | .script _ => .error (.scriptKey role)

namespace Inspection

/-! ## Amounts -/

/-- No output is negative, and the inputs cover the outputs and the fee. -/
def checkFee (i : Inspection) : Except Violation Unit := do
  if let some vout := i.tx.outputs.findIdx? (·.value < 0) then throw (.negativeOutput vout)
  let some inputs := Amount.total? (i.spent.map Output.value) | throw (.valueOverflow "input")
  let some outputs := i.tx.outputTotal? | throw (.valueOverflow "output")
  let some needed := outputs.add? i.params.txFee | throw (.valueOverflow "output")
  if inputs < needed then throw (.feeNotCovered inputs outputs i.params.txFee)

/-! ## Inputs -/

/-- The outputs spent that are locked with a key alone. -/
def spentOf (i : Inspection) (key : PublicKey) : List Output :=
  i.spent.filter fun o => o.lock = .key key

/-- Whether a party signs. -/
def signedBy (i : Inspection) (role : String) : Party → Except Violation Bool
  | .key k =>
    match Amount.total? ((i.spentOf k).map Output.value) with
    | some total => .ok (0 < total)
    | none => .error .keySumOverflow
  | .script _ => .error (.scriptKey role)

/-- A party has to sign. -/
def requireSigner (i : Inspection) (role : String) (p : Party) : Except Violation Unit := do
  if !(← i.signedBy role p) then throw (.notSignedBy role)

/-- The input at a position has to spend an output. -/
def expectInput (i : Inspection) (vin : Nat) (what : String) (expected : Outpoint) :
    Except Violation Unit := do
  let some input := i.tx.inputs[vin]? | throw (.missingInput vin what)
  if input.prevout ≠ expected then throw (.unexpectedInput vin what expected input.prevout)

/-- No input from a position on may spend what is locked for agreements. -/
def noEscrowInputsFrom (i : Inspection) (first : Nat) : Except Violation Unit := do
  if let some n := (i.spent.drop first).findIdx? (·.lock.isEscrow) then
    throw (.foreignInput (first + n))

/-! ## Outputs -/

/-- The outputs before the payload. -/
def made (i : Inspection) : List Output :=
  i.tx.outputs.dropLast

/-- The output at a position has to have a value and a lock. -/
def expectOutput (i : Inspection) (vout : Nat) (what : String) (rule : ValueRule) (lock : Lock) :
    Except Violation Unit := do
  let some out := i.made[vout]? | throw (.missingOutput vout what)
  if out.lock ≠ lock then throw (.wrongOutputLock vout what)
  match rule with
  | .exactly v => if out.value ≠ v then throw (.wrongOutputValue vout what v out.value)
  | .atLeast v => if out.value < v then throw (.outputValueTooLow vout what v out.value)

/-- No output from a position on may be locked for agreements. -/
def noEscrowOutputsFrom (i : Inspection) (first : Nat) : Except Violation Unit := do
  if let some n := (i.made.drop first).findIdx? (·.lock.isEscrow) then
    throw (.foreignOutput (first + n))

/-! ## References -/

/-- A confirmed offer. -/
def offerAt (i : Inspection) (what : String) (id : TxId) : Except Violation (Record × Offer) :=
  (i.ledger.findOffer id).mapError (.reference what)

/-- A confirmed agreement. -/
def agreementAt (i : Inspection) (id : TxId) : Except Violation Agreement := do
  let (r, o) ← (i.ledger.findAccept id).mapError (.reference "agreement")
  let (_, offer) ← i.offerAt "accepted offer" o
  return ⟨id, r.height.getD 0, o, offer⟩

/-- A confirmed dispute about an agreement. -/
def disputeAt (i : Inspection) (a : Agreement) (id : TxId) : Except Violation Dispute := do
  let d ← (i.ledger.findDispute id).mapError (.reference "dispute")
  if d.agreement ≠ a.txid then throw (.referenceMismatch "dispute")
  return d

/-- Whether an operation is an event of an agreement that hands on its baton, given
    the transaction that does it. -/
def isEventOf (a : Agreement) (id : TxId) : Operation → Bool
  | .accept _ => id = a.txid
  | .dispute d => d.agreement = a.txid
  | .stopDispute agreement .. => agreement = a.txid
  | _ => false

/-- The event whose baton the input at a position spends. It has to be one of an
    agreement that is not under dispute. -/
def previousEvent (i : Inspection) (vin : Nat) (a : Agreement) : Except Violation Record := do
  let some input := i.tx.inputs[vin]? | throw (.missingInput vin "previous event")
  let o := input.prevout
  if o.vout ≠ 0 then throw .invalidPreviousEvent
  let some r := i.ledger.record? o.txid | throw .invalidPreviousEvent
  if !r.isConfirmed then throw (.previousEventUnconfirmed o.txid)
  let some op := r.operation? | throw .invalidPreviousEvent
  if !isEventOf a o.txid op then throw .invalidPreviousEvent
  if (i.spent[vin]?).map Output.lock ≠ some (eventLock a.offerId) then throw (.wrongEventLock vin)
  if op.function = .dispute then throw .agreementDisputed
  return r

/-! ## Time -/

/-- An offer mined at a height has to be young enough. -/
def checkAge (i : Inspection) (height : Nat) : Except Violation Unit := do
  let age := i.params.elapsed height i.ledger.height
  if i.params.offerExpiry.toNat < age then
    throw (.offerExpired age i.params.offerExpiry.toNat)

/-- A transaction has to be notarized. -/
def checkNotarized (i : Inspection) (what : String) (r : Record) : Except Violation Unit := do
  if !r.height.any i.ledger.isNotarized then throw (.notNotarized what)

/-- A memo has to be short enough. -/
def checkMemo (i : Inspection) (memo : String) : Except Violation Unit := do
  if i.params.maxMemo < memo.utf8ByteSize then
    throw (.memoTooLong memo.utf8ByteSize i.params.maxMemo)

/-! ## Operations -/

/-- The terms of an offer have to be sound in themselves. -/
def checkTerms (i : Inspection) (o : Offer) : Except Violation Unit := do
  if !o.flags.isKnown then throw (.unknownFlags o.flags.bits)
  if o.flags.has .close && !o.flags.has .amendment then throw .closeWithoutAmendment
  let min := i.params.markerValue
  if o.deposit < min then throw (.amountTooLow "deposit" o.deposit min)
  if o.disputeFee < min then throw (.amountTooLow "dispute fee" o.disputeFee min)
  if o.payment < 0 then throw (.negativePayment o.payment)
  let length := o.name.utf8ByteSize
  if length = 0 ∨ i.params.maxName < length then throw (.invalidName length i.params.maxName)
  i.checkMemo o.memo
  if !o.unlockConditions.isEmpty then throw .unlockConditions

/-- The parties of an offer have to be different people, one of whom signs. -/
def checkParties (i : Inspection) (o : Offer) : Except Violation Unit := do
  let source ← o.source.validKey "source"
  let destination ← o.destination.validKey "destination"
  if source = destination then throw .sameParty
  i.requireSigner "source" o.source
  if let some arbitrator := o.arbitrator then
    let arbitrator ← arbitrator.validKey "arbitrator"
    if arbitrator = source ∨ arbitrator = destination then throw .arbitratorIsParty

/-- Whether two offers are between the same two parties. -/
def sameParties (o p : Offer) : Bool :=
  (o.source = p.source && o.destination = p.destination) ||
    (o.source = p.destination && o.destination = p.source)

/-- An amendment has to name an agreement of the same parties whose deposit is
    not spent, and other offers must name none. -/
def checkAmends (i : Inspection) (o : Offer) : Except Violation Unit := do
  if o.flags.has .amendment then
    let some id := o.amends | throw .missingReference
    let a ← i.agreementAt id
    if (i.ledger.confirmedSpender? ⟨id, 1⟩).isSome then throw (.agreementClosed id)
    if !sameParties o a.offer then throw .partiesMismatch
  else if o.amends.isSome then throw .unexpectedReference

def checkOffer (i : Inspection) (o : Offer) : Except Violation Unit := do
  i.noEscrowInputsFrom 0
  i.checkParties o
  i.checkTerms o
  i.checkAmends o
  i.expectOutput 0 "marker" (.atLeast i.params.markerValue) globalLock
  i.noEscrowOutputsFrom 1

def checkStopOffer (i : Inspection) (offer : TxId) (memo : String) : Except Violation Unit := do
  let (_, o) ← i.offerAt "offer" offer
  i.expectInput 0 "offer marker" ⟨offer, 0⟩
  i.noEscrowInputsFrom 1
  i.checkMemo memo
  if !(← i.signedBy "destination" o.destination) then
    if !(← i.signedBy "source" o.source) then throw (.notSignedBy "offer source or destination")
    if o.flags.has .noCancel then throw .offerNotCancellable
  i.noEscrowOutputsFrom 0

/-- What an accept of an amendment spends of the agreement it amends, from input 1
    on, and how many inputs at the front are locked for agreements. -/
def checkAmended (i : Inspection) (o : Offer) : Except Violation Nat := do
  if o.flags.has .amendment then
    let some id := o.amends | throw .missingReference
    let a ← i.agreementAt id
    let event ← i.previousEvent 1 a
    if o.flags.has .awaitNotaries then i.checkNotarized "previous event" event
    i.expectInput 2 "agreement deposit" ⟨id, 1⟩
    return 3
  else return 1

/-- A payment to a party in the output at a position, if there is any, and the
    position after it. -/
def expectPayment (i : Inspection) (vout : Nat) (what role : String) (amount : Amount) (p : Party) :
    Except Violation Nat := do
  if 0 < amount then
    let lock ← p.paymentLock role
    i.expectOutput vout what (.exactly amount) lock
    return vout + 1
  else return vout

def checkAccept (i : Inspection) (offer : TxId) : Except Violation Unit := do
  let (r, o) ← i.offerAt "offer" offer
  i.expectInput 0 "offer marker" ⟨offer, 0⟩
  if o.flags.has .close then throw (.closeOfferNotAcceptable offer)
  i.checkAge (r.height.getD 0)
  if o.flags.has .awaitNotaries then i.checkNotarized "offer" r
  i.requireSigner "destination" o.destination
  let escrowInputs ← i.checkAmended o
  i.noEscrowInputsFrom escrowInputs
  i.expectOutput 0 "baton" (.exactly i.params.markerValue) (eventLock offer)
  i.expectOutput 1 "deposit" (.exactly o.deposit) globalLock
  i.noEscrowOutputsFrom (← i.expectPayment 2 "payment" "source" o.payment o.source)

def checkClose (i : Inspection) (agreement offer : TxId) (payout : Amount) :
    Except Violation Unit := do
  let a ← i.agreementAt agreement
  let (r, o) ← i.offerAt "closing offer" offer
  if !(o.flags.has .amendment && o.flags.has .close) then throw (.notACloseOffer offer)
  if o.amends ≠ some agreement then throw (.referenceMismatch "closing offer")
  if o.payment ≠ payout then throw (.payoutMismatch o.payment payout)
  i.checkAge (r.height.getD 0)
  let event ← i.previousEvent 0 a
  if o.flags.has .awaitNotaries then
    i.checkNotarized "offer" r
    i.checkNotarized "previous event" event
  i.expectInput 1 "agreement deposit" ⟨agreement, 1⟩
  i.expectInput 2 "closing offer marker" ⟨offer, 0⟩
  i.noEscrowInputsFrom 3
  i.requireSigner "destination" o.destination
  i.noEscrowOutputsFrom (← i.expectPayment 0 "payout" "source" payout o.source)

def checkDispute (i : Inspection) (d : Dispute) : Except Violation Unit := do
  let a ← i.agreementAt d.agreement
  if !d.flags.isKnown then throw (.unknownFlags d.flags.bits)
  if d.memo.utf8ByteSize = 0 then throw .emptyMemo
  i.checkMemo d.memo
  if a.offer.arbitrator.isNone then throw .noArbitrator
  if a.offer.flags.has .noDisputes then throw .disputesDisabled
  if d.claimant ≠ a.offer.source ∧ d.claimant ≠ a.offer.destination then throw .claimantNotParty
  i.requireSigner "claimant" d.claimant
  let _ ← i.previousEvent 0 a
  i.noEscrowInputsFrom 1
  i.expectOutput 0 "dispute fee" (.exactly a.offer.disputeFee) (eventLock a.offerId)
  i.noEscrowOutputsFrom 1

def checkStopDispute (i : Inspection) (agreement dispute : TxId) (memo : String) :
    Except Violation Unit := do
  let a ← i.agreementAt agreement
  let d ← i.disputeAt a dispute
  i.expectInput 0 "dispute" ⟨dispute, 0⟩
  i.noEscrowInputsFrom 1
  i.checkMemo memo
  if d.flags.has .final then throw .disputeFinal
  let byClaimant ← i.signedBy "claimant" d.claimant
  let byArbitrator ← match a.offer.arbitrator with
    | some p => i.signedBy "arbitrator" p
    | none => pure false
  if !byClaimant && !byArbitrator then throw (.notSignedBy "claimant or arbitrator")
  i.expectOutput 0 "baton" (.exactly i.params.markerValue) (eventLock a.offerId)
  i.noEscrowOutputsFrom 1

def checkResolve (i : Inspection) (agreement dispute : TxId) (payout : Amount) (memo : String) :
    Except Violation Unit := do
  let a ← i.agreementAt agreement
  let d ← i.disputeAt a dispute
  i.expectInput 0 "dispute" ⟨dispute, 0⟩
  i.expectInput 1 "agreement deposit" ⟨agreement, 1⟩
  i.noEscrowInputsFrom 2
  i.checkMemo memo
  let some arbitrator := a.offer.arbitrator | throw .noArbitrator
  i.requireSigner "arbitrator" arbitrator
  let deposit := a.offer.deposit
  if payout < 0 ∨ deposit < payout then throw (.payoutOutOfRange payout deposit)
  let vout ← i.expectPayment 0 "claimant payout" "claimant" payout d.claimant
  let vout ← i.expectPayment vout "defendant payout" "defendant" (deposit - payout)
    (a.offer.opponent d.claimant)
  i.noEscrowOutputsFrom vout

/-- The rules of an operation. -/
def checkOperation (i : Inspection) : Operation → Except Violation Unit
  | .offer o => i.checkOffer o
  | .stopOffer offer memo => i.checkStopOffer offer memo
  | .accept offer => i.checkAccept offer
  | .close agreement offer payout => i.checkClose agreement offer payout
  | .dispute d => i.checkDispute d
  | .stopDispute agreement dispute memo => i.checkStopDispute agreement dispute memo
  | .resolve agreement dispute payout memo => i.checkResolve agreement dispute payout memo
  | .unlock .. => .error .unlockOperation

end Inspection

/-- Whether a transaction obeys the rules of agreements, and otherwise the first
    one that it breaks. -/
def validate (l : Ledger) (params : Params) (tx : Transaction) : Except Violation Unit := do
  let p ← tx.soundPayload params
  let spent ← l.prevouts 0 tx.inputs
  let i : Inspection := ⟨l, params, tx, spent⟩
  i.checkFee
  i.checkOperation p.operation

/-- Agreements as a contract that a host keeps the rules of. -/
def agreements (params : Params) : Validator where
  evalCode := evalCode
  judge l tx := (validate l params tx).mapError Violation.message

end Escrow
