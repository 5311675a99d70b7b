import Escrow.Agreement.History
import Escrow.Agreement.Lock

/-!
# Drafts

Transactions that do something to an agreement, laid out as the rules of
agreements ask. Who drafts one is asked first whether they may do it at all. A
*plan* then says which outputs in escrow are spent, what is paid and what the
payload says; and `Drafter.finish` completes it:

* outputs of the drafter are added as inputs until they cover the fee and what
  the outputs hold beyond the escrow spent, and in any case one of them, which
  proves who the drafter is;
* what is left over returns to the drafter;
* the payload is the last output;
* the inputs from escrow are signed with the global key. The drafter still has to
  sign the others.

Sums are checked, and a sum out of the range of amounts is an error.
-/

namespace Escrow

/-- What is wrong with something that a drafter asked for. -/
inductive ParameterFault
  | referringFlags
  | destinationIsSource
  | arbitratorIsParty
  | unknownFlags (bits : UInt8)
  | depositTooLow (deposit min : Amount)
  | disputeFeeTooLow (fee min : Amount)
  | negativePayment
  | nameLength (length max : Nat)
  | memoTooLong (length max : Nat)
  | noGrounds
  | payoutOutOfRange (payout deposit : Amount)
  | outputsOverflow
  deriving DecidableEq

namespace ParameterFault

/-- What a fault is found in. -/
def subject : ParameterFault → String
  | referringFlags | unknownFlags _ => "flags"
  | destinationIsSource => "destination"
  | arbitratorIsParty => "arbitrator"
  | depositTooLow .. => "deposit"
  | disputeFeeTooLow .. => "dispute_fee"
  | negativePayment => "payment"
  | nameLength .. => "name"
  | memoTooLong .. | noGrounds => "memo"
  | payoutOutOfRange .. => "claimant_payout"
  | outputsOverflow => "outputs"

/-- Why it is one. -/
def reason : ParameterFault → String
  | referringFlags => "amendment and close offers reference an agreement"
  | destinationIsSource => "must differ from the source"
  | arbitratorIsParty => "must not be a party"
  | unknownFlags bits => "unknown bits " ++ Hex.ofByte bits
  | depositTooLow amount min | disputeFeeTooLow amount min =>
    amount.text ++ " below minimum " ++ min.text
  | negativePayment => "must not be negative"
  | nameLength length max => s!"length {length} outside 1..={max}"
  | memoTooLong length max => s!"{length} bytes exceeds {max}"
  | noGrounds => "a dispute must state its grounds"
  | payoutOutOfRange payout deposit => payout.text ++ " outside 0..=" ++ deposit.text
  | outputsOverflow => "total value overflows"

end ParameterFault

/-- Why a transaction is not drafted. -/
inductive DraftError
  | parameter (fault : ParameterFault)
  | wrongCaller (role : String)
  | scriptKey (role : String)
  | offerNotOpen (offer : TxId)
  | offerNotCancellable
  | offerExpired (age max : Nat)
  | notNotarized (what : String)
  | agreementNotActive (agreement : TxId) (latest : FunctionId)
  | noArbitrator
  | disputesDisabled
  | disputeNotOpen (dispute : TxId)
  | disputeFinal
  | outputNotFound (outpoint : Outpoint)
  | insufficientFunds (needed available : Amount)
  | unlockUnsupported
  | history (cause : HistoryError)
  /-- A sum of values on the way is out of the range of amounts. -/
  | overflow
  deriving DecidableEq

/-- The wording of an error. -/
def DraftError.message : DraftError → String
  | .parameter fault => "invalid parameter " ++ fault.subject ++ ": " ++ fault.reason
  | .wrongCaller role => s!"caller is not the {role}"
  | .scriptKey role => s!"{role} is a script key, which is not supported yet"
  | .offerNotOpen offer => s!"offer {offer} is no longer open"
  | .offerNotCancellable => "offer source cannot cancel a no-cancel offer"
  | .offerExpired age max => s!"offer has expired: {age}s old, limit {max}s"
  | .notNotarized what => s!"{what} is not notarized yet"
  | .agreementNotActive agreement latest =>
    s!"agreement {agreement} cannot accept this event: latest event is '{latest.letter}'"
  | .noArbitrator => "agreement has no arbitrator"
  | .disputesDisabled => "disputes are disabled for this agreement"
  | .disputeNotOpen dispute => s!"dispute {dispute} is no longer open"
  | .disputeFinal => "dispute is final and cannot be cancelled"
  | .outputNotFound outpoint => s!"output {outpoint} not found"
  | .insufficientFunds needed available =>
    "insufficient funds: need " ++ needed.text ++ ", have " ++ available.text
  | .unlockUnsupported => "unlock is not supported"
  | .history cause => cause.message
  | .overflow => "a sum of values overflows"

/-- What an offer is for. -/
inductive OfferPurpose
  | agreement
  | amendment
  | close
  deriving DecidableEq

/-- What a drafted transaction is about. -/
inductive Receipt
  | offer (purpose : OfferPurpose) (terms : Offer)
  | stopOffer (offer : TxId) (memo : String)
  | accept (offer : TxId) (amends : Option TxId) (closes : Bool)
  | dispute (agreement : TxId) (isFinal : Bool) (memo : String)
  | stopDispute (agreement dispute : TxId) (memo : String)
  | resolve (agreement dispute : TxId) (toClaimant toDefendant : Amount) (memo : String)
  deriving DecidableEq

/-- A transaction that its drafter has yet to sign. -/
structure Drafted where
  tx : Transaction
  receipt : Receipt
  deriving DecidableEq

/-- What a drafted transaction does besides being paid for. -/
structure Plan where
  /-- The outputs in escrow that it spends, in order. -/
  spends : List Outpoint := []
  /-- The sum of their values. -/
  released : Amount := 0
  /-- The outputs that it makes, in order. -/
  pays : List Output
  operation : Operation

/-- Who drafts a transaction, and what they know. -/
structure Drafter where
  ledger : Ledger
  params : Params
  /-- The key that pays for the transaction. -/
  key : PublicKey

/-- The lock that pays a party. -/
def Party.payee (role : String) : Party → Except DraftError Lock
  | .key k => .ok (.key k)
  | .script _ => .error (.scriptKey role)

/-- The shortest prefix of coins, but not the empty one, whose sum reaches a
    number; all of them if none does. -/
def Coin.enough : (needed : Int) → List Coin → List Coin
  | _, [] => []
  | needed, c :: rest =>
    if needed ≤ c.value.toInt then [c] else c :: Coin.enough (needed - c.value.toInt) rest

namespace Drafter

/-! ## What is asked first -/

/-- Whether the drafter is a party. -/
def is (d : Drafter) (p : Party) : Bool :=
  p.isKey d.key

/-- A memo has to be short enough. -/
def checkMemo (d : Drafter) (memo : String) : Except DraftError Unit := do
  if d.params.maxMemo < memo.utf8ByteSize then
    throw (.parameter (.memoTooLong memo.utf8ByteSize d.params.maxMemo))

/-- An offer mined at a height has to be young enough. -/
def checkAge (d : Drafter) (height : Nat) : Except DraftError Unit := do
  let age := d.params.elapsed height d.ledger.height
  if d.params.offerExpiry.toNat < age then
    throw (.offerExpired age d.params.offerExpiry.toNat)

/-- A transaction has to be notarized. -/
def checkNotarized (d : Drafter) (what : String) (id : TxId) : Except DraftError Unit := do
  if !d.ledger.isTxNotarized id then throw (.notNotarized what)

/-- A confirmed agreement. -/
def agreementAt (d : Drafter) (id : TxId) : Except DraftError Agreement :=
  (d.ledger.findAgreement id).mapError fun e => .history (.lookup e)

/-- A confirmed offer whose marker nothing spends. -/
def openOffer (d : Drafter) (id : TxId) : Except DraftError (Record × Offer) := do
  let (r, o) ← (d.ledger.findOffer id).mapError fun e => .history (.lookup e)
  if (d.ledger.spender? ⟨id, 0⟩).isSome then throw (.offerNotOpen id)
  return (r, o)

/-- A confirmed dispute whose baton nothing spends, and its agreement. -/
def openDispute (d : Drafter) (id : TxId) : Except DraftError (Dispute × Agreement) := do
  let dispute ← (d.ledger.findDispute id).mapError fun e => .history (.lookup e)
  if (d.ledger.spender? ⟨id, 0⟩).isSome then throw (.disputeNotOpen id)
  return (dispute, ← d.agreementAt dispute.agreement)

/-- The transaction that holds the baton of an agreement, which has to be free for
    another event: either nothing has happened yet, or the last dispute was
    withdrawn. -/
def freeBaton (d : Drafter) (agreement : TxId) : Except DraftError TxId := do
  let latest ← (d.ledger.latestEvent d.params.maxEvents agreement).mapError .history
  let free := match latest.function with
    | .accept => latest.txid = agreement
    | .stopDispute => true
    | _ => false
  if !free then throw (.agreementNotActive agreement latest.function)
  return latest.txid

/-! ## Completing a plan -/

/-- A sum, which has to be in the range of amounts. -/
def checked : Option Amount → Except DraftError Amount
  | some a => .ok a
  | none => .error .overflow

/-- The sum of the values of outputs in escrow, which have to exist, added to one. -/
def released (d : Drafter) : (sum : Amount) → List Outpoint → Except DraftError Amount
  | sum, [] => .ok sum
  | sum, o :: rest => do
    let some out := d.ledger.prevout? o | throw (.outputNotFound o)
    d.released (← checked (sum.add? out.value)) rest

/-- The drafter's unspent outputs other than those already spent, the confirmed
    ones first. -/
def coins (d : Drafter) (spends : List Outpoint) : List Coin :=
  let mine := (d.ledger.unspentAt (.ofKey d.key)).filter fun c => !spends.contains c.outpoint
  mine.filter (·.height.isSome) ++ mine.filter (·.height.isNone)

/-- What the drafter has to put in for a plan. -/
def needed (d : Drafter) (p : Plan) (outputs : Amount) : Except DraftError Amount := do
  let beyond ← checked (outputs.sub? p.released)
  checked (d.params.txFee.add? (max 0 beyond))

/-- What is left over for the drafter. -/
def change (d : Drafter) (p : Plan) (paid outputs : Amount) : Except DraftError Amount := do
  let inputs ← checked (paid.add? p.released)
  let rest ← checked (inputs.sub? outputs)
  checked (rest.sub? d.params.txFee)

/-- The transaction of a plan, given the coins that pay for it and what is left
    over. -/
def assemble (d : Drafter) (p : Plan) (coins : List Coin) (change : Amount) : Transaction :=
  let rest := if 0 < change then [⟨change, .key d.key⟩] else []
  let tx : Transaction :=
    { inputs := (p.spends ++ coins.map Coin.outpoint).map fun o => ⟨o, none⟩
      outputs := p.pays ++ rest ++ [⟨0, .data p.operation.encode⟩] }
  (List.range p.spends.length).foldl (fun tx vin => tx.signInput vin .global) tx

/-- Completes a plan. -/
def finish (d : Drafter) (p : Plan) : Except DraftError Transaction := do
  let some outputs := Amount.total? (p.pays.map Output.value) |
    throw (.parameter .outputsOverflow)
  let needed ← d.needed p outputs
  let coins := d.coins p.spends
  let available ← checked (Amount.total? (coins.map Coin.value))
  let picked := Coin.enough needed.toInt coins
  let paid ← checked (Amount.total? (picked.map Coin.value))
  if paid < needed || picked.isEmpty then throw (.insufficientFunds needed available)
  return d.assemble p picked (← d.change p paid outputs)

end Drafter

end Escrow
