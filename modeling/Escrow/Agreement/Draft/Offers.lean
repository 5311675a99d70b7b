import Escrow.Agreement.Draft

/-!
# Drafts of offers

A new agreement is offered to anyone; an amendment or the close of an agreement
by one of its parties to the other, as long as the agreement is free for another
event. An open offer can be withdrawn by its source, unless it says otherwise,
and declined by its destination.
-/

namespace Escrow

/-- What the source of an offer decides. -/
structure Terms where
  arbitrator : Option PublicKey := none
  flags : OfferFlags := .noUnlock
  /-- The deposit; zero for the value of a marker. -/
  deposit : Amount := 0
  /-- What the source asks for. -/
  payment : Amount := 0
  /-- The dispute fee; zero for the value of a marker. -/
  disputeFee : Amount := 0
  name : String
  memo : String := ""
  deriving DecidableEq

/-- The flags of an offer to close an agreement. -/
def OfferFlags.closing : OfferFlags :=
  (amendment.union close).union noUnlock

namespace Drafter

/-- The offer of terms to a destination. -/
def offerOf (d : Drafter) (destination : PublicKey) (t : Terms) (flags : OfferFlags)
    (amends : Option TxId) : Offer :=
  let orMarker (a : Amount) := if a = 0 then d.params.markerValue else a
  { source := .key d.key
    destination := .key destination
    arbitrator := t.arbitrator.map .key
    flags := flags
    amends := amends
    deposit := orMarker t.deposit
    payment := t.payment
    disputeFee := orMarker t.disputeFee
    name := t.name
    memo := t.memo
    unlockConditions := [] }

/-- The terms of an offer have to be sound. -/
def checkTerms (d : Drafter) (o : Offer) : Except DraftError Unit := do
  if o.source = o.destination then throw (.parameter .destinationIsSource)
  if o.arbitrator.any fun a => a = o.source || a = o.destination then
    throw (.parameter .arbitratorIsParty)
  if !o.flags.isKnown then throw (.parameter (.unknownFlags o.flags.bits))
  let min := d.params.markerValue
  if o.deposit < min then throw (.parameter (.depositTooLow o.deposit min))
  if o.disputeFee < min then throw (.parameter (.disputeFeeTooLow o.disputeFee min))
  if o.payment < 0 then throw (.parameter .negativePayment)
  let length := o.name.utf8ByteSize
  if length = 0 ∨ d.params.maxName < length then
    throw (.parameter (.nameLength length d.params.maxName))
  d.checkMemo o.memo

/-- An offer, which makes a marker. -/
def offer (d : Drafter) (purpose : OfferPurpose) (o : Offer) : Except DraftError Drafted := do
  d.checkTerms o
  let tx ← d.finish { pays := [⟨d.params.markerValue, globalLock⟩], operation := .offer o }
  return ⟨tx, .offer purpose o⟩

/-- Offers a new agreement. -/
def create (d : Drafter) (destination : PublicKey) (t : Terms) : Except DraftError Drafted := do
  if t.flags.meets (OfferFlags.amendment.union .close) then throw (.parameter .referringFlags)
  d.offer .agreement (d.offerOf destination t t.flags none)

/-- The other party of an agreement that is free for another event. -/
def counterparty (d : Drafter) (agreement : TxId) : Except DraftError PublicKey := do
  let a ← d.agreementAt agreement
  let _ ← d.freeBaton agreement
  let other ←
    if d.is a.offer.source then pure a.offer.destination
    else if d.is a.offer.destination then pure a.offer.source
    else throw (.wrongCaller "agreement party")
  match other.key? with
  | some k => return k
  | none => throw (.scriptKey "counterparty")

/-- Offers new terms for an agreement. -/
def amend (d : Drafter) (agreement : TxId) (t : Terms) : Except DraftError Drafted := do
  let destination ← d.counterparty agreement
  let flags := (t.flags.union .amendment).without .close
  d.offer .amendment (d.offerOf destination t flags (some agreement))

/-- Offers to close an agreement for a payment. -/
def close (d : Drafter) (agreement : TxId) (payment : Amount) (name memo : String) :
    Except DraftError Drafted := do
  let destination ← d.counterparty agreement
  let t : Terms := { payment := payment, name := name, memo := memo }
  d.offer .close (d.offerOf destination t .closing (some agreement))

/-- Withdraws or declines an offer. -/
def stopOffer (d : Drafter) (offer : TxId) (memo : String) : Except DraftError Drafted := do
  let (_, o) ← d.openOffer offer
  if !d.is o.destination then
    if !d.is o.source then throw (.wrongCaller "offer source or destination")
    if o.flags.has .noCancel then throw .offerNotCancellable
  d.checkMemo memo
  let spends := [⟨offer, 0⟩]
  let released ← d.released 0 spends
  let tx ← d.finish
    { spends := spends, released := released, pays := [], operation := .stopOffer offer memo }
  return ⟨tx, .stopOffer offer memo⟩

end Drafter

end Escrow
