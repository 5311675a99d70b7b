import Escrow.Agreement.Draft

/-!
# Drafts of accepts

The destination of an open offer accepts it, and what that does is up to the
offer: it begins an agreement, begins one in the place of another, or closes one.
An offer that refers to an agreement is accepted only while the agreement is free
for another event.
-/

namespace Escrow

namespace Drafter

/-- The agreement that an offer amends or closes, if it does, and the holder of its
    baton. -/
def referred (d : Drafter) (o : Offer) : Except DraftError (Option (TxId × TxId)) := do
  if !o.flags.has .amendment then return none
  let some agreement := o.amends | return none
  let baton ← d.freeBaton agreement
  if o.flags.has .awaitNotaries then d.checkNotarized "previous event" baton
  return some (agreement, baton)

/-- What the source of an offer is paid. -/
def payment (o : Offer) : Except DraftError (List Output) := do
  if 0 < o.payment then return [⟨o.payment, ← o.source.payee "source"⟩]
  return []

/-- The plan of an accept that begins an agreement, in the place of another one
    if it is given with the holder of its baton. -/
def beginning (d : Drafter) (offer : TxId) (o : Offer) (previous : Option (TxId × TxId)) :
    Except DraftError Plan := do
  let spends := match previous with
    | some (agreement, baton) => [⟨offer, 0⟩, ⟨baton, 0⟩, ⟨agreement, 1⟩]
    | none => [⟨offer, 0⟩]
  let released ← d.released 0 spends
  let outputs : List Output := [⟨d.params.markerValue, eventLock offer⟩, ⟨o.deposit, globalLock⟩]
  return ⟨spends, released, outputs ++ (← payment o), .accept offer⟩

/-- The plan of an accept that closes an agreement, given the holder of its baton. -/
def ending (d : Drafter) (offer : TxId) (o : Offer) (agreement baton : TxId) :
    Except DraftError Plan := do
  let spends := [⟨baton, 0⟩, ⟨agreement, 1⟩, ⟨offer, 0⟩]
  let released ← d.released 0 spends
  return ⟨spends, released, ← payment o, .close agreement offer o.payment⟩

/-- Accepts an offer. -/
def accept (d : Drafter) (offer : TxId) : Except DraftError Drafted := do
  let (r, o) ← d.openOffer offer
  if !d.is o.destination then throw (.wrongCaller "offer destination")
  d.checkAge (r.height.getD 0)
  if o.flags.has .awaitNotaries then d.checkNotarized "offer" offer
  let previous ← d.referred o
  let plan ← match previous with
    | some (agreement, baton) =>
      if o.flags.has .close then d.ending offer o agreement baton
      else d.beginning offer o previous
    | none => d.beginning offer o none
  return ⟨← d.finish plan, .accept offer o.amends (o.flags.has .close)⟩

end Drafter

end Escrow
