import Escrow.Agreement.Draft

/-!
# Drafts of disputes

A party of an agreement with an arbitrator opens a dispute, stating its grounds;
the claimant or the arbitrator withdraws it, unless it is final; or the
arbitrator resolves it by giving the claimant a part of the deposit and the other
party the rest. Unlocking is not supported.
-/

namespace Escrow

namespace Drafter

/-- Opens a dispute. -/
def dispute (d : Drafter) (agreement : TxId) (flags : DisputeFlags) (memo : String) :
    Except DraftError Drafted := do
  let a ← d.agreementAt agreement
  if !d.is a.offer.source && !d.is a.offer.destination then throw (.wrongCaller "agreement party")
  if a.offer.arbitrator.isNone then throw .noArbitrator
  if a.offer.flags.has .noDisputes then throw .disputesDisabled
  if !flags.isKnown then throw (.parameter (.unknownFlags flags.bits))
  if memo.utf8ByteSize = 0 then throw (.parameter .noGrounds)
  d.checkMemo memo
  let baton ← d.freeBaton agreement
  let spends := [⟨baton, 0⟩]
  let released ← d.released 0 spends
  let tx ← d.finish
    { spends := spends
      released := released
      pays := [⟨a.offer.disputeFee, eventLock a.offerId⟩]
      operation := .dispute ⟨agreement, .key d.key, flags, memo⟩ }
  return ⟨tx, .dispute agreement (flags.has .final) memo⟩

/-- Withdraws a dispute. -/
def stopDispute (d : Drafter) (dispute : TxId) (memo : String) : Except DraftError Drafted := do
  let (x, a) ← d.openDispute dispute
  if x.flags.has .final then throw .disputeFinal
  if !d.is x.claimant && !a.offer.arbitrator.any d.is then
    throw (.wrongCaller "claimant or arbitrator")
  d.checkMemo memo
  let spends := [⟨dispute, 0⟩]
  let released ← d.released 0 spends
  let tx ← d.finish
    { spends := spends
      released := released
      pays := [⟨d.params.markerValue, eventLock a.offerId⟩]
      operation := .stopDispute a.txid dispute memo }
  return ⟨tx, .stopDispute a.txid dispute memo⟩

/-- A part of the deposit for a party, unless it is nothing. -/
def part (amount : Amount) (role : String) (p : Party) : Except DraftError (List Output) := do
  if 0 < amount then return [⟨amount, ← p.payee role⟩]
  return []

/-- Resolves a dispute, giving the claimant an amount of the deposit. -/
def resolve (d : Drafter) (dispute : TxId) (payout : Amount) (memo : String) :
    Except DraftError Drafted := do
  let (x, a) ← d.openDispute dispute
  let some arbitrator := a.offer.arbitrator | throw .noArbitrator
  if !d.is arbitrator then throw (.wrongCaller "arbitrator")
  let deposit := a.offer.deposit
  if payout < 0 ∨ deposit < payout then throw (.parameter (.payoutOutOfRange payout deposit))
  d.checkMemo memo
  let rest := deposit - payout
  let spends := [⟨dispute, 0⟩, ⟨a.txid, 1⟩]
  let released ← d.released 0 spends
  let toClaimant ← part payout "claimant" x.claimant
  let toDefendant ← part rest "defendant" (a.offer.opponent x.claimant)
  let tx ← d.finish
    { spends := spends
      released := released
      pays := toClaimant ++ toDefendant
      operation := .resolve a.txid dispute payout memo }
  return ⟨tx, .resolve a.txid dispute payout rest memo⟩

/-- Unlocks an agreement, which is not supported. -/
def unlock (_ : Drafter) (_ : TxId) : Except DraftError Drafted :=
  .error .unlockUnsupported

end Drafter

end Escrow
