import Escrow.Agreement.Draft.Accepts
import Escrow.Agreement.Draft.Disputes
import Escrow.Agreement.Draft.Offers

/-!
# Requests for drafts

Everything that can be drafted, as data.
-/

namespace Escrow

/-- A transaction to draft. -/
inductive DraftRequest
  | create (destination : PublicKey) (terms : Terms)
  | amend (agreement : TxId) (terms : Terms)
  | close (agreement : TxId) (payment : Amount) (name memo : String)
  | stopOffer (offer : TxId) (memo : String)
  | accept (offer : TxId)
  | dispute (agreement : TxId) (flags : DisputeFlags) (memo : String)
  | stopDispute (dispute : TxId) (memo : String)
  | resolve (dispute : TxId) (payout : Amount) (memo : String)
  | unlock (agreement : TxId)
  deriving DecidableEq

/-- Drafts what is asked for. -/
def Drafter.draft (d : Drafter) : DraftRequest → Except DraftError Drafted
  | .create destination terms => d.create destination terms
  | .amend agreement terms => d.amend agreement terms
  | .close agreement payment name memo => d.close agreement payment name memo
  | .stopOffer offer memo => d.stopOffer offer memo
  | .accept offer => d.accept offer
  | .dispute agreement flags memo => d.dispute agreement flags memo
  | .stopDispute dispute memo => d.stopDispute dispute memo
  | .resolve dispute payout memo => d.resolve dispute payout memo
  | .unlock agreement => d.unlock agreement

end Escrow
