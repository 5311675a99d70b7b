import Escrow.Agreement.Draft.Offers
import Escrow.Agreement.Json

/-!
# Drafts as JSON

The terms of an offer are a record whose fields all have to be there, except the
arbitrator. A receipt says its kind under `type`.
-/

namespace Escrow

namespace Terms

def toJson (t : Terms) : Json :=
  .object [("arbitrator", .ofOption PublicKey.toJson t.arbitrator), ("flags", .str t.flags.text),
    ("deposit", .int t.deposit.toInt), ("payment", .int t.payment.toInt),
    ("dispute_fee", .int t.disputeFee.toInt), ("name", .str t.name), ("memo", .str t.memo)]

def ofJson? (j : Json) : Option Terms := do
  let [arbitrator, flags, deposit, payment, disputeFee, name, memo] ←
    j.record? ["arbitrator", "flags", "deposit", "payment", "dispute_fee", "name", "memo"] 7 | none
  return {
    arbitrator := ← Json.optional PublicKey.ofJson? arbitrator
    flags := ← Json.required OfferFlags.ofJson? flags
    deposit := ← Json.required Json.amount? deposit
    payment := ← Json.required Json.amount? payment
    disputeFee := ← Json.required Json.amount? disputeFee
    name := ← Json.required Json.text? name
    memo := ← Json.required Json.text? memo }

end Terms

def OfferPurpose.name : OfferPurpose → String
  | agreement => "offer"
  | amendment => "amendment"
  | close => "close"

namespace Receipt

/-- The name of the kind of a receipt. -/
def kind : Receipt → String
  | offer purpose _ => purpose.name
  | stopOffer .. => "stop_offer"
  | accept .. => "accept"
  | dispute .. => "dispute"
  | stopDispute .. => "stop_dispute"
  | resolve .. => "resolve"

/-- The fields of a receipt. -/
def members (r : Receipt) : List (String × Json) :=
  ("type", .str r.kind) ::
    match r with
    | offer _ o => o.members
    | stopOffer o memo => [("offer_txid", o.toJson), ("memo", .str memo)]
    | accept o amends closes =>
      [("offer_txid", o.toJson), ("ref_agreement", .ofOption TxId.toJson amends),
        ("closes", .bool closes)]
    | dispute a isFinal memo =>
      [("agreement_txid", a.toJson), ("is_final", .bool isFinal), ("memo", .str memo)]
    | stopDispute a d memo =>
      [("agreement_txid", a.toJson), ("dispute_txid", d.toJson), ("memo", .str memo)]
    | resolve a d toClaimant toDefendant memo =>
      [("agreement_txid", a.toJson), ("dispute_txid", d.toJson),
        ("claimant_payout", .int toClaimant.toInt), ("defendant_payout", .int toDefendant.toInt),
        ("memo", .str memo)]

end Receipt

end Escrow
