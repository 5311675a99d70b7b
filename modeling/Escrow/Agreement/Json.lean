import Escrow.Agreement.Operation
import Escrow.Identity.Json
import Escrow.Key.Json

/-!
# Operations as JSON

An operation is a record that says its kind under `func`. Parties are hexadecimal
text, flags their names, and byte strings inside lists are arrays of numbers.
-/

namespace Escrow

namespace Party

def toJson (p : Party) : Json :=
  .str p.hex

def ofJson? (j : Json) : Option Party := do
  let bs ← (Hex.decode (← j.text?)).toOption
  ofBytes? bs

end Party

/-- A byte string as an array of numbers. -/
def bytesToJson (bs : Bytes) : Json :=
  .list (fun b : UInt8 => .nat b.toNat) bs

def OfferFlags.ofJson? (j : Json) : Option OfferFlags := do
  OfferFlags.ofText? (← j.text?)

def DisputeFlags.ofJson? (j : Json) : Option DisputeFlags := do
  DisputeFlags.ofText? (← j.text?)

def FunctionId.toJson (f : FunctionId) : Json :=
  .str f.name

namespace Offer

/-- The fields of an offer. -/
def members (o : Offer) : List (String × Json) :=
  [("source", o.source.toJson), ("destination", o.destination.toJson),
    ("arbitrator", .ofOption Party.toJson o.arbitrator), ("flags", .str o.flags.text),
    ("ref_agreement", .ofOption TxId.toJson o.amends), ("deposit", .int o.deposit.toInt),
    ("payment", .int o.payment.toInt), ("dispute_fee", .int o.disputeFee.toInt),
    ("name", .str o.name), ("memo", .str o.memo),
    ("unlock_conditions", .list bytesToJson o.unlockConditions)]

def toJson (o : Offer) : Json :=
  .object o.members

def ofJson? (j : Json) : Option Offer := do
  let [source, destination, arbitrator, flags, amends, deposit, payment, disputeFee, name, memo,
      conditions] ←
    j.record? ["source", "destination", "arbitrator", "flags", "ref_agreement", "deposit",
      "payment", "dispute_fee", "name", "memo", "unlock_conditions"] 11 | none
  return {
    source := ← Json.required Party.ofJson? source
    destination := ← Json.required Party.ofJson? destination
    arbitrator := ← Json.optional Party.ofJson? arbitrator
    flags := ← Json.required OfferFlags.ofJson? flags
    amends := ← Json.optional TxId.ofJson? amends
    deposit := ← Json.required Json.amount? deposit
    payment := ← Json.required Json.amount? payment
    disputeFee := ← Json.required Json.amount? disputeFee
    name := ← Json.required Json.text? name
    memo := ← Json.required Json.text? memo
    unlockConditions := ← Json.required (Json.list? Json.bytes?) conditions }

end Offer

namespace Dispute

/-- The fields of a dispute. -/
def members (d : Dispute) : List (String × Json) :=
  [("agreement_txid", d.agreement.toJson), ("claimant", d.claimant.toJson),
    ("flags", .str d.flags.text), ("memo", .str d.memo)]

def toJson (d : Dispute) : Json :=
  .object d.members

end Dispute

namespace Operation

/-- The fields of an operation. -/
def members : Operation → List (String × Json)
  | offer o => o.members
  | stopOffer o memo => [("offer_txid", o.toJson), ("memo", .str memo)]
  | accept o => [("offer_txid", o.toJson)]
  | close a o payout =>
    [("agreement_txid", a.toJson), ("offer_txid", o.toJson), ("payout", .int payout.toInt)]
  | dispute d => d.members
  | stopDispute a d memo =>
    [("agreement_txid", a.toJson), ("dispute_txid", d.toJson), ("memo", .str memo)]
  | resolve a d payout memo =>
    [("agreement_txid", a.toJson), ("dispute_txid", d.toJson),
      ("claimant_payout", .int payout.toInt), ("memo", .str memo)]
  | unlock a conditions =>
    [("agreement_txid", a.toJson), ("conditions", .list bytesToJson conditions)]

def toJson (op : Operation) : Json :=
  .object (("func", op.function.toJson) :: op.members)

def ofJson? (j : Json) : Option Operation := do
  let id := Json.required TxId.ofJson?
  let amount := Json.required Json.amount?
  let text := Json.required Json.text?
  match ← j.tagged? "func" with
  | ("offer", body) => offer <$> Offer.ofJson? body
  | ("stop_offer", body) =>
    let [o, memo] ← body.record? ["offer_txid", "memo"] 2 | none
    return stopOffer (← id o) (← text memo)
  | ("accept", body) =>
    let [o] ← body.record? ["offer_txid"] 1 | none
    return accept (← id o)
  | ("close", body) =>
    let [a, o, payout] ← body.record? ["agreement_txid", "offer_txid", "payout"] 3 | none
    return close (← id a) (← id o) (← amount payout)
  | ("dispute", body) =>
    let [a, claimant, flags, memo] ←
      body.record? ["agreement_txid", "claimant", "flags", "memo"] 4 | none
    return dispute ⟨← id a, ← Json.required Party.ofJson? claimant,
      ← Json.required DisputeFlags.ofJson? flags, ← text memo⟩
  | ("stop_dispute", body) =>
    let [a, d, memo] ← body.record? ["agreement_txid", "dispute_txid", "memo"] 3 | none
    return stopDispute (← id a) (← id d) (← text memo)
  | ("resolve", body) =>
    let [a, d, payout, memo] ←
      body.record? ["agreement_txid", "dispute_txid", "claimant_payout", "memo"] 4 | none
    return resolve (← id a) (← id d) (← amount payout) (← text memo)
  | ("unlock", body) =>
    let [a, conditions] ← body.record? ["agreement_txid", "conditions"] 2 | none
    return unlock (← id a) (← Json.required (Json.list? Json.bytes?) conditions)
  | _ => none

end Operation

end Escrow
