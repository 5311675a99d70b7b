import Escrow.Agreement.Json
import Escrow.Agreement.Report
import Escrow.Ledger.Json

/-!
# Reports as JSON

A status says its kind under `state`, a description under `type`.
-/

namespace Escrow

namespace OfferStatus

def toJson : OfferStatus → Json
  | isOpen => .object [("state", .str "open")]
  | accepted id => .object [("state", .str "accepted"), ("by", id.toJson)]
  | cancelled id => .object [("state", .str "cancelled"), ("by", id.toJson)]

end OfferStatus

namespace AgreementStatus

def toJson : AgreementStatus → Json
  | active => .object [("state", .str "active")]
  | disputed id => .object [("state", .str "disputed"), ("dispute", id.toJson)]
  | closed id => .object [("state", .str "closed"), ("by", id.toJson)]
  | resolved id => .object [("state", .str "resolved"), ("by", id.toJson)]
  | amended id => .object [("state", .str "amended"), ("by", id.toJson)]

end AgreementStatus

def Event.toJson (e : Event) : Json :=
  .object [("txid", e.txid.toJson), ("func", e.function.toJson), ("height", .nat e.height)]

def LatestEvent.toJson (e : LatestEvent) : Json :=
  .object [("txid", e.txid.toJson), ("func", e.function.toJson)]

namespace Summary

/-- The fields of a summary. -/
def members (s : Summary) : List (String × Json) :=
  let o := s.agreement.offer
  [("txid", s.agreement.txid.toJson), ("height", .nat s.agreement.height),
    ("offer_txid", s.agreement.offerId.toJson), ("source", o.source.toJson),
    ("destination", o.destination.toJson), ("arbitrator", .ofOption Party.toJson o.arbitrator),
    ("amends", .ofOption TxId.toJson o.amends), ("deposit", .int o.deposit.toInt),
    ("dispute_fee", .int o.disputeFee.toInt), ("flags", .str o.flags.text), ("name", .str o.name),
    ("memo", .str o.memo), ("status", s.status.toJson), ("latest_event", s.latest.toJson)]

def toJson (s : Summary) : Json :=
  .object s.members

end Summary

def Description.toJson : Description → Json
  | .offer r o status => .object [("type", .str "offer"), ("txid", r.txid.toJson),
      ("height", .ofOption .nat r.height), ("offer", o.toJson), ("status", status.toJson)]
  | .agreement s => .object (("type", .str "agreement") :: s.members)
  | .event r op => .object [("type", .str "event"), ("txid", r.txid.toJson),
      ("height", .ofOption .nat r.height), ("op", op.toJson)]

def References.toJson (r : References) : Json :=
  .object [("offers", .list TxId.toJson r.offers), ("agreements", .list TxId.toJson r.agreements)]

def Inventory.toJson (i : Inventory) : Json :=
  .object [("offers_sent", .list TxId.toJson i.offersSent),
    ("offers_received", .list TxId.toJson i.offersReceived),
    ("agreements", .list TxId.toJson i.agreements),
    ("arbitrating", .list TxId.toJson i.arbitrating),
    ("unreadable", .list TxId.toJson i.unreadable)]

end Escrow
