import Escrow.Params
import Escrow.Json.Reading

/-!
# Parameters as JSON

Every parameter may be left out, which stands for its default; a name that is
none of theirs is refused.
-/

namespace Escrow.Params

/-- The names of the parameters. -/
def names : List String :=
  ["tx_fee", "marker_value", "block_time_secs", "offer_expiry_secs", "max_name_len", "max_memo_len",
    "max_opret_size", "max_event_chain"]

def toJson (p : Params) : Json :=
  .object [("tx_fee", .int p.txFee.toInt), ("marker_value", .int p.markerValue.toInt),
    ("block_time_secs", .nat p.blockTime.toNat), ("offer_expiry_secs", .nat p.offerExpiry.toNat),
    ("max_name_len", .nat p.maxName), ("max_memo_len", .nat p.maxMemo),
    ("max_opret_size", .nat p.maxPayload), ("max_event_chain", .nat p.maxEvents)]

/-- A number of seconds. -/
def seconds? (j : Json) : Option UInt64 :=
  j.size?.map UInt64.ofNat

def ofJson? (j : Json) : Option Params := do
  if !j.onlyNames names then none
  let [fee, marker, blockTime, expiry, name, memo, payload, events] ← j.record? names 0 | none
  let d : Params := {}
  return {
    txFee := ← Json.orElse Json.amount? d.txFee fee
    markerValue := ← Json.orElse Json.amount? d.markerValue marker
    blockTime := ← Json.orElse seconds? d.blockTime blockTime
    offerExpiry := ← Json.orElse seconds? d.offerExpiry expiry
    maxName := ← Json.orElse Json.size? d.maxName name
    maxMemo := ← Json.orElse Json.size? d.maxMemo memo
    maxPayload := ← Json.orElse Json.size? d.maxPayload payload
    maxEvents := ← Json.orElse Json.size? d.maxEvents events }

end Escrow.Params
