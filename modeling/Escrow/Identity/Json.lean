import Escrow.Identity
import Escrow.Json.Reading

/-!
# Ids and outpoints as JSON

An id is its text; an outpoint is a record of an id and a position.
-/

namespace Escrow

def TxId.toJson (id : TxId) : Json :=
  .str id.hex

def TxId.ofJson? (j : Json) : Option TxId := do
  (TxId.ofHex (← j.text?)).toOption

def Outpoint.toJson (o : Outpoint) : Json :=
  .object [("txid", o.txid.toJson), ("vout", .nat o.vout.toNat)]

def Outpoint.ofJson? (j : Json) : Option Outpoint := do
  let [txid, vout] ← j.record? ["txid", "vout"] 2 | none
  return ⟨← Json.required TxId.ofJson? txid, ← Json.required Json.word? vout⟩

end Escrow
