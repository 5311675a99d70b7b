import Escrow.Ledger
import Escrow.Transaction.Json

/-!
# Ledgers as JSON

A ledger is a record of all that it holds, so that a host can be saved and taken
up again.
-/

namespace Escrow

def Timestamp.toJson (t : Timestamp) : Json :=
  .str t.text

def Timestamp.ofJson? (j : Json) : Option Timestamp := do
  Timestamp.ofText? (← j.text?)

/-- A height, a number of 32 bits. -/
def Json.height? (j : Json) : Option Nat :=
  j.nat? 0x100000000

namespace Record

def toJson (r : Record) : Json :=
  .object [("txid", r.txid.toJson), ("tx", r.tx.toJson), ("height", .ofOption .nat r.height)]

def ofJson? (j : Json) : Option Record := do
  let [txid, tx, height] ← j.record? ["txid", "tx", "height"] 3 | none
  return ⟨← Json.required TxId.ofJson? txid, ← Json.required Transaction.ofJson? tx,
    ← Json.optional Json.height? height⟩

end Record

namespace Block

def toJson (b : Block) : Json :=
  .object [("height", .nat b.height), ("time", b.time.toJson), ("txids", .list TxId.toJson b.txids)]

def ofJson? (j : Json) : Option Block := do
  let [height, time, txids] ← j.record? ["height", "time", "txids"] 3 | none
  return ⟨← Json.required Json.height? height, ← Json.required Timestamp.ofJson? time,
    ← Json.required (Json.list? TxId.ofJson?) txids⟩

end Block

def Spend.toJson (s : Spend) : Json :=
  .object [("txid", s.txid.toJson), ("vin", .nat s.vin), ("height", .ofOption .nat s.height)]

namespace Ledger

def toJson (l : Ledger) : Json :=
  .object [("genesis_time", l.genesis.toJson), ("block_time_secs", .nat l.blockTime.toNat),
    ("height", .nat l.height), ("notarized_height", .nat l.notarized),
    ("blocks", .list Block.toJson l.blocks), ("transactions", .list Record.toJson l.records),
    ("coinbase_nonce", .nat l.nonce.toNat)]

def ofJson? (j : Json) : Option Ledger := do
  let [genesis, blockTime, height, notarized, blocks, records, nonce] ←
    j.record? ["genesis_time", "block_time_secs", "height", "notarized_height", "blocks",
      "transactions", "coinbase_nonce"] 7 | none
  return {
    genesis := ← Json.required Timestamp.ofJson? genesis
    blockTime := UInt64.ofNat (← Json.required Json.size? blockTime)
    height := ← Json.required Json.height? height
    notarized := ← Json.required Json.height? notarized
    blocks := ← Json.required (Json.list? Block.ofJson?) blocks
    records := ← Json.required (Json.list? Record.ofJson?) records
    nonce := ← Json.required Json.word? nonce }

end Ledger

end Escrow
