import Escrow.Ledger.Json
import Escrow.Proofs.Ledger.Blocks
import Escrow.Proofs.Timestamp.Text
import Escrow.Proofs.Transaction.Json

/-!
# Ledgers read back from JSON

A ledger is read from the value that it is written as (`Ledger.ofJson?_toJson`), and
that value is plain (`Ledger.plain_toJson`), if its numbers and moments are ones that
can be written (`Ledger.InRange`). So what is saved of it is the ledger again
(`InRange.parse?_pretty`).

Only the height of the ledger is bounded: no record and no block lies higher, and
nothing above is notarized.
-/

namespace Escrow

open Timestamp

/-- A moment that there is is read back as it was written. -/
theorem Timestamp.IsMoment.ofJson?_toJson {t : Timestamp} (h : t.IsMoment) :
    Timestamp.ofJson? t.toJson = some t := by
  simp [Timestamp.ofJson?, Timestamp.toJson, Json.text?, h.ofText?_text]

theorem Json.height?_nat {n : Nat} (h : n < 0x100000000) : (Json.nat n).height? = some n :=
  nat?_nat h

/-! ## Records and blocks -/

variable {r : Record} {b : Block} {l : Ledger}

/-- A record is read back as it was written if its height has 32 bits. -/
theorem Record.ofJson?_toJson (h : ∀ g ∈ r.height, g < 0x100000000) :
    Record.ofJson? r.toJson = some r := by
  have hheight : Json.optional Json.height? (some (.ofOption .nat r.height)) = some r.height :=
    Json.optional_ofOption fun g hg => ⟨Json.height?_nat (h g hg), nofun⟩
  rw [Record.ofJson?, Record.toJson, Json.record?_object]
  simp [Json.required, TxId.ofJson?_toJson, Transaction.ofJson?_toJson, hheight]

theorem Record.plain_toJson (h : ∀ g ∈ r.height, g < 0x100000000) : r.toJson.Plain := by
  have hheight : (Json.ofOption .nat r.height).Plain :=
    .ofOption fun g hg => .nat ((h g hg).trans (by decide))
  exact .object (by simp [TxId.plain_toJson, Transaction.plain_toJson, hheight])

/-- A block is read back as it was written if its height has 32 bits and there is such a
    moment. -/
theorem Block.ofJson?_toJson (h : b.height < 0x100000000) (htime : b.time.IsMoment) :
    Block.ofJson? b.toJson = some b := by
  have htxids : (Json.list TxId.toJson b.txids).list? TxId.ofJson? = some b.txids :=
    Json.list?_list fun id _ => id.ofJson?_toJson
  rw [Block.ofJson?, Block.toJson, Json.record?_object]
  simp [Json.required, Json.height?_nat h, htime.ofJson?_toJson, htxids]

theorem Block.plain_toJson (h : b.height < 0x100000000) : b.toJson.Plain := by
  have htxids : (Json.list TxId.toJson b.txids).Plain := .list fun id _ => id.plain_toJson
  have hheight : (Json.nat b.height).Plain := .nat (h.trans (by decide))
  exact .object (by simp [hheight, htxids, Timestamp.toJson, Json.Plain.str])

/-! ## Ledgers -/

namespace Ledger

/-- A ledger can be written: its heights have 32 bits, and its moments are ones that
    there are. -/
structure InRange (l : Ledger) : Prop where
  height_lt : l.height < 0x100000000
  genesis : l.genesis.IsMoment
  time : ∀ b ∈ l.blocks, b.time.IsMoment

namespace InRange

variable (h : l.InRange)
include h

/-- A ledger in range is read back as it was written. -/
theorem ofJson?_toJson (hfiled : l.Filed) (hsound : l.Sound) :
    Ledger.ofJson? l.toJson = some l := by
  have hblocks : (Json.list Block.toJson l.blocks).list? Block.ofJson? = some l.blocks :=
    Json.list?_list fun b hb =>
      Block.ofJson?_toJson ((hfiled.height_le b hb).trans_lt h.height_lt) (h.time b hb)
  have hrecords : (Json.list Record.toJson l.records).list? Record.ofJson? = some l.records :=
    Json.list?_list fun r hr =>
      Record.ofJson?_toJson fun g hg => (hsound.height_le r hr g hg).trans_lt h.height_lt
  have hblockTime : (Json.nat l.blockTime.toNat).size? = some l.blockTime.toNat :=
    Json.nat?_nat l.blockTime.toNat_lt
  rw [Ledger.ofJson?, Ledger.toJson, Json.record?_object]
  simp [Json.required, h.genesis.ofJson?_toJson, hblockTime, Json.height?_nat h.height_lt,
    Json.height?_nat (hfiled.notarized_le.trans_lt h.height_lt), hblocks, hrecords, Json.word?_nat]

/-- What is written of a ledger in range says all about it. -/
theorem plain_toJson (hfiled : l.Filed) (hsound : l.Sound) : l.toJson.Plain := by
  have hblocks : (Json.list Block.toJson l.blocks).Plain := .list fun b hb =>
    Block.plain_toJson ((hfiled.height_le b hb).trans_lt h.height_lt)
  have hrecords : (Json.list Record.toJson l.records).Plain := .list fun r hr =>
    Record.plain_toJson fun g hg => (hsound.height_le r hr g hg).trans_lt h.height_lt
  have hblockTime : (Json.nat l.blockTime.toNat).Plain := .nat l.blockTime.toNat_lt
  have hheight : (Json.nat l.height).Plain := .nat (h.height_lt.trans (by decide))
  have hnotarized : (Json.nat l.notarized).Plain :=
    .nat ((hfiled.notarized_le.trans_lt h.height_lt).trans (by decide))
  exact .object (by simp [Timestamp.toJson, Json.Plain.str, hblockTime, hheight, hnotarized, hblocks,
    hrecords, Json.Plain.word])

/-- A ledger is read from the text that is written of it. -/
theorem parse?_pretty (hfiled : l.Filed) (hsound : l.Sound) :
    (Json.parse? l.toJson.pretty).bind Ledger.ofJson? = some l := by
  rw [(h.plain_toJson hfiled hsound).parse?_pretty, Option.bind_some]
  exact h.ofJson?_toJson hfiled hsound

end InRange

end Ledger

end Escrow
