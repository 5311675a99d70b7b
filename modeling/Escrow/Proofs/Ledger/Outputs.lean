import Escrow.Proofs.Ledger.Records
import Mathlib.Data.List.Perm.Basic

/-!
# Unspent outputs

The outputs that recorded transactions make, each with its place
(`Ledger.outputs`), and those among them that no recorded transaction spends
(`Ledger.unspent`). A place is a position of any size; an outpoint can only name
one below 2^32, so that an output beyond is never spent.

A new transaction takes what it spends from the unspent outputs and puts its own
in their place (`unspent_insert`). What it takes are the outputs that its
outpoints name, each once (`filter_unspent_perm`).
-/

namespace Escrow

/-- An output of a recorded transaction, and its place. -/
structure Holding where
  txid : TxId
  vout : Nat
  output : Output
  deriving DecidableEq

/-- Whether one of some outpoints names an output. -/
def Holding.isNamedIn (c : Holding) (os : List Outpoint) : Bool :=
  os.any fun o => o.txid = c.txid ∧ o.vout.toNat = c.vout

/-- The outputs of a record, in order. -/
def Record.outputs (r : Record) : List Holding :=
  r.tx.outputs.zipIdx.map fun (out, vout) => ⟨r.txid, vout, out⟩

namespace Ledger

/-- The outputs of recorded transactions, in order. -/
def outputs (l : Ledger) : List Holding :=
  l.records.flatMap Record.outputs

/-- The outputs that no recorded transaction spends, in order. -/
def unspent (l : Ledger) : List Holding :=
  l.outputs.filter fun c => !c.isNamedIn l.spends

/-- The output that an outpoint names, and its place. -/
def holding? (l : Ledger) (o : Outpoint) : Option Holding :=
  (l.prevout? o).map fun out => ⟨o.txid, o.vout.toNat, out⟩

end Ledger

/-- An output is named by outpoints if one of them has its id and its position. -/
theorem Holding.isNamedIn_iff {c : Holding} {os : List Outpoint} :
    c.isNamedIn os ↔ ∃ o ∈ os, o.txid = c.txid ∧ o.vout.toNat = c.vout := by
  simp [isNamedIn]

/-- An output with a place below 2^32 has one outpoint that names it. -/
theorem Holding.isNamedIn_iff_mem {c : Holding} {os : List Outpoint} {o : Outpoint}
    (hid : o.txid = c.txid) (hvout : o.vout.toNat = c.vout) : c.isNamedIn os ↔ o ∈ os := by
  rw [isNamedIn_iff]
  constructor
  · rintro ⟨o', ho', hid', hvout'⟩
    rwa [Outpoint.ext (hid.trans hid'.symm) (UInt32.toNat_inj.1 (hvout.trans hvout'.symm))]
  · exact fun ho => ⟨o, ho, hid, hvout⟩

/-- The outputs of a record are those at the positions of its transaction, under its id. -/
theorem Record.mem_outputs_iff {r : Record} {c : Holding} :
    c ∈ r.outputs ↔ c.txid = r.txid ∧ r.tx.outputs[c.vout]? = some c.output := by
  rw [outputs, List.mem_map]
  constructor
  · rintro ⟨⟨out, vout⟩, hout, rfl⟩
    exact ⟨rfl, List.mk_mem_zipIdx_iff_getElem?.1 hout⟩
  · rintro ⟨hid, hout⟩
    exact ⟨(c.output, c.vout), List.mk_mem_zipIdx_iff_getElem?.2 hout, hid ▸ rfl⟩

theorem Record.map_output_outputs (r : Record) : r.outputs.map Holding.output = r.tx.outputs := by
  rw [outputs, List.map_map]
  exact List.zipIdx_map_fst 0 _

namespace Ledger

variable {l : Ledger} {c : Holding} {o : Outpoint}

theorem mem_outputs_iff : c ∈ l.outputs ↔ ∃ r ∈ l.records, c ∈ r.outputs :=
  List.mem_flatMap

/-- What is unspent is recorded, and nothing that is spent names it. -/
theorem mem_unspent_iff : c ∈ l.unspent ↔ c ∈ l.outputs ∧ ¬c.isNamedIn l.spends := by
  simp [unspent]

/-- An outpoint is that of a recorded output if it has its id and position, and is found to
    name it. -/
theorem holding?_eq_some_iff :
    l.holding? o = some c ↔
      o.txid = c.txid ∧ o.vout.toNat = c.vout ∧ l.prevout? o = some c.output := by
  rw [holding?, Option.map_eq_some_iff]
  constructor
  · rintro ⟨out, hout, rfl⟩
    exact ⟨rfl, rfl, hout⟩
  · rintro ⟨hid, hvout, hout⟩
    exact ⟨c.output, hout, by rw [hid, hvout]⟩

/-- What outpoints name has their places. -/
theorem eq_of_holding? {o' : Outpoint} (h : l.holding? o = some c) (h' : l.holding? o' = some c) :
    o = o' := by
  obtain ⟨hid, hvout, _⟩ := holding?_eq_some_iff.1 h
  obtain ⟨hid', hvout', _⟩ := holding?_eq_some_iff.1 h'
  exact Outpoint.ext (hid.trans hid'.symm) (UInt32.toNat_inj.1 (hvout.trans hvout'.symm))

/-! ## In a sound ledger -/

namespace Sound

variable (hl : l.Sound)
include hl

/-- In a sound ledger an output is recorded if it is found under its id. -/
theorem mem_outputs_iff_record? :
    c ∈ l.outputs ↔ ∃ r, l.record? c.txid = some r ∧ r.tx.outputs[c.vout]? = some c.output := by
  rw [mem_outputs_iff]
  constructor
  · rintro ⟨r, hr, hc⟩
    obtain ⟨hid, hout⟩ := Record.mem_outputs_iff.1 hc
    exact ⟨r, hl.record?_eq_some_iff.2 ⟨hr, hid.symm⟩, hout⟩
  · rintro ⟨r, hr, hout⟩
    obtain ⟨hmem, hid⟩ := mem_of_record? hr
    exact ⟨r, hmem, Record.mem_outputs_iff.2 ⟨hid.symm, hout⟩⟩

/-- The outputs that can be spent are those that an outpoint names. -/
theorem mem_outputs_of_holding? (h : l.holding? o = some c) : c ∈ l.outputs := by
  obtain ⟨hid, hvout, hout⟩ := holding?_eq_some_iff.1 h
  obtain ⟨r, hr, hout⟩ := prevout?_eq_some_iff.1 hout
  exact hl.mem_outputs_iff_record?.2 ⟨r, hid ▸ hr, hvout ▸ hout⟩

/-- A recorded output is found by every outpoint that has its id and position. -/
theorem holding?_of_mem_outputs (hc : c ∈ l.outputs) (hid : o.txid = c.txid)
    (hvout : o.vout.toNat = c.vout) : l.holding? o = some c := by
  obtain ⟨r, hr, hout⟩ := hl.mem_outputs_iff_record?.1 hc
  refine holding?_eq_some_iff.2 ⟨hid, hvout, prevout?_eq_some_iff.2 ⟨r, hid ▸ hr, ?_⟩⟩
  rw [hvout, hout]

/-- No output is recorded twice. -/
theorem nodup_outputs : l.outputs.Nodup := by
  rw [outputs, List.nodup_flatMap]
  constructor
  · intro r _
    refine List.Nodup.map ?_ (List.Nodup.of_map Prod.snd ?_)
    · rintro ⟨out, vout⟩ ⟨out', vout'⟩ h
      rw [Holding.mk.injEq] at h
      rw [h.2.1, h.2.2]
    · rw [List.zipIdx_map_snd]
      exact List.nodup_range'
  · -- Outputs of different records have different ids.
    refine (List.pairwise_map.1 hl.nodup_txids).imp fun hne c hc hc' => hne ?_
    rw [← (Record.mem_outputs_iff.1 hc).1, (Record.mem_outputs_iff.1 hc').1]

/-- Some unspent outpoints, each named once, name as many unspent outputs. -/
theorem filter_unspent_perm {os : List Outpoint} (hnodup : os.Nodup)
    (hunspent : ∀ o ∈ os, l.spentBy? o = none) :
    (l.unspent.filter fun c => c.isNamedIn os).Perm (os.filterMap l.holding?) := by
  have hnodup' : l.unspent.Nodup := hl.nodup_outputs.filter _
  refine (List.perm_ext_iff_of_nodup (hnodup'.filter _)
    (hnodup.filterMap fun _ _ _ => eq_of_holding?)).2 fun c => ?_
  rw [List.mem_filter, List.mem_filterMap, mem_unspent_iff]
  constructor
  · rintro ⟨⟨hc, _⟩, hnamed⟩
    obtain ⟨o, ho, hid, hvout⟩ := Holding.isNamedIn_iff.1 hnamed
    exact ⟨o, ho, hl.holding?_of_mem_outputs hc hid hvout⟩
  · rintro ⟨o, ho, hc⟩
    obtain ⟨hid, hvout, _⟩ := holding?_eq_some_iff.1 hc
    rw [Holding.isNamedIn_iff_mem hid hvout, Holding.isNamedIn_iff_mem hid hvout]
    exact ⟨⟨hl.mem_outputs_of_holding? hc, spentBy?_eq_none_iff.1 (hunspent o ho)⟩, ho⟩

end Sound

/-! ## What a transaction and a block do -/

variable {tx : Transaction}

/-- A new transaction takes what it spends and puts its own outputs in place. -/
theorem Sound.unspent_insert (hl : l.Sound) (hfresh : l.record? tx.txid = none)
    (hexists : ∀ o ∈ tx.spends, ∃ out, l.prevout? o = some out) :
    (l.insert tx).unspent =
      (l.unspent.filter fun c => !c.isNamedIn tx.spends) ++ Record.outputs ⟨tx.txid, tx, none⟩ := by
  rw [unspent, spends_insert, outputs, records_insert, List.flatMap_append, List.filter_append,
    List.flatMap_singleton]
  congr 1
  · rw [unspent, List.filter_filter]
    refine List.filter_congr fun c _ => ?_
    rw [Holding.isNamedIn, List.any_append, Bool.not_or, Bool.and_comm]
    rfl
  · -- No outpoint names the new outputs: its id would be recorded.
    rw [List.filter_eq_self]
    intro c hc
    rw [Bool.not_eq_true', Bool.eq_false_iff, ne_eq, Holding.isNamedIn_iff]
    rintro ⟨o, ho, hid, _⟩
    obtain ⟨out, hout⟩ := (List.mem_append.1 ho).elim (hl.exists_of_spent o) (hexists o)
    obtain ⟨r, hr, _⟩ := prevout?_eq_some_iff.1 hout
    rw [hid, (Record.mem_outputs_iff.1 hc).1, hfresh] at hr
    cases hr

/-- A block does not change what is unspent. -/
@[simp] theorem unspent_mine : l.mine.unspent = l.unspent := by
  rw [unspent, outputs, records_mine, spends_mine, List.flatMap_map]
  rfl

end Ledger

end Escrow
