import Escrow.Ledger
import Mathlib.Data.List.Nodup
import Mathlib.Data.List.Pairwise

/-!
# What is recorded

A ledger is looked into from its end, so that of two records of one id the last
counts. In a *sound* ledger (`Ledger.Sound`) this makes no difference: no two
records have the same id, no output is spent twice, and what is spent exists. So
a record is found by its id (`Sound.record?_eq_some_iff`), and an output is spent
by exactly the input that is found for it (`Sound.spentBy?_eq_some_iff`).

* `prevout?_insert`, `spends_insert`, ...: what a new transaction adds;
* `record?_mine`, ...: a block changes heights only.
-/

namespace Escrow

/-- The outputs that a transaction spends, in the order of its inputs. -/
def Transaction.spends (tx : Transaction) : List Outpoint :=
  tx.inputs.map Input.prevout

theorem Transaction.getElem?_spends {tx : Transaction} {vin : Nat} {o : Outpoint} :
    tx.spends[vin]? = some o ↔ ∃ i, tx.inputs[vin]? = some i ∧ i.prevout = o := by
  rw [spends, List.getElem?_map, Option.map_eq_some_iff]

@[simp] theorem Record.confirm_txid (h : Nat) (r : Record) : (r.confirm h).txid = r.txid := rfl

@[simp] theorem Record.confirm_tx (h : Nat) (r : Record) : (r.confirm h).tx = r.tx := rfl

/-- A transaction that is in a block stays there. -/
theorem Record.confirm_of_isConfirmed {h : Nat} {r : Record} (hr : r.isConfirmed) :
    r.confirm h = r := by
  obtain ⟨g, hg⟩ := Option.isSome_iff_exists.1 hr
  cases r
  cases hg
  rfl

namespace Ledger

variable {l : Ledger} {id : TxId} {o : Outpoint} {r : Record}

/-- The outputs spent by recorded transactions. -/
def spends (l : Ledger) : List Outpoint :=
  l.records.flatMap fun r => r.tx.spends

theorem mem_spends : o ∈ l.spends ↔ ∃ r ∈ l.records, o ∈ r.tx.spends :=
  List.mem_flatMap

/-! ## Finding records -/

theorem mem_of_record? (h : l.record? id = some r) : r ∈ l.records ∧ r.txid = id := by
  rw [record?, List.findRev?_eq_find?_reverse] at h
  exact ⟨List.mem_reverse.1 (List.mem_of_find?_eq_some h), by simpa using List.find?_some h⟩

theorem record?_eq_none_iff : l.record? id = none ↔ ∀ r ∈ l.records, r.txid ≠ id := by
  rw [record?, List.findRev?_eq_find?_reverse, List.find?_eq_none]
  simp

/-- An outpoint names the output at its position of the record of its id. -/
theorem prevout?_eq_some_iff {out : Output} :
    l.prevout? o = some out ↔
      ∃ r, l.record? o.txid = some r ∧ r.tx.outputs[o.vout.toNat]? = some out :=
  Option.bind_eq_some_iff

/-! ## Finding who spends an output -/

/-- What is found to spend an output does spend it. -/
theorem spends_of_spentBy? {vin : Nat} (h : l.spentBy? o = some (id, vin)) :
    ∃ r ∈ l.records, r.txid = id ∧ r.tx.spends[vin]? = some o := by
  rw [spentBy?, List.findSomeRev?_eq_findSome?_reverse] at h
  obtain ⟨r, hr, h⟩ := List.exists_of_findSome?_eq_some h
  rw [List.findSomeRev?_eq_findSome?_reverse] at h
  obtain ⟨⟨i, n⟩, hi, h⟩ := List.exists_of_findSome?_eq_some h
  rw [List.mem_reverse, List.mk_mem_zipIdx_iff_getElem?] at hi
  rw [Option.ite_none_right_eq_some, Option.some.injEq, Prod.mk.injEq] at h
  obtain ⟨ho, rfl, rfl⟩ := h
  exact ⟨r, List.mem_reverse.1 hr, rfl, Transaction.getElem?_spends.2 ⟨i, hi, ho⟩⟩

/-- No input is found for an output that nothing spends. -/
theorem spentBy?_eq_none_iff : l.spentBy? o = none ↔ o ∉ l.spends := by
  constructor
  · intro h ho
    obtain ⟨r, hr, ho⟩ := mem_spends.1 ho
    obtain ⟨vin, ho⟩ := List.getElem?_of_mem ho
    obtain ⟨i, hi, rfl⟩ := Transaction.getElem?_spends.1 ho
    -- The search would have come upon this input.
    rw [spentBy?, List.findSomeRev?_eq_findSome?_reverse, List.findSome?_eq_none_iff] at h
    have := h r (List.mem_reverse.2 hr)
    rw [List.findSomeRev?_eq_findSome?_reverse, List.findSome?_eq_none_iff] at this
    have := this (i, vin) (List.mem_reverse.2 (List.mk_mem_zipIdx_iff_getElem?.2 hi))
    simp at this
  · intro ho
    rw [Option.eq_none_iff_forall_ne_some]
    rintro ⟨id, vin⟩ h
    obtain ⟨r, hr, _, h⟩ := spends_of_spentBy? h
    exact ho (mem_spends.2 ⟨r, hr, List.mem_of_getElem? h⟩)

/-! ## Sound ledgers -/

/-- No two records of one id, no output spent twice, and nothing spent that does
    not exist; no block is above the last one. -/
structure Sound (l : Ledger) : Prop where
  txid_eq : ∀ r ∈ l.records, r.txid = r.tx.txid
  nodup_txids : (l.records.map Record.txid).Nodup
  nodup_spends : l.spends.Nodup
  exists_of_spent : ∀ o ∈ l.spends, ∃ out, l.prevout? o = some out
  height_le : ∀ r ∈ l.records, ∀ h, r.height = some h → h ≤ l.height

namespace Sound

variable (hl : l.Sound)
include hl

theorem record?_eq_some_iff : l.record? id = some r ↔ r ∈ l.records ∧ r.txid = id := by
  refine ⟨mem_of_record?, fun ⟨hr, hid⟩ => ?_⟩
  cases h : l.record? id with
  | none => exact absurd hid (record?_eq_none_iff.1 h r hr)
  | some s =>
    obtain ⟨hs, hsid⟩ := mem_of_record? h
    rw [List.inj_on_of_nodup_map hl.nodup_txids hr hs (hid.trans hsid.symm)]

/-- An output is spent in one place only. -/
theorem spends_unique {r s : Record} {vin vin' : Nat} (hr : r ∈ l.records) (hs : s ∈ l.records)
    (hro : r.tx.spends[vin]? = some o) (hso : s.tx.spends[vin']? = some o) :
    r = s ∧ vin = vin' := by
  obtain ⟨hnodup, hdisjoint⟩ := List.nodup_flatMap.1 hl.nodup_spends
  have hrs : r = s := by
    -- What different records spend is disjoint.
    by_contra hne
    have : Std.Symm (Function.onFun List.Disjoint fun r : Record => r.tx.spends) :=
      ⟨fun _ _ h => List.disjoint_symm h⟩
    exact hdisjoint.forall hr hs hne (List.mem_of_getElem? hro) (List.mem_of_getElem? hso)
  subst hrs
  exact ⟨rfl, (List.getElem?_inj (List.getElem?_eq_some_iff.1 hro).1 (hnodup r hr)).1
    (hro.trans hso.symm)⟩

/-- An output is spent by the one input found to spend it. -/
theorem spentBy?_eq_some_iff {vin : Nat} :
    l.spentBy? o = some (id, vin) ↔
      ∃ r, l.record? id = some r ∧ r.tx.spends[vin]? = some o := by
  constructor
  · intro h
    obtain ⟨r, hr, hid, h⟩ := spends_of_spentBy? h
    exact ⟨r, hl.record?_eq_some_iff.2 ⟨hr, hid⟩, h⟩
  · rintro ⟨r, hr, ho⟩
    obtain ⟨hmem, hrid⟩ := mem_of_record? hr
    cases h : l.spentBy? o with
    | none =>
      exact absurd (mem_spends.2 ⟨r, hmem, List.mem_of_getElem? ho⟩) (spentBy?_eq_none_iff.1 h)
    | some p =>
      -- Whatever input is found spends the same output, and so is the same.
      obtain ⟨s, hs, hsid, hso⟩ := spends_of_spentBy? h
      obtain ⟨rfl, hvin⟩ := hl.spends_unique hmem hs ho hso
      rw [← hrid, hsid, hvin]

end Sound

/-! ## A new transaction -/

variable {tx : Transaction}

@[simp] theorem records_insert : (l.insert tx).records = l.records ++ [⟨tx.txid, tx, none⟩] := rfl

@[simp] theorem spends_insert : (l.insert tx).spends = l.spends ++ tx.spends := by
  simp [spends]

@[simp] theorem record?_insert_self : (l.insert tx).record? tx.txid = some ⟨tx.txid, tx, none⟩ := by
  rw [record?, List.findRev?_eq_find?_reverse]
  simp

theorem record?_insert_of_ne (h : id ≠ tx.txid) : (l.insert tx).record? id = l.record? id := by
  simp [record?, List.findRev?_eq_find?_reverse, h.symm]

/-- A record that was found is still found after a transaction of another id. -/
theorem record?_insert (hfresh : l.record? tx.txid = none) (h : l.record? id = some r) :
    (l.insert tx).record? id = some r := by
  rw [record?_insert_of_ne, h]
  rintro rfl
  exact Option.some_ne_none r (h.symm.trans hfresh)

/-- An output stays where it is when a transaction with another id is recorded. -/
theorem prevout?_insert {out : Output} (hfresh : l.record? tx.txid = none)
    (h : l.prevout? o = some out) : (l.insert tx).prevout? o = some out := by
  obtain ⟨r, hr, hout⟩ := prevout?_eq_some_iff.1 h
  exact prevout?_eq_some_iff.2 ⟨r, record?_insert hfresh hr, hout⟩

/-- A ledger stays sound with a transaction whose id is new, and which spends different
    outputs that exist and that nothing spends. -/
theorem Sound.insert (hl : l.Sound) (hfresh : l.record? tx.txid = none) (hnodup : tx.spends.Nodup)
    (hunspent : ∀ o ∈ tx.spends, l.spentBy? o = none)
    (hexists : ∀ o ∈ tx.spends, ∃ out, l.prevout? o = some out) : (l.insert tx).Sound where
  txid_eq r hr := by
    rcases List.mem_append.1 hr with hr | hr
    · exact hl.txid_eq r hr
    · rw [List.mem_singleton.1 hr]
  nodup_txids := by
    rw [records_insert, List.map_append, List.nodup_append]
    refine ⟨hl.nodup_txids, List.nodup_singleton _, fun id hid id' hid' => ?_⟩
    -- The id is new.
    obtain ⟨r, hr, rfl⟩ := List.mem_map.1 hid
    rw [List.mem_singleton.1 hid']
    exact record?_eq_none_iff.1 hfresh r hr
  nodup_spends := by
    rw [spends_insert, List.nodup_append]
    refine ⟨hl.nodup_spends, hnodup, fun o ho o' ho' heq => ?_⟩
    exact spentBy?_eq_none_iff.1 (hunspent o' ho') (heq ▸ ho)
  exists_of_spent o ho := by
    obtain ⟨out, hout⟩ : ∃ out, l.prevout? o = some out := by
      rw [spends_insert, List.mem_append] at ho
      exact ho.elim (hl.exists_of_spent o) (hexists o)
    exact ⟨out, prevout?_insert hfresh hout⟩
  height_le r hr h hh := by
    rcases List.mem_append.1 hr with hr | hr
    · exact hl.height_le r hr h hh
    · rw [List.mem_singleton.1 hr] at hh
      cases hh

/-! ## A new block -/

theorem records_mine : l.mine.records = l.records.map (Record.confirm (l.height + 1)) := by
  rw [mine]
  split
  · -- Nothing waits for a block, so that to confirm it changes nothing.
    next h =>
    rw [mempool, List.isEmpty_iff, List.map_eq_nil_iff, List.filter_eq_nil_iff] at h
    have confirmed : ∀ r ∈ l.records, r.confirm (l.height + 1) = id r := fun r hr =>
      Record.confirm_of_isConfirmed (by simpa using h r hr)
    rw [List.map_congr_left confirmed, List.map_id]
  · rfl

@[simp] theorem height_mine : l.mine.height = l.height + 1 := by
  rw [mine]
  split <;> rfl

@[simp] theorem notarized_mine : l.mine.notarized = l.notarized := by
  rw [mine]
  split <;> rfl

@[simp] theorem nonce_mine : l.mine.nonce = l.nonce := by
  rw [mine]
  split <;> rfl

@[simp] theorem spends_mine : l.mine.spends = l.spends := by
  rw [spends, records_mine, List.flatMap_map]
  rfl

theorem record?_mine : l.mine.record? id = (l.record? id).map (Record.confirm (l.height + 1)) := by
  rw [record?, records_mine, record?, List.findRev?_eq_find?_reverse,
    List.findRev?_eq_find?_reverse, ← List.map_reverse, List.find?_map]
  rfl

/-- A block moves no output. -/
@[simp] theorem prevout?_mine : l.mine.prevout? o = l.prevout? o := by
  rw [prevout?, record?_mine, prevout?]
  cases l.record? o.txid <;> rfl

/-- A ledger stays sound with a block. -/
theorem Sound.mine (hl : l.Sound) : l.mine.Sound where
  txid_eq r hr := by
    rw [records_mine] at hr
    obtain ⟨s, hs, rfl⟩ := List.mem_map.1 hr
    exact hl.txid_eq s hs
  nodup_txids := by
    rw [records_mine, List.map_map]
    exact hl.nodup_txids
  nodup_spends := by
    rw [spends_mine]
    exact hl.nodup_spends
  exists_of_spent o ho := by
    rw [prevout?_mine]
    exact hl.exists_of_spent o (by rwa [spends_mine] at ho)
  height_le r hr h hh := by
    rw [records_mine] at hr
    obtain ⟨s, hs, rfl⟩ := List.mem_map.1 hr
    rw [Record.confirm, Option.some.injEq] at hh
    rw [height_mine, ← hh]
    -- What waited is at the new height, and the rest below.
    cases hg : s.height with
    | none => exact Nat.le_refl _
    | some g => exact Nat.le_succ_of_le (hl.height_le s hs g hg)

end Ledger

end Escrow
