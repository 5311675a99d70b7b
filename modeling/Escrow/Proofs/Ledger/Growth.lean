import Escrow.Proofs.Ledger.Records

/-!
# Growing ledgers

A ledger only grows: its records stay where they are, with the same transaction
and the same height once they have one, and new ones come after them. A height
given later is above all those given before, and is that of the next block for
all that wait for one. So what was once found in a ledger
is found in every later one (`Grows.record?`, `Grows.prevout?`,
`Grows.spentBy?`), and the record of a confirmed transaction never changes
(`Grows.record?_of_isConfirmed`).
-/

namespace Escrow

/-- How a record is found again later, `tip` being the last height before. -/
structure Record.Keeps (tip : Nat) (r s : Record) : Prop where
  txid_eq : s.txid = r.txid
  tx_eq : s.tx = r.tx
  height_eq : ∀ h, r.height = some h → s.height = some h
  lt_height : ∀ h, r.height = none → s.height = some h → tip < h

namespace Record.Keeps

variable {tip tip' : Nat} {r s t : Record}

theorem refl (tip : Nat) (r : Record) : r.Keeps tip r :=
  ⟨rfl, rfl, fun _ h => h, fun _ h h' => absurd (h.symm.trans h') (Option.some_ne_none _).symm⟩

theorem trans (hrs : r.Keeps tip s) (hst : s.Keeps tip' t) (htip : tip ≤ tip') :
    r.Keeps tip t where
  txid_eq := hst.txid_eq.trans hrs.txid_eq
  tx_eq := hst.tx_eq.trans hrs.tx_eq
  height_eq h hr := hst.height_eq h (hrs.height_eq h hr)
  lt_height h hr ht := by
    cases hs : s.height with
    | none => exact Nat.lt_of_le_of_lt htip (hst.lt_height h hs ht)
    | some g =>
      have : t.height = some g := hst.height_eq g hs
      rw [ht, Option.some.injEq] at this
      exact this ▸ hrs.lt_height g hr hs

/-- A record that has a height never changes. -/
theorem eq_of_isConfirmed (h : r.Keeps tip s) (hr : r.isConfirmed) : s = r := by
  obtain ⟨g, hg⟩ := Option.isSome_iff_exists.1 hr
  have : s.height = r.height := (h.height_eq g hg).trans hg.symm
  cases r
  cases s
  cases h.txid_eq
  cases h.tx_eq
  cases this
  rfl

/-- A record that is put into the next block keeps to what it was. -/
theorem confirm (r : Record) : r.Keeps tip (r.confirm (tip + 1)) where
  txid_eq := rfl
  tx_eq := rfl
  height_eq h hr := by rw [Record.confirm, hr]; rfl
  lt_height h hr hs := by
    rw [Record.confirm, hr] at hs
    cases hs
    exact Nat.lt_succ_self tip

end Record.Keeps

namespace Ledger

variable {l m n : Ledger} {id : TxId} {o : Outpoint} {r : Record} {tx : Transaction}

/-- `m` is a later form of the ledger `l`. -/
structure Grows (l m : Ledger) : Prop where
  keeps : ∀ (k : Nat) (r : Record), l.records[k]? = some r →
    ∃ s, m.records[k]? = some s ∧ r.Keeps l.height s
  added : ∀ (k : Nat) (s : Record) (h : Nat), l.records.length ≤ k → m.records[k]? = some s →
    s.height = some h → l.height < h
  /-- The block that a record is in, or would be in if one were made, stays the same. -/
  due : ∀ (k : Nat) (r s : Record), l.records[k]? = some r → m.records[k]? = some s →
    s.height.getD (m.height + 1) = r.height.getD (l.height + 1)
  height_le : l.height ≤ m.height
  notarized_le : l.notarized ≤ m.notarized

namespace Grows

/-- A ledger with the same records and height is a later form if no less is notarized. -/
theorem of_records_eq (hrecords : m.records = l.records) (hheight : m.height = l.height)
    (hnotarized : l.notarized ≤ m.notarized) : l.Grows m where
  keeps _ r hr := ⟨r, hrecords ▸ hr, .refl _ r⟩
  added _ _ _ hk hs := absurd hs (by simp [hrecords, hk])
  due k r s hr hs := by
    rw [hrecords] at hs
    cases hr.symm.trans hs
    rw [hheight]
  height_le := Nat.le_of_eq hheight.symm
  notarized_le := hnotarized

theorem refl (l : Ledger) : l.Grows l :=
  of_records_eq rfl rfl (Nat.le_refl _)

theorem trans (hlm : l.Grows m) (hmn : m.Grows n) : l.Grows n where
  keeps k r hr := by
    obtain ⟨s, hs, hrs⟩ := hlm.keeps k r hr
    obtain ⟨t, ht, hst⟩ := hmn.keeps k s hs
    exact ⟨t, ht, hrs.trans hst hlm.height_le⟩
  added k t h hk ht hh := by
    -- The record was added after `m`, or is one of `m` already.
    cases hs : m.records[k]? with
    | none =>
      exact Nat.lt_of_le_of_lt hlm.height_le
        (hmn.added k t h (List.getElem?_eq_none_iff.1 hs) ht hh)
    | some s =>
      obtain ⟨t', ht', hst⟩ := hmn.keeps k s hs
      cases ht.symm.trans ht'
      cases hg : s.height with
      | none => exact Nat.lt_of_le_of_lt hlm.height_le (hst.lt_height h hg hh)
      | some g =>
        cases hh.symm.trans (hst.height_eq g hg)
        exact hlm.added k s _ hk hs hg
  due k r t hr ht := by
    obtain ⟨s, hs, -⟩ := hlm.keeps k r hr
    exact (hmn.due k s t hs ht).trans (hlm.due k r s hr hs)
  height_le := Nat.le_trans hlm.height_le hmn.height_le
  notarized_le := Nat.le_trans hlm.notarized_le hmn.notarized_le

/-! ## What makes a ledger grow -/

theorem insert (l : Ledger) (tx : Transaction) : l.Grows (l.insert tx) where
  keeps k r hr := by
    refine ⟨r, ?_, .refl _ r⟩
    rw [records_insert, List.getElem?_append_left (List.getElem?_eq_some_iff.1 hr).1, hr]
  added k s h hk hs hh := by
    rw [records_insert, List.getElem?_append_right hk] at hs
    rw [List.mem_singleton.1 (List.mem_of_getElem? hs)] at hh
    cases hh
  due k r s hr hs := by
    rw [records_insert, List.getElem?_append_left (List.getElem?_eq_some_iff.1 hr).1] at hs
    cases hr.symm.trans hs
    rfl
  height_le := Nat.le_refl _
  notarized_le := Nat.le_refl _

theorem mine (l : Ledger) : l.Grows l.mine where
  keeps k r hr := by
    rw [records_mine, List.getElem?_map, hr]
    exact ⟨_, rfl, .confirm r⟩
  added k s h hk hs hh := by
    rw [records_mine, List.getElem?_map, List.getElem?_eq_none hk] at hs
    cases hs
  due k r s hr hs := by
    rw [records_mine, List.getElem?_map, hr] at hs
    cases hs
    rfl
  height_le := by simp
  notarized_le := by simp

/-! ## What is found again -/

section
variable (h : l.Grows m) (hm : m.Sound)
include h

/-- A record is kept in a ledger that has grown. -/
theorem exists_mem (hr : r ∈ l.records) : ∃ s ∈ m.records, r.Keeps l.height s := by
  obtain ⟨k, hk⟩ := List.getElem?_of_mem hr
  obtain ⟨s, hs, hrs⟩ := h.keeps k r hk
  exact ⟨s, List.mem_of_getElem? hs, hrs⟩

include hm

/-- What is found under an id is found there in a ledger that has grown. -/
theorem record? (hr : l.record? id = some r) :
    ∃ s, m.record? id = some s ∧ r.Keeps l.height s := by
  obtain ⟨hmem, rfl⟩ := mem_of_record? hr
  obtain ⟨s, hs, hrs⟩ := h.exists_mem hmem
  exact ⟨s, hm.record?_eq_some_iff.2 ⟨hs, hrs.txid_eq⟩, hrs⟩

/-- What is in a block is found unchanged in a ledger that has grown. -/
theorem record?_of_isConfirmed (hr : l.record? id = some r) (hconf : r.isConfirmed) :
    m.record? id = some r := by
  obtain ⟨s, hs, hrs⟩ := h.record? hm hr
  rw [hs, hrs.eq_of_isConfirmed hconf]

theorem due_of_record? {s : Record} (hr : l.record? id = some r) (hs : m.record? id = some s) :
    s.height.getD (m.height + 1) = r.height.getD (l.height + 1) := by
  obtain ⟨hmem, rfl⟩ := mem_of_record? hr
  obtain ⟨k, hk⟩ := List.getElem?_of_mem hmem
  obtain ⟨t, ht, hrt⟩ := h.keeps k r hk
  have := hm.record?_eq_some_iff.2 ⟨List.mem_of_getElem? ht, hrt.txid_eq⟩
  cases hs.symm.trans this
  exact h.due k r s hk ht

/-- An outpoint names the same output in a ledger that has grown. -/
theorem prevout? {out : Output} (ho : l.prevout? o = some out) : m.prevout? o = some out := by
  obtain ⟨r, hr, hout⟩ := prevout?_eq_some_iff.1 ho
  obtain ⟨s, hs, hrs⟩ := h.record? hm hr
  exact prevout?_eq_some_iff.2 ⟨s, hs, hrs.tx_eq ▸ hout⟩

/-- What is spent stays so, by the same input, in a ledger that has grown. -/
theorem spentBy? {vin : Nat} (ho : l.spentBy? o = some (id, vin)) :
    m.spentBy? o = some (id, vin) := by
  obtain ⟨r, hr, hid, hspends⟩ := spends_of_spentBy? ho
  obtain ⟨s, hs, hrs⟩ := h.exists_mem hr
  exact hm.spentBy?_eq_some_iff.2
    ⟨s, hm.record?_eq_some_iff.2 ⟨hs, hrs.txid_eq.trans hid⟩, hrs.tx_eq ▸ hspends⟩

end

end Grows

end Ledger

end Escrow
