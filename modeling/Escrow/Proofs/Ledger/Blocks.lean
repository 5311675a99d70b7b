import Escrow.Proofs.Ledger.Records

/-!
# Blocks

A ledger keeps its blocks beside its records, and each record has the height of
its block: what a block lists can be read from the records too. In a *filed*
ledger (`Ledger.Filed`) the two agree. The records that are in a block come first,
in the order of their blocks, and those that wait for one come last; a block lists
the records of its height; and the blocks, with the mempool behind them, list
every record once, in order.

A new transaction goes to the end of the mempool (`Filed.insert`), and the whole
mempool goes into the next block (`Filed.mine`).
-/

namespace Escrow

/-- If the record `s` is in a block, then `r` is in the same or an earlier one. -/
def Record.Precedes (r s : Record) : Prop :=
  ∀ h, s.height = some h → ∃ g, r.height = some g ∧ g ≤ h

/-- What comes before a record that is in a block is in one too. -/
theorem Record.Precedes.isConfirmed {r s : Record} (h : r.Precedes s) (hs : s.isConfirmed) :
    r.isConfirmed := by
  obtain ⟨g, hg⟩ := Option.isSome_iff_exists.1 hs
  obtain ⟨f, hf, -⟩ := h g hg
  exact Option.isSome_iff_exists.2 ⟨f, hf⟩

/-- If what has a property comes first, a list is what has it and then the rest. -/
theorem filter_append_filter_not {α : Type*} {p : α → Bool} {xs : List α}
    (h : xs.Pairwise fun x y => p y → p x) : xs.filter p ++ xs.filter (fun x => !p x) = xs := by
  induction xs with
  | nil => rfl
  | cons x xs ih =>
    obtain ⟨hx, hxs⟩ := List.pairwise_cons.1 h
    cases hp : p x with
    | true =>
      rw [List.filter_cons_of_pos hp, List.filter_cons_of_neg (by simp [hp]), List.cons_append,
        ih hxs]
    | false =>
      -- Nothing after `x` has the property either.
      have hnone : xs.filter p = [] := List.filter_eq_nil_iff.2 fun y hy hpy => by
        rw [hx y hy hpy] at hp
        cases hp
      have hrest := ih hxs
      rw [hnone, List.nil_append] at hrest
      rw [List.filter_cons_of_neg (by simp [hp]), List.filter_cons_of_pos (by simp [hp]), hnone,
        hrest, List.nil_append]

namespace Ledger

variable {l : Ledger} {tx : Transaction} {b : Block} {h : Nat}

/-- The blocks and the records agree, and nothing is notarized that is not there. -/
structure Filed (l : Ledger) : Prop where
  ordered : l.records.Pairwise Record.Precedes
  increasing : (l.blocks.map Block.height).Pairwise (· < ·)
  height_le : ∀ b ∈ l.blocks, b.height ≤ l.height
  txids_eq : ∀ b ∈ l.blocks,
    b.txids = (l.records.filter (·.height = some b.height)).map Record.txid
  txids_ne_nil : ∀ b ∈ l.blocks, b.txids ≠ []
  exists_block : ∀ r ∈ l.records, ∀ h, r.height = some h → ∃ b ∈ l.blocks, b.height = h
  listed : l.records.map Record.txid = l.blocks.flatMap Block.txids ++ l.mempool
  notarized_le : l.notarized ≤ l.height

/-! ## The confirmed records -/

namespace Filed

variable (hl : l.Filed)
include hl

/-- The records in blocks come first, and those that wait after them. -/
theorem filter_append_filter : l.records.filter Record.isConfirmed ++
    l.records.filter (fun r => !r.isConfirmed) = l.records :=
  filter_append_filter_not (hl.ordered.imp Record.Precedes.isConfirmed)

/-- The confirmed records come first. -/
theorem confirmed_isPrefix : l.records.filter Record.isConfirmed <+: l.records :=
  ⟨_, hl.filter_append_filter⟩

/-- The heights never decrease. -/
theorem pairwise_heights : (l.records.filterMap Record.height).Pairwise (· ≤ ·) := by
  refine hl.ordered.filterMap _ fun r s hrs g hg h hh => ?_
  obtain ⟨g', hg', hle⟩ := hrs h hh
  cases hg.symm.trans hg'
  exact hle

/-- The blocks list the confirmed records. -/
theorem flatMap_txids :
    l.blocks.flatMap Block.txids = (l.records.filter Record.isConfirmed).map Record.txid := by
  have hlisted := hl.listed
  rw [← hl.filter_append_filter, List.map_append] at hlisted
  exact (List.append_cancel_right hlisted).symm

end Filed

/-! ## What keeps a ledger filed -/

/-- An empty ledger has its blocks in order. -/
theorem Filed.empty (genesis : Timestamp) (blockTime : UInt64) :
    ({ genesis, blockTime } : Ledger).Filed where
  ordered := .nil
  increasing := .nil
  height_le := nofun
  txids_eq := nofun
  txids_ne_nil := nofun
  exists_block := nofun
  listed := rfl
  notarized_le := Nat.le_refl 0

theorem mempool_insert (l : Ledger) (tx : Transaction) :
    (l.insert tx).mempool = l.mempool ++ [tx.txid] := by
  rw [mempool, records_insert, List.filter_append, List.map_append]
  rfl

/-- A new transaction waits behind all others, so that the blocks stay in order. -/
theorem Filed.insert (hl : l.Filed) : (l.insert tx).Filed where
  ordered := by
    rw [records_insert, List.pairwise_append]
    refine ⟨hl.ordered, List.pairwise_singleton _ _, fun r _ s hs h hh => ?_⟩
    -- The new record is in no block.
    rw [List.mem_singleton.1 hs] at hh
    cases hh
  increasing := hl.increasing
  height_le := hl.height_le
  txids_eq b hb := by
    rw [records_insert, List.filter_append, List.map_append, hl.txids_eq b hb]
    exact (List.append_nil _).symm
  txids_ne_nil := hl.txids_ne_nil
  exists_block r hr h hh := by
    rcases List.mem_append.1 hr with hr | hr
    · exact hl.exists_block r hr h hh
    · rw [List.mem_singleton.1 hr] at hh
      cases hh
  listed := by
    rw [records_insert, List.map_append, hl.listed, mempool_insert, List.append_assoc]
    rfl
  notarized_le := hl.notarized_le

/-- The block that is made of the mempool. -/
def nextBlock (l : Ledger) : Block :=
  ⟨l.height + 1, l.timeAt (l.height + 1), l.mempool⟩

/-- A block is listed if it has transactions. -/
theorem blocks_mine (l : Ledger) :
    l.mine.blocks = if l.mempool.isEmpty then l.blocks else l.blocks ++ [l.nextBlock] := by
  rw [mine]
  split <;> rfl

/-- After a block the listed ones are those from before and this one, unless nothing waited. -/
theorem mem_blocks_mine_iff :
    b ∈ l.mine.blocks ↔ b ∈ l.blocks ∨ b = l.nextBlock ∧ l.mempool ≠ [] := by
  rw [blocks_mine]
  split
  · next hempty => simp [List.isEmpty_iff.1 hempty]
  · next hwaiting =>
    rw [List.isEmpty_iff] at hwaiting
    simp [hwaiting]

/-- After a block nothing waits. -/
@[simp] theorem mempool_mine (l : Ledger) : l.mine.mempool = [] := by
  rw [mempool, records_mine, List.map_eq_nil_iff, List.filter_eq_nil_iff]
  intro r hr
  obtain ⟨s, -, rfl⟩ := List.mem_map.1 hr
  simp [Record.confirm, Record.isConfirmed]

/-- A new block takes nothing from an earlier height and adds nothing to it. -/
theorem filter_height_mine (hh : h ≤ l.height) :
    (l.mine.records.filter (·.height = some h)).map Record.txid =
      (l.records.filter (·.height = some h)).map Record.txid := by
  rw [records_mine, List.filter_map, List.map_map]
  refine congrArg _ (List.filter_congr fun r _ => ?_)
  cases hr : r.height with
  | none => simp [Record.confirm, hr, Nat.ne_of_gt (Nat.lt_succ_of_le hh)]
  | some g => simp [Record.confirm, hr]

/-- At the height of the new block is what waited for one. -/
theorem Sound.filter_height_mine_succ (hl : l.Sound) :
    (l.mine.records.filter (·.height = some (l.height + 1))).map Record.txid = l.mempool := by
  rw [records_mine, List.filter_map, List.map_map, mempool]
  refine congrArg _ (List.filter_congr fun r hr => ?_)
  cases hg : r.height with
  | none => simp [Record.confirm, Record.isConfirmed, hg]
  | some g =>
    have := hl.height_le r hr g hg
    simp [Record.confirm, Record.isConfirmed, hg]
    omega

/-- The blocks of a sound ledger stay in order with another one. -/
theorem Filed.mine (hl : l.Filed) (hsound : l.Sound) : l.mine.Filed where
  ordered := by
    rw [records_mine, List.pairwise_map]
    refine hl.ordered.imp_of_mem fun {r s} hr _ hrs h hh => ?_
    rw [Record.confirm, Option.some.injEq] at hh
    refine ⟨_, rfl, ?_⟩
    cases hs : s.height with
    | none =>
      -- `s` was waiting, so that its block is the last one.
      rw [hs, Option.getD_none] at hh
      rw [← hh]
      cases hg : r.height with
      | none => exact Nat.le_refl _
      | some g => exact Nat.le_succ_of_le (hsound.height_le r hr g hg)
    | some h' =>
      obtain ⟨g, hg, hle⟩ := hrs h' hs
      rw [hs, Option.getD_some] at hh
      rw [hg, Option.getD_some, ← hh]
      exact hle
  increasing := by
    rw [blocks_mine]
    split
    · exact hl.increasing
    · rw [List.map_append, List.pairwise_append]
      refine ⟨hl.increasing, List.pairwise_singleton _ _, fun g hg h hh => ?_⟩
      obtain ⟨b, hb, rfl⟩ := List.mem_map.1 hg
      rw [List.mem_singleton.1 hh]
      exact Nat.lt_succ_of_le (hl.height_le b hb)
  height_le b hb := by
    rw [height_mine]
    rcases mem_blocks_mine_iff.1 hb with hb | ⟨rfl, -⟩
    · exact Nat.le_succ_of_le (hl.height_le b hb)
    · exact Nat.le_refl _
  txids_eq b hb := by
    rcases mem_blocks_mine_iff.1 hb with hb | ⟨rfl, -⟩
    · rw [filter_height_mine (hl.height_le b hb), hl.txids_eq b hb]
    · exact hsound.filter_height_mine_succ.symm
  txids_ne_nil b hb := by
    rcases mem_blocks_mine_iff.1 hb with hb | ⟨rfl, hwaiting⟩
    · exact hl.txids_ne_nil b hb
    · exact hwaiting
  exists_block r hr h hh := by
    rw [records_mine] at hr
    obtain ⟨s, hs, rfl⟩ := List.mem_map.1 hr
    rw [Record.confirm, Option.some.injEq] at hh
    cases hg : s.height with
    | none =>
      rw [hg, Option.getD_none] at hh
      have hwaiting : s.txid ∈ l.mempool :=
        List.mem_map_of_mem (List.mem_filter.2 ⟨hs, by simp [Record.isConfirmed, hg]⟩)
      exact ⟨l.nextBlock, mem_blocks_mine_iff.2 (.inr ⟨rfl, List.ne_nil_of_mem hwaiting⟩), hh⟩
    | some g =>
      rw [hg, Option.getD_some] at hh
      obtain ⟨b, hb, hbg⟩ := hl.exists_block s hs g hg
      exact ⟨b, mem_blocks_mine_iff.2 (.inl hb), hbg.trans hh⟩
  listed := by
    have htxids : l.mine.records.map Record.txid = l.records.map Record.txid := by
      rw [records_mine, List.map_map]
      rfl
    rw [htxids, hl.listed, mempool_mine, List.append_nil, blocks_mine]
    split
    · next hempty => rw [List.isEmpty_iff.1 hempty, List.append_nil]
    · rw [List.flatMap_append, List.flatMap_singleton]
      rfl
  notarized_le := by
    rw [notarized_mine, height_mine]
    exact Nat.le_succ_of_le hl.notarized_le

end Ledger

end Escrow
