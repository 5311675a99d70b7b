import Escrow.Proofs.Host.Run
import Escrow.Proofs.Ledger.Blocks
import Escrow.Proofs.Ledger.Coins
import Escrow.Proofs.Ledger.Index

/-!
# Bookkeeping

A ledger says some things more than once. The index repeats the records, the
blocks repeat their heights, and an input repeats that an earlier transaction made
what it spends. Nothing in the ledger as such makes these agree: the host does, by
what it checks before it records a transaction, and by doing all that goes with it
whenever it records one or makes a block.

In a run that starts from an empty ledger, with an index made along the way
(`Index.run`), they always agree (`consistent_run`), whatever the contracts are and
whether commands succeed or not:

* the index is at each time that of the ledger (`index_run`);
* turns keep a ledger filed (`Turn.filed`);
* what a recorded transaction spends was made by an earlier one
  (`Reachable.exists_earlier`).
-/

namespace Escrow

variable {validators : List Validator} {l m : Ledger}

/-! ## The index of a run -/

namespace Index

/-- The index after a command to a host: what the command records is added. -/
def step (x : Index) (h : Host) : Command → Index
  | .fund key value =>
    match (h.fund key value).1 with
    | .error _ => x
    | .ok _ =>
      let tx := Host.funding key value (h.ledger.nonce + 1)
      x.add h.ledger.records.length ⟨tx.txid, tx, none⟩
  | .submit tx =>
    match (h.submit tx).1 with
    | .error _ => x
    | .ok id => x.add h.ledger.records.length ⟨id, tx, none⟩
  | .mine => x
  | .advance _ => x
  | .notarize _ => x

/-- The index after a list of commands. -/
def run (x : Index) (h : Host) : List Command → Index
  | [] => x
  | c :: cs => (x.step h c).run (h.step c) cs

end Index

namespace Host

/-- Blocks have no part in the index. -/
theorem index_advance (h : Host) (blocks : Nat) :
    (h.advance blocks).ledger.index = h.ledger.index := by
  induction blocks generalizing h with
  | zero => rfl
  | succ n ih => exact (ih h.mine).trans h.ledger.index_mine

/-- A command that is done adds to the index what it records. -/
theorem index_step (h : Host) (c : Command) :
    h.ledger.index.step h c = (h.step c).ledger.index := by
  cases c with
  | fund key value =>
    by_cases hvalue : value ≤ 0
    · rw [Index.step, step, fund, if_pos hvalue]
    · rw [Index.step, step, fund, if_neg hvalue]
      dsimp only
      by_cases hknown : (h.ledger.record? (funding key value (h.ledger.nonce + 1)).txid).isSome
      · rw [if_pos hknown]
        rfl
      · -- The block that a funding is put in does not change the index.
        rw [if_neg hknown, Ledger.index_mine, Ledger.index_insert]
        rfl
  | submit tx =>
    rw [Index.step, step, submit]
    cases hcheck : h.check tx with
    | error e => rfl
    | ok id =>
      obtain ⟨rfl, -⟩ := check_eq_ok_iff.1 hcheck
      exact (h.ledger.index_insert tx).symm
  | mine => exact h.ledger.index_mine.symm
  | advance blocks => exact (h.index_advance blocks).symm
  | notarize height =>
    rw [Index.step, step, notarize]
    split <;> rfl

/-- The index that is kept step by step is the one made of all records in the end. -/
theorem index_run (h : Host) (cs : List Command) :
    h.ledger.index.run h cs = (h.run cs).ledger.index := by
  induction cs generalizing h with
  | nil => rfl
  | cons c cs ih => rw [Index.run, index_step, ih, run, run, List.foldl_cons]

end Host

/-! ## The blocks of a run -/

/-- A turn of a sound ledger keeps its blocks in order. -/
theorem Turn.filed (h : Turn validators l m) (hsound : l.Sound) (hl : l.Filed) : m.Filed := by
  cases h with
  | count => exact { hl with }
  | fund => exact hl.insert
  | record => exact hl.insert
  | mine => exact hl.mine hsound
  | notarize height hheight =>
    exact { hl with notarized_le := Nat.max_le.2 ⟨hl.notarized_le, hheight⟩ }

/-- The blocks of a reachable ledger are in order. -/
theorem Reachable.filed (hl : Reachable validators l) : l.Filed := by
  obtain ⟨genesis, blockTime, h⟩ := hl
  induction h with
  | refl => exact .empty genesis blockTime
  | tail hlead hturn ih =>
    exact hturn.filed (Reachable.sound ⟨genesis, blockTime, hlead⟩) ih

/-! ## What is spent -/

/-- An input at a position of a transaction may spend an output: it is no data, and
    a key that its lock allows has signed for the input. -/
structure Transaction.Unlocks (tx : Transaction) (vin : Nat) (i : Input) (out : Output) : Prop where
  not_data : out.lock.data? = none
  signed : ∃ w, i.witness = some w ∧ out.lock.authorizes w.key ∧
    w.key.verify (tx.sighash vin) w.signature = .ok ()

/-- What an input of a recorded transaction spends was made by an earlier one. -/
theorem Reachable.exists_earlier (hl : Reachable validators l) {pos vin : Nat} {r : Record}
    {i : Input} (hr : l.records[pos]? = some r) (hi : r.tx.inputs[vin]? = some i) :
    ∃ pos' s out, pos' < pos ∧ l.records[pos']? = some s ∧ s.txid = i.prevout.txid ∧
      s.tx.outputs[i.prevout.vout.toNat]? = some out ∧ r.tx.Unlocks vin i out := by
  have hmem := List.mem_of_getElem? hr
  obtain ⟨key, value, nonce, -, htx⟩ | ⟨before, spent, -, hadmits, hgrows⟩ := hl.origin hmem
  · -- A funding spends nothing.
    rw [htx] at hi
    cases hi
  · obtain ⟨out, -, hspendable⟩ := hadmits.spendable_at hi
    obtain ⟨s, hs, hout⟩ := Ledger.prevout?_eq_some_iff.1 hspendable.prevout
    obtain ⟨hs, hid⟩ := Ledger.mem_of_record? hs
    obtain ⟨pos', hpos', rfl⟩ := List.getElem_of_mem hs
    -- Both records are where they were when the later one was admitted.
    obtain ⟨s', hs', hkeeps'⟩ := hgrows.keeps pos' before.records[pos'] (by
      rw [Ledger.records_insert, List.getElem?_append_left hpos', List.getElem?_eq_getElem])
    obtain ⟨r', hr', hkeeps⟩ := hgrows.keeps before.records.length ⟨r.tx.txid, r.tx, none⟩ (by
      rw [Ledger.records_insert, List.getElem?_concat_length])
    have hpos : before.records.length = pos :=
      hl.sound.position_unique hr' hr (hkeeps.txid_eq.trans (hl.sound.txid_eq r hmem).symm)
    exact ⟨pos', s', out, hpos ▸ hpos', hs', hkeeps'.txid_eq.trans hid, hkeeps'.tx_eq ▸ hout,
      hspendable.not_data, hspendable.signed⟩

/-! ## All of it together -/

/-- A ledger and its index agree with themselves and with each other: all that they
    say twice, they say alike. -/
structure Ledger.Consistent (l : Ledger) (x : Index) : Prop where
  txid_eq : ∀ r ∈ l.records, r.txid = r.tx.txid
  nodup_txids : (l.records.map Record.txid).Nodup
  /-- The index has the position of every record. -/
  position?_iff : ∀ id pos, x.position? id = some pos ↔
    ∃ r, l.records[pos]? = some r ∧ r.txid = id
  /-- The index has the input that spends an output, which is the only one. -/
  spentBy?_iff : ∀ o id vin, x.spentBy? o = some (id, vin) ↔
    ∃ r ∈ l.records, r.txid = id ∧ r.tx.spends[vin]? = some o
  nodup_spends : l.spends.Nodup
  /-- The index has the outputs at every address, in their order. -/
  outpointsAt_eq : ∀ a, x.outpointsAt a =
    (l.outputs.filter fun c => Address.ofLock? c.output.lock = some a).map Holding.outpoint
  /-- Every input spends an output of an earlier record, which it may. -/
  earlier : ∀ (pos : Nat) (r : Record) (vin : Nat) (i : Input),
    l.records[pos]? = some r → r.tx.inputs[vin]? = some i →
    ∃ (pos' : Nat) (s : Record) (out : Output), pos' < pos ∧ l.records[pos']? = some s ∧
      s.txid = i.prevout.txid ∧ s.tx.outputs[i.prevout.vout.toNat]? = some out ∧
      r.tx.Unlocks vin i out
  /-- The confirmed records come first, in the order of their heights. -/
  confirmed_isPrefix : l.records.filter Record.isConfirmed <+: l.records
  heights_ordered : (l.records.filterMap Record.height).Pairwise (· ≤ ·)
  height_le : ∀ r ∈ l.records, ∀ h, r.height = some h → h ≤ l.height
  /-- Every block lists the records of its height, and all of them together those
      that are confirmed. -/
  blocks_increasing : (l.blocks.map Block.height).Pairwise (· < ·)
  block_txids : ∀ b ∈ l.blocks, b.txids ≠ [] ∧
    b.txids = (l.records.filter (·.height = some b.height)).map Record.txid
  confirmed_listed : l.blocks.flatMap Block.txids =
    (l.records.filter Record.isConfirmed).map Record.txid
  /-- The mempool lists those that are not. -/
  mempool_eq : l.mempool = (l.records.filter (·.height = none)).map Record.txid
  notarized_le : l.notarized ≤ l.height

/-- A reachable ledger agrees with its index, and its blocks, heights and signatures with
    each other. -/
theorem Reachable.consistent (hl : Reachable validators l) : l.Consistent l.index where
  txid_eq := hl.sound.txid_eq
  nodup_txids := hl.sound.nodup_txids
  position?_iff _ _ := hl.sound.index_position?_eq_some_iff
  spentBy?_iff o id vin := by
    rw [Ledger.index_spentBy?, hl.sound.spentBy?_eq_some_iff]
    simp only [hl.sound.record?_eq_some_iff, and_assoc]
  nodup_spends := hl.sound.nodup_spends
  outpointsAt_eq a := by rw [Ledger.index_outpointsAt, Ledger.outpointsAt_eq]
  earlier _ _ _ _ := hl.exists_earlier
  confirmed_isPrefix := hl.filed.confirmed_isPrefix
  heights_ordered := hl.filed.pairwise_heights
  height_le := hl.sound.height_le
  blocks_increasing := hl.filed.increasing
  block_txids b hb := ⟨hl.filed.txids_ne_nil b hb, hl.filed.txids_eq b hb⟩
  confirmed_listed := hl.filed.flatMap_txids
  mempool_eq := by
    refine congrArg _ (List.filter_congr fun r _ => ?_)
    cases h : r.height <;> simp [Record.isConfirmed, h]
  notarized_le := hl.filed.notarized_le

/-- In every run from an empty ledger, the ledger and the index that is made along
    with it are consistent. -/
theorem Host.consistent_run (genesis : Timestamp) (blockTime : UInt64)
    (validators : List Validator) (cs : List Command) :
    let start : Host := ⟨{ genesis, blockTime }, validators⟩
    (start.run cs).ledger.Consistent (Index.run {} start cs) := by
  intro start
  have hindex : Index.run {} start cs = (start.run cs).ledger.index := start.index_run cs
  rw [hindex]
  exact (reachable_run genesis blockTime validators cs).consistent

end Escrow
