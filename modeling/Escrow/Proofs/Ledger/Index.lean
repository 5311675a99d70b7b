import Escrow.Proofs.Ledger.Records
import Mathlib.Data.List.Induction
import Mathlib.Logic.Function.Basic

/-!
# The index of a ledger

A ledger answers from its list of records, which it searches from the end. The
answers may also be kept beside the list, in an *index*: the position of every
id, the input that spends every output, and the outpoints at every address. An
index grows with the list. A record is added with one entry for its id, one for
each of its inputs and one for each output that has an address (`Index.add`), a
later entry in place of an earlier one; nothing is ever taken out.

Whatever the records are, an index made in this way answers as the list does
(`record?_eq_position?`, `index_spentBy?`, `index_outpointsAt`). A new transaction
is all that it takes to keep it so (`index_insert`), for a block leaves it as it
is (`index_mine`).
-/

namespace Escrow

/-- What is known of a list of records without a search. -/
structure Index where
  /-- The position of the record of an id. -/
  position? : TxId → Option Nat := fun _ => none
  /-- The transaction that spends an output, and the position of the input. -/
  spentBy? : Outpoint → Option (TxId × Nat) := fun _ => none
  /-- The outpoints of the outputs at an address, in order. -/
  outpointsAt : Address → List Outpoint := fun _ => []

namespace Index

/-- Adds an input of a transaction, with its position. -/
def addInput (id : TxId) (x : Index) (i : Input × Nat) : Index :=
  { x with spentBy? := Function.update x.spentBy? i.1.prevout (some (id, i.2)) }

/-- Adds an output of a transaction, with its position, if it has an address. -/
def addOutput (id : TxId) (x : Index) (o : Output × Nat) : Index :=
  match Address.ofLock? o.1.lock with
  | none => x
  | some a =>
    { x with
      outpointsAt :=
        Function.update x.outpointsAt a (x.outpointsAt a ++ [⟨id, UInt32.ofNat o.2⟩]) }

/-- Adds the record at a position. -/
def add (x : Index) (pos : Nat) (r : Record) : Index :=
  let known := { x with position? := Function.update x.position? r.txid (some pos) }
  let spent := r.tx.inputs.zipIdx.foldl (addInput r.txid) known
  r.tx.outputs.zipIdx.foldl (addOutput r.txid) spent

/-- The index of a list of records, made from the first to the last. -/
def ofRecords (rs : List Record) : Index :=
  rs.zipIdx.foldl (fun x (r, pos) => x.add pos r) {}

variable {id : TxId} {pos : Nat}

/-! ## Adding the inputs and the outputs of a transaction -/

/-- What no entry changes is the same after all of them. -/
theorem foldl_keeps {α β : Type} (part : Index → β) {add : Index → α → Index}
    (h : ∀ x a, part (add x a) = part x) (x : Index) (as : List α) :
    part (as.foldl add x) = part x := by
  induction as generalizing x with
  | nil => rfl
  | cons a as ih => exact (ih (add x a)).trans (h x a)

section
variable (x : Index) (id : TxId) (is : List (Input × Nat)) (os : List (Output × Nat))

theorem position?_foldl_addInput : (is.foldl (addInput id) x).position? = x.position? := by
  refine foldl_keeps position? (fun x i => ?_) x is
  rfl

theorem outpointsAt_foldl_addInput : (is.foldl (addInput id) x).outpointsAt = x.outpointsAt := by
  refine foldl_keeps outpointsAt (fun x i => ?_) x is
  rfl

/-- Of the inputs that spend an output the last one is kept. -/
theorem spentBy?_foldl_addInput (o : Outpoint) :
    (is.foldl (addInput id) x).spentBy? o =
      (is.findSomeRev? fun (i, vin) => if i.prevout = o then some (id, vin) else none).or
        (x.spentBy? o) := by
  rw [List.findSomeRev?_eq_findSome?_reverse]
  induction is generalizing x with
  | nil => rfl
  | cons i is ih =>
    rw [List.foldl_cons, ih, List.reverse_cons, List.findSome?_append, Option.or_assoc, addInput]
    congr 1
    by_cases ho : i.1.prevout = o
    · simp [← ho]
    · simp [ho, Function.update_of_ne (Ne.symm ho)]

theorem position?_foldl_addOutput : (os.foldl (addOutput id) x).position? = x.position? := by
  refine foldl_keeps position? (fun x o => ?_) x os
  rw [addOutput]
  split <;> rfl

theorem spentBy?_foldl_addOutput : (os.foldl (addOutput id) x).spentBy? = x.spentBy? := by
  refine foldl_keeps spentBy? (fun x o => ?_) x os
  rw [addOutput]
  split <;> rfl

/-- Outputs that are added are found at their addresses, behind those there. -/
theorem outpointsAt_foldl_addOutput (a : Address) :
    (os.foldl (addOutput id) x).outpointsAt a =
      x.outpointsAt a ++ os.filterMap fun (o, vout) =>
        if Address.ofLock? o.lock = some a then some ⟨id, UInt32.ofNat vout⟩ else none := by
  induction os generalizing x with
  | nil => exact (List.append_nil _).symm
  | cons o os ih =>
    rw [List.foldl_cons, ih, addOutput]
    cases h : Address.ofLock? o.1.lock with
    | none => simp [h]
    | some b =>
      by_cases hb : b = a
      · subst hb
        simp [h]
      · simp [h, hb, Function.update_of_ne (Ne.symm hb)]

end

/-! ## Adding a record -/

theorem position?_add (x : Index) (pos : Nat) (r : Record) :
    (x.add pos r).position? = Function.update x.position? r.txid (some pos) := by
  rw [add, position?_foldl_addOutput, position?_foldl_addInput]

/-- With a record its inputs are found first, from the last one on. -/
theorem spentBy?_add (x : Index) (pos : Nat) (r : Record) (o : Outpoint) :
    (x.add pos r).spentBy? o =
      (r.tx.inputs.zipIdx.findSomeRev? fun (i, vin) =>
        if i.prevout = o then some (r.txid, vin) else none).or (x.spentBy? o) := by
  rw [add, spentBy?_foldl_addOutput, spentBy?_foldl_addInput]

/-- With a record its outputs are found at their addresses, behind those there. -/
theorem outpointsAt_add (x : Index) (pos : Nat) (r : Record) (a : Address) :
    (x.add pos r).outpointsAt a =
      x.outpointsAt a ++ r.tx.outputs.zipIdx.filterMap fun (o, vout) =>
        if Address.ofLock? o.lock = some a then some ⟨r.txid, UInt32.ofNat vout⟩ else none := by
  rw [add, outpointsAt_foldl_addOutput, outpointsAt_foldl_addInput]

/-- The index of records is that of all but the last one, with the last one added. -/
theorem ofRecords_concat (rs : List Record) (r : Record) :
    ofRecords (rs ++ [r]) = (ofRecords rs).add rs.length r := by
  rw [ofRecords, List.zipIdx_append, List.foldl_append]
  simp [ofRecords]

/-- A position that is found is one in the list of records. -/
theorem lt_length_of_position? {rs : List Record} (h : (ofRecords rs).position? id = some pos) :
    pos < rs.length := by
  induction rs using List.reverseRecOn with
  | nil => cases h
  | append_singleton rs r ih =>
    rw [ofRecords_concat, position?_add, Function.update_apply] at h
    rw [List.length_append, List.length_singleton, Nat.lt_succ_iff]
    split at h
    · exact Nat.le_of_eq (Option.some.inj h).symm
    · exact Nat.le_of_lt (ih h)

end Index

namespace Ledger

variable {l : Ledger} {id : TxId} {pos : Nat}

/-- The index of the records. -/
def index (l : Ledger) : Index :=
  Index.ofRecords l.records

/-! ## The index answers as the records do -/

/-- The record at the position of an id is what a search for it finds. -/
theorem record?_eq_position? (l : Ledger) (id : TxId) :
    l.record? id = (l.index.position? id).bind (l.records[·]?) := by
  rw [record?, index]
  induction l.records using List.reverseRecOn with
  | nil => rfl
  | append_singleton rs r ih =>
    rw [List.findRev?_eq_find?_reverse] at ih ⊢
    rw [List.reverse_append, List.reverse_singleton, List.singleton_append, List.find?_cons,
      Index.ofRecords_concat, Index.position?_add, Function.update_apply]
    by_cases h : id = r.txid
    · simp [h]
    · rw [if_neg h, decide_eq_false (Ne.symm h), ih]
      -- The last record is beyond the position of any other.
      refine Option.bind_congr fun pos hpos => ?_
      rw [List.getElem?_append_left (Index.lt_length_of_position? hpos)]

theorem index_spentBy? (l : Ledger) (o : Outpoint) : l.index.spentBy? o = l.spentBy? o := by
  rw [spentBy?, index, List.findSomeRev?_eq_findSome?_reverse]
  induction l.records using List.reverseRecOn with
  | nil => rfl
  | append_singleton rs r ih =>
    rw [Index.ofRecords_concat, Index.spentBy?_add, ih, List.reverse_append,
      List.reverse_singleton, List.singleton_append, List.findSome?_cons]
    split <;> next h => rw [h]; rfl

theorem index_outpointsAt (l : Ledger) (a : Address) :
    l.index.outpointsAt a = l.outpointsAt a := by
  rw [outpointsAt, index]
  induction l.records using List.reverseRecOn with
  | nil => rfl
  | append_singleton rs r ih =>
    rw [Index.ofRecords_concat, Index.outpointsAt_add, ih, List.flatMap_append,
      List.flatMap_singleton]

/-- In a sound ledger no two positions have the same id. -/
theorem Sound.position_unique (hl : l.Sound) {r s : Record} {pos' : Nat}
    (hr : l.records[pos]? = some r) (hs : l.records[pos']? = some s) (hid : r.txid = s.txid) :
    pos = pos' := by
  have hlt : pos < (l.records.map Record.txid).length := by
    rw [List.length_map]
    exact (List.getElem?_eq_some_iff.1 hr).1
  refine (List.getElem?_inj hlt hl.nodup_txids).1 ?_
  rw [List.getElem?_map, List.getElem?_map, hr, hs, Option.map_some, Option.map_some, hid]

/-- In a sound ledger the index has every id at its one position. -/
theorem Sound.index_position?_eq_some_iff (hl : l.Sound) :
    l.index.position? id = some pos ↔ ∃ r, l.records[pos]? = some r ∧ r.txid = id := by
  have hfound := l.record?_eq_position? id
  constructor
  · intro h
    have hpos := List.getElem?_eq_getElem (Index.lt_length_of_position? h)
    rw [h, Option.bind_some, hpos] at hfound
    exact ⟨_, hpos, (mem_of_record? hfound).2⟩
  · rintro ⟨r, hr, hid⟩
    rw [hl.record?_eq_some_iff.2 ⟨List.mem_of_getElem? hr, hid⟩, eq_comm,
      Option.bind_eq_some_iff] at hfound
    obtain ⟨pos', hpos', hr'⟩ := hfound
    rw [hpos', hl.position_unique hr' hr rfl]

/-! ## The index grows with the records -/

/-- With a new transaction the index changes as if it were made anew. -/
theorem index_insert (l : Ledger) (tx : Transaction) :
    (l.insert tx).index = l.index.add l.records.length ⟨tx.txid, tx, none⟩ :=
  Index.ofRecords_concat l.records _

/-- A block does not change the index. -/
theorem index_mine (l : Ledger) : l.mine.index = l.index := by
  rw [index, Index.ofRecords, records_mine, List.zipIdx_map, List.foldl_map]
  rfl

end Ledger

end Escrow
