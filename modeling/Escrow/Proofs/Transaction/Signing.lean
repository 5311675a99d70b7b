import Escrow.Ledger
import Escrow.Proofs.Ledger.Records
import Escrow.Proofs.Wire.Reading

/-!
# Signing

To sign an input is to give it a witness. The id of a transaction and what is
signed for each of its inputs are made from its bytes without witnesses, which are
those of the transaction without them (`wire_unsigned`). So inputs may be signed in
any order, also with several keys, and each has the witness that it would have if
it alone were signed (`getElem?_foldl_signInput`, `getElem?_inputs_signBy`).

Of what is recorded, signing needs only the outputs spent. So it may be done by anyone
who sees them (`signBy`), as it is with those of a ledger (`signWith_eq_signBy`).

The bytes without witnesses show the first outpoint that a transaction spends
(`head?_spends_eq_of_wire_eq`). So transactions that spend different outputs first
have different ids, as long as no two strings of bytes with one hash are found.
-/

namespace Escrow

/-- The signature of a digest holds. -/
def KeyPair.Signs (k : KeyPair) (digest : Digest32) : Prop :=
  k.publicKey.verify digest (k.sign digest) = .ok ()

/-- Only under a key that is a point does a signature hold. -/
theorem PublicKey.isValid_of_verify {k : PublicKey} {digest : Digest32} {signature : Signature}
    (h : k.verify digest signature = .ok ()) : k.isValid := by
  rw [isValid, Option.isSome_iff_ne_none]
  intro hnone
  -- Unfolded before it is applied: nothing may evaluate `decode?` at a key that is a variable.
  conv at h =>
    lhs
    fun
    fun
    fun
    delta verify
  rw [hnone] at h
  cases h

/-- The witness of a key pair for a digest. -/
def KeyPair.witness (k : KeyPair) (digest : Digest32) : Witness :=
  ⟨k.publicKey, k.sign digest⟩

/-- Whether an input has no witness and a key may sign for it, as far as the output that
    it spends is seen. -/
def Input.awaits (see : Outpoint → Option Output) (key : PublicKey) (i : Input) : Bool :=
  i.witness.isNone && (see i.prevout).any (·.lock.authorizes key)

namespace Transaction

/-- Signs with a key every input that waits for it. Also says how many those are. -/
def signBy (tx : Transaction) (see : Outpoint → Option Output) (k : KeyPair) :
    Transaction × Nat :=
  let mine := tx.inputs.zipIdx.filterMap fun (i, vin) =>
    if i.awaits see k.publicKey then some vin else none
  (mine.foldl (fun tx vin => tx.signInput vin k) tx, mine.length)

variable {tx tx' : Transaction} {vin : Nat} {k : KeyPair}

/-! ## What signing leaves as it is -/

/-- The bytes without witnesses are those of the unsigned transaction. -/
theorem wire_unsigned (tx : Transaction) : tx.unsigned.wire false = tx.wire false := by
  have hinput : ∀ i : Input, Input.wire false { i with witness := none } = Input.wire false i := by
    rintro ⟨prevout, _ | w⟩ <;> rfl
  simp only [wire, unsigned, List.length_map, List.flatMap_map, hinput]

theorem wire_eq_of_unsigned (h : tx.unsigned = tx'.unsigned) : tx.wire false = tx'.wire false := by
  rw [← wire_unsigned tx, h, wire_unsigned]

theorem txid_eq_of_unsigned (h : tx.unsigned = tx'.unsigned) : tx.txid = tx'.txid := by
  rw [txid, txid, wire_eq_of_unsigned h]

theorem sighash_eq_of_unsigned (h : tx.unsigned = tx'.unsigned) (vin : Nat) :
    tx.sighash vin = tx'.sighash vin := by
  rw [sighash, sighash, wire_eq_of_unsigned h]

theorem spends_eq_of_unsigned (h : tx.unsigned = tx'.unsigned) : tx.spends = tx'.spends := by
  have hspends : ∀ tx : Transaction, tx.unsigned.spends = tx.spends := fun tx => by
    simp only [spends, unsigned, List.map_map, Function.comp_def]
  rw [← hspends tx, h, hspends]

theorem outputs_eq_of_unsigned (h : tx.unsigned = tx'.unsigned) : tx.outputs = tx'.outputs :=
  (mk.inj h).2.2.1

/-- To sign an input changes its witness, and no other input. -/
theorem getElem?_inputs_signInput (tx : Transaction) (vin : Nat) (k : KeyPair) (n : Nat) :
    (tx.signInput vin k).inputs[n]? =
      tx.inputs[n]?.map fun i =>
        if vin = n then { i with witness := some (k.witness (tx.sighash n)) } else i := by
  rw [signInput, List.getElem?_modify, Option.map_eq_map]
  refine Option.map_congr fun i _ => ?_
  split
  · rename_i hn
    rw [hn, KeyPair.witness]
  · rfl

@[simp] theorem unsigned_signInput (tx : Transaction) (vin : Nat) (k : KeyPair) :
    (tx.signInput vin k).unsigned = tx.unsigned := by
  rw [unsigned, unsigned, mk.injEq]
  refine ⟨rfl, List.ext_getElem? fun n => ?_, rfl, rfl⟩
  rw [List.getElem?_map, List.getElem?_map, getElem?_inputs_signInput, Option.map_map]
  refine Option.map_congr fun i _ => ?_
  rw [Function.comp_apply]
  split <;> rfl

/-! ## Signing several inputs -/

theorem unsigned_foldl_signInput (vins : List Nat) (tx : Transaction) (k : KeyPair) :
    (vins.foldl (fun tx vin => tx.signInput vin k) tx).unsigned = tx.unsigned := by
  induction vins generalizing tx with
  | nil => rfl
  | cons vin vins ih => rw [List.foldl_cons, ih, unsigned_signInput]

/-- Each of the inputs to be signed gets a witness. -/
theorem getElem?_foldl_signInput (vins : List Nat) (tx : Transaction) (k : KeyPair) (n : Nat) :
    (vins.foldl (fun tx vin => tx.signInput vin k) tx).inputs[n]? =
      tx.inputs[n]?.map fun i =>
        if n ∈ vins then { i with witness := some (k.witness (tx.sighash n)) } else i := by
  induction vins generalizing tx with
  | nil => simp
  | cons vin vins ih =>
    -- What is signed for an input does not depend on those signed before.
    have hdigest := sighash_eq_of_unsigned (unsigned_signInput tx vin k) n
    rw [List.foldl_cons, ih, hdigest, getElem?_inputs_signInput, Option.map_map]
    refine Option.map_congr fun i _ => ?_
    rw [Function.comp_apply]
    by_cases hn : vin = n
    · subst hn
      simp
    · have hn' : n ≠ vin := fun h => hn h.symm
      simp [hn, hn']

theorem unsigned_signBy (tx : Transaction) (see : Outpoint → Option Output) (k : KeyPair) :
    (tx.signBy see k).1.unsigned = tx.unsigned :=
  unsigned_foldl_signInput ..

/-- A key signs the inputs that wait for it, and no others. -/
theorem getElem?_inputs_signBy (tx : Transaction) (see : Outpoint → Option Output) (k : KeyPair)
    (n : Nat) :
    (tx.signBy see k).1.inputs[n]? =
      tx.inputs[n]?.map fun i =>
        if i.awaits see k.publicKey then { i with witness := some (k.witness (tx.sighash n)) }
        else i := by
  rw [signBy, getElem?_foldl_signInput]
  refine Option.map_congr fun i hi => ?_
  -- The input at `n` is signed if it is one of those that the key may sign for.
  refine if_congr ?_ rfl rfl
  simp only [List.mem_filterMap, Prod.exists, List.mk_mem_zipIdx_iff_getElem?,
    Option.ite_none_right_eq_some, Option.some.injEq]
  constructor
  · rintro ⟨i', _, hi', hp, rfl⟩
    cases hi.symm.trans hi'
    exact hp
  · intro hp
    exact ⟨i, n, hi, hp, rfl⟩

/-- As many inputs are signed as wait for the key. -/
theorem signBy_snd (tx : Transaction) (see : Outpoint → Option Output) (k : KeyPair) :
    (tx.signBy see k).2 = tx.inputs.countP (·.awaits see k.publicKey) := by
  have hsome : ∀ p : Input × Nat,
      (if p.1.awaits see k.publicKey then some p.2 else none).isSome =
        p.1.awaits see k.publicKey := fun p => by
    split <;> simp_all
  have hinputs : tx.inputs.countP (·.awaits see k.publicKey) =
      (tx.inputs.zipIdx.map Prod.fst).countP (·.awaits see k.publicKey) := by
    rw [List.zipIdx_map_fst]
  rw [hinputs, List.countP_map, signBy, List.length_filterMap_eq_countP]
  exact List.countP_congr fun p _ => by rw [hsome, Function.comp_apply]

/-- A ledger shows the outputs of its records. -/
theorem signWith_eq_signBy (tx : Transaction) (l : Ledger) (k : KeyPair) :
    tx.signWith l k = tx.signBy l.prevout? k := rfl

theorem unsigned_signWith (tx : Transaction) (l : Ledger) (k : KeyPair) :
    (tx.signWith l k).1.unsigned = tx.unsigned :=
  tx.unsigned_signBy l.prevout? k

/-- On a ledger the inputs wait for a key that have no witness and a lock that allows the
    key. -/
theorem getElem?_inputs_signWith (tx : Transaction) (l : Ledger) (k : KeyPair) (n : Nat) :
    (tx.signWith l k).1.inputs[n]? =
      tx.inputs[n]?.map fun i =>
        if i.witness.isNone && (l.prevout? i.prevout).any (·.lock.authorizes k.publicKey) then
          { i with witness := some (k.witness (tx.sighash n)) }
        else i :=
  tx.getElem?_inputs_signBy l.prevout? k n

/-! ## What the bytes show -/

/-- The bytes of an input show the outpoint, whatever follows them. -/
theorem prevout_eq_of_wire_append {i i' : Input} {bs bs' : Bytes}
    (h : i.wire false ++ bs = i'.wire false ++ bs') : i.prevout = i'.prevout := by
  have hwitness : ∀ i : Input, i.wire false =
      i.prevout.txid.bytes ++ (Wire.word i.prevout.vout ++ [0]) := by
    rintro ⟨prevout, _ | w⟩ <;> exact List.append_assoc ..
  rw [hwitness, hwitness, List.append_assoc, List.append_assoc, List.append_assoc,
    List.append_assoc] at h
  have hlength : i.prevout.txid.bytes.length = i'.prevout.txid.bytes.length :=
    i.prevout.txid.octets.length_eq.trans i'.prevout.txid.octets.length_eq.symm
  obtain ⟨hid, h⟩ := List.append_inj h hlength
  obtain ⟨hvout, -⟩ := List.append_inj h
    ((Bytes.length_littleEndian ..).trans (Bytes.length_littleEndian ..).symm)
  exact Outpoint.ext (TxId.ext (Octets.ext hid)) (Wire.word_inj hvout)

/-- Transactions of the same bytes spend the same output first. -/
theorem head?_spends_eq_of_wire_eq (h : tx.wire false = tx'.wire false) :
    tx.spends.head? = tx'.spends.head? := by
  simp only [wire, List.append_assoc] at h
  obtain ⟨-, h⟩ := List.append_inj h
    ((Bytes.length_littleEndian ..).trans (Bytes.length_littleEndian ..).symm)
  obtain ⟨hzero, h⟩ := Wire.compactSize_append_inj h
  rw [List.length_eq_zero_iff, List.length_eq_zero_iff] at hzero
  rw [spends, spends]
  -- The count says whether there is a first input.
  rcases hi : tx.inputs with _ | ⟨i, is⟩
  · rw [hzero.1 hi]
  · rcases hi' : tx'.inputs with _ | ⟨i', is'⟩
    · rw [hzero.2 hi'] at hi
      exact absurd hi.symm (List.cons_ne_nil i is)
    · rw [hi, hi', List.flatMap_cons, List.flatMap_cons, List.append_assoc,
        List.append_assoc] at h
      rw [List.map_cons, List.map_cons, List.head?_cons, List.head?_cons,
        prevout_eq_of_wire_append h]

end Transaction

end Escrow
