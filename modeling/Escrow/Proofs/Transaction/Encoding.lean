import Escrow.Proofs.Wire.Reading
import Escrow.Transaction

/-!
# Transactions and their bytes

A transaction is read from the bytes that it is written in, and from no others.
Every tag and flag, every count and every length has one form, and what is read is
written in the same order; so the readers are opened one after the other, from
locks to whole transactions (`Lock.read_eq_ok_iff`, `Input.read_eq_ok_iff`,
`Output.read_eq_ok_iff`, `Transaction.read_eq_ok_iff`).

The counts of inputs, outputs and keys are compared with the bytes that are left
before anything is counted out. This refuses nothing that was written, as each of
them takes at least as many bytes as the comparison supposes
(`Input.le_length_wire`, `Output.le_length_wire`).
-/

namespace Escrow

/-! ## Locks -/

/-- The count of the keys, or the length of the data, can be written. -/
def Lock.Fits : Lock → Prop
  | .key _ => True
  | .condition c => c.keys.length < Wire.sizeLimit
  | .data d => d.length < Wire.sizeLimit

theorem PublicKey.length_bytes (k : PublicKey) : k.bytes.length = 32 :=
  k.octets.length_eq

section
variable {field : String} {bs rest : Bytes}

theorem Lock.readKey_eq_ok_iff {k : PublicKey} :
    Lock.readKey field bs = .ok k rest ↔ bs = k.bytes ++ rest := by
  rw [Lock.readKey, Reader.map_eq_ok_iff]
  simp only [Reader.octets_eq_ok_iff]
  exact ⟨by rintro ⟨o, rfl, rfl⟩; rfl, fun h => ⟨k.octets, h, rfl⟩⟩

/-- The keys of a condition are read after their count. -/
theorem Lock.readKeys_eq_ok_iff {keys : List PublicKey} :
    (∃ n mid, Reader.count "condition keys" 32 bs = .ok n mid ∧
        Reader.times (readKey "condition key") n mid = .ok keys rest) ↔
      keys.length < Wire.sizeLimit ∧
        bs = Wire.compactSize keys.length ++ (keys.flatMap PublicKey.bytes ++ rest) := by
  have hread : ∀ {bs k rest}, readKey "condition key" bs = .ok k rest ↔
      True ∧ bs = k.bytes ++ rest := by
    simp [readKey_eq_ok_iff]
  have hlength : ∀ k : PublicKey, 32 ≤ k.bytes.length := fun k => Nat.le_of_eq k.length_bytes.symm
  rw [Reader.count_times_eq_ok_iff hread (by decide) hlength]
  simp

/-- A lock is read from what is written of it. -/
theorem Lock.read_eq_ok_iff {lock : Lock} :
    Lock.read bs = .ok lock rest ↔ lock.Fits ∧ bs = lock.wire ++ rest := by
  rw [Lock.read, Reader.bind_eq_ok_iff]
  simp only [Reader.byte_eq_ok_iff]
  constructor
  · rintro ⟨tag, mid, rfl, h⟩
    split at h
    · rename_i htag
      simp only [Reader.bind_eq_ok_iff, readKey_eq_ok_iff, Reader.pure_eq_ok_iff] at h
      obtain ⟨k, _, rfl, rfl, rfl⟩ := h
      exact ⟨trivial, by rw [htag]; rfl⟩
    split at h
    · rename_i htag
      simp only [Reader.bind_eq_ok_iff, Reader.byte_eq_ok_iff, Reader.pure_eq_ok_iff] at h
      obtain ⟨code, _, rfl, threshold, _, rfl, n, _, hn, keys, _, hkeys, rfl, rfl⟩ := h
      obtain ⟨hfits, rfl⟩ := readKeys_eq_ok_iff.1 ⟨n, _, hn, hkeys⟩
      exact ⟨hfits, by rw [htag, Lock.wire]; simp only [List.cons_append, List.append_assoc]⟩
    split at h
    · rename_i htag
      simp only [Reader.bind_eq_ok_iff, Reader.varBytes_eq_ok_iff, Reader.pure_eq_ok_iff] at h
      obtain ⟨d, _, ⟨hfits, rfl⟩, rfl, rfl⟩ := h
      exact ⟨hfits, by rw [htag]; rfl⟩
    · exact absurd h Reader.throw_ne_ok
  · rintro ⟨hfits, rfl⟩
    -- Each type has its tag.
    rcases lock with k | c | d
    · refine ⟨0, _, rfl, ?_⟩
      rw [if_pos rfl]
      simp only [Reader.bind_eq_ok_iff, readKey_eq_ok_iff, Reader.pure_eq_ok_iff]
      exact ⟨k, rest, rfl, rfl, rfl⟩
    · obtain ⟨n, mid, hn, hkeys⟩ := (@readKeys_eq_ok_iff _ rest c.keys).2 ⟨hfits, rfl⟩
      refine ⟨1, _, by simp only [Lock.wire, List.cons_append, List.append_assoc]; rfl, ?_⟩
      rw [if_neg (by decide), if_pos rfl]
      simp only [Reader.bind_eq_ok_iff, Reader.byte_eq_ok_iff, Reader.pure_eq_ok_iff]
      exact ⟨c.evalCode, _, rfl, c.threshold, _, rfl, n, mid, hn, c.keys, rest, hkeys, rfl, rfl⟩
    · refine ⟨2, _, rfl, ?_⟩
      rw [if_neg (by decide), if_neg (by decide), if_pos rfl]
      simp only [Reader.bind_eq_ok_iff, Reader.varBytes_eq_ok_iff, Reader.pure_eq_ok_iff]
      exact ⟨d, rest, ⟨hfits, rfl⟩, rfl, rfl⟩

theorem Lock.two_le_length_wire (lock : Lock) : 2 ≤ lock.wire.length := by
  rcases lock with k | c | d
  · rw [Lock.wire, List.length_cons, k.length_bytes]
    decide
  · simp only [Lock.wire, List.cons_append, List.length_cons]
    omega
  · rw [Lock.wire, List.length_cons]
    exact Nat.succ_le_succ (Wire.length_varBytes_pos d)

/-! ## Inputs and outputs -/

/-- The bytes of a witness that may be left out, after a flag for whether it is. -/
def Witness.wire : Option Witness → Bytes
  | some w => 1 :: w.key.bytes ++ w.signature.bytes
  | none => [0]

/-- A witness, or none, is read from what is written of it. -/
theorem Input.readWitness_eq_ok_iff {w : Option Witness} :
    Input.readWitness bs = .ok w rest ↔ bs = Witness.wire w ++ rest := by
  rw [Input.readWitness, Reader.bind_eq_ok_iff]
  simp only [Reader.byte_eq_ok_iff]
  constructor
  · rintro ⟨flag, mid, rfl, h⟩
    -- A flag says whether there is a witness.
    split at h
    · rename_i hflag
      obtain ⟨rfl, rfl⟩ := Reader.pure_eq_ok_iff.1 h
      rw [hflag]
      rfl
    split at h
    · rename_i hflag
      simp only [Reader.bind_eq_ok_iff, Lock.readKey_eq_ok_iff, Reader.octets_eq_ok_iff,
        Reader.pure_eq_ok_iff] at h
      obtain ⟨k, _, rfl, signature, _, rfl, rfl, rfl⟩ := h
      rw [hflag, Witness.wire, List.append_assoc, List.cons_append]
      rfl
    · exact absurd h Reader.throw_ne_ok
  · rintro rfl
    rcases w with _ | ⟨k, signature⟩
    · exact ⟨0, rest, rfl, Reader.pure_eq_ok_iff.2 ⟨rfl, rfl⟩⟩
    · refine ⟨1, _, rfl, ?_⟩
      rw [if_neg (by decide), if_pos rfl]
      simp only [Reader.bind_eq_ok_iff, Lock.readKey_eq_ok_iff, Reader.octets_eq_ok_iff,
        Reader.pure_eq_ok_iff]
      exact ⟨k, _, List.append_assoc .., signature.octets, rest, rfl, rfl, rfl⟩

theorem Input.wire_true (i : Input) :
    i.wire true =
      i.prevout.txid.bytes ++ Wire.word i.prevout.vout ++ Witness.wire i.witness := by
  rcases i with ⟨o, _ | w⟩
  · rfl
  · rfl

theorem Input.read_eq_ok_iff {i : Input} :
    Input.read bs = .ok i rest ↔ bs = i.wire true ++ rest := by
  simp only [Input.read, Reader.bind_eq_ok_iff, Reader.octets_eq_ok_iff, Reader.word_eq_ok_iff,
    Input.readWitness_eq_ok_iff, Reader.pure_eq_ok_iff, Input.wire_true, List.append_assoc]
  constructor
  · rintro ⟨id, _, rfl, vout, _, rfl, w, _, rfl, rfl, rfl⟩
    rfl
  · rintro rfl
    exact ⟨i.prevout.txid.octets, _, rfl, i.prevout.vout, _, rfl, i.witness, rest, rfl, rfl, rfl⟩

/-- An input takes an id, a position and at least the flag of its witness. -/
theorem Input.le_length_wire (i : Input) : 37 ≤ (i.wire true).length := by
  rw [Input.wire_true, List.length_append, List.length_append, TxId.bytes,
    i.prevout.txid.octets.length_eq, Wire.word, Bytes.length_littleEndian]
  cases i.witness with
  | none => decide
  | some w =>
    rw [Witness.wire, List.cons_append, List.length_cons]
    omega

theorem Output.read_eq_ok_iff {o : Output} :
    Output.read bs = .ok o rest ↔ o.lock.Fits ∧ bs = o.wire ++ rest := by
  simp only [Output.read, Reader.bind_eq_ok_iff, Reader.signed_eq_ok_iff, Lock.read_eq_ok_iff,
    Reader.pure_eq_ok_iff, Output.wire, List.append_assoc]
  constructor
  · rintro ⟨value, _, rfl, lock, _, ⟨hfits, rfl⟩, rfl, rfl⟩
    exact ⟨hfits, rfl⟩
  · rintro ⟨hfits, rfl⟩
    exact ⟨o.value, _, rfl, o.lock, rest, ⟨hfits, rfl⟩, rfl, rfl⟩

/-- An output takes a value and a lock. -/
theorem Output.le_length_wire (o : Output) : 10 ≤ o.wire.length := by
  rw [Output.wire, List.length_append, Wire.signed, Bytes.length_littleEndian]
  exact Nat.add_le_add_left o.lock.two_le_length_wire 8

end

/-! ## Whole transactions -/

namespace Transaction

/-- Every count and length in a transaction can be written. -/
structure Fits (tx : Transaction) : Prop where
  inputs : tx.inputs.length < Wire.sizeLimit
  outputs : tx.outputs.length < Wire.sizeLimit
  locks : ∀ out ∈ tx.outputs, out.lock.Fits

variable {bs rest : Bytes} {tx : Transaction}

/-- The inputs are read with their count, as each takes 37 bytes or more. -/
theorem readInputs_eq_ok_iff {inputs : List Input} :
    (∃ n mid, Reader.count "tx inputs" 37 bs = .ok n mid ∧
        Reader.times Input.read n mid = .ok inputs rest) ↔
      inputs.length < Wire.sizeLimit ∧
        bs = Wire.compactSize inputs.length ++ (inputs.flatMap (Input.wire true) ++ rest) := by
  have hread : ∀ {bs i rest}, Input.read bs = .ok i rest ↔ True ∧ bs = i.wire true ++ rest := by
    simp [Input.read_eq_ok_iff]
  rw [Reader.count_times_eq_ok_iff hread (by decide) Input.le_length_wire]
  simp

/-- The outputs are read with their count, as each takes ten bytes or more. -/
theorem readOutputs_eq_ok_iff {outputs : List Output} :
    (∃ n mid, Reader.count "tx outputs" 10 bs = .ok n mid ∧
        Reader.times Output.read n mid = .ok outputs rest) ↔
      (outputs.length < Wire.sizeLimit ∧ ∀ out ∈ outputs, out.lock.Fits) ∧
        bs = Wire.compactSize outputs.length ++ (outputs.flatMap Output.wire ++ rest) :=
  Reader.count_times_eq_ok_iff Output.read_eq_ok_iff (by decide) Output.le_length_wire

/-- A transaction is read from what is written of it, whatever follows. -/
theorem read_eq_ok_iff : read bs = .ok tx rest ↔ tx.Fits ∧ bs = tx.bytes ++ rest := by
  simp only [read, Reader.bind_eq_ok_iff, Reader.word_eq_ok_iff, Reader.pure_eq_ok_iff]
  constructor
  · rintro ⟨version, _, rfl, n, _, hn, inputs, _, hin, m, _, hm, outputs, _, hout, lockTime, _,
      rfl, rfl, rfl⟩
    obtain ⟨hinputs, rfl⟩ := readInputs_eq_ok_iff.1 ⟨n, _, hn, hin⟩
    obtain ⟨⟨houtputs, hlocks⟩, rfl⟩ := readOutputs_eq_ok_iff.1 ⟨m, _, hm, hout⟩
    exact ⟨⟨hinputs, houtputs, hlocks⟩, by simp only [bytes, wire, List.append_assoc]⟩
  · rintro ⟨hfits, rfl⟩
    obtain ⟨m, _, hm, hout⟩ := (@readOutputs_eq_ok_iff _ (Wire.word tx.lockTime ++ rest)
      tx.outputs).2 ⟨⟨hfits.outputs, hfits.locks⟩, rfl⟩
    obtain ⟨n, _, hn, hin⟩ := readInputs_eq_ok_iff.2 ⟨hfits.inputs, rfl⟩
    exact ⟨tx.version, _, by simp only [bytes, wire, List.append_assoc], n, _, hn, tx.inputs, _,
      hin, m, _, hm, tx.outputs, _, hout, tx.lockTime, rest, rfl, rfl, rfl⟩

/-- A transaction has counts and lengths that can be written if all its bytes
    together have one. -/
theorem fits_of_bytes (hlen : tx.bytes.length < Wire.sizeLimit) : tx.Fits := by
  simp only [bytes, wire, List.length_append] at hlen
  have hin := Wire.mul_length_le_flatMap Input.le_length_wire tx.inputs
  have hout := Wire.mul_length_le_flatMap Output.le_length_wire tx.outputs
  refine ⟨by omega, by omega, fun out hmem => ?_⟩
  have hwritten : out.wire.length ≤ (tx.outputs.flatMap Output.wire).length :=
    Wire.length_le_flatMap hmem
  rw [Output.wire, List.length_append] at hwritten
  -- What is counted in a lock is part of its bytes.
  rcases hlock : out.lock with k | c | d <;> rw [hlock] at hwritten
  · trivial
  · have hkeys := Wire.mul_length_le_flatMap (fun k : PublicKey => Nat.le_of_eq k.length_bytes.symm)
      c.keys
    simp only [Lock.wire, List.cons_append, List.length_cons, List.length_append] at hwritten
    change c.keys.length < Wire.sizeLimit
    omega
  · simp only [Lock.wire, Wire.varBytes, List.length_cons, List.length_append] at hwritten
    change d.length < Wire.sizeLimit
    omega

theorem ofBytes_eq_ok_iff : ofBytes bs = .ok tx ↔ tx.Fits ∧ bs = tx.bytes := by
  rw [ofBytes, Reader.decode_eq_ok_iff, read_eq_ok_iff, List.append_nil]

/-- Reading and writing are inverse to each other between the strings of bytes that
    are transactions and all transactions: a string of bytes stands for the
    transaction that is written as it, every transaction is read back as it was,
    and no two strings stand for the same one. The length of the string is below
    2^64, as that of any string of bytes that is held in a memory addressed by
    64 bits. -/
theorem ofBytes_iff_bytes :
    (∀ bs tx, bs.length < Wire.sizeLimit → (ofBytes bs = .ok tx ↔ tx.bytes = bs)) ∧
    (∀ tx : Transaction, tx.bytes.length < Wire.sizeLimit → ofBytes tx.bytes = .ok tx) ∧
    ∀ bs bs' tx, ofBytes bs = .ok tx → ofBytes bs' = .ok tx → bs = bs' := by
  refine ⟨fun bs tx hlen => ?_, fun tx hlen => ?_, fun bs bs' tx h h' => ?_⟩
  · rw [ofBytes_eq_ok_iff]
    refine ⟨fun ⟨_, hbs⟩ => hbs.symm, ?_⟩
    rintro rfl
    exact ⟨fits_of_bytes hlen, rfl⟩
  · exact ofBytes_eq_ok_iff.2 ⟨fits_of_bytes hlen, rfl⟩
  · rw [(ofBytes_eq_ok_iff.1 h).2, (ofBytes_eq_ok_iff.1 h').2]

/-- A transaction with a signed and an unsigned input and a lock of each kind. One
    condition has no keys and the other more than a single byte can count. -/
def assorted : Transaction where
  version := 0xffffffff
  inputs := [⟨⟨⟨.fill 32 7⟩, 0xffffffff⟩, some ⟨⟨.fill 32 1⟩, ⟨.fill 64 0xfd⟩⟩⟩,
    ⟨⟨.null, 0⟩, none⟩]
  outputs := [⟨Int64.minValue, .key ⟨.fill 32 2⟩⟩,
    ⟨-1, .condition ⟨0xf8, 3, []⟩⟩,
    ⟨Int64.maxValue, .condition ⟨0, 0, List.replicate 253 ⟨.fill 32 3⟩⟩⟩,
    ⟨0, .data []⟩]
  lockTime := 0x80000000

/-- It is read back from the bytes it is written in. -/
theorem ofBytes_assorted :
    assorted.bytes.length < Wire.sizeLimit ∧ ofBytes assorted.bytes = .ok assorted := by
  have hlen : assorted.bytes.length < Wire.sizeLimit := by decide +kernel
  exact ⟨hlen, (ofBytes_iff_bytes.1 _ _ hlen).2 rfl⟩

end Transaction

end Escrow
