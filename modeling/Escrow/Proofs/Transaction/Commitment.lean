import Escrow.Proofs.Transaction.Encoding
import Escrow.Proofs.Transaction.Signing

/-!
# What ids and signatures commit to

What is hashed for the id of a transaction are its bytes without witnesses, and what is
hashed to sign for an input are these bytes between a fixed text and the position of the
input (`signedBytes`). Both show everything but the witnesses: the bytes without
witnesses are those of the transaction without them (`wire_false`), from which it is
read back, and the position always takes four bytes at the end.

So transactions have the same id if and only if they differ by witnesses only, or a
*collision* of the hash is found: two strings of bytes with one hash. The same holds of
what is signed, which is for one position only besides.
-/

namespace Escrow

/-- Two different strings of bytes have one hash. -/
structure Sha256.Collide (bs bs' : Bytes) : Prop where
  ne : bs ≠ bs'
  hash_eq : hash bs = hash bs'

/-- Two strings have the same hash if they are the same, or else collide. -/
theorem Sha256.hash_eq_iff {bs bs' : Bytes} :
    hash bs = hash bs' ↔ bs = bs' ∨ Collide bs bs' := by
  constructor
  · intro h
    by_cases hbs : bs = bs'
    · exact .inl hbs
    · exact .inr ⟨hbs, h⟩
  · rintro (rfl | h)
    · rfl
    · exact h.hash_eq

namespace Transaction

variable {tx tx' : Transaction}

/-- What is hashed to sign for the input at a position. -/
def signedBytes (tx : Transaction) (vin : Nat) : Bytes :=
  Bytes.ofText "agr/sighash/v1" ++ tx.wire false ++ Wire.word (UInt32.ofNat vin)

/-- A digest to sign is the hash of what is signed. -/
theorem sighash_eq (tx : Transaction) (vin : Nat) :
    tx.sighash vin = Sha256.hash (tx.signedBytes vin) := rfl

/-- A transaction that fits does so without its witnesses. -/
theorem Fits.unsigned (h : tx.Fits) : tx.unsigned.Fits where
  inputs := by
    rw [Transaction.unsigned, List.length_map]
    exact h.inputs
  outputs := h.outputs
  locks := h.locks

/-- Transactions of the same bytes are the same. -/
theorem bytes_inj (h : tx.Fits) (h' : tx'.Fits) : tx.bytes = tx'.bytes ↔ tx = tx' := by
  constructor
  · intro hbytes
    have hread := ofBytes_eq_ok_iff.2 ⟨h, hbytes.symm⟩
    rw [ofBytes_eq_ok_iff.2 ⟨h', rfl⟩] at hread
    exact (Except.ok.inj hread).symm
  · rintro rfl
    rfl

/-- The bytes without witnesses are those of the transaction without them. -/
theorem wire_false (tx : Transaction) : tx.wire false = tx.unsigned.bytes := by
  have hinput : ∀ i : Input, Input.wire true { i with witness := none } = Input.wire false i := by
    rintro ⟨prevout, _ | w⟩ <;> rfl
  simp only [bytes, wire, Transaction.unsigned, List.length_map, List.flatMap_map, hinput]

/-- The bytes without witnesses say all about the rest. -/
theorem wire_false_eq_iff (h : tx.Fits) (h' : tx'.Fits) :
    tx.wire false = tx'.wire false ↔ tx.unsigned = tx'.unsigned := by
  rw [wire_false, wire_false, bytes_inj h.unsigned h'.unsigned]

/-- However long a transaction is, its bytes show whether it has inputs, and its lock time. -/
theorem of_wire_false_eq (h : tx.wire false = tx'.wire false) :
    (tx.inputs = [] ↔ tx'.inputs = []) ∧ tx.lockTime = tx'.lockTime := by
  have hlength : ∀ n : UInt32, (Wire.word n).length = 4 := fun n => Bytes.length_littleEndian ..
  rw [wire, wire] at h
  obtain ⟨hfront, hlock⟩ := List.append_inj' h (by rw [hlength, hlength])
  simp only [List.append_assoc] at hfront
  obtain ⟨-, hcount⟩ := List.append_inj hfront (by rw [hlength, hlength])
  rw [← List.length_eq_zero_iff, ← List.length_eq_zero_iff]
  exact ⟨(Wire.compactSize_append_inj hcount).1, Wire.word_inj hlock⟩

/-- Different indices of 32 bits are written differently. -/
theorem word_ofNat_eq_iff {i j : Nat} (hi : i < 2 ^ 32) (hj : j < 2 ^ 32) :
    Wire.word (UInt32.ofNat i) = Wire.word (UInt32.ofNat j) ↔ i = j := by
  constructor
  · intro h
    have hword := congrArg UInt32.toNat (Wire.word_inj h)
    rwa [UInt32.toNat_ofNat_of_lt' hi, UInt32.toNat_ofNat_of_lt' hj] at hword
  · rintro rfl
    rfl

/-- The position is found at the end, whatever there is before it. -/
theorem signedBytes_eq_iff (h : tx.Fits) (h' : tx'.Fits) {i j : Nat} (hi : i < 2 ^ 32)
    (hj : j < 2 ^ 32) :
    tx.signedBytes i = tx'.signedBytes j ↔ tx.unsigned = tx'.unsigned ∧ i = j := by
  have hlength : ∀ n : UInt32, (Wire.word n).length = 4 := fun n => Bytes.length_littleEndian ..
  rw [signedBytes, signedBytes, ← wire_false_eq_iff h h', ← word_ofNat_eq_iff hi hj]
  constructor
  · intro hbytes
    obtain ⟨hfront, hword⟩ := List.append_inj' hbytes (by rw [hlength, hlength])
    exact ⟨List.append_cancel_left hfront, hword⟩
  · rintro ⟨hwire, hword⟩
    rw [hwire, hword]

/-- What is hashed for ids is the same for two transactions if and only if they differ by
    witnesses only, and what is hashed to sign for inputs if and only if the positions
    are the same as well. So the ids and what is signed commit to that, unless the hash
    has a collision; and witnesses change neither. The counts and lengths in the
    transactions are below 2^64, as those of everything that is held in a memory
    addressed by 64 bits, and the positions below 2^32. -/
theorem digests_commit (tx tx' : Transaction) (i j : Nat) (h : tx.Fits) (h' : tx'.Fits)
    (hi : i < 2 ^ 32) (hj : j < 2 ^ 32) :
    (tx.txid = ⟨Sha256.hash (tx.wire false)⟩ ∧ tx.sighash i = Sha256.hash (tx.signedBytes i)) ∧
      (tx.wire false = tx'.wire false ↔ tx.unsigned = tx'.unsigned) ∧
      (tx.signedBytes i = tx'.signedBytes j ↔ tx.unsigned = tx'.unsigned ∧ i = j) ∧
      (tx.txid = tx'.txid ↔
        tx.unsigned = tx'.unsigned ∨ Sha256.Collide (tx.wire false) (tx'.wire false)) ∧
      (tx.sighash i = tx'.sighash j ↔
        (tx.unsigned = tx'.unsigned ∧ i = j) ∨
          Sha256.Collide (tx.signedBytes i) (tx'.signedBytes j)) := by
  have hwire := wire_false_eq_iff h h'
  have hsigned := signedBytes_eq_iff h h' hi hj
  refine ⟨⟨rfl, rfl⟩, hwire, hsigned, ?_, ?_⟩
  · rw [txid, txid, TxId.mk.injEq, Sha256.hash_eq_iff, hwire]
  · rw [sighash_eq, sighash_eq, Sha256.hash_eq_iff, hsigned]

/-- A transaction that is signed in part has the id that it has unsigned, and what is
    signed for its first input is not what is signed for its second. -/
theorem assorted_commits :
    (assorted.Fits ∧ assorted.unsigned.Fits ∧ 0 < 2 ^ 32 ∧ 1 < 2 ^ 32) ∧
      assorted ≠ assorted.unsigned ∧ assorted.txid = assorted.unsigned.txid ∧
      assorted.signedBytes 0 ≠ assorted.unsigned.signedBytes 1 := by
  have hfits : assorted.Fits := fits_of_bytes (by decide +kernel)
  have hsame : assorted.unsigned = assorted.unsigned.unsigned := by decide +kernel
  obtain ⟨-, -, hsigned, hid, -⟩ := digests_commit assorted assorted.unsigned 0 1 hfits
    hfits.unsigned (by decide) (by decide)
  exact ⟨⟨hfits, hfits.unsigned, by decide, by decide⟩, by decide +kernel, hid.2 (.inl hsame),
    fun h => absurd (hsigned.1 h).2 (by decide)⟩

end Transaction

end Escrow
