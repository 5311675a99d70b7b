import Escrow.Proofs.Agreement.Payloads
import Escrow.Proofs.Checks
import Escrow.Proofs.Transaction.Encoding

/-!
# Where layouts end

A reader that takes a value from the front exactly if its layout is there
(`Payload.read_eq_ok_iff`, `Transaction.read_eq_ok_iff`) takes the same value whatever
follows: no length or count is read in another way because there are more bytes left to
compare it with. So when bytes are added to those of a value, the reader gets as far as
the end of the value, and all that is added is left over (`Reader.decode_append`).

No string of bytes that is decoded is then the beginning of another one.
-/

namespace Escrow

namespace Reader

variable {α : Type} {r : Reader α} {bs rest : Bytes} {a : α}

/-- A value is refused if anything is left after it. -/
theorem decode_eq_trailing (h : r bs = .ok a rest) (hrest : rest ≠ []) :
    decode r bs = .error (.trailingBytes rest.length) := by
  obtain ⟨b, rest, rfl⟩ := List.exists_cons_of_ne_nil hrest
  have hwhole : (do let a ← r; finish; return a : Reader α) bs =
      .error (.trailingBytes (b :: rest).length) (b :: rest) := by
    change EStateM.bind r _ bs = _
    rw [EStateM.bind, h]
    rfl
  rw [decode, hwhole]

section
variable {Fits : α → Prop} {wire : α → Bytes}
variable (hr : ∀ {bs a rest}, r bs = .ok a rest ↔ Fits a ∧ bs = wire a ++ rest)
include hr

/-- What is added to the bytes of a value is left over, all of it. -/
theorem decode_append {s : Bytes} (h : decode r bs = .ok a) (hs : s ≠ []) :
    decode r (bs ++ s) = .error (.trailingBytes s.length) := by
  obtain ⟨hfits, hbs⟩ := hr.1 (decode_eq_ok_iff.1 h)
  rw [List.append_nil] at hbs
  exact decode_eq_trailing (hr.2 ⟨hfits, by rw [hbs]⟩) hs

/-- What is left of the bytes of a value without their end is refused. -/
theorem decode_ne_ok_of_append {s : Bytes} (h : decode r (bs ++ s) = .ok a) (hs : s ≠ []) (b : α) :
    decode r bs ≠ .ok b := by
  intro hb
  rw [decode_append hr hb hs] at h
  cases h

end

end Reader

/-- Bytes that are added to those of a payload or of a transaction are left over, and the
    error says how many they are. So no payload and no transaction is read from a
    beginning of its bytes. -/
theorem layouts_prefix_free :
    (∀ bs p s, Payload.decode bs = .ok p → s ≠ [] →
      Payload.decode (bs ++ s) = .error (.trailingBytes s.length)) ∧
    (∀ bs tx s, Transaction.ofBytes bs = .ok tx → s ≠ [] →
      Transaction.ofBytes (bs ++ s) = .error (.trailingBytes s.length)) ∧
    (∀ bs s p, Payload.decode (bs ++ s) = .ok p → s ≠ [] → ∀ q, Payload.decode bs ≠ .ok q) ∧
    ∀ bs s tx, Transaction.ofBytes (bs ++ s) = .ok tx → s ≠ [] →
      ∀ tx', Transaction.ofBytes bs ≠ .ok tx' :=
  ⟨fun _ _ _ => Reader.decode_append Payload.read_eq_ok_iff,
    fun _ _ _ => Reader.decode_append Transaction.read_eq_ok_iff,
    fun _ _ _ => Reader.decode_ne_ok_of_append Payload.read_eq_ok_iff,
    fun _ _ _ => Reader.decode_ne_ok_of_append Transaction.read_eq_ok_iff⟩

/-- An offer and a transaction, followed by two bytes and cut off before the last. -/
theorem scripted_assorted_prefix_free :
    (Payload.decode Payload.scripted.encode = .ok Payload.scripted ∧
      Transaction.ofBytes Transaction.assorted.bytes = .ok Transaction.assorted) ∧
    Payload.decode (Payload.scripted.encode ++ [0, 0xfd]) = .error (.trailingBytes 2) ∧
    Transaction.ofBytes (Transaction.assorted.bytes ++ [0, 0xfd]) = .error (.trailingBytes 2) ∧
    (∀ q, Payload.decode Payload.scripted.encode.dropLast ≠ .ok q) ∧
    ∀ tx, Transaction.ofBytes Transaction.assorted.bytes.dropLast ≠ .ok tx := by
  have hp : Payload.decode Payload.scripted.encode = .ok Payload.scripted := by
    rw [← toOption_eq_some_iff]
    decide +kernel
  have htx : Transaction.ofBytes Transaction.assorted.bytes = .ok Transaction.assorted :=
    Transaction.ofBytes_eq_ok_iff.2 ⟨Transaction.fits_of_bytes (by decide +kernel), rfl⟩
  have hne : Payload.scripted.encode ≠ [] := List.cons_ne_nil _ _
  have hne' : Transaction.assorted.bytes ≠ [] := by decide +kernel
  obtain ⟨hpayload, htransaction, hpayload', htransaction'⟩ := layouts_prefix_free
  refine ⟨⟨hp, htx⟩, hpayload _ _ _ hp (by decide), htransaction _ _ _ htx (by decide),
    hpayload' _ [Payload.scripted.encode.getLast hne] Payload.scripted ?_ (List.cons_ne_nil _ _),
    htransaction' _ [Transaction.assorted.bytes.getLast hne'] Transaction.assorted ?_
      (List.cons_ne_nil _ _)⟩
  · rw [List.dropLast_concat_getLast, hp]
  · rw [List.dropLast_concat_getLast, htx]

end Escrow
