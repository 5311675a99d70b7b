import Escrow.Agreement.History
import Escrow.Proofs.Checks
import Escrow.Proofs.Ledger.Growth

/-!
# References

What a transaction does is said by its payload (`Transaction.operation?`). A
transaction refers to others by their ids, and what is looked up for an id is a
confirmed transaction that does a thing of the right kind (`Ledger.Confirms`): an
offer, an accept, a dispute, or an agreement, which is an accept and the offer
that it names (`Ledger.Agrees`).

An id stands for one thing only, and goes on standing for it: what was confirmed
in a ledger is found in every later one (`Confirms.grows`).
-/

namespace Escrow

/-- What a transaction does, if it has a payload. -/
def Transaction.operation? (tx : Transaction) : Option Operation :=
  tx.payload.toOption.map Payload.operation

theorem Record.operation?_eq (r : Record) : r.operation? = r.tx.operation? := rfl

/-- A transaction does what the payload of its last output says. -/
theorem Transaction.operation?_eq_some_iff {tx : Transaction} {op : Operation} :
    tx.operation? = some op ↔
      ∃ data p, tx.payload? = some data ∧ Payload.decode data = .ok p ∧ p.operation = op := by
  rw [operation?, payload]
  cases hdata : tx.payload? with
  | none => simp [Except.toOption]
  | some data =>
    cases hp : Payload.decode data with
    | error e => simp [Except.toOption, hp]
    | ok p => simp [Except.toOption, hp]

namespace Ledger

/-- A recorded transaction does something. -/
def Does (l : Ledger) (id : TxId) (op : Operation) : Prop :=
  ∃ r, l.record? id = some r ∧ r.tx.operation? = some op

/-- A confirmed transaction, with its record, does something. -/
structure Confirms (l : Ledger) (id : TxId) (r : Record) (op : Operation) : Prop where
  record? : l.record? id = some r
  isConfirmed : r.isConfirmed
  operation? : r.tx.operation? = some op

/-- An agreement is confirmed, and so is the offer that it accepted. -/
structure Agrees (l : Ledger) (a : Agreement) : Prop where
  accept : ∃ r, l.Confirms a.txid r (.accept a.offerId) ∧ r.height.getD 0 = a.height
  offer : ∃ r, l.Confirms a.offerId r (.offer a.offer)

variable {l m : Ledger} {id : TxId} {r : Record} {op op' : Operation}

/-! ## Looking up -/

/-- A record is found confirmed if it has the id and is in a block. -/
theorem confirmed_eq_ok_iff :
    l.confirmed id = .ok r ↔ l.record? id = some r ∧ r.isConfirmed := by
  rw [confirmed]
  cases l.record? id with
  | none => simp
  | some s =>
    dsimp only
    -- A record that is found may still wait for a block.
    split
    · next h =>
      rw [Except.ok.injEq, Option.some.injEq, and_iff_left_of_imp]
      rintro rfl
      exact h
    · next h =>
      simp only [reduceCtorEq, Option.some.injEq, false_iff, not_and]
      rintro rfl
      exact h

/-- What is looked up is found if the transaction is confirmed and does a thing of
    the right kind. -/
theorem confirmed_bind_eq_ok_iff {α β : Type} (kind : β → Operation) (give : Record → β → α)
    {f : Record → Except LookupError α} {a : α}
    (hf : ∀ r a, f r = .ok a ↔ ∃ b, r.tx.operation? = some (kind b) ∧ give r b = a) :
    (l.confirmed id >>= f) = .ok a ↔ ∃ r b, l.Confirms id r (kind b) ∧ give r b = a := by
  simp only [bind_eq_ok_iff, confirmed_eq_ok_iff, hf]
  constructor
  · rintro ⟨r, ⟨hr, hconf⟩, b, hop, hgive⟩
    exact ⟨r, b, ⟨hr, hconf, hop⟩, hgive⟩
  · rintro ⟨r, b, h, hgive⟩
    exact ⟨r, ⟨h.record?, h.isConfirmed⟩, b, h.operation?, hgive⟩

/-- An offer is found if a confirmed transaction makes it. -/
theorem findOffer_eq_ok_iff {o : Offer} :
    l.findOffer id = .ok (r, o) ↔ l.Confirms id r (.offer o) := by
  rw [findOffer, confirmed_bind_eq_ok_iff .offer Prod.mk]
  · simp
  · intro r a
    rw [Record.operation?_eq]
    split
    · next o h => simp [h, pure_eq_ok_iff]
    · next h => exact iff_of_false throw_ne_ok fun ⟨o, ho, _⟩ => h o ho

theorem findAccept_eq_ok_iff {o : TxId} :
    l.findAccept id = .ok (r, o) ↔ l.Confirms id r (.accept o) := by
  rw [findAccept, confirmed_bind_eq_ok_iff .accept Prod.mk]
  · simp
  · intro r a
    rw [Record.operation?_eq]
    split
    · next o h => simp [h, pure_eq_ok_iff]
    · next h => exact iff_of_false throw_ne_ok fun ⟨o, ho, _⟩ => h o ho

theorem findDispute_eq_ok_iff {d : Dispute} :
    l.findDispute id = .ok d ↔ ∃ r, l.Confirms id r (.dispute d) := by
  rw [findDispute, confirmed_bind_eq_ok_iff .dispute fun _ d => d]
  · simp
  · intro r a
    rw [Record.operation?_eq]
    split
    · next d h => simp [h, pure_eq_ok_iff]
    · next h => exact iff_of_false throw_ne_ok fun ⟨d, hd, _⟩ => h d hd

/-- An agreement is found under the id of its accept, if that and its offer are confirmed. -/
theorem findAgreement_eq_ok_iff {a : Agreement} :
    l.findAgreement id = .ok a ↔ a.txid = id ∧ l.Agrees a := by
  simp only [findAgreement, bind_eq_ok_iff, pure_eq_ok_iff, Prod.exists, findAccept_eq_ok_iff,
    findOffer_eq_ok_iff]
  constructor
  · rintro ⟨r, o, hr, s, offer, hs, rfl⟩
    exact ⟨rfl, ⟨r, hr, rfl⟩, s, hs⟩
  · rintro ⟨rfl, ⟨r, hr, hheight⟩, s, hs⟩
    refine ⟨r, a.offerId, hr, s, a.offer, hs, ?_⟩
    rw [hheight]

/-! ## One thing for an id -/

/-- A transaction does one thing only. -/
theorem Does.unique (h : l.Does id op) (h' : l.Does id op') : op = op' := by
  obtain ⟨r, hr, hop⟩ := h
  obtain ⟨s, hs, hop'⟩ := h'
  cases hr.symm.trans hs
  exact Option.some.inj (hop.symm.trans hop')

theorem Confirms.does (h : l.Confirms id r op) : l.Does id op :=
  ⟨r, h.record?, h.operation?⟩

/-- What a transaction does, it does in every later ledger. -/
theorem Does.grows (h : l.Does id op) (hgrows : l.Grows m) (hm : m.Sound) : m.Does id op := by
  obtain ⟨r, hr, hop⟩ := h
  obtain ⟨s, hs, hkeeps⟩ := hgrows.record? hm hr
  exact ⟨s, hs, hkeeps.tx_eq ▸ hop⟩

theorem Confirms.grows (h : l.Confirms id r op) (hgrows : l.Grows m) (hm : m.Sound) :
    m.Confirms id r op :=
  ⟨hgrows.record?_of_isConfirmed hm h.record? h.isConfirmed, h.isConfirmed, h.operation?⟩

theorem Agrees.grows {a : Agreement} (h : l.Agrees a) (hgrows : l.Grows m) (hm : m.Sound) :
    m.Agrees a := by
  obtain ⟨⟨r, hr, hheight⟩, s, hs⟩ := h
  exact ⟨⟨r, hr.grows hgrows hm, hheight⟩, s, hs.grows hgrows hm⟩

theorem Agrees.does {a : Agreement} (h : l.Agrees a) : l.Does a.txid (.accept a.offerId) := by
  obtain ⟨⟨r, hr, _⟩, _⟩ := h
  exact hr.does

/-- There is one agreement of an id. -/
theorem Agrees.unique {a a' : Agreement} (h : l.Agrees a) (h' : l.Agrees a')
    (hid : a.txid = a'.txid) : a = a' := by
  have hfind := findAgreement_eq_ok_iff.2 ⟨rfl, h⟩
  rw [findAgreement_eq_ok_iff.2 ⟨hid.symm, h'⟩] at hfind
  exact (Except.ok.inj hfind).symm

/-- The terms of an agreement are those of the offer that its accept names. -/
theorem Agrees.offer_eq {a : Agreement} (h : l.Agrees a) {o : TxId} {terms : Offer}
    (hA : l.Does a.txid (.accept o)) (ho : l.Does o (.offer terms)) : a.offer = terms := by
  obtain ⟨-, r, hr⟩ := id h
  cases h.does.unique hA
  cases hr.does.unique ho
  rfl

end Ledger

end Escrow
