import Escrow.Agreement.Rules
import Escrow.Proofs.Agreement.References

/-!
# Inspection

What the checks of the rules of agreements ask, each for itself: that an input
spends a certain output, that an output has a certain value and lock, that nothing
else in escrow is spent or made, that someone signs, that something is confirmed
and that an event is the last of its agreement.

To sign is to spend outputs of one's own (`Inspection.Signed`); so who signs a
transaction owns an output that it spends (`Signed.exists_coin`).
-/

namespace Escrow

/-- Whether a value is as a rule has it. -/
def ValueRule.Allows (value : Amount) : ValueRule → Prop
  | .exactly v => value = v
  | .atLeast v => v ≤ value

/-- A party passes as a key if it is one that is a point. -/
theorem Party.validKey_eq_ok_iff {role : String} {p : Party} {k : PublicKey} :
    p.validKey role = .ok k ↔ p = .key k ∧ k.isValid := by
  cases p with
  | script bs => simp [validKey]
  | key k' =>
    simp only [validKey, ite_eq_ok_iff, Except.ok.injEq, reduceCtorEq, and_false, or_false,
      key.injEq]
    constructor
    · rintro ⟨hvalid, rfl⟩
      exact ⟨rfl, hvalid⟩
    · rintro ⟨rfl, hvalid⟩
      exact ⟨hvalid, rfl⟩

namespace Inspection

variable {i : Inspection}

/-- A party signs: the outputs spent that are locked with its key alone have a sum
    above zero. -/
def Signed (i : Inspection) (p : Party) : Prop :=
  ∃ k total, p = .key k ∧ Amount.total? ((i.spentOf k).map Output.value) = some total ∧ 0 < total

/-- A party is a key, and the outputs spent that are locked with it alone have a
    sum. -/
def Summed (i : Inspection) (p : Party) : Prop :=
  ∃ k total, p = .key k ∧ Amount.total? ((i.spentOf k).map Output.value) = some total

/-- An output is at a position, with a value and a lock. -/
def Makes (i : Inspection) (vout : Nat) (rule : ValueRule) (lock : Lock) : Prop :=
  ∃ out, i.made[vout]? = some out ∧ out.lock = lock ∧ rule.Allows out.value

/-- No input from a position on spends anything in escrow. -/
def SpendsNoEscrowFrom (i : Inspection) (first : Nat) : Prop :=
  ∀ out ∈ i.spent.drop first, ¬out.lock.isEscrow

/-- No output from a position on is in escrow. -/
def MakesNoEscrowFrom (i : Inspection) (first : Nat) : Prop :=
  ∀ out ∈ i.made.drop first, ¬out.lock.isEscrow

/-! ## Amounts -/

/-- The fee is covered if no output is negative, the sums of inputs and outputs are in the
    range, and the inputs reach the outputs and the fee. -/
theorem checkFee_eq_ok_iff :
    i.checkFee = .ok () ↔ i.tx.outputs.findIdx? (·.value < 0) = none ∧
      ∃ inputs outputs needed, Amount.total? (i.spent.map Output.value) = some inputs ∧
        i.tx.outputTotal? = some outputs ∧ outputs.add? i.params.txFee = some needed ∧
        needed ≤ inputs := by
  rw [checkFee]
  -- One case for each sum that may be missing.
  cases i.tx.outputs.findIdx? (·.value < 0) with
  | some vout => simp [throw_bind, throw_ne_ok]
  | none =>
    cases Amount.total? (i.spent.map Output.value) with
    | none => simp [throw_ne_ok]
    | some inputs =>
      cases i.tx.outputTotal? with
      | none => simp [throw_ne_ok]
      | some outputs =>
        cases hneeded : outputs.add? i.params.txFee with
        | none => simp [hneeded, throw_ne_ok]
        | some needed => simp [hneeded, ite_throw_eq_ok_iff, pure_eq_ok_iff, Int64.not_lt]

/-! ## Inputs and outputs -/

/-- What the checks see at an input is what the ledger has there. -/
theorem getElem?_spent (h : i.tx.spends.map i.ledger.prevout? = i.spent.map some) {vin : Nat}
    {o : Outpoint} (ho : i.tx.spends[vin]? = some o) :
    ∃ out, i.spent[vin]? = some out ∧ i.ledger.prevout? o = some out := by
  have hat := congrArg (·[vin]?) h
  simp only [List.getElem?_map, ho, Option.map_some] at hat
  obtain ⟨out, hout, hprevout⟩ := Option.map_eq_some_iff.1 hat.symm
  exact ⟨out, hout, hprevout.symm⟩

theorem expectInput_eq_ok_iff {vin : Nat} {what : String} {o : Outpoint} :
    i.expectInput vin what o = .ok () ↔ i.tx.spends[vin]? = some o := by
  rw [expectInput, Transaction.getElem?_spends]
  cases i.tx.inputs[vin]? with
  | none => simp [throw_ne_ok]
  | some input =>
    simp only [ite_throw_eq_ok_iff, ne_eq, not_not, pure_eq_ok_iff, and_true]
    simp

/-- The inputs from a position on pass if they spend nothing in escrow. -/
theorem noEscrowInputsFrom_eq_ok_iff {first : Nat} :
    i.noEscrowInputsFrom first = .ok () ↔ i.SpendsNoEscrowFrom first := by
  rw [noEscrowInputsFrom, SpendsNoEscrowFrom]
  cases hn : (i.spent.drop first).findIdx? (·.lock.isEscrow) with
  | none => simpa [pure_eq_ok_iff] using List.findIdx?_eq_none_iff.1 hn
  | some n =>
    obtain ⟨hlt, hescrow, -⟩ := List.findIdx?_eq_some_iff_getElem.1 hn
    simp only [throw_ne_ok, false_iff, not_forall, not_not]
    exact ⟨_, List.getElem_mem hlt, hescrow⟩

/-- The outputs from a position on pass if they make nothing in escrow. -/
theorem noEscrowOutputsFrom_eq_ok_iff {first : Nat} :
    i.noEscrowOutputsFrom first = .ok () ↔ i.MakesNoEscrowFrom first := by
  rw [noEscrowOutputsFrom, MakesNoEscrowFrom]
  cases hn : (i.made.drop first).findIdx? (·.lock.isEscrow) with
  | none => simpa [pure_eq_ok_iff] using List.findIdx?_eq_none_iff.1 hn
  | some n =>
    obtain ⟨hlt, hescrow, -⟩ := List.findIdx?_eq_some_iff_getElem.1 hn
    simp only [throw_ne_ok, false_iff, not_forall, not_not]
    exact ⟨_, List.getElem_mem hlt, hescrow⟩

/-- An output passes if it is there before the payload, with the lock and the value that are
    asked for. -/
theorem expectOutput_eq_ok_iff {vout : Nat} {what : String} {rule : ValueRule} {lock : Lock} :
    i.expectOutput vout what rule lock = .ok () ↔ i.Makes vout rule lock := by
  rw [expectOutput, Makes]
  cases i.made[vout]? with
  | none => simp [throw_ne_ok]
  | some out =>
    simp only [throw_bind, ite_throw_eq_ok_iff, ne_eq, not_not, Option.some.injEq,
      exists_eq_left']
    refine and_congr_right fun _ => ?_
    cases rule with
    | exactly v =>
      simp only [ite_throw_eq_ok_iff, not_not, pure_eq_ok_iff, and_true, ValueRule.Allows]
    | atLeast v =>
      simp only [ite_throw_eq_ok_iff, Int64.not_lt, pure_eq_ok_iff, and_true, ValueRule.Allows]

/-! ## Signers -/

/-- Who signs spends something, so that the sum of it is known. -/
theorem Signed.summed {p : Party} (h : i.Signed p) : i.Summed p := by
  obtain ⟨k, total, hp, htotal, -⟩ := h
  exact ⟨k, total, hp, htotal⟩

theorem signedBy_eq_ok_iff {role : String} {p : Party} {b : Bool} :
    i.signedBy role p = .ok b ↔ i.Summed p ∧ (b ↔ i.Signed p) := by
  cases p with
  | script bs => simp [signedBy, Summed]
  | key k =>
    simp only [signedBy, Summed, Signed, Party.key.injEq, exists_and_left, exists_eq_left']
    cases Amount.total? ((i.spentOf k).map Output.value) with
    | none => simp
    | some total => cases b <;> simp

/-- A signature that is asked for passes if the party signs. -/
theorem requireSigner_eq_ok_iff {role : String} {p : Party} :
    i.requireSigner role p = .ok () ↔ i.Signed p := by
  simp only [requireSigner, bind_eq_ok_iff, ite_throw_eq_ok_iff, pure_eq_ok_iff, and_true,
    signedBy_eq_ok_iff, Bool.not_eq_true', Bool.not_eq_false]
  constructor
  · rintro ⟨b, ⟨-, hsigned⟩, hb⟩
    exact hsigned.1 hb
  · intro h
    exact ⟨true, ⟨h.summed, by simp [h]⟩, rfl⟩

/-- Who signs owns an output that is spent. -/
theorem Signed.exists_coin {p : Party} (h : i.Signed p) :
    ∃ k, p = .key k ∧ ∃ out ∈ i.spent, out.lock = .key k := by
  obtain ⟨k, total, rfl, htotal, hpos⟩ := h
  refine ⟨k, rfl, ?_⟩
  cases hspent : i.spentOf k with
  | nil =>
    -- The sum of no outputs is zero.
    rw [hspent] at htotal
    cases htotal
    cases hpos
  | cons out rest =>
    have hout : out ∈ i.spentOf k := hspent ▸ List.mem_cons_self
    rw [spentOf, List.mem_filter] at hout
    exact ⟨out, hout.1, by simpa using hout.2⟩

/-! ## Payments -/

/-- A party is paid at a position, if there is anything to pay. -/
def Pays (i : Inspection) (vout : Nat) (amount : Amount) (p : Party) : Prop :=
  0 < amount → ∃ k, p = .key k ∧ i.Makes vout (.exactly amount) (.key k)

/-- The position after a payment. -/
def afterPayment (vout : Nat) (amount : Amount) : Nat :=
  if 0 < amount then vout + 1 else vout

/-- A payment passes if it is made, or none is asked for; the next position is after it. -/
theorem expectPayment_eq_ok_iff {vout n : Nat} {what role : String} {amount : Amount} {p : Party} :
    i.expectPayment vout what role amount p = .ok n ↔
      i.Pays vout amount p ∧ n = afterPayment vout amount := by
  rw [expectPayment, Pays, afterPayment]
  by_cases hamount : 0 < amount
  · rw [if_pos hamount, if_pos hamount]
    cases p with
    | script bs => simp [Party.paymentLock, bind_eq_ok_iff, hamount]
    | key k =>
      simp only [Party.paymentLock, bind_eq_ok_iff, Except.ok.injEq, exists_eq_left',
        exists_unit_iff, expectOutput_eq_ok_iff, pure_eq_ok_iff, Party.key.injEq, hamount,
        forall_const, @eq_comm _ n]
  · rw [if_neg hamount, if_neg hamount]
    simp only [pure_eq_ok_iff, hamount, false_imp_iff, true_and, @eq_comm _ n]

/-- A payment is nothing in escrow. -/
theorem Pays.makesNoEscrowFrom_iff {vout : Nat} {amount : Amount} {p : Party}
    (h : i.Pays vout amount p) :
    i.MakesNoEscrowFrom (afterPayment vout amount) ↔ i.MakesNoEscrowFrom vout := by
  rw [afterPayment]
  split
  · next hamount =>
    obtain ⟨k, _, out, hout, hlock, _⟩ := h hamount
    obtain ⟨hlt, rfl⟩ := List.getElem?_eq_some_iff.1 hout
    rw [MakesNoEscrowFrom, MakesNoEscrowFrom, List.drop_eq_getElem_cons hlt,
      List.forall_mem_cons, hlock]
    exact (and_iff_right nofun).symm
  · rfl

/-! ## Limits -/

/-- An offer passes as young enough if it has not expired. -/
theorem checkAge_eq_ok_iff {height : Nat} :
    i.checkAge height = .ok () ↔ ¬i.params.expired height i.ledger.height := by
  simp [checkAge, ite_throw_eq_ok_iff, pure_eq_ok_iff, Params.expired]

theorem checkNotarized_eq_ok_iff {what : String} {r : Record} :
    i.checkNotarized what r = .ok () ↔ r.height.any i.ledger.isNotarized := by
  simp only [checkNotarized, ite_throw_eq_ok_iff, pure_eq_ok_iff, and_true]
  simp

theorem checkMemo_eq_ok_iff {memo : String} :
    i.checkMemo memo = .ok () ↔ memo.utf8ByteSize ≤ i.params.maxMemo := by
  simp only [checkMemo, ite_throw_eq_ok_iff, pure_eq_ok_iff, and_true, Nat.not_lt]

/-! ## What is referred to -/

/-- An offer is found if the record of its id is in a block and makes an offer. -/
theorem offerAt_eq_ok_iff {what : String} {id : TxId} {r : Record} {o : Offer} :
    i.offerAt what id = .ok (r, o) ↔ i.ledger.Confirms id r (.offer o) := by
  rw [offerAt, mapError_eq_ok_iff, Ledger.findOffer_eq_ok_iff]

/-- An agreement is found under its id if its accept and the offer accepted are in blocks. -/
theorem agreementAt_eq_ok_iff {id : TxId} {a : Agreement} :
    i.agreementAt id = .ok a ↔ a.txid = id ∧ i.ledger.Agrees a := by
  rw [← Ledger.findAgreement_eq_ok_iff, agreementAt, Ledger.findAgreement]
  simp only [bind_eq_ok_iff, mapError_eq_ok_iff, offerAt, pure_eq_ok_iff]

/-- The dispute of an agreement is found if the record of its id is in a block and is a
    dispute about that agreement. -/
theorem disputeAt_eq_ok_iff {a : Agreement} {id : TxId} {d : Dispute} :
    i.disputeAt a id = .ok d ↔
      (∃ r, i.ledger.Confirms id r (.dispute d)) ∧ d.agreement = a.txid := by
  simp only [disputeAt, bind_eq_ok_iff, mapError_eq_ok_iff, Ledger.findDispute_eq_ok_iff,
    throw_bind, ite_throw_eq_ok_iff, pure_eq_ok_iff, ne_eq, not_not]
  constructor
  · rintro ⟨d', hd', hagreement, rfl⟩
    exact ⟨hd', hagreement⟩
  · rintro ⟨hd, hagreement⟩
    exact ⟨d, hd, hagreement, rfl⟩

/-- The input at a position spends the baton of an event of an agreement, given the
    record of the event and what it does. -/
structure Meets (i : Inspection) (vin : Nat) (a : Agreement) (r : Record) (op : Operation) :
    Prop where
  spends : i.tx.spends[vin]? = some ⟨r.txid, 0⟩
  confirms : i.ledger.Confirms r.txid r op
  event : isEventOf a r.txid op
  lock : (i.spent[vin]?).map Output.lock = some (eventLock a.offerId)

/-- The input at a position spends the baton of an event, given its record, of an
    agreement that is not under dispute. -/
structure Follows (i : Inspection) (vin : Nat) (a : Agreement) (r : Record) : Prop where
  spends : i.tx.spends[vin]? = some ⟨r.txid, 0⟩
  event : ∃ op, i.ledger.Confirms r.txid r op ∧ isEventOf a r.txid op ∧ op.function ≠ .dispute
  lock : (i.spent[vin]?).map Output.lock = some (eventLock a.offerId)

/-- What follows the last event of an agreement spends the baton of an event that is no
    dispute. -/
theorem follows_iff {vin : Nat} {a : Agreement} {r : Record} :
    i.Follows vin a r ↔ ∃ op, i.Meets vin a r op ∧ op.function ≠ .dispute := by
  constructor
  · rintro ⟨hspends, ⟨op, hr, hevent, hfun⟩, hlock⟩
    exact ⟨op, ⟨hspends, hr, hevent, hlock⟩, hfun⟩
  · rintro ⟨op, ⟨hspends, hr, hevent, hlock⟩, hfun⟩
    exact ⟨hspends, ⟨op, hr, hevent, hfun⟩, hlock⟩

/-- The event whose baton is spent is found, unless it is a dispute. -/
theorem Meets.previousEvent_eq {vin : Nat} {a : Agreement} {r : Record} {op : Operation}
    (h : i.Meets vin a r op) :
    i.previousEvent vin a =
      if op.function = .dispute then .error .agreementDisputed else .ok r := by
  obtain ⟨input, hinput, hprevout⟩ := Transaction.getElem?_spends.1 h.spends
  simp only [previousEvent, hinput, hprevout, h.confirms.record?, h.confirms.isConfirmed,
    Record.operation?_eq, h.confirms.operation?, h.event, h.lock, throw_bind]
  simp only [ne_eq, not_true_eq_false, Bool.not_true, Bool.false_eq_true, if_false]
  rfl

/-- What is not refused, or refused for a dispute only, spends the baton of an
    event. -/
theorem exists_meets {vin : Nat} {a : Agreement}
    (h : ∀ v, i.previousEvent vin a = .error v → v = .agreementDisputed) :
    ∃ r op, i.Meets vin a r op := by
  rw [previousEvent] at h
  -- All errors but the last are excluded, one look after the other; what is left is an event
  -- whose baton the input spends.
  cases hinput : i.tx.inputs[vin]? with
  | none =>
    rw [hinput] at h
    cases h _ rfl
  | some input =>
    simp only [hinput, throw_bind] at h
    obtain ⟨hvout, h⟩ := not_of_ite_throw h nofun
    cases hr : i.ledger.record? input.prevout.txid with
    | none =>
      rw [hr] at h
      cases h _ rfl
    | some r =>
      simp only [hr] at h
      obtain ⟨hconf, h⟩ := not_of_ite_throw h nofun
      cases hop : r.operation? with
      | none =>
        rw [hop] at h
        cases h _ rfl
      | some op =>
        simp only [hop] at h
        obtain ⟨hevent, h⟩ := not_of_ite_throw h nofun
        obtain ⟨hlock, -⟩ := not_of_ite_throw h nofun
        obtain ⟨-, hid⟩ := Ledger.mem_of_record? hr
        rw [← hid] at hr hevent
        refine ⟨r, op, ?_, ⟨hr, by simpa using hconf, hop⟩, by simpa using hevent,
          not_not.1 hlock⟩
        rw [ne_eq, not_not] at hvout
        exact Transaction.getElem?_spends.2 ⟨input, hinput, Outpoint.ext hid.symm hvout⟩

/-- The last event of an agreement is found if an input spends its baton, and no dispute is
    open. -/
theorem previousEvent_eq_ok_iff {vin : Nat} {a : Agreement} {r : Record} :
    i.previousEvent vin a = .ok r ↔ i.Follows vin a r := by
  rw [follows_iff]
  constructor
  · intro h
    have hother : ∀ v, i.previousEvent vin a = .error v → v = .agreementDisputed := by simp [h]
    obtain ⟨r', op, hmeets⟩ := exists_meets hother
    rw [hmeets.previousEvent_eq] at h
    split at h
    · cases h
    · next hfun =>
      cases h
      exact ⟨op, hmeets, hfun⟩
  · rintro ⟨op, hmeets, hfun⟩
    rw [hmeets.previousEvent_eq, if_neg hfun]

/-- An agreement is said to be disputed if an input spends the baton of a dispute about it. -/
theorem previousEvent_eq_disputed_iff {vin : Nat} {a : Agreement} :
    i.previousEvent vin a = .error .agreementDisputed ↔
      ∃ r op, i.Meets vin a r op ∧ op.function = .dispute := by
  constructor
  · intro h
    have hother : ∀ v, i.previousEvent vin a = .error v → v = .agreementDisputed := by simp [h]
    obtain ⟨r, op, hmeets⟩ := exists_meets hother
    rw [hmeets.previousEvent_eq] at h
    split at h
    · next hfun => exact ⟨r, op, hmeets, hfun⟩
    · cases h
  · rintro ⟨r, op, hmeets, hfun⟩
    rw [hmeets.previousEvent_eq, if_pos hfun]

end Inspection

end Escrow
