import Escrow.Proofs.Agreement.Inspection

/-!
# What the rules ask

For each operation, what it takes for a transaction to obey the rules of
agreements, as a list of conditions: on what it spends and makes in escrow, on
what it refers to and on who signs (`Inspection.Obeys`). A transaction passes
exactly if they hold (`validate_eq_ok_iff`).
-/

namespace Escrow

namespace Inspection

variable {i : Inspection}

/-! ## Offers -/

/-- The parties of an offer are different keys, and the source signs. -/
structure SoundParties (i : Inspection) (o : Offer) : Prop where
  source : ∃ k, o.source = .key k ∧ k.isValid
  destination : ∃ k, o.destination = .key k ∧ k.isValid
  differ : o.source ≠ o.destination
  signed : i.Signed o.source
  arbitrator : ∀ p, o.arbitrator = some p →
    (∃ k, p = .key k ∧ k.isValid) ∧ p ≠ o.source ∧ p ≠ o.destination

/-- The terms of an offer are sound in themselves. -/
structure SoundTerms (i : Inspection) (o : Offer) : Prop where
  known : o.flags.isKnown
  close : o.flags.has .close → o.flags.has .amendment
  deposit : i.params.markerValue ≤ o.deposit
  disputeFee : i.params.markerValue ≤ o.disputeFee
  payment : 0 ≤ o.payment
  name : o.name.utf8ByteSize ≠ 0 ∧ o.name.utf8ByteSize ≤ i.params.maxName
  memo : o.memo.utf8ByteSize ≤ i.params.maxMemo
  unlockConditions : o.unlockConditions = []

/-- An amendment names an agreement of the same parties that is not over, and
    another offer names none. -/
structure SoundAmends (i : Inspection) (o : Offer) : Prop where
  amended : o.flags.has .amendment → ∃ a, o.amends = some a.txid ∧ i.ledger.Agrees a ∧
    i.ledger.confirmedSpender? ⟨a.txid, 1⟩ = none ∧ sameParties o a.offer
  none : ¬o.flags.has .amendment → o.amends = .none

/-- The parties of an offer pass if they are keys that are points, the source signs and no
    two of the parties are one, the arbitrator among them if there is one. -/
theorem checkParties_eq_ok_iff {o : Offer} :
    i.checkParties o = .ok () ↔ i.SoundParties o := by
  simp only [checkParties, bind_eq_ok_iff, Party.validKey_eq_ok_iff, throw_bind,
    ite_throw_eq_ok_iff, exists_unit_iff, requireSigner_eq_ok_iff]
  constructor
  · rintro ⟨k, ⟨hsource, hk⟩, k', ⟨hdestination, hk'⟩, hdiffer, hsigned, h⟩
    refine ⟨⟨k, hsource, hk⟩, ⟨k', hdestination, hk'⟩, ?_, hsigned, ?_⟩
    · rw [hsource, hdestination]
      exact fun h => hdiffer (Party.key.inj h)
    · intro p hp
      simp only [hp, bind_eq_ok_iff, Party.validKey_eq_ok_iff, ite_throw_eq_ok_iff, not_or] at h
      obtain ⟨q, ⟨rfl, hq⟩, ⟨hqk, hqk'⟩, -⟩ := h
      rw [hsource, hdestination]
      exact ⟨⟨q, rfl, hq⟩, fun h => hqk (Party.key.inj h), fun h => hqk' (Party.key.inj h)⟩
  · rintro ⟨⟨k, hsource, hk⟩, ⟨k', hdestination, hk'⟩, hdiffer, hsigned, harbitrator⟩
    -- The check compares keys, where the rules compare parties.
    rw [hsource, hdestination] at hdiffer
    refine ⟨k, ⟨hsource, hk⟩, k', ⟨hdestination, hk'⟩, fun h => hdiffer (h ▸ rfl), hsigned, ?_⟩
    cases hp : o.arbitrator with
    | none => rfl
    | some p =>
      obtain ⟨⟨q, rfl, hq⟩, hqk, hqk'⟩ := harbitrator p hp
      rw [hsource] at hqk
      rw [hdestination] at hqk'
      simp only [bind_eq_ok_iff, Party.validKey_eq_ok_iff, ite_throw_eq_ok_iff, not_or]
      exact ⟨q, ⟨rfl, hq⟩, ⟨fun h => hqk (h ▸ rfl), fun h => hqk' (h ▸ rfl)⟩, rfl⟩

/-- The terms of an offer pass if its flags are known and go together, its amounts reach the
    minimum, its texts have a length that they may have, and there are no conditions to
    unlock it. -/
theorem checkTerms_eq_ok_iff {o : Offer} : i.checkTerms o = .ok () ↔ i.SoundTerms o := by
  simp only [checkTerms, throw_bind, ite_throw_eq_ok_iff, bind_eq_ok_iff, exists_unit_iff,
    checkMemo_eq_ok_iff, pure_eq_ok_iff]
  constructor
  · rintro ⟨hknown, hclose, hdeposit, hfee, hpayment, hname, hmemo, hunlock, -⟩
    refine ⟨by simpa using hknown, by simpa using hclose, Int64.not_lt.1 hdeposit,
      Int64.not_lt.1 hfee, Int64.not_lt.1 hpayment, ?_, hmemo, by simpa using hunlock⟩
    rwa [not_or, Nat.not_lt] at hname
  · rintro ⟨hknown, hclose, hdeposit, hfee, hpayment, hname, hmemo, hunlock⟩
    refine ⟨by simpa using hknown, by simpa using hclose, Int64.not_lt.2 hdeposit,
      Int64.not_lt.2 hfee, Int64.not_lt.2 hpayment, ?_, hmemo, by simpa using hunlock, trivial⟩
    rwa [not_or, Nat.not_lt]

/-- What an amendment refers to passes if it is an agreement of the same parties that is not
    over. Any other offer has to refer to nothing. -/
theorem checkAmends_eq_ok_iff {o : Offer} : i.checkAmends o = .ok () ↔ i.SoundAmends o := by
  rw [checkAmends]
  by_cases hamendment : o.flags.has .amendment
  · rw [if_pos hamendment]
    -- What an amendment refers to has to be there to be looked at.
    cases hid : o.amends with
    | none =>
      simp only [throw_ne_ok, false_iff]
      rintro ⟨hamended, -⟩
      obtain ⟨a, ha, -⟩ := hamended hamendment
      rw [hid] at ha
      cases ha
    | some id =>
      simp only [bind_eq_ok_iff, agreementAt_eq_ok_iff, throw_bind, ite_throw_eq_ok_iff,
        pure_eq_ok_iff, and_true, Bool.not_eq_true', Bool.not_eq_false]
      constructor
      · rintro ⟨a, ⟨rfl, ha⟩, hspender, hparties⟩
        exact ⟨fun _ => ⟨a, hid, ha, by simpa using hspender, hparties⟩,
          fun h => (h hamendment).elim⟩
      · rintro ⟨hamended, -⟩
        obtain ⟨a, ha, hagrees, hspender, hparties⟩ := hamended hamendment
        cases hid.symm.trans ha
        exact ⟨a, ⟨rfl, hagrees⟩, by simpa using hspender, hparties⟩
  · rw [if_neg hamendment, ite_throw_eq_ok_iff, pure_eq_ok_iff]
    constructor
    · rintro ⟨hnone, -⟩
      exact ⟨fun h => (hamendment h).elim, fun _ => by simpa using hnone⟩
    · rintro ⟨-, hnone⟩
      exact ⟨by simp [hnone hamendment], rfl⟩

/-- What is asked of an offer. -/
structure ObeysOffer (i : Inspection) (o : Offer) : Prop where
  inputs : i.SpendsNoEscrowFrom 0
  parties : i.SoundParties o
  terms : i.SoundTerms o
  amends : i.SoundAmends o
  marker : i.Makes 0 (.atLeast i.params.markerValue) globalLock
  outputs : i.MakesNoEscrowFrom 1

/-- An offer passes if and only if it obeys the rules of offers. -/
theorem checkOffer_eq_ok_iff {o : Offer} : i.checkOffer o = .ok () ↔ i.ObeysOffer o := by
  simp only [checkOffer, bind_eq_ok_iff, exists_unit_iff, noEscrowInputsFrom_eq_ok_iff,
    checkParties_eq_ok_iff, checkTerms_eq_ok_iff, checkAmends_eq_ok_iff, expectOutput_eq_ok_iff,
    noEscrowOutputsFrom_eq_ok_iff]
  exact ⟨fun ⟨h₁, h₂, h₃, h₄, h₅, h₆⟩ => ⟨h₁, h₂, h₃, h₄, h₅, h₆⟩,
    fun ⟨h₁, h₂, h₃, h₄, h₅, h₆⟩ => ⟨h₁, h₂, h₃, h₄, h₅, h₆⟩⟩

/-- What is asked of a stop-offer, given the offer. -/
structure ObeysStopOffer (i : Inspection) (id : TxId) (memo : String) (r : Record) (o : Offer) :
    Prop where
  offer : i.ledger.Confirms id r (.offer o)
  marker : i.tx.spends[0]? = some ⟨id, 0⟩
  inputs : i.SpendsNoEscrowFrom 1
  memo : memo.utf8ByteSize ≤ i.params.maxMemo
  signed : i.Signed o.destination ∨
    (i.Summed o.destination ∧ i.Signed o.source ∧ ¬o.flags.has .noCancel)
  outputs : i.MakesNoEscrowFrom 0

/-- The withdrawal of an offer passes if and only if it obeys the rules, for the record of
    the offer that it names. -/
theorem checkStopOffer_eq_ok_iff {id : TxId} {memo : String} :
    i.checkStopOffer id memo = .ok () ↔ ∃ r o, i.ObeysStopOffer id memo r o := by
  simp only [checkStopOffer, bind_eq_ok_iff, exists_unit_iff, Prod.exists, offerAt_eq_ok_iff,
    expectInput_eq_ok_iff, noEscrowInputsFrom_eq_ok_iff, checkMemo_eq_ok_iff, signedBy_eq_ok_iff,
    throw_bind, ite_eq_ok_iff, noEscrowOutputsFrom_eq_ok_iff, throw_ne_ok, and_false, false_or,
    Bool.not_eq_true', Bool.not_eq_false]
  constructor
  · rintro ⟨r, o, hoffer, hmarker, hinputs, hmemo, b, ⟨hsum, hb⟩, h⟩
    rcases h with ⟨rfl, b', ⟨-, hb'⟩, hb't, hcancel, houtputs⟩ | ⟨rfl, houtputs⟩
    · exact ⟨r, o, hoffer, hmarker, hinputs, hmemo, .inr ⟨hsum, hb'.1 hb't, hcancel⟩, houtputs⟩
    · exact ⟨r, o, hoffer, hmarker, hinputs, hmemo, .inl (hb.1 rfl), houtputs⟩
  · rintro ⟨r, o, hoffer, hmarker, hinputs, hmemo, hsigned, houtputs⟩
    refine ⟨r, o, hoffer, hmarker, hinputs, hmemo, ?_⟩
    -- The source is asked only if the destination has not signed.
    by_cases hd : i.Signed o.destination
    · exact ⟨true, ⟨hd.summed, by simp [hd]⟩, .inr ⟨rfl, houtputs⟩⟩
    · obtain ⟨hsum, hs, hcancel⟩ := hsigned.resolve_left hd
      exact ⟨false, ⟨hsum, by simp [hd]⟩,
        .inl ⟨rfl, true, ⟨hs.summed, by simp [hs]⟩, rfl, hcancel, houtputs⟩⟩

/-! ## Accepts and closes -/

/-- What is asked of what an accept spends of an agreement that it amends. -/
structure Amends (i : Inspection) (o : Offer) (a : Agreement) (e : Record) : Prop where
  amends : o.amends = some a.txid
  agrees : i.ledger.Agrees a
  baton : i.Follows 1 a e
  notarized : o.flags.has .awaitNotaries → e.height.any i.ledger.isNotarized
  deposit : i.tx.spends[2]? = some ⟨a.txid, 1⟩

/-- The number of inputs in escrow of an accept of an offer. -/
def escrowInputs (o : Offer) : Nat :=
  if o.flags.has .amendment then 3 else 1

/-- What an accept takes after the marker passes if it is the baton and the deposit of an
    agreement that is amended, or nothing. The other inputs begin after that. -/
theorem checkAmended_eq_ok_iff {o : Offer} {n : Nat} :
    i.checkAmended o = .ok n ↔
      (o.flags.has .amendment → ∃ a e, i.Amends o a e) ∧ n = escrowInputs o := by
  rw [checkAmended, escrowInputs]
  by_cases hamendment : o.flags.has .amendment
  · rw [if_pos hamendment, if_pos hamendment]
    cases hid : o.amends with
    | none =>
      simp only [throw_ne_ok, hamendment, forall_const, false_iff, not_and]
      rintro ⟨a, e, h⟩
      cases hid.symm.trans h.amends
    | some id =>
      simp only [bind_eq_ok_iff, agreementAt_eq_ok_iff, previousEvent_eq_ok_iff,
        exists_unit_iff, ite_bind_eq_ok_iff, checkNotarized_eq_ok_iff, expectInput_eq_ok_iff,
        pure_eq_ok_iff, hamendment, forall_const, @eq_comm _ n]
      constructor
      · rintro ⟨a, ⟨rfl, ha⟩, e, he, hnotarized, hdeposit, hn⟩
        exact ⟨⟨a, e, hid, ha, he, hnotarized, hdeposit⟩, hn⟩
      · rintro ⟨⟨a, e, ha, hagrees, he, hnotarized, hdeposit⟩, hn⟩
        cases hid.symm.trans ha
        exact ⟨a, ⟨rfl, hagrees⟩, e, he, hnotarized, hdeposit, hn⟩
  · rw [if_neg hamendment, if_neg hamendment, pure_eq_ok_iff, @eq_comm _ n]
    exact (and_iff_right fun h => (hamendment h).elim).symm

/-- What is asked of an accept, given the offer. -/
structure ObeysAccept (i : Inspection) (id : TxId) (r : Record) (o : Offer) : Prop where
  offer : i.ledger.Confirms id r (.offer o)
  marker : i.tx.spends[0]? = some ⟨id, 0⟩
  not_close : ¬o.flags.has .close
  young : ¬i.params.expired (r.height.getD 0) i.ledger.height
  notarized : o.flags.has .awaitNotaries → r.height.any i.ledger.isNotarized
  signed : i.Signed o.destination
  amends : o.flags.has .amendment → ∃ a e, i.Amends o a e
  inputs : i.SpendsNoEscrowFrom (escrowInputs o)
  baton : i.Makes 0 (.exactly i.params.markerValue) (eventLock id)
  deposit : i.Makes 1 (.exactly o.deposit) globalLock
  payment : i.Pays 2 o.payment o.source
  outputs : i.MakesNoEscrowFrom 2

/-- An accept passes if and only if it obeys the rules, for the record of the offer that it
    names. -/
theorem checkAccept_eq_ok_iff {id : TxId} :
    i.checkAccept id = .ok () ↔ ∃ r o, i.ObeysAccept id r o := by
  simp only [checkAccept, throw_bind, bind_eq_ok_iff, exists_unit_iff, Prod.exists,
    offerAt_eq_ok_iff, expectInput_eq_ok_iff, ite_throw_eq_ok_iff, checkAge_eq_ok_iff,
    ite_bind_eq_ok_iff, checkNotarized_eq_ok_iff, requireSigner_eq_ok_iff,
    checkAmended_eq_ok_iff, noEscrowInputsFrom_eq_ok_iff, expectOutput_eq_ok_iff,
    expectPayment_eq_ok_iff, noEscrowOutputsFrom_eq_ok_iff]
  -- Both sides ask the same in the same order. Only that outputs make no escrow is asked from
  -- another position on, which depends on whether there is a payment.
  constructor
  · rintro ⟨r, o, hoffer, hmarker, hclose, hyoung, hnotarized, hsigned, n, ⟨hamends, rfl⟩,
      hinputs, hbaton, hdeposit, m, ⟨hpayment, rfl⟩, houtputs⟩
    exact ⟨r, o, hoffer, hmarker, hclose, hyoung, hnotarized, hsigned, hamends, hinputs, hbaton,
      hdeposit, hpayment, hpayment.makesNoEscrowFrom_iff.1 houtputs⟩
  · rintro ⟨r, o, h⟩
    exact ⟨r, o, h.offer, h.marker, h.not_close, h.young, h.notarized, h.signed, _,
      ⟨h.amends, rfl⟩, h.inputs, h.baton, h.deposit, _, ⟨h.payment, rfl⟩,
      h.payment.makesNoEscrowFrom_iff.2 h.outputs⟩

/-- What is asked of a close, given the agreement, the closing offer and the event
    whose baton is spent. -/
structure ObeysClose (i : Inspection) (id : TxId) (payout : Amount) (a : Agreement) (r : Record)
    (o : Offer) (e : Record) : Prop where
  agrees : i.ledger.Agrees a
  offer : i.ledger.Confirms id r (.offer o)
  closes : o.flags.has .amendment ∧ o.flags.has .close
  amends : o.amends = some a.txid
  payment_eq : o.payment = payout
  young : ¬i.params.expired (r.height.getD 0) i.ledger.height
  baton : i.Follows 0 a e
  notarized : o.flags.has .awaitNotaries →
    r.height.any i.ledger.isNotarized ∧ e.height.any i.ledger.isNotarized
  deposit : i.tx.spends[1]? = some ⟨a.txid, 1⟩
  marker : i.tx.spends[2]? = some ⟨id, 0⟩
  inputs : i.SpendsNoEscrowFrom 3
  signed : i.Signed o.destination
  payment : i.Pays 0 payout o.source
  outputs : i.MakesNoEscrowFrom 0

/-- A close passes if and only if it obeys the rules, for the agreement that it names, the
    record of the offer and the last event. -/
theorem checkClose_eq_ok_iff {agreement id : TxId} {payout : Amount} :
    i.checkClose agreement id payout = .ok () ↔
      ∃ a r o e, a.txid = agreement ∧ i.ObeysClose id payout a r o e := by
  simp only [checkClose, throw_bind, bind_eq_ok_iff, exists_unit_iff, Prod.exists,
    agreementAt_eq_ok_iff, offerAt_eq_ok_iff, checkAge_eq_ok_iff,
    previousEvent_eq_ok_iff, ite_eq_ok_iff, checkNotarized_eq_ok_iff, expectInput_eq_ok_iff,
    noEscrowInputsFrom_eq_ok_iff, requireSigner_eq_ok_iff, expectPayment_eq_ok_iff,
    noEscrowOutputsFrom_eq_ok_iff, ne_eq, not_not, Bool.not_eq_true', Bool.not_eq_false,
    Bool.and_eq_true, throw_ne_ok, and_false, false_or]
  constructor
  · rintro ⟨a, ⟨rfl, ha⟩, r, o, hoffer, hcloses, hamends, hpayout, hyoung, e, he, h⟩
    refine ⟨a, r, o, e, rfl, ?_⟩
    rcases h with ⟨-, hr, hnotarized, hdeposit, hmarker, hinputs, hsigned, n, ⟨hpays, rfl⟩, hout⟩ |
      ⟨hawait, hdeposit, hmarker, hinputs, hsigned, n, ⟨hpays, rfl⟩, hout⟩
    · exact ⟨ha, hoffer, hcloses, hamends, hpayout, hyoung, he, fun _ => ⟨hr, hnotarized⟩,
        hdeposit, hmarker, hinputs, hsigned, hpays, hpays.makesNoEscrowFrom_iff.1 hout⟩
    · exact ⟨ha, hoffer, hcloses, hamends, hpayout, hyoung, he, fun h => (hawait h).elim,
        hdeposit, hmarker, hinputs, hsigned, hpays, hpays.makesNoEscrowFrom_iff.1 hout⟩
  · rintro ⟨a, r, o, e, rfl, h⟩
    refine ⟨a, ⟨rfl, h.agrees⟩, r, o, h.offer, h.closes, h.amends, h.payment_eq, h.young, e,
      h.baton, ?_⟩
    have hrest := h.payment.makesNoEscrowFrom_iff.2 h.outputs
    -- The rest is asked twice over, with notaries and without.
    by_cases hawait : o.flags.has .awaitNotaries
    · obtain ⟨hr, he⟩ := h.notarized hawait
      exact .inl ⟨hawait, hr, he, h.deposit, h.marker, h.inputs, h.signed, _, ⟨h.payment, rfl⟩,
        hrest⟩
    · exact .inr ⟨hawait, h.deposit, h.marker, h.inputs, h.signed, _, ⟨h.payment, rfl⟩, hrest⟩

/-! ## Disputes -/

/-- What is asked of a dispute, given the agreement and the event whose baton is
    spent. -/
structure ObeysDispute (i : Inspection) (d : Dispute) (a : Agreement) (e : Record) : Prop where
  agrees : i.ledger.Agrees a
  agreement : d.agreement = a.txid
  known : d.flags.isKnown
  memo : d.memo.utf8ByteSize ≠ 0 ∧ d.memo.utf8ByteSize ≤ i.params.maxMemo
  arbitrator : a.offer.arbitrator.isSome
  disputes : ¬a.offer.flags.has .noDisputes
  claimant : d.claimant = a.offer.source ∨ d.claimant = a.offer.destination
  signed : i.Signed d.claimant
  baton : i.Follows 0 a e
  inputs : i.SpendsNoEscrowFrom 1
  fee : i.Makes 0 (.exactly a.offer.disputeFee) (eventLock a.offerId)
  outputs : i.MakesNoEscrowFrom 1

/-- A dispute passes if and only if it obeys the rules, for its agreement and the last event
    there. -/
theorem checkDispute_eq_ok_iff {d : Dispute} :
    i.checkDispute d = .ok () ↔ ∃ a e, i.ObeysDispute d a e := by
  simp only [checkDispute, throw_bind, bind_eq_ok_iff, exists_unit_iff, agreementAt_eq_ok_iff,
    ite_throw_eq_ok_iff, checkMemo_eq_ok_iff, requireSigner_eq_ok_iff, previousEvent_eq_ok_iff,
    noEscrowInputsFrom_eq_ok_iff, expectOutput_eq_ok_iff, noEscrowOutputsFrom_eq_ok_iff,
    Bool.not_eq_true', Bool.not_eq_false, ne_eq, not_and, not_not]
  constructor
  · rintro ⟨a, ⟨hid, ha⟩, hknown, hmemo, hmemo', harbitrator, hdisputes, hclaimant, hsigned, e, he,
      hinputs, hfee, houtputs⟩
    exact ⟨a, e, ha, hid.symm, hknown, ⟨hmemo, hmemo'⟩,
      by simpa [Option.isSome_iff_ne_none] using harbitrator, hdisputes,
      or_iff_not_imp_left.2 hclaimant, hsigned, he, hinputs, hfee, houtputs⟩
  · rintro ⟨a, e, h⟩
    exact ⟨a, ⟨h.agreement.symm, h.agrees⟩, h.known, h.memo.1, h.memo.2,
      by simpa [Option.isSome_iff_ne_none] using h.arbitrator, h.disputes,
      or_iff_not_imp_left.1 h.claimant, h.signed, e, h.baton, h.inputs, h.fee, h.outputs⟩

/-- What is asked of a stop-dispute, given the agreement and the dispute. -/
structure ObeysStopDispute (i : Inspection) (id : TxId) (memo : String) (a : Agreement)
    (d : Dispute) : Prop where
  agrees : i.ledger.Agrees a
  dispute : ∃ r, i.ledger.Confirms id r (.dispute d)
  agreement : d.agreement = a.txid
  baton : i.tx.spends[0]? = some ⟨id, 0⟩
  inputs : i.SpendsNoEscrowFrom 1
  memo : memo.utf8ByteSize ≤ i.params.maxMemo
  not_final : ¬d.flags.has .final
  summed : i.Summed d.claimant ∧ ∀ p, a.offer.arbitrator = some p → i.Summed p
  signed : i.Signed d.claimant ∨ ∃ p, a.offer.arbitrator = some p ∧ i.Signed p
  passed : i.Makes 0 (.exactly i.params.markerValue) (eventLock a.offerId)
  outputs : i.MakesNoEscrowFrom 1

/-- The withdrawal of a dispute passes if and only if it obeys the rules, for the agreement
    and the dispute that it names. -/
theorem checkStopDispute_eq_ok_iff {agreement id : TxId} {memo : String} :
    i.checkStopDispute agreement id memo = .ok () ↔
      ∃ a d, a.txid = agreement ∧ i.ObeysStopDispute id memo a d := by
  simp only [checkStopDispute, throw_bind, bind_eq_ok_iff, exists_unit_iff, agreementAt_eq_ok_iff,
    disputeAt_eq_ok_iff, expectInput_eq_ok_iff, noEscrowInputsFrom_eq_ok_iff, checkMemo_eq_ok_iff,
    ite_throw_eq_ok_iff, signedBy_eq_ok_iff]
  constructor
  · rintro ⟨a, ⟨rfl, ha⟩, d, ⟨hd, hagreement⟩, hbaton, hinputs, hmemo, hfinal, b, ⟨hsum, hb⟩, h⟩
    -- Without an arbitrator only the claimant can sign.
    cases hp : a.offer.arbitrator with
    | none =>
      simp only [hp, bind_eq_ok_iff, exists_unit_iff, pure_eq_ok_iff, exists_eq_left',
        ite_throw_eq_ok_iff, expectOutput_eq_ok_iff, noEscrowOutputsFrom_eq_ok_iff] at h
      obtain ⟨hsigned, hpassed, houtputs⟩ := h
      exact ⟨a, d, rfl, ha, hd, hagreement, hbaton, hinputs, hmemo, hfinal,
        ⟨hsum, fun p h => by cases hp.symm.trans h⟩, .inl (hb.1 (by simpa using hsigned)), hpassed,
        houtputs⟩
    | some p =>
      simp only [hp, bind_eq_ok_iff, exists_unit_iff, signedBy_eq_ok_iff, ite_throw_eq_ok_iff,
        expectOutput_eq_ok_iff, noEscrowOutputsFrom_eq_ok_iff] at h
      obtain ⟨b', ⟨hsum', hb'⟩, hsigned, hpassed, houtputs⟩ := h
      refine ⟨a, d, rfl, ha, hd, hagreement, hbaton, hinputs, hmemo, hfinal,
        ⟨hsum, fun q h => ?_⟩, ?_, hpassed, houtputs⟩
      · cases hp.symm.trans h
        exact hsum'
      · rw [Bool.and_eq_true, Bool.not_eq_true', Bool.not_eq_true',
          Classical.not_and_iff_not_or_not, Bool.not_eq_false, Bool.not_eq_false] at hsigned
        exact hsigned.imp hb.1 fun h => ⟨p, hp, hb'.1 h⟩
  · classical
    rintro ⟨a, d, rfl, h⟩
    refine ⟨a, ⟨rfl, h.agrees⟩, d, ⟨h.dispute, h.agreement⟩, h.baton, h.inputs, h.memo,
      h.not_final, decide (i.Signed d.claimant), ⟨h.summed.1, decide_eq_true_iff⟩, ?_⟩
    cases hp : a.offer.arbitrator with
    | none =>
      simp only [bind_eq_ok_iff, exists_unit_iff, pure_eq_ok_iff, exists_eq_left',
        ite_throw_eq_ok_iff, expectOutput_eq_ok_iff, noEscrowOutputsFrom_eq_ok_iff]
      have hsigned := h.signed.resolve_right fun ⟨p, hp', _⟩ => by cases hp.symm.trans hp'
      exact ⟨by simp [hsigned], h.passed, h.outputs⟩
    | some p =>
      simp only [bind_eq_ok_iff, exists_unit_iff, signedBy_eq_ok_iff, ite_throw_eq_ok_iff,
        expectOutput_eq_ok_iff, noEscrowOutputsFrom_eq_ok_iff]
      refine ⟨decide (i.Signed p), ⟨h.summed.2 p hp, decide_eq_true_iff⟩, ?_, h.passed, h.outputs⟩
      rcases h.signed with hsigned | ⟨q, hq, hsigned⟩
      · simp [hsigned]
      · cases hp.symm.trans hq
        simp [hsigned]

/-- What is asked of a resolve, given the agreement, the dispute and the
    arbitrator. -/
structure ObeysResolve (i : Inspection) (id : TxId) (payout : Amount) (memo : String)
    (a : Agreement) (d : Dispute) (p : Party) : Prop where
  agrees : i.ledger.Agrees a
  dispute : ∃ r, i.ledger.Confirms id r (.dispute d)
  agreement : d.agreement = a.txid
  baton : i.tx.spends[0]? = some ⟨id, 0⟩
  deposit : i.tx.spends[1]? = some ⟨a.txid, 1⟩
  inputs : i.SpendsNoEscrowFrom 2
  memo : memo.utf8ByteSize ≤ i.params.maxMemo
  arbitrator : a.offer.arbitrator = some p
  signed : i.Signed p
  range : 0 ≤ payout ∧ payout ≤ a.offer.deposit
  claimant : i.Pays 0 payout d.claimant
  defendant : i.Pays (afterPayment 0 payout) (a.offer.deposit - payout)
    (a.offer.opponent d.claimant)
  outputs : i.MakesNoEscrowFrom 0

/-- A resolve passes if and only if it obeys the rules, for the agreement, the dispute and
    the arbitrator whom the agreement has. -/
theorem checkResolve_eq_ok_iff {agreement id : TxId} {payout : Amount} {memo : String} :
    i.checkResolve agreement id payout memo = .ok () ↔
      ∃ a d p, a.txid = agreement ∧ i.ObeysResolve id payout memo a d p := by
  simp only [checkResolve, throw_bind, bind_eq_ok_iff, exists_unit_iff, agreementAt_eq_ok_iff,
    disputeAt_eq_ok_iff, expectInput_eq_ok_iff, noEscrowInputsFrom_eq_ok_iff,
    checkMemo_eq_ok_iff]
  constructor
  · rintro ⟨a, ⟨rfl, ha⟩, d, ⟨hd, hagreement⟩, hbaton, hdeposit, hinputs, hmemo, h⟩
    -- Without an arbitrator nothing is asked of the outputs, as the check has failed before.
    cases hp : a.offer.arbitrator with
    | none => simp [hp, throw_ne_ok] at h
    | some p =>
      simp only [hp, bind_eq_ok_iff, exists_unit_iff, requireSigner_eq_ok_iff, ite_throw_eq_ok_iff,
        expectPayment_eq_ok_iff, noEscrowOutputsFrom_eq_ok_iff, not_or, Int64.not_lt] at h
      obtain ⟨hsigned, hpayout, _, ⟨hclaimant, rfl⟩, _, ⟨hdefendant, rfl⟩, houtputs⟩ := h
      exact ⟨a, d, p, rfl, ha, hd, hagreement, hbaton, hdeposit, hinputs, hmemo, hp, hsigned,
        hpayout, hclaimant, hdefendant,
        hclaimant.makesNoEscrowFrom_iff.1 (hdefendant.makesNoEscrowFrom_iff.1 houtputs)⟩
  · rintro ⟨a, d, p, rfl, h⟩
    refine ⟨a, ⟨rfl, h.agrees⟩, d, ⟨h.dispute, h.agreement⟩, h.baton, h.deposit, h.inputs, h.memo,
      ?_⟩
    simp only [h.arbitrator, bind_eq_ok_iff, exists_unit_iff, requireSigner_eq_ok_iff,
      ite_throw_eq_ok_iff, expectPayment_eq_ok_iff, noEscrowOutputsFrom_eq_ok_iff, not_or,
      Int64.not_lt]
    exact ⟨h.signed, h.range, _, ⟨h.claimant, rfl⟩, _, ⟨h.defendant, rfl⟩,
      h.defendant.makesNoEscrowFrom_iff.2 (h.claimant.makesNoEscrowFrom_iff.2 h.outputs)⟩

/-! ## All operations -/

/-- What the rules ask of an operation. -/
inductive Obeys (i : Inspection) : Operation → Prop
  | offer {o : Offer} : i.ObeysOffer o → i.Obeys (.offer o)
  | stopOffer {id : TxId} {memo : String} {r : Record} {o : Offer} :
    i.ObeysStopOffer id memo r o → i.Obeys (.stopOffer id memo)
  | accept {id : TxId} {r : Record} {o : Offer} : i.ObeysAccept id r o → i.Obeys (.accept id)
  | close {id : TxId} {payout : Amount} {a : Agreement} {r : Record} {o : Offer} {e : Record} :
    i.ObeysClose id payout a r o e → i.Obeys (.close a.txid id payout)
  | dispute {d : Dispute} {a : Agreement} {e : Record} :
    i.ObeysDispute d a e → i.Obeys (.dispute d)
  | stopDispute {id : TxId} {memo : String} {a : Agreement} {d : Dispute} :
    i.ObeysStopDispute id memo a d → i.Obeys (.stopDispute a.txid id memo)
  | resolve {id : TxId} {payout : Amount} {memo : String} {a : Agreement} {d : Dispute}
    {p : Party} :
    i.ObeysResolve id payout memo a d p → i.Obeys (.resolve a.txid id payout memo)

/-- An operation passes if and only if it obeys the rules of its kind. -/
theorem checkOperation_eq_ok_iff {op : Operation} :
    i.checkOperation op = .ok () ↔ i.Obeys op := by
  -- One case for each operation. An unlock obeys no rule, and never passes.
  constructor
  · intro h
    cases op with
    | offer o => exact .offer (checkOffer_eq_ok_iff.1 h)
    | stopOffer id memo =>
      obtain ⟨r, o, h⟩ := checkStopOffer_eq_ok_iff.1 h
      exact .stopOffer h
    | accept id =>
      obtain ⟨r, o, h⟩ := checkAccept_eq_ok_iff.1 h
      exact .accept h
    | close agreement id payout =>
      obtain ⟨a, r, o, e, rfl, hobeys⟩ := checkClose_eq_ok_iff.1 h
      exact .close hobeys
    | dispute d =>
      obtain ⟨a, e, h⟩ := checkDispute_eq_ok_iff.1 h
      exact .dispute h
    | stopDispute agreement id memo =>
      obtain ⟨a, d, rfl, hobeys⟩ := checkStopDispute_eq_ok_iff.1 h
      exact .stopDispute hobeys
    | resolve agreement id payout memo =>
      obtain ⟨a, d, p, rfl, hobeys⟩ := checkResolve_eq_ok_iff.1 h
      exact .resolve hobeys
    | unlock agreement conditions => cases h
  · intro h
    cases h with
    | offer h => exact checkOffer_eq_ok_iff.2 h
    | stopOffer h => exact checkStopOffer_eq_ok_iff.2 ⟨_, _, h⟩
    | accept h => exact checkAccept_eq_ok_iff.2 ⟨_, _, h⟩
    | close h => exact checkClose_eq_ok_iff.2 ⟨_, _, _, _, rfl, h⟩
    | dispute h => exact checkDispute_eq_ok_iff.2 ⟨_, _, h⟩
    | stopDispute h => exact checkStopDispute_eq_ok_iff.2 ⟨_, _, rfl, h⟩
    | resolve h => exact checkResolve_eq_ok_iff.2 ⟨_, _, _, rfl, h⟩

end Inspection

/-! ## Whole transactions -/

variable {params : Params} {l : Ledger} {tx : Transaction}

/-- A transaction carries a payload where and as it has to: in its last output and
    in no other. -/
structure Transaction.Carries (params : Params) (tx : Transaction) (p : Payload) : Prop where
  data : ∃ data, tx.payload? = some data ∧ data.length ≤ params.maxPayload ∧
    Payload.decode data = .ok p
  only : ∀ out ∈ tx.outputs.dropLast, out.lock.data? = none
  version : p.version = payloadVersion

/-- A payload is found if the last output and no other one is data, not too much of it, and
    the data decode to a payload of this version. -/
theorem soundPayload_eq_ok_iff {p : Payload} :
    tx.soundPayload params = .ok p ↔ tx.Carries params p := by
  constructor
  · intro h
    rw [Transaction.soundPayload] at h
    -- Each look at the outputs has one way to go on, and fails in all others.
    cases hlast : tx.outputs.getLast? with
    | none => simp [hlast, throw_ne_ok] at h
    | some last =>
      cases hextra : tx.outputs.dropLast.findIdx? (·.lock.data?.isSome) with
      | some vout => simp [hlast, hextra, throw_bind, throw_ne_ok] at h
      | none =>
        cases hdata : last.lock.data? with
        | none => simp [hlast, hextra, hdata, throw_ne_ok] at h
        | some data =>
          cases hp : Payload.decode data with
          | error e =>
            simp [hlast, hextra, hdata, hp, throw_bind, ite_throw_eq_ok_iff, throw_ne_ok] at h
          | ok q =>
            simp only [hlast, hextra, hdata, hp, throw_bind, ite_throw_eq_ok_iff, pure_eq_ok_iff,
              Nat.not_lt, ne_eq, not_not] at h
            obtain ⟨hlength, hversion, rfl⟩ := h
            refine ⟨⟨data, ?_, hlength, hp⟩, ?_, hversion⟩
            · rw [Transaction.payload?, hlast]
              exact hdata
            · simpa using List.findIdx?_eq_none_iff.1 hextra
  · rintro ⟨⟨data, hdata, hlength, hp⟩, honly, hversion⟩
    obtain ⟨last, hlast, hdata⟩ := Option.bind_eq_some_iff.1 hdata
    have hextra : tx.outputs.dropLast.findIdx? (·.lock.data?.isSome) = none :=
      List.findIdx?_eq_none_iff.2 fun out hout => by simp [honly out hout]
    rw [Transaction.soundPayload, hlast]
    simp only [hextra, hdata, hp, throw_bind, ite_throw_eq_ok_iff, pure_eq_ok_iff, Nat.not_lt,
      hlength, hversion, ne_eq, not_true_eq_false, not_false_eq_true, and_self]

/-- The outputs that inputs spend are found if there is one for every input, and then they
    are those. -/
theorem prevouts_eq_ok_iff {is : List Input} {vin : Nat} {spent : List Output} :
    l.prevouts vin is = .ok spent ↔
      (is.map Input.prevout).map l.prevout? = spent.map some := by
  -- By induction on the inputs, for all positions of the first one.
  induction is generalizing vin spent with
  | nil => cases spent <;> simp [Ledger.prevouts]
  | cons i is ih =>
    rw [Ledger.prevouts]
    cases ho : l.prevout? i.prevout with
    | none =>
      cases spent with
      | nil => simp
      | cons out spent => simp [ho]
    | some out =>
      dsimp only
      rw [map_eq_ok_iff]
      cases spent with
      | nil => simp
      | cons out' spent =>
        simp only [ih, List.cons.injEq, List.map_cons, ho, Option.some.injEq]
        constructor
        · rintro ⟨rest, hrest, rfl, rfl⟩
          exact ⟨rfl, hrest⟩
        · rintro ⟨rfl, hrest⟩
          exact ⟨spent, hrest, rfl, rfl⟩

/-- A transaction passes if and only if it carries a payload, the outputs that it spends
    exist, the fee is covered, and the operation obeys the rules. -/
theorem validate_eq_ok_iff :
    validate l params tx = .ok () ↔
      ∃ p spent, tx.Carries params p ∧ tx.spends.map l.prevout? = spent.map some ∧
        (⟨l, params, tx, spent⟩ : Inspection).checkFee = .ok () ∧
        (⟨l, params, tx, spent⟩ : Inspection).Obeys p.operation := by
  simp only [validate, bind_eq_ok_iff, exists_unit_iff, soundPayload_eq_ok_iff,
    prevouts_eq_ok_iff, Inspection.checkOperation_eq_ok_iff, Transaction.spends]
  constructor
  · rintro ⟨p, hp, spent, hspent, hfee, hobeys⟩
    exact ⟨p, spent, hp, hspent, hfee, hobeys⟩
  · rintro ⟨p, spent, hp, hspent, hfee, hobeys⟩
    exact ⟨p, hp, spent, hspent, hfee, hobeys⟩

end Escrow
