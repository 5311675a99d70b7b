import Escrow.Proofs.Agreement.Ranges
import Escrow.Proofs.Agreement.Recorded

/-!
# Refusals

Some rules are broken by no transaction, as what they ask was asked before, when the
transactions that it refers to were admitted. The offer of a confirmed agreement is
confirmed and its parties are keys, so neither is found wanting (except in an offer,
where parties are named for the first time); an amendment names an agreement; who
disputes an agreement has an arbitrator; a baton is locked for its agreement; and
what a party spends has a sum.

So the kind of an operation says which rules it may break (`Violation.Befits`), and
each check fails with such errors only (`FailsWith`).

Main statement: `refusals_run`.
-/

namespace Escrow

/-- An operation of a kind may break a rule. -/
@[simp] def Violation.Befits (f : FunctionId) : Violation → Prop
  | .wrongEventLock _ | .keySumOverflow => False
  | .reference what _ => what ≠ "accepted offer"
  | .scriptKey _ | .invalidPartyKey _ => f = .offer
  | .missingReference => f ≠ .accept
  | .noArbitrator => f ≠ .resolve
  | _ => True

/-- Someone has a part in an offer. -/
inductive Offer.IsParty (o : Offer) : Party → Prop
  | source : o.IsParty o.source
  | destination : o.IsParty o.destination
  | arbitrator {p : Party} : o.arbitrator = some p → o.IsParty p

/-- The opponent of a party has a part in the offer too. -/
theorem Offer.isParty_opponent (o : Offer) (p : Party) : o.IsParty (o.opponent p) := by
  rw [opponent]
  split
  · exact .destination
  · exact .source

/-- Whoever has a part in a sound offer is a key. -/
theorem Offer.Sound.exists_key {params : Params} {l : Ledger} {o : Offer} {p : Party}
    (ho : o.Sound params l) (hp : o.IsParty p) : ∃ k, p = .key k := by
  have hvalid : ∃ k, p = .key k ∧ k.isValid := by
    cases hp with
    | source => exact ho.source
    | destination => exact ho.destination
    | arbitrator hp => exact ho.arbitrator p hp
  obtain ⟨k, hk, -⟩ := hvalid
  exact ⟨k, hk⟩

/-! ## Before the operation -/

theorem Transaction.failsWith_soundPayload (q : Params) (tx : Transaction) (f : FunctionId) :
    FailsWith (Violation.Befits f) (tx.soundPayload q) := by
  cases hlast : tx.outputs.getLast? with
  | none => simp [soundPayload, hlast]
  | some last =>
    cases hextra : tx.outputs.dropLast.findIdx? (·.lock.data?.isSome) with
    | some vout => simp [soundPayload, hlast, hextra]
    | none =>
      cases hdata : last.lock.data? with
      | none => simp [soundPayload, hlast, hextra, hdata]
      | some data =>
        cases hp : Payload.decode data <;> simp [soundPayload, hlast, hextra, hdata, hp]

theorem Ledger.failsWith_prevouts (l : Ledger) (vin : Nat) (inputs : List Input) (f : FunctionId) :
    FailsWith (Violation.Befits f) (l.prevouts vin inputs) := by
  induction inputs generalizing vin with
  | nil => simp [prevouts]
  | cons input rest ih => cases h : l.prevout? input.prevout <;> simp [prevouts, h, ih]

namespace Inspection

variable (i : Inspection) {f : FunctionId}

theorem failsWith_checkFee : FailsWith (Violation.Befits f) i.checkFee := by
  cases hnegative : i.tx.outputs.findIdx? (·.value < 0) with
  | some vout => simp [checkFee, hnegative]
  | none =>
    cases hinputs : Amount.total? (i.spent.map Output.value) with
    | none => simp [checkFee, hnegative, hinputs]
    | some inputs =>
      cases houtputs : i.tx.outputTotal? with
      | none => simp [checkFee, hnegative, hinputs, houtputs]
      | some outputs =>
        cases hneeded : outputs.add? i.params.txFee <;>
          simp [checkFee, hnegative, hinputs, houtputs, hneeded]

/-! ## Single checks -/

@[simp] theorem failsWith_expectInput (vin : Nat) (what : String) (o : Outpoint) :
    FailsWith (Violation.Befits f) (i.expectInput vin what o) := by
  cases h : i.tx.inputs[vin]? <;> simp [expectInput, h]

@[simp] theorem failsWith_noEscrowInputsFrom (first : Nat) :
    FailsWith (Violation.Befits f) (i.noEscrowInputsFrom first) := by
  cases h : (i.spent.drop first).findIdx? (·.lock.isEscrow) <;> simp [noEscrowInputsFrom, h]

@[simp] theorem failsWith_noEscrowOutputsFrom (first : Nat) :
    FailsWith (Violation.Befits f) (i.noEscrowOutputsFrom first) := by
  cases h : (i.made.drop first).findIdx? (·.lock.isEscrow) <;> simp [noEscrowOutputsFrom, h]

@[simp] theorem failsWith_expectOutput (vout : Nat) (what : String) (rule : ValueRule)
    (lock : Lock) : FailsWith (Violation.Befits f) (i.expectOutput vout what rule lock) := by
  cases h : i.made[vout]? <;> cases rule <;> simp [expectOutput, h]

@[simp] theorem failsWith_checkAge (height : Nat) :
    FailsWith (Violation.Befits f) (i.checkAge height) := by
  simp [checkAge]

@[simp] theorem failsWith_checkNotarized (what : String) (r : Record) :
    FailsWith (Violation.Befits f) (i.checkNotarized what r) := by
  simp [checkNotarized]

@[simp] theorem failsWith_checkMemo (memo : String) :
    FailsWith (Violation.Befits f) (i.checkMemo memo) := by
  simp [checkMemo]

@[simp] theorem failsWith_checkTerms (o : Offer) :
    FailsWith (Violation.Befits f) (i.checkTerms o) := by
  simp [checkTerms]

@[simp] theorem failsWith_disputeAt (a : Agreement) (id : TxId) :
    FailsWith (Violation.Befits f) (i.disputeAt a id) := by
  simp only [disputeAt, failsWith_bind_iff, failsWith_mapError_iff]
  exact ⟨fun _ _ => by simp, by simp⟩

/-- An offer that is referred to itself may be missing. -/
@[simp] theorem failsWith_offerAt {what : String} (hwhat : what ≠ "accepted offer") (id : TxId) :
    FailsWith (Violation.Befits f) (i.offerAt what id) := by
  rw [offerAt, failsWith_mapError_iff]
  exact fun _ _ => hwhat

theorem failsWith_expectPayment {vout : Nat} {what role : String} {amount : Amount} {p : Party}
    (hp : ∃ k, p = .key k) :
    FailsWith (Violation.Befits f) (i.expectPayment vout what role amount p) := by
  obtain ⟨k, rfl⟩ := hp
  simp [expectPayment, Party.paymentLock]

section
variable {i : Inspection} (hrange : i.InRange)
include hrange

theorem failsWith_signedBy {role : String} {p : Party} (hp : ∃ k, p = .key k) :
    FailsWith (Violation.Befits f) (i.signedBy role p) := by
  obtain ⟨k, rfl⟩ := hp
  obtain ⟨total, htotal, -⟩ := hrange.exists_total k
  simp [signedBy, htotal]

theorem failsWith_requireSigner {role : String} {p : Party} (hp : ∃ k, p = .key k) :
    FailsWith (Violation.Befits f) (i.requireSigner role p) := by
  simp [requireSigner, failsWith_signedBy hrange hp]

/-- The parties of a new offer may be no keys. -/
theorem failsWith_checkParties (o : Offer) :
    FailsWith (Violation.Befits .offer) (i.checkParties o) := by
  have hkey (role : String) (p : Party) :
      FailsWith (Violation.Befits .offer) (p.validKey role) := by
    cases p <;> simp [Party.validKey]
  have hsigner : FailsWith (Violation.Befits .offer) (i.requireSigner "source" o.source) := by
    cases hsource : o.source with
    | key k => exact failsWith_requireSigner hrange ⟨k, rfl⟩
    | script bs => simp [requireSigner, signedBy]
  cases harbitrator : o.arbitrator <;> simp [checkParties, hkey, hsigner, harbitrator]

end

end Inspection

namespace Inspection

section
variable {validators : List Validator} {params : Params} {i : Inspection} {f : FunctionId}
variable (hl : Reachable validators i.ledger) (hv : KeepsRules validators params)
  (hspent : i.tx.spends.map i.ledger.prevout? = i.spent.map some) (hrange : i.InRange)
include hl hv

/-! ## What is referred to -/

/-- The offer that a confirmed agreement accepted is never missing. -/
theorem failsWith_agreementAt (id : TxId) : FailsWith (Violation.Befits f) (i.agreementAt id) := by
  rw [agreementAt, failsWith_bind_iff, failsWith_mapError_iff]
  refine ⟨fun _ _ => by simp, ?_⟩
  rintro ⟨r, o⟩ hr
  rw [mapError_eq_ok_iff, Ledger.findAccept_eq_ok_iff] at hr
  obtain ⟨a, hagrees, -, rfl⟩ := hl.exists_agrees hv hr
  obtain ⟨s, hs⟩ := hagrees.offer
  simp [i.offerAt_eq_ok_iff.2 hs]

/-- A dispute that is found was opened by a party, and there is an arbitrator. -/
theorem disputed_of_disputeAt {a : Agreement} (hagrees : i.ledger.Agrees a) {id : TxId}
    {d : Dispute} (hd : i.disputeAt a id = .ok d) :
    a.offer.IsParty d.claimant ∧ ∃ p, a.offer.arbitrator = some p := by
  obtain ⟨⟨r, hr⟩, hagreement⟩ := disputeAt_eq_ok_iff.1 hd
  obtain ⟨before, tx, spent, -, h⟩ := hl.enacted_of_does hv hr.does
  cases h.obeys with
  | @dispute _ b _ hobeys =>
    -- The dispute was about the same agreement when it was admitted.
    have hagrees' := hobeys.agrees.grows h.grows_before hl.sound
    obtain rfl := hagrees'.unique hagrees (hobeys.agreement.symm.trans hagreement)
    refine ⟨?_, Option.isSome_iff_exists.1 hobeys.arbitrator⟩
    rcases hobeys.claimant with hclaimant | hclaimant <;> rw [hclaimant]
    · exact .source
    · exact .destination

include hspent in
/-- An input that spends a baton finds it locked for the offer that the agreement
    accepted. -/
theorem exists_eventLock {a : Agreement} (hagrees : i.ledger.Agrees a) {id : TxId}
    (hbaton : i.ledger.HoldsBaton a.txid id) {vin : Nat}
    (hvin : i.tx.spends[vin]? = some ⟨id, 0⟩) :
    ∃ out, i.spent[vin]? = some out ∧ out.lock = eventLock a.offerId := by
  obtain ⟨out, hout, hprevout⟩ := getElem?_spent hspent hvin
  exact ⟨out, hout, hbaton.lock_eq hl hv hagrees.does hprevout⟩

include hspent in
/-- A baton of an agreement is never found under a lock that is not its own. -/
theorem failsWith_previousEvent {a : Agreement} (hagrees : i.ledger.Agrees a) (vin : Nat) :
    FailsWith (Violation.Befits f) (i.previousEvent vin a) := by
  cases hinput : i.tx.inputs[vin]? with
  | none => simp [previousEvent, hinput]
  | some input =>
    cases hr : i.ledger.record? input.prevout.txid with
    | none => simp [previousEvent, hinput, hr]
    | some r =>
      cases hop : r.operation? with
      | none => simp [previousEvent, hinput, hr, hop]
      | some op =>
        -- All that could go wrong is the lock.
        suffices hlock : input.prevout.vout = 0 → isEventOf a input.prevout.txid op →
            ∃ out, i.spent[vin]? = some out ∧ out.lock = eventLock a.offerId by
          simpa [previousEvent, hinput, hr, hop] using fun hvout _ => hlock hvout
        intro hvout hevent
        have hbaton : i.ledger.HoldsBaton a.txid input.prevout.txid :=
          ⟨op, ⟨r, hr, hop⟩, isEventOf_iff.1 hevent⟩
        have hvin : i.tx.spends[vin]? = some ⟨input.prevout.txid, 0⟩ :=
          Transaction.getElem?_spends.2 ⟨input, hinput, Outpoint.ext rfl hvout⟩
        exact exists_eventLock hl hv hspent hagrees hbaton hvin

/-! ## Operations -/

theorem failsWith_checkAmends (o : Offer) :
    FailsWith (Violation.Befits .offer) (i.checkAmends o) := by
  cases ho : o.amends <;> simp [checkAmends, ho, failsWith_agreementAt hl hv]

include hrange in
theorem failsWith_checkOffer (o : Offer) :
    FailsWith (Violation.Befits .offer) (i.checkOffer o) := by
  simp [checkOffer, failsWith_checkParties hrange, failsWith_checkAmends hl hv]

include hrange in
/-- A stop of an offer breaks no rule on who its parties are, as the offer was sound. -/
theorem failsWith_checkStopOffer (id : TxId) (memo : String) :
    FailsWith (Violation.Befits .stopOffer) (i.checkStopOffer id memo) := by
  simp only [checkStopOffer, failsWith_bind_iff]
  refine ⟨by simp, ?_⟩
  rintro ⟨r, o⟩ ho
  have hsound := hl.sound_offer hv (i.offerAt_eq_ok_iff.1 ho).does
  simp [failsWith_signedBy hrange (hsound.exists_key .destination),
    failsWith_signedBy hrange (hsound.exists_key .source)]

include hspent in
/-- An offer of an amendment names an agreement. -/
theorem failsWith_checkAmended {o : Offer} (ho : o.Sound params i.ledger) :
    FailsWith (Violation.Befits .accept) (i.checkAmended o) := by
  by_cases hamendment : o.flags.has .amendment
  · obtain ⟨a, ha, hagrees, -⟩ := ho.amended hamendment
    simp [checkAmended, hamendment, ha, agreementAt_eq_ok_iff.2 ⟨rfl, hagrees⟩,
      failsWith_previousEvent hl hv hspent hagrees]
  · simp [checkAmended, hamendment]

include hspent hrange in
/-- An accept finds its parties to be keys, and the agreement that it amends named. -/
theorem failsWith_checkAccept (id : TxId) :
    FailsWith (Violation.Befits .accept) (i.checkAccept id) := by
  simp only [checkAccept, failsWith_bind_iff]
  refine ⟨by simp, ?_⟩
  rintro ⟨r, o⟩ ho
  have hsound := hl.sound_offer hv (i.offerAt_eq_ok_iff.1 ho).does
  simp [failsWith_requireSigner hrange (hsound.exists_key .destination),
    i.failsWith_expectPayment (hsound.exists_key .source),
    failsWith_checkAmended hl hv hspent hsound]

include hspent hrange in
theorem failsWith_checkClose (agreement id : TxId) (payout : Amount) :
    FailsWith (Violation.Befits .close) (i.checkClose agreement id payout) := by
  simp only [checkClose, failsWith_bind_iff]
  refine ⟨failsWith_agreementAt hl hv agreement, fun a ha => ⟨by simp, ?_⟩⟩
  rintro ⟨r, o⟩ ho
  obtain ⟨-, hagrees⟩ := agreementAt_eq_ok_iff.1 ha
  have hsound := hl.sound_offer hv (i.offerAt_eq_ok_iff.1 ho).does
  simp [failsWith_requireSigner hrange (hsound.exists_key .destination),
    i.failsWith_expectPayment (hsound.exists_key .source),
    failsWith_previousEvent hl hv hspent hagrees]

include hspent hrange in
/-- A dispute finds the parties of its agreement to be keys. -/
theorem failsWith_checkDispute (d : Dispute) :
    FailsWith (Violation.Befits .dispute) (i.checkDispute d) := by
  simp only [checkDispute, failsWith_bind_iff]
  refine ⟨failsWith_agreementAt hl hv _, fun a ha => ?_⟩
  obtain ⟨-, hagrees⟩ := agreementAt_eq_ok_iff.1 ha
  have hsound := hl.sound_agreement hv hagrees
  -- The claimant is known to be a party before a signature is asked for.
  have hsigner (h : ¬d.claimant = a.offer.source → d.claimant = a.offer.destination) :
      FailsWith (Violation.Befits .dispute) (i.requireSigner "claimant" d.claimant) := by
    refine failsWith_requireSigner hrange ?_
    rcases or_iff_not_imp_left.2 h with h | h <;> rw [h]
    · exact hsound.exists_key .source
    · exact hsound.exists_key .destination
  simpa [failsWith_previousEvent hl hv hspent hagrees] using fun _ _ _ _ _ _ => hsigner

include hrange in
theorem failsWith_checkStopDispute (agreement id : TxId) (memo : String) :
    FailsWith (Violation.Befits .stopDispute) (i.checkStopDispute agreement id memo) := by
  simp only [checkStopDispute, failsWith_bind_iff]
  refine ⟨failsWith_agreementAt hl hv _, fun a ha => ⟨by simp, fun d hd => ?_⟩⟩
  obtain ⟨-, hagrees⟩ := agreementAt_eq_ok_iff.1 ha
  have hsound := hl.sound_agreement hv hagrees
  obtain ⟨hclaimant, p, hp⟩ := disputed_of_disputeAt hl hv hagrees hd
  simp [hp, failsWith_signedBy hrange (hsound.exists_key hclaimant),
    failsWith_signedBy hrange (hsound.exists_key (.arbitrator hp))]

include hrange in
/-- A resolve finds an arbitrator, as there was one when the dispute was opened. -/
theorem failsWith_checkResolve (agreement id : TxId) (payout : Amount) (memo : String) :
    FailsWith (Violation.Befits .resolve) (i.checkResolve agreement id payout memo) := by
  simp only [checkResolve, failsWith_bind_iff]
  refine ⟨failsWith_agreementAt hl hv _, fun a ha => ⟨by simp, fun d hd => ?_⟩⟩
  obtain ⟨-, hagrees⟩ := agreementAt_eq_ok_iff.1 ha
  have hsound := hl.sound_agreement hv hagrees
  obtain ⟨hclaimant, p, hp⟩ := disputed_of_disputeAt hl hv hagrees hd
  simp [hp, failsWith_requireSigner hrange (hsound.exists_key (.arbitrator hp)),
    i.failsWith_expectPayment (hsound.exists_key hclaimant),
    i.failsWith_expectPayment (hsound.exists_key (a.offer.isParty_opponent d.claimant))]

include hspent hrange in
/-- Each operation breaks only rules that it may break. -/
theorem failsWith_checkOperation (op : Operation) :
    FailsWith (Violation.Befits op.function) (i.checkOperation op) := by
  cases op with
  | offer o => exact failsWith_checkOffer hl hv hrange o
  | stopOffer offer memo => exact failsWith_checkStopOffer hl hv hrange offer memo
  | accept offer => exact failsWith_checkAccept hl hv hspent hrange offer
  | close agreement offer payout =>
    exact failsWith_checkClose hl hv hspent hrange agreement offer payout
  | dispute d => exact failsWith_checkDispute hl hv hspent hrange d
  | stopDispute agreement dispute memo =>
    exact failsWith_checkStopDispute hl hv hrange agreement dispute memo
  | resolve agreement dispute payout memo =>
    exact failsWith_checkResolve hl hv hrange agreement dispute payout memo
  | unlock => simp [checkOperation]

end

end Inspection

/-! ## Whole transactions -/

/-- What is refused befits the operation, if it is not refused before that is looked
    at. -/
theorem Reachable.befits {validators : List Validator} {params q : Params} {l : Ledger}
    {tx : Transaction} {v : Violation} (hl : Reachable validators l)
    (hv : KeepsRules validators params) (h : validate l q tx = .error v) :
    (∀ f, v.Befits f) ∨ ∃ op, tx.operation? = some op ∧ v.Befits op.function := by
  rw [validate, bind_eq_error_iff] at h
  rcases h with h | ⟨p, hp, h⟩
  · exact .inl fun f => tx.failsWith_soundPayload q f v h
  rcases bind_eq_error_iff.1 h with h | ⟨spent, hspent, h⟩
  · exact .inl fun f => l.failsWith_prevouts 0 tx.inputs f v h
  rcases bind_eq_error_iff.1 h with h | ⟨_, hfee, h⟩
  · exact .inl fun f => Inspection.failsWith_checkFee _ v h
  have hp := soundPayload_eq_ok_iff.1 hp
  have hspent := prevouts_eq_ok_iff.1 hspent
  exact .inr ⟨p.operation, hp.operation?,
    Inspection.failsWith_checkOperation hl hv hspent (hl.inRange hp hspent hfee) p.operation v h⟩

/-- What the inputs of a key spend always has a sum when the rules ask for it. -/
theorem Reachable.validate_ne_keySumOverflow {validators : List Validator} {params q : Params}
    {l : Ledger} {tx : Transaction} (hl : Reachable validators l) (hv : KeepsRules validators params) :
    validate l q tx ≠ .error .keySumOverflow := fun h => by
  rcases hl.befits hv h with hbefits | ⟨op, -, hbefits⟩
  · exact hbefits .offer
  · exact hbefits

/-- *Refusals*: what the rules of agreements refuse, in a run of a host that keeps
    them, never is the lock of a baton, nor the offer of an agreement that is referred
    to. Only an offer is refused for a party that is a script or no point, an accept
    is never refused for want of an agreement to amend, and a resolve never for want
    of an arbitrator. -/
theorem refusals_run (genesis : Timestamp) (blockTime : UInt64) (params : Params)
    (others : List Validator) (cs : List Command) (q : Params) (tx : Transaction) (v : Violation) :
    let l := ((Host.underRules genesis blockTime params others).run cs).ledger
    validate l q tx = .error v →
      (∀ vin, v ≠ .wrongEventLock vin) ∧
      (∀ cause, v ≠ .reference "accepted offer" cause) ∧
      (∀ role, v = .scriptKey role ∨ v = .invalidPartyKey role →
        ∃ o, tx.operation? = some (.offer o)) ∧
      (v = .missingReference → ∀ offer, tx.operation? ≠ some (.accept offer)) ∧
      (v = .noArbitrator → ∀ agreement dispute payout memo,
        tx.operation? ≠ some (.resolve agreement dispute payout memo)) := by
  intro l h
  have hl := Host.reachable_underRules_run genesis blockTime params others cs
  have hv := Host.keepsRules_underRules genesis blockTime params others
  -- Either every operation may break the rule, or the one of the payload may.
  rcases hl.befits hv h with hbefits | ⟨op, hop, hbefits⟩
  · refine ⟨?_, ?_, ?_, ?_, ?_⟩
    · rintro vin rfl
      exact hbefits .offer
    · rintro cause rfl
      exact hbefits .offer rfl
    · rintro role (rfl | rfl) <;> cases hbefits .accept
    · rintro rfl
      exact (hbefits .accept rfl).elim
    · rintro rfl
      exact (hbefits .resolve rfl).elim
  · rw [hop]
    refine ⟨?_, ?_, ?_, ?_, ?_⟩
    · rintro vin rfl
      exact hbefits
    · rintro cause rfl
      exact hbefits rfl
    · rintro role (rfl | rfl) <;> cases op <;> cases hbefits <;> exact ⟨_, rfl⟩
    · rintro rfl offer ⟨⟩
      exact hbefits rfl
    · rintro rfl agreement dispute payout memo ⟨⟩
      exact hbefits rfl

/-! ## A quarrel -/

namespace Quarrel

/-- The source makes an offer to a script. -/
def scripted : Transaction where
  inputs := [⟨⟨offerId, 1⟩, none⟩]
  outputs := [⟨10000, globalLock⟩,
    ⟨0, .data (Operation.offer { terms with destination := .script [1] }).encode⟩]

/-- While the dispute is open, this is refused for the script, and it is an offer. -/
theorem scripted_refused :
    let l := ((Host.underRules ⟨0, 0⟩ 60 {} []).run (commands.take 7)).ledger
    validate l {} scripted = .error (.scriptKey "destination") ∧
      ∃ o, scripted.operation? = some (.offer o) := by
  intro l
  have hrefused : validate l {} scripted = .error (.scriptKey "destination") := by
    rw [show l = disputed from disputed_run]
    decide +kernel
  obtain ⟨-, -, hscript, -, -⟩ :=
    refusals_run ⟨0, 0⟩ 60 {} [] (commands.take 7) {} scripted _ hrefused
  exact ⟨hrefused, hscript "destination" (.inl rfl)⟩

end Quarrel

end Escrow
