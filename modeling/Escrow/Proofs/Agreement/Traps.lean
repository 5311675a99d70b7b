import Escrow.Proofs.Agreement.Refusals

/-!
# Traps

A machine has no sum that leaves the range of amounts, no difference of positions
below zero and no member of a list behind its end: where it comes to one of these it
*traps*, and does not give a verdict. The rules of agreements are written here as a
machine follows them (`Trapping`): sums, differences and members are asked for where
they are needed, without a look at whether they are there.

They are there (`Inspection.InRange`) whenever a machine comes to them. So it never
traps, and its verdict is that of the rules.

Main statement: `verdict_run`.
-/

namespace Escrow

/-- A computation that gives a value or finds a rule broken, unless it traps. -/
abbrev Trapping := ExceptT Violation Option

namespace Trapping

variable {α : Type}

/-- A value that has to be there. -/
def need (x : Option α) : Trapping α :=
  ExceptT.mk (x.map .ok)

/-- The difference of two positions, unless it is below zero. -/
def minus? (m n : Nat) : Option Nat :=
  if n ≤ m then some (m - n) else none

/-- The members of a list before a position, unless that is behind the end. -/
def before? (as : List α) (n : Nat) : Option (List α) :=
  if n ≤ as.length then some (as.take n) else none

/-! ## Single checks -/

def soundPayload (params : Params) (tx : Transaction) : Trapping Payload := do
  let some last := minus? tx.outputs.length 1 | throw .noOutputs
  let others ← need (before? tx.outputs last)
  if let some vout := others.findIdx? (·.lock.data?.isSome) then throw (.extraPayload vout)
  let out ← need tx.outputs[last]?
  let some data := out.lock.data? | throw .missingPayload
  if params.maxPayload < data.length then
    throw (.payloadTooLarge data.length params.maxPayload)
  match Payload.decode data with
  | .error e => throw (.malformedPayload e)
  | .ok p =>
    if p.version ≠ payloadVersion then throw (.unsupportedVersion p.version)
    return p

def signedBy (i : Inspection) (role : String) : Party → Trapping Bool
  | .key k => do
    let total ← need (Amount.total? ((i.spentOf k).map Output.value))
    return 0 < total
  | .script _ => throw (.scriptKey role)

def requireSigner (i : Inspection) (role : String) (p : Party) : Trapping Unit := do
  if !(← signedBy i role p) then throw (.notSignedBy role)

def expectOutput (i : Inspection) (vout : Nat) (what : String) (rule : ValueRule) (lock : Lock) :
    Trapping Unit := do
  let last ← need (minus? i.tx.outputs.length 1)
  let some out := i.tx.outputs[vout]?.filter fun _ => vout < last | throw (.missingOutput vout what)
  if out.lock ≠ lock then throw (.wrongOutputLock vout what)
  match rule with
  | .exactly v => if out.value ≠ v then throw (.wrongOutputValue vout what v out.value)
  | .atLeast v => if out.value < v then throw (.outputValueTooLow vout what v out.value)

/-- Looks at the outputs one after the other. -/
def noEscrowAmong (i : Inspection) (vouts : List Nat) : Trapping Unit :=
  vouts.forM fun vout => do
    let out ← need i.tx.outputs[vout]?
    if out.lock.isEscrow then throw (.foreignOutput vout)

def noEscrowOutputsFrom (i : Inspection) (first : Nat) : Trapping Unit := do
  let last ← need (minus? i.tx.outputs.length 1)
  noEscrowAmong i (List.range' first (last - first))

def previousEvent (i : Inspection) (vin : Nat) (a : Agreement) : Trapping Record := do
  let some input := i.tx.inputs[vin]? | throw (.missingInput vin "previous event")
  let o := input.prevout
  if o.vout ≠ 0 then throw .invalidPreviousEvent
  let some r := i.ledger.record? o.txid | throw .invalidPreviousEvent
  if !r.isConfirmed then throw (.previousEventUnconfirmed o.txid)
  let some op := r.operation? | throw .invalidPreviousEvent
  if !Inspection.isEventOf a o.txid op then throw .invalidPreviousEvent
  let out ← need i.spent[vin]?
  if out.lock ≠ eventLock a.offerId then throw (.wrongEventLock vin)
  if op.function = .dispute then throw .agreementDisputed
  return r

def expectPayment (i : Inspection) (vout : Nat) (what role : String) (amount : Amount) (p : Party) :
    Trapping Nat := do
  if 0 < amount then
    let lock ← p.paymentLock role
    expectOutput i vout what (.exactly amount) lock
    return vout + 1
  else return vout

/-! ## Operations -/

def checkParties (i : Inspection) (o : Offer) : Trapping Unit := do
  let source ← o.source.validKey "source"
  let destination ← o.destination.validKey "destination"
  if source = destination then throw .sameParty
  requireSigner i "source" o.source
  if let some arbitrator := o.arbitrator then
    let arbitrator ← arbitrator.validKey "arbitrator"
    if arbitrator = source ∨ arbitrator = destination then throw .arbitratorIsParty

def checkOffer (i : Inspection) (o : Offer) : Trapping Unit := do
  i.noEscrowInputsFrom 0
  checkParties i o
  i.checkTerms o
  i.checkAmends o
  expectOutput i 0 "marker" (.atLeast i.params.markerValue) globalLock
  noEscrowOutputsFrom i 1

def checkStopOffer (i : Inspection) (offer : TxId) (memo : String) : Trapping Unit := do
  let (_, o) ← i.offerAt "offer" offer
  i.expectInput 0 "offer marker" ⟨offer, 0⟩
  i.noEscrowInputsFrom 1
  i.checkMemo memo
  if !(← signedBy i "destination" o.destination) then
    if !(← signedBy i "source" o.source) then throw (.notSignedBy "offer source or destination")
    if o.flags.has .noCancel then throw .offerNotCancellable
  noEscrowOutputsFrom i 0

def checkAmended (i : Inspection) (o : Offer) : Trapping Nat := do
  if o.flags.has .amendment then
    let some id := o.amends | throw .missingReference
    let a ← i.agreementAt id
    let event ← previousEvent i 1 a
    if o.flags.has .awaitNotaries then i.checkNotarized "previous event" event
    i.expectInput 2 "agreement deposit" ⟨id, 1⟩
    return 3
  else return 1

def checkAccept (i : Inspection) (offer : TxId) : Trapping Unit := do
  let (r, o) ← i.offerAt "offer" offer
  i.expectInput 0 "offer marker" ⟨offer, 0⟩
  if o.flags.has .close then throw (.closeOfferNotAcceptable offer)
  i.checkAge (r.height.getD 0)
  if o.flags.has .awaitNotaries then i.checkNotarized "offer" r
  requireSigner i "destination" o.destination
  let escrowInputs ← checkAmended i o
  i.noEscrowInputsFrom escrowInputs
  expectOutput i 0 "baton" (.exactly i.params.markerValue) (eventLock offer)
  expectOutput i 1 "deposit" (.exactly o.deposit) globalLock
  noEscrowOutputsFrom i (← expectPayment i 2 "payment" "source" o.payment o.source)

def checkClose (i : Inspection) (agreement offer : TxId) (payout : Amount) : Trapping Unit := do
  let a ← i.agreementAt agreement
  let (r, o) ← i.offerAt "closing offer" offer
  if !(o.flags.has .amendment && o.flags.has .close) then throw (.notACloseOffer offer)
  if o.amends ≠ some agreement then throw (.referenceMismatch "closing offer")
  if o.payment ≠ payout then throw (.payoutMismatch o.payment payout)
  i.checkAge (r.height.getD 0)
  let event ← previousEvent i 0 a
  if o.flags.has .awaitNotaries then
    i.checkNotarized "offer" r
    i.checkNotarized "previous event" event
  i.expectInput 1 "agreement deposit" ⟨agreement, 1⟩
  i.expectInput 2 "closing offer marker" ⟨offer, 0⟩
  i.noEscrowInputsFrom 3
  requireSigner i "destination" o.destination
  noEscrowOutputsFrom i (← expectPayment i 0 "payout" "source" payout o.source)

def checkDispute (i : Inspection) (d : Dispute) : Trapping Unit := do
  let a ← i.agreementAt d.agreement
  if !d.flags.isKnown then throw (.unknownFlags d.flags.bits)
  if d.memo.utf8ByteSize = 0 then throw .emptyMemo
  i.checkMemo d.memo
  if a.offer.arbitrator.isNone then throw .noArbitrator
  if a.offer.flags.has .noDisputes then throw .disputesDisabled
  if d.claimant ≠ a.offer.source ∧ d.claimant ≠ a.offer.destination then throw .claimantNotParty
  requireSigner i "claimant" d.claimant
  let _ ← previousEvent i 0 a
  i.noEscrowInputsFrom 1
  expectOutput i 0 "dispute fee" (.exactly a.offer.disputeFee) (eventLock a.offerId)
  noEscrowOutputsFrom i 1

def checkStopDispute (i : Inspection) (agreement dispute : TxId) (memo : String) :
    Trapping Unit := do
  let a ← i.agreementAt agreement
  let d ← i.disputeAt a dispute
  i.expectInput 0 "dispute" ⟨dispute, 0⟩
  i.noEscrowInputsFrom 1
  i.checkMemo memo
  if d.flags.has .final then throw .disputeFinal
  let byClaimant ← signedBy i "claimant" d.claimant
  let byArbitrator ← match a.offer.arbitrator with
    | some p => signedBy i "arbitrator" p
    | none => pure false
  if !byClaimant && !byArbitrator then throw (.notSignedBy "claimant or arbitrator")
  expectOutput i 0 "baton" (.exactly i.params.markerValue) (eventLock a.offerId)
  noEscrowOutputsFrom i 1

def checkResolve (i : Inspection) (agreement dispute : TxId) (payout : Amount) (memo : String) :
    Trapping Unit := do
  let a ← i.agreementAt agreement
  let d ← i.disputeAt a dispute
  i.expectInput 0 "dispute" ⟨dispute, 0⟩
  i.expectInput 1 "agreement deposit" ⟨agreement, 1⟩
  i.noEscrowInputsFrom 2
  i.checkMemo memo
  let some arbitrator := a.offer.arbitrator | throw .noArbitrator
  requireSigner i "arbitrator" arbitrator
  let deposit := a.offer.deposit
  if payout < 0 ∨ deposit < payout then throw (.payoutOutOfRange payout deposit)
  let vout ← expectPayment i 0 "claimant payout" "claimant" payout d.claimant
  let rest ← need (deposit.sub? payout)
  let vout ← expectPayment i vout "defendant payout" "defendant" rest (a.offer.opponent d.claimant)
  noEscrowOutputsFrom i vout

def checkOperation (i : Inspection) : Operation → Trapping Unit
  | .offer o => checkOffer i o
  | .stopOffer offer memo => checkStopOffer i offer memo
  | .accept offer => checkAccept i offer
  | .close agreement offer payout => checkClose i agreement offer payout
  | .dispute d => checkDispute i d
  | .stopDispute agreement dispute memo => checkStopDispute i agreement dispute memo
  | .resolve agreement dispute payout memo => checkResolve i agreement dispute payout memo
  | .unlock .. => throw .unlockOperation

def validate (l : Ledger) (params : Params) (tx : Transaction) : Trapping Unit := do
  let p ← soundPayload params tx
  let spent ← l.prevouts 0 tx.inputs
  let i : Inspection := ⟨l, params, tx, spent⟩
  i.checkFee
  checkOperation i p.operation

/-! ## What does not trap -/

@[simp] theorem need_some (a : α) : need (some a) = pure a := rfl

@[simp] theorem liftM_throw (v : Violation) :
    (liftM (throw v : Except Violation α) : Trapping α) = throw v := rfl

@[simp] theorem liftM_ite {c : Prop} [Decidable c] (x y : Except Violation α) :
    (liftM (if c then x else y) : Trapping α) = if c then liftM x else liftM y :=
  apply_ite ..

/-- The last output is there when its payload is looked for. -/
theorem soundPayload_eq (params : Params) (tx : Transaction) :
    soundPayload params tx = liftM (tx.soundPayload params) := by
  -- There is no last output, or all others come before it.
  rcases List.eq_nil_or_concat tx.outputs with h | ⟨others, last, h⟩
  · simp [soundPayload, Transaction.soundPayload, h, minus?]
  · rw [List.concat_eq_append] at h
    simp only [soundPayload, Transaction.soundPayload, h, minus?, before?, List.length_append,
      List.length_singleton, Nat.le_add_left, Nat.le_add_right, if_true, Nat.add_sub_cancel,
      need_some, pure_bind, List.take_left, List.getElem?_concat_length, List.getLast?_concat,
      List.dropLast_concat]
    cases hextra : others.findIdx? (·.lock.data?.isSome) with
    | some vout => rfl
    | none =>
      cases hdata : last.lock.data? with
      | none => rfl
      | some data =>
        cases hp : Payload.decode data with
        | error e => simp [hp, throw_bind]
        | ok p => simp [hp, throw_bind]

section
variable {i : Inspection} (h : i.InRange)
include h

theorem minus?_length : minus? i.tx.outputs.length 1 = some i.made.length := by
  have hpos : 1 ≤ i.tx.outputs.length := List.length_pos_iff.2 h.outputs_ne_nil
  rw [minus?, if_pos hpos, Inspection.made, List.length_dropLast]

/-- What a signer spends has a sum when it is asked for. -/
theorem signedBy_eq (role : String) (p : Party) :
    signedBy i role p = liftM (i.signedBy role p) := by
  cases p with
  | script bs => rfl
  | key k =>
    obtain ⟨total, htotal, -⟩ := h.exists_total k
    simp only [signedBy, Inspection.signedBy, htotal, need_some, pure_bind]
    rfl

theorem requireSigner_eq (role : String) (p : Party) :
    requireSigner i role p = liftM (i.requireSigner role p) := by
  simp [requireSigner, Inspection.requireSigner, signedBy_eq h]

theorem expectOutput_eq (vout : Nat) (what : String) (rule : ValueRule) (lock : Lock) :
    expectOutput i vout what rule lock = liftM (i.expectOutput vout what rule lock) := by
  have hfilter : (i.tx.outputs[vout]?.filter fun _ => vout < i.made.length) = i.made[vout]? := by
    rw [Inspection.made, List.getElem?_dropLast, List.length_dropLast]
    cases i.tx.outputs[vout]? <;> simp [Option.filter]
  simp only [expectOutput, Inspection.expectOutput, minus?_length h, need_some, pure_bind, hfilter]
  cases i.made[vout]? with
  | none => rfl
  | some out => cases rule <;> simp [throw_bind]

omit h in
/-- The outputs looked at are there, and the first one in escrow is found. -/
theorem noEscrowAmong_eq {first count : Nat} (hle : first + count ≤ i.tx.outputs.length) :
    noEscrowAmong i (List.range' first count) =
      (((i.tx.outputs.drop first).take count).findIdx? (·.lock.isEscrow)).elim (pure ())
        fun n => throw (.foreignOutput (first + n)) := by
  -- Each position of the range is one of an output.
  induction count generalizing first with
  | zero => rfl
  | succ count ih =>
    have hlt : first < i.tx.outputs.length := by omega
    have hnext : first + 1 + count ≤ i.tx.outputs.length := by omega
    have hrest := ih hnext
    rw [noEscrowAmong, List.forM_eq_forM] at hrest ⊢
    rw [List.range'_succ, List.forM_cons, hrest, List.getElem?_eq_getElem hlt, need_some, pure_bind,
      List.drop_eq_getElem_cons hlt, List.take_succ_cons, List.findIdx?_cons]
    by_cases hescrow : i.tx.outputs[first].lock.isEscrow
    · simp [hescrow]
    · simp only [hescrow]
      cases ((i.tx.outputs.drop (first + 1)).take count).findIdx? (·.lock.isEscrow) <;>
        simp [Nat.add_assoc, Nat.add_comm 1]

theorem noEscrowOutputsFrom_eq (first : Nat) :
    noEscrowOutputsFrom i first = liftM (i.noEscrowOutputsFrom first) := by
  have hmade : (i.tx.outputs.drop first).take (i.made.length - first) = i.made.drop first := by
    rw [Inspection.made, List.length_dropLast, List.dropLast_eq_take, List.drop_take]
  rw [noEscrowOutputsFrom, minus?_length h, need_some, pure_bind]
  by_cases hfirst : first ≤ i.made.length
  · have hle : first + (i.made.length - first) ≤ i.tx.outputs.length := by
      have := i.tx.outputs.length_dropLast
      rw [← Inspection.made] at this
      omega
    rw [noEscrowAmong_eq hle, hmade, Inspection.noEscrowOutputsFrom]
    cases (i.made.drop first).findIdx? (·.lock.isEscrow) <;> rfl
  · have hnone : i.made.length - first = 0 := by omega
    rw [hnone, Inspection.noEscrowOutputsFrom, List.drop_eq_nil_of_le (by omega)]
    rfl

theorem previousEvent_eq (vin : Nat) (a : Agreement) :
    previousEvent i vin a = liftM (i.previousEvent vin a) := by
  cases hinput : i.tx.inputs[vin]? with
  | none => simp [previousEvent, Inspection.previousEvent, hinput]
  | some input =>
    have hvin : vin < i.spent.length := by
      rw [h.length_spent]
      exact (List.getElem?_eq_some_iff.1 hinput).1
    cases hr : i.ledger.record? input.prevout.txid with
    | none => simp [previousEvent, Inspection.previousEvent, hinput, hr, throw_bind]
    | some r =>
      cases hop : r.operation? with
      | none => simp [previousEvent, Inspection.previousEvent, hinput, hr, hop, throw_bind]
      | some op =>
        simp [previousEvent, Inspection.previousEvent, hinput, hr, hop, throw_bind, hvin]

theorem expectPayment_eq (vout : Nat) (what role : String) (amount : Amount) (p : Party) :
    expectPayment i vout what role amount p = liftM (i.expectPayment vout what role amount p) := by
  simp [expectPayment, Inspection.expectPayment, expectOutput_eq h]

theorem checkParties_eq (o : Offer) : checkParties i o = liftM (i.checkParties o) := by
  cases harbitrator : o.arbitrator <;>
    simp [checkParties, Inspection.checkParties, requireSigner_eq h, harbitrator, throw_bind]

theorem checkOffer_eq (o : Offer) : checkOffer i o = liftM (i.checkOffer o) := by
  simp [checkOffer, Inspection.checkOffer, checkParties_eq h, expectOutput_eq h,
    noEscrowOutputsFrom_eq h]

theorem checkStopOffer_eq (offer : TxId) (memo : String) :
    checkStopOffer i offer memo = liftM (i.checkStopOffer offer memo) := by
  simp [checkStopOffer, Inspection.checkStopOffer, signedBy_eq h, noEscrowOutputsFrom_eq h,
    throw_bind]

theorem checkAmended_eq (o : Offer) : checkAmended i o = liftM (i.checkAmended o) := by
  cases ho : o.amends <;> simp [checkAmended, Inspection.checkAmended, ho, previousEvent_eq h]

theorem checkAccept_eq (offer : TxId) : checkAccept i offer = liftM (i.checkAccept offer) := by
  simp [checkAccept, Inspection.checkAccept, requireSigner_eq h, checkAmended_eq h,
    expectOutput_eq h, expectPayment_eq h, noEscrowOutputsFrom_eq h, throw_bind]

theorem checkClose_eq (agreement offer : TxId) (payout : Amount) :
    checkClose i agreement offer payout = liftM (i.checkClose agreement offer payout) := by
  simp [checkClose, Inspection.checkClose, previousEvent_eq h, requireSigner_eq h,
    expectPayment_eq h, noEscrowOutputsFrom_eq h, throw_bind]

theorem checkDispute_eq (d : Dispute) : checkDispute i d = liftM (i.checkDispute d) := by
  simp [checkDispute, Inspection.checkDispute, requireSigner_eq h, previousEvent_eq h,
    expectOutput_eq h, noEscrowOutputsFrom_eq h, throw_bind]

theorem checkStopDispute_eq (agreement dispute : TxId) (memo : String) :
    checkStopDispute i agreement dispute memo =
      liftM (i.checkStopDispute agreement dispute memo) := by
  simp only [checkStopDispute, Inspection.checkStopDispute, liftM_bind]
  refine bind_congr fun a => ?_
  cases harbitrator : a.offer.arbitrator <;>
    simp [signedBy_eq h, expectOutput_eq h, noEscrowOutputsFrom_eq h, throw_bind]

theorem checkResolve_eq (agreement dispute : TxId) (payout : Amount) (memo : String) :
    checkResolve i agreement dispute payout memo =
      liftM (i.checkResolve agreement dispute payout memo) := by
  simp only [checkResolve, Inspection.checkResolve, liftM_bind]
  refine bind_congr fun a => ?_
  cases harbitrator : a.offer.arbitrator with
  | none => simp
  | some p =>
    by_cases hrange : payout < 0 ∨ a.offer.deposit < payout
    · simp [hrange, requireSigner_eq h, throw_bind]
    · obtain ⟨hrest, -⟩ := Amount.sub?_of_le (not_or.1 hrange).1 (not_or.1 hrange).2
      simp [hrange, hrest, requireSigner_eq h, expectPayment_eq h, noEscrowOutputsFrom_eq h]

theorem checkOperation_eq (op : Operation) :
    checkOperation i op = liftM (i.checkOperation op) := by
  cases op with
  | offer o => exact checkOffer_eq h o
  | stopOffer offer memo => exact checkStopOffer_eq h offer memo
  | accept offer => exact checkAccept_eq h offer
  | close agreement offer payout => exact checkClose_eq h agreement offer payout
  | dispute d => exact checkDispute_eq h d
  | stopDispute agreement dispute memo => exact checkStopDispute_eq h agreement dispute memo
  | resolve agreement dispute payout memo => exact checkResolve_eq h agreement dispute payout memo
  | unlock => rfl

end

/-- Without outputs there is none to count back from. -/
example (l : Ledger) (q : Params) : (noEscrowOutputsFrom ⟨l, q, {}, []⟩ 0).run = none := rfl

/-- A machine comes to the verdict of the rules. -/
theorem validate_eq {validators : List Validator} {l : Ledger} (hl : Reachable validators l)
    (q : Params) (tx : Transaction) : validate l q tx = liftM (Escrow.validate l q tx) := by
  rw [validate, Escrow.validate, soundPayload_eq]
  cases hp : tx.soundPayload q with
  | error v => rfl
  | ok p =>
    cases hspent : l.prevouts 0 tx.inputs with
    | error v => rfl
    | ok spent =>
      let i : Inspection := ⟨l, q, tx, spent⟩
      change liftM i.checkFee >>= (fun _ => checkOperation i p.operation) =
        (liftM (i.checkFee >>= fun _ => i.checkOperation p.operation) : Trapping Unit)
      cases hfee : i.checkFee with
      | error v => rfl
      | ok =>
        -- What comes next is in range by now.
        have hrange : i.InRange :=
          hl.inRange (soundPayload_eq_ok_iff.1 hp) (prevouts_eq_ok_iff.1 hspent) hfee
        rw [checkOperation_eq hrange]
        rfl

end Trapping

/-- *Verdicts*: in a run of a host that keeps the rules of agreements, a machine that
    follows them comes to their verdict on every transaction, and does not trap. What
    the inputs of a key spend has a sum, which is exact, as soon as the fee is
    covered; the positions looked at are there; and what is left of a deposit is a
    part of it. -/
theorem verdict_run (genesis : Timestamp) (blockTime : UInt64) (params : Params)
    (others : List Validator) (cs : List Command) (q : Params) (tx : Transaction) :
    let l := ((Host.underRules genesis blockTime params others).run cs).ledger
    (Trapping.validate l q tx).run = some (validate l q tx) ∧
    validate l q tx ≠ .error .keySumOverflow ∧
    ∀ p spent, tx.soundPayload q = .ok p → l.prevouts 0 tx.inputs = .ok spent →
      let i : Inspection := ⟨l, q, tx, spent⟩
      i.checkFee = .ok () → i.InRange ∧
        ∀ agreement dispute payout memo, p.operation = .resolve agreement dispute payout memo →
          ∀ a, i.agreementAt agreement = .ok a → 0 ≤ payout → payout ≤ a.offer.deposit →
            a.offer.deposit.sub? payout = some (a.offer.deposit - payout) ∧
              0 ≤ a.offer.deposit - payout ∧ a.offer.deposit - payout ≤ a.offer.deposit := by
  intro l
  have hl := Host.reachable_underRules_run genesis blockTime params others cs
  have hv := Host.keepsRules_underRules genesis blockTime params others
  refine ⟨?_, hl.validate_ne_keySumOverflow hv, fun p spent hp hspent => ?_⟩
  · rw [Trapping.validate_eq hl]
    rfl
  · intro i hfee
    refine ⟨hl.inRange (soundPayload_eq_ok_iff.1 hp) (prevouts_eq_ok_iff.1 hspent) hfee, ?_⟩
    intro agreement dispute payout memo _ a _ hpos hle
    exact Amount.sub?_of_le (Int64.not_lt.2 hpos) (Int64.not_lt.2 hle)

namespace Quarrel

/-- The resolve of the dispute under inspection. -/
def resolving : Inspection :=
  ⟨disputed, {}, resolve,
    [⟨10000, eventLock offerId⟩, ⟨10000, globalLock⟩, ⟨20000, .key arbitrator⟩]⟩

/-- The machine lets the arbitrator resolve the dispute. All that it counts with is in
    range, and nothing is left of the deposit. -/
theorem resolve_allowed :
    let l := ((Host.underRules ⟨0, 0⟩ 60 {} []).run (commands.take 7)).ledger
    let a : Agreement := ⟨acceptId, 3, offerId, terms⟩
    (resolve.soundPayload {} = .ok ⟨payloadVersion, .resolve acceptId disputeId 10000 ""⟩ ∧
      l.prevouts 0 resolve.inputs = .ok resolving.spent ∧ resolving.checkFee = .ok () ∧
      resolving.agreementAt acceptId = .ok a ∧ 0 ≤ (10000 : Amount) ∧ 10000 ≤ a.offer.deposit) ∧
    (Trapping.validate l {} resolve).run = some (.ok ()) ∧ resolving.InRange ∧
      a.offer.deposit.sub? 10000 = some 0 := by
  intro l a
  have hallowed : validate disputed {} resolve = .ok () := by decide +kernel
  have hpayload : resolve.soundPayload {} =
      .ok ⟨payloadVersion, .resolve acceptId disputeId 10000 ""⟩ := by decide +kernel
  have hspent : disputed.prevouts 0 resolve.inputs = .ok resolving.spent := rfl
  have hfee : resolving.checkFee = .ok () := by decide +kernel
  have hagreement : resolving.agreementAt acceptId = .ok a := by decide +kernel
  have hpos : 0 ≤ (10000 : Amount) := by decide
  have hle : 10000 ≤ a.offer.deposit := by decide
  have h := verdict_run ⟨0, 0⟩ 60 {} [] (commands.take 7) {} resolve
  rw [show l = disputed from disputed_run]
  dsimp only at h
  rw [disputed_run] at h
  obtain ⟨hverdict, -, hrest⟩ := h
  obtain ⟨hrange, hpart⟩ := hrest _ _ hpayload hspent hfee
  obtain ⟨hsub, -, -⟩ := hpart _ _ _ _ rfl a hagreement hpos hle
  exact ⟨⟨hpayload, hspent, hfee, hagreement, hpos, hle⟩, hverdict.trans (congrArg some hallowed),
    hrange, hsub.trans (by decide)⟩

end Quarrel

end Escrow
