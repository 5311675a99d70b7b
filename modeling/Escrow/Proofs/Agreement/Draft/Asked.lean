import Escrow.Agreement.Draft.Request
import Escrow.Proofs.Agreement.Draft.Completion
import Escrow.Proofs.Agreement.Latest

/-!
# What drafters are asked first

What each of the questions takes that a drafter is asked: an offer is open, a
dispute is open, an agreement is confirmed, and so on. They are asked of the ledger
in other words than the rules have, and most of all this one: an agreement is free
for another event. The drafter follows the events to the last one, while the rules
look at the baton that is spent. Both come to the same (`free_of_freeBaton`): the
last event is confirmed, it is no dispute, and its baton and the deposit can be
spent (`Ledger.Free`).

All this is said of a reachable ledger in which nothing waits for a block, under
usable parameters (`Settled`). An event that waits would be overlooked by who
follows confirmed ones.
-/

namespace Escrow

/-- A ledger that a host has reached which keeps the rules of agreements, and in
    which nothing waits for a block. The parameters are usable. Positions of outputs
    and lengths of payloads are those of things that are held in memory. -/
structure Settled (validators : List Validator) (params : Params) (l : Ledger) : Prop where
  reachable : Reachable validators l
  rules : KeepsRules validators params
  mempool : l.mempool = []
  usable : params.check = .ok ()
  nameable : l.Nameable
  limit : params.maxPayload < Wire.sizeLimit

/-- A run under usable parameters after which nothing waits for a block leads to a settled
    ledger. -/
theorem Host.settled_underRules_run (genesis : Timestamp) (blockTime : UInt64) {params : Params}
    (others : List Validator) (cs : List Command) (husable : params.check = .ok ())
    (hlimit : params.maxPayload < Wire.sizeLimit)
    (hmempool : ((underRules genesis blockTime params others).run cs).ledger.mempool = [])
    (hnameable : ((underRules genesis blockTime params others).run cs).ledger.Nameable) :
    Settled ((underRules genesis blockTime params others).run cs).validators params
      ((underRules genesis blockTime params others).run cs).ledger := by
  obtain ⟨-, hvalidators⟩ := leads_run (underRules genesis blockTime params others) cs
  rw [hvalidators]
  exact ⟨reachable_underRules_run .., keepsRules_underRules .., hmempool, husable, hnameable,
    hlimit⟩

/-- An agreement is free for another event: the last one is confirmed, is no dispute
    and has a baton that nothing spends, and neither is the deposit spent. -/
structure Ledger.Free (l : Ledger) (a : Agreement) (b : TxId) : Prop where
  agrees : l.Agrees a
  event : ∃ r op, l.Confirms b r op ∧ op.HandsOn a.txid b ∧ op.function ≠ .dispute
  baton : l.spentBy? ⟨b, 0⟩ = none
  deposit : l.spentBy? ⟨a.txid, 1⟩ = none

/-- The last event of a free agreement holds its baton. -/
theorem Ledger.Free.holdsBaton {l : Ledger} {a : Agreement} {b : TxId} (h : l.Free a b) :
    l.HoldsBaton a.txid b := by
  obtain ⟨r, op, hr, hhands, -⟩ := h.event
  exact ⟨op, hr.does, hhands⟩

theorem Ledger.spender?_isSome_iff {l : Ledger} {o : Outpoint} :
    (l.spender? o).isSome ↔ l.spentBy? o ≠ none := by
  rw [Ledger.spender?, Option.isSome_map, Option.isSome_iff_ne_none]

/-- A transaction is in a notarized block if its record says so. -/
theorem Ledger.isTxNotarized_eq {l : Ledger} {id : TxId} {r : Record} (hr : l.record? id = some r) :
    l.isTxNotarized id = r.height.any l.isNotarized := by
  rw [Ledger.isTxNotarized, Ledger.heightOf?, hr]
  rfl

namespace Drafter

variable {d : Drafter}

/-! ## Single questions -/

theorem is_iff {p : Party} : d.is p ↔ p = .key d.key :=
  decide_eq_true_iff

theorem checkMemo_eq_ok_iff {memo : String} :
    d.checkMemo memo = .ok () ↔ memo.utf8ByteSize ≤ d.params.maxMemo := by
  rw [checkMemo, ite_throw_eq_ok_iff, pure_eq_ok_iff, and_iff_left rfl, Nat.not_lt]

theorem checkAge_eq_ok_iff {height : Nat} :
    d.checkAge height = .ok () ↔ ¬d.params.expired height d.ledger.height := by
  simp [checkAge, ite_throw_eq_ok_iff, pure_eq_ok_iff, Params.expired]

theorem checkNotarized_eq_ok_iff {what : String} {id : TxId} :
    d.checkNotarized what id = .ok () ↔ d.ledger.isTxNotarized id := by
  rw [checkNotarized, ite_throw_eq_ok_iff, pure_eq_ok_iff, and_iff_left rfl, Bool.not_eq_true',
    Bool.not_eq_false]

theorem agreementAt_eq_ok_iff {id : TxId} {a : Agreement} :
    d.agreementAt id = .ok a ↔ a.txid = id ∧ d.ledger.Agrees a := by
  rw [agreementAt, mapError_eq_ok_iff, Ledger.findAgreement_eq_ok_iff]

/-- An offer is open if it is confirmed and nothing spends its marker. -/
theorem openOffer_eq_ok_iff {id : TxId} {r : Record} {o : Offer} :
    d.openOffer id = .ok (r, o) ↔
      d.ledger.Confirms id r (.offer o) ∧ d.ledger.spentBy? ⟨id, 0⟩ = none := by
  simp only [openOffer, bind_eq_ok_iff, mapError_eq_ok_iff, Prod.exists,
    Ledger.findOffer_eq_ok_iff, throw_bind, ite_throw_eq_ok_iff, pure_eq_ok_iff,
    Ledger.spender?_isSome_iff, not_not, Prod.mk.injEq]
  refine ⟨?_, fun ⟨ho, hunspent⟩ => ⟨r, o, ho, hunspent, rfl, rfl⟩⟩
  rintro ⟨r, o, ho, hunspent, rfl, rfl⟩
  exact ⟨ho, hunspent⟩

/-- A dispute is open if it is confirmed and nothing spends its baton. -/
theorem openDispute_eq_ok_iff {id : TxId} {x : Dispute} {a : Agreement} :
    d.openDispute id = .ok (x, a) ↔
      (∃ r, d.ledger.Confirms id r (.dispute x)) ∧ d.ledger.spentBy? ⟨id, 0⟩ = none ∧
        x.agreement = a.txid ∧ d.ledger.Agrees a := by
  simp only [openDispute, bind_eq_ok_iff, mapError_eq_ok_iff, Ledger.findDispute_eq_ok_iff,
    throw_bind, ite_throw_eq_ok_iff, pure_eq_ok_iff, Ledger.spender?_isSome_iff, not_not,
    agreementAt_eq_ok_iff, Prod.mk.injEq]
  refine ⟨?_, fun ⟨hx, hunspent, hid, ha⟩ => ⟨x, hx, hunspent, a, ⟨hid.symm, ha⟩, rfl, rfl⟩⟩
  rintro ⟨x, hx, hunspent, a, ⟨hid, ha⟩, rfl, rfl⟩
  exact ⟨hx, hunspent, hid.symm, ha⟩

/-- What pays for a part is one output to a key, or none if there is nothing to pay. -/
theorem part_eq_ok_iff {amount : Amount} {role : String} {p : Party} {outs : List Output} :
    part amount role p = .ok outs ↔
      (0 < amount ∧ ∃ k, p = .key k ∧ outs = [⟨amount, .key k⟩]) ∨ (¬0 < amount ∧ outs = []) := by
  rw [part]
  by_cases hamount : 0 < amount
  · rw [if_pos hamount]
    rcases p with k | bs
    · simp [Party.payee, hamount, eq_comm]
    · simp [Party.payee, hamount]
  · rw [if_neg hamount, pure_eq_ok_iff]
    simp [hamount, eq_comm]

theorem payment_eq (o : Offer) : payment o = part o.payment "source" o.source := rfl

end Drafter

/-! ## The last event -/

section
variable {validators : List Validator} {params : Params} {l : Ledger}

/-- In a settled ledger all that is recorded is in a block. -/
theorem Settled.isConfirmed (hs : Settled validators params l) {r : Record}
    (hr : r ∈ l.records) : r.isConfirmed := by
  have hnone := List.map_eq_nil_iff.1 hs.mempool
  rw [List.filter_eq_nil_iff] at hnone
  simpa using hnone r hr

/-- A baton that is followed by no event is unspent: who spends it is confirmed and
    does something. -/
theorem Settled.unspent_of_nextEvent? (hs : Settled validators params l) {agreement b : TxId}
    (hb : l.HoldsBaton agreement b) (hnext : l.nextEvent? b = none) :
    l.spentBy? ⟨b, 0⟩ = none := by
  rcases hspent : l.spentBy? ⟨b, 0⟩ with _ | ⟨id, vin⟩
  · rfl
  · obtain ⟨r, hr, hat⟩ := hs.reachable.sound.spentBy?_eq_some_iff.1 hspent
    obtain ⟨hmem, -⟩ := Ledger.mem_of_record? hr
    obtain ⟨height, hheight⟩ := Option.isSome_iff_exists.1 (hs.isConfirmed hmem)
    obtain ⟨out, hout, hescrow⟩ := hb.isEscrow hs.reachable hs.rules
    obtain ⟨op, hop⟩ := hs.reachable.operation?_of_spends hs.rules hmem (List.mem_of_getElem? hat)
      hout hescrow
    simp [Ledger.nextEvent?, Ledger.spender?, Ledger.heightOf?, hspent, hr, hheight,
      Record.operation?_eq, hop] at hnext

/-- If a baton of an agreement is unspent, so is the deposit. -/
theorem Settled.unspent_deposit (hs : Settled validators params l) {agreement b : TxId}
    (hb : l.HoldsBaton agreement b) (hunspent : l.spentBy? ⟨b, 0⟩ = none) :
    l.spentBy? ⟨agreement, 1⟩ = none := by
  obtain ⟨o, hA⟩ := hb.exists_accept hs.reachable hs.rules
  rw [Ledger.spentBy?_eq_none_iff] at hunspent ⊢
  exact fun hdeposit => hunspent ((hs.reachable.balanced hs.rules hA).ended hdeposit b hb)

/-- An agreement whose last event is its beginning or a stop-dispute is free. -/
theorem Settled.free_of_freeBaton (hs : Settled validators params l) {d : Drafter}
    (hd : d.ledger = l) {agreement b : TxId} (h : d.freeBaton agreement = .ok b) :
    ∃ a, a.txid = agreement ∧ l.Free a b := by
  subst hd
  obtain ⟨latest, hlatest, hfree, rfl⟩ := Drafter.freeBaton_eq_ok_iff.1 h
  obtain ⟨es, hes, hid, -⟩ := Ledger.latestEvent_eq_ok_iff.1 hlatest
  obtain ⟨⟨a, ha⟩, hfrom⟩ := Ledger.events_eq_ok_iff.1 hes
  obtain ⟨rfl, hagrees⟩ := Ledger.findAgreement_eq_ok_iff.1 ha
  obtain ⟨r, op, hr, hfun, hhands⟩ := hs.reachable.confirms_latest hs.rules hes hlatest
  have hhands := hhands (.inl hfree)
  have hb : d.ledger.HoldsBaton a.txid latest.txid := ⟨op, hr.does, hhands⟩
  have hnext : d.ledger.nextEvent? latest.txid = none := by
    rw [hid]
    refine (Ledger.walks_of_eventsFrom? hfrom).nextEvent?_eq_none fun e hlast hends => ?_
    -- An event that ends the agreement makes no baton of it.
    obtain ⟨_, -, htells⟩ := hs.reachable.tells hs.rules hes
    rw [hid, hlast] at hb
    exact (htells.ended e (List.mem_of_getLast? hlast) hends).2.1 hb
  have hunspent := hs.unspent_of_nextEvent? hb hnext
  exact ⟨a, rfl, hagrees, ⟨r, op, hr, hhands, hfun ▸ hfree.ne_dispute⟩, hunspent,
    hs.unspent_deposit hb hunspent⟩

end

end Escrow
