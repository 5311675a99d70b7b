import Escrow.Proofs.Agreement.Accounting
import Escrow.Proofs.Agreement.Consent

/-!
# What recorded offers and outputs are like

A recorded offer was once found sound, so its parties are keys, its amounts are at
least those of markers, and an amendment names an agreement of the same parties
(`Reachable.sound_offer`). An output in escrow has one of two locks, both of which
the global key may sign for (`Reachable.authorizes_global`), and a baton has the one
that belongs to the offer that its agreement accepted (`HoldsBaton.lock_eq`).
-/

namespace Escrow

/-- The terms of an offer are sound, and what it amends is in a ledger. -/
structure Offer.Sound (params : Params) (l : Ledger) (o : Offer) : Prop where
  source : ∃ k, o.source = .key k ∧ k.isValid
  destination : ∃ k, o.destination = .key k ∧ k.isValid
  differ : o.source ≠ o.destination
  arbitrator : ∀ p, o.arbitrator = some p → ∃ k, p = .key k ∧ k.isValid
  close : o.flags.has .close → o.flags.has .amendment
  deposit : params.markerValue ≤ o.deposit
  disputeFee : params.markerValue ≤ o.disputeFee
  payment : 0 ≤ o.payment
  amended : o.flags.has .amendment → ∃ a, o.amends = some a.txid ∧ l.Agrees a ∧
    Inspection.sameParties o a.offer

theorem globalLock_authorizes : globalLock.authorizes KeyPair.global.publicKey := by
  rw [globalLock, Lock.authorizes, globalCondition, Condition.oneOfOne, List.contains_iff_mem]
  exact List.mem_cons_self

theorem eventLock_authorizes (offer : TxId) :
    (eventLock offer).authorizes KeyPair.global.publicKey := by
  rw [eventLock, Lock.authorizes, eventCondition, Condition.oneOfTwo, List.contains_iff_mem]
  exact List.mem_cons_self

section
variable {validators : List Validator} {params : Params} {l : Ledger}
variable (hl : Reachable validators l) (hv : KeepsRules validators params)
include hl hv

/-- Every recorded offer is sound. -/
theorem Reachable.sound_offer {id : TxId} {o : Offer} (ho : l.Does id (.offer o)) :
    o.Sound params l := by
  obtain ⟨before, tx, spent, rfl, h⟩ := hl.enacted_of_does hv ho
  rcases h.obeys with ⟨hobeys⟩
  refine ⟨hobeys.parties.source, hobeys.parties.destination, hobeys.parties.differ,
    fun p hp => (hobeys.parties.arbitrator p hp).1, hobeys.terms.close, hobeys.terms.deposit,
    hobeys.terms.disputeFee, hobeys.terms.payment, fun hamendment => ?_⟩
  obtain ⟨a, ha, hagrees, -, hparties⟩ := hobeys.amends.amended hamendment
  exact ⟨a, ha, hagrees.grows h.grows_before hl.sound, hparties⟩

/-- A confirmed accept has accepted a confirmed offer, so it is an agreement. -/
theorem Reachable.exists_agrees {id offer : TxId} {r : Record}
    (hr : l.Confirms id r (.accept offer)) :
    ∃ a, l.Agrees a ∧ a.txid = id ∧ a.offerId = offer := by
  obtain ⟨before, tx, spent, htx, h⟩ := hl.enacted_of_does hv hr.does
  cases h.obeys with
  | @accept _ s o hobeys =>
    exact ⟨⟨id, r.height.getD 0, offer, o⟩,
      ⟨⟨r, hr, rfl⟩, s, hobeys.offer.grows h.grows_before hl.sound⟩, rfl, rfl⟩

/-- The terms of an agreement are sound. -/
theorem Reachable.sound_agreement {a : Agreement} (ha : l.Agrees a) : a.offer.Sound params l := by
  obtain ⟨r, hr⟩ := ha.offer
  exact hl.sound_offer hv hr.does

/-- An agreement whose offer names another has amended that one, under the rules. -/
theorem Reachable.exists_amends {a : Agreement} {amended : TxId} (ha : l.Agrees a)
    (hamends : a.offer.amends = some amended) :
    a.offer.flags.has .amendment ∧ ∃ r before spent b e,
      l.Confirms a.txid r (.accept a.offerId) ∧ r.height = some a.height ∧
      Enacted validators params l before r.tx spent (.accept a.offerId) ∧ b.txid = amended ∧
      (⟨before, params, r.tx, spent⟩ : Inspection).Amends a.offer b e := by
  obtain ⟨⟨r, hr, hheight⟩, s, hs⟩ := ha
  obtain ⟨height, hheight'⟩ := Option.isSome_iff_exists.1 hr.isConfirmed
  rw [hheight'] at hheight
  obtain ⟨before, spent, h⟩ := hl.enacted hv (Ledger.mem_of_record? hr.record?).1 hr.operation?
  rcases id h.obeys with _ | _ | hobeys
  cases (hobeys.offer.does.grows h.grows_before hl.sound).unique hs.does
  -- An offer that is no amendment names no agreement.
  have hamendment : a.offer.flags.has .amendment := by
    obtain ⟨before', tx, spent', -, hoffer⟩ := hl.enacted_of_does hv hs.does
    rcases hoffer.obeys with ⟨hoffer⟩
    by_contra hnot
    cases hamends.symm.trans (hoffer.amends.none hnot)
  obtain ⟨b, e, ham⟩ := hobeys.amends hamendment
  exact ⟨hamendment, r, before, spent, b, e, hr, hheight ▸ hheight', h,
    Option.some.inj (ham.amends.symm.trans hamends), ham⟩

/-- So it has spent the deposit of that one. -/
theorem Reachable.spends_amended {a : Agreement} {amended : TxId} (ha : l.Agrees a)
    (hamends : a.offer.amends = some amended) :
    ∃ r, l.Confirms a.txid r (.accept a.offerId) ∧ ⟨amended, 1⟩ ∈ r.tx.spends := by
  obtain ⟨-, r, before, spent, b, e, hr, -, -, rfl, ham⟩ := hl.exists_amends hv ha hamends
  exact ⟨r, hr, List.mem_of_getElem? ham.deposit⟩

/-- The global key may sign for everything in escrow. -/
theorem Reachable.authorizes_global {o : Outpoint} {out : Output} (hout : l.prevout? o = some out)
    (hescrow : out.lock.isEscrow) : out.lock.authorizes KeyPair.global.publicKey := by
  have hc : l.holding? o = some ⟨o.txid, o.vout.toNat, out⟩ := by rw [Ledger.holding?, hout]; rfl
  obtain ⟨p, hp⟩ := hl.serves hv (hl.sound.mem_outputs_of_holding? hc) hescrow
  rcases hp with ⟨-, -, hlock, -⟩ | ⟨-, -, -, hlock, -⟩ | ⟨-, -, hlock, -⟩ |
    ⟨-, -, -, -, hlock, -⟩ | ⟨-, -, -, hlock, -⟩ <;> rw [hlock]
  · exact globalLock_authorizes
  · exact globalLock_authorizes
  · exact eventLock_authorizes _
  · exact eventLock_authorizes _
  · exact eventLock_authorizes _

/-- A baton is locked for the offer that its agreement accepted. -/
theorem Ledger.HoldsBaton.lock_eq {agreement b offer : TxId} {out : Output}
    (hb : l.HoldsBaton agreement b) (hA : l.Does agreement (.accept offer))
    (hout : l.prevout? ⟨b, 0⟩ = some out) : out.lock = eventLock offer := by
  obtain ⟨out', hc, hserves⟩ := hb.exists_holding hl hv
  obtain ⟨-, -, hout'⟩ := Ledger.holding?_eq_some_iff.1 hc
  cases hout.symm.trans hout'
  have hoffer : ∀ {offer'}, l.Does agreement (.accept offer') → offer' = offer := fun hA' =>
    Operation.accept.inj (hA'.unique hA)
  rcases hserves with _ | _ | ⟨hA', -, hlock, -⟩ | ⟨-, hA', -, -, hlock, -⟩ | ⟨-, hA', -, hlock, -⟩
  · rw [hlock, hoffer hA']
  · rw [hlock, hoffer hA']
  · rw [hlock, hoffer hA']

end

end Escrow
