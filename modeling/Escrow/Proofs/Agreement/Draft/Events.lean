import Escrow.Proofs.Agreement.Draft.Plans

/-!
# Drafts of events

What a drafter makes of a request to withdraw an offer, to accept one, or to open,
withdraw or resolve a dispute is admitted by the host once the drafter has signed
it. For each of these the drafter is asked what the rules ask, if not in the same
words, and lays out the transaction as they want it. What they also ask of recorded
offers and disputes was asked when these were recorded.

Main statement: `event_drafts_run`.
-/

namespace Escrow

namespace Drafter

/-- A plan is completed with the outputs that it takes from escrow. -/
structure Completes (d : Drafter) (p : Plan) (tx : Transaction) : Prop where
  released : d.released 0 p.spends = .ok p.released
  finish : d.finish p = .ok tx

/-- What is asked of who accepts an offer. -/
structure MayAccept (d : Drafter) (id : TxId) (r : Record) (o : Offer) : Prop where
  offer : d.ledger.Confirms id r (.offer o)
  marker : d.ledger.spentBy? ⟨id, 0⟩ = none
  caller : o.destination = .key d.key
  young : ¬d.params.expired (r.height.getD 0) d.ledger.height
  notarized : o.flags.has .awaitNotaries → r.height.any d.ledger.isNotarized

/-- The plans to accept an offer, given the agreement that it refers to with the
    holder of its baton, and what the source is paid: to begin an agreement, to amend
    the one referred to, or to close it. -/
inductive AcceptsBy (d : Drafter) (id : TxId) (o : Offer) (released : Amount)
    (outs : List Output) : (previous : Option (TxId × TxId)) → Plan → Prop
  | begin : AcceptsBy d id o released outs none ⟨[⟨id, 0⟩], released,
    [⟨d.params.markerValue, eventLock id⟩, ⟨o.deposit, globalLock⟩] ++ outs, .accept id⟩
  | amend {agreement b : TxId} : ¬o.flags.has .close →
    AcceptsBy d id o released outs (some (agreement, b))
      ⟨[⟨id, 0⟩, ⟨b, 0⟩, ⟨agreement, 1⟩], released,
        [⟨d.params.markerValue, eventLock id⟩, ⟨o.deposit, globalLock⟩] ++ outs, .accept id⟩
  | close {agreement b : TxId} : o.flags.has .close →
    AcceptsBy d id o released outs (some (agreement, b))
      ⟨[⟨b, 0⟩, ⟨agreement, 1⟩, ⟨id, 0⟩], released, outs, .close agreement id o.payment⟩

variable {d : Drafter} {draft : Drafted} {id agreement b : TxId} {memo : String}
  {o : Offer}

/-- Who withdraws an offer is its destination, or the source that may cancel it, and
    completes a plan that takes the marker. -/
theorem exists_of_stopOffer (h : d.stopOffer id memo = .ok draft) :
    ∃ r o released, d.ledger.Confirms id r (.offer o) ∧ d.ledger.spentBy? ⟨id, 0⟩ = none ∧
      (o.destination = .key d.key ∨ (o.source = .key d.key ∧ ¬o.flags.has .noCancel)) ∧
      memo.utf8ByteSize ≤ d.params.maxMemo ∧
      d.Completes ⟨[⟨id, 0⟩], released, [], .stopOffer id memo⟩ draft.tx := by
  simp only [stopOffer, bind_eq_ok_iff, Prod.exists, openOffer_eq_ok_iff, exists_unit_iff,
    checkMemo_eq_ok_iff, throw_bind, ite_eq_ok_iff, throw_ne_ok, and_false, false_or,
    Bool.not_eq_true', Bool.not_eq_false, is_iff, pure_eq_ok_iff] at h
  obtain ⟨r, o, ⟨ho, hunspent⟩, ⟨-, hsource, hcancel, hmemo, released, hreleased, tx, htx, rfl⟩ |
    ⟨hdestination, hmemo, released, hreleased, tx, htx, rfl⟩⟩ := h
  · exact ⟨r, o, released, ho, hunspent, .inr ⟨hsource, hcancel⟩, hmemo, hreleased, htx⟩
  · exact ⟨r, o, released, ho, hunspent, .inl hdestination, hmemo, hreleased, htx⟩

/-- Who accepts an offer is asked for it first, and then completes one of the plans. -/
theorem exists_of_accept (h : d.accept id = .ok draft) :
    ∃ r o previous released outs plan, d.MayAccept id r o ∧ d.referred o = .ok previous ∧
      part o.payment "source" o.source = .ok outs ∧
      d.AcceptsBy id o released outs previous plan ∧ d.Completes plan draft.tx := by
  simp only [accept, bind_eq_ok_iff, Prod.exists, openOffer_eq_ok_iff, throw_bind,
    ite_throw_eq_ok_iff, exists_unit_iff, checkAge_eq_ok_iff, ite_bind_eq_ok_iff,
    checkNotarized_eq_ok_iff, Bool.not_eq_true', Bool.not_eq_false, is_iff] at h
  obtain ⟨r, o, ⟨ho, hunspent⟩, hcaller, hyoung, hnotarized, previous, hprevious, h⟩ := h
  rw [Ledger.isTxNotarized_eq ho.record?] at hnotarized
  have hmay : d.MayAccept id r o := ⟨ho, hunspent, hcaller, hyoung, hnotarized⟩
  -- What the offer refers to says which plan it is.
  rcases previous with _ | ⟨agreement, b⟩
  · simp only [beginning, bind_eq_ok_iff, payment_eq, pure_eq_ok_iff] at h
    obtain ⟨_, ⟨released, hreleased, outs, houts, rfl⟩, tx, htx, rfl⟩ := h
    exact ⟨r, o, none, released, outs, _, hmay, hprevious, houts, .begin, hreleased, htx⟩
  · by_cases hclose : o.flags.has .close
    · simp only [hclose, if_true, ending, bind_eq_ok_iff, payment_eq, pure_eq_ok_iff] at h
      obtain ⟨_, ⟨released, hreleased, outs, houts, rfl⟩, tx, htx, rfl⟩ := h
      exact ⟨r, o, _, released, outs, _, hmay, hprevious, houts, .close hclose, hreleased, htx⟩
    · simp only [hclose, Bool.false_eq_true, if_false, beginning, bind_eq_ok_iff, payment_eq,
        pure_eq_ok_iff] at h
      obtain ⟨_, ⟨released, hreleased, outs, houts, rfl⟩, tx, htx, rfl⟩ := h
      exact ⟨r, o, _, released, outs, _, hmay, hprevious, houts, .amend hclose, hreleased, htx⟩

/-- An amendment is accepted only while the agreement is free. -/
theorem exists_of_referred {previous : Option (TxId × TxId)} (h : d.referred o = .ok previous)
    (hamendment : o.flags.has .amendment) (hamends : o.amends = some agreement) :
    ∃ b, previous = some (agreement, b) ∧ d.freeBaton agreement = .ok b ∧
      (o.flags.has .awaitNotaries → d.ledger.isTxNotarized b) := by
  simp only [referred, hamendment, hamends, Bool.not_true, Bool.false_eq_true, if_false,
    bind_eq_ok_iff, ite_bind_eq_ok_iff, checkNotarized_eq_ok_iff, pure_eq_ok_iff] at h
  obtain ⟨b, hb, hnotarized, rfl⟩ := h
  exact ⟨b, rfl, hb, hnotarized⟩

/-- A plain offer refers to no agreement. -/
theorem referred_eq_none {previous : Option (TxId × TxId)} (h : d.referred o = .ok previous)
    (hamendment : ¬o.flags.has .amendment) : previous = none := by
  rw [referred, if_pos (by simpa using hamendment), pure_eq_ok_iff] at h
  exact h.symm

/-- Who accepts an offer as asked obeys the rules of accepts, if what the offer amends
    is taken as well. -/
theorem MayAccept.obeys {l : Ledger} {params : Params} {key : PublicKey} {r : Record}
    (hmay : (⟨l, params, key⟩ : Drafter).MayAccept id r o) {released : Amount}
    {outs spent : List Output} {spends : List Outpoint} {tx : Transaction}
    (houts : part o.payment "source" o.source = .ok outs)
    (hc : (⟨l, params, tx, spent⟩ : Inspection).Completes ⟨⟨id, 0⟩ :: spends, released,
      [⟨params.markerValue, eventLock id⟩, ⟨o.deposit, globalLock⟩] ++ outs, .accept id⟩ key)
    (hclose : ¬o.flags.has .close) (hinputs : Inspection.escrowInputs o = spends.length + 1)
    (hamends : o.flags.has .amendment →
      ∃ a e, (⟨l, params, tx, spent⟩ : Inspection).Amends o a e) :
    (⟨l, params, tx, spent⟩ : Inspection).Obeys (.accept id) := by
  have hpays := hc.pays 2 _ (List.append_nil _).symm rfl houts
  refine .accept ⟨hmay.offer, hc.takes.spends 0 _ rfl, hclose, hmay.young, hmay.notarized, ?_,
    hamends, ?_, hc.makesAt 0 rfl, hc.makesAt 1 rfl, hpays, ?_⟩
  · rw [hmay.caller]
    exact hc.signed
  · rw [hinputs]
    exact hc.takes.rest
  · rw [← hpays.makesNoEscrowFrom_iff, afterPayment_of_part houts]
    have hrest := hc.rest
    rwa [List.length_append] at hrest

end Drafter

section
variable {validators : List Validator} {params : Params} {l : Ledger} {kp : KeyPair} {d : Drafted}
variable (hs : Settled validators params l) (hroom : params.maxMemo + 100 ≤ params.maxPayload)
include hs hroom

/-- The draft of an event is admitted if it obeys the rules of its operation. -/
theorem Settled.check_event {p : Plan} {tx : Transaction}
    (hcompletes : (⟨l, params, kp.publicKey⟩ : Drafter).Completes p tx)
    (hnodup : p.spends.Nodup) (hheld : ∀ o ∈ p.spends, l.Held o)
    (hpays : ∀ out ∈ p.pays, out.Payable) (hbrief : p.operation.IsBrief)
    (hmemo : p.operation.memo.utf8ByteSize ≤ params.maxMemo) (hu : Unbroken l kp tx)
    (hobeys : ∀ spent, (⟨l, params, (tx.signWith l kp).1, spent⟩ : Inspection).Completes p
      kp.publicKey → (⟨l, params, (tx.signWith l kp).1, spent⟩ : Inspection).Obeys p.operation) :
    (⟨l, validators⟩ : Host).check (tx.signWith l kp).1 = .ok tx.txid := by
  have hlength := hbrief.length_encode_le
  obtain ⟨spent, hdone, hiff⟩ := hs.check_iff hcompletes.finish hu hcompletes.released hnodup hheld
    hpays (by omega) hbrief.canonical
  exact hiff.2 (hobeys spent hdone)

/-! ## Offers withdrawn -/

theorem Settled.check_stopOffer {id : TxId} {memo : String}
    (h : (⟨l, params, kp.publicKey⟩ : Drafter).stopOffer id memo = .ok d)
    (hu : Unbroken l kp d.tx) :
    (⟨l, validators⟩ : Host).check (d.tx.signWith l kp).1 = .ok d.tx.txid := by
  obtain ⟨r, o, released, ho, hunspent, hcaller, hmemo, hdone⟩ := Drafter.exists_of_stopOffer h
  obtain ⟨k, hdestination, -⟩ := (hs.reachable.sound_offer hs.rules ho.does).destination
  refine hs.check_event hroom hdone (List.nodup_singleton _) ?_ nofun trivial hmemo hu
    fun spent hc => ?_
  · exact List.forall_mem_singleton.2 (hs.held_marker ho hunspent)
  · refine .stopOffer ⟨ho, hc.takes.spends 0 _ rfl, hc.takes.rest, hmemo, ?_, hc.rest⟩
    refine hcaller.imp (fun hcaller => ?_) fun ⟨hsource, hcancel⟩ => ⟨?_, ?_, hcancel⟩
    · rw [hcaller]
      exact hc.signed
    · -- The rules ask for the destination first, whose outputs have to have a sum.
      rw [hdestination]
      exact hc.summed k
    · rw [hsource]
      exact hc.signed

/-! ## Accepts -/

section
variable {id b : TxId} {r : Record} {o : Offer} {a : Agreement} {released : Amount}
  {outs : List Output} {tx : Transaction}
variable (hmay : (⟨l, params, kp.publicKey⟩ : Drafter).MayAccept id r o)
  (houts : Drafter.part o.payment "source" o.source = .ok outs)
include hmay houts

omit hroom in
/-- An accept pays to keys and into escrow. -/
theorem Settled.payable_accept : ∀ out ∈ [⟨params.markerValue, eventLock id⟩,
    ⟨o.deposit, globalLock⟩] ++ outs, out.Payable := by
  have hmarker := Int64.le_of_lt (Params.marker_pos hs.usable)
  have hdeposit := (hs.reachable.sound_offer hs.rules hmay.offer.does).deposit
  refine List.forall_mem_append.2 ⟨?_, Drafter.payable_of_part houts⟩
  refine List.forall_mem_cons.2 ⟨Output.payable_event hmarker id, ?_⟩
  exact List.forall_mem_singleton.2 (Output.payable_global (Int64.le_trans hmarker hdeposit))

/-- An accept that begins an agreement. -/
theorem Settled.check_begin (hamendment : ¬o.flags.has .amendment) (hclose : ¬o.flags.has .close)
    (hdone : (⟨l, params, kp.publicKey⟩ : Drafter).Completes ⟨[⟨id, 0⟩], released,
      [⟨params.markerValue, eventLock id⟩, ⟨o.deposit, globalLock⟩] ++ outs, .accept id⟩ tx)
    (hu : Unbroken l kp tx) :
    (⟨l, validators⟩ : Host).check (tx.signWith l kp).1 = .ok tx.txid := by
  refine hs.check_event hroom hdone (List.nodup_singleton _) ?_ (hs.payable_accept hmay houts)
    trivial (Nat.zero_le _) hu fun spent hc => hmay.obeys houts hc hclose (if_neg hamendment)
      fun h => absurd h hamendment
  exact List.forall_mem_singleton.2 (hs.held_marker hmay.offer hmay.marker)

variable (hfree : l.Free a b) (hamends : o.amends = some a.txid)
  (hnotarized : o.flags.has .awaitNotaries → l.isTxNotarized b)
  (hamendment : o.flags.has .amendment)
include hfree

omit houts hroom in
/-- The marker of the offer, the baton and the deposit of the agreement that an accept ends
    are there to be taken. -/
theorem Settled.held_accept : ⟨id, 0⟩ ≠ (⟨b, 0⟩ : Outpoint) ∧ l.Held ⟨id, 0⟩ ∧ l.Held ⟨b, 0⟩ ∧
    l.Held ⟨a.txid, 1⟩ := by
  have hb := hfree.holdsBaton
  exact ⟨hmay.offer.isMarker.ne_baton hb, hs.held_marker hmay.offer hmay.marker,
    hs.held_baton hb hfree.baton, hs.held_deposit hb hfree.baton⟩

include hamends hnotarized hamendment

/-- An accept that amends an agreement. -/
theorem Settled.check_amend (hclose : ¬o.flags.has .close)
    (hdone : (⟨l, params, kp.publicKey⟩ : Drafter).Completes
      ⟨[⟨id, 0⟩, ⟨b, 0⟩, ⟨a.txid, 1⟩], released,
        [⟨params.markerValue, eventLock id⟩, ⟨o.deposit, globalLock⟩] ++ outs, .accept id⟩ tx)
    (hu : Unbroken l kp tx) :
    (⟨l, validators⟩ : Host).check (tx.signWith l kp).1 = .ok tx.txid := by
  obtain ⟨hne, hmarker, hbaton, hdeposit⟩ := hs.held_accept hmay hfree
  refine hs.check_event hroom hdone ?_ ?_ (hs.payable_accept hmay houts) trivial (Nat.zero_le _)
    hu fun spent hc => hmay.obeys houts hc hclose (if_pos hamendment) fun _ => ?_
  · simpa using hne
  · simp [hmarker, hbaton, hdeposit]
  · obtain ⟨e, he, rfl, hfollows⟩ := hs.follows hfree (hc.takes.spends 1 _ rfl) hc.prevouts
    refine ⟨a, e, hamends, hfree.agrees, hfollows, fun hawait => ?_, hc.takes.spends 2 _ rfl⟩
    exact Ledger.isTxNotarized_eq he ▸ hnotarized hawait

/-- An accept that closes an agreement. -/
theorem Settled.check_close (hclose : o.flags.has .close)
    (hdone : (⟨l, params, kp.publicKey⟩ : Drafter).Completes
      ⟨[⟨b, 0⟩, ⟨a.txid, 1⟩, ⟨id, 0⟩], released, outs, .close a.txid id o.payment⟩ tx)
    (hu : Unbroken l kp tx) :
    (⟨l, validators⟩ : Host).check (tx.signWith l kp).1 = .ok tx.txid := by
  obtain ⟨hne, hmarker, hbaton, hdeposit⟩ := hs.held_accept hmay hfree
  refine hs.check_event hroom hdone ?_ ?_ (Drafter.payable_of_part houts) trivial (Nat.zero_le _)
    hu fun spent hc => ?_
  · simpa using hne.symm
  · simp [hmarker, hbaton, hdeposit]
  · obtain ⟨e, he, rfl, hfollows⟩ := hs.follows hfree (hc.takes.spends 0 _ rfl) hc.prevouts
    have hpays := hc.pays 0 [] (List.append_nil _).symm rfl houts
    refine .close ⟨hfree.agrees, hmay.offer, ⟨hamendment, hclose⟩, hamends, rfl, hmay.young,
      hfollows, fun hawait => ⟨hmay.notarized hawait, ?_⟩, hc.takes.spends 1 _ rfl,
      hc.takes.spends 2 _ rfl, hc.takes.rest, ?_, hpays, ?_⟩
    · exact Ledger.isTxNotarized_eq he ▸ hnotarized hawait
    · rw [hmay.caller]
      exact hc.signed
    · rw [← hpays.makesNoEscrowFrom_iff, Drafter.afterPayment_of_part houts]
      rw [Nat.zero_add]
      exact hc.rest

end

/-- An accept that is drafted and signed is admitted. -/
theorem Settled.check_accept {id : TxId}
    (h : (⟨l, params, kp.publicKey⟩ : Drafter).accept id = .ok d) (hu : Unbroken l kp d.tx) :
    (⟨l, validators⟩ : Host).check (d.tx.signWith l kp).1 = .ok d.tx.txid := by
  obtain ⟨r, o, previous, released, outs, plan, hmay, hprevious, houts, hplan, hdone⟩ :=
    Drafter.exists_of_accept h
  have hsound := hs.reachable.sound_offer hs.rules hmay.offer.does
  -- An amendment refers to an agreement that is free, and either amends or closes it.
  by_cases hamendment : o.flags.has .amendment
  · obtain ⟨a, hamends, -, -⟩ := hsound.amended hamendment
    obtain ⟨b, rfl, hb, hnotarized⟩ := Drafter.exists_of_referred hprevious hamendment hamends
    obtain ⟨a', ha', hfree⟩ := hs.free_of_freeBaton rfl hb
    rw [← ha'] at hamends hplan
    rcases hplan with _ | hclose | hclose
    · exact hs.check_amend hroom hmay houts hfree hamends hnotarized hamendment hclose hdone hu
    · exact hs.check_close hroom hmay houts hfree hamends hnotarized hamendment hclose hdone hu
  · obtain rfl := Drafter.referred_eq_none hprevious hamendment
    rcases hplan with _ | _ | _
    exact hs.check_begin hroom hmay houts hamendment (mt hsound.close hamendment) hdone hu

/-! ## Disputes -/

theorem Settled.check_dispute {agreement : TxId} {flags : DisputeFlags} {memo : String}
    (h : (⟨l, params, kp.publicKey⟩ : Drafter).dispute agreement flags memo = .ok d)
    (hu : Unbroken l kp d.tx) :
    (⟨l, validators⟩ : Host).check (d.tx.signWith l kp).1 = .ok d.tx.txid := by
  simp only [Drafter.dispute, bind_eq_ok_iff, Drafter.agreementAt_eq_ok_iff, throw_bind,
    ite_throw_eq_ok_iff, exists_unit_iff, Drafter.checkMemo_eq_ok_iff, pure_eq_ok_iff,
    Bool.and_eq_true, Bool.not_eq_true', Bool.not_eq_false] at h
  obtain ⟨a, ⟨rfl, hagrees⟩, hcaller, harbitrator, hdisputes, hknown, hgrounds, hmemo, b, hb,
    released, hreleased, tx, hfinish, rfl⟩ := h
  obtain ⟨a', ha', hfree⟩ := hs.free_of_freeBaton rfl hb
  obtain rfl := hfree.agrees.unique hagrees ha'
  -- The fee can be paid, as the offer was only recorded with a fee of a marker or more.
  have hfee := Int64.le_trans (Int64.le_of_lt (Params.marker_pos hs.usable))
    (hs.reachable.sound_agreement hs.rules hagrees).disputeFee
  refine hs.check_event hroom ⟨hreleased, hfinish⟩ (List.nodup_singleton _) ?_ ?_ ⟨_, rfl⟩ hmemo hu
    fun spent hc => ?_
  · exact List.forall_mem_singleton.2 (hs.held_baton hfree.holdsBaton hfree.baton)
  · exact List.forall_mem_singleton.2 (Output.payable_event hfee _)
  · obtain ⟨e, he, rfl, hfollows⟩ := hs.follows hfree (hc.takes.spends 0 _ rfl) hc.prevouts
    refine .dispute ⟨hagrees, rfl, hknown, ⟨hgrounds, hmemo⟩, ?_, hdisputes, ?_, hc.signed,
      hfollows, hc.takes.rest, hc.makesAt 0 rfl, hc.rest⟩
    · rwa [Bool.not_eq_true, Option.isNone_eq_false_iff] at harbitrator
    · rw [Classical.not_and_iff_not_or_not, Bool.not_eq_false, Bool.not_eq_false, Drafter.is_iff,
        Drafter.is_iff] at hcaller
      exact hcaller.imp Eq.symm Eq.symm

omit hroom in
/-- The claimant of a dispute is a key. -/
theorem Settled.claimant_key {id : TxId} {r : Record} {x : Dispute} {a : Agreement}
    (hx : l.Confirms id r (.dispute x)) (hid : x.agreement = a.txid) (hagrees : l.Agrees a) :
    ∃ k, x.claimant = .key k := by
  have hsound := hs.reachable.sound_agreement hs.rules hagrees
  obtain ⟨s, hoffer⟩ := hagrees.offer
  have hA := hagrees.does
  rw [← hid] at hA
  obtain ⟨-, hclaimant, -⟩ := hs.reachable.signed_dispute hs.rules hx hA hoffer.does
  rcases hclaimant with hclaimant | hclaimant
  · obtain ⟨k, hk, -⟩ := hsound.source
    exact ⟨k, hclaimant.trans hk⟩
  · obtain ⟨k, hk, -⟩ := hsound.destination
    exact ⟨k, hclaimant.trans hk⟩

theorem Settled.check_stopDispute {dispute : TxId} {memo : String}
    (h : (⟨l, params, kp.publicKey⟩ : Drafter).stopDispute dispute memo = .ok d)
    (hu : Unbroken l kp d.tx) :
    (⟨l, validators⟩ : Host).check (d.tx.signWith l kp).1 = .ok d.tx.txid := by
  simp only [Drafter.stopDispute, bind_eq_ok_iff, Prod.exists, Drafter.openDispute_eq_ok_iff,
    throw_bind, ite_throw_eq_ok_iff, exists_unit_iff, Drafter.checkMemo_eq_ok_iff,
    pure_eq_ok_iff, Bool.and_eq_true, Bool.not_eq_true'] at h
  obtain ⟨x, a, ⟨⟨r, hx⟩, hunspent, hid, hagrees⟩, hfinal, hcaller, hmemo, released, hreleased, tx,
    hfinish, rfl⟩ := h
  have hmarker := Int64.le_of_lt (Params.marker_pos hs.usable)
  obtain ⟨k, hk⟩ := hs.claimant_key hx hid hagrees
  have harbitrator := (hs.reachable.sound_agreement hs.rules hagrees).arbitrator
  refine hs.check_event hroom ⟨hreleased, hfinish⟩ (List.nodup_singleton _) ?_ ?_ trivial hmemo hu
    fun spent hc => ?_
  · exact List.forall_mem_singleton.2 (hs.held_baton hx.holdsBaton hunspent)
  · exact List.forall_mem_singleton.2 (Output.payable_event hmarker _)
  · refine .stopDispute ⟨hagrees, ⟨r, hx⟩, hid, hc.takes.spends 0 _ rfl, hc.takes.rest, hmemo,
      hfinal, ⟨hk ▸ hc.summed k, fun p hp => ?_⟩, ?_, hc.makesAt 0 rfl, hc.rest⟩
    · obtain ⟨q, rfl, -⟩ := harbitrator p hp
      exact hc.summed q
    · -- The caller is the claimant or the arbitrator.
      rw [Classical.not_and_iff_not_or_not, Bool.not_eq_false, Bool.not_eq_false, Drafter.is_iff,
        Option.any_eq_true] at hcaller
      rcases hcaller with hclaimant | ⟨p, hp, hcaller⟩
      · exact .inl (hclaimant ▸ hc.signed)
      · exact .inr ⟨p, hp, Drafter.is_iff.1 hcaller ▸ hc.signed⟩

theorem Settled.check_resolve {dispute : TxId} {payout : Amount} {memo : String}
    (h : (⟨l, params, kp.publicKey⟩ : Drafter).resolve dispute payout memo = .ok d)
    (hu : Unbroken l kp d.tx) :
    (⟨l, validators⟩ : Host).check (d.tx.signWith l kp).1 = .ok d.tx.txid := by
  simp only [Drafter.resolve, bind_eq_ok_iff, Prod.exists, Drafter.openDispute_eq_ok_iff] at h
  obtain ⟨x, a, ⟨⟨r, hx⟩, hunspent, hid, hagrees⟩, h⟩ := h
  rcases harbitrator : a.offer.arbitrator with _ | p
  · simp [harbitrator, throw_ne_ok] at h
  simp only [harbitrator, throw_bind, ite_throw_eq_ok_iff, exists_unit_iff, bind_eq_ok_iff,
    Drafter.checkMemo_eq_ok_iff, pure_eq_ok_iff, Bool.not_eq_true', Bool.not_eq_false,
    Drafter.is_iff, not_or, Int64.not_lt] at h
  obtain ⟨hcaller, hrange, hmemo, released, hreleased, outs, houts, outs', houts', tx, hfinish,
    rfl⟩ := h
  have hb : l.HoldsBaton a.txid dispute := hid ▸ hx.holdsBaton
  refine hs.check_event hroom ⟨hreleased, hfinish⟩ ?_ ?_ ?_ trivial hmemo hu fun spent hc => ?_
  · simp
  · simp [hs.held_baton hb hunspent, hs.held_deposit hb hunspent]
  · exact List.forall_mem_append.2 ⟨Drafter.payable_of_part houts, Drafter.payable_of_part houts'⟩
  · -- The defendant is paid right after the claimant, and first if the claimant gets nothing.
    have hafter := Drafter.afterPayment_of_part houts 0
    rw [Nat.zero_add] at hafter
    have hclaimant := hc.pays 0 [] rfl rfl houts
    have hdefendant := hc.pays _ _ (List.append_nil _).symm hafter.symm houts'
    refine .resolve ⟨hagrees, ⟨r, hx⟩, hid, hc.takes.spends 0 _ rfl, hc.takes.spends 1 _ rfl,
      hc.takes.rest, hmemo, harbitrator, hcaller ▸ hc.signed, hrange, hclaimant, hdefendant, ?_⟩
    rw [← hclaimant.makesNoEscrowFrom_iff, ← hdefendant.makesNoEscrowFrom_iff,
      Drafter.afterPayment_of_part houts', hafter, ← List.length_append]
    exact hc.rest

end

/-- The requests to draft an event. -/
def DraftRequest.IsEvent : DraftRequest → Prop
  | .stopOffer .. | .accept _ | .dispute .. | .stopDispute .. | .resolve .. => True
  | .create .. | .amend .. | .close .. | .unlock _ => False

/-- Each draft of an event is admitted once it is signed. -/
theorem Settled.check_draft {validators : List Validator} {params : Params} {l : Ledger}
    {kp : KeyPair} {d : Drafted} (hs : Settled validators params l)
    (hroom : params.maxMemo + 100 ≤ params.maxPayload) {request : DraftRequest}
    (hevent : request.IsEvent)
    (h : (⟨l, params, kp.publicKey⟩ : Drafter).draft request = .ok d) (hu : Unbroken l kp d.tx) :
    (⟨l, validators⟩ : Host).check (d.tx.signWith l kp).1 = .ok d.tx.txid := by
  rcases request with _ | _ | _ | _ | _ | _ | _ | _ | _
  · exact hevent.elim
  · exact hevent.elim
  · exact hevent.elim
  · exact hs.check_stopOffer hroom h hu
  · exact hs.check_accept hroom h hu
  · exact hs.check_dispute hroom h hu
  · exact hs.check_stopDispute hroom h hu
  · exact hs.check_resolve hroom h hu
  · exact hevent.elim

/-- A host that keeps the rules of agreements admits, at any time when nothing waits
    for a block, every draft of an event that the drafter has signed. The parameters
    are usable and leave room for the longest memo. -/
theorem event_drafts_run (genesis : Timestamp) (blockTime : UInt64) (params : Params)
    (others : List Validator) (cs : List Command) (kp : KeyPair) (request : DraftRequest)
    (d : Drafted) :
    let host := (Host.underRules genesis blockTime params others).run cs
    params.check = .ok () → params.maxMemo + 100 ≤ params.maxPayload →
    params.maxPayload < Wire.sizeLimit → host.ledger.mempool = [] → host.ledger.Nameable →
    request.IsEvent → (⟨host.ledger, params, kp.publicKey⟩ : Drafter).draft request = .ok d →
    Unbroken host.ledger kp d.tx →
      host.check (d.tx.signWith host.ledger kp).1 = .ok d.tx.txid := by
  intro host husable hroom hlimit hmempool hnameable hevent hdraft hu
  have hs := Host.settled_underRules_run genesis blockTime others cs husable hlimit hmempool
    hnameable
  exact hs.check_draft hroom hevent hdraft hu

/-! ## A bargain

Someone offers an agreement to the holder of a seed, and pays them an output with
the offer. They accept. -/

namespace Bargain

open Quarrel (octets)

def buyer : KeyPair where
  seed := .fill 32 1
  publicKey := ⟨octets 32 0x5c6f0fb4018874f31b12941dbf0967ca725dba3c2ddb52fd95f10974dde3888a⟩
  publicKey_eq := by decide +kernel

def offerId : TxId :=
  ⟨octets 32 0xc6a6ca6166e66c516bf636b26e9d3bb867ca46414e7069dbb688210405a1e96c⟩

def terms : Offer :=
  { Quarrel.terms with destination := .key buyer.publicKey }

def offer : Transaction where
  inputs := [Quarrel.neutralInput Quarrel.source Quarrel.fundingId 0]
  outputs := [⟨10000, globalLock⟩, ⟨40000, .key buyer.publicKey⟩,
    ⟨0, .data (Operation.offer terms).encode⟩]

def commands : List Command :=
  [.fund Quarrel.source 100000, .submit offer, .mine]

/-- What the host has recorded when the offer is accepted. -/
def ledger : Ledger where
  genesis := ⟨0, 0⟩
  blockTime := 60
  height := 2
  blocks := [⟨1, ⟨60, 0⟩, [Quarrel.fundingId]⟩, ⟨2, ⟨120, 0⟩, [offerId]⟩]
  records := [⟨Quarrel.fundingId, Host.funding Quarrel.source 100000 1, some 1⟩,
    ⟨offerId, offer, some 2⟩]
  nonce := 1

theorem ledger_run : ((Host.underRules ⟨0, 0⟩ 60 {} []).run commands).ledger = ledger := by
  decide +kernel

/-- The draft of the accept, in which the marker is signed for. -/
def accept : Drafted where
  tx := {
    inputs := [
      Quarrel.escrowInput offerId 0
        0x3121f14aea0338f9832cf2cbcaf618f07af5ca443b4c8925453e4985ab6d7dd8
        0x7fc60707d887a8046bfdd4bdd0191b5f0561536c831936344a0497ec4977eef,
      ⟨⟨offerId, 1⟩, none⟩]
    outputs := [⟨10000, eventLock offerId⟩, ⟨10000, globalLock⟩, ⟨20000, .key buyer.publicKey⟩,
      ⟨0, .data (Operation.accept offerId).encode⟩] }
  receipt := .accept offerId none false

theorem draft_accept :
    (⟨ledger, {}, buyer.publicKey⟩ : Drafter).draft (.accept offerId) = .ok accept := by
  rw [← toOption_eq_some_iff]
  decide +kernel

theorem signs_accept : ∀ p ∈ accept.tx.inputs.zipIdx,
    let k := if p.1.witness.isSome then KeyPair.global else buyer
    (k.publicKey.verify (accept.tx.sighash p.2) (k.sign (accept.tx.sighash p.2))).toOption =
      some () := by
  decide +kernel

/-- What is believed of signatures, hashes and addresses holds for the accept. -/
theorem unbroken_accept : Unbroken ledger buyer accept.tx where
  signs vin i hi :=
    toOption_eq_some_iff.1 (signs_accept (i, vin) (List.mk_mem_zipIdx_iff_getElem?.2 hi))
  hash := by decide +kernel
  address := by decide +kernel

/-- The host admits the accept. -/
theorem accept_admitted :
    let host := (Host.underRules ⟨0, 0⟩ 60 {} []).run commands
    (({} : Params).check = .ok () ∧ ({} : Params).maxMemo + 100 ≤ ({} : Params).maxPayload ∧
      ({} : Params).maxPayload < Wire.sizeLimit ∧ host.ledger.mempool = [] ∧
      host.ledger.Nameable ∧ (DraftRequest.accept offerId).IsEvent ∧
      (⟨host.ledger, {}, buyer.publicKey⟩ : Drafter).draft (.accept offerId) = .ok accept ∧
      Unbroken host.ledger buyer accept.tx) ∧
      host.check (accept.tx.signWith host.ledger buyer).1 = .ok accept.tx.txid := by
  intro host
  have hl : host.ledger = ledger := ledger_run
  have husable : ({} : Params).check = .ok () := rfl
  have hroom : ({} : Params).maxMemo + 100 ≤ ({} : Params).maxPayload := by decide
  have hlimit : ({} : Params).maxPayload < Wire.sizeLimit := by decide
  have hmempool : host.ledger.mempool = [] := by rw [hl]; rfl
  have hnameable : host.ledger.Nameable := by rw [hl, Ledger.Nameable]; decide
  have hdraft : (⟨host.ledger, {}, buyer.publicKey⟩ : Drafter).draft (.accept offerId) =
      .ok accept := by
    rw [hl]
    exact draft_accept
  have hu : Unbroken host.ledger buyer accept.tx := by
    rw [hl]
    exact unbroken_accept
  exact ⟨⟨husable, hroom, hlimit, hmempool, hnameable, trivial, hdraft, hu⟩,
    event_drafts_run ⟨0, 0⟩ 60 {} [] commands buyer (.accept offerId) accept husable hroom hlimit
      hmempool hnameable trivial hdraft hu⟩

end Bargain

end Escrow
