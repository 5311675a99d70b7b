import Escrow.Proofs.Agreement.Events

/-!
# Disputes

Who may open a dispute is settled by the offer that the agreement accepted, and who
may end it by the offer and the dispute together (`dispute_run`):

* it is opened by a party of an agreement that has an arbitrator and allows
  disputes, and it holds the fee that the offer asks (`Ledger.Opened`);
* it is ended once, by the claimant or the arbitrator with a stop-dispute unless it
  is final, or by the arbitrator with a resolve (`Ledger.Settles`);
* until then the agreement stands still: its deposit is where it was, and the
  dispute has the only baton that can be spent (`Ledger.Stands`).

An event after a dispute is a stop-dispute or a resolve (`Enacted.continues`). That
it is one of this dispute is seen from what it spends, since output 0 of a dispute
is a baton, and the only baton that such a transaction takes is that of the dispute
that it names.
-/

namespace Escrow

/-- A party of an agreement has opened a dispute about it, under the terms of the
    offer accepted. -/
structure Ledger.Opened (l : Ledger) (id : TxId) (d : Dispute) (accepted : TxId)
    (terms : Offer) : Prop where
  accept : l.Does d.agreement (.accept accepted)
  offer : l.Does accepted (.offer terms)
  claimant : d.claimant = terms.source ∨ d.claimant = terms.destination
  signed : ∃ r, l.record? id = some r ∧ l.SignedBy r.tx d.claimant
  arbitrator : ∃ p, terms.arbitrator = some p ∧ p ≠ terms.source ∧ p ≠ terms.destination
  disputes : ¬terms.flags.has .noDisputes
  fee : ∃ out, l.prevout? ⟨id, 0⟩ = some out ∧ out.value = terms.disputeFee

/-- The ways to end a dispute about an agreement with some terms. -/
inductive Ledger.Settles (l : Ledger) (id : TxId) (d : Dispute) (terms : Offer)
    (tx : Transaction) : Operation → Prop
  | stopDispute {memo : String} : ¬d.flags.has .final →
    (l.SignedBy tx d.claimant ∨ ∃ p, terms.arbitrator = some p ∧ l.SignedBy tx p) →
    l.Settles id d terms tx (.stopDispute d.agreement id memo)
  | resolve {payout : Amount} {memo : String} {p : Party} : terms.arbitrator = some p →
    l.SignedBy tx p → l.Settles id d terms tx (.resolve d.agreement id payout memo)

/-- Nothing takes an agreement further but what spends the baton of a transaction:
    the deposit is unspent, and so is no other baton. -/
structure Ledger.Stands (l : Ledger) (agreement id : TxId) : Prop where
  deposit : ∃ out, l.prevout? ⟨agreement, 1⟩ = some out
  unspent : ⟨agreement, 1⟩ ∉ l.spends
  baton : ∀ b, (l.HoldsBaton agreement b ∧ ⟨b, 0⟩ ∉ l.spends) ↔ b = id

/-- What comes after a dispute ends it. -/
theorem Ledger.Continues.of_disputed {l : Ledger} {agreement : TxId} {disputed : Prop}
    {op : Operation} (h : l.Continues agreement disputed op) (hdisputed : disputed) :
    (∃ id memo, op = .stopDispute agreement id memo) ∨
      ∃ id payout memo, op = .resolve agreement id payout memo := by
  cases h with
  | stopDispute => exact .inl ⟨_, _, rfl⟩
  | resolve => exact .inr ⟨_, _, _, rfl⟩
  | dispute hundisputed => exact absurd hdisputed hundisputed
  | close hundisputed => exact absurd hdisputed hundisputed
  | amend hundisputed => exact absurd hdisputed hundisputed

section
variable {validators : List Validator} {params : Params} {l : Ledger} {id : TxId} {d : Dispute}
variable (hl : Reachable validators l) (hv : KeepsRules validators params)
include hl hv

/-! ## Opening a dispute -/

/-- The arbitrator of an offer is neither of its parties. -/
theorem Reachable.arbitrator_ne {offer : TxId} {o : Offer} {p : Party}
    (ho : l.Does offer (.offer o)) (hp : o.arbitrator = some p) :
    p ≠ o.source ∧ p ≠ o.destination := by
  obtain ⟨before, tx, spent, rfl, h⟩ := hl.enacted_of_does hv ho
  cases h.obeys with
  | offer ho => exact (ho.parties.arbitrator p hp).2

/-- A dispute was opened under the rules. -/
theorem Reachable.opened_dispute (hd : l.Does id (.dispute d)) :
    ∃ accepted terms, l.Opened id d accepted terms := by
  obtain ⟨before, tx, spent, rfl, h⟩ := hl.enacted_of_does hv hd
  cases h.obeys with
  | @dispute d a e ho =>
    have hagrees := ho.agrees.grows h.grows_before hl.sound
    obtain ⟨-, r, hr⟩ := id hagrees
    obtain ⟨p, hp⟩ := Option.isSome_iff_exists.1 ho.arbitrator
    obtain ⟨s, hs, htx⟩ := h.record? hl.sound
    obtain ⟨out, hout, -, hvalue⟩ := h.prevout? hl.sound 0 ho.fee
    exact ⟨a.offerId, a.offer, ho.agreement ▸ hagrees.does, hr.does, ho.claimant,
      ⟨s, hs, htx ▸ h.signedBy hl.sound ho.signed⟩, ⟨p, hp, hl.arbitrator_ne hv hr.does hp⟩,
      ho.disputes, out, hout, hvalue⟩

/-! ## Ending a dispute -/

/-- Who spends the baton of a dispute under the rules ends it. -/
theorem Enacted.settles {before : Ledger} {tx : Transaction} {spent : List Output}
    {op : Operation} (h : Enacted validators params l before tx spent op)
    (hd : l.Does id (.dispute d)) {accepted : TxId} {terms : Offer}
    (hopened : l.Opened id d accepted terms) (hmem : ⟨id, 0⟩ ∈ tx.spends) :
    l.Settles id d terms tx op := by
  obtain ⟨r, hr, hcontinues⟩ := h.continues hl.sound hv hd rfl hmem
  have signed : ∀ {p}, (⟨before, params, tx, spent⟩ : Inspection).Signed p → l.SignedBy tx p :=
    fun hp => h.signedBy hl.sound hp
  have taken : ∀ {os}, (⟨before, params, tx, spent⟩ : Inspection).Takes os → ⟨id, 0⟩ ∈ os :=
    fun htakes => h.at_admission.baton_mem h.reachable hv htakes hr.holdsBaton hmem
  have same : ∀ {d'}, (∃ r, before.Confirms id r (.dispute d')) → d' = d := by
    rintro d' ⟨r', hr'⟩
    exact Operation.dispute.inj (hr'.does.unique hr.does)
  have offered : ∀ {a : Agreement}, before.Agrees a → d.agreement = a.txid → a.offer = terms := by
    intro a ha hagreement
    exact (ha.grows h.grows_before hl.sound).offer_eq (hagreement ▸ hopened.accept) hopened.offer
  generalize hagreement : d.agreement = agreement at hcontinues
  rcases hcontinues.of_disputed rfl with ⟨dispute, memo, rfl⟩ | ⟨dispute, payout, memo, rfl⟩
  · cases h.obeys with
    | stopDispute ho =>
      -- The one baton that it takes is that of the dispute that it names.
      obtain rfl : id = dispute := by simpa using taken ho.takes
      obtain rfl := same ho.dispute
      rw [← hagreement]
      refine .stopDispute ho.not_final (ho.signed.imp signed ?_)
      rintro ⟨p, hp, hsigned⟩
      exact ⟨p, offered ho.agrees hagreement ▸ hp, signed hsigned⟩
  · cases h.obeys with
    | resolve ho =>
      obtain rfl : id = dispute := by simpa using taken ho.takes
      obtain rfl := same ho.dispute
      rw [← hagreement]
      exact .resolve (offered ho.agrees hagreement ▸ ho.arbitrator) (signed ho.signed)

/-- A transaction that spends the baton of a dispute ends it, and is the only one. -/
theorem Reachable.settled_dispute (hd : l.Does id (.dispute d)) {accepted : TxId} {terms : Offer}
    (hopened : l.Opened id d accepted terms) {r : Record} (hr : r ∈ l.records)
    (hmem : ⟨id, 0⟩ ∈ r.tx.spends) :
    (∃ op, r.tx.operation? = some op ∧ l.Settles id d terms r.tx op) ∧
      ∀ s ∈ l.records, ⟨id, 0⟩ ∈ s.tx.spends → s = r := by
  constructor
  · have hb : l.HoldsBaton d.agreement id := ⟨_, hd, rfl⟩
    obtain ⟨out, hout, hescrow⟩ := hb.isEscrow hl hv
    obtain ⟨op, hop⟩ := hl.operation?_of_spends hv hr hmem hout hescrow
    obtain ⟨before, spent, h⟩ := hl.enacted hv hr hop
    exact ⟨op, hop, h.settles hl hv hd hopened hmem⟩
  · intro s hs hmem'
    obtain ⟨vin, hvin⟩ := List.getElem?_of_mem hmem
    obtain ⟨vin', hvin'⟩ := List.getElem?_of_mem hmem'
    exact (hl.sound.spends_unique hs hr hvin' hvin).1

/-! ## While a dispute is open -/

/-- Nothing but the end of a dispute takes its agreement further. -/
theorem Reachable.stands_of_unspent (hd : l.Does id (.dispute d)) {accepted : TxId}
    (hA : l.Does d.agreement (.accept accepted)) (hunspent : ⟨id, 0⟩ ∉ l.spends) :
    l.Stands d.agreement id := by
  have hb : l.HoldsBaton d.agreement id := ⟨_, hd, rfl⟩
  have hbalanced := hl.balanced hv hA
  obtain ⟨out, hout, -⟩ := isEscrow_deposit hl hv hA
  refine ⟨⟨out, hout⟩, fun hdeposit => hunspent (hbalanced.ended hdeposit id hb), fun b => ?_⟩
  constructor
  · rintro ⟨hb', hunspent'⟩
    exact hbalanced.eq_of_unspent hb' hb hunspent' hunspent
  · rintro rfl
    exact ⟨hb, hunspent⟩

end

/-- Every dispute in a run of a host that keeps the rules of agreements was opened by
    a party under the terms accepted, is ended by those who may end it and once at
    most, and holds up its agreement until then. -/
theorem dispute_run (genesis : Timestamp) (blockTime : UInt64) (params : Params)
    (others : List Validator) (cs : List Command) (id : TxId) (d : Dispute) :
    let l := ((Host.underRules genesis blockTime params others).run cs).ledger
    l.Does id (.dispute d) →
      ∃ accepted terms, l.Opened id d accepted terms ∧
        (∀ r ∈ l.records, ⟨id, 0⟩ ∈ r.tx.spends →
          (∃ op, r.tx.operation? = some op ∧ l.Settles id d terms r.tx op) ∧
            ∀ s ∈ l.records, ⟨id, 0⟩ ∈ s.tx.spends → s = r) ∧
        (⟨id, 0⟩ ∉ l.spends → l.Stands d.agreement id) := by
  intro l hd
  have hl := Host.reachable_underRules_run genesis blockTime params others cs
  have hv := Host.keepsRules_underRules genesis blockTime params others
  obtain ⟨accepted, terms, hopened⟩ := hl.opened_dispute hv hd
  exact ⟨accepted, terms, hopened, fun r hr => hl.settled_dispute hv hd hopened hr,
    hl.stands_of_unspent hv hd hopened.accept⟩

/-- The dispute of the quarrel is one of these. -/
theorem Quarrel.dispute_held :
    let l := ((Host.underRules ⟨0, 0⟩ 60 {} []).run commands).ledger
    let d : Dispute := ⟨acceptId, .key source, ⟨0⟩, "m"⟩
    l.Does disputeId (.dispute d) ∧
      ∃ accepted terms, l.Opened disputeId d accepted terms ∧
        (∀ r ∈ l.records, ⟨disputeId, 0⟩ ∈ r.tx.spends →
          (∃ op, r.tx.operation? = some op ∧ l.Settles disputeId d terms r.tx op) ∧
            ∀ s ∈ l.records, ⟨disputeId, 0⟩ ∈ s.tx.spends → s = r) ∧
        (⟨disputeId, 0⟩ ∉ l.spends → l.Stands d.agreement disputeId) := by
  intro l d
  have hd : l.Does disputeId (.dispute d) := by
    have hl : l = ledger := ledger_run
    rw [hl]
    exact ⟨⟨disputeId, dispute, some 4⟩, rfl, by decide +kernel⟩
  exact ⟨hd, dispute_run ⟨0, 0⟩ 60 {} [] commands disputeId d hd⟩

end Escrow
