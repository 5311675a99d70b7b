import Escrow.Proofs.Agreement.Positions
import Escrow.Proofs.Agreement.Recorded
import Escrow.Proofs.Host.Conservation
import Escrow.Proofs.Sums

/-!
# Settlement

What is paid when an agreement begins and when it ends. A resolve divides the
deposit between the claimant and the other party, who get all of it between them
(`Ledger.Divides`). A close pays the source of the closing offer what that offer
says (`Ledger.PaysOut`), and an accept pays the source of its offer and puts the
deposit in escrow (`Ledger.Begins`). Nothing else in escrow is taken or made.

A payment of nothing has no output, and the payments after it move up
(`payments`).
-/

namespace Escrow

/-- The outputs that pay amounts to keys. There is none for an amount of zero. -/
def payments (ps : List (Amount × PublicKey)) : List Output :=
  (ps.filter fun p => 0 < p.1).map fun p => ⟨p.1, .key p.2⟩

section
variable {amount : Amount} {k : PublicKey} {ps qs : List (Amount × PublicKey)}

theorem payments_append : payments (ps ++ qs) = payments ps ++ payments qs := by
  rw [payments, List.filter_append, List.map_append, payments, payments]

theorem payments_of_pos (h : 0 < amount) : payments [(amount, k)] = [⟨amount, .key k⟩] := by
  simp [payments, h]

theorem payments_of_not_pos (h : ¬0 < amount) : payments [(amount, k)] = [] := by
  simp [payments, h]

theorem total_payments_singleton (h : 0 ≤ amount) :
    Output.total (payments [(amount, k)]) = amount.toInt := by
  by_cases hpos : 0 < amount
  · rw [payments_of_pos hpos]
    exact Int.add_zero _
  · have hzero : amount = 0 := Int64.le_antisymm (Int64.not_lt.1 hpos) h
    rw [payments_of_not_pos hpos, hzero]
    rfl

end

/-- What is paid of a sum and what is left of it are the whole sum. -/
theorem total_payments_sub {payout sum : Amount} (h : 0 ≤ payout ∧ payout ≤ sum)
    (k k' : PublicKey) :
    Output.total (payments [(payout, k), (sum - payout, k')]) = sum.toInt := by
  have hsub := Amount.toInt_sub_of_le h.1 h.2
  have hle := Int64.le_iff_toInt_le.1 h.2
  have hrest : 0 ≤ sum - payout := by
    rw [Int64.le_iff_toInt_le, hsub, Int64.toInt_zero]
    omega
  rw [← List.singleton_append, payments_append, Output.total_append,
    total_payments_singleton h.1, total_payments_singleton hrest, hsub]
  omega

namespace Inspection

variable {i : Inspection} {amount : Amount} {k : PublicKey} {outs : List Output}

/-- A payment stands where the outputs before it end. -/
theorem Pays.isPrefix {vout : Nat} (h : i.Pays vout amount (.key k))
    (houts : outs <+: i.tx.outputs) (hlength : outs.length = vout) :
    outs ++ payments [(amount, k)] <+: i.tx.outputs := by
  -- Nothing is made for an amount that is not positive.
  by_cases hpos : 0 < amount
  · obtain ⟨k', hk, hmakes⟩ := h hpos
    cases hk
    obtain ⟨⟨value, lock⟩, hout, rfl, rfl⟩ := hmakes.getElem?
    obtain ⟨rest, hrest⟩ := houts
    rw [← hrest, ← hlength, List.getElem?_append_right (Nat.le_refl _), Nat.sub_self] at hout
    cases rest with
    | nil => cases hout
    | cons out rest =>
      cases hout
      rw [payments_of_pos hpos]
      exact ⟨rest, by rw [List.append_assoc, List.singleton_append, hrest]⟩
  · rw [payments_of_not_pos hpos, List.append_nil]
    exact houts

/-- The first payment stands in front of all outputs. -/
theorem Pays.isPrefix_zero (h : i.Pays 0 amount (.key k)) :
    payments [(amount, k)] <+: i.tx.outputs := by
  rw [← List.nil_append (payments _)]
  exact h.isPrefix List.nil_prefix rfl

/-- Of two payments the second stands after the first. -/
theorem Pays.isPrefix_pair {amount' : Amount} {k' : PublicKey} (h : i.Pays 0 amount (.key k))
    (h' : i.Pays (afterPayment 0 amount) amount' (.key k')) :
    payments [(amount, k), (amount', k')] <+: i.tx.outputs := by
  have hlength : (payments [(amount, k)]).length = afterPayment 0 amount := by
    by_cases hpos : 0 < amount
    · rw [payments_of_pos hpos, afterPayment, if_pos hpos]
      rfl
    · rw [payments_of_not_pos hpos, afterPayment, if_neg hpos]
      rfl
  rw [← List.singleton_append, payments_append]
  exact h'.isPrefix h.isPrefix_zero hlength

end Inspection

/-- A resolve of an agreement, for a dispute that is about it, divides the deposit.

    * The claimant is a party, and the other one is the other party.
    * What is in escrow and is taken is the baton of the dispute and the deposit,
      and nothing is put there.
    * The outputs start with the payments to the two, which are the deposit. -/
structure Ledger.Divides (l : Ledger) (tx : Transaction) (a : Agreement) (dispute : TxId)
    (d : Dispute) (payout : Amount) (claimant other : PublicKey) : Prop where
  agrees : l.Agrees a
  disputed : ∃ r, l.Confirms dispute r (.dispute d)
  about : d.agreement = a.txid
  claimed : d.claimant = .key claimant
  parties : (a.offer.source = .key claimant ∧ a.offer.destination = .key other) ∨
    (a.offer.source = .key other ∧ a.offer.destination = .key claimant)
  deposit : l.prevout? ⟨a.txid, 1⟩ = some ⟨a.offer.deposit, globalLock⟩
  range : 0 ≤ payout ∧ payout ≤ a.offer.deposit
  takes : ∀ o, o ∈ tx.spends ∧ l.InEscrow o ↔ o ∈ [⟨dispute, 0⟩, ⟨a.txid, 1⟩]
  pays : payments [(payout, claimant), (a.offer.deposit - payout, other)] <+: tx.outputs
  total : Output.total (payments [(payout, claimant), (a.offer.deposit - payout, other)]) =
    a.offer.deposit.toInt
  makes : ∀ out ∈ tx.outputs, ¬out.lock.isEscrow

/-- A close of an agreement pays out what the closing offer says. It takes a baton
    and the deposit of the agreement and the marker of the offer, and puts nothing
    in escrow. -/
structure Ledger.PaysOut (l : Ledger) (tx : Transaction) (agreement offer b : TxId) (o : Offer)
    (payout : Amount) (source : PublicKey) : Prop where
  offered : ∃ r, l.Confirms offer r (.offer o)
  amends : o.amends = some agreement
  offeredBy : o.source = .key source
  payout_eq : payout = o.payment
  baton : l.HoldsBaton agreement b
  takes : ∀ o, o ∈ tx.spends ∧ l.InEscrow o ↔ o ∈ [⟨b, 0⟩, ⟨agreement, 1⟩, ⟨offer, 0⟩]
  pays : payments [(o.payment, source)] <+: tx.outputs
  makes : ∀ out ∈ tx.outputs, ¬out.lock.isEscrow

/-- An accept of an offer makes the baton and the deposit of an agreement, which are
    all it puts in escrow, and pays the source. -/
structure Ledger.Begins (l : Ledger) (params : Params) (tx : Transaction) (offer : TxId)
    (o : Offer) (source : PublicKey) : Prop where
  offered : ∃ r, l.Confirms offer r (.offer o)
  offeredBy : o.source = .key source
  pays : [⟨params.markerValue, eventLock offer⟩, ⟨o.deposit, globalLock⟩] ++
    payments [(o.payment, source)] <+: tx.outputs
  makes : ∀ (vout : Nat) (out : Output), tx.outputs[vout]? = some out →
    (out.lock.isEscrow ↔ vout < 2)

/-- What is settled by an operation is settled as it has to be. -/
def Ledger.SettledBy (l : Ledger) (params : Params) (tx : Transaction) : Operation → Prop
  | .resolve agreement dispute payout _ => ∃ a d claimant other, a.txid = agreement ∧
      l.Divides tx a dispute d payout claimant other
  | .close agreement offer payout => ∃ b o source, l.PaysOut tx agreement offer b o payout source
  | .accept offer => ∃ o source, l.Begins params tx offer o source
  | _ => True

section
variable {validators : List Validator} {params : Params} {l : Ledger}
variable (hl : Reachable validators l) (hv : KeepsRules validators params)
include hl hv

/-- The deposit of an agreement has the value that its offer asks. -/
theorem Reachable.prevout?_deposit {a : Agreement} (ha : l.Agrees a) :
    l.prevout? ⟨a.txid, 1⟩ = some ⟨a.offer.deposit, globalLock⟩ := by
  obtain ⟨before, tx, spent, htx, h⟩ := hl.enacted_of_does hv ha.does
  cases h.obeys with
  | accept ho =>
    have hoffer := ho.offer.does.grows h.grows_before hl.sound
    obtain ⟨⟨value, lock⟩, hout, rfl, hvalue⟩ := h.prevout? hl.sound 1 ho.deposit
    rw [ha.offer_eq ha.does hoffer, ← htx, hout, show value = _ from hvalue]

namespace Enacted

variable {before : Ledger} {tx : Transaction} {spent : List Output}

/-- A resolve divides the deposit. -/
theorem divides {agreement dispute : TxId} {payout : Amount} {memo : String}
    (h : Enacted validators params l before tx spent (.resolve agreement dispute payout memo)) :
    ∃ a d claimant other, a.txid = agreement ∧
      l.Divides tx a dispute d payout claimant other := by
  obtain ⟨os, outs, hlayout, hlaid⟩ := h.laidOut hl.sound hv
  cases hlayout
  cases h.obeys with
  | @resolve _ _ _ a d p ho =>
    have ha := ho.agrees.grows h.grows_before hl.sound
    obtain ⟨r, hr⟩ := ho.dispute
    have hr := hr.grows h.grows_before hl.sound
    obtain ⟨s, hs⟩ := ha.offer
    obtain ⟨-, hclaimant, -⟩ := hl.signed_dispute hv hr (ho.agreement ▸ ha.does) hs.does
    have hsound := hl.sound_agreement hv ha
    obtain ⟨source, hsource, -⟩ := hsound.source
    obtain ⟨destination, hdestination, -⟩ := hsound.destination
    -- The other party is the one that the claimant is not.
    obtain ⟨claimant, other, hkey, hopponent, hparties⟩ : ∃ claimant other,
        d.claimant = .key claimant ∧ a.offer.opponent d.claimant = .key other ∧
          ((a.offer.source = .key claimant ∧ a.offer.destination = .key other) ∨
            (a.offer.source = .key other ∧ a.offer.destination = .key claimant)) := by
      rcases hclaimant with hclaimant | hclaimant
      · rw [Offer.opponent, if_pos hclaimant, hclaimant]
        exact ⟨source, destination, hsource, hdestination, .inl ⟨hsource, hdestination⟩⟩
      · rw [Offer.opponent, if_neg (hclaimant ▸ hsound.differ.symm), hclaimant]
        exact ⟨destination, source, hdestination, hsource, .inr ⟨hsource, hdestination⟩⟩
    have hpays := ho.claimant
    have hpays' := ho.defendant
    rw [hkey] at hpays
    rw [hopponent] at hpays'
    exact ⟨a, d, claimant, other, rfl, ha, ⟨r, hr⟩, ho.agreement, hkey, hparties,
      hl.prevout?_deposit hv ha, ho.range, fun o => hlaid.mem_iff, hpays.isPrefix_pair hpays',
      total_payments_sub ho.range claimant other, fun out => hlaid.not_isEscrow⟩

/-- A close pays out what its offer says. -/
theorem paysOut {agreement offer : TxId} {payout : Amount}
    (h : Enacted validators params l before tx spent (.close agreement offer payout)) :
    ∃ b o source, l.PaysOut tx agreement offer b o payout source := by
  obtain ⟨os, outs, hlayout, hlaid⟩ := h.laidOut hl.sound hv
  rcases hlayout with _ | _ | _ | _ | hb | _ | _ | _
  cases h.obeys with
  | @close _ _ a r o e ho =>
    have hr := ho.offer.grows h.grows_before hl.sound
    obtain ⟨source, hsource, -⟩ := (hl.sound_offer hv hr.does).source
    have hpays := ho.payment
    rw [hsource, ← ho.payment_eq] at hpays
    exact ⟨_, o, source, ⟨r, hr⟩, ho.amends, hsource, ho.payment_eq.symm, hb,
      fun o => hlaid.mem_iff, hpays.isPrefix_zero,
      fun out => hlaid.not_isEscrow⟩

/-- An accept begins an agreement, with its baton and its deposit. -/
theorem begins {offer : TxId} (h : Enacted validators params l before tx spent (.accept offer)) :
    ∃ o source, l.Begins params tx offer o source := by
  obtain ⟨os, outs, hlayout, hlaid⟩ := h.laidOut hl.sound hv
  cases h.obeys with
  | @accept _ r o ho =>
    have hr := ho.offer.grows h.grows_before hl.sound
    obtain ⟨source, hsource, -⟩ := (hl.sound_offer hv hr.does).source
    have hpays := ho.payment
    rw [hsource] at hpays
    -- The two outputs in escrow come first.
    have hfront : [⟨params.markerValue, eventLock offer⟩, ⟨o.deposit, globalLock⟩] <+:
        tx.outputs := by
      obtain ⟨⟨value, lock⟩, hbaton, rfl, hvalue⟩ := ho.baton.getElem?
      obtain ⟨⟨value', lock'⟩, hdeposit, rfl, hvalue'⟩ := ho.deposit.getElem?
      cases hvalue
      cases hvalue'
      rw [List.prefix_iff_getElem?]
      intro vout hvout
      rcases vout with _ | _ | vout
      · exact hbaton
      · exact hdeposit
      · exact absurd hvout (by simp)
    have hlength : outs.length = 2 := by
      rcases hlayout with _ | _ | _ | _ | _ | _ | _ | _ <;> rfl
    refine ⟨o, source, ⟨r, hr⟩, hsource, hpays.isPrefix hfront rfl, ?_⟩
    rw [← hlength]
    exact hlaid.outputs

/-- What is done under the rules is settled. -/
theorem settledBy {op : Operation} (h : Enacted validators params l before tx spent op) :
    l.SettledBy params tx op := by
  cases op with
  | resolve agreement dispute payout memo => exact h.divides hl hv
  | close agreement offer payout => exact h.paysOut hl hv
  | accept offer => exact h.begins hl hv
  | _ => trivial

end Enacted

end

/-- Whatever is recorded in a run of a host that keeps the rules of agreements is
    settled as it has to be. -/
theorem settlement_run (genesis : Timestamp) (blockTime : UInt64) (params : Params)
    (others : List Validator) (cs : List Command) (r : Record) (op : Operation) :
    let l := ((Host.underRules genesis blockTime params others).run cs).ledger
    r ∈ l.records → r.tx.operation? = some op → l.SettledBy params r.tx op := by
  intro l hr hop
  have hl := Host.reachable_underRules_run genesis blockTime params others cs
  have hv := Host.keepsRules_underRules genesis blockTime params others
  obtain ⟨before, spent, h⟩ := hl.enacted hv hr hop
  exact h.settledBy hl hv

/-- The quarrel is settled for the claimant, who gets the whole deposit. -/
theorem Quarrel.deposit_settled :
    let l := ((Host.underRules ⟨0, 0⟩ 60 {} []).run commands).ledger
    let r : Record := ⟨resolveId, resolve, some 5⟩
    let op : Operation := .resolve acceptId disputeId 10000 ""
    (r ∈ l.records ∧ r.tx.operation? = some op) ∧ l.SettledBy {} r.tx op := by
  intro l r op
  have hr : r ∈ l.records := resolve_mem_records
  have hop : r.tx.operation? = some op := by decide +kernel
  exact ⟨⟨hr, hop⟩, settlement_run ⟨0, 0⟩ 60 {} [] commands r op hr hop⟩

end Escrow
