import Escrow.Proofs.Agreement.Draft.Events
import Escrow.Proofs.Agreement.Draft.Payment

/-!
# Funds of requested drafts

A request for a draft is first asked about, and nothing of what is asked fails for
want of funds (`NeverShort`). It ends with a plan that is completed, or is refused
before (`Drafter.Ends`), and the plan takes different outputs from escrow: the marker
of an open offer, the baton of an agreement or its deposit. So what is known of such
plans is known of all drafts, and of all that are refused for want of funds.

Main statement: `payment_run`.
-/

namespace Escrow

/-! ## What does not fail for want of funds -/

/-- A computation does not fail for want of funds. -/
def NeverShort {α : Type} (x : Except DraftError α) : Prop :=
  ∀ needed available, x ≠ .error (.insufficientFunds needed available)

section
variable {α β : Type} {x y : Except DraftError α} {e : DraftError}

/-- Not to fail for want of funds is to fail with other errors only. -/
theorem neverShort_iff : NeverShort x ↔
    FailsWith (fun e => ∀ needed available, e ≠ .insufficientFunds needed available) x :=
  ⟨fun h _ he n a hshort => h n a (hshort ▸ he), fun h n a he => h _ he n a rfl⟩

@[simp] theorem neverShort_ok {a : α} : NeverShort (.ok a) :=
  neverShort_iff.2 failsWith_ok

@[simp] theorem neverShort_error_iff :
    NeverShort (.error e : Except DraftError α) ↔
      ∀ needed available, e ≠ .insufficientFunds needed available :=
  neverShort_iff.trans failsWith_error_iff

@[simp] theorem neverShort_pure {a : α} : NeverShort (pure a : Except DraftError α) :=
  neverShort_ok

@[simp] theorem neverShort_throw_iff :
    NeverShort (throw e : Except DraftError α) ↔
      ∀ needed available, e ≠ .insufficientFunds needed available :=
  neverShort_error_iff

@[simp] theorem neverShort_bind_iff {f : α → Except DraftError β} :
    NeverShort (x >>= f) ↔ NeverShort x ∧ ∀ a, x = .ok a → NeverShort (f a) := by
  simp only [neverShort_iff, failsWith_bind_iff]

@[simp] theorem neverShort_map_iff {f : α → β} : NeverShort (f <$> x) ↔ NeverShort x := by
  simp only [neverShort_iff, failsWith_map_iff]

@[simp] theorem neverShort_ite_iff {c : Prop} [Decidable c] :
    NeverShort (if c then x else y) ↔ (c → NeverShort x) ∧ (¬c → NeverShort y) := by
  simp only [neverShort_iff, failsWith_ite_iff]

@[simp] theorem neverShort_mapError_iff {ε : Type} {z : Except ε α} {f : ε → DraftError} :
    NeverShort (z.mapError f) ↔
      ∀ e, z = .error e → ∀ needed available, f e ≠ .insufficientFunds needed available :=
  neverShort_iff.trans failsWith_mapError_iff

@[simp] theorem neverShort_checked {z : Option Amount} : NeverShort (Drafter.checked z) := by
  cases z <;> simp [Drafter.checked]

end

namespace Drafter

variable (d : Drafter)

@[simp] theorem neverShort_agreementAt (id : TxId) : NeverShort (d.agreementAt id) := by
  simp [agreementAt]

@[simp] theorem neverShort_openOffer (id : TxId) : NeverShort (d.openOffer id) := by
  simp [openOffer]

@[simp] theorem neverShort_openDispute (id : TxId) : NeverShort (d.openDispute id) := by
  simp [openDispute, throw_bind]

@[simp] theorem neverShort_freeBaton (id : TxId) : NeverShort (d.freeBaton id) := by
  simp [freeBaton]

@[simp] theorem neverShort_checkMemo (memo : String) : NeverShort (d.checkMemo memo) := by
  simp [checkMemo]

@[simp] theorem neverShort_checkAge (height : Nat) : NeverShort (d.checkAge height) := by
  simp [checkAge]

@[simp] theorem neverShort_checkNotarized (what : String) (id : TxId) :
    NeverShort (d.checkNotarized what id) := by
  simp [checkNotarized]

/-- What a plan releases from escrow may be too much to be summed, but never too little. -/
@[simp] theorem neverShort_released (sum : Amount) (os : List Outpoint) :
    NeverShort (d.released sum os) := by
  induction os generalizing sum with
  | nil => simp [released]
  | cons o os ih => cases ho : d.ledger.prevout? o <;> simp [released, ho, ih]

@[simp] theorem neverShort_checkTerms (o : Offer) : NeverShort (d.checkTerms o) := by
  simp [checkTerms, throw_bind]

@[simp] theorem neverShort_part (amount : Amount) (role : String) (p : Party) :
    NeverShort (part amount role p) := by
  cases p <;> simp [part, Party.payee]

@[simp] theorem neverShort_payment (o : Offer) : NeverShort (payment o) :=
  neverShort_part _ _ _

@[simp] theorem neverShort_referred (o : Offer) : NeverShort (d.referred o) := by
  cases ho : o.amends <;> simp [referred, ho]

@[simp] theorem neverShort_counterparty (id : TxId) : NeverShort (d.counterparty id) := by
  simp only [counterparty, neverShort_bind_iff, neverShort_agreementAt, neverShort_freeBaton,
    true_and]
  intro a _ b _
  rcases hdestination : a.offer.destination.key? with _ | k <;>
    rcases hsource : a.offer.source.key? with _ | k' <;> simp [hdestination, hsource, throw_bind]

/-! ## Requests -/

/-- A draft is refused, and not for want of funds, or it ends with the completion of a
    plan that takes different outputs from escrow. -/
def Ends (d : Drafter) (y : Except DraftError Drafted) : Prop :=
  (∃ e, y = .error e ∧ ∀ needed available, e ≠ .insufficientFunds needed available) ∨
    ∃ p receipt, d.Frames p ∧ y = do return ⟨← d.finish p, receipt⟩

namespace Ends

variable {d : Drafter} {y : Except DraftError Drafted}

theorem finish {p : Plan} (h : d.Frames p) (receipt : Receipt) :
    d.Ends (d.finish p >>= fun tx => pure ⟨tx, receipt⟩) :=
  .inr ⟨p, receipt, h, rfl⟩

theorem refused {e : DraftError} (h : ∀ needed available, e ≠ .insufficientFunds needed available) :
    d.Ends (throw e) :=
  .inl ⟨e, rfl, h⟩

theorem ite_throw {c : Prop} [Decidable c] {e : DraftError}
    (h : ∀ needed available, e ≠ .insufficientFunds needed available) (hy : ¬c → d.Ends y) :
    d.Ends (if c then throw e else y) := by
  split
  · exact refused h
  · next hc => exact hy hc

theorem bind {α : Type} {x : Except DraftError α} {f : α → Except DraftError Drafted}
    (hx : NeverShort x) (hf : ∀ a, x = .ok a → d.Ends (f a)) : d.Ends (x >>= f) := by
  rcases x with e | a
  · exact refused (neverShort_error_iff.1 hx)
  · exact hf a rfl

theorem after_check {c : Prop} [Decidable c] {x : Except DraftError Unit} (hx : NeverShort x)
    (hy : d.Ends y) : d.Ends (if c then x >>= fun _ => y else y) := by
  split
  · exact bind hx fun _ _ => hy
  · exact hy

/-- A plan takes from escrow what is released for it. -/
theorem released {os : List Outpoint} {f : Amount → Except DraftError Drafted}
    (hnodup : os.Nodup) (hos : ∀ o ∈ os, d.ledger.InEscrow o)
    (hf : ∀ a, (∀ pays op, d.Frames ⟨os, a, pays, op⟩) → d.Ends (f a)) :
    d.Ends (d.released 0 os >>= f) :=
  .bind (d.neverShort_released 0 os) fun a ha =>
    hf a fun _ _ => ⟨hnodup, hos, ha⟩

theorem completes {os : List Outpoint} (hnodup : os.Nodup) (hos : ∀ o ∈ os, d.ledger.InEscrow o)
    (pays : List Output) (op : Operation) (receipt : Receipt) :
    d.Ends (do
      let released ← d.released 0 os
      let tx ← d.finish ⟨os, released, pays, op⟩
      return ⟨tx, receipt⟩) :=
  .released hnodup hos fun _ hframes => .finish (hframes pays op) receipt

/-- A draft that is granted comes from a plan that is completed. -/
theorem exists_of_ok (h : d.Ends y) {draft : Drafted} (hy : y = .ok draft) :
    ∃ p, d.Frames p ∧ d.finish p = .ok draft.tx := by
  rcases h with ⟨e, he, -⟩ | ⟨p, receipt, hp, rfl⟩
  · cases he.symm.trans hy
  · simp only [bind_eq_ok_iff, pure_eq_ok_iff] at hy
    obtain ⟨tx, htx, rfl⟩ := hy
    exact ⟨p, hp, htx⟩

/-- A draft that is refused for want of funds comes from a plan that is refused so. -/
theorem exists_of_short (h : d.Ends y) {needed available : Amount}
    (hy : y = .error (.insufficientFunds needed available)) :
    ∃ p, d.Frames p ∧ d.finish p = .error (.insufficientFunds needed available) := by
  rcases h with ⟨e, he, hnever⟩ | ⟨p, receipt, hp, rfl⟩
  · exact absurd (Except.error.inj (he.symm.trans hy)) (hnever needed available)
  · simp only [bind_eq_error_iff, pure_ne_error, and_false, exists_false, or_false] at hy
    exact ⟨p, hp, hy⟩

end Ends

/-- An offer takes nothing from escrow. -/
theorem ends_offer (purpose : OfferPurpose) (o : Offer) : d.Ends (d.offer purpose o) :=
  .bind (d.neverShort_checkTerms o) fun _ _ =>
    .finish ⟨List.nodup_nil, List.forall_mem_nil _, rfl⟩ _

theorem ends_create (destination : PublicKey) (t : Terms) : d.Ends (d.create destination t) := by
  rw [create, throw_bind]
  exact .ite_throw (by simp) fun _ => d.ends_offer _ _

theorem ends_amend (agreement : TxId) (t : Terms) : d.Ends (d.amend agreement t) :=
  .bind (d.neverShort_counterparty agreement) fun _ _ => d.ends_offer _ _

theorem ends_close (agreement : TxId) (payment : Amount) (name memo : String) :
    d.Ends (d.close agreement payment name memo) :=
  .bind (d.neverShort_counterparty agreement) fun _ _ => d.ends_offer _ _

/-- An offer that refers to an agreement is drafted with the free baton of that. -/
theorem freeBaton_of_referred {d : Drafter} {o : Offer} {agreement b : TxId}
    (h : d.referred o = .ok (some (agreement, b))) : d.freeBaton agreement = .ok b := by
  rw [referred] at h
  split at h
  · cases h
  · split at h
    · simp only [bind_eq_ok_iff, ite_bind_eq_ok_iff, pure_eq_ok_iff, Option.some.injEq,
        Prod.mk.injEq] at h
      obtain ⟨b, hb, -, rfl, rfl⟩ := h
      exact hb
    · cases h

end Drafter

section
variable {validators : List Validator} {params : Params} {d : Drafter}
variable (hl : Reachable validators d.ledger) (hv : KeepsRules validators params)
include hl hv

/-- Who holds the free baton of an agreement holds a baton of it. -/
theorem Reachable.holdsBaton_of_freeBaton {agreement b : TxId}
    (h : d.freeBaton agreement = .ok b) : d.ledger.HoldsBaton agreement b := by
  obtain ⟨latest, hlatest, hfree, rfl⟩ := Drafter.freeBaton_eq_ok_iff.1 h
  obtain ⟨es, hes, -⟩ := Ledger.latestEvent_eq_ok_iff.1 hlatest
  obtain ⟨r, op, hr, -, hhands⟩ := hl.confirms_latest hv hes hlatest
  exact ⟨op, hr.does, hhands (.inl hfree)⟩

theorem Reachable.ends_stopOffer (offer : TxId) (memo : String) :
    d.Ends (d.stopOffer offer memo) := by
  rw [Drafter.stopOffer]
  refine .bind (d.neverShort_openOffer _) ?_
  rintro ⟨r, o⟩ ho
  have hmarker := isEscrow_marker hl hv (Drafter.openOffer_eq_ok_iff.1 ho).1.does
  have hrest := Drafter.Ends.bind (d.neverShort_checkMemo memo) fun _ _ =>
    .completes (List.nodup_singleton _) (List.forall_mem_singleton.2 hmarker) []
      (.stopOffer offer memo) (.stopOffer offer memo)
  simp only [throw_bind]
  -- Only the source is asked for more than the memo.
  split
  · exact .ite_throw (by simp) fun _ => .ite_throw (by simp) fun _ => hrest
  · exact hrest

/-- What an accept takes from escrow if it ends an agreement. -/
theorem Reachable.inEscrow_accept {offer agreement b : TxId} {r : Record} {o : Offer}
    (ho : d.ledger.Confirms offer r (.offer o)) (hb : d.ledger.HoldsBaton agreement b) :
    ⟨offer, 0⟩ ≠ (⟨b, 0⟩ : Outpoint) ∧ d.ledger.InEscrow ⟨offer, 0⟩ ∧
      d.ledger.InEscrow ⟨b, 0⟩ ∧ d.ledger.InEscrow ⟨agreement, 1⟩ := by
  obtain ⟨offer', hA⟩ := hb.exists_accept hl hv
  exact ⟨ho.isMarker.ne_baton hb, isEscrow_marker hl hv ho.does, hb.isEscrow hl hv,
    isEscrow_deposit hl hv hA⟩

/-- An accept takes the marker of the offer, and the baton and the deposit of the agreement
    that it ends, if it ends one. -/
theorem Reachable.ends_accept (offer : TxId) : d.Ends (d.accept offer) := by
  rw [Drafter.accept]
  refine .bind (d.neverShort_openOffer _) ?_
  rintro ⟨r, o⟩ ho
  have ho := (Drafter.openOffer_eq_ok_iff.1 ho).1
  simp only [throw_bind, Drafter.beginning, Drafter.ending, bind_assoc, pure_bind]
  refine .ite_throw (by simp) fun _ => .bind (d.neverShort_checkAge _) fun _ _ =>
    .after_check (d.neverShort_checkNotarized _ _) ?_
  refine .bind (d.neverShort_referred _) fun previous hprevious => ?_
  -- The offer refers to no agreement, or to one whose baton is free.
  rcases previous with _ | ⟨agreement, b⟩
  · have hmarker := isEscrow_marker hl hv ho.does
    exact .released (List.nodup_singleton _) (List.forall_mem_singleton.2 hmarker)
      fun _ hframes => .bind (Drafter.neverShort_payment o) fun _ _ => .finish (hframes ..) _
  · have hb := hl.holdsBaton_of_freeBaton hv (Drafter.freeBaton_of_referred hprevious)
    obtain ⟨hne, hmarker, hbaton, hdeposit⟩ := hl.inEscrow_accept hv ho hb
    dsimp only
    -- To close an agreement and to amend it take the same outputs, in another order.
    split
    · refine .released ?_ ?_ fun _ hframes =>
        .bind (Drafter.neverShort_payment o) fun _ _ => .finish (hframes ..) _
      · simpa using hne.symm
      · simp [hmarker, hbaton, hdeposit]
    · refine .released ?_ ?_ fun _ hframes =>
        .bind (Drafter.neverShort_payment o) fun _ _ => .finish (hframes ..) _
      · simpa using hne
      · simp [hmarker, hbaton, hdeposit]

theorem Reachable.ends_dispute (agreement : TxId) (flags : DisputeFlags) (memo : String) :
    d.Ends (d.dispute agreement flags memo) := by
  rw [Drafter.dispute]
  refine .bind (d.neverShort_agreementAt _) fun a ha => ?_
  simp only [throw_bind]
  refine .ite_throw (by simp) fun _ => .ite_throw (by simp) fun _ =>
    .ite_throw (by simp) fun _ => .ite_throw (by simp) fun _ =>
    .ite_throw (by simp) fun _ => .bind (d.neverShort_checkMemo _) fun _ _ =>
    .bind (d.neverShort_freeBaton _) fun b hb => ?_
  have hbaton := (hl.holdsBaton_of_freeBaton hv hb).isEscrow hl hv
  exact .completes (List.nodup_singleton _) (List.forall_mem_singleton.2 hbaton) ..

theorem Reachable.ends_stopDispute (dispute : TxId) (memo : String) :
    d.Ends (d.stopDispute dispute memo) := by
  rw [Drafter.stopDispute]
  refine .bind (d.neverShort_openDispute _) ?_
  rintro ⟨x, a⟩ hx
  obtain ⟨⟨r, hx⟩, -⟩ := Drafter.openDispute_eq_ok_iff.1 hx
  have hbaton := hx.holdsBaton.isEscrow hl hv
  simp only [throw_bind]
  exact .ite_throw (by simp) fun _ => .ite_throw (by simp) fun _ =>
    .bind (d.neverShort_checkMemo _) fun _ _ =>
      .completes (List.nodup_singleton _) (List.forall_mem_singleton.2 hbaton) ..

/-- A resolve takes what the dispute made, and the deposit of the agreement. -/
theorem Reachable.ends_resolve (dispute : TxId) (payout : Amount) (memo : String) :
    d.Ends (d.resolve dispute payout memo) := by
  rw [Drafter.resolve]
  refine .bind (d.neverShort_openDispute _) ?_
  rintro ⟨x, a⟩ hx
  obtain ⟨⟨r, hx⟩, -, hid, hagrees⟩ := Drafter.openDispute_eq_ok_iff.1 hx
  have hbaton := hx.holdsBaton.isEscrow hl hv
  have hdeposit := isEscrow_deposit hl hv hagrees.does
  -- Without an arbitrator there is nobody to resolve.
  rcases harbitrator : a.offer.arbitrator with _ | p
  · simp only [harbitrator]
    exact .refused (by simp)
  · simp only [harbitrator, throw_bind]
    refine .ite_throw (by simp) fun _ => .ite_throw (by simp) fun _ =>
      .bind (d.neverShort_checkMemo _) fun _ _ => ?_
    refine .released (by simp) (by simp [hbaton, hdeposit]) fun _ hframes => ?_
    exact .bind (Drafter.neverShort_part _ _ _) fun _ _ =>
      .bind (Drafter.neverShort_part _ _ _) fun _ _ => .finish (hframes ..) _

/-- Every request ends with a plan that takes different outputs from escrow, or is
    refused before. -/
theorem Reachable.ends_draft (request : DraftRequest) : d.Ends (d.draft request) := by
  cases request with
  | create => exact d.ends_create _ _
  | amend => exact d.ends_amend _ _
  | close => exact d.ends_close _ _ _ _
  | stopOffer => exact hl.ends_stopOffer hv _ _
  | accept => exact hl.ends_accept hv _
  | dispute => exact hl.ends_dispute hv _ _ _
  | stopDispute => exact hl.ends_stopDispute hv _ _
  | resolve => exact hl.ends_resolve hv _ _ _
  | unlock => exact .refused (by simp)

end

/-- On every ledger that a host has reached which keeps the rules of agreements, a request
    that is granted, or refused for want of funds, has come to the completion of a plan
    that takes different outputs from escrow. Every such plan is paid for exactly if it is
    completed; and unless it is said that a sum overflows, it is refused for want of funds
    if and only if the purse is empty or has less than the plan needs. That a sum overflows
    is said only if a sum of the plan or of the purse is out of the range of amounts.
    Positions of outputs are those of things that are held in memory, and no other lock has
    the address of the key. -/
theorem payment_run (genesis : Timestamp) (blockTime : UInt64) (params : Params)
    (others : List Validator) (cs : List Command) (reader : Params) (key : PublicKey)
    (request : DraftRequest) :
    let l := ((Host.underRules genesis blockTime params others).run cs).ledger
    let d : Drafter := ⟨l, reader, key⟩
    l.Nameable → l.AddressFree key →
      (∀ draft, d.draft request = .ok draft → ∃ p, d.Frames p ∧ d.finish p = .ok draft.tx) ∧
      (∀ needed available, d.draft request = .error (.insufficientFunds needed available) →
        ∃ p, d.Frames p ∧ d.finish p = .error (.insufficientFunds needed available)) ∧
      ∀ p, d.Frames p →
        (∀ tx, d.finish p = .ok tx → d.PaidExactly p tx) ∧
        (d.finish p ≠ .error .overflow → d.finish p ≠ .error (.parameter .outputsOverflow) →
          ((∃ needed available, d.finish p = .error (.insufficientFunds needed available)) ↔
            d.purse = [] ∨ Coin.total d.purse < d.need p)) ∧
        (d.finish p = .error .overflow ∨ d.finish p = .error (.parameter .outputsOverflow) →
          d.Overflows p) := by
  intro l d hn hfree
  have hl := Host.reachable_underRules_run genesis blockTime params others cs
  have hv := Host.keepsRules_underRules genesis blockTime params others
  have hends := Reachable.ends_draft (d := d) hl hv request
  exact ⟨fun _ => hends.exists_of_ok, fun _ _ => hends.exists_of_short, fun p hframes =>
    ⟨fun _ => hl.paidExactly hn hfree hframes, hl.insufficientFunds_iff hn hfree hframes,
      Drafter.overflows_of_finish⟩⟩

/-- The accept of the bargain is paid for exactly. -/
theorem Bargain.accept_paid :
    let l := ((Host.underRules ⟨0, 0⟩ 60 {} []).run commands).ledger
    let d : Drafter := ⟨l, {}, buyer.publicKey⟩
    (l.Nameable ∧ l.AddressFree buyer.publicKey) ∧ ∃ p, d.Frames p ∧ d.PaidExactly p accept.tx := by
  intro l d
  have hl : l = ledger := ledger_run
  have hnameable : l.Nameable := by rw [hl, Ledger.Nameable]; decide
  have hfree : l.AddressFree buyer.publicKey := by
    rw [hl]
    exact unbroken_accept.address
  have hdraft : (⟨l, {}, buyer.publicKey⟩ : Drafter).draft (.accept offerId) = .ok accept := by
    rw [hl]
    exact draft_accept
  obtain ⟨hok, -, hall⟩ :=
    payment_run ⟨0, 0⟩ 60 {} [] commands {} buyer.publicKey (.accept offerId) hnameable hfree
  obtain ⟨p, hframes, hfinish⟩ := hok accept hdraft
  exact ⟨⟨hnameable, hfree⟩, p, hframes, (hall p hframes).1 accept.tx hfinish⟩

end Escrow
