import Escrow.Proofs.Agreement.Consent

/-!
# What becomes of an offer

The marker of an offer, its output 0, is spent once at most, and then by one of
three things (`Ledger.TakesUp`): a stop-offer, by the destination or, if the
source may cancel, by the source; an accept by the destination; or a close by the
destination, which also takes the deposit of the agreement to be closed.

An accept or close comes in time (`Ledger.InTime`). Its age is looked at when it is
admitted, and it goes into the very next block. So if the offer is in the block at
height `g` and what takes it up in the one at height `h`, then `g < h` and from `g`
to `h - 1` no more time has passed than an offer lasts. If the offer waits for
notaries, its block is notarized, and so is that of the event that is followed, if
it amends an agreement.

Main statement: `offers_run`.
-/

namespace Escrow

/-- A transaction does one of the things that take up an offer. -/
inductive Ledger.TakesUp (l : Ledger) (offer : TxId) (o : Offer) (tx : Transaction) :
    Operation → Prop
  | stop {memo : String} :
    l.SignedBy tx o.destination ∨ (l.SignedBy tx o.source ∧ ¬o.flags.has .noCancel) →
    l.TakesUp offer o tx (.stopOffer offer memo)
  | accept : ¬o.flags.has .close → l.SignedBy tx o.destination →
    l.TakesUp offer o tx (.accept offer)
  | close {agreement : TxId} {payout : Amount} : o.flags.has .close → o.flags.has .amendment →
    l.SignedBy tx o.destination → o.amends = some agreement → ⟨agreement, 1⟩ ∈ tx.spends →
    l.TakesUp offer o tx (.close agreement offer payout)

/-- An agreement is amended from a notarized event, whose baton is the only one of
    it that a transaction spends. -/
def Ledger.FollowsNotarized (l : Ledger) (tx : Transaction) (agreement : TxId) : Prop :=
  ∃ e, (l.HoldsBaton agreement e ∧ ⟨e, 0⟩ ∈ tx.spends ∧ l.isTxNotarized e) ∧
    ∀ e', l.HoldsBaton agreement e' → ⟨e', 0⟩ ∈ tx.spends → e' = e

/-- An offer is taken up, in the block at a height, while it lasts, and after the
    notaries if it waits for them. -/
structure Ledger.InTime (l : Ledger) (params : Params) (offer : TxId) (o : Offer)
    (tx : Transaction) (height : Nat) : Prop where
  young : ∃ g, l.heightOf? offer = some g ∧ g < height ∧
    params.elapsed g (height - 1) ≤ params.offerExpiry.toNat
  notarized : o.flags.has .awaitNotaries → l.isTxNotarized offer
  event : o.flags.has .awaitNotaries → o.flags.has .amendment →
    ∃ agreement, o.amends = some agreement ∧ l.FollowsNotarized tx agreement

/-- What is confirmed in a notarized block is so in every later ledger. -/
theorem Ledger.Confirms.isTxNotarized {l m : Ledger} {id : TxId} {r : Record} {op : Operation}
    (h : l.Confirms id r op) (hnotarized : r.height.any l.isNotarized) (hgrows : l.Grows m)
    (hm : m.Sound) : m.isTxNotarized id := by
  have hr := h.grows hgrows hm
  rw [Ledger.isTxNotarized, Ledger.heightOf?, hr.record?]
  rw [Option.any_eq_true] at hnotarized ⊢
  obtain ⟨g, hg, hle⟩ := hnotarized
  rw [Ledger.isNotarized, Bool.and_eq_true, decide_eq_true_iff, decide_eq_true_iff] at hle
  refine ⟨g, hg, ?_⟩
  rw [Ledger.isNotarized, Bool.and_eq_true, decide_eq_true_iff, decide_eq_true_iff]
  exact ⟨hle.1, Nat.le_trans hle.2 hgrows.notarized_le⟩

section
variable {validators : List Validator} {params : Params} {l : Ledger} {offer : TxId} {o : Offer}
variable (hl : Reachable validators l) (hv : KeepsRules validators params)
include hl hv

namespace Enacted

variable {before : Ledger} {tx : Transaction} {spent : List Output} {op : Operation}
  {r e : Record} {a : Agreement}
variable (h : Enacted validators params l before tx spent op)
include h

/-- Who takes the marker of an offer takes up the offer. -/
theorem takesUp (ho : l.Does offer (.offer o)) (hmem : ⟨offer, 0⟩ ∈ tx.spends) :
    l.TakesUp offer o tx op := by
  have ho' := h.does_before hl.sound hmem ho
  have taken : ∀ {os}, (⟨before, params, tx, spent⟩ : Inspection).Takes os → ⟨offer, 0⟩ ∈ os :=
    fun htakes => htakes.mem h.admits.map_prevout? hmem (isEscrow_marker h.reachable hv ho')
  have signed : ∀ {p}, (⟨before, params, tx, spent⟩ : Inspection).Signed p → l.SignedBy tx p :=
    fun hp => h.signedBy hl.sound hp
  have noBaton : ∀ {a}, ¬before.HoldsBaton a offer := fun hb => hb.handsOn ho'
  -- Only three operations take a marker, and each takes that of its offer.
  rcases h.obeys with hobeys | hobeys | hobeys | hobeys | hobeys | hobeys | hobeys
  · cases taken hobeys.takes
  · obtain ⟨rfl, -⟩ := Outpoint.mk.inj (List.mem_singleton.1 (taken hobeys.takes))
    cases hobeys.offer.does.unique ho'
    refine .stop (hobeys.signed.imp signed ?_)
    rintro ⟨-, hsource, hcancel⟩
    exact ⟨signed hsource, hcancel⟩
  · rename_i id r o'
    have hid : offer = id := by
      by_cases hamendment : o'.flags.has .amendment
      · obtain ⟨a, e, ham⟩ := hobeys.amends hamendment
        have hid : offer = id ∨ offer = e.txid := by
          simpa using taken (hobeys.takes_of_amends hamendment ham)
        refine hid.resolve_right ?_
        rintro rfl
        exact noBaton ham.baton.holdsBaton
      · exact (Outpoint.mk.inj (List.mem_singleton.1
          (taken (hobeys.takes_of_not_amendment hamendment)))).1
    subst hid
    cases hobeys.offer.does.unique ho'
    exact .accept hobeys.not_close (signed hobeys.signed)
  · rename_i id payout a r o' e
    have hid : offer = e.txid ∨ offer = id := by simpa using taken hobeys.takes
    rcases hid with rfl | rfl
    · exact absurd hobeys.baton.holdsBaton noBaton
    · cases hobeys.offer.does.unique ho'
      exact .close hobeys.closes.2 hobeys.closes.1 (signed hobeys.signed) hobeys.amends
        (hobeys.takes.mem_spends (by simp))
  · obtain ⟨rfl, -⟩ := Outpoint.mk.inj (List.mem_singleton.1 (taken hobeys.takes))
    exact absurd hobeys.baton.holdsBaton noBaton
  · obtain ⟨rfl, -⟩ := Outpoint.mk.inj (List.mem_singleton.1 (taken hobeys.takes))
    obtain ⟨r, hr⟩ := hobeys.dispute
    exact absurd hr.holdsBaton noBaton
  · rename_i id payout memo a d p
    obtain rfl : offer = id := by simpa using taken hobeys.takes
    obtain ⟨r, hr⟩ := hobeys.dispute
    exact absurd hr.holdsBaton noBaton

omit hv in
/-- An offer that is not too old for the ledger that something is admitted to is
    taken up before it is too old. -/
theorem young_of_not_expired (hr : before.Confirms offer r (.offer o))
    (hyoung : ¬params.expired (r.height.getD 0) before.height) {height : Nat}
    (hheight : l.heightOf? tx.txid = some height) :
    ∃ g, l.heightOf? offer = some g ∧ g < height ∧
      params.elapsed g (height - 1) ≤ params.offerExpiry.toNat := by
  obtain ⟨g, hg⟩ := Option.isSome_iff_exists.1 hr.isConfirmed
  rw [hg, Params.expired, decide_eq_true_iff, Nat.not_lt] at hyoung
  have hle := h.reachable.sound.height_le r (Ledger.mem_of_record? hr.record?).1 g hg
  rw [h.height_eq hl.sound hheight]
  refine ⟨g, ?_, Nat.lt_succ_of_le hle, hyoung⟩
  rw [Ledger.heightOf?, (hr.grows h.grows_before hl.sound).record?]
  exact hg

/-- Who follows a notarized event of an agreement spends no other baton of it. -/
theorem followsNotarized {vin : Nat}
    (hfollows : (⟨before, params, tx, spent⟩ : Inspection).Follows vin a e)
    (hagrees : before.Agrees a) (hnotarized : e.height.any before.isNotarized) :
    l.FollowsNotarized tx a.txid := by
  have hmem := List.mem_of_getElem? hfollows.spends
  have hb := hfollows.holdsBaton
  obtain ⟨op', he, hevent, -⟩ := hfollows.event
  refine ⟨e.txid, ⟨?_, hmem, he.isTxNotarized hnotarized h.grows_before hl.sound⟩, ?_⟩
  · obtain ⟨prev, hdoes, hhands⟩ := hb
    exact ⟨prev, hdoes.grows h.grows_before hl.sound, hhands⟩
  · rintro e' ⟨prev, hdoes, hhands⟩ hmem'
    have hb' : before.HoldsBaton a.txid e' := ⟨prev, h.does_before hl.sound hmem' hdoes, hhands⟩
    exact (h.reachable.balanced hv hagrees.does).eq_of_unspent hb' hb
      (Ledger.spentBy?_eq_none_iff.1 (h.admits.unspent hmem'))
      (Ledger.spentBy?_eq_none_iff.1 (h.admits.unspent hmem))

/-- An accept or close comes in time. -/
theorem inTime (ho : l.Does offer (.offer o))
    (hop : op = .accept offer ∨ ∃ agreement payout, op = .close agreement offer payout)
    {height : Nat} (hheight : l.heightOf? tx.txid = some height) :
    l.InTime params offer o tx height := by
  have hgrows := h.grows_before
  -- An accept and a close are asked for the same, in their own rules.
  rcases hop with rfl | ⟨agreement, payout, rfl⟩
  · obtain ⟨r, o', hobeys⟩ : ∃ r o', (⟨before, params, tx, spent⟩ : Inspection).ObeysAccept
        offer r o' := by
      rcases h.obeys with _ | _ | hobeys
      exact ⟨_, _, hobeys⟩
    cases (hobeys.offer.does.grows hgrows hl.sound).unique ho
    refine ⟨h.young_of_not_expired hl hobeys.offer hobeys.young hheight, fun hawait => ?_,
      fun hawait hamendment => ?_⟩
    · exact hobeys.offer.isTxNotarized (hobeys.notarized hawait) hgrows hl.sound
    · obtain ⟨a, e, ham⟩ := hobeys.amends hamendment
      exact ⟨a.txid, ham.amends,
        h.followsNotarized hl hv ham.baton ham.agrees (ham.notarized hawait)⟩
  · obtain ⟨a, r, o', e, hobeys⟩ : ∃ a r o' e,
        (⟨before, params, tx, spent⟩ : Inspection).ObeysClose offer payout a r o' e := by
      rcases h.obeys with _ | _ | _ | hobeys
      exact ⟨_, _, _, _, hobeys⟩
    cases (hobeys.offer.does.grows hgrows hl.sound).unique ho
    refine ⟨h.young_of_not_expired hl hobeys.offer hobeys.young hheight, fun hawait => ?_,
      fun hawait _ => ?_⟩
    · exact hobeys.offer.isTxNotarized (hobeys.notarized hawait).1 hgrows hl.sound
    · exact ⟨a.txid, hobeys.amends,
        h.followsNotarized hl hv hobeys.baton hobeys.agrees (hobeys.notarized hawait).2⟩

end Enacted

end

/-- In a run of a host that keeps the rules of agreements, the marker of every offer
    is spent once at most, by something that takes up the offer, and an accept or
    close that is confirmed came in time. -/
theorem offers_run (genesis : Timestamp) (blockTime : UInt64) (params : Params)
    (others : List Validator) (cs : List Command) (offer : TxId) (o : Offer) :
    let l := ((Host.underRules genesis blockTime params others).run cs).ledger
    l.Does offer (.offer o) → ∀ r ∈ l.records, ⟨offer, 0⟩ ∈ r.tx.spends →
      (∀ s ∈ l.records, ⟨offer, 0⟩ ∈ s.tx.spends → s = r) ∧
      ∃ op, r.tx.operation? = some op ∧ l.TakesUp offer o r.tx op ∧
        ∀ height, r.height = some height → op.function = .accept ∨ op.function = .close →
          l.InTime params offer o r.tx height := by
  intro l ho r hr hmem
  have hl := Host.reachable_underRules_run genesis blockTime params others cs
  have hv := Host.keepsRules_underRules genesis blockTime params others
  obtain ⟨out, hout, hescrow⟩ := isEscrow_marker hl hv ho
  obtain ⟨op, hop⟩ := hl.operation?_of_spends hv hr hmem hout hescrow
  obtain ⟨before, spent, h⟩ := hl.enacted hv hr hop
  have htakesUp := h.takesUp hl hv ho hmem
  refine ⟨fun s hs hmem' => ?_, op, hop, htakesUp, fun height hheight hfun => ?_⟩
  · obtain ⟨vin, hat⟩ := List.getElem?_of_mem hmem
    obtain ⟨vin', hat'⟩ := List.getElem?_of_mem hmem'
    exact (hl.sound.spends_unique hs hr hat' hat).1
  · refine h.inTime hl hv ho ?_ ?_
    · rcases htakesUp with _ | _ | _
      · rcases hfun with hfun | hfun <;> cases hfun
      · exact .inl rfl
      · exact .inr ⟨_, _, rfl⟩
    · rw [← hl.sound.txid_eq r hr, Ledger.heightOf?,
        hl.sound.record?_eq_some_iff.2 ⟨hr, rfl⟩]
      exact hheight

/-- The offer before the quarrel was taken up in time. -/
theorem Quarrel.offer_taken :
    let l := ((Host.underRules ⟨0, 0⟩ 60 {} []).run commands).ledger
    let r : Record := ⟨acceptId, accept, some 3⟩
    (l.Does offerId (.offer terms) ∧ r ∈ l.records ∧ ⟨offerId, 0⟩ ∈ r.tx.spends) ∧
      (∀ s ∈ l.records, ⟨offerId, 0⟩ ∈ s.tx.spends → s = r) ∧
      ∃ op, r.tx.operation? = some op ∧ l.TakesUp offerId terms r.tx op ∧
        ∀ height, r.height = some height → op.function = .accept ∨ op.function = .close →
          l.InTime {} offerId terms r.tx height := by
  intro l r
  have hl : l = ledger := ledger_run
  have ho : l.Does offerId (.offer terms) := by
    rw [hl]
    exact ⟨⟨offerId, offer, some 2⟩, rfl, by decide +kernel⟩
  have hr : r ∈ l.records := by
    rw [hl]
    exact List.mem_of_getElem? (i := 2) rfl
  have hmem : ⟨offerId, 0⟩ ∈ r.tx.spends := List.mem_of_getElem? (i := 0) rfl
  exact ⟨⟨ho, hr, hmem⟩, offers_run ⟨0, 0⟩ 60 {} [] commands offerId terms ho r hr hmem⟩

end Escrow
