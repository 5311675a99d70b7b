import Escrow.Proofs.Agreement.Draft.Events

/-!
# Drafts of offers

What a drafter makes of a request to offer an agreement, to amend one or to close
one is not always admitted once the drafter has signed it. The drafter is asked
about the terms all that the rules ask but one thing: the key of the destination
and that of the arbitrator may be no points of the curve. The parties of an
agreement are points, as the rules were asked when it was offered, and so is the
drafter's key, as a signature of it holds. So a draft is admitted if and only if
the keys that the request names are points. (It must not name the null agreement
either, whose id is read as none. No transaction is known to have that id.)

Main statement: `offer_drafts_run`.
-/

namespace Escrow

/-! ## Flags -/

namespace OfferFlags

variable {f g h : OfferFlags}

theorem has_iff : f.has g ↔ f.bits &&& g.bits = g.bits :=
  decide_eq_true_iff

theorem not_meets_iff : ¬f.meets g ↔ f.bits &&& g.bits = 0 := by
  rw [meets, decide_eq_true_iff, not_not]

/-- Who has no flag of a set has not all flags of a part of it. -/
theorem not_has_of_not_meets (hf : ¬f.meets g) (hg : g.has h) (hne : h.bits ≠ 0) : ¬f.has h := by
  rw [has_iff] at hg ⊢
  intro hh
  rw [← hg, ← UInt8.and_assoc, not_meets_iff.1 hf, UInt8.zero_and] at hh
  exact hne (hg ▸ hh.symm)

/-- A union has the flags of its second part. -/
theorem has_union_right (f g : OfferFlags) : (f.union g).has g := by
  rw [has_iff, union, ← UInt8.toBitVec_inj]
  ext i
  simp +contextual

/-- Flags stay in a set when others are taken out of it. -/
theorem has_without (hf : f.has h) (hg : ¬h.meets g) : (f.without g).has h := by
  rw [has_iff] at hf ⊢
  have hkept : ~~~g.bits &&& h.bits = h.bits := by
    rw [not_meets_iff, ← UInt8.toBitVec_inj] at hg
    rw [← UInt8.toBitVec_inj]
    ext i hi
    have hbit := congrArg (·[i]) hg
    simpa [imp_not_comm] using hbit
  rw [without, UInt8.and_assoc, hkept, hf]

end OfferFlags

/-! ## What is asked of a drafter -/

theorem Party.key?_eq_some_iff {p : Party} {k : PublicKey} : p.key? = some k ↔ p = .key k := by
  cases p with
  | key k' => simp [key?]
  | script bs => simp [key?]

namespace Drafter

/-- An offer that passes all that a drafter is asked about its terms, and is then
    completed. -/
structure Offers (d : Drafter) (o : Offer) (tx : Transaction) : Prop where
  differ : o.source ≠ o.destination
  arbitrator : ∀ p, o.arbitrator = some p → p ≠ o.source ∧ p ≠ o.destination
  known : o.flags.isKnown
  deposit : d.params.markerValue ≤ o.deposit
  disputeFee : d.params.markerValue ≤ o.disputeFee
  payment : 0 ≤ o.payment
  name : o.name.utf8ByteSize ≠ 0 ∧ o.name.utf8ByteSize ≤ d.params.maxName
  memo : o.memo.utf8ByteSize ≤ d.params.maxMemo
  finish : d.finish { pays := [⟨d.params.markerValue, globalLock⟩], operation := .offer o } = .ok tx

variable {d : Drafter} {draft : Drafted}

/-- An offer is drafted only if its terms pass all that a drafter is asked. -/
theorem offers_of_offer {purpose : OfferPurpose} {o : Offer} (h : d.offer purpose o = .ok draft) :
    d.Offers o draft.tx := by
  simp only [offer, checkTerms, throw_bind, bind_eq_ok_iff, ite_throw_eq_ok_iff, exists_unit_iff,
    checkMemo_eq_ok_iff, pure_eq_ok_iff, Bool.not_eq_true', Bool.not_eq_false, Int64.not_lt,
    not_or, Nat.not_lt] at h
  obtain ⟨⟨hdiffer, harbitrator, hknown, hdeposit, hfee, hpayment, hname, hmemo⟩, tx, htx, rfl⟩ := h
  refine ⟨hdiffer, fun p hp => ?_, hknown, hdeposit, hfee, hpayment, hname, hmemo, htx⟩
  simpa [hp] using harbitrator

/-- Who makes an offer about an agreement is one of its parties and makes it to the
    other one. -/
theorem exists_of_counterparty {agreement : TxId} {k : PublicKey}
    (h : d.counterparty agreement = .ok k) :
    ∃ a b, (a.txid = agreement ∧ d.ledger.Agrees a) ∧ d.freeBaton agreement = .ok b ∧
      ((a.offer.source = .key d.key ∧ a.offer.destination = .key k) ∨
        (a.offer.destination = .key d.key ∧ a.offer.source = .key k)) := by
  simp only [counterparty, bind_eq_ok_iff, agreementAt_eq_ok_iff] at h
  obtain ⟨a, hagrees, b, hb, h⟩ := h
  refine ⟨a, b, hagrees, hb, ?_⟩
  -- The caller is the source, or else the destination.
  by_cases hsource : d.is a.offer.source
  · rw [if_pos hsource, pure_bind] at h
    split at h
    · next hk =>
      cases h
      exact .inl ⟨is_iff.1 hsource, Party.key?_eq_some_iff.1 hk⟩
    · cases h
  · rw [if_neg hsource] at h
    by_cases hdestination : d.is a.offer.destination
    · rw [if_pos hdestination, pure_bind] at h
      split at h
      · next hk =>
        cases h
        exact .inr ⟨is_iff.1 hdestination, Party.key?_eq_some_iff.1 hk⟩
      · cases h
    · rw [if_neg hdestination, throw_bind] at h
      exact (throw_ne_ok h).elim

/-- The offers of drafters are made between keys, without conditions to unlock. -/
theorem isPlain_offerOf (d : Drafter) (destination : PublicKey) (t : Terms) (flags : OfferFlags)
    (amends : Option TxId) : (d.offerOf destination t flags amends).IsPlain where
  source := ⟨d.key, rfl⟩
  destination := ⟨destination, rfl⟩
  arbitrator p hp := by
    obtain ⟨k, -, rfl⟩ := Option.map_eq_some_iff.1 hp
    exact ⟨k, rfl⟩
  unlockConditions := rfl

end Drafter

section
variable {validators : List Validator} {params : Params} {l : Ledger} {kp : KeyPair} {d : Drafted}
variable (hs : Settled validators params l)
  (hroom : params.maxName + params.maxMemo + 300 ≤ params.maxPayload)
include hs hroom

/-- The draft of an offer is carried out once it is signed, and the host admits it if
    and only if it obeys the rules of offers. -/
theorem Settled.check_offer_iff {o : Offer} {tx : Transaction}
    (hfinish : (⟨l, params, kp.publicKey⟩ : Drafter).finish
      { pays := [⟨params.markerValue, globalLock⟩], operation := .offer o } = .ok tx)
    (hu : Unbroken l kp tx) (hplain : o.IsPlain) (hnull : o.amends ≠ some .null)
    (hname : o.name.utf8ByteSize ≤ params.maxName) (hmemo : o.memo.utf8ByteSize ≤ params.maxMemo) :
    ∃ spent, (⟨l, params, (tx.signWith l kp).1, spent⟩ : Inspection).Completes
        { pays := [⟨params.markerValue, globalLock⟩], operation := .offer o } kp.publicKey ∧
      ((⟨l, validators⟩ : Host).check (tx.signWith l kp).1 = .ok tx.txid ↔
        (⟨l, params, (tx.signWith l kp).1, spent⟩ : Inspection).ObeysOffer o) := by
  have hmarker := Int64.le_of_lt (Params.marker_pos hs.usable)
  have hlength := hplain.length_encode_le
  obtain ⟨spent, hc, hcheck⟩ := hs.check_iff hfinish hu rfl List.nodup_nil (List.forall_mem_nil _)
    (List.forall_mem_singleton.2 (Output.payable_global hmarker))
    (Nat.le_trans hlength (by omega)) (hplain.canonical hnull)
  refine ⟨spent, hc, hcheck.trans ⟨?_, .offer⟩⟩
  rintro ⟨hobeys⟩
  exact hobeys

/-- The draft of an offer that amends what it may is admitted if and only if the
    destination and the arbitrator are points. -/
theorem Settled.check_points_iff {purpose : OfferPurpose} {destination : PublicKey} {t : Terms}
    {flags : OfferFlags} {amends : Option TxId}
    (h : (⟨l, params, kp.publicKey⟩ : Drafter).offer purpose
      ((⟨l, params, kp.publicKey⟩ : Drafter).offerOf destination t flags amends) = .ok d)
    (hclose : flags.has .close → flags.has .amendment) (hnull : amends ≠ some .null)
    (hamends : ∀ tx spent, (⟨l, params, tx, spent⟩ : Inspection).SoundAmends
      ((⟨l, params, kp.publicKey⟩ : Drafter).offerOf destination t flags amends))
    (hu : Unbroken l kp d.tx) :
    (⟨l, validators⟩ : Host).check (d.tx.signWith l kp).1 = .ok d.tx.txid ↔
      ∀ k ∈ destination :: t.arbitrator.toList, k.isValid := by
  have ho := Drafter.offers_of_offer h
  obtain ⟨spent, hc, hcheck⟩ := hs.check_offer_iff hroom ho.finish hu
    (Drafter.isPlain_offerOf ..) hnull ho.name.2 ho.memo
  rw [hcheck, List.forall_mem_cons]
  refine ⟨fun hobeys => ?_, fun ⟨hdestination, harbitrator⟩ => ⟨hc.takes.rest, ?_, ?_, hamends _ _,
    ⟨_, hc.makes 0 _ rfl, rfl, Int64.le_refl _⟩, hc.rest⟩⟩
  · -- The rules ask whether the parties are points.
    obtain ⟨k, hk, hvalid⟩ := hobeys.parties.destination
    refine ⟨Party.key.inj hk ▸ hvalid, fun k hk => ?_⟩
    obtain ⟨⟨k', hk', hvalid'⟩, -⟩ := hobeys.parties.arbitrator (.key k)
      (Option.map_eq_some_iff.2 ⟨k, Option.mem_toList.1 hk, rfl⟩)
    exact Party.key.inj hk' ▸ hvalid'
  · -- Nothing else that they ask is left open, as the drafter has been asked.
    refine ⟨⟨kp.publicKey, rfl, hc.isValid⟩, ⟨destination, rfl, hdestination⟩, ho.differ, hc.signed,
      fun p hp => ⟨?_, ho.arbitrator p hp⟩⟩
    obtain ⟨k, hk, rfl⟩ := Option.map_eq_some_iff.1 hp
    exact ⟨k, rfl, harbitrator k (Option.mem_toList.2 hk)⟩
  · exact ⟨ho.known, hclose, ho.deposit, ho.disputeFee, ho.payment, ho.name, ho.memo, rfl⟩

/-- An amendment of the null agreement is refused: it is read as one of none. -/
theorem Settled.check_null {purpose : OfferPurpose} {destination : PublicKey} {t : Terms}
    {flags : OfferFlags}
    (h : (⟨l, params, kp.publicKey⟩ : Drafter).offer purpose
      ((⟨l, params, kp.publicKey⟩ : Drafter).offerOf destination t flags (some .null)) = .ok d)
    (hflags : flags.has .amendment) (hu : Unbroken l kp d.tx) :
    (⟨l, validators⟩ : Host).check (d.tx.signWith l kp).1 ≠ .ok d.tx.txid := by
  have ho := Drafter.offers_of_offer h
  -- Both offers have the same bytes, so that the same transaction carries either.
  have hfinish : (⟨l, params, kp.publicKey⟩ : Drafter).finish
      { pays := [⟨params.markerValue, globalLock⟩], operation := .offer
          ((⟨l, params, kp.publicKey⟩ : Drafter).offerOf destination t flags none) } = .ok d.tx :=
    ho.finish
  obtain ⟨spent, -, hcheck⟩ := hs.check_offer_iff hroom hfinish hu (Drafter.isPlain_offerOf ..)
    nofun ho.name.2 ho.memo
  intro hadmitted
  obtain ⟨a, ha, -⟩ := (hcheck.1 hadmitted).amends.amended hflags
  cases ha

/-- What a party of an agreement that is free offers the other one amends what it
    may, and the other party is a point. -/
theorem Settled.check_amendment_iff {purpose : OfferPurpose} {agreement : TxId}
    {destination : PublicKey} {t : Terms} {flags : OfferFlags}
    (hother : (⟨l, params, kp.publicKey⟩ : Drafter).counterparty agreement = .ok destination)
    (h : (⟨l, params, kp.publicKey⟩ : Drafter).offer purpose
      ((⟨l, params, kp.publicKey⟩ : Drafter).offerOf destination t flags (some agreement)) = .ok d)
    (hflags : flags.has .amendment) (hu : Unbroken l kp d.tx) :
    (⟨l, validators⟩ : Host).check (d.tx.signWith l kp).1 = .ok d.tx.txid ↔
      (∀ k ∈ t.arbitrator.toList, k.isValid) ∧ some agreement ≠ some TxId.null := by
  by_cases hnull : agreement = .null
  · subst hnull
    exact iff_of_false (hs.check_null hroom h hflags hu) fun hnot => hnot.2 rfl
  obtain ⟨a, b, ⟨rfl, hagrees⟩, hb, hparties⟩ := Drafter.exists_of_counterparty hother
  obtain ⟨a', ha', hfree⟩ := hs.free_of_freeBaton rfl hb
  have hsound := hs.reachable.sound_agreement hs.rules hagrees
  -- The other party was found to be a point when the agreement was offered.
  have hpoint : destination.isValid := by
    rcases hparties with ⟨-, hk⟩ | ⟨-, hk⟩
    · obtain ⟨k, hk', hvalid⟩ := hsound.destination
      exact Party.key.inj (hk.symm.trans hk') ▸ hvalid
    · obtain ⟨k, hk', hvalid⟩ := hsound.source
      exact Party.key.inj (hk.symm.trans hk') ▸ hvalid
  have hunspent : l.confirmedSpender? ⟨a.txid, 1⟩ = none := by
    rw [← ha', Ledger.confirmedSpender?, Ledger.spender?, hfree.deposit]
    rfl
  have hsame : Inspection.sameParties ((⟨l, params, kp.publicKey⟩ : Drafter).offerOf destination t
      flags (some a.txid)) a.offer := by
    rcases hparties with ⟨hk, hk'⟩ | ⟨hk, hk'⟩ <;>
      simp [Inspection.sameParties, Drafter.offerOf, hk, hk']
  have hproper : some a.txid ≠ some TxId.null := fun hid => hnull (Option.some.inj hid)
  rw [hs.check_points_iff hroom h (fun _ => hflags) hproper ?_ hu, List.forall_mem_cons,
    and_iff_right hpoint, and_iff_left hproper]
  exact fun tx spent => ⟨fun _ => ⟨a, rfl, hagrees, hunspent, hsame⟩, fun h => absurd hflags h⟩

/-- A draft of a new offer is admitted if and only if the keys that it names are points. -/
theorem Settled.check_create_iff {destination : PublicKey} {t : Terms}
    (h : (⟨l, params, kp.publicKey⟩ : Drafter).create destination t = .ok d)
    (hu : Unbroken l kp d.tx) :
    (⟨l, validators⟩ : Host).check (d.tx.signWith l kp).1 = .ok d.tx.txid ↔
      ∀ k ∈ destination :: t.arbitrator.toList, k.isValid := by
  simp only [Drafter.create, throw_bind, ite_throw_eq_ok_iff] at h
  obtain ⟨hmeets, h⟩ := h
  -- A new agreement has neither flag of those that need one to refer to.
  have hnot : ∀ flag : OfferFlags, (OfferFlags.amendment.union .close).has flag → flag.bits ≠ 0 →
      ¬t.flags.has flag := fun _ => OfferFlags.not_has_of_not_meets hmeets
  refine hs.check_points_iff hroom h (fun hclose => absurd hclose (hnot _ (by decide) (by decide)))
    nofun (fun tx spent => ⟨fun hamendment => ?_, fun _ => rfl⟩) hu
  exact absurd hamendment (hnot _ (by decide) (by decide))

end

/-- The requests to draft an offer. -/
def DraftRequest.IsOffer : DraftRequest → Prop
  | .create .. | .amend .. | .close .. => True
  | .stopOffer .. | .accept _ | .dispute .. | .stopDispute .. | .resolve .. | .unlock _ => False

/-- The keys that a request names. -/
def DraftRequest.keys : DraftRequest → List PublicKey
  | .create destination t => destination :: t.arbitrator.toList
  | .amend _ t => t.arbitrator.toList
  | _ => []

/-- The agreement that an offer is to amend or to close. -/
def DraftRequest.amends : DraftRequest → Option TxId
  | .amend agreement _ | .close agreement .. => some agreement
  | _ => none

/-- A draft of any offer is admitted if and only if the keys that the request names are
    points and it is not about the null agreement. -/
theorem Settled.check_offer_draft_iff {validators : List Validator} {params : Params} {l : Ledger}
    {kp : KeyPair} {d : Drafted} (hs : Settled validators params l)
    (hroom : params.maxName + params.maxMemo + 300 ≤ params.maxPayload)
    {request : DraftRequest} (hoffer : request.IsOffer)
    (h : (⟨l, params, kp.publicKey⟩ : Drafter).draft request = .ok d) (hu : Unbroken l kp d.tx) :
    (⟨l, validators⟩ : Host).check (d.tx.signWith l kp).1 = .ok d.tx.txid ↔
      (∀ k ∈ request.keys, k.isValid) ∧ request.amends ≠ some .null := by
  rcases request with ⟨destination, t⟩ | ⟨agreement, t⟩ | ⟨agreement, payment, name, memo⟩ | _ | _ |
    _ | _ | _ | _
  · exact (hs.check_create_iff hroom h hu).trans (and_iff_left nofun).symm
  · simp only [Drafter.draft, Drafter.amend, bind_eq_ok_iff] at h
    obtain ⟨destination, hother, h⟩ := h
    exact hs.check_amendment_iff hroom hother h
      (OfferFlags.has_without (OfferFlags.has_union_right _ _) (by decide)) hu
  · simp only [Drafter.draft, Drafter.close, bind_eq_ok_iff] at h
    obtain ⟨destination, hother, h⟩ := h
    exact hs.check_amendment_iff hroom hother h (by decide) hu
  · exact hoffer.elim
  · exact hoffer.elim
  · exact hoffer.elim
  · exact hoffer.elim
  · exact hoffer.elim
  · exact hoffer.elim

/-- A host that keeps the rules of agreements admits, at any time when nothing waits
    for a block, a draft of an offer that the drafter has signed if and only if the
    keys that the request names are points and the agreement that it names, if any,
    is not the null one. The parameters are usable and leave room for the longest name
    and memo. -/
theorem offer_drafts_run (genesis : Timestamp) (blockTime : UInt64) (params : Params)
    (others : List Validator) (cs : List Command) (kp : KeyPair) (request : DraftRequest)
    (d : Drafted) :
    let host := (Host.underRules genesis blockTime params others).run cs
    params.check = .ok () → params.maxName + params.maxMemo + 300 ≤ params.maxPayload →
    params.maxPayload < Wire.sizeLimit → host.ledger.mempool = [] → host.ledger.Nameable →
    request.IsOffer →
    (⟨host.ledger, params, kp.publicKey⟩ : Drafter).draft request = .ok d →
    Unbroken host.ledger kp d.tx →
      (host.check (d.tx.signWith host.ledger kp).1 = .ok d.tx.txid ↔
        (∀ k ∈ request.keys, k.isValid) ∧ request.amends ≠ some .null) := by
  intro host husable hroom hlimit hmempool hnameable hoffer hdraft hu
  have hs := Host.settled_underRules_run genesis blockTime others cs husable hlimit hmempool
    hnameable
  exact hs.check_offer_draft_iff hroom hoffer hdraft hu

/-! ## A lease

The buyer of the bargain offers a lease, once to the source of the bargain and once
to bytes that are no point. The drafter takes both requests. -/

namespace Bargain

open Quarrel (octets)

def nobody : PublicKey := ⟨octets 32 2⟩

def fundingId : TxId :=
  ⟨octets 32 0xf049ce1976474629925d0f19c3a137f1914711b48dc7a82fe34d991fb61e5cfd⟩

/-- What the host has recorded once the buyer has something to pay with. -/
def funded : Ledger where
  genesis := ⟨0, 0⟩
  blockTime := 60
  height := 1
  blocks := [⟨1, ⟨60, 0⟩, [fundingId]⟩]
  records := [⟨fundingId, Host.funding buyer.publicKey 50000 1, some 1⟩]
  nonce := 1

theorem funded_run :
    ((Host.underRules ⟨0, 0⟩ 60 {} []).run [.fund buyer.publicKey 50000]).ledger = funded := by
  decide +kernel

def leaseOffer (k : PublicKey) : Offer where
  source := .key buyer.publicKey
  destination := .key k
  arbitrator := none
  flags := .noUnlock
  amends := none
  deposit := 10000
  payment := 0
  disputeFee := 10000
  name := "lease"
  memo := ""
  unlockConditions := []

/-- The draft of the lease. -/
def lease (k : PublicKey) : Drafted where
  tx := {
    inputs := [⟨⟨fundingId, 0⟩, none⟩]
    outputs := [⟨10000, globalLock⟩, ⟨30000, .key buyer.publicKey⟩,
      ⟨0, .data (Operation.offer (leaseOffer k)).encode⟩] }
  receipt := .offer .agreement (leaseOffer k)

theorem draft_lease : ∀ k ∈ [Quarrel.source, nobody],
    (Drafter.draft ⟨funded, {}, buyer.publicKey⟩ (.create k { name := "lease" })).toOption =
      some (lease k) := by
  decide +kernel

theorem signs_lease : ∀ k ∈ [Quarrel.source, nobody],
    (buyer.publicKey.verify ((lease k).tx.sighash 0)
      (buyer.sign ((lease k).tx.sighash 0))).toOption = some () := by
  decide +kernel

theorem hash_lease : ∀ k ∈ [Quarrel.source, nobody], ∀ r ∈ funded.records,
    r.tx.txid = (lease k).tx.txid → r.tx.wire false = (lease k).tx.wire false := by
  decide +kernel

/-- What is believed of signatures, hashes and addresses holds for the lease. -/
theorem unbroken_lease {k : PublicKey} (hk : k ∈ [Quarrel.source, nobody]) :
    Unbroken funded buyer (lease k).tx where
  signs vin i hi := by
    rcases vin with _ | vin
    · obtain rfl := Option.some.inj hi
      exact toOption_eq_some_iff.1 (signs_lease k hk)
    · cases hi
  hash := hash_lease k hk
  address := by decide +kernel

/-- The host admits the lease that is offered to the source of the bargain. -/
theorem lease_admitted :
    let host := (Host.underRules ⟨0, 0⟩ 60 {} []).run [.fund buyer.publicKey 50000]
    host.check ((lease Quarrel.source).tx.signWith host.ledger buyer).1 =
      .ok (lease Quarrel.source).tx.txid := by
  intro host
  have hl : host.ledger = funded := funded_run
  have hk : Quarrel.source ∈ [Quarrel.source, nobody] := List.mem_cons_self
  have hdraft : (⟨host.ledger, {}, buyer.publicKey⟩ : Drafter).draft
      (.create Quarrel.source { name := "lease" }) = .ok (lease Quarrel.source) :=
    hl ▸ toOption_eq_some_iff.1 (draft_lease _ hk)
  have hpoints : ∀ k ∈ [Quarrel.source], k.isValid := by
    decide +kernel
  exact (offer_drafts_run ⟨0, 0⟩ 60 {} [] [.fund buyer.publicKey 50000] buyer
    (.create Quarrel.source { name := "lease" }) (lease Quarrel.source) rfl (by decide) (by decide)
    (by rw [hl]; rfl) (by rw [hl, Ledger.Nameable]; decide) trivial hdraft
    (hl ▸ unbroken_lease hk)).2 ⟨hpoints, nofun⟩

/-- The host refuses the lease that is offered to nobody, although it was drafted. -/
theorem lease_refused :
    let host := (Host.underRules ⟨0, 0⟩ 60 {} []).run [.fund buyer.publicKey 50000]
    (({} : Params).check = .ok () ∧
      ({} : Params).maxName + ({} : Params).maxMemo + 300 ≤ ({} : Params).maxPayload ∧
      host.ledger.mempool = [] ∧
      (⟨host.ledger, {}, buyer.publicKey⟩ : Drafter).create nobody { name := "lease" } =
        .ok (lease nobody) ∧ Unbroken host.ledger buyer (lease nobody).tx) ∧
      host.check ((lease nobody).tx.signWith host.ledger buyer).1 ≠ .ok (lease nobody).tx.txid := by
  intro host
  have hl : host.ledger = funded := funded_run
  have hk : nobody ∈ [Quarrel.source, nobody] := List.mem_cons_of_mem _ List.mem_cons_self
  have hroom : ({} : Params).maxName + ({} : Params).maxMemo + 300 ≤ ({} : Params).maxPayload := by
    decide
  have hmempool : host.ledger.mempool = [] := by rw [hl]; rfl
  have hdraft : (⟨host.ledger, {}, buyer.publicKey⟩ : Drafter).create nobody { name := "lease" } =
      .ok (lease nobody) := hl ▸ toOption_eq_some_iff.1 (draft_lease _ hk)
  have hu : Unbroken host.ledger buyer (lease nobody).tx := hl ▸ unbroken_lease hk
  refine ⟨⟨rfl, hroom, hmempool, hdraft, hu⟩, fun hcheck => ?_⟩
  have hs : Settled host.validators {} host.ledger :=
    Host.settled_underRules_run ⟨0, 0⟩ 60 [] _ rfl (by decide) hmempool
      (by rw [hl, Ledger.Nameable]; decide)
  have hpoint := (hs.check_create_iff hroom hdraft hu).1 hcheck nobody List.mem_cons_self
  exact absurd hpoint (by decide +kernel)

end Bargain

end Escrow
