import Escrow.Proofs.Agreement.Listing
import Escrow.Proofs.Agreement.Locality
import Escrow.Proofs.Agreement.Recorded
import Escrow.Proofs.Agreement.Walk

/-!
# Reports and the mempool

Reports are about what is confirmed. So it should make no difference to them what
waits for a block, and they should be the same if nothing of it had been submitted
(`Ledger.settled`). That ledger is reachable as well (`Reachable.settled`).

It does make no difference to what is told of an agreement and to which agreements
there are. But an open offer is not listed while a transaction that spends its marker
waits (`Ledger.IsClaimed`), though no block has that transaction yet. This is the one
exception (`pending_run`).
-/

namespace Escrow

namespace Ledger

/-- A ledger without the transactions that wait for a block. -/
def settled (l : Ledger) : Ledger :=
  { l with records := l.records.filter Record.isConfirmed }

/-- Whether a transaction that waits for a block spends the marker of an offer. -/
def isClaimed (l : Ledger) (offer : TxId) : Bool :=
  l.records.any fun r => !r.isConfirmed && r.tx.spends.contains ⟨offer, 0⟩

/-- What reports tell is the same if nothing had been submitted that still waits for
    a block, except that they leave out the offers that are claimed. -/
structure ReportsSettled (l : Ledger) : Prop where
  summary : ∀ max id, id ∉ l.mempool → l.summary max id = l.settled.summary max id
  eventLog : ∀ max id kind samples reverse, id ∉ l.mempool →
    l.eventLog max id kind samples reverse = l.settled.eventLog max id kind samples reverse
  references : ∀ id, id ∉ l.mempool → l.references id = l.settled.references id
  agreements : l.agreements = l.settled.agreements
  openOffers : l.openOffers = l.settled.openOffers.filter fun o => !l.isClaimed o.1
  inventory : ∀ max k,
    let i := l.settled.inventory max k
    l.inventory max k = { i with
      offersSent := i.offersSent.filter fun o => !l.isClaimed o
      offersReceived := i.offersReceived.filter fun o => !l.isClaimed o }

variable {l : Ledger} {id : TxId} {o : Outpoint} {r : Record} {op : Operation}

theorem mem_settled : r ∈ l.settled.records ↔ r ∈ l.records ∧ r.isConfirmed :=
  List.mem_filter

/-- What has been submitted leaves no trace until there is a block. -/
theorem settled_insert (tx : Transaction) : (l.insert tx).settled = l.settled := by
  simp [settled, insert, Record.isConfirmed]

/-- After a block nothing waits. -/
theorem settled_mine : l.mine.settled = l.mine := by
  have hconfirmed : l.mine.records.filter Record.isConfirmed = l.mine.records := by
    rw [List.filter_eq_self, records_mine]
    intro r hr
    obtain ⟨s, -, rfl⟩ := List.mem_map.1 hr
    rfl
  rw [settled, hconfirmed]

end Ledger

/-- Without what waits for a block, a ledger is still one that can be reached. -/
theorem Reachable.settled {validators : List Validator} {l : Ledger}
    (hl : Reachable validators l) : Reachable validators l.settled := by
  obtain ⟨genesis, blockTime, hlead⟩ := hl
  induction hlead with
  | refl => exact ⟨genesis, blockTime, .refl⟩
  | @tail m n hlead hturn ih =>
    -- A turn that records something that waits does not change the settled ledger; a block
    -- settles all of it.
    cases hturn with
    | count nonce => exact ih.leads (.single (.count nonce))
    | fund =>
      rw [Ledger.settled_insert]
      exact ih
    | record =>
      rw [Ledger.settled_insert]
      exact ih
    | mine =>
      rw [Ledger.settled_mine]
      exact ⟨genesis, blockTime, hlead.tail .mine⟩
    | notarize height hle => exact ih.leads (.single (.notarize height hle))

namespace Ledger

/-! ## What is confirmed -/

variable {l : Ledger} {id : TxId} {o : Outpoint} {r : Record} {op : Operation}

theorem confirmedOf_settled {α : Type} (kind : Operation → Option α) :
    l.confirmedOf kind = l.settled.confirmedOf kind := by
  rw [confirmedOf, confirmedOf, settled, List.filterMap_filter]
  refine List.filterMap_congr fun r _ => ?_
  split <;> rfl

/-- The marker of an offer is unspent if nothing confirmed spends it and nothing that
    waits does. -/
theorem isNone_spender?_settled (offer : TxId) :
    (l.spender? ⟨offer, 0⟩).isNone =
      ((l.settled.spender? ⟨offer, 0⟩).isNone && !l.isClaimed offer) := by
  have hspends : ⟨offer, 0⟩ ∈ l.spends ↔ ⟨offer, 0⟩ ∈ l.settled.spends ∨ l.isClaimed offer := by
    simp only [mem_spends, mem_settled, isClaimed, List.any_eq_true, Bool.and_eq_true,
      Bool.not_eq_true', List.contains_iff_mem]
    -- Who spends the marker is in a block or waits for one.
    constructor
    · rintro ⟨r, hr, ho⟩
      cases hconf : r.isConfirmed
      · exact .inr ⟨r, hr, hconf, ho⟩
      · exact .inl ⟨r, ⟨hr, hconf⟩, ho⟩
    · rintro (⟨r, ⟨hr, -⟩, ho⟩ | ⟨r, hr, -, ho⟩)
      · exact ⟨r, hr, ho⟩
      · exact ⟨r, hr, ho⟩
  rw [Bool.eq_iff_iff]
  simp only [spender?, Option.isNone_map, Option.isNone_iff_eq_none, spentBy?_eq_none_iff, hspends,
    Bool.and_eq_true, Bool.not_eq_true', not_or, Bool.not_eq_true]

section
variable (hl : l.Sound) (hs : l.settled.Sound)
include hl hs

theorem record?_settled_iff :
    l.settled.record? id = some r ↔ l.record? id = some r ∧ r.isConfirmed := by
  rw [hs.record?_eq_some_iff, hl.record?_eq_some_iff, mem_settled, and_right_comm]

/-- A confirmed record is found without what waits, unless it is asked for what waits. -/
theorem confirmed_settled (hid : id ∉ l.mempool) : l.confirmed id = l.settled.confirmed id := by
  have hsame : l.settled.record? id = l.record? id := by
    refine Option.ext fun r => (record?_settled_iff hl hs).trans (and_iff_left_of_imp fun hr => ?_)
    obtain ⟨hmem, rfl⟩ := mem_of_record? hr
    by_contra hwaits
    exact hid (List.mem_map_of_mem (List.mem_filter.2 ⟨hmem, by simpa using hwaits⟩))
  rw [confirmed, confirmed, hsame]

/-- The same is confirmed without what waits. -/
theorem confirms_settled_iff : l.settled.Confirms id r op ↔ l.Confirms id r op := by
  constructor
  · intro h
    exact ⟨((record?_settled_iff hl hs).1 h.record?).1, h.isConfirmed, h.operation?⟩
  · intro h
    exact ⟨(record?_settled_iff hl hs).2 ⟨h.record?, h.isConfirmed⟩, h.isConfirmed, h.operation?⟩

theorem nextEvent?_settled : l.nextEvent? id = l.settled.nextEvent? id := by
  refine Option.ext fun e => ?_
  simp only [nextEvent?_eq_some_iff, hl.spentBy?_eq_some_iff,
    hs.spentBy?_eq_some_iff, record?_settled_iff hl hs]
  constructor
  · rintro ⟨vin, r, op, ⟨s, hspends, ho⟩, hr, hheight, hop⟩
    cases hspends.symm.trans hr
    have hconf : r.isConfirmed := Option.isSome_iff_exists.2 ⟨_, hheight⟩
    exact ⟨vin, r, op, ⟨r, ⟨hr, hconf⟩, ho⟩, ⟨hr, hconf⟩, hheight, hop⟩
  · rintro ⟨vin, r, op, ⟨s, ⟨hspends, -⟩, ho⟩, ⟨hr, -⟩, hheight, hop⟩
    exact ⟨vin, r, op, ⟨s, hspends, ho⟩, hr, hheight, hop⟩

theorem confirmedSpender?_settled : l.confirmedSpender? o = l.settled.confirmedSpender? o := by
  refine Option.ext fun s => ?_
  simp only [hl.confirmedSpender?_eq_some_iff, hs.confirmedSpender?_eq_some_iff,
    record?_settled_iff hl hs]
  refine exists_congr fun r => ?_
  tauto

theorem eventsFrom?_settled (n : Nat) : l.eventsFrom? n id = l.settled.eventsFrom? n id := by
  induction n generalizing id with
  | zero => rw [eventsFrom?, eventsFrom?, confirmedSpender?_settled hl hs]
  | succ n ih =>
    rw [eventsFrom?, eventsFrom?, nextEvent?_settled hl hs]
    rcases l.settled.nextEvent? id with _ | e
    · rfl
    · simp only [ih]

end

end Ledger

/-! ## What is reported -/

section
variable {validators : List Validator} {params : Params} {l : Ledger} {id : TxId} {max : Nat}
variable (hl : Reachable validators l) (hv : KeepsRules validators params)
include hl hv

/-- An agreement is found without what waits. -/
theorem Reachable.findAgreement_settled (hid : id ∉ l.mempool) :
    l.findAgreement id = l.settled.findAgreement id := by
  have hs := hl.settled.sound
  have haccept : l.findAccept id = l.settled.findAccept id := by
    rw [Ledger.findAccept, Ledger.findAccept, Ledger.confirmed_settled hl.sound hs hid]
  rcases hfound : l.findAccept id with e | ⟨r, o⟩
  · rw [Ledger.findAgreement, Ledger.findAgreement, ← haccept, hfound]
    rfl
  · -- The offer that is accepted does not wait either.
    have hr := Ledger.findAccept_eq_ok_iff.1 hfound
    obtain ⟨a, ha, rfl, -⟩ := hl.exists_agrees hv hr
    have ha' : l.settled.Agrees a := by
      obtain ⟨⟨r, hr, hheight⟩, s, hs'⟩ := ha
      exact ⟨⟨r, (Ledger.confirms_settled_iff hl.sound hs).2 hr, hheight⟩,
        s, (Ledger.confirms_settled_iff hl.sound hs).2 hs'⟩
    rw [Ledger.findAgreement_eq_ok_iff.2 ⟨rfl, ha⟩, Ledger.findAgreement_eq_ok_iff.2 ⟨rfl, ha'⟩]

theorem Reachable.events_settled (hid : id ∉ l.mempool) :
    l.events max id = l.settled.events max id := by
  rw [Ledger.events, Ledger.events, hl.findAgreement_settled hv hid,
    Ledger.eventsFrom?_settled hl.sound hl.settled.sound]

theorem Reachable.summary_settled (hid : id ∉ l.mempool) :
    l.summary max id = l.settled.summary max id := by
  rw [Ledger.summary, Ledger.summary, Ledger.latestEvent, Ledger.latestEvent,
    hl.findAgreement_settled hv hid, hl.events_settled hv hid]

theorem Reachable.offers_settled : l.offers = l.settled.offers := by
  rw [hl.offers_eq hv, hl.settled.offers_eq hv,
    Ledger.confirmedOf_settled]

theorem Reachable.accepts_settled : l.accepts = l.settled.accepts := by
  rw [hl.accepts_eq hv, hl.settled.accepts_eq hv,
    Ledger.confirmedOf_settled]

/-- A listed agreement does not wait for a block. -/
theorem Reachable.not_mem_mempool_of_mem_agreements (h : id ∈ l.agreements) : id ∉ l.mempool := by
  obtain ⟨p, hp, rfl⟩ := List.mem_map.1 h
  obtain ⟨r, hr⟩ := (hl.mem_accepts_iff hv).1 hp
  intro hwaits
  obtain ⟨s, hs, hid⟩ := List.mem_map.1 hwaits
  obtain ⟨hs, hconf⟩ := List.mem_filter.1 hs
  cases hr.record?.symm.trans (hl.sound.record?_eq_some_iff.2 ⟨hs, hid⟩)
  rw [hr.isConfirmed] at hconf
  cases hconf

theorem Reachable.references_settled (hid : id ∉ l.mempool) :
    l.references id = l.settled.references id := by
  have hs := hl.settled.sound
  -- An accept that is listed names an offer that is confirmed.
  have hoffer : ∀ p ∈ l.settled.accepts, l.findOffer p.2 = l.settled.findOffer p.2 := by
    intro p hp
    rw [← hl.accepts_settled hv] at hp
    obtain ⟨r, hr⟩ := (hl.mem_accepts_iff hv).1 hp
    obtain ⟨a, ⟨-, s, hs'⟩, -, hoffer⟩ := hl.exists_agrees hv hr
    rw [hoffer] at hs'
    rw [Ledger.findOffer_eq_ok_iff.2 hs',
      Ledger.findOffer_eq_ok_iff.2 ((Ledger.confirms_settled_iff hl.sound hs).2 hs')]
  simp only [Ledger.references, hl.findAgreement_settled hv hid, hl.offers_settled hv,
    hl.accepts_settled hv]
  refine bind_congr fun _ => ?_
  congr 3
  refine List.filter_congr fun p hp => ?_
  rw [hoffer p hp]

/-- An open offer is left out while it is claimed, and only then. -/
theorem Reachable.openOffers_settled :
    l.openOffers = l.settled.openOffers.filter fun o => !l.isClaimed o.1 := by
  rw [Ledger.openOffers, Ledger.openOffers, hl.offers_settled hv, List.filter_filter]
  refine List.filter_congr fun o _ => ?_
  dsimp only
  rw [Ledger.isNone_spender?_settled, Bool.and_comm]

/-- Of what is collected for a key, only open offers that are claimed are left out. -/
theorem Reachable.inventory_settled (k : PublicKey) :
    let i := l.settled.inventory max k
    l.inventory max k = { i with
      offersSent := i.offersSent.filter fun o => !l.isClaimed o
      offersReceived := i.offersReceived.filter fun o => !l.isClaimed o } := by
  have hagreements : l.agreements = l.settled.agreements :=
    congrArg (List.map Prod.fst) (hl.accepts_settled hv)
  have hwaits : ∀ id ∈ l.settled.agreements, id ∉ l.mempool := fun id hid =>
    hl.not_mem_mempool_of_mem_agreements hv (hagreements ▸ hid)
  have hsummaries : (l.agreements.map fun id => (id, l.summary max id)) =
      l.settled.agreements.map fun id => (id, l.settled.summary max id) := by
    rw [hagreements]
    refine List.map_congr_left fun id hid => ?_
    rw [hl.summary_settled hv (hwaits id hid)]
  have hoffers : ∀ role : TxId × Offer → Bool, (l.openOffers.filter role).map Prod.fst =
      ((l.settled.openOffers.filter role).map Prod.fst).filter fun o => !l.isClaimed o := by
    intro role
    rw [hl.openOffers_settled hv, List.filter_map, List.filter_filter, List.filter_filter]
    refine congrArg _ (List.filter_congr fun o _ => ?_)
    exact Bool.and_comm ..
  simp only [Ledger.inventory, hsummaries, Inventory.mk.injEq, true_and]
  refine ⟨hoffers _, hoffers _, List.filterMap_congr fun p hp => ?_⟩
  obtain ⟨id, hid, rfl⟩ := List.mem_map.1 hp
  simp only [hl.findAgreement_settled hv (hwaits id hid)]

/-- So the reports are those of the settled ledger, up to offers that are claimed. -/
theorem Reachable.reportsSettled : l.ReportsSettled where
  summary _ _ hid := hl.summary_settled hv hid
  eventLog _ _ _ _ _ hid := by
    rw [Ledger.eventLog, Ledger.eventLog, hl.events_settled hv hid]
  references _ hid := hl.references_settled hv hid
  agreements := congrArg (List.map Prod.fst) (hl.accepts_settled hv)
  openOffers := hl.openOffers_settled hv
  inventory _ k := hl.inventory_settled hv k

/-- The open offers are those of the settled ledger if and only if none of these is claimed. -/
theorem Reachable.openOffers_eq_settled_iff :
    l.openOffers = l.settled.openOffers ↔ ∀ o ∈ l.settled.openOffers, ¬l.isClaimed o.1 := by
  rw [hl.openOffers_settled hv, List.filter_eq_self]
  simp

theorem Reachable.inventory_eq_settled_iff :
    (∀ max k, l.inventory max k = l.settled.inventory max k) ↔
      ∀ o ∈ l.settled.openOffers, ¬l.isClaimed o.1 := by
  constructor
  · rintro h ⟨id, o⟩ ho hclaimed
    -- The offer is missed by the key that made it.
    obtain ⟨r, hr⟩ := (hl.settled.mem_offers_iff hv).1 (List.mem_of_mem_filter ho)
    obtain ⟨k, hk, -⟩ := (hl.settled.sound_offer hv hr.does).source
    have hsent : id ∈ (l.settled.inventory 0 k).offersSent := by
      refine List.mem_map.2 ⟨(id, o), List.mem_filter.2 ⟨ho, ?_⟩, rfl⟩
      simp [hk, Party.isKey]
    rw [← h 0 k, hl.inventory_settled hv k] at hsent
    simpa [hclaimed] using (List.mem_filter.1 hsent).2
  · intro h max k
    have hoffers := (hl.openOffers_eq_settled_iff hv).2 h
    have hkept : ∀ role : TxId × Offer → Bool,
        ((l.settled.openOffers.filter role).map Prod.fst).filter (fun o => !l.isClaimed o) =
          (l.settled.openOffers.filter role).map Prod.fst := by
      intro role
      rw [List.filter_eq_self]
      intro id hid
      obtain ⟨o, ho, rfl⟩ := List.mem_map.1 hid
      simpa using h o (List.mem_of_mem_filter ho)
    rw [hl.inventory_settled hv k]
    simp only [Ledger.inventory, hkept]

end

/-- In a run of a host that keeps the rules of agreements, reports do not depend on
    what waits for a block, except that they leave out the offers that are claimed. So
    they are about confirmed transactions only, if and only if no offer is claimed that
    would be open. -/
theorem pending_run (genesis : Timestamp) (blockTime : UInt64) (params : Params)
    (others : List Validator) (cs : List Command) :
    let l := ((Host.underRules genesis blockTime params others).run cs).ledger
    l.ReportsSettled ∧
      (l.openOffers = l.settled.openOffers ↔ ∀ o ∈ l.settled.openOffers, ¬l.isClaimed o.1) ∧
      ((∀ max k, l.inventory max k = l.settled.inventory max k) ↔
        ∀ o ∈ l.settled.openOffers, ¬l.isClaimed o.1) := by
  intro l
  have hl := Host.reachable_underRules_run genesis blockTime params others cs
  have hv := Host.keepsRules_underRules genesis blockTime params others
  exact ⟨hl.reportsSettled hv, hl.openOffers_eq_settled_iff hv, hl.inventory_eq_settled_iff hv⟩

namespace Renewal

/-- What the host has recorded when the renewal waits for a block. -/
def accepting : Ledger :=
  { offered with records := offered.records ++ [⟨acceptId, accept, none⟩] }

theorem accepting_run :
    ((Host.underRules ⟨0, 0⟩ 60 {} []).run (commands ++ [.submit accept])).ledger = accepting := by
  rw [Host.run_append, Host.run_underRules_nil, offered_run,
    Host.run_submit_of_check check_accept, Host.insert_of_check check_accept]
  rfl

/-- While the renewal waits, the same is told of the agreement. -/
theorem agreement_told :
    let l := ((Host.underRules ⟨0, 0⟩ 60 {} []).run (commands ++ [.submit accept])).ledger
    (l.mempool = [acceptId] ∧ Quarrel.acceptId ∉ l.mempool) ∧
      l.summary 1000 Quarrel.acceptId = l.settled.summary 1000 Quarrel.acceptId := by
  intro l
  have hmempool : l.mempool = [acceptId] := by
    rw [show l = accepting from accepting_run]
    rfl
  have hwaits : Quarrel.acceptId ∉ l.mempool := by
    rw [hmempool]
    decide +kernel
  obtain ⟨hsettled, -⟩ := pending_run ⟨0, 0⟩ 60 {} [] (commands ++ [.submit accept])
  exact ⟨⟨hmempool, hwaits⟩, hsettled.summary 1000 _ hwaits⟩

/-- The offer of it is not listed any more, though it is open by all that is
    confirmed. -/
theorem offer_unlisted :
    let l := ((Host.underRules ⟨0, 0⟩ 60 {} []).run (commands ++ [.submit accept])).ledger
    l.openOffers = [] ∧ l.settled.openOffers = [(offerId, terms)] := by
  intro l
  rw [show l = accepting from accepting_run]
  have hl := Host.reachable_underRules_run ⟨0, 0⟩ 60 {} [] (commands ++ [.submit accept])
  rw [accepting_run] at hl
  have hv := Host.keepsRules_underRules ⟨0, 0⟩ 60 {} []
  have hsettled : accepting.settled.openOffers = [(offerId, terms)] := by
    rw [Ledger.openOffers, hl.settled.offers_eq hv]
    decide +kernel
  have hclaimed : accepting.isClaimed offerId = true := by decide +kernel
  refine ⟨?_, hsettled⟩
  rw [hl.openOffers_settled hv, hsettled, List.filter_singleton, hclaimed]
  rfl

end Renewal

end Escrow
