import Escrow.Proofs.Agreement.Lineage
import Escrow.Proofs.Agreement.Status

/-!
# What is found

Nothing lists offers and agreements as such. They are looked for at one address, at which
every offer has its marker and every agreement its deposit, and what is found there is
read again to see what it is. That finds all there is (`Enumerates`): no offer and no
agreement is at another address, none is found twice for its other outputs there, and
what is found is in the order of the ledger.

What is asked beyond that picks from these lists, and no list that is picked from
another loses or repeats what it should have (`Enumerates.filter`): the offers that are
open, those that refer to an agreement, and what a key has to do with (`Surveys`).
-/

namespace Escrow

/-- What is made of some members of a list, in one way, is in the order of the list. -/
theorem filterMap_sublist_map {α β : Type} {f : α → Option β} {g : α → β} {as : List α}
    (h : ∀ a ∈ as, ∀ b, f a = some b → g a = b) : (as.filterMap f).Sublist (as.map g) := by
  induction as with
  | nil => exact List.Sublist.refl _
  | cons a as ih =>
    obtain ⟨ha, has⟩ := List.forall_mem_cons.1 h
    rw [List.map_cons]
    rcases hfa : f a with _ | b
    · rw [List.filterMap_cons_none hfa]
      exact (ih has).cons _
    · rw [List.filterMap_cons_some hfa, ha b hfa]
      exact (ih has).cons_cons _

/-- What is picked from a list by what is told of each member is part of the list. -/
theorem filterMap_told {α β : Type} {tell : α → β} {f : α × β → Option α} {p : α → Bool}
    (h : ∀ a, f (a, tell a) = if p a then some a else none) (as : List α) :
    (as.map fun a => (a, tell a)).filterMap f = as.filter p := by
  rw [List.filterMap_map, ← List.filterMap_eq_filter]
  refine List.filterMap_congr fun a _ => ?_
  rw [Function.comp_apply, h, Option.guard]

namespace Ledger

/-- A list names the transactions of a ledger that have a property: all of them, each
    once, in the order of their records. -/
structure Enumerates (l : Ledger) (ids : List TxId) (p : TxId → Prop) : Prop where
  order : ids.Sublist (l.records.map Record.txid)
  nodup : ids.Nodup
  mem_iff : ∀ id, id ∈ ids ↔ p id

/-- What a key has to do with, by offers and agreements that are found.

    * Its offers are those that are open and that it is the source or the destination of.
    * Its agreements are those that can be told of, that are live and that it is a party
      or the arbitrator of.
    * What cannot be told of is listed apart, if the key has any part in it. -/
structure Surveys (l : Ledger) (max : Nat) (k : PublicKey) (inventory : Inventory) : Prop where
  offersSent : l.Enumerates inventory.offersSent fun id =>
    ∃ r o, l.Confirms id r (.offer o) ∧ l.offerStatus id = .isOpen ∧ o.source.isKey k
  offersReceived : l.Enumerates inventory.offersReceived fun id =>
    ∃ r o, l.Confirms id r (.offer o) ∧ l.offerStatus id = .isOpen ∧ o.destination.isKey k
  agreements : l.Enumerates inventory.agreements fun id => id ∈ l.agreements ∧
    ∃ s, l.summary max id = .ok s ∧ s.status.isLive ∧ s.agreement.offer.isParty k
  arbitrating : l.Enumerates inventory.arbitrating fun id => id ∈ l.agreements ∧
    ∃ s, l.summary max id = .ok s ∧ s.status.isLive ∧ s.agreement.offer.isArbitrator k
  unreadable : l.Enumerates inventory.unreadable fun id => id ∈ l.agreements ∧
    (∃ e, l.summary max id = .error e) ∧
      ∃ a, l.Agrees a ∧ a.txid = id ∧ (a.offer.isParty k ∨ a.offer.isArbitrator k)

variable {l : Ledger} {ids : List TxId} {p q : TxId → Prop} {max : Nat} {k : PublicKey}

/-- What has a property has every other one that comes to the same. -/
theorem Enumerates.congr (h : l.Enumerates ids p) (hpq : ∀ id, p id ↔ q id) :
    l.Enumerates ids q :=
  ⟨h.order, h.nodup, fun id => (h.mem_iff id).trans (hpq id)⟩

/-- To pick some of what is enumerated leaves order and number alone. -/
theorem Enumerates.filter (h : l.Enumerates ids p) (f : TxId → Bool) :
    l.Enumerates (ids.filter f) fun id => p id ∧ f id where
  order := List.filter_sublist.trans h.order
  nodup := h.nodup.filter f
  mem_iff id := by rw [List.mem_filter, h.mem_iff]

/-- The confirmed transactions that do a thing of some kind are enumerated, and so are
    those of which the thing has a property. -/
theorem Sound.enumerates_confirmedOf (hl : l.Sound) {α : Type} (kind : Operation → Option α)
    (f : TxId × α → Bool) :
    l.Enumerates (((l.confirmedOf kind).filter f).map Prod.fst) fun id =>
      ∃ r op a, l.Confirms id r op ∧ kind op = some a ∧ f (id, a) := by
  have horder : ((l.confirmedOf kind).map Prod.fst).Sublist (l.records.map Record.txid) := by
    rw [confirmedOf, List.map_filterMap]
    refine filterMap_sublist_map fun r _ id h => ?_
    obtain ⟨⟨id, a⟩, hkind, rfl⟩ := Option.map_eq_some_iff.1 h
    exact (mem_filterMap_kind.1 hkind).1
  have hpicked := List.filter_sublist (p := f) (l := l.confirmedOf kind) |>.map Prod.fst
  refine ⟨hpicked.trans horder, hpicked.nodup hl.nodup_confirmedOf, fun id => ?_⟩
  simp only [List.mem_map, List.mem_filter, Prod.exists, hl.mem_confirmedOf_iff]
  -- Each is picked for what its payload says.
  constructor
  · rintro ⟨_, a, ⟨⟨r, op, hr, ha⟩, hf⟩, rfl⟩
    exact ⟨r, op, a, hr, ha, hf⟩
  · rintro ⟨r, op, a, hr, ha, hf⟩
    exact ⟨id, a, ⟨⟨r, op, hr, ha⟩, hf⟩, rfl⟩

/-- An offer is open if nothing spends its marker. -/
theorem offerStatus_eq_isOpen_iff {id : TxId} :
    l.offerStatus id = .isOpen ↔ l.spender? ⟨id, 0⟩ = none := by
  rw [offerStatus]
  split
  · next h => simp [h]
  · next s h =>
    rw [h]
    split <;> simp

/-! ## What an inventory picks -/

/-- Whether an agreement can be told of, is live and has terms of some kind. -/
def isLiveWith (l : Ledger) (max : Nat) (role : Offer → Bool) (id : TxId) : Bool :=
  (l.summary max id).toOption.any fun s => s.status.isLive && role s.agreement.offer

/-- Whether an agreement cannot be told of, and has terms of some kind. -/
def isUntoldWith (l : Ledger) (max : Nat) (role : Offer → Bool) (id : TxId) : Bool :=
  (l.summary max id).toOption.isNone && (l.findAgreement id).toOption.any fun a => role a.offer

/-- An agreement is live, with terms of some kind, if its summary says so. -/
theorem isLiveWith_iff {role : Offer → Bool} {id : TxId} :
    l.isLiveWith max role id ↔
      ∃ s, l.summary max id = .ok s ∧ s.status.isLive ∧ role s.agreement.offer := by
  simp only [isLiveWith, Option.any_eq_true, toOption_eq_some_iff, Bool.and_eq_true]

/-- An agreement cannot be told of if it has no summary, though it is confirmed. -/
theorem isUntoldWith_iff {role : Offer → Bool} {id : TxId} :
    l.isUntoldWith max role id ↔
      (∃ e, l.summary max id = .error e) ∧ ∃ a, l.Agrees a ∧ a.txid = id ∧ role a.offer := by
  have herror : (l.summary max id).toOption.isNone ↔ ∃ e, l.summary max id = .error e := by
    cases l.summary max id <;> simp [Except.toOption]
  simp only [isUntoldWith, Bool.and_eq_true, herror, Option.any_eq_true, toOption_eq_some_iff,
    findAgreement_eq_ok_iff, and_assoc, and_left_comm]

/-- An inventory is picked from the open offers and from the agreements. -/
theorem inventory_eq : l.inventory max k = {
    offersSent := (l.openOffers.filter fun o => o.2.source.isKey k).map Prod.fst
    offersReceived := (l.openOffers.filter fun o => o.2.destination.isKey k).map Prod.fst
    agreements := l.agreements.filter (l.isLiveWith max (Offer.isParty k))
    arbitrating := l.agreements.filter (l.isLiveWith max (Offer.isArbitrator k))
    unreadable := l.agreements.filter
      (l.isUntoldWith max fun o => o.isParty k || o.isArbitrator k) } := by
  rw [inventory, Inventory.mk.injEq]
  refine ⟨rfl, rfl, filterMap_told (fun id => ?_) _, filterMap_told (fun id => ?_) _,
    filterMap_told (fun id => if_congr ?_ rfl rfl) _⟩
  · rw [isLiveWith]
    cases l.summary max id <;> rfl
  · rw [isLiveWith]
    cases l.summary max id <;> rfl
  · dsimp only [isUntoldWith]
    cases l.findAgreement id <;> rfl

end Ledger

section
variable {validators : List Validator} {params : Params} {l : Ledger} {agreement : TxId}
variable (hl : Reachable validators l) (hv : KeepsRules validators params)
include hl hv

/-- The agreements are the confirmed accepts. -/
theorem Reachable.enumerates_agreements :
    l.Enumerates l.agreements fun id => ∃ r o, l.Confirms id r (.accept o) := by
  have h := hl.sound.enumerates_confirmedOf Operation.accepted? fun _ => true
  rw [List.filter_true, ← hl.accepts_eq hv] at h
  refine h.congr fun id => ?_
  simp [Operation.accepted?_eq_some_iff]

/-- Of the offers those with a property are enumerated. -/
theorem Reachable.enumerates_offers (f : TxId × Offer → Bool) :
    l.Enumerates ((l.offers.filter f).map Prod.fst) fun id =>
      ∃ r o, l.Confirms id r (.offer o) ∧ f (id, o) := by
  have h := hl.sound.enumerates_confirmedOf Operation.terms? f
  rw [← hl.offers_eq hv] at h
  refine h.congr fun id => ?_
  simp [Operation.terms?_eq_some_iff]

/-- So are those that are open. -/
theorem Reachable.enumerates_openOffers (f : TxId × Offer → Bool) :
    l.Enumerates ((l.openOffers.filter f).map Prod.fst) fun id =>
      ∃ r o, l.Confirms id r (.offer o) ∧ l.offerStatus id = .isOpen ∧ f (id, o) := by
  rw [Ledger.openOffers, List.filter_filter]
  refine (hl.enumerates_offers hv _).congr fun id => ?_
  simp only [Ledger.offerStatus_eq_isOpen_iff, Bool.and_eq_true, Option.isNone_iff_eq_none,
    and_comm]

/-- The offers that refer to a confirmed agreement are enumerated; nothing else has
    offers that refer to it. -/
theorem Reachable.references_offers :
    (agreement ∈ l.agreements → ∃ refs, l.references agreement = .ok refs ∧
      l.Enumerates refs.offers fun id =>
        ∃ r o, l.Confirms id r (.offer o) ∧ o.amends = some agreement) ∧
    (agreement ∉ l.agreements → ∃ e, l.references agreement = .error e) := by
  have hmem := (hl.enumerates_agreements hv).mem_iff agreement
  -- References are looked for only if the agreement is found.
  constructor
  · intro h
    obtain ⟨r, o, hr⟩ := hmem.1 h
    obtain ⟨a, ha, hid, -⟩ := hl.exists_agrees hv hr
    refine ⟨_, by rw [Ledger.references, Ledger.findAgreement_eq_ok_iff.2 ⟨hid, ha⟩]; rfl, ?_⟩
    refine (hl.enumerates_offers hv _).congr fun id => ?_
    simp only [decide_eq_true_iff]
  · intro h
    rw [Ledger.references]
    rcases hfind : l.findAgreement agreement with e | a
    · exact ⟨_, rfl⟩
    · obtain ⟨rfl, ⟨r, hr, -⟩, -⟩ := Ledger.findAgreement_eq_ok_iff.1 hfind
      exact absurd (hmem.2 ⟨r, _, hr⟩) h

/-- So all that a key has to do with is found. -/
theorem Reachable.surveys (max : Nat) (k : PublicKey) : l.Surveys max k (l.inventory max k) := by
  have hfound := hl.enumerates_agreements hv
  have hpicked : ∀ f : TxId → Bool, l.Enumerates (l.agreements.filter f) fun id =>
      id ∈ l.agreements ∧ f id := fun f =>
    (hfound.filter f).congr fun id => and_congr_left' (hfound.mem_iff id).symm
  rw [Ledger.inventory_eq]
  refine ⟨hl.enumerates_openOffers hv _, hl.enumerates_openOffers hv _,
    (hpicked _).congr fun id => and_congr_right' Ledger.isLiveWith_iff,
    (hpicked _).congr fun id => and_congr_right' Ledger.isLiveWith_iff,
    (hpicked _).congr fun id => and_congr_right' (Ledger.isUntoldWith_iff.trans ?_)⟩
  simp only [Bool.or_eq_true]

end

/-- In a run of a host that keeps the rules of agreements, the confirmed agreements are
    listed, the confirmed offers that are open, and those that refer to an agreement: all
    of them, each once, in the order of the ledger. What a key has to do with is picked
    from these lists, for every key and any bound on the events that are followed. -/
theorem discovery_run (genesis : Timestamp) (blockTime : UInt64) (params : Params)
    (others : List Validator) (cs : List Command) :
    let l := ((Host.underRules genesis blockTime params others).run cs).ledger
    l.Enumerates l.agreements (fun id => ∃ r o, l.Confirms id r (.accept o)) ∧
      l.Enumerates (l.openOffers.map Prod.fst)
        (fun id => (∃ r o, l.Confirms id r (.offer o)) ∧ l.offerStatus id = .isOpen) ∧
      (∀ a ∈ l.agreements, ∃ refs, l.references a = .ok refs ∧
        l.Enumerates refs.offers fun id => ∃ r o, l.Confirms id r (.offer o) ∧ o.amends = some a) ∧
      (∀ a ∉ l.agreements, ∃ e, l.references a = .error e) ∧
      ∀ max k, l.Surveys max k (l.inventory max k) := by
  intro l
  have hl := Host.reachable_underRules_run genesis blockTime params others cs
  have hv := Host.keepsRules_underRules genesis blockTime params others
  refine ⟨hl.enumerates_agreements hv, ?_, fun a => (hl.references_offers hv).1,
    fun a => (hl.references_offers hv).2, hl.surveys hv⟩
  have hopen := hl.enumerates_openOffers hv fun _ => true
  rw [List.filter_true] at hopen
  refine hopen.congr fun id => ⟨?_, ?_⟩
  · rintro ⟨r, o, hr, hstatus, -⟩
    exact ⟨⟨r, o, hr⟩, hstatus⟩
  · rintro ⟨⟨r, o, hr⟩, hstatus⟩
    exact ⟨r, o, hr, hstatus, rfl⟩

/-- The offer that renewed the agreement of the quarrel is found for it, and none is
    looked for that refers to that offer. -/
theorem Renewal.renewal_found :
    let l := ((Host.underRules ⟨0, 0⟩ 60 {} []).run (commands ++ [.submit accept, .mine])).ledger
    (Quarrel.acceptId ∈ l.agreements ∧ offerId ∉ l.agreements) ∧
      (∃ refs, l.references Quarrel.acceptId = .ok refs ∧ offerId ∈ refs.offers) ∧
      ∃ e, l.references offerId = .error e := by
  intro l
  have hl : l = renewed := renewed_run
  have ha : l.Confirms Quarrel.acceptId ⟨Quarrel.acceptId, Quarrel.accept, some 3⟩
      (.accept Quarrel.offerId) := by
    rw [hl]
    exact ⟨rfl, rfl, by decide +kernel⟩
  have ho : l.Confirms offerId ⟨offerId, offer, some 5⟩ (.offer terms) := by
    rw [hl]
    exact ⟨rfl, rfl, by decide +kernel⟩
  obtain ⟨hagreements, -, hfound, hnone, -⟩ :=
    discovery_run ⟨0, 0⟩ 60 {} [] (commands ++ [.submit accept, .mine])
  have hmem : Quarrel.acceptId ∈ l.agreements := (hagreements.mem_iff _).2 ⟨_, _, ha⟩
  have hnot : offerId ∉ l.agreements := by
    intro h
    obtain ⟨r, o, hr⟩ := (hagreements.mem_iff _).1 h
    cases hr.does.unique ho.does
  obtain ⟨refs, hrefs, henumerates⟩ := hfound Quarrel.acceptId hmem
  exact ⟨⟨hmem, hnot⟩, ⟨refs, hrefs, (henumerates.mem_iff offerId).2 ⟨_, _, ho, rfl⟩⟩,
    hnone offerId hnot⟩

end Escrow
