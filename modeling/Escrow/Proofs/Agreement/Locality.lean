import Escrow.Proofs.Agreement.Lineage

/-!
# What a transaction leaves alone

All agreements have their deposits at one address and under one lock, and so have all
offers their markers. Yet a transaction changes one agreement and one offer at most
(`locality_run`): what it spends in escrow are a baton or the deposit of one agreement,
and the marker of one offer (`Reachable.exists_reach`). Of every other agreement the same
events are told after it has been put in a block, of every other offer the same status,
and nothing new is listed but the transaction itself.

The events of an agreement are found by its batons, and are the same as long as these
are spent by the same transactions (`Reachable.eventsFrom?_eq`).
-/

namespace Escrow

namespace Ledger

/-- An outpoint is a baton or the deposit of an agreement. -/
inductive BelongsTo (l : Ledger) (agreement : TxId) : Outpoint → Prop
  | baton {b : TxId} : l.HoldsBaton agreement b → l.BelongsTo agreement ⟨b, 0⟩
  | deposit {offer : TxId} : l.Does agreement (.accept offer) → l.BelongsTo agreement ⟨agreement, 1⟩

/-- A transaction spends a baton or the deposit of an agreement. -/
def Touches (l : Ledger) (tx : Transaction) (agreement : TxId) : Prop :=
  ∃ o ∈ tx.spends, l.BelongsTo agreement o

/-- A transaction spends the marker of an offer. -/
def TakesMarker (l : Ledger) (tx : Transaction) (offer : TxId) : Prop :=
  ⟨offer, 0⟩ ∈ tx.spends ∧ l.IsMarker ⟨offer, 0⟩

/-- A ledger differs from an earlier one in what a transaction changes only.

    * What the transaction spends in escrow belongs to one agreement and one offer.
    * Of all other agreements the same is told, and of all other offers.
    * No other agreement and no other offer is listed that was not listed before. -/
structure DiffersBy (l m : Ledger) (tx : Transaction) : Prop where
  escrow : ∀ o ∈ tx.spends, l.InEscrow o → (∃ a, l.BelongsTo a o) ∨ l.IsMarker o
  one_agreement : ∀ a a', l.Touches tx a → l.Touches tx a' → a = a'
  one_offer : ∀ f f', l.TakesMarker tx f → l.TakesMarker tx f' → f = f'
  agreement : ∀ b r f, l.Confirms b r (.accept f) → ¬l.Touches tx b → ∀ max,
    m.events max b = l.events max b ∧ m.latestEvent max b = l.latestEvent max b ∧
      m.summary max b = l.summary max b
  offer : ∀ f r terms, l.Confirms f r (.offer terms) → ¬l.TakesMarker tx f →
    m.offerStatus f = l.offerStatus f
  agreements : ∀ id ∈ m.agreements, id ∈ l.agreements ∨ id = tx.txid
  offers : ∀ p ∈ m.offers, p ∈ l.offers ∨ p.1 = tx.txid
  openOffers : ∀ p ∈ m.openOffers, p ∈ l.openOffers ∨ p.1 = tx.txid

variable {l : Ledger} {tx : Transaction} {id a a' : TxId} {o : Outpoint}

/-- Each of these belongs to one agreement. -/
theorem BelongsTo.unique (h : l.BelongsTo a o) (h' : l.BelongsTo a' o) : a = a' := by
  cases h with
  | baton hb =>
    cases h' with
    | baton hb' => exact hb.unique hb'
  | deposit =>
    cases h' with
    | deposit => rfl

/-- And none is a marker. -/
theorem BelongsTo.not_isMarker (h : l.BelongsTo a o) : ¬l.IsMarker o := by
  cases h with
  | baton hb => exact fun hm => hm.not_holdsBaton hb
  | deposit => exact fun hm => hm.ne_deposit rfl

/-! ## A block of one transaction -/

section
variable (hempty : l.mempool = [])
include hempty

/-- If nothing waits, everything is confirmed. -/
theorem isConfirmed_of_mempool {r : Record} (hr : r ∈ l.records) : r.isConfirmed := by
  rw [mempool, List.map_eq_nil_iff, List.filter_eq_nil_iff] at hempty
  simpa using hempty r hr

/-- A block that is made for one transaction adds one record. -/
theorem records_insert_mine :
    (l.insert tx).mine.records = l.records ++ [⟨tx.txid, tx, some (l.height + 1)⟩] := by
  have hconf : ∀ r ∈ l.records, r.confirm ((l.insert tx).height + 1) = id r := fun r hr =>
    Record.confirm_of_isConfirmed (isConfirmed_of_mempool hempty hr)
  rw [records_mine, records_insert, List.map_append, List.map_congr_left hconf, List.map_id]
  rfl

/-- What is found under another id stays what it was, as nothing waited for the block. -/
theorem record?_insert_mine (hne : id ≠ tx.txid) :
    (l.insert tx).mine.record? id = l.record? id := by
  rw [record?_mine, record?_insert_of_ne hne]
  cases hr : l.record? id with
  | none => rfl
  | some r =>
    exact congrArg some
      (Record.confirm_of_isConfirmed (isConfirmed_of_mempool hempty (mem_of_record? hr).1))

end

/-- What spends an output in a ledger is not a transaction yet to be recorded. -/
theorem ne_of_spentBy? (hfresh : l.record? tx.txid = none) {vin : Nat}
    (h : l.spentBy? o = some (id, vin)) : id ≠ tx.txid := by
  obtain ⟨r, hr, rfl, -⟩ := spends_of_spentBy? h
  exact record?_eq_none_iff.1 hfresh r hr

/-- What the transaction does not spend is found to be spent as it was. -/
structure SpentAlike (l m : Ledger) (o : Outpoint) : Prop where
  spender : m.spender? o = l.spender? o
  record : ∀ s, l.spender? o = some s → m.record? s.txid = l.record? s.txid

/-- What a transaction does not spend is spent as before. -/
theorem spentAlike_insert_mine (hempty : l.mempool = []) (hm : (l.insert tx).mine.Sound)
    (hfresh : l.record? tx.txid = none) (ho : o ∉ tx.spends) :
    l.SpentAlike (l.insert tx).mine o := by
  have hsame : (l.insert tx).mine.spentBy? o = l.spentBy? o := by
    cases h : l.spentBy? o with
    | some p => exact ((Grows.insert l tx).trans (Grows.mine _)).spentBy? hm h
    | none =>
      rw [spentBy?_eq_none_iff, spends_mine, spends_insert, List.mem_append, not_or]
      exact ⟨spentBy?_eq_none_iff.1 h, ho⟩
  have hrecord : ∀ id vin, l.spentBy? o = some (id, vin) →
      (l.insert tx).mine.record? id = l.record? id := fun id vin h =>
    record?_insert_mine hempty (ne_of_spentBy? hfresh h)
  refine ⟨?_, fun s hs => ?_⟩
  · rw [spender?, spender?, hsame]
    refine Option.map_congr fun p hp => ?_
    rcases p with ⟨id, vin⟩
    simp only [heightOf?, hrecord id vin hp]
  · obtain ⟨p, hp, rfl⟩ := Option.map_eq_some_iff.1 hs
    exact hrecord p.1 p.2 hp

/-- Who spends the output is the next event, before and after. -/
theorem SpentAlike.nextEvent? {m : Ledger} (h : l.SpentAlike m ⟨id, 0⟩) :
    m.nextEvent? id = l.nextEvent? id := by
  rw [Ledger.nextEvent?, Ledger.nextEvent?, h.spender]
  refine Option.bind_congr fun s hs => ?_
  rw [h.record s hs]

/-- So an offer whose marker is spent alike has the same status. -/
theorem SpentAlike.offerStatus {m : Ledger} (h : l.SpentAlike m ⟨id, 0⟩) :
    m.offerStatus id = l.offerStatus id := by
  rw [Ledger.offerStatus, Ledger.offerStatus, h.spender]
  cases hs : l.spender? ⟨id, 0⟩ with
  | none => rfl
  | some s => simp only [h.record s hs]

end Ledger

section
variable {validators : List Validator} {params : Params} {l m : Ledger} {tx : Transaction}
  {agreement : TxId}
variable (hl : Reachable validators l) (hv : KeepsRules validators params)
include hl hv

/-! ## One agreement and one offer -/

/-- What belongs to an agreement is in escrow. -/
theorem Ledger.BelongsTo.inEscrow {o : Outpoint} (h : l.BelongsTo agreement o) : l.InEscrow o := by
  cases h with
  | baton hb => exact hb.isEscrow hl hv
  | deposit hA => exact isEscrow_deposit hl hv hA

omit hl hv in
/-- What a transaction spends in escrow belongs to one agreement at most, or is the
    marker of one offer. -/
theorem Enacted.exists_reach {spent : List Output} {op : Operation}
    (h : Enacted validators params (l.insert tx) l tx spent op) :
    ∃ agreement? offer? : Option TxId, ∀ o ∈ tx.spends, l.InEscrow o →
      (∃ a, agreement? = some a ∧ l.BelongsTo a o) ∨
        ∃ f, offer? = some f ∧ o = ⟨f, 0⟩ ∧ l.IsMarker o := by
  have taken : ∀ {os}, (⟨l, params, tx, spent⟩ : Inspection).Takes os →
      ∀ o ∈ tx.spends, l.InEscrow o → o ∈ os :=
    fun htakes o ho => htakes.mem h.admits.map_prevout? ho
  -- The layout of each operation names the agreement and the offer, if it takes anything of
  -- them.
  cases h.obeys with
  | offer ho => exact ⟨none, none, fun o hmem hescrow => nomatch taken ho.takes o hmem hescrow⟩
  | @stopOffer offer _ _ _ ho =>
    refine ⟨none, some offer, fun o hmem hescrow => .inr ⟨offer, rfl, ?_⟩⟩
    obtain rfl := List.mem_singleton.1 (taken ho.takes o hmem hescrow)
    exact ⟨rfl, ho.offer.isMarker⟩
  | @accept offer r o ho =>
    by_cases hamendment : o.flags.has .amendment
    · obtain ⟨a, e, ham⟩ := ho.amends hamendment
      refine ⟨some a.txid, some offer, fun o hmem hescrow => ?_⟩
      have htaken := taken (ho.takes_of_amends hamendment ham) o hmem hescrow
      simp only [List.mem_cons, List.not_mem_nil, or_false] at htaken
      rcases htaken with rfl | rfl | rfl
      · exact .inr ⟨offer, rfl, rfl, ho.offer.isMarker⟩
      · exact .inl ⟨a.txid, rfl, .baton ham.baton.holdsBaton⟩
      · exact .inl ⟨a.txid, rfl, .deposit ham.agrees.does⟩
    · refine ⟨none, some offer, fun o hmem hescrow => .inr ⟨offer, rfl, ?_⟩⟩
      obtain rfl := List.mem_singleton.1
        (taken (ho.takes_of_not_amendment hamendment) o hmem hescrow)
      exact ⟨rfl, ho.offer.isMarker⟩
  | @close offer payout a r o e ho =>
    refine ⟨some a.txid, some offer, fun o hmem hescrow => ?_⟩
    have htaken := taken ho.takes o hmem hescrow
    simp only [List.mem_cons, List.not_mem_nil, or_false] at htaken
    rcases htaken with rfl | rfl | rfl
    · exact .inl ⟨a.txid, rfl, .baton ho.baton.holdsBaton⟩
    · exact .inl ⟨a.txid, rfl, .deposit ho.agrees.does⟩
    · exact .inr ⟨offer, rfl, rfl, ho.offer.isMarker⟩
  | @dispute d a e ho =>
    refine ⟨some a.txid, none, fun o hmem hescrow => .inl ⟨a.txid, rfl, ?_⟩⟩
    obtain rfl := List.mem_singleton.1 (taken ho.takes o hmem hescrow)
    exact .baton ho.baton.holdsBaton
  | @stopDispute id memo a d ho =>
    refine ⟨some a.txid, none, fun o hmem hescrow => .inl ⟨a.txid, rfl, ?_⟩⟩
    obtain rfl := List.mem_singleton.1 (taken ho.takes o hmem hescrow)
    exact .baton (Ledger.holdsBaton_of_dispute ho.dispute ho.agreement)
  | @resolve id payout memo a d p ho =>
    refine ⟨some a.txid, none, fun o hmem hescrow => .inl ⟨a.txid, rfl, ?_⟩⟩
    have htaken := taken ho.takes o hmem hescrow
    simp only [List.mem_cons, List.not_mem_nil, or_false] at htaken
    rcases htaken with rfl | rfl
    · exact .baton (Ledger.holdsBaton_of_dispute ho.dispute ho.agreement)
    · exact .deposit ho.agrees.does

/-- So does every transaction that the host admits. -/
theorem Reachable.exists_reach {spent : List Output} (ha : Host.Admits ⟨l, validators⟩ tx spent) :
    ∃ agreement? offer? : Option TxId, ∀ o ∈ tx.spends, l.InEscrow o →
      (∃ a, agreement? = some a ∧ l.BelongsTo a o) ∨
        ∃ f, offer? = some f ∧ o = ⟨f, 0⟩ ∧ l.IsMarker o := by
  cases hop : tx.operation? with
  | none =>
    refine ⟨none, none, fun o hmem hescrow => ?_⟩
    obtain ⟨out, hout, hescrow⟩ := hescrow
    exact absurd hescrow
      (ha.no_escrow hv hl hop (List.mem_append_left _ (ha.mem_spent hmem hout)))
  | some op =>
    obtain ⟨op', h⟩ := ha.enacts hv hl (mem_codes_of_operation? hv hop)
    exact h.exists_reach

/-! ## What is told of the others -/

/-- The same events are told of an agreement whose batons are spent alike. -/
theorem Reachable.eventsFrom?_eq
    (hsame : ∀ b, l.HoldsBaton agreement b → l.SpentAlike m ⟨b, 0⟩) {n : Nat} {b : TxId}
    (hb : l.HoldsBaton agreement b) {height : Nat} (hheight : l.heightOf? b = some height) :
    m.eventsFrom? n b = l.eventsFrom? n b := by
  have hspent := hsame b hb
  induction n generalizing b height with
  | zero =>
    rw [Ledger.eventsFrom?, Ledger.eventsFrom?, Ledger.confirmedSpender?, hspent.spender]
    rfl
  | succ n ih =>
    rw [Ledger.eventsFrom?, Ledger.eventsFrom?, hspent.nextEvent?]
    cases hnext : l.nextEvent? b with
    | none => rfl
    | some e =>
      -- The walk goes on from the next baton, if the agreement does not end.
      dsimp only
      split
      · rfl
      · next hends =>
        obtain ⟨prev, hdoes, hhands⟩ := id hb
        have hoccurs := Ledger.occurs_of_nextEvent? hl hv hdoes hhands hheight hnext
        have hb' := hoccurs.holdsBaton hends
        rw [ih hb' hoccurs.confirmed (hsame _ hb')]

/-- So the same is reported of it. -/
theorem Reachable.reports_eq (hm : m.Sound) (hgrows : l.Grows m)
    (hsame : ∀ b, l.HoldsBaton agreement b → l.SpentAlike m ⟨b, 0⟩) {r : Record} {f : TxId}
    (hA : l.Confirms agreement r (.accept f)) (max : Nat) :
    m.events max agreement = l.events max agreement ∧
      m.latestEvent max agreement = l.latestEvent max agreement ∧
      m.summary max agreement = l.summary max agreement := by
  obtain ⟨a, ha, rfl, rfl⟩ := hl.exists_agrees hv hA
  obtain ⟨height, hheight⟩ := Option.isSome_iff_exists.1 hA.isConfirmed
  have hfind := Ledger.findAgreement_eq_ok_iff.2 ⟨rfl, ha⟩
  have hfind' := Ledger.findAgreement_eq_ok_iff.2 ⟨rfl, ha.grows hgrows hm⟩
  have hheight' : l.heightOf? a.txid = some height := by
    rw [Ledger.heightOf?, hA.record?]
    exact hheight
  have hevents : m.events max a.txid = l.events max a.txid := by
    rw [Ledger.events, Ledger.events, hfind, hfind',
      hl.eventsFrom?_eq hv hsame ⟨_, ha.does, rfl⟩ hheight']
  have hlatest : m.latestEvent max a.txid = l.latestEvent max a.txid := by
    rw [Ledger.latestEvent, Ledger.latestEvent, hevents]
  -- The summary is made of the agreement and its latest event.
  refine ⟨hevents, hlatest, ?_⟩
  rw [Ledger.summary, Ledger.summary, hfind, hfind', hlatest]

/-- A transaction that is admitted while nothing waits, and put in a block, changes one
    agreement and one offer. -/
theorem Reachable.differsBy {spent : List Output} (hempty : l.mempool = [])
    (ha : Host.Admits ⟨l, validators⟩ tx spent) : l.DiffersBy (l.insert tx).mine tx := by
  have hm : Reachable validators (l.insert tx).mine := hl.leads (.head (.record ha) (.single .mine))
  have hgrows : l.Grows (l.insert tx).mine := (Ledger.Grows.insert l tx).trans (.mine _)
  have alike : ∀ {o}, o ∉ tx.spends → l.SpentAlike (l.insert tx).mine o := fun ho =>
    Ledger.spentAlike_insert_mine hempty hm.sound ha.fresh ho
  -- What is listed is listed record by record.
  have listed : ∀ {α} {kind : Operation → Option α} {p : TxId × α},
      p ∈ (l.insert tx).mine.confirmedOf kind → p ∈ l.confirmedOf kind ∨ p.1 = tx.txid := by
    intro α kind p hp
    rw [Ledger.confirmedOf, Ledger.records_insert_mine hempty, List.filterMap_append,
      List.mem_append] at hp
    refine hp.imp_right fun hp => ?_
    obtain ⟨r, hr, hp⟩ := List.mem_filterMap.1 hp
    rw [List.mem_singleton.1 hr] at hp
    exact (Ledger.mem_filterMap_kind.1 hp).1.symm
  obtain ⟨agreement?, offer?, hreach⟩ := hl.exists_reach hv ha
  refine ⟨fun o ho hescrow => ?_, ?_, ?_, ?_, ?_, ?_, ?_, ?_⟩
  · rcases hreach o ho hescrow with ⟨a, -, h⟩ | ⟨f, -, -, h⟩
    · exact .inl ⟨a, h⟩
    · exact .inr h
  · have only : ∀ {a}, l.Touches tx a → agreement? = some a := by
      rintro a ⟨o, ho, h⟩
      rcases hreach o ho (h.inEscrow hl hv) with ⟨a', hreached, h'⟩ | ⟨f, -, -, h'⟩
      · exact hreached.trans (congrArg some (h'.unique h))
      · exact absurd h' h.not_isMarker
    exact fun a a' h h' => Option.some.inj ((only h).symm.trans (only h'))
  · have only : ∀ {f}, l.TakesMarker tx f → offer? = some f := by
      rintro f ⟨ho, h⟩
      obtain ⟨-, r, terms, hr⟩ := id h
      rcases hreach _ ho (isEscrow_marker hl hv hr.does) with ⟨a, -, h'⟩ | ⟨f', hreached, heq, -⟩
      · exact absurd h h'.not_isMarker
      · rw [hreached, (Outpoint.mk.inj heq).1]
    exact fun f f' h h' => Option.some.inj ((only h).symm.trans (only h'))
  · intro b r f hb huntouched
    exact hl.reports_eq hv hm.sound hgrows
      (fun c hc => alike fun hmem => huntouched ⟨_, hmem, .baton hc⟩) hb
  · intro f r terms hf huntouched
    exact (alike fun hmem => huntouched ⟨hmem, hf.isMarker⟩).offerStatus
  · intro id hid
    obtain ⟨p, hp, rfl⟩ := List.mem_map.1 hid
    rw [hm.accepts_eq hv] at hp
    rw [Ledger.agreements, hl.accepts_eq hv]
    exact (listed hp).imp_left (List.mem_map_of_mem ·)
  · intro p hp
    rw [hm.offers_eq hv] at hp
    rw [hl.offers_eq hv]
    exact listed hp
  · intro p hp
    obtain ⟨hp, hopen⟩ := List.mem_filter.1 hp
    rw [hm.offers_eq hv] at hp
    refine (listed hp).imp_left fun hp => List.mem_filter.2 ⟨by rwa [hl.offers_eq hv], ?_⟩
    -- What is spent stays spent.
    rw [Option.isNone_iff_eq_none] at hopen ⊢
    rw [Ledger.spender?, Option.map_eq_none_iff] at hopen ⊢
    rw [Option.eq_none_iff_forall_ne_some]
    rintro ⟨id, vin⟩ h
    cases hopen.symm.trans (hgrows.spentBy? hm.sound h)

end

/-- In a run of a host that keeps the rules of agreements, a transaction that is
    admitted while nothing waits for a block, and is put in one, changes one agreement and
    one offer at most. -/
theorem locality_run (genesis : Timestamp) (blockTime : UInt64) (params : Params)
    (others : List Validator) (cs : List Command) (tx : Transaction) (id : TxId) :
    let h := (Host.underRules genesis blockTime params others).run cs
    h.ledger.mempool = [] → h.check tx = .ok id →
      h.ledger.DiffersBy (h.run [.submit tx, .mine]).ledger tx := by
  intro h hempty hcheck
  have hv := Host.keepsRules_underRules genesis blockTime params others
  have hl := Host.reachable_underRules_run genesis blockTime params others cs
  have hvalidators : h.validators = _ := (Host.leads_run _ cs).2
  rw [← hvalidators] at hv hl
  obtain ⟨-, spent, ha⟩ := Host.check_eq_ok_iff.1 hcheck
  rw [Host.run_submit_mine_of_check hcheck]
  exact hl.differsBy hv hempty ha

namespace Renewal

/-- The renewal spends the marker of its offer, and the baton and deposit of one
    agreement. -/
theorem differs_by_accept :
    let h := (Host.underRules ⟨0, 0⟩ 60 {} []).run commands
    (h.ledger.mempool = [] ∧ h.check accept = .ok acceptId) ∧
      h.ledger.DiffersBy (h.run [.submit accept, .mine]).ledger accept := by
  intro h
  have hempty : h.ledger.mempool = [] := by
    rw [show h.ledger = offered from offered_run]
    rfl
  have hcheck : h.check accept = .ok acceptId := by
    rw [show h = ⟨offered, [agreements {}]⟩ from offered_run ▸ Host.run_underRules_nil ..]
    exact check_accept
  exact ⟨⟨hempty, hcheck⟩,
    locality_run ⟨0, 0⟩ 60 {} [] commands accept acceptId hempty hcheck⟩

end Renewal

end Escrow
