import Escrow.Agreement.Draft
import Escrow.Proofs.Agreement.Events
import Escrow.Proofs.Agreement.Recorded

/-!
# The latest event

There are two ways to tell which baton of an agreement is to be spent next. Who
drafts a transaction walks from the agreement to its latest event. The rules look
at the one output that a transaction spends, and trust what made it. Both come to
the same output (`latest_run`).

A confirmed baton, unless it is the first one, was made by a transaction that
spends another confirmed baton of the agreement (`Reachable.exists_previous`). So
the way back from any of them leads to the agreement, and the walk meets them all
(`Reachable.isMet`). The last one met is the only one that nothing confirmed
spends.
-/

namespace Escrow

/-- The latest event of an agreement leaves it free for another: it is its beginning
    or a stop-dispute. -/
def LatestEvent.IsFree (latest : LatestEvent) (agreement : TxId) : Prop :=
  latest.function = .stopDispute ∨ (latest.function = .accept ∧ latest.txid = agreement)

/-- A baton that no dispute holds leaves the agreement free. -/
theorem LatestEvent.isFree_of_handsOn {latest : LatestEvent} {agreement : TxId} {op : Operation}
    (hfun : op.function = latest.function) (hhands : op.HandsOn agreement latest.txid)
    (hdispute : op.function ≠ .dispute) : latest.IsFree agreement := by
  cases op with
  | accept o => exact .inr ⟨hfun.symm, hhands⟩
  | dispute d => exact absurd rfl hdispute
  | stopDispute a d memo => exact .inl hfun.symm
  | _ => exact hhands.elim

/-- An agreement under dispute is not free. -/
theorem LatestEvent.IsFree.ne_dispute {latest : LatestEvent} {agreement : TxId}
    (h : latest.IsFree agreement) : latest.function ≠ .dispute := by
  intro hfun
  rw [IsFree, hfun] at h
  rcases h with h | ⟨h, -⟩ <;> cases h

/-- A free baton is that of the latest event of an agreement that is free. -/
theorem Drafter.freeBaton_eq_ok_iff {d : Drafter} {agreement id : TxId} :
    d.freeBaton agreement = .ok id ↔
      ∃ latest, d.ledger.latestEvent d.params.maxEvents agreement = .ok latest ∧
        latest.IsFree agreement ∧ latest.txid = id := by
  simp only [freeBaton, bind_eq_ok_iff, mapError_eq_ok_iff, throw_bind, ite_throw_eq_ok_iff,
    pure_eq_ok_iff, Bool.not_eq_true', Bool.not_eq_false, LatestEvent.IsFree]
  refine exists_congr fun latest => and_congr_right fun _ => and_congr_left fun _ => ?_
  rcases latest.function <;> simp

section
variable {validators : List Validator} {params : Params} {l before : Ledger} {tx : Transaction}
  {spent : List Output} {op : Operation} {agreement b : TxId} {r : Record}

/-- Who makes a baton of an agreement, and is not the agreement, spends one that is
    confirmed. -/
theorem Enacted.exists_previous (h : Enacted validators params l before tx spent op)
    (hhands : op.HandsOn agreement tx.txid) (hne : tx.txid ≠ agreement) :
    ∃ b r prev, before.Confirms b r prev ∧ prev.HandsOn agreement b ∧ ⟨b, 0⟩ ∈ tx.spends := by
  cases h.obeys with
  | accept => exact absurd hhands hne
  | @dispute d a e ho =>
    obtain ⟨prev, he, hevent, -⟩ := ho.baton.event
    obtain rfl : a.txid = agreement := ho.agreement.symm.trans hhands
    exact ⟨e.txid, e, prev, he, isEventOf_iff.1 hevent, List.mem_of_getElem? ho.baton.spends⟩
  | @stopDispute id memo a d ho =>
    obtain ⟨r, hr⟩ := ho.dispute
    exact ⟨id, r, _, hr, ho.agreement.trans hhands, List.mem_of_getElem? ho.baton⟩
  | _ => exact hhands.elim

variable (hl : Reachable validators l) (hv : KeepsRules validators params)
include hl hv

/-- A confirmed baton, unless it is the first, follows one that is confirmed earlier. -/
theorem Reachable.exists_previous (hr : l.Confirms b r op) (hhands : op.HandsOn agreement b)
    (hne : b ≠ agreement) {height : Nat} (hheight : r.height = some height) :
    ∃ b' r' op', l.Confirms b' r' op' ∧ op'.HandsOn agreement b' ∧
      (∃ height', r'.height = some height' ∧ height' < height) ∧
      ∃ e, l.nextEvent? b' = some e ∧ e.txid = b := by
  obtain ⟨hmem, hid⟩ := Ledger.mem_of_record? hr.record?
  obtain ⟨before, spent, h⟩ := hl.enacted hv hmem hr.operation?
  have htxid : r.tx.txid = b := (hl.sound.txid_eq r hmem).symm.trans hid
  rw [← htxid] at hhands hne
  obtain ⟨b', r', op', hr', hhands', hspends⟩ := h.exists_previous hhands hne
  obtain ⟨height', hheight'⟩ := Option.isSome_iff_exists.1 hr'.isConfirmed
  refine ⟨b', r', op', hr'.grows h.grows_before hl.sound, hhands', ⟨height', hheight', ?_⟩,
    ⟨b, op.function, height⟩, ?_, rfl⟩
  · -- The transaction was admitted when the event before it was confirmed.
    obtain ⟨hmem', -⟩ := Ledger.mem_of_record? hr'.record?
    refine Nat.lt_of_le_of_lt (h.reachable.sound.height_le r' hmem' height' hheight') ?_
    refine h.height_lt hl.sound ?_
    rw [htxid, Ledger.heightOf?, hr.record?]
    exact hheight
  · rw [← hid]
    exact hl.sound.nextEvent?_of_spends hmem hheight hr.operation? hspends

variable {max : Nat} {es : List Event} (hes : l.events max agreement = .ok es)
include hes

/-- Every confirmed baton is met on the walk from the agreement. -/
theorem Reachable.isMet (hr : l.Confirms b r op) (hhands : op.HandsOn agreement b) :
    b = agreement ∨ ∃ e ∈ es, e.txid = b := by
  obtain ⟨_, -, htells⟩ := hl.tells hv hes
  have hwalk := Ledger.walks_of_eventsFrom? (Ledger.events_eq_ok_iff.1 hes).2
  obtain ⟨height, hheight⟩ := Option.isSome_iff_exists.1 hr.isConfirmed
  -- Back to the agreement, each time to a lower height.
  induction height using Nat.strongRecOn generalizing b r op with
  | ind height ih =>
    by_cases hb : b = agreement
    · exact .inl hb
    · obtain ⟨b', r', op', hr', hhands', ⟨height', hheight', hlt⟩, e, hnext, rfl⟩ :=
        hl.exists_previous hv hr hhands hb hheight
      refine .inr ⟨e, hwalk.mem_of_nextEvent? ?_ hnext, rfl⟩
      refine (ih height' hlt hr' hhands' hheight').imp_right ?_
      rintro ⟨e', he', rfl⟩
      -- An event that ends the agreement makes no baton of it.
      exact ⟨e', he', rfl, fun hends =>
        (htells.ended e' he' hends).2.1 ⟨op', hr'.does, hhands'⟩⟩

variable {latest : LatestEvent} (hlatest : l.latestEvent max agreement = .ok latest)
include hlatest

/-- So the baton that nothing confirmed spends is that of the latest event. -/
theorem Reachable.eq_latest (hr : l.Confirms b r op) (hhands : op.HandsOn agreement b)
    (hunspent : l.confirmedSpender? ⟨b, 0⟩ = none) : b = latest.txid := by
  obtain ⟨es', hes', hid, -⟩ := Ledger.latestEvent_eq_ok_iff.1 hlatest
  cases hes.symm.trans hes'
  rw [hid]
  refine (Ledger.walks_of_eventsFrom? (Ledger.events_eq_ok_iff.1 hes).2).eq_last_of_nextEvent?
    (hl.isMet hv hes hr hhands) (Ledger.nextEvent?_eq_none ?_)
  rw [hunspent]
  exact Bool.false_ne_true

/-- The latest event is a confirmed one, and holds the baton if the agreement is free
    or under dispute. -/
theorem Reachable.confirms_latest : ∃ r op, l.Confirms latest.txid r op ∧
    op.function = latest.function ∧
      (latest.IsFree agreement ∨ latest.function = .dispute →
        op.HandsOn agreement latest.txid) := by
  obtain ⟨es', hes', hid, hfun⟩ := Ledger.latestEvent_eq_ok_iff.1 hlatest
  cases hes.symm.trans hes'
  rcases hlast : es.getLast? with _ | e
  · rw [hlast] at hid hfun
    obtain ⟨⟨a, ha⟩, -⟩ := Ledger.events_eq_ok_iff.1 hes
    obtain ⟨rfl, ⟨r, hr, -⟩, -⟩ := Ledger.findAgreement_eq_ok_iff.1 ha
    rw [hid, hfun]
    exact ⟨r, _, hr, rfl, fun _ => rfl⟩
  · rw [hlast] at hid hfun
    obtain ⟨_, -, htells⟩ := hl.tells hv hes
    have he := List.mem_of_getLast? hlast
    obtain ⟨op, ⟨r, hr, hop⟩, hopfun, hnames⟩ := htells.names e he
    have hconfirmed := htells.confirmed e he
    rw [Ledger.heightOf?, hr] at hconfirmed
    refine ⟨r, op, ⟨hid ▸ hr, Option.isSome_iff_exists.2 ⟨_, hconfirmed⟩, hop⟩,
      hopfun.trans hfun.symm, fun hlatest => ?_⟩
    rw [LatestEvent.IsFree, show latest.function = op.function from hfun.trans hopfun.symm]
      at hlatest
    -- The event names the agreement, or is its accept.
    cases op with
    | accept o =>
      rcases hlatest with (h | ⟨-, hid⟩) | h
      · cases h
      · exact hid
      · cases h
    | dispute d =>
      rcases hnames with hnames | ⟨_, _, hnames, -⟩
      · exact Option.some.inj hnames
      · cases hnames
    | stopDispute a d memo =>
      rcases hnames with hnames | ⟨_, _, hnames, -⟩
      · exact Option.some.inj hnames
      · cases hnames
    | _ => simp [Operation.function] at hlatest

section
variable {i : Inspection} (hledger : i.ledger = l) {a : Agreement} (ha : l.Agrees a)
  (hid : a.txid = agreement) {vin : Nat} {o : Outpoint} (ho : i.tx.spends[vin]? = some o)
  (hspent : i.tx.spends.map l.prevout? = i.spent.map some)
  (hunspent : l.confirmedSpender? o = none)
include hledger ha hid ho hspent hunspent

/-- A transaction that spends what nothing confirmed spends can meet the latest event
    only, and does if that holds the baton. -/
theorem Reachable.meets_iff (r : Record) (op : Operation) :
    i.Meets vin a r op ↔
      o = ⟨latest.txid, 0⟩ ∧ l.Confirms latest.txid r op ∧ op.HandsOn agreement latest.txid := by
  subst hledger hid
  -- Of the batons of the agreement all but the latest are spent by confirmed transactions.
  constructor
  · intro h
    cases ho.symm.trans h.spends
    have hhands := isEventOf_iff.1 h.event
    have heq := hl.eq_latest hv hes hlatest h.confirms hhands hunspent
    rw [← heq]
    exact ⟨rfl, h.confirms, hhands⟩
  · rintro ⟨rfl, hr, hhands⟩
    obtain ⟨-, hrid⟩ := Ledger.mem_of_record? hr.record?
    have hb : i.ledger.HoldsBaton a.txid latest.txid := ⟨op, hr.does, hhands⟩
    obtain ⟨out, hat, hout⟩ := Inspection.getElem?_spent hspent ho
    rw [← hrid] at hr hhands ho
    refine ⟨ho, hr, isEventOf_iff.2 hhands, ?_⟩
    rw [hat, Option.map_some, hb.lock_eq hl hv ha.does hout]

/-- The rules find a previous event for the baton of the latest one, if the agreement is
    free. -/
theorem Reachable.exists_previousEvent_iff :
    (∃ r, i.previousEvent vin a = .ok r) ↔ o = ⟨latest.txid, 0⟩ ∧ latest.IsFree agreement := by
  have hmeets := hl.meets_iff hv hes hlatest hledger ha hid ho hspent hunspent
  obtain ⟨s, last, hs, hfun, hhands⟩ := hl.confirms_latest hv hes hlatest
  simp only [Inspection.previousEvent_eq_ok_iff, Inspection.follows_iff, hmeets]
  constructor
  · rintro ⟨r, op, ⟨rfl, hr, hhands'⟩, hdispute⟩
    cases hs.does.unique hr.does
    exact ⟨rfl, LatestEvent.isFree_of_handsOn hfun hhands' hdispute⟩
  · rintro ⟨rfl, hfree⟩
    exact ⟨s, last, ⟨rfl, hs, hhands (.inl hfree)⟩, hfun ▸ hfree.ne_dispute⟩

theorem Reachable.previousEvent_disputed_iff :
    i.previousEvent vin a = .error .agreementDisputed ↔
      o = ⟨latest.txid, 0⟩ ∧ latest.function = .dispute := by
  have hmeets := hl.meets_iff hv hes hlatest hledger ha hid ho hspent hunspent
  obtain ⟨s, last, hs, hfun, hhands⟩ := hl.confirms_latest hv hes hlatest
  simp only [Inspection.previousEvent_eq_disputed_iff, hmeets]
  constructor
  · rintro ⟨r, op, ⟨rfl, hr, -⟩, hdispute⟩
    cases hs.does.unique hr.does
    exact ⟨rfl, hfun ▸ hdispute⟩
  · rintro ⟨rfl, hdispute⟩
    exact ⟨s, last, ⟨rfl, hs, hhands (.inr hdispute)⟩, hfun.trans hdispute⟩

end

end

/-- At an input of a transaction the rules find the same latest event of an
    agreement as a walk. -/
structure Inspection.Pinpoints (i : Inspection) (vin : Nat) (o : Outpoint) (a : Agreement)
    (latest : LatestEvent) : Prop where
  agreement : i.agreementAt a.txid = .ok a
  follows : (∃ r, i.previousEvent vin a = .ok r) ↔
    o = ⟨latest.txid, 0⟩ ∧ latest.IsFree a.txid
  disputed : i.previousEvent vin a = .error .agreementDisputed ↔
    o = ⟨latest.txid, 0⟩ ∧ latest.function = .dispute

/-- In a run of a host that keeps the rules of agreements, a drafter and the rules
    agree on the baton that is to be spent next, whenever the events of the agreement
    can be told. -/
theorem latest_run (genesis : Timestamp) (blockTime : UInt64) (params : Params)
    (others : List Validator) (cs : List Command) (reader : Params) (agreement : TxId)
    (es : List Event) :
    let l := ((Host.underRules genesis blockTime params others).run cs).ledger
    l.events reader.maxEvents agreement = .ok es →
      ∃ latest a, l.latestEvent reader.maxEvents agreement = .ok latest ∧
        l.findAgreement agreement = .ok a ∧
        (∀ key, (⟨l, reader, key⟩ : Drafter).freeBaton agreement = .ok latest.txid ↔
          latest.IsFree agreement) ∧
        ∀ tx spent vin o, l.prevouts 0 tx.inputs = .ok spent → tx.spends[vin]? = some o →
          l.confirmedSpender? o = none →
            (⟨l, params, tx, spent⟩ : Inspection).Pinpoints vin o a latest := by
  intro l hes
  have hl := Host.reachable_underRules_run genesis blockTime params others cs
  have hv := Host.keepsRules_underRules genesis blockTime params others
  obtain ⟨⟨a, ha⟩, -⟩ := Ledger.events_eq_ok_iff.1 hes
  obtain ⟨latest, hlatest⟩ : ∃ latest, l.latestEvent reader.maxEvents agreement = .ok latest :=
    ⟨⟨_, _⟩, Ledger.latestEvent_eq_ok_iff.2 ⟨es, hes, rfl, rfl⟩⟩
  refine ⟨latest, a, hlatest, ha, fun key => ?_, fun tx spent vin o hspent ho hunspent => ?_⟩
  · rw [Drafter.freeBaton_eq_ok_iff]
    constructor
    · rintro ⟨latest', hlatest', hfree, -⟩
      cases hlatest.symm.trans hlatest'
      exact hfree
    · intro hfree
      exact ⟨latest, hlatest, hfree, rfl⟩
  · obtain ⟨rfl, hagrees⟩ := Ledger.findAgreement_eq_ok_iff.1 ha
    have hspent := prevouts_eq_ok_iff.1 hspent
    exact ⟨Inspection.agreementAt_eq_ok_iff.2 ⟨rfl, hagrees⟩,
      hl.exists_previousEvent_iff hv hes hlatest rfl hagrees rfl ho hspent hunspent,
      hl.previousEvent_disputed_iff hv hes hlatest rfl hagrees rfl ho hspent hunspent⟩

/-- While the dispute is open, the baton is found to be disputed. -/
theorem Quarrel.baton_disputed :
    let l := ((Host.underRules ⟨0, 0⟩ 60 {} []).run (commands.take 7)).ledger
    let es : List Event := [⟨disputeId, .dispute, 4⟩]
    let spent : List Output :=
      [⟨10000, eventLock offerId⟩, ⟨10000, globalLock⟩, ⟨20000, .key arbitrator⟩]
    (l.events ({} : Params).maxEvents acceptId = .ok es ∧
      l.prevouts 0 resolve.inputs = .ok spent ∧ resolve.spends[0]? = some ⟨disputeId, 0⟩ ∧
      l.confirmedSpender? ⟨disputeId, 0⟩ = none) ∧
    ∃ a, l.findAgreement acceptId = .ok a ∧
      (⟨l, {}, resolve, spent⟩ : Inspection).previousEvent 0 a = .error .agreementDisputed := by
  intro l es spent
  have hl : l = disputed := disputed_run
  have hes : l.events ({} : Params).maxEvents acceptId = .ok es := by
    rw [← toOption_eq_some_iff, hl]
    decide +kernel
  have hspent : l.prevouts 0 resolve.inputs = .ok spent := by
    rw [hl]
    rfl
  have ho : resolve.spends[0]? = some ⟨disputeId, 0⟩ := rfl
  have hunspent : l.confirmedSpender? ⟨disputeId, 0⟩ = none := by
    rw [hl]
    decide +kernel
  refine ⟨⟨hes, hspent, ho, hunspent⟩, ?_⟩
  obtain ⟨latest, a, hlatest, ha, -, hpinpoints⟩ :=
    latest_run ⟨0, 0⟩ 60 {} [] (commands.take 7) {} acceptId es hes
  refine ⟨a, ha, ?_⟩
  rw [(hpinpoints resolve spent 0 ⟨disputeId, 0⟩ hspent ho hunspent).disputed]
  obtain ⟨es', hes', hid, hfun⟩ := Ledger.latestEvent_eq_ok_iff.1 hlatest
  cases hes.symm.trans hes'
  rw [hid, hfun]
  exact ⟨rfl, rfl⟩

end Escrow
