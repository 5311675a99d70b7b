import Escrow.Proofs.Agreement.Latest
import Escrow.Proofs.Agreement.Listing

/-!
# How an agreement is reported

What is reported of an agreement is found in three ways: its status from the walk
along its batons, what has become of its deposit from the transaction that spends
it, and the agreements in its place from all accepts and the offers that they name.
They say the same (`Ledger.Reports`), whenever the walk can be done (`status_run`).

The deposit and the last baton are spent by one transaction, which ends the
agreement. So the walk ends with the transaction that spends the deposit, if one is
confirmed (`Reachable.latest_of_spends`), and an accept in the place of the agreement
is one that spends its deposit.
-/

namespace Escrow

namespace Ledger

variable {l : Ledger} {o : Outpoint}

/-- No confirmed transaction spends an output. -/
def Rests (l : Ledger) (o : Outpoint) : Prop :=
  ∀ r ∈ l.records, r.isConfirmed → o ∉ r.tx.spends

/-- What is reported of an agreement agrees with what has become of its outputs.

    * It is live as long as its deposit rests.
    * It is under the dispute that names it and whose baton rests.
    * It is amended by the one agreement that refers to it, if any does. -/
structure Reports (l : Ledger) (agreement : TxId) (status : AgreementStatus) : Prop where
  live : status.isLive ↔ l.Rests ⟨agreement, 1⟩
  disputed : ∀ d, status = .disputed d ↔
    (∃ r terms, l.Confirms d r (.dispute terms) ∧ terms.agreement = agreement) ∧ l.Rests ⟨d, 0⟩
  amended : ∃ refs, l.references agreement = .ok refs ∧
    (∀ n, refs.agreements = [n] ↔ status = .amended n) ∧
    (refs.agreements = [] ↔ ∀ n, status ≠ .amended n)

/-- What rests is not found to be spent by anything confirmed. -/
theorem Sound.rests_iff (hl : l.Sound) : l.Rests o ↔ l.confirmedSpender? o = none := by
  rw [Option.eq_none_iff_forall_ne_some]
  constructor
  · intro h s hs
    obtain ⟨r, hr, hconf, -, ho⟩ := hl.confirmedSpender?_eq_some_iff.1 hs
    exact h r (mem_of_record? hr).1 hconf (List.mem_of_getElem? ho)
  · intro h r hr hconf ho
    obtain ⟨vin, ho⟩ := List.getElem?_of_mem ho
    exact h ⟨r.txid, vin, r.height⟩ (hl.confirmedSpender?_eq_some_iff.2
      ⟨r, hl.record?_eq_some_iff.2 ⟨hr, rfl⟩, hconf, rfl, ho⟩)

/-- A summary is of a confirmed agreement and its latest event. -/
theorem summary_eq_ok_iff {max : Nat} {agreement : TxId} {s : Summary} :
    l.summary max agreement = .ok s ↔
      (s.agreement.txid = agreement ∧ l.Agrees s.agreement) ∧
        l.latestEvent max agreement = .ok s.latest := by
  simp only [summary, bind_eq_ok_iff, mapError_eq_ok_iff, pure_eq_ok_iff, findAgreement_eq_ok_iff]
  constructor
  · rintro ⟨a, ha, latest, hlatest, rfl⟩
    exact ⟨ha, hlatest⟩
  · rintro ⟨ha, hlatest⟩
    exact ⟨s.agreement, ha, s.latest, hlatest, rfl⟩

end Ledger

namespace AgreementStatus

variable {agreement id : TxId} {latest : LatestEvent}

/-- An agreement is disputed if its latest event is a dispute. -/
theorem ofLatest_eq_disputed_iff :
    ofLatest agreement latest = .disputed id ↔ latest.function = .dispute ∧ latest.txid = id := by
  rcases latest with ⟨txid, function⟩
  cases function
  case accept => by_cases h : txid = agreement <;> simp [ofLatest, h]
  all_goals simp [ofLatest]

/-- An agreement is amended if its latest event is the accept of another one. -/
theorem ofLatest_eq_amended_iff :
    ofLatest agreement latest = .amended id ↔
      latest.function = .accept ∧ latest.txid = id ∧ id ≠ agreement := by
  rcases latest with ⟨txid, function⟩
  cases function
  case accept =>
    by_cases h : txid = agreement
    · simp only [ofLatest, h, if_true, reduceCtorEq, true_and, false_iff, not_and, not_not]
      exact Eq.symm
    · simp only [ofLatest, h, if_false, amended.injEq, true_and]
      exact ⟨fun hid => ⟨hid, hid ▸ h⟩, And.left⟩
  all_goals simp [ofLatest]

/-- An agreement is no longer live once it has been closed, resolved or amended. -/
theorem not_isLive_ofLatest_iff :
    ¬(ofLatest agreement latest).isLive ↔ latest.function = .close ∨ latest.function = .resolve ∨
      (latest.function = .accept ∧ latest.txid ≠ agreement) := by
  rcases latest with ⟨txid, function⟩
  cases function
  case accept => by_cases h : txid = agreement <;> simp [ofLatest, isLive, h]
  all_goals simp [ofLatest, isLive]

end AgreementStatus

section
variable {validators : List Validator} {params : Params} {l : Ledger} {agreement : TxId}
variable (hl : Reachable validators l) (hv : KeepsRules validators params)
include hl hv

/-! ## The deposit and the walk -/

section
variable {max : Nat} {es : List Event} {latest : LatestEvent}
  (hes : l.events max agreement = .ok es) (hlatest : l.latestEvent max agreement = .ok latest)
include hes hlatest

/-- A confirmed transaction that spends the deposit of an agreement is its latest event,
    and has ended it. -/
theorem Reachable.latest_of_spends {r : Record} (hr : r ∈ l.records) (hconf : r.isConfirmed)
    (hmem : ⟨agreement, 1⟩ ∈ r.tx.spends) :
    latest.txid = r.txid ∧ (∃ op, r.tx.operation? = some op ∧ op.function = latest.function) ∧
      ¬(AgreementStatus.ofLatest agreement latest).isLive := by
  obtain ⟨o, _, hA, -, hcourse⟩ := hl.course hv hes
  obtain ⟨out, hout, hescrow⟩ := isEscrow_deposit hl hv hA
  obtain ⟨op, hop⟩ := hl.operation?_of_spends hv hr hmem hout hescrow
  obtain ⟨before, spent, h⟩ := hl.enacted hv hr hop
  have hA' := h.does_before hl.sound hmem hA
  have hne : r.txid ≠ agreement := by
    rw [hl.sound.txid_eq r hr]
    rintro rfl
    obtain ⟨t, ht, -⟩ := hA'
    cases ht.symm.trans h.admits.fresh
  -- It ends the agreement, so it spends a baton and makes none.
  obtain ⟨b, prev, hprev, hprevHands, hbaton, hhands⟩ : ∃ b prev, before.Does b prev ∧
      prev.HandsOn agreement b ∧ ⟨b, 0⟩ ∈ r.tx.spends ∧ ¬op.HandsOn agreement r.tx.txid := by
    cases h.at_admission.treats h.reachable hv hA' with
    | leaves _ hdeposit => exact absurd hmem hdeposit
    | passes _ _ hdeposit => exact absurd hmem hdeposit
    | ends hb hbaton _ hhands =>
      obtain ⟨prev, hprev, hprevHands⟩ := hb
      exact ⟨_, prev, hprev, hprevHands, hbaton, hhands op h.operation?⟩
  have hprev := hprev.grows h.grows_before hl.sound
  obtain ⟨s, hs, hcontinues⟩ := h.continues hl.sound hv hprev hprevHands hbaton
  have hfunction : op.function = .close ∨ op.function = .resolve ∨ op.function = .accept := by
    cases hcontinues with
    | dispute _ hd => exact absurd hd hhands
    | stopDispute => exact absurd rfl hhands
    | resolve => exact .inr (.inl rfl)
    | close => exact .inl rfl
    | amend => exact .inr (.inr rfl)
  have hends : op.function.isTerminal || op.function = .accept := by
    rcases hfunction with h | h | h <;> rw [h] <;> rfl
  -- That baton is met on the walk, and so the transaction is met next.
  obtain ⟨height, hheight⟩ := Option.isSome_iff_exists.1 hconf
  have hmet : b = agreement ∨
      ∃ e ∈ es, e.txid = b ∧ ¬(e.function.isTerminal || e.function = .accept) := by
    refine (hl.isMet hv hes (hs.grows h.grows_before hl.sound) hprevHands).imp_right ?_
    rintro ⟨e, he, rfl⟩
    exact ⟨e, he, rfl, fun hlast =>
      ((hcourse.tells hl hv hA).ended e he hlast).2.1 ⟨prev, hprev, hprevHands⟩⟩
  have hin := (Ledger.walks_of_eventsFrom? (Ledger.events_eq_ok_iff.1 hes).2).mem_of_nextEvent?
    hmet (hl.sound.nextEvent?_of_spends hr hheight hop hbaton)
  have hlast := hcourse.getLast?_eq hin hends
  obtain ⟨es', hes', hid, hfun⟩ := Ledger.latestEvent_eq_ok_iff.1 hlatest
  cases hes.symm.trans hes'
  rw [hlast] at hid hfun
  refine ⟨hid, ⟨op, hop, hfun.symm⟩, AgreementStatus.not_isLive_ofLatest_iff.2 ?_⟩
  rw [hid, hfun]
  exact hfunction.imp_right (Or.imp_right fun h => ⟨h, hne⟩)

/-- An agreement is live as long as its deposit rests. -/
theorem Reachable.isLive_iff_rests :
    (AgreementStatus.ofLatest agreement latest).isLive ↔ l.Rests ⟨agreement, 1⟩ := by
  -- What spends the deposit is the latest event, and ends the agreement; an event that ends it
  -- spends the deposit.
  constructor
  · intro hlive r hr hconf hmem
    exact (hl.latest_of_spends hv hes hlatest hr hconf hmem).2.2 hlive
  · intro hrests
    by_contra hover
    have hfunction := AgreementStatus.not_isLive_ofLatest_iff.1 hover
    obtain ⟨o, _, hA, -, hcourse⟩ := hl.course hv hes
    obtain ⟨es', hes', hid, hfun⟩ := Ledger.latestEvent_eq_ok_iff.1 hlatest
    cases hes.symm.trans hes'
    rcases hlast : es.getLast? with _ | e
    · -- Nothing has happened to the agreement.
      rw [hlast] at hid hfun
      simp [hid, hfun] at hfunction
    · rw [hlast] at hid hfun
      obtain ⟨_, _, _, hoccurs⟩ := hcourse.occurs (List.mem_of_getLast? hlast)
      have hends : e.function.isTerminal || e.function = .accept := by
        rw [show e.function = latest.function from hfun.symm]
        rcases hfunction with h | h | ⟨h, -⟩ <;> rw [h] <;> rfl
      obtain ⟨⟨r, hr, hdeposit⟩, -⟩ := hoccurs.ends hl hv hends
      refine hrests r (Ledger.mem_of_record? hr).1 (Option.isSome_iff_exists.2 ⟨e.height, ?_⟩) hdeposit
      have hconfirmed := hoccurs.confirmed
      rwa [Ledger.heightOf?, hr] at hconfirmed

/-- An agreement is under the dispute that names it and whose baton rests. -/
theorem Reachable.disputed_iff {d : TxId} :
    latest.function = .dispute ∧ latest.txid = d ↔
      (∃ r terms, l.Confirms d r (.dispute terms) ∧ terms.agreement = agreement) ∧
        l.Rests ⟨d, 0⟩ := by
  constructor
  · rintro ⟨hfun, rfl⟩
    obtain ⟨r, op, hr, hop, hhands⟩ := hl.confirms_latest hv hes hlatest
    obtain ⟨terms, rfl⟩ : ∃ terms, op = .dispute terms := by
      cases op <;> simp_all [Operation.function]
    refine ⟨⟨r, terms, hr, hhands (.inr hfun)⟩, fun s hs hconf hmem => ?_⟩
    -- What spends the baton would be a later event.
    obtain ⟨es', hes', hid, hfun'⟩ := Ledger.latestEvent_eq_ok_iff.1 hlatest
    cases hes.symm.trans hes'
    have hnone := (Ledger.walks_of_eventsFrom? (Ledger.events_eq_ok_iff.1 hes).2).nextEvent?_eq_none
      (fun e he => by
        rw [he, hfun] at hfun'
        rw [show e.function = .dispute from hfun'.symm]
        decide)
    obtain ⟨out, hout, hescrow⟩ := hr.holdsBaton.isEscrow hl hv
    obtain ⟨op, hop⟩ := hl.operation?_of_spends hv hs hmem hout hescrow
    obtain ⟨height, hheight⟩ := Option.isSome_iff_exists.1 hconf
    rw [← hid, hl.sound.nextEvent?_of_spends hs hheight hop hmem] at hnone
    cases hnone
  · rintro ⟨⟨r, terms, hr, rfl⟩, hrests⟩
    obtain rfl := hl.eq_latest hv hes hlatest hr rfl (hl.sound.rests_iff.1 hrests)
    obtain ⟨s, op, hs, hop, -⟩ := hl.confirms_latest hv hes hlatest
    cases hs.does.unique hr.does
    exact ⟨hop.symm, rfl⟩

/-- An agreement is amended by those that have accepted an offer to amend it. -/
theorem Reachable.amended_iff {n : TxId} :
    (latest.function = .accept ∧ latest.txid = n ∧ n ≠ agreement) ↔
      ∃ r o s terms, l.Confirms n r (.accept o) ∧ l.Confirms o s (.offer terms) ∧
        terms.amends = some agreement := by
  constructor
  · rintro ⟨hfun, rfl, hne⟩
    obtain ⟨o, _, hA, -, hcourse⟩ := hl.course hv hes
    obtain ⟨es', hes', hid, hfun'⟩ := Ledger.latestEvent_eq_ok_iff.1 hlatest
    cases hes.symm.trans hes'
    rcases hlast : es.getLast? with _ | e
    · rw [hlast] at hid
      exact absurd hid hne
    · rw [hlast] at hid hfun'
      obtain ⟨_, _, _, hoccurs⟩ := hcourse.occurs (List.mem_of_getLast? hlast)
      obtain ⟨op, hop, hopfun, hcontinues⟩ := hoccurs.continues
      rw [show e.function = .accept from hfun'.symm.trans hfun] at hopfun
      cases hcontinues with
      | @amend offer terms _ hoffer _ hamends =>
        obtain ⟨r, op', hr, -, -⟩ := hl.confirms_latest hv hes hlatest
        rw [hid] at hr ⊢
        cases hr.does.unique hop
        obtain ⟨a, ⟨-, s, hs⟩, -, rfl⟩ := hl.exists_agrees hv hr
        cases hs.does.unique hoffer
        exact ⟨r, _, s, _, hr, hs, hamends⟩
      | _ => simp [Operation.function] at hopfun
  · rintro ⟨r, o, s, terms, hr, hs, hamends⟩
    obtain ⟨a, ha, rfl, rfl⟩ := hl.exists_agrees hv hr
    rw [← ha.offer_eq hr.does hs.does] at hamends
    obtain ⟨r', hr', hdeposit⟩ := hl.spends_amended hv ha hamends
    cases hr.record?.symm.trans hr'.record?
    obtain ⟨hmem, hrid⟩ := Ledger.mem_of_record? hr.record?
    obtain ⟨hid, ⟨op, hop, hfun⟩, hover⟩ :=
      hl.latest_of_spends hv hes hlatest hmem hr.isConfirmed hdeposit
    cases hr.operation?.symm.trans hop
    rw [AgreementStatus.not_isLive_ofLatest_iff, ← hfun, hid, hrid] at hover
    refine ⟨hfun.symm, hid.trans hrid, ?_⟩
    simpa [Operation.function] using hover

end

/-! ## References -/

/-- The agreements that refer to one are the accepts of offers to amend it, each
    once. -/
theorem Reachable.references_spec {a : Agreement} (ha : l.Agrees a) :
    ∃ refs, l.references a.txid = .ok refs ∧ refs.agreements.Nodup ∧
      ∀ n, n ∈ refs.agreements ↔ ∃ r o s terms, l.Confirms n r (.accept o) ∧
        l.Confirms o s (.offer terms) ∧ terms.amends = some a.txid := by
  have hfind := Ledger.findAgreement_eq_ok_iff.2 ⟨rfl, ha⟩
  refine ⟨_, by rw [Ledger.references, hfind]; rfl, ?_, fun n => ?_⟩
  · exact (List.filter_sublist.map Prod.fst).nodup (hl.nodup_agreements hv)
  · rw [List.mem_map]
    constructor
    · rintro ⟨⟨id, o⟩, hmem, rfl⟩
      obtain ⟨haccept, hamends⟩ := List.mem_filter.1 hmem
      obtain ⟨r, hr⟩ := (hl.mem_accepts_iff hv).1 haccept
      -- Each accept is asked for the offer that it accepts.
      dsimp only at hamends
      split at hamends
      · next s terms hs =>
        exact ⟨r, o, s, terms, hr, Ledger.findOffer_eq_ok_iff.1 hs, of_decide_eq_true hamends⟩
      · cases hamends
    · rintro ⟨r, o, s, terms, hr, hs, hamends⟩
      refine ⟨(n, o), List.mem_filter.2 ⟨(hl.mem_accepts_iff hv).2 ⟨r, hr⟩, ?_⟩, rfl⟩
      dsimp only
      rw [Ledger.findOffer_eq_ok_iff.2 hs]
      exact decide_eq_true hamends

end

/-- In a run of a host that keeps the rules of agreements, the status of an agreement,
    whenever it can be told, agrees with its deposit, its disputes and the agreements that
    refer to it. -/
theorem status_run (genesis : Timestamp) (blockTime : UInt64) (params : Params)
    (others : List Validator) (cs : List Command) (max : Nat) (agreement : TxId) (s : Summary) :
    let l := ((Host.underRules genesis blockTime params others).run cs).ledger
    l.summary max agreement = .ok s → l.Reports agreement s.status := by
  intro l hs
  have hl := Host.reachable_underRules_run genesis blockTime params others cs
  have hv := Host.keepsRules_underRules genesis blockTime params others
  obtain ⟨⟨rfl, ha⟩, hlatest⟩ := Ledger.summary_eq_ok_iff.1 hs
  obtain ⟨es, hes, -⟩ := Ledger.latestEvent_eq_ok_iff.1 hlatest
  obtain ⟨refs, hrefs, hnodup, hmem⟩ := hl.references_spec hv ha
  have hamended : ∀ n, n ∈ refs.agreements ↔ s.status = .amended n := fun n => by
    rw [hmem, ← hl.amended_iff hv hes hlatest, Summary.status,
      AgreementStatus.ofLatest_eq_amended_iff]
  refine ⟨hl.isLive_iff_rests hv hes hlatest, fun d => ?_, refs, hrefs, fun n => ?_, ?_⟩
  · rw [Summary.status, AgreementStatus.ofLatest_eq_disputed_iff]
    exact hl.disputed_iff hv hes hlatest
  · rw [← List.perm_singleton, List.perm_ext_iff_of_nodup hnodup (List.nodup_singleton n)]
    constructor
    · intro h
      exact (hamended n).1 ((h n).2 (List.mem_singleton_self n))
    · intro hn m
      rw [hamended, hn, AgreementStatus.amended.injEq, List.mem_singleton, eq_comm]
  · rw [List.eq_nil_iff_forall_not_mem]
    exact forall_congr' fun n => (hamended n).not

/-- While the dispute is open, the agreement of the quarrel is reported to be under it. -/
theorem Quarrel.dispute_reported :
    let l := ((Host.underRules ⟨0, 0⟩ 60 {} []).run (commands.take 7)).ledger
    let s : Summary := ⟨⟨acceptId, 3, offerId, terms⟩, ⟨disputeId, .dispute⟩⟩
    l.summary 1000 acceptId = .ok s ∧ l.Reports acceptId (.disputed disputeId) := by
  intro l s
  have hs : l.summary 1000 acceptId = .ok s := by
    rw [← toOption_eq_some_iff, show l = disputed from disputed_run]
    decide +kernel
  exact ⟨hs, status_run ⟨0, 0⟩ 60 {} [] (commands.take 7) 1000 acceptId s hs⟩

end Escrow
