import Escrow.Proofs.Agreement.Consent
import Escrow.Proofs.Agreement.Walk

/-!
# The grammar of events

What may take the baton of an agreement depends on what holds it
(`Ledger.Continues`). Under a dispute it is a stop-dispute or a resolve; otherwise
it is a dispute, a close or the accept of an amendment. So the events of an
agreement, as they are told from the ledger, are disputes and stop-disputes in
turn, until the agreement ends or the telling does (`events_run`).

A baton can be spent only once its event is confirmed, and the transaction that
spends it is confirmed in a later block, so that the heights of events increase.
-/

namespace Escrow

/-- What the transaction that takes the baton of an agreement may do, which is
    under dispute or not. -/
inductive Ledger.Continues (l : Ledger) (agreement : TxId) (disputed : Prop) : Operation → Prop
  | dispute {d : Dispute} : ¬disputed → d.agreement = agreement →
    l.Continues agreement disputed (.dispute d)
  | stopDispute {dispute : TxId} {memo : String} : disputed →
    l.Continues agreement disputed (.stopDispute agreement dispute memo)
  | resolve {dispute : TxId} {payout : Amount} {memo : String} : disputed →
    l.Continues agreement disputed (.resolve agreement dispute payout memo)
  | close {offer : TxId} {payout : Amount} : ¬disputed →
    l.Continues agreement disputed (.close agreement offer payout)
  | amend {offer : TxId} {o : Offer} : ¬disputed → l.Does offer (.offer o) →
    o.flags.has .amendment → o.amends = some agreement →
    l.Continues agreement disputed (.accept offer)

section
variable {validators : List Validator} {params : Params} {l before : Ledger} {tx : Transaction}
  {spent : List Output} {op prev : Operation} {id agreement : TxId}

/-- Who takes the baton of an agreement takes that of a confirmed event, and
    continues the agreement from there. -/
theorem Enacted.continues (h : Enacted validators params l before tx spent op) (hl : l.Sound)
    (hv : KeepsRules validators params) (hdoes : l.Does id prev)
    (hhands : prev.HandsOn agreement id) (hmem : ⟨id, 0⟩ ∈ tx.spends) :
    ∃ r, before.Confirms id r prev ∧ l.Continues agreement (prev.function = .dispute) op := by
  have hdoes' := h.does_before hl hmem hdoes
  have hb : before.HoldsBaton agreement id := ⟨prev, hdoes', hhands⟩
  have taken : ∀ {os}, (⟨before, params, tx, spent⟩ : Inspection).Takes os → ⟨id, 0⟩ ∈ os :=
    fun htakes => htakes.mem h.admits.map_prevout? hmem (hb.isEscrow h.reachable hv)
  have follows : ∀ {vin a e}, (⟨before, params, tx, spent⟩ : Inspection).Follows vin a e →
      id = e.txid → a.txid = agreement ∧ before.Confirms id e prev ∧ prev.function ≠ .dispute := by
    rintro vin a e hfollows rfl
    obtain ⟨op', he, -, hfun⟩ := hfollows.event
    cases he.does.unique hdoes'
    exact ⟨hfollows.holdsBaton.unique hb, he, hfun⟩
  have disputed : ∀ {r d}, before.Confirms id r (.dispute d) →
      d.agreement = agreement ∧ before.Confirms id r prev ∧ prev.function = .dispute := by
    intro r d hr
    cases hr.does.unique hdoes'
    exact ⟨hr.holdsBaton.unique hb, hr, rfl⟩
  -- Markers are no batons, so what is taken is the baton that each operation names.
  cases h.obeys with
  | offer ho => cases taken ho.takes
  | stopOffer ho =>
    obtain ⟨rfl, -⟩ := Outpoint.mk.inj (List.mem_singleton.1 (taken ho.takes))
    exact absurd hb ho.offer.isMarker.not_holdsBaton
  | @accept offer r o ho =>
    by_cases hamendment : o.flags.has .amendment
    · obtain ⟨a, e, ham⟩ := ho.amends hamendment
      have hid : id = offer ∨ id = e.txid := by
        simpa using taken (ho.takes_of_amends hamendment ham)
      rcases hid with rfl | hid
      · exact absurd hb ho.offer.isMarker.not_holdsBaton
      · obtain ⟨rfl, he, hfun⟩ := follows ham.baton hid
        exact ⟨e, he, .amend hfun (ho.offer.does.grows h.grows_before hl) hamendment ham.amends⟩
    · have hid := taken (ho.takes_of_not_amendment hamendment)
      obtain ⟨rfl, -⟩ := Outpoint.mk.inj (List.mem_singleton.1 hid)
      exact absurd hb ho.offer.isMarker.not_holdsBaton
  | @close offer payout a r o e ho =>
    have hid : id = e.txid ∨ id = offer := by simpa using taken ho.takes
    rcases hid with hid | rfl
    · obtain ⟨rfl, he, hfun⟩ := follows ho.baton hid
      exact ⟨e, he, .close hfun⟩
    · exact absurd hb ho.offer.isMarker.not_holdsBaton
  | @dispute d a e ho =>
    obtain ⟨hid, -⟩ := Outpoint.mk.inj (List.mem_singleton.1 (taken ho.takes))
    obtain ⟨rfl, he, hfun⟩ := follows ho.baton hid
    exact ⟨e, he, .dispute hfun ho.agreement⟩
  | stopDispute ho =>
    obtain ⟨rfl, -⟩ := Outpoint.mk.inj (List.mem_singleton.1 (taken ho.takes))
    obtain ⟨r, hr⟩ := ho.dispute
    obtain ⟨hagreement, hr, hfun⟩ := disputed hr
    cases ho.agreement.symm.trans hagreement
    exact ⟨r, hr, .stopDispute hfun⟩
  | @resolve dispute payout memo a d p ho =>
    obtain rfl : id = dispute := by simpa using taken ho.takes
    obtain ⟨r, hr⟩ := ho.dispute
    obtain ⟨hagreement, hr, hfun⟩ := disputed hr
    cases ho.agreement.symm.trans hagreement
    exact ⟨r, hr, .resolve hfun⟩

/-- A transaction is confirmed above the ledger that it was admitted to. -/
theorem Enacted.height_lt (h : Enacted validators params l before tx spent op) (hl : l.Sound)
    {height : Nat} (hheight : l.heightOf? tx.txid = some height) : before.height < height := by
  rw [h.height_eq hl hheight]
  exact Nat.lt_succ_self before.height

end

/-! ## One event after another -/

/-- An event takes the baton of another, of some height, and continues the
    agreement. -/
structure Ledger.Occurs (l : Ledger) (agreement : TxId) (disputed : Prop) (id : TxId)
    (height : Nat) (e : Event) : Prop where
  baton : l.HoldsBaton agreement id
  spends : ∃ r, l.record? e.txid = some r ∧ ⟨id, 0⟩ ∈ r.tx.spends
  confirmed : l.heightOf? e.txid = some e.height
  lt_height : height < e.height
  continues : ∃ op, l.Does e.txid op ∧ op.function = e.function ∧
    l.Continues agreement disputed op

/-- An event that does not end the agreement makes its next baton. -/
theorem Ledger.Occurs.holdsBaton {l : Ledger} {agreement id : TxId} {disputed : Prop} {height : Nat}
    {e : Event} (h : l.Occurs agreement disputed id height e)
    (hends : ¬(e.function.isTerminal || e.function = .accept)) : l.HoldsBaton agreement e.txid := by
  obtain ⟨op, hop, hfun, hcontinues⟩ := h.continues
  refine ⟨op, hop, ?_⟩
  cases hcontinues with
  | dispute _ hd => exact hd
  | stopDispute => rfl
  | _ =>
    rw [← hfun] at hends
    exact absurd rfl hends

/-- The events of an agreement from a baton on, until it ends or the list does. -/
inductive Ledger.Course (l : Ledger) (agreement : TxId) : (disputed : Prop) → TxId → Nat →
    List Event → Prop
  | stop {disputed : Prop} {id : TxId} {height : Nat} : l.Course agreement disputed id height []
  | last {disputed : Prop} {id : TxId} {height : Nat} {e : Event} :
    l.Occurs agreement disputed id height e → (e.function.isTerminal || e.function = .accept) →
    l.Course agreement disputed id height [e]
  | step {disputed : Prop} {id : TxId} {height : Nat} {e : Event} {es : List Event} :
    l.Occurs agreement disputed id height e → ¬(e.function.isTerminal || e.function = .accept) →
    l.Course agreement (e.function = .dispute) e.txid e.height es →
    l.Course agreement disputed id height (e :: es)

namespace Ledger

variable {l : Ledger} {id agreement : TxId} {e : Event}

/-- The next event is recorded at its height, and spends output 0 of the one before. -/
theorem nextEvent?_eq_some (hl : l.Sound) (h : l.nextEvent? id = some e) :
    (∃ r, l.record? e.txid = some r ∧ ⟨id, 0⟩ ∈ r.tx.spends) ∧
      l.heightOf? e.txid = some e.height ∧ ∃ op, l.Does e.txid op ∧ op.function = e.function := by
  obtain ⟨vin, r, op, hspent, hr, hheight, hop, hfun⟩ := nextEvent?_eq_some_iff.1 h
  obtain ⟨r', hr', hmem⟩ := hl.spentBy?_eq_some_iff.1 hspent
  refine ⟨⟨r', hr', List.mem_of_getElem? hmem⟩, ?_, op, ⟨r, hr, hop⟩, hfun⟩
  rw [heightOf?, hr]
  exact hheight

end Ledger

section
variable {validators : List Validator} {params : Params} {l : Ledger} {agreement id : TxId}
variable (hl : Reachable validators l) (hv : KeepsRules validators params)
include hl hv

/-- The transaction found to take a baton continues the agreement. -/
theorem Ledger.occurs_of_nextEvent? {prev : Operation} {height : Nat} {e : Event}
    (hdoes : l.Does id prev) (hhands : prev.HandsOn agreement id)
    (hheight : l.heightOf? id = some height) (h : l.nextEvent? id = some e) :
    l.Occurs agreement (prev.function = .dispute) id height e := by
  obtain ⟨⟨r, hr, hmem⟩, hconf, op, hop, hfun⟩ := Ledger.nextEvent?_eq_some hl.sound h
  obtain ⟨before, tx, spent, htx, henacted⟩ := hl.enacted_of_does hv hop
  obtain ⟨r', hr', rfl⟩ := henacted.record? hl.sound
  cases hr.symm.trans (htx ▸ hr')
  obtain ⟨s, hs, hcontinues⟩ := henacted.continues hl.sound hv hdoes hhands hmem
  refine ⟨⟨prev, hdoes, hhands⟩, ⟨r, hr, hmem⟩, hconf, ?_, op, hop, hfun, hcontinues⟩
  -- The baton's event has its height already when the next one is admitted.
  have hs' := henacted.grows_before.record?_of_isConfirmed hl.sound hs.record? hs.isConfirmed
  rw [Ledger.heightOf?, hs'] at hheight
  obtain ⟨hmem', -⟩ := Ledger.mem_of_record? hs.record?
  exact Nat.lt_of_le_of_lt (henacted.reachable.sound.height_le s hmem' height hheight)
    (henacted.height_lt hl.sound (htx ▸ hconf))

/-- What is met on the way from a baton are events of the agreement. -/
theorem Ledger.course_of_walks {prev : Operation} {height : Nat} {es : List Event}
    (hdoes : l.Does id prev) (hhands : prev.HandsOn agreement id)
    (hheight : l.heightOf? id = some height) (h : l.Walks id es) :
    l.Course agreement (prev.function = .dispute) id height es := by
  -- The walk goes on from the baton that the event found has made.
  induction h generalizing prev height with
  | stop => exact .stop
  | last hnext hends =>
    exact .last (Ledger.occurs_of_nextEvent? hl hv hdoes hhands hheight hnext) hends
  | @step id e es hnext hends _ ih =>
    have hoccurs := Ledger.occurs_of_nextEvent? hl hv hdoes hhands hheight hnext
    obtain ⟨op, hop, hfun, -⟩ := hoccurs.continues
    refine .step hoccurs hends ?_
    rw [← hfun]
    exact ih hop ((hoccurs.holdsBaton hends).handsOn hop) hoccurs.confirmed

end

/-! ## The language of events -/

/-- How a history may end: it goes on, it is under dispute, or the agreement is
    resolved, closed or amended. -/
def FunctionId.endings : List (List FunctionId) :=
  [[], [.dispute], [.dispute, .resolve], [.close], [.accept]]

/-- Disputes and stop-disputes in turn, and an ending. -/
def FunctionId.IsHistory (fs : List FunctionId) : Prop :=
  ∃ n, ∃ ending ∈ endings, fs = (List.replicate n [dispute, stopDispute]).flatten ++ ending

/-- What is told of an agreement, confirmed at a height, by a list of events.

    * Their kinds are disputes and stop-disputes in turn, and an ending.
    * Each spends output 0 of the one before, and the first one that of the
      agreement.
    * Each is confirmed above the one before, and the first one above the
      agreement.
    * Each names the agreement, if only in the offer that it accepts, which is an
      amendment of the agreement.
    * One that ends the agreement is the last one, all batons of the agreement are
      spent, and it has not made another. -/
structure Ledger.Tells (l : Ledger) (agreement : TxId) (height : Nat) (es : List Event) : Prop where
  history : FunctionId.IsHistory (es.map Event.function)
  chain : (agreement :: es.map Event.txid).IsChain fun id id' =>
    ∃ r, l.record? id' = some r ∧ ⟨id, 0⟩ ∈ r.tx.spends
  heights : (height :: es.map Event.height).Pairwise (· < ·)
  confirmed : ∀ e ∈ es, l.heightOf? e.txid = some e.height
  names : ∀ e ∈ es, ∃ op, l.Does e.txid op ∧ op.function = e.function ∧
    (op.agreement? = some agreement ∨ ∃ offer o, op = .accept offer ∧ l.Does offer (.offer o) ∧
      o.flags.has .amendment ∧ o.amends = some agreement)
  ended : ∀ e ∈ es, e.function.isTerminal || e.function = .accept → es.getLast? = some e ∧
    ¬l.HoldsBaton agreement e.txid ∧ ∀ b, l.HoldsBaton agreement b → ⟨b, 0⟩ ∈ l.spends

namespace Ledger.Course

variable {l : Ledger} {agreement id : TxId} {disputed : Prop} {height : Nat} {es : List Event}

/-- A course is a history, or one that has begun with a dispute. -/
theorem isHistory (h : l.Course agreement disputed id height es) :
    (¬disputed → FunctionId.IsHistory (es.map Event.function)) ∧
      (disputed → FunctionId.IsHistory (.dispute :: es.map Event.function)) := by
  -- Under a dispute the events are read as if it stood before them.
  induction h with
  | stop =>
    exact ⟨fun _ => ⟨0, [], by simp [FunctionId.endings], rfl⟩,
      fun _ => ⟨0, [.dispute], by simp [FunctionId.endings], rfl⟩⟩
  | @last disputed id height e hoccurs hlast =>
    obtain ⟨op, -, hfun, hcontinues⟩ := hoccurs.continues
    rw [← hfun] at hlast
    rw [List.map_singleton, ← hfun]
    cases hcontinues with
    | dispute => cases hlast
    | stopDispute => cases hlast
    | resolve hd =>
      exact ⟨fun h => absurd hd h,
        fun _ => ⟨0, [.dispute, .resolve], by simp [FunctionId.endings], rfl⟩⟩
    | close hd =>
      exact ⟨fun _ => ⟨0, [.close], by simp [FunctionId.endings], rfl⟩, fun h => absurd h hd⟩
    | amend hd =>
      exact ⟨fun _ => ⟨0, [.accept], by simp [FunctionId.endings], rfl⟩, fun h => absurd h hd⟩
  | @step disputed id height e es hoccurs hlast _ ih =>
    obtain ⟨op, -, hfun, hcontinues⟩ := hoccurs.continues
    rw [← hfun] at hlast ih
    rw [List.map_cons, ← hfun]
    cases hcontinues with
    | dispute hd => exact ⟨fun _ => ih.2 rfl, fun h => absurd h hd⟩
    | stopDispute hd =>
      refine ⟨fun h => absurd hd h, fun _ => ?_⟩
      obtain ⟨n, ending, hending, heq⟩ := ih.1 nofun
      exact ⟨n + 1, ending, hending, by rw [heq]; rfl⟩
    | _ => exact absurd rfl hlast

/-- Each event of a course spends what the one before has made. -/
theorem chain (h : l.Course agreement disputed id height es) :
    (id :: es.map Event.txid).IsChain fun id id' =>
      ∃ r, l.record? id' = some r ∧ ⟨id, 0⟩ ∈ r.tx.spends := by
  induction h with
  | stop => exact .singleton _
  | last hoccurs => exact .cons_cons hoccurs.spends (.singleton _)
  | step hoccurs _ _ ih => exact .cons_cons hoccurs.spends ih

/-- Each event of a course is at a greater height than the one before. -/
theorem heights (h : l.Course agreement disputed id height es) :
    (height :: es.map Event.height).Pairwise (· < ·) := by
  rw [← List.isChain_iff_pairwise]
  induction h with
  | stop => exact .singleton _
  | last hoccurs => exact .cons_cons hoccurs.lt_height (.singleton _)
  | step hoccurs _ _ ih => exact .cons_cons hoccurs.lt_height ih

/-- Each event of a course takes a baton and continues the agreement. -/
theorem occurs (h : l.Course agreement disputed id height es) {e : Event} (he : e ∈ es) :
    ∃ disputed id height, l.Occurs agreement disputed id height e := by
  induction h with
  | stop => cases he
  | last hoccurs =>
    cases List.mem_singleton.1 he
    exact ⟨_, _, _, hoccurs⟩
  | step hoccurs _ _ ih =>
    rcases List.mem_cons.1 he with rfl | he
    · exact ⟨_, _, _, hoccurs⟩
    · exact ih he

/-- What ends an agreement is the last event of the course. -/
theorem getLast?_eq (h : l.Course agreement disputed id height es) {e : Event} (he : e ∈ es)
    (hlast : e.function.isTerminal || e.function = .accept) : es.getLast? = some e := by
  induction h with
  | stop => cases he
  | last =>
    cases List.mem_singleton.1 he
    rfl
  | step _ hstep _ ih =>
    rcases List.mem_cons.1 he with rfl | he
    · exact absurd hlast hstep
    · rw [List.getLast?_cons, ih he]
      rfl

end Ledger.Course

section
variable {validators : List Validator} {params : Params} {l : Ledger} {agreement id : TxId}
variable (hl : Reachable validators l) (hv : KeepsRules validators params)
include hl hv

/-- An event that ends an agreement spends its deposit and makes no baton. -/
theorem Ledger.Occurs.ends {disputed : Prop} {height : Nat} {e : Event}
    (h : l.Occurs agreement disputed id height e)
    (hlast : e.function.isTerminal || e.function = .accept) :
    (∃ r, l.record? e.txid = some r ∧ ⟨agreement, 1⟩ ∈ r.tx.spends) ∧
      ¬l.HoldsBaton agreement e.txid := by
  obtain ⟨op, hop, hfun, hcontinues⟩ := h.continues
  obtain ⟨r, hr, hmem⟩ := h.spends
  obtain ⟨prev, hprev, hhands⟩ := h.baton
  obtain ⟨before, tx, spent, htx, henacted⟩ := hl.enacted_of_does hv hop
  obtain ⟨r', hr', rfl⟩ := henacted.record? hl.sound
  cases hr.symm.trans (htx ▸ hr')
  have hb : before.HoldsBaton agreement id :=
    ⟨prev, henacted.does_before hl.sound hmem hprev, hhands⟩
  obtain ⟨o, hA⟩ := hb.exists_accept henacted.reachable hv
  cases henacted.at_admission.treats henacted.reachable hv hA with
  | leaves hbaton => exact absurd hmem (hbaton id hb)
  | passes _ _ _ hop' hhands' =>
    cases henacted.operation?.symm.trans hop'
    -- Of those that make a baton only an amendment is an end, and that of its own.
    rw [← hfun] at hlast
    cases hcontinues with
    | dispute => cases hlast
    | stopDispute => cases hlast
    | amend =>
      -- The agreement was recorded before its amendment.
      obtain ⟨s, hs, -⟩ := hA
      cases hs.symm.trans (hhands' ▸ henacted.admits.fresh)
    | _ => exact hhands'.elim
  | ends _ _ hdeposit hhands' =>
    refine ⟨⟨r, hr, hdeposit⟩, fun hb' => ?_⟩
    exact hhands' op henacted.operation? (htx ▸ hb'.handsOn hop)

/-- A course from the accept on is told rightly. -/
theorem Ledger.Course.tells {o : TxId} {height : Nat} {es : List Event}
    (hA : l.Does agreement (.accept o)) (h : l.Course agreement False agreement height es) :
    l.Tells agreement height es := by
  refine ⟨h.isHistory.1 nofun, h.chain, h.heights, fun e he => ?_, fun e he => ?_,
    fun e he hlast => ?_⟩
  · obtain ⟨_, _, _, hoccurs⟩ := h.occurs he
    exact hoccurs.confirmed
  · obtain ⟨_, _, _, hoccurs⟩ := h.occurs he
    obtain ⟨op, hop, hfun, hcontinues⟩ := hoccurs.continues
    refine ⟨op, hop, hfun, ?_⟩
    -- Only an accept names no agreement itself; its offer names it.
    cases hcontinues with
    | amend _ hoffer hamendment hamends => exact .inr ⟨_, _, rfl, hoffer, hamendment, hamends⟩
    | dispute _ hd => exact .inl (congrArg some hd)
    | _ => exact .inl rfl
  · obtain ⟨_, _, _, hoccurs⟩ := h.occurs he
    obtain ⟨⟨r, hr, hdeposit⟩, hbaton⟩ := hoccurs.ends hl hv hlast
    exact ⟨h.getLast?_eq he hlast, hbaton, (hl.balanced hv hA).ended
      (Ledger.mem_spends.2 ⟨r, (Ledger.mem_of_record? hr).1, hdeposit⟩)⟩

/-- The events told of an agreement are its course. -/
theorem Reachable.course {max : Nat} {es : List Event} (h : l.events max agreement = .ok es) :
    ∃ o height, l.Does agreement (.accept o) ∧ l.heightOf? agreement = some height ∧
      l.Course agreement False agreement height es := by
  obtain ⟨⟨a, ha⟩, hes⟩ := Ledger.events_eq_ok_iff.1 h
  obtain ⟨rfl, ⟨r, hr, -⟩, -⟩ := Ledger.findAgreement_eq_ok_iff.1 ha
  obtain ⟨height, hheight⟩ := Option.isSome_iff_exists.1 hr.isConfirmed
  have hheight' : l.heightOf? a.txid = some height := by
    rw [Ledger.heightOf?, hr.record?]
    exact hheight
  have hcourse := Ledger.course_of_walks hl hv hr.does rfl hheight' (Ledger.walks_of_eventsFrom? hes)
  simp only [Operation.function, reduceCtorEq] at hcourse
  exact ⟨_, height, hr.does, hheight', hcourse⟩

theorem Reachable.tells {max : Nat} {es : List Event} (h : l.events max agreement = .ok es) :
    ∃ height, l.heightOf? agreement = some height ∧ l.Tells agreement height es := by
  obtain ⟨o, height, hA, hheight, hcourse⟩ := hl.course hv h
  exact ⟨height, hheight, hcourse.tells hl hv hA⟩

end

/-- The events of an agreement are told rightly, whenever they are told, of a host
    that keeps the rules of agreements. -/
theorem events_run (genesis : Timestamp) (blockTime : UInt64) (params : Params)
    (others : List Validator) (cs : List Command) (max : Nat) (agreement : TxId)
    (es : List Event)
    (h : ((Host.underRules genesis blockTime params others).run cs).ledger.events max agreement =
      .ok es) :
    let l := ((Host.underRules genesis blockTime params others).run cs).ledger
    ∃ height, l.heightOf? agreement = some height ∧ l.Tells agreement height es :=
  (Host.reachable_underRules_run ..).tells (Host.keepsRules_underRules ..) h

/-- Of the quarrel the dispute and its end are told. -/
theorem Quarrel.events_told :
    let l := ((Host.underRules ⟨0, 0⟩ 60 {} []).run commands).ledger
    let es : List Event := [⟨disputeId, .dispute, 4⟩, ⟨resolveId, .resolve, 5⟩]
    l.events 1000 acceptId = .ok es ∧
      ∃ height, l.heightOf? acceptId = some height ∧ l.Tells acceptId height es := by
  intro l es
  have h : l.events 1000 acceptId = .ok es := by
    rw [← toOption_eq_some_iff, show l = ledger from ledger_run]
    decide +kernel
  exact ⟨h, events_run ⟨0, 0⟩ 60 {} [] commands 1000 acceptId es h⟩

end Escrow
