import Escrow.Proofs.Agreement.Recorded
import Escrow.Proofs.Agreement.Events
import Escrow.Proofs.Agreement.Status

/-!
# The whole succession

A history is told on a walk with a bound, which looks one event ahead when the
bound is reached. What there is to tell is given by the records alone: the confirmed
transaction that spends the baton of an agreement is succeeded by the one that
spends output 0 of that, and so on, up to the first that closes, resolves or
accepts, or to an output that nothing confirmed spends (`Ledger.Succession`).

From a baton there is one succession, and it is finite, as heights increase along
it and the last block is above none of them (`Reachable.exists_succession`). The walk
tells exactly this one if it is no longer than the bound, and otherwise says that it
is too long (`succession_run`).
-/

namespace Escrow

namespace Record

/-- A transaction is the last one of its agreement: it closes, resolves or accepts. -/
def Concludes (r : Record) : Prop :=
  ∃ op, r.tx.operation? = some op ∧
    (op.function = .close ∨ op.function = .resolve ∨ op.function = .accept)

/-- An event is that of a confirmed transaction: it has its id and height, and is of
    the kind that the payload says. -/
structure IsToldBy (r : Record) (e : Event) : Prop where
  txid : e.txid = r.txid
  height : r.height = some e.height
  operation? : ∃ op, r.tx.operation? = some op ∧ op.function = e.function

end Record

namespace Ledger

/-- A confirmed transaction spends output 0 of another. -/
structure Succeeds (l : Ledger) (id : TxId) (r : Record) : Prop where
  mem : r ∈ l.records
  isConfirmed : r.isConfirmed
  spends : ⟨id, 0⟩ ∈ r.tx.spends

/-- The confirmed transactions of which each spends output 0 of the one before, and
    the first one that of a given transaction, up to the last one of the agreement if
    it is there. -/
inductive Succession (l : Ledger) : TxId → List Record → Prop
  | rest {id : TxId} : l.Rests ⟨id, 0⟩ → l.Succession id []
  | last {id : TxId} {r : Record} : l.Succeeds id r → r.Concludes → l.Succession id [r]
  | step {id : TxId} {r : Record} {rs : List Record} : l.Succeeds id r → ¬r.Concludes →
    l.Succession r.txid rs → l.Succession id (r :: rs)

variable {l : Ledger} {id : TxId} {r : Record} {e : Event} {es : List Event}

/-- What is succeeded does not rest. -/
theorem Succeeds.not_rests (h : l.Succeeds id r) : ¬l.Rests ⟨id, 0⟩ :=
  fun hrests => hrests r h.mem h.isConfirmed h.spends

/-! ## There is one at most -/

/-- One transaction at most succeeds another. -/
theorem Sound.succeeds_unique (hl : l.Sound) {s : Record} (hr : l.Succeeds id r)
    (hs : l.Succeeds id s) : r = s := by
  obtain ⟨vin, hr'⟩ := List.getElem?_of_mem hr.spends
  obtain ⟨vin', hs'⟩ := List.getElem?_of_mem hs.spends
  exact (hl.spends_unique hr.mem hs.mem hr' hs').1

/-- So there is one succession at most. -/
theorem Sound.succession_unique (hl : l.Sound) {rs rs' : List Record} (h : l.Succession id rs)
    (h' : l.Succession id rs') : rs = rs' := by
  -- At each transaction both successions rest, end or go on.
  induction h generalizing rs' with
  | rest hrests =>
    cases h' with
    | rest => rfl
    | last hs => exact absurd hrests hs.not_rests
    | step hs => exact absurd hrests hs.not_rests
  | last hr hends =>
    cases h' with
    | rest hrests => exact absurd hrests hr.not_rests
    | last hs => rw [hl.succeeds_unique hr hs]
    | step hs hgoes =>
      cases hl.succeeds_unique hr hs
      exact absurd hends hgoes
  | step hr hgoes _ ih =>
    cases h' with
    | rest hrests => exact absurd hrests hr.not_rests
    | last hs hends =>
      cases hl.succeeds_unique hr hs
      exact absurd hends hgoes
    | step hs _ hrest =>
      cases hl.succeeds_unique hr hs
      rw [ih hrest]

/-! ## The walk, step by step -/

/-- What tells nothing, however far it may go. -/
theorem Sound.eventsFrom?_of_rests (hl : l.Sound) (h : l.Rests ⟨id, 0⟩) (n : Nat) :
    l.eventsFrom? n id = some [] := by
  have hnone : ¬(l.confirmedSpender? ⟨id, 0⟩).isSome := by
    rw [hl.rests_iff.1 h]
    exact Bool.false_ne_true
  cases n with
  | zero => rw [eventsFrom?, if_neg hnone]
  | succ n => rw [eventsFrom?, nextEvent?_eq_none hnone]

/-- With no step left, a walk looks whether there is one more event. -/
theorem eventsFrom?_zero (h : l.nextEvent? id = some e) : l.eventsFrom? 0 id = none := by
  rw [eventsFrom?, if_pos]
  by_contra hnone
  cases h.symm.trans (nextEvent?_eq_none hnone)

/-- A walk ends with an event that ends the agreement. -/
theorem eventsFrom?_of_ends (h : l.nextEvent? id = some e)
    (hends : e.function.isTerminal || e.function = .accept) (n : Nat) :
    l.eventsFrom? n id = if [e].length ≤ n then some [e] else none := by
  cases n with
  | zero => rw [eventsFrom?_zero h, if_neg (by simp)]
  | succ n =>
    rw [eventsFrom?, h, if_pos (by simp)]
    exact if_pos hends

/-- A walk goes on from every other event. -/
theorem eventsFrom?_of_continues (h : l.nextEvent? id = some e)
    (hends : ¬(e.function.isTerminal || e.function = .accept))
    (hrest : ∀ n, l.eventsFrom? n e.txid = if es.length ≤ n then some es else none) (n : Nat) :
    l.eventsFrom? n id = if (e :: es).length ≤ n then some (e :: es) else none := by
  cases n with
  | zero => rw [eventsFrom?_zero h, if_neg (by simp)]
  | succ n =>
    rw [eventsFrom?, h]
    dsimp only
    rw [if_neg hends, hrest n]
    simp only [List.length_cons, Nat.add_le_add_iff_right]
    split <;> rfl

end Ledger

/-! ## From a baton -/

/-- An event of an agreement ends it if the transaction closes, resolves or accepts. -/
theorem Ledger.Occurs.ends_iff {l : Ledger} {agreement id : TxId} {disputed : Prop} {height : Nat}
    {e : Event} {r : Record} (h : l.Occurs agreement disputed id height e) (hr : r.IsToldBy e) :
    e.function.isTerminal || e.function = .accept ↔ r.Concludes := by
  obtain ⟨op', -, hfun', hcontinues⟩ := h.continues
  obtain ⟨op, hop, hfun⟩ := hr.operation?
  have hconcludes : r.Concludes ↔
      e.function = .close ∨ e.function = .resolve ∨ e.function = .accept := by
    rw [← hfun]
    constructor
    · rintro ⟨op'', hop'', hends⟩
      cases hop.symm.trans hop''
      exact hends
    · exact fun hends => ⟨op, hop, hends⟩
  rw [hconcludes, ← hfun']
  -- The one other kind that ends agreements takes no baton.
  cases hcontinues <;> simp [Operation.function, FunctionId.isTerminal]

section
variable {validators : List Validator} {params : Params} {l : Ledger} {agreement id : TxId}
  {height : Nat} {r : Record} {rs : List Record}
variable (hl : Reachable validators l) (hv : KeepsRules validators params)
include hl hv

/-- A confirmed transaction that spends a baton is found as the next event of the
    agreement. -/
theorem Reachable.exists_event (hb : l.HoldsBaton agreement id)
    (hheight : l.heightOf? id = some height) (h : l.Succeeds id r) :
    ∃ e disputed, r.IsToldBy e ∧ l.nextEvent? id = some e ∧
      l.Occurs agreement disputed id height e := by
  obtain ⟨height', hheight'⟩ := Option.isSome_iff_exists.1 h.isConfirmed
  obtain ⟨out, hout, hescrow⟩ := hb.isEscrow hl hv
  obtain ⟨op, hop⟩ := hl.operation?_of_spends hv h.mem h.spends hout hescrow
  have hnext := hl.sound.nextEvent?_of_spends h.mem hheight' hop h.spends
  obtain ⟨prev, hdoes, hhands⟩ := hb
  exact ⟨_, _, ⟨rfl, hheight', op, hop, rfl⟩, hnext,
    Ledger.occurs_of_nextEvent? hl hv hdoes hhands hheight hnext⟩

/-- There is a succession from every confirmed baton. -/
theorem Reachable.exists_succession (hb : l.HoldsBaton agreement id)
    (hheight : l.heightOf? id = some height) : ∃ rs, l.Succession id rs := by
  -- Each transaction leaves fewer blocks above it for the next one.
  induction hleft : l.height - height using Nat.strongRecOn generalizing id height with
  | ind left ih =>
    by_cases hrests : l.Rests ⟨id, 0⟩
    · exact ⟨[], .rest hrests⟩
    · simp only [Ledger.Rests, not_forall, not_not] at hrests
      obtain ⟨r, hr, hconf, hspends⟩ := hrests
      have hsucceeds : l.Succeeds id r := ⟨hr, hconf, hspends⟩
      obtain ⟨e, disputed, htold, -, hoccurs⟩ := hl.exists_event hv hb hheight hsucceeds
      by_cases hends : r.Concludes
      · exact ⟨[r], .last hsucceeds hends⟩
      · have hb' := hoccurs.holdsBaton (mt (hoccurs.ends_iff htold).1 hends)
        have hlt := hoccurs.lt_height
        have hle := hl.sound.height_le r hr _ htold.height
        obtain ⟨rs, hrs⟩ := ih (l.height - e.height) (by omega) hb' hoccurs.confirmed rfl
        exact ⟨r :: rs, .step hsucceeds hends (htold.txid ▸ hrs)⟩

/-- A succession is what a walk tells that may go far enough. -/
theorem Ledger.Succession.told (h : l.Succession id rs) (hb : l.HoldsBaton agreement id)
    (hheight : l.heightOf? id = some height) :
    ∃ es, List.Forall₂ Record.IsToldBy rs es ∧
      ∀ n, l.eventsFrom? n id = if es.length ≤ n then some es else none := by
  -- The walk takes the steps of the succession, from one baton to the next.
  induction h generalizing height with
  | rest hrests =>
    refine ⟨[], .nil, fun n => ?_⟩
    rw [hl.sound.eventsFrom?_of_rests hrests]
    exact (if_pos (Nat.zero_le n)).symm
  | last hsucceeds hends =>
    obtain ⟨e, disputed, htold, hnext, hoccurs⟩ := hl.exists_event hv hb hheight hsucceeds
    exact ⟨[e], .cons htold .nil,
      Ledger.eventsFrom?_of_ends hnext ((hoccurs.ends_iff htold).2 hends)⟩
  | step hsucceeds hends _ ih =>
    obtain ⟨e, disputed, htold, hnext, hoccurs⟩ := hl.exists_event hv hb hheight hsucceeds
    have hends' := mt (hoccurs.ends_iff htold).1 hends
    rw [← htold.txid] at ih
    obtain ⟨es, htolds, hwalk⟩ := ih (hoccurs.holdsBaton hends') hoccurs.confirmed
    exact ⟨e :: es, .cons htold htolds, Ledger.eventsFrom?_of_continues hnext hends' hwalk⟩

end

/-- In a run of a host that keeps the rules of agreements, the succession of every
    confirmed agreement is finite, and is what is told of the agreement under any
    bound that it does not exceed. -/
theorem succession_run (genesis : Timestamp) (blockTime : UInt64) (params : Params)
    (others : List Validator) (cs : List Command) (agreement : TxId) (r : Record) (offer : TxId) :
    let l := ((Host.underRules genesis blockTime params others).run cs).ledger
    l.Confirms agreement r (.accept offer) →
      ∃ rs es, l.Succession agreement rs ∧ (∀ rs', l.Succession agreement rs' → rs' = rs) ∧
        List.Forall₂ Record.IsToldBy rs es ∧
        ∀ max, l.events max agreement =
          if rs.length ≤ max then .ok es else .error (.tooLong agreement max) := by
  intro l hr
  have hl := Host.reachable_underRules_run genesis blockTime params others cs
  have hv := Host.keepsRules_underRules genesis blockTime params others
  have hb : l.HoldsBaton agreement agreement := ⟨_, hr.does, rfl⟩
  obtain ⟨height, hheight⟩ := Option.isSome_iff_exists.1 hr.isConfirmed
  have hheight' : l.heightOf? agreement = some height := by
    rw [Ledger.heightOf?, hr.record?]
    exact hheight
  obtain ⟨rs, hrs⟩ := hl.exists_succession hv hb hheight'
  obtain ⟨es, htold, hwalk⟩ := hrs.told hl hv hb hheight'
  refine ⟨rs, es, hrs, fun rs' hrs' => hl.sound.succession_unique hrs' hrs, htold, fun max => ?_⟩
  obtain ⟨a, ha, rfl, -⟩ := hl.exists_agrees hv hr
  rw [Ledger.events, Ledger.findAgreement_eq_ok_iff.2 ⟨rfl, ha⟩, htold.length_eq]
  dsimp only
  rw [hwalk max]
  by_cases hle : es.length ≤ max
  · rw [if_pos hle, if_pos hle]
  · rw [if_neg hle, if_neg hle]

/-- Of the quarrel two events follow one another, so that a bound of one is too
    little. -/
theorem Quarrel.succession_told :
    let l := ((Host.underRules ⟨0, 0⟩ 60 {} []).run commands).ledger
    (∃ r, l.Confirms acceptId r (.accept offerId)) ∧
      (∃ r s, l.Succession acceptId [r, s] ∧ r.IsToldBy ⟨disputeId, .dispute, 4⟩ ∧
        s.IsToldBy ⟨resolveId, .resolve, 5⟩) ∧
      l.events 1 acceptId = .error (.tooLong acceptId 1) := by
  intro l
  have hes : l.events 2 acceptId = .ok [⟨disputeId, .dispute, 4⟩, ⟨resolveId, .resolve, 5⟩] := by
    rw [← toOption_eq_some_iff, show l = ledger from ledger_run]
    decide +kernel
  obtain ⟨⟨a, ha⟩, -⟩ := Ledger.events_eq_ok_iff.1 hes
  have hoffer : a.offerId = offerId := by
    have : (l.findAgreement acceptId).toOption.map Agreement.offerId = some offerId := by
      rw [show l = ledger from ledger_run]
      decide +kernel
    rw [ha] at this
    exact Option.some.inj this
  obtain ⟨hid, ⟨r, hr, -⟩, -⟩ := Ledger.findAgreement_eq_ok_iff.1 ha
  rw [hid, hoffer] at hr
  obtain ⟨rs, es, hrs, -, htold, hevents⟩ :=
    succession_run ⟨0, 0⟩ 60 {} [] commands acceptId r offerId hr
  -- Two events are told, so that two are enough.
  have hle : rs.length ≤ 2 := by
    by_contra hlong
    cases hes.symm.trans ((hevents 2).trans (if_neg hlong))
  cases hes.symm.trans ((hevents 2).trans (if_pos hle))
  have hlong : ¬rs.length ≤ 1 := by
    rw [htold.length_eq]
    decide
  obtain ⟨r', rs, hr', htold', rfl⟩ := List.forall₂_cons_right_iff.1 htold
  obtain ⟨s, rs, hs, htold'', rfl⟩ := List.forall₂_cons_right_iff.1 htold'
  cases List.forall₂_nil_right_iff.1 htold''
  exact ⟨⟨r, hr⟩, ⟨r', s, hrs, hr', hs⟩, (hevents 1).trans (if_neg hlong)⟩

end Escrow
