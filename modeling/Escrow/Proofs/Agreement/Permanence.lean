import Escrow.Agreement.Report
import Escrow.Proofs.Agreement.Enforcement
import Escrow.Proofs.Agreement.Walk

/-!
# Permanence

What a ledger tells is told by every later ledger of the same run
(`Ledger.Remembers`): a transaction is not taken back, moved to another block or
replaced by another that spends the same output; a block stays notarized; events
are only added to those told before. So an agreement that has ended is reported in
the same way for ever.

None of this is owed to the rules of agreements. It is enough that a ledger is
sound, so that what is found for an id or an outpoint is the only one, and that it
grows.
-/

namespace Escrow

/-- A later ledger tells all that an earlier one told.

    * Records stay in their places, with their transactions, and are found.
    * A height once set, a spender once known and a block once notarized stay so.
    * The events of an agreement come first among those told later, and an agreement
      that is over is reported the same. -/
structure Ledger.Remembers (m l : Ledger) : Prop where
  records : ∀ (k : Nat) (r : Record), l.records[k]? = some r →
    ∃ s, m.records[k]? = some s ∧ s.txid = r.txid ∧ s.tx = r.tx
  record? : ∀ (id : TxId) (r : Record), l.record? id = some r →
    ∃ s, m.record? id = some s ∧ s.tx = r.tx
  height : ∀ (id : TxId) (height : Nat), l.heightOf? id = some height →
    m.heightOf? id = some height
  spender : ∀ (o : Outpoint) (s : Spend), l.spender? o = some s →
    ∃ s', m.spender? o = some s' ∧ s'.txid = s.txid ∧ s'.vin = s.vin
  notarized : ∀ height, l.isNotarized height → m.isNotarized height
  txNotarized : ∀ id, l.isTxNotarized id → m.isTxNotarized id
  tip : l.height ≤ m.height
  events : ∀ (max : Nat) (agreement : TxId) (es es' : List Event),
    l.events max agreement = .ok es → m.events max agreement = .ok es' → es <+: es'
  status : ∀ (max : Nat) (agreement : TxId) (s : Summary),
    l.summary max agreement = .ok s → ¬s.status.isLive → m.summary max agreement = .ok s

namespace Ledger.Grows

variable {l m : Ledger}

/-- What is in a block stays at its height. -/
theorem heightOf? (h : l.Grows m) (hm : m.Sound) {id : TxId} {height : Nat}
    (hheight : l.heightOf? id = some height) : m.heightOf? id = some height := by
  obtain ⟨r, hr, hrheight⟩ := Option.bind_eq_some_iff.1 hheight
  obtain ⟨s, hs, hkeeps⟩ := h.record? hm hr
  exact Option.bind_eq_some_iff.2 ⟨s, hs, hkeeps.height_eq height hrheight⟩

theorem isNotarized (h : l.Grows m) {height : Nat} (hheight : l.isNotarized height) :
    m.isNotarized height := by
  rw [Ledger.isNotarized, Bool.and_eq_true, decide_eq_true_iff, decide_eq_true_iff] at hheight ⊢
  exact ⟨hheight.1, Nat.le_trans hheight.2 h.notarized_le⟩

variable (h : l.Grows m) (hm : m.Sound)
include h hm

theorem isTxNotarized {id : TxId} (hid : l.isTxNotarized id) : m.isTxNotarized id := by
  rw [Ledger.isTxNotarized, Option.any_eq_true] at hid ⊢
  obtain ⟨height, hheight, hnotarized⟩ := hid
  exact ⟨height, h.heightOf? hm hheight, h.isNotarized hnotarized⟩

/-- An agreement that is over stays as it is reported. -/
theorem summary {max : Nat} {agreement : TxId} {s : Summary}
    (hs : l.summary max agreement = .ok s) (hover : ¬s.status.isLive) :
    m.summary max agreement = .ok s := by
  simp only [Ledger.summary, bind_eq_ok_iff, mapError_eq_ok_iff, pure_eq_ok_iff] at hs ⊢
  obtain ⟨a, ha, latest, hlatest, rfl⟩ := hs
  obtain ⟨rfl, hagrees⟩ := findAgreement_eq_ok_iff.1 ha
  have ha' := findAgreement_eq_ok_iff.2 ⟨rfl, hagrees.grows h hm⟩
  refine ⟨a, ha', latest, ?_, rfl⟩
  obtain ⟨es, hes, hid, hfun⟩ := latestEvent_eq_ok_iff.1 hlatest
  obtain ⟨-, hfrom⟩ := events_eq_ok_iff.1 hes
  -- An agreement that is over has a last event, behind which no walk goes.
  rcases hlast : es.getLast? with _ | e
  · -- An agreement that nothing has happened to is active.
    rw [hlast] at hid hfun
    simp [Summary.status, AgreementStatus.ofLatest, hid, hfun, AgreementStatus.isLive] at hover
  · have hends : e.function.isTerminal || e.function = .accept := by
      rw [hlast] at hid hfun
      rcases hf : e.function
      all_goals
        simp [Summary.status, AgreementStatus.ofLatest, hfun, hf, AgreementStatus.isLive] at hover
      all_goals rfl
    exact latestEvent_eq_ok_iff.2
      ⟨es, events_eq_ok_iff.2 ⟨⟨a, ha'⟩, h.eventsFrom?_of_ended hm hfrom hlast hends⟩, hid, hfun⟩

/-- A ledger that has grown remembers what it was. -/
theorem remembers : m.Remembers l where
  records k r hr := by
    obtain ⟨s, hs, hkeeps⟩ := h.keeps k r hr
    exact ⟨s, hs, hkeeps.txid_eq, hkeeps.tx_eq⟩
  record? id r hr := by
    obtain ⟨s, hs, hkeeps⟩ := h.record? hm hr
    exact ⟨s, hs, hkeeps.tx_eq⟩
  height _ _ := h.heightOf? hm
  spender o s hs := by
    obtain ⟨⟨id, vin⟩, hspent, rfl⟩ := Option.map_eq_some_iff.1 hs
    exact ⟨_, Option.map_eq_some_iff.2 ⟨_, h.spentBy? hm hspent, rfl⟩, rfl, rfl⟩
  notarized _ := h.isNotarized
  txNotarized _ := h.isTxNotarized hm
  tip := h.height_le
  events max agreement es es' hes hes' :=
    h.isPrefix_of_walks hm (walks_of_eventsFrom? (events_eq_ok_iff.1 hes).2)
      (walks_of_eventsFrom? (events_eq_ok_iff.1 hes').2)
  status _ _ _ := h.summary hm

end Ledger.Grows

/-- A run of a host that keeps the rules of agreements remembers what its ledger was
    at every earlier point of it. -/
theorem permanence_run (genesis : Timestamp) (blockTime : UInt64) (params : Params)
    (others : List Validator) (cs cs' : List Command) :
    let h := Host.underRules genesis blockTime params others
    (h.run (cs ++ cs')).ledger.Remembers (h.run cs).ledger := by
  intro h
  have hsound := (Host.reachable_underRules_run genesis blockTime params others (cs ++ cs')).sound
  refine Ledger.Grows.remembers ?_ hsound
  rw [Host.run_append]
  exact grows_of_leads (Host.leads_run (h.run cs) cs').1

end Escrow
