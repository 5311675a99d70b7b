import Escrow.Proofs.Agreement.Consent
import Escrow.Proofs.Agreement.Positions
import Escrow.Proofs.Host.Conservation

/-!
# Dispatch

A host applies the rules of agreements to what spends or makes an output in escrow
and to what has a payload. That covers every way into escrow and into the history
of an agreement: whatever a recorded transaction has to do with agreements
(`Ledger.Involves`), the rules held of it in the ledger that it was submitted to,
it carries one payload, pays the fee and is laid out as its operation has it
(`Host.Dispatched`).

Conditions of other contracts are recorded only if the host has those contracts,
and unlocks never are.
-/

namespace Escrow

/-- A transaction has to do with agreements. -/
def Ledger.Involves (l : Ledger) (tx : Transaction) : Prop :=
  (∃ o ∈ tx.spends, l.InEscrow o) ∨ (∃ out ∈ tx.outputs, out.lock.isEscrow) ∨
    ∃ p, tx.payload = .ok p

/-- A transaction recorded in a run of a host was validated when it was submitted. -/
structure Host.Dispatched (h : Host) (params : Params) (cs : List Command) (r : Record)
    (op : Operation) : Prop where
  validated : ∃ before after, cs = before ++ .submit r.tx :: after ∧
    (h.run before).check r.tx = .ok r.txid ∧
    validate (h.run before).ledger params r.tx = .ok ()
  carries : ∃ p, r.tx.Carries params p ∧ p.operation = op
  fee : ∃ spent, r.tx.spends.map (h.run cs).ledger.prevout? = spent.map some ∧
    Output.total r.tx.outputs + params.txFee.toInt ≤ Output.total spent
  layout : ∃ os outs, (h.run cs).ledger.Layout params op os outs ∧
    (h.run cs).ledger.LaidOut r.tx os outs

/-- What passes leaves the fee. -/
theorem Inspection.total_add_fee_le {i : Inspection} (hspent : Output.NonNegative i.spent)
    (h : i.checkFee = .ok ()) :
    Output.total i.tx.outputs + i.params.txFee.toInt ≤ Output.total i.spent := by
  obtain ⟨hneg, inputs, outputs, needed, hinputs, houtputs, hneeded, hle⟩ := checkFee_eq_ok_iff.1 h
  rw [Output.total?_eq_some_iff hspent] at hinputs
  rw [Transaction.outputTotal?,
    Output.total?_eq_some_iff (findIdx?_negative_eq_none_iff.1 hneg)] at houtputs
  rw [Amount.add?_eq_some_iff] at hneeded
  rw [← hinputs, ← houtputs, ← hneeded]
  exact Int64.le_iff_toInt_le.1 hle

section
variable {validators : List Validator} {params : Params} {l before : Ledger} {tx : Transaction}
  {spent : List Output} {op : Operation}

/-- What was done under the rules has left the fee. -/
theorem Enacted.fee_le (h : Enacted validators params l before tx spent op) (hl : l.Sound) :
    ∃ spent, tx.spends.map l.prevout? = spent.map some ∧
      Output.total tx.outputs + params.txFee.toInt ≤ Output.total spent := by
  refine ⟨spent, ?_, Inspection.total_add_fee_le
    (h.reachable.nonNegative_spent h.admits.spendable) h.fee⟩
  rw [← h.admits.map_prevout?, List.map_inj_left]
  intro o ho
  obtain ⟨out, hout⟩ := h.admits.exists_prevout ho
  rw [hout, h.grows_before.prevout? hl hout]

variable (hl : Reachable validators l)
include hl

/-- What a recorded transaction has to do with agreements is done by an operation. -/
theorem Reachable.operation?_of_involves (hv : KeepsRules validators params) {r : Record}
    (hr : r ∈ l.records) (h : l.Involves r.tx) : ∃ op, r.tx.operation? = some op := by
  rcases h with ⟨o, ho, out, hout, hescrow⟩ | ⟨out, hout, hescrow⟩ | ⟨p, hp⟩
  · exact hl.operation?_of_spends hv hr ho hout hescrow
  · exact hl.operation?_of_isEscrow hv hr hout hescrow
  · exact ⟨p.operation, by rw [Transaction.operation?, hp]; rfl⟩

/-- Conditions are recorded only of contracts that the host has. -/
theorem Reachable.exists_validator {r : Record} (hr : r ∈ l.records) {out : Output}
    (hout : out ∈ r.tx.outputs) {c : Condition} (hc : out.lock.condition? = some c) :
    ∃ v ∈ validators, v.evalCode = c.evalCode := by
  rcases hl.origin hr with ⟨key, value, nonce, -, htx⟩ | ⟨before, spent, -, ha, -⟩
  · rw [htx, Host.funding, List.mem_singleton] at hout
    rw [hout] at hc
    cases hc
  · have hcode := ha.judged c.evalCode (Host.mem_codes_iff.2
      (.inl ⟨out, List.mem_append_right spent hout, Lock.isOf_iff.2 ⟨c, hc, rfl⟩⟩))
    rw [Host.judge] at hcode
    cases hfind : Host.validator? ⟨before, validators⟩ c.evalCode with
    | none => simp [hfind] at hcode
    | some v => exact ⟨v, List.mem_of_find?_eq_some hfind, by simpa using List.find?_some hfind⟩

end

/-- What a run records of an operation was dispatched. -/
theorem Host.dispatched_of_operation? {h : Host} {params : Params} {cs : List Command}
    {r : Record} {op : Operation} (hstart : h.ledger.records = [])
    (hl : Reachable h.validators (h.run cs).ledger) (hv : KeepsRules h.validators params)
    (hr : r ∈ (h.run cs).ledger.records) (hop : r.tx.operation? = some op) :
    h.Dispatched params cs r op := by
  obtain ⟨before, spent, henacted⟩ := hl.enacted hv hr hop
  refine ⟨?_, henacted.carries, henacted.fee_le hl.sound, henacted.laidOut hl.sound hv⟩
  -- A record that was neither there at the start nor a funding was submitted.
  rcases mem_records_run h cs hr with ⟨s, hs, -⟩ | ⟨key, value, nonce, htx⟩ |
    ⟨first, rest, hcs, hcheck⟩
  · rw [hstart] at hs
    cases hs
  · rw [htx, operation?_funding] at hop
    cases hop
  · refine ⟨first, rest, hcs, hcheck, ?_⟩
    obtain ⟨-, spent', ha⟩ := check_eq_ok_iff.1 hcheck
    have hhost : h.run first = ⟨(h.run first).ledger, h.validators⟩ := by
      rw [← (leads_run h first).2]
    rw [hhost] at ha
    exact ha.validate hv (mem_codes_of_operation? hv hop)

/-- In a run of a host that keeps the rules of agreements, all that has to do with
    agreements is dispatched to them. -/
theorem dispatch_run (genesis : Timestamp) (blockTime : UInt64) (params : Params)
    (others : List Validator) (cs : List Command) (r : Record) :
    let h := Host.underRules genesis blockTime params others
    let l := (h.run cs).ledger
    r ∈ l.records →
      (l.Involves r.tx → ∃ op, h.Dispatched params cs r op) ∧
      (∀ agreement conditions, r.tx.operation? ≠ some (.unlock agreement conditions)) ∧
      ∀ out ∈ r.tx.outputs, ∀ c, out.lock.condition? = some c →
        c.evalCode = evalCode ∨ ∃ v ∈ others, v.evalCode = c.evalCode := by
  intro h l hr
  have hl := Host.reachable_underRules_run genesis blockTime params others cs
  have hv := Host.keepsRules_underRules genesis blockTime params others
  refine ⟨fun hinvolves => ?_, fun agreement conditions hop => ?_, fun out hout c hc => ?_⟩
  · obtain ⟨op, hop⟩ := hl.operation?_of_involves hv hr hinvolves
    exact ⟨op, Host.dispatched_of_operation? rfl hl hv hr hop⟩
  · obtain ⟨before, spent, henacted⟩ := hl.enacted hv hr hop
    cases henacted.obeys
  · obtain ⟨v, hmem, hcode⟩ := hl.exists_validator hr hout hc
    rw [Host.underRules, Host.register, List.mem_append, List.mem_singleton] at hmem
    rcases hmem with hmem | rfl
    · exact .inr ⟨v, List.mem_of_mem_filter hmem, hcode⟩
    · exact .inl hcode.symm

/-- So the end of the quarrel was dispatched. -/
theorem Quarrel.resolve_dispatched :
    let h := Host.underRules ⟨0, 0⟩ 60 {} []
    let l := (h.run commands).ledger
    let r : Record := ⟨resolveId, resolve, some 5⟩
    (r ∈ l.records ∧ l.Involves r.tx) ∧ ∃ op, h.Dispatched {} commands r op := by
  intro h l r
  have hr : r ∈ l.records := resolve_mem_records
  have hinvolves : l.Involves r.tx := by
    have hop : r.tx.operation? = some (.resolve acceptId disputeId 10000 "") := by decide +kernel
    obtain ⟨p, hp, -⟩ := Option.map_eq_some_iff.1 hop
    exact .inr (.inr ⟨p, toOption_eq_some_iff.1 hp⟩)
  exact ⟨⟨hr, hinvolves⟩, (dispatch_run ⟨0, 0⟩ 60 {} [] commands r hr).1 hinvolves⟩

end Escrow
