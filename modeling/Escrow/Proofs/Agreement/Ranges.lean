import Escrow.Proofs.Agreement.Draft.Funding
import Escrow.Proofs.Agreement.Enforcement

/-!
# What is counted and pointed at

The rules add up what the inputs of one key spend, look at what an input spends,
count the outputs before the payload, and take what a claimant is paid from a
deposit. None of this is guarded on the spot. It is in range
(`Inspection.InRange`) because of what was checked before: there is a payload, so
there is a last output; every input spends an output that exists; and all that is
spent together has a sum, of which the outputs of one key are a part, as no
recorded output is negative.
-/

namespace Escrow

/-- What the rules count with and point at is there. -/
structure Inspection.InRange (i : Inspection) : Prop where
  outputs_ne_nil : i.tx.outputs ≠ []
  length_spent : i.spent.length = i.tx.inputs.length
  exists_total : ∀ k, ∃ total, Amount.total? ((i.spentOf k).map Output.value) = some total ∧
    total.toInt = Output.total (i.spentOf k)

/-- Who carries a payload has an output. -/
theorem Transaction.Carries.outputs_ne_nil {params : Params} {tx : Transaction} {p : Payload}
    (h : tx.Carries params p) : tx.outputs ≠ [] := by
  obtain ⟨data, hdata, -⟩ := h.data
  rintro hnil
  rw [payload?, hnil] at hdata
  cases hdata

section
variable {validators : List Validator} {l : Ledger} {q : Params} {tx : Transaction} {p : Payload}
  {spent : List Output}

/-- Nothing that is spent is negative. -/
theorem Reachable.nonNegative_prevouts (hl : Reachable validators l)
    (hspent : tx.spends.map l.prevout? = spent.map some) : Output.NonNegative spent := by
  intro out hout
  have hmem : some out ∈ tx.spends.map l.prevout? := hspent ▸ List.mem_map_of_mem hout
  obtain ⟨o, -, ho⟩ := List.mem_map.1 hmem
  exact hl.nonNegative_prevout ho

/-- Once the fee is covered, everything is in range. -/
theorem Reachable.inRange (hl : Reachable validators l) (hp : tx.Carries q p)
    (hspent : tx.spends.map l.prevout? = spent.map some)
    (hfee : (⟨l, q, tx, spent⟩ : Inspection).checkFee = .ok ()) :
    (⟨l, q, tx, spent⟩ : Inspection).InRange where
  outputs_ne_nil := hp.outputs_ne_nil
  length_spent := by
    have hlength := congrArg List.length hspent
    rw [List.length_map, List.length_map, Transaction.spends, List.length_map] at hlength
    exact hlength.symm
  exists_total k := by
    have hnonneg := hl.nonNegative_prevouts hspent
    obtain ⟨-, inputs, -, -, hinputs, -⟩ := Inspection.checkFee_eq_ok_iff.1 hfee
    refine Output.exists_total?_filter hnonneg ?_ _
    rw [← (Output.total?_eq_some_iff hnonneg).1 hinputs]
    exact Amount.toInt_le_greatest inputs

end

/-- What is left of a deposit after a payout that it covers is a part of it. -/
theorem Amount.sub?_of_le {deposit payout : Amount} (hpos : ¬payout < 0) (hle : ¬deposit < payout) :
    deposit.sub? payout = some (deposit - payout) ∧ 0 ≤ deposit - payout ∧
      deposit - payout ≤ deposit := by
  rw [Int64.not_lt] at hpos hle
  have hsub := toInt_sub_of_le hpos hle
  rw [Int64.le_iff_toInt_le] at hpos hle
  refine ⟨sub?_eq_some_iff.2 hsub, ?_, ?_⟩ <;> rw [Int64.le_iff_toInt_le, hsub]
  · rw [Int64.toInt_zero]
    omega
  · rw [Int64.toInt_zero] at hpos
    omega

end Escrow
