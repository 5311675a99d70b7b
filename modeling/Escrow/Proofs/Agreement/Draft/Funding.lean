import Escrow.Agreement.Draft
import Escrow.Proofs.Host.Conservation
import Escrow.Proofs.Ledger.Coins
import Escrow.Proofs.Sums
import Escrow.Proofs.Transaction.Signing

/-!
# How drafts are paid for

A plan that is completed is paid for by coins of the drafter, which together with
the outputs released from escrow come to exactly what is paid out, the fee and what
returns to the drafter (`Drafter.Funds`, `exists_funds_of_finish`). No coin is
negative and no sum leaves the range of amounts, so these are exact sums.

The transaction spends the outputs in escrow and then the coins; it makes the
outputs of the plan, one for what returns, and the payload. The inputs from escrow
are signed with the global key and the others are not (`getElem?_inputs_assemble`).
-/

namespace Escrow

/-! ## Sums of coins -/

/-- The exact sum of the values of coins. -/
def Coin.total (cs : List Coin) : Int :=
  (cs.map fun c => c.value.toInt).sum

/-- The coins that are taken are the first ones. -/
theorem Coin.enough_prefix (needed : Int) (cs : List Coin) : Coin.enough needed cs <+: cs := by
  induction cs generalizing needed with
  | nil => exact List.prefix_rfl
  | cons c cs ih =>
    rw [Coin.enough]
    split
    · exact ⟨cs, rfl⟩
    · exact List.prefix_cons_inj c |>.2 (ih _)

/-- The checked sum of coins that are not negative is their exact sum. -/
theorem Coin.total?_eq_some_iff {cs : List Coin} {a : Amount} (h : ∀ c ∈ cs, 0 ≤ c.value.toInt) :
    Amount.total? (cs.map Coin.value) = some a ↔ a.toInt = Coin.total cs := by
  rw [Amount.total?_eq_some_iff (List.forall_mem_map.2 h), List.map_map]
  rfl

/-- Some of the outputs have no greater sum than all of them. -/
theorem Output.total_filter_le {outs : List Output} (h : NonNegative outs) (p : Output → Bool) :
    total (outs.filter p) ≤ total outs := by
  have hvalues : ∀ n ∈ outs.map fun out => out.value.toInt, 0 ≤ n := List.forall_mem_map.2 h
  exact (List.filter_sublist.map _).sum_le_sum hvalues

/-- Some of the outputs have a checked sum if all of them do not exceed the greatest
    amount, and it is exact. -/
theorem Output.exists_total?_filter {outs : List Output} (h : NonNegative outs)
    (hle : total outs ≤ Amount.greatest) (p : Output → Bool) :
    ∃ a, Amount.total? ((outs.filter p).map Output.value) = some a ∧
      a.toInt = total (outs.filter p) := by
  have hpart : NonNegative (outs.filter p) := fun out hout => h out (List.mem_of_mem_filter hout)
  obtain ⟨a, ha⟩ := Amount.exists_toInt_eq (total_nonneg hpart)
    (Int.le_trans (total_filter_le h p) hle)
  exact ⟨a, (total?_eq_some_iff hpart).2 ha, ha⟩

/-- Coins with the confirmed ones first are the same coins. -/
theorem Coin.confirmedFirst_perm (cs : List Coin) :
    (cs.filter (·.height.isSome) ++ cs.filter (·.height.isNone)).Perm cs := by
  have hnone : (fun c : Coin => c.height.isNone) = fun c => !c.height.isSome :=
    funext fun c => by rcases c.height with _ | h <;> rfl
  rw [hnone]
  exact List.filter_append_perm ..

namespace Drafter

variable {d : Drafter} {p : Plan} {tx : Transaction}

/-- A checked sum succeeds with the sum that there is. -/
theorem checked_eq_ok_iff {x : Option Amount} {a : Amount} : checked x = .ok a ↔ x = some a := by
  rcases x with _ | b
  · simp [checked]
  · simp [checked]

/-- What is released from escrow are outputs that exist, of the sum that is given. -/
theorem exists_of_released {os : List Outpoint} {sum a : Amount} (h : d.released sum os = .ok a) :
    ∃ outs, os.map d.ledger.prevout? = outs.map some ∧ a.toInt = sum.toInt + Output.total outs := by
  induction os generalizing sum with
  | nil =>
    rw [released, Except.ok.injEq] at h
    subst h
    exact ⟨[], rfl, (Int.add_zero _).symm⟩
  | cons o os ih =>
    rcases ho : d.ledger.prevout? o with _ | out
    · simp [released, ho, throw_ne_ok] at h
    · simp only [released, ho, bind_eq_ok_iff, checked_eq_ok_iff, Amount.add?_eq_some_iff] at h
      obtain ⟨sum', hsum, h⟩ := h
      obtain ⟨outs, houts, ha⟩ := ih h
      refine ⟨out :: outs, by rw [List.map_cons, List.map_cons, ho, houts], ?_⟩
      rw [ha, hsum, Output.total, Output.total, List.map_cons, List.sum_cons, Int.add_assoc]

/-! ## What pays for a plan -/

/-- Some coins of the drafter pay for a plan, and what is left over returns. -/
structure Funds (d : Drafter) (p : Plan) (picked : List Coin) (change : Amount) : Prop where
  sublist : picked.Sublist (d.coins p.spends)
  ne_nil : picked ≠ []
  fee_le : d.params.txFee.toInt ≤ Coin.total picked
  change_nonneg : 0 ≤ change.toInt
  balance : Coin.total picked + p.released.toInt =
    Output.total p.pays + change.toInt + d.params.txFee.toInt
  le_greatest : Coin.total picked + p.released.toInt ≤ Amount.greatest

/-- What returns to the drafter, unless it is nothing. -/
def returned (d : Drafter) (change : Amount) : List Output :=
  if 0 < change then [⟨change, .key d.key⟩] else []

/-- What returns is all that is left over. -/
theorem total_returned {change : Amount} (h : 0 ≤ change.toInt) :
    Output.total (d.returned change) = change.toInt := by
  rw [returned]
  split
  · simp [Output.total]
  · next hpos =>
    rw [Int64.lt_iff_toInt_lt, Int64.toInt_zero] at hpos
    have hzero : change.toInt = 0 := by omega
    simp [Output.total, hzero]

/-- What is worked out for a plan that is completed. -/
theorem exists_of_finish (h : d.finish p = .ok tx) :
    ∃ outputs needed paid change, Amount.total? (p.pays.map Output.value) = some outputs ∧
      d.needed p outputs = .ok needed ∧
      let picked := Coin.enough needed.toInt (d.coins p.spends)
      Amount.total? (picked.map Coin.value) = some paid ∧ needed ≤ paid ∧ picked ≠ [] ∧
        d.change p paid outputs = .ok change ∧ tx = d.assemble p picked change := by
  rw [finish] at h
  rcases houtputs : Amount.total? (p.pays.map Output.value) with _ | outputs
  · simp [houtputs, throw_ne_ok] at h
  · simp only [houtputs, throw_bind, bind_eq_ok_iff, ite_throw_eq_ok_iff, checked_eq_ok_iff,
      pure_eq_ok_iff, Bool.or_eq_true, decide_eq_true_iff, not_or, Int64.not_lt,
      List.isEmpty_iff] at h
    obtain ⟨needed, hneeded, available, -, paid, hpaid, ⟨hle, hne⟩, change, hchange, rfl⟩ := h
    exact ⟨outputs, needed, paid, change, rfl, hneeded, hpaid, hle, hne, hchange, rfl⟩

/-- A plan that is completed is paid for. -/
theorem exists_funds_of_finish (hcoins : ∀ c ∈ d.coins p.spends, 0 ≤ c.value.toInt)
    (hpays : Output.NonNegative p.pays) (h : d.finish p = .ok tx) :
    ∃ picked change, d.Funds p picked change ∧ tx = d.assemble p picked change := by
  obtain ⟨outputs, need, paid, left, houtputs, hneed, hpaid, hle, hne, hleft, rfl⟩ :=
    exists_of_finish h
  simp only [needed, change, bind_eq_ok_iff, checked_eq_ok_iff, Amount.add?_eq_some_iff,
    Amount.sub?_eq_some_iff, Amount.toInt_max, Int64.toInt_zero] at hneed hleft
  obtain ⟨beyond, hbeyond, hneed⟩ := hneed
  obtain ⟨inputs, hinputs, rest, hrest, hleft⟩ := hleft
  have hsub := (Coin.enough_prefix need.toInt (d.coins p.spends)).sublist
  rw [Output.total?_eq_some_iff hpays] at houtputs
  rw [Coin.total?_eq_some_iff fun c hc => hcoins c (hsub.subset hc)] at hpaid
  rw [Int64.le_iff_toInt_le] at hle
  have hmax := Amount.toInt_le_greatest inputs
  refine ⟨_, left, ⟨hsub, hne, ?_, ?_, ?_, ?_⟩, rfl⟩ <;> omega

/-! ## The transaction of a plan -/

/-- The transaction of a plan before anything is signed. -/
def layout (d : Drafter) (p : Plan) (picked : List Coin) (change : Amount) : Transaction :=
  { inputs := (p.spends ++ picked.map Coin.outpoint).map fun o => ⟨o, none⟩
    outputs := p.pays ++ d.returned change ++ [⟨0, .data p.operation.encode⟩] }

variable {picked : List Coin} {change : Amount}

/-- A draft is its layout, signed with the global key for each output from escrow. -/
theorem assemble_eq (d : Drafter) (p : Plan) (picked : List Coin) (change : Amount) :
    d.assemble p picked change =
      (List.range p.spends.length).foldl (fun tx vin => tx.signInput vin .global)
        (d.layout p picked change) := rfl

/-- So a draft and its layout differ by signatures only. -/
theorem unsigned_assemble (d : Drafter) (p : Plan) (picked : List Coin) (change : Amount) :
    (d.assemble p picked change).unsigned = (d.layout p picked change).unsigned := by
  rw [assemble_eq, Transaction.unsigned_foldl_signInput]

/-- The inputs from escrow are signed with the global key. -/
theorem getElem?_inputs_assemble (n : Nat) :
    (d.assemble p picked change).inputs[n]? =
      (p.spends ++ picked.map Coin.outpoint)[n]?.map fun o =>
        ⟨o, if n < p.spends.length then
          some (KeyPair.global.witness ((d.layout p picked change).sighash n)) else none⟩ := by
  rw [assemble_eq, Transaction.getElem?_foldl_signInput, layout, List.getElem?_map,
    Option.map_map]
  refine Option.map_congr fun o _ => ?_
  simp only [Function.comp_apply, List.mem_range]
  split <;> rfl

end Drafter

end Escrow
