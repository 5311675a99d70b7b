import Escrow.Proofs.Host.Run
import Escrow.Proofs.Ledger.Outputs
import Escrow.Proofs.Sums
import Mathlib.Algebra.BigOperators.Group.List.Basic
import Mathlib.Algebra.Order.BigOperators.Group.List
import Mathlib.Algebra.Ring.Int.Defs

/-!
# Conservation of value

A host adds up what a transaction spends and what it makes in saturating sums. Of
amounts that are not negative such a sum is exact up to the greatest amount, and
stays there (`Amount.toInt_saturatingTotal`). So the host sees that a transaction
makes more than it spends only while it spends less than the greatest amount: one
that spends as much may make anything (`checkValues_eq_ok_iff`).

Hence value is conserved as long as all that was ever funded is less than the
greatest amount, and from there on it need not be.
-/

namespace Escrow

/-! ## Saturating sums -/

namespace Amount

/-- A sum that is kept in the range is the nearest number there to the exact one. -/
theorem toInt_saturatingAdd (a b : Amount) :
    (saturatingAdd a b).toInt = max least (min greatest (a.toInt + b.toInt)) := by
  apply Int64.toInt_ofInt_of_le
  · simp only [least, greatest]
    omega
  · simp only [least, greatest]
    omega

/-- Where no amount is negative, a sum kept in the range at every step is the exact one, or
    the greatest amount. -/
theorem toInt_foldl_saturatingAdd {a : Amount} {as : List Amount} (ha : 0 ≤ a.toInt)
    (has : ∀ b ∈ as, 0 ≤ b.toInt) :
    (as.foldl saturatingAdd a).toInt = min greatest (a.toInt + (as.map Int64.toInt).sum) := by
  induction as generalizing a with
  | nil =>
    have := a.toInt_lt
    simp only [List.foldl_nil, List.map_nil, List.sum_nil, greatest]
    omega
  | cons b as ih =>
    have hb := has b List.mem_cons_self
    have hrest : ∀ c ∈ as, 0 ≤ c.toInt := fun c hc => has c (List.mem_cons_of_mem b hc)
    have hsum : 0 ≤ (as.map Int64.toInt).sum :=
      List.sum_nonneg (by simpa using hrest)
    -- Neither is negative, so the sum of the two can be cut from above only.
    have hadd := toInt_saturatingAdd a b
    rw [least, greatest] at hadd
    rw [List.foldl_cons, ih (by omega) hrest, List.map_cons, List.sum_cons, greatest]
    omega

/-- A saturating sum of amounts that are not negative is exact up to the greatest
    amount. -/
theorem toInt_saturatingTotal {as : List Amount} (h : ∀ a ∈ as, 0 ≤ a.toInt) :
    (saturatingTotal as).toInt = min greatest (as.map Int64.toInt).sum := by
  rw [saturatingTotal, toInt_foldl_saturatingAdd (by decide) h]
  simp

end Amount

/-! ## Exact sums -/

namespace Output

/-- The exact sum of the values of outputs. -/
def total (outs : List Output) : Int :=
  (outs.map fun out => out.value.toInt).sum

/-- No output has a negative value. -/
def NonNegative (outs : List Output) : Prop :=
  ∀ out ∈ outs, 0 ≤ out.value.toInt

variable {outs outs' : List Output}

theorem total_append : total (outs ++ outs') = total outs + total outs' := by
  rw [total, List.map_append, List.sum_append, total, total]

/-- The order of outputs does not matter for what they hold. -/
theorem total_perm (h : outs.Perm outs') : total outs = total outs' :=
  (h.map _).sum_eq

theorem total_nonneg (h : NonNegative outs) : 0 ≤ total outs :=
  List.sum_nonneg (List.forall_mem_map.2 h)

/-- What outputs hold as it is checked is what they hold, or the greatest amount. -/
theorem toInt_saturatingTotal (h : NonNegative outs) :
    (Amount.saturatingTotal (outs.map Output.value)).toInt = min Amount.greatest (total outs) := by
  rw [Amount.toInt_saturatingTotal (List.forall_mem_map.2 h), List.map_map]
  rfl

/-- The checked sum of outputs that are not negative is their exact sum. -/
theorem total?_eq_some_iff {a : Amount} (h : NonNegative outs) :
    Amount.total? (outs.map Output.value) = some a ↔ a.toInt = total outs := by
  rw [Amount.total?_eq_some_iff (List.forall_mem_map.2 h), List.map_map]
  rfl

end Output

/-- The exact sum of the unspent outputs. -/
def Ledger.unspentTotal (l : Ledger) : Int :=
  Output.total (l.unspent.map Holding.output)

/-! ## What the host sees -/

section
variable {tx : Transaction} {spent : List Output}

/-- No output is found to be negative if none is. -/
theorem findIdx?_negative_eq_none_iff {outs : List Output} :
    outs.findIdx? (·.value < 0) = none ↔ Output.NonNegative outs := by
  simp [Output.NonNegative, List.findIdx?_eq_none_iff, Int64.le_iff_toInt_le]

/-- A transaction whose values pass makes no negative ones. -/
theorem nonNegative_of_checkValues (h : tx.checkValues spent = .ok ()) :
    Output.NonNegative tx.outputs := by
  rw [← findIdx?_negative_eq_none_iff]
  cases hneg : tx.outputs.findIdx? (·.value < 0) with
  | none => rfl
  | some vout => simp [Transaction.checkValues, hneg, throw_bind, throw_ne_ok] at h

/-- The values are right if no output is negative and the outputs either do not
    exceed what is spent, or that reaches the greatest amount. -/
theorem checkValues_eq_ok_iff (hspent : Output.NonNegative spent) :
    tx.checkValues spent = .ok () ↔
      Output.NonNegative tx.outputs ∧
        (Output.total tx.outputs ≤ Output.total spent ∨ Amount.greatest ≤ Output.total spent) := by
  -- Without negative outputs both sums are exact up to the greatest amount, where they are cut
  -- off alike.
  cases hneg : tx.outputs.findIdx? (·.value < 0) with
  | some vout =>
    have : ¬Output.NonNegative tx.outputs := fun h => by
      rw [findIdx?_negative_eq_none_iff.2 h] at hneg
      cases hneg
    simp [Transaction.checkValues, hneg, throw_bind, throw_ne_ok, this]
  | none =>
    have hnonneg := findIdx?_negative_eq_none_iff.1 hneg
    rw [Transaction.checkValues, hneg]
    simp only [ite_throw_eq_ok_iff, pure_eq_ok_iff, and_true,
      Int64.lt_iff_toInt_lt, Output.toInt_saturatingTotal hspent,
      Output.toInt_saturatingTotal hnonneg, hnonneg, true_and]
    omega

end

/-! ## What a transaction does to the total -/

variable {validators : List Validator} {l : Ledger} {tx : Transaction} {spent : List Output}

/-- No recorded output is negative. -/
theorem Reachable.nonNegative (hl : Reachable validators l) {c : Holding} (hc : c ∈ l.outputs) :
    0 ≤ c.output.value.toInt := by
  obtain ⟨r, hr, hc⟩ := Ledger.mem_outputs_iff.1 hc
  have hout : c.output ∈ r.tx.outputs := List.mem_of_getElem? (Record.mem_outputs_iff.1 hc).2
  rcases hl.origin hr with ⟨key, value, nonce, hvalue, htx⟩ | ⟨before, spent, _, ha, _⟩
  · rw [htx, Host.funding, List.mem_singleton] at hout
    rw [hout]
    exact Int.le_of_lt (Int64.lt_iff_toInt_lt.1 hvalue)
  · exact nonNegative_of_checkValues ha.values c.output hout

/-- No output of a reachable ledger is negative: those of fundings are not, and those of
    other transactions have been checked. -/
theorem Reachable.nonNegative_prevout (hl : Reachable validators l) {o : Outpoint} {out : Output}
    (ho : l.prevout? o = some out) : 0 ≤ out.value.toInt := by
  have hc : l.holding? o = some ⟨o.txid, o.vout.toNat, out⟩ := by rw [Ledger.holding?, ho]; rfl
  exact hl.nonNegative (hl.sound.mem_outputs_of_holding? hc)

/-- What may be spent on a reachable ledger is not negative. -/
theorem Reachable.nonNegative_spent (hl : Reachable validators l) {is : List (Input × Nat)}
    (h : List.Forall₂ (fun p out => l.Spendable tx p.2 p.1 out) is spent) :
    Output.NonNegative spent := by
  induction h with
  | nil => exact nofun
  | cons hp _ ih => exact List.forall_mem_cons.2 ⟨hl.nonNegative_prevout hp.prevout, ih⟩

/-- No part of the unspent outputs of a reachable ledger is negative. -/
theorem Reachable.nonNegative_filter (hl : Reachable validators l) (p : Holding → Bool) :
    Output.NonNegative ((l.unspent.filter p).map Holding.output) := by
  refine List.forall_mem_map.2 fun c hc => hl.nonNegative ?_
  exact (Ledger.mem_unspent_iff.1 (List.mem_of_mem_filter hc)).1

namespace Host.Admits

variable (ha : Host.Admits ⟨l, validators⟩ tx spent)
include ha

/-- What an admitted transaction spends is there to be spent. -/
theorem unspentTotal_eq (hl : l.Sound) :
    l.unspentTotal = Output.total spent +
      Output.total ((l.unspent.filter fun c => !c.isNamedIn tx.spends).map Holding.output) := by
  -- The outputs named are those spent, in another order.
  have hspent : ((l.unspent.filter fun c => c.isNamedIn tx.spends).map Holding.output).Perm
      spent := by
    rw [← ha.filterMap_prevout?]
    refine ((hl.filter_unspent_perm ha.nodup_spends fun _ => ha.unspent).map _).trans ?_
    rw [List.map_filterMap]
    refine .of_eq (List.filterMap_congr fun o _ => ?_)
    rw [Ledger.holding?, Option.map_map]
    exact Option.map_id'
  rw [← Output.total_perm hspent, ← Output.total_append, ← List.map_append]
  exact Output.total_perm ((List.filter_append_perm _ _).symm.map _)

/-- What is unspent changes by what an admitted transaction makes and spends. -/
theorem unspentTotal_insert (hl : l.Sound) :
    (l.insert tx).unspentTotal + Output.total spent =
      l.unspentTotal + Output.total tx.outputs := by
  rw [Ledger.unspentTotal, hl.unspent_insert ha.fresh fun _ => ha.exists_prevout,
    List.map_append, Output.total_append, Record.map_output_outputs, ha.unspentTotal_eq hl]
  dsimp only
  omega

/-- It makes no more than it spends, unless that reaches the greatest amount. -/
theorem total_outputs_le (hl : Reachable validators l) :
    Output.total tx.outputs ≤ Output.total spent ∨ Amount.greatest ≤ Output.total spent :=
  ((checkValues_eq_ok_iff (hl.nonNegative_spent ha.spendable)).1 ha.values).2

/-- So it adds nothing to the total while that is less than the greatest amount. -/
theorem unspentTotal_insert_le (hl : Reachable validators l)
    (hlt : l.unspentTotal < Amount.greatest) : (l.insert tx).unspentTotal ≤ l.unspentTotal := by
  have heq := ha.unspentTotal_eq hl.sound
  have hinsert := ha.unspentTotal_insert hl.sound
  have hrest := Output.total_nonneg (hl.nonNegative_filter fun c => !c.isNamedIn tx.spends)
  rcases ha.total_outputs_le hl with hle | hge
  · omega
  · -- What is spent is a part of the total, so it cannot be as much.
    omega

end Host.Admits

/-- What is unspent grows by what is funded. -/
theorem unspentTotal_insert_funding (hl : l.Sound) {key : PublicKey} {value : Amount}
    {nonce : UInt32} (hfresh : l.record? (Host.funding key value nonce).txid = none) :
    (l.insert (Host.funding key value nonce)).unspentTotal = l.unspentTotal + value.toInt := by
  have hkept : (l.unspent.filter fun c => !c.isNamedIn []) = l.unspent :=
    List.filter_eq_self.2 fun _ _ => rfl
  rw [Ledger.unspentTotal, hl.unspent_insert hfresh nofun, spends_funding, hkept, List.map_append,
    Output.total_append, Record.map_output_outputs]
  simp [Ledger.unspentTotal, Output.total, Host.funding]

/-! ## What a run does to the total -/

namespace Host

/-- What a command funds. -/
def fundedBy (h : Host) : Command → Int
  | .fund key value =>
    match (h.fund key value).1 with
    | .ok _ => value.toInt
    | .error _ => 0
  | .submit _ | .mine | .advance _ | .notarize _ => 0

/-- The exact sum of what the commands of a run fund. -/
def funded (h : Host) : List Command → Int
  | [] => 0
  | c :: cs => h.fundedBy c + (h.step c).funded cs

/-- Blocks do not change what is unspent. -/
theorem unspent_advance (h : Host) (blocks : Nat) :
    (h.advance blocks).ledger.unspent = h.ledger.unspent := by
  induction blocks generalizing h with
  | zero => rfl
  | succ n ih => rw [advance, ih, mine, Ledger.unspent_mine]

theorem fundedBy_nonneg (h : Host) (c : Command) : 0 ≤ h.fundedBy c := by
  cases c with
  | fund key value =>
    rw [fundedBy, fund]
    split
    · next o ho =>
      split at ho
      · cases ho
      · next hvalue => exact Int.le_of_lt (Int64.lt_iff_toInt_lt.1 (Int64.not_le.1 hvalue))
    · exact Int.le_refl 0
  | _ => exact Int.le_refl 0

theorem funded_nonneg (h : Host) (cs : List Command) : 0 ≤ h.funded cs := by
  induction cs generalizing h with
  | nil => exact Int.le_refl 0
  | cons c cs ih => exact Int.add_nonneg (h.fundedBy_nonneg c) (ih _)

/-- A command adds to the total what it funds, at most. -/
theorem unspentTotal_step_le (h : Host) (c : Command) (hreach : Reachable h.validators h.ledger)
    (hlt : h.ledger.unspentTotal < Amount.greatest) :
    (h.step c).ledger.unspentTotal ≤ h.ledger.unspentTotal + h.fundedBy c := by
  -- Only a funding makes value, and only what is submitted can spend any.
  cases c with
  | fund key value =>
    rw [step, fundedBy, fund]
    split
    · simp
    · dsimp only
      split
      · simp [Ledger.unspentTotal, Ledger.unspent, Ledger.outputs, Ledger.spends]
      · next hfresh =>
        have hfresh' := Option.not_isSome_iff_eq_none.1 hfresh
        refine Int.le_of_eq ?_
        rw [Ledger.unspentTotal, Ledger.unspent_mine]
        exact unspentTotal_insert_funding (hreach.leads (.single (.count _))).sound hfresh'
  | submit tx =>
    rw [step, fundedBy, submit, Int.add_zero]
    split
    · exact Int.le_refl _
    · next id hid =>
      obtain ⟨-, spent, ha⟩ := check_eq_ok_iff.1 hid
      exact ha.unspentTotal_insert_le hreach hlt
  | mine => simp [step, mine, fundedBy, Ledger.unspentTotal]
  | advance blocks => simp [step, fundedBy, Ledger.unspentTotal, unspent_advance]
  | notarize height =>
    rw [step, fundedBy, notarize, Int.add_zero]
    split
    · exact Int.le_refl _
    · exact Int.le_refl _

/-- So long as what is funded stays below the greatest amount, no run makes more value than
    that. -/
theorem unspentTotal_run_le (h : Host) (cs : List Command)
    (hreach : Reachable h.validators h.ledger)
    (hlt : h.ledger.unspentTotal + h.funded cs < Amount.greatest) :
    (h.run cs).ledger.unspentTotal ≤ h.ledger.unspentTotal + h.funded cs := by
  -- By induction on the commands. The bound for all of them keeps every step below the greatest
  -- amount.
  induction cs generalizing h with
  | nil => simp [run, funded]
  | cons c cs ih =>
    have hc := h.fundedBy_nonneg c
    have hcs := (h.step c).funded_nonneg cs
    rw [funded] at hlt ⊢
    have hstep := unspentTotal_step_le h c hreach (by omega)
    obtain ⟨hleads, hvalidators⟩ := h.leads_step c
    have hrun := ih (h.step c) (hvalidators ▸ hreach.leads hleads) (by omega)
    rw [run, List.foldl_cons, ← run]
    omega

/-- A run makes value, if at all, from the greatest amount on: as long as less is
    funded, no more is unspent than was funded. What the host lets through is
    exactly the transactions that make no more than they spend, and those that
    spend the greatest amount or more, whatever they make. -/
theorem value_conserved_below_greatest (genesis : Timestamp) (blockTime : UInt64)
    (validators : List Validator) (cs : List Command) :
    let start : Host := ⟨{ genesis, blockTime }, validators⟩
    let host := start.run cs
    (start.funded cs < Amount.greatest → host.ledger.unspentTotal ≤ start.funded cs) ∧
      (∀ tx id, host.check tx = .ok id →
        ∃ spent, tx.spends.map host.ledger.prevout? = spent.map some ∧
          (Output.total tx.outputs ≤ Output.total spent ∨
            Amount.greatest ≤ Output.total spent)) ∧
      ∀ tx spent, host.ledger.checkInputs tx 0 [] tx.inputs = .ok spent →
        (tx.checkValues spent = .ok () ↔
          Output.NonNegative tx.outputs ∧
            (Output.total tx.outputs ≤ Output.total spent ∨
              Amount.greatest ≤ Output.total spent)) := by
  intro start host
  have hreach : Reachable validators host.ledger := reachable_run genesis blockTime validators cs
  have hempty : start.ledger.unspentTotal = 0 := rfl
  obtain ⟨-, hvalidators⟩ := leads_run start cs
  refine ⟨fun hlt => ?_, fun tx id hid => ?_, fun tx spent hspent => ?_⟩
  · have hrun := unspentTotal_run_le start cs (reachable_run genesis blockTime validators [])
      (by rwa [hempty, Int.zero_add])
    rwa [hempty, Int.zero_add] at hrun
  · obtain ⟨-, spent, ha⟩ := check_eq_ok_iff.1 hid
    have ha : host.Admits tx spent := ha
    exact ⟨spent, ha.map_prevout?, ha.total_outputs_le (hvalidators ▸ hreach)⟩
  · obtain ⟨hspendable, -⟩ := Ledger.checkInputs_eq_ok_iff.1 hspent
    exact checkValues_eq_ok_iff (hreach.nonNegative_spent hspendable)

/-- Someone is funded a value and pays it to themselves twice. -/
def doublePayment (k : KeyPair) (value : Amount) : List Command :=
  let coin : Outpoint := ⟨(funding k.publicKey value 1).txid, 0⟩
  let out : Output := ⟨value, .key k.publicKey⟩
  [.fund k.publicKey value,
    .submit (({ inputs := [⟨coin, none⟩], outputs := [out, out] } : Transaction).signInput 0 k)]

/-- Of one coin two as great are made. -/
theorem doublePayment_of_one_coin :
    let start : Host := ⟨{ genesis := ⟨0, 0⟩, blockTime := 60 }, []⟩
    let cs := doublePayment (.ofSeed (.fill 32 1)) 1
    start.funded cs = 1 ∧ (start.run cs).ledger.unspentTotal ≤ start.funded cs := by
  intro start cs
  have hfunded : start.funded cs = 1 := by decide +kernel
  have hlt : start.funded cs < Amount.greatest := by rw [hfunded]; decide
  exact ⟨hfunded, (value_conserved_below_greatest ⟨0, 0⟩ 60 [] cs).1 hlt⟩

/-- At the greatest amount the second payment is let through. -/
theorem doublePayment_makes_value :
    let start : Host := ⟨{ genesis := ⟨0, 0⟩, blockTime := 60 }, []⟩
    let cs := doublePayment (.ofSeed (.fill 32 1)) Int64.maxValue
    start.funded cs = Amount.greatest ∧
      (start.run cs).ledger.unspentTotal = 2 * Amount.greatest ∧
      ¬(start.run cs).ledger.unspentTotal ≤ start.funded cs := by
  intro start cs
  have hfunded : start.funded cs = Amount.greatest := by decide +kernel
  have hunspent : (start.run cs).ledger.unspentTotal = 2 * Amount.greatest := by decide +kernel
  refine ⟨hfunded, hunspent, ?_⟩
  rw [hfunded, hunspent]
  decide

end Host

end Escrow
