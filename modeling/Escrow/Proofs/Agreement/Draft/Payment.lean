import Escrow.Proofs.Agreement.Draft.Purse

/-!
# Payment

How a plan is paid for. It needs the fee and what it pays beyond what it takes from
escrow. The drafter puts in the shortest prefix of the purse that reaches this, in
any case one coin, and takes back the exact rest, so that a draft makes what it spends
less the fee (`Drafter.PaidExactly`). If the purse is empty or too small there is no
draft, and only then the funds are said to be insufficient. Any other answer comes of a
sum that is not an amount: one of those that a drafter takes (`Drafter.Sums`) is out of
the range of amounts (`Drafter.overflows_of_finish`).

This holds of every plan that takes different outputs from escrow (`Drafter.Frames`),
on a reachable ledger, for a key whose address no other lock has
(`Reachable.paidExactly`, `Reachable.insufficientFunds_iff`).
-/

namespace Escrow

namespace Drafter

variable {d : Drafter} {p : Plan} {tx : Transaction}

/-- What a plan needs from the purse: the fee and what it pays beyond what it takes from
    escrow. -/
def need (d : Drafter) (p : Plan) : Int :=
  d.params.txFee.toInt + max 0 (Output.total p.pays - p.released.toInt)

/-- The sums that a drafter takes to complete a plan. -/
inductive Sums (d : Drafter) (p : Plan) : Int → Prop
  /-- What the outputs of the plan hold, up to one of them. -/
  | outputs {outs : List Output} : outs <+: p.pays → Sums d p (Output.total outs)
  /-- What they hold beyond what is taken from escrow. -/
  | beyond : Sums d p (Output.total p.pays - p.released.toInt)
  /-- The same with the fee, which is what the purse is asked for. -/
  | need : Sums d p (d.need p)
  /-- What the coins of the purse hold, up to one of them. -/
  | coins {cs : List Coin} : cs <+: d.coins p.spends → Sums d p (Coin.total cs)
  /-- What is spent, from the purse and from escrow. -/
  | inputs : Sums d p
      (Coin.total (Coin.enough (d.need p) (d.coins p.spends)) + p.released.toInt)
  /-- What is left of it. -/
  | rest : Sums d p (Coin.total (Coin.enough (d.need p) (d.coins p.spends)) +
      p.released.toInt - Output.total p.pays)
  /-- What is left of that without the fee. -/
  | change : Sums d p (Coin.total (Coin.enough (d.need p) (d.coins p.spends)) +
      p.released.toInt - Output.total p.pays - d.params.txFee.toInt)

/-- A sum that a drafter takes to complete a plan is out of the range of amounts. -/
def Overflows (d : Drafter) (p : Plan) : Prop :=
  ∃ n, d.Sums p n ∧ ¬Amount.InRange n

/-- A plan takes different outputs from escrow, of a known sum. -/
structure Frames (d : Drafter) (p : Plan) : Prop where
  nodup : p.spends.Nodup
  escrow : ∀ o ∈ p.spends, d.ledger.InEscrow o
  released : d.released 0 p.spends = .ok p.released

/-- A transaction carries out a plan and is paid for as it has to be.

    * It makes what it spends, all of which exists, less the fee.
    * It spends nothing twice.
    * After the outputs that the plan takes it spends the shortest prefix of the purse
      that is enough.
    * It makes the outputs of the plan, then perhaps one of some value for the drafter,
      and last the payload. -/
structure PaidExactly (d : Drafter) (p : Plan) (tx : Transaction) : Prop where
  balance : ∃ spent, tx.spends.map d.ledger.prevout? = spent.map some ∧
    Output.total spent = Output.total tx.outputs + d.params.txFee.toInt
  nodup : tx.spends.Nodup
  coins : ∃ picked, Coin.IsShortest (d.need p) d.purse picked ∧
    tx.spends = p.spends ++ picked.map Coin.outpoint
  outputs : ∃ rest, tx.outputs = p.pays ++ rest ++ [⟨0, .data p.operation.encode⟩] ∧
    (rest = [] ∨ ∃ change, 0 < change ∧ rest = [⟨change, .key d.key⟩])

/-! ## Completing a plan -/

/-- A checked sum fails if it is out of range, and says so. -/
theorem checked_eq_error_iff {x : Option Amount} {e : DraftError} :
    checked x = .error e ↔ x = none ∧ e = .overflow := by
  cases x <;> simp [checked, eq_comm]

/-- What a plan needs is what is worked out for it. -/
theorem toInt_of_needed {outputs needed : Amount} (h : d.needed p outputs = .ok needed)
    (houtputs : outputs.toInt = Output.total p.pays) : needed.toInt = d.need p := by
  simp only [Drafter.needed, bind_eq_ok_iff, checked_eq_ok_iff, Amount.add?_eq_some_iff,
    Amount.sub?_eq_some_iff] at h
  obtain ⟨beyond, hbeyond, h⟩ := h
  rw [h, need, Amount.toInt_max, Int64.toInt_zero, hbeyond, houtputs]

theorem overflows_of_needed {outputs : Amount} {e : DraftError}
    (h : d.needed p outputs = .error e) (houtputs : outputs.toInt = Output.total p.pays) :
    e = .overflow ∧ d.Overflows p := by
  simp only [Drafter.needed, bind_eq_error_iff, checked_eq_error_iff, checked_eq_ok_iff,
    Amount.sub?_eq_none_iff, Amount.sub?_eq_some_iff, Amount.add?_eq_none_iff, Amount.toInt_max,
    Int64.toInt_zero, houtputs] at h
  rcases h with ⟨hout, rfl⟩ | ⟨beyond, hbeyond, hout, rfl⟩
  · exact ⟨rfl, _, .beyond, hout⟩
  · rw [hbeyond] at hout
    exact ⟨rfl, _, .need, hout⟩

/-- The change is what is paid and released, less what is made and the fee. -/
theorem toInt_of_change {paid outputs change : Amount} (h : d.change p paid outputs = .ok change) :
    change.toInt = paid.toInt + p.released.toInt - outputs.toInt - d.params.txFee.toInt := by
  simp only [Drafter.change, bind_eq_ok_iff, checked_eq_ok_iff, Amount.add?_eq_some_iff,
    Amount.sub?_eq_some_iff] at h
  obtain ⟨inputs, hinputs, rest, hrest, h⟩ := h
  rw [h, hrest, hinputs]

theorem overflows_of_change {paid outputs : Amount} {e : DraftError}
    (h : d.change p paid outputs = .error e) (houtputs : outputs.toInt = Output.total p.pays)
    (hpaid : paid.toInt = Coin.total (Coin.enough (d.need p) (d.coins p.spends))) :
    e = .overflow ∧ d.Overflows p := by
  simp only [Drafter.change, bind_eq_error_iff, checked_eq_error_iff, checked_eq_ok_iff,
    Amount.add?_eq_none_iff, Amount.add?_eq_some_iff, Amount.sub?_eq_none_iff,
    Amount.sub?_eq_some_iff] at h
  rcases h with ⟨hout, rfl⟩ | ⟨inputs, hinputs, ⟨hout, rfl⟩ | ⟨rest, hrest, hout, rfl⟩⟩
  · rw [hpaid] at hout
    exact ⟨rfl, _, .inputs, hout⟩
  · rw [hinputs, hpaid, houtputs] at hout
    exact ⟨rfl, _, .rest, hout⟩
  · rw [hrest, hinputs, hpaid, houtputs] at hout
    exact ⟨rfl, _, .change, hout⟩

theorem toInt_of_total?_pays {outputs : Amount}
    (h : Amount.total? (p.pays.map Output.value) = some outputs) :
    outputs.toInt = Output.total p.pays := by
  rw [Amount.toInt_of_total? h, List.map_map]
  rfl

theorem toInt_of_total?_coins {cs : List Coin} {paid : Amount}
    (h : Amount.total? (cs.map Coin.value) = some paid) : paid.toInt = Coin.total cs := by
  rw [Amount.toInt_of_total? h, List.map_map]
  rfl

theorem overflows_of_total?_pays (h : Amount.total? (p.pays.map Output.value) = none) :
    d.Overflows p := by
  obtain ⟨values, hvalues, hout⟩ := Amount.total?_eq_none_iff.1 h
  obtain ⟨outs, houts, rfl⟩ := List.prefix_map_iff.1 hvalues
  rw [List.map_map] at hout
  exact ⟨_, .outputs houts, hout⟩

theorem overflows_of_total?_coins {cs : List Coin} (hcs : cs <+: d.coins p.spends)
    (h : Amount.total? (cs.map Coin.value) = none) : d.Overflows p := by
  obtain ⟨values, hvalues, hout⟩ := Amount.total?_eq_none_iff.1 h
  obtain ⟨part, hpart, rfl⟩ := List.prefix_map_iff.1 hvalues
  rw [List.map_map] at hout
  exact ⟨_, .coins (hpart.trans hcs), hout⟩

/-- If the coins that are picked are not enough, or are none, all of them are not. -/
theorem short_of_picked {needed paid : Amount} (hneeded : needed.toInt = d.need p)
    (hpaid : paid.toInt = Coin.total (Coin.enough (d.need p) (d.coins p.spends)))
    (h : (paid < needed || (Coin.enough (d.need p) (d.coins p.spends)).isEmpty) = true) :
    d.coins p.spends = [] ∨ Coin.total (d.coins p.spends) < d.need p := by
  rw [Bool.or_eq_true, decide_eq_true_iff, Int64.lt_iff_toInt_lt, hneeded, hpaid,
    List.isEmpty_iff] at h
  by_contra henough
  rw [not_or, Int.not_lt] at henough
  have hpicked := Coin.isShortest_enough henough.1 henough.2
  rcases h with h | h
  · exact absurd hpicked.le_total (Int.not_le.2 h)
  · exact hpicked.ne_nil h

/-- A plan is completed only if the purse is enough for it, and then the rest returns. -/
theorem exists_change_of_finish (hcoins : ∀ c ∈ d.coins p.spends, 0 ≤ c.value.toInt)
    (h : d.finish p = .ok tx) :
    let picked := Coin.enough (d.need p) (d.coins p.spends)
    Coin.IsShortest (d.need p) (d.coins p.spends) picked ∧ ∃ change : Amount,
      change.toInt = Coin.total picked + p.released.toInt - Output.total p.pays -
        d.params.txFee.toInt ∧ tx = d.assemble p picked change := by
  obtain ⟨outputs, needed, paid, change, houtputs, hneeded, hpaid, hle, hne, hchange, rfl⟩ :=
    exists_of_finish h
  have houtputs := toInt_of_total?_pays houtputs
  have hneeded := toInt_of_needed hneeded houtputs
  have hpaid := toInt_of_total?_coins hpaid
  have hchange := toInt_of_change hchange
  rw [Int64.le_iff_toInt_le, hpaid, hneeded] at hle
  rw [hpaid, houtputs] at hchange
  rw [hneeded] at hne hchange ⊢
  refine ⟨Coin.isShortest_enough (fun hnil => hne ?_) ?_, change, hchange, rfl⟩
  · rw [hnil]
    rfl
  · -- If all coins came to less, so would those that are picked.
    by_contra hlt
    exact absurd (Coin.total_enough_lt hcoins (Int.not_le.1 hlt)) (Int.not_lt.2 hle)

/-- A plan that is not completed is refused for want of funds, and only if the purse is
    not enough for it, or a sum is out of the range of amounts. -/
theorem short_or_overflows_of_finish {e : DraftError} (h : d.finish p = .error e) :
    ((∃ needed available, e = .insufficientFunds needed available) ∧
        (d.coins p.spends = [] ∨ Coin.total (d.coins p.spends) < d.need p)) ∨
      ((e = .overflow ∨ e = .parameter .outputsOverflow) ∧ d.Overflows p) := by
  rw [finish] at h
  rcases houtputs : Amount.total? (p.pays.map Output.value) with _ | outputs
  · simp only [houtputs, throw_eq_error_iff] at h
    exact .inr ⟨.inr h.symm, overflows_of_total?_pays houtputs⟩
  · simp only [houtputs, throw_bind, bind_eq_error_iff, ite_throw_eq_error_iff,
      checked_eq_error_iff, pure_ne_error, and_false, exists_false, or_false] at h
    have houtputs := toInt_of_total?_pays houtputs
    -- What fails is one of the sums, in the order in which they are taken, or the purse.
    rcases h with h | ⟨needed, hneeded, ⟨havailable, rfl⟩ | ⟨available, -, h⟩⟩
    · obtain ⟨rfl, hsum⟩ := overflows_of_needed h houtputs
      exact .inr ⟨.inl rfl, hsum⟩
    · exact .inr ⟨.inl rfl, overflows_of_total?_coins (List.prefix_refl _) havailable⟩
    · have hneeded := toInt_of_needed hneeded houtputs
      rw [hneeded] at h
      rcases h with ⟨hpicked, rfl⟩ | ⟨paid, hpaid, h⟩
      · exact .inr ⟨.inl rfl, overflows_of_total?_coins (Coin.enough_prefix ..) hpicked⟩
      · have hpaid := toInt_of_total?_coins (checked_eq_ok_iff.1 hpaid)
        rcases h with ⟨hshort, rfl⟩ | ⟨-, h⟩
        · exact .inl ⟨⟨_, _, rfl⟩, short_of_picked hneeded hpaid hshort⟩
        · obtain ⟨rfl, hsum⟩ := overflows_of_change h houtputs hpaid
          exact .inr ⟨.inl rfl, hsum⟩

/-- It is said that a sum overflows only if one does. -/
theorem overflows_of_finish
    (h : d.finish p = .error .overflow ∨ d.finish p = .error (.parameter .outputsOverflow)) :
    d.Overflows p := by
  have hsum {e : DraftError} (he : d.finish p = .error e)
      (hfunds : ∀ needed available, e ≠ .insufficientFunds needed available) :
      d.Overflows p := by
    obtain ⟨⟨needed, available, hshort⟩, -⟩ | ⟨-, hsum⟩ := short_or_overflows_of_finish he
    · exact absurd hshort (hfunds needed available)
    · exact hsum
  rcases h with h | h
  · exact hsum h nofun
  · exact hsum h nofun

theorem spends_assemble (d : Drafter) (p : Plan) (picked : List Coin) (change : Amount) :
    (d.assemble p picked change).spends = p.spends ++ picked.map Coin.outpoint := by
  rw [Transaction.spends_eq_of_unsigned (unsigned_assemble ..), layout, Transaction.spends,
    List.map_map]
  exact List.map_id _

theorem outputs_assemble (d : Drafter) (p : Plan) (picked : List Coin) (change : Amount) :
    (d.assemble p picked change).outputs =
      p.pays ++ d.returned change ++ [⟨0, .data p.operation.encode⟩] :=
  Transaction.outputs_eq_of_unsigned (unsigned_assemble ..)

end Drafter

section
variable {validators : List Validator} {params : Params} {l : Ledger} {k : PublicKey} {p : Plan}
  {tx : Transaction}
variable (hl : Reachable validators l) (hn : l.Nameable) (hfree : l.AddressFree k)
  (hframes : (⟨l, params, k⟩ : Drafter).Frames p)
include hl hn hfree hframes

/-- No coin has a negative value. -/
theorem Reachable.nonneg_coins : ∀ c ∈ (⟨l, params, k⟩ : Drafter).coins p.spends,
    0 ≤ c.value.toInt := by
  intro c hc
  rw [Drafter.coins_eq hl.sound hn hfree hframes.escrow, (Drafter.purse_perm _).mem_iff] at hc
  obtain ⟨hprevout, -⟩ := Ledger.prevout?_of_mem_purse hl.sound hn hc
  exact hl.nonNegative_prevout hprevout

/-- A plan that is completed is paid for as it has to be. -/
theorem Reachable.paidExactly (h : (⟨l, params, k⟩ : Drafter).finish p = .ok tx) :
    (⟨l, params, k⟩ : Drafter).PaidExactly p tx := by
  obtain ⟨hshortest, change, hchange, rfl⟩ :=
    Drafter.exists_change_of_finish (hl.nonneg_coins hn hfree hframes) h
  rw [Drafter.coins_eq hl.sound hn hfree hframes.escrow] at hshortest hchange ⊢
  generalize Coin.enough _ (Drafter.purse _) = picked at hshortest hchange ⊢
  obtain ⟨outs, houts, hreleased⟩ := Drafter.exists_of_released hframes.released
  rw [Int64.toInt_zero, Int.zero_add] at hreleased
  have hcoin : ∀ c ∈ picked, l.prevout? c.outpoint = some ⟨c.value, .key k⟩ := by
    intro c hc
    have hc := (Drafter.purse_perm _).mem_iff.1 (hshortest.isPrefix.subset hc)
    exact (Ledger.prevout?_of_mem_purse hl.sound hn hc).1
  have hspends := Drafter.spends_assemble ⟨l, params, k⟩ p picked change
  refine ⟨⟨outs ++ picked.map fun c => ⟨c.value, .key k⟩, ?_, ?_⟩, ?_, ⟨picked, hshortest, hspends⟩,
    ⟨_, Drafter.outputs_assemble .., ?_⟩⟩
  · rw [hspends, List.map_append, List.map_append, houts, List.map_map, List.map_map]
    exact congrArg _ (List.map_congr_left hcoin)
  · have hneed := hshortest.le_total
    rw [Drafter.need] at hneed
    have hpicked : Output.total (picked.map fun c => ⟨c.value, .key k⟩) = Coin.total picked := by
      rw [Output.total, List.map_map]
      rfl
    have hpayload : Output.total [⟨0, .data p.operation.encode⟩] = 0 := rfl
    rw [Drafter.outputs_assemble, Output.total_append, Output.total_append, Output.total_append,
      Drafter.total_returned (by omega), hpicked, hpayload, hchange, hreleased]
    omega
  · rw [hspends, List.nodup_append]
    refine ⟨hframes.nodup, ?_, fun o ho o' ho' heq => ?_⟩
    · have hnodup := ((Drafter.purse_perm ⟨l, params, k⟩).map Coin.outpoint).nodup_iff.2
        (Ledger.nodup_purse hl.sound hn)
      exact (hshortest.isPrefix.sublist.map Coin.outpoint).nodup hnodup
    · -- What is locked with a key is not in escrow.
      obtain ⟨c, hc, rfl⟩ := List.mem_map.1 ho'
      obtain ⟨out, hout, hescrow⟩ := hframes.escrow o ho
      rw [heq] at hout
      cases hout.symm.trans (hcoin c hc)
      cases hescrow
  · rw [Drafter.returned]
    split
    · next hpos => exact .inr ⟨change, hpos, rfl⟩
    · exact .inl rfl

/-- A plan is refused for want of funds if and only if the purse is not enough for it. -/
theorem Reachable.insufficientFunds_iff
    (hoverflow : (⟨l, params, k⟩ : Drafter).finish p ≠ .error .overflow)
    (hpays : (⟨l, params, k⟩ : Drafter).finish p ≠ .error (.parameter .outputsOverflow)) :
    let d : Drafter := ⟨l, params, k⟩
    (∃ needed available, d.finish p = .error (.insufficientFunds needed available)) ↔
      d.purse = [] ∨ Coin.total d.purse < d.need p := by
  intro d
  have hcoins := hl.nonneg_coins hn hfree hframes
  have hpurse : d.coins p.spends = d.purse :=
    Drafter.coins_eq hl.sound hn hfree hframes.escrow
  constructor
  · rintro ⟨needed, available, h⟩
    obtain ⟨-, h⟩ | ⟨h | h, -⟩ := Drafter.short_or_overflows_of_finish h
    · rwa [← hpurse]
    · cases h
    · cases h
  · intro hshort
    rcases h : d.finish p with e | tx
    · obtain ⟨⟨needed, available, rfl⟩, -⟩ | ⟨rfl | rfl, -⟩ :=
        Drafter.short_or_overflows_of_finish h
      · exact ⟨needed, available, rfl⟩
      · exact absurd h hoverflow
      · exact absurd h hpays
    · obtain ⟨hshortest, -⟩ := Drafter.exists_change_of_finish hcoins h
      rw [← hpurse] at hshort
      rcases hshort with hnil | hlt
      · have hpicked := hshortest.isPrefix
        rw [hnil] at hpicked
        exact absurd (List.prefix_nil.1 (hnil ▸ hpicked)) hshortest.ne_nil
      · exact absurd (Coin.total_enough_lt hcoins hlt) (Int.not_lt.2 hshortest.le_total)

end

end Escrow
