import Escrow.Amount
import Mathlib.Algebra.BigOperators.Group.List.Basic
import Mathlib.Algebra.Order.BigOperators.Group.List
import Mathlib.Algebra.Ring.Int.Defs
import Mathlib.Data.Int.Order.Basic

/-!
# Checked sums

A sum or difference that is checked is the exact one, and is refused only if that
is out of the range of amounts (`add?_eq_some_iff`, `sub?_eq_some_iff`). A checked
sum of several amounts is exact too (`toInt_of_total?`), but is refused as soon as a sum
on the way is (`total?_eq_none_iff`); if none of them is negative, no sum on the way
exceeds the last one, and again only the exact sum counts (`total?_eq_some_iff`).
-/

namespace Escrow

namespace Amount

variable {a b c : Amount} {as : List Amount}

/-- A number is in the range of amounts. -/
def InRange (n : Int) : Prop :=
  least ≤ n ∧ n ≤ greatest

theorem least_le_toInt (a : Amount) : least ≤ a.toInt :=
  a.le_toInt

theorem toInt_le_greatest (a : Amount) : a.toInt ≤ greatest := by
  have := a.toInt_lt
  rw [greatest]
  omega

/-- Every number that is not negative and not too great is an amount. -/
theorem exists_toInt_eq {n : Int} (hn : 0 ≤ n) (hle : n ≤ greatest) :
    ∃ a : Amount, a.toInt = n := by
  rw [greatest] at hle
  exact ⟨Int64.ofInt n, Int64.toInt_ofInt_of_le (by omega) (by omega)⟩

/-- A number that is in the range is the amount that it is given as. -/
theorem ofInt?_eq_some_iff {n : Int} : ofInt? n = some a ↔ a.toInt = n := by
  rw [ofInt?]
  split
  · rename_i hn
    rw [Option.some.injEq, ← Int64.toInt_inj]
    rw [Int64.toInt_ofInt_of_le hn.1 (by have := hn.2; rw [greatest] at this; omega), eq_comm]
  · rename_i hn
    refine iff_of_false (Option.some_ne_none a).symm ?_
    rintro rfl
    exact hn ⟨least_le_toInt a, toInt_le_greatest a⟩

/-- A number is no amount if and only if it is out of the range. -/
theorem ofInt?_eq_none_iff {n : Int} : ofInt? n = none ↔ ¬InRange n :=
  ite_eq_right_iff.trans (forall_congr' fun _ => iff_false_intro (Option.some_ne_none _))

theorem inRange_toInt (a : Amount) : InRange a.toInt :=
  ⟨least_le_toInt a, toInt_le_greatest a⟩

/-- A checked sum is the exact one. -/
theorem add?_eq_some_iff : a.add? b = some c ↔ c.toInt = a.toInt + b.toInt :=
  ofInt?_eq_some_iff

/-- A checked difference is the exact one. -/
theorem sub?_eq_some_iff : a.sub? b = some c ↔ c.toInt = a.toInt - b.toInt :=
  ofInt?_eq_some_iff

/-- A checked sum is refused if and only if the exact one is out of the range. -/
theorem add?_eq_none_iff : a.add? b = none ↔ ¬InRange (a.toInt + b.toInt) :=
  ofInt?_eq_none_iff

/-- A checked difference is refused if and only if the exact one is out of the range. -/
theorem sub?_eq_none_iff : a.sub? b = none ↔ ¬InRange (a.toInt - b.toInt) :=
  ofInt?_eq_none_iff

/-- A difference that is not negative is exact. -/
theorem toInt_sub_of_le {a b : Amount} (ha : 0 ≤ a) (hle : a ≤ b) :
    (b - a).toInt = b.toInt - a.toInt := by
  have ha : 0 ≤ a.toInt := Int64.le_iff_toInt_le.1 ha
  have hle := Int64.le_iff_toInt_le.1 hle
  have hb := b.toInt_lt
  rw [Int64.toInt_sub, Int.bmod_eq_of_le (by omega) (by omega)]

theorem toInt_max (a b : Amount) : (max a b).toInt = max a.toInt b.toInt := by
  change (if a ≤ b then b else a).toInt = _
  split
  · rename_i h
    rw [max_eq_right (Int64.le_iff_toInt_le.1 h)]
  · rename_i h
    rw [Int64.le_iff_toInt_le] at h
    rw [max_eq_left (Int.le_of_lt (Int.not_le.1 h))]

/-- Amounts added one after the other to a first one come to the exact sum. -/
theorem toInt_of_foldlM_add? (h : as.foldlM add? a = some c) :
    c.toInt = a.toInt + (as.map Int64.toInt).sum := by
  induction as generalizing a with
  | nil =>
    cases h
    exact (Int.add_zero _).symm
  | cons b as ih =>
    rw [List.foldlM_cons] at h
    obtain ⟨d, hd, h⟩ := Option.bind_eq_some_iff.1 h
    rw [ih h, add?_eq_some_iff.1 hd, List.map_cons, List.sum_cons, Int.add_assoc]

/-- A checked sum is exact. -/
theorem toInt_of_total? (h : total? as = some c) : c.toInt = (as.map Int64.toInt).sum := by
  have hsum := toInt_of_foldlM_add? h
  rwa [Int64.toInt_zero, Int.zero_add] at hsum

/-- Amounts cannot be added one after the other to a first one if and only if the sum up to
    one of them is out of the range. -/
theorem foldlM_add?_eq_none_iff : as.foldlM add? a = none ↔
    ∃ bs, bs <+: as ∧ ¬InRange (a.toInt + (bs.map Int64.toInt).sum) := by
  -- By induction on the amounts, with what has been added so far as the first one.
  induction as generalizing a with
  | nil =>
    refine iff_of_false (Option.some_ne_none a) ?_
    rintro ⟨bs, hbs, hout⟩
    rw [List.prefix_nil.1 hbs, List.map_nil, List.sum_nil, Int.add_zero] at hout
    exact hout (inRange_toInt a)
  | cons b as ih =>
    rw [List.foldlM_cons]
    cases hsum : a.add? b with
    | none =>
      refine iff_of_true rfl ⟨[b], List.cons_prefix_cons.2 ⟨rfl, List.nil_prefix⟩, ?_⟩
      rw [List.map_singleton, List.sum_singleton]
      exact add?_eq_none_iff.1 hsum
    | some c =>
      have hc := add?_eq_some_iff.1 hsum
      refine (ih (a := c)).trans ⟨?_, ?_⟩
      · rintro ⟨bs, hbs, hout⟩
        refine ⟨b :: bs, List.cons_prefix_cons.2 ⟨rfl, hbs⟩, ?_⟩
        rwa [List.map_cons, List.sum_cons, ← Int.add_assoc, ← hc]
      · rintro ⟨bs, hbs, hout⟩
        -- The empty sum and the first one are amounts, so there are more.
        rcases List.prefix_cons_iff.1 hbs with rfl | ⟨rest, rfl, hrest⟩
        · exact absurd (by simpa using inRange_toInt a) hout
        · rw [List.map_cons, List.sum_cons, ← Int.add_assoc, ← hc] at hout
          exact ⟨rest, hrest, hout⟩

/-- A checked sum is refused if and only if the sum up to one of the amounts is out of
    the range. -/
theorem total?_eq_none_iff : total? as = none ↔
    ∃ bs, bs <+: as ∧ ¬InRange (bs.map Int64.toInt).sum := by
  refine foldlM_add?_eq_none_iff.trans (exists_congr fun bs => ?_)
  rw [Int64.toInt_zero, Int.zero_add]

/-- Where no amount is negative, amounts can be added one after the other if the last sum is
    in the range. -/
theorem foldlM_add?_eq_some_iff (ha : 0 ≤ a.toInt) (has : ∀ b ∈ as, 0 ≤ b.toInt) :
    as.foldlM add? a = some c ↔ c.toInt = a.toInt + (as.map Int64.toInt).sum := by
  refine ⟨toInt_of_foldlM_add?, fun hc => ?_⟩
  induction as generalizing a with
  | nil =>
    rw [List.map_nil, List.sum_nil, Int.add_zero, Int64.toInt_inj] at hc
    exact congrArg some hc.symm
  | cons b as ih =>
    have hb := has b List.mem_cons_self
    have hrest : ∀ c ∈ as, 0 ≤ c.toInt := fun c hc => has c (List.mem_cons_of_mem b hc)
    have hsum : 0 ≤ (as.map Int64.toInt).sum := List.sum_nonneg (by simpa using hrest)
    rw [List.map_cons, List.sum_cons, ← Int.add_assoc] at hc
    -- The first sum is no greater than the last one, which is in the range.
    have hle := toInt_le_greatest c
    obtain ⟨d, hd⟩ := exists_toInt_eq (n := a.toInt + b.toInt) (by omega) (by omega)
    rw [List.foldlM_cons]
    exact Option.bind_eq_some_iff.2
      ⟨d, add?_eq_some_iff.2 hd, ih (by omega) hrest (by rw [hd, hc])⟩

/-- The checked sum of amounts that are not negative is their exact sum. -/
theorem total?_eq_some_iff (has : ∀ a ∈ as, 0 ≤ a.toInt) :
    total? as = some c ↔ c.toInt = (as.map Int64.toInt).sum := by
  rw [total?, foldlM_add?_eq_some_iff (by decide) has]
  change _ = 0 + _ ↔ _
  rw [Int.zero_add]

end Amount

end Escrow
