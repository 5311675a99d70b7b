import Escrow.Proofs.Checks
import Escrow.Agreement.Draft
import Escrow.Agreement.Rules
import Mathlib.Algebra.Order.Group.Nat
import Mathlib.Tactic.Basic

/-!
# The age of offers

An offer expires after a number of seconds, and a block takes a fixed number of
them, so an offer expires after a number of *blocks*: the seconds are multiplied
out on one side (`Params.elapsed`) and divided on the other
(`Params.expiryBlocks`), and both agree at every boundary (`Params.expired_iff`).

They part in one case only. Ages are cut off at `maxSeconds`, and a cut-off age is
not above a limit that is `maxSeconds` itself: under such parameters *no* offer
ever expires, however many blocks are mined on it (`Params.not_expired_of_max`).
With `Params.perpetual` this takes no more than two blocks.

The rules and the drafter ask for the age in the same way, and both refuse an offer
if and only if it has expired. What has expired stays so at every later height.
-/

namespace Escrow

namespace Params

variable {p : Params} {g h k : Nat}

/-- Time does not go back. -/
theorem elapsed_mono (p : Params) (g : Nat) (hk : h ≤ k) : p.elapsed g h ≤ p.elapsed g k := by
  have hmul : (h - g) * p.blockTime.toNat ≤ (k - g) * p.blockTime.toNat :=
    Nat.mul_le_mul_right _ (Nat.sub_le_sub_right hk g)
  exact min_le_min_right maxSeconds hmul

/-- An offer expires when more time has passed than it has. -/
theorem expired_eq_true_iff : p.expired g h = true ↔ p.offerExpiry.toNat < p.elapsed g h := by
  simp [expired]

/-- An offer has expired after more blocks than it lasts, unless the limit on its
    age is the greatest age there is. -/
theorem expired_iff (hb : p.blockTime ≠ 0) :
    p.expired g h = true ↔ p.expiryBlocks < h - g ∧ p.offerExpiry.toNat < maxSeconds := by
  have hpos : 0 < p.blockTime.toNat := by
    rw [Nat.pos_iff_ne_zero, ne_eq, ← UInt64.toNat_zero, UInt64.toNat_inj]
    exact hb
  rw [expired_eq_true_iff, elapsed, lt_min_iff, expiryBlocks, Nat.div_lt_iff_lt_mul hpos]

/-- With the longest time of all an offer never expires. -/
theorem not_expired_of_max (hmax : p.offerExpiry.toNat = maxSeconds) : p.expired g h = false := by
  rw [Bool.eq_false_iff, ne_eq, expired_eq_true_iff, hmax, not_lt]
  exact min_le_right _ _

/-- What has expired stays expired. -/
theorem expired_of_le (he : p.expired g h = true) (hk : h ≤ k) : p.expired g k = true := by
  rw [expired_eq_true_iff] at he ⊢
  exact he.trans_le (p.elapsed_mono g hk)

end Params

/-! ## Who asks for the age -/

/-- The rules refuse an offer that has expired, and say how old it is. -/
theorem Inspection.checkAge_eq (i : Inspection) (g : Nat) :
    i.checkAge g = if i.params.expired g i.ledger.height
      then .error (.offerExpired (i.params.elapsed g i.ledger.height) i.params.offerExpiry.toNat)
      else .ok () := by
  simp only [checkAge, Params.expired_eq_true_iff]
  split <;> rfl

theorem Drafter.checkAge_eq (d : Drafter) (g : Nat) :
    d.checkAge g = if d.params.expired g d.ledger.height
      then .error (.offerExpired (d.params.elapsed g d.ledger.height) d.params.offerExpiry.toNat)
      else .ok () := by
  simp only [checkAge, Params.expired_eq_true_iff]
  split <;> rfl

/-! ## Seconds and blocks -/

/-- *Expiry in blocks*: an offer mined at height `g` has expired at height `h` if and
    only if more blocks lie between them than an offer lasts, and the limit on ages
    is below the greatest age. The rules and the drafter then refuse it, with its
    age and the limit, and otherwise they do not. Once expired, it has expired at
    every later height. -/
theorem Params.expiry_in_blocks (p : Params) (hb : p.blockTime ≠ 0) (g h : Nat) :
    (p.expired g h = true ↔ p.expiryBlocks < h - g ∧ p.offerExpiry.toNat < maxSeconds) ∧
    (∀ i : Inspection, i.params = p → i.ledger.height = h →
      i.checkAge g = if p.expiryBlocks < h - g ∧ p.offerExpiry.toNat < maxSeconds
        then .error (.offerExpired (p.elapsed g h) p.offerExpiry.toNat) else .ok ()) ∧
    (∀ d : Drafter, d.params = p → d.ledger.height = h →
      d.checkAge g = if p.expiryBlocks < h - g ∧ p.offerExpiry.toNat < maxSeconds
        then .error (.offerExpired (p.elapsed g h) p.offerExpiry.toNat) else .ok ()) ∧
    (p.expired g h = true → ∀ k, h ≤ k → p.expired g k = true) := by
  refine ⟨expired_iff hb, ?rules, ?drafter, fun he k hk => expired_of_le he hk⟩
  case rules =>
    rintro i rfl rfl
    simp only [i.checkAge_eq, expired_iff hb]
  case drafter =>
    rintro d rfl rfl
    simp only [d.checkAge_eq, expired_iff hb]

/-- The boundary of the defaults: an offer lasts 129600 blocks, and not one more. -/
theorem Params.default_boundary :
    ({} : Params).blockTime ≠ 0 ∧ ({} : Params).expired 100 129700 = false ∧
      ∀ k, 129701 ≤ k → ({} : Params).expired 100 k = true := by
  have hb : ({} : Params).blockTime ≠ 0 := by decide
  obtain ⟨young, -, -, -⟩ := ({} : Params).expiry_in_blocks hb 100 129700
  obtain ⟨old, -, -, stays⟩ := ({} : Params).expiry_in_blocks hb 100 129701
  refine ⟨hb, ?_, stays (old.2 (by decide))⟩
  rw [Bool.eq_false_iff, ne_eq, young]
  decide

/-- Blocks of `2 ^ 63` seconds, and the greatest limit on ages. -/
def Params.perpetual : Params where
  blockTime := 0x8000000000000000
  offerExpiry := 0xffffffffffffffff

/-- These parameters are usable, and an offer lasts for one block under them, but
    after two blocks it has not expired. -/
theorem Params.perpetual_never_expires :
    perpetual.check = .ok () ∧ perpetual.expiryBlocks < 3 - 1 ∧ perpetual.expired 1 3 = false :=
  ⟨by decide, by decide, not_expired_of_max (by decide)⟩

end Escrow
