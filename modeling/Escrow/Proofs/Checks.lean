import Mathlib.Tactic.Basic

/-!
# Checks that pass

A check is a computation that may fail (`Except`), made of smaller ones. These
are the laws by which it is taken apart: what it takes for each way of putting
checks together to pass, to fail with a given error, and to fail with errors of a
certain kind only (`FailsWith`).
-/

namespace Escrow

variable {ε ε' α β : Type} {x y : Except ε α}

/-- Two checks in a row succeed if the first one does and then the second one, with what the
    first one gives. -/
theorem bind_eq_ok_iff {f : α → Except ε β} {b : β} :
    (x >>= f) = .ok b ↔ ∃ a, x = .ok a ∧ f a = .ok b := by
  cases x with
  | error e => simp [bind, Except.bind]
  | ok a => simp [bind, Except.bind]

theorem toOption_eq_some_iff {a : α} : x.toOption = some a ↔ x = .ok a := by
  cases x with
  | error e => simp [Except.toOption]
  | ok a => simp [Except.toOption]

/-- What a check gives that gives nothing. -/
theorem exists_unit_iff {p : Unit → Prop} : (∃ u, p u) ↔ p () :=
  ⟨fun ⟨_, h⟩ => h, fun h => ⟨(), h⟩⟩

/-- What is computed further succeeds if the computation does. -/
theorem map_eq_ok_iff {f : α → β} {b : β} : f <$> x = .ok b ↔ ∃ a, x = .ok a ∧ f a = b := by
  cases x with
  | error e => simp [Functor.map, Except.map]
  | ok a => simp [Functor.map, Except.map]

/-- Other words for an error make no difference to success. -/
theorem mapError_eq_ok_iff {f : ε → ε'} {a : α} : x.mapError f = .ok a ↔ x = .ok a := by
  cases x with
  | error e => exact iff_of_false (fun h => by cases h) fun h => by cases h
  | ok b =>
    change (Except.ok b : Except ε' α) = .ok a ↔ _
    rw [Except.ok.injEq, Except.ok.injEq]

theorem pure_eq_ok_iff {a b : α} : (pure a : Except ε α) = .ok b ↔ a = b := by
  simp [pure, Except.pure]

theorem throw_ne_ok {e : ε} {a : α} : (throw e : Except ε α) ≠ .ok a := nofun

/-- After a failure nothing else is looked at. -/
theorem throw_bind {e : ε} {f : α → Except ε β} : (throw e >>= f) = throw e := by
  simp [bind, Except.bind, throw, throwThe, MonadExceptOf.throw]

/-- A choice between two checks passes if the one chosen does. -/
theorem ite_eq_ok_iff {c : Prop} [Decidable c] {a : α} :
    (if c then x else y) = .ok a ↔ (c ∧ x = .ok a) ∨ (¬c ∧ y = .ok a) := by
  by_cases h : c <;> simp [h]

/-- What is refused under a condition passes if the condition does not hold. -/
theorem ite_throw_eq_ok_iff {c : Prop} [Decidable c] {e : ε} {a : α} :
    (if c then throw e else y) = .ok a ↔ ¬c ∧ y = .ok a := by
  rw [ite_eq_ok_iff]
  simp [throw_ne_ok]

/-- What is refused for one reason only passes every check that refuses for
    another. -/
theorem not_of_ite_throw {c : Prop} [Decidable c] {e e' : ε}
    (h : ∀ v, (if c then throw e else y) = .error v → v = e') (hne : e ≠ e') :
    ¬c ∧ ∀ v, y = .error v → v = e' := by
  by_cases hc : c
  · rw [if_pos hc] at h
    exact absurd (h e rfl) hne
  · rw [if_neg hc] at h
    exact ⟨hc, h⟩

/-- A check made under a condition passes if the condition does not hold. -/
theorem ite_bind_eq_ok_iff {c : Prop} [Decidable c] {z : Except ε Unit} {a : α} :
    (if c then z >>= fun _ => y else y) = .ok a ↔ (c → z = .ok ()) ∧ y = .ok a := by
  by_cases h : c
  · simp only [h, if_true, bind_eq_ok_iff, exists_unit_iff, forall_const]
  · simp [h]

/-- A check of every member of a list passes if it passes for each of them. -/
theorem forM_eq_ok_iff {f : α → Except ε Unit} {as : List α} :
    as.forM f = .ok () ↔ ∀ a ∈ as, f a = .ok () := by
  induction as with
  | nil => simp [pure_eq_ok_iff]
  | cons a as ih =>
    rw [List.forM_eq_forM] at ih
    rw [List.forM_eq_forM, List.forM_cons, bind_eq_ok_iff, exists_unit_iff,
      List.forall_mem_cons, ih]

/-! ## Checks that fail -/

/-- Two checks in a row fail if the first one does, or if it succeeds and then the second
    one fails. -/
theorem bind_eq_error_iff {f : α → Except ε β} {e : ε} :
    (x >>= f) = .error e ↔ x = .error e ∨ ∃ a, x = .ok a ∧ f a = .error e := by
  cases x with
  | error e' => simp [bind, Except.bind]
  | ok a => simp [bind, Except.bind]

/-- An error in other words comes of an error. -/
theorem mapError_eq_error_iff {f : ε → ε'} {e' : ε'} :
    x.mapError f = .error e' ↔ ∃ e, x = .error e ∧ f e = e' := by
  cases x with
  | error e =>
    change (Except.error (f e) : Except ε' α) = .error e' ↔ _
    simp
  | ok a =>
    refine iff_of_false (fun h => by cases h) ?_
    rintro ⟨e, h, -⟩
    cases h

theorem pure_ne_error {a : α} {e : ε} : (pure a : Except ε α) ≠ .error e :=
  fun h => by cases h

theorem throw_eq_error_iff {e e' : ε} : (throw e : Except ε α) = .error e' ↔ e = e' := by
  simp [throw, throwThe, MonadExceptOf.throw]

/-- A condition that refuses is the reason of a failure, or there is another one behind it. -/
theorem ite_throw_eq_error_iff {c : Prop} [Decidable c] {e e' : ε} :
    (if c then throw e else y) = .error e' ↔ (c ∧ e = e') ∨ (¬c ∧ y = .error e') := by
  by_cases h : c <;> simp [h, throw_eq_error_iff]

/-! ## Checks that fail in certain ways only -/

section
variable {P : ε → Prop} {e : ε}

/-- A check fails with errors of a certain kind only. -/
def FailsWith (P : ε → Prop) (x : Except ε α) : Prop :=
  ∀ e, x = .error e → P e

@[simp] theorem failsWith_ok {a : α} : FailsWith P (.ok a : Except ε α) :=
  fun _ h => by cases h

@[simp] theorem failsWith_error_iff : FailsWith P (.error e : Except ε α) ↔ P e := by
  simp [FailsWith]

@[simp] theorem failsWith_pure {a : α} : FailsWith P (pure a : Except ε α) :=
  failsWith_ok

@[simp] theorem failsWith_throw_iff : FailsWith P (throw e : Except ε α) ↔ P e :=
  failsWith_error_iff

/-- Checks in a row fail as they may if each does, the later ones after the success of the
    earlier ones. -/
@[simp] theorem failsWith_bind_iff {f : α → Except ε β} :
    FailsWith P (x >>= f) ↔ FailsWith P x ∧ ∀ a, x = .ok a → FailsWith P (f a) := by
  cases x with
  | error e => simp [bind, Except.bind]
  | ok a => simp [bind, Except.bind]

@[simp] theorem failsWith_map_iff {f : α → β} : FailsWith P (f <$> x) ↔ FailsWith P x := by
  cases x <;> simp [FailsWith, Functor.map, Except.map]

/-- A choice fails with such errors only if what is chosen does. -/
@[simp] theorem failsWith_ite_iff {c : Prop} [Decidable c] :
    FailsWith P (if c then x else y) ↔ (c → FailsWith P x) ∧ (¬c → FailsWith P y) := by
  by_cases h : c <;> simp [h]

/-- An error in other words has the property that those words have. -/
@[simp] theorem failsWith_mapError_iff {z : Except ε' α} {f : ε' → ε} :
    FailsWith P (z.mapError f) ↔ FailsWith (fun e => P (f e)) z := by
  simp only [FailsWith, mapError_eq_error_iff]
  exact ⟨fun h e he => h _ ⟨e, he, rfl⟩, fun h _ ⟨e, he, hfe⟩ => hfe ▸ h e he⟩

end

end Escrow
