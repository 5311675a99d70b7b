import Escrow.Proofs.Timestamp.Calendar
import Escrow.Proofs.Text.Blank
import Mathlib.Algebra.Group.Nat.Defs

/-!
# Moments read back

A moment is found again from its text (`IsMoment.ofText?_text`) if its day is among
those that there are. A fraction of a whole second or more is written as a sixtieth
second, so it has to follow the last second of a minute.

The text is read from the front: each number is told from what follows by the count
of its digits or by the first other character.
-/

namespace Escrow.Timestamp

/-- A moment that can be written: its day is one of those that there are, and only the
    last second of a minute may be followed by a leap second. -/
structure IsMoment (t : Timestamp) : Prop where
  isDay : isDay (t.seconds / 86400)
  nanos_lt : t.nanos < 2 * perSecond
  last : perSecond ≤ t.nanos → t.seconds % 60 = 59

/-- Digits are taken up to a number of them or to the first other character. -/
theorem takeWhile_take {most : Nat} {ds rest : List Char} (hds : ∀ d ∈ ds, d.isDigit)
    (hlen : ds.length ≤ most)
    (hrest : ds.length = most ∨ ∀ c ∈ rest.head?, c.isDigit = false) :
    ((ds ++ rest).take most).takeWhile Char.isDigit = ds := by
  have htake : (rest.take (most - ds.length)).takeWhile Char.isDigit = [] := by
    -- Either as many digits are there as are looked at, or no digit follows.
    rcases hrest with hrest | hrest
    · rw [hrest, Nat.sub_self]
      rfl
    · cases rest with
      | nil => rw [List.take_nil]; rfl
      | cons c rest =>
        cases most - ds.length with
        | zero => rfl
        | succ k =>
          rw [List.take_succ_cons, List.takeWhile_cons_of_neg (by simp [hrest c rfl])]
  rw [List.take_append, List.take_of_length_le hlen, List.takeWhile_append_of_pos hds, htake,
    List.append_nil]

theorem toList_padded (width n : Nat) : (padded width n).toList =
    List.replicate (width - (Nat.toDigits 10 n).length) '0' ++ Nat.toDigits 10 n := by
  rw [padded, String.toList_ofList]

theorem isDigit_of_mem_padded {width n : Nat} : ∀ d ∈ (padded width n).toList, d.isDigit := by
  intro d hd
  rw [toList_padded, List.mem_append] at hd
  rcases hd with hd | hd
  · rw [List.eq_of_mem_replicate hd]
    rfl
  · exact Nat.isDigit_of_mem_toDigits (by decide) (by decide) hd

theorem length_padded {width n : Nat} (hwidth : 0 < width) (h : n < 10 ^ width) :
    (padded width n).toList.length = width := by
  have := (Nat.length_toDigits_le_iff (b := 10) (by decide) hwidth).2 h
  rw [toList_padded, List.length_append, List.length_replicate]
  omega

theorem exists_cons_padded (width n : Nat) :
    ∃ d ds, (padded width n).toList = d :: ds ∧ d.isDigit := by
  have hne : (padded width n).toList ≠ [] := by
    rw [toList_padded]
    exact fun h => Nat.toDigits_ne_nil (List.append_eq_nil_iff.1 h).2
  obtain ⟨d, ds, hds⟩ := List.exists_cons_of_ne_nil hne
  exact ⟨d, ds, hds, isDigit_of_mem_padded d (hds ▸ List.mem_cons_self)⟩

/-- The digits of a number are read as that number. -/
theorem number?_padded {most width n : Nat} (rest : List Char)
    (hlen : (padded width n).toList.length ≤ most)
    (hrest : (padded width n).toList.length = most ∨ ∀ c ∈ rest.head?, c.isDigit = false) :
    number? most ((padded width n).toList ++ rest) = some (n, rest) := by
  have hvalue : Nat.ofDigitChars 10 (padded width n).toList 0 = n := by
    rw [toList_padded, Nat.ofDigitChars_append, Nat.ofDigitChars_replicate_zero, Nat.mul_zero,
      Nat.ofDigitChars_ten_toDigits]
  obtain ⟨d, ds, hds, -⟩ := exists_cons_padded width n
  rw [number?, takeWhile_take isDigit_of_mem_padded hlen hrest]
  split
  · next hnil => exact absurd (hds.symm.trans hnil) (List.cons_ne_nil d ds)
  · rw [List.drop_left]
    exact congrArg (fun m => some (m, rest)) hvalue

theorem isBlank_of_isDigit {c : Char} (h : c.isDigit) : Text.isBlank c = false := by
  have hc : 48 ≤ c.toNat ∧ c.toNat ≤ 57 := Char.isDigit_iff_toNat.1 h
  simp only [Text.isBlank, Bool.or_eq_false_iff, Bool.and_eq_false_iff, decide_eq_false_iff_not]
  omega

theorem dropBlank_padded (width n : Nat) (rest : List Char) :
    Text.dropBlank ((padded width n).toList ++ rest) = (padded width n).toList ++ rest := by
  obtain ⟨d, ds, hds, -⟩ := exists_cons_padded width n
  exact Text.dropBlank_of_forall (hds ▸ List.cons_ne_nil d ds)
    (fun c hc => isBlank_of_isDigit (isDigit_of_mem_padded c hc)) rest

/-- A number of two digits is read back. -/
theorem blankNumber?_padded {n : Nat} (h : n < 100) (rest : List Char) :
    blankNumber? 2 ((padded 2 n).toList ++ rest) = some (n, rest) := by
  have hlen : (padded 2 n).toList.length = 2 := length_padded (by decide) h
  rw [blankNumber?, dropBlank_padded]
  exact number?_padded rest (Nat.le_of_eq hlen) (.inl hlen)

theorem year?_minus (cs : List Char) :
    year? ('-' :: cs) = (number? cs.length cs).map fun p => (-(p.1 : Int), p.2) := by
  rw [year?]
  rfl

theorem year?_plus (cs : List Char) :
    year? ('+' :: cs) = (number? cs.length cs).map fun p => ((p.1 : Int), p.2) := by
  rw [year?]
  rfl

/-- A year is read up to the month, with as many digits as it has. -/
theorem year?_yearText (year : Int) (rest : List Char) :
    year? ((yearText year).toList ++ '-' :: rest) = some (year, '-' :: rest) := by
  have hdash : ∀ c ∈ ('-' :: rest).head?, c.isDigit = false := by
    rintro c ⟨⟩
    rfl
  rw [yearText]
  -- Years of four digits have no sign.
  split
  · next hyear =>
    have hlen : (padded 4 year.toNat).toList.length = 4 := length_padded (by decide) (by omega)
    have hnumber := number?_padded ('-' :: rest) (Nat.le_of_eq hlen) (.inl hlen)
    obtain ⟨d, ds, hds, hd⟩ := exists_cons_padded 4 year.toNat
    rw [year?, dropBlank_padded]
    rw [hds, List.cons_append] at hnumber ⊢
    split
    · next heq => cases heq; exact absurd hd (by decide)
    · next heq => cases heq; exact absurd hd (by decide)
    · rw [hnumber]
      exact congrArg (fun n : Int => some (n, '-' :: rest)) (Int.toNat_of_nonneg hyear.1)
  · next hyear =>
    have hnumber : ∀ cs : List Char, (padded 4 year.natAbs).toList ++ '-' :: rest = cs →
        number? cs.length cs = some (year.natAbs, '-' :: rest) := by
      rintro cs rfl
      refine number?_padded ('-' :: rest) ?_ (.inr hdash)
      rw [List.length_append]
      exact Nat.le_add_right _ _
    have hminus : ∀ s : String,
        ("-" ++ s).toList ++ '-' :: rest = '-' :: (s.toList ++ '-' :: rest) := by simp
    have hplus : ∀ s : String,
        ("+" ++ s).toList ++ '-' :: rest = '+' :: (s.toList ++ '-' :: rest) := by simp
    split
    · next hneg =>
      have hback : -(year.natAbs : Int) = year := by omega
      rw [hminus, year?_minus, hnumber _ rfl, Option.map_some, hback]
    · next hneg =>
      have hback : (year.natAbs : Int) = year := by omega
      rw [hplus, year?_plus, hnumber _ rfl, Option.map_some, hback]

/-- A fraction is read from its digits. -/
theorem fraction?_padded {width n : Nat} (hwidth : 0 < width) (hle : width ≤ 9)
    (h : n < 10 ^ width) :
    fraction? ('.' :: ((padded width n).toList ++ ['Z'])) =
      some (n * Nat.pow 10 (9 - width), ['Z']) := by
  have hlen := length_padded hwidth h
  have hZ : ∀ c ∈ ['Z'].head?, c.isDigit = false := by
    rintro c ⟨⟩
    rfl
  have hle : (padded width n).toList.length ≤ 9 := hlen.symm ▸ hle
  rw [fraction?, number?_padded ['Z'] hle (.inr hZ)]
  simp only [Option.bind_eq_bind, Option.bind_some]
  rw [takeWhile_take isDigit_of_mem_padded hle (.inr hZ), hlen]
  rfl

/-- The fraction of a second is read back, however many digits it has. -/
theorem fraction?_fractionText {nanos : Nat} (h : nanos < perSecond) :
    fraction? ((fractionText nanos).toList ++ ['Z']) = some (nanos, ['Z']) := by
  have h : nanos < 1000000000 := h
  have hpoint : ∀ s : String, ("." ++ s).toList ++ ['Z'] = '.' :: (s.toList ++ ['Z']) := by simp
  rw [fractionText]
  -- It is written with none, three, six or nine digits.
  split
  · next hzero => rw [hzero]; rfl
  split
  · next hmilli =>
    have hback : nanos / 1000000 * 1000000 = nanos := by omega
    rw [hpoint, fraction?_padded (by decide) (by decide) (by omega)]
    exact congrArg (fun n => some (n, ['Z'])) hback
  split
  · next hmicro =>
    have hback : nanos / 1000 * 1000 = nanos := by omega
    rw [hpoint, fraction?_padded (by decide) (by decide) (by omega)]
    exact congrArg (fun n => some (n, ['Z'])) hback
  · rw [hpoint, fraction?_padded (by decide) (by decide) (by omega)]
    exact congrArg (fun n => some (n, ['Z'])) (Nat.mul_one nanos)

/-- The seconds that are added to the last one of a minute for a leap second. -/
def leap (t : Timestamp) : Nat :=
  if t.nanos < perSecond then 0 else 1

theorem leap_le_one (t : Timestamp) : t.leap ≤ 1 := by
  rw [leap]
  split <;> decide

namespace IsMoment

variable {t : Timestamp} (h : t.IsMoment)
include h

/-- A sixtieth second is read as a leap second, and only such a one is written so. -/
theorem leap_eq {s : Nat} (hs : (t.seconds % 86400).toNat = s) :
    (if s % 60 + t.leap = 60 then 1 else 0) = t.leap := by
  rw [leap]
  split
  · rw [if_neg (by omega)]
  · next hnanos =>
    have := h.last (Nat.not_lt.1 hnanos)
    rw [if_pos (by omega)]

/-- A leap second is a second in the nanoseconds. -/
theorem nanos_eq : t.nanos % perSecond + t.leap * perSecond = t.nanos := by
  have := h.nanos_lt
  rw [leap]
  split
  · next hlt => rw [Nat.mod_eq_of_lt hlt]; omega
  · next hge =>
    rw [Nat.mod_eq_sub_mod (Nat.not_lt.1 hge), Nat.mod_eq_of_lt (by omega)]
    omega

/-- A moment is read from its text. -/
theorem ofText?_text : ofText? t.text = some t := by
  obtain ⟨year, month, day, hdate, hdays, hmonth, hmonth12, hday, hlength⟩ :=
    exists_date (t.seconds / 86400)
  obtain ⟨s, hs⟩ : ∃ s, (t.seconds % 86400).toNat = s := ⟨_, rfl⟩
  have htext : t.text.toList = (yearText year).toList ++ '-' :: ((padded 2 month).toList ++
      '-' :: ((padded 2 day).toList ++ 'T' :: ((padded 2 (s / 3600)).toList ++
        ':' :: ((padded 2 (s / 60 % 60)).toList ++ ':' :: ((padded 2 (s % 60 + t.leap)).toList ++
          ((fractionText (t.nanos % perSecond)).toList ++ ['Z'])))))) := by
    simp [text, hdate, hs, Timestamp.leap]
  have hs_lt : s < 86400 := by omega
  have hleap := t.leap_le_one
  have hdaysInMonth : daysInMonth year month ≤ 31 := by
    rw [daysInMonth]
    split
    · split <;> decide
    · split <;> decide
  have hfraction := fraction?_fractionText (Nat.mod_lt t.nanos (show 0 < perSecond by decide))
  have hseconds : daysFrom year month day * 86400 + ((s / 3600 * 3600 + s / 60 % 60 * 60 +
      (s % 60 + t.leap - if s % 60 + t.leap = 60 then 1 else 0) : Nat) : Int) - 0 = t.seconds := by
    rw [h.leap_eq hs, hdays, Nat.add_sub_cancel]
    omega
  have hnanos : t.nanos % perSecond + (if s % 60 + t.leap = 60 then 1 else 0) * perSecond =
      t.nanos := by
    rw [h.leap_eq hs, h.nanos_eq]
  rw [ofText?, htext]
  -- The date,
  refine Option.bind_eq_some_iff.2 ⟨_, year?_yearText year _, ?_⟩
  refine Option.bind_eq_some_iff.2 ⟨_, rfl, ?_⟩
  refine Option.bind_eq_some_iff.2 ⟨_, blankNumber?_padded (by omega) _, ?_⟩
  refine Option.bind_eq_some_iff.2 ⟨_, rfl, ?_⟩
  refine Option.bind_eq_some_iff.2 ⟨_, blankNumber?_padded (by omega) _, ?_⟩
  refine (if_pos (.inl rfl)).trans ?_
  refine Option.bind_eq_some_iff.2 ⟨_, rfl, ?_⟩
  -- the time of day,
  refine Option.bind_eq_some_iff.2 ⟨_, blankNumber?_padded (by omega) _, ?_⟩
  refine Option.bind_eq_some_iff.2 ⟨_, rfl, ?_⟩
  refine Option.bind_eq_some_iff.2 ⟨_, blankNumber?_padded (by omega) _, ?_⟩
  refine Option.bind_eq_some_iff.2 ⟨_, rfl, ?_⟩
  refine Option.bind_eq_some_iff.2 ⟨_, blankNumber?_padded (by omega) _, ?_⟩
  refine Option.bind_eq_some_iff.2 ⟨_, hfraction, ?_⟩
  refine Option.bind_eq_some_iff.2 ⟨(0, []), rfl, ?_⟩
  -- and what is checked of them.
  refine (if_neg (by decide)).trans ?_
  refine (if_neg (by omega)).trans ?_
  refine (if_neg (by omega)).trans ?_
  refine (if_neg (by rw [hseconds, hdays, h.isDay]; decide)).trans ?_
  refine (if_neg (by decide)).trans ?_
  refine congrArg some ?_
  rw [hseconds, hnanos]

end IsMoment

end Escrow.Timestamp
