import Escrow.Json.Parser
import Escrow.Json.Printer
import Escrow.Proofs.Json.Reading
import Mathlib.Data.List.DropRight

/-!
# JSON text read back

What is written of a value can be read again (`parse?_pretty`), unless the value
holds what stands for itself only as text: numbers that are no integers of 64 bits
and what is unreadable. The other values are *plain* (`Plain`).

A value is read from the front of a text, and what follows is left (`ReadBack`).
That takes some care of numbers only, whose end is not seen before something comes
that cannot belong to them (`Ends`). Items and members are read back if what is in
them is, whatever the level of the lines they are written on.
-/

namespace Escrow.Json

/-- A value whose text says all about it. -/
inductive Plain : Json → Prop
  | null : Plain .null
  | bool (b : Bool) : Plain (.bool b)
  | int {n : Int} : -0x8000000000000000 ≤ n → n ≤ 0xffffffffffffffff → Plain (.int n)
  | str (s : String) : Plain (.str s)
  | arr {items : List Json} : (∀ v ∈ items, Plain v) → Plain (.arr items)
  | obj {ms : List (String × Json)} : (∀ m ∈ ms, Plain m.2) → Plain (.obj ms)

namespace Plain

/-- An object of plain members is plain, in whatever order they are given. -/
theorem object {ms : List (String × Json)} (h : ∀ m ∈ ms, m.2.Plain) : (Json.object ms).Plain := by
  obtain ⟨os, hos, -, hmem, -⟩ := exists_object ms
  exact hos ▸ .obj fun m hm => h m (hmem m hm)

theorem nat {n : Nat} (h : n < 0x10000000000000000) : (Json.nat n).Plain :=
  .int (by omega) (by omega)

theorem byte (b : UInt8) : (Json.nat b.toNat).Plain :=
  .nat (b.toNat_lt.trans (by decide))

theorem word (n : UInt32) : (Json.nat n.toNat).Plain :=
  .nat (n.toNat_lt.trans (by decide))

theorem amount (a : Amount) : (Json.int a.toInt).Plain :=
  .int a.minValue_le_toInt (a.toInt_le.trans (by decide))

theorem list {α : Type} {f : α → Json} {as : List α} (h : ∀ a ∈ as, (f a).Plain) :
    (Json.list f as).Plain :=
  .arr (List.forall_mem_map.2 h)

theorem ofOption {α : Type} {f : α → Json} {o : Option α} (h : ∀ a ∈ o, (f a).Plain) :
    (Json.ofOption f o).Plain := by
  cases o with
  | none => exact .null
  | some a => exact h a rfl

end Plain

namespace Parser

/-! ## Blank characters -/

theorem skip_cons {c : Char} (h : isSpace c = false) (cs : List Char) : skip (c :: cs) = c :: cs :=
  List.dropWhile_cons_of_neg (by simp [h])

theorem skip_skip (cs : List Char) : skip (skip cs) = skip cs := by
  rw [skip, skip, List.dropWhile_idempotent]

theorem skip_newline (level : Nat) (cs : List Char) :
    skip ((newline level).toList ++ cs) = skip cs := by
  refine List.dropWhile_append_of_pos fun c hc => ?_
  rw [newline, String.toList_append, List.mem_append] at hc
  rcases hc with hc | hc
  · obtain rfl : c = '\n' := by simpa using hc
    rfl
  · rw [String.toList_ofList] at hc
    obtain rfl := List.eq_of_mem_replicate hc
    rfl

theorem value_skip (fuel : Nat) (cs : List Char) : value fuel (skip cs) = value fuel cs := by
  cases fuel with
  | zero => rw [value, value]
  | succ fuel => rw [value, value, skip_skip]

theorem items_skip (fuel : Nat) (cs : List Char) : items fuel (skip cs) = items fuel cs := by
  cases fuel with
  | zero => rw [items, items]
  | succ fuel => rw [items, items, value_skip]

theorem members_skip (fuel : Nat) (cs : List Char) : members fuel (skip cs) = members fuel cs := by
  cases fuel with
  | zero => rw [members, members]
  | succ fuel => rw [members, members, skip_skip]

/-! ## Strings -/

theorem hexValue?_digitChar {n : Nat} (h : n < 16) : hexValue? (Nat.digitChar n) = some n := by
  decide +revert

theorem push_of_lt {n : Nat} (h : n < 0x20) (done : List Nat) : push n done = n :: done := by
  cases done with
  | nil => rfl
  | cons m done => rw [push, if_neg (by omega)]

/-- A character is read back from how it is written. -/
theorem string_escape (done : List Nat) (c : Char) (cs : List Char) :
    string done ((escape c).toList ++ cs) = string (c.toNat :: done) cs := by
  unfold escape
  -- Seven characters have an escape of their own, control characters have their code, and all
  -- others stand for themselves.
  split
  · next h => subst h; rfl
  split
  · next h => subst h; rfl
  split
  · next h => subst h; rfl
  split
  · next h => subst h; rfl
  split
  · next h => subst h; rfl
  split
  · next h => subst h; rfl
  split
  · next h => subst h; rfl
  split
  · next h =>
    have hunit : unit? '0' '0' (Nat.digitChar (c.toNat / 16)) (Nat.digitChar (c.toNat % 16)) =
        some c.toNat := by
      rw [unit?, hexValue?_digitChar (by omega), hexValue?_digitChar (by omega)]
      simp [hexValue?]
      omega
    rw [String.toList_append, List.append_assoc, String.toList_ofList, String.toList_ofList]
    change string done ('\\' :: 'u' :: '0' :: '0' :: Nat.digitChar (c.toNat / 16) ::
      Nat.digitChar (c.toNat % 16) :: cs) = _
    rw [string, hunit]
    change string (push c.toNat done) cs = _
    rw [push_of_lt h]
  · next hquote hback _ _ _ _ _ hcontrol =>
    rw [String.toList_singleton, List.singleton_append, string, if_neg hcontrol]
    · rintro rfl
      exact hquote rfl
    · exact fun _ _ _ _ _ h => absurd h hback
    · exact fun _ _ h => absurd h hback

/-- A string is read up to the quotation mark behind it. -/
theorem string_escapes (done : List Nat) (cs rest : List Char) :
    string done (cs.flatMap (fun c => (escape c).toList) ++ '"' :: rest) =
      some (ofCodePoints ((cs.map Char.toNat).reverse ++ done), rest) := by
  induction cs generalizing done with
  | nil => rw [List.flatMap_nil, List.nil_append, string]; rfl
  | cons c cs ih =>
    rw [List.flatMap_cons, List.append_assoc, string_escape, ih, List.map_cons,
      List.reverse_cons, List.append_assoc]
    rfl

/-- The code points of characters are theirs again. -/
theorem ofCodePoints_map_toNat (cs : List Char) :
    ofCodePoints (cs.map Char.toNat).reverse = some (String.ofList cs) := by
  have hvalid : ((cs.map Char.toNat).reverse.all fun n => decide n.isValidChar) = true := by
    rw [List.all_eq_true]
    intro n hn
    obtain ⟨c, -, rfl⟩ := List.mem_map.1 (List.mem_reverse.1 hn)
    exact decide_eq_true c.valid
  have hback : Char.ofNat ∘ Char.toNat = id := funext Char.ofNat_toNat
  rw [ofCodePoints, if_pos hvalid, List.reverse_reverse, List.map_map, hback, List.map_id]

/-- A text in quotes is read back. -/
theorem string_quote (s : String) (rest : List Char) :
    ∃ cs, (quote s).toList = '"' :: cs ∧ string [] (cs ++ rest) = some (some s, rest) := by
  refine ⟨s.toList.flatMap (fun c => (escape c).toList) ++ ['"'], ?_, ?_⟩
  · rw [quote, String.toList_append, String.toList_append, String.toList_join, List.flatMap_map]
    rfl
  · rw [List.append_assoc, List.singleton_append, string_escapes, List.append_nil,
      ofCodePoints_map_toNat, String.ofList_toList]

/-! ## Numbers -/

/-- What follows does not belong to a number. -/
def Ends (rest : List Char) : Prop :=
  ∀ c ∈ rest.head?, c.isDigit = false ∧ c ≠ '.' ∧ c ≠ 'e' ∧ c ≠ 'E'

/-- All digits of a number are read, if what follows is none. -/
theorem digits?_append {ds rest : List Char} (hds : ∀ d ∈ ds, d.isDigit) (hne : ds ≠ [])
    (hrest : Ends rest) : digits? (ds ++ rest) = some (ds, rest) := by
  have htake : rest.takeWhile Char.isDigit = [] := by
    cases rest with
    | nil => rfl
    | cons c rest => rw [List.takeWhile_cons_of_neg (by simp [(hrest c rfl).1])]
  have hdrop : rest.dropWhile Char.isDigit = rest := by
    cases rest with
    | nil => rfl
    | cons c rest => rw [List.dropWhile_cons_of_neg (by simp [(hrest c rfl).1])]
  rw [digits?, List.takeWhile_append_of_pos hds, htake, List.append_nil,
    List.dropWhile_append_of_pos hds, hdrop]
  cases ds with
  | nil => exact absurd rfl hne
  | cons d ds => rfl

theorem fraction_of_ends {rest : List Char} (h : Ends rest) : fraction rest = some ([], rest) := by
  cases rest with
  | nil => rfl
  | cons c rest =>
    rw [fraction]
    rintro rest' ⟨⟩
    exact (h '.' rfl).2.1 rfl

theorem exponent_of_ends {rest : List Char} (h : Ends rest) : exponent rest = some ([], rest) := by
  cases rest with
  | nil => rfl
  | cons c rest =>
    have hc : ¬(c = 'e' ∨ c = 'E') := not_or.2 (h c rfl).2.2
    rw [exponent.eq_def]
    exact if_neg hc

theorem ofDigits_toDigits (n : Nat) : ofDigits (Nat.toDigits 10 n) = n :=
  Nat.ofDigitChars_ten_toDigits

theorem isDigit_of_mem_toDigits {n : Nat} : ∀ d ∈ Nat.toDigits 10 n, d.isDigit :=
  fun _ => Nat.isDigit_of_mem_toDigits (by decide) (by decide)

/-- Only zero is written with a zero in front. -/
theorem eq_zero_of_head?_toDigits {n : Nat} (h : (Nat.toDigits 10 n).head? = some '0') : n = 0 := by
  induction n using Nat.strongRecOn with
  | ind n ih =>
    by_cases hn : n < 10
    · clear ih
      rw [Nat.toDigits_of_lt_base hn] at h
      revert h
      decide +revert
    · have hle : 10 ≤ n := Nat.not_lt.1 hn
      obtain ⟨d, ds, hds⟩ := List.exists_cons_of_ne_nil (Nat.toDigits_ne_nil (n := n / 10) (b := 10))
      rw [Nat.toDigits_of_base_le (by decide) hle, hds] at h
      have := ih (n / 10) (Nat.div_lt_self (by omega) (by decide)) (hds ▸ h)
      omega

/-- The digits of a number are read up to its end. -/
theorem number_toDigits (n : Nat) {rest : List Char} (h : Ends rest) :
    (number (Nat.toDigits 10 n ++ rest) = some (ofLiteral false (Nat.toDigits 10 n) [] [], rest)) ∧
    (number ('-' :: Nat.toDigits 10 n ++ rest) =
      some (ofLiteral true (Nat.toDigits 10 n) [] [], rest)) := by
  have hdigits := digits?_append (isDigit_of_mem_toDigits (n := n)) Nat.toDigits_ne_nil h
  have hzero : ¬((Nat.toDigits 10 n).head? = some '0' ∧ (Nat.toDigits 10 n).length ≠ 1) := by
    rintro ⟨hhead, hlength⟩
    rw [eq_zero_of_head?_toDigits hhead] at hlength
    exact hlength rfl
  constructor
  · rw [number]
    · simp [hdigits, hzero, fraction_of_ends h, exponent_of_ends h]
    · -- No digit is a sign.
      intro r hr
      obtain ⟨d, ds, hds⟩ := List.exists_cons_of_ne_nil (Nat.toDigits_ne_nil (n := n) (b := 10))
      rw [hds, List.cons_append] at hr
      obtain ⟨rfl, -⟩ := List.cons.inj hr
      exact absurd (isDigit_of_mem_toDigits '-' (hds ▸ List.mem_cons_self)) (by decide)
  · simp [number, hdigits, hzero, fraction_of_ends h, exponent_of_ends h]

/-- An integer of 64 bits is read back. -/
theorem number_int {n : Int} (hlow : -0x8000000000000000 ≤ n) (hhigh : n ≤ 0xffffffffffffffff)
    {rest : List Char} (h : Ends rest) :
    number ((toString n).toList ++ rest) = some (.int n, rest) := by
  rw [Int.toString_eq_repr, Int.repr_eq_if]
  -- Digits alone, or behind a sign.
  split
  · next hneg =>
    obtain ⟨m, rfl⟩ := Int.eq_ofNat_of_zero_le hneg
    rw [Int.toNat_natCast, Nat.toList_repr, (number_toDigits m h).1, ofLiteral, ofDigits_toDigits]
    simp [hhigh]
  · next hneg =>
    obtain ⟨m, rfl⟩ := Int.exists_eq_neg_ofNat (Int.le_of_lt (Int.not_le.1 hneg))
    have hm : m ≠ 0 := by omega
    rw [String.toList_append, Int.neg_neg, Int.toNat_natCast, Nat.toList_repr]
    refine (number_toDigits m h).2.trans ?_
    rw [ofLiteral, ofDigits_toDigits]
    simp [hm]
    omega

/-- An integer is written with a sign or a digit in front. -/
theorem exists_cons_toString (n : Int) :
    ∃ c cs, (toString n).toList = c :: cs ∧ (c = '-' ∨ c.isDigit) := by
  rw [Int.toString_eq_repr, Int.repr_eq_if]
  split
  · obtain ⟨d, ds, hds⟩ :=
      List.exists_cons_of_ne_nil (Nat.toDigits_ne_nil (n := n.toNat) (b := 10))
    rw [Nat.toList_repr, hds]
    exact ⟨d, ds, rfl, .inr (isDigit_of_mem_toDigits d (hds ▸ List.mem_cons_self))⟩
  · rw [String.toList_append]
    exact ⟨'-', _, rfl, .inl rfl⟩

/-! ## Values -/

/-- A text that begins with a sign or a digit is that of a number. -/
theorem value_number {c : Char} (hc : c = '-' ∨ c.isDigit) (fuel : Nat) (cs : List Char) :
    value (fuel + 1) (c :: cs) = number (c :: cs) := by
  have hspace : isSpace c = false := by
    rcases hc with rfl | hc
    · rfl
    · by_contra hspace
      simp only [isSpace, Bool.not_eq_false, Bool.or_eq_true, decide_eq_true_eq] at hspace
      rcases hspace with ((rfl | rfl) | rfl) | rfl <;> exact absurd hc (by decide)
  rw [value, skip_cons hspace]
  -- No other value begins with a digit or a sign.
  split
  case _ h => cases h; simp at hc
  case _ h => cases h; simp at hc
  case _ h => cases h; simp at hc
  case _ h => cases h; simp at hc
  case _ h => cases h; simp at hc
  case _ h => cases h; simp at hc
  rfl

theorem items_end (fuel : Nat) (rest : List Char) : items fuel (']' :: rest) = none := by
  cases fuel with
  | zero => rw [items]
  | succ fuel =>
    rw [items]
    cases fuel with
    | zero => rw [value]; rfl
    | succ fuel => rw [value]; rfl

theorem members_end (fuel : Nat) (rest : List Char) : members fuel ('\x7d' :: rest) = none := by
  cases fuel with
  | zero => rw [members]
  | succ fuel => rw [members]; rfl

section
variable {fuel : Nat} {cs r s rest : List Char} {v : Json} {vs : List Json}

theorem items_last (hv : value fuel cs = some (v, r)) (hr : skip r = ']' :: rest) :
    items (fuel + 1) cs = some ([v], rest) := by
  rw [items, hv]
  simp [hr]

theorem items_cons (hv : value fuel cs = some (v, r)) (hr : skip r = ',' :: s)
    (hs : items fuel s = some (vs, rest)) : items (fuel + 1) cs = some (v :: vs, rest) := by
  rw [items, hv]
  simp [hr, hs]

variable {name : Option String} {text : List Char} {ms : List (Option String × Json)}

theorem members_last (hname : string [] cs = some (name, ':' :: text))
    (hv : value fuel text = some (v, r)) (hr : skip r = '\x7d' :: rest) :
    members (fuel + 1) ('"' :: cs) = some ([(name, v)], rest) := by
  have hquote : skip ('"' :: cs) = '"' :: cs := skip_cons rfl cs
  have hcolon : skip (':' :: text) = ':' :: text := skip_cons rfl text
  rw [members]
  simp [hquote, hname, hcolon, hv, hr]

theorem members_cons (hname : string [] cs = some (name, ':' :: text))
    (hv : value fuel text = some (v, r)) (hr : skip r = ',' :: s)
    (hs : members fuel s = some (ms, rest)) :
    members (fuel + 1) ('"' :: cs) = some ((name, v) :: ms, rest) := by
  have hquote : skip ('"' :: cs) = '"' :: cs := skip_cons rfl cs
  have hcolon : skip (':' :: text) = ':' :: text := skip_cons rfl text
  rw [members]
  simp [hquote, hname, hcolon, hv, hr, hs]

end

/-- An array is read if its items are. -/
theorem value_bracket {fuel : Nat} {cs rest : List Char} {vs : List Json}
    (h : items fuel cs = some (vs, rest)) : value (fuel + 1) ('[' :: cs) = some (.arr vs, rest) := by
  rw [value, skip_cons rfl]
  split
  case h_5 r hr =>
    cases hr
    split
    · next hr =>
      -- An array that ends here has no items.
      rw [← items_skip, hr, items_end] at h
      cases h
    · rw [h]
      rfl
  case h_7 hr _ => exact absurd rfl (hr cs)
  all_goals next hr => simp at hr

/-- Members whose names are all read make an object. -/
theorem ofMembers_some (ms : List (String × Json)) :
    ofMembers (ms.map fun m => (some m.1, m.2)) = .obj ms := by
  have hms : (ms.map fun m => (some m.1, m.2)).mapM
      (fun m : Option String × Json => m.1.map fun name => (name, m.2)) = some ms := by
    induction ms with
    | nil => rfl
    | cons m ms ih => rw [List.map_cons, List.mapM_cons, ih]; rfl
  rw [ofMembers, hms]

/-- An object is read if its members are. -/
theorem value_brace {fuel : Nat} {cs rest : List Char} {ms : List (String × Json)}
    (h : members fuel cs = some (ms.map fun m => (some m.1, m.2), rest)) :
    value (fuel + 1) ('\x7b' :: cs) = some (.obj ms, rest) := by
  rw [value, skip_cons rfl]
  split
  case h_6 r hr =>
    cases hr
    split
    · next hr =>
      rw [← members_skip, hr, members_end] at h
      cases h
    · rw [h, ← ofMembers_some]
      rfl
  case h_7 hr => exact absurd rfl (hr cs)
  all_goals next hr => simp at hr

end Parser

open Escrow.Json.Parser

/-- A value is read from the front of its text, wherever that is written. -/
def ReadBack (v : Json) : Prop :=
  ∀ (level fuel : Nat) (rest : List Char), (prettyAt level v).toList.length < fuel → Ends rest →
    value fuel ((prettyAt level v).toList ++ rest) = some (v, rest)

theorem ends_newline (level : Nat) (rest : List Char) : Ends ((newline level).toList ++ rest) := by
  rw [newline, String.toList_append]
  rintro c ⟨⟩
  decide

theorem ends_comma (rest : List Char) : Ends (',' :: rest) := by
  rintro c ⟨⟩
  decide

theorem readBack_int {n : Int} (hlow : -0x8000000000000000 ≤ n) (hhigh : n ≤ 0xffffffffffffffff) :
    ReadBack (.int n) := by
  intro level fuel rest hfuel hrest
  obtain ⟨fuel, rfl⟩ := Nat.exists_eq_add_one_of_ne_zero (Nat.ne_zero_of_lt hfuel)
  obtain ⟨c, cs, hn, hc⟩ := exists_cons_toString n
  rw [prettyAt, ← number_int hlow hhigh hrest, hn, List.cons_append, value_number hc]

theorem readBack_str (s : String) : ReadBack (.str s) := by
  intro level fuel rest hfuel hrest
  obtain ⟨fuel, rfl⟩ := Nat.exists_eq_add_one_of_ne_zero (Nat.ne_zero_of_lt hfuel)
  obtain ⟨cs, hquote, hstring⟩ := string_quote s rest
  rw [prettyAt, hquote, List.cons_append, value, skip_cons rfl]
  exact Option.bind_eq_some_iff.2 ⟨_, hstring, rfl⟩

/-- Items are read up to the end of the array. -/
theorem items_prettyItems (level outer : Nat) {v : Json} {vs : List Json} (hv : ReadBack v)
    (hvs : ∀ w ∈ vs, ReadBack w) {fuel : Nat} (rest : List Char)
    (hfuel : (prettyAt level v).toList.length + (prettyItems level vs).toList.length + 1 < fuel) :
    items fuel ((prettyAt level v).toList ++
        ((prettyItems level vs).toList ++ ((newline outer).toList ++ ']' :: rest))) =
      some (v :: vs, rest) := by
  -- The text of an item ends before a comma or a new line.
  induction vs generalizing v fuel with
  | nil =>
    obtain ⟨fuel, rfl⟩ := Nat.exists_eq_add_one_of_ne_zero (Nat.ne_zero_of_lt hfuel)
    rw [prettyItems, String.toList_empty, List.nil_append]
    refine items_last (hv level fuel _ (by omega) (ends_newline outer _)) ?_
    rw [skip_newline, skip_cons rfl]
  | cons w ws ih =>
    obtain ⟨fuel, rfl⟩ := Nat.exists_eq_add_one_of_ne_zero (Nat.ne_zero_of_lt hfuel)
    obtain ⟨hw, hws⟩ := List.forall_mem_cons.1 hvs
    have htext : (prettyItems level (w :: ws)).toList = ',' :: ((newline level).toList ++
        ((prettyAt level w).toList ++ (prettyItems level ws).toList)) := by
      simp [prettyItems, String.toList_append]
    rw [htext] at hfuel ⊢
    simp only [List.length_cons, List.length_append] at hfuel
    have hrest := @ih w hw hws fuel (by omega)
    rw [← items_skip, ← skip_newline level, items_skip] at hrest
    rw [List.cons_append, List.append_assoc, List.append_assoc]
    exact items_cons (hv level fuel _ (by omega) (ends_comma _)) (skip_cons rfl _) hrest

theorem readBack_arr {vs : List Json} (h : ∀ v ∈ vs, ReadBack v) : ReadBack (.arr vs) := by
  intro level fuel rest hfuel hrest
  obtain ⟨fuel, rfl⟩ := Nat.exists_eq_add_one_of_ne_zero (Nat.ne_zero_of_lt hfuel)
  cases vs with
  | nil => rw [prettyAt, value]; rfl
  | cons v vs =>
    obtain ⟨hv, hvs⟩ := List.forall_mem_cons.1 h
    have htext : (prettyAt level (.arr (v :: vs))).toList = '[' :: ((newline (level + 1)).toList ++
        ((prettyAt (level + 1) v).toList ++ ((prettyItems (level + 1) vs).toList ++
          ((newline level).toList ++ [']'])))) := by
      simp [prettyAt, String.toList_append]
    rw [htext] at hfuel ⊢
    simp only [List.length_cons, List.length_append] at hfuel
    have hitems := items_prettyItems (level + 1) level hv hvs rest
      (show _ < fuel by omega)
    rw [← items_skip, ← skip_newline (level + 1), items_skip] at hitems
    simp only [List.cons_append, List.append_assoc, List.nil_append]
    exact value_bracket hitems

/-- A value is read behind a blank character too. -/
theorem ReadBack.after_blank {v : Json} (hv : ReadBack v) {level fuel : Nat} {rest : List Char}
    (hfuel : (prettyAt level v).toList.length < fuel) (hrest : Ends rest) :
    value fuel (' ' :: ((prettyAt level v).toList ++ rest)) = some (v, rest) := by
  rw [← hv level fuel rest hfuel hrest, ← value_skip, ← value_skip fuel (_ ++ rest)]
  rfl

/-- Members are read up to the end of the object. -/
theorem members_prettyMembers (level outer : Nat) {m : String × Json} {ms : List (String × Json)}
    (hm : ReadBack m.2) (hms : ∀ m ∈ ms, ReadBack m.2) {fuel : Nat} (rest : List Char)
    (hfuel : (prettyAt level m.2).toList.length + (prettyMembers level ms).toList.length + 1 < fuel) :
    members fuel ((quote m.1).toList ++ (':' :: ' ' :: ((prettyAt level m.2).toList ++
        ((prettyMembers level ms).toList ++ ((newline outer).toList ++ '\x7d' :: rest))))) =
      some ((m :: ms).map fun m => (some m.1, m.2), rest) := by
  -- As with items, but behind a name.
  induction ms generalizing m fuel with
  | nil =>
    obtain ⟨fuel, rfl⟩ := Nat.exists_eq_add_one_of_ne_zero (Nat.ne_zero_of_lt hfuel)
    rw [prettyMembers, String.toList_empty, List.nil_append]
    obtain ⟨cs, hquote, hstring⟩ := string_quote m.1 (':' :: ' ' :: ((prettyAt level m.2).toList ++
      ((newline outer).toList ++ '\x7d' :: rest)))
    rw [hquote]
    refine members_last hstring (hm.after_blank (by omega) (ends_newline outer _)) ?_
    rw [skip_newline, skip_cons rfl]
  | cons n ms ih =>
    obtain ⟨fuel, rfl⟩ := Nat.exists_eq_add_one_of_ne_zero (Nat.ne_zero_of_lt hfuel)
    obtain ⟨hn, hms⟩ := List.forall_mem_cons.1 hms
    have htext : (prettyMembers level (n :: ms)).toList = ',' :: ((newline level).toList ++
        ((quote n.1).toList ++ (':' :: ' ' :: ((prettyAt level n.2).toList ++
          (prettyMembers level ms).toList)))) := by
      simp [prettyMembers, String.toList_append]
    rw [htext] at hfuel ⊢
    simp only [List.length_cons, List.length_append] at hfuel
    have hrest := @ih n hn hms fuel (by omega)
    rw [← members_skip, ← skip_newline level, members_skip] at hrest
    simp only [List.cons_append, List.append_assoc]
    obtain ⟨cs, hquote, hstring⟩ := string_quote m.1 _
    rw [hquote]
    exact members_cons hstring (hm.after_blank (by omega) (ends_comma _)) (skip_cons rfl _) hrest

theorem readBack_obj {ms : List (String × Json)} (h : ∀ m ∈ ms, ReadBack m.2) :
    ReadBack (.obj ms) := by
  intro level fuel rest hfuel hrest
  obtain ⟨fuel, rfl⟩ := Nat.exists_eq_add_one_of_ne_zero (Nat.ne_zero_of_lt hfuel)
  cases ms with
  | nil => rw [prettyAt, value]; rfl
  | cons m ms =>
    obtain ⟨hm, hms⟩ := List.forall_mem_cons.1 h
    have htext : (prettyAt level (.obj (m :: ms))).toList = '\x7b' :: ((newline (level + 1)).toList ++
        ((quote m.1).toList ++ (':' :: ' ' :: ((prettyAt (level + 1) m.2).toList ++
          ((prettyMembers (level + 1) ms).toList ++ ((newline level).toList ++ ['\x7d'])))))) := by
      simp [prettyAt, String.toList_append]
    rw [htext] at hfuel ⊢
    simp only [List.length_cons, List.length_append] at hfuel
    have hmembers := members_prettyMembers (level + 1) level hm hms rest
      (show _ < fuel by omega)
    rw [← members_skip, ← skip_newline (level + 1), members_skip] at hmembers
    simp only [List.cons_append, List.append_assoc, List.nil_append]
    exact value_brace hmembers

/-- A plain value is read back. -/
theorem Plain.readBack {v : Json} (h : v.Plain) : v.ReadBack := by
  induction h with
  | null =>
    intro level fuel rest hfuel hrest
    obtain ⟨fuel, rfl⟩ := Nat.exists_eq_add_one_of_ne_zero (Nat.ne_zero_of_lt hfuel)
    rw [prettyAt, value]
    rfl
  | bool b =>
    intro level fuel rest hfuel hrest
    obtain ⟨fuel, rfl⟩ := Nat.exists_eq_add_one_of_ne_zero (Nat.ne_zero_of_lt hfuel)
    rw [prettyAt, value]
    cases b <;> rfl
  | int hlow hhigh => exact readBack_int hlow hhigh
  | str s => exact readBack_str s
  | arr _ ih => exact readBack_arr ih
  | obj _ ih => exact readBack_obj ih

/-- What is written of a plain value is read as that value. -/
theorem Plain.parse?_pretty {v : Json} (h : v.Plain) : parse? v.pretty = some v := by
  have hread : value (v.pretty.toList.length + 1) v.pretty.toList = some (v, []) := by
    have := h.readBack 0 (v.pretty.toList.length + 1) [] (Nat.lt_succ_self _) nofun
    rwa [List.append_nil] at this
  rw [parse?, hread]
  rfl

end Escrow.Json
