import Escrow.Wire.Reader
import Mathlib.Algebra.Group.Nat.Defs
import Mathlib.Tactic.Common

/-!
# What readers accept

A reader of the wire format accepts exactly what the writing side produces: it
takes a value from the front of a string of bytes if and only if the string is
the layout of the value and then the rest. As a layout has no second form, these
are equivalences, one for each reader, and a reader made of others is opened by
rewriting with those of its parts.

A value has a layout that can be read back if its lengths and counts are below
2^64, which is as far as a compact size goes (`sizeLimit`).

* `compactSize_eq_ok_iff`: a count is read from its shortest form only;
* `varBytes_eq_ok_iff`, `text_eq_ok_iff`, `bytesList_eq_ok_iff`: what follows its
  length or count;
* `count_times_eq_ok_iff`: a list after its count, if what is in it takes at least
  as many bytes as the reader says;
* `decode_eq_ok_iff`: the value of a whole string of bytes leaves nothing over;
* `compactSize_append_inj`: what follows a count is found whatever the count is.
-/

namespace Escrow

namespace Bytes

/-- Bytes stand for a number below that of all strings of as many bytes. -/
theorem ofLittleEndian_lt (bs : Bytes) : ofLittleEndian bs < 256 ^ bs.length := by
  induction bs with
  | nil => exact Nat.one_pos
  | cons b bs ih =>
    have hb := b.toNat_lt
    rw [ofLittleEndian, List.length_cons, Nat.pow_succ]
    omega

/-- The number that bytes stand for is written as these bytes. -/
theorem littleEndian_ofLittleEndian (bs : Bytes) :
    littleEndian bs.length (ofLittleEndian bs) = bs := by
  induction bs with
  | nil => rfl
  | cons b bs ih =>
    have hb := b.toNat_lt
    rw [ofLittleEndian, List.length_cons, littleEndian,
      show (b.toNat + 256 * ofLittleEndian bs) / 256 = ofLittleEndian bs by omega, ih]
    congr 1
    apply UInt8.toNat_inj.1
    rw [UInt8.toNat_ofNat']
    omega

/-- Bytes are a text if they are the bytes of one. -/
theorem text?_eq_some_iff {bs : Bytes} {s : String} : text? bs = some s ↔ bs = ofText s := by
  have hs : (⟨bs.toArray⟩ : ByteArray) = s.toByteArray ↔ bs = ofText s := by
    constructor
    · intro h
      rw [ofText, String.toUTF8, ← h]
    · rintro rfl
      rfl
  rw [text?, String.fromUTF8?]
  split
  · rw [Option.some.injEq, ← hs, ← String.toByteArray_inj]
    rfl
  · rename_i hb
    constructor
    · exact fun h => absurd h (Option.some_ne_none s).symm
    · exact fun h => absurd (hs.2 h ▸ s.isValidUTF8) hb

theorem length_ofText (s : String) : (ofText s).length = s.utf8ByteSize := rfl

end Bytes

namespace Wire

/-- The least number that a compact size cannot write. -/
def sizeLimit : Nat :=
  0x10000000000000000

theorem compactSize_ne_nil (n : Nat) : compactSize n ≠ [] := by
  rw [compactSize]
  split_ifs <;> exact List.cons_ne_nil _ _

/-- Layouts of at least a certain size in a row take as many times that size. -/
theorem mul_length_le_flatMap {α : Type} {wire : α → Bytes} {size : Nat}
    (hsize : ∀ a, size ≤ (wire a).length) (as : List α) :
    size * as.length ≤ (as.flatMap wire).length := by
  induction as with
  | nil => exact Nat.le_refl _
  | cons a as ih =>
    rw [List.flatMap_cons, List.length_append, List.length_cons, Nat.mul_succ, Nat.add_comm]
    exact Nat.add_le_add (hsize a) ih

/-- A layout takes no more bytes than the row that it is in. -/
theorem length_le_flatMap {α : Type} {wire : α → Bytes} {a : α} {as : List α} (h : a ∈ as) :
    (wire a).length ≤ (as.flatMap wire).length := by
  rw [List.flatMap_def]
  exact (List.sublist_flatten_of_mem (List.mem_map_of_mem h)).length_le

theorem length_varBytes_pos (bs : Bytes) : 1 ≤ (varBytes bs).length := by
  rw [varBytes, List.length_append]
  exact Nat.le_add_right_of_le (List.length_pos_iff.2 (compactSize_ne_nil bs.length))

/-- There are at least as many bytes as byte strings in a row. -/
theorem length_le_flatMap_varBytes (items : List Bytes) :
    items.length ≤ (items.flatMap varBytes).length :=
  Nat.one_mul items.length ▸ mul_length_le_flatMap length_varBytes_pos items

/-! ## What bytes show of counts -/

/-- The number of bytes that follow the first one of a compact size. -/
def tailWidth (mark : UInt8) : Nat :=
  if mark = 0xfd then 2 else if mark = 0xfe then 4 else if mark = 0xff then 8 else 0

/-- The first byte of a compact size shows how long it is, and whether it is zero. -/
theorem exists_compactSize_eq_cons (n : Nat) :
    ∃ mark tail, compactSize n = mark :: tail ∧ tail.length = tailWidth mark ∧
      (mark = 0 ↔ n = 0) := by
  rw [compactSize]
  -- A small count is a byte that is no mark.
  split
  · rename_i hn
    have hmark : (UInt8.ofNat n).toNat = n := UInt8.toNat_ofNat_of_lt' (Nat.lt_trans hn (by decide))
    refine ⟨UInt8.ofNat n, [], rfl, ?_, ?_⟩
    · rw [tailWidth, if_neg, if_neg, if_neg, List.length_nil]
      all_goals
        intro h
        simp only [h, UInt8.reduceToNat] at hmark
        omega
    · rw [← UInt8.toNat_inj, hmark, UInt8.toNat_zero]
  split
  · exact ⟨0xfd, _, rfl, Bytes.length_littleEndian .., iff_of_false (by decide) (by omega)⟩
  split
  · exact ⟨0xfe, _, rfl, Bytes.length_littleEndian .., iff_of_false (by decide) (by omega)⟩
  · exact ⟨0xff, _, rfl, Bytes.length_littleEndian .., iff_of_false (by decide) (by omega)⟩

/-- What follows a compact size is found whatever the size is. -/
theorem compactSize_append_inj {n m : Nat} {bs bs' : Bytes}
    (h : compactSize n ++ bs = compactSize m ++ bs') : (n = 0 ↔ m = 0) ∧ bs = bs' := by
  obtain ⟨mark, tail, hn, htail, hzero⟩ := exists_compactSize_eq_cons n
  obtain ⟨mark', tail', hm, htail', hzero'⟩ := exists_compactSize_eq_cons m
  rw [hn, hm, List.cons_append, List.cons_append, List.cons.injEq] at h
  obtain ⟨rfl, h⟩ := h
  exact ⟨hzero.symm.trans hzero', (List.append_inj h (htail.trans htail'.symm)).2⟩

theorem word_inj {n m : UInt32} (h : word n = word m) : n = m := by
  have hread := congrArg Bytes.ofLittleEndian h
  rw [word, word, Bytes.ofLittleEndian_littleEndian n.toNat_lt,
    Bytes.ofLittleEndian_littleEndian m.toNat_lt] at hread
  exact UInt32.toNat_inj.1 hread

/-- A count takes at most nine bytes. -/
theorem length_compactSize_le (n : Nat) : (compactSize n).length ≤ 9 := by
  obtain ⟨mark, tail, hn, htail, -⟩ := exists_compactSize_eq_cons n
  have hwidth : tailWidth mark ≤ 8 := by
    rw [tailWidth]
    split
    · decide
    split
    · decide
    split <;> decide
  rw [hn, List.length_cons, htail]
  exact Nat.succ_le_succ hwidth

end Wire

namespace Reader

variable {α β : Type} {field : String} {bs rest : Bytes}

/-! ## Readers in a row -/

/-- Who reads one thing after the other reads the second one from what the first leaves. -/
theorem bind_eq_ok_iff {r : Reader α} {f : α → Reader β} {b : β} :
    (r >>= f) bs = .ok b rest ↔ ∃ a mid, r bs = .ok a mid ∧ f a mid = .ok b rest := by
  change EStateM.bind r f bs = .ok b rest ↔ _
  rw [EStateM.bind]
  rcases r bs with ⟨a, mid⟩ | ⟨e, mid⟩
  · simp
  · simp

theorem pure_eq_ok_iff {a b : α} : (pure a : Reader α) bs = .ok b rest ↔ a = b ∧ bs = rest := by
  change EStateM.Result.ok a bs = .ok b rest ↔ _
  simp

theorem map_eq_ok_iff {r : Reader α} {f : α → β} {b : β} :
    (f <$> r) bs = .ok b rest ↔ ∃ a, r bs = .ok a rest ∧ f a = b := by
  rw [← bind_pure_comp, bind_eq_ok_iff]
  simp only [pure_eq_ok_iff]
  constructor
  · rintro ⟨a, _, ha, rfl, rfl⟩
    exact ⟨a, ha, rfl⟩
  · rintro ⟨a, ha, rfl⟩
    exact ⟨a, rest, ha, rfl, rfl⟩

theorem throw_ne_ok {e : DecodeError} {a : α} : (throw e : Reader α) bs ≠ .ok a rest := by
  change EStateM.Result.error e bs ≠ .ok a rest
  simp

/-- What is refused under a condition is read if the condition does not hold. -/
theorem ite_throw_eq_ok_iff {p : Prop} [Decidable p] {e : DecodeError} {f : β → Reader α}
    {r : Reader α} {a : α} :
    (if p then throw e >>= f else r : Reader α) bs = .ok a rest ↔ ¬p ∧ r bs = .ok a rest := by
  by_cases hp : p
  · simp [hp, bind_eq_ok_iff, throw_ne_ok]
  · simp [hp]

/-- A number of values in a row are read as their layouts in a row, for a reader
    that reads a value from its layout. -/
theorem times_eq_ok_iff {r : Reader α} {Fits : α → Prop} {wire : α → Bytes}
    (hr : ∀ {bs a rest}, r bs = .ok a rest ↔ Fits a ∧ bs = wire a ++ rest) {n : Nat}
    {as : List α} :
    times r n bs = .ok as rest ↔
      as.length = n ∧ (∀ a ∈ as, Fits a) ∧ bs = as.flatMap wire ++ rest := by
  -- Each member is read from what the members before it leave.
  induction n generalizing bs rest as with
  | zero =>
    rw [times, pure_eq_ok_iff, List.length_eq_zero_iff]
    constructor
    · rintro ⟨rfl, rfl⟩
      simp
    · rintro ⟨rfl, -, rfl⟩
      exact ⟨rfl, rfl⟩
  | succ n ih =>
    simp only [times, bind_eq_ok_iff, hr, ih, pure_eq_ok_iff]
    constructor
    · rintro ⟨a, _, ⟨ha, rfl⟩, as, _, ⟨rfl, has, rfl⟩, rfl, rfl⟩
      exact ⟨rfl, List.forall_mem_cons.2 ⟨ha, has⟩, by rw [List.flatMap_cons, List.append_assoc]⟩
    · rintro ⟨hn, has, rfl⟩
      obtain ⟨a, as, rfl⟩ := List.exists_cons_of_length_eq_add_one hn
      rw [List.forall_mem_cons] at has
      exact ⟨a, _, ⟨has.1, by rw [List.flatMap_cons, List.append_assoc]⟩, as, rest,
        ⟨Nat.succ.inj hn, has.2, rfl⟩, rfl, rfl⟩

theorem finish_eq_ok_iff {u : Unit} : finish bs = .ok u rest ↔ bs = [] ∧ rest = [] := by
  rcases bs with _ | ⟨b, bs⟩
  · simp [finish, eq_comm]
  · simp [finish]

/-- The value of a whole string of bytes is read from it with nothing left over. -/
theorem decode_eq_ok_iff {r : Reader α} {a : α} : decode r bs = .ok a ↔ r bs = .ok a [] := by
  have hwhole : (do let a ← r; finish; return a : Reader α) bs = .ok a [] ↔ r bs = .ok a [] := by
    simp only [bind_eq_ok_iff, finish_eq_ok_iff, pure_eq_ok_iff]
    constructor
    · rintro ⟨_, mid, ha, -, _, ⟨rfl, -⟩, rfl, -⟩
      exact ha
    · exact fun ha => ⟨a, [], ha, (), [], ⟨rfl, rfl⟩, rfl, rfl⟩
  rw [← hwhole, decode]
  cases hr : (do let a ← r; finish; return a : Reader α) bs with
  | error e mid => simp
  | ok b mid =>
    simp only [bind_eq_ok_iff, finish_eq_ok_iff, pure_eq_ok_iff] at hr
    obtain ⟨_, _, -, _, _, ⟨-, rfl⟩, -, rfl⟩ := hr
    simp

/-! ## Bytes and numbers -/

/-- Some bytes are read if there are as many. -/
theorem take_eq_ok_iff {n : Nat} {taken : Bytes} :
    take field n bs = .ok taken rest ↔ taken.length = n ∧ bs = taken ++ rest := by
  rw [take]
  split
  · rename_i hn
    constructor
    · exact nofun
    · rintro ⟨rfl, rfl⟩
      rw [List.length_append] at hn
      omega
  · rename_i hn
    rw [EStateM.Result.ok.injEq]
    constructor
    · rintro ⟨rfl, rfl⟩
      exact ⟨List.length_take_of_le (Nat.le_of_not_lt hn), (List.take_append_drop n bs).symm⟩
    · rintro ⟨rfl, rfl⟩
      exact ⟨List.take_left, List.drop_left⟩

theorem byte_eq_ok_iff {b : UInt8} : byte field bs = .ok b rest ↔ bs = b :: rest := by
  rcases bs with _ | ⟨c, bs⟩
  · simp [byte]
  · simp [byte]

theorem octets_eq_ok_iff {n : Nat} {o : Octets n} :
    octets field n bs = .ok o rest ↔ bs = o.bytes ++ rest := by
  rw [octets]
  split
  · rename_i hn
    constructor
    · intro h
      cases h
    · rintro rfl
      rw [List.length_append, o.length_eq] at hn
      omega
  · rw [EStateM.Result.ok.injEq, Octets.ext_iff]
    constructor
    · rintro ⟨ho, rfl⟩
      rw [← ho, List.take_append_drop]
    · rintro rfl
      exact ⟨List.take_left' o.length_eq, List.drop_left' o.length_eq⟩

/-- A number is read from its bytes, least byte first. -/
theorem bind_take_eq_ok_iff {width : Nat} {f : Nat → Reader β} {b : β} :
    (do f (Bytes.ofLittleEndian (← take field width)) : Reader β) bs = .ok b rest ↔
      ∃ n mid, (n < 256 ^ width ∧ bs = Bytes.littleEndian width n ++ mid) ∧
        f n mid = .ok b rest := by
  simp only [bind_eq_ok_iff, take_eq_ok_iff]
  constructor
  · rintro ⟨taken, mid, ⟨rfl, rfl⟩, hf⟩
    exact ⟨_, mid, ⟨Bytes.ofLittleEndian_lt taken, by rw [Bytes.littleEndian_ofLittleEndian]⟩, hf⟩
  · rintro ⟨n, mid, ⟨hn, rfl⟩, hf⟩
    refine ⟨_, mid, ⟨Bytes.length_littleEndian width n, rfl⟩, ?_⟩
    rwa [Bytes.ofLittleEndian_littleEndian hn]

theorem word_eq_ok_iff {n : UInt32} :
    word field bs = .ok n rest ↔ bs = Wire.word n ++ rest := by
  rw [word, bind_take_eq_ok_iff (f := fun n => pure (UInt32.ofNat n))]
  simp only [pure_eq_ok_iff]
  constructor
  · rintro ⟨m, _, ⟨hm, rfl⟩, rfl, rfl⟩
    rw [Wire.word, UInt32.toNat_ofNat_of_lt' hm]
  · rintro rfl
    exact ⟨n.toNat, rest, ⟨n.toNat_lt, rfl⟩, UInt32.ofNat_toNat, rfl⟩

theorem signed_eq_ok_iff {n : Int64} :
    signed field bs = .ok n rest ↔ bs = Wire.signed n ++ rest := by
  rw [signed, bind_take_eq_ok_iff (f := fun n => pure (UInt64.ofNat n).toInt64)]
  simp only [pure_eq_ok_iff]
  constructor
  · rintro ⟨m, _, ⟨hm, rfl⟩, rfl, rfl⟩
    rw [Wire.signed, UInt64.toUInt64_toInt64, UInt64.toNat_ofNat_of_lt' hm]
  · rintro rfl
    refine ⟨n.toUInt64.toNat, rest, ⟨n.toUInt64.toNat_lt, rfl⟩, ?_, rfl⟩
    rw [UInt64.ofNat_toNat, Int64.toInt64_toUInt64]

/-! ## Counts -/

/-- What follows a mark is a number, but not one that a shorter form has. -/
theorem compactTail_eq_ok_iff {width least n : Nat} :
    compactTail field width least bs = .ok n rest ↔
      (least ≤ n ∧ n < 256 ^ width) ∧ bs = Bytes.littleEndian width n ++ rest := by
  rw [compactTail, bind_take_eq_ok_iff
    (f := fun n => if n < least then throw (.nonCanonical field) >>= fun _ => pure n else pure n)]
  simp only [ite_throw_eq_ok_iff, pure_eq_ok_iff, Nat.not_lt]
  constructor
  · rintro ⟨m, _, ⟨hm, rfl⟩, hle, rfl, rfl⟩
    exact ⟨⟨hle, hm⟩, rfl⟩
  · rintro ⟨⟨hle, hn⟩, rfl⟩
    exact ⟨n, rest, ⟨hn, rfl⟩, hle, rfl, rfl⟩

/-- A count is read from its shortest form, and from no other. -/
theorem compactSize_eq_ok_iff {n : Nat} :
    compactSize field bs = .ok n rest ↔
      n < Wire.sizeLimit ∧ bs = Wire.compactSize n ++ rest := by
  rw [compactSize, Wire.sizeLimit]
  simp only [bind_eq_ok_iff, byte_eq_ok_iff]
  constructor
  · rintro ⟨mark, mid, rfl, hn⟩
    split at hn
    · rename_i hmark
      obtain ⟨⟨hle, hlt⟩, rfl⟩ := compactTail_eq_ok_iff.1 hn
      rw [hmark, Wire.compactSize, if_neg (by omega), if_pos (by omega)]
      exact ⟨by omega, rfl⟩
    split at hn
    · rename_i hmark
      obtain ⟨⟨hle, hlt⟩, rfl⟩ := compactTail_eq_ok_iff.1 hn
      rw [hmark, Wire.compactSize, if_neg (by omega), if_neg (by omega), if_pos (by omega)]
      exact ⟨by omega, rfl⟩
    split at hn
    · rename_i hmark
      obtain ⟨⟨hle, hlt⟩, rfl⟩ := compactTail_eq_ok_iff.1 hn
      rw [hmark, Wire.compactSize, if_neg (by omega), if_neg (by omega), if_neg (by omega)]
      exact ⟨by omega, rfl⟩
    · -- No mark: the byte is the count.
      rename_i hfd hfe hff
      obtain ⟨rfl, rfl⟩ := pure_eq_ok_iff.1 hn
      have hlt : mark.toNat < 0xfd := by
        rw [← UInt8.toNat_inj] at hfd hfe hff
        have := mark.toNat_lt
        simp only [UInt8.toNat_ofNat] at hfd hfe hff
        omega
      rw [Wire.compactSize, if_pos hlt, UInt8.ofNat_toNat]
      exact ⟨by omega, rfl⟩
  · rintro ⟨hlim, rfl⟩
    rw [Wire.compactSize]
    split
    · rename_i hlt
      refine ⟨UInt8.ofNat n, rest, rfl, ?_⟩
      have hmark : (UInt8.ofNat n).toNat = n :=
        UInt8.toNat_ofNat_of_lt' (Nat.lt_trans hlt (by decide))
      -- A count below the first mark is none of the three.
      rw [if_neg, if_neg, if_neg, hmark]
      · rfl
      all_goals
        intro h
        simp only [h, UInt8.reduceToNat] at hmark
        omega
    split
    · exact ⟨_, _, rfl, compactTail_eq_ok_iff.2 ⟨⟨by omega, by omega⟩, rfl⟩⟩
    split
    · exact ⟨_, _, rfl, compactTail_eq_ok_iff.2 ⟨⟨by omega, by omega⟩, rfl⟩⟩
    · exact ⟨_, _, rfl, compactTail_eq_ok_iff.2 ⟨⟨by omega, by omega⟩, rfl⟩⟩

/-- A count of members is read if so many can follow. -/
theorem count_eq_ok_iff {size n : Nat} :
    count field size bs = .ok n rest ↔
      n < Wire.sizeLimit ∧ n ≤ rest.length / size ∧ bs = Wire.compactSize n ++ rest := by
  simp only [count, remaining, bind_eq_ok_iff, compactSize_eq_ok_iff, ite_throw_eq_ok_iff,
    pure_eq_ok_iff, EStateM.Result.ok.injEq, gt_iff_lt, Nat.not_lt]
  constructor
  · rintro ⟨n, _, ⟨hn, rfl⟩, _, _, ⟨rfl, rfl⟩, hle, rfl, rfl⟩
    exact ⟨hn, hle, rfl⟩
  · rintro ⟨hn, hle, rfl⟩
    exact ⟨n, rest, ⟨hn, rfl⟩, rest.length, rest, ⟨rfl, rfl⟩, hle, rfl, rfl⟩

/-- Bytes are read from their count and themselves. -/
theorem varBytes_eq_ok_iff {content : Bytes} :
    varBytes field bs = .ok content rest ↔
      content.length < Wire.sizeLimit ∧ bs = Wire.varBytes content ++ rest := by
  simp only [varBytes, bind_eq_ok_iff, count_eq_ok_iff, take_eq_ok_iff, Nat.div_one]
  constructor
  · rintro ⟨n, _, ⟨hn, hle, rfl⟩, rfl, rfl⟩
    exact ⟨hn, by rw [Wire.varBytes, List.append_assoc]⟩
  · rintro ⟨hn, rfl⟩
    exact ⟨_, _, ⟨hn, by rw [List.length_append]; exact Nat.le_add_right .., by
      rw [Wire.varBytes, List.append_assoc]⟩, rfl, rfl⟩

theorem text_eq_ok_iff {s : String} :
    text field bs = .ok s rest ↔
      (Bytes.ofText s).length < Wire.sizeLimit ∧ bs = Wire.text s ++ rest := by
  simp only [text, bind_eq_ok_iff, varBytes_eq_ok_iff]
  constructor
  · rintro ⟨content, mid, ⟨hlen, rfl⟩, hs⟩
    cases htext : Bytes.text? content with
    | none =>
      rw [htext] at hs
      exact absurd hs throw_ne_ok
    | some t =>
      rw [htext] at hs
      obtain ⟨rfl, rfl⟩ := pure_eq_ok_iff.1 hs
      obtain rfl := Bytes.text?_eq_some_iff.1 htext
      exact ⟨hlen, rfl⟩
  · rintro ⟨hlen, rfl⟩
    refine ⟨_, rest, ⟨hlen, rfl⟩, ?_⟩
    rw [Bytes.text?_eq_some_iff.2 rfl]
    rfl

/-- A list after its count is read as its layout, for a reader of what is in it. A
    count of what takes at least `size` bytes each passes the comparison with the
    bytes that are left. -/
theorem count_times_eq_ok_iff {r : Reader α} {Fits : α → Prop} {wire : α → Bytes} {size : Nat}
    (hr : ∀ {bs a rest}, r bs = .ok a rest ↔ Fits a ∧ bs = wire a ++ rest) (hpos : 0 < size)
    (hsize : ∀ a, size ≤ (wire a).length) {as : List α} :
    (∃ n mid, count field size bs = .ok n mid ∧ times r n mid = .ok as rest) ↔
      (as.length < Wire.sizeLimit ∧ ∀ a ∈ as, Fits a) ∧
        bs = Wire.compactSize as.length ++ (as.flatMap wire ++ rest) := by
  simp only [count_eq_ok_iff, times_eq_ok_iff hr]
  constructor
  · rintro ⟨n, _, ⟨hn, -, rfl⟩, rfl, has, rfl⟩
    exact ⟨⟨hn, has⟩, rfl⟩
  · rintro ⟨⟨hn, has⟩, rfl⟩
    have hle : as.length ≤ (as.flatMap wire ++ rest).length / size := by
      rw [Nat.le_div_iff_mul_le hpos, Nat.mul_comm, List.length_append]
      exact Nat.le_add_right_of_le (Wire.mul_length_le_flatMap hsize as)
    exact ⟨_, _, ⟨hn, hle, rfl⟩, rfl, has, rfl⟩

theorem bytesList_eq_ok_iff {items : List Bytes} :
    bytesList field bs = .ok items rest ↔
      (items.length < Wire.sizeLimit ∧ ∀ item ∈ items, item.length < Wire.sizeLimit) ∧
        bs = Wire.bytesList items ++ rest := by
  rw [bytesList, bind_eq_ok_iff,
    count_times_eq_ok_iff varBytes_eq_ok_iff Nat.one_pos Wire.length_varBytes_pos, Wire.bytesList,
    List.append_assoc]

end Reader

end Escrow
