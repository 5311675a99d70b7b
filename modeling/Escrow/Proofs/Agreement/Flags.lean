import Escrow.Agreement.Flags
import Escrow.Proofs.Text.Blank
import Mathlib.Data.List.Nodup

/-!
# Flags read back from their text

A set of flags is read back from its text, bits without a name included
(`Flags.ofText?_text`), if the names of its flags make a *table* (`Flags.Table`): each
is a word that looks like no number and stands for a single bit, and no two are the same.

The text is made of words, each of which stands for some bits (`Flags.words`). It is cut
into these words again (`trim_pieces`), each word is read as its bits (`piece?_words`),
and the bits of all words together are the set (`union_words`).
-/

namespace Escrow

namespace Flags

/-! ## Words -/

/-- A text of at least one character, none of them blank or a bar. -/
def IsWord (s : String) : Prop :=
  s.toList ≠ [] ∧ ∀ c ∈ s.toList, c ≠ '|' ∧ Text.isBlank c = false

instance (s : String) : Decidable (IsWord s) :=
  @instDecidableAnd _ _ inferInstance (List.decidableBAll _ _)

namespace IsWord

variable {w : String} (h : IsWord w)
include h

/-- There is no bar in a word, nor in the blanks before it. -/
theorem bar_not_mem {front : List Char} (hfront : ∀ c ∈ front, Text.isBlank c = true) :
    '|' ∉ front ++ w.toList := by
  rw [List.mem_append, not_or]
  exact ⟨fun hmem => absurd (hfront _ hmem) (by decide), fun hmem => (h.2 _ hmem).1 rfl⟩

/-- A word is what is left of it and the blanks around it. -/
theorem trim {front back : List Char} (hfront : ∀ c ∈ front, Text.isBlank c = true)
    (hback : ∀ c ∈ back, Text.isBlank c = true) :
    Text.trim (String.ofList (front ++ w.toList ++ back)) = w := by
  rw [Text.trim_ofList hfront h.1 (fun c hc => (h.2 c hc).2) hback, String.ofList_toList]

end IsWord

/-- A text without a bar is one piece. -/
theorem pieces_of_not_mem {p : List Char} (h : '|' ∉ p) : pieces p = [p] := by
  induction p with
  | nil => rfl
  | cons c p ih =>
    obtain ⟨hc, hp⟩ := List.ne_and_not_mem_of_not_mem_cons h
    rw [pieces, if_neg (Ne.symm hc), ih hp]

/-- The first piece ends at the first bar. -/
theorem pieces_append {p : List Char} (h : '|' ∉ p) (rest : List Char) :
    pieces (p ++ '|' :: rest) = p :: pieces rest := by
  induction p with
  | nil => rw [List.nil_append, pieces, if_pos rfl]
  | cons c p ih =>
    obtain ⟨hc, hp⟩ := List.ne_and_not_mem_of_not_mem_cons h
    rw [List.cons_append, pieces, if_neg (Ne.symm hc), ih hp]

/-- Words joined by bars are cut into these words. -/
theorem trim_pieces {front : List Char} (hfront : ∀ c ∈ front, Text.isBlank c = true)
    {w : String} {ws : List String} (h : ∀ v ∈ w :: ws, IsWord v) :
    (pieces (front ++ (" | ".intercalate (w :: ws)).toList)).map
      (fun p => Text.trim (String.ofList p)) = w :: ws := by
  -- A piece ends at the first bar, and what stands in front of the next word is one space.
  induction ws generalizing front w with
  | nil =>
    have hw := h w List.mem_cons_self
    have htrim := hw.trim hfront (List.forall_mem_nil _)
    rw [List.append_nil] at htrim
    rw [String.intercalate_singleton, pieces_of_not_mem (hw.bar_not_mem hfront),
      List.map_singleton, htrim]
  | cons v ws ih =>
    obtain ⟨hw, hws⟩ := List.forall_mem_cons.1 h
    have hspace : ∀ c ∈ [' '], Text.isBlank c = true := List.forall_mem_singleton.2 rfl
    have hbar : '|' ∉ front ++ w.toList ++ [' '] := by
      rw [List.mem_append, not_or]
      exact ⟨hw.bar_not_mem hfront, by decide⟩
    have hcut : front ++ (" | ".intercalate (w :: v :: ws)).toList =
        (front ++ w.toList ++ [' ']) ++
          '|' :: ([' '] ++ (" | ".intercalate (v :: ws)).toList) := by
      simp [String.intercalate_cons_cons]
    rw [hcut, pieces_append hbar, List.map_cons, hw.trim hfront hspace, ih hspace hws]

/-- The first word is part of the text of all. -/
theorem mem_intercalate {w : String} {c : Char} (hc : c ∈ w.toList) (ws : List String) :
    c ∈ (" | ".intercalate (w :: ws)).toList := by
  cases ws with
  | nil => rwa [String.intercalate_singleton]
  | cons v ws => simp [String.intercalate_cons_cons, hc]

/-- The words of the text of a set, with the bits that they stand for. -/
def words (names : List (String × UInt8)) (bits : UInt8) : List (String × UInt8) :=
  let named := names.filter fun f => bits &&& f.2 ≠ 0
  let rest := named.foldl (fun b f => b &&& ~~~f.2) bits
  if rest = 0 then named
  else named ++ [("0x" ++ String.ofList (Nat.toDigits 16 rest.toNat), rest)]

/-- The text of a set is that of its words, joined by bars. -/
theorem text_eq (names : List (String × UInt8)) (bits : UInt8) :
    text names bits = " | ".intercalate ((words names bits).map Prod.fst) := by
  rw [text, split, words]
  dsimp only
  split
  · rfl
  · rw [List.map_append, List.map_singleton]

/-! ## What words stand for -/

/-- Names of flags that can be told from each other and from numbers, and the single bit
    of each. -/
structure Table (names : List (String × UInt8)) : Prop where
  isWord : ∀ f ∈ names, IsWord f.1
  not_number : ∀ f ∈ names, f.1.toList.take 2 ≠ ['0', 'x']
  nodup : (names.map Prod.fst).Nodup
  single : ∀ f ∈ names, ∀ bits : UInt8, bits &&& f.2 ≠ 0 → bits &&& f.2 = f.2

variable {names : List (String × UInt8)} {bits : UInt8} {f : String × UInt8}

/-- Bytes are the numbers below 256, which can be gone through one by one. -/
theorem forall_of_lt {P : UInt8 → Prop} (h : ∀ n < 256, P (UInt8.ofNat n)) (b : UInt8) : P b := by
  have hb := h b.toNat b.toNat_lt
  rwa [UInt8.ofNat_toNat] at hb

theorem toList_hex (n : Nat) :
    ("0x" ++ String.ofList (Nat.toDigits 16 n)).toList = '0' :: 'x' :: Nat.toDigits 16 n := by
  simp

theorem isWord_hex (b : UInt8) : IsWord ("0x" ++ String.ofList (Nat.toDigits 16 b.toNat)) := by
  have hdigits : (Nat.toDigits 16 b.toNat).all (fun c => c ≠ '|' && !Text.isBlank c) = true := by
    revert b
    refine forall_of_lt ?_
    decide +kernel
  rw [IsWord, toList_hex]
  refine ⟨List.cons_ne_nil _ _, List.forall_mem_cons.2 ⟨by decide, List.forall_mem_cons.2
    ⟨by decide, fun c hc => ?_⟩⟩⟩
  simpa using List.all_eq_true.1 hdigits c hc

/-- A number in hexadecimal is read as the bits that it stands for. -/
theorem piece?_hex (b : UInt8) :
    piece? names ("0x" ++ String.ofList (Nat.toDigits 16 b.toNat)) = some b := by
  have hread : hexByte? (Nat.toDigits 16 b.toNat) = some b := by
    revert b
    refine forall_of_lt ?_
    decide +kernel
  rw [piece?, toList_hex]
  exact hread

namespace Table

variable (h : Table names)
include h

theorem piece?_name (hf : f ∈ names) : piece? names f.1 = some f.2 := by
  have hfind : names.find? (·.1 = f.1) = some f := by
    obtain ⟨g, hg⟩ := Option.isSome_iff_exists.1
      (List.find?_isSome.2 ⟨f, hf, decide_eq_true rfl⟩ : (names.find? (·.1 = f.1)).isSome)
    have hname : g.1 = f.1 := by simpa using List.find?_some hg
    rw [hg, List.inj_on_of_nodup_map h.nodup (List.mem_of_find?_eq_some hg) hf hname]
  rw [piece?]
  -- A name of a flag is not taken for a number.
  split
  · next cs hcs =>
    have hnumber := h.not_number f hf
    rw [hcs] at hnumber
    exact absurd rfl hnumber
  · rw [hfind, Option.map_some]

theorem isWord_words (hf : f ∈ words names bits) : IsWord f.1 := by
  rw [words] at hf
  -- Bits without a name make one more word, a number.
  split at hf
  · exact h.isWord f (List.mem_of_mem_filter hf)
  · rcases List.mem_append.1 hf with hf | hf
    · exact h.isWord f (List.mem_of_mem_filter hf)
    · rw [List.mem_singleton.1 hf]
      exact isWord_hex _

/-- Each word of the text is read as the bits that it stands for. -/
theorem piece?_words (hf : f ∈ words names bits) : piece? names f.1 = some f.2 := by
  rw [words] at hf
  split at hf
  · exact h.piece?_name (List.mem_of_mem_filter hf)
  · rcases List.mem_append.1 hf with hf | hf
    · exact h.piece?_name (List.mem_of_mem_filter hf)
    · rw [List.mem_singleton.1 hf]
      exact piece?_hex _

end Table

/-! ## The bits of all words -/

/-- What is taken out of a set by names is what these put together, if each name stands
    for bits of the set. -/
theorem foldl_union {fs : List (String × UInt8)} (hfs : ∀ f ∈ fs, bits &&& f.2 = f.2)
    {put rest : UInt8} (hunion : put ||| rest = bits) :
    fs.foldl (fun b f => b ||| f.2) put ||| fs.foldl (fun b f => b &&& ~~~f.2) rest = bits := by
  induction fs generalizing put rest with
  | nil => exact hunion
  | cons f fs ih =>
    obtain ⟨hf, hfs⟩ := List.forall_mem_cons.1 hfs
    refine ih hfs ?_
    subst hunion
    -- Bit by bit: what `f` takes out of the rest it puts in.
    rw [← UInt8.toBitVec_inj] at hf ⊢
    ext i hi
    have hbit := congrArg (·[i]) hf
    simp only [UInt8.toBitVec_or, UInt8.toBitVec_and, UInt8.toBitVec_not, BitVec.getElem_or,
      BitVec.getElem_and, BitVec.getElem_not] at hbit ⊢
    grind

/-- The words of a set stand for all of its bits, and no others. -/
theorem Table.union_words (h : Table names) (bits : UInt8) :
    (words names bits).foldl (fun b f => b ||| f.2) 0 = bits := by
  have hnamed : ∀ f ∈ names.filter (fun f => bits &&& f.2 ≠ 0), bits &&& f.2 = f.2 := by
    intro f hf
    obtain ⟨hmem, hmeets⟩ := List.mem_filter.1 hf
    exact h.single f hmem bits (of_decide_eq_true hmeets)
  have hunion := foldl_union hnamed (UInt8.zero_or : 0 ||| bits = bits)
  rw [words]
  split
  · next hrest => rwa [hrest, UInt8.or_zero] at hunion
  · rwa [List.foldl_append, List.foldl_cons, List.foldl_nil]

/-- Words are read one after the other, each adding its bits. -/
theorem foldlM_piece? {ws : List (String × UInt8)} (hws : ∀ f ∈ ws, piece? names f.1 = some f.2)
    (bits : UInt8) :
    (ws.map Prod.fst).foldlM (fun b w => (piece? names w).map (b ||| ·)) bits =
      some (ws.foldl (fun b f => b ||| f.2) bits) := by
  induction ws generalizing bits with
  | nil => rfl
  | cons w ws ih =>
    obtain ⟨hw, hws⟩ := List.forall_mem_cons.1 hws
    rw [List.map_cons, List.foldlM_cons, hw]
    exact ih hws _

/-- A set is read back from its text. -/
theorem ofText?_text (h : Table names) (bits : UInt8) :
    ofText? names (text names bits) = some bits := by
  have hunion := h.union_words bits
  have hpieces : ∀ f ∈ words names bits, piece? names f.1 = some f.2 :=
    fun f hf => h.piece?_words hf
  have hwords : ∀ v ∈ (words names bits).map Prod.fst, IsWord v :=
    List.forall_mem_map.2 fun f hf => h.isWord_words hf
  have hread := foldlM_piece? hpieces 0
  rw [text_eq]
  cases hlist : (words names bits).map Prod.fst with
  | nil =>
    -- No words, no bits: the text is empty.
    rw [List.map_eq_nil_iff] at hlist
    rw [hlist] at hunion
    rw [← hunion]
    rfl
  | cons w ws =>
    rw [hlist] at hwords hread
    obtain ⟨hne, hw⟩ := hwords w List.mem_cons_self
    obtain ⟨c, hc⟩ := List.exists_mem_of_ne_nil _ hne
    have hempty := Text.isEmpty_trim (mem_intercalate hc ws) (hw c hc).2
    have hcut := trim_pieces (List.forall_mem_nil _) hwords
    rw [List.nil_append] at hcut
    rw [← hcut, List.foldlM_map] at hread
    rw [ofText?, hempty, if_neg Bool.false_ne_true, hread, hunion]

end Flags

namespace OfferFlags

theorem table_names : Flags.Table names where
  isWord := by decide
  not_number := by decide
  nodup := by decide
  single := by
    intro f hf
    refine Flags.forall_of_lt ?_
    revert f
    decide +kernel

theorem ofText?_text (f : OfferFlags) : ofText? f.text = some f := by
  rw [ofText?, text, Flags.ofText?_text table_names]
  rfl

end OfferFlags

namespace DisputeFlags

theorem table_names : Flags.Table names where
  isWord := by decide
  not_number := by decide
  nodup := by decide
  single := by
    intro f hf
    refine Flags.forall_of_lt ?_
    revert f
    decide +kernel

theorem ofText?_text (f : DisputeFlags) : ofText? f.text = some f := by
  rw [ofText?, text, Flags.ofText?_text table_names]
  rfl

end DisputeFlags

end Escrow
