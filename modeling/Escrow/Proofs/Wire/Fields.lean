import Escrow.Proofs.Agreement.Payloads

/-!
# Fields

A *field* is a value that is laid out by itself, and its *kind* is what has to be known
to read it: for bytes without a length before them, how many they are. Fields are
written one after the other and read one after the other, each under a name.

* `Kind.read_eq_ok_iff`: a field of a kind is read from its layout and from nothing else;
* `Kind.readAll_eq_ok_iff`: so are fields in a row, and nothing is lost between them;
* `IsForm.refused`: a count might be laid out in a longer form than its shortest one, but
  is not read from it.

Main statement: `reads_invert_writes`.
-/

namespace Escrow

namespace Wire

/-- How a field is laid out. -/
inductive Kind
  | byte
  | word
  | signed
  | compactSize
  /-- So many bytes, without their length. -/
  | raw (length : Nat)
  | varBytes
  | text
  | id
  | bytesList
  deriving DecidableEq

/-- A value that is laid out by itself. -/
inductive Field
  | byte (b : UInt8)
  | word (n : UInt32)
  | signed (n : Int64)
  | compactSize (n : UInt64)
  | raw (bs : Bytes)
  | varBytes (bs : Bytes)
  | text (s : String)
  | id (id : TxId)
  | bytesList (items : List Bytes)
  deriving DecidableEq

namespace Field

/-- The kind of a field. -/
def kind : Field → Kind
  | byte _ => .byte
  | word _ => .word
  | signed _ => .signed
  | compactSize _ => .compactSize
  | raw bs => .raw bs.length
  | varBytes _ => .varBytes
  | text _ => .text
  | id _ => .id
  | bytesList _ => .bytesList

/-- The layout of a field. -/
def wire : Field → Bytes
  | byte b => [b]
  | word n => Wire.word n
  | signed n => Wire.signed n
  | compactSize n => Wire.compactSize n.toNat
  | raw bs => bs
  | varBytes bs => Wire.varBytes bs
  | text s => Wire.text s
  | id i => i.bytes
  | bytesList items => Wire.bytesList items

/-- The lengths and counts in a field can be written. -/
def Fits : Field → Prop
  | varBytes bs => Wire.Fits bs
  | text s => Wire.Fits (Bytes.ofText s)
  | bytesList items => FitsList items
  | byte _ | word _ | signed _ | compactSize _ | raw _ | id _ => True

/-- They can if the whole of its layout has a length that can. -/
theorem fits_of_wire {f : Field} (hlen : f.wire.length < sizeLimit) : f.Fits := by
  cases f with
  | varBytes bs => exact fits_of_varBytes hlen
  | text s => exact fits_of_varBytes hlen
  | bytesList items => exact fitsList_of_bytesList hlen
  | _ => trivial

end Field

namespace Kind

/-- Reads a field of a kind. -/
def read (name : String) : Kind → Reader Field
  | byte => .byte <$> Reader.byte name
  | word => .word <$> Reader.word name
  | signed => .signed <$> Reader.signed name
  | compactSize => (fun n => .compactSize (UInt64.ofNat n)) <$> Reader.compactSize name
  | raw length => .raw <$> Reader.take name length
  | varBytes => .varBytes <$> Reader.varBytes name
  | text => .text <$> Reader.text name
  | id => .id <$> TxId.read name
  | bytesList => .bytesList <$> Reader.bytesList name

/-- Reads fields in a row, each of a kind and under a name. -/
def readAll : List (String × Kind) → Reader (List Field)
  | [] => return []
  | (name, k) :: ks => do
    let f ← k.read name
    return f :: (← readAll ks)

variable {name : String} {k : Kind} {ks : List (String × Kind)} {f : Field} {fs : List Field}
variable {bs rest : Bytes}

/-- What is read is a field of the kind, and its layout was there. -/
theorem of_read_eq_ok (h : k.read name bs = .ok f rest) :
    (f.kind = k ∧ f.Fits) ∧ bs = f.wire ++ rest := by
  -- Each kind is read in its own way, and gives a field of the kind.
  cases k with
  | byte =>
    obtain ⟨b, hb, rfl⟩ := Reader.map_eq_ok_iff.1 h
    exact ⟨⟨rfl, trivial⟩, Reader.byte_eq_ok_iff.1 hb⟩
  | word =>
    obtain ⟨n, hn, rfl⟩ := Reader.map_eq_ok_iff.1 h
    exact ⟨⟨rfl, trivial⟩, Reader.word_eq_ok_iff.1 hn⟩
  | signed =>
    obtain ⟨n, hn, rfl⟩ := Reader.map_eq_ok_iff.1 h
    exact ⟨⟨rfl, trivial⟩, Reader.signed_eq_ok_iff.1 hn⟩
  | compactSize =>
    obtain ⟨n, hn, rfl⟩ := Reader.map_eq_ok_iff.1 h
    obtain ⟨hlt, rfl⟩ := Reader.compactSize_eq_ok_iff.1 hn
    exact ⟨⟨rfl, trivial⟩, by rw [Field.wire, UInt64.toNat_ofNat_of_lt' hlt]⟩
  | raw length =>
    obtain ⟨taken, htaken, rfl⟩ := Reader.map_eq_ok_iff.1 h
    obtain ⟨rfl, rfl⟩ := Reader.take_eq_ok_iff.1 htaken
    exact ⟨⟨rfl, trivial⟩, rfl⟩
  | varBytes =>
    obtain ⟨content, hcontent, rfl⟩ := Reader.map_eq_ok_iff.1 h
    obtain ⟨hfits, rfl⟩ := Reader.varBytes_eq_ok_iff.1 hcontent
    exact ⟨⟨rfl, hfits⟩, rfl⟩
  | text =>
    obtain ⟨s, hs, rfl⟩ := Reader.map_eq_ok_iff.1 h
    obtain ⟨hfits, rfl⟩ := Reader.text_eq_ok_iff.1 hs
    exact ⟨⟨rfl, hfits⟩, rfl⟩
  | id =>
    obtain ⟨i, hi, rfl⟩ := Reader.map_eq_ok_iff.1 h
    exact ⟨⟨rfl, trivial⟩, TxId.read_eq_ok_iff.1 hi⟩
  | bytesList =>
    obtain ⟨items, hitems, rfl⟩ := Reader.map_eq_ok_iff.1 h
    obtain ⟨hfits, rfl⟩ := Reader.bytesList_eq_ok_iff.1 hitems
    exact ⟨⟨rfl, hfits⟩, rfl⟩

/-- A field is read from its layout by a reader of its kind. -/
theorem read_kind (hfits : f.Fits) : f.kind.read name (f.wire ++ rest) = .ok f rest := by
  cases f with
  | byte b => exact Reader.map_eq_ok_iff.2 ⟨b, Reader.byte_eq_ok_iff.2 rfl, rfl⟩
  | word n => exact Reader.map_eq_ok_iff.2 ⟨n, Reader.word_eq_ok_iff.2 rfl, rfl⟩
  | signed n => exact Reader.map_eq_ok_iff.2 ⟨n, Reader.signed_eq_ok_iff.2 rfl, rfl⟩
  | compactSize n =>
    refine Reader.map_eq_ok_iff.2
      ⟨n.toNat, Reader.compactSize_eq_ok_iff.2 ⟨n.toNat_lt, rfl⟩, ?_⟩
    rw [UInt64.ofNat_toNat]
  | raw bs => exact Reader.map_eq_ok_iff.2 ⟨bs, Reader.take_eq_ok_iff.2 ⟨rfl, rfl⟩, rfl⟩
  | varBytes bs => exact Reader.map_eq_ok_iff.2 ⟨bs, Reader.varBytes_eq_ok_iff.2 ⟨hfits, rfl⟩, rfl⟩
  | text s => exact Reader.map_eq_ok_iff.2 ⟨s, Reader.text_eq_ok_iff.2 ⟨hfits, rfl⟩, rfl⟩
  | id i => exact Reader.map_eq_ok_iff.2 ⟨i, TxId.read_eq_ok_iff.2 rfl, rfl⟩
  | bytesList items =>
    exact Reader.map_eq_ok_iff.2 ⟨items, Reader.bytesList_eq_ok_iff.2 ⟨hfits, rfl⟩, rfl⟩

/-- A field of a kind is read from its layout, if its lengths can be written. -/
theorem read_eq_ok_iff :
    k.read name bs = .ok f rest ↔ (f.kind = k ∧ f.Fits) ∧ bs = f.wire ++ rest := by
  refine ⟨of_read_eq_ok, ?_⟩
  rintro ⟨⟨rfl, hfits⟩, rfl⟩
  exact read_kind hfits

/-- Fields in a row are read from their layouts in a row. -/
theorem readAll_eq_ok_iff :
    readAll ks bs = .ok fs rest ↔
      (fs.map Field.kind = ks.map Prod.snd ∧ ∀ f ∈ fs, f.Fits) ∧
        bs = fs.flatMap Field.wire ++ rest := by
  induction ks generalizing bs rest fs with
  | nil =>
    rw [readAll, Reader.pure_eq_ok_iff, List.map_nil, List.map_eq_nil_iff]
    constructor
    · rintro ⟨rfl, rfl⟩
      exact ⟨⟨rfl, nofun⟩, rfl⟩
    · rintro ⟨⟨rfl, -⟩, rfl⟩
      exact ⟨rfl, rfl⟩
  | cons nk ks ih =>
    simp only [readAll, Reader.bind_eq_ok_iff, Reader.pure_eq_ok_iff, read_eq_ok_iff, ih]
    constructor
    · rintro ⟨f, _, ⟨⟨hkind, hf⟩, rfl⟩, fs, _, ⟨⟨hkinds, hfs⟩, rfl⟩, rfl, rfl⟩
      refine ⟨⟨?_, List.forall_mem_cons.2 ⟨hf, hfs⟩⟩, ?_⟩
      · rw [List.map_cons, List.map_cons, hkind, hkinds]
      · rw [List.flatMap_cons, List.append_assoc]
    · rintro ⟨⟨hkinds, hfits⟩, rfl⟩
      obtain ⟨f, fs, rfl⟩ : ∃ f fs', fs = f :: fs' := by
        cases fs with
        | nil => cases hkinds
        | cons f fs => exact ⟨f, fs, rfl⟩
      rw [List.map_cons, List.map_cons, List.cons.injEq] at hkinds
      obtain ⟨hf, hfs⟩ := List.forall_mem_cons.1 hfits
      exact ⟨f, _, ⟨⟨hkinds.1, hf⟩, by rw [List.flatMap_cons, List.append_assoc]⟩, fs, rest,
        ⟨⟨hkinds.2, hfs⟩, rfl⟩, rfl, rfl⟩

end Kind

/-! ## The forms of a count -/

/-- The bytes that a count might be laid out in: one byte below the marks, or a mark and
    as many bytes as it says, whether all of them are needed or not. -/
inductive IsForm (n : Nat) : Bytes → Prop
  | byte : n < 0xfd → IsForm n [UInt8.ofNat n]
  | two : n < 0x10000 → IsForm n (0xfd :: Bytes.littleEndian 2 n)
  | four : n < 0x100000000 → IsForm n (0xfe :: Bytes.littleEndian 4 n)
  | eight : n < sizeLimit → IsForm n (0xff :: Bytes.littleEndian 8 n)

variable {n : Nat} {bs : Bytes}

/-- One of the forms is the one that is written. -/
theorem isForm_compactSize (h : n < sizeLimit) : IsForm n (compactSize n) := by
  rw [compactSize]
  split
  · next hn => exact .byte hn
  split
  · next hn => exact .two hn
  split
  · next hn => exact .four hn
  · exact .eight h

/-- A number that a shorter form has is refused. -/
theorem compactTail_eq_error {name : String} {width least : Nat} {rest : Bytes}
    (hlt : n < 256 ^ width) (hless : n < least) :
    Reader.compactTail name width least (Bytes.littleEndian width n ++ rest) =
      .error (.nonCanonical name) rest := by
  have htake : Reader.take name width (Bytes.littleEndian width n ++ rest) =
      .ok (Bytes.littleEndian width n) rest :=
    Reader.take_eq_ok_iff.2 ⟨Bytes.length_littleEndian .., rfl⟩
  rw [Reader.compactTail]
  change EStateM.bind _ _ _ = _
  rw [EStateM.bind, htake]
  dsimp only
  rw [Bytes.ofLittleEndian_littleEndian hlt, if_pos hless]
  rfl

/-- How many bytes a count takes. -/
theorem length_compactSize (n : Nat) :
    (compactSize n).length =
      if n < 0xfd then 1 else if n < 0x10000 then 3 else if n < 0x100000000 then 5 else 9 := by
  rw [compactSize]
  split
  · rfl
  split
  · rw [List.length_cons, Bytes.length_littleEndian]
  split
  · rw [List.length_cons, Bytes.length_littleEndian]
  · rw [List.length_cons, Bytes.length_littleEndian]

section
variable (name : String) (bs : Bytes)

theorem compactSize_two :
    Reader.compactSize name (0xfd :: bs) = Reader.compactTail name 2 0xfd bs := rfl

theorem compactSize_four :
    Reader.compactSize name (0xfe :: bs) = Reader.compactTail name 4 0x10000 bs := rfl

theorem compactSize_eight :
    Reader.compactSize name (0xff :: bs) = Reader.compactTail name 8 0x100000000 bs := rfl

end

/-- The other forms are longer, and are refused as such. -/
theorem IsForm.refused (h : IsForm n bs) (hne : bs ≠ compactSize n) (name : String)
    (rest : Bytes) :
    (compactSize n).length < bs.length ∧
      Reader.compactSize name (bs ++ rest) = .error (.nonCanonical name) rest := by
  -- A form that is not the one written holds a number that is too small for its width.
  rw [compactSize] at hne
  rw [length_compactSize]
  cases h with
  | byte hn =>
    rw [if_pos hn] at hne
    exact absurd rfl hne
  | two hn =>
    have hless : n < 0xfd := by
      by_contra hle
      rw [if_neg hle, if_pos hn] at hne
      exact hne rfl
    rw [if_pos hless, List.length_cons, Bytes.length_littleEndian, List.cons_append,
      compactSize_two]
    exact ⟨by decide, compactTail_eq_error (by omega) hless⟩
  | four hn =>
    have hless : n < 0x10000 := by
      by_contra hle
      rw [if_neg (by omega), if_neg hle, if_pos hn] at hne
      exact hne rfl
    rw [List.length_cons, Bytes.length_littleEndian, List.cons_append, compactSize_four]
    refine ⟨?_, compactTail_eq_error (by omega) hless⟩
    split_ifs <;> decide
  | eight hn =>
    have hless : n < 0x100000000 := by
      by_contra hle
      rw [if_neg (by omega), if_neg (by omega), if_neg hle] at hne
      exact hne rfl
    rw [List.length_cons, Bytes.length_littleEndian, List.cons_append, compactSize_eight]
    refine ⟨?_, compactTail_eq_error (by omega) hless⟩
    split_ifs <;> decide

/-! ## Reading and writing -/

/-- A field of any kind is read from a string of bytes, with a rest, if and only if the
    string is its layout and then the rest; fields in a row are read, with nothing left
    over, if and only if the string is their layouts in a row; and of the forms that a
    count might have only the shortest is read. The length of the string is below 2^64,
    as that of any string of bytes that is held in a memory addressed by 64 bits. -/
theorem reads_invert_writes :
    (∀ k name bs f rest, bs.length < sizeLimit →
      (Kind.read name k bs = .ok f rest ↔ f.kind = k ∧ bs = f.wire ++ rest)) ∧
    (∀ ks bs fs, bs.length < sizeLimit →
      (Reader.decode (Kind.readAll ks) bs = .ok fs ↔
        fs.map Field.kind = ks.map Prod.snd ∧ bs = fs.flatMap Field.wire)) ∧
    ∀ n, n < sizeLimit →
      IsForm n (compactSize n) ∧
        ∀ bs, IsForm n bs → bs ≠ compactSize n → ∀ name rest,
          (compactSize n).length < bs.length ∧
            Reader.compactSize name (bs ++ rest) = .error (.nonCanonical name) rest := by
  refine ⟨fun k name bs f rest hlen => ?_, fun ks bs fs hlen => ?_, fun n hn => ?_⟩
  · rw [Kind.read_eq_ok_iff]
    constructor
    · rintro ⟨⟨hkind, -⟩, hbs⟩
      exact ⟨hkind, hbs⟩
    · rintro ⟨hkind, rfl⟩
      rw [List.length_append] at hlen
      exact ⟨⟨hkind, Field.fits_of_wire (by omega)⟩, rfl⟩
  · rw [Reader.decode_eq_ok_iff, Kind.readAll_eq_ok_iff, List.append_nil]
    constructor
    · rintro ⟨⟨hkinds, -⟩, hbs⟩
      exact ⟨hkinds, hbs⟩
    · rintro ⟨hkinds, rfl⟩
      refine ⟨⟨hkinds, fun f hf => Field.fits_of_wire ?_⟩, rfl⟩
      exact Nat.lt_of_le_of_lt (length_le_flatMap hf) hlen
  · exact ⟨isForm_compactSize hn, fun bs hform hne name rest => hform.refused hne name rest⟩

/-- A field of every kind. The count is at the lower end of its form, the text is empty
    and one byte string in the list is. -/
def assortment : List Field :=
  [.byte 0xfd, .word 0x80000000, .signed (-1), .compactSize 0x10000, .raw [0xff, 0xfe],
    .varBytes [], .text "", .id .null, .bytesList [[1, 2], []]]

/-- They are read in the order in which they are written, the first of them with all the
    others left; and a count of a byte is not read from two. -/
theorem assortment_read :
    let ks := assortment.map fun f => ("field", f.kind)
    let bs := assortment.flatMap Field.wire
    bs.length < sizeLimit ∧
      Reader.decode (Kind.readAll ks) bs = .ok assortment ∧
      Kind.read "field" .byte bs = .ok (.byte 0xfd) (assortment.tail.flatMap Field.wire) ∧
      Reader.compactSize "count" [0xfd, 0x10, 0] = .error (.nonCanonical "count") [] := by
  intro ks bs
  have hlen : bs.length < sizeLimit := by decide +kernel
  obtain ⟨hone, hall, hforms⟩ := reads_invert_writes
  have hform : IsForm 0x10 [0xfd, 0x10, 0] := .two (by decide)
  refine ⟨hlen, (hall ks bs assortment hlen).2 ⟨?_, rfl⟩, (hone _ _ bs _ _ hlen).2 ⟨rfl, rfl⟩, ?_⟩
  · rw [List.map_map]
    rfl
  · exact ((hforms 0x10 (by decide)).2 _ hform (by decide) "count" []).2

end Wire

end Escrow
