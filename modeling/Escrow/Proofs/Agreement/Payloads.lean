import Escrow.Agreement.Payload
import Escrow.Proofs.Wire.Reading

/-!
# Payloads and their bytes

A payload is *canonical* if it says everything in the form in which it is read
back: no bytes of a script that are those of a party left out (none at all) or of
a key (32 of them), and no null id for the agreement of an offer, which stands
for none. The payload of a string of bytes is canonical, and the bytes are those
it is written in. Conversely a canonical payload is read back, as long as the
lengths and counts in it can be written (`Fits`), which they can if the whole of
its bytes have a length that can.

* `Operation.read_eq_ok_iff`: the fields of an operation of a kind;
* `Payload.read_eq_ok_iff`, `Payload.decode_eq_ok_iff`: a payload, of any length;
* `Payload.decode_iff_encode`: decoding and encoding are inverse to each other
  between the strings of bytes of payloads and the canonical payloads;
* `Operation.IsBrief.length_encode_le`, `Offer.IsPlain.length_encode_le`: how many
  bytes a payload takes besides its memo and name.
-/

namespace Escrow

/-! ## Canonical payloads -/

/-- A party that is a key, or a script whose bytes are not taken for anything else. -/
def Party.Canonical : Party → Prop
  | .key _ => True
  | .script bs => bs.length ≠ 0 ∧ bs.length ≠ 32

/-- The parties are canonical, and the agreement, if there is one, is not null. -/
structure Offer.Canonical (o : Offer) : Prop where
  source : o.source.Canonical
  destination : o.destination.Canonical
  arbitrator : ∀ p, o.arbitrator = some p → p.Canonical
  amends : o.amends ≠ some TxId.null

/-- The parties of an operation are canonical, and no null agreement is amended. -/
def Operation.Canonical : Operation → Prop
  | offer o => o.Canonical
  | dispute d => d.claimant.Canonical
  | stopOffer .. | accept .. | close .. | stopDispute .. | resolve .. | unlock .. => True

/-- The operation is canonical. The version may be any byte. -/
def Payload.Canonical (p : Payload) : Prop :=
  p.operation.Canonical

/-! ## Lengths that can be written -/

namespace Wire

/-- A string of bytes whose length can be written. -/
def Fits (bs : Bytes) : Prop :=
  bs.length < sizeLimit

/-- A list whose count and lengths can be written. -/
def FitsList (items : List Bytes) : Prop :=
  items.length < sizeLimit ∧ ∀ item ∈ items, Fits item

/-- What is written in few enough bytes has a length that can be written. -/
theorem fits_of_varBytes {bs : Bytes} (hlen : (varBytes bs).length < sizeLimit) : Fits bs := by
  rw [varBytes, List.length_append] at hlen
  rw [Fits]
  omega

/-- What a text of some length holds is not longer than the text. -/
theorem fitsList_of_bytesList {items : List Bytes} (hlen : (bytesList items).length < sizeLimit) :
    FitsList items := by
  rw [bytesList, List.length_append] at hlen
  have hcount := length_le_flatMap_varBytes items
  refine ⟨by omega, fun item hitem => fits_of_varBytes ?_⟩
  have hwritten : (varBytes item).length ≤ (items.flatMap varBytes).length :=
    length_le_flatMap hitem
  omega

end Wire

open Wire (Fits FitsList)

/-- Every field of the terms has a length that can be written. -/
structure Offer.Fits (o : Offer) : Prop where
  source : Wire.Fits o.source.bytes
  destination : Wire.Fits o.destination.bytes
  arbitrator : ∀ p, o.arbitrator = some p → Wire.Fits p.bytes
  name : Wire.Fits (Bytes.ofText o.name)
  memo : Wire.Fits (Bytes.ofText o.memo)
  unlockConditions : FitsList o.unlockConditions

/-- Every field of the operation has a length that can be written. -/
def Operation.Fits : Operation → Prop
  | offer o => o.Fits
  | dispute d => Wire.Fits d.claimant.bytes ∧ Wire.Fits (Bytes.ofText d.memo)
  | stopOffer _ memo | stopDispute _ _ memo | resolve _ _ _ memo => Wire.Fits (Bytes.ofText memo)
  | unlock _ conditions => FitsList conditions
  | accept .. | close .. => True

open Wire (fits_of_varBytes fitsList_of_bytesList)

/-- The fields of an offer fit if all of it does. -/
theorem Offer.fits_of_wire {o : Offer} (hlen : o.wire.length < Wire.sizeLimit) : o.Fits := by
  simp only [Offer.wire, Wire.text, List.length_append] at hlen
  refine ⟨fits_of_varBytes ?_, fits_of_varBytes ?_, fun p hp => fits_of_varBytes ?_,
    fits_of_varBytes ?_, fits_of_varBytes ?_, fitsList_of_bytesList ?_⟩
  · change (Party.wire o.source).length < _
    omega
  · change (Party.wire o.destination).length < _
    omega
  · rw [hp] at hlen
    change (Party.wire p).length < _
    omega
  all_goals omega

/-- An operation has lengths that can be written if all its bytes together have one. -/
theorem Operation.fits_of_wire {op : Operation} (hlen : op.wire.length < Wire.sizeLimit) :
    op.Fits := by
  rcases op with o | ⟨o, memo⟩ | o | ⟨a, o, payout⟩ | d |
    ⟨a, d, memo⟩ | ⟨a, d, payout, memo⟩ | ⟨a, conditions⟩
  · exact Offer.fits_of_wire hlen
  · rw [Operation.wire, Wire.text, List.length_append] at hlen
    exact fits_of_varBytes (by omega)
  · trivial
  · trivial
  · simp only [Operation.wire, Wire.text, List.length_append] at hlen
    refine ⟨fits_of_varBytes ?_, fits_of_varBytes (by omega)⟩
    change (Party.wire d.claimant).length < _
    omega
  · simp only [Operation.wire, Wire.text, List.length_append] at hlen
    exact fits_of_varBytes (by omega)
  · simp only [Operation.wire, Wire.text, List.length_append] at hlen
    exact fits_of_varBytes (by omega)
  · rw [Operation.wire, List.length_append] at hlen
    exact fitsList_of_bytesList (by omega)

/-! ## How long payloads are -/

namespace Wire

/-- A text takes at most nine bytes more than its characters. -/
theorem length_text_le (s : String) : (text s).length ≤ 9 + s.utf8ByteSize := by
  rw [text, varBytes, List.length_append, Bytes.length_ofText]
  exact Nat.add_le_add_right (length_compactSize_le _) _

end Wire

theorem Party.length_wire_key (k : PublicKey) : (Party.wire (some (.key k))).length = 33 := by
  change (Wire.varBytes k.octets.bytes).length = 33
  rw [Wire.varBytes, List.length_append, k.octets.length_eq]
  rfl

/-- The text that an operation leaves. -/
def Operation.memo : Operation → String
  | stopOffer _ memo | stopDispute _ _ memo | resolve _ _ _ memo => memo
  | offer o => o.memo
  | dispute d => d.memo
  | accept .. | close .. | unlock .. => ""

/-- Besides its memo an operation takes few bytes, if it is no offer and no unlock
    and its claimant is a key. -/
def Operation.IsBrief : Operation → Prop
  | dispute d => ∃ k, d.claimant = .key k
  | stopOffer .. | accept .. | close .. | stopDispute .. | resolve .. => True
  | offer .. | unlock .. => False

/-- Besides its memo such an operation takes at most a hundred bytes. -/
theorem Operation.IsBrief.length_encode_le {op : Operation} (h : op.IsBrief) :
    op.encode.length ≤ 100 + op.memo.utf8ByteSize := by
  have hid : ∀ id : TxId, id.bytes.length = 32 := fun id => id.octets.length_eq
  have htext := Wire.length_text_le op.memo
  rw [encode, List.length_cons, List.length_cons, List.length_cons]
  rcases op with o | ⟨o, memo⟩ | o | ⟨a, o, payout⟩ | ⟨a, claimant, flags, memo⟩ |
    ⟨a, d, memo⟩ | ⟨a, d, payout, memo⟩ | ⟨a, conditions⟩ <;>
    simp only [Operation.memo] at htext ⊢
  · exact h.elim
  · simp only [wire, List.length_append, hid]
    omega
  · simp only [wire, hid]
    omega
  · simp only [wire, List.length_append, hid, Wire.signed, Bytes.length_littleEndian]
    omega
  · obtain ⟨k, rfl⟩ := h
    simp only [wire, List.length_append, List.length_singleton, hid, Party.length_wire_key]
    omega
  · simp only [wire, List.length_append, hid]
    omega
  · simp only [wire, List.length_append, hid, Wire.signed, Bytes.length_littleEndian]
    omega
  · exact h.elim

theorem Operation.IsBrief.canonical {op : Operation} (h : op.IsBrief) : op.Canonical := by
  rcases op with o | _ | _ | _ | ⟨a, claimant, flags, memo⟩ | _ | _ | _
  · exact h.elim
  · trivial
  · trivial
  · trivial
  · obtain ⟨k, rfl⟩ := h
    trivial
  · trivial
  · trivial
  · trivial

/-- Terms between keys, without conditions to unlock. -/
structure Offer.IsPlain (o : Offer) : Prop where
  source : ∃ k, o.source = .key k
  destination : ∃ k, o.destination = .key k
  arbitrator : ∀ p, o.arbitrator = some p → ∃ k, p = .key k
  unlockConditions : o.unlockConditions = []

/-- Besides their name and memo such terms take few bytes. -/
theorem Offer.IsPlain.length_encode_le {o : Offer} (h : o.IsPlain) :
    (Operation.offer o).encode.length ≤ 300 + (o.name.utf8ByteSize + o.memo.utf8ByteSize) := by
  obtain ⟨source, hsource⟩ := h.source
  obtain ⟨destination, hdestination⟩ := h.destination
  have harbitrator : (Party.wire o.arbitrator).length ≤ 33 := by
    rcases hp : o.arbitrator with _ | p
    · decide
    · obtain ⟨k, rfl⟩ := h.arbitrator p hp
      exact Nat.le_of_eq (Party.length_wire_key k)
  have hid : ∀ id : TxId, id.bytes.length = 32 := fun id => id.octets.length_eq
  have hname := Wire.length_text_le o.name
  have hmemo := Wire.length_text_le o.memo
  have hconditions : (Wire.bytesList []).length = 1 := rfl
  simp only [Operation.encode, Operation.wire, Offer.wire, hsource, hdestination,
    h.unlockConditions, hconditions, List.length_cons, List.length_append, List.length_nil, hid,
    Party.length_wire_key, Wire.signed, Bytes.length_littleEndian]
  omega

/-- Its parties are written in one way only. -/
theorem Offer.IsPlain.canonical {o : Offer} (h : o.IsPlain) (hamends : o.amends ≠ some TxId.null) :
    o.Canonical := by
  obtain ⟨source, hsource⟩ := h.source
  obtain ⟨destination, hdestination⟩ := h.destination
  refine ⟨?_, ?_, fun p hp => ?_, hamends⟩
  · rw [hsource]
    trivial
  · rw [hdestination]
    trivial
  · obtain ⟨k, rfl⟩ := h.arbitrator p hp
    trivial

/-! ## Fields -/

section Fields

variable {field : String} {bs rest : Bytes}

theorem Party.ofBytes?_octets (o : Octets 32) : Party.ofBytes? o.bytes = some (.key ⟨o⟩) := by
  have hne : ¬o.bytes.isEmpty := by
    rw [← List.length_eq_zero_iff.trans List.isEmpty_iff.symm, o.length_eq]
    decide
  rw [Party.ofBytes?, if_neg hne, Octets.ofBytes?_bytes]

theorem Party.ofBytes?_of_length (hempty : bs.length ≠ 0) (hkey : bs.length ≠ 32) :
    Party.ofBytes? bs = some (.script bs) := by
  rw [← List.isEmpty_iff_length_eq_zero.ne] at hempty
  rw [Party.ofBytes?, if_neg hempty, Octets.ofBytes?, dif_neg hkey]

/-- Bytes stand for a canonical party, which is written as these bytes. -/
theorem Party.ofBytes?_eq_some_iff {p : Party} :
    Party.ofBytes? bs = some p ↔ p.Canonical ∧ bs = p.bytes := by
  refine ⟨fun h => ?_, ?_⟩
  · by_cases hempty : bs.length = 0
    · rw [List.length_eq_zero_iff] at hempty
      subst hempty
      exact absurd h.symm (Option.some_ne_none p)
    -- The length alone tells a key from a script.
    by_cases hkey : bs.length = 32
    · rw [show bs = Octets.bytes ⟨bs, hkey⟩ from rfl, Party.ofBytes?_octets, Option.some.injEq] at h
      subst h
      exact ⟨trivial, rfl⟩
    · rw [Party.ofBytes?_of_length hempty hkey, Option.some.injEq] at h
      subst h
      exact ⟨⟨hempty, hkey⟩, rfl⟩
  · rintro ⟨hp, rfl⟩
    rcases p with k | script
    · exact Party.ofBytes?_octets k.octets
    · exact Party.ofBytes?_of_length hp.1 hp.2

/-- No party is written as no bytes. -/
theorem Party.ofBytes?_eq_none_iff : Party.ofBytes? bs = none ↔ bs = [] := by
  refine ⟨fun h => ?_, ?_⟩
  · rw [Party.ofBytes?] at h
    split at h
    · rwa [← List.isEmpty_iff]
    · split at h <;> exact absurd h (Option.some_ne_none _)
  · rintro rfl
    rfl

/-- An optional party is read from what is written of it, if that is canonical. -/
theorem Party.readOptional_eq_ok_iff {p : Option Party} :
    Party.readOptional field bs = .ok p rest ↔
      (∀ q, p = some q → q.Canonical ∧ Fits q.bytes) ∧ bs = Party.wire p ++ rest := by
  simp only [Party.readOptional, Reader.bind_eq_ok_iff, Reader.varBytes_eq_ok_iff,
    Reader.pure_eq_ok_iff]
  refine ⟨?_, ?_⟩
  · rintro ⟨content, _, ⟨hfits, rfl⟩, hp, rfl⟩
    rcases p with _ | q
    · obtain rfl := Party.ofBytes?_eq_none_iff.1 hp
      exact ⟨nofun, rfl⟩
    · obtain ⟨hq, rfl⟩ := Party.ofBytes?_eq_some_iff.1 hp
      exact ⟨by rintro _ ⟨⟩; exact ⟨hq, hfits⟩, rfl⟩
  · rintro ⟨hp, rfl⟩
    rcases p with _ | q
    · exact ⟨[], rest, ⟨by decide, rfl⟩, rfl, rfl⟩
    · obtain ⟨hq, hfits⟩ := hp q rfl
      exact ⟨q.bytes, rest, ⟨hfits, rfl⟩, Party.ofBytes?_eq_some_iff.2 ⟨hq, rfl⟩, rfl⟩

theorem Party.read_eq_ok_iff {p : Party} :
    Party.read field bs = .ok p rest ↔
      (p.Canonical ∧ Fits p.bytes) ∧ bs = Party.wire p ++ rest := by
  simp only [Party.read, Reader.bind_eq_ok_iff, Party.readOptional_eq_ok_iff]
  refine ⟨?_, ?_⟩
  · rintro ⟨_ | q, _, ⟨hp, rfl⟩, h⟩
    · exact absurd h Reader.throw_ne_ok
    · obtain ⟨rfl, rfl⟩ := Reader.pure_eq_ok_iff.1 h
      exact ⟨hp q rfl, rfl⟩
  · rintro ⟨hp, rfl⟩
    exact ⟨some p, rest, ⟨by rintro _ ⟨⟩; exact hp, rfl⟩, rfl⟩

/-- Any 32 bytes are read as an id. -/
theorem TxId.read_eq_ok_iff {id : TxId} :
    TxId.read field bs = .ok id rest ↔ bs = id.bytes ++ rest := by
  rw [TxId.read, Reader.map_eq_ok_iff]
  simp only [Reader.octets_eq_ok_iff]
  exact ⟨by rintro ⟨o, rfl, rfl⟩; rfl, fun h => ⟨id.octets, h, rfl⟩⟩

/-- The id in front of what an offer amends: none stands for the null one. -/
theorem TxId.nonNull?_eq_iff {id : TxId} {a : Option TxId} :
    id.nonNull? = a ↔ a ≠ some TxId.null ∧ id = a.getD TxId.null := by
  rw [TxId.nonNull?]
  rcases a with _ | b
  · simp
  · by_cases hid : id = TxId.null
    · simp [hid, eq_comm]
    · simp only [if_neg hid, Option.some.injEq, ne_eq, Option.getD_some]
      exact ⟨by rintro rfl; exact ⟨hid, rfl⟩, And.right⟩

/-- The fields of an offer, one after the other. -/
theorem Offer.read_eq_ok_iff {o : Offer} :
    Offer.read bs = .ok o rest ↔ (o.Canonical ∧ o.Fits) ∧ bs = o.wire ++ rest := by
  simp only [Offer.read, Reader.bind_eq_ok_iff, Party.read_eq_ok_iff, Party.readOptional_eq_ok_iff,
    Reader.byte_eq_ok_iff, TxId.read_eq_ok_iff, Reader.signed_eq_ok_iff, Reader.text_eq_ok_iff,
    Reader.bytesList_eq_ok_iff, Reader.pure_eq_ok_iff]
  refine ⟨?_, ?_⟩
  · rintro ⟨source, _, ⟨hsource, rfl⟩, destination, _, ⟨hdestination, rfl⟩, arbitrator, _,
      ⟨harbitrator, rfl⟩, flags, _, rfl, amends, _, rfl, deposit, _, rfl, payment, _, rfl,
      disputeFee, _, rfl, name, _, ⟨hname, rfl⟩, memo, _, ⟨hmemo, rfl⟩, conditions, _,
      ⟨hconditions, rfl⟩, rfl, rfl⟩
    have hamends := TxId.nonNull?_eq_iff.1 (rfl : amends.nonNull? = _)
    refine ⟨⟨⟨hsource.1, hdestination.1, fun p hp => (harbitrator p hp).1, hamends.1⟩,
      ⟨hsource.2, hdestination.2, fun p hp => (harbitrator p hp).2, hname, hmemo, hconditions⟩⟩, ?_⟩
    rw [Offer.wire, ← hamends.2]
    simp only [List.append_assoc, List.cons_append, List.nil_append]
  · rintro ⟨⟨hcanonical, hfits⟩, rfl⟩
    refine ⟨o.source, _, ⟨⟨hcanonical.source, hfits.source⟩, ?_⟩, o.destination, _,
      ⟨⟨hcanonical.destination, hfits.destination⟩, rfl⟩, o.arbitrator, _,
      ⟨fun p hp => ⟨hcanonical.arbitrator p hp, hfits.arbitrator p hp⟩, rfl⟩, o.flags.bits, _, rfl,
      o.amends.getD TxId.null, _, rfl, o.deposit, _, rfl, o.payment, _, rfl, o.disputeFee, _, rfl,
      o.name, _, ⟨hfits.name, rfl⟩, o.memo, _, ⟨hfits.memo, rfl⟩, o.unlockConditions, rest,
      ⟨hfits.unlockConditions, rfl⟩, ?_, rfl⟩
    · rw [Offer.wire]
      simp only [List.append_assoc, List.cons_append, List.nil_append]
    · rw [TxId.nonNull?_eq_iff.2 ⟨hcanonical.amends, rfl⟩]

/-- The fields of an operation of a kind, one after the other. -/
theorem Operation.read_eq_ok_iff {f : FunctionId} {op : Operation} :
    Operation.read f bs = .ok op rest ↔
      op.function = f ∧ (op.Canonical ∧ op.Fits) ∧ bs = op.wire ++ rest := by
  refine ⟨fun h => ?_, ?_⟩
  · -- Each kind is read in its own way, and gives an operation of the kind.
    rcases f <;>
      simp only [Operation.read, Reader.bind_eq_ok_iff, Reader.map_eq_ok_iff, Offer.read_eq_ok_iff,
        Party.read_eq_ok_iff, Reader.byte_eq_ok_iff, TxId.read_eq_ok_iff, Reader.signed_eq_ok_iff,
        Reader.text_eq_ok_iff, Reader.bytesList_eq_ok_iff, Reader.pure_eq_ok_iff] at h
    · obtain ⟨o, ⟨ho, rfl⟩, rfl⟩ := h
      exact ⟨rfl, ho, rfl⟩
    · obtain ⟨o, _, rfl, memo, _, ⟨hmemo, rfl⟩, rfl, rfl⟩ := h
      exact ⟨rfl, ⟨trivial, hmemo⟩, by rw [Operation.wire, List.append_assoc]⟩
    · obtain ⟨o, rfl, rfl⟩ := h
      exact ⟨rfl, ⟨trivial, trivial⟩, rfl⟩
    · obtain ⟨a, _, rfl, o, _, rfl, payout, _, rfl, rfl, rfl⟩ := h
      exact ⟨rfl, ⟨trivial, trivial⟩, by simp only [Operation.wire, List.append_assoc]⟩
    · obtain ⟨a, _, rfl, claimant, _, ⟨hclaimant, rfl⟩, flags, _, rfl, memo, _, ⟨hmemo, rfl⟩, rfl,
        rfl⟩ := h
      exact ⟨rfl, ⟨hclaimant.1, hclaimant.2, hmemo⟩, by
        simp only [Operation.wire, List.append_assoc, List.cons_append, List.nil_append]⟩
    · obtain ⟨a, _, rfl, d, _, rfl, memo, _, ⟨hmemo, rfl⟩, rfl, rfl⟩ := h
      exact ⟨rfl, ⟨trivial, hmemo⟩, by simp only [Operation.wire, List.append_assoc]⟩
    · obtain ⟨a, _, rfl, d, _, rfl, payout, _, rfl, memo, _, ⟨hmemo, rfl⟩, rfl, rfl⟩ := h
      exact ⟨rfl, ⟨trivial, hmemo⟩, by simp only [Operation.wire, List.append_assoc]⟩
    · obtain ⟨a, _, rfl, conditions, _, ⟨hconditions, rfl⟩, rfl, rfl⟩ := h
      exact ⟨rfl, ⟨trivial, hconditions⟩, by rw [Operation.wire, List.append_assoc]⟩
  · rintro ⟨rfl, ⟨hcanonical, hfits⟩, rfl⟩
    rcases op with o | ⟨o, memo⟩ | o | ⟨a, o, payout⟩ | ⟨a, claimant, flags, memo⟩ |
      ⟨a, d, memo⟩ | ⟨a, d, payout, memo⟩ | ⟨a, conditions⟩ <;>
      simp only [Operation.function, Operation.read, Reader.bind_eq_ok_iff, Reader.map_eq_ok_iff,
        Offer.read_eq_ok_iff, Party.read_eq_ok_iff, Reader.byte_eq_ok_iff, TxId.read_eq_ok_iff,
        Reader.signed_eq_ok_iff, Reader.text_eq_ok_iff, Reader.bytesList_eq_ok_iff,
        Reader.pure_eq_ok_iff, Operation.wire, List.append_assoc, List.cons_append, List.nil_append]
    · exact ⟨o, ⟨⟨hcanonical, hfits⟩, rfl⟩, rfl⟩
    · exact ⟨o, _, rfl, memo, rest, ⟨hfits, rfl⟩, rfl, rfl⟩
    · exact ⟨o, rfl, rfl⟩
    · exact ⟨a, _, rfl, o, _, rfl, payout, rest, rfl, rfl, rfl⟩
    · exact ⟨a, _, rfl, claimant, _, ⟨⟨hcanonical, hfits.1⟩, rfl⟩, flags.bits, _, rfl, memo, rest,
        ⟨hfits.2, rfl⟩, rfl, rfl⟩
    · exact ⟨a, _, rfl, d, _, rfl, memo, rest, ⟨hfits, rfl⟩, rfl, rfl⟩
    · exact ⟨a, _, rfl, d, _, rfl, payout, _, rfl, memo, rest, ⟨hfits, rfl⟩, rfl, rfl⟩
    · exact ⟨a, _, rfl, conditions, rest, ⟨hfits, rfl⟩, rfl, rfl⟩

end Fields

/-! ## Whole payloads -/

/-- The kind of a byte is the one whose tag it is. -/
theorem FunctionId.ofTag?_eq_some_iff {tag : UInt8} {f : FunctionId} :
    FunctionId.ofTag? tag = some f ↔ tag = f.tag := by
  refine ⟨fun h => ?_, ?_⟩
  · have htag := List.find?_some h
    exact (of_decide_eq_true htag).symm
  · rintro rfl
    rcases f <;> rfl

namespace Payload

variable {bs bs' : Bytes} {p : Payload}

/-- A payload is read from the bytes that it is written in, if it is canonical
    and its lengths can be written. -/
theorem read_eq_ok_iff {rest : Bytes} :
    read bs = .ok p rest ↔ (p.Canonical ∧ p.operation.Fits) ∧ bs = p.encode ++ rest := by
  simp only [read, Reader.bind_eq_ok_iff, Reader.byte_eq_ok_iff, Reader.ite_throw_eq_ok_iff,
    not_not]
  refine ⟨?_, ?_⟩
  · -- The tag has to be one of a kind before anything else is read.
    rintro ⟨_, _, rfl, rfl, tag, _, rfl, h⟩
    rcases hf : FunctionId.ofTag? tag with _ | f <;> rw [hf] at h
    · exact absurd h Reader.throw_ne_ok
    · obtain rfl := FunctionId.ofTag?_eq_some_iff.1 hf
      simp only [Reader.bind_eq_ok_iff, Reader.byte_eq_ok_iff, Operation.read_eq_ok_iff,
        Reader.pure_eq_ok_iff] at h
      obtain ⟨version, _, rfl, op, _, ⟨rfl, hop, rfl⟩, rfl, rfl⟩ := h
      exact ⟨hop, rfl⟩
  · rintro ⟨hp, rfl⟩
    refine ⟨evalCode, _, rfl, rfl, p.operation.function.tag, _, rfl, ?_⟩
    rw [FunctionId.ofTag?_eq_some_iff.2 rfl]
    simp only [Reader.bind_eq_ok_iff, Reader.byte_eq_ok_iff, Operation.read_eq_ok_iff,
      Reader.pure_eq_ok_iff]
    exact ⟨p.version, _, rfl, p.operation, rest, ⟨rfl, hp, rfl⟩, rfl, rfl⟩

/-- A payload is read from what is written of it and from nothing else, if it is canonical
    and fits. -/
theorem decode_eq_ok_iff :
    decode bs = .ok p ↔ (p.Canonical ∧ p.operation.Fits) ∧ bs = p.encode := by
  rw [decode, Reader.decode_eq_ok_iff, read_eq_ok_iff, List.append_nil]

/-- A payload has lengths that can be written if all its bytes together have one. -/
theorem fits_of_encode (hlen : p.encode.length < Wire.sizeLimit) : p.operation.Fits := by
  simp only [encode, List.length_cons] at hlen
  exact Operation.fits_of_wire (by omega)

/-- Decoding and encoding are inverse to each other between the strings of bytes
    that are payloads and the canonical payloads: a string of bytes stands for
    the canonical payload that is written as it, a canonical payload of any kind
    is read back as it was, and no two strings stand for the same one. The
    length of the string is below 2^64, as that of any string of bytes that is
    held in a memory addressed by 64 bits. -/
theorem decode_iff_encode :
    (∀ bs p, bs.length < Wire.sizeLimit →
      (decode bs = .ok p ↔ p.Canonical ∧ p.encode = bs)) ∧
    (∀ p : Payload, p.Canonical → p.encode.length < Wire.sizeLimit → decode p.encode = .ok p) ∧
    ∀ bs bs' p, decode bs = .ok p → decode bs' = .ok p → bs = bs' := by
  refine ⟨fun bs p hlen => ?_, fun p hp hlen => ?_, fun bs bs' p h h' => ?_⟩
  · rw [decode_eq_ok_iff]
    refine ⟨fun ⟨hp, hbs⟩ => ⟨hp.1, hbs.symm⟩, ?_⟩
    rintro ⟨hp, rfl⟩
    exact ⟨⟨hp, fits_of_encode hlen⟩, rfl⟩
  · exact decode_eq_ok_iff.2 ⟨⟨hp, fits_of_encode hlen⟩, rfl⟩
  · rw [(decode_eq_ok_iff.1 h).2, (decode_eq_ok_iff.1 h').2]

/-- An offer from a script of 31 bytes to one of 33, of an unknown version and
    with unknown flags. -/
def scripted : Payload where
  version := 7
  operation := .offer {
    source := .script (List.replicate 31 0x51)
    destination := .script (List.replicate 33 0x52)
    arbitrator := none
    flags := ⟨0xc0⟩
    amends := none
    deposit := -1
    payment := 2
    disputeFee := 3
    name := "café"
    memo := ""
    unlockConditions := [[], [0, 1]] }

/-- The offer of two scripts is read back from the bytes it is written in. -/
theorem decode_scripted :
    scripted.encode.length < Wire.sizeLimit ∧ scripted.Canonical ∧
      decode scripted.encode = .ok scripted := by
  have hlen : scripted.encode.length < Wire.sizeLimit := by decide +kernel
  have hcanonical : scripted.Canonical :=
    ⟨⟨by decide, by decide⟩, ⟨by decide, by decide⟩, nofun, nofun⟩
  exact ⟨hlen, hcanonical, (decode_iff_encode.1 _ _ hlen).2 ⟨hcanonical, rfl⟩⟩

end Payload

end Escrow
