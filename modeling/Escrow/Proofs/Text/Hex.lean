import Escrow.Proofs.Text.Blank
import Escrow.Text.Hex

/-!
# Hexadecimal text read back

The bytes that are written in a text are read from it (`decode_encode`), and no
character of the text is blank (`trim_encode`).
-/

namespace Escrow

namespace Bytes

/-- The bytes of two texts are those of the one and then those of the other. -/
theorem ofText_append (s t : String) : ofText (s ++ t) = ofText s ++ ofText t := by
  rw [ofText, String.toUTF8_eq_toByteArray, String.toByteArray_append, ByteArray.data_append,
    Array.toList_append]
  rfl

end Bytes

namespace Hex

/-- A digit is one byte, which stands for its number. -/
theorem digit?_digit {n : Nat} (h : n < 16) :
    ∃ d, Bytes.ofText (String.singleton (digit n)) = [d] ∧ digit? d = some n := by
  refine ⟨UInt8.ofNat (digit n).toNat, ?_, ?_⟩
  · decide +revert
  · decide +revert

theorem isBlank_digit {n : Nat} (h : n < 16) : Text.isBlank (digit n) = false := by
  decide +revert

/-- The two digits of a byte are read as that byte. -/
theorem pairs_digits (position : Nat) (b : UInt8) (rest : Bytes) :
    ∃ high low, Bytes.ofText (String.ofList (digits b)) = [high, low] ∧
      pairs position (high :: low :: rest) = (b :: ·) <$> pairs (position + 2) rest := by
  have hb := b.toNat_lt
  obtain ⟨high, hhigh, hreadHigh⟩ := digit?_digit (n := b.toNat / 16) (by omega)
  obtain ⟨low, hlow, hreadLow⟩ := digit?_digit (n := b.toNat % 16) (by omega)
  refine ⟨high, low, ?_, ?_⟩
  · have hdigits : String.ofList (digits b) =
        String.singleton (digit (b.toNat / 16)) ++ String.singleton (digit (b.toNat % 16)) := by
      rw [← String.toList_inj]
      simp [digits]
    rw [hdigits, Bytes.ofText_append, hhigh, hlow]
    rfl
  · rw [pairs, hreadHigh, hreadLow]
    dsimp only
    rw [Nat.div_add_mod, UInt8.ofNat_toNat]

theorem encode_cons (b : UInt8) (bs : Bytes) :
    encode (b :: bs) = String.ofList (digits b) ++ encode bs := by
  rw [encode, List.flatMap_cons, String.ofList_append]
  rfl

theorem length_encode (bs : Bytes) : (Bytes.ofText (encode bs)).length = 2 * bs.length := by
  induction bs with
  | nil => rfl
  | cons b bs ih =>
    obtain ⟨high, low, hdigits, -⟩ := pairs_digits 0 b []
    rw [encode_cons, Bytes.ofText_append, hdigits, List.length_append, ih, List.length_cons]
    simp only [List.length_cons, List.length_nil]
    omega

/-- Pair by pair the bytes are read back. -/
theorem pairs_encode (position : Nat) (bs : Bytes) :
    pairs position (Bytes.ofText (encode bs)) = .ok bs := by
  induction bs generalizing position with
  | nil => rfl
  | cons b bs ih =>
    obtain ⟨high, low, hdigits, hpairs⟩ := pairs_digits position b (Bytes.ofText (encode bs))
    rw [encode_cons, Bytes.ofText_append, hdigits, List.cons_append, List.cons_append,
      List.nil_append, hpairs, ih]
    rfl

/-- Bytes are read from their hexadecimal text. -/
theorem decode_encode (bs : Bytes) : decode (encode bs) = .ok bs := by
  rw [decode]
  rw [length_encode, if_neg (by omega), pairs_encode]

/-- Nothing is blank in the hexadecimal text of bytes. -/
theorem trim_encode (bs : Bytes) : Text.trim (encode bs) = encode bs := by
  refine Text.trim_of_forall fun c hc => ?_
  rw [encode, String.toList_ofList, List.mem_flatMap] at hc
  obtain ⟨b, -, hc⟩ := hc
  have hb := b.toNat_lt
  rcases List.mem_cons.1 hc with rfl | hc
  · exact isBlank_digit (by omega)
  · rw [List.mem_singleton.1 hc]
    exact isBlank_digit (by omega)

end Hex

end Escrow
