import Escrow.Proofs.Transaction.Signing

/-!
# Signing with several keys

The inputs of a transaction may be of different owners, who sign one after the other
(`cosign`). Each signs the inputs that still wait for a witness, so an input is signed
with the first key that may sign for it, and with what that key would sign if it
signed alone (`getElem?_inputs_cosign`). Nothing else changes, and what was signed
before still holds (`Completes`).

So if no two of the keys may sign for one input (`Apart`), neither their order matters
nor how often each of them signs.
-/

namespace Escrow

/-- Of things of which only one has a property, lists with the same members find the same. -/
theorem find?_eq_of_unique {α : Type} {p : α → Bool} {as bs : List α}
    (hmem : ∀ a, a ∈ bs ↔ a ∈ as) (hunique : ∀ a ∈ as, ∀ b ∈ as, p a → p b → a = b) :
    bs.find? p = as.find? p := by
  rcases ha : as.find? p with _ | a
  · rw [List.find?_eq_none] at ha ⊢
    exact fun b hb => ha b ((hmem b).1 hb)
  · rcases hb : bs.find? p with _ | b
    · exact absurd (List.find?_some ha)
        (List.find?_eq_none.1 hb a ((hmem a).2 (List.mem_of_find?_eq_some ha)))
    · rw [hunique a (List.mem_of_find?_eq_some ha) b ((hmem b).1 (List.mem_of_find?_eq_some hb))
        (List.find?_some ha) (List.find?_some hb)]

/-- An input waits for a key only if the lock of what it spends allows the key. -/
theorem Input.authorizes_of_awaits {see : Outpoint → Option Output} {key : PublicKey} {i : Input}
    (h : i.awaits see key) : ∃ out, see i.prevout = some out ∧ out.lock.authorizes key := by
  rw [awaits, Bool.and_eq_true, Option.any_eq_true] at h
  exact h.2

namespace Transaction

variable {tx : Transaction} {see : Outpoint → Option Output} {ks ks' : List KeyPair}

/-- Signs with some keys, one after the other. -/
def cosign (tx : Transaction) (see : Outpoint → Option Output) (ks : List KeyPair) : Transaction :=
  ks.foldl (fun tx k => (tx.signBy see k).1) tx

/-- The witness of the input at a position. -/
def witness? (tx : Transaction) (n : Nat) : Option Witness :=
  tx.inputs[n]?.bind Input.witness

/-- The input at a position has a witness, whose signature holds. -/
structure Holds (tx : Transaction) (n : Nat) (w : Witness) : Prop where
  witness? : tx.witness? n = some w
  verifies : w.key.verify (tx.sighash n) w.signature = .ok ()

/-- A transaction is another one with more witnesses: it keeps those that there were, and
    everything that is not a witness. -/
structure Completes (tx' tx : Transaction) : Prop where
  version : tx'.version = tx.version
  spends : tx'.spends = tx.spends
  outputs : tx'.outputs = tx.outputs
  lockTime : tx'.lockTime = tx.lockTime
  txid : tx'.txid = tx.txid
  sighash : ∀ n, tx'.sighash n = tx.sighash n
  keeps : ∀ n w, tx.witness? n = some w → tx'.witness? n = some w
  holds : ∀ n w, tx.Holds n w → tx'.Holds n w

/-- A key has signed the inputs that waited for it and no others, and says how many
    those were. -/
structure SignedOnce (tx : Transaction) (see : Outpoint → Option Output) (k : KeyPair)
    (result : Transaction × Nat) : Prop where
  inputs : ∀ n, result.1.inputs[n]? = tx.inputs[n]?.map fun i : Input =>
    if i.awaits see k.publicKey then { i with witness := some (k.witness (tx.sighash n)) } else i
  count : result.2 = tx.inputs.countP (·.awaits see k.publicKey)

/-- No two of some keys may sign for what one input spends. -/
def Apart (tx : Transaction) (see : Outpoint → Option Output) (ks : List KeyPair) : Prop :=
  ∀ i ∈ tx.inputs, ∀ out, see i.prevout = some out → ∀ k ∈ ks, ∀ k' ∈ ks,
    out.lock.authorizes k.publicKey → out.lock.authorizes k'.publicKey → k = k'

/-! ## What several keys leave as it is -/

theorem unsigned_cosign (tx : Transaction) (see : Outpoint → Option Output) (ks : List KeyPair) :
    (tx.cosign see ks).unsigned = tx.unsigned := by
  induction ks generalizing tx with
  | nil => rfl
  | cons k ks ih => exact (ih _).trans (tx.unsigned_signBy see k)

/-- An input without a witness is signed with the first key that may sign for it. -/
theorem getElem?_inputs_cosign (tx : Transaction) (see : Outpoint → Option Output)
    (ks : List KeyPair) (n : Nat) :
    (tx.cosign see ks).inputs[n]? = tx.inputs[n]?.map fun i =>
      let first := ks.find? fun k => i.awaits see k.publicKey
      { i with witness := (first.map (·.witness (tx.sighash n))).or i.witness } := by
  induction ks generalizing tx with
  | nil => simp [cosign]
  | cons k ks ih =>
    -- The other keys sign the same digests as if the first had not signed.
    have hdigest := sighash_eq_of_unsigned (tx.unsigned_signBy see k) n
    rw [cosign, List.foldl_cons, ← cosign, ih, hdigest, getElem?_inputs_signBy, Option.map_map]
    refine Option.map_congr fun i _ => ?_
    rw [Function.comp_apply]
    cases hk : i.awaits see k.publicKey
    · simp [hk]
    · -- What is signed waits for no other key.
      have hlate : (ks.find? fun k' => Input.awaits see k'.publicKey
          { i with witness := some (k.witness (tx.sighash n)) }) = none :=
        List.find?_eq_none.2 fun _ _ => Bool.false_ne_true
      simp [hk, hlate]

/-- To sign with several keys completes a transaction. -/
theorem completes_cosign (tx : Transaction) (see : Outpoint → Option Output) (ks : List KeyPair) :
    (tx.cosign see ks).Completes tx := by
  have hunsigned := tx.unsigned_cosign see ks
  have hkeeps : ∀ n w, tx.witness? n = some w → (tx.cosign see ks).witness? n = some w := by
    intro n w hw
    obtain ⟨i, hi, hiw⟩ := Option.bind_eq_some_iff.1 hw
    have hsigned : ∀ k ∈ ks, ¬i.awaits see k.publicKey := fun k _ => by
      simp [Input.awaits, hiw]
    simp only [witness?, getElem?_inputs_cosign, hi, Option.map_some,
      List.find?_eq_none.2 hsigned, Option.map_none, Option.none_or, Option.bind_some, hiw]
  have hdigest := sighash_eq_of_unsigned hunsigned
  obtain ⟨hversion, -, houtputs, hlockTime⟩ := mk.inj hunsigned
  refine ⟨hversion, spends_eq_of_unsigned hunsigned, houtputs, hlockTime,
    txid_eq_of_unsigned hunsigned, hdigest, hkeeps, fun n w h => ⟨hkeeps n w h.witness?, ?_⟩⟩
  rw [hdigest]
  exact h.verifies

/-- To sign with a key signs each input once that waits for it. -/
theorem signedOnce_signBy (tx : Transaction) (see : Outpoint → Option Output) (k : KeyPair) :
    tx.SignedOnce see k (tx.signBy see k) :=
  ⟨tx.getElem?_inputs_signBy see k, tx.signBy_snd see k⟩

theorem eq_of_unsigned {tx' : Transaction} (h : tx.unsigned = tx'.unsigned)
    (hinputs : tx.inputs = tx'.inputs) : tx = tx' := by
  rcases tx with ⟨version, inputs, outputs, lockTime⟩
  rcases tx' with ⟨version', inputs', outputs', lockTime'⟩
  obtain ⟨rfl, -, rfl, rfl⟩ := mk.inj h
  cases hinputs
  rfl

/-- What several keys sign depends on which they are, and not on their order. -/
theorem cosign_eq_of_apart (hapart : tx.Apart see ks) (hmem : ∀ k, k ∈ ks' ↔ k ∈ ks) :
    tx.cosign see ks' = tx.cosign see ks := by
  have hunsigned := (tx.unsigned_cosign see ks').trans (tx.unsigned_cosign see ks).symm
  refine eq_of_unsigned hunsigned (List.ext_getElem? fun n => ?_)
  rw [getElem?_inputs_cosign, getElem?_inputs_cosign]
  refine Option.map_congr fun i hi => ?_
  -- The input waits for at most one of the keys.
  have hfind : (ks'.find? fun k => i.awaits see k.publicKey) =
      ks.find? fun k => i.awaits see k.publicKey := by
    refine find?_eq_of_unique hmem fun k hk k' hk' h h' => ?_
    obtain ⟨out, hout, hauthorizes⟩ := Input.authorizes_of_awaits h
    obtain ⟨out', hout', hauthorizes'⟩ := Input.authorizes_of_awaits h'
    cases hout.symm.trans hout'
    exact hapart i (List.mem_of_getElem? hi) out hout k hk k' hk' hauthorizes hauthorizes'
  rw [hfind]

/-- Whatever outputs are seen, whatever the transaction and whichever keys sign it one after
    the other:

    * the transaction is completed, with nothing lost or changed;
    * the next key to sign signs exactly the inputs that wait for it, and says how many;
    * if no two of the keys may sign for one input, other orders of the keys and
      repetitions of them give the same transaction.

    So it is when a ledger shows the outputs. -/
theorem signing_completes (tx : Transaction) (see : Outpoint → Option Output)
    (ks : List KeyPair) :
    (tx.cosign see ks).Completes tx ∧
      (∀ k, (tx.cosign see ks).SignedOnce see k ((tx.cosign see ks).signBy see k)) ∧
      (tx.Apart see ks → ∀ ks', (∀ k, k ∈ ks' ↔ k ∈ ks) → tx.cosign see ks' = tx.cosign see ks) ∧
      ∀ (l : Ledger) k, tx.signWith l k = tx.signBy l.prevout? k :=
  ⟨tx.completes_cosign see ks, fun k => signedOnce_signBy _ see k,
    fun hapart _ hmem => cosign_eq_of_apart hapart hmem, fun l k => tx.signWith_eq_signBy l k⟩

/-! ## Two owners -/

namespace Shared

def seller : KeyPair := .ofSeed (.fill 32 1)

def buyer : KeyPair := .ofSeed (.fill 32 2)

/-- One output of each of them. -/
def shown (o : Outpoint) : Option Output :=
  if o.vout = 0 then some ⟨5, .key seller.publicKey⟩
  else if o.vout = 1 then some ⟨6, .condition (.oneOfOne 0xf8 buyer.publicKey)⟩
  else none

/-- A transaction that spends both, and an output that is not seen. -/
def spending : Transaction where
  inputs := [⟨⟨⟨.fill 32 7⟩, 0⟩, none⟩, ⟨⟨⟨.fill 32 7⟩, 1⟩, none⟩, ⟨⟨⟨.fill 32 7⟩, 2⟩, none⟩]
  outputs := [⟨11, .key seller.publicKey⟩]

/-- No input of the example waits for both keys. -/
theorem apart : spending.Apart shown [seller, buyer] := by
  -- No output is for both of them.
  have hnone : ∀ i ∈ spending.inputs, ∀ out ∈ shown i.prevout,
      ¬(out.lock.authorizes seller.publicKey ∧ out.lock.authorizes buyer.publicKey) := by
    decide +kernel
  intro i hi out hout k hk k' hk' h h'
  rw [List.mem_pair] at hk hk'
  rcases hk with rfl | rfl <;> rcases hk' with rfl | rfl
  · rfl
  · exact absurd ⟨h, h'⟩ (hnone i hi out hout)
  · exact absurd ⟨h', h⟩ (hnone i hi out hout)
  · rfl

/-- It does not matter which of them signs first, or that one of them signs twice. -/
theorem signed_either_way :
    (spending.Apart shown [seller, buyer] ∧ ∀ k, k ∈ [buyer, seller, buyer] ↔ k ∈ [seller, buyer]) ∧
      spending.cosign shown [buyer, seller, buyer] = spending.cosign shown [seller, buyer] := by
  have hmem : ∀ k, k ∈ [buyer, seller, buyer] ↔ k ∈ [seller, buyer] := fun k => by
    simp only [List.mem_cons, List.not_mem_nil, or_false]
    tauto
  obtain ⟨-, -, horder, -⟩ := signing_completes spending shown [seller, buyer]
  exact ⟨⟨apart, hmem⟩, horder apart _ hmem⟩

end Shared

end Transaction

end Escrow
