import Escrow.Proofs.Json.Text
import Escrow.Proofs.Text.Hex
import Escrow.Transaction.Json

/-!
# Transactions read back from JSON

A transaction is read from the value that it is written as, with all that is in it
(`Transaction.ofJson?_toJson`), and that value is plain (`Transaction.plain_toJson`).
Each record is read field by field, a lock after its kind.
-/

namespace Escrow

/-! ## Ids, keys and signatures -/

/-- An id is read back. -/
theorem TxId.ofJson?_toJson (id : TxId) : TxId.ofJson? id.toJson = some id := by
  have hhex : TxId.ofHex id.hex = .ok id := by
    rw [TxId.ofHex, TxId.hex, Hex.trim_encode, Hex.decode_encode]
    dsimp only
    rw [TxId.bytes, Octets.ofBytes?_bytes]
  simp [TxId.ofJson?, TxId.toJson, Json.text?, hhex, Except.toOption]

/-- Bytes in hexadecimal are read back. -/
theorem Octets.ofHex_encode {n : Nat} {badLength : Nat → KeyError} (o : Octets n) :
    Octets.ofHex n badLength (Hex.encode o.bytes) = .ok o := by
  rw [Octets.ofHex, Hex.trim_encode, Hex.decode_encode]
  dsimp only
  rw [Octets.ofBytes?_bytes]

theorem PublicKey.ofJson?_toJson (k : PublicKey) : PublicKey.ofJson? k.toJson = some k := by
  have hhex : PublicKey.ofHex k.hex = .ok k := by
    rw [PublicKey.ofHex, PublicKey.hex, PublicKey.bytes, Octets.ofHex_encode]
    rfl
  simp [PublicKey.ofJson?, PublicKey.toJson, Json.text?, hhex, Except.toOption]

theorem Signature.ofJson?_toJson (s : Signature) : Signature.ofJson? s.toJson = some s := by
  have hhex : Signature.ofHex s.hex = .ok s := by
    rw [Signature.ofHex, Signature.hex, Signature.bytes, Octets.ofHex_encode]
    rfl
  simp [Signature.ofJson?, Signature.toJson, Json.text?, hhex, Except.toOption]

/-! ## Outpoints and inputs -/

theorem Outpoint.ofJson?_toJson (o : Outpoint) : Outpoint.ofJson? o.toJson = some o := by
  rw [Outpoint.ofJson?, Outpoint.toJson, Json.record?_object]
  simp [Json.required, TxId.ofJson?_toJson, Json.word?_nat]

theorem Witness.ofJson?_toJson (w : Witness) : Witness.ofJson? w.toJson = some w := by
  rw [Witness.ofJson?, Witness.toJson, Json.record?_object]
  simp [Json.required, PublicKey.ofJson?_toJson, Signature.ofJson?_toJson]

/-- The record that a witness is written as is not null. -/
theorem Witness.toJson_ne_null (w : Witness) : w.toJson ≠ .null := by
  rw [Witness.toJson, Json.object]
  simp

theorem Input.ofJson?_toJson (i : Input) : Input.ofJson? i.toJson = some i := by
  rw [Input.ofJson?, Input.toJson, Json.record?_object]
  obtain ⟨prevout, witness⟩ := i
  cases witness with
  | none => simp [Json.required, Json.optional, Outpoint.ofJson?_toJson]
  | some w =>
    have hw : Json.optional Witness.ofJson? (some w.toJson) = some (some w) :=
      Json.optional_ofOption (f := Witness.ofJson?) (g := Witness.toJson) (o := some w) fun w _ =>
        ⟨w.ofJson?_toJson, w.toJson_ne_null⟩
    simp [Json.required, hw, Outpoint.ofJson?_toJson]

/-! ## Locks and outputs -/

/-- A lock is held as a whole before its kind is known. -/
theorem Lock.isWhole_toJson (l : Lock) : l.toJson.isWhole Lock.maxDepth := by
  cases l with
  | key k => exact Json.isWhole_object (by simp [Json.isWhole, PublicKey.toJson])
  | condition c =>
    have hkeys : (Json.list PublicKey.toJson c.keys).isWhole 120 :=
      Json.isWhole_arr (List.forall_mem_map.2 fun _ _ => rfl)
    exact Json.isWhole_object (by simp [Json.isWhole, Json.nat, hkeys])
  | data d => exact Json.isWhole_object (by simp [Json.isWhole])

theorem Lock.ofJson?_toJson (l : Lock) : Lock.ofJson? l.toJson = some l := by
  have hwhole := l.isWhole_toJson
  rw [Lock.ofJson?, hwhole]
  -- The type says which members there are.
  cases l with
  | key k =>
    obtain ⟨body, htagged, hbody⟩ :=
      Json.exists_tagged?_object "type" "pay_to_pubkey" [("pubkey", k.toJson)]
    rw [Lock.toJson, htagged]
    simp [hbody, Json.required, PublicKey.ofJson?_toJson]
  | condition c =>
    obtain ⟨body, htagged, hbody⟩ := Json.exists_tagged?_object "type" "condition"
      [("eval_code", .nat c.evalCode.toNat), ("threshold", .nat c.threshold.toNat),
        ("keys", .list PublicKey.toJson c.keys)]
    have hkeys : (Json.list PublicKey.toJson c.keys).list? PublicKey.ofJson? = some c.keys :=
      Json.list?_list fun k _ => k.ofJson?_toJson
    rw [Lock.toJson, htagged]
    simp [hbody, Json.required, Json.byte?_nat, hkeys]
  | data d =>
    obtain ⟨body, htagged, hbody⟩ :=
      Json.exists_tagged?_object "type" "op_return" [("data", .str (Hex.encode d))]
    have hdata : hex? (.str (Hex.encode d)) = some d := by
      simp [hex?, Json.text?, Hex.decode_encode, Except.toOption]
    rw [Lock.toJson, htagged]
    simp [hbody, Json.required, hdata]

theorem Output.ofJson?_toJson (o : Output) : Output.ofJson? o.toJson = some o := by
  rw [Output.ofJson?, Output.toJson, Json.record?_object]
  simp [Json.required, Lock.ofJson?_toJson, Json.amount?_int]

/-- A transaction is read back. -/
theorem Transaction.ofJson?_toJson (tx : Transaction) : Transaction.ofJson? tx.toJson = some tx := by
  rw [Transaction.ofJson?, Transaction.toJson, Json.record?_object]
  have hinputs : (Json.list Input.toJson tx.inputs).list? Input.ofJson? = some tx.inputs :=
    Json.list?_list fun i _ => i.ofJson?_toJson
  have houtputs : (Json.list Output.toJson tx.outputs).list? Output.ofJson? = some tx.outputs :=
    Json.list?_list fun o _ => o.ofJson?_toJson
  simp [Json.required, Json.word?_nat, hinputs, houtputs]

/-! ## Plain values -/

theorem TxId.plain_toJson (id : TxId) : id.toJson.Plain :=
  .str _

theorem PublicKey.plain_toJson (k : PublicKey) : k.toJson.Plain :=
  .str _

theorem Outpoint.plain_toJson (o : Outpoint) : o.toJson.Plain :=
  .object (by simp [TxId.plain_toJson, Json.Plain.word])

theorem Witness.plain_toJson (w : Witness) : w.toJson.Plain :=
  .object (by simp [PublicKey.plain_toJson, Signature.toJson, Json.Plain.str])

theorem Input.plain_toJson (i : Input) : i.toJson.Plain := by
  obtain ⟨prevout, witness⟩ := i
  cases witness with
  | none => exact .object (by simp [Outpoint.plain_toJson])
  | some w => exact .object (by simp [Outpoint.plain_toJson, Witness.plain_toJson])

theorem Lock.plain_toJson (l : Lock) : l.toJson.Plain := by
  cases l with
  | key k => exact .object (by simp [PublicKey.plain_toJson, Json.Plain.str])
  | condition c =>
    have hkeys : (Json.list PublicKey.toJson c.keys).Plain := .list fun k _ => k.plain_toJson
    exact .object (by simp [hkeys, Json.Plain.byte, Json.Plain.str])
  | data d => exact .object (by simp [Json.Plain.str])

theorem Output.plain_toJson (o : Output) : o.toJson.Plain :=
  .object (by simp [Json.Plain.amount, Lock.plain_toJson])

theorem Transaction.plain_toJson (tx : Transaction) : tx.toJson.Plain := by
  have hinputs : (Json.list Input.toJson tx.inputs).Plain := .list fun i _ => i.plain_toJson
  have houtputs : (Json.list Output.toJson tx.outputs).Plain := .list fun o _ => o.plain_toJson
  exact .object (by simp [Json.Plain.word, hinputs, houtputs])

end Escrow
