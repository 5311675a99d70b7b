import Escrow.Identity.Json
import Escrow.Key.Json
import Escrow.Transaction

/-!
# Locks and transactions as JSON

A lock is a record that says its kind under `type`; data are hexadecimal text. An
input without a witness is written without that field.
-/

namespace Escrow

namespace Lock

def toJson : Lock → Json
  | .key k => .object [("type", .str "pay_to_pubkey"), ("pubkey", k.toJson)]
  | .condition c => .object [("type", .str "condition"), ("eval_code", .nat c.evalCode.toNat),
      ("threshold", .nat c.threshold.toNat), ("keys", .list PublicKey.toJson c.keys)]
  | .data d => .object [("type", .str "op_return"), ("data", .str (Hex.encode d))]

/-- How deep a lock may nest, with all that is ignored in it. It lies six levels
    deep in a ledger, of the 127 that there may be. -/
def maxDepth : Nat := 121

/-- Bytes as hexadecimal text, with nothing around it. -/
def hex? (j : Json) : Option Bytes := do
  (Hex.decode (← j.text?)).toOption

def ofJson? (j : Json) : Option Lock := do
  if !j.isWhole maxDepth then none
  match ← j.tagged? "type" with
  | ("pay_to_pubkey", body) =>
    let [k] ← body.record? ["pubkey"] 1 | none
    return .key (← Json.required PublicKey.ofJson? k)
  | ("condition", body) =>
    let [code, threshold, keys] ← body.record? ["eval_code", "threshold", "keys"] 3 | none
    return .condition ⟨← Json.required Json.byte? code, ← Json.required Json.byte? threshold,
      ← Json.required (Json.list? PublicKey.ofJson?) keys⟩
  | ("op_return", body) =>
    let [d] ← body.record? ["data"] 1 | none
    return .data (← Json.required hex? d)
  | _ => none

end Lock

namespace Witness

def toJson (w : Witness) : Json :=
  .object [("pubkey", w.key.toJson), ("signature", w.signature.toJson)]

def ofJson? (j : Json) : Option Witness := do
  let [key, signature] ← j.record? ["pubkey", "signature"] 2 | none
  return ⟨← Json.required PublicKey.ofJson? key, ← Json.required Signature.ofJson? signature⟩

end Witness

namespace Input

def toJson (i : Input) : Json :=
  .object (("prevout", i.prevout.toJson) ::
    match i.witness with
    | some w => [("witness", w.toJson)]
    | none => [])

def ofJson? (j : Json) : Option Input := do
  let [prevout, witness] ← j.record? ["prevout", "witness"] 1 | none
  return ⟨← Json.required Outpoint.ofJson? prevout, ← Json.optional Witness.ofJson? witness⟩

end Input

namespace Output

def toJson (o : Output) : Json :=
  .object [("value", .int o.value.toInt), ("script", o.lock.toJson)]

def ofJson? (j : Json) : Option Output := do
  let [value, lock] ← j.record? ["value", "script"] 2 | none
  return ⟨← Json.required Json.amount? value, ← Json.required Lock.ofJson? lock⟩

end Output

namespace Transaction

def toJson (tx : Transaction) : Json :=
  .object [("version", .nat tx.version.toNat), ("inputs", .list Input.toJson tx.inputs),
    ("outputs", .list Output.toJson tx.outputs), ("lock_time", .nat tx.lockTime.toNat)]

def ofJson? (j : Json) : Option Transaction := do
  let [version, inputs, outputs, lockTime] ←
    j.record? ["version", "inputs", "outputs", "lock_time"] 4 | none
  return ⟨← Json.required Json.word? version, ← Json.required (Json.list? Input.ofJson?) inputs,
    ← Json.required (Json.list? Output.ofJson?) outputs, ← Json.required Json.word? lockTime⟩

end Transaction

end Escrow
