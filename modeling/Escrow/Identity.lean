import Escrow.Wire
import Escrow.Text.Blank

/-!
# Ids and outpoints

A transaction is named by an id of 32 bytes, and one of its outputs by an
*outpoint*: the id and the position of the output. As text an id is 64
hexadecimal digits, blank characters around them ignored.
-/

namespace Escrow

/-- The name of a transaction. -/
@[ext] structure TxId where
  octets : Octets 32
  deriving DecidableEq

namespace TxId

/-- The id of no transaction, written where an id is left out. -/
def null : TxId :=
  ⟨.fill 32 0⟩

/-- An id, unless it is the null one. -/
def nonNull? (id : TxId) : Option TxId :=
  if id = null then none else some id

def bytes (id : TxId) : Bytes :=
  id.octets.bytes

/-- The 64 digits of an id. -/
def hex (id : TxId) : String :=
  Hex.encode id.bytes

/-- An id shortened for people to read. -/
def brief (id : TxId) : String :=
  "TxId(" ++ Hex.encode (id.bytes.take 4) ++ "...)"

/-- The id written in a text. -/
def ofHex (s : String) : Except DecodeError TxId :=
  match Hex.decode (Text.trim s) with
  | .error e => .error (.hex e)
  | .ok bs =>
    match Octets.ofBytes? 32 bs with
    | some o => .ok ⟨o⟩
    | none => .error (.invalidLength "txid" bs.length)

instance : ToString TxId where
  toString := hex

end TxId

/-- The name of an output: that of its transaction, and its position there. -/
@[ext] structure Outpoint where
  txid : TxId
  vout : UInt32
  deriving DecidableEq

namespace Outpoint

/-- An outpoint as text, `id/position`. -/
def text (o : Outpoint) : String :=
  o.txid.hex ++ "/" ++ toString o.vout.toNat

instance : ToString Outpoint where
  toString := text

end Outpoint

end Escrow
