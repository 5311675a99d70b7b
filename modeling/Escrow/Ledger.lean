import Escrow.Timestamp
import Escrow.Transaction

/-!
# The ledger

The transactions recorded so far, in the order they came in: those of blocks,
which have the height of their block, and those of the *mempool*, which wait for
one. Blocks without transactions are counted but not listed. A ledger goes on
as if there were a height and a moment for every block; those that there are not are
told apart from the others by `mine?` and `timeAt?`.

What is asked of a ledger is found in the list of records: the record of an id
(`record?`), the output an outpoint names (`prevout?`), the input that spends it
(`spender?`), the outputs at an address (`outputsAt`). If records disagree, as
they can only in a ledger that was made up, the last one counts.
-/

namespace Escrow

/-- A recorded transaction. -/
structure Record where
  txid : TxId
  tx : Transaction
  /-- The height of its block, unless it waits for one. -/
  height : Option Nat
  deriving DecidableEq

/-- A block with transactions. -/
structure Block where
  height : Nat
  time : Timestamp
  txids : List TxId
  deriving DecidableEq

/-- What is recorded. -/
structure Ledger where
  /-- The time of height zero. -/
  genesis : Timestamp
  /-- The seconds from one block to the next. -/
  blockTime : UInt64
  /-- The height of the last block. -/
  height : Nat := 0
  /-- The height up to which blocks are notarized. -/
  notarized : Nat := 0
  blocks : List Block := []
  records : List Record := []
  /-- Counts the funding transactions, which would otherwise be alike. -/
  nonce : UInt32 := 0
  deriving DecidableEq

/-- The input that spends an output. -/
structure Spend where
  txid : TxId
  vin : Nat
  height : Option Nat
  deriving DecidableEq

/-- An output found at an address. -/
structure Coin where
  outpoint : Outpoint
  value : Amount
  height : Option Nat
  deriving DecidableEq

namespace Record

/-- Whether a transaction is in a block. -/
def isConfirmed (r : Record) : Bool :=
  r.height.isSome

/-- A transaction put into the block at a height, if it waits for one. -/
def confirm (height : Nat) (r : Record) : Record :=
  { r with height := some (r.height.getD height) }

end Record

namespace Ledger

/-- The record of an id. -/
def record? (l : Ledger) (id : TxId) : Option Record :=
  l.records.findRev? (·.txid = id)

/-- The height of the block that a transaction is in. -/
def heightOf? (l : Ledger) (id : TxId) : Option Nat :=
  (l.record? id).bind Record.height

/-- The output that an outpoint names. -/
def prevout? (l : Ledger) (o : Outpoint) : Option Output :=
  (l.record? o.txid).bind fun r => r.tx.outputs[o.vout.toNat]?

/-- The transaction that spends an output, and the position of the input. -/
def spentBy? (l : Ledger) (o : Outpoint) : Option (TxId × Nat) :=
  l.records.findSomeRev? fun r =>
    r.tx.inputs.zipIdx.findSomeRev? fun (i, vin) =>
      if i.prevout = o then some (r.txid, vin) else none

/-- The input that spends an output. -/
def spender? (l : Ledger) (o : Outpoint) : Option Spend :=
  (l.spentBy? o).map fun (id, vin) => ⟨id, vin, l.heightOf? id⟩

/-- The outpoints of the outputs at an address, in order. -/
def outpointsAt (l : Ledger) (a : Address) : List Outpoint :=
  l.records.flatMap fun r =>
    r.tx.outputs.zipIdx.filterMap fun (o, vout) =>
      if Address.ofLock? o.lock = some a then some ⟨r.txid, UInt32.ofNat vout⟩ else none

/-- The outputs at an address, in order. -/
def outputsAt (l : Ledger) (a : Address) : List Coin :=
  (l.outpointsAt a).filterMap fun o => do
    let r ← l.record? o.txid
    let out ← r.tx.outputs[o.vout.toNat]?
    return ⟨o, out.value, r.height⟩

/-- The outputs at an address that nothing spends, in order. -/
def unspentAt (l : Ledger) (a : Address) : List Coin :=
  (l.outputsAt a).filter fun c => (l.spentBy? c.outpoint).isNone

/-- The sum of the unspent outputs of a key. -/
def balance (l : Ledger) (k : PublicKey) : Int :=
  ((l.unspentAt (.ofKey k)).map fun c => c.value.toInt).foldr (· + ·) 0

/-- The sum of the unspent outputs of a key, if every sum on the way is in the range of
    amounts. -/
def balance? (l : Ledger) (k : PublicKey) : Option Amount :=
  Amount.total? ((l.unspentAt (.ofKey k)).map Coin.value)

/-- The number of blocks since a transaction was recorded in one, counting that
    one; none if it waits. -/
def confirmations (l : Ledger) (id : TxId) : Nat :=
  match l.heightOf? id with
  | some h => l.height - h + 1
  | none => 0

/-- Whether the block at a height is notarized. -/
def isNotarized (l : Ledger) (height : Nat) : Bool :=
  0 < height && height ≤ l.notarized

/-- Whether a transaction is in a notarized block. -/
def isTxNotarized (l : Ledger) (id : TxId) : Bool :=
  (l.heightOf? id).any l.isNotarized

/-- The transactions that wait for a block, in order. -/
def mempool (l : Ledger) : List TxId :=
  (l.records.filter fun r => !r.isConfirmed).map Record.txid

/-- The seconds from the genesis to a height. The time between blocks counts as a
    signed number, and the product stays in that range. -/
def secondsTo (l : Ledger) (height : Nat) : Int :=
  max Amount.least (min Amount.greatest (height * l.blockTime.toInt64.toInt))

/-- The time of the block at a height. -/
def timeAt (l : Ledger) (height : Nat) : Timestamp :=
  l.genesis.plus (l.secondsTo height)

/-- The time of the block at a height, if there is such a moment. -/
def timeAt? (l : Ledger) (height : Nat) : Option Timestamp :=
  l.genesis.plus? (l.secondsTo height)

/-- The number of heights that there are. -/
def heights : Nat := 0x100000000

/-- Records a transaction, which now waits for a block. -/
def insert (l : Ledger) (tx : Transaction) : Ledger :=
  { l with records := l.records ++ [⟨tx.txid, tx, none⟩] }

/-- Makes a block of the transactions that wait for one. -/
def mine (l : Ledger) : Ledger :=
  let height := l.height + 1
  let waiting := l.mempool
  if waiting.isEmpty then { l with height := height }
  else
    { l with
      height := height
      records := l.records.map (Record.confirm height)
      blocks := l.blocks ++ [⟨height, l.timeAt height, waiting⟩] }

/-- Makes a block, if there is a height for it and, unless it is empty, a moment. -/
def mine? (l : Ledger) : Option Ledger :=
  if heights ≤ l.height + 1 then none
  else if l.mempool.isEmpty then some l.mine
  else (l.timeAt? (l.height + 1)).map fun _ => l.mine

end Ledger

/-- Signs with a key every input that has no witness and spends an output that the
    key may sign for. Also says how many those are. -/
def Transaction.signWith (tx : Transaction) (l : Ledger) (k : KeyPair) : Transaction × Nat :=
  let mine := tx.inputs.zipIdx.filterMap fun (i, vin) =>
    if i.witness.isNone && (l.prevout? i.prevout).any (·.lock.authorizes k.publicKey) then some vin
    else none
  (mine.foldl (fun tx vin => tx.signInput vin k) tx, mine.length)

end Escrow
