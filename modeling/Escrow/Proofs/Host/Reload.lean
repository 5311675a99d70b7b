import Escrow.Agreement.History
import Escrow.Agreement.Rules
import Escrow.Host
import Escrow.Proofs.Ledger.Index

/-!
# Taking up a host again

A host may answer from an index instead of the list of records (`IndexedHost`).
It then finds by the index whether a transaction is known, what an input spends
and whether that is spent already, and adds to the index whatever it records. When
it is saved the index is not: a host that is taken up again has the index that is
made anew from the records (`load`).

That makes no difference. In every run the index that was added to is the one that
would be made anew (`run_load`), whatever was refused along the way. So the host that
is taken up again is the same host, with the same answers (`View`), and commands give
the same results on it and leave the same ledgers, however often it is saved and taken
up between them (`transcript_load`). They are those of a host without an index, which
searches its records.
-/

namespace Escrow

/-! ## Answers -/

/-- What is known of a ledger from outside. -/
structure View where
  /-- The record of an id. -/
  record? : TxId → Option Record
  /-- The input that spends an output. -/
  spender? : Outpoint → Option Spend
  /-- The outputs at an address, in order. -/
  outputsAt : Address → List Coin
  /-- The height of the last block. -/
  height : Nat
  /-- Whether the block at a height is notarized. -/
  isNotarized : Nat → Bool
  /-- The transactions that wait for a block, in order. -/
  mempool : List TxId

namespace View

/-- The record of a transaction that is in a block. -/
def confirmed? (v : View) (id : TxId) : Option Record :=
  (v.record? id).filter Record.isConfirmed

/-- The output that an outpoint names. -/
def prevout? (v : View) (o : Outpoint) : Option Output :=
  (v.record? o.txid).bind fun r => r.tx.outputs[o.vout.toNat]?

/-- The outputs at an address that nothing spends, in order. -/
def unspentAt (v : View) (a : Address) : List Coin :=
  (v.outputsAt a).filter fun c => (v.spender? c.outpoint).isNone

/-- The sum of the unspent outputs of a key. -/
def balance (v : View) (k : PublicKey) : Int :=
  ((v.unspentAt (.ofKey k)).map fun c => c.value.toInt).foldr (· + ·) 0

/-- The number of blocks since a transaction was recorded in one. -/
def confirmations (v : View) (id : TxId) : Nat :=
  match (v.record? id).bind Record.height with
  | some h => v.height - h + 1
  | none => 0

/-- Whether a transaction is in a notarized block. -/
def isTxNotarized (v : View) (id : TxId) : Bool :=
  ((v.record? id).bind Record.height).any v.isNotarized

end View

namespace Ledger

/-- The answers found in the records. -/
def view (l : Ledger) : View where
  record? := l.record?
  spender? := l.spender?
  outputsAt := l.outputsAt
  height := l.height
  isNotarized := l.isNotarized
  mempool := l.mempool

variable (l : Ledger)

/-- What is known from outside tells which record is in a block. -/
theorem view_confirmed? (id : TxId) :
    l.view.confirmed? id = (l.confirmed id).toOption := by
  rw [View.confirmed?, confirmed]
  change (l.record? id).filter Record.isConfirmed = _
  cases l.record? id with
  | none => rfl
  | some r =>
    rw [Option.filter_some]
    dsimp only
    split <;> rfl

theorem view_prevout? : l.view.prevout? = l.prevout? := rfl

/-- What is known from outside tells what is unspent at an address. -/
theorem view_unspentAt : l.view.unspentAt = l.unspentAt := by
  funext a
  refine List.filter_congr fun c _ => ?_
  exact Option.isNone_map

/-- A view shows the balances of its ledger. -/
theorem view_balance : l.view.balance = l.balance := by
  funext k
  rw [View.balance, view_unspentAt, balance]

theorem view_confirmations : l.view.confirmations = l.confirmations := rfl

theorem view_isTxNotarized : l.view.isTxNotarized = l.isTxNotarized := rfl

end Ledger

/-! ## Results -/

/-- What a command gives. -/
inductive CommandResult
  | funded (made : Except HostError Outpoint)
  | submitted (recorded : Except HostError TxId)
  /-- Blocks were made, up to a height. -/
  | reached (height : Nat)
  | notarized (done : Except HostError Unit)

namespace Host

/-- Does a command, and gives its result. -/
def perform (h : Host) : Command → CommandResult × Host
  | .fund key value => (h.fund key value).map .funded id
  | .submit tx => (h.submit tx).map .submitted id
  | .mine => (.reached h.mine.ledger.height, h.mine)
  | .advance blocks => (.reached (h.advance blocks).ledger.height, h.advance blocks)
  | .notarize height => (h.notarize height).map .notarized id

/-- The host after a command is the same with its result or without it. -/
theorem perform_snd (h : Host) (c : Command) : (h.perform c).2 = h.step c := by
  cases c <;> rfl

/-- The results of some commands, each with the ledger that it leaves. -/
def transcript (h : Host) : List Command → List (CommandResult × Ledger)
  | [] => []
  | c :: cs => ((h.perform c).1, (h.perform c).2.ledger) :: (h.perform c).2.transcript cs

end Host

/-! ## Hosts with an index -/

/-- A ledger, an index for it, and the contracts whose rules are kept. -/
structure IndexedHost where
  ledger : Ledger
  index : Index
  validators : List Validator

/-- Something that is done with a host that is saved: it is given a command, or it is
    saved and taken up again. -/
inductive Act
  | command (command : Command)
  | reload

/-- The command that an act gives. -/
def Act.command? : Act → Option Command
  | .command c => some c
  | .reload => none

namespace IndexedHost

/-- A host with the index that is made from its records. -/
def load (h : Host) : IndexedHost :=
  ⟨h.ledger, .ofRecords h.ledger.records, h.validators⟩

/-- The host without its index, which is what is saved. -/
def host (x : IndexedHost) : Host :=
  ⟨x.ledger, x.validators⟩

/-- The host that is taken up again after it is saved. -/
def reload (x : IndexedHost) : IndexedHost :=
  load x.host

section
variable (x : IndexedHost)

/-- The record at the position that the index has for an id. -/
def record? (id : TxId) : Option Record :=
  (x.index.position? id).bind (x.ledger.records[·]?)

/-- The answers found by the index. -/
def view : View where
  record? := x.record?
  spender? o := (x.index.spentBy? o).map fun (id, vin) =>
    ⟨id, vin, (x.record? id).bind Record.height⟩
  outputsAt a := (x.index.outpointsAt a).filterMap fun o => do
    let r ← x.record? o.txid
    let out ← r.tx.outputs[o.vout.toNat]?
    return ⟨o, out.value, r.height⟩
  height := x.ledger.height
  isNotarized := x.ledger.isNotarized
  mempool := x.ledger.mempool

/-- Checks the input at a position, given the outpoints spent before it, and gives
    the output it spends. -/
def checkInput (tx : Transaction) (vin : Nat) (before : List Outpoint) (i : Input) :
    Except HostError Output := do
  let o := i.prevout
  if before.contains o then throw (.duplicateInput o)
  let some out := x.view.prevout? o | throw (.unknownPrevout vin o)
  if out.lock.data?.isSome then throw (.spendsData vin o)
  if let some (spender, _) := x.index.spentBy? o then throw (.doubleSpend vin o spender)
  let some w := i.witness | throw (.missingWitness vin)
  if !out.lock.authorizes w.key then throw (.unauthorizedKey vin)
  (w.key.verify (tx.sighash vin) w.signature).mapError (.badSignature vin)
  return out

/-- Checks the inputs from a position on, and gives the outputs they spend. -/
def checkInputs (tx : Transaction) :
    (vin : Nat) → (before : List Outpoint) → List Input → Except HostError (List Output)
  | _, _, [] => .ok []
  | vin, before, i :: rest => do
    let out ← x.checkInput tx vin before i
    return out :: (← checkInputs tx (vin + 1) (i.prevout :: before) rest)

/-- Whether a transaction may be recorded, with its id, and otherwise why not. The
    contracts look at the records themselves: they ask for nothing that `view` does not
    answer. -/
def check (tx : Transaction) : Except HostError TxId := do
  if tx.inputs.isEmpty then throw .noInputs
  if tx.outputs.isEmpty then throw .noOutputs
  if (x.index.position? tx.txid).isSome then throw (.duplicate tx.txid)
  let spent ← x.checkInputs tx 0 [] tx.inputs
  tx.checkValues spent
  (x.host.codes tx spent).forM (x.host.judge tx)
  return tx.txid

/-- Records a transaction, and adds it to the index. -/
def insert (tx : Transaction) : IndexedHost :=
  { x with
    ledger := x.ledger.insert tx
    index := x.index.add x.ledger.records.length ⟨tx.txid, tx, none⟩ }

/-- Makes a block, which the index has nothing of. -/
def mine : IndexedHost :=
  { x with ledger := x.ledger.mine }

end

/-- Makes a number of blocks. -/
def advance (x : IndexedHost) : Nat → IndexedHost
  | 0 => x
  | n + 1 => x.mine.advance n

variable (x : IndexedHost)

/-- Records a transaction if it may be. -/
def submit (tx : Transaction) : Except HostError TxId × IndexedHost :=
  match x.check tx with
  | .error e => (.error e, x)
  | .ok id => (.ok id, x.insert tx)

/-- Makes value for a key, in a block of its own, unless the transaction is known. -/
def fund (key : PublicKey) (value : Amount) : Except HostError Outpoint × IndexedHost :=
  if value ≤ 0 then (.error (.invalidFunding value), x)
  else
    let nonce := x.ledger.nonce + 1
    let counted := { x with ledger := { x.ledger with nonce := nonce } }
    let tx := Host.funding key value nonce
    if (x.index.position? tx.txid).isSome then (.error (.duplicate tx.txid), counted)
    else (.ok ⟨tx.txid, 0⟩, (counted.insert tx).mine)

/-- Notarizes the blocks up to a height, unless they already are. -/
def notarize (height : Nat) : Except HostError Unit × IndexedHost :=
  if x.ledger.height < height then
    (.error (.notarizeBeyondTip height x.ledger.height), x)
  else
    (.ok (), { x with
      ledger := { x.ledger with notarized := max x.ledger.notarized height } })

/-- Does a command, and gives its result. -/
def perform : Command → CommandResult × IndexedHost
  | .fund key value => (x.fund key value).map .funded id
  | .submit tx => (x.submit tx).map .submitted id
  | .mine => (.reached x.mine.ledger.height, x.mine)
  | .advance blocks => (.reached (x.advance blocks).ledger.height, x.advance blocks)
  | .notarize height => (x.notarize height).map .notarized id

/-- The host after some commands. -/
def run (cs : List Command) : IndexedHost :=
  cs.foldl (fun x c => (x.perform c).2) x

/-- The results of the commands among some acts, each with the ledger that it leaves. -/
def transcript (x : IndexedHost) : List Act → List (CommandResult × Ledger)
  | [] => []
  | .command c :: acts =>
    ((x.perform c).1, (x.perform c).2.ledger) :: (x.perform c).2.transcript acts
  | .reload :: acts => x.reload.transcript acts

/-! ## The index that was added to is the one made anew -/

variable (h : Host)

/-- A new index finds the record that a search finds. -/
theorem record?_load : (load h).record? = h.ledger.record? := by
  funext id
  exact (h.ledger.record?_eq_position? id).symm

/-- A new index finds the input that a search finds. -/
theorem spentBy?_load : (load h).index.spentBy? = h.ledger.spentBy? :=
  funext h.ledger.index_spentBy?

/-- The answers found by a new index are those found in the records. -/
theorem view_load : (load h).view = h.ledger.view := by
  rw [view, record?_load, spentBy?_load]
  congr 1
  funext a
  exact congrArg _ (h.ledger.index_outpointsAt a)

/-- An id has a position if it has a record. -/
theorem isSome_position?_load (id : TxId) :
    ((load h).index.position? id).isSome = (h.ledger.record? id).isSome := by
  rw [← record?_load, record?]
  cases hpos : (load h).index.position? id with
  | none => rfl
  | some pos =>
    have hlt : pos < h.ledger.records.length := Index.lt_length_of_position? hpos
    rw [Option.bind_some, load, List.getElem?_eq_getElem hlt]
    rfl

/-- An input is checked in the same way with a new index. -/
theorem checkInput_load : (load h).checkInput = h.ledger.checkInput := by
  funext tx vin before i
  rw [checkInput, view_load, Ledger.view_prevout?, spentBy?_load]
  rfl

/-- Inputs are checked in the same way with a new index. -/
theorem checkInputs_load (tx : Transaction) (vin : Nat) (before : List Outpoint)
    (is : List Input) :
    (load h).checkInputs tx vin before is = h.ledger.checkInputs tx vin before is := by
  induction is generalizing vin before with
  | nil => rfl
  | cons i is ih => rw [checkInputs, Ledger.checkInputs, checkInput_load, ih]

/-- A transaction is checked in the same way with a new index. -/
theorem check_load (tx : Transaction) : (load h).check tx = h.check tx := by
  rw [check, isSome_position?_load, checkInputs_load]
  rfl

/-- What is added to a new index is what a new one has of the longer list of records. -/
theorem insert_load (tx : Transaction) :
    (load h).insert tx = load { h with ledger := h.ledger.insert tx } :=
  congrArg (IndexedHost.mk _ · _) (h.ledger.index_insert tx).symm

/-- To load and to put in a block come to the same in either order. -/
theorem mine_load : (load h).mine = load h.mine :=
  congrArg (IndexedHost.mk _ · _) h.ledger.index_mine.symm

/-- Blocks leave a new index as it is. -/
theorem advance_load (blocks : Nat) : (load h).advance blocks = load (h.advance blocks) := by
  induction blocks generalizing h with
  | zero => rfl
  | succ n ih => rw [advance, mine_load, ih, Host.advance]

/-- A transaction is submitted in the same way with a new index, which stays one. -/
theorem submit_load (tx : Transaction) :
    (load h).submit tx = (h.submit tx).map id load := by
  rw [submit, check_load, Host.submit]
  cases h.check tx with
  | error e => rfl
  | ok id => rw [insert_load]; rfl

/-- A key is funded in the same way with a new index, which stays one. -/
theorem fund_load (key : PublicKey) (value : Amount) :
    (load h).fund key value = (h.fund key value).map id load := by
  rw [fund, Host.fund]
  split
  · rfl
  · dsimp only
    rw [isSome_position?_load, load]
    dsimp only
    split
    · rfl
    · -- The funding is counted and recorded, and put in a block.
      let counted : Host := { h with ledger := { h.ledger with nonce := h.ledger.nonce + 1 } }
      let tx := Host.funding key value (h.ledger.nonce + 1)
      have hrecorded : ((load counted).insert tx).mine =
          load { counted with ledger := (counted.ledger.insert tx).mine } := by
        rw [insert_load, mine_load]
        rfl
      exact congrArg (Prod.mk _) hrecorded

theorem notarize_load (height : Nat) :
    (load h).notarize height = (h.notarize height).map id load := by
  rw [notarize, Host.notarize, load]
  dsimp only
  split <;> rfl

/-- A command does the same with a new index as without one, and leaves an index
    that is the new one of what it leaves. -/
theorem perform_load (c : Command) :
    (load h).perform c = ((h.perform c).1, load (h.perform c).2) := by
  cases c with
  | fund key value => rw [perform, fund_load]; rfl
  | submit tx => rw [perform, submit_load]; rfl
  | mine => rw [perform, mine_load]; rfl
  | advance blocks => rw [perform, advance_load]; rfl
  | notarize height => rw [perform, notarize_load]; rfl

/-- In a run an index that was new stays so: it is the one that is made from the records in
    the end. -/
theorem run_load (cs : List Command) : (load h).run cs = load (h.run cs) := by
  induction cs generalizing h with
  | nil => rfl
  | cons c cs ih =>
    rw [run, List.foldl_cons, perform_load, Host.perform_snd]
    exact ih (h.step c)

/-- The results of the commands are the same whatever is done between them. -/
theorem transcript_load (acts : List Act) :
    (load h).transcript acts = h.transcript (acts.filterMap Act.command?) := by
  induction acts generalizing h with
  | nil => rfl
  | cons act acts ih =>
    cases act with
    | command c =>
      rw [transcript, perform_load, ih]
      rfl
    | reload => exact ih h

end IndexedHost

end Escrow
