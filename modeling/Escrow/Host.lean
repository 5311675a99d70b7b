import Escrow.Ledger

/-!
# The host

A ledger and the contracts whose rules it keeps. A transaction is admitted
(`Host.check`) if it spends unspent outputs that exist, each signed by a key that
its lock allows, makes no more value than it spends, and every contract involved
agrees: those whose conditions lock an output spent or made, and the one whose
eval code starts the payload.

Value enters only by funding, whose transactions spend nothing. A `Command` is
something done to a host, and a run a list of commands (`Host.run`); a host that
is asked for something impossible refuses it and goes on. What makes blocks is also
there for a host that does not go on without a height and a moment for them (`mine?`,
`advance?`, `fund?`).
-/

namespace Escrow

/-- Why a host refuses. -/
inductive HostError
  | noInputs
  | noOutputs
  | duplicate (id : TxId)
  | unknownPrevout (vin : Nat) (outpoint : Outpoint)
  | spendsData (vin : Nat) (outpoint : Outpoint)
  | doubleSpend (vin : Nat) (outpoint : Outpoint) (spender : TxId)
  | duplicateInput (outpoint : Outpoint)
  | missingWitness (vin : Nat)
  | unauthorizedKey (vin : Nat)
  | badSignature (vin : Nat) (cause : KeyError)
  | negativeValue (vout : Nat)
  | insufficientInputs (inputs outputs : Amount)
  | noValidator (code : UInt8)
  | contractRejected (code : UInt8) (reason : String)
  | notarizeBeyondTip (height tip : Nat)
  | invalidFunding (value : Amount)
  | undecodable (cause : DecodeError)
  deriving DecidableEq

/-- The wording of an error. -/
def HostError.message : HostError → String
  | .noInputs => "transaction has no inputs"
  | .noOutputs => "transaction has no outputs"
  | .duplicate id => s!"transaction {id} already known"
  | .unknownPrevout vin outpoint => s!"input {vin} spends unknown output {outpoint}"
  | .spendsData vin outpoint => s!"input {vin} spends op_return output {outpoint}"
  | .doubleSpend vin outpoint spender =>
    s!"input {vin} double-spends {outpoint}, already spent by {spender}"
  | .duplicateInput outpoint => s!"output {outpoint} spent twice within one transaction"
  | .missingWitness vin => s!"input {vin} is not signed"
  | .unauthorizedKey vin => s!"input {vin} signed by a key the output lock does not allow"
  | .badSignature vin cause => s!"input {vin} has an invalid signature: " ++ cause.message
  | .negativeValue vout => s!"output {vout} has a negative value"
  | .insufficientInputs inputs outputs =>
    "outputs " ++ outputs.text ++ " exceed inputs " ++ inputs.text
  | .noValidator code => "no validator registered for eval code " ++ Hex.ofByte code
  | .contractRejected code reason =>
    "eval code " ++ Hex.ofByte code ++ " rejected transaction: " ++ reason
  | .notarizeBeyondTip height tip => s!"cannot notarize height {height} above tip {tip}"
  | .invalidFunding value => "funding amount must be positive, got " ++ value.text
  | .undecodable cause => cause.message

/-- What a contract says of a transaction that it rejects. -/
def HostError.reason? : HostError → Option String
  | .contractRejected _ reason => some reason
  | _ => none

/-- The rules of a contract, under its eval code. -/
structure Validator where
  evalCode : UInt8
  /-- Agrees to a transaction, or gives the reason why not. -/
  judge : Ledger → Transaction → Except String Unit

/-- A ledger and the contracts whose rules it keeps. -/
structure Host where
  ledger : Ledger
  validators : List Validator := []

/-- Puts an eval code in its place among ascending ones, unless it is there. -/
def insertCode (code : UInt8) : List UInt8 → List UInt8
  | [] => [code]
  | c :: rest =>
    if code < c then code :: c :: rest
    else if code = c then c :: rest
    else c :: insertCode code rest

namespace Ledger

/-- Checks the input at a position, given the outpoints spent before it, and gives
    the output it spends. -/
def checkInput (l : Ledger) (tx : Transaction) (vin : Nat) (before : List Outpoint) (i : Input) :
    Except HostError Output := do
  let o := i.prevout
  if before.contains o then throw (.duplicateInput o)
  let some out := l.prevout? o | throw (.unknownPrevout vin o)
  if out.lock.data?.isSome then throw (.spendsData vin o)
  if let some (spender, _) := l.spentBy? o then throw (.doubleSpend vin o spender)
  let some w := i.witness | throw (.missingWitness vin)
  if !out.lock.authorizes w.key then throw (.unauthorizedKey vin)
  (w.key.verify (tx.sighash vin) w.signature).mapError (.badSignature vin)
  return out

/-- Checks the inputs from a position on, and gives the outputs they spend. -/
def checkInputs (l : Ledger) (tx : Transaction) :
    (vin : Nat) → (before : List Outpoint) → List Input → Except HostError (List Output)
  | _, _, [] => .ok []
  | vin, before, i :: rest => do
    let out ← l.checkInput tx vin before i
    return out :: (← checkInputs l tx (vin + 1) (i.prevout :: before) rest)

end Ledger

/-- Checks that no output has a negative value and that they do not exceed the
    outputs spent. -/
def Transaction.checkValues (tx : Transaction) (spent : List Output) : Except HostError Unit := do
  if let some vout := tx.outputs.findIdx? (·.value < 0) then throw (.negativeValue vout)
  let inputs := Amount.saturatingTotal (spent.map Output.value)
  let outputs := Amount.saturatingTotal (tx.outputs.map Output.value)
  if inputs < outputs then throw (.insufficientInputs inputs outputs)

namespace Host

/-- The contract of an eval code. -/
def validator? (h : Host) (code : UInt8) : Option Validator :=
  h.validators.find? (·.evalCode = code)

/-- Adds a contract, which replaces one of the same eval code. -/
def register (h : Host) (v : Validator) : Host :=
  { h with validators := h.validators.filter (·.evalCode ≠ v.evalCode) ++ [v] }

/-- The eval codes of the contracts that a transaction involves, ascending, given
    the outputs that it spends. -/
def codes (h : Host) (tx : Transaction) (spent : List Output) : List UInt8 :=
  let conditions := (spent ++ tx.outputs).filterMap fun o => o.lock.condition?
  let tag := (tx.payload?.bind List.head?).filter fun code => (h.validator? code).isSome
  (conditions.map Condition.evalCode ++ tag.toList).foldr insertCode []

/-- Asks the contract of an eval code about a transaction. -/
def judge (h : Host) (tx : Transaction) (code : UInt8) : Except HostError Unit :=
  match h.validator? code with
  | none => .error (.noValidator code)
  | some v =>
    match v.judge h.ledger tx with
    | .error reason => .error (.contractRejected code reason)
    | .ok () => .ok ()

/-- Whether a transaction may be recorded, with its id, and otherwise why not. -/
def check (h : Host) (tx : Transaction) : Except HostError TxId := do
  if tx.inputs.isEmpty then throw .noInputs
  if tx.outputs.isEmpty then throw .noOutputs
  if (h.ledger.record? tx.txid).isSome then throw (.duplicate tx.txid)
  let spent ← h.ledger.checkInputs tx 0 [] tx.inputs
  tx.checkValues spent
  (h.codes tx spent).forM (h.judge tx)
  return tx.txid

/-- Records a transaction if it may be. -/
def submit (h : Host) (tx : Transaction) : Except HostError TxId × Host :=
  match h.check tx with
  | .error e => (.error e, h)
  | .ok id => (.ok id, { h with ledger := h.ledger.insert tx })

/-- Records the transaction written in a text if it may be. -/
def submitHex (h : Host) (s : String) : Except HostError TxId × Host :=
  match Transaction.ofHex s with
  | .error e => (.error (.undecodable e), h)
  | .ok tx => h.submit tx

/-- Makes a block. -/
def mine (h : Host) : Host :=
  { h with ledger := h.ledger.mine }

/-- Makes a number of blocks. -/
def advance (h : Host) : Nat → Host
  | 0 => h
  | n + 1 => h.mine.advance n

/-- Makes a block if it can be had. -/
def mine? (h : Host) : Option Host :=
  h.ledger.mine?.map fun l => { h with ledger := l }

/-- Makes a number of blocks if they can be had. -/
def advance? (h : Host) : Nat → Option Host
  | 0 => some h
  | n + 1 => h.mine?.bind fun h => h.advance? n

/-- The transaction that makes value for a key, the `nonce`-th of its kind. -/
def funding (key : PublicKey) (value : Amount) (nonce : UInt32) : Transaction :=
  { outputs := [⟨value, .key key⟩], lockTime := nonce }

/-- Makes value for a key, in a block of its own. A transaction that is already
    recorded is refused, and still counted. -/
def fund (h : Host) (key : PublicKey) (value : Amount) : Except HostError Outpoint × Host :=
  if value ≤ 0 then (.error (.invalidFunding value), h)
  else
    let nonce := h.ledger.nonce + 1
    let counted := { h.ledger with nonce := nonce }
    let tx := funding key value nonce
    if (h.ledger.record? tx.txid).isSome then
      (.error (.duplicate tx.txid), { h with ledger := counted })
    else (.ok ⟨tx.txid, 0⟩, { h with ledger := (counted.insert tx).mine })

/-- Makes value for a key, if the block for it can be had. -/
def fund? (h : Host) (key : PublicKey) (value : Amount) : Option Host :=
  if value ≤ 0 then some h
  else
    let nonce := h.ledger.nonce + 1
    let counted := { h.ledger with nonce := nonce }
    let tx := funding key value nonce
    if (h.ledger.record? tx.txid).isSome then some { h with ledger := counted }
    else mine? { h with ledger := counted.insert tx }

/-- Notarizes the blocks up to a height, unless they already are. -/
def notarize (h : Host) (height : Nat) : Except HostError Unit × Host :=
  if h.ledger.height < height then
    (.error (.notarizeBeyondTip height h.ledger.height), h)
  else
    (.ok (), { h with ledger := { h.ledger with notarized := max h.ledger.notarized height } })

end Host

/-- Something done to a host. -/
inductive Command
  | fund (key : PublicKey) (value : Amount)
  | submit (tx : Transaction)
  | mine
  | advance (blocks : Nat)
  | notarize (height : Nat)

namespace Host

/-- The host after a command, whether it was refused or not. -/
def step (h : Host) : Command → Host
  | .fund key value => (h.fund key value).2
  | .submit tx => (h.submit tx).2
  | .mine => h.mine
  | .advance blocks => h.advance blocks
  | .notarize height => (h.notarize height).2

/-- The host after a list of commands. -/
def run (h : Host) (commands : List Command) : Host :=
  commands.foldl step h

end Host

end Escrow
