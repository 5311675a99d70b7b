import Escrow.Agreement.Payload
import Escrow.Ledger

/-!
# Histories

An agreement is named by the transaction that accepted its offer. That
transaction makes a *baton*, its output 0, and every later event of the agreement
spends the baton, which passes on to output 0 of the event; so the history of an
agreement is found by following spent batons (`Ledger.events`). It ends where the
baton is unspent, and with an event that ends the agreement: one that closes or
resolves it, or accepts an amendment, which begins another agreement.

Only confirmed transactions count.
-/

namespace Escrow

/-- Why a transaction is not the one looked for. -/
inductive LookupError
  | notFound (id : TxId)
  | unconfirmed (id : TxId)
  | wrongType (id : TxId) (expected : String)
  deriving DecidableEq

/-- The wording of an error about a transaction in some role. -/
def LookupError.message (what : String) : LookupError → String
  | .notFound id => s!"{what} {id} not found"
  | .unconfirmed id => s!"{what} {id} is not confirmed"
  | .wrongType id expected => s!"{what} {id} is not a '{expected}' transaction"

/-- Why a history cannot be told. -/
inductive HistoryError
  | lookup (cause : LookupError)
  | tooLong (agreement : TxId) (max : Nat)
  deriving DecidableEq

/-- The wording of an error. -/
def HistoryError.message : HistoryError → String
  | .lookup cause => cause.message "transaction"
  | .tooLong agreement max => s!"event chain of agreement {agreement} exceeds {max} steps"

/-- An agreement, and the offer that it accepted. -/
structure Agreement where
  txid : TxId
  height : Nat
  offerId : TxId
  offer : Offer
  deriving DecidableEq

/-- Something that happened to an agreement. -/
structure Event where
  txid : TxId
  function : FunctionId
  height : Nat
  deriving DecidableEq

/-- The last thing that happened to an agreement. -/
structure LatestEvent where
  txid : TxId
  function : FunctionId
  deriving DecidableEq

/-- The payload of a transaction. -/
def Transaction.payload (tx : Transaction) : Except DecodeError Payload :=
  match tx.payload? with
  | some data => Payload.decode data
  | none => .error (.endOfData "op_return" 3 0)

/-- What a recorded transaction does, if it has a payload. -/
def Record.operation? (r : Record) : Option Operation :=
  r.tx.payload.toOption.map Payload.operation

namespace Ledger

/-- The record of a confirmed transaction. -/
def confirmed (l : Ledger) (id : TxId) : Except LookupError Record :=
  match l.record? id with
  | none => .error (.notFound id)
  | some r => if r.isConfirmed then .ok r else .error (.unconfirmed id)

/-- A confirmed offer. -/
def findOffer (l : Ledger) (id : TxId) : Except LookupError (Record × Offer) := do
  let r ← l.confirmed id
  match r.operation? with
  | some (.offer o) => return (r, o)
  | _ => throw (.wrongType id "o")

/-- A confirmed accept, and the offer that it names. -/
def findAccept (l : Ledger) (id : TxId) : Except LookupError (Record × TxId) := do
  let r ← l.confirmed id
  match r.operation? with
  | some (.accept o) => return (r, o)
  | _ => throw (.wrongType id "c")

/-- A confirmed dispute. -/
def findDispute (l : Ledger) (id : TxId) : Except LookupError Dispute := do
  let r ← l.confirmed id
  match r.operation? with
  | some (.dispute d) => return d
  | _ => throw (.wrongType id "d")

/-- The offer that a confirmed accept or close names. -/
def findAcceptedOffer (l : Ledger) (id : TxId) : Except LookupError (TxId × Offer) := do
  let r ← l.confirmed id
  match r.operation? with
  | some (.accept o) | some (.close _ o _) =>
    let (_, offer) ← l.findOffer o
    return (o, offer)
  | _ => throw (.wrongType id "c or t")

/-- A confirmed agreement. -/
def findAgreement (l : Ledger) (id : TxId) : Except LookupError Agreement := do
  let (r, o) ← l.findAccept id
  let (_, offer) ← l.findOffer o
  return ⟨id, r.height.getD 0, o, offer⟩

/-- The input that spends the baton of an event, if it is confirmed. -/
def confirmedSpender? (l : Ledger) (o : Outpoint) : Option Spend :=
  (l.spender? o).filter fun s => s.height.isSome

/-- The event that takes the baton from one. -/
def nextEvent? (l : Ledger) (id : TxId) : Option Event := do
  let s ← l.spender? ⟨id, 0⟩
  let height ← s.height
  let r ← l.record? s.txid
  let op ← r.operation?
  return ⟨s.txid, op.function, height⟩

/-- The events from the baton of one on, unless there are more than `n`. -/
def eventsFrom? (l : Ledger) : (n : Nat) → TxId → Option (List Event)
  | 0, id => if (l.confirmedSpender? ⟨id, 0⟩).isSome then none else some []
  | n + 1, id =>
    match l.nextEvent? id with
    | none => some []
    | some e =>
      if e.function.isTerminal || e.function = .accept then some [e]
      else (l.eventsFrom? n e.txid).map (e :: ·)

/-- The events of an agreement, unless there are more than `max`. -/
def events (l : Ledger) (max : Nat) (agreement : TxId) : Except HistoryError (List Event) :=
  match l.findAgreement agreement with
  | .error e => .error (.lookup e)
  | .ok _ =>
    match l.eventsFrom? max agreement with
    | none => .error (.tooLong agreement max)
    | some es => .ok es

/-- The last event of an agreement, which is its beginning if none followed. -/
def latestEvent (l : Ledger) (max : Nat) (agreement : TxId) :
    Except HistoryError LatestEvent := do
  let es ← l.events max agreement
  match es.getLast? with
  | some e => return ⟨e.txid, e.function⟩
  | none => return ⟨agreement, .accept⟩

end Ledger

end Escrow
