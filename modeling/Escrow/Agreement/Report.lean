import Escrow.Agreement.History
import Escrow.Agreement.Lock

/-!
# Reports

What can be asked about agreements: how an offer or an agreement stands, what
happened to an agreement, which offers and agreements refer to it, and what a key
has to do with. Offers and agreements are found at the global address, where
every offer has its marker and every agreement its deposit.

Only confirmed transactions are listed; but an offer counts as open only while no
transaction at all spends its marker.
-/

namespace Escrow

/-- Why a report is not made. -/
inductive ReportError
  | notFound (id : TxId)
  | notAgreements (id : TxId)
  | history (cause : HistoryError)
  deriving DecidableEq

/-- The wording of an error. -/
def ReportError.message : ReportError → String
  | .notFound id => s!"transaction {id} not found"
  | .notAgreements id => s!"transaction {id} is not an agreements transaction"
  | .history cause => cause.message

/-- How an offer stands. -/
inductive OfferStatus
  | isOpen
  | accepted (accept : TxId)
  | cancelled (stop : TxId)
  deriving DecidableEq

/-- How an agreement stands. -/
inductive AgreementStatus
  | active
  | disputed (dispute : TxId)
  | closed (close : TxId)
  | resolved (resolve : TxId)
  | amended (successor : TxId)
  deriving DecidableEq

namespace AgreementStatus

/-- How an agreement stands after its latest event. -/
def ofLatest (agreement : TxId) (latest : LatestEvent) : AgreementStatus :=
  match latest.function with
  | .accept => if latest.txid = agreement then active else amended latest.txid
  | .dispute => disputed latest.txid
  | .close => closed latest.txid
  | .resolve => resolved latest.txid
  | _ => active

/-- Whether the deposit is still in escrow. -/
def isLive : AgreementStatus → Bool
  | active | disputed _ => true
  | _ => false

end AgreementStatus

/-- An agreement and the last thing that happened to it. -/
structure Summary where
  agreement : Agreement
  latest : LatestEvent
  deriving DecidableEq

/-- How an agreement stands. -/
def Summary.status (s : Summary) : AgreementStatus :=
  .ofLatest s.agreement.txid s.latest

/-- What a transaction is to agreements. -/
inductive Description
  | offer (record : Record) (terms : Offer) (status : OfferStatus)
  | agreement (summary : Summary)
  | event (record : Record) (operation : Operation)
  deriving DecidableEq

/-- What refers to an agreement. -/
structure References where
  /-- The offers that amend or close it. -/
  offers : List TxId
  /-- The agreements in its place. -/
  agreements : List TxId
  deriving DecidableEq

/-- What a key has to do with. -/
structure Inventory where
  /-- The open offers it made. -/
  offersSent : List TxId
  /-- The open offers made to it. -/
  offersReceived : List TxId
  /-- The live agreements it is a party of. -/
  agreements : List TxId
  /-- The live agreements it is the arbitrator of. -/
  arbitrating : List TxId
  /-- The agreements with it whose history is too long to be told. -/
  unreadable : List TxId
  deriving DecidableEq

namespace Offer

/-- Whether a key is a party. -/
def isParty (k : PublicKey) (o : Offer) : Bool :=
  o.source.isKey k || o.destination.isKey k

/-- Whether a key is the arbitrator. -/
def isArbitrator (k : PublicKey) (o : Offer) : Bool :=
  o.arbitrator.any (·.isKey k)

end Offer

namespace Ledger

/-! ## One transaction -/

/-- How an offer stands. -/
def offerStatus (l : Ledger) (offer : TxId) : OfferStatus :=
  match l.spender? ⟨offer, 0⟩ with
  | none => .isOpen
  | some s =>
    match (l.record? s.txid).bind Record.operation? with
    | some (.accept _) | some (.close ..) => .accepted s.txid
    | _ => .cancelled s.txid

/-- How an agreement stands, following at most `max` events. -/
def summary (l : Ledger) (max : Nat) (agreement : TxId) : Except ReportError Summary := do
  let a ← (l.findAgreement agreement).mapError fun e => .history (.lookup e)
  return ⟨a, ← (l.latestEvent max agreement).mapError .history⟩

/-- What a transaction is to agreements. -/
def describe (l : Ledger) (max : Nat) (id : TxId) : Except ReportError Description := do
  let some r := l.record? id | throw (.notFound id)
  match r.operation? with
  | none => throw (.notAgreements id)
  | some (.offer o) => return .offer r o (l.offerStatus id)
  | some op =>
    if op.function = .accept && r.isConfirmed then return .agreement (← l.summary max id)
    else return .event r op

/-- The events of an agreement: of one kind or of all, the last one first or the
    first one, and no more than `samples` of them unless that is zero. -/
def eventLog (l : Ledger) (max : Nat) (agreement : TxId) (kind : Option FunctionId)
    (samples : Nat) (reverse : Bool) : Except ReportError (List Event) := do
  let es ← (l.events max agreement).mapError .history
  let es := es.filter fun e => kind.all (e.function = ·)
  let es := if reverse then es.reverse else es
  return if samples = 0 then es else es.take samples

/-! ## All offers and agreements -/

/-- The confirmed transactions with outputs at the global address, in order. -/
def listed (l : Ledger) : List TxId :=
  (((l.outputsAt globalAddress).filter (·.height.isSome)).map (·.outpoint.txid)).eraseDups

/-- What the confirmed transactions at the global address do. -/
def listedOperations (l : Ledger) : List (TxId × Operation) :=
  l.listed.filterMap fun id => do
    let r ← l.record? id
    return (id, ← r.operation?)

/-- The confirmed offers, in order. -/
def offers (l : Ledger) : List (TxId × Offer) :=
  l.listedOperations.filterMap fun (id, op) =>
    match op with
    | .offer o => some (id, o)
    | _ => none

/-- The confirmed accepts, in order, and the offers that they name. -/
def accepts (l : Ledger) : List (TxId × TxId) :=
  l.listedOperations.filterMap fun (id, op) =>
    match op with
    | .accept o => some (id, o)
    | _ => none

/-- The confirmed agreements, in order. -/
def agreements (l : Ledger) : List TxId :=
  l.accepts.map (·.1)

/-- The confirmed offers that are open, in order. -/
def openOffers (l : Ledger) : List (TxId × Offer) :=
  l.offers.filter fun (id, _) => (l.spender? ⟨id, 0⟩).isNone

/-- What refers to an agreement. -/
def references (l : Ledger) (agreement : TxId) : Except ReportError References := do
  let _ ← (l.findAgreement agreement).mapError fun e => .history (.lookup e)
  let amends (o : TxId) : Bool :=
    match l.findOffer o with
    | .ok (_, offer) => offer.amends = some agreement
    | .error _ => false
  return {
    offers := (l.offers.filter fun (_, o) => o.amends = some agreement).map (·.1)
    agreements := (l.accepts.filter fun (_, o) => amends o).map (·.1) }

/-- What a key has to do with, following at most `max` events of an agreement. -/
def inventory (l : Ledger) (max : Nat) (k : PublicKey) : Inventory :=
  let openOffers := l.openOffers
  let summaries := l.agreements.map fun id => (id, l.summary max id)
  let live (role : Offer → Bool) : List TxId :=
    summaries.filterMap fun (id, s) =>
      match s with
      | .ok s => if s.status.isLive && role s.agreement.offer then some id else none
      | .error _ => none
  let involved (id : TxId) : Bool :=
    match l.findAgreement id with
    | .ok a => a.offer.isParty k || a.offer.isArbitrator k
    | .error _ => false
  { offersSent := (openOffers.filter fun o => o.2.source.isKey k).map (·.1)
    offersReceived := (openOffers.filter fun o => o.2.destination.isKey k).map (·.1)
    agreements := live (Offer.isParty k)
    arbitrating := live (Offer.isArbitrator k)
    unreadable := summaries.filterMap fun (id, s) =>
      if s.toOption.isNone && involved id then some id else none }

end Ledger

end Escrow
