import Escrow.Agreement.Draft.Request

/-!
# Requests to the program

Everything that the program can be asked, as data: to make a key, to look after a
ledger, to draft a transaction and do something with it, or to report.
-/

namespace Escrow

/-- Something to do with a ledger. -/
inductive LedgerRequest
  /-- Begins an empty ledger, in the place of an old one if it is forced. -/
  | init (force : Bool)
  | fund (key : PublicKey) (value : Amount)
  | mine
  | advance (blocks : Nat)
  /-- Notarizes the blocks up to a height, or all. -/
  | notarize (height : Option Nat)
  | info
  | balance (key : PublicKey)
  /-- Submits the transaction written in a text, and makes a block if asked to. -/
  | submit (hex : String) (mine : Bool)
  deriving DecidableEq

/-- What becomes of a drafted transaction. -/
inductive Publishing
  | shown
  | submitted
  | mined
  deriving DecidableEq

/-- A report to make. -/
inductive ReportRequest
  | info (id : TxId)
  | eventLog (agreement : TxId) (kind : Option FunctionId) (samples : Nat) (reverse : Bool)
  | references (agreement : TxId)
  /-- What a key has to do with; the caller's key if none is given. -/
  | inventory (key : Option PublicKey)
  | agreements
  | openOffers
  deriving DecidableEq

/-- Something to do. -/
inductive Request
  /-- Makes a key, in two files of a directory whose names begin alike. -/
  | keygen (directory stem : String)
  | ledger (request : LedgerRequest)
  | draft (request : DraftRequest) (publishing : Publishing)
  | report (request : ReportRequest)
  deriving DecidableEq

/-- The files that a request works on. -/
structure Places where
  /-- Where the ledger is. -/
  ledger : String := "agr-chain.json"
  /-- Where parameters are that differ from the default ones. -/
  config : Option String := none
  /-- Where the caller's key is. -/
  key : Option String := none
  deriving DecidableEq

end Escrow
