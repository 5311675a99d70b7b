/-!
# Methods

What the program can be asked about agreements, by name: to draft a transaction,
or to report.
-/

namespace Escrow

/-- Something that the program does about agreements. -/
inductive Method
  | create
  | amend
  | close
  | stopOffer
  | accept
  | dispute
  | stopDispute
  | resolve
  | unlock
  | info
  | eventLog
  | references
  | inventory
  | list
  | offerList
  deriving DecidableEq

namespace Method

/-- All methods, those that draft first. -/
def all : List Method :=
  [create, amend, close, stopOffer, accept, dispute, stopDispute, resolve, unlock, info, eventLog,
    references, inventory, list, offerList]

def name : Method → String
  | create => "agreementcreate"
  | amend => "agreementamend"
  | close => "agreementclose"
  | stopOffer => "agreementstopoffer"
  | accept => "agreementaccept"
  | dispute => "agreementdispute"
  | stopDispute => "agreementstopdispute"
  | resolve => "agreementresolve"
  | unlock => "agreementunlock"
  | info => "agreementinfo"
  | eventLog => "agreementeventlog"
  | references => "agreementreferences"
  | inventory => "agreementinventory"
  | list => "agreementlist"
  | offerList => "agreementofferlist"

/-- Whether a method drafts a transaction. -/
def isDraft : Method → Bool
  | info | eventLog | references | inventory | list | offerList => false
  | _ => true

/-- The method of a name. -/
def ofName? (s : String) : Option Method :=
  all.find? (·.name = s)

/-- What is said of a text that names no method. -/
def unknownMessage (s : String) : String :=
  s!"unknown method {s}"

end Method

end Escrow
