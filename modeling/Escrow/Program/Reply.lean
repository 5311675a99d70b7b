import Escrow.Agreement.Draft.Json
import Escrow.Agreement.Report.Json

/-!
# Replies

How a method answers: with an object that says under `result` whether it
succeeded, and besides that holds the report, or the words of the error. A report
that is an object gives its members to the reply; any other is put under `data`.
-/

namespace Escrow

/-- The answer of a method. -/
inductive Reply
  | success (members : List (String × Json))
  | failure (message : String)

namespace Reply

/-- The reply that holds a report. Of two members of one name the last one counts. -/
def ofJson : Json → Reply
  | .obj ms => success ms.reverse
  | .null => success []
  | other => success [("data", other)]

/-- The reply to the drafting of a transaction: the transaction and its receipt. -/
def ofDrafted (d : Drafted) : Reply :=
  success (("hex", .str d.tx.hex) :: ("txid", d.tx.txid.toJson) :: d.receipt.members)

/-- The reply to a request to draft a transaction. -/
def ofDraft : Except DraftError Drafted → Reply
  | .ok d => ofDrafted d
  | .error e => failure e.message

/-- The reply to a request for a report. -/
def ofReport {α : Type} (toJson : α → Json) : Except ReportError α → Reply
  | .ok report => ofJson (toJson report)
  | .error e => failure e.message

def isSuccess : Reply → Bool
  | success _ => true
  | failure _ => false

/-- A reply with another member, which replaces one of its name. -/
def adding (name : String) (value : Json) : Reply → Reply
  | success ms => success ((name, value) :: ms)
  | failure message => failure message

def toJson : Reply → Json
  | success ms => .object (("result", .str "success") :: ms)
  | failure message => .object [("result", .str "error"), ("error", .str message)]

end Reply

end Escrow
