import Escrow.Agreement.Draft
import Escrow.Agreement.Draft.Accepts
import Escrow.Agreement.Draft.Disputes
import Escrow.Agreement.Draft.Json
import Escrow.Agreement.Draft.Offers
import Escrow.Agreement.Draft.Request
import Escrow.Agreement.Flags
import Escrow.Agreement.History
import Escrow.Agreement.Json
import Escrow.Agreement.Lock
import Escrow.Agreement.Operation
import Escrow.Agreement.Payload
import Escrow.Agreement.Report
import Escrow.Agreement.Report.Json
import Escrow.Agreement.Rules
import Escrow.Agreement.Violation
import Escrow.Amount
import Escrow.Bytes
import Escrow.Curve.Field
import Escrow.Curve.Point
import Escrow.Digest.Constants
import Escrow.Digest.Sha256
import Escrow.Digest.Sha512
import Escrow.Host
import Escrow.Identity
import Escrow.Identity.Json
import Escrow.Json
import Escrow.Json.Parser
import Escrow.Json.Printer
import Escrow.Json.Reading
import Escrow.Key
import Escrow.Key.Json
import Escrow.Ledger
import Escrow.Ledger.Json
import Escrow.Lock
import Escrow.Main
import Escrow.Params
import Escrow.Params.Json
import Escrow.Params.Yaml
import Escrow.Program.Arguments
import Escrow.Program.Files
import Escrow.Program.Method
import Escrow.Program.Reply
import Escrow.Program.Request
import Escrow.Program.Run
import Escrow.Text.Blank
import Escrow.Text.Hex
import Escrow.Timestamp
import Escrow.Transaction
import Escrow.Transaction.Json
import Escrow.Wire
import Escrow.Wire.Reader
import Escrow.Yaml.Cursor
import Escrow.Yaml.Number
import Escrow.Yaml.Scalar
import Escrow.Yaml.Settings
import Escrow.Yaml.Tag
import Escrow.Proofs.Checks
import Escrow.Proofs.Ledger.Growth
import Escrow.Proofs.Host.Admission
import Escrow.Proofs.Agreement.Accounting
import Escrow.Proofs.Agreement.Consent
import Escrow.Proofs.Agreement.Events
import Escrow.Proofs.Host.Conservation
import Escrow.Proofs.Agreement.Payloads
import Escrow.Proofs.Agreement.Offers
import Escrow.Proofs.Agreement.Draft.Events
import Escrow.Proofs.Agreement.Draft.Offers
import Escrow.Proofs.Transaction.Encoding
import Escrow.Proofs.Agreement.Independence
import Escrow.Proofs.Host.Bookkeeping
import Escrow.Proofs.Agreement.Disputes
import Escrow.Proofs.Agreement.Settlement
import Escrow.Proofs.Agreement.Dispatch
import Escrow.Proofs.Agreement.Permanence
import Escrow.Proofs.Agreement.Latest
import Escrow.Proofs.Agreement.Locality
import Escrow.Proofs.Program.Saving
import Escrow.Proofs.Agreement.Succession
import Escrow.Proofs.Agreement.Pending
import Escrow.Proofs.Agreement.Draft.Shortfall
import Escrow.Proofs.Program.Failing
import Escrow.Proofs.Agreement.Discovery
import Escrow.Proofs.Wire.Framing
import Escrow.Proofs.Wire.Fields
import Escrow.Proofs.Agreement.Flags
import Escrow.Proofs.Agreement.Json
import Escrow.Proofs.Host.Attempts
import Escrow.Proofs.Transaction.Commitment
import Escrow.Proofs.Transaction.Cosigning
import Escrow.Proofs.Agreement.Expiry
import Escrow.Proofs.Host.Times
import Escrow.Proofs.Agreement.Refusals
import Escrow.Proofs.Agreement.Traps
