import Escrow.Agreement.Rules
import Escrow.Json.Parser
import Escrow.Json.Printer
import Escrow.Params.Json
import Escrow.Params.Yaml
import Escrow.Program.Arguments
import Escrow.Program.Files
import Escrow.Program.Reply
import Escrow.Yaml.Settings

/-!
# Running the program

What a request does to the files and what it prints, as a function of what is in
the files, the time and a fresh seed (`Request.run`). The ledger is taken from its
file, or begun if there is none, and the rules of agreements are kept with the
parameters of the config file. Requests that look after the ledger write it back;
a draft does only if it is submitted, and a report never does.

A request that fails says why and has code 1; a reply that tells of an error has
code 1 too. A command line that makes no sense has code 2. A request *traps* if there
is something on its way that it does not look at first and that there is not: a sum in
the range of amounts, a height, a moment. It has code 101 then, prints nothing and
leaves all files as they are.
-/

namespace Escrow

/-- Why a request fails. -/
inductive ProgramError
  | usage
  | noKey
  | keyNotFound (path : String)
  | keyUnreadable (path : String)
  | invalidKey (path : String) (cause : KeyError)
  | configUnreadable (path : String)
  | configSyntax (path format : String)
  | invalidParams (path : String) (cause : ParamsError)
  | ledgerExists (path : String)
  | ledgerUnreadable (path : String)
  | ledgerSyntax (path : String)
  | refused (cause : HostError)
  deriving DecidableEq

/-- The wording of an error. -/
def ProgramError.message : ProgramError → String
  | .usage => "the arguments do not make a command"
  | .noKey => "this command needs a caller key: pass --key <FILE>"
  | .keyNotFound path => s!"key file not found: {path}"
  | .keyUnreadable path => s!"failed to read key: {path}"
  | .invalidKey path cause => s!"invalid key in {path}: " ++ cause.message
  | .configUnreadable path => s!"failed to read config: {path}"
  | .configSyntax path format => s!"failed to parse {format}: {path}"
  | .invalidParams path cause => s!"invalid consensus parameters in {path}: " ++ cause.message
  | .ledgerExists path => s!"chain state already exists: {path} (use --force to overwrite)"
  | .ledgerUnreadable path => s!"failed to read chain state: {path}"
  | .ledgerSyntax path => s!"failed to parse chain state: {path}: chain state error"
  | .refused cause => cause.message

/-- What a request comes to. -/
structure Outcome where
  code : Nat
  /-- What is printed. -/
  output : String := ""
  /-- Why it failed, if it did. -/
  error : Option ProgramError := none
  /-- What is done to files, before anything is printed. -/
  changes : List Change := []
  deriving DecidableEq

namespace Outcome

/-- A failure, after some changes. -/
def failure (e : ProgramError) (changes : List Change) : Outcome :=
  { code := 1, error := some e, changes := changes }

/-- A request traps. -/
def trapped : Outcome :=
  { code := 101 }

/-- A success that prints lines. -/
def success (lines : List String) (changes : List Change) : Outcome :=
  { code := 0, output := String.join (lines.map fun l => l ++ "\n"), changes := changes }

/-- A reply, which is printed. -/
def ofReply (r : Reply) (changes : List Change) : Outcome :=
  { success [r.toJson.pretty] changes with code := if r.isSuccess then 0 else 1 }

/-- What comes of a computation that may fail. -/
def ofExcept : Except ProgramError Outcome → Outcome
  | .ok o => o
  | .error e => failure e []

end Outcome

/-- What a run depends on besides its arguments. -/
structure Environment where
  files : Files
  now : Timestamp
  /-- A seed that nobody knows. -/
  seed : Octets 32

/-- A host, and the parameters that its rules are kept with. -/
structure Session where
  params : Params
  host : Host

namespace Session

/-- The rules of agreements are asked about a transaction and come to no verdict, as the
    sum of what the inputs of one key spend is out of the range of amounts. -/
def traps (s : Session) (tx : Transaction) : Bool :=
  match s.host.check tx, validate s.host.ledger s.params tx with
  | .error (.contractRejected ..), .error .keySumOverflow => true
  | _, _ => false

/-- Records a transaction if it may be, and makes a block after it if that is asked for,
    unless one of them traps. -/
def submit? (s : Session) (tx : Transaction) (thenMine : Bool) :
    Option (Except HostError (TxId × Host)) :=
  match s.host.submit tx with
  | (.error e, _) => if s.traps tx then none else some (.error e)
  | (.ok id, h) => (if thenMine then h.mine? else some h).map fun h => .ok (id, h)

end Session

namespace Environment

/-- The parameters in the config file, or the default ones. -/
def params (env : Environment) (places : Places) : Except ProgramError Params := do
  let some path := places.config | return {}
  let .text content := env.files.find path | throw (.configUnreadable path)
  let isYaml := Path.extension? path = some "yaml" || Path.extension? path = some "yml"
  let read :=
    if isYaml then (Yaml.settings? content).bind Params.ofSettings?
    else (Json.parse? content).bind Params.ofJson?
  let some params := read | throw (.configSyntax path (if isYaml then "YAML" else "JSON"))
  params.check.mapError (.invalidParams path)
  return params

/-- The caller's key. -/
def key (env : Environment) (places : Places) : Except ProgramError KeyPair := do
  let some path := places.key | throw .noKey
  match env.files.find path with
  | .absent => throw (.keyNotFound path)
  | .unreadable => throw (.keyUnreadable path)
  | .text content => (KeyPair.ofHex (Text.trim content)).mapError (.invalidKey path)

/-- The ledger in its file, or an empty one if there is none. -/
def ledger (env : Environment) (places : Places) (p : Params) : Except ProgramError Ledger := do
  match env.files.find places.ledger with
  | .absent => return { genesis := env.now, blockTime := p.blockTime }
  | .unreadable => throw (.ledgerUnreadable places.ledger)
  | .text content =>
    let some l := (Json.parse? content).bind Ledger.ofJson? | throw (.ledgerSyntax places.ledger)
    return l

/-- The parameters, and a host with the ledger. -/
def session (env : Environment) (places : Places) : Except ProgramError Session := do
  let p ← env.params places
  let l ← env.ledger places p
  let host : Host := { ledger := l }
  return ⟨p, host.register (agreements p)⟩

end Environment

/-- Writes a ledger to its file. -/
def Host.save (h : Host) (places : Places) : Change :=
  .write "chain state" places.ledger h.ledger.toJson.pretty

/-- What is written about a key that value is paid to, with other members. -/
def PublicKey.account (k : PublicKey) (member : String × Json) : Json :=
  .object [("address", .str (Address.ofKey k).text), member]

namespace LedgerRequest

/-- Begins an empty ledger. The old one is removed before anything else is read. -/
def start (env : Environment) (places : Places) (force : Bool) : Outcome :=
  let path := places.ledger
  let begin (files : Files) (changes : List Change) : Outcome :=
    match Environment.session { env with files := files } places with
    | .error e => .failure e changes
    | .ok s => .success ["OK: initialized " ++ path] (changes ++ [s.host.save places])
  if env.files.find path = .absent then begin env.files []
  else if force then
    let removal : Change := .remove "chain state" path
    begin (env.files.apply removal) [removal]
  else .failure (.ledgerExists path) []

/-- What a request answers, and the host after it, unless it traps. -/
def perform (s : Session) : LedgerRequest → Option (Except HostError (Json × Host))
  | .init _ => some (.ok (.null, s.host))
  | .fund key value => do
    let h ← s.host.fund? key value
    return (s.host.fund key value).1.map fun o => (key.account ("outpoint", .str o.text), h)
  | .mine => do
    let h ← s.host.mine?
    return .ok (.object [("height", .nat h.ledger.height)], h)
  | .advance blocks => do
    let h ← s.host.advance? blocks
    return .ok (.object [("height", .nat h.ledger.height)], h)
  | .notarize height =>
    let height := height.getD s.host.ledger.height
    let (r, h) := s.host.notarize height
    some (r.map fun _ => (.object [("notarized_height", .nat height)], h))
  | .info => do
    let l := s.host.ledger
    let time ← l.timeAt? l.height
    return .ok (.object [("height", .nat l.height), ("notarized_height", .nat l.notarized),
      ("block_time", time.toJson), ("mempool", .list TxId.toJson l.mempool),
      ("transactions", .nat l.records.length)], s.host)
  | .balance key => do
    let sum ← s.host.ledger.balance? key
    return .ok (key.account ("balance", .int sum.toInt), s.host)
  | .submit hex thenMine =>
    match Transaction.ofHex (Text.trim hex) with
    | .error e => some (.error (.undecodable e))
    | .ok tx => do
      let r ← s.submit? tx thenMine
      return r.map fun (id, h) =>
        (.object [("txid", id.toJson), ("confirmed", .bool thenMine)], h)

/-- Does something with the ledger and writes it back, unless the host refuses or the
    request traps. -/
def run (env : Environment) (places : Places) : LedgerRequest → Outcome
  | .init force => start env places force
  | request => .ofExcept do
    let s ← env.session places
    let some result := request.perform s | return .trapped
    let (answer, host) ← result.mapError .refused
    return .success [answer.pretty] [host.save places]

end LedgerRequest

/-- Drafts a transaction and signs it, and then submits it if that is asked for. -/
def DraftRequest.run (env : Environment) (places : Places) (publishing : Publishing)
    (request : DraftRequest) : Outcome := .ofExcept do
  let s ← env.session places
  let key ← env.key places
  let drafter : Drafter := ⟨s.host.ledger, s.params, key.publicKey⟩
  match drafter.draft request with
  | .error .overflow => return .trapped
  | .error e => return .ofReply (.failure e.message) []
  | .ok d =>
    let (tx, _) := d.tx.signWith s.host.ledger key
    let reply := Reply.ofDrafted { d with tx := tx }
    if publishing = .shown then return .ofReply reply []
    match s.submit? tx (publishing = .mined) with
    | none => return .trapped
    | some (.error e) => return .ofReply (.failure e.message) []
    | some (.ok (id, host)) =>
      return .ofReply (reply.adding "broadcast" id.toJson) [host.save places]

/-- Reports. -/
def ReportRequest.run (env : Environment) (places : Places) (request : ReportRequest) :
    Outcome := .ofExcept do
  let s ← env.session places
  let l := s.host.ledger
  let max := s.params.maxEvents
  let reply ← match request with
    | .info id => pure (Reply.ofReport Description.toJson (l.describe max id))
    | .eventLog agreement kind samples reverse =>
      pure (Reply.ofReport (Json.list Event.toJson) (l.eventLog max agreement kind samples reverse))
    | .references agreement => pure (Reply.ofReport References.toJson (l.references agreement))
    | .inventory key => do
      let key ← match key with
        | some k => pure k
        | none => KeyPair.publicKey <$> env.key places
      pure (Reply.ofJson (l.inventory max key).toJson)
    | .agreements => pure (Reply.ofJson (.list TxId.toJson l.agreements))
    | .openOffers => pure (Reply.ofJson (.list (fun o => o.1.toJson) l.openOffers))
  return .ofReply reply []

/-- Makes a key from the fresh seed, in two files. -/
def Request.makeKey (env : Environment) (directory stem : String) : Outcome :=
  let key := KeyPair.ofSeed env.seed
  let secretPath := Path.join directory (stem ++ ".key")
  let publicPath := Path.join directory (stem ++ ".pub")
  .success ["OK: generated Ed25519 keypair", "  Private key: " ++ secretPath,
      "  Public key:  " ++ publicPath]
    [.makeDirectory directory, .write "private key" secretPath (Hex.encode key.seed.bytes),
      .write "public key" publicPath key.publicKey.hex]

/-- Does what is asked for. -/
def Request.run (env : Environment) (places : Places) : Request → Outcome
  | .keygen directory stem => makeKey env directory stem
  | .ledger request => request.run env places
  | .draft request publishing => request.run env places publishing
  | .report request => request.run env places

/-- Does what a command line asks for. -/
def runArguments (env : Environment) (args : List String) : Outcome :=
  match Arguments.parse? args with
  | none => { code := 2, error := some .usage }
  | some (places, request) => request.run env places

/-- What a run shows in the end. -/
structure Shown where
  code : Nat
  output : String
  error : Option String
  deriving DecidableEq

/-- What is shown once the changes are made, or one of them could not be. -/
def Outcome.shown (o : Outcome) (failed : Option Change) : Shown :=
  match failed with
  | some change => ⟨1, "", some change.failure⟩
  | none => ⟨o.code, o.output, o.error.map ProgramError.message⟩

end Escrow
