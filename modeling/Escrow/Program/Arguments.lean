import Escrow.Program.Method
import Escrow.Program.Request

/-!
# Arguments

How a request is written on a command line: as the name of a command, then its
words in order and its options in any place between them.

An option is written `--name` or, if it has a letter, `-x`. Its value is the next
argument, which must not begin with a dash unless it is nothing else, or follows
at once after `=`. Letters of options without values may be written together.
Everything after `--` is a word. An option that is given twice is refused unless
it is one to repeat, and so is whatever is not known.

Some options are allowed at every level, before and after the names of commands;
of these the last level where one is given counts.
-/

namespace Escrow.Arguments

/-- What follows an option, and how often it may be given. -/
inductive Arity
  | switch
  | counter
  | value
  | values
  deriving DecidableEq

/-- An option of a command. -/
structure OptionSpec where
  name : String
  arity : Arity
  letter : Option Char := none

/-- What was given at one level of a command line. -/
structure Given where
  words : List String := []
  /-- The options in order, with their values. -/
  options : List (String × String) := []

namespace Given

/-- A word, and what is given after it. -/
def word (w : String) (g : Given) : Given :=
  { g with words := w :: g.words }

/-- Options, and what is given after them. -/
def option (os : List (String × String)) (g : Given) : Given :=
  { g with options := os ++ g.options }

/-- The values of an option, in order. -/
def values (g : Given) (name : String) : List String :=
  (g.options.filter (·.1 = name)).map (·.2)

/-- The value of an option. -/
def value? (g : Given) (name : String) : Option String :=
  (g.values name).getLast?

/-- Whether an option is given. -/
def has (g : Given) (name : String) : Bool :=
  (g.value? name).isSome

/-- Whether no option is repeated that is not to be. -/
def isSound (specs : List OptionSpec) (g : Given) : Bool :=
  specs.all fun s =>
    s.arity = .counter || s.arity = .values || (g.values s.name).length ≤ 1

end Given

/-! ## Cutting a command line into words and options -/

/-- Whether an argument may be the value of an option. -/
def isValue (a : String) : Bool :=
  a = "-" || a.toList.head? ≠ some '-'

/-- Whether an option takes a value. -/
def OptionSpec.takesValue (s : OptionSpec) : Bool :=
  s.arity = .value || s.arity = .values

/-- What an argument with options says: those that are complete, and the one whose
    value is the next argument. -/
abbrev Opened := List (String × String) × Option String

/-- Options written as letters, after the dash. -/
def letters? (specs : List OptionSpec) : List Char → Option Opened
  | [] => some ([], none)
  | c :: rest => do
    let s ← specs.find? (·.letter = some c)
    if s.takesValue then
      match rest with
      | [] => return ([], some s.name)
      | '=' :: value => return ([(s.name, String.ofList value)], none)
      | value => return ([(s.name, String.ofList value)], none)
    else
      let (done, pending) ← letters? specs rest
      return ((s.name, "") :: done, pending)

/-- An option written as a name, after the dashes. -/
def name? (specs : List OptionSpec) (cs : List Char) : Option Opened := do
  let (name, value) := cs.span (· ≠ '=')
  let s ← specs.find? (·.name = String.ofList name)
  match s.takesValue, value with
  | true, [] => return ([], some s.name)
  | true, _ :: value => return ([(s.name, String.ofList value)], none)
  | false, [] => return ([(s.name, "")], none)
  | false, _ :: _ => none

/-- Reads the arguments of a level. If a command has to follow, its name ends the
    level, and the arguments after it are left over. -/
def scan (specs : List OptionSpec) (command : Bool) : List String → Option (Given × List String)
  | [] => some ({}, [])
  | a :: rest =>
    let opened := match a.toList with
      | '-' :: '-' :: cs => some (name? specs cs)
      | '-' :: c :: cs => some (letters? specs (c :: cs))
      | _ => none
    if a = "--" then
      if command then none else some ({ words := rest }, [])
    else
      match opened, rest with
      | none, rest =>
        if command then some ({ words := [a] }, rest)
        else do
          let (g, left) ← scan specs command rest
          return (g.word a, left)
      | some none, _ => none
      | some (some (done, none)), rest => do
        let (g, left) ← scan specs command rest
        return (g.option done, left)
      | some (some (done, some name)), value :: rest => do
        if !isValue value then none
        let (g, left) ← scan specs command rest
        return (g.option (done ++ [(name, value)]), left)
      | some (some (_, some _)), [] => none

/-! ## Values -/

/-- A number in decimal digits, at least one. -/
def digits? (cs : List Char) : Option Nat :=
  if cs.isEmpty then none
  else
    cs.foldlM (fun n c =>
      if '0' ≤ c ∧ c ≤ '9' then some (n * 10 + (c.toNat - '0'.toNat)) else none) 0

/-- An integer, with a sign or without. -/
def integer? (s : String) : Option Int :=
  match s.toList with
  | '-' :: cs => (digits? cs).map fun n => -n
  | '+' :: cs => (digits? cs).map fun n => n
  | cs => (digits? cs).map fun n => n

def amount? (s : String) : Option Amount :=
  (integer? s).bind Amount.ofInt?

/-- A height or a number of blocks, which has 32 bits. -/
def height? (s : String) : Option Nat := do
  let n ← integer? s
  if 0 ≤ n ∧ n < 0x100000000 then return n.toNat else none

/-- A number of items, which has 64 bits and no minus sign. -/
def count? (s : String) : Option Nat := do
  let n ← match s.toList with
    | '+' :: cs => digits? cs
    | cs => digits? cs
  if n < 0x10000000000000000 then return n else none

def txId? (s : String) : Option TxId :=
  (TxId.ofHex s).toOption

def publicKey? (s : String) : Option PublicKey :=
  (PublicKey.ofHex s).toOption

/-- A flag of an offer that its source may set. -/
def offerFlag? : String → Option OfferFlags
  | "nocancel" => some .noCancel
  | "nodisputes" => some .noDisputes
  | "awaitnotaries" => some .awaitNotaries
  | _ => none

namespace Given

/-- The value of an option, or a default one. -/
def read {α : Type} (g : Given) (name : String) (f : String → Option α) (dflt : α) : Option α :=
  match g.value? name with
  | some s => f s
  | none => some dflt

/-- The value of an option that may be missing. -/
def read? {α : Type} (g : Given) (name : String) (f : String → Option α) : Option (Option α) :=
  g.read name (fun s => (f s).map some) none

/-- The terms of an offer. -/
def terms? (g : Given) : Option Terms := do
  let flags ← (g.values "flag").mapM offerFlag?
  return {
    arbitrator := ← g.read? "arbitrator" publicKey?
    flags := flags.foldl OfferFlags.union .noUnlock
    deposit := ← g.read "deposit" amount? 0
    payment := ← g.read "payment" amount? 0
    disputeFee := ← g.read "dispute-fee" amount? 0
    name := ← g.value? "name"
    memo := (g.value? "memo").getD "" }

/-- What becomes of a drafted transaction. It is not mined unless it is submitted. -/
def publishing? (g : Given) : Option Publishing :=
  match g.has "broadcast", g.has "mine" with
  | true, true => some .mined
  | true, false => some .submitted
  | false, false => some .shown
  | false, true => none

end Given

/-! ## Commands -/

/-- A command without commands of its own. -/
structure CommandSpec where
  name : String
  options : List OptionSpec := []
  /-- The request that is made by what is given. -/
  read : Given → Option Request

/-- The options that are allowed at every level. -/
def globalOptions : List OptionSpec :=
  [⟨"verbose", .counter, some 'v'⟩, ⟨"config", .value, none⟩, ⟨"chain", .value, none⟩,
    ⟨"key", .value, none⟩]

/-- The options that say what becomes of a drafted transaction. -/
def publishingOptions : List OptionSpec :=
  [⟨"broadcast", .switch, none⟩, ⟨"mine", .switch, none⟩]

/-- The options that make up the terms of an offer. -/
def termsOptions : List OptionSpec :=
  [⟨"name", .value, none⟩, ⟨"memo", .value, none⟩, ⟨"arbitrator", .value, none⟩,
    ⟨"deposit", .value, none⟩, ⟨"payment", .value, none⟩, ⟨"dispute-fee", .value, none⟩,
    ⟨"flag", .values, none⟩]

/-- The command that makes a key. -/
def keygenCommand : CommandSpec where
  name := "keygen"
  options := [⟨"output", .value, some 'o'⟩, ⟨"prefix", .value, none⟩]
  read g := do
    let [] := g.words | none
    let directory := (g.value? "output").getD "."
    if directory.isEmpty then none
    return .keygen directory ((g.value? "prefix").getD "agr")

/-- The commands that look after a ledger. -/
def ledgerCommands : List CommandSpec :=
  [{ name := "init"
     options := [⟨"force", .switch, none⟩]
     read g := do
      let [] := g.words | none
      return .ledger (.init (g.has "force")) },
   { name := "fund"
     read g := do
      let [key, value] := g.words | none
      return .ledger (.fund (← publicKey? key) (← amount? value)) },
   { name := "mine"
     read g := do
      let [] := g.words | none
      return .ledger .mine },
   { name := "advance"
     read g := do
      let [blocks] := g.words | none
      return .ledger (.advance (← height? blocks)) },
   { name := "notarize"
     read g := do
      match g.words with
      | [] => return .ledger (.notarize none)
      | [height] => return .ledger (.notarize (some (← height? height)))
      | _ => none },
   { name := "info"
     read g := do
      let [] := g.words | none
      return .ledger .info },
   { name := "balance"
     read g := do
      let [key] := g.words | none
      return .ledger (.balance (← publicKey? key)) },
   { name := "submit"
     options := [⟨"mine", .switch, none⟩]
     read g := do
      let [hex] := g.words | none
      return .ledger (.submit hex (g.has "mine")) }]

/-- The command that drafts a transaction about the one thing that it names. -/
def draftCommand (m : Method) (options : List OptionSpec)
    (read : String → Given → Option DraftRequest) : CommandSpec where
  name := m.name
  options := options ++ publishingOptions
  read g := do
    let [word] := g.words | none
    return .draft (← read word g) (← g.publishing?)

/-- The command that reports on the words that it is given. -/
def reportCommand (m : Method) (read : List String → Option ReportRequest) : CommandSpec where
  name := m.name
  read g := .report <$> read g.words

/-- The option of a memo. -/
def memoOption : OptionSpec :=
  ⟨"memo", .value, none⟩

/-- The command of a method. -/
def methodCommand (m : Method) : CommandSpec :=
  let memo (g : Given) := (g.value? "memo").getD ""
  match m with
  | .create => draftCommand m termsOptions fun w g =>
    return .create (← publicKey? w) (← g.terms?)
  | .amend => draftCommand m termsOptions fun w g =>
    return .amend (← txId? w) (← g.terms?)
  | .close =>
    draftCommand m [⟨"name", .value, none⟩, ⟨"payment", .value, none⟩, memoOption] fun w g =>
      return .close (← txId? w) (← g.read "payment" amount? 0) (← g.value? "name") (memo g)
  | .stopOffer => draftCommand m [memoOption] fun w g =>
    return .stopOffer (← txId? w) (memo g)
  | .accept => draftCommand m [] fun w _ =>
    return .accept (← txId? w)
  | .dispute => draftCommand m [memoOption, ⟨"final", .switch, none⟩] fun w g =>
    return .dispute (← txId? w) (if g.has "final" then .final else .none) (← g.value? "memo")
  | .stopDispute => draftCommand m [memoOption] fun w g =>
    return .stopDispute (← txId? w) (memo g)
  | .resolve => draftCommand m [⟨"payout", .value, none⟩, memoOption] fun w g =>
    return .resolve (← txId? w) (← (← g.value? "payout") |> amount?) (memo g)
  | .unlock =>
    { name := m.name
      read g := do
        let [w] := g.words | none
        return .draft (.unlock (← txId? w)) .shown }
  | .info => reportCommand m fun
    | [w] => return .info (← txId? w)
    | _ => none
  | .eventLog =>
    { name := m.name
      options := [⟨"filter", .value, none⟩, ⟨"samples", .value, none⟩, ⟨"reverse", .switch, none⟩]
      read g := do
        let [w] := g.words | none
        let kind ← g.read? "filter" FunctionId.ofText?
        return .report (.eventLog (← txId? w) kind (← g.read "samples" count? 0) (g.has "reverse")) }
  | .references => reportCommand m fun
    | [w] => return .references (← txId? w)
    | _ => none
  | .inventory => reportCommand m fun
    | [] => some (.inventory none)
    | [w] => return .inventory (some (← publicKey? w))
    | _ => none
  | .list => reportCommand m fun
    | [] => some .agreements
    | _ => none
  | .offerList => reportCommand m fun
    | [] => some .openOffers
    | _ => none

/-- The commands that stand at the front. -/
def commands : List CommandSpec :=
  keygenCommand :: Method.all.map methodCommand

/-- The files that options at several levels name. A name must not be empty. -/
def places? (levels : List Given) : Option Places := do
  let names := ["config", "chain", "key"]
  let given := levels.flatMap fun g => g.options.filter fun o => names.contains o.1
  if given.any fun o => o.2.isEmpty then none
  let last (name : String) := ((given.filter (·.1 = name)).map (·.2)).getLast?
  let dflt : Places := {}
  return ⟨(last "chain").getD dflt.ledger, last "config", last "key"⟩

/-- Reads what follows the name of a command, given the levels before it. -/
def CommandSpec.parse? (c : CommandSpec) (levels : List Given) (args : List String) :
    Option (Places × Request) := do
  let specs := globalOptions ++ c.options
  let (g, _) ← scan specs false args
  if !g.isSound specs then none
  return (← places? (levels ++ [g]), ← c.read g)

/-- Reads the name of a command, and what comes before it. -/
def scanCommand (args : List String) : Option (Given × String × List String) := do
  let (g, rest) ← scan globalOptions true args
  let [name] := g.words | none
  if !g.isSound globalOptions then none
  return (g, name, rest)

/-- The request written on a command line, and the files that it works on. -/
def parse? (args : List String) : Option (Places × Request) := do
  let (top, name, rest) ← scanCommand args
  if name = "chain" then
    let (inner, name, rest) ← scanCommand rest
    let c ← ledgerCommands.find? (·.name = name)
    c.parse? [top, inner] rest
  else
    let c ← commands.find? (·.name = name)
    c.parse? [top] rest

end Escrow.Arguments
