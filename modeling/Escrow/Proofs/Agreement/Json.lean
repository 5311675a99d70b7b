import Escrow.Agreement.Json
import Escrow.Proofs.Agreement.Flags
import Escrow.Proofs.Agreement.Payloads
import Escrow.Proofs.Transaction.Json

/-!
# Operations read back from JSON

A party is written as its bytes in hexadecimal, so it is read as the party that these
bytes stand for (`Party.ofJson?_toJson`), the same party if it is canonical and only
then. Everything else in an operation is read back whatever it is: a set of flags from
its text, unlock conditions from numbers. So an operation is read back if and only if
the parties that it names are canonical (`Operation.ofJson?_toJson_iff`).

With transactions, which are read back always, that is all that JSON keeps
(`Json.read_back`), as a value and as the text of the value.
-/

namespace Escrow

/-! ## Parties -/

/-- A party is read from the bytes that are written of it. -/
theorem Party.ofJson?_toJson (p : Party) : Party.ofJson? p.toJson = Party.ofBytes? p.bytes := by
  simp [Party.ofJson?, Party.toJson, Party.hex, Json.text?, Hex.decode_encode, Except.toOption]

theorem Party.ofJson?_toJson_iff {p : Party} :
    Party.ofJson? p.toJson = some p ↔ p.Canonical := by
  rw [Party.ofJson?_toJson, Party.ofBytes?_eq_some_iff, and_iff_left rfl]

/-- A party is not written as null. -/
theorem Party.optional_ofJson?_iff {p : Option Party} :
    Json.optional Party.ofJson? (some (.ofOption Party.toJson p)) = some p ↔
      ∀ q ∈ p, q.Canonical := by
  cases p with
  | none => simp [Json.ofOption, Json.optional]
  | some q =>
    have hread : Json.optional Party.ofJson? (some q.toJson) = (Party.ofJson? q.toJson).map some :=
      rfl
    simp [Json.ofOption, hread, Party.ofJson?_toJson_iff]

theorem OfferFlags.ofJson?_text (f : OfferFlags) : OfferFlags.ofJson? (.str f.text) = some f := by
  simp [OfferFlags.ofJson?, Json.text?, OfferFlags.ofText?_text]

theorem DisputeFlags.ofJson?_text (f : DisputeFlags) :
    DisputeFlags.ofJson? (.str f.text) = some f := by
  simp [DisputeFlags.ofJson?, Json.text?, DisputeFlags.ofText?_text]

/-! ## Offers -/

theorem bytes?_bytesToJson (bs : Bytes) : (bytesToJson bs).bytes? = some bs :=
  Json.list?_list fun b _ => Json.byte?_nat b

theorem list?_bytes? (bss : List Bytes) : (Json.list bytesToJson bss).list? Json.bytes? = some bss :=
  Json.list?_list fun bs _ => bytes?_bytesToJson bs

/-- An optional id is read back, as no id is written like none. -/
theorem optional_id (id : Option TxId) :
    Json.optional TxId.ofJson? (some (.ofOption TxId.toJson id)) = some id :=
  Json.optional_ofOption fun id _ => ⟨id.ofJson?_toJson, nofun⟩

/-- An offer is read from what holds its fields, if its parties are canonical and only then. -/
theorem Offer.ofJson?_eq_some_iff {o : Offer} {body : Json}
    (hbody : ∀ names least, "func" ∉ names →
      body.record? names least =
        some (names.map fun name => (o.members.find? (·.1 = name)).map Prod.snd)) :
    Offer.ofJson? body = some o ↔
      o.source.Canonical ∧ o.destination.Canonical ∧ ∀ p ∈ o.arbitrator, p.Canonical := by
  obtain ⟨source, destination, arbitrator, flags, amends, deposit, payment, disputeFee, name, memo,
    conditions⟩ := o
  have hread : Offer.ofJson? body =
      (Party.ofJson? source.toJson).bind fun s =>
        (Party.ofJson? destination.toJson).bind fun d =>
          (Json.optional Party.ofJson? (some (.ofOption Party.toJson arbitrator))).bind fun a =>
            some ⟨s, d, a, flags, amends, deposit, payment, disputeFee, name, memo, conditions⟩ := by
    rw [Offer.ofJson?, hbody _ _ (by decide)]
    simp [Offer.members, Json.required, OfferFlags.ofJson?_text, optional_id, Json.amount?_int,
      Json.text?, list?_bytes?]
  rw [hread, ← Party.ofJson?_toJson_iff, ← Party.ofJson?_toJson_iff, ← Party.optional_ofJson?_iff]
  simp [Option.bind_eq_some_iff]

/-! ## Operations -/

namespace Operation

/-- The parties that an operation names. -/
def named : Operation → List Party
  | offer o => o.source :: o.destination :: o.arbitrator.toList
  | dispute d => [d.claimant]
  | stopOffer .. | accept .. | close .. | stopDispute .. | resolve .. | unlock .. => []

/-- An operation is read back if the parties that it names are canonical, and only then. -/
theorem ofJson?_toJson_iff {op : Operation} :
    ofJson? op.toJson = some op ↔ ∀ p ∈ op.named, p.Canonical := by
  obtain ⟨body, htagged, hbody⟩ :=
    Json.exists_tagged?_object "func" op.function.name op.members
  rw [ofJson?, toJson, FunctionId.toJson, htagged]
  -- Only an offer and a dispute name parties.
  cases op with
  | offer o =>
    have hoffer := Offer.ofJson?_eq_some_iff hbody
    simp [function, FunctionId.name, named, hoffer]
  | dispute d =>
    obtain ⟨a, claimant, flags, memo⟩ := d
    simp [function, FunctionId.name, named, hbody, members, Dispute.members, Json.required,
      TxId.ofJson?_toJson, DisputeFlags.ofJson?_text, Json.text?, ← Party.ofJson?_toJson_iff,
      Option.bind_eq_some_iff]
  | stopOffer o memo =>
    simp [function, FunctionId.name, named, hbody, members, Json.required, TxId.ofJson?_toJson,
      Json.text?]
  | accept o =>
    simp [function, FunctionId.name, named, hbody, members, Json.required, TxId.ofJson?_toJson]
  | close a o payout =>
    simp [function, FunctionId.name, named, hbody, members, Json.required, TxId.ofJson?_toJson,
      Json.amount?_int]
  | stopDispute a d memo =>
    simp [function, FunctionId.name, named, hbody, members, Json.required, TxId.ofJson?_toJson,
      Json.text?]
  | resolve a d payout memo =>
    simp [function, FunctionId.name, named, hbody, members, Json.required, TxId.ofJson?_toJson,
      Json.amount?_int, Json.text?]
  | unlock a conditions =>
    simp [function, FunctionId.name, named, hbody, members, Json.required, TxId.ofJson?_toJson,
      list?_bytes?]

end Operation

/-! ## Plain values -/

theorem Party.plain_toJson (p : Party) : p.toJson.Plain :=
  .str _

theorem plain_bytesToJson (bs : Bytes) : (bytesToJson bs).Plain :=
  .list fun b _ => .byte b

theorem Operation.plain_toJson (op : Operation) : op.toJson.Plain := by
  have hconditions : ∀ bss, (Json.list bytesToJson bss).Plain :=
    fun bss => .list fun bs _ => plain_bytesToJson bs
  have hmembers : ∀ m ∈ op.members, m.2.Plain := by
    cases op with
    | offer o =>
      have harbitrator : (Json.ofOption Party.toJson o.arbitrator).Plain :=
        .ofOption fun p _ => p.plain_toJson
      have hamends : (Json.ofOption TxId.toJson o.amends).Plain :=
        .ofOption fun id _ => id.plain_toJson
      simp [members, Offer.members, Party.plain_toJson, harbitrator, hamends, Json.Plain.str,
        Json.Plain.amount, hconditions]
    | dispute d =>
      simp [members, Dispute.members, TxId.plain_toJson, Party.plain_toJson, Json.Plain.str]
    | stopOffer | accept | close | stopDispute | resolve | unlock =>
      simp [members, TxId.plain_toJson, Json.Plain.str, Json.Plain.amount, hconditions]
  exact .object (List.forall_mem_cons.2 ⟨.str _, hmembers⟩)

/-! ## What JSON keeps -/

/-- A transaction is read back from JSON, and so is an operation if the parties that it
    names are canonical, and only then; from the text of the value the same is read as
    from the value. -/
theorem Json.read_back :
    (∀ tx : Transaction, Transaction.ofJson? tx.toJson = some tx ∧
      (parse? tx.toJson.pretty).bind Transaction.ofJson? = some tx) ∧
    ∀ op : Operation,
      (Operation.ofJson? op.toJson = some op ↔ ∀ p ∈ op.named, p.Canonical) ∧
      (parse? op.toJson.pretty).bind Operation.ofJson? = Operation.ofJson? op.toJson := by
  refine ⟨fun tx => ⟨tx.ofJson?_toJson, ?_⟩, fun op => ⟨Operation.ofJson?_toJson_iff, ?_⟩⟩
  · rw [tx.plain_toJson.parse?_pretty, Option.bind_some, tx.ofJson?_toJson]
  · rw [op.plain_toJson.parse?_pretty, Option.bind_some]

end Escrow
