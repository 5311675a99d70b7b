import Escrow.Proofs.Agreement.Batons

/-!
# Who moves a deposit

A deposit is moved by its parties together or by the arbitrator (`deposit_run`):

* by both parties, when one has offered to amend or close the agreement and the
  other accepts; the offer was signed by the one, the transaction that spends the
  deposit by the other;
* by the arbitrator, in a resolve that ends a dispute which a party has opened,
  unless the agreement excludes disputes.

Who signs spends an output locked with their key, with a signature that holds
(`Ledger.SignedBy`). The signatures were checked when the transactions were
admitted, and what was found then is found in every later ledger.
-/

namespace Escrow

/-- A party signs a transaction: an input spends an output locked with the party's
    key alone, and carries a signature by that key. -/
def Ledger.SignedBy (l : Ledger) (tx : Transaction) (p : Party) : Prop :=
  ∃ (k : PublicKey) (vin : Nat) (i : Input) (out : Output) (w : Witness),
    p = .key k ∧ tx.inputs[vin]? = some i ∧ l.prevout? i.prevout = some out ∧ out.lock = .key k ∧
      i.witness = some w ∧ w.key = k ∧ k.verify (tx.sighash vin) w.signature = .ok ()

section
variable {validators : List Validator} {params : Params} {l before : Ledger} {tx : Transaction}
  {spent : List Output} {op : Operation} {p : Party}

/-- Who signs under the rules has signed in every later ledger. -/
theorem Enacted.signedBy (h : Enacted validators params l before tx spent op) (hl : l.Sound)
    (hp : (⟨before, params, tx, spent⟩ : Inspection).Signed p) : l.SignedBy tx p := by
  obtain ⟨k, rfl, out, hout, hlock⟩ := hp.exists_coin
  obtain ⟨vin, hout⟩ := List.getElem?_of_mem hout
  cases hi : tx.inputs[vin]? with
  | none =>
    -- There are as many outputs spent as inputs.
    have hlength := h.admits.spendable.length_eq
    rw [List.length_zipIdx] at hlength
    rw [List.getElem?_eq_none (hlength ▸ List.getElem?_eq_none_iff.1 hi)] at hout
    cases hout
  | some i =>
    obtain ⟨out', hout', hspendable⟩ := h.admits.spendable_at hi
    cases hout.symm.trans hout'
    obtain ⟨w, hw, hauthorized, hverify⟩ := hspendable.signed
    have hkey : k = w.key := by simpa [hlock, Lock.authorizes] using hauthorized
    exact ⟨k, vin, i, out, w, rfl, hi, h.grows_before.prevout? hl hspendable.prevout, hlock, hw,
      hkey.symm, hkey ▸ hverify⟩

end

/-- Both parties of an agreement agree to what a transaction does: it takes up an
    offer of one of them to amend the agreement. -/
structure Ledger.Agreed (l : Ledger) (agreement : TxId) (terms : Offer) (tx : Transaction)
    (offer : TxId) (o : Offer) : Prop where
  marker : ⟨offer, 0⟩ ∈ tx.spends
  amendment : o.flags.has .amendment
  amends : o.amends = some agreement
  parties : (o.source = terms.source ∧ o.destination = terms.destination) ∨
    (o.source = terms.destination ∧ o.destination = terms.source)
  source : ∃ r, l.record? offer = some r ∧ r.tx.operation? = some (.offer o) ∧
    l.SignedBy r.tx o.source
  destination : l.SignedBy tx o.destination

/-- The arbitrator of an agreement ends a dispute that a party has opened. -/
structure Ledger.Arbitrated (l : Ledger) (agreement : TxId) (terms : Offer) (tx : Transaction)
    (dispute : TxId) : Prop where
  arbitrator : ∃ p, terms.arbitrator = some p ∧ l.SignedBy tx p
  baton : tx.spends[0]? = some ⟨dispute, 0⟩
  disputes : ¬terms.flags.has .noDisputes
  claim : ∃ r d, l.Confirms dispute r (.dispute d) ∧ d.agreement = agreement ∧
    (d.claimant = terms.source ∨ d.claimant = terms.destination) ∧ l.SignedBy r.tx d.claimant

/-- The ways to move the deposit of an agreement with some terms. -/
inductive Ledger.Moves (l : Ledger) (agreement : TxId) (terms : Offer) (tx : Transaction) :
    Operation → Prop
  | accept {offer : TxId} {o : Offer} : l.Agreed agreement terms tx offer o →
    ¬o.flags.has .close → l.Moves agreement terms tx (.accept offer)
  | close {offer : TxId} {o : Offer} {payout : Amount} : l.Agreed agreement terms tx offer o →
    o.flags.has .close → l.Moves agreement terms tx (.close agreement offer payout)
  | resolve {dispute : TxId} {payout : Amount} {memo : String} :
    l.Arbitrated agreement terms tx dispute →
    l.Moves agreement terms tx (.resolve agreement dispute payout memo)

/-! ## What was consented to earlier -/

section
variable {validators : List Validator} {params : Params} {l : Ledger}
variable (hl : Reachable validators l) (hv : KeepsRules validators params)
include hl hv

/-- The source of an offer has signed it. -/
theorem Reachable.signed_offer {offer : TxId} {o : Offer} (ho : l.Does offer (.offer o)) :
    ∃ r, l.record? offer = some r ∧ r.tx.operation? = some (.offer o) ∧
      l.SignedBy r.tx o.source := by
  obtain ⟨before, tx, spent, rfl, h⟩ := hl.enacted_of_does hv ho
  obtain ⟨r, hr, rfl⟩ := h.record? hl.sound
  cases h.obeys with
  | offer ho => exact ⟨r, hr, h.operation?, h.signedBy hl.sound ho.parties.signed⟩

/-- An amendment is offered between the parties of the agreement. -/
theorem Reachable.parties_amendment {offer agreement accepted : TxId} {o terms : Offer}
    (ho : l.Does offer (.offer o)) (hamendment : o.flags.has .amendment)
    (hamends : o.amends = some agreement) (hA : l.Does agreement (.accept accepted))
    (hterms : l.Does accepted (.offer terms)) :
    (o.source = terms.source ∧ o.destination = terms.destination) ∨
      (o.source = terms.destination ∧ o.destination = terms.source) := by
  obtain ⟨before, tx, spent, rfl, h⟩ := hl.enacted_of_does hv ho
  cases h.obeys with
  | offer ho =>
    obtain ⟨a, ha, hagrees, -, hparties⟩ := ho.amends.amended hamendment
    cases hamends.symm.trans ha
    cases (hagrees.grows h.grows_before hl.sound).offer_eq hA hterms
    simpa [Inspection.sameParties] using hparties

/-- The claimant of a dispute is a party of the agreement and has signed it, if the
    agreement does not exclude disputes. -/
theorem Reachable.signed_dispute {dispute accepted : TxId} {r : Record} {d : Dispute}
    {terms : Offer} (hd : l.Confirms dispute r (.dispute d))
    (hA : l.Does d.agreement (.accept accepted)) (hterms : l.Does accepted (.offer terms)) :
    ¬terms.flags.has .noDisputes ∧
      (d.claimant = terms.source ∨ d.claimant = terms.destination) ∧
      l.SignedBy r.tx d.claimant := by
  obtain ⟨hr, -⟩ := Ledger.mem_of_record? hd.record?
  obtain ⟨before, spent, h⟩ := hl.enacted hv hr hd.operation?
  cases h.obeys with
  | dispute ho =>
    rw [ho.agreement] at hA
    cases (ho.agrees.grows h.grows_before hl.sound).offer_eq hA hterms
    exact ⟨ho.disputes, ho.claimant, h.signedBy hl.sound ho.signed⟩

/-- The offer that an agreement accepted is recorded. -/
theorem Reachable.exists_offer {agreement accepted : TxId}
    (hA : l.Does agreement (.accept accepted)) : ∃ terms, l.Does accepted (.offer terms) := by
  obtain ⟨before, tx, spent, rfl, h⟩ := hl.enacted_of_does hv hA
  cases h.obeys with
  | accept ho => exact ⟨_, ho.offer.does.grows h.grows_before hl.sound⟩

/-! ## Deposits that are moved -/

/-- Who spends a deposit under the rules has the consent that it takes. -/
theorem Enacted.moves {before : Ledger} {tx : Transaction} {spent : List Output} {op : Operation}
    (h : Enacted validators params l before tx spent op) {agreement accepted : TxId}
    {terms : Offer} (hA : l.Does agreement (.accept accepted))
    (hterms : l.Does accepted (.offer terms)) (hmem : ⟨agreement, 1⟩ ∈ tx.spends) :
    l.Moves agreement terms tx op := by
  have hA' := h.does_before hl.sound hmem hA
  have taken : ∀ {os}, (⟨before, params, tx, spent⟩ : Inspection).Takes os →
      ⟨agreement, 1⟩ ∈ os :=
    fun htakes => h.at_admission.deposit_mem h.reachable hv htakes hA' hmem
  have signed : ∀ {p}, (⟨before, params, tx, spent⟩ : Inspection).Signed p → l.SignedBy tx p :=
    fun hp => h.signedBy hl.sound hp
  have agreed : ∀ {offer r o}, before.Confirms offer r (.offer o) → ⟨offer, 0⟩ ∈ tx.spends →
      o.flags.has .amendment → o.amends = some agreement →
      (⟨before, params, tx, spent⟩ : Inspection).Signed o.destination →
      l.Agreed agreement terms tx offer o := by
    intro offer r o hr hmarker hamendment hamends hdestination
    have ho := hr.does.grows h.grows_before hl.sound
    exact ⟨hmarker, hamendment, hamends, hl.parties_amendment hv ho hamendment hamends hA hterms,
      hl.signed_offer hv ho, signed hdestination⟩
  -- Only three operations take a deposit, and each takes that of its agreement.
  cases h.obeys with
  | offer ho => cases taken ho.takes
  | stopOffer ho => simpa using taken ho.takes
  | @accept offer r o ho =>
    by_cases hamendment : o.flags.has .amendment
    · obtain ⟨a, e, ham⟩ := ho.amends hamendment
      have htakes := ho.takes_of_amends hamendment ham
      have hid : agreement = a.txid := by simpa using taken htakes
      refine .accept (agreed ho.offer (htakes.mem_spends (by simp)) hamendment ?_ ho.signed)
        ho.not_close
      rw [hid]
      exact ham.amends
    · simpa using taken (ho.takes_of_not_amendment hamendment)
  | @close offer payout a r o e ho =>
    obtain rfl : agreement = a.txid := by simpa using taken ho.takes
    exact .close (agreed ho.offer (ho.takes.mem_spends (by simp)) ho.closes.1 ho.amends ho.signed)
      ho.closes.2
  | dispute ho => simpa using taken ho.takes
  | stopDispute ho => simpa using taken ho.takes
  | @resolve dispute payout memo a d p ho =>
    obtain rfl : agreement = a.txid := by simpa using taken ho.takes
    cases (ho.agrees.grows h.grows_before hl.sound).offer_eq hA hterms
    obtain ⟨r, hr⟩ := ho.dispute
    have hr := hr.grows h.grows_before hl.sound
    obtain ⟨hdisputes, hclaimant, hsigned⟩ := hl.signed_dispute hv hr (ho.agreement ▸ hA) hterms
    exact .resolve ⟨⟨p, ho.arbitrator, signed ho.signed⟩, ho.baton, hdisputes,
      r, d, hr, ho.agreement, hclaimant, hsigned⟩

end

/-- Whoever spends the deposit of an agreement, in a run of a host that keeps the
    rules of agreements, has the consent that it takes. -/
theorem deposit_run (genesis : Timestamp) (blockTime : UInt64) (params : Params)
    (others : List Validator) (cs : List Command) (agreement accepted : TxId) (r : Record) :
    let l := ((Host.underRules genesis blockTime params others).run cs).ledger
    l.Does agreement (.accept accepted) → r ∈ l.records → ⟨agreement, 1⟩ ∈ r.tx.spends →
      ∃ terms op, l.Does accepted (.offer terms) ∧ r.tx.operation? = some op ∧
        l.Moves agreement terms r.tx op := by
  intro l hA hr hmem
  have hl := Host.reachable_underRules_run genesis blockTime params others cs
  have hv := Host.keepsRules_underRules genesis blockTime params others
  obtain ⟨terms, hterms⟩ := hl.exists_offer hv hA
  obtain ⟨out, hout, hescrow⟩ := isEscrow_deposit hl hv hA
  obtain ⟨op, hop⟩ := hl.operation?_of_spends hv hr hmem hout hescrow
  obtain ⟨before, spent, h⟩ := hl.enacted hv hr hop
  exact ⟨terms, op, hterms, hop, h.moves hl hv hA hterms hmem⟩

/-! ## A quarrel

An agreement from its offer to its end, under the default parameters: the
destination accepts the offer, the source opens a dispute, and the arbitrator
resolves it for the source. The offer also makes the outputs that the three sign
with later.

Their keys all stand for the neutral point, which is written in several ways and
for which one signature holds of everything. The signatures of the global key,
which spends what is in escrow, were made with its seed.
-/

namespace Quarrel

/-- A number as the string of bytes that it is written in. -/
def octets (width n : Nat) : Octets width :=
  ⟨Bytes.littleEndian width n, Bytes.length_littleEndian ..⟩

def source : PublicKey := ⟨octets 32 1⟩

def destination : PublicKey := ⟨octets 32 (Nat.pow 2 255 + 1)⟩

def arbitrator : PublicKey := ⟨octets 32 (Field.prime + 1)⟩

/-- An input that spends an output with a signature, given as its two halves. -/
def input (k : PublicKey) (id : TxId) (vout : UInt32) (r s : Nat) : Input :=
  ⟨⟨id, vout⟩, some ⟨k, ⟨octets 64 (r + Nat.pow 256 32 * s)⟩⟩⟩

/-- An input of one of the three. -/
def neutralInput (k : PublicKey) (id : TxId) (vout : UInt32) : Input :=
  input k id vout 1 0

/-- An input from escrow. -/
def escrowInput : (id : TxId) → (vout : UInt32) → (r s : Nat) → Input :=
  input KeyPair.global.publicKey

def fundingId : TxId :=
  ⟨octets 32 0x5238e06b62cdb0497b8ea050808bf4939d05a20dde98c2da67228916de6b3b92⟩

def offerId : TxId :=
  ⟨octets 32 0xbe2be5af54dc4e52eba42312965f41ac60f7cc1e01de7284a5ec629fd36ad2de⟩

def acceptId : TxId :=
  ⟨octets 32 0x688d388a59b2b053fbd660efb2a9bbd0e3752b4009d498729a280564f2466c4b⟩

def disputeId : TxId :=
  ⟨octets 32 0x5ee211a29e45210dd1f1498b7ad6f9717e3057a59fddbc0d0a50c1bb84608227⟩

def resolveId : TxId :=
  ⟨octets 32 0x294ce6fd2d645b4d93b25207e5a7e1fe233db03aa5ae04f95d2fe5e6ededf89a⟩

def terms : Offer where
  source := .key source
  destination := .key destination
  arbitrator := some (.key arbitrator)
  flags := ⟨0⟩
  amends := none
  deposit := 10000
  payment := 0
  disputeFee := 10000
  name := "a"
  memo := ""
  unlockConditions := []

def offer : Transaction where
  inputs := [neutralInput source fundingId 0]
  outputs := [⟨10000, globalLock⟩, ⟨20000, .key source⟩, ⟨20000, .key destination⟩,
    ⟨20000, .key arbitrator⟩, ⟨0, .data (Operation.offer terms).encode⟩]

def accept : Transaction where
  inputs := [
    escrowInput offerId 0 0x9d99dc0328b029c73311cdeea5d0fd15694f3b91a7f90af7ce0fd72e50946cab
      0x0d479156d0139e9048096632e734b811a25fa17716780490c5ee9da46d943cfc,
    neutralInput destination offerId 2]
  outputs := [⟨10000, eventLock offerId⟩, ⟨10000, globalLock⟩,
    ⟨0, .data (Operation.accept offerId).encode⟩]

def dispute : Transaction where
  inputs := [
    escrowInput acceptId 0 0xd41133f16f480822e1805c6b7288f0de0dd33288f5d674d875969c1c79dd4068
      0x08bc26ba30550171af8c58dbc62e06d6d0c32de1c48fb78fb6d3cdbb0c9e4778,
    neutralInput source offerId 1]
  outputs := [⟨10000, eventLock offerId⟩,
    ⟨0, .data (Operation.dispute ⟨acceptId, .key source, ⟨0⟩, "m"⟩).encode⟩]

def resolve : Transaction where
  inputs := [
    escrowInput disputeId 0 0x02cf5f3717bc0a3a64068ef04c3f5d8b0671454f44cd9f05b36b309cfb75bd14
      0x00790bb1f58ef29b5aee4b0d439182c90fd27e8cff6941548c365ac50f32db72,
    escrowInput acceptId 1 0x487f4a33100344f12749cb8e334940c8ad40cc856eca8e4c0f47cce638b4ca04
      0x0fc45c1932229b1c54de31683ce6ffa2f997337e401e9f9ddaad5fdba23718b9,
    neutralInput arbitrator offerId 3]
  outputs := [⟨10000, .key source⟩,
    ⟨0, .data (Operation.resolve acceptId disputeId 10000 "").encode⟩]

def commands : List Command :=
  [.fund source 100000, .submit offer, .mine, .submit accept, .mine, .submit dispute, .mine,
    .submit resolve, .mine]

/-- What the host has recorded when the offer is accepted. -/
def accepted : Ledger where
  genesis := ⟨0, 0⟩
  blockTime := 60
  height := 3
  blocks := [⟨1, ⟨60, 0⟩, [fundingId]⟩, ⟨2, ⟨120, 0⟩, [offerId]⟩, ⟨3, ⟨180, 0⟩, [acceptId]⟩]
  records := [⟨fundingId, Host.funding source 100000 1, some 1⟩, ⟨offerId, offer, some 2⟩,
    ⟨acceptId, accept, some 3⟩]
  nonce := 1

/-- What the host has recorded while the dispute is open. -/
def disputed : Ledger where
  genesis := ⟨0, 0⟩
  blockTime := 60
  height := 4
  blocks := [⟨1, ⟨60, 0⟩, [fundingId]⟩, ⟨2, ⟨120, 0⟩, [offerId]⟩, ⟨3, ⟨180, 0⟩, [acceptId]⟩,
    ⟨4, ⟨240, 0⟩, [disputeId]⟩]
  records := [⟨fundingId, Host.funding source 100000 1, some 1⟩, ⟨offerId, offer, some 2⟩,
    ⟨acceptId, accept, some 3⟩, ⟨disputeId, dispute, some 4⟩]
  nonce := 1

/-- What the host has recorded after the quarrel. -/
def ledger : Ledger where
  genesis := ⟨0, 0⟩
  blockTime := 60
  height := 5
  blocks := [⟨1, ⟨60, 0⟩, [fundingId]⟩, ⟨2, ⟨120, 0⟩, [offerId]⟩, ⟨3, ⟨180, 0⟩, [acceptId]⟩,
    ⟨4, ⟨240, 0⟩, [disputeId]⟩, ⟨5, ⟨300, 0⟩, [resolveId]⟩]
  records := [⟨fundingId, Host.funding source 100000 1, some 1⟩, ⟨offerId, offer, some 2⟩,
    ⟨acceptId, accept, some 3⟩, ⟨disputeId, dispute, some 4⟩, ⟨resolveId, resolve, some 5⟩]
  nonce := 1

theorem accepted_run :
    ((Host.underRules ⟨0, 0⟩ 60 {} []).run (commands.take 5)).ledger = accepted := by
  decide +kernel

theorem disputed_run :
    ((Host.underRules ⟨0, 0⟩ 60 {} []).run (commands.take 7)).ledger = disputed := by
  rw [← List.take_append_drop 5 (commands.take 7), Host.run_append, List.take_take,
    Host.run_underRules_nil, show min 5 7 = 5 from rfl, accepted_run]
  decide +kernel

theorem ledger_run : ((Host.underRules ⟨0, 0⟩ 60 {} []).run commands).ledger = ledger := by
  rw [← List.take_append_drop 7 commands, Host.run_append, Host.run_underRules_nil, disputed_run]
  decide +kernel

/-- The resolve of the quarrel is recorded. -/
theorem resolve_mem_records : ⟨resolveId, resolve, some 5⟩ ∈
    ((Host.underRules ⟨0, 0⟩ 60 {} []).run commands).ledger.records := by
  rw [ledger_run]
  exact List.mem_of_getElem? (i := 4) rfl

/-- In the end the arbitrator has moved the deposit. -/
theorem deposit_moved :
    let l := ((Host.underRules ⟨0, 0⟩ 60 {} []).run commands).ledger
    let r : Record := ⟨resolveId, resolve, some 5⟩
    (l.Does acceptId (.accept offerId) ∧ r ∈ l.records ∧ ⟨acceptId, 1⟩ ∈ r.tx.spends) ∧
      ∃ terms op, l.Does offerId (.offer terms) ∧ r.tx.operation? = some op ∧
        l.Moves acceptId terms r.tx op := by
  intro l r
  have hA : l.Does acceptId (.accept offerId) := by
    rw [show l = ledger from ledger_run]
    exact ⟨⟨acceptId, accept, some 3⟩, rfl, by decide +kernel⟩
  have hr : r ∈ l.records := resolve_mem_records
  have hmem : ⟨acceptId, 1⟩ ∈ r.tx.spends := List.mem_of_getElem? (i := 1) rfl
  exact ⟨⟨hA, hr, hmem⟩, deposit_run ⟨0, 0⟩ 60 {} [] commands acceptId offerId r hA hr hmem⟩

end Quarrel

end Escrow
