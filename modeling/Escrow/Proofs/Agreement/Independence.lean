import Escrow.Proofs.Agreement.Consent
import Escrow.Proofs.Agreement.Walk

/-!
# Independence of what waits for a block

The rules of agreements look up confirmed transactions only, so they cannot tell
apart two ledgers with the same ones (`Ledger.Alike`, `validate_iff_of_alike`). To
record a transaction changes nothing confirmed (`Ledger.alike_insert`); and to the
host itself it matters only by its id, by what it spends and by its outputs. So
whether a transaction is admitted does not depend on another one that waits, if
the two are *independent* (`Transaction.IndependentOf`), and of two independent
transactions each is admitted or refused in either order (`independent_run`).

This is so although the one may spend what the other one's payload names, as the
deposit of an agreement that is to be amended: the rules take no notice of that
until a block is made.
-/

namespace Escrow

/-! ## Ledgers that are confirmed alike -/

namespace Ledger

variable {l m : Ledger} {id : TxId} {o : Outpoint} {r : Record} {op : Operation}
  {tx : Transaction}

/-- The same transactions are confirmed, and the same blocks are made and notarized. -/
structure Alike (l m : Ledger) : Prop where
  height : l.height = m.height
  notarized : l.notarized = m.notarized
  confirmed : ∀ id r, r.isConfirmed → (l.record? id = some r ↔ m.record? id = some r)

theorem Alike.symm (h : l.Alike m) : m.Alike l :=
  ⟨h.height.symm, h.notarized.symm, fun id r hr => (h.confirmed id r hr).symm⟩

/-- To record a transaction confirms nothing. -/
theorem alike_insert (hfresh : l.record? tx.txid = none) : l.Alike (l.insert tx) := by
  refine ⟨rfl, rfl, fun id r hr => ?_⟩
  by_cases hid : id = tx.txid
  · subst hid
    rw [hfresh, record?_insert_self, Option.some.injEq]
    refine iff_of_false (Option.some_ne_none r).symm ?_
    rintro rfl
    cases hr
  · rw [record?_insert_of_ne hid]

namespace Alike

variable (h : l.Alike m)
include h

theorem confirms (hid : l.Confirms id r op) : m.Confirms id r op :=
  ⟨(h.confirmed id r hid.isConfirmed).1 hid.record?, hid.isConfirmed, hid.operation?⟩

theorem agrees {a : Agreement} (ha : l.Agrees a) : m.Agrees a := by
  obtain ⟨⟨r, hr, hheight⟩, s, hs⟩ := ha
  exact ⟨⟨r, h.confirms hr, hheight⟩, s, h.confirms hs⟩

theorem isNotarized (height : Nat) : l.isNotarized height = m.isNotarized height := by
  rw [Ledger.isNotarized, Ledger.isNotarized, h.notarized]

theorem confirmedSpender? (hl : l.Sound) (hm : m.Sound) (o : Outpoint) :
    l.confirmedSpender? o = m.confirmedSpender? o := by
  ext s
  rw [hl.confirmedSpender?_eq_some_iff, hm.confirmedSpender?_eq_some_iff]
  refine exists_congr fun r => ?_
  constructor
  · rintro ⟨hr, hconf, hrest⟩
    exact ⟨(h.confirmed _ r hconf).1 hr, hconf, hrest⟩
  · rintro ⟨hr, hconf, hrest⟩
    exact ⟨(h.confirmed _ r hconf).2 hr, hconf, hrest⟩

end Alike

end Ledger

/-! ## The rules see what is confirmed -/

namespace Inspection

/-- The inspection of the same transaction, with what it spends, in another ledger. -/
def inLedger (i : Inspection) (m : Ledger) : Inspection :=
  { i with ledger := m }

section
variable {i : Inspection} {m : Ledger} (h : i.ledger.Alike m)
variable {id : TxId} {memo : String} {payout : Amount} {a : Agreement} {r e : Record} {o : Offer}
  {d : Dispute} {p : Party}
include h

theorem notarized_of_alike (hr : r.height.any i.ledger.isNotarized) :
    r.height.any (i.inLedger m).ledger.isNotarized := by
  rwa [show i.ledger.isNotarized = m.isNotarized from funext h.isNotarized] at hr

theorem young_of_alike {height : Nat} (hyoung : ¬i.params.expired height i.ledger.height) :
    ¬(i.inLedger m).params.expired height (i.inLedger m).ledger.height := by
  rwa [h.height] at hyoung

theorem Follows.inLedger {vin : Nat} (hr : i.Follows vin a r) : (i.inLedger m).Follows vin a r := by
  obtain ⟨hspends, ⟨op, hop, hevent⟩, hlock⟩ := hr
  exact ⟨hspends, ⟨op, h.confirms hop, hevent⟩, hlock⟩

/-- What an offer may amend in one ledger it may amend in the other. -/
theorem SoundAmends.inLedger (hl : i.ledger.Sound) (hm : m.Sound) (ho : i.SoundAmends o) :
    (i.inLedger m).SoundAmends o := by
  refine ⟨fun hamendment => ?_, ho.none⟩
  obtain ⟨a, ha, hagrees, hspender, hparties⟩ := ho.amended hamendment
  rw [h.confirmedSpender? hl hm] at hspender
  exact ⟨a, ha, h.agrees hagrees, hspender, hparties⟩

theorem ObeysOffer.inLedger (hl : i.ledger.Sound) (hm : m.Sound) (ho : i.ObeysOffer o) :
    (i.inLedger m).ObeysOffer o where
  inputs := ho.inputs
  parties := ⟨ho.parties.source, ho.parties.destination, ho.parties.differ, ho.parties.signed,
    ho.parties.arbitrator⟩
  terms := ⟨ho.terms.known, ho.terms.close, ho.terms.deposit, ho.terms.disputeFee,
    ho.terms.payment, ho.terms.name, ho.terms.memo, ho.terms.unlockConditions⟩
  amends := ho.amends.inLedger h hl hm
  marker := ho.marker
  outputs := ho.outputs

theorem ObeysStopOffer.inLedger (ho : i.ObeysStopOffer id memo r o) :
    (i.inLedger m).ObeysStopOffer id memo r o :=
  ⟨h.confirms ho.offer, ho.marker, ho.inputs, ho.memo, ho.signed, ho.outputs⟩

theorem Amends.inLedger (ho : i.Amends o a e) : (i.inLedger m).Amends o a e :=
  ⟨ho.amends, h.agrees ho.agrees, ho.baton.inLedger h,
    fun hawait => notarized_of_alike h (ho.notarized hawait), ho.deposit⟩

theorem ObeysAccept.inLedger (ho : i.ObeysAccept id r o) : (i.inLedger m).ObeysAccept id r o where
  offer := h.confirms ho.offer
  marker := ho.marker
  not_close := ho.not_close
  young := young_of_alike h ho.young
  notarized hawait := notarized_of_alike h (ho.notarized hawait)
  signed := ho.signed
  amends hamendment := by
    obtain ⟨a, e, ha⟩ := ho.amends hamendment
    exact ⟨a, e, ha.inLedger h⟩
  inputs := ho.inputs
  baton := ho.baton
  deposit := ho.deposit
  payment := ho.payment
  outputs := ho.outputs

theorem ObeysClose.inLedger (ho : i.ObeysClose id payout a r o e) :
    (i.inLedger m).ObeysClose id payout a r o e where
  agrees := h.agrees ho.agrees
  offer := h.confirms ho.offer
  closes := ho.closes
  amends := ho.amends
  payment_eq := ho.payment_eq
  young := young_of_alike h ho.young
  baton := ho.baton.inLedger h
  notarized hawait := by
    obtain ⟨hr, he⟩ := ho.notarized hawait
    exact ⟨notarized_of_alike h hr, notarized_of_alike h he⟩
  deposit := ho.deposit
  marker := ho.marker
  inputs := ho.inputs
  signed := ho.signed
  payment := ho.payment
  outputs := ho.outputs

theorem ObeysDispute.inLedger (ho : i.ObeysDispute d a e) : (i.inLedger m).ObeysDispute d a e where
  agrees := h.agrees ho.agrees
  agreement := ho.agreement
  known := ho.known
  memo := ho.memo
  arbitrator := ho.arbitrator
  disputes := ho.disputes
  claimant := ho.claimant
  signed := ho.signed
  baton := ho.baton.inLedger h
  inputs := ho.inputs
  fee := ho.fee
  outputs := ho.outputs

theorem ObeysStopDispute.inLedger (ho : i.ObeysStopDispute id memo a d) :
    (i.inLedger m).ObeysStopDispute id memo a d where
  agrees := h.agrees ho.agrees
  dispute := ho.dispute.imp fun _ => h.confirms
  agreement := ho.agreement
  baton := ho.baton
  inputs := ho.inputs
  memo := ho.memo
  not_final := ho.not_final
  summed := ho.summed
  signed := ho.signed
  passed := ho.passed
  outputs := ho.outputs

theorem ObeysResolve.inLedger (ho : i.ObeysResolve id payout memo a d p) :
    (i.inLedger m).ObeysResolve id payout memo a d p where
  agrees := h.agrees ho.agrees
  dispute := ho.dispute.imp fun _ => h.confirms
  agreement := ho.agreement
  baton := ho.baton
  deposit := ho.deposit
  inputs := ho.inputs
  memo := ho.memo
  arbitrator := ho.arbitrator
  signed := ho.signed
  range := ho.range
  claimant := ho.claimant
  defendant := ho.defendant
  outputs := ho.outputs

/-- What is obeyed in a ledger is obeyed in one that is confirmed alike. -/
theorem Obeys.inLedger (hl : i.ledger.Sound) (hm : m.Sound) {op : Operation} (ho : i.Obeys op) :
    (i.inLedger m).Obeys op := by
  cases ho with
  | offer ho => exact .offer (ho.inLedger h hl hm)
  | stopOffer ho => exact .stopOffer (ho.inLedger h)
  | accept ho => exact .accept (ho.inLedger h)
  | close ho => exact .close (ho.inLedger h)
  | dispute ho => exact .dispute (ho.inLedger h)
  | stopDispute ho => exact .stopDispute (ho.inLedger h)
  | resolve ho => exact .resolve (ho.inLedger h)

end

end Inspection

/-- A transaction that obeys the rules in a ledger obeys them in one that is
    confirmed alike, if it spends the same there. -/
theorem validate_iff_of_alike {l m : Ledger} (h : l.Alike m) (hl : l.Sound) (hm : m.Sound)
    {params : Params} {tx : Transaction}
    (hspent : tx.spends.map l.prevout? = tx.spends.map m.prevout?) :
    validate l params tx = .ok () ↔ validate m params tx = .ok () := by
  rw [validate_eq_ok_iff, validate_eq_ok_iff, hspent]
  refine exists_congr fun p => exists_congr fun spent => ?_
  refine and_congr_right fun _ => and_congr_right fun _ => and_congr_right fun _ => ?_
  exact ⟨fun ho => ho.inLedger (i := ⟨l, params, tx, spent⟩) h hl hm,
    fun ho => ho.inLedger (i := ⟨m, params, tx, spent⟩) h.symm hm hl⟩

/-! ## The host -/

/-- A transaction has another id than `u`, spends nothing that `u` spends, and
    spends no output of `u`. -/
structure Transaction.IndependentOf (t u : Transaction) : Prop where
  txid_ne : t.txid ≠ u.txid
  not_shared : ∀ o ∈ t.spends, o ∉ u.spends
  not_after : ∀ o ∈ t.spends, o.txid ≠ u.txid

namespace Transaction.IndependentOf

variable {l : Ledger} {t u : Transaction} (h : t.IndependentOf u)
include h

/-- What one of them spends is not made by the other one. -/
theorem prevout?_insert {o : Outpoint} (ho : o ∈ t.spends) :
    (l.insert u).prevout? o = l.prevout? o := by
  rw [Ledger.prevout?, Ledger.record?_insert_of_ne (h.not_after o ho), Ledger.prevout?]

theorem spendable_insert_iff {vin : Nat} {i : Input} (hi : i ∈ t.inputs) {out : Output} :
    (l.insert u).Spendable t vin i out ↔ l.Spendable t vin i out := by
  have ho : i.prevout ∈ t.spends := List.mem_map_of_mem hi
  have hspent : (l.insert u).spentBy? i.prevout = none ↔ l.spentBy? i.prevout = none := by
    rw [Ledger.spentBy?_eq_none_iff, Ledger.spentBy?_eq_none_iff, Ledger.spends_insert,
      List.mem_append, or_iff_left (h.not_shared _ ho)]
  constructor
  · rintro ⟨hprevout, hdata, hunspent, hsigned⟩
    exact ⟨h.prevout?_insert ho ▸ hprevout, hdata, hspent.1 hunspent, hsigned⟩
  · rintro ⟨hprevout, hdata, hunspent, hsigned⟩
    exact ⟨(h.prevout?_insert ho).trans hprevout, hdata, hspent.2 hunspent, hsigned⟩

end Transaction.IndependentOf

namespace Host

variable {l m : Ledger} {params : Params} {t u : Transaction} {spent : List Output}

/-- A host that keeps the rules of agreements only asks nothing else. -/
theorem judge_eq_ok_iff {code : UInt8} :
    (⟨l, [agreements params]⟩ : Host).judge t code = .ok () ↔
      code = evalCode ∧ validate l params t = .ok () := by
  -- There is no other contract than that of agreements.
  by_cases hcode : code = evalCode
  · have hv : (⟨l, [agreements params]⟩ : Host).validator? code = some (agreements params) := by
      subst hcode
      rfl
    have hjudge : (agreements params).judge l t =
        (validate l params t).mapError Violation.message := rfl
    rw [judge, hv, and_iff_right hcode]
    dsimp only
    rw [hjudge, ← mapError_eq_ok_iff (f := Violation.message)]
    cases (validate l params t).mapError Violation.message with
    | error e => simp
    | ok => simp
  · have hv : (⟨l, [agreements params]⟩ : Host).validator? code = none := by
      rw [validator?, List.find?_eq_none]
      rintro v hv
      rw [List.mem_singleton.1 hv, decide_eq_true_iff]
      exact fun h => hcode h.symm
    rw [judge, hv]
    exact iff_of_false (fun h => by cases h) fun h => hcode h.1

/-- What a host admits does not depend on an independent transaction that waits. -/
theorem admits_insert_iff (hind : t.IndependentOf u) (hl : l.Sound) (hm : (l.insert u).Sound)
    (hfresh : l.record? u.txid = none) :
    Admits ⟨l.insert u, [agreements params]⟩ t spent ↔ Admits ⟨l, [agreements params]⟩ t spent := by
  have hrecord : (l.insert u).record? t.txid = l.record? t.txid :=
    Ledger.record?_insert_of_ne hind.txid_ne
  have hspendable : List.Forall₂ (fun p out => (l.insert u).Spendable t p.2 p.1 out)
      t.inputs.zipIdx spent ↔
      List.Forall₂ (fun p out => l.Spendable t p.2 p.1 out) t.inputs.zipIdx spent := by
    rw [List.forall₂_iff_get, List.forall₂_iff_get]
    refine and_congr_right fun _ => forall_congr' fun n => forall_congr' fun hn =>
      forall_congr' fun _ => hind.spendable_insert_iff ?_
    rw [List.get_eq_getElem, List.getElem_zipIdx]
    exact List.getElem_mem _
  have hvalid : validate (l.insert u) params t = .ok () ↔ validate l params t = .ok () :=
    (validate_iff_of_alike (Ledger.alike_insert hfresh) hl hm
      (List.map_congr_left fun o ho => (hind.prevout?_insert ho).symm)).symm
  -- Each of the questions has the same answer with the other transaction as without it.
  constructor
  · rintro ⟨hin, hout, hfresh', hspend, hnodup, hvalues, hjudged⟩
    refine ⟨hin, hout, hrecord ▸ hfresh', hspendable.1 hspend, hnodup, hvalues,
      fun code hcode => ?_⟩
    obtain ⟨heq, hok⟩ := judge_eq_ok_iff.1 (hjudged code hcode)
    exact judge_eq_ok_iff.2 ⟨heq, hvalid.1 hok⟩
  · rintro ⟨hin, hout, hfresh', hspend, hnodup, hvalues, hjudged⟩
    refine ⟨hin, hout, hrecord.trans hfresh', hspendable.2 hspend, hnodup, hvalues,
      fun code hcode => ?_⟩
    obtain ⟨heq, hok⟩ := judge_eq_ok_iff.1 (hjudged code hcode)
    exact judge_eq_ok_iff.2 ⟨heq, hvalid.2 hok⟩

/-- So is what it answers. -/
theorem check_insert_iff (hind : t.IndependentOf u) (hl : l.Sound) (hm : (l.insert u).Sound)
    (hfresh : l.record? u.txid = none) {id : TxId} :
    (⟨l.insert u, [agreements params]⟩ : Host).check t = .ok id ↔
      (⟨l, [agreements params]⟩ : Host).check t = .ok id := by
  rw [check_eq_ok_iff, check_eq_ok_iff]
  exact and_congr_right fun _ => exists_congr fun _ => admits_insert_iff hind hl hm hfresh

/-- A host answers as before after a transaction that it admitted or refused, if that
    one is independent. -/
theorem check_submit_iff (hl : Reachable [agreements params] l) (hind : t.IndependentOf u)
    {id : TxId} :
    ((⟨l, [agreements params]⟩ : Host).submit u).2.check t = .ok id ↔
      (⟨l, [agreements params]⟩ : Host).check t = .ok id := by
  rw [submit]
  split
  · rfl
  · next hu =>
    obtain ⟨-, spent, ha⟩ := check_eq_ok_iff.1 hu
    exact check_insert_iff hind hl.sound (ha.sound hl.sound) ha.fresh

/-- What is submitted is admitted if it passes the checks. -/
theorem submit_eq_ok_iff {h : Host} {id : TxId} : (h.submit t).1 = .ok id ↔ h.check t = .ok id := by
  rw [submit]
  split
  · next h' => simp [h']
  · next h' => simp [h']

end Host

/-- In a run of a host that keeps the rules of agreements, a transaction is admitted
    or refused, and by the same id, whether or not the host has just recorded
    another one of which it is independent. Of two transactions that are
    independent of each other, each is admitted or refused in either order. -/
theorem independent_run (genesis : Timestamp) (blockTime : UInt64) (params : Params)
    (cs : List Command) :
    let h := (Host.underRules genesis blockTime params []).run cs
    (∀ t u, t.IndependentOf u → (∃ id, h.check u = .ok id) →
      ∀ id, (h.submit u).2.check t = .ok id ↔ h.check t = .ok id) ∧
    ∀ t u, t.IndependentOf u → u.IndependentOf t → ∀ id,
      (((h.submit u).2.submit t).1 = .ok id ↔ (h.submit t).1 = .ok id) ∧
        (((h.submit t).2.submit u).1 = .ok id ↔ (h.submit u).1 = .ok id) := by
  intro h
  have hl : Reachable [agreements params] h.ledger :=
    Host.reachable_underRules_run genesis blockTime params [] cs
  rw [show h = ⟨h.ledger, [agreements params]⟩ from Host.run_underRules_nil ..]
  refine ⟨fun t u hind _ id => Host.check_submit_iff hl hind, fun t u htu hut id => ?_⟩
  simp only [Host.submit_eq_ok_iff]
  exact ⟨Host.check_submit_iff hl htu, Host.check_submit_iff hl hut⟩

/-! Two people of the quarrel make each other an offer at the same time. -/

namespace Crossing

open Quarrel

def fundingId : TxId :=
  ⟨octets 32 0x1628bc8827dde1fd813f73e2742872bc71841fde33e469ab1cc1aea51ed71d52⟩

def counterId : TxId :=
  ⟨octets 32 0xce14b13ad056f744652528bf0277007a3b159cd03f89f808db8808a55a046996⟩

def terms : Offer :=
  { Quarrel.terms with source := .key destination, destination := .key source }

/-- The offer of the destination. -/
def counter : Transaction where
  inputs := [neutralInput destination fundingId 0]
  outputs := [⟨10000, globalLock⟩, ⟨20000, .key destination⟩,
    ⟨0, .data (Operation.offer terms).encode⟩]

def commands : List Command :=
  [.fund source 100000, .fund destination 50000]

/-- What the host has recorded before the offers. -/
def ledger : Ledger where
  genesis := ⟨0, 0⟩
  blockTime := 60
  height := 2
  blocks := [⟨1, ⟨60, 0⟩, [Quarrel.fundingId]⟩, ⟨2, ⟨120, 0⟩, [fundingId]⟩]
  records := [⟨Quarrel.fundingId, Host.funding source 100000 1, some 1⟩,
    ⟨fundingId, Host.funding destination 50000 2, some 2⟩]
  nonce := 2

theorem ledger_run : ((Host.underRules ⟨0, 0⟩ 60 {} []).run commands).ledger = ledger := by
  decide +kernel

theorem check_offer :
    (⟨ledger, [agreements {}]⟩ : Host).check offer = .ok offerId := by
  rw [← toOption_eq_some_iff]
  decide +kernel

theorem check_counter :
    (⟨ledger, [agreements {}]⟩ : Host).check counter = .ok counterId := by
  rw [← toOption_eq_some_iff]
  decide +kernel

/-- The two offers are independent. -/
theorem independent_counter : counter.IndependentOf offer ∧ offer.IndependentOf counter := by
  have hid : offerId = offer.txid := (Host.check_eq_ok_iff.1 check_offer).1
  have hid' : counterId = counter.txid := (Host.check_eq_ok_iff.1 check_counter).1
  refine ⟨⟨?_, by decide, ?_⟩, ⟨?_, by decide, ?_⟩⟩
  · rw [← hid, ← hid']
    decide
  · rw [← hid]
    decide
  · rw [← hid, ← hid']
    decide
  · rw [← hid']
    decide

/-- Each offer is admitted after the other one. -/
theorem either_order :
    let h := (Host.underRules ⟨0, 0⟩ 60 {} []).run commands
    (counter.IndependentOf offer ∧ offer.IndependentOf counter ∧ h.check offer = .ok offerId) ∧
      (h.submit offer).2.check counter = .ok counterId ∧
      ((h.submit offer).2.submit counter).1 = .ok counterId ∧
      ((h.submit counter).2.submit offer).1 = .ok offerId := by
  intro h
  obtain ⟨hcounter, hoffer⟩ := independent_counter
  have hh : h = ⟨ledger, [agreements {}]⟩ := ledger_run ▸ Host.run_underRules_nil ..
  have hfirst : h.check offer = .ok offerId := hh ▸ check_offer
  have hsecond : h.check counter = .ok counterId := hh ▸ check_counter
  obtain ⟨hwaits, horder⟩ := independent_run ⟨0, 0⟩ 60 {} commands
  exact ⟨⟨hcounter, hoffer, hfirst⟩, (hwaits _ _ hcounter ⟨_, hfirst⟩ _).2 hsecond,
    (horder _ _ hcounter hoffer _).1.2 (Host.submit_eq_ok_iff.2 hsecond),
    (horder _ _ hcounter hoffer _).2.2 (Host.submit_eq_ok_iff.2 hfirst)⟩

end Crossing

end Escrow
