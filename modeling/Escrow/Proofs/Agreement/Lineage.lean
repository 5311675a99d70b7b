import Escrow.Proofs.Agreement.Status
import Mathlib.Data.Sym.Sym2

/-!
# Lineages

An agreement that was made by an amendment stands in the place of another, which the
offer that it accepted names. One goes back from agreement to agreement in this way, and
comes to one whose offer names none (`Ledger.Lineage`).

Each link was checked twice: the offer was for an agreement of the same parties, and the
accept took the baton and the deposit of it. So one goes back in height at each step,
which ends the walk; all agreements met are between the same two parties, and all but the
first one are over (`Lineage.descends`). No agreement is amended twice, as its deposit is
spent once (`Reachable.amends_injective`).
-/

namespace Escrow

/-- The two parties of an offer, in no order. -/
def Offer.parties (o : Offer) : Sym2 Party :=
  s(o.source, o.destination)

/-- The rules compare the parties of two offers without their order. -/
theorem sameParties_iff {o p : Offer} : Inspection.sameParties o p ↔ o.parties = p.parties := by
  simp [Inspection.sameParties, Offer.parties]

namespace Ledger

variable {l : Ledger} {agreement : TxId} {a b : Agreement} {as bs : List Agreement}

/-- The agreements that one goes back to from the first one, up to one that amends
    none. -/
inductive Lineage (l : Ledger) : List Agreement → Prop
  | plain {a : Agreement} : l.Agrees a → a.offer.amends = none → l.Lineage [a]
  | amends {a b : Agreement} {as : List Agreement} : l.Agrees a →
    a.offer.amends = some b.txid → l.Lineage (b :: as) → l.Lineage (a :: b :: as)

/-- The deposit of an agreement and all of its batons are spent by confirmed
    transactions. -/
structure Over (l : Ledger) (agreement : TxId) : Prop where
  deposit : ¬l.Rests ⟨agreement, 1⟩
  batons : ∀ b, l.HoldsBaton agreement b → ¬l.Rests ⟨b, 0⟩

/-- What is common to agreements that stand in each other's place, the latest one
    first. -/
structure Descends (l : Ledger) (as : List Agreement) : Prop where
  heights : (as.map Agreement.height).Pairwise (· > ·)
  parties : (as.map fun a => a.offer.parties).Pairwise (· = ·)
  earlier_over : ∀ a ∈ as.tail, l.Over a.txid

/-- All agreements that one goes back to are confirmed. -/
theorem Lineage.agrees (h : l.Lineage as) (ha : a ∈ as) : l.Agrees a := by
  induction h with
  | plain hagrees => exact List.mem_singleton.1 ha ▸ hagrees
  | amends hagrees _ _ ih =>
    rcases List.mem_cons.1 ha with rfl | ha
    · exact hagrees
    · exact ih ha

/-- There is one way to go back. -/
theorem Lineage.unique (h : l.Lineage (a :: as)) (h' : l.Lineage (a :: bs)) : as = bs := by
  -- An offer names one agreement at most, and one accept makes each.
  induction as generalizing a bs with
  | nil =>
    cases h with
    | plain _ hnone =>
      cases h' with
      | plain => rfl
      | amends _ hsome => cases hnone.symm.trans hsome
  | cons b as ih =>
    cases h with
    | amends _ hsome h =>
      cases h' with
      | plain _ hnone => cases hnone.symm.trans hsome
      | @amends _ b' bs _ hsome' h' =>
        obtain rfl : b = b' := (h.agrees List.mem_cons_self).unique (h'.agrees List.mem_cons_self)
          (Option.some.inj (hsome.symm.trans hsome'))
        rw [ih h h']

end Ledger

section
variable {validators : List Validator} {params : Params} {l : Ledger} {agreement : TxId}
  {a b : Agreement} {as : List Agreement}
variable (hl : Reachable validators l) (hv : KeepsRules validators params)
include hl hv

/-- An agreement whose deposit a confirmed transaction has spent is over: what spends a
    baton is confirmed if its own baton is spent, or else spends the deposit as well. -/
theorem Reachable.isOver {o : TxId} (hA : l.Does agreement (.accept o))
    (hspent : ¬l.Rests ⟨agreement, 1⟩) : l.Over agreement := by
  refine ⟨hspent, fun b hb hrests => ?_⟩
  simp only [Ledger.Rests, not_forall, not_not] at hspent
  obtain ⟨t, ht, htconf, hdeposit⟩ := hspent
  have hended := (hl.balanced hv hA).ended (Ledger.mem_spends.2 ⟨t, ht, hdeposit⟩)
  obtain ⟨r, hr, hmem⟩ := Ledger.mem_spends.1 (hended b hb)
  refine hrests r hr ?_ hmem
  obtain ⟨out, hout, hescrow⟩ := hb.isEscrow hl hv
  obtain ⟨op, hop⟩ := hl.operation?_of_spends hv hr hmem hout hescrow
  obtain ⟨before, spent, h⟩ := hl.enacted hv hr hop
  obtain ⟨prev, hprev, hhands⟩ := hb
  have hb' : before.HoldsBaton agreement b := ⟨prev, h.does_before hl.sound hmem hprev, hhands⟩
  obtain ⟨o', hA'⟩ := hb'.exists_accept h.reachable hv
  cases h.at_admission.treats h.reachable hv hA' with
  | leaves hbaton => exact absurd hmem (hbaton b hb')
  | passes _ _ _ hop' hhands' =>
    cases hop.symm.trans hop'
    have hrecord := hl.sound.record?_eq_some_iff.2 ⟨hr, hl.sound.txid_eq r hr⟩
    -- What spends its baton in turn found it confirmed.
    have hnext : l.HoldsBaton agreement r.tx.txid := ⟨op, ⟨r, hrecord, hop⟩, hhands'⟩
    obtain ⟨r', hr', hmem'⟩ := Ledger.mem_spends.1 (hended _ hnext)
    obtain ⟨out', hout', hescrow'⟩ := hnext.isEscrow hl hv
    obtain ⟨op'', hop''⟩ := hl.operation?_of_spends hv hr' hmem' hout' hescrow'
    obtain ⟨before', spent', h'⟩ := hl.enacted hv hr' hop''
    obtain ⟨s, hs, -⟩ := h'.continues hl.sound hv ⟨r, hrecord, hop⟩ hhands' hmem'
    cases hrecord.symm.trans (hs.grows h'.grows_before hl.sound).record?
    exact hs.isConfirmed
  | ends _ _ hdeposit' =>
    obtain ⟨vin, hat⟩ := List.getElem?_of_mem hdeposit
    obtain ⟨vin', hat'⟩ := List.getElem?_of_mem hdeposit'
    rw [(hl.sound.spends_unique hr ht hat' hat).1]
    exact htconf

/-- From an agreement whose offer names another one goes back to that one. -/
theorem Reachable.exists_amended (ha : l.Agrees a) (hamends : a.offer.amends = some agreement) :
    ∃ b, l.Agrees b ∧ b.txid = agreement ∧ b.height < a.height ∧
      a.offer.parties = b.offer.parties ∧ l.Over agreement := by
  obtain ⟨hamendment, r, before, spent, b, e, hr, hheight, h, rfl, ham⟩ :=
    hl.exists_amends hv ha hamends
  have hb := ham.agrees.grows h.grows_before hl.sound
  obtain ⟨hmem, hid⟩ := Ledger.mem_of_record? hr.record?
  refine ⟨b, hb, rfl, ?_, ?_, hl.isOver hv hb.does fun hrests => ?_⟩
  · -- The accept was admitted when the other agreement was confirmed already.
    obtain ⟨⟨s, hs, hsheight⟩, -⟩ := ham.agrees
    obtain ⟨g, hg⟩ := Option.isSome_iff_exists.1 hs.isConfirmed
    rw [hg, Option.getD_some] at hsheight
    refine hsheight ▸ Nat.lt_of_le_of_lt (h.reachable.sound.height_le s
      (Ledger.mem_of_record? hs.record?).1 g hg) (h.height_lt hl.sound ?_)
    rw [← hl.sound.txid_eq r hmem, hid, Ledger.heightOf?, hr.record?]
    exact hheight
  · obtain ⟨b', hb', hagrees, hparties⟩ := (hl.sound_agreement hv ha).amended hamendment
    obtain rfl := hagrees.unique hb (Option.some.inj (hb'.symm.trans hamends))
    exact sameParties_iff.1 hparties
  · exact hrests r hmem hr.isConfirmed (List.mem_of_getElem? ham.deposit)

/-- Agreements whose offers name the same one are the same, for its deposit is spent
    once. -/
theorem Reachable.amends_injective (ha : l.Agrees a) (hb : l.Agrees b)
    (hamends : a.offer.amends = some agreement) (hamends' : b.offer.amends = some agreement) :
    a = b := by
  obtain ⟨r, hr, hmem⟩ := hl.spends_amended hv ha hamends
  obtain ⟨s, hs, hmem'⟩ := hl.spends_amended hv hb hamends'
  obtain ⟨hr, hid⟩ := Ledger.mem_of_record? hr.record?
  obtain ⟨hs, hid'⟩ := Ledger.mem_of_record? hs.record?
  obtain ⟨vin, hat⟩ := List.getElem?_of_mem hmem
  obtain ⟨vin', hat'⟩ := List.getElem?_of_mem hmem'
  obtain ⟨rfl, -⟩ := hl.sound.spends_unique hr hs hat hat'
  exact ha.unique hb (hid.symm.trans hid')

/-- From every agreement one comes to a plain one: each step goes to a lower height. -/
theorem Reachable.exists_lineage (ha : l.Agrees a) : ∃ as, l.Lineage (a :: as) := by
  generalize hheight : a.height = height
  induction height using Nat.strongRecOn generalizing a with
  | ind height ih =>
    cases hamends : a.offer.amends with
    | none => exact ⟨[], .plain ha hamends⟩
    | some agreement =>
      obtain ⟨b, hb, rfl, hlt, -⟩ := hl.exists_amended hv ha hamends
      obtain ⟨as, has⟩ := ih b.height (hheight ▸ hlt) hb rfl
      exact ⟨b :: as, .amends ha hamends has⟩

/-- Each step leads to an agreement of the same parties, of a lower height, that is
    over. -/
theorem Ledger.Lineage.descends (h : l.Lineage as) : l.Descends as := by
  induction h with
  | plain => exact ⟨List.pairwise_singleton .., List.pairwise_singleton .., nofun⟩
  | @amends a b as ha hamends h ih =>
    obtain ⟨b', hb', hid, hlt, hparties, hover⟩ := hl.exists_amended hv ha hamends
    obtain rfl := hb'.unique (h.agrees List.mem_cons_self) hid
    obtain ⟨hheights, hall, hrest⟩ := ih
    refine ⟨?_, ?_, ?_⟩
    · rw [List.map_cons, ← List.isChain_iff_pairwise] at hheights ⊢
      exact .cons_cons hlt hheights
    · rw [List.map_cons, ← List.isChain_iff_pairwise] at hall ⊢
      exact .cons_cons hparties hall
    · rintro c (_ | ⟨_, hc⟩)
      · exact hover
      · exact hrest c hc

end

/-- In a run of a host that keeps the rules of agreements, one goes back from every
    confirmed accept to agreements of lower heights, between the same parties, that are
    over, and in the end to a plain one; and no two confirmed accepts amend the same
    agreement. -/
theorem lineage_run (genesis : Timestamp) (blockTime : UInt64) (params : Params)
    (others : List Validator) (cs : List Command) :
    let l := ((Host.underRules genesis blockTime params others).run cs).ledger
    (∀ id r o, l.Confirms id r (.accept o) →
      ∃ a as, a.txid = id ∧ l.Lineage (a :: as) ∧ l.Descends (a :: as)) ∧
    ∀ a b agreement, l.Agrees a → l.Agrees b → a.offer.amends = some agreement →
      b.offer.amends = some agreement → a = b := by
  intro l
  have hl := Host.reachable_underRules_run genesis blockTime params others cs
  have hv := Host.keepsRules_underRules genesis blockTime params others
  refine ⟨fun id r o hr => ?_, fun a b agreement => hl.amends_injective hv⟩
  obtain ⟨a, ha, hid, -⟩ := hl.exists_agrees hv hr
  obtain ⟨as, has⟩ := hl.exists_lineage hv ha
  exact ⟨a, as, hid, has, has.descends hl hv⟩

/-! ## A renewal

The agreement of the quarrel, before it comes to that: the source offers to amend it, and
the destination, who is given more to sign with, accepts. -/

namespace Renewal

open Quarrel (octets source destination neutralInput escrowInput)

def fundingId : TxId :=
  ⟨octets 32 0xff8cbbcae4a15e1cce02b4cffbf99dd0f1ce6b2c76b0db321f73924b25f71ff7⟩

def offerId : TxId :=
  ⟨octets 32 0x11789cd50b559f7438e7028201bd4d77921005f2e96c1fec6b6ff4a6f7a9b086⟩

def acceptId : TxId :=
  ⟨octets 32 0x394169fb3476db672a12abec40e858fa2f8f4da2220d94496c5c3bf76b68ad7b⟩

def terms : Offer :=
  { Quarrel.terms with flags := .amendment, amends := some Quarrel.acceptId }

def offer : Transaction where
  inputs := [neutralInput source Quarrel.offerId 1]
  outputs := [⟨10000, globalLock⟩, ⟨0, .data (Operation.offer terms).encode⟩]

def accept : Transaction where
  inputs := [
    escrowInput offerId 0 0x55dc9559b3dace7793d6b8898661ef6f82cc6944b38539972a10e7f944117f03
      0x0b91b0fa6680460359972054f40f876bed0e5cdf71bb28a303db7ed022e48fd0,
    escrowInput Quarrel.acceptId 0
      0xcec2a75cd6f66819e8f485360d5b9474c514e700ab2cb5e40ed2aa1678aabd9b
      0x0eed9f932219001e3551168a67cf5fed21abd40502500f9f53420776d14dac66,
    escrowInput Quarrel.acceptId 1
      0x8aba71cfca614a4e692a3cc3fb936ec2ef29659665807f1e12fd33bb58919573
      0x02c2adbb5814944a2a89a3b4f7bc6a3fad6a03a74a0b70520464dd21f35207ae,
    neutralInput destination fundingId 0]
  outputs := [⟨10000, eventLock offerId⟩, ⟨10000, globalLock⟩,
    ⟨0, .data (Operation.accept offerId).encode⟩]

def commands : List Command :=
  Quarrel.commands.take 5 ++ [.fund destination 20000, .submit offer, .mine]

/-- What the host has recorded when the amendment is offered. -/
def offered : Ledger where
  genesis := ⟨0, 0⟩
  blockTime := 60
  height := 5
  blocks := Quarrel.accepted.blocks ++
    [⟨4, ⟨240, 0⟩, [fundingId]⟩, ⟨5, ⟨300, 0⟩, [offerId]⟩]
  records := Quarrel.accepted.records ++
    [⟨fundingId, Host.funding destination 20000 2, some 4⟩, ⟨offerId, offer, some 5⟩]
  nonce := 2

/-- What the host has recorded when it is accepted. -/
def renewed : Ledger where
  genesis := ⟨0, 0⟩
  blockTime := 60
  height := 6
  blocks := offered.blocks ++ [⟨6, ⟨360, 0⟩, [acceptId]⟩]
  records := offered.records ++ [⟨acceptId, accept, some 6⟩]
  nonce := 2

theorem offered_run : ((Host.underRules ⟨0, 0⟩ 60 {} []).run commands).ledger = offered := by
  rw [commands, Host.run_append, Host.run_underRules_nil, Quarrel.accepted_run]
  decide +kernel

/-- The accept of the amendment is admitted. -/
theorem check_accept : (⟨offered, [agreements {}]⟩ : Host).check accept = .ok acceptId := by
  rw [← toOption_eq_some_iff]
  decide +kernel

theorem renewed_run :
    ((Host.underRules ⟨0, 0⟩ 60 {} []).run (commands ++ [.submit accept, .mine])).ledger =
      renewed := by
  rw [Host.run_append, Host.run_underRules_nil, offered_run,
    Host.run_submit_mine_of_check check_accept, Host.insert_of_check check_accept]
  rfl

/-- One goes back from the renewed agreement to the one before, which is over. -/
theorem lineage_renewed :
    let l := ((Host.underRules ⟨0, 0⟩ 60 {} []).run (commands ++ [.submit accept, .mine])).ledger
    l.Confirms acceptId ⟨acceptId, accept, some 6⟩ (.accept offerId) ∧
      ∃ a b as, a.txid = acceptId ∧ b.txid = Quarrel.acceptId ∧ l.Lineage (a :: b :: as) ∧
        l.Descends (a :: b :: as) := by
  intro l
  have hl : l = renewed := renewed_run
  have hr : l.Confirms acceptId ⟨acceptId, accept, some 6⟩ (.accept offerId) := by
    rw [hl]
    exact ⟨rfl, rfl, by decide +kernel⟩
  have ho : l.Does offerId (.offer terms) := by
    rw [hl]
    exact ⟨⟨offerId, offer, some 5⟩, rfl, by decide +kernel⟩
  obtain ⟨hlineage, -⟩ := lineage_run ⟨0, 0⟩ 60 {} [] (commands ++ [.submit accept, .mine])
  obtain ⟨a, as, hid, has, hdescends⟩ := hlineage acceptId _ offerId hr
  have hterms : a.offer = terms :=
    (has.agrees List.mem_cons_self).offer_eq (by rw [hid]; exact hr.does) ho
  rcases id has with ⟨-, hnone⟩ | @⟨_, b, as, -, hsome, -⟩
  · rw [hterms] at hnone
    cases hnone
  · rw [hterms] at hsome
    exact ⟨hr, a, b, as, hid, (Option.some.inj hsome).symm, has, hdescends⟩

end Renewal

end Escrow
