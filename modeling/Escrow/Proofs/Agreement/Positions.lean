import Escrow.Proofs.Agreement.Batons

/-!
# Positions

Each operation has one layout: the outputs in escrow that it takes and those that
it makes, in their order (`Ledger.Layout`). A recorded transaction that does
something is laid out accordingly (`Reachable.laidOut`): its first inputs spend
the outputs listed, its first outputs are the ones listed, and of the others none
has to do with escrow.

That the rest is not in escrow is what the rules ask. That what they ask for is
in escrow holds because it was made under the rules.
-/

namespace Escrow

/-- The outputs in escrow that an operation takes and those that it makes. There is
    no layout for an unlock. -/
inductive Ledger.Layout (l : Ledger) (params : Params) :
    Operation → List Outpoint → List (ValueRule × Lock) → Prop
  | offer {o : Offer} :
    l.Layout params (.offer o) [] [(.atLeast params.markerValue, globalLock)]
  | stopOffer {offer : TxId} {memo : String} :
    l.Layout params (.stopOffer offer memo) [⟨offer, 0⟩] []
  | accept {offer : TxId} {o : Offer} : l.Does offer (.offer o) → ¬o.flags.has .amendment →
    l.Layout params (.accept offer) [⟨offer, 0⟩]
      [(.exactly params.markerValue, eventLock offer), (.exactly o.deposit, globalLock)]
  | amend {offer agreement b : TxId} {o : Offer} : l.Does offer (.offer o) →
    o.flags.has .amendment → o.amends = some agreement → l.HoldsBaton agreement b →
    l.Layout params (.accept offer) [⟨offer, 0⟩, ⟨b, 0⟩, ⟨agreement, 1⟩]
      [(.exactly params.markerValue, eventLock offer), (.exactly o.deposit, globalLock)]
  | close {agreement offer b : TxId} {payout : Amount} : l.HoldsBaton agreement b →
    l.Layout params (.close agreement offer payout) [⟨b, 0⟩, ⟨agreement, 1⟩, ⟨offer, 0⟩] []
  | dispute {d : Dispute} {offer b : TxId} {o : Offer} : l.HoldsBaton d.agreement b →
    l.Does d.agreement (.accept offer) → l.Does offer (.offer o) →
    l.Layout params (.dispute d) [⟨b, 0⟩] [(.exactly o.disputeFee, eventLock offer)]
  | stopDispute {agreement dispute offer : TxId} {memo : String} :
    l.HoldsBaton agreement dispute → l.Does agreement (.accept offer) →
    l.Layout params (.stopDispute agreement dispute memo) [⟨dispute, 0⟩]
      [(.exactly params.markerValue, eventLock offer)]
  | resolve {agreement dispute : TxId} {payout : Amount} {memo : String} :
    l.HoldsBaton agreement dispute →
    l.Layout params (.resolve agreement dispute payout memo) [⟨dispute, 0⟩, ⟨agreement, 1⟩] []

/-- A transaction has exactly some inputs and outputs in escrow: its first ones. -/
structure Ledger.LaidOut (l : Ledger) (tx : Transaction) (os : List Outpoint)
    (outs : List (ValueRule × Lock)) : Prop where
  takes : os <+: tx.spends
  inputs : ∀ (vin : Nat) (o : Outpoint), tx.spends[vin]? = some o →
    (l.InEscrow o ↔ vin < os.length)
  makes : ∀ (vout : Nat) (rule : ValueRule) (lock : Lock), outs[vout]? = some (rule, lock) →
    ∃ out, tx.outputs[vout]? = some out ∧ out.lock = lock ∧ rule.Allows out.value
  outputs : ∀ (vout : Nat) (out : Output), tx.outputs[vout]? = some out →
    (out.lock.isEscrow ↔ vout < outs.length)

/-- What is taken from escrow is spent first. -/
theorem Inspection.Takes.isPrefix {i : Inspection} {os : List Outpoint} (h : i.Takes os) :
    os <+: i.tx.spends := by
  rw [List.prefix_iff_getElem?]
  intro vin hvin
  exact h.spends vin _ (List.getElem?_eq_getElem hvin)

section
variable {l m : Ledger} {params : Params} {tx : Transaction} {op : Operation}
  {os : List Outpoint} {outs : List (ValueRule × Lock)}

/-- What is made is locked for agreements. -/
theorem Ledger.Layout.isEscrow (h : l.Layout params op os outs) {rule : ValueRule} {lock : Lock}
    (hmem : (rule, lock) ∈ outs) : lock.isEscrow := by
  cases h with
  | stopOffer | close | resolve => cases hmem
  | offer | dispute | stopDispute =>
    cases List.mem_singleton.1 hmem
    rfl
  | accept | amend =>
    rcases List.mem_pair.1 hmem with heq | heq <;> cases heq <;> rfl

/-- What is in escrow is so in every later ledger. -/
theorem Ledger.InEscrow.grows {o : Outpoint} (h : l.InEscrow o) (hgrows : l.Grows m)
    (hm : m.Sound) : m.InEscrow o := by
  obtain ⟨out, hout, hescrow⟩ := h
  exact ⟨out, hgrows.prevout? hm hout, hescrow⟩

/-- The outputs listed are exactly those in escrow that are spent. -/
theorem Ledger.LaidOut.mem_iff (h : l.LaidOut tx os outs) {o : Outpoint} :
    o ∈ tx.spends ∧ l.InEscrow o ↔ o ∈ os := by
  constructor
  · rintro ⟨hmem, hescrow⟩
    obtain ⟨vin, ho⟩ := List.getElem?_of_mem hmem
    have hvin := (h.inputs vin o ho).1 hescrow
    have ho' := List.prefix_iff_getElem?.1 h.takes vin hvin
    rw [Option.some.inj (ho.symm.trans ho')]
    exact List.getElem_mem hvin
  · intro hmem
    obtain ⟨vin, hvin, rfl⟩ := List.getElem_of_mem hmem
    have ho := List.prefix_iff_getElem?.1 h.takes vin hvin
    exact ⟨h.takes.mem hmem, (h.inputs vin _ ho).2 hvin⟩

/-- If none are listed, no output is in escrow. -/
theorem Ledger.LaidOut.not_isEscrow (h : l.LaidOut tx os []) {out : Output}
    (hout : out ∈ tx.outputs) : ¬out.lock.isEscrow := by
  obtain ⟨vout, hout⟩ := List.getElem?_of_mem hout
  intro hescrow
  exact Nat.not_lt_zero vout ((h.outputs vout out hout).1 hescrow)

end

/-! ## Under the rules -/

section
variable {validators : List Validator} {params : Params} {l before : Ledger} {tx : Transaction}
  {spent : List Output} {op : Operation} {os : List Outpoint} {outs : List (ValueRule × Lock)}

namespace Enacted

variable (h : Enacted validators params l before tx spent op) (hl : l.Sound)
include h hl

/-- What is spent was in escrow already when it was spent. -/
theorem inEscrow_iff {o : Outpoint} (ho : o ∈ tx.spends) : l.InEscrow o ↔ before.InEscrow o := by
  constructor
  · rintro ⟨out, hout, hescrow⟩
    obtain ⟨out', hout'⟩ := h.admits.exists_prevout ho
    cases hout.symm.trans (h.grows_before.prevout? hl hout')
    exact ⟨out, hout', hescrow⟩
  · intro hbefore
    exact hbefore.grows h.grows_before hl

/-- Who takes outputs in escrow, and puts outputs in escrow, is laid out so. -/
theorem laidOut_of_takes (htakes : (⟨before, params, tx, spent⟩ : Inspection).Takes os)
    (hputs : (⟨before, params, tx, spent⟩ : Inspection).Puts outs)
    (hinputs : ∀ o ∈ os, before.InEscrow o)
    (houtputs : ∀ rule lock, (rule, lock) ∈ outs → lock.isEscrow) : l.LaidOut tx os outs := by
  refine ⟨htakes.isPrefix, fun vin o ho => ?_, fun vout rule lock hrule => ?_,
    fun vout out hout => ⟨fun hescrow => ?_, fun hvout => ?_⟩⟩
  · rw [h.inEscrow_iff hl (List.mem_of_getElem? ho)]
    constructor
    · intro hescrow
      exact (List.getElem?_eq_some_iff.1 (htakes.getElem? h.admits.map_prevout? ho hescrow)).1
    · intro hvin
      have hvin' := List.prefix_iff_getElem?.1 htakes.isPrefix vin hvin
      rw [Option.some.inj (ho.symm.trans hvin')]
      exact hinputs _ (List.getElem_mem hvin)
  · exact (hputs.makes vout _ hrule).getElem?
  · obtain ⟨p, hp, -⟩ := h.carries
    obtain ⟨rule, hrule, -⟩ := hputs.exists_rule hp hout hescrow
    exact (List.getElem?_eq_some_iff.1 hrule).1
  · obtain ⟨out', hout', hlock, -⟩ :=
      (hputs.makes vout _ (List.getElem?_eq_getElem hvout)).getElem?
    cases hout.symm.trans hout'
    rw [hlock]
    exact houtputs _ _ (List.getElem_mem hvout)

end Enacted

/-- Each operation has its layout, and what it is to take is in escrow. -/
theorem Enacted.exists_layout (h : Enacted validators params l before tx spent op) (hl : l.Sound)
    (hv : KeepsRules validators params) :
    ∃ os outs, l.Layout params op os outs ∧
      (⟨before, params, tx, spent⟩ : Inspection).Takes os ∧
      (⟨before, params, tx, spent⟩ : Inspection).Puts outs ∧ ∀ o ∈ os, before.InEscrow o := by
  have later : ∀ {id op}, before.Does id op → l.Does id op :=
    fun hid => hid.grows h.grows_before hl
  have baton : ∀ {a b}, before.HoldsBaton a b → l.HoldsBaton a b ∧ before.InEscrow ⟨b, 0⟩ := by
    intro a b hb
    have hescrow := hb.isEscrow h.reachable hv
    obtain ⟨op', hdoes, hhands⟩ := hb
    exact ⟨⟨op', later hdoes, hhands⟩, hescrow⟩
  have marker : ∀ {id r o}, before.Confirms id r (.offer o) → before.InEscrow ⟨id, 0⟩ :=
    fun hr => isEscrow_marker h.reachable hv hr.does
  have deposit : ∀ {a : Agreement}, before.Agrees a → before.InEscrow ⟨a.txid, 1⟩ :=
    fun ha => isEscrow_deposit h.reachable hv ha.does
  -- Each operation has its layout; an accept has two, with an agreement that it ends and
  -- without.
  cases h.obeys with
  | offer ho => exact ⟨_, _, .offer, ho.takes, ho.puts, nofun⟩
  | stopOffer ho =>
    exact ⟨_, _, .stopOffer, ho.takes, ho.puts, List.forall_mem_singleton.2 (marker ho.offer)⟩
  | @accept offer r o ho =>
    have hoffer := later ho.offer.does
    by_cases hamendment : o.flags.has .amendment
    · obtain ⟨a, e, ham⟩ := ho.amends hamendment
      obtain ⟨hb, hescrow⟩ := baton ham.baton.holdsBaton
      refine ⟨_, _, .amend hoffer hamendment ham.amends hb, ho.takes_of_amends hamendment ham,
        ho.puts, ?_⟩
      simp [marker ho.offer, hescrow, deposit ham.agrees]
    · exact ⟨_, _, .accept hoffer hamendment, ho.takes_of_not_amendment hamendment, ho.puts,
        List.forall_mem_singleton.2 (marker ho.offer)⟩
  | close ho =>
    obtain ⟨hb, hescrow⟩ := baton ho.baton.holdsBaton
    refine ⟨_, _, .close hb, ho.takes, ho.puts, ?_⟩
    simp [marker ho.offer, hescrow, deposit ho.agrees]
  | @dispute d a e ho =>
    obtain ⟨hb, hescrow⟩ := baton ho.baton.holdsBaton
    obtain ⟨r, hr⟩ := ho.agrees.offer
    have hA := later ho.agrees.does
    rw [← ho.agreement] at hb hA
    exact ⟨_, _, .dispute hb hA (later hr.does), ho.takes, ho.puts,
      List.forall_mem_singleton.2 hescrow⟩
  | stopDispute ho =>
    obtain ⟨hb, hescrow⟩ := baton (Ledger.holdsBaton_of_dispute ho.dispute ho.agreement)
    exact ⟨_, _, .stopDispute hb (later ho.agrees.does), ho.takes, ho.puts,
      List.forall_mem_singleton.2 hescrow⟩
  | resolve ho =>
    obtain ⟨hb, hescrow⟩ := baton (Ledger.holdsBaton_of_dispute ho.dispute ho.agreement)
    refine ⟨_, _, .resolve hb, ho.takes, ho.puts, ?_⟩
    simp [hescrow, deposit ho.agrees]

/-- So what is done under the rules is laid out as the operation has it. -/
theorem Enacted.laidOut (h : Enacted validators params l before tx spent op) (hl : l.Sound)
    (hv : KeepsRules validators params) :
    ∃ os outs, l.Layout params op os outs ∧ l.LaidOut tx os outs := by
  obtain ⟨os, outs, hlayout, htakes, hputs, hescrow⟩ := h.exists_layout hl hv
  exact ⟨os, outs, hlayout,
    h.laidOut_of_takes hl htakes hputs hescrow fun _ _ hmem => hlayout.isEscrow hmem⟩

end

end Escrow
