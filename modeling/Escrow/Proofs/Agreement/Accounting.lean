import Escrow.Proofs.Agreement.Batons
import Escrow.Proofs.Ledger.Outputs

/-!
# Escrow accounting

Every output in escrow serves one purpose (`Ledger.Serves`), which its place, lock
and value show: it is the *marker* of an offer, the *deposit* of an agreement, or
a *baton* of an agreement. And of an agreement one baton is unspent as long as the
deposit is, and none once that is spent.

A ledger is *accounted* for if this holds of it (`Ledger.Accounted`), and every
ledger is that a host reaches which keeps the rules of agreements
(`accounted_run`). Transactions that wait for a block count like all others.
-/

namespace Escrow

/-- What an output in escrow is for. -/
inductive Purpose
  | marker
  | deposit
  | baton (agreement : TxId)
  deriving DecidableEq

/-- What an operation makes an output for at a position, if it is in escrow. -/
def Operation.purpose? (id : TxId) : (vout : Nat) → Operation → Option Purpose
  | 0, .offer _ => some .marker
  | 0, .accept _ => some (.baton id)
  | 1, .accept _ => some .deposit
  | 0, .dispute d => some (.baton d.agreement)
  | 0, .stopDispute agreement .. => some (.baton agreement)
  | _, _ => none

/-- An output serves a purpose.

    * A marker is output 0 of an offer, and has at least the value of markers.
    * A deposit is output 1 of an accept, and has the value that the offer asks.
    * A baton is output 0 of the accept itself, or of a dispute or stop-dispute
      that names the agreement. It is locked for the offer accepted, and has the
      value of markers, or of the dispute fee in a dispute. -/
inductive Ledger.Serves (params : Params) (l : Ledger) (c : Holding) : Purpose → Prop
  | marker {o : Offer} : l.Does c.txid (.offer o) → c.vout = 0 → c.output.lock = globalLock →
    params.markerValue ≤ c.output.value → l.Serves params c .marker
  | deposit {offer : TxId} {o : Offer} : l.Does c.txid (.accept offer) →
    l.Does offer (.offer o) → c.vout = 1 → c.output.lock = globalLock →
    c.output.value = o.deposit → l.Serves params c .deposit
  | accepted {offer : TxId} : l.Does c.txid (.accept offer) → c.vout = 0 →
    c.output.lock = eventLock offer → c.output.value = params.markerValue →
    l.Serves params c (.baton c.txid)
  | disputed {d : Dispute} {offer : TxId} {o : Offer} : l.Does c.txid (.dispute d) →
    l.Does d.agreement (.accept offer) → l.Does offer (.offer o) → c.vout = 0 →
    c.output.lock = eventLock offer → c.output.value = o.disputeFee →
    l.Serves params c (.baton d.agreement)
  | withdrawn {agreement dispute offer : TxId} {memo : String} :
    l.Does c.txid (.stopDispute agreement dispute memo) → l.Does agreement (.accept offer) →
    c.vout = 0 → c.output.lock = eventLock offer → c.output.value = params.markerValue →
    l.Serves params c (.baton agreement)

/-- Every output in escrow serves one purpose, and of every agreement one baton is
    unspent if the deposit is, and none if it is spent. -/
structure Ledger.Accounted (params : Params) (l : Ledger) : Prop where
  escrow : ∀ c ∈ l.outputs, c.output.lock.isEscrow → ∃! p, l.Serves params c p
  live : ∀ agreement offer, l.Does agreement (.accept offer) →
    l.spentBy? ⟨agreement, 1⟩ = none → ∃! c, c ∈ l.unspent ∧ l.Serves params c (.baton agreement)
  ended : ∀ agreement offer, l.Does agreement (.accept offer) →
    l.spentBy? ⟨agreement, 1⟩ ≠ none → ∀ c ∈ l.unspent, ¬l.Serves params c (.baton agreement)

section
variable {params : Params} {l : Ledger} {c : Holding} {p p' : Purpose}

/-- What an output serves is what the operation makes it for. -/
theorem Ledger.Serves.purpose? (h : l.Serves params c p) :
    ∃ op, l.Does c.txid op ∧ op.purpose? c.txid c.vout = some p := by
  cases h with
  | marker hdoes hvout => exact ⟨_, hdoes, hvout ▸ rfl⟩
  | deposit hdoes _ hvout => exact ⟨_, hdoes, hvout ▸ rfl⟩
  | accepted hdoes hvout => exact ⟨_, hdoes, hvout ▸ rfl⟩
  | disputed hdoes _ _ hvout => exact ⟨_, hdoes, hvout ▸ rfl⟩
  | withdrawn hdoes _ hvout => exact ⟨_, hdoes, hvout ▸ rfl⟩

/-- An output serves one purpose only. -/
theorem Ledger.Serves.unique (h : l.Serves params c p) (h' : l.Serves params c p') : p = p' := by
  obtain ⟨op, hdoes, hp⟩ := h.purpose?
  obtain ⟨op', hdoes', hp'⟩ := h'.purpose?
  cases hdoes.unique hdoes'
  exact Option.some.inj (hp.symm.trans hp')

/-- A baton is output 0 of a transaction that makes one. -/
theorem Ledger.Serves.holdsBaton {agreement : TxId} (h : l.Serves params c (.baton agreement)) :
    c.vout = 0 ∧ l.HoldsBaton agreement c.txid := by
  cases h with
  | accepted hdoes hvout => exact ⟨hvout, _, hdoes, rfl⟩
  | disputed hdoes _ _ hvout => exact ⟨hvout, _, hdoes, rfl⟩
  | withdrawn hdoes _ hvout => exact ⟨hvout, _, hdoes, rfl⟩

end

/-! ## Outputs in escrow -/

variable {validators : List Validator} {params : Params} {l before : Ledger} {tx : Transaction}
  {spent : List Output} {op : Operation}

/-- What is made in escrow under the rules serves a purpose. -/
theorem Enacted.serves (h : Enacted validators params l before tx spent op) (hl : l.Sound)
    {vout : Nat} {out : Output} (hout : tx.outputs[vout]? = some out)
    (hescrow : out.lock.isEscrow) : ∃ p, l.Serves params ⟨tx.txid, vout, out⟩ p := by
  obtain ⟨payload, hcarries, -⟩ := h.carries
  have hdoes := h.does hl
  have later : ∀ {id op}, before.Does id op → l.Does id op :=
    fun hid => hid.grows h.grows_before hl
  have offer : ∀ {a : Agreement}, before.Agrees a → l.Does a.offerId (.offer a.offer) := by
    rintro a ⟨-, r, hr⟩
    exact later hr.does
  -- The output is one that the operation puts there, which one its position says.
  cases h.obeys with
  | offer ho =>
    obtain ⟨rule, hrule, hvalue⟩ := ho.puts.exists_rule hcarries hout hescrow
    cases vout with
    | zero =>
      obtain ⟨rfl, hlock⟩ := Prod.mk.inj (Option.some.inj hrule)
      exact ⟨_, .marker hdoes rfl hlock.symm hvalue⟩
    | succ n => cases hrule
  | stopOffer ho =>
    obtain ⟨rule, hrule, -⟩ := ho.puts.exists_rule hcarries hout hescrow
    cases hrule
  | accept ho =>
    obtain ⟨rule, hrule, hvalue⟩ := ho.puts.exists_rule hcarries hout hescrow
    match vout, hrule with
    | 0, hrule =>
      obtain ⟨rfl, hlock⟩ := Prod.mk.inj (Option.some.inj hrule)
      exact ⟨_, .accepted hdoes rfl hlock.symm hvalue⟩
    | 1, hrule =>
      obtain ⟨rfl, hlock⟩ := Prod.mk.inj (Option.some.inj hrule)
      exact ⟨_, .deposit hdoes (later ho.offer.does) rfl hlock.symm hvalue⟩
    | n + 2, hrule => cases hrule
  | close ho =>
    obtain ⟨rule, hrule, -⟩ := ho.puts.exists_rule hcarries hout hescrow
    cases hrule
  | dispute ho =>
    obtain ⟨rule, hrule, hvalue⟩ := ho.puts.exists_rule hcarries hout hescrow
    cases vout with
    | zero =>
      obtain ⟨rfl, hlock⟩ := Prod.mk.inj (Option.some.inj hrule)
      exact ⟨_, .disputed hdoes (ho.agreement ▸ later ho.agrees.does) (offer ho.agrees) rfl
        hlock.symm hvalue⟩
    | succ n => cases hrule
  | stopDispute ho =>
    obtain ⟨rule, hrule, hvalue⟩ := ho.puts.exists_rule hcarries hout hescrow
    cases vout with
    | zero =>
      obtain ⟨rfl, hlock⟩ := Prod.mk.inj (Option.some.inj hrule)
      exact ⟨_, .withdrawn hdoes (later ho.agrees.does) rfl hlock.symm hvalue⟩
    | succ n => cases hrule
  | resolve ho =>
    obtain ⟨rule, hrule, -⟩ := ho.puts.exists_rule hcarries hout hescrow
    cases hrule

section
variable (hl : Reachable validators l) (hv : KeepsRules validators params)
include hl hv

/-- Every output in escrow serves a purpose. -/
theorem Reachable.serves {c : Holding} (hc : c ∈ l.outputs) (hescrow : c.output.lock.isEscrow) :
    ∃ p, l.Serves params c p := by
  obtain ⟨r, hr, hc⟩ := Ledger.mem_outputs_iff.1 hc
  obtain ⟨hid, hout⟩ := Record.mem_outputs_iff.1 hc
  obtain ⟨op, hop⟩ := hl.operation?_of_isEscrow hv hr (List.mem_of_getElem? hout) hescrow
  obtain ⟨before, spent, h⟩ := hl.enacted hv hr hop
  obtain ⟨p, hp⟩ := h.serves hl.sound hout hescrow
  rw [← hl.sound.txid_eq r hr, ← hid] at hp
  exact ⟨p, hp⟩

/-- Who makes a baton makes an output that serves as one. -/
theorem Ledger.HoldsBaton.exists_holding {agreement b : TxId} (h : l.HoldsBaton agreement b) :
    ∃ out, l.holding? ⟨b, 0⟩ = some ⟨b, 0, out⟩ ∧
      l.Serves params ⟨b, 0, out⟩ (.baton agreement) := by
  obtain ⟨out, hout, hescrow⟩ := h.isEscrow hl hv
  have hc : l.holding? ⟨b, 0⟩ = some ⟨b, 0, out⟩ := by rw [Ledger.holding?, hout]; rfl
  obtain ⟨p, hp⟩ := hl.serves hv (hl.sound.mem_outputs_of_holding? hc) hescrow
  obtain ⟨op, hdoes, hpurpose⟩ := hp.purpose?
  have hhands := h.handsOn hdoes
  cases op with
  | accept o => cases hhands; cases hpurpose; exact ⟨out, hc, hp⟩
  | dispute d => cases hhands; cases hpurpose; exact ⟨out, hc, hp⟩
  | stopDispute a d memo => cases hhands; cases hpurpose; exact ⟨out, hc, hp⟩
  | _ => exact hhands.elim

end

/-- So every reachable ledger is accounted for. -/
theorem Reachable.accounted (hl : Reachable validators l) (hv : KeepsRules validators params) :
    l.Accounted params := by
  have named : ∀ {c : Holding}, c.vout = 0 → (c.isNamedIn l.spends ↔ ⟨c.txid, 0⟩ ∈ l.spends) :=
    fun hvout => Holding.isNamedIn_iff_mem rfl hvout.symm
  refine ⟨fun c hc hescrow => ?_, fun A o hA hdeposit => ?_, fun A o hA hdeposit c hc hserves => ?_⟩
  · obtain ⟨p, hp⟩ := hl.serves hv hc hescrow
    exact ⟨p, hp, fun q hq => hq.unique hp⟩
  · obtain ⟨b, ⟨hb, hunspent⟩, honly⟩ :=
      (hl.balanced hv hA).live (Ledger.spentBy?_eq_none_iff.1 hdeposit)
    obtain ⟨out, hc, hserves⟩ := hb.exists_holding hl hv
    -- The one baton that is unspent is the one output that serves as a baton.
    have hunspent' : ⟨b, 0, out⟩ ∈ l.unspent :=
      Ledger.mem_unspent_iff.2 ⟨hl.sound.mem_outputs_of_holding? hc, (named rfl).not.2 hunspent⟩
    refine ⟨_, ⟨hunspent', hserves⟩, ?_⟩
    rintro c ⟨hc', hserves'⟩
    obtain ⟨hvout, hb'⟩ := hserves'.holdsBaton
    obtain ⟨hmem, hunnamed⟩ := Ledger.mem_unspent_iff.1 hc'
    have hid := honly c.txid ⟨hb', (named hvout).not.1 hunnamed⟩
    have := hl.sound.holding?_of_mem_outputs (o := ⟨b, 0⟩) hmem hid.symm hvout.symm
    exact Option.some.inj (this.symm.trans hc)
  · obtain ⟨hvout, hb⟩ := hserves.holdsBaton
    refine (Ledger.mem_unspent_iff.1 hc).2 ((named hvout).2 ?_)
    refine (hl.balanced hv hA).ended (by_contra fun h => hdeposit ?_) c.txid hb
    exact Ledger.spentBy?_eq_none_iff.2 h

/-- The ledger of a host that keeps the rules of agreements is accounted for at
    all times. -/
theorem accounted_run (genesis : Timestamp) (blockTime : UInt64) (params : Params)
    (others : List Validator) (cs : List Command) :
    ((Host.underRules genesis blockTime params others).run cs).ledger.Accounted params :=
  (Host.reachable_underRules_run ..).accounted (Host.keepsRules_underRules ..)

end Escrow
