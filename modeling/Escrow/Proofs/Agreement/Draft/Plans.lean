import Escrow.Proofs.Agreement.Draft.Asked
import Escrow.Proofs.Agreement.Recorded

/-!
# Plans that can be carried out

What it takes for a plan of a drafter to be one that the host may admit. It takes
outputs from escrow that are there to be taken (`Ledger.Held`): the markers of open
offers, the batons of agreements that nothing spends, and the deposits of these. It
pays to keys or into escrow (`Output.Payable`). Its payload is short enough. Then
only the rules of its operation decide (`Settled.check_iff`).
-/

namespace Escrow

/-- An output in escrow is there to be taken. -/
def Ledger.Held (l : Ledger) (o : Outpoint) : Prop :=
  l.spentBy? o = none ∧ ∃ out, l.prevout? o = some out ∧ out.lock.isEscrow

/-- An output pays to a key or into escrow. -/
structure Output.Payable (out : Output) : Prop where
  nonneg : 0 ≤ out.value.toInt
  lock : out.lock.isEscrow ∨ ∃ k, out.lock = .key k

theorem Output.payable_key {amount : Amount} (h : 0 ≤ amount) (k : PublicKey) :
    (⟨amount, .key k⟩ : Output).Payable :=
  ⟨Int64.le_iff_toInt_le.1 h, .inr ⟨k, rfl⟩⟩

theorem Output.payable_event {amount : Amount} (h : 0 ≤ amount) (offer : TxId) :
    (⟨amount, eventLock offer⟩ : Output).Payable :=
  ⟨Int64.le_iff_toInt_le.1 h, .inl rfl⟩

theorem Output.payable_global {amount : Amount} (h : 0 ≤ amount) :
    (⟨amount, globalLock⟩ : Output).Payable :=
  ⟨Int64.le_iff_toInt_le.1 h, .inl rfl⟩

namespace Drafter

variable {amount : Amount} {role : String} {p : Party} {outs : List Output}

/-- What a party is paid can be paid. -/
theorem payable_of_part (h : part amount role p = .ok outs) : ∀ out ∈ outs, out.Payable := by
  rcases part_eq_ok_iff.1 h with ⟨hpos, k, rfl, rfl⟩ | ⟨-, rfl⟩
  · intro out hout
    rw [List.mem_singleton.1 hout]
    exact Output.payable_key (Int64.le_of_lt hpos) k
  · exact nofun

/-- The next output stands behind what a party is paid, if it is paid anything. -/
theorem afterPayment_of_part (h : part amount role p = .ok outs) (vout : Nat) :
    Inspection.afterPayment vout amount = vout + outs.length := by
  rw [Inspection.afterPayment]
  rcases part_eq_ok_iff.1 h with ⟨hpos, k, rfl, rfl⟩ | ⟨hzero, rfl⟩
  · rw [if_pos hpos]
    rfl
  · rw [if_neg hzero]
    rfl

end Drafter

namespace Inspection.Completes

variable {i : Inspection} {p : Plan} {key : PublicKey} (h : i.Completes p key)
include h

theorem makesAt (vout : Nat) {out : Output} (hout : p.pays[vout]? = some out) :
    i.Makes vout (.exactly out.value) out.lock :=
  ⟨out, h.makes vout out hout, rfl, rfl⟩

/-- What the plan pays to a party stands where the outputs before it end. -/
theorem pays (vout : Nat) (front : List Output) {outs back : List Output} {amount : Amount}
    {role : String} {q : Party} (hpays : p.pays = front ++ outs ++ back)
    (hvout : front.length = vout) (hpart : Drafter.part amount role q = .ok outs) :
    i.Pays vout amount q := by
  intro hpos
  subst hvout
  obtain ⟨-, k, rfl, rfl⟩ := (Drafter.part_eq_ok_iff.1 hpart).resolve_right fun hzero =>
    hzero.1 hpos
  have hout : p.pays[front.length]? = some ⟨amount, .key k⟩ := by
    rw [hpays, List.append_assoc, List.getElem?_append_right (Nat.le_refl _), Nat.sub_self]
    rfl
  exact ⟨k, rfl, h.makesAt _ hout⟩

end Inspection.Completes

section
variable {validators : List Validator} {params : Params} {l : Ledger} {kp : KeyPair} {d : Drafted}
variable (hs : Settled validators params l)
include hs

theorem Settled.held_marker {id : TxId} {r : Record} {o : Offer}
    (ho : l.Confirms id r (.offer o)) (hunspent : l.spentBy? ⟨id, 0⟩ = none) : l.Held ⟨id, 0⟩ :=
  ⟨hunspent, isEscrow_marker hs.reachable hs.rules ho.does⟩

theorem Settled.held_baton {agreement b : TxId} (hb : l.HoldsBaton agreement b)
    (hunspent : l.spentBy? ⟨b, 0⟩ = none) : l.Held ⟨b, 0⟩ :=
  ⟨hunspent, hb.isEscrow hs.reachable hs.rules⟩

theorem Settled.held_deposit {agreement b : TxId} (hb : l.HoldsBaton agreement b)
    (hunspent : l.spentBy? ⟨b, 0⟩ = none) : l.Held ⟨agreement, 1⟩ := by
  obtain ⟨o, hA⟩ := hb.exists_accept hs.reachable hs.rules
  exact ⟨hs.unspent_deposit hb hunspent, isEscrow_deposit hs.reachable hs.rules hA⟩

/-- A plan that takes what is there, and pays what can be paid, can be carried out. -/
theorem Settled.fits {p : Plan}
    (hreleased : (⟨l, params, kp.publicKey⟩ : Drafter).released 0 p.spends = .ok p.released)
    (hnodup : p.spends.Nodup) (hheld : ∀ o ∈ p.spends, l.Held o)
    (hpays : ∀ out ∈ p.pays, out.Payable)
    (hlength : p.operation.encode.length ≤ params.maxPayload)
    (hcanonical : p.operation.Canonical) : ∃ outs, p.Fits l params outs := by
  obtain ⟨outs, houts, htotal⟩ := Drafter.exists_of_released hreleased
  refine ⟨outs, houts, hnodup, fun o ho => (hheld o ho).1, fun out hout => ?_, ?_,
    fun out hout => (hpays out hout).nonneg, fun out hout => (hpays out hout).lock, hlength, ?_⟩
  · -- Each output that is taken is one of those in escrow, for which the global key may sign.
    have hmem := List.mem_map_of_mem (f := some) hout
    rw [← houts] at hmem
    obtain ⟨o, ho, hprevout⟩ := List.mem_map.1 hmem
    obtain ⟨-, out', hout', hescrow⟩ := hheld o ho
    cases hprevout.symm.trans hout'
    exact ⟨hescrow, hs.reachable.authorizes_global hs.rules hprevout hescrow⟩
  · rw [htotal, Int64.toInt_zero, Int.zero_add]
  · have hwritten := Payload.fits_of_encode (p := ⟨payloadVersion, p.operation⟩)
      (Nat.lt_of_le_of_lt hlength hs.limit)
    exact Payload.decode_eq_ok_iff.2 ⟨⟨hcanonical, hwritten⟩, rfl⟩

/-- The draft of such a plan is carried out once it is signed, and the host admits it
    if and only if it obeys the rules of its operation. -/
theorem Settled.check_iff {p : Plan} {tx : Transaction}
    (hfinish : (⟨l, params, kp.publicKey⟩ : Drafter).finish p = .ok tx) (hu : Unbroken l kp tx)
    (hreleased : (⟨l, params, kp.publicKey⟩ : Drafter).released 0 p.spends = .ok p.released)
    (hnodup : p.spends.Nodup) (hheld : ∀ o ∈ p.spends, l.Held o)
    (hpays : ∀ out ∈ p.pays, out.Payable)
    (hlength : p.operation.encode.length ≤ params.maxPayload)
    (hcanonical : p.operation.Canonical) :
    ∃ spent, (⟨l, params, (tx.signWith l kp).1, spent⟩ : Inspection).Completes p kp.publicKey ∧
      ((⟨l, validators⟩ : Host).check (tx.signWith l kp).1 = .ok tx.txid ↔
        (⟨l, params, (tx.signWith l kp).1, spent⟩ : Inspection).Obeys p.operation) := by
  obtain ⟨outs, hfits⟩ := hs.fits hreleased hnodup hheld hpays hlength hcanonical
  exact Drafter.check_signWith_iff hs.reachable hs.nameable hs.usable hfits hs.rules hfinish hu

/-- Who spends the baton of an agreement that is free follows its last event. -/
theorem Settled.follows {a : Agreement} {b : TxId} (hfree : l.Free a b) {tx : Transaction}
    {spent : List Output} {vin : Nat} (hspends : tx.spends[vin]? = some ⟨b, 0⟩)
    (hprevouts : tx.spends.map l.prevout? = spent.map some) :
    ∃ e, l.record? b = some e ∧ e.txid = b ∧
      (⟨l, params, tx, spent⟩ : Inspection).Follows vin a e := by
  obtain ⟨e, op, he, hhands, hfun⟩ := hfree.event
  obtain ⟨-, rfl⟩ := Ledger.mem_of_record? he.record?
  refine ⟨e, he.record?, rfl, hspends, ⟨op, he, isEventOf_iff.2 hhands, hfun⟩, ?_⟩
  obtain ⟨out, hout, hprevout⟩ :=
    Inspection.getElem?_spent (i := ⟨l, params, tx, spent⟩) hprevouts hspends
  rw [hout, Option.map_some,
    hfree.holdsBaton.lock_eq hs.reachable hs.rules hfree.agrees.does hprevout]

end

end Escrow
