import Escrow.Proofs.Agreement.Enforcement

/-!
# Layout

The inputs and outputs in escrow of a transaction that obeys the rules are its
first ones, and each operation has its own (`Takes`, `Puts`). So an output in
escrow that is spent is where the list says (`Takes.getElem?`), and one that is
made is where and as the list says (`Puts.exists_rule`).
-/

namespace Escrow

/-- What holds at all positions of a list holds at its head and in its tail. -/
theorem forall_getElem?_cons {α : Type} {P : Nat → α → Prop} {a : α} {as : List α} :
    (∀ n b, (a :: as)[n]? = some b → P n b) ↔ P 0 a ∧ ∀ n b, as[n]? = some b → P (n + 1) b := by
  constructor
  · intro h
    exact ⟨h 0 a rfl, fun n b hb => h (n + 1) b hb⟩
  · rintro ⟨ha, has⟩ n b hb
    cases n with
    | zero => exact Option.some.inj hb ▸ ha
    | succ n => exact has n b hb

/-- An outpoint names an output in escrow. -/
def Ledger.InEscrow (l : Ledger) (o : Outpoint) : Prop :=
  ∃ out, l.prevout? o = some out ∧ out.lock.isEscrow

namespace Inspection

variable {i : Inspection}

/-- The outputs in escrow that a transaction spends. -/
structure Takes (i : Inspection) (os : List Outpoint) : Prop where
  spends : ∀ (vin : Nat) (o : Outpoint), os[vin]? = some o → i.tx.spends[vin]? = some o
  rest : i.SpendsNoEscrowFrom os.length

/-- The outputs in escrow that a transaction makes. -/
structure Puts (i : Inspection) (outs : List (ValueRule × Lock)) : Prop where
  makes : ∀ (vout : Nat) (out : ValueRule × Lock), outs[vout]? = some out → i.Makes vout out.1 out.2
  rest : i.MakesNoEscrowFrom outs.length

theorem Takes.mem_spends {os : List Outpoint} (h : i.Takes os) {o : Outpoint} (ho : o ∈ os) :
    o ∈ i.tx.spends := by
  obtain ⟨vin, ho⟩ := List.getElem?_of_mem ho
  exact List.mem_of_getElem? (h.spends vin o ho)

/-- What is spent in escrow is where the list says. -/
theorem Takes.getElem? {os : List Outpoint} (h : i.Takes os)
    (hspent : i.tx.spends.map i.ledger.prevout? = i.spent.map some) {vin : Nat} {o : Outpoint}
    (ho : i.tx.spends[vin]? = some o) (hescrow : i.ledger.InEscrow o) : os[vin]? = some o := by
  obtain ⟨out, hout, hescrow⟩ := hescrow
  obtain ⟨_, hat, hout'⟩ := getElem?_spent hspent ho
  cases hout.symm.trans hout'
  cases ho' : os[vin]? with
  | some o' => rw [← ho, h.spends vin o' ho']
  | none =>
    -- Beyond the list nothing in escrow is spent.
    have hle := List.getElem?_eq_none_iff.1 ho'
    refine absurd hescrow (h.rest out (List.mem_of_getElem? (i := vin - os.length) ?_))
    rw [List.getElem?_drop, Nat.add_sub_cancel' hle, hat]

/-- So it is listed. -/
theorem Takes.mem {os : List Outpoint} (h : i.Takes os)
    (hspent : i.tx.spends.map i.ledger.prevout? = i.spent.map some) {o : Outpoint}
    (ho : o ∈ i.tx.spends) (hescrow : i.ledger.InEscrow o) : o ∈ os := by
  obtain ⟨vin, ho⟩ := List.getElem?_of_mem ho
  exact List.mem_of_getElem? (h.getElem? hspent ho hescrow)

/-- What is made is among the outputs. -/
theorem Makes.getElem? {vout : Nat} {rule : ValueRule} {lock : Lock} (h : i.Makes vout rule lock) :
    ∃ out, i.tx.outputs[vout]? = some out ∧ out.lock = lock ∧ rule.Allows out.value := by
  obtain ⟨out, hout, hlock, hvalue⟩ := h
  rw [made, List.getElem?_dropLast] at hout
  split at hout
  · exact ⟨out, hout, hlock, hvalue⟩
  · cases hout

/-- What is made in escrow is listed. -/
theorem Puts.exists_rule {outs : List (ValueRule × Lock)} (h : i.Puts outs) {p : Payload}
    (hp : i.tx.Carries i.params p) {vout : Nat} {out : Output}
    (hout : i.tx.outputs[vout]? = some out) (hescrow : out.lock.isEscrow) :
    ∃ rule, outs[vout]? = some (rule, out.lock) ∧ rule.Allows out.value := by
  have hmade : i.made[vout]? = some out := by
    rw [made, List.getElem?_dropLast]
    split
    · exact hout
    · -- The last output carries the payload.
      next hlast =>
      obtain ⟨hlt, rfl⟩ := List.getElem?_eq_some_iff.1 hout
      obtain ⟨data, hdata, -⟩ := hp.data
      obtain ⟨last, hlast', hdata⟩ := Option.bind_eq_some_iff.1 hdata
      rw [List.getLast?_eq_getElem?, show i.tx.outputs.length - 1 = vout by omega, hout] at hlast'
      cases hlast'
      cases hlock : i.tx.outputs[vout].lock <;> simp_all [Lock.isEscrow, Lock.isOf, Lock.data?]
  -- Past the outputs of the layout nothing is in escrow.
  cases hrule : outs[vout]? with
  | some r =>
    obtain ⟨out', hout', hlock, hvalue⟩ := h.makes vout r hrule
    cases hmade.symm.trans hout'
    exact ⟨r.1, by rw [hlock], hvalue⟩
  | none =>
    have hle := List.getElem?_eq_none_iff.1 hrule
    refine absurd hescrow (h.rest out (List.mem_of_getElem? (i := vout - outs.length) ?_))
    rw [List.getElem?_drop, Nat.add_sub_cancel' hle, hmade]

/-! ## The operations -/

theorem ObeysOffer.takes {o : Offer} (h : i.ObeysOffer o) : i.Takes [] :=
  ⟨nofun, h.inputs⟩

theorem ObeysOffer.puts {o : Offer} (h : i.ObeysOffer o) :
    i.Puts [(.atLeast i.params.markerValue, globalLock)] :=
  ⟨forall_getElem?_cons.2 ⟨h.marker, nofun⟩, h.outputs⟩

section
variable {id : TxId} {memo : String} {payout : Amount} {a : Agreement} {r e : Record} {o : Offer}
  {d : Dispute} {p : Party}

theorem ObeysStopOffer.takes (h : i.ObeysStopOffer id memo r o) : i.Takes [⟨id, 0⟩] :=
  ⟨forall_getElem?_cons.2 ⟨h.marker, nofun⟩, h.inputs⟩

theorem ObeysStopOffer.puts (h : i.ObeysStopOffer id memo r o) : i.Puts [] :=
  ⟨nofun, h.outputs⟩

/-- An accept of a plain offer takes the marker. -/
theorem ObeysAccept.takes_of_not_amendment (h : i.ObeysAccept id r o)
    (ho : ¬o.flags.has .amendment) : i.Takes [⟨id, 0⟩] := by
  refine ⟨forall_getElem?_cons.2 ⟨h.marker, nofun⟩, ?_⟩
  have hinputs := h.inputs
  rwa [escrowInputs, if_neg ho] at hinputs

/-- An accept of an amendment takes the marker, and the baton and deposit of the agreement
    that ends. -/
theorem ObeysAccept.takes_of_amends (h : i.ObeysAccept id r o) (ho : o.flags.has .amendment)
    (ha : i.Amends o a e) : i.Takes [⟨id, 0⟩, ⟨e.txid, 0⟩, ⟨a.txid, 1⟩] := by
  refine ⟨forall_getElem?_cons.2 ⟨h.marker, forall_getElem?_cons.2 ⟨ha.baton.spends,
    forall_getElem?_cons.2 ⟨ha.deposit, nofun⟩⟩⟩, ?_⟩
  have hinputs := h.inputs
  rwa [escrowInputs, if_pos ho] at hinputs

/-- An accept puts the baton and the deposit of its agreement into escrow. -/
theorem ObeysAccept.puts (h : i.ObeysAccept id r o) :
    i.Puts [(.exactly i.params.markerValue, eventLock id), (.exactly o.deposit, globalLock)] :=
  ⟨forall_getElem?_cons.2 ⟨h.baton, forall_getElem?_cons.2 ⟨h.deposit, nofun⟩⟩, h.outputs⟩

theorem ObeysClose.takes (h : i.ObeysClose id payout a r o e) :
    i.Takes [⟨e.txid, 0⟩, ⟨a.txid, 1⟩, ⟨id, 0⟩] :=
  ⟨forall_getElem?_cons.2 ⟨h.baton.spends, forall_getElem?_cons.2 ⟨h.deposit,
    forall_getElem?_cons.2 ⟨h.marker, nofun⟩⟩⟩, h.inputs⟩

theorem ObeysClose.puts (h : i.ObeysClose id payout a r o e) : i.Puts [] :=
  ⟨nofun, h.outputs⟩

theorem ObeysDispute.takes (h : i.ObeysDispute d a e) : i.Takes [⟨e.txid, 0⟩] :=
  ⟨forall_getElem?_cons.2 ⟨h.baton.spends, nofun⟩, h.inputs⟩

theorem ObeysDispute.puts (h : i.ObeysDispute d a e) :
    i.Puts [(.exactly a.offer.disputeFee, eventLock a.offerId)] :=
  ⟨forall_getElem?_cons.2 ⟨h.fee, nofun⟩, h.outputs⟩

theorem ObeysStopDispute.takes (h : i.ObeysStopDispute id memo a d) : i.Takes [⟨id, 0⟩] :=
  ⟨forall_getElem?_cons.2 ⟨h.baton, nofun⟩, h.inputs⟩

theorem ObeysStopDispute.puts (h : i.ObeysStopDispute id memo a d) :
    i.Puts [(.exactly i.params.markerValue, eventLock a.offerId)] :=
  ⟨forall_getElem?_cons.2 ⟨h.passed, nofun⟩, h.outputs⟩

theorem ObeysResolve.takes (h : i.ObeysResolve id payout memo a d p) :
    i.Takes [⟨id, 0⟩, ⟨a.txid, 1⟩] :=
  ⟨forall_getElem?_cons.2 ⟨h.baton, forall_getElem?_cons.2 ⟨h.deposit, nofun⟩⟩, h.inputs⟩

theorem ObeysResolve.puts (h : i.ObeysResolve id payout memo a d p) : i.Puts [] :=
  ⟨nofun, h.outputs⟩

end

end Inspection

/-- What is made under the rules is found in every later ledger. -/
theorem Enacted.prevout? {validators : List Validator} {params : Params} {l before : Ledger}
    {tx : Transaction} {spent : List Output} {op : Operation}
    (h : Enacted validators params l before tx spent op) (hl : l.Sound) (vout : UInt32)
    {rule : ValueRule} {lock : Lock}
    (hmakes : (⟨before, params, tx, spent⟩ : Inspection).Makes vout.toNat rule lock) :
    ∃ out, l.prevout? ⟨tx.txid, vout⟩ = some out ∧ out.lock = lock ∧ rule.Allows out.value := by
  obtain ⟨out, hout, hlock, hvalue⟩ := hmakes.getElem?
  obtain ⟨r, hr, htx⟩ := h.record? hl
  exact ⟨out, Ledger.prevout?_eq_some_iff.2 ⟨r, hr, htx ▸ hout⟩, hlock, hvalue⟩

end Escrow
