import Escrow.Proofs.Agreement.Draft.Funding
import Escrow.Proofs.Agreement.Layout

/-!
# What the host says of drafts

A drafted transaction that its drafter has signed passes everything that the host
asks of all transactions: it spends outputs that exist, are unspent and are
different ones, each signed by a key that its lock allows; it is not recorded yet;
and what it makes comes to exactly what it spends less the fee. Of the contracts
only that of agreements is involved. So the host admits the transaction if and only
if it obeys the rules of its operation (`Drafter.check_signWith_iff`).

This takes for granted what is believed of the signatures, hashes and addresses
used (`Unbroken`), and that the plan takes outputs from escrow that are there to be
taken (`Plan.Fits`).
-/

namespace Escrow

/-- What is believed of a transaction and a ledger, as a matter of cryptography: the
    signatures for its inputs hold, by the global key where there is one already and
    by a key pair elsewhere; its id is that of no other recorded transaction; and the
    address of the key is that of no other lock. -/
structure Unbroken (l : Ledger) (kp : KeyPair) (tx : Transaction) : Prop where
  signs : ∀ (vin : Nat) (i : Input), tx.inputs[vin]? = some i →
    (if i.witness.isSome then KeyPair.global else kp).Signs (tx.sighash vin)
  hash : ∀ r ∈ l.records, r.tx.txid = tx.txid → r.tx.wire false = tx.wire false
  address : ∀ c ∈ l.outputs, Address.ofLock? c.output.lock = some (.ofKey kp.publicKey) →
    c.output.lock = .key kp.publicKey

/-- A plan takes different unspent outputs from escrow, which the global key may
    sign for; it pays to keys or into escrow; and its payload can be read. -/
structure Plan.Fits (l : Ledger) (params : Params) (p : Plan) (outs : List Output) : Prop where
  prevouts : p.spends.map l.prevout? = outs.map some
  nodup : p.spends.Nodup
  unspent : ∀ o ∈ p.spends, l.spentBy? o = none
  escrow : ∀ out ∈ outs, out.lock.isEscrow ∧ out.lock.authorizes KeyPair.global.publicKey
  released : p.released.toInt = Output.total outs
  pays : Output.NonNegative p.pays
  locks : ∀ out ∈ p.pays, out.lock.isEscrow ∨ ∃ k, out.lock = .key k
  length : p.operation.encode.length ≤ params.maxPayload
  decodes : Payload.decode p.operation.encode = .ok ⟨payloadVersion, p.operation⟩

/-- A transaction under inspection carries out a plan of a key, which is a point and
    signs it. -/
structure Inspection.Completes (i : Inspection) (p : Plan) (key : PublicKey) : Prop where
  isValid : key.isValid
  takes : i.Takes p.spends
  prevouts : i.tx.spends.map i.ledger.prevout? = i.spent.map some
  makes : ∀ (vout : Nat) (out : Output), p.pays[vout]? = some out → i.made[vout]? = some out
  rest : i.MakesNoEscrowFrom p.pays.length
  signed : i.Signed (.key key)
  summed : ∀ k, i.Summed (.key k)

/-- A lock is one of a single contract. -/
theorem Lock.isOf_unique {lock : Lock} {code code' : UInt8} (h : lock.isOf code)
    (h' : lock.isOf code') : code = code' := by
  obtain ⟨c, hc, rfl⟩ := Lock.isOf_iff.1 h
  obtain ⟨c', hc', rfl⟩ := Lock.isOf_iff.1 h'
  rw [Option.some.inj (hc.symm.trans hc')]

theorem Lock.data?_of_isEscrow {lock : Lock} (h : lock.isEscrow) : lock.data? = none := by
  rcases lock with k | c | data
  · rfl
  · rfl
  · cases h

namespace Drafter

variable {validators : List Validator} {params : Params} {l : Ledger} {kp : KeyPair} {p : Plan}
  {tx : Transaction} {outs : List Output} {picked : List Coin} {change : Amount}

/-! ## The coins of a drafter -/

/-- The coins are the unspent outputs at the address of the key, less those that a plan
    takes. -/
theorem coins_perm (d : Drafter) (os : List Outpoint) :
    (d.coins os).Perm
      ((d.ledger.unspentAt (.ofKey d.key)).filter fun c => !os.contains c.outpoint) :=
  Coin.confirmedFirst_perm _

/-- A coin is an output of the drafter's key that can be spent, besides those taken
    from escrow. -/
theorem prevout?_of_mem_coins (hl : l.Sound) (hn : l.Nameable) (hu : Unbroken l kp tx) {c : Coin}
    {os : List Outpoint} (hc : c ∈ (⟨l, params, kp.publicKey⟩ : Drafter).coins os) :
    l.prevout? c.outpoint = some ⟨c.value, .key kp.publicKey⟩ ∧ l.spentBy? c.outpoint = none ∧
      c.outpoint ∉ os := by
  rw [(coins_perm _ os).mem_iff, List.mem_filter] at hc
  obtain ⟨hc, hos⟩ := hc
  obtain ⟨⟨out, hout, haddress, hvalue⟩, hunspent⟩ :=
    Ledger.exists_prevout_of_mem_unspentAt hl hn hc
  have hmem : (⟨c.outpoint.txid, c.outpoint.vout.toNat, out⟩ : Holding) ∈ l.outputs :=
    hl.mem_outputs_of_holding? (Ledger.holding?_eq_some_iff.2 ⟨rfl, rfl, hout⟩)
  refine ⟨?_, hunspent, by simpa using hos⟩
  rw [hout, ← hvalue, ← hu.address _ hmem haddress]

theorem nodup_coins (hl : l.Sound) (hn : l.Nameable) (os : List Outpoint) :
    (((⟨l, params, kp.publicKey⟩ : Drafter).coins os).map Coin.outpoint).Nodup := by
  rw [((coins_perm _ os).map Coin.outpoint).nodup_iff]
  exact (List.filter_sublist.map Coin.outpoint).nodup (Ledger.nodup_unspentAt hl hn)

/-! ## A signed draft -/

section
variable (hl : Reachable validators l) (hn : l.Nameable)
  (hfunds : (⟨l, params, kp.publicKey⟩ : Drafter).Funds p picked change)
  (hu : Unbroken l kp ((⟨l, params, kp.publicKey⟩ : Drafter).assemble p picked change))
include hl hn hfunds hu

theorem prevout?_of_mem_picked {c : Coin} (hc : c ∈ picked) :
    l.prevout? c.outpoint = some ⟨c.value, .key kp.publicKey⟩ ∧ l.spentBy? c.outpoint = none ∧
      c.outpoint ∉ p.spends :=
  prevout?_of_mem_coins hl.sound hn hu (hfunds.sublist.subset hc)

/-- The inputs from escrow are signed with the global key and the others with the
    drafter's. -/
theorem getElem?_inputs_signWith (n : Nat) :
    (((⟨l, params, kp.publicKey⟩ : Drafter).assemble p picked change).signWith l kp).1.inputs[n]? =
      (p.spends ++ picked.map Coin.outpoint)[n]?.map fun o =>
        ⟨o, some ((if n < p.spends.length then KeyPair.global else kp).witness
          (((⟨l, params, kp.publicKey⟩ : Drafter).layout p picked change).sighash n))⟩ := by
  rw [Transaction.getElem?_inputs_signWith, getElem?_inputs_assemble, Option.map_map,
    Transaction.sighash_eq_of_unsigned (unsigned_assemble ..)]
  refine Option.map_congr fun o ho => ?_
  rw [Function.comp_apply]
  by_cases hlt : n < p.spends.length
  · simp [hlt]
  · -- The outpoint is that of a coin, which the drafter's key may sign for.
    rw [List.getElem?_append_right (Nat.not_lt.1 hlt), List.getElem?_map] at ho
    obtain ⟨c, hc, rfl⟩ := Option.map_eq_some_iff.1 ho
    obtain ⟨hprevout, -, -⟩ :=
      prevout?_of_mem_picked hl hn hfunds hu (List.mem_of_getElem? hc)
    simp [hlt, hprevout, Lock.authorizes]

end

end Drafter

/-- A transaction is the signed draft of a plan, which takes some outputs from
    escrow and some coins of its drafter. -/
structure SignedDraft (l : Ledger) (params : Params) (kp : KeyPair) (p : Plan) (outs : List Output)
    (picked : List Coin) (change : Amount) (tx : Transaction) : Prop where
  fits : p.Fits l params outs
  funds : (⟨l, params, kp.publicKey⟩ : Drafter).Funds p picked change
  coins : ∀ c ∈ picked, l.prevout? c.outpoint = some ⟨c.value, .key kp.publicKey⟩ ∧
    l.spentBy? c.outpoint = none ∧ c.outpoint ∉ p.spends
  nodup : (picked.map Coin.outpoint).Nodup
  inputs : ∀ n : Nat, tx.inputs[n]? = (p.spends ++ picked.map Coin.outpoint)[n]?.map fun o =>
    ⟨o, some ((if n < p.spends.length then KeyPair.global else kp).witness (tx.sighash n))⟩
  outputs : tx.outputs = p.pays ++ (⟨l, params, kp.publicKey⟩ : Drafter).returned change ++
    [⟨0, .data p.operation.encode⟩]
  signs : ∀ vin < tx.inputs.length,
    (if vin < p.spends.length then KeyPair.global else kp).Signs (tx.sighash vin)
  nonNegative : Output.NonNegative outs ∧ ∀ c ∈ picked, 0 ≤ c.value.toInt
  fee_pos : 0 < params.txFee.toInt

namespace SignedDraft

variable {l : Ledger} {params : Params} {kp : KeyPair} {p : Plan} {outs : List Output}
  {picked : List Coin} {change : Amount} {tx : Transaction}

/-- The outputs that are spent: those from escrow and the coins. -/
def spent (kp : KeyPair) (outs : List Output) (picked : List Coin) : List Output :=
  outs ++ picked.map fun c => ⟨c.value, .key kp.publicKey⟩

variable (h : SignedDraft l params kp p outs picked change tx)
include h

theorem spends_eq : tx.spends = p.spends ++ picked.map Coin.outpoint := by
  refine List.ext_getElem? fun n => ?_
  rw [Transaction.spends, List.getElem?_map, h.inputs, Option.map_map]
  exact Option.map_id'

theorem length_outs : p.spends.length = outs.length := by
  simpa using congrArg List.length h.fits.prevouts

theorem prevouts : tx.spends.map l.prevout? = (spent kp outs picked).map some := by
  rw [h.spends_eq, spent, List.map_append, List.map_append, h.fits.prevouts, List.map_map,
    List.map_map]
  congr 1
  exact List.map_congr_left fun c hc => (h.coins c hc).1

theorem nodup_spends : tx.spends.Nodup := by
  rw [h.spends_eq, List.nodup_append]
  refine ⟨h.fits.nodup, h.nodup, fun o ho o' ho' heq => ?_⟩
  -- The drafter leaves out of their coins what the plan spends.
  obtain ⟨c, hc, rfl⟩ := List.mem_map.1 ho'
  exact (h.coins c hc).2.2 (heq ▸ ho)

theorem unspent {o : Outpoint} (ho : o ∈ tx.spends) : l.spentBy? o = none := by
  rw [h.spends_eq, List.mem_append] at ho
  rcases ho with ho | ho
  · exact h.fits.unspent o ho
  · obtain ⟨c, hc, rfl⟩ := List.mem_map.1 ho
    exact (h.coins c hc).2.1

/-- What is spent is an output from escrow or, behind those, one of the drafter. -/
theorem getElem?_spent {vin : Nat} {out : Output} (hout : (spent kp outs picked)[vin]? = some out) :
    (vin < p.spends.length ∧ out.lock.isEscrow ∧
        out.lock.authorizes KeyPair.global.publicKey) ∨
      (¬vin < p.spends.length ∧ out.lock = .key kp.publicKey) := by
  rw [spent, List.getElem?_append] at hout
  rw [h.length_outs]
  split at hout
  · rename_i hlt
    exact .inl ⟨hlt, h.fits.escrow out (List.mem_of_getElem? hout)⟩
  · rename_i hlt
    rw [List.getElem?_map] at hout
    obtain ⟨c, -, rfl⟩ := Option.map_eq_some_iff.1 hout
    exact .inr ⟨hlt, rfl⟩

/-- Every input may spend what it does. -/
theorem spendable {vin : Nat} {i : Input} (hi : tx.inputs[vin]? = some i) :
    ∃ out, (spent kp outs picked)[vin]? = some out ∧ l.Spendable tx vin i out := by
  have hsigns := h.signs vin (List.getElem?_eq_some_iff.1 hi).1
  have hmem : i.prevout ∈ tx.spends := List.mem_map_of_mem (List.mem_of_getElem? hi)
  have hprevouts := congrArg (·[vin]?) h.prevouts
  simp only [Transaction.spends, List.getElem?_map, hi, Option.map_some] at hprevouts
  obtain ⟨out, hout, hprevout⟩ := Option.map_eq_some_iff.1 hprevouts.symm
  obtain ⟨o, -, hwitness⟩ := Option.map_eq_some_iff.1 ((h.inputs vin).symm.trans hi)
  have hwitness := congrArg Input.witness hwitness.symm
  -- The global key signs for escrow, and the drafter for the coins.
  rcases h.getElem?_spent hout with ⟨hlt, hescrow, hauthorizes⟩ | ⟨hlt, hlock⟩
  · rw [if_pos hlt] at hwitness hsigns
    exact ⟨out, hout, hprevout.symm, Lock.data?_of_isEscrow hescrow, h.unspent hmem, _, hwitness,
      hauthorizes, hsigns⟩
  · rw [if_neg hlt] at hwitness hsigns
    exact ⟨out, hout, hprevout.symm, by rw [hlock]; rfl, h.unspent hmem, _, hwitness,
      by rw [hlock]; exact decide_eq_true rfl, hsigns⟩

theorem forall₂_spendable :
    List.Forall₂ (fun p out => l.Spendable tx p.2 p.1 out) tx.inputs.zipIdx
      (spent kp outs picked) := by
  have hlength : tx.inputs.length = (spent kp outs picked).length := by
    simpa [Transaction.spends] using congrArg List.length h.prevouts
  refine List.forall₂_iff_get.2 ⟨by rw [List.length_zipIdx, hlength], fun n hn hn' => ?_⟩
  rw [List.length_zipIdx] at hn
  obtain ⟨out, hout, hspendable⟩ := h.spendable (List.getElem?_eq_getElem hn)
  obtain ⟨hlt, heq⟩ := List.getElem?_eq_some_iff.1 hout
  rw [← heq] at hspendable
  simpa using hspendable

/-! ### Values -/

/-- What is spent is worth the coins and what is released. -/
theorem total_spent :
    Output.total (spent kp outs picked) = Coin.total picked + p.released.toInt := by
  rw [spent, Output.total_append, h.fits.released, Int.add_comm]
  congr 1
  rw [Output.total, List.map_map]
  rfl

theorem nonNegative_spent : Output.NonNegative (spent kp outs picked) := by
  intro out hout
  rcases List.mem_append.1 hout with hout | hout
  · exact h.nonNegative.1 out hout
  · obtain ⟨c, hc, rfl⟩ := List.mem_map.1 hout
    exact h.nonNegative.2 c hc

/-- What is made is worth what the plan pays and the change. -/
theorem total_outputs : Output.total tx.outputs = Output.total p.pays + change.toInt := by
  have hpayload : Output.total [⟨0, .data p.operation.encode⟩] = 0 := rfl
  rw [h.outputs, Output.total_append, Output.total_append,
    Drafter.total_returned h.funds.change_nonneg, hpayload, Int.add_zero]

theorem nonNegative_outputs : Output.NonNegative tx.outputs := by
  intro out hout
  rw [h.outputs, List.mem_append, List.mem_append, Drafter.returned] at hout
  rcases hout with (hout | hout) | hout
  · exact h.fits.pays out hout
  · split at hout
    · rw [List.mem_singleton] at hout
      subst hout
      exact h.funds.change_nonneg
    · cases hout
  · rw [List.mem_singleton] at hout
    subst hout
    exact Int.le_refl 0

/-- The transaction makes what it spends less the fee. -/
theorem total_spent_eq :
    Output.total (spent kp outs picked) = Output.total tx.outputs + params.txFee.toInt := by
  rw [h.total_spent, h.total_outputs]
  exact h.funds.balance

theorem checkValues : tx.checkValues (spent kp outs picked) = .ok () := by
  have heq := h.total_spent_eq
  have hfee := h.fee_pos
  exact (checkValues_eq_ok_iff h.nonNegative_spent).2 ⟨h.nonNegative_outputs, .inl (by omega)⟩

/-- What is left over is the fee that the rules ask for. -/
theorem checkFee :
    (⟨l, params, tx, spent kp outs picked⟩ : Inspection).checkFee = .ok () := by
  have heq := h.total_spent_eq
  have hfee := h.fee_pos
  have hle := h.funds.le_greatest
  rw [← h.total_spent] at hle
  have hnonneg := Output.total_nonneg h.nonNegative_outputs
  -- All sums stay within the range of amounts, as the coins and what is released do.
  obtain ⟨inputs, hinputs⟩ := Amount.exists_toInt_eq (n := Output.total (spent kp outs picked))
    (by omega) hle
  obtain ⟨outputs, houtputs⟩ := Amount.exists_toInt_eq (n := Output.total tx.outputs) hnonneg
    (by omega)
  have hneeded : outputs.add? params.txFee = some inputs :=
    Amount.add?_eq_some_iff.2 (by rw [hinputs, houtputs, heq])
  rw [← Output.total?_eq_some_iff h.nonNegative_spent] at hinputs
  rw [← Output.total?_eq_some_iff h.nonNegative_outputs] at houtputs
  exact Inspection.checkFee_eq_ok_iff.2 ⟨findIdx?_negative_eq_none_iff.2 h.nonNegative_outputs,
    inputs, outputs, inputs, hinputs, houtputs, hneeded, Int64.le_refl inputs⟩

/-! ### What the rules ask of it -/

/-- Besides its payload the transaction makes what the plan pays and the change. -/
theorem made_eq :
    (⟨l, params, tx, spent kp outs picked⟩ : Inspection).made =
      p.pays ++ (⟨l, params, kp.publicKey⟩ : Drafter).returned change := by
  rw [Inspection.made, h.outputs, List.dropLast_concat]

theorem drop_spent :
    (spent kp outs picked).drop p.spends.length =
      picked.map fun c => ⟨c.value, .key kp.publicKey⟩ := by
  rw [spent, h.length_outs, List.drop_left]

/-- The outputs of the drafter are the coins. -/
theorem spentOf_eq :
    (⟨l, params, tx, spent kp outs picked⟩ : Inspection).spentOf kp.publicKey =
      picked.map fun c => ⟨c.value, .key kp.publicKey⟩ := by
  rw [Inspection.spentOf, spent, List.filter_append, List.filter_eq_nil_iff.2,
    List.nil_append, List.filter_eq_self.2]
  · intro out hout
    obtain ⟨c, -, rfl⟩ := List.mem_map.1 hout
    exact decide_eq_true rfl
  · -- What is in escrow is not locked with a key alone.
    intro out hout hkey
    have hescrow := (h.fits.escrow out hout).1
    rw [of_decide_eq_true hkey] at hescrow
    cases hescrow

/-- What is spent of any key has a sum. -/
theorem summed (k : PublicKey) :
    (⟨l, params, tx, spent kp outs picked⟩ : Inspection).Summed (.key k) := by
  have hnonneg := h.nonNegative_spent
  have hmax := h.funds.le_greatest
  rw [← h.total_spent] at hmax
  obtain ⟨total, htotal, -⟩ := Output.exists_total?_filter hnonneg hmax fun out => out.lock = .key k
  exact ⟨k, total, rfl, htotal⟩

/-- The drafter signs, in the words of the rules. -/
theorem signed :
    (⟨l, params, tx, spent kp outs picked⟩ : Inspection).Signed (.key kp.publicKey) := by
  obtain ⟨k, total, hk, htotal⟩ := h.summed kp.publicKey
  cases hk
  refine ⟨_, total, rfl, htotal, ?_⟩
  -- What is spent of the drafter's covers the fee.
  have hvalues : (picked.map fun c => (⟨c.value, .key kp.publicKey⟩ : Output)).map Output.value =
      picked.map Coin.value := by
    rw [List.map_map]
    rfl
  rw [h.spentOf_eq, hvalues, Coin.total?_eq_some_iff h.nonNegative.2] at htotal
  rw [Int64.lt_iff_toInt_lt, htotal]
  exact Int.lt_of_lt_of_le h.fee_pos h.funds.fee_le

/-- The key of the drafter is a point, as the signature for the first coin holds. -/
theorem isValid : kp.publicKey.isValid := by
  have hlength := congrArg List.length h.spends_eq
  rw [Transaction.spends, List.length_map, List.length_append, List.length_map] at hlength
  have hpos := List.length_pos_of_ne_nil h.funds.ne_nil
  have hsigns := h.signs p.spends.length (by omega)
  rw [if_neg (Nat.lt_irrefl _)] at hsigns
  exact PublicKey.isValid_of_verify hsigns

/-- The transaction carries out the plan. -/
theorem completes :
    (⟨l, params, tx, spent kp outs picked⟩ : Inspection).Completes p kp.publicKey where
  isValid := h.isValid
  takes := by
    refine ⟨fun vin o ho => ?_, fun out hout => ?_⟩
    · rw [h.spends_eq, List.getElem?_append_left (List.getElem?_eq_some_iff.1 ho).1, ho]
    · rw [h.drop_spent] at hout
      obtain ⟨c, -, rfl⟩ := List.mem_map.1 hout
      intro hescrow
      cases hescrow
  prevouts := h.prevouts
  makes vout out hout := by
    rw [h.made_eq, List.getElem?_append_left (List.getElem?_eq_some_iff.1 hout).1, hout]
  rest out hout := by
    rw [h.made_eq, List.drop_left, Drafter.returned] at hout
    split at hout
    · rw [List.mem_singleton] at hout
      subst hout
      intro hescrow
      cases hescrow
    · cases hout
  signed := h.signed
  summed := h.summed

/-- The transaction carries the operation of the plan as its only payload. -/
theorem carries : tx.Carries params ⟨payloadVersion, p.operation⟩ where
  data := by
    refine ⟨p.operation.encode, ?_, h.fits.length, h.fits.decodes⟩
    rw [Transaction.payload?, h.outputs, List.getLast?_concat]
    rfl
  only out hout := by
    rw [h.outputs, List.dropLast_concat, List.mem_append, Drafter.returned] at hout
    rcases hout with hout | hout
    · rcases h.fits.locks out hout with hescrow | ⟨k, hkey⟩
      · exact Lock.data?_of_isEscrow hescrow
      · rw [hkey]
        rfl
    · split at hout
      · rw [List.mem_singleton.1 hout]
        rfl
      · cases hout
  version := rfl

/-- No other contract than that of agreements is involved. -/
theorem eq_of_mem_codes {validators : List Validator} {code : UInt8}
    (hcode : code ∈ Host.codes ⟨l, validators⟩ tx (spent kp outs picked)) : code = evalCode := by
  have hkey : ∀ k, ¬(Lock.key k).isOf code := fun _ => nofun
  -- A contract is involved by an output spent or made, or by the payload.
  rcases Host.mem_codes_iff.1 hcode with ⟨out, hout, hof⟩ | ⟨hhead, -⟩
  · rw [List.mem_append, spent, List.mem_append, h.outputs, List.mem_append, List.mem_append,
      Drafter.returned] at hout
    -- Spent are outputs in escrow and coins; made are the payments, the change and the payload.
    rcases hout with (hout | hout) | (hout | hout) | hout
    · exact Lock.isOf_unique hof (h.fits.escrow out hout).1
    · obtain ⟨c, -, rfl⟩ := List.mem_map.1 hout
      exact absurd hof (hkey _)
    · rcases h.fits.locks out hout with hescrow | ⟨k, hlock⟩
      · exact Lock.isOf_unique hof hescrow
      · rw [hlock] at hof
        exact absurd hof (hkey k)
    · split at hout
      · rw [List.mem_singleton.1 hout] at hof
        exact absurd hof (hkey _)
      · cases hout
    · rw [List.mem_singleton.1 hout] at hof
      cases hof
  · obtain ⟨data, hdata, -, hdecode⟩ := h.carries.data
    rw [hdata, Option.bind_some, head?_of_decode hdecode] at hhead
    exact (Option.some.inj hhead).symm

/-! ### Admission -/

/-- The host admits the transaction if and only if it obeys the rules of its
    operation. -/
theorem check_iff {validators : List Validator} (hv : KeepsRules validators params)
    (hfresh : l.record? tx.txid = none) :
    (⟨l, validators⟩ : Host).check tx = .ok tx.txid ↔
      (⟨l, params, tx, spent kp outs picked⟩ : Inspection).Obeys p.operation := by
  rw [Host.check_eq_ok_iff]
  refine ⟨?_, fun hobeys => ⟨rfl, spent kp outs picked, ?_⟩⟩
  · rintro ⟨-, spent', ha⟩
    have hvalid := ha.validate hv (mem_codes_of_operation? hv h.carries.operation?)
    obtain ⟨p', spent'', hp', hspent, -, hobeys⟩ := validate_eq_ok_iff.1 hvalid
    -- There is one payload, and there is one list of outputs spent.
    obtain rfl : spent'' = spent kp outs picked :=
      List.map_injective_iff.2 (fun _ _ => Option.some.inj) (hspent.symm.trans h.prevouts)
    have hop := hp'.operation?.symm.trans h.carries.operation?
    rwa [Option.some.inj hop] at hobeys
  · refine ⟨fun hnil => ?_, fun hnil => ?_, hfresh, h.forall₂_spendable, h.nodup_spends,
      h.checkValues, fun code hcode => ?_⟩
    · have hspends := h.spends_eq
      rw [Transaction.spends, hnil, List.map_nil] at hspends
      have hpicked := (List.append_eq_nil_iff.1 hspends.symm).2
      exact h.funds.ne_nil (List.map_eq_nil_iff.1 hpicked)
    · have houtputs := h.outputs
      rw [hnil] at houtputs
      exact List.append_ne_nil_of_right_ne_nil _ (List.cons_ne_nil _ _) houtputs.symm
    · rw [h.eq_of_mem_codes hcode]
      have hv : Host.validator? ⟨l, validators⟩ evalCode = some (agreements params) := hv
      have hvalid : validate l params tx = .ok () :=
        validate_eq_ok_iff.2 ⟨_, _, h.carries, h.prevouts, h.checkFee, hobeys⟩
      have hjudge : (agreements params).judge l tx = .ok () := mapError_eq_ok_iff.2 hvalid
      rw [Host.judge, hv]
      simp only [hjudge]

/-- No recorded transaction has the same id, as none spends the same output first. -/
theorem record?_eq_none
    (hhash : ∀ r ∈ l.records, r.tx.txid = tx.txid → r.tx.wire false = tx.wire false)
    (hl : l.Sound) : l.record? tx.txid = none := by
  rw [Ledger.record?_eq_none_iff]
  intro r hr hid
  have hwire := hhash r hr ((hl.txid_eq r hr).symm.trans hid)
  have hne : tx.spends ≠ [] := by
    rw [h.spends_eq]
    exact List.append_ne_nil_of_right_ne_nil _ (List.map_eq_nil_iff.not.2 h.funds.ne_nil)
  have hhead := List.head?_eq_some_head hne
  have hunspent := Ledger.spentBy?_eq_none_iff.1 (h.unspent (List.mem_of_head? hhead))
  rw [← Transaction.head?_spends_eq_of_wire_eq hwire] at hhead
  exact hunspent (Ledger.mem_spends.2 ⟨r, hr, List.mem_of_head? hhead⟩)

end SignedDraft

/-! ## Drafts that are signed -/

theorem Params.fee_pos {params : Params} (h : params.check = .ok ()) : 0 < params.txFee := by
  simp only [check, throw_bind, ite_throw_eq_ok_iff] at h
  exact Int64.not_le.1 h.1

theorem Params.marker_pos {params : Params} (h : params.check = .ok ()) :
    0 < params.markerValue := by
  simp only [check, throw_bind, ite_throw_eq_ok_iff] at h
  exact Int64.not_le.1 h.2.1

section
variable {validators : List Validator} {params : Params} {l : Ledger} {kp : KeyPair} {p : Plan}
  {tx : Transaction} {outs : List Output} {picked : List Coin} {change : Amount}
variable (hl : Reachable validators l) (hn : l.Nameable) (hparams : params.check = .ok ())
  (hfits : p.Fits l params outs)
include hl hn hparams hfits

/-- A plan that has its funds is a signed draft once the drafter has signed it. -/
theorem SignedDraft.of_funds (hfunds : (⟨l, params, kp.publicKey⟩ : Drafter).Funds p picked change)
    (hu : Unbroken l kp ((⟨l, params, kp.publicKey⟩ : Drafter).assemble p picked change)) :
    SignedDraft l params kp p outs picked change
      (((⟨l, params, kp.publicKey⟩ : Drafter).assemble p picked change).signWith l kp).1 := by
  have hcoins := fun c => Drafter.prevout?_of_mem_picked hl hn hfunds hu (c := c)
  have hsigned := Transaction.unsigned_signWith
    ((⟨l, params, kp.publicKey⟩ : Drafter).assemble p picked change) l kp
  have hlayout := hsigned.trans (Drafter.unsigned_assemble ..)
  refine ⟨hfits, hfunds, hcoins, ?_, fun n => ?_, ?_, fun vin hvin => ?_, ⟨?_, ?_⟩, ?_⟩
  · exact (hfunds.sublist.map Coin.outpoint).nodup (Drafter.nodup_coins hl.sound hn _)
  · rw [Drafter.getElem?_inputs_signWith hl hn hfunds hu,
      Transaction.sighash_eq_of_unsigned hlayout]
  · exact Transaction.outputs_eq_of_unsigned hlayout
  · have hlength := congrArg List.length (Transaction.spends_eq_of_unsigned hsigned)
    rw [Transaction.spends, Transaction.spends, List.length_map, List.length_map] at hlength
    have hi := List.getElem?_eq_getElem (hlength ▸ hvin)
    have hsigns := hu.signs vin _ hi
    rw [Drafter.getElem?_inputs_assemble] at hi
    obtain ⟨o, -, ho⟩ := Option.map_eq_some_iff.1 hi
    rw [Transaction.sighash_eq_of_unsigned hsigned]
    -- The inputs from escrow were signed when the draft was made; the rest is signed now.
    by_cases hlt : vin < p.spends.length
    · simp only [← ho, hlt, if_true, Option.isSome_some] at hsigns
      rwa [if_pos hlt]
    · simp only [← ho, hlt, if_false, Option.isSome_none, Bool.false_eq_true] at hsigns
      rwa [if_neg hlt]
  · intro out hout
    have hmem := List.mem_map_of_mem (f := some) hout
    rw [← hfits.prevouts] at hmem
    obtain ⟨o, -, ho⟩ := List.mem_map.1 hmem
    exact hl.nonNegative_prevout ho
  · intro c hc
    exact hl.nonNegative_prevout (hcoins c hc).1
  · exact Int64.lt_iff_toInt_lt.1 (Params.fee_pos hparams)

/-- A plan that is completed is a signed draft once the drafter has signed it, and
    is not recorded. -/
theorem Drafter.exists_signedDraft
    (hfinish : (⟨l, params, kp.publicKey⟩ : Drafter).finish p = .ok tx) (hu : Unbroken l kp tx) :
    ∃ picked change, SignedDraft l params kp p outs picked change (tx.signWith l kp).1 ∧
      l.record? tx.txid = none := by
  have hcoins : ∀ c ∈ (⟨l, params, kp.publicKey⟩ : Drafter).coins p.spends,
      0 ≤ c.value.toInt := fun c hc =>
    hl.nonNegative_prevout (prevout?_of_mem_coins hl.sound hn hu hc).1
  obtain ⟨picked, change, hfunds, rfl⟩ := exists_funds_of_finish hcoins hfits.pays hfinish
  have hdraft := SignedDraft.of_funds hl hn hparams hfits hfunds hu
  have hsigned := Transaction.unsigned_signWith
    ((⟨l, params, kp.publicKey⟩ : Drafter).assemble p picked change) l kp
  refine ⟨picked, change, hdraft, ?_⟩
  rw [← Transaction.txid_eq_of_unsigned hsigned]
  refine hdraft.record?_eq_none (fun r hr hid => ?_) hl.sound
  rw [Transaction.wire_eq_of_unsigned hsigned]
  rw [Transaction.txid_eq_of_unsigned hsigned] at hid
  exact hu.hash r hr hid

/-- A plan that is completed and signed is carried out, and the host admits it if
    and only if it obeys the rules of its operation. -/
theorem Drafter.check_signWith_iff (hv : KeepsRules validators params)
    (hfinish : (⟨l, params, kp.publicKey⟩ : Drafter).finish p = .ok tx) (hu : Unbroken l kp tx) :
    ∃ spent, (⟨l, params, (tx.signWith l kp).1, spent⟩ : Inspection).Completes p kp.publicKey ∧
      ((⟨l, validators⟩ : Host).check (tx.signWith l kp).1 = .ok tx.txid ↔
        (⟨l, params, (tx.signWith l kp).1, spent⟩ : Inspection).Obeys p.operation) := by
  obtain ⟨picked, change, hdraft, hfresh⟩ := exists_signedDraft hl hn hparams hfits hfinish hu
  have hid := Transaction.txid_eq_of_unsigned (Transaction.unsigned_signWith tx l kp)
  rw [← hid] at hfresh ⊢
  exact ⟨_, hdraft.completes, hdraft.check_iff hv hfresh⟩

end

end Escrow
