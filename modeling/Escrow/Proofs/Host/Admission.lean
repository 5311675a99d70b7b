import Escrow.Host
import Escrow.Proofs.Checks
import Escrow.Proofs.Ledger.Records

/-!
# Admission

What it takes for a host to admit a transaction (`check_eq_ok_iff`): every input
spends an output that exists, that nothing has spent and that its witness may
spend (`Ledger.Spendable`), no two inputs the same; the values are right; and
every contract involved agrees. A contract is involved if a condition of its eval
code locks an output that is spent or made, or if the payload starts with its
code (`mem_codes_iff`).

A sound ledger stays sound with such a transaction (`Admits.sound`).
-/

namespace Escrow

/-- The input at a position may spend an output. -/
structure Ledger.Spendable (l : Ledger) (tx : Transaction) (vin : Nat) (i : Input) (out : Output) :
    Prop where
  prevout : l.prevout? i.prevout = some out
  not_data : out.lock.data? = none
  unspent : l.spentBy? i.prevout = none
  signed : ∃ w, i.witness = some w ∧ out.lock.authorizes w.key ∧
    w.key.verify (tx.sighash vin) w.signature = .ok ()

namespace Ledger

variable {l : Ledger} {tx : Transaction} {vin : Nat} {before : List Outpoint}

/-- An input passes if its output is not spent by an input before it, and may be spent by
    this one. -/
theorem checkInput_eq_ok_iff {i : Input} {out : Output} :
    l.checkInput tx vin before i = .ok out ↔ i.prevout ∉ before ∧ l.Spendable tx vin i out := by
  constructor
  · intro h
    simp only [checkInput, throw_bind, ite_throw_eq_ok_iff, List.contains_iff_mem] at h
    obtain ⟨hbefore, h⟩ := h
    -- The check looks for the output, for its spender and for the witness, and goes on with
    -- what it finds. Each of these has one good answer.
    cases hout : l.prevout? i.prevout with
    | none => simp [hout, throw_ne_ok] at h
    | some out' =>
      simp only [hout, ite_throw_eq_ok_iff] at h
      obtain ⟨hdata, h⟩ := h
      cases hspent : l.spentBy? i.prevout with
      | some p => simp [hspent, throw_ne_ok] at h
      | none =>
        simp only [hspent] at h
        cases hw : i.witness with
        | none => simp [hw, throw_ne_ok] at h
        | some w =>
          simp only [hw, ite_throw_eq_ok_iff] at h
          obtain ⟨hauth, h⟩ := h
          obtain ⟨_, hsig, h⟩ := bind_eq_ok_iff.1 h
          rw [mapError_eq_ok_iff] at hsig
          cases h
          exact ⟨hbefore, hout, by simpa using hdata, hspent, w, hw, by simpa using hauth, hsig⟩
  · rintro ⟨hbefore, hout, hdata, hspent, w, hw, hauth, hsig⟩
    simp only [checkInput, throw_bind, ite_throw_eq_ok_iff, List.contains_iff_mem, hout, hspent, hw,
      bind_eq_ok_iff, exists_unit_iff, mapError_eq_ok_iff, pure_eq_ok_iff]
    exact ⟨hbefore, by simp [hdata], by simp [hauth], hsig, trivial⟩

/-- The inputs of a transaction pass if each may spend its output, and no two spend the same
    one. -/
theorem checkInputs_eq_ok_iff {is : List Input} {spent : List Output} :
    l.checkInputs tx vin before is = .ok spent ↔
      List.Forall₂ (fun p out => l.Spendable tx p.2 p.1 out) (is.zipIdx vin) spent ∧
        (is.map Input.prevout).Nodup ∧ ∀ o ∈ is.map Input.prevout, o ∉ before := by
  -- The outpoint of an input is among those before the next ones.
  induction is generalizing vin before spent with
  | nil => simp [checkInputs, eq_comm]
  | cons i is ih =>
    simp only [checkInputs, bind_eq_ok_iff, pure_eq_ok_iff, checkInput_eq_ok_iff, ih,
      List.zipIdx_cons, List.forall₂_cons_left_iff, List.map_cons, List.nodup_cons,
      List.mem_cons, not_or, forall_eq_or_imp]
    constructor
    · rintro ⟨out, ⟨hi, hout⟩, rest, ⟨hrest, hnodup, hbefore⟩, rfl⟩
      exact ⟨⟨out, rest, hout, hrest, rfl⟩, ⟨fun hmem => (hbefore _ hmem).1 rfl, hnodup⟩, hi,
        fun o ho => (hbefore o ho).2⟩
    · rintro ⟨⟨out, rest, hout, hrest, rfl⟩, ⟨hfirst, hnodup⟩, hi, hbefore⟩
      exact ⟨out, ⟨hi, hout⟩, rest,
        ⟨hrest, hnodup, fun o ho => ⟨fun heq => hfirst (heq ▸ ho), hbefore o ho⟩⟩, rfl⟩

end Ledger

/-! ## The contracts involved -/

/-- A code that is put in its place is there, and the others stay. -/
theorem mem_insertCode_iff {c code : UInt8} {codes : List UInt8} :
    c ∈ insertCode code codes ↔ c = code ∨ c ∈ codes := by
  induction codes with
  | nil => simp [insertCode]
  | cons d codes ih =>
    rw [insertCode]
    split
    · simp
    · split
      · next h => simp [h]
      · simp [ih, or_left_comm]

theorem mem_foldr_insertCode_iff {c : UInt8} {codes : List UInt8} :
    c ∈ codes.foldr insertCode [] ↔ c ∈ codes := by
  induction codes with
  | nil => simp
  | cons code codes ih => rw [List.foldr_cons, mem_insertCode_iff, ih, List.mem_cons]

/-- A lock is one of a contract if it is a condition with its eval code. -/
theorem Lock.isOf_iff {code : UInt8} {lock : Lock} :
    lock.isOf code ↔ ∃ c, lock.condition? = some c ∧ c.evalCode = code := by
  cases lock <;> simp [isOf, condition?]

namespace Host

variable {h : Host} {tx : Transaction} {spent : List Output}

/-- A transaction involves a contract if the contract locks an output that is spent or made,
    or if the payload begins with its eval code and the host knows it. -/
theorem mem_codes_iff {code : UInt8} :
    code ∈ h.codes tx spent ↔
      (∃ out ∈ spent ++ tx.outputs, out.lock.isOf code) ∨
        (tx.payload?.bind List.head? = some code ∧ (h.validator? code).isSome) := by
  rw [codes, mem_foldr_insertCode_iff, List.mem_append, List.mem_map, Option.mem_toList,
    Option.filter_eq_some_iff]
  simp only [List.mem_filterMap, Lock.isOf_iff]
  refine or_congr_left ⟨?_, ?_⟩
  · rintro ⟨c, ⟨out, hout, hc⟩, rfl⟩
    exact ⟨out, hout, c, hc, rfl⟩
  · rintro ⟨out, hout, c, hc, rfl⟩
    exact ⟨c, ⟨out, hout, hc⟩, rfl⟩

/-! ## What is admitted -/

/-- The host admits a transaction, which spends some outputs. -/
structure Admits (h : Host) (tx : Transaction) (spent : List Output) : Prop where
  inputs_ne_nil : tx.inputs ≠ []
  outputs_ne_nil : tx.outputs ≠ []
  fresh : h.ledger.record? tx.txid = none
  spendable : List.Forall₂ (fun p out => h.ledger.Spendable tx p.2 p.1 out) tx.inputs.zipIdx spent
  nodup_spends : tx.spends.Nodup
  values : tx.checkValues spent = .ok ()
  judged : ∀ code ∈ h.codes tx spent, h.judge tx code = .ok ()

/-- A transaction is admitted, under its own id, if and only if some outputs are what it
    spends and the host has nothing against it. -/
theorem check_eq_ok_iff {id : TxId} :
    h.check tx = .ok id ↔ id = tx.txid ∧ ∃ spent, h.Admits tx spent := by
  simp only [check, throw_bind, ite_throw_eq_ok_iff, bind_eq_ok_iff, exists_unit_iff,
    pure_eq_ok_iff, Ledger.checkInputs_eq_ok_iff, forM_eq_ok_iff, List.isEmpty_iff,
    Option.isSome_iff_ne_none, not_not]
  constructor
  · rintro ⟨hin, hout, hfresh, spent, ⟨hspendable, hnodup, _⟩, hvalues, hjudged, rfl⟩
    exact ⟨rfl, spent, hin, hout, hfresh, hspendable, hnodup, hvalues, hjudged⟩
  · rintro ⟨rfl, spent, hin, hout, hfresh, hspendable, hnodup, hvalues, hjudged⟩
    exact ⟨hin, hout, hfresh, spent, ⟨hspendable, hnodup, fun _ _ => List.not_mem_nil⟩, hvalues,
      hjudged, rfl⟩

namespace Admits

variable (ha : h.Admits tx spent)
include ha

/-- The input at a position and what it spends. -/
theorem spendable_at {vin : Nat} {i : Input} (hi : tx.inputs[vin]? = some i) :
    ∃ out, spent[vin]? = some out ∧ h.ledger.Spendable tx vin i out := by
  obtain ⟨hlength, hspendable⟩ := List.forall₂_iff_get.1 ha.spendable
  rw [List.length_zipIdx] at hlength
  obtain ⟨hvin, rfl⟩ := List.getElem?_eq_some_iff.1 hi
  refine ⟨spent[vin], List.getElem?_eq_getElem _, ?_⟩
  simpa using hspendable vin (by simpa using hvin) (hlength ▸ hvin)

/-- What an admitted transaction spends exists, output by output. -/
theorem map_prevout? : tx.spends.map h.ledger.prevout? = spent.map some := by
  -- Position by position.
  apply List.ext_getElem?
  intro vin
  rw [List.getElem?_map, List.getElem?_map, Transaction.spends, List.getElem?_map]
  cases hi : tx.inputs[vin]? with
  | none =>
    have hlength := ha.spendable.length_eq
    rw [List.length_zipIdx] at hlength
    rw [List.getElem?_eq_none (hlength ▸ List.getElem?_eq_none_iff.1 hi)]
    rfl
  | some i =>
    obtain ⟨out, hout, hi⟩ := ha.spendable_at hi
    simp [hout, hi.prevout]

theorem filterMap_prevout? : tx.spends.filterMap h.ledger.prevout? = spent := by
  have heq := congrArg (List.filterMap id) ha.map_prevout?
  rwa [List.filterMap_map, List.filterMap_map, Function.id_comp, Function.id_comp,
    List.filterMap_some] at heq

/-- An output that an admitted transaction spends is among those that it is checked with. -/
theorem mem_spent {o : Outpoint} {out : Output} (ho : o ∈ tx.spends)
    (hout : h.ledger.prevout? o = some out) : out ∈ spent := by
  rw [← ha.filterMap_prevout?]
  exact List.mem_filterMap.2 ⟨o, ho, hout⟩

/-- Nothing spends what an admitted transaction spends. -/
theorem unspent {o : Outpoint} (ho : o ∈ tx.spends) : h.ledger.spentBy? o = none := by
  obtain ⟨vin, ho⟩ := List.getElem?_of_mem ho
  obtain ⟨i, hi, rfl⟩ := Transaction.getElem?_spends.1 ho
  obtain ⟨out, _, hout⟩ := ha.spendable_at hi
  exact hout.unspent

/-- What an admitted transaction spends exists. -/
theorem exists_prevout {o : Outpoint} (ho : o ∈ tx.spends) :
    ∃ out, h.ledger.prevout? o = some out := by
  obtain ⟨vin, ho⟩ := List.getElem?_of_mem ho
  obtain ⟨i, hi, rfl⟩ := Transaction.getElem?_spends.1 ho
  obtain ⟨out, _, hout⟩ := ha.spendable_at hi
  exact ⟨out, hout.prevout⟩

/-- A ledger that is sound stays so with an admitted transaction. -/
theorem sound (hl : h.ledger.Sound) : (h.ledger.insert tx).Sound :=
  hl.insert ha.fresh ha.nodup_spends (fun _ => ha.unspent) (fun _ => ha.exists_prevout)

end Admits

end Host

end Escrow
