import Escrow.Proofs.Agreement.Payloads
import Escrow.Proofs.Agreement.Rules
import Escrow.Proofs.Host.Run

/-!
# Enforcement

A host that has the rules of agreements among its contracts applies them to every
transaction that spends or makes something in escrow, or has a payload
(`Admits.enacts`). All others leave agreements alone (`Admits.no_escrow`). So
whatever a recorded transaction does was done under the rules, in the ledger that
it was admitted to (`Reachable.enacted`), and what it referred to there is still
found in every later ledger.
-/

namespace Escrow

/-- Some contracts have the rules of agreements among them. -/
def KeepsRules (validators : List Validator) (params : Params) : Prop :=
  validators.find? (·.evalCode = evalCode) = some (agreements params)

/-- A host that registers the rules keeps them, whatever it had under their eval code. -/
theorem keepsRules_register (h : Host) (params : Params) :
    KeepsRules (h.register (agreements params)).validators params := by
  rw [KeepsRules, Host.register, List.find?_append, Option.or_eq_some_iff]
  -- Those of the same eval code are dropped first.
  refine .inr ⟨List.find?_eq_none.2 fun v hv => ?_, by simp [agreements]⟩
  have hne : v.evalCode ≠ evalCode := of_decide_eq_true (List.mem_filter.1 hv).2
  simp [hne]

/-- A host with nothing recorded that keeps the rules of agreements, and maybe those
    of other contracts. -/
def Host.underRules (genesis : Timestamp) (blockTime : UInt64) (params : Params)
    (others : List Validator) : Host :=
  (⟨{ genesis, blockTime }, others⟩ : Host).register (agreements params)

namespace Host

variable (genesis : Timestamp) (blockTime : UInt64) (params : Params) (others : List Validator)
  (cs : List Command)

theorem keepsRules_underRules :
    KeepsRules (underRules genesis blockTime params others).validators params :=
  keepsRules_register ..

/-- The ledger of a run is reachable from that of a new host. -/
theorem reachable_underRules_run :
    Reachable (underRules genesis blockTime params others).validators
      ((underRules genesis blockTime params others).run cs).ledger :=
  reachable_run ..

/-- A run of a host with no other contracts goes on with those of agreements. -/
theorem run_underRules_nil :
    (underRules genesis blockTime params []).run cs =
      ⟨((underRules genesis blockTime params []).run cs).ledger, [agreements params]⟩ := by
  have hv : ((underRules genesis blockTime params []).run cs).validators = [agreements params] :=
    (leads_run _ cs).2
  rw [← hv]

end Host

/-- A payload starts with the eval code. -/
theorem head?_of_decode {bs : Bytes} {p : Payload} (h : Payload.decode bs = .ok p) :
    bs.head? = some evalCode := by
  obtain ⟨-, rfl⟩ := Payload.decode_eq_ok_iff.1 h
  rfl

/-- A transaction did something under the rules, in an earlier ledger that it was
    admitted to. -/
structure Enacted (validators : List Validator) (params : Params) (l before : Ledger)
    (tx : Transaction) (spent : List Output) (op : Operation) : Prop where
  reachable : Reachable validators before
  admits : Host.Admits ⟨before, validators⟩ tx spent
  grows : (before.insert tx).Grows l
  carries : ∃ p, tx.Carries params p ∧ p.operation = op
  fee : (⟨before, params, tx, spent⟩ : Inspection).checkFee = .ok ()
  obeys : (⟨before, params, tx, spent⟩ : Inspection).Obeys op

variable {validators : List Validator} {params : Params} {l : Ledger} {tx : Transaction}
  {spent : List Output} {op : Operation}

/-- A transaction does what the payload that it carries says. -/
theorem Transaction.Carries.operation? {p : Payload} (h : tx.Carries params p) :
    tx.operation? = some p.operation := by
  obtain ⟨data, hdata, -, hp⟩ := h.data
  exact operation?_eq_some_iff.2 ⟨data, p, hdata, hp, rfl⟩

/-- A payload involves the rules. -/
theorem mem_codes_of_operation? (hv : KeepsRules validators params)
    (hop : tx.operation? = some op) : evalCode ∈ Host.codes ⟨l, validators⟩ tx spent := by
  obtain ⟨data, p, hdata, hp, -⟩ := Transaction.operation?_eq_some_iff.1 hop
  have hv : Host.validator? ⟨l, validators⟩ evalCode = some (agreements params) := hv
  refine Host.mem_codes_iff.2 (.inr ⟨?_, by rw [hv]; rfl⟩)
  rw [hdata, Option.bind_some, head?_of_decode hp]

namespace Host.Admits

variable (ha : Host.Admits ⟨l, validators⟩ tx spent) (hv : KeepsRules validators params)
include ha hv

/-- The rules are applied to what involves them. -/
theorem validate (hinvolved : evalCode ∈ Host.codes ⟨l, validators⟩ tx spent) :
    Escrow.validate l params tx = .ok () := by
  have hv : Host.validator? ⟨l, validators⟩ evalCode = some (agreements params) := hv
  have hjudge := ha.judged evalCode hinvolved
  rw [Host.judge, hv] at hjudge
  dsimp only at hjudge
  split at hjudge
  · cases hjudge
  · next h => exact mapError_eq_ok_iff.1 h

/-- A transaction that involves agreements does something under their rules. -/
theorem enacts (hl : Reachable validators l)
    (hinvolved : evalCode ∈ Host.codes ⟨l, validators⟩ tx spent) :
    ∃ op, Enacted validators params (l.insert tx) l tx spent op := by
  obtain ⟨p, spent', hp, hspent, hfee, hobeys⟩ := validate_eq_ok_iff.1 (ha.validate hv hinvolved)
  -- The rules look up for themselves what is spent.
  obtain rfl : spent' = spent :=
    List.map_injective_iff.2 (fun _ _ => Option.some.inj) (hspent.symm.trans ha.map_prevout?)
  exact ⟨p.operation, hl, ha, .refl _, ⟨p, hp, rfl⟩, hfee, hobeys⟩

/-- A transaction without a payload has nothing to do with escrow. -/
theorem no_escrow (hl : Reachable validators l) (hop : tx.operation? = none) {out : Output}
    (hout : out ∈ spent ++ tx.outputs) : ¬out.lock.isEscrow := by
  intro hescrow
  obtain ⟨op, h⟩ := ha.enacts hv hl (Host.mem_codes_iff.2 (.inl ⟨out, hout, hescrow⟩))
  obtain ⟨p, hp, -⟩ := h.carries
  cases hop.symm.trans hp.operation?

end Host.Admits

namespace Enacted

variable {before : Ledger} (h : Enacted validators params l before tx spent op)
include h

theorem operation? : tx.operation? = some op := by
  obtain ⟨p, hp, rfl⟩ := h.carries
  exact hp.operation?

/-- It was done so right when the transaction was admitted. -/
theorem at_admission : Enacted validators params (before.insert tx) before tx spent op :=
  ⟨h.reachable, h.admits, .refl _, h.carries, h.fee, h.obeys⟩

theorem grows_before : before.Grows l :=
  (Ledger.Grows.insert before tx).trans h.grows

theorem record? (hl : l.Sound) : ∃ r, l.record? tx.txid = some r ∧ r.tx = tx := by
  obtain ⟨r, hr, hkeeps⟩ := h.grows.record? hl Ledger.record?_insert_self
  exact ⟨r, hr, hkeeps.tx_eq⟩

theorem does (hl : l.Sound) : l.Does tx.txid op := by
  obtain ⟨r, hr, htx⟩ := h.record? hl
  exact ⟨r, hr, htx ▸ h.operation?⟩

/-- A transaction goes into the first block made after its admission. -/
theorem height_eq (hl : l.Sound) {height : Nat} (hheight : l.heightOf? tx.txid = some height) :
    height = before.height + 1 := by
  obtain ⟨r, hr, -⟩ := h.record? hl
  have hdue := h.grows.due_of_record? hl Ledger.record?_insert_self hr
  rw [Ledger.heightOf?, hr] at hheight
  rwa [show r.height = some height from hheight] at hdue

/-- What a transaction spends was recorded before it. -/
theorem does_before (hl : l.Sound) {id : TxId} {vout : UInt32} {prev : Operation}
    (hmem : ⟨id, vout⟩ ∈ tx.spends) (hdoes : l.Does id prev) : before.Does id prev := by
  obtain ⟨out, hout⟩ := h.admits.exists_prevout hmem
  obtain ⟨r, hr, -⟩ := Ledger.prevout?_eq_some_iff.1 hout
  obtain ⟨s, hs, hkeeps⟩ := h.grows_before.record? hl hr
  obtain ⟨s', hs', hop⟩ := hdoes
  cases hs.symm.trans hs'
  exact ⟨r, hr, hkeeps.tx_eq ▸ hop⟩

end Enacted

theorem operation?_funding (key : PublicKey) (value : Amount) (nonce : UInt32) :
    (Host.funding key value nonce).operation? = none := rfl

namespace Reachable

variable (hl : Reachable validators l) (hv : KeepsRules validators params)
include hl hv

/-- What a recorded transaction does, it did under the rules. -/
theorem enacted {r : Record} (hr : r ∈ l.records) (hop : r.tx.operation? = some op) :
    ∃ before spent, Enacted validators params l before r.tx spent op := by
  rcases hl.origin hr with ⟨key, value, nonce, -, htx⟩ | ⟨before, spent, hbefore, ha, hgrows⟩
  · rw [htx, operation?_funding] at hop
    cases hop
  · obtain ⟨op', h⟩ := ha.enacts hv hbefore (mem_codes_of_operation? hv hop)
    cases hop.symm.trans h.operation?
    exact ⟨before, spent, h.reachable, h.admits, hgrows, h.carries, h.fee, h.obeys⟩

/-- An output in escrow was made under the rules. -/
theorem operation?_of_isEscrow {r : Record} (hr : r ∈ l.records) {out : Output}
    (hout : out ∈ r.tx.outputs) (hescrow : out.lock.isEscrow) :
    ∃ op, r.tx.operation? = some op := by
  rw [← Option.ne_none_iff_exists']
  intro hop
  rcases hl.origin hr with ⟨key, value, nonce, -, htx⟩ | ⟨before, spent, hbefore, ha, -⟩
  · rw [htx, Host.funding, List.mem_singleton] at hout
    rw [hout] at hescrow
    cases hescrow
  · exact ha.no_escrow hv hbefore hop (List.mem_append_right spent hout) hescrow

/-- An output in escrow is spent under the rules. -/
theorem operation?_of_spends {r : Record} (hr : r ∈ l.records) {o : Outpoint} {out : Output}
    (ho : o ∈ r.tx.spends) (hout : l.prevout? o = some out) (hescrow : out.lock.isEscrow) :
    ∃ op, r.tx.operation? = some op := by
  rw [← Option.ne_none_iff_exists']
  intro hop
  rcases hl.origin hr with ⟨key, value, nonce, -, htx⟩ | ⟨before, spent, hbefore, ha, hgrows⟩
  · rw [htx, spends_funding] at ho
    cases ho
  · obtain ⟨out', hout'⟩ := ha.exists_prevout ho
    -- The output was the same when it was spent.
    cases hout.symm.trans (((Ledger.Grows.insert _ _).trans hgrows).prevout? hl.sound hout')
    exact ha.no_escrow hv hbefore hop (List.mem_append_left _ (ha.mem_spent ho hout')) hescrow

/-- What is done by the transaction of an id was done under the rules. -/
theorem enacted_of_does {id : TxId} (h : l.Does id op) :
    ∃ before tx spent, tx.txid = id ∧ Enacted validators params l before tx spent op := by
  obtain ⟨r, hr, hop⟩ := h
  obtain ⟨hmem, hid⟩ := Ledger.mem_of_record? hr
  obtain ⟨before, spent, henacted⟩ := hl.enacted hv hmem hop
  exact ⟨before, r.tx, spent, (hl.sound.txid_eq r hmem).symm.trans hid, henacted⟩

end Reachable

end Escrow
