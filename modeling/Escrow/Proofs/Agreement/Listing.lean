import Escrow.Agreement.Report
import Escrow.Proofs.Agreement.Layout
import Escrow.Proofs.Ledger.Coins

/-!
# What is listed

Offers and agreements are looked for at the global address, where many outputs of
one transaction count once. Since every offer has its marker there and every
agreement its deposit, all are found: the offers listed are the confirmed offers,
the accepts listed the confirmed accepts, in the order of their records
(`Reachable.offers_eq`, `Reachable.accepts_eq`).
-/

namespace Escrow

/-- The terms that an operation offers. -/
def Operation.terms? : Operation → Option Offer
  | offer o => some o
  | _ => none

/-- The offer that an operation accepts. -/
def Operation.accepted? : Operation → Option TxId
  | accept o => some o
  | _ => none

theorem Operation.terms?_eq_some_iff {op : Operation} {o : Offer} :
    op.terms? = some o ↔ op = .offer o := by
  cases op <;> simp [terms?]

theorem Operation.accepted?_eq_some_iff {op : Operation} {o : TxId} :
    op.accepted? = some o ↔ op = .accept o := by
  cases op <;> simp [accepted?]

/-- If things with different names stand in a list for copies of their names, each
    name is left once for those that stand for any. -/
theorem eraseDups_flatMap {α β : Type} [BEq β] [LawfulBEq β] (name : α → β) {copies : α → List β}
    {as : List α} (hname : (as.map name).Nodup) (hcopies : ∀ a ∈ as, ∀ b ∈ copies a, b = name a) :
    (as.flatMap copies).eraseDups = (as.filter fun a => !(copies a).isEmpty).map name := by
  induction as with
  | nil => rfl
  | cons a as ih =>
    rw [List.map_cons, List.nodup_cons] at hname
    obtain ⟨ha, hcopies⟩ := List.forall_mem_cons.1 hcopies
    -- The names that follow are others.
    have hother : (as.flatMap copies).removeAll (copies a) = as.flatMap copies := by
      rw [List.removeAll, List.filter_eq_self]
      intro b hb
      obtain ⟨c, hc, hbc⟩ := List.mem_flatMap.1 hb
      rw [Bool.not_eq_true', ← Bool.not_eq_true, List.elem_iff]
      intro hba
      refine hname.1 ?_
      rw [← ha b hba, hcopies c hc b hbc]
      exact List.mem_map_of_mem hc
    rw [List.flatMap_cons, List.eraseDups_append, hother, ih hname.2 hcopies]
    rcases hcopy : copies a with _ | ⟨b, bs⟩
    · simp [hcopy]
    · rw [hcopy, List.forall_mem_cons] at ha
      rw [List.filter_cons_of_pos (by simp [hcopy]), List.map_cons, List.eraseDups_cons, ha.1,
        List.filter_eq_nil_iff.2 (by simpa using ha.2)]
      rfl

/-- Whether a transaction makes an output at an address. -/
def Record.isAt (r : Record) (a : Address) : Bool :=
  r.outputs.any fun c => Address.ofLock? c.output.lock = some a

namespace Ledger

/-- The confirmed transactions that do a thing of some kind, in order. -/
def confirmedOf {α : Type} (l : Ledger) (kind : Operation → Option α) : List (TxId × α) :=
  l.records.filterMap fun r =>
    if r.isConfirmed then (r.tx.operation?.bind kind).map fun a => (r.txid, a) else none

variable {l : Ledger} {α : Type} {kind : Operation → Option α} {id : TxId} {a : α}

/-- A record is collected if it is confirmed and of the kind. -/
theorem mem_filterMap_kind {r : Record} :
    (if r.isConfirmed then (r.tx.operation?.bind kind).map fun a => (r.txid, a) else none) =
        some (id, a) ↔
      r.txid = id ∧ r.isConfirmed ∧ ∃ op, r.tx.operation? = some op ∧ kind op = some a := by
  rw [Option.ite_none_right_eq_some, Option.map_eq_some_iff]
  simp only [Option.bind_eq_some_iff, Prod.mk.injEq]
  constructor
  · rintro ⟨hconf, b, hop, hid, rfl⟩
    exact ⟨hid, hconf, hop⟩
  · rintro ⟨hid, hconf, hop⟩
    exact ⟨hconf, a, hop, hid, rfl⟩

/-- What is collected of a kind is what confirmed transactions do of it. -/
theorem Sound.mem_confirmedOf_iff (hl : l.Sound) :
    (id, a) ∈ l.confirmedOf kind ↔ ∃ r op, l.Confirms id r op ∧ kind op = some a := by
  simp only [confirmedOf, List.mem_filterMap, mem_filterMap_kind]
  constructor
  · rintro ⟨r, hr, hid, hconf, op, hop, ha⟩
    exact ⟨r, op, ⟨hl.record?_eq_some_iff.2 ⟨hr, hid⟩, hconf, hop⟩, ha⟩
  · rintro ⟨r, op, h, ha⟩
    obtain ⟨hr, hid⟩ := mem_of_record? h.record?
    exact ⟨r, hr, hid, h.isConfirmed, op, h.operation?, ha⟩

/-- None is there twice. -/
theorem Sound.nodup_confirmedOf (hl : l.Sound) : ((l.confirmedOf kind).map Prod.fst).Nodup := by
  have hids := List.pairwise_map.1 hl.nodup_txids
  rw [List.Nodup, List.pairwise_map]
  refine hids.filterMap _ ?_
  rintro r s hne ⟨id, a⟩ hr ⟨id', a'⟩ hs
  rw [← (mem_filterMap_kind.1 hr).1, ← (mem_filterMap_kind.1 hs).1]
  exact hne

/-! ## Listing by address -/

/-- The confirmed coins at an address are those of confirmed transactions. -/
theorem Sound.outputsAt_txids (hl : l.Sound) (a : Address) :
    ((l.outputsAt a).filter (·.height.isSome)).map (·.outpoint.txid) =
      l.records.flatMap fun r =>
        (r.outputs.filter fun c => Address.ofLock? c.output.lock = some a).filterMap fun c =>
          if r.isConfirmed then some c.txid else none := by
  rw [outputsAt, outpointsAt_eq, outputs, List.filter_flatMap, List.map_flatMap,
    List.filterMap_flatMap, List.filter_flatMap, List.map_flatMap]
  refine List.flatMap_congr fun r hr => ?_
  rw [List.filterMap_map, List.filter_filterMap, List.map_filterMap]
  refine List.filterMap_congr fun c hc => ?_
  obtain ⟨hid, hout⟩ := Record.mem_outputs_iff.1 (List.mem_of_mem_filter hc)
  -- The outpoint of an output too far back names another output of the transaction.
  have hlt : c.vout % 4294967296 < r.tx.outputs.length :=
    Nat.lt_of_le_of_lt (Nat.mod_le _ _) (List.getElem?_eq_some_iff.1 hout).1
  have hnamed := List.getElem?_eq_getElem hlt
  have hr := hl.record?_eq_some_iff.2 ⟨hr, hid.symm⟩
  simp only [Function.comp_apply, Holding.outpoint, hr, UInt32.toNat_ofNat', Nat.reducePow, hnamed,
    Option.bind_eq_bind, Option.bind_some, Option.pure_def, Option.filter_some, Record.isConfirmed,
    apply_ite, Option.map_some, Option.map_none]
  rfl

/-- What is listed are the confirmed transactions at the global address. -/
theorem Sound.listed_eq (hl : l.Sound) :
    l.listed =
      (l.records.filter fun r => r.isConfirmed && r.isAt globalAddress).map Record.txid := by
  rw [listed, hl.outputsAt_txids, eraseDups_flatMap Record.txid hl.nodup_txids]
  · refine congrArg _ (List.filter_congr fun r _ => ?_)
    cases r.isConfirmed
    · simp
    · rw [Record.isAt, Bool.eq_iff_iff]
      simp
  · intro r _ id hid
    obtain ⟨c, hc, hid⟩ := List.mem_filterMap.1 hid
    rw [Option.ite_none_right_eq_some, Option.some.injEq] at hid
    rw [← hid.2, (Record.mem_outputs_iff.1 (List.mem_of_mem_filter hc)).1]

/-- So what is found there of some kind is all there is of that kind, if that is
    always found there. -/
theorem Sound.filterMap_listedOperations (hl : l.Sound)
    (hkind : ∀ r ∈ l.records, ∀ op, r.tx.operation? = some op → (kind op).isSome →
      r.isAt globalAddress) :
    (l.listedOperations.filterMap fun (id, op) => (kind op).map fun a => (id, a)) =
      l.confirmedOf kind := by
  rw [listedOperations, hl.listed_eq, List.filterMap_map, List.filterMap_filterMap,
    List.filterMap_filter, confirmedOf]
  refine List.filterMap_congr fun r hr => ?_
  have hrecord := hl.record?_eq_some_iff.2 ⟨hr, rfl⟩
  rcases hop : r.tx.operation? with _ | op
  · simp [hrecord, Record.operation?_eq, hop]
  · rcases hop' : kind op with _ | a
    · simp [hrecord, Record.operation?_eq, hop, hop']
    · have := hkind r hr op hop (by rw [hop']; rfl)
      simp [hrecord, Record.operation?_eq, hop, hop', this]

end Ledger

section
variable {validators : List Validator} {params : Params} {l : Ledger}
variable (hl : Reachable validators l) (hv : KeepsRules validators params)
include hl hv

/-- What makes an output with the lock of markers and deposits is at the global
    address. -/
theorem Reachable.isAt_globalAddress {r : Record} (hr : r ∈ l.records) {op : Operation}
    (hop : r.tx.operation? = some op) (hkind : op.function = .offer ∨ op.function = .accept) :
    r.isAt globalAddress := by
  obtain ⟨before, spent, h⟩ := hl.enacted hv hr hop
  obtain ⟨vout, rule, hmakes⟩ : ∃ vout rule,
      (⟨before, params, r.tx, spent⟩ : Inspection).Makes vout rule globalLock := by
    cases h.obeys with
    | offer ho => exact ⟨_, _, ho.marker⟩
    | accept ho => exact ⟨_, _, ho.deposit⟩
    | _ => simp [Operation.function] at hkind
  obtain ⟨out, hout, hlock, -⟩ := hmakes.getElem?
  rw [Record.isAt, List.any_eq_true]
  refine ⟨⟨r.txid, vout, out⟩, Record.mem_outputs_iff.2 ⟨rfl, hout⟩, decide_eq_true ?_⟩
  rw [hlock]
  rfl

/-- The offers listed are the confirmed offers. -/
theorem Reachable.offers_eq : l.offers = l.confirmedOf Operation.terms? := by
  rw [← hl.sound.filterMap_listedOperations fun r hr op hop hkind => ?_, Ledger.offers]
  · refine List.filterMap_congr fun p _ => ?_
    rcases p with ⟨id, op⟩
    cases op <;> rfl
  · obtain ⟨o, ho⟩ := Option.isSome_iff_exists.1 hkind
    obtain rfl := Operation.terms?_eq_some_iff.1 ho
    exact hl.isAt_globalAddress hv hr hop (.inl rfl)

/-- The accepts listed are the confirmed accepts. -/
theorem Reachable.accepts_eq : l.accepts = l.confirmedOf Operation.accepted? := by
  rw [← hl.sound.filterMap_listedOperations fun r hr op hop hkind => ?_, Ledger.accepts]
  · refine List.filterMap_congr fun p _ => ?_
    rcases p with ⟨id, op⟩
    cases op <;> rfl
  · obtain ⟨o, ho⟩ := Option.isSome_iff_exists.1 hkind
    obtain rfl := Operation.accepted?_eq_some_iff.1 ho
    exact hl.isAt_globalAddress hv hr hop (.inr rfl)

theorem Reachable.mem_offers_iff {id : TxId} {o : Offer} :
    (id, o) ∈ l.offers ↔ ∃ r, l.Confirms id r (.offer o) := by
  rw [hl.offers_eq hv, hl.sound.mem_confirmedOf_iff]
  simp [Operation.terms?_eq_some_iff]

theorem Reachable.mem_accepts_iff {id o : TxId} :
    (id, o) ∈ l.accepts ↔ ∃ r, l.Confirms id r (.accept o) := by
  rw [hl.accepts_eq hv, hl.sound.mem_confirmedOf_iff]
  simp [Operation.accepted?_eq_some_iff]

/-- No agreement is listed twice. -/
theorem Reachable.nodup_agreements : l.agreements.Nodup := by
  rw [Ledger.agreements, hl.accepts_eq hv]
  exact hl.sound.nodup_confirmedOf

end

end Escrow
