import Escrow.Proofs.Agreement.Layout

/-!
# Batons

The baton of an agreement is made by its accept, and again by each dispute and
stop-dispute that names it (`Ledger.HoldsBaton`). A transaction does one of three
things to an agreement (`Treats`): it *leaves* it as it is; it *passes* its baton
on, spending one and making another; or it *ends* it, spending a baton and the
deposit.

So of every agreement one baton is unspent as long as its deposit is, and none
afterwards (`Reachable.balanced`).
-/

namespace Escrow

/-- An operation, done by a transaction of some id, makes a baton of an
    agreement. -/
def Operation.HandsOn (agreement id : TxId) : Operation → Prop
  | .accept _ => id = agreement
  | .dispute d => d.agreement = agreement
  | .stopDispute a .. => a = agreement
  | _ => False

/-- The events of an agreement are what makes its batons. -/
theorem isEventOf_iff {a : Agreement} {id : TxId} {op : Operation} :
    Inspection.isEventOf a id op ↔ op.HandsOn a.txid id := by
  cases op <;> simp [Inspection.isEventOf, Operation.HandsOn]

/-- An operation makes a baton of one agreement only. -/
theorem Operation.HandsOn.unique {agreement agreement' id : TxId} {op : Operation}
    (h : op.HandsOn agreement id) (h' : op.HandsOn agreement' id) : agreement = agreement' := by
  cases op with
  | accept o => exact h.symm.trans h'
  | dispute d => exact h.symm.trans h'
  | stopDispute a d memo => exact h.symm.trans h'
  | _ => exact h.elim

namespace Ledger

/-- Output 0 of a recorded transaction is a baton of an agreement. -/
def HoldsBaton (l : Ledger) (agreement id : TxId) : Prop :=
  ∃ op, l.Does id op ∧ op.HandsOn agreement id

variable {l : Ledger} {id agreement agreement' : TxId} {op : Operation} {tx : Transaction}

/-- An output is a baton of one agreement only. -/
theorem HoldsBaton.unique (h : l.HoldsBaton agreement id) (h' : l.HoldsBaton agreement' id) :
    agreement = agreement' := by
  obtain ⟨op, hdoes, hop⟩ := h
  obtain ⟨op', hdoes', hop'⟩ := h'
  cases hdoes.unique hdoes'
  exact hop.unique hop'

theorem HoldsBaton.handsOn (h : l.HoldsBaton agreement id) (hdoes : l.Does id op) :
    op.HandsOn agreement id := by
  obtain ⟨op', hdoes', hop⟩ := h
  cases hdoes.unique hdoes'
  exact hop

/-- An outpoint is the marker of a confirmed offer. -/
def IsMarker (l : Ledger) (o : Outpoint) : Prop :=
  o.vout = 0 ∧ ∃ r terms, l.Confirms o.txid r (.offer terms)

/-- Output 0 of a confirmed offer is its marker. -/
theorem Confirms.isMarker {r : Record} {o : Offer} (h : l.Confirms id r (.offer o)) :
    l.IsMarker ⟨id, 0⟩ :=
  ⟨rfl, r, o, h⟩

/-- A marker is no baton. -/
theorem IsMarker.not_holdsBaton (h : l.IsMarker ⟨id, 0⟩) : ¬l.HoldsBaton agreement id := by
  obtain ⟨-, r, o, hr⟩ := h
  exact fun hb => hb.handsOn hr.does

theorem IsMarker.ne_baton {b : TxId} (h : l.IsMarker ⟨id, 0⟩) (hb : l.HoldsBaton agreement b) :
    ⟨id, 0⟩ ≠ (⟨b, 0⟩ : Outpoint) := by
  rintro ⟨⟩
  exact h.not_holdsBaton hb

/-- A marker is no deposit. -/
theorem IsMarker.ne_deposit {o : Outpoint} (h : l.IsMarker o) : o ≠ ⟨agreement, 1⟩ := by
  rintro rfl
  cases h.1

/-- What a dispute makes is a baton. -/
theorem Confirms.holdsBaton {r : Record} {d : Dispute} (h : l.Confirms id r (.dispute d)) :
    l.HoldsBaton d.agreement id :=
  ⟨_, h.does, rfl⟩

/-- A dispute that is found for an agreement holds a baton of it. -/
theorem holdsBaton_of_dispute {d : Dispute} (h : ∃ r, l.Confirms id r (.dispute d))
    (hagreement : d.agreement = agreement) : l.HoldsBaton agreement id := by
  obtain ⟨r, hr⟩ := h
  rw [← hagreement]
  exact hr.holdsBaton

/-! ## What turns add -/

/-- A new transaction adds what it does. -/
theorem does_insert_iff (hfresh : l.record? tx.txid = none) :
    (l.insert tx).Does id op ↔ l.Does id op ∨ (id = tx.txid ∧ tx.operation? = some op) := by
  by_cases hid : id = tx.txid
  · subst hid
    simp [Does, hfresh]
  · simp [Does, record?_insert_of_ne hid, hid]

theorem does_mine_iff : l.mine.Does id op ↔ l.Does id op := by
  simp [Does, record?_mine]

/-- A new transaction adds the baton that it makes. -/
theorem holdsBaton_insert_iff (hfresh : l.record? tx.txid = none) :
    (l.insert tx).HoldsBaton agreement id ↔ l.HoldsBaton agreement id ∨
      (id = tx.txid ∧ ∃ op, tx.operation? = some op ∧ op.HandsOn agreement tx.txid) := by
  simp only [HoldsBaton, does_insert_iff hfresh]
  constructor
  · rintro ⟨op, hdoes | ⟨rfl, hop⟩, hhands⟩
    · exact .inl ⟨op, hdoes, hhands⟩
    · exact .inr ⟨rfl, op, hop, hhands⟩
  · rintro (⟨op, hdoes, hhands⟩ | ⟨rfl, op, hop, hhands⟩)
    · exact ⟨op, .inl hdoes, hhands⟩
    · exact ⟨op, .inr ⟨rfl, hop⟩, hhands⟩

theorem holdsBaton_mine_iff : l.mine.HoldsBaton agreement id ↔ l.HoldsBaton agreement id := by
  simp [HoldsBaton, does_mine_iff]

end Ledger

/-- The event that a transaction follows on holds the baton that it spends. -/
theorem Inspection.Follows.holdsBaton {i : Inspection} {vin : Nat} {a : Agreement} {e : Record}
    (h : i.Follows vin a e) : i.ledger.HoldsBaton a.txid e.txid := by
  obtain ⟨op, he, hevent, -⟩ := h.event
  exact ⟨op, he.does, isEventOf_iff.1 hevent⟩

/-! ## Batons, deposits and markers are in escrow -/

section
variable {validators : List Validator} {params : Params} {l : Ledger} {id agreement : TxId}
variable (hl : Reachable validators l) (hv : KeepsRules validators params)
include hl hv

/-- A baton is an output in escrow. -/
theorem Ledger.HoldsBaton.isEscrow (h : l.HoldsBaton agreement id) : l.InEscrow ⟨id, 0⟩ := by
  obtain ⟨op, hdoes, hhands⟩ := h
  obtain ⟨before, tx, spent, rfl, henacted⟩ := hl.enacted_of_does hv hdoes
  -- All that make batons make them in output 0.
  obtain ⟨offer, rule, hmakes⟩ : ∃ offer rule,
      (⟨before, params, tx, spent⟩ : Inspection).Makes 0 rule (eventLock offer) := by
    cases henacted.obeys with
    | accept h => exact ⟨_, _, h.baton⟩
    | dispute h => exact ⟨_, _, h.fee⟩
    | stopDispute h => exact ⟨_, _, h.passed⟩
    | _ => exact hhands.elim
  obtain ⟨out, hout, hlock, -⟩ := henacted.prevout? hl.sound 0 hmakes
  exact ⟨out, hout, by rw [hlock]; rfl⟩

/-- So is the deposit of an agreement. -/
theorem isEscrow_deposit {o : TxId} (h : l.Does agreement (.accept o)) :
    l.InEscrow ⟨agreement, 1⟩ := by
  obtain ⟨before, tx, spent, rfl, henacted⟩ := hl.enacted_of_does hv h
  cases henacted.obeys with
  | accept h =>
    obtain ⟨out, hout, hlock, -⟩ := henacted.prevout? hl.sound 1 h.deposit
    exact ⟨out, hout, by rw [hlock]; rfl⟩

/-- So is the marker of an offer. -/
theorem isEscrow_marker {offer : TxId} {o : Offer} (h : l.Does offer (.offer o)) :
    l.InEscrow ⟨offer, 0⟩ := by
  obtain ⟨before, tx, spent, rfl, henacted⟩ := hl.enacted_of_does hv h
  cases henacted.obeys with
  | offer h =>
    obtain ⟨out, hout, hlock, -⟩ := henacted.prevout? hl.sound 0 h.marker
    exact ⟨out, hout, by rw [hlock]; rfl⟩

/-- A baton is one of a recorded agreement. -/
theorem Ledger.HoldsBaton.exists_accept (h : l.HoldsBaton agreement id) :
    ∃ o, l.Does agreement (.accept o) := by
  obtain ⟨op, hdoes, hhands⟩ := h
  obtain ⟨before, tx, spent, rfl, henacted⟩ := hl.enacted_of_does hv hdoes
  have later : ∀ {a : Agreement}, before.Agrees a → l.Does a.txid (.accept a.offerId) :=
    fun ha => ha.does.grows henacted.grows_before hl.sound
  -- The accept makes the first baton; later ones are made under rules that find it confirmed.
  cases henacted.obeys with
  | accept h =>
    cases hhands
    exact ⟨_, hdoes⟩
  | dispute h =>
    cases hhands
    exact ⟨_, h.agreement ▸ later h.agrees⟩
  | stopDispute h =>
    cases hhands
    exact ⟨_, later h.agrees⟩
  | _ => exact hhands.elim

/-! ## What a transaction does to an agreement -/

/-- A transaction leaves an agreement as it is, passes its baton on, or ends it. -/
inductive Treats (l : Ledger) (tx : Transaction) (agreement : TxId) : Prop
  | leaves : (∀ b, l.HoldsBaton agreement b → ⟨b, 0⟩ ∉ tx.spends) → ⟨agreement, 1⟩ ∉ tx.spends →
    (∀ op, tx.operation? = some op → ¬op.HandsOn agreement tx.txid) → Treats l tx agreement
  | passes {b : TxId} {op : Operation} : l.HoldsBaton agreement b → ⟨b, 0⟩ ∈ tx.spends →
    ⟨agreement, 1⟩ ∉ tx.spends → tx.operation? = some op → op.HandsOn agreement tx.txid →
    Treats l tx agreement
  | ends {b : TxId} : l.HoldsBaton agreement b → ⟨b, 0⟩ ∈ tx.spends → ⟨agreement, 1⟩ ∈ tx.spends →
    (∀ op, tx.operation? = some op → ¬op.HandsOn agreement tx.txid) → Treats l tx agreement

namespace Enacted

variable {tx : Transaction} {spent : List Output} {op : Operation} {o : TxId} {os : List Outpoint}
variable (h : Enacted validators params (l.insert tx) l tx spent op)
include h

/-- What is spent of an agreement is among what is spent in escrow. -/
theorem baton_mem (htakes : (⟨l, params, tx, spent⟩ : Inspection).Takes os)
    (hb : l.HoldsBaton agreement id) (hmem : ⟨id, 0⟩ ∈ tx.spends) : ⟨id, 0⟩ ∈ os :=
  htakes.mem h.admits.map_prevout? hmem (hb.isEscrow hl hv)

theorem deposit_mem (htakes : (⟨l, params, tx, spent⟩ : Inspection).Takes os)
    (hA : l.Does agreement (.accept o)) (hmem : ⟨agreement, 1⟩ ∈ tx.spends) :
    ⟨agreement, 1⟩ ∈ os :=
  htakes.mem h.admits.map_prevout? hmem (isEscrow_deposit hl hv hA)

omit hl hv in
/-- If the operation makes no baton, neither does the transaction. -/
theorem not_handsOn (hhands : ¬op.HandsOn agreement tx.txid) :
    ∀ op', tx.operation? = some op' → ¬op'.HandsOn agreement tx.txid := by
  intro op' hop
  rwa [Option.some.inj (hop.symm.trans h.operation?)]

/-- An agreement is left as it is if nothing of it is spent and no baton made. -/
theorem leaves_of_takes (htakes : (⟨l, params, tx, spent⟩ : Inspection).Takes os)
    (hA : l.Does agreement (.accept o))
    (hbaton : ∀ b, l.HoldsBaton agreement b → ⟨b, 0⟩ ∉ os) (hdeposit : ⟨agreement, 1⟩ ∉ os)
    (hhands : ¬op.HandsOn agreement tx.txid) : Treats l tx agreement :=
  .leaves (fun b hb hmem => hbaton b hb (h.baton_mem hl hv htakes hb hmem))
    (fun hmem => hdeposit (h.deposit_mem hl hv htakes hA hmem)) (h.not_handsOn hhands)

/-- Who takes markers only leaves an agreement as it is. -/
theorem leaves_of_isMarker (htakes : (⟨l, params, tx, spent⟩ : Inspection).Takes os)
    (hA : l.Does agreement (.accept o)) (hmarkers : ∀ o ∈ os, l.IsMarker o)
    (hhands : ¬op.HandsOn agreement tx.txid) : Treats l tx agreement :=
  h.leaves_of_takes hl hv htakes hA (fun _ hb hmem => (hmarkers _ hmem).not_holdsBaton hb)
    (fun hmem => (hmarkers _ hmem).ne_deposit rfl) hhands

/-- Who takes the baton of one agreement, besides markers, and either its deposit or
    makes a new baton, treats every agreement in one of the three ways. -/
theorem treats_of_takes (htakes : (⟨l, params, tx, spent⟩ : Inspection).Takes os)
    (hA : l.Does agreement (.accept o)) {a b : TxId} (hb : l.HoldsBaton a b) (hmem : ⟨b, 0⟩ ∈ os)
    (hrest : ∀ o ∈ os, l.IsMarker o ∨ o = ⟨b, 0⟩ ∨ o = ⟨a, 1⟩)
    (hone : ⟨a, 1⟩ ∈ os ↔ ¬op.HandsOn a tx.txid)
    (hnew : a ≠ agreement → ¬op.HandsOn agreement tx.txid) : Treats l tx agreement := by
  by_cases hagreement : a = agreement
  · subst hagreement
    by_cases hhands : op.HandsOn a tx.txid
    · refine .passes hb (htakes.mem_spends hmem) (fun hdeposit => ?_) h.operation? hhands
      exact hone.1 (h.deposit_mem hl hv htakes hA hdeposit) hhands
    · exact .ends hb (htakes.mem_spends hmem) (htakes.mem_spends (hone.2 hhands))
        (h.not_handsOn hhands)
  · -- Another agreement has neither that baton nor that deposit.
    refine h.leaves_of_takes hl hv htakes hA (fun c hc hmem' => ?_) (fun hmem' => ?_)
      (hnew hagreement)
    · rcases hrest _ hmem' with hmarker | heq | heq
      · exact hmarker.not_holdsBaton hc
      · cases heq
        exact hagreement (hb.unique hc)
      · cases heq
    · rcases hrest _ hmem' with hmarker | heq | heq
      · exact hmarker.ne_deposit rfl
      · cases heq
      · cases heq
        exact hagreement rfl

/-- Each operation leaves an agreement, or passes its baton on, or ends it. -/
theorem treats (hA : l.Does agreement (.accept o)) : Treats l tx agreement := by
  have old : ∀ {agreement o}, l.Does agreement (.accept o) → tx.txid ≠ agreement := by
    rintro _ _ ⟨r, hr, -⟩ rfl
    cases hr.symm.trans h.admits.fresh
  -- Only an accept, a dispute and a stop of one make batons, and an accept one of a new
  -- agreement.
  cases h.obeys with
  | offer ho => exact h.leaves_of_isMarker hl hv ho.takes hA (by simp) nofun
  | stopOffer ho =>
    exact h.leaves_of_isMarker hl hv ho.takes hA (by simp [ho.offer.isMarker]) nofun
  | @accept offer r o ho =>
    by_cases hamendment : o.flags.has .amendment
    · obtain ⟨a, e, ham⟩ := ho.amends hamendment
      refine h.treats_of_takes hl hv (ho.takes_of_amends hamendment ham) hA ham.baton.holdsBaton
        (by simp) (by simp [ho.offer.isMarker]) ?_ fun _ => old hA
      simp [Operation.HandsOn, old ham.agrees.does]
    · exact h.leaves_of_isMarker hl hv (ho.takes_of_not_amendment hamendment) hA
        (by simp [ho.offer.isMarker]) (old hA)
  | close ho =>
    exact h.treats_of_takes hl hv ho.takes hA ho.baton.holdsBaton (by simp)
      (by simp [ho.offer.isMarker]) (by simp [Operation.HandsOn]) nofun
  | dispute ho =>
    exact h.treats_of_takes hl hv ho.takes hA ho.baton.holdsBaton (by simp) (by simp)
      (by simp [Operation.HandsOn, ho.agreement])
      fun hne hd => hne (ho.agreement.symm.trans hd)
  | stopDispute ho =>
    have hb := Ledger.holdsBaton_of_dispute ho.dispute ho.agreement
    exact h.treats_of_takes hl hv ho.takes hA hb (by simp) (by simp) (by simp [Operation.HandsOn])
      id
  | resolve ho =>
    have hb := Ledger.holdsBaton_of_dispute ho.dispute ho.agreement
    exact h.treats_of_takes hl hv ho.takes hA hb (by simp) (by simp) (by simp [Operation.HandsOn])
      nofun

end Enacted

/-- So does every transaction that the host admits. -/
theorem treats_of_admits {tx : Transaction} {spent : List Output}
    (ha : Host.Admits ⟨l, validators⟩ tx spent) {o : TxId} (hA : l.Does agreement (.accept o)) :
    Treats l tx agreement := by
  cases hop : tx.operation? with
  | none =>
    have noEscrow : ∀ {o out}, l.prevout? o = some out → out.lock.isEscrow → o ∉ tx.spends :=
      fun hout hescrow ho =>
        ha.no_escrow hv hl hop (List.mem_append_left _ (ha.mem_spent ho hout)) hescrow
    obtain ⟨out, hout, hescrow⟩ := isEscrow_deposit hl hv hA
    refine .leaves (fun b hb => ?_) (noEscrow hout hescrow) fun op h => by cases hop.symm.trans h
    obtain ⟨out, hout, hescrow⟩ := hb.isEscrow hl hv
    exact noEscrow hout hescrow
  | some op =>
    obtain ⟨op', henacted⟩ := ha.enacts hv hl (mem_codes_of_operation? hv hop)
    exact henacted.treats hl hv hA

end

/-! ## One baton as long as the deposit is there -/

/-- Of an agreement one baton is unspent if the deposit is, and none if it is
    spent. -/
structure Ledger.Balanced (l : Ledger) (agreement : TxId) : Prop where
  live : ⟨agreement, 1⟩ ∉ l.spends → ∃! b, l.HoldsBaton agreement b ∧ ⟨b, 0⟩ ∉ l.spends
  ended : ⟨agreement, 1⟩ ∈ l.spends → ∀ b, l.HoldsBaton agreement b → ⟨b, 0⟩ ∈ l.spends

section
variable {l : Ledger} {tx : Transaction} {agreement : TxId}

/-- A baton that can be spent is the only one. -/
theorem Ledger.Balanced.eq_of_unspent (h : l.Balanced agreement) {b b' : TxId}
    (hb : l.HoldsBaton agreement b) (hb' : l.HoldsBaton agreement b') (hunspent : ⟨b, 0⟩ ∉ l.spends)
    (hunspent' : ⟨b', 0⟩ ∉ l.spends) : b = b' := by
  by_cases hdeposit : ⟨agreement, 1⟩ ∈ l.spends
  · exact absurd (h.ended hdeposit b hb) hunspent
  · obtain ⟨c, -, honly⟩ := h.live hdeposit
    exact (honly b ⟨hb, hunspent⟩).trans (honly b' ⟨hb', hunspent'⟩).symm

namespace Ledger.Balanced

variable (h : l.Balanced agreement) (hfresh : l.record? tx.txid = none)
include h hfresh

/-- An agreement that a transaction leaves as it is stays balanced. -/
theorem leaves (hbaton : ∀ b, l.HoldsBaton agreement b → ⟨b, 0⟩ ∉ tx.spends)
    (hdeposit : ⟨agreement, 1⟩ ∉ tx.spends)
    (hhands : ∀ op, tx.operation? = some op → ¬op.HandsOn agreement tx.txid) :
    (l.insert tx).Balanced agreement := by
  have hsame : ∀ b, (l.insert tx).HoldsBaton agreement b ↔ l.HoldsBaton agreement b := by
    intro b
    rw [holdsBaton_insert_iff hfresh, or_iff_left]
    rintro ⟨-, op, hop, hhands'⟩
    exact hhands op hop hhands'
  have hspent : ∀ b, l.HoldsBaton agreement b →
      (⟨b, 0⟩ ∈ (l.insert tx).spends ↔ ⟨b, 0⟩ ∈ l.spends) := by
    intro b hb
    rw [spends_insert, List.mem_append, or_iff_left (hbaton b hb)]
  refine ⟨fun hdeposit' => ?_, fun hdeposit' b hb => ?_⟩
  · rw [spends_insert, List.mem_append, or_iff_left hdeposit] at hdeposit'
    obtain ⟨b, ⟨hb, hb'⟩, honly⟩ := h.live hdeposit'
    refine ⟨b, ⟨(hsame b).2 hb, (hspent b hb).not.2 hb'⟩, ?_⟩
    rintro c ⟨hc, hc'⟩
    have hc := (hsame c).1 hc
    exact honly c ⟨hc, (hspent c hc).not.1 hc'⟩
  · rw [spends_insert, List.mem_append, or_iff_left hdeposit] at hdeposit'
    have hb := (hsame b).1 hb
    exact (hspent b hb).2 (h.ended hdeposit' b hb)

/-- The new baton is then the only one that is unspent. -/
theorem passes {b : TxId} {op : Operation} (hb : l.HoldsBaton agreement b)
    (hb' : ⟨b, 0⟩ ∉ l.spends) (hmem : ⟨b, 0⟩ ∈ tx.spends) (hdeposit : ⟨agreement, 1⟩ ∉ tx.spends)
    (hop : tx.operation? = some op) (hhands : op.HandsOn agreement tx.txid)
    (hnew : ⟨tx.txid, 0⟩ ∉ l.spends ++ tx.spends) : (l.insert tx).Balanced agreement := by
  refine ⟨fun _ => ?_, fun hdeposit' => ?_⟩
  · refine ⟨tx.txid, ⟨(holdsBaton_insert_iff hfresh).2 (.inr ⟨rfl, op, hop, hhands⟩), ?_⟩, ?_⟩
    · rwa [spends_insert]
    · rintro c ⟨hc, hc'⟩
      rw [spends_insert, List.mem_append, not_or] at hc'
      rcases (holdsBaton_insert_iff hfresh).1 hc with hc | ⟨rfl, -⟩
      · cases h.eq_of_unspent hc hb hc'.1 hb'
        exact absurd hmem hc'.2
      · rfl
  · -- A baton that can be spent shows that the deposit was not spent before.
    rw [spends_insert, List.mem_append, or_iff_left hdeposit] at hdeposit'
    exact absurd (h.ended hdeposit' b hb) hb'

/-- The baton that is spent was then the only one that was unspent. -/
theorem ends {b : TxId} (hb : l.HoldsBaton agreement b) (hb' : ⟨b, 0⟩ ∉ l.spends)
    (hmem : ⟨b, 0⟩ ∈ tx.spends) (hdeposit : ⟨agreement, 1⟩ ∈ tx.spends)
    (hhands : ∀ op, tx.operation? = some op → ¬op.HandsOn agreement tx.txid) :
    (l.insert tx).Balanced agreement := by
  refine ⟨fun hdeposit' => ?_, fun _ c hc => ?_⟩
  · rw [spends_insert] at hdeposit'
    exact absurd (List.mem_append_right _ hdeposit) hdeposit'
  · rw [spends_insert, List.mem_append]
    rcases (holdsBaton_insert_iff hfresh).1 hc with hc | ⟨-, op, hop, hhands'⟩
    · by_contra hc'
      rw [not_or] at hc'
      cases h.eq_of_unspent hc hb hc'.1 hb'
      exact hc'.2 hmem
    · exact absurd hhands' (hhands op hop)

/-- A new transaction keeps an agreement balanced, whatever it does to it. -/
theorem insert (ht : Treats l tx agreement) (hunspent : ∀ o ∈ tx.spends, o ∉ l.spends)
    (hnew : ∀ vout, ⟨tx.txid, vout⟩ ∉ l.spends ++ tx.spends) :
    (l.insert tx).Balanced agreement := by
  cases ht with
  | leaves hbaton hdeposit hhands => exact h.leaves hfresh hbaton hdeposit hhands
  | passes hb hmem hdeposit hop hhands =>
    exact h.passes hfresh hb (hunspent _ hmem) hmem hdeposit hop hhands (hnew 0)
  | ends hb hmem hdeposit hhands =>
    exact h.ends hfresh hb (hunspent _ hmem) hmem hdeposit hhands

end Ledger.Balanced

/-- A new agreement is balanced. -/
theorem Ledger.Balanced.accept (hold : ∀ b, ¬l.HoldsBaton tx.txid b)
    (hfresh : l.record? tx.txid = none) {o : TxId} (hop : tx.operation? = some (.accept o))
    (hnew : ∀ vout, ⟨tx.txid, vout⟩ ∉ l.spends ++ tx.spends) : (l.insert tx).Balanced tx.txid := by
  refine ⟨fun _ => ?_, fun hdeposit => ?_⟩
  · refine ⟨tx.txid, ⟨(holdsBaton_insert_iff hfresh).2 (.inr ⟨rfl, _, hop, rfl⟩), ?_⟩, ?_⟩
    · rw [spends_insert]
      exact hnew 0
    · rintro c ⟨hc, -⟩
      rcases (holdsBaton_insert_iff hfresh).1 hc with hc | ⟨rfl, -⟩
      · exact absurd hc (hold c)
      · rfl
  · rw [spends_insert] at hdeposit
    exact absurd hdeposit (hnew 1)

end

/-! ## Over a run -/

variable {validators : List Validator} {params : Params} {l m : Ledger}

/-- No outpoint that is spent names an output of a transaction to be recorded. -/
theorem Ledger.Sound.not_mem_spends {l : Ledger} {tx : Transaction} (hl : l.Sound)
    (hfresh : l.record? tx.txid = none)
    (hexists : ∀ o ∈ tx.spends, ∃ out, l.prevout? o = some out) (vout : UInt32) :
    ⟨tx.txid, vout⟩ ∉ l.spends ++ tx.spends := by
  intro hmem
  obtain ⟨out, hout⟩ := (List.mem_append.1 hmem).elim (hl.exists_of_spent _) (hexists _)
  obtain ⟨r, hr, -⟩ := prevout?_eq_some_iff.1 hout
  cases hr.symm.trans hfresh

/-- A turn keeps every agreement balanced, and begins balanced ones. -/
theorem Turn.balanced (h : Turn validators l m) (hl : Reachable validators l)
    (hv : KeepsRules validators params)
    (hbalanced : ∀ A o, l.Does A (.accept o) → l.Balanced A) {A o : TxId}
    (hA : m.Does A (.accept o)) : m.Balanced A := by
  cases h with
  | count => exact ⟨(hbalanced A o hA).live, (hbalanced A o hA).ended⟩
  | fund key value nonce hvalue hfresh =>
    rcases (Ledger.does_insert_iff hfresh).1 hA with hA | ⟨-, hop⟩
    · refine (hbalanced A o hA).insert hfresh (.leaves ?_ ?_ ?_) nofun
        (hl.sound.not_mem_spends hfresh nofun)
      · exact fun _ _ => List.not_mem_nil
      · exact List.not_mem_nil
      · exact nofun
    · cases hop
  | @record tx spent ha =>
    have hnew := hl.sound.not_mem_spends ha.fresh fun _ => ha.exists_prevout
    -- The agreement is an old one, or begins with this transaction.
    rcases (Ledger.does_insert_iff ha.fresh).1 hA with hA | ⟨rfl, hop⟩
    · exact (hbalanced A o hA).insert ha.fresh (treats_of_admits hl hv ha hA)
        (fun o ho => Ledger.spentBy?_eq_none_iff.1 (ha.unspent ho)) hnew
    · refine .accept (fun b hb => ?_) ha.fresh hop hnew
      obtain ⟨o', r, hr, -⟩ := hb.exists_accept hl hv
      cases hr.symm.trans ha.fresh
  | mine =>
    have h := hbalanced A o (Ledger.does_mine_iff.1 hA)
    refine ⟨?_, ?_⟩
    · simpa [Ledger.holdsBaton_mine_iff] using h.live
    · simpa [Ledger.holdsBaton_mine_iff] using h.ended
  | notarize => exact ⟨(hbalanced A o hA).live, (hbalanced A o hA).ended⟩

/-- Every recorded agreement is balanced. -/
theorem Reachable.balanced (hl : Reachable validators l) (hv : KeepsRules validators params)
    {A o : TxId} (hA : l.Does A (.accept o)) : l.Balanced A := by
  obtain ⟨genesis, blockTime, hlead⟩ := hl
  induction hlead generalizing A o with
  | refl =>
    obtain ⟨r, hr, -⟩ := hA
    cases hr
  | tail hlead hturn ih =>
    exact hturn.balanced ⟨genesis, blockTime, hlead⟩ hv (fun _ _ => ih) hA

end Escrow
