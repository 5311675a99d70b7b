import Escrow.Proofs.Host.Admission
import Escrow.Proofs.Ledger.Growth
import Mathlib.Logic.Relation

/-!
# Runs

What a host does to its ledger is one of five *turns* (`Turn`): it counts a
funding, records one, records a transaction that it admits, makes a block, or
notarizes. A ledger is *reachable* under some contracts if turns lead to it from
an empty one, and every ledger of a run is (`reachable_run`).

A record of a run is a funding, or was submitted in its course (`mem_records_run`).

Every turn keeps a ledger sound and lets it grow. So each record of a reachable
ledger has an *origin* (`Reachable.origin`): it is a funding, or was admitted to
an earlier reachable ledger. What its admission took was true there, and most of
it stays true as the ledger grows.
-/

namespace Escrow

open Relation

/-- One thing that a host with some contracts may do to its ledger. -/
inductive Turn (validators : List Validator) (l : Ledger) : Ledger → Prop
  | count (nonce : UInt32) : Turn validators l { l with nonce }
  | fund (key : PublicKey) (value : Amount) (nonce : UInt32) :
    0 < value → l.record? (Host.funding key value nonce).txid = none →
    Turn validators l (l.insert (Host.funding key value nonce))
  | record {tx : Transaction} {spent : List Output} :
    Host.Admits ⟨l, validators⟩ tx spent → Turn validators l (l.insert tx)
  | mine : Turn validators l l.mine
  | notarize (height : Nat) :
    height ≤ l.height → Turn validators l { l with notarized := max l.notarized height }

/-- The ledgers that turns lead to from one. -/
abbrev Leads (validators : List Validator) : Ledger → Ledger → Prop :=
  ReflTransGen (Turn validators)

/-- The ledgers that turns lead to from an empty one. -/
def Reachable (validators : List Validator) (l : Ledger) : Prop :=
  ∃ genesis blockTime, Leads validators { genesis, blockTime } l

variable {validators : List Validator} {l m : Ledger}

/-- What a reachable ledger leads to is reachable. -/
theorem Reachable.leads (hl : Reachable validators l) (h : Leads validators l m) :
    Reachable validators m := by
  obtain ⟨genesis, blockTime, hlead⟩ := hl
  exact ⟨genesis, blockTime, hlead.trans h⟩

/-- A block has the transactions that were recorded before it. -/
theorem Ledger.exists_mem_of_mem_mine {s : Record} (hs : s ∈ l.mine.records) :
    ∃ r ∈ l.records, r.txid = s.txid ∧ r.tx = s.tx := by
  rw [records_mine] at hs
  obtain ⟨r, hr, rfl⟩ := List.mem_map.1 hs
  exact ⟨r, hr, rfl, rfl⟩

/-! ## Hosts take turns -/

namespace Host

variable {h : Host}

/-- Blocks lead from a ledger to the next, and leave the contracts alone. -/
theorem leads_advance (blocks : Nat) :
    Leads validators l ((⟨l, validators⟩ : Host).advance blocks).ledger ∧
      ((⟨l, validators⟩ : Host).advance blocks).validators = validators := by
  induction blocks generalizing l with
  | zero => exact ⟨.refl, rfl⟩
  | succ n ih => exact ⟨.head .mine ih.1, ih.2⟩

/-- A command takes turns and leaves the contracts as they are. -/
theorem leads_step (h : Host) (c : Command) :
    Leads h.validators h.ledger (h.step c).ledger ∧ (h.step c).validators = h.validators := by
  obtain ⟨l, validators⟩ := h
  cases c with
  | fund key value =>
    rw [step, fund]
    split
    · exact ⟨.refl, rfl⟩
    · next hvalue =>
      dsimp only
      split
      · exact ⟨.single (.count _), rfl⟩
      · next hfresh =>
        -- Three turns: the funding is counted, recorded and put in a block.
        refine ⟨.head (.count _) (.head (.fund key value _ ?_ ?_) (.single .mine)), rfl⟩
        · exact Int64.not_le.1 hvalue
        · exact Option.not_isSome_iff_eq_none.1 hfresh
  | submit tx =>
    rw [step, submit]
    split
    · exact ⟨.refl, rfl⟩
    · next id hid =>
      obtain ⟨-, spent, hspent⟩ := check_eq_ok_iff.1 hid
      exact ⟨.single (.record hspent), rfl⟩
  | mine => exact ⟨.single .mine, rfl⟩
  | advance blocks => exact leads_advance blocks
  | notarize height =>
    rw [step, notarize]
    split
    · exact ⟨.refl, rfl⟩
    · next hheight => exact ⟨.single (.notarize height (Nat.not_lt.1 hheight)), rfl⟩

/-- So does a run. -/
theorem leads_run (h : Host) (cs : List Command) :
    Leads h.validators h.ledger (h.run cs).ledger ∧ (h.run cs).validators = h.validators := by
  induction cs generalizing h with
  | nil => exact ⟨.refl, rfl⟩
  | cons c cs ih =>
    obtain ⟨hstep, hvalidators⟩ := leads_step h c
    obtain ⟨hrun, hvalidators'⟩ := ih (h.step c)
    rw [hvalidators] at hrun
    exact ⟨hstep.trans hrun, hvalidators'.trans hvalidators⟩

/-- A run can be cut in two at any command. -/
theorem run_append (h : Host) (cs cs' : List Command) : h.run (cs ++ cs') = (h.run cs).run cs' :=
  List.foldl_append

/-- The ledger of every run from an empty one is reachable. -/
theorem reachable_run (genesis : Timestamp) (blockTime : UInt64) (validators : List Validator)
    (cs : List Command) :
    Reachable validators ((⟨{ genesis, blockTime }, validators⟩ : Host).run cs).ledger :=
  ⟨genesis, blockTime, (leads_run ⟨{ genesis, blockTime }, validators⟩ cs).1⟩

/-! ## Submissions -/

section
variable {tx : Transaction} {id : TxId}

/-- A transaction that is admitted is recorded under the id that the check gives. -/
theorem insert_of_check (hcheck : h.check tx = .ok id) :
    h.ledger.insert tx = { h.ledger with records := h.ledger.records ++ [⟨id, tx, none⟩] } := by
  rw [Ledger.insert, ← (check_eq_ok_iff.1 hcheck).1]

/-- What is admitted is recorded when it is submitted. -/
theorem run_submit_of_check (hcheck : h.check tx = .ok id) :
    (h.run [.submit tx]).ledger = h.ledger.insert tx := by
  rw [run, List.foldl_cons, step, submit, hcheck]
  rfl

/-- What is admitted and submitted gets into the next block. -/
theorem run_submit_mine_of_check (hcheck : h.check tx = .ok id) :
    (h.run [.submit tx, .mine]).ledger = (h.ledger.insert tx).mine := by
  rw [← run_submit_of_check hcheck]
  rfl

end

/-- Blocks record nothing new. -/
theorem exists_mem_of_mem_advance {blocks : Nat} {s : Record}
    (hs : s ∈ (h.advance blocks).ledger.records) :
    ∃ r ∈ h.ledger.records, r.txid = s.txid ∧ r.tx = s.tx := by
  induction blocks generalizing h with
  | zero => exact ⟨s, hs, rfl, rfl⟩
  | succ n ih =>
    obtain ⟨t, ht, hid, htx⟩ := ih hs
    obtain ⟨r, hr, hid', htx'⟩ := Ledger.exists_mem_of_mem_mine ht
    exact ⟨r, hr, hid'.trans hid, htx'.trans htx⟩

/-- What is recorded after a command was recorded before it, is a funding with the number
    that the count has come to, or was submitted and passed. -/
theorem mem_records_step (h : Host) (c : Command) {s : Record}
    (hs : s ∈ (h.step c).ledger.records) :
    (∃ r ∈ h.ledger.records, r.txid = s.txid ∧ r.tx = s.tx) ∨
      (∃ key value, s.tx = funding key value (h.step c).ledger.nonce) ∨
        (c = .submit s.tx ∧ h.check s.tx = .ok s.txid) := by
  -- A record of the next ledger comes of the command, or was there before, up to its height.
  cases c with
  | fund key value =>
    rw [step, fund] at hs ⊢
    split
    · next hvalue =>
      rw [if_pos hvalue] at hs
      exact .inl ⟨s, hs, rfl, rfl⟩
    · next hvalue =>
      rw [if_neg hvalue] at hs
      dsimp only at hs ⊢
      split
      · next hknown =>
        rw [if_pos hknown] at hs
        exact .inl ⟨s, hs, rfl, rfl⟩
      · next hfresh =>
        rw [if_neg hfresh] at hs
        obtain ⟨r, hr, hid, htx⟩ := Ledger.exists_mem_of_mem_mine hs
        rw [Ledger.records_insert, List.mem_append, List.mem_singleton] at hr
        rcases hr with hr | rfl
        · exact .inl ⟨r, hr, hid, htx⟩
        · refine .inr (.inl ⟨key, value, ?_⟩)
          rw [Ledger.nonce_mine]
          exact htx.symm
  | submit tx =>
    rw [step, submit] at hs
    split at hs
    · exact .inl ⟨s, hs, rfl, rfl⟩
    · next id hid =>
      rw [Ledger.records_insert, List.mem_append, List.mem_singleton] at hs
      rcases hs with hs | rfl
      · exact .inl ⟨s, hs, rfl, rfl⟩
      · obtain ⟨rfl, -⟩ := check_eq_ok_iff.1 hid
        exact .inr (.inr ⟨rfl, hid⟩)
  | mine => exact .inl (Ledger.exists_mem_of_mem_mine hs)
  | advance blocks => exact .inl (exists_mem_of_mem_advance hs)
  | notarize height =>
    rw [step, notarize] at hs
    split at hs <;> exact .inl ⟨s, hs, rfl, rfl⟩

/-- What is recorded after a run was recorded before it, is a funding, or passed when
    it was submitted in the course of the run. -/
theorem mem_records_run (h : Host) (cs : List Command) {s : Record}
    (hs : s ∈ (h.run cs).ledger.records) :
    (∃ r ∈ h.ledger.records, r.txid = s.txid ∧ r.tx = s.tx) ∨
      (∃ key value nonce, s.tx = funding key value nonce) ∨
        ∃ before after, cs = before ++ .submit s.tx :: after ∧
          (h.run before).check s.tx = .ok s.txid := by
  -- By induction on the commands, for every host that they may begin with.
  induction cs generalizing h with
  | nil => exact .inl ⟨s, hs, rfl, rfl⟩
  | cons c cs ih =>
    rcases ih (h.step c) hs with ⟨r, hr, hid, htx⟩ | hfund | ⟨before, after, hcs, hcheck⟩
    · -- Unless it was there before, it is the first command that recorded it.
      rcases mem_records_step h c hr with ⟨q, hq, hid', htx'⟩ | hfund | ⟨hc, hcheck⟩
      · exact .inl ⟨q, hq, hid'.trans hid, htx'.trans htx⟩
      · obtain ⟨key, value, hfund⟩ := hfund
        exact .inr (.inl ⟨key, value, _, htx ▸ hfund⟩)
      · rw [htx] at hc
        rw [htx, hid] at hcheck
        exact .inr (.inr ⟨[], cs, by rw [hc, List.nil_append], hcheck⟩)
    · exact .inr (.inl hfund)
    · exact .inr (.inr ⟨c :: before, after, by rw [hcs, List.cons_append], hcheck⟩)

end Host

/-! ## What turns keep -/

theorem spends_funding (key : PublicKey) (value : Amount) (nonce : UInt32) :
    (Host.funding key value nonce).spends = [] := rfl

theorem Ledger.Sound.empty (genesis : Timestamp) (blockTime : UInt64) :
    ({ genesis, blockTime } : Ledger).Sound where
  txid_eq := nofun
  nodup_txids := .nil
  nodup_spends := .nil
  exists_of_spent := nofun
  height_le := nofun

/-- A turn keeps a ledger sound. -/
theorem Turn.sound (h : Turn validators l m) (hl : l.Sound) : m.Sound := by
  cases h with
  | count => exact ⟨hl.1, hl.2, hl.3, hl.4, hl.5⟩
  | fund key value nonce _ hfresh =>
    refine hl.insert hfresh ?_ ?_ ?_
    · exact .nil
    · exact nofun
    · exact nofun
  | record ha => exact ha.sound hl
  | mine => exact hl.mine
  | notarize => exact ⟨hl.1, hl.2, hl.3, hl.4, hl.5⟩

/-- A turn only adds to a ledger. -/
theorem Turn.grows (h : Turn validators l m) : l.Grows m := by
  cases h with
  | count => exact .of_records_eq rfl rfl (Nat.le_refl _)
  | fund => exact .insert l _
  | record => exact .insert l _
  | mine => exact .mine l
  | notarize => exact .of_records_eq rfl rfl (Nat.le_max_left _ _)

/-- A ledger leads only to larger ones. -/
theorem grows_of_leads (h : Leads validators l m) : l.Grows m := by
  induction h with
  | refl => exact .refl l
  | tail _ hturn ih => exact ih.trans hturn.grows

namespace Reachable

/-- A reachable ledger is sound, by induction on its turns. -/
theorem sound (hl : Reachable validators l) : l.Sound := by
  obtain ⟨genesis, blockTime, h⟩ := hl
  induction h with
  | refl => exact .empty genesis blockTime
  | tail _ hturn ih => exact hturn.sound ih

/-! ## Origins -/

/-- A transaction was admitted to a reachable ledger that has grown into `l`. -/
def Admitted (validators : List Validator) (l : Ledger) (tx : Transaction) : Prop :=
  ∃ before spent, Reachable validators before ∧ Host.Admits ⟨before, validators⟩ tx spent ∧
    (before.insert tx).Grows l

/-- Every recorded transaction is a funding or was admitted. -/
theorem origin (hl : Reachable validators l) {r : Record} (hr : r ∈ l.records) :
    (∃ key value nonce, 0 < value ∧ r.tx = Host.funding key value nonce) ∨
      Admitted validators l r.tx := by
  obtain ⟨genesis, blockTime, h⟩ := hl
  induction h generalizing r with
  | refl => cases hr
  | @tail m n hlead hturn ih =>
    have hreach : Reachable validators m := ⟨genesis, blockTime, hlead⟩
    -- What was recorded before the turn has its origin already.
    have later : ∀ s ∈ m.records, s.tx = r.tx →
        (∃ key value nonce, 0 < value ∧ r.tx = Host.funding key value nonce) ∨
          Admitted validators n r.tx := by
      intro s hs htx
      rcases ih hs with hfund | ⟨before, spent, hbefore, ha, hgrows⟩
      · exact .inl (htx ▸ hfund)
      · exact .inr ⟨before, spent, hbefore, htx ▸ ha, htx ▸ hgrows.trans hturn.grows⟩
    cases hturn with
    | count => exact later r hr rfl
    | fund key value nonce hvalue =>
      rcases List.mem_append.1 hr with hr | hr
      · exact later r hr rfl
      · rw [List.mem_singleton.1 hr]
        exact .inl ⟨key, value, nonce, hvalue, rfl⟩
    | record ha =>
      rcases List.mem_append.1 hr with hr | hr
      · exact later r hr rfl
      · rw [List.mem_singleton.1 hr]
        exact .inr ⟨m, _, hreach, ha, .refl _⟩
    | mine =>
      obtain ⟨s, hs, -, htx⟩ := Ledger.exists_mem_of_mem_mine hr
      exact later s hs htx
    | notarize => exact later r hr rfl

end Reachable

end Escrow
