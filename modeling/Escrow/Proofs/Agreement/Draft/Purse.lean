import Escrow.Proofs.Agreement.Draft.Funding
import Escrow.Proofs.Agreement.Layout

/-!
# The purse of a key

The purse of a key is what pays for its drafts: the unspent outputs that are locked
with the key alone, in the order of the ledger (`Ledger.purse`). A drafter finds
them by the address of the key. That finds these and no other outputs if no other
lock has the same address, and nothing of them is left out then, as what a plan
spends already is in escrow (`Drafter.coins_eq`).

Of the coins, confirmed ones first, the drafter takes the shortest prefix that
reaches a sum, though at least one coin (`Coin.isShortest_enough`). If all of them
do not reach it, no prefix does (`Coin.total_enough_lt`).
-/

namespace Escrow

/-! ## Shortest prefixes -/

namespace Coin

variable {c : Coin} {cs : List Coin} {need : Int}

@[simp] theorem total_nil : total [] = 0 := rfl

@[simp] theorem total_cons : total (c :: cs) = c.value.toInt + total cs := rfl

/-- The shortest prefix of coins that reaches a sum and is not empty. -/
structure IsShortest (need : Int) (cs picked : List Coin) : Prop where
  isPrefix : picked <+: cs
  ne_nil : picked ≠ []
  le_total : need ≤ total picked
  shortest : ∀ q, q <+: cs → q ≠ [] → need ≤ total q → picked <+: q

/-- Some coin is taken if there is one. -/
theorem enough_ne_nil (hne : cs ≠ []) : enough need cs ≠ [] := by
  cases cs with
  | nil => exact absurd rfl hne
  | cons c cs =>
    rw [enough]
    split
    · exact List.cons_ne_nil _ _
    · exact List.cons_ne_nil _ _

/-- What is taken reaches the sum if all coins together do. -/
theorem le_total_enough (hne : cs ≠ []) (h : need ≤ total cs) : need ≤ total (enough need cs) := by
  induction cs generalizing need with
  | nil => exact absurd rfl hne
  | cons c cs ih =>
    rw [total_cons] at h
    rw [enough]
    split
    · simpa
    · next hmore =>
      -- The first coin is not enough, so there are others.
      have hne' : cs ≠ [] := by
        rintro rfl
        rw [total_nil] at h
        omega
      have hrest : need - c.value.toInt ≤ total cs := by omega
      have := ih hne' hrest
      rw [total_cons]
      omega

/-- What is taken is a part of every prefix that reaches the sum. -/
theorem enough_isPrefix {q : List Coin} (hq : q <+: cs) (hne : q ≠ []) (h : need ≤ total q) :
    enough need cs <+: q := by
  induction cs generalizing need q with
  | nil => exact List.nil_prefix
  | cons c cs ih =>
    cases q with
    | nil => exact absurd rfl hne
    | cons c' q =>
      obtain ⟨rfl, hq'⟩ := List.cons_prefix_cons.1 hq
      rw [total_cons] at h
      rw [enough]
      -- The first coin is in every prefix that is not empty, and may be enough.
      split
      · exact ⟨q, rfl⟩
      · next hmore =>
        have hne' : q ≠ [] := by
          rintro rfl
          rw [total_nil] at h
          omega
        exact List.cons_prefix_cons.2 ⟨rfl, ih hq' hne' (by omega)⟩

/-- What is taken is the shortest prefix that reaches the sum. -/
theorem isShortest_enough (hne : cs ≠ []) (h : need ≤ total cs) :
    IsShortest need cs (enough need cs) where
  isPrefix := enough_prefix need cs
  ne_nil := enough_ne_nil hne
  le_total := le_total_enough hne h
  shortest _ hq hne h := enough_isPrefix hq hne h

/-- If all coins together do not reach the sum, neither does what is taken. -/
theorem total_enough_lt (hcs : ∀ c ∈ cs, 0 ≤ c.value.toInt) (h : total cs < need) :
    total (enough need cs) < need := by
  have hvalues : ∀ n ∈ cs.map fun c => c.value.toInt, 0 ≤ n := List.forall_mem_map.2 hcs
  have hsub := (Coin.enough_prefix need cs).sublist
  exact Int.lt_of_le_of_lt ((hsub.map _).sum_le_sum hvalues) h

end Coin

/-! ## What pays for drafts -/

/-- The unspent outputs that are locked with a key alone, in the order of the ledger. -/
def Ledger.purse (l : Ledger) (k : PublicKey) : List Coin :=
  (l.unspent.filter fun c => c.output.lock = .key k).map fun c =>
    ⟨c.outpoint, c.output.value, l.heightOf? c.txid⟩

/-- The purse of a drafter, confirmed outputs first. -/
def Drafter.purse (d : Drafter) : List Coin :=
  let mine := d.ledger.purse d.key
  mine.filter (·.height.isSome) ++ mine.filter (·.height.isNone)

/-- Confirmed outputs first, the purse is still the same outputs. -/
theorem Drafter.purse_perm (d : Drafter) : d.purse.Perm (d.ledger.purse d.key) :=
  Coin.confirmedFirst_perm _

/-- No other lock of a recorded output has the address of a key. -/
def Ledger.AddressFree (l : Ledger) (k : PublicKey) : Prop :=
  ∀ c ∈ l.outputs, Address.ofLock? c.output.lock = some (.ofKey k) → c.output.lock = .key k

section
variable {l : Ledger} {k : PublicKey} {c : Coin}
variable (hl : l.Sound) (hn : l.Nameable)
include hl hn

/-- The outputs at an address are those that an outpoint names, with their values and
    heights. -/
theorem Ledger.outputsAt_eq (a : Address) :
    l.outputsAt a =
      (l.outputs.filter fun c => Address.ofLock? c.output.lock = some a).map fun c =>
        ⟨c.outpoint, c.output.value, l.heightOf? c.txid⟩ := by
  rw [outputsAt, outpointsAt_eq, List.filterMap_map, ← List.filterMap_eq_map]
  refine List.filterMap_congr fun c hc => ?_
  have hc := List.mem_of_mem_filter hc
  obtain ⟨-, -, hprevout⟩ := holding?_eq_some_iff.1 (holding?_outpoint hl hn hc)
  obtain ⟨r, hr, hout⟩ := prevout?_eq_some_iff.1 hprevout
  have hheight : l.heightOf? c.txid = r.height := by
    rw [heightOf?, show l.record? c.txid = some r from hr]
    rfl
  simp [hr, hout, hheight]

/-- An output is unspent if nothing spends its outpoint. -/
theorem Ledger.spentBy?_outpoint_eq_none_iff {c : Holding} (hc : c ∈ l.outputs) :
    l.spentBy? c.outpoint = none ↔ c ∈ l.unspent := by
  obtain ⟨hid, hvout, -⟩ := holding?_eq_some_iff.1 (holding?_outpoint hl hn hc)
  rw [spentBy?_eq_none_iff, mem_unspent_iff, Holding.isNamedIn_iff_mem hid hvout,
    and_iff_right hc]

/-- A coin of a purse is an unspent output that is locked with the key. -/
theorem Ledger.prevout?_of_mem_purse (hc : c ∈ l.purse k) :
    l.prevout? c.outpoint = some ⟨c.value, .key k⟩ ∧ l.spentBy? c.outpoint = none := by
  obtain ⟨h, hh, rfl⟩ := List.mem_map.1 hc
  obtain ⟨hunspent, hlock⟩ := List.mem_filter.1 hh
  have hout := (mem_unspent_iff.1 hunspent).1
  obtain ⟨-, -, hprevout⟩ := holding?_eq_some_iff.1 (holding?_outpoint hl hn hout)
  refine ⟨?_, (spentBy?_outpoint_eq_none_iff hl hn hout).2 hunspent⟩
  rw [hprevout, ← of_decide_eq_true hlock]

/-- No coin is there twice. -/
theorem Ledger.nodup_purse : ((l.purse k).map Coin.outpoint).Nodup := by
  rw [purse, List.map_map]
  refine List.Nodup.map_on (fun c hc c' hc' heq => ?_) ((hl.nodup_outputs.filter _).filter _)
  have hmem := fun {c : Holding} (hc : c ∈ l.unspent.filter fun c => c.output.lock = .key k) =>
    holding?_outpoint hl hn (mem_unspent_iff.1 (List.mem_of_mem_filter hc)).1
  have h := hmem hc
  change c.outpoint = c'.outpoint at heq
  rw [heq, hmem hc'] at h
  exact (Option.some.inj h).symm

variable (hfree : l.AddressFree k)
include hfree

/-- What is unspent at the address of a key is its purse. -/
theorem Ledger.unspentAt_eq_purse : l.unspentAt (.ofKey k) = l.purse k := by
  rw [unspentAt, outputsAt_eq hl hn, List.filter_map, purse, unspent, List.filter_filter,
    List.filter_filter]
  refine congrArg _ (List.filter_congr fun c hc => ?_)
  have hunspent : (l.spentBy? c.outpoint).isNone = !c.isNamedIn l.spends := by
    rw [Bool.eq_iff_iff, Option.isNone_iff_eq_none, spentBy?_outpoint_eq_none_iff hl hn hc,
      mem_unspent_iff, and_iff_right hc, Bool.not_eq_true', Bool.not_eq_true]
  have haddress : Address.ofLock? c.output.lock = some (.ofKey k) ↔ c.output.lock = .key k := by
    refine ⟨hfree c hc, fun h => ?_⟩
    rw [h]
    rfl
  simp only [Function.comp_apply, hunspent, haddress, Bool.and_comm]

/-- The coins of a drafter are the whole purse, as all that a plan spends is in
    escrow. -/
theorem Drafter.coins_eq {params : Params} {os : List Outpoint} (hos : ∀ o ∈ os, l.InEscrow o) :
    (⟨l, params, k⟩ : Drafter).coins os = (⟨l, params, k⟩ : Drafter).purse := by
  have hmine : (l.purse k).filter (fun c => !os.contains c.outpoint) = l.purse k := by
    rw [List.filter_eq_self]
    intro c hc
    rw [Bool.not_eq_true', Bool.eq_false_iff, ne_eq, List.contains_iff_mem]
    intro hmem
    obtain ⟨hprevout, -⟩ := Ledger.prevout?_of_mem_purse hl hn hc
    obtain ⟨out, hout, hescrow⟩ := hos _ hmem
    cases hprevout.symm.trans hout
    cases hescrow
  rw [coins, purse]
  dsimp only
  rw [Ledger.unspentAt_eq_purse hl hn hfree, hmine]

end

end Escrow
