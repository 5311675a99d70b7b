import Escrow.Proofs.Ledger.Outputs

/-!
# Coins

The coins of an address are the unspent outputs whose lock has it, each found once
(`exists_prevout_of_mem_unspentAt`, `nodup_unspentAt`). They are listed by the
outpoints that name them, so all this holds as long as every output has a position
that an outpoint can name (`Ledger.Nameable`): a coin further back would be taken
for one at the front.
-/

namespace Escrow

/-- The outpoint of an output, its position cut to the 32 bits of one. -/
def Holding.outpoint (c : Holding) : Outpoint :=
  ⟨c.txid, UInt32.ofNat c.vout⟩

namespace Ledger

/-- Every output has a position that an outpoint can name. -/
def Nameable (l : Ledger) : Prop :=
  ∀ c ∈ l.outputs, c.vout < 0x100000000

variable {l : Ledger} {a : Address} {c : Coin}

/-- The outpoints found at an address are those of the outputs whose lock has it. -/
theorem outpointsAt_eq (l : Ledger) (a : Address) :
    l.outpointsAt a =
      (l.outputs.filter fun c => Address.ofLock? c.output.lock = some a).map Holding.outpoint := by
  rw [outpointsAt, outputs, List.filter_flatMap, List.map_flatMap]
  refine congrArg (List.flatMap · l.records) (funext fun r => ?_)
  rw [Record.outputs, List.filter_map, List.map_map, ← List.filterMap_eq_map,
    List.filterMap_filter]
  refine List.filterMap_congr fun p _ => ?_
  rcases p with ⟨out, vout⟩
  by_cases h : Address.ofLock? out.lock = some a <;> simp [h, Holding.outpoint]

section
variable (hl : l.Sound) (hn : l.Nameable)
include hl hn

/-- The outpoint of an output names it. -/
theorem holding?_outpoint {c : Holding} (hc : c ∈ l.outputs) : l.holding? c.outpoint = some c :=
  hl.holding?_of_mem_outputs hc rfl (UInt32.toNat_ofNat_of_lt' (hn c hc))

/-- No output is found twice at an address. -/
theorem nodup_outpointsAt : (l.outpointsAt a).Nodup := by
  rw [outpointsAt_eq]
  refine List.Nodup.map_on (fun c hc c' hc' heq => ?_) (hl.nodup_outputs.filter _)
  have h := holding?_outpoint hl hn (List.mem_of_mem_filter hc)
  have h' := holding?_outpoint hl hn (List.mem_of_mem_filter hc')
  rw [heq] at h
  exact Option.some.inj (h.symm.trans h')

/-- A coin of an address is an unspent output whose lock has it. -/
theorem exists_prevout_of_mem_unspentAt (hc : c ∈ l.unspentAt a) :
    (∃ out, l.prevout? c.outpoint = some out ∧ Address.ofLock? out.lock = some a ∧
      out.value = c.value) ∧ l.spentBy? c.outpoint = none := by
  rw [unspentAt, List.mem_filter, outputsAt, List.mem_filterMap] at hc
  obtain ⟨⟨o, ho, hcoin⟩, hunspent⟩ := hc
  refine ⟨?_, Option.isNone_iff_eq_none.1 hunspent⟩
  simp only [Option.bind_eq_bind, Option.bind_eq_some_iff, Option.pure_def,
    Option.some.injEq] at hcoin
  obtain ⟨r, hr, out, hout, rfl⟩ := hcoin
  rw [outpointsAt_eq, List.mem_map] at ho
  obtain ⟨c, hc, rfl⟩ := ho
  rw [List.mem_filter, decide_eq_true_iff] at hc
  -- The output was found under its outpoint twice, at the address and by name.
  have hprevout := prevout?_eq_some_iff.2 ⟨r, hr, hout⟩
  obtain ⟨-, -, hc'⟩ := holding?_eq_some_iff.1 (holding?_outpoint hl hn hc.1)
  cases hprevout.symm.trans hc'
  exact ⟨_, hprevout, hc.2, rfl⟩

/-- No unspent output is found twice at an address. -/
theorem nodup_unspentAt : ((l.unspentAt a).map Coin.outpoint).Nodup := by
  have hsub : ((l.outputsAt a).map Coin.outpoint).Sublist (l.outpointsAt a) := by
    rw [outputsAt]
    -- By induction on the outpoints, of which those without an output are left out.
    induction l.outpointsAt a with
    | nil => exact .slnil
    | cons o os ih =>
      rw [List.filterMap_cons]
      split
      · exact ih.cons o
      · rename_i c hc
        simp only [Option.bind_eq_bind, Option.bind_eq_some_iff, Option.pure_def,
          Option.some.injEq] at hc
        obtain ⟨r, -, out, -, rfl⟩ := hc
        exact ih.cons_cons o
  rw [unspentAt]
  exact ((List.filter_sublist.map Coin.outpoint).trans hsub).nodup (nodup_outpointsAt hl hn)

end

end Ledger

end Escrow
