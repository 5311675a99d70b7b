import Escrow.Proofs.Host.Bookkeeping
import Mathlib.Algebra.Group.Nat.Defs
import Mathlib.Algebra.Ring.Int.Defs
import Mathlib.Tactic.Basic

/-!
# The times of blocks

The time of a block is that of height zero, and as many times the spacing of
blocks later as the block is high. The spacing is a number of 64 bits that is
*taken as a signed one*, so that it is below zero from `2 ^ 63` on: a ledger with
such a spacing counts backwards (`Host.times_run`).

Not every moment exists, nor does every span of time: what lies more than `maxSpan`
seconds away, or outside of the days that there are, cannot be had
(`Timestamp.plus?`). A host that has to make a block without a moment for it, or
above the last height, does not go on: this is what `Host.run?` adds to `Host.run`.
As long as it goes on, the spans stay so short that they are exact
(`Ledger.secondsTo_eq`), and later moments are those of longer spans
(`Timestamp.plus_before_iff`).
-/

namespace Escrow

namespace Timestamp

/-- Whether a moment comes before another one. -/
def Before (t u : Timestamp) : Prop :=
  t.seconds < u.seconds ∨ t.seconds = u.seconds ∧ t.nanos < u.nanos

instance (t u : Timestamp) : Decidable (t.Before u) :=
  inferInstanceAs (Decidable (_ ∨ _))

/-- There is a later moment if the span is not too long and it lies on a day that there is. -/
theorem plus?_eq_some_iff {t u : Timestamp} {k : Int} : t.plus? k = some u ↔
    k.natAbs ≤ maxSpan ∧ isDay ((t.plus k).seconds / 86400) ∧ u = t.plus k := by
  rw [plus?, Option.ite_none_right_eq_some, Option.some.injEq, and_assoc, eq_comm (a := u)]

/-- No two moments come before each other. -/
theorem Before.not_before {t u : Timestamp} (h : t.Before u) : ¬u.Before t := by
  unfold Before at *
  omega

/-- A longer span leads to a later moment, also from within a leap second. -/
theorem plus_before_of_lt (t : Timestamp) {j k : Int} (h : j < k) :
    (t.plus j).Before (t.plus k) := by
  have hpos : 0 < perSecond := by decide
  unfold plus Before
  -- Moments in a leap second are left by going either way.
  split <;> split <;> (try split) <;> (try split) <;> dsimp only <;> omega

/-- Longer spans lead to later moments. -/
theorem plus_before_iff (t : Timestamp) {j k : Int} : (t.plus j).Before (t.plus k) ↔ j < k := by
  refine ⟨fun h => ?_, t.plus_before_of_lt⟩
  rcases Int.lt_trichotomy j k with hlt | rfl | hlt
  · exact hlt
  · exact absurd h h.not_before
  · exact absurd h (t.plus_before_of_lt hlt).not_before

end Timestamp

/-! ## Making a block -/

namespace Ledger

variable {genesis : Timestamp} {blockTime : UInt64} {l m : Ledger}

/-- The blocks have the times of their heights, and these are moments that exist. -/
structure Dated (genesis : Timestamp) (blockTime : UInt64) (l : Ledger) : Prop where
  genesis_eq : l.genesis = genesis
  blockTime_eq : l.blockTime = blockTime
  timeAt?_eq : ∀ b ∈ l.blocks, l.timeAt? b.height = some b.time

/-- The times of the blocks go forward with their heights. -/
def Forward (l : Ledger) : Prop :=
  ∀ a ∈ l.blocks, ∀ b ∈ l.blocks, a.height < b.height → a.time.Before b.time

instance (l : Ledger) : Decidable l.Forward :=
  inferInstanceAs (Decidable (∀ a ∈ l.blocks, ∀ b ∈ l.blocks, a.height < b.height → _))

/-- The times of the blocks go backward as their heights go forward. -/
def Backward (l : Ledger) : Prop :=
  ∀ a ∈ l.blocks, ∀ b ∈ l.blocks, a.height < b.height → b.time.Before a.time

/-- A block that can be had is the one that is made anyway. -/
theorem eq_of_mine? (h : l.mine? = some m) : m = l.mine := by
  rw [mine?, Option.ite_none_left_eq_some] at h
  obtain ⟨-, h⟩ := h
  split at h
  · exact (Option.some.inj h).symm
  · obtain ⟨-, -, hm⟩ := Option.map_eq_some_iff.1 h
    exact hm.symm

/-- A block that is made has a moment, unless it is empty. -/
theorem timeAt?_of_mine? (h : l.mine? = some m) (hwaiting : l.mempool ≠ []) :
    l.timeAt? (l.height + 1) = some l.nextBlock.time := by
  rw [mine?, Option.ite_none_left_eq_some, if_neg (mt List.isEmpty_iff.1 hwaiting)] at h
  obtain ⟨-, h⟩ := h
  obtain ⟨t, ht, -⟩ := Option.map_eq_some_iff.1 h
  rw [ht, (Timestamp.plus?_eq_some_iff.1 ht).2.2]
  rfl

/-- An empty ledger is dated, as it has no blocks. -/
theorem Dated.empty : ({ genesis, blockTime } : Ledger).Dated genesis blockTime where
  genesis_eq := rfl
  blockTime_eq := rfl
  timeAt?_eq b hb := by cases hb

/-- A ledger stays dated with a block that can be had. -/
theorem Dated.mine (hl : l.Dated genesis blockTime) (h : l.mine? = some m) :
    m.Dated genesis blockTime := by
  cases eq_of_mine? h
  have hgenesis : l.mine.genesis = l.genesis := by
    rw [mine]
    split <;> rfl
  have hblockTime : l.mine.blockTime = l.blockTime := by
    rw [mine]
    split <;> rfl
  refine ⟨hgenesis.trans hl.genesis_eq, hblockTime.trans hl.blockTime_eq, fun b hb => ?_⟩
  rw [timeAt?, hgenesis, secondsTo, hblockTime, ← secondsTo, ← timeAt?]
  rcases mem_blocks_mine_iff.1 hb with hb | ⟨rfl, hwaiting⟩
  · exact hl.timeAt?_eq b hb
  · exact timeAt?_of_mine? h hwaiting

/-- The spacing as a signed number: from `2 ^ 63` on it is `2 ^ 64` less. -/
theorem toInt_blockTime (k : UInt64) :
    k.toInt64.toInt = if k.toNat < 2 ^ 63 then (k.toNat : Int) else k.toNat - 2 ^ 64 := by
  change k.toBitVec.toInt = _
  rw [BitVec.toInt_eq_toNat_cond, UInt64.toNat_toBitVec]
  split <;> split <;> omega

theorem toInt_blockTime_pos_iff {k : UInt64} : 0 < k.toInt64.toInt ↔ k ≠ 0 ∧ k.toNat < 2 ^ 63 := by
  have hzero : k ≠ 0 ↔ k.toNat ≠ 0 := not_congr (UInt64.toNat_inj (b := 0)).symm
  have := k.toNat_lt
  rw [hzero, toInt_blockTime]
  split <;> omega

theorem toInt_blockTime_neg_iff {k : UInt64} : k.toInt64.toInt < 0 ↔ 2 ^ 63 ≤ k.toNat := by
  have := k.toNat_lt
  rw [toInt_blockTime]
  split <;> omega

/-- A span that is not too long is exact. -/
theorem secondsTo_eq {height : Nat} (h : (l.secondsTo height).natAbs ≤ Timestamp.maxSpan) :
    l.secondsTo height = height * l.blockTime.toInt64.toInt := by
  unfold secondsTo Amount.least Amount.greatest Timestamp.maxSpan at *
  omega

/-- The times of two blocks are ordered as their spans are. -/
theorem Dated.before_iff (hl : l.Dated genesis blockTime) {a b : Block} (ha : a ∈ l.blocks)
    (hb : b ∈ l.blocks) : a.time.Before b.time ↔
      (a.height : Int) * blockTime.toInt64.toInt < b.height * blockTime.toInt64.toInt := by
  obtain ⟨hspan, -, htime⟩ := Timestamp.plus?_eq_some_iff.1 (hl.timeAt?_eq a ha)
  obtain ⟨hspan', -, htime'⟩ := Timestamp.plus?_eq_some_iff.1 (hl.timeAt?_eq b hb)
  rw [htime, htime', Timestamp.plus_before_iff, secondsTo_eq hspan, secondsTo_eq hspan',
    hl.blockTime_eq]

/-- With a spacing above zero times go forward with the heights. -/
theorem Dated.forward (hl : l.Dated genesis blockTime) (hpos : 0 < blockTime.toInt64.toInt) :
    l.Forward := fun _ ha _ hb hlt =>
  (hl.before_iff ha hb).2 (Int.mul_lt_mul_of_pos_right (Int.ofNat_lt.2 hlt) hpos)

/-- With a spacing below zero times go backward. -/
theorem Dated.backward (hl : l.Dated genesis blockTime) (hneg : blockTime.toInt64.toInt < 0) :
    l.Backward := fun _ ha _ hb hlt =>
  (hl.before_iff hb ha).2 (Int.mul_lt_mul_of_neg_right (Int.ofNat_lt.2 hlt) hneg)

/-- Two blocks have different heights. -/
theorem exists_height_lt (hi : l.blocks.Pairwise fun a b => a.height < b.height)
    (htwo : 1 < l.blocks.length) : ∃ a ∈ l.blocks, ∃ b ∈ l.blocks, a.height < b.height :=
  ⟨_, List.getElem_mem _, _, List.getElem_mem _,
    List.pairwise_iff_getElem.1 hi 0 1 (Nat.lt_of_succ_lt htwo) htwo Nat.zero_lt_one⟩

/-- One block alone goes forward, as there is nothing to compare it with. -/
theorem forward_of_length_le (hone : l.blocks.length ≤ 1) : l.Forward := by
  intro a ha b hb hlt
  obtain ⟨i, hi, rfl⟩ := List.mem_iff_getElem.1 ha
  obtain ⟨j, hj, rfl⟩ := List.mem_iff_getElem.1 hb
  obtain rfl : i = j := by omega
  exact absurd hlt (Nat.lt_irrefl _)

end Ledger

/-! ## Runs -/

namespace Host

variable {h h' : Host}

/-- The host after a command, if its blocks can be had. -/
def step? (h : Host) : Command → Option Host
  | .fund key value => h.fund? key value
  | .submit tx => some (h.submit tx).2
  | .mine => h.mine?
  | .advance blocks => h.advance? blocks
  | .notarize height => some (h.notarize height).2

/-- The host after a list of commands, if their blocks can be had. -/
def run? (h : Host) (commands : List Command) : Option Host :=
  commands.foldlM step? h

/-- The host is the one that there would have been, and its ledger stays dated. -/
theorem mine?_eq (hm : h.mine? = some h') :
    h' = h.mine ∧ ∀ genesis blockTime,
      h.ledger.Dated genesis blockTime → h'.ledger.Dated genesis blockTime := by
  obtain ⟨m, hmine, rfl⟩ := Option.map_eq_some_iff.1 hm
  refine ⟨?_, fun _ _ hd => hd.mine hmine⟩
  rw [Ledger.eq_of_mine? hmine]
  rfl

/-- Blocks that can be had are those that are made anyway, and the ledger stays dated. -/
theorem advance?_eq {blocks : Nat} (ha : h.advance? blocks = some h') :
    h' = h.advance blocks ∧ ∀ genesis blockTime,
      h.ledger.Dated genesis blockTime → h'.ledger.Dated genesis blockTime := by
  induction blocks generalizing h with
  | zero =>
    cases ha
    exact ⟨rfl, fun _ _ hd => hd⟩
  | succ n ih =>
    obtain ⟨next, hm, ha⟩ := Option.bind_eq_some_iff.1 ha
    obtain ⟨rfl, hnext⟩ := mine?_eq hm
    obtain ⟨rfl, hrest⟩ := ih ha
    exact ⟨rfl, fun _ _ hd => hrest _ _ (hnext _ _ hd)⟩

/-- A funding whose block can be had is the one that is made anyway, and the ledger stays
    dated. -/
theorem fund?_eq {key : PublicKey} {value : Amount} (hf : h.fund? key value = some h') :
    h' = (h.fund key value).2 ∧ ∀ genesis blockTime,
      h.ledger.Dated genesis blockTime → h'.ledger.Dated genesis blockTime := by
  unfold fund? at hf
  unfold fund
  by_cases hvalue : value ≤ 0
  · rw [if_pos hvalue] at hf ⊢
    cases hf
    exact ⟨rfl, fun _ _ hd => hd⟩
  · rw [if_neg hvalue] at hf ⊢
    dsimp only at hf ⊢
    -- The count and what waits for a block have no part in the times.
    by_cases hknown : (h.ledger.record? (funding key value (h.ledger.nonce + 1)).txid).isSome
    · rw [if_pos hknown] at hf ⊢
      cases hf
      exact ⟨rfl, fun _ _ hd => { hd with }⟩
    · rw [if_neg hknown] at hf ⊢
      obtain ⟨rfl, hmined⟩ := mine?_eq hf
      exact ⟨rfl, fun _ _ hd => hmined _ _ { hd with }⟩

/-- A step whose blocks can be had is the one that is taken anyway. -/
theorem step?_eq {c : Command} (hs : h.step? c = some h') :
    h' = h.step c ∧ ∀ genesis blockTime,
      h.ledger.Dated genesis blockTime → h'.ledger.Dated genesis blockTime := by
  -- Only blocks have times, so that nothing else can be missing.
  cases c with
  | fund key value => exact fund?_eq hs
  | submit tx =>
    cases hs
    refine ⟨rfl, fun _ _ hd => ?_⟩
    rw [submit]
    split
    · exact hd
    · exact { hd with }
  | mine => exact mine?_eq hs
  | advance blocks => exact advance?_eq hs
  | notarize height =>
    cases hs
    refine ⟨rfl, fun _ _ hd => ?_⟩
    rw [notarize]
    split
    · exact hd
    · exact { hd with }

/-- A run whose blocks can be had is the run, and a ledger that is dated stays so. -/
theorem run?_eq {cs : List Command} (hr : h.run? cs = some h') :
    h' = h.run cs ∧ ∀ genesis blockTime,
      h.ledger.Dated genesis blockTime → h'.ledger.Dated genesis blockTime := by
  -- By induction on the commands, for every host that they may begin with.
  induction cs generalizing h with
  | nil =>
    cases hr
    exact ⟨rfl, fun _ _ hd => hd⟩
  | cons c cs ih =>
    rw [run?, List.foldlM_cons] at hr
    obtain ⟨next, hs, hr⟩ := Option.bind_eq_some_iff.1 hr
    obtain ⟨rfl, hnext⟩ := step?_eq hs
    obtain ⟨rfl, hrest⟩ := ih hr
    exact ⟨rfl, fun _ _ hd => hrest _ _ (hnext _ _ hd)⟩

/-- *Block times*: as long as a host has moments for its blocks, the blocks of a run
    are listed with increasing heights, and their times go forward with the heights
    if and only if the spacing is below `2 ^ 63`, or there are no two blocks. From
    `2 ^ 63` on the times go backward. -/
theorem times_run (genesis : Timestamp) (blockTime : UInt64) (validators : List Validator)
    (cs : List Command) (hne : blockTime ≠ 0) {host : Host}
    (hrun : (⟨{ genesis, blockTime }, validators⟩ : Host).run? cs = some host) :
    host = (⟨{ genesis, blockTime }, validators⟩ : Host).run cs ∧
    host.ledger.blocks.Pairwise (fun a b => a.height < b.height) ∧
    (host.ledger.Forward ↔ blockTime.toNat < 2 ^ 63 ∨ host.ledger.blocks.length ≤ 1) ∧
    (2 ^ 63 ≤ blockTime.toNat → host.ledger.Backward) := by
  obtain ⟨rfl, hkeeps⟩ := run?_eq hrun
  have hdated := hkeeps genesis blockTime .empty
  have hincreasing := (reachable_run genesis blockTime validators cs).filed.increasing
  rw [List.pairwise_map] at hincreasing
  have hbackward (hlarge : 2 ^ 63 ≤ blockTime.toNat) :=
    hdated.backward (Ledger.toInt_blockTime_neg_iff.2 hlarge)
  refine ⟨rfl, hincreasing, ⟨fun hforward => ?_, ?_⟩, hbackward⟩
  · -- With a large spacing two blocks go backward, so that they do not go forward.
    by_contra hnot
    obtain ⟨hlarge, htwo⟩ := not_or.1 hnot
    obtain ⟨a, ha, b, hb, hlt⟩ := Ledger.exists_height_lt hincreasing (Nat.not_le.1 htwo)
    exact (hforward a ha b hb hlt).not_before (hbackward (Nat.not_lt.1 hlarge) a ha b hb hlt)
  · rintro (hsmall | hone)
    · exact hdated.forward (Ledger.toInt_blockTime_pos_iff.2 ⟨hne, hsmall⟩)
    · exact Ledger.forward_of_length_le hone

/-- Two fundings, each in a block of its own. -/
def twoFundings : List Command :=
  [.fund ⟨.fill 32 1⟩ 1, .fund ⟨.fill 32 1⟩ 1]

/-- A minute apart, two blocks go forward. -/
theorem twoFundings_forward :
    let start : Host := ⟨{ genesis := ⟨0, 0⟩, blockTime := 60 }, []⟩
    (60 : UInt64) ≠ 0 ∧ (start.run? twoFundings).isSome ∧
      (start.run twoFundings).ledger.blocks.length = 2 ∧
      (start.run twoFundings).ledger.Forward := by
  intro start
  have hne : (60 : UInt64) ≠ 0 := by decide
  have hsome : (start.run? twoFundings).isSome := by decide +kernel
  obtain ⟨host, hrun⟩ := Option.isSome_iff_exists.1 hsome
  obtain ⟨hhost, -, hforward, -⟩ := times_run ⟨0, 0⟩ 60 [] twoFundings hne hrun
  rw [hhost] at hforward
  exact ⟨hne, hsome, by decide +kernel, hforward.2 (.inl (by decide))⟩

/-- With the spacing that is a minute below `2 ^ 64`, the second block is a minute
    earlier than the first. -/
theorem twoFundings_backward :
    let start : Host := ⟨{ genesis := ⟨0, 0⟩, blockTime := 0xffffffffffffffc4 }, []⟩
    (start.run? twoFundings).isSome ∧
      (start.run twoFundings).ledger.blocks.map (fun b => (b.height, b.time)) =
        [(1, ⟨-60, 0⟩), (2, ⟨-120, 0⟩)] ∧
      ¬(start.run twoFundings).ledger.Forward := by
  intro start
  exact ⟨by decide +kernel, by decide +kernel, by decide +kernel⟩

end Host

end Escrow
