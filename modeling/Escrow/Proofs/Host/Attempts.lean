import Escrow.Proofs.Host.Reload
import Escrow.Proofs.Host.Run
import Escrow.Proofs.Transaction.Commitment
import Mathlib.Data.Prod.Basic

/-!
# Calls that fail

What is asked of a host is a *call*, and its result may be an error. Then nothing has
happened: the host is as it was, with its ledger and its index (`call_eq_self`). So calls
that fail can be left out of any sequence of calls, and the others give the same results
and lead to the same host (`results_kept`).

There is one exception. A funding is counted before it is found out whether its transaction
is recorded already, so that one which fails for this reason is counted all the same
(`Counts`), and the fundings after it are other transactions. In a ledger that was made up
this may happen at once. Where calls have led to from an empty ledger it takes `2 ^ 32`
of them, after which the count may begin anew, or else the next funding and one that is
recorded are different strings with one hash (`exists_collide_of_counts`).

Main statement: `failing_calls`.
-/

namespace Escrow

/-- Something asked of a host: a command, or to record the transaction written in a text. -/
inductive Call
  | command (command : Command)
  | submitHex (text : String)

/-- The command that a call comes to, unless no transaction is written in the text. -/
def Call.command? : Call → Option Command
  | .command c => some c
  | .submitHex s => (Transaction.ofHex s).toOption.map .submit

/-- Why a command failed, if it did. -/
def CommandResult.error? : CommandResult → Option HostError
  | .funded (.error e) | .submitted (.error e) | .notarized (.error e) => some e
  | .funded (.ok _) | .submitted (.ok _) | .notarized (.ok _) | .reached _ => none

theorem CommandResult.error?_funded {r : Except HostError Outpoint} {e : HostError} :
    (CommandResult.funded r).error? = some e ↔ r = .error e := by
  cases r <;> simp [CommandResult.error?]

theorem CommandResult.error?_submitted {r : Except HostError TxId} {e : HostError} :
    (CommandResult.submitted r).error? = some e ↔ r = .error e := by
  cases r <;> simp [CommandResult.error?]

theorem CommandResult.error?_notarized {r : Except HostError Unit} {e : HostError} :
    (CommandResult.notarized r).error? = some e ↔ r = .error e := by
  cases r <;> simp [CommandResult.error?]

/-- The members of a list whose places are marked. -/
def kept {α : Type} : List Bool → List α → List α
  | true :: marks, a :: as => a :: kept marks as
  | false :: marks, _ :: as => kept marks as
  | _, _ => []

namespace IndexedHost

section
variable (x : IndexedHost)

/-- Records the transaction written in a text if it may be. -/
def submitHex (s : String) : Except HostError TxId × IndexedHost :=
  match Transaction.ofHex s with
  | .error e => (.error (.undecodable e), x)
  | .ok tx => x.submit tx

/-- Does what is asked, and gives the result. -/
def call : Call → CommandResult × IndexedHost
  | .command c => x.perform c
  | .submitHex s => (x.submitHex s).map .submitted id

/-- The host after some calls. -/
def runCalls (cs : List Call) : IndexedHost :=
  cs.foldl (fun x c => (x.call c).2) x

/-- The results of some calls. -/
def results (x : IndexedHost) : List Call → List CommandResult
  | [] => []
  | c :: cs => (x.call c).1 :: (x.call c).2.results cs

/-- The host with one funding more in the count. -/
def counted : IndexedHost :=
  { x with ledger := { x.ledger with nonce := x.ledger.nonce + 1 } }

/-- A call asks for a funding whose transaction is recorded already. -/
def Counts : Call → Prop
  | .command (.fund key value) =>
    0 < value ∧ (x.index.position? (Host.funding key value (x.ledger.nonce + 1)).txid).isSome
  | _ => False

/-- A call fails, and is not counted either. -/
def Vain (c : Call) : Prop :=
  (x.call c).1.error?.isSome ∧ ¬x.Counts c

end

variable {x : IndexedHost} {c : Call} {e : HostError}

/-! ## A call that fails -/

/-- What is submitted and refused leaves the host as it was. -/
theorem submit_eq_self {tx : Transaction} (h : (x.submit tx).1 = .error e) :
    (x.submit tx).2 = x := by
  rw [submit] at h ⊢
  cases hcheck : x.check tx with
  | error e => rfl
  | ok id =>
    rw [hcheck] at h
    cases h

/-- A text that is refused leaves the host as it was, be it that no transaction is written
    there or that the one there is refused. -/
theorem submitHex_eq_self {s : String} (h : (x.submitHex s).1 = .error e) :
    (x.submitHex s).2 = x := by
  rw [submitHex] at h ⊢
  cases htx : Transaction.ofHex s with
  | error e => rfl
  | ok tx =>
    rw [htx] at h
    exact submit_eq_self h

/-- A notarization that is refused leaves the host as it was. -/
theorem notarize_eq_self {height : Nat} (h : (x.notarize height).1 = .error e) :
    (x.notarize height).2 = x := by
  rw [notarize] at h ⊢
  split
  · rfl
  · next hheight =>
    rw [if_neg hheight] at h
    cases h

/-- A funding that is refused leaves the host as it was, unless it counts. -/
theorem fund_eq_self {key : PublicKey} {value : Amount} (h : (x.fund key value).1 = .error e)
    (hc : ¬x.Counts (.command (.fund key value))) : (x.fund key value).2 = x := by
  rw [fund] at h ⊢
  split
  · rfl
  · next hvalue =>
    rw [if_neg hvalue] at h
    dsimp only at h ⊢
    split
    · next hknown => exact absurd ⟨Int64.not_le.1 hvalue, hknown⟩ hc
    · next hfresh =>
      rw [if_neg hfresh] at h
      cases h

/-- A call to fund is a funding of the indexed host. -/
theorem call_fund (key : PublicKey) (value : Amount) :
    x.call (.command (.fund key value)) =
      (.funded (x.fund key value).1, (x.fund key value).2) := by
  simp only [call, perform, Prod.map_def, id_eq]

theorem call_submit (tx : Transaction) :
    x.call (.command (.submit tx)) = (.submitted (x.submit tx).1, (x.submit tx).2) := by
  simp only [call, perform, Prod.map_def, id_eq]

theorem call_notarize (height : Nat) :
    x.call (.command (.notarize height)) =
      (.notarized (x.notarize height).1, (x.notarize height).2) := by
  simp only [call, perform, Prod.map_def, id_eq]

theorem call_submitHex (s : String) :
    x.call (.submitHex s) = (.submitted (x.submitHex s).1, (x.submitHex s).2) := by
  simp only [call, Prod.map_def, id_eq]

/-- A call that fails and does not count leaves the host as it was. -/
theorem call_eq_self (h : (x.call c).1.error? = some e) (hc : ¬x.Counts c) :
    (x.call c).2 = x := by
  -- Blocks never fail; each other call has its own lemma.
  cases c with
  | command c =>
    cases c with
    | fund key value =>
      rw [call_fund] at h ⊢
      dsimp only at h ⊢
      exact fund_eq_self (CommandResult.error?_funded.1 h) hc
    | submit tx =>
      rw [call_submit] at h ⊢
      dsimp only at h ⊢
      exact submit_eq_self (CommandResult.error?_submitted.1 h)
    | mine => cases h
    | advance blocks => cases h
    | notarize height =>
      rw [call_notarize] at h ⊢
      dsimp only at h ⊢
      exact notarize_eq_self (CommandResult.error?_notarized.1 h)
  | submitHex s =>
    rw [call_submitHex] at h ⊢
    dsimp only at h ⊢
    exact submitHex_eq_self (CommandResult.error?_submitted.1 h)

/-- Only fundings count. -/
theorem exists_of_counts (hc : x.Counts c) :
    ∃ key value, c = .command (.fund key value) ∧ 0 < value ∧
      (x.index.position? (Host.funding key value (x.ledger.nonce + 1)).txid).isSome := by
  cases c with
  | command c =>
    cases c with
    | fund key value => exact ⟨key, value, rfl, hc⟩
    | _ => cases hc
  | submitHex s => cases hc

/-- A funding whose transaction is known is refused as a duplicate, and counted. -/
theorem fund_of_known {key : PublicKey} {value : Amount} (hvalue : 0 < value)
    (hknown : (x.index.position? (Host.funding key value (x.ledger.nonce + 1)).txid).isSome) :
    x.fund key value =
      (.error (.duplicate (Host.funding key value (x.ledger.nonce + 1)).txid), x.counted) := by
  rw [fund, if_neg (Int64.not_le.2 hvalue)]
  dsimp only
  rw [if_pos hknown]
  rfl

/-- A call that counts fails, and is counted. -/
theorem call_of_counts (hc : x.Counts c) :
    (∃ id, (x.call c).1.error? = some (.duplicate id)) ∧ (x.call c).2 = x.counted := by
  obtain ⟨key, value, rfl, hvalue, hknown⟩ := exists_of_counts hc
  rw [call_fund, fund_of_known hvalue hknown]
  exact ⟨⟨_, rfl⟩, rfl⟩

/-- To count one funding more makes another host. -/
theorem counted_ne (x : IndexedHost) : x.counted ≠ x := by
  intro h
  have hnonce : x.ledger.nonce + 1 = x.ledger.nonce := congrArg (·.ledger.nonce) h
  have hone : (1 : UInt32) = 0 := by
    rw [← UInt32.add_right_inj x.ledger.nonce, hnonce, UInt32.add_zero]
  exact absurd hone (by decide)

/-! ## Calls that are left out -/

/-- A run of calls makes the first one and goes on from there. -/
theorem runCalls_cons (x : IndexedHost) (c : Call) (cs : List Call) :
    x.runCalls (c :: cs) = (x.call c).2.runCalls cs := rfl

/-- A call in vain leaves the host as it was. -/
theorem Vain.call_eq_self (h : x.Vain c) : (x.call c).2 = x := by
  obtain ⟨e, he⟩ := Option.isSome_iff_exists.1 h.1
  exact IndexedHost.call_eq_self he h.2

/-- Calls that are in vain where they stand make no difference to the others. -/
theorem results_kept {marks : List Bool} {cs : List Call} (hlength : marks.length = cs.length)
    (h : ∀ (i : Nat) (c : Call), marks[i]? = some false → cs[i]? = some c →
      (x.runCalls (cs.take i)).Vain c) :
    x.results (kept marks cs) = kept marks (x.results cs) ∧
      x.runCalls (kept marks cs) = x.runCalls cs := by
  induction cs generalizing x marks with
  | nil =>
    obtain rfl := List.length_eq_zero_iff.1 hlength
    exact ⟨rfl, rfl⟩
  | cons c cs ih =>
    obtain ⟨mark, marks, rfl⟩ := List.exists_cons_of_length_eq_add_one hlength
    obtain ⟨hresults, hhost⟩ := @ih (x.call c).2 marks (Nat.succ.inj hlength)
      fun i d hmark hd => h (i + 1) d hmark hd
    cases mark with
    | true =>
      rw [kept, results, results, kept, hresults, runCalls_cons, runCalls_cons, hhost]
      exact ⟨rfl, rfl⟩
    | false =>
      -- The host after the call is the host before it.
      have hvain : x.Vain c := h 0 c rfl rfl
      rw [hvain.call_eq_self] at hresults hhost
      rw [kept, results, kept, runCalls_cons, hvain.call_eq_self]
      exact ⟨hresults, hhost⟩

/-! ## Calls of a host with a new index -/

/-- A text is submitted in the same way with a new index. -/
theorem submitHex_load (h : Host) (s : String) :
    (load h).submitHex s = (h.submitHex s).map id load := by
  rw [submitHex, Host.submitHex]
  cases Transaction.ofHex s with
  | error e => rfl
  | ok tx => exact submit_load h tx

/-- After a call the index is again a new one. -/
theorem call_load (h : Host) (c : Call) :
    ((load h).call c).2 = load (c.command?.elim h h.step) := by
  cases c with
  | command c =>
    rw [call, perform_load, Host.perform_snd]
    rfl
  | submitHex s =>
    rw [call_submitHex, submitHex_load, Host.submitHex, Call.command?]
    cases Transaction.ofHex s <;> rfl

/-- Calls of a host with a new index are a run of the commands among them. -/
theorem runCalls_load (h : Host) (cs : List Call) :
    (load h).runCalls cs = load (h.run (cs.filterMap Call.command?)) := by
  induction cs generalizing h with
  | nil => rfl
  | cons c cs ih =>
    rw [runCalls_cons, call_load, ih, List.filterMap_cons]
    cases c.command? <;> rfl

end IndexedHost

/-! ## Fundings are numbered -/

namespace Ledger

/-- No transaction without inputs is recorded that has a number still to come. -/
def Numbered (l : Ledger) : Prop :=
  ∀ r ∈ l.records, r.tx.inputs = [] → r.tx.lockTime.toNat ≤ l.nonce.toNat

/-- The next number, unless the count begins anew. -/
theorem toNat_nonce_succ {l : Ledger} (h : l.nonce.toNat + 1 < 2 ^ 32) :
    (l.nonce + 1).toNat = l.nonce.toNat + 1 := by
  rw [UInt32.toNat_add]
  exact Nat.mod_eq_of_lt h

end Ledger

namespace Host

variable {h : Host}

/-- Blocks do not change the count. -/
@[simp] theorem nonce_advance (h : Host) (blocks : Nat) :
    (h.advance blocks).ledger.nonce = h.ledger.nonce := by
  induction blocks generalizing h with
  | zero => rfl
  | succ n ih => exact (ih h.mine).trans Ledger.nonce_mine

/-- A command adds at most one to the count. -/
theorem nonce_step (h : Host) (c : Command) :
    (h.step c).ledger.nonce = h.ledger.nonce ∨ (h.step c).ledger.nonce = h.ledger.nonce + 1 := by
  -- Only a funding of some value counts.
  cases c with
  | fund key value =>
    rw [step, fund]
    split
    · exact .inl rfl
    · dsimp only
      split
      · exact .inr rfl
      · exact .inr Ledger.nonce_mine
  | submit tx =>
    rw [step, submit]
    split <;> exact .inl rfl
  | mine => exact .inl Ledger.nonce_mine
  | advance blocks => exact .inl (h.nonce_advance blocks)
  | notarize height =>
    rw [step, notarize]
    split <;> exact .inl rfl

/-- A transaction without inputs that is recorded after a command was recorded before it,
    or has the number that the count has come to. -/
theorem mem_fundings_step (h : Host) (c : Command) {s : Record}
    (hs : s ∈ (h.step c).ledger.records) (hin : s.tx.inputs = []) :
    (∃ r ∈ h.ledger.records, r.tx = s.tx) ∨ s.tx.lockTime = (h.step c).ledger.nonce := by
  rcases h.mem_records_step c hs with ⟨r, hr, -, htx⟩ | ⟨key, value, htx⟩ | ⟨-, hcheck⟩
  · exact .inl ⟨r, hr, htx⟩
  · rw [htx]
    exact .inr rfl
  · -- What is admitted has inputs.
    obtain ⟨-, spent, hadmits⟩ := check_eq_ok_iff.1 hcheck
    exact absurd hin hadmits.inputs_ne_nil

/-- Numbers do not come twice before the count begins anew. -/
theorem numbered_step (hn : h.ledger.Numbered) (hlt : h.ledger.nonce.toNat + 1 < 2 ^ 32)
    (c : Command) :
    (h.step c).ledger.Numbered ∧
      (h.step c).ledger.nonce.toNat ≤ h.ledger.nonce.toNat + 1 := by
  have hcount : h.ledger.nonce.toNat ≤ (h.step c).ledger.nonce.toNat ∧
      (h.step c).ledger.nonce.toNat ≤ h.ledger.nonce.toNat + 1 := by
    rcases h.nonce_step c with hnonce | hnonce
    · rw [hnonce]
      exact ⟨Nat.le_refl _, Nat.le_succ _⟩
    · rw [hnonce, Ledger.toNat_nonce_succ hlt]
      exact ⟨Nat.le_succ _, Nat.le_refl _⟩
  refine ⟨fun s hs hin => ?_, hcount.2⟩
  -- A funding that was recorded before has a number that has come up, and a new one has the
  -- number that comes up now.
  rcases h.mem_fundings_step c hs hin with ⟨r, hr, htx⟩ | hnumber
  · rw [← htx] at hin ⊢
    exact Nat.le_trans (hn r hr hin) hcount.1
  · exact Nat.le_of_eq (congrArg UInt32.toNat hnumber)

/-- In a run that is shorter than the count is long, fundings keep being numbered, and the
    count goes up by one for each command at most. -/
theorem numbered_run {cs : List Command} (hn : h.ledger.Numbered)
    (hlt : h.ledger.nonce.toNat + cs.length < 2 ^ 32) :
    (h.run cs).ledger.Numbered ∧
      (h.run cs).ledger.nonce.toNat ≤ h.ledger.nonce.toNat + cs.length := by
  induction cs generalizing h with
  | nil => exact ⟨hn, Nat.le_refl _⟩
  | cons c cs ih =>
    rw [List.length_cons] at hlt ⊢
    obtain ⟨hnumbered, hle⟩ := numbered_step hn (by omega) c
    obtain ⟨hrun, hcount⟩ := ih hnumbered (by omega)
    exact ⟨hrun, Nat.le_trans hcount (by omega)⟩

end Host

/-- Where fundings are numbered, only a collision of the hash makes the next one known. -/
theorem Ledger.Numbered.exists_collide {l : Ledger} (hn : l.Numbered) (hl : l.Sound)
    (hlt : l.nonce.toNat + 1 < 2 ^ 32) {key : PublicKey} {value : Amount}
    (hknown : (l.record? (Host.funding key value (l.nonce + 1)).txid).isSome) :
    ∃ r ∈ l.records,
      Sha256.Collide (r.tx.wire false) ((Host.funding key value (l.nonce + 1)).wire false) := by
  obtain ⟨r, hrecord⟩ := Option.isSome_iff_exists.1 hknown
  obtain ⟨hr, hid⟩ := Ledger.mem_of_record? hrecord
  rw [hl.txid_eq r hr, Transaction.txid, Transaction.txid, TxId.mk.injEq, Sha256.hash_eq_iff] at hid
  refine ⟨r, hr, hid.resolve_left fun hwire => ?_⟩
  obtain ⟨hinputs, hlock⟩ := Transaction.of_wire_false_eq hwire
  have hle := hn r hr (hinputs.2 rfl)
  rw [hlock, Host.funding, toNat_nonce_succ hlt] at hle
  exact absurd hle (Nat.not_succ_le_self _)

namespace IndexedHost

/-- From an empty ledger, a call that counts before the count begins anew asks for a funding
    whose hash is that of another transaction, which is recorded. -/
theorem exists_collide_of_counts (genesis : Timestamp) (blockTime : UInt64)
    (validators : List Validator) {cs : List Call} (hlength : cs.length + 1 < 2 ^ 32) {c : Call}
    (hc : ((load ⟨{ genesis, blockTime }, validators⟩).runCalls cs).Counts c) :
    let l := ((load ⟨{ genesis, blockTime }, validators⟩).runCalls cs).ledger
    ∃ key value, c = .command (.fund key value) ∧ ∃ r ∈ l.records,
      Sha256.Collide (r.tx.wire false) ((Host.funding key value (l.nonce + 1)).wire false) := by
  let h : Host := ⟨{ genesis, blockTime }, validators⟩
  let commands := cs.filterMap Call.command?
  have hshort : commands.length ≤ cs.length := List.length_filterMap_le _ _
  -- The count is at zero in the beginning, and no funding is recorded.
  have hzero : h.ledger.nonce.toNat = 0 := rfl
  have hempty : h.ledger.Numbered := List.forall_mem_nil _
  have hstart : h.ledger.nonce.toNat + commands.length < 2 ^ 32 := by omega
  obtain ⟨hn, hcount⟩ := Host.numbered_run hempty hstart
  rw [runCalls_load] at hc ⊢
  obtain ⟨key, value, rfl, -, hknown⟩ := exists_of_counts hc
  rw [isSome_position?_load] at hknown
  have hsound := (Host.reachable_run genesis blockTime validators commands).sound
  exact ⟨key, value, rfl, hn.exists_collide hsound (by omega) hknown⟩

/-- *Failing calls*: a call that fails leaves the host as it was, with its ledger and its
    index, if and only if it does not count; a call that counts fails because its
    transaction is recorded already, adds one to the count and changes nothing else. So
    calls in vain can be left out of any sequence of calls. From an empty ledger, what
    counts before `2 ^ 32` calls is a funding whose hash another transaction has, which is
    recorded. -/
theorem failing_calls (x : IndexedHost) :
    (∀ (c : Call) (e : HostError), (x.call c).1.error? = some e →
      ((x.call c).2 = x ↔ ¬x.Counts c)) ∧
    (∀ c : Call, x.Counts c →
      (∃ id, (x.call c).1.error? = some (.duplicate id)) ∧ (x.call c).2 = x.counted) ∧
    (∀ (marks : List Bool) (cs : List Call), marks.length = cs.length →
      (∀ (i : Nat) (c : Call), marks[i]? = some false → cs[i]? = some c →
        (x.runCalls (cs.take i)).Vain c) →
      x.results (kept marks cs) = kept marks (x.results cs) ∧
        x.runCalls (kept marks cs) = x.runCalls cs) ∧
    ∀ (genesis : Timestamp) (blockTime : UInt64) (validators : List Validator),
      x = load ⟨{ genesis, blockTime }, validators⟩ →
      ∀ (cs : List Call) (c : Call), cs.length + 1 < 2 ^ 32 → (x.runCalls cs).Counts c →
        ∃ key value, c = .command (.fund key value) ∧ ∃ r ∈ (x.runCalls cs).ledger.records,
          Sha256.Collide (r.tx.wire false)
            ((Host.funding key value ((x.runCalls cs).ledger.nonce + 1)).wire false) := by
  refine ⟨fun c e he => ⟨fun hself hcounts => ?_, call_eq_self he⟩, fun c => call_of_counts,
    fun marks cs hlength hvain => results_kept hlength hvain, ?_⟩
  · rw [(call_of_counts hcounts).2] at hself
    exact x.counted_ne hself
  · rintro genesis blockTime validators rfl cs c hlength hcounts
    exact exists_collide_of_counts genesis blockTime validators hlength hcounts

namespace Uncounted

/-- Who is funded. -/
def key : PublicKey :=
  ⟨.fill 32 1⟩

/-- A host whose ledger has a funding that is not in the count. -/
def start : Host where
  ledger := {
    genesis := ⟨0, 0⟩
    blockTime := 60
    height := 1
    blocks := [⟨1, ⟨60, 0⟩, [(Host.funding key 50000 1).txid]⟩]
    records := [⟨(Host.funding key 50000 1).txid, Host.funding key 50000 1, some 1⟩] }

/-- The same funding is asked for. -/
def again : Call :=
  .command (.fund key 50000)

/-- The funding counts, as its transaction is recorded already. -/
theorem counts_again : (load start).Counts again := by
  refine ⟨by decide, ?_⟩
  rw [isSome_position?_load]
  decide +kernel

/-- The funding is refused as a duplicate, and counted. -/
theorem call_again :
    (load start).call again =
      (.funded (.error (.duplicate (Host.funding key 50000 1).txid)), (load start).counted) := by
  rw [again, call_fund, fund_of_known counts_again.1 counts_again.2]
  rfl

/-- Three calls are left out between two fundings, of which the first counts and is not.
    From an empty ledger the second one does not count either. -/
theorem vain_left_out :
    let begun : IndexedHost := load ⟨{ genesis := ⟨0, 0⟩, blockTime := 60 }, []⟩
    let calls : List Call :=
      [.command (.notarize 7), again, .submitHex "zz", .command (.submit {}), again]
    let marks := [false, true, false, false, true]
    ((load start).call (.command (.notarize 7))).1.error? = some (.notarizeBeyondTip 7 1) ∧
      ((load start).call (.command (.notarize 7))).2 = load start ∧
      ((load start).call again).2 = (load start).counted ∧
      (load start).results [again, again] = kept marks ((load start).results calls) ∧
      ¬(begun.runCalls [again]).Counts again := by
  intro begun calls marks
  obtain ⟨hfails, hcounts, hleft, -⟩ := failing_calls (load start)
  obtain ⟨-, -, -, hempty⟩ := failing_calls begun
  have hhex : Transaction.ofHex "zz" = .error (.hex (.badDigit 0x7a 0)) := by decide +kernel
  have hvain : ∀ (i : Nat) (c : Call), marks[i]? = some false → calls[i]? = some c →
      ((load start).runCalls (calls.take i)).Vain c := by
    intro i c hmark hc
    rcases i with _ | _ | _ | _ | _ | i
    · cases hc
      exact ⟨rfl, id⟩
    · cases hmark
    · cases hc
      refine ⟨?_, id⟩
      rw [call_submitHex, submitHex, hhex]
      rfl
    · cases hc
      exact ⟨rfl, id⟩
    · cases hmark
    · cases hc
  -- The one funding that is recorded then has another hash than the next.
  have hhash : ∀ r ∈ (begun.runCalls [again]).ledger.records,
      Sha256.hash (r.tx.wire false) ≠ Sha256.hash ((Host.funding key 50000
        ((begun.runCalls [again]).ledger.nonce + 1)).wire false) := by
    rw [runCalls_load]
    decide +kernel
  refine ⟨rfl, (hfails _ _ rfl).2 id, (hcounts again counts_again).2,
    (hleft marks calls rfl hvain).1, fun hagain => ?_⟩
  obtain ⟨key', value, hcall, r, hr, hcollide⟩ :=
    hempty ⟨0, 0⟩ 60 [] rfl [again] again (by decide) hagain
  cases hcall
  exact hhash r hr hcollide.hash_eq

/-- The funding fails and is counted, so that it cannot be left out: without it the next
    one fails as well. -/
theorem again_counted :
    ((load start).call again).1.error? = some (.duplicate (Host.funding key 50000 1).txid) ∧
      ((load start).call again).2.ledger ≠ (load start).ledger ∧
      ((load start).results [again, again]).map (·.error?.isSome) = [true, false] ∧
      ((load start).results [again]).map (·.error?.isSome) = [true] := by
  have hledger : (load start).counted.ledger ≠ (load start).ledger := by decide +kernel
  have hfresh : ¬((load start).counted.index.position?
      (Host.funding key 50000 ((load start).counted.ledger.nonce + 1)).txid).isSome := by
    rw [show (load start).counted.index = (load start).index from rfl, isSome_position?_load]
    decide +kernel
  -- The next funding has another number, and with it another id.
  have hnext : ((load start).counted.call again).1.error?.isSome = false := by
    rw [again, call_fund, fund, if_neg (by decide)]
    dsimp only
    rw [if_neg hfresh]
    rfl
  rw [results, results, results, results, call_again]
  refine ⟨rfl, hledger, ?_, rfl⟩
  rw [List.map_cons, List.map_singleton, hnext]
  rfl

end Uncounted

end IndexedHost

end Escrow
