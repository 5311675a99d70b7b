import Escrow.Proofs.Agreement.Refusals
import Escrow.Proofs.Host.Bookkeeping
import Escrow.Proofs.Host.Reload
import Escrow.Proofs.Host.Times
import Escrow.Proofs.Ledger.Json
import Escrow.Proofs.Program.Failing

/-!
# Saving a host between requests

Between two requests a host is only the text of its ledger in a file. The next one
takes the host up from that text, and registers the contract again.

Nothing is lost by that (`reload_run`): whoever reads the file has the host as it was
saved, so long as its height has 32 bits and its moments are ones that there are. And
nothing is added: what a request writes back is the host after some commands
(`Request.savesRun`), and that it did not trap on the way means that there was a height
and a moment for every block. So whatever holds of the runs of a host holds of what is
in the file after any number of requests (`Host.exists_run_of_saved`).
-/

namespace Escrow

theorem Files.find_write (files : Files) (what path content : String) :
    (files.apply (.write what path content)).find path = .text content :=
  if_pos rfl

/-- A host is taken up as it was saved. -/
theorem Environment.session_save {env : Environment} {files : Files} {places : Places} {p : Params}
    {l : Ledger} (hread : (Json.parse? l.toJson.pretty).bind Ledger.ofJson? = some l)
    (hfiles : env.files = files.apply (Host.save ⟨l, [agreements p]⟩ places))
    (hparams : env.params places = .ok p) :
    env.session places = .ok ⟨p, ⟨l, [agreements p]⟩⟩ := by
  have hfind : env.files.find places.ledger = .text l.toJson.pretty := by
    rw [hfiles, Host.save, Files.find_write]
  have hledger : env.ledger places p = .ok l := by
    rw [Environment.ledger, hfind]
    dsimp only
    rw [hread]
    rfl
  rw [Environment.session, hparams]
  change (do let l ← env.ledger places p; _) = _
  rw [hledger]
  rfl

/-- The host of a run from an empty ledger is taken up as it was saved. -/
theorem Host.session_of_saved (genesis : Timestamp) (blockTime : UInt64) (p : Params)
    (cs : List Command) {env : Environment} {files : Files} {places : Places} :
    let h := (⟨{ genesis, blockTime }, [agreements p]⟩ : Host).run cs
    h.ledger.InRange → env.files = files.apply (h.save places) → env.params places = .ok p →
      env.session places = .ok ⟨p, h⟩ := by
  intro h hrange hfiles hparams
  have hreach : Reachable [agreements p] h.ledger := Host.reachable_run genesis blockTime _ cs
  -- No command changes the contract, so that the one registered anew is the same.
  have hhost : h = ⟨h.ledger, [agreements p]⟩ := congrArg (Host.mk _) (Host.leads_run _ cs).2
  rw [hhost] at hfiles ⊢
  exact Environment.session_save (hrange.parse?_pretty hreach.filed hreach.sound) hfiles hparams

/-! ## What is written back -/

namespace Outcome

/-- What is done to files, if anything, is that a host is saved as commands have left it. -/
def SavesRun (o : Outcome) (h : Host) (places : Places) : Prop :=
  ∀ c ∈ o.changes, ∃ cs, c = (h.run cs).save places

variable {h : Host} {places : Places}

theorem savesRun_nil {o : Outcome} (ho : o.changes = []) : o.SavesRun h places := by
  rw [SavesRun, ho]
  exact List.forall_mem_nil _

theorem savesRun_singleton {o : Outcome} {cs : List Command}
    (ho : o.changes = [(h.run cs).save places]) : o.SavesRun h places := by
  rw [SavesRun, ho]
  exact List.forall_mem_singleton.2 ⟨cs, rfl⟩

/-- A failure on the way saves nothing. -/
theorem savesRun_ofExcept {x : Except ProgramError Outcome}
    (hx : ∀ o, x = .ok o → o.SavesRun h places) : (ofExcept x).SavesRun h places := by
  cases x with
  | error e => exact savesRun_nil rfl
  | ok o => exact hx o rfl

end Outcome

/-- On the ledger of a run under the rules of agreements, these come to a verdict on every
    transaction. So what is submitted there traps only if no block can be made after it. -/
theorem Session.traps_eq_false (genesis : Timestamp) (blockTime : UInt64) (params : Params)
    (others : List Validator) (cs : List Command) (q : Params) (tx : Transaction) :
    (⟨q, (Host.underRules genesis blockTime params others).run cs⟩ : Session).traps tx = false := by
  rw [traps]
  split
  · next hverdict =>
    have hl := Host.reachable_underRules_run genesis blockTime params others cs
    have hv := Host.keepsRules_underRules genesis blockTime params others
    exact absurd hverdict (hl.validate_ne_keySumOverflow hv)
  · rfl

/-- What is submitted and perhaps put into a block is what the commands for it do. -/
theorem Session.exists_run_of_submit? {s : Session} {tx : Transaction} {thenMine : Bool} {id : TxId}
    {host : Host} (h : s.submit? tx thenMine = some (.ok (id, host))) :
    ∃ cs, host = s.host.run cs := by
  rw [submit?] at h
  split at h
  · split at h <;> cases h
  · next next hsubmit =>
    obtain ⟨last, hlast, h⟩ := Option.map_eq_some_iff.1 h
    cases h
    have hnext : next = s.host.run [.submit tx] := (congrArg Prod.snd hsubmit).symm
    -- A block that can be had is the one that the command makes.
    cases thenMine with
    | false =>
      cases hlast
      exact ⟨_, hnext⟩
    | true =>
      rw [if_pos rfl] at hlast
      rw [(Host.mine?_eq hlast).1, hnext]
      exact ⟨[.submit tx, .mine], rfl⟩

/-- A request leads to a host that commands lead to. -/
theorem LedgerRequest.exists_run_of_perform {s : Session} {request : LedgerRequest} {answer : Json}
    {host : Host} (h : request.perform s = some (.ok (answer, host))) :
    ∃ cs, host = s.host.run cs := by
  -- Each request has its command, or none if it only asks.
  cases request with
  | init force =>
    cases h
    exact ⟨[], rfl⟩
  | fund key value =>
    obtain ⟨next, hfund, h⟩ := Option.bind_eq_some_iff.1 h
    obtain ⟨_, -, h⟩ := map_eq_ok_iff.1 (Option.some.inj h)
    cases h
    exact ⟨[.fund key value], (Host.fund?_eq hfund).1⟩
  | mine =>
    obtain ⟨next, hmine, h⟩ := Option.bind_eq_some_iff.1 h
    cases h
    exact ⟨[.mine], (Host.mine?_eq hmine).1⟩
  | advance blocks =>
    obtain ⟨next, hadvance, h⟩ := Option.bind_eq_some_iff.1 h
    cases h
    exact ⟨[.advance blocks], (Host.advance?_eq hadvance).1⟩
  | notarize height =>
    obtain ⟨_, -, h⟩ := map_eq_ok_iff.1 (Option.some.inj h)
    cases h
    exact ⟨[.notarize (height.getD s.host.ledger.height)], rfl⟩
  | info =>
    obtain ⟨_, -, h⟩ := Option.bind_eq_some_iff.1 h
    cases h
    exact ⟨[], rfl⟩
  | balance key =>
    obtain ⟨_, -, h⟩ := Option.bind_eq_some_iff.1 h
    cases h
    exact ⟨[], rfl⟩
  | submit hex thenMine =>
    rw [perform] at h
    split at h
    · cases h
    · obtain ⟨result, hsubmit, h⟩ := Option.bind_eq_some_iff.1 h
      obtain ⟨⟨id, next⟩, rfl, h⟩ := map_eq_ok_iff.1 (Option.some.inj h)
      cases h
      exact Session.exists_run_of_submit? hsubmit

section
variable {env : Environment} {places : Places} {s : Session}
variable (hs : env.session places = .ok s)
include hs

/-- A request about the ledger saves the host after its commands, unless it fails or traps. -/
theorem LedgerRequest.savesRun {request : LedgerRequest} (hinit : ∀ force, request ≠ .init force) :
    (request.run env places).SavesRun s.host places := by
  cases request with
  | init force => exact absurd rfl (hinit force)
  | _ =>
    refine Outcome.savesRun_ofExcept fun o ho => ?_
    obtain ⟨s', hs', ho⟩ := bind_eq_ok_iff.1 ho
    cases hs.symm.trans hs'
    split at ho
    · next hperform =>
      simp only [bind_eq_ok_iff, mapError_eq_ok_iff, pure_eq_ok_iff] at ho
      obtain ⟨⟨answer, host⟩, rfl, rfl⟩ := ho
      obtain ⟨cs, rfl⟩ := exists_run_of_perform hperform
      exact Outcome.savesRun_singleton rfl
    · cases ho
      exact Outcome.savesRun_nil rfl

/-- A draft saves the host only if it is submitted, and then with what is submitted. -/
theorem DraftRequest.savesRun (publishing : Publishing) (request : DraftRequest) :
    (request.run env places publishing).SavesRun s.host places := by
  refine Outcome.savesRun_ofExcept fun o ho => ?_
  simp only [bind_eq_ok_iff] at ho
  obtain ⟨s', hs', key, -, ho⟩ := ho
  cases hs.symm.trans hs'
  split at ho
  · cases ho
    exact Outcome.savesRun_nil rfl
  · cases ho
    exact Outcome.savesRun_nil rfl
  · split at ho
    · cases ho
      exact Outcome.savesRun_nil rfl
    · split at ho
      · cases ho
        exact Outcome.savesRun_nil rfl
      · cases ho
        exact Outcome.savesRun_nil rfl
      · next hsubmit =>
        cases ho
        obtain ⟨cs, rfl⟩ := Session.exists_run_of_submit? hsubmit
        exact Outcome.savesRun_singleton rfl

/-- A request that neither makes a key nor begins a ledger saves the host that it has
    taken up as commands have left it, or nothing. -/
theorem Request.savesRun {request : Request}
    (hkeygen : ∀ directory stem, request ≠ .keygen directory stem)
    (hinit : ∀ force, request ≠ .ledger (.init force)) :
    (request.run env places).SavesRun s.host places := by
  cases request with
  | keygen directory stem => exact absurd rfl (hkeygen directory stem)
  | ledger request => exact request.savesRun hs fun force h => hinit force (congrArg _ h)
  | draft request publishing => exact request.savesRun hs publishing
  | report request => exact Outcome.savesRun_nil (request.changes_run env places)

end

/-- From one request to the next the ledger in the file stays that of a run: the commands
    of a request follow those before it. -/
theorem Host.exists_run_of_saved (genesis : Timestamp) (blockTime : UInt64) (p : Params)
    (cs : List Command) {env : Environment} {files : Files} {places : Places} {request : Request}
    (hkeygen : ∀ directory stem, request ≠ .keygen directory stem)
    (hinit : ∀ force, request ≠ .ledger (.init force)) :
    let start : Host := ⟨{ genesis, blockTime }, [agreements p]⟩
    (start.run cs).ledger.InRange → env.files = files.apply ((start.run cs).save places) →
      env.params places = .ok p → ∀ c ∈ (request.run env places).changes,
        ∃ cs', c = (start.run (cs ++ cs')).save places := by
  intro start hrange hfiles hparams c hc
  have hs := Host.session_of_saved genesis blockTime p cs hrange hfiles hparams
  obtain ⟨cs', rfl⟩ := Request.savesRun hs hkeygen hinit c hc
  exact ⟨cs', by rw [Host.run_append]⟩

namespace IndexedHost

/-- In every run from an empty ledger, the host that is taken up again is the same,
    with the same answers, and what is done with it gives the same results and leaves
    the same ledgers. It can also be taken up from its text in a file. -/
theorem reload_run (genesis : Timestamp) (blockTime : UInt64) (p : Params) (cs : List Command) :
    let start : Host := ⟨{ genesis, blockTime }, [agreements p]⟩
    let x := (load start).run cs
    (x.host = start.run cs ∧ x.reload = x ∧ x.view = x.ledger.view ∧
      ∀ acts, x.reload.transcript acts = x.transcript acts ∧
        x.transcript acts = x.host.transcript (acts.filterMap Act.command?)) ∧
    (x.ledger.InRange → ∀ (env : Environment) (files : Files) (places : Places),
      env.files = files.apply (x.host.save places) → env.params places = .ok p →
        env.session places = .ok ⟨p, x.host⟩) := by
  intro start x
  have hx : x = load (start.run cs) := run_load start cs
  rw [hx]
  refine ⟨⟨rfl, rfl, view_load _, fun acts => ⟨rfl, transcript_load _ acts⟩⟩, ?_⟩
  intro hrange env files places hfiles hparams
  exact Host.session_of_saved genesis blockTime p cs hrange hfiles hparams

/-- A host that has funded a key, made blocks and notarized one is taken up as it was
    by a later request. -/
theorem reload_funded :
    let start : Host := ⟨{ genesis := ⟨0, 0⟩, blockTime := 60 }, [agreements {}]⟩
    let cs : List Command := [.fund ⟨.fill 32 1⟩ 5, .advance 2, .notarize 1]
    let x := (load start).run cs
    let files := Files.apply (fun _ => .absent) (x.host.save {})
    x.ledger.height = 3 ∧ x.ledger.InRange ∧
      Environment.session ⟨files, ⟨1000, 0⟩, .fill 32 0⟩ {} = .ok ⟨{}, x.host⟩ := by
  intro start cs x files
  have hrange : x.ledger.InRange := by
    refine ⟨show 3 < 0x100000000 by decide, ⟨by decide, by decide, by decide⟩, fun b hb => ?_⟩
    -- The one block is that of the funding.
    have htimes : x.ledger.blocks.map Block.time = [⟨60, 0⟩] := rfl
    have htime : b.time ∈ x.ledger.blocks.map Block.time := List.mem_map_of_mem hb
    rw [htimes] at htime
    rw [List.mem_singleton.1 htime]
    exact ⟨by decide, by decide, by decide⟩
  exact ⟨rfl, hrange, (reload_run ⟨0, 0⟩ 60 {} cs).2 hrange _ _ _ rfl rfl⟩

end IndexedHost

end Escrow
