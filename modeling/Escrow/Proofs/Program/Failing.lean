import Escrow.Program.Run
import Escrow.Proofs.Checks

/-!
# What a failing request leaves

A request that fails or traps changes no file, as all that may go wrong does so before
anything is written (`Outcome.Spares`). There is one exception. When an empty ledger
is begun by force, an old one is removed before the parameters are read; if they
cannot be had then, the old ledger is lost (`Environment.Forfeits`).

Main statement: `failing_run`.
-/

namespace Escrow

/-- What is put at a path is found there. -/
theorem Files.find_put (files : Files) (path : String) (file : File) :
    (files.put path file).find path = file :=
  if_pos rfl

/-- What is put at a path last is what counts. -/
theorem Files.put_put (files : Files) (path : String) (file file' : File) :
    (files.put path file).put path file' = files.put path file' := by
  funext p
  simp only [put]
  split <;> rfl

/-! ## Outcomes -/

namespace Outcome

/-- If an outcome is no success, nothing is done to files. -/
def Spares (o : Outcome) : Prop :=
  o.code ≠ 0 → o.changes = []

/-- A success has nothing to spare. -/
theorem spares_success (lines : List String) (changes : List Change) :
    (success lines changes).Spares :=
  fun hcode => absurd rfl hcode

theorem spares_failure (e : ProgramError) : (failure e []).Spares :=
  fun _ => rfl

theorem spares_trapped : trapped.Spares :=
  fun _ => rfl

theorem spares_ofReply_nil (r : Reply) : (ofReply r []).Spares :=
  fun _ => rfl

/-- A reply that tells of success is one. -/
theorem spares_ofReply {r : Reply} (hr : r.isSuccess) (changes : List Change) :
    (ofReply r changes).Spares :=
  fun hcode => absurd (if_pos hr) hcode

/-- A failure on the way spares the files. -/
theorem spares_ofExcept {x : Except ProgramError Outcome} (h : ∀ o, x = .ok o → o.Spares) :
    (ofExcept x).Spares := by
  cases x with
  | error e => exact spares_failure e
  | ok o => exact h o rfl

/-- What may fail before anything is done to files does nothing to them if it fails. -/
theorem changes_ofExcept {x : Except ProgramError Outcome} (h : ∀ o, x = .ok o → o.changes = []) :
    (ofExcept x).changes = [] := by
  cases x with
  | error e => rfl
  | ok o => exact h o rfl

end Outcome

theorem Reply.isSuccess_adding (name : String) (value : Json) (r : Reply) :
    (r.adding name value).isSuccess = r.isSuccess := by
  cases r <;> rfl

/-! ## Requests -/

section
variable (env : Environment) (places : Places)

/-- The host is asked before the ledger is written back. -/
theorem LedgerRequest.spares_run {request : LedgerRequest}
    (hinit : ∀ force, request ≠ .init force) : (request.run env places).Spares := by
  cases request with
  | init force => exact absurd rfl (hinit force)
  | _ =>
    refine Outcome.spares_ofExcept fun o ho => ?_
    obtain ⟨s, -, ho⟩ := bind_eq_ok_iff.1 ho
    split at ho
    · simp only [bind_eq_ok_iff, pure_eq_ok_iff] at ho
      obtain ⟨answer, -, rfl⟩ := ho
      exact Outcome.spares_success _ _
    · cases ho
      exact Outcome.spares_trapped

/-- A draft is written back only if the host has admitted it. -/
theorem DraftRequest.spares_run (publishing : Publishing) (request : DraftRequest) :
    (request.run env places publishing).Spares := by
  refine Outcome.spares_ofExcept fun o ho => ?_
  simp only [bind_eq_ok_iff] at ho
  obtain ⟨s, -, key, -, ho⟩ := ho
  -- In the order of the request: the draft, what becomes of it, and what the host says of it.
  split at ho
  · cases ho
    exact Outcome.spares_trapped
  · cases ho
    exact Outcome.spares_ofReply_nil _
  · split at ho
    · cases ho
      exact Outcome.spares_ofReply_nil _
    · split at ho
      · cases ho
        exact Outcome.spares_trapped
      · cases ho
        exact Outcome.spares_ofReply_nil _
      · cases ho
        exact Outcome.spares_ofReply (Reply.isSuccess_adding _ _ _) _

/-- A report changes nothing, whatever comes of it. -/
theorem ReportRequest.changes_run (request : ReportRequest) :
    (request.run env places).changes = [] := by
  refine Outcome.changes_ofExcept fun o ho => ?_
  obtain ⟨s, -, ho⟩ := bind_eq_ok_iff.1 ho
  have replies : ∀ {x : Except ProgramError Reply},
      (do return Outcome.ofReply (← x) []) = .ok o → o.changes = [] := by
    intro x hx
    simp only [bind_eq_ok_iff, pure_eq_ok_iff] at hx
    obtain ⟨reply, -, rfl⟩ := hx
    rfl
  -- Only an inventory may ask for something else, the key of the caller.
  cases request with
  | inventory key =>
    cases key with
    | none =>
      obtain ⟨key, -, ho⟩ := bind_eq_ok_iff.1 ho
      exact replies ho
    | some key => exact replies (x := .ok _) ho
  | _ => exact replies ho

/-- Without a ledger in its file only the parameters may be missing. -/
theorem Environment.exists_params_error {e : ProgramError}
    (hledger : env.files.find places.ledger = .absent) (h : env.session places = .error e) :
    ∃ e, env.params places = .error e := by
  cases hparams : env.params places with
  | error e' => exact ⟨e', rfl⟩
  | ok p =>
    rw [Environment.session, hparams] at h
    change (do let l ← env.ledger places p; _) = _ at h
    rw [Environment.ledger, hledger] at h
    cases h

/-- An old ledger is to make way for an empty one, and once it is removed there are no
    parameters to begin that with. -/
def Environment.Forfeits (request : Request) : Prop :=
  request = .ledger (.init true) ∧ env.files.find places.ledger ≠ .absent ∧
    ∃ e, ({ env with files := env.files.put places.ledger .absent }).params places = .error e

/-- Who begins a ledger and fails has changed no file, or has removed the old ledger. -/
theorem LedgerRequest.changes_start {force : Bool} (hcode : (start env places force).code ≠ 0) :
    (¬env.Forfeits places (.ledger (.init force)) ∧ (start env places force).changes = []) ∨
      (env.Forfeits places (.ledger (.init force)) ∧
        (start env places force).changes = [.remove "chain state" places.ledger]) := by
  by_cases hledger : env.files.find places.ledger = .absent
  · refine .inl ⟨fun h => h.2.1 hledger, ?_⟩
    rw [start, if_pos hledger] at hcode ⊢
    cases hs : env.session places with
    | error e => simp only [hs, Outcome.failure]
    | ok s =>
      simp only [hs] at hcode
      exact absurd rfl hcode
  · cases force with
    | false =>
      rw [start, if_neg hledger]
      refine .inl ⟨fun h => ?_, rfl⟩
      cases h.1
    | true =>
      rw [start, if_neg hledger, if_pos rfl] at hcode ⊢
      -- The old ledger is removed, and only then it turns out whether there are parameters.
      cases hs : ({ env with files := env.files.put places.ledger .absent }).session places with
      | error e =>
        have hparams := Environment.exists_params_error _ places (Files.find_put ..) hs
        exact .inr ⟨⟨rfl, hledger, hparams⟩, by simp only [Files.apply, hs, Outcome.failure]⟩
      | ok s =>
        simp only [Files.apply, hs] at hcode
        exact absurd rfl hcode

/-- A request that fails changes no file, or forfeits an old ledger and removes it. -/
theorem Request.changes_run {request : Request} (hcode : (request.run env places).code ≠ 0) :
    (¬env.Forfeits places request ∧ (request.run env places).changes = []) ∨
      (env.Forfeits places request ∧
        (request.run env places).changes = [.remove "chain state" places.ledger]) := by
  cases request with
  | keygen directory stem => exact absurd rfl hcode
  | draft request publishing =>
    exact .inl ⟨fun h => (by cases h.1), request.spares_run env places publishing hcode⟩
  | report request => exact .inl ⟨fun h => (by cases h.1), request.changes_run env places⟩
  | ledger request =>
    cases request with
    | init force => exact LedgerRequest.changes_start env places hcode
    | _ =>
      refine .inl ⟨fun h => (by cases h.1), LedgerRequest.spares_run env places ?_ hcode⟩
      exact fun _ h => by cases h

end

/-- A command line that fails leaves the ledger in its file as it was, and all other
    files, unless it forfeits an old ledger. -/
theorem failing_run (env : Environment) (args : List String) :
    let o := runArguments env args
    let files := env.files.applyAll o.changes
    o.code ≠ 0 →
      (Arguments.parse? args = none → files = env.files) ∧
        ∀ places request, Arguments.parse? args = some (places, request) →
          (files.find places.ledger = env.files.find places.ledger ↔
            ¬env.Forfeits places request) ∧
          (¬env.Forfeits places request → files = env.files) := by
  intro o files hcode
  refine ⟨fun hparse => ?_, fun places request hparse => ?_⟩
  · simp only [files, o, runArguments, hparse]
    rfl
  · have hrun : o = request.run env places := by simp only [o, runArguments, hparse]
    rw [hrun] at hcode
    -- Nothing is done to files, or one thing is: the old ledger goes.
    rcases request.changes_run env places hcode with ⟨hkept, hnil⟩ | ⟨hlost, hremoved⟩
    · have hfiles : files = env.files := by
        simp only [files, hrun, hnil, Files.applyAll, List.foldl_nil]
      exact ⟨iff_of_true (by rw [hfiles]) hkept, fun _ => hfiles⟩
    · have hfiles : files = env.files.put places.ledger .absent := by
        simp only [files, hrun, hremoved]
        rfl
      refine ⟨iff_of_false ?_ (not_not_intro hlost), fun hkept => absurd hlost hkept⟩
      rw [hfiles, Files.find_put]
      exact Ne.symm hlost.2.1

namespace Forced

/-- A file that holds a ledger with one block, and no other file. -/
def environment : Environment where
  files := Files.put (fun _ => .absent) "agr-chain.json"
    (.text (Ledger.toJson { genesis := ⟨0, 0⟩, blockTime := 60, height := 1 }).pretty)
  now := ⟨0, 0⟩
  seed := .fill 32 0

theorem find_ledger : environment.files.find "agr-chain.json" ≠ .absent := by
  rw [environment, Files.find_put]
  exact fun h => by cases h

/-- A ledger is not begun anew without force, and the old one stays in its file. -/
theorem ledger_kept :
    let o := runArguments environment ["chain", "init"]
    o.code ≠ 0 ∧ (environment.files.applyAll o.changes).find "agr-chain.json" =
      environment.files.find "agr-chain.json" := by
  intro o
  have hparse : Arguments.parse? ["chain", "init"] = some ({}, .ledger (.init false)) := by
    decide +kernel
  have hcode : o.code ≠ 0 := by
    simp only [o, runArguments, hparse, Request.run, LedgerRequest.run, LedgerRequest.start]
    rw [if_neg find_ledger]
    decide
  refine ⟨hcode, (((failing_run environment _ hcode).2 _ _ hparse).1).2 fun h => ?_⟩
  cases h.1

/-- With force and a config file that is not there the old ledger is lost. -/
theorem ledger_lost :
    let o := runArguments environment ["chain", "init", "--force", "--config", "missing.json"]
    o.code ≠ 0 ∧ environment.files.find "agr-chain.json" ≠ .absent ∧
      (environment.files.applyAll o.changes).find "agr-chain.json" = .absent := by
  intro o
  have hparse : Arguments.parse? ["chain", "init", "--force", "--config", "missing.json"] =
      some ({ config := some "missing.json" }, .ledger (.init true)) := by
    decide +kernel
  have hempty : environment.files.put "agr-chain.json" .absent = fun _ => .absent := by
    rw [environment, Files.put_put]
    exact funext fun _ => ite_self _
  have ho : o = .failure (.configUnreadable "missing.json")
      [.remove "chain state" "agr-chain.json"] := by
    simp only [o, runArguments, hparse, Request.run, LedgerRequest.run, LedgerRequest.start]
    rw [if_neg find_ledger, if_pos trivial, Files.apply, hempty]
    rfl
  rw [ho]
  exact ⟨by decide, find_ledger, Files.find_put ..⟩

end Forced

end Escrow
