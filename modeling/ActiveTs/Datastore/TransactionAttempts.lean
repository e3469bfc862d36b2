import Mathlib.Data.List.Basic

/-! # Attempts of a Datastore transaction

A transaction runs its callback and commits, and begins anew when the commit was aborted. A failure
ends it: before the commit the attempt is rolled back, and a failed commit is told apart by its error.
The rollback is confirmed to the caller only where nothing can have been applied. -/

namespace ActiveTs.Datastore.Attempts

/-! ## Errors of the SDK -/

/-- `datastoreErrorCode`: a text is already in upper case with underscores. -/
inductive ErrorCode
  | none
  | number (value : Int)
  | text (value : String)
  deriving DecidableEq

structure SdkError where
  ref : Nat
  code : ErrorCode
  deriving DecidableEq

def isDatastoreAbortedError (error : SdkError) : Bool :=
  error.code = .number 10 || error.code = .text "ABORTED"

def isDatastoreDefiniteCommitFailure (error : SdkError) : Bool :=
  match error.code with
  | .none => false
  | .number code => [3, 5, 6, 7, 8, 9, 11, 12, 16].contains code
  | .text code =>
    ["INVALID_ARGUMENT", "NOT_FOUND", "ALREADY_EXISTS", "PERMISSION_DENIED", "RESOURCE_EXHAUSTED",
      "FAILED_PRECONDITION", "OUT_OF_RANGE", "UNIMPLEMENTED", "UNAUTHENTICATED"].contains code

/-- The errors of the transaction call. -/
inductive TransactionError
  | original (error : SdkError)
  /-- `datastoreTransactionConflict` -/
  | conflict (error : SdkError)
  /-- `markTransactionRollbackSkipped` of the error of a commit. -/
  | unknownOutcome (error : SdkError)
  /-- `markTransactionRollbackSkipped` of both errors. -/
  | rollbackFailed (error rollbackError : SdkError)
  /-- The attempts are exhausted without an outcome. -/
  | exhausted
  deriving DecidableEq

/-! ## One attempt -/

inductive MutationKind
  | create
  | update
  | delete

/-- What the environment does in one attempt. -/
structure Script (R M : Type) where
  /-- `transactionFactory` or the checks of what it returns. -/
  factory : Option SdkError
  run : Option SdkError
  /-- The stores of the attempt are made. -/
  setup : Option SdkError
  callback : Except SdkError R
  /-- The mutations that the callback has buffered. -/
  buffered : List (MutationKind × M)
  pendingOperations : Option SdkError
  /-- The failure of the write of the `n`-th buffered mutation. -/
  flush : Nat → Option SdkError
  commit : Option SdkError
  /-- Whether a commit whose failure decides nothing has applied its mutations. -/
  applied : Bool
  rollback : Option SdkError
  retryWait : Option SdkError

/-- How far an attempt came. -/
inductive Progress
  | factory
  | run
  | setup
  | callback
  | flush
  | commit
  deriving DecidableEq

/-- The exits of an attempt. -/
inductive Exit (R : Type)
  | notStarted (error : SdkError)
  | committed (result : R)
  | commitFailed (error : SdkError)
  | rolledBack (error : SdkError)
  | rollbackFailed (error rollbackError : SdkError)

/-- An attempt that was made, and whether its mutations are applied. -/
structure Attempt (R : Type) where
  number : Nat
  progress : Progress
  exit : Exit R
  applied : Bool

variable {R M : Type}

namespace Script

variable (script : Script R M)

/-- The loop that writes the buffered mutations to the transaction. -/
def flushFrom (n : Nat) : List (MutationKind × M) → Option SdkError
  | [] => none
  | _ :: rest =>
    match script.flush n with
    | some error => some error
    | none => flushFrom (n + 1) rest

/-- The failure before the commit, and where it is. -/
def failure (readOnly : Bool) : Except (Progress × SdkError) R :=
  match script.setup with
  | some error => .error (.setup, error)
  | none =>
    match script.callback with
    -- The failures of pending operations are dropped here.
    | .error error => .error (.callback, error)
    | .ok result =>
      match script.pendingOperations with
      | some error => .error (.callback, error)
      | none =>
        match if readOnly then none else script.flushFrom 0 script.buffered with
        | some error => .error (.flush, error)
        | none => .ok result

/-- What a commit whose error decides nothing leaves. An aborted or definitely failed one applies
nothing. -/
def appliedByFailedCommit (error : SdkError) : Bool :=
  !isDatastoreAbortedError error && !isDatastoreDefiniteCommitFailure error && script.applied

def attempt (readOnly : Bool) (number : Nat) : Attempt R :=
  match script.factory, script.run with
  | some error, _ => ⟨number, .factory, .notStarted error, false⟩
  | none, some error => ⟨number, .run, .notStarted error, false⟩
  | none, none =>
    match script.failure readOnly with
    | .error (progress, error) =>
      match script.rollback with
      | some rollbackError => ⟨number, progress, .rollbackFailed error rollbackError, script.applied⟩
      | none => ⟨number, progress, .rolledBack error, false⟩
    | .ok result =>
      match script.commit with
      | some error => ⟨number, .commit, .commitFailed error, script.appliedByFailedCommit error⟩
      | none => ⟨number, .commit, .committed result, true⟩

end Script

/-- The callback was run. -/
def Attempt.ranCallback (a : Attempt R) : Bool :=
  match a.progress with
  | .factory | .run | .setup => false
  | .callback | .flush | .commit => true

/-! ## The loop -/

/-- The attempts that were made, how the call ended, and whether the rollback was confirmed. -/
structure Run (R : Type) where
  attempts : List (Attempt R)
  result : Except TransactionError R
  confirmed : Bool

/-- What the loop does after an attempt: it ends, with or without a confirmed rollback, or goes on. -/
inductive Next (R : Type)
  | stop (result : Except TransactionError R) (confirmed : Bool)
  | retry

def Attempt.next (a : Attempt R) (last : Bool) (retryWait : Option SdkError) : Next R :=
  match a.exit with
  | .notStarted error => .stop (.error (.original error)) false
  | .committed result => .stop (.ok result) false
  | .commitFailed error =>
    if isDatastoreAbortedError error then
      if last then .stop (.error (.conflict error)) true
      else
        match retryWait with
        | some waitError => .stop (.error (.original waitError)) false
        | none => .retry
    else if isDatastoreDefiniteCommitFailure error then .stop (.error (.original error)) true
    else .stop (.error (.unknownOutcome error)) false
  | .rolledBack error => .stop (.error (.original error)) true
  | .rollbackFailed error rollbackError => .stop (.error (.rollbackFailed error rollbackError)) false

/-- The attempts from `number` on, of which there may be `remaining`. -/
def attemptsFrom (readOnly : Bool) (scripts : Nat → Script R M) (number : Nat) : Nat → Run R
  | 0 => ⟨[], .error .exhausted, false⟩
  | remaining + 1 =>
    let current := (scripts number).attempt readOnly number
    match current.next (remaining = 0) (scripts number).retryWait with
    | .stop result confirmed => ⟨[current], result, confirmed⟩
    | .retry =>
      let later := attemptsFrom readOnly scripts (number + 1) remaining
      ⟨current :: later.attempts, later.result, later.confirmed⟩

def transaction (readOnly : Bool) (maxAttempts : Nat) (scripts : Nat → Script R M) : Run R :=
  attemptsFrom readOnly scripts 1 maxAttempts

/-! ## What an attempt leaves -/

/-- The exits after which mutations may be applied. -/
def Exit.mayApply : Exit R → Bool
  | .notStarted _ => false
  | .committed _ => true
  | .commitFailed error => !isDatastoreAbortedError error && !isDatastoreDefiniteCommitFailure error
  | .rolledBack _ => false
  | .rollbackFailed _ _ => true

/-- The facts about one attempt that the loop relies on. -/
structure AttemptLaw (scripts : Nat → Script R M) (a : Attempt R) : Prop where
  committed : ∀ value, a.exit = .committed value →
    (scripts a.number).callback = .ok value ∧ (scripts a.number).commit = none
  applied : a.exit.mayApply = false → a.applied = false

/-- Only a callback that returned gets to the commit. -/
theorem Script.failure_eq_ok {script : Script R M} {readOnly : Bool} {value : R}
    (h : script.failure readOnly = .ok value) : script.callback = .ok value := by
  unfold Script.failure at h
  split at h
  · cases h
  · split at h
    · cases h
    · next hcallback =>
      split at h
      · cases h
      · split at h
        · cases h
        · cases h
          exact hcallback

theorem Script.attempt_committed {script : Script R M} {readOnly : Bool} {number : Nat} {value : R}
    (h : (script.attempt readOnly number).exit = .committed value) :
    script.callback = .ok value ∧ script.commit = none := by
  unfold Script.attempt at h
  split at h
  · cases h
  · cases h
  · split at h
    · split at h <;> cases h
    · next hresult =>
      split at h
      · cases h
      · next hcommit =>
        cases h
        exact ⟨Script.failure_eq_ok hresult, hcommit⟩

theorem Script.attempt_applied (script : Script R M) (readOnly : Bool) (number : Nat)
    (h : (script.attempt readOnly number).exit.mayApply = false) :
    (script.attempt readOnly number).applied = false := by
  unfold Script.attempt at h ⊢
  split at h
  · rfl
  · rfl
  · split at h
    · split at h
      · cases h
      · rfl
    · split at h
      · next error _ =>
        rw [Exit.mayApply] at h
        change script.appliedByFailedCommit error = false
        rw [Script.appliedByFailedCommit, h, Bool.false_and]
      · cases h

theorem Script.number_attempt (script : Script R M) (readOnly : Bool) (number : Nat) :
    (script.attempt readOnly number).number = number := by
  unfold Script.attempt
  split
  · rfl
  · rfl
  · split
    · split <;> rfl
    · split <;> rfl

theorem attemptLaw (readOnly : Bool) (scripts : Nat → Script R M) (number : Nat) :
    AttemptLaw scripts ((scripts number).attempt readOnly number) where
  committed value h := by
    rw [Script.number_attempt]
    exact Script.attempt_committed h
  applied h := Script.attempt_applied _ _ _ h

/-- What the loop concludes from an attempt. -/
structure NextLaw (a : Attempt R) (next : Next R) : Prop where
  committed : ∀ value confirmed, next = .stop (.ok value) confirmed → a.exit = .committed value
  confirmed : ∀ result, next = .stop result true → a.exit.mayApply = false
  retried : next = .retry →
    ∃ error, a.exit = .commitFailed error ∧ isDatastoreAbortedError error = true

theorem mayApply_aborted {error : SdkError} (h : isDatastoreAbortedError error = true) :
    (Exit.commitFailed error : Exit R).mayApply = false := by
  rw [Exit.mayApply, h]
  rfl

theorem NextLaw.unconfirmed {a : Attempt R} {error : TransactionError} :
    NextLaw a (.stop (.error error) false) where
  committed _ _ h := by cases h
  confirmed _ h := by cases h
  retried h := by cases h

theorem NextLaw.rollback {a : Attempt R} {error : TransactionError}
    (hexit : a.exit.mayApply = false) : NextLaw a (.stop (.error error) true) where
  committed _ _ h := by cases h
  confirmed _ _ := hexit
  retried h := by cases h

theorem nextLaw (a : Attempt R) (last : Bool) (retryWait : Option SdkError) :
    NextLaw a (a.next last retryWait) := by
  unfold Attempt.next
  cases hexit : a.exit with
  | notStarted error => exact .unconfirmed
  | committed result =>
    refine ⟨fun _ _ h => ?_, fun _ h => ?_, fun h => ?_⟩ <;> cases h
    exact hexit
  | commitFailed error =>
    dsimp only
    split
    · next haborted =>
      have hnothing : a.exit.mayApply = false := by
        rw [hexit]
        exact mayApply_aborted haborted
      split
      · exact .rollback hnothing
      · split
        · exact .unconfirmed
        · refine ⟨fun _ _ h => ?_, fun _ h => ?_, fun _ => ⟨error, hexit, haborted⟩⟩ <;> cases h
    · split
      · next hdefinite =>
        apply NextLaw.rollback
        rw [hexit, Exit.mayApply, hdefinite]
        exact Bool.and_false _
      · exact .unconfirmed
  | rolledBack error =>
    apply NextLaw.rollback
    rw [hexit]
    rfl
  | rollbackFailed error rollbackError => exact .unconfirmed

/-! ## Outcomes -/

/-- What a call that may make `maxAttempts` attempts has done. -/
structure Sound (scripts : Nat → Script R M) (maxAttempts : Nat) (run : Run R) : Prop where
  /-- A result is that of the callback of the attempt whose commit was acknowledged. -/
  resolved : ∀ value, run.result = .ok value → ∃ earlier last, run.attempts = earlier ++ [last] ∧
    last.exit = .committed value ∧ (scripts last.number).callback = .ok value ∧
    (scripts last.number).commit = none
  confirmed : run.confirmed = true → ∀ a ∈ run.attempts, a.applied = false
  /-- An attempt that another one follows was aborted in its commit. -/
  restarted : ∀ earlier a rest, run.attempts = earlier ++ a :: rest → rest ≠ [] →
    a.applied = false ∧ ∃ error, a.exit = .commitFailed error ∧ isDatastoreAbortedError error = true
  bounded : (run.attempts.filter Attempt.ranCallback).length ≤ maxAttempts

namespace Sound

variable {scripts : Nat → Script R M} {remaining : Nat} {a : Attempt R}

theorem stop {result : Except TransactionError R} {confirmed : Bool} (ha : AttemptLaw scripts a)
    (h : NextLaw a (.stop result confirmed)) :
    Sound scripts (remaining + 1) ⟨[a], result, confirmed⟩ where
  resolved value hvalue := by
    have hvalue : result = .ok value := hvalue
    have hexit := h.committed value confirmed (by rw [hvalue])
    exact ⟨[], a, rfl, hexit, ha.committed value hexit⟩
  confirmed hconfirmed b hb := by
    have hconfirmed : confirmed = true := hconfirmed
    cases List.mem_singleton.mp hb
    exact ha.applied (h.confirmed result (by rw [hconfirmed]))
  restarted earlier b rest heq hrest := by
    have heq : [a] = earlier ++ b :: rest := heq
    have hlength := congrArg List.length heq
    rw [List.length_singleton, List.length_append, List.length_cons] at hlength
    exact absurd (List.eq_nil_of_length_eq_zero (by omega)) hrest
  bounded := Nat.le_trans (List.length_filter_le _ _) (Nat.le_add_left 1 remaining)

theorem retry {later : Run R} (ha : AttemptLaw scripts a) (h : NextLaw a .retry)
    (hlater : Sound scripts remaining later) :
    Sound scripts (remaining + 1) ⟨a :: later.attempts, later.result, later.confirmed⟩ where
  resolved value hvalue := by
    obtain ⟨earlier, last, hattempts, hlast⟩ := hlater.resolved value hvalue
    exact ⟨a :: earlier, last, congrArg (a :: ·) hattempts, hlast⟩
  confirmed hconfirmed b hb := by
    obtain ⟨error, hexit, haborted⟩ := h.retried rfl
    rcases List.mem_cons.mp hb with rfl | hb
    · apply ha.applied
      rw [hexit]
      exact mayApply_aborted haborted
    · exact hlater.confirmed hconfirmed b hb
  restarted earlier b rest heq hrest := by
    cases earlier with
    | nil =>
      cases heq
      obtain ⟨error, hexit, haborted⟩ := h.retried rfl
      refine ⟨ha.applied ?_, error, hexit, haborted⟩
      rw [hexit]
      exact mayApply_aborted haborted
    | cons first earlier =>
      rw [List.cons_append, List.cons.injEq] at heq
      exact hlater.restarted earlier b rest heq.2 hrest
  bounded := by
    rw [List.filter_cons]
    have hbounded := hlater.bounded
    split
    · rw [List.length_cons]
      omega
    · omega

end Sound

theorem sound_attemptsFrom (readOnly : Bool) (scripts : Nat → Script R M) (number remaining : Nat) :
    Sound scripts remaining (attemptsFrom readOnly scripts number remaining) := by
  induction remaining generalizing number with
  | zero =>
    refine ⟨fun _ h => (by cases h), fun h => (by cases h), fun earlier a rest h => ?_, Nat.le_refl 0⟩
    exact absurd h.symm (List.append_ne_nil_of_right_ne_nil _ (List.cons_ne_nil a rest))
  | succ remaining ih =>
    have ha := attemptLaw readOnly scripts number
    have hnext := nextLaw ((scripts number).attempt readOnly number) (remaining = 0)
      (scripts number).retryWait
    rw [attemptsFrom]
    revert hnext
    generalize ((scripts number).attempt readOnly number).next (remaining = 0)
      (scripts number).retryWait = next
    intro hnext
    cases next with
    | stop result confirmed => exact .stop ha hnext
    | retry => exact .retry ha hnext (ih (number + 1))

/-- A call resolves with the result of the attempt whose commit was acknowledged, confirms the rollback
only where no attempt has applied anything, begins anew only after aborted commits, and runs the
callback at most `maxAttempts` times. -/
theorem outcomes_sound (readOnly : Bool) (maxAttempts : Nat) (scripts : Nat → Script R M) :
    Sound scripts maxAttempts (transaction readOnly maxAttempts scripts) :=
  sound_attemptsFrom readOnly scripts 1 maxAttempts

end ActiveTs.Datastore.Attempts
