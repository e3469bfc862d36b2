import Mathlib.Data.List.Basic
import Mathlib.Data.List.Induction

/-! # The observed outcome of a root transaction

A root transaction hands its callback to a store adapter that may run it any number of times,
confirm rollbacks, resolve or throw. The adapter's promise, the classes of the thrown errors and
the rollback confirmations are the only evidence of the outcome, and user code can throw errors of
the same classes. An invocation is a list of events in any order; `transactionResult` is what the
caller is told at its end. -/

namespace ActiveTs.Transactions

/-! ## Thrown values -/

/-- The error classes that carry evidence. -/
inductive ErrorClass (R : Type u)
  | committed (result : R)
  | rolledBack
  | other

/-- A thrown value. Only objects have an identity that a `WeakSet` can hold. -/
inductive Thrown (R : Type u)
  | primitive (label : Nat)
  | object (ref : Nat) (cls : ErrorClass R)

variable {R : Type u}

namespace Thrown

def ref? : Thrown R → Option Nat
  | primitive _ => none
  | object ref _ => some ref

/-- `error instanceof ActiveTsCommittedTransactionError`, with the result it carries. -/
def committedResult? : Thrown R → Option R
  | object _ (.committed result) => some result
  | _ => none

/-- `error instanceof ActiveTsRolledBackTransactionError`. -/
def isRolledBack : Thrown R → Bool
  | object _ .rolledBack => true
  | _ => false

end Thrown

/-! ## What is checked before the store transaction starts -/

inductive Refusal
  | foreignContext
  | nestedTransaction
  | callbackNotFunction
  | invalidOptions
  | insideTransaction
  | storeNotRegistered
  | transactionsUnsupported
  | invalidNativeOptions

/-- The facts about one call that the checks read, in the order of the checks. -/
structure Request where
  contextUsable : Bool
  inTransaction : Bool
  callbackIsFunction : Bool
  optionsValid : Bool
  ambientTransaction : Bool
  storeRegistered : Bool
  storeTransactions : Bool
  nativeValid : Bool

def Request.refusal (req : Request) : Option Refusal :=
  if !req.contextUsable then some .foreignContext
  else if req.inTransaction then some .nestedTransaction
  else if !req.callbackIsFunction then some .callbackNotFunction
  else if !req.optionsValid then some .invalidOptions
  else if req.ambientTransaction then some .insideTransaction
  else if !req.storeRegistered then some .storeNotRegistered
  else if !req.storeTransactions then some .transactionsUnsupported
  else if !req.nativeValid then some .invalidNativeOptions
  else none

/-! ## One invocation -/

/-- The field `closed` of a root transaction's state. -/
inductive Closed
  | committed
  | rolledBack
  | failed

/-- The locals of `executeTransaction` that decide its outcome. -/
structure RootRun (R : Type u) where
  /-- `rollbackObservation.confirmed`. -/
  confirmed : Bool
  /-- `attemptState`, with its field `closed`. -/
  attemptState : Option (Option Closed)
  /-- Calls of `run` that still wait for the rollback of the attempt before. -/
  waiting : Nat
  callbackErrors : List Nat
  /-- How the promise of `store.transaction` settled. -/
  settled : Option (Except (Thrown R) R)

/-- What can happen while `store.transaction(run)` is awaited. -/
inductive Event (R : Type u)
  /-- The adapter calls `run`. -/
  | run
  /-- `run` goes on after the rollback of the attempt before. -/
  | resume
  /-- An attempt rejects with an error. -/
  | callbackThrew (e : Thrown R)
  | confirmTransactionRollback
  /-- The adapter's promise settles. -/
  | settle (r : Except (Thrown R) R)

namespace RootRun

def init : RootRun R where
  confirmed := false
  attemptState := none
  waiting := 0
  callbackErrors := []
  settled := none

/-- The first lines of `run`: an open attempt is rolled back before the next one starts. -/
def run (s : RootRun R) : RootRun R :=
  match s.attemptState with
  | some none =>
    { s with confirmed := false, attemptState := some (some .rolledBack), waiting := s.waiting + 1 }
  | _ => { s with confirmed := false, attemptState := some none }

def resume (s : RootRun R) : RootRun R :=
  if s.waiting = 0 then s else { s with attemptState := some none, waiting := s.waiting - 1 }

/-- The `catch` of `run`: thrown objects are remembered. -/
def callbackThrew (s : RootRun R) (e : Thrown R) : RootRun R :=
  match e.ref? with
  | some ref => { s with callbackErrors := ref :: s.callbackErrors }
  | none => s

/-- A promise settles once. -/
def settle (s : RootRun R) (r : Except (Thrown R) R) : RootRun R :=
  { s with settled := s.settled.or (some r) }

def step (s : RootRun R) : Event R → RootRun R
  | .run => s.run
  | .resume => s.resume
  | .callbackThrew e => s.callbackThrew e
  | .confirmTransactionRollback => { s with confirmed := true }
  | .settle r => s.settle r

def ofEvents (es : List (Event R)) : RootRun R := es.foldl step init

/-- `WEAKSET_HAS.call(callbackErrors, error)`. -/
def isCallbackError (s : RootRun R) (e : Thrown R) : Bool :=
  match e.ref? with
  | some ref => s.callbackErrors.contains ref
  | none => false

def rollbackConfirmed (s : RootRun R) (e : Thrown R) : Bool :=
  s.confirmed || (e.isRolledBack && !s.isCallbackError e)

end RootRun

/-! ## The report -/

inductive Outcome
  | committed
  | notCommitted
  | unknown
  deriving DecidableEq

/-- `TransactionResultObservation`. -/
structure Observation (R : Type u) where
  outcome : Outcome
  result : Option R

/-- What `executeTransaction` rejects with. -/
inductive Failure (R : Type u)
  | refused (why : Refusal)
  | thrown (e : Thrown R)
  | completedWithoutCallback
  /-- The new committed error for tasks that failed after a commit. -/
  | afterCommitFailed (result : R)
  /-- The committed error of the adapter, combined with those of the tasks. -/
  | committedAndAfterCommitFailed (e : Thrown R)

/-- The rest of `executeTransaction` once the promise of `store.transaction` has settled;
`taskFails` says whether an afterCommit task throws. -/
def RootRun.conclude (s : RootRun R) (taskFails : Bool) :
    Except (Thrown R) R → Observation R × Except (Failure R) R
  | .error e =>
    match e.committedResult?, s.isCallbackError e with
    | some result, false =>
      if s.attemptState.isSome && taskFails then
        (⟨.committed, some result⟩, .error (.committedAndAfterCommitFailed e))
      else (⟨.committed, some result⟩, .error (.thrown e))
    | _, _ =>
      (⟨if s.rollbackConfirmed e then .notCommitted else .unknown, none⟩, .error (.thrown e))
  | .ok result =>
    if s.attemptState.isNone then (⟨.unknown, none⟩, .error .completedWithoutCallback)
    else if taskFails then (⟨.committed, some result⟩, .error (.afterCommitFailed result))
    else (⟨.committed, some result⟩, .ok result)

/-- `executeTransaction` with its observation, `none` while the store transaction is pending. -/
def executeTransaction (req : Request) (es : List (Event R)) (taskFails : Bool) :
    Option (Observation R × Except (Failure R) R) :=
  match req.refusal with
  | some why => some (⟨.notCommitted, none⟩, .error (.refused why))
  | none => (RootRun.ofEvents es).settled.map ((RootRun.ofEvents es).conclude taskFails)

/-- The type `TransactionResult`. -/
inductive TransactionResult (R : Type u)
  | committed (result : Option R) (error : Option (Failure R))
  | notCommitted (error : Failure R)
  | unknown (error : Failure R)

def TransactionResult.outcome : TransactionResult R → Outcome
  | committed .. => .committed
  | notCommitted _ => .notCommitted
  | unknown _ => .unknown

def TransactionResult.of : Observation R × Except (Failure R) R → TransactionResult R
  | (_, .ok result) => .committed (some result) none
  | (⟨.committed, result⟩, .error e) => .committed result (some e)
  | (⟨.notCommitted, _⟩, .error e) => .notCommitted e
  | (⟨.unknown, _⟩, .error e) => .unknown e

def transactionResult (req : Request) (es : List (Event R)) (taskFails : Bool) :
    Option (TransactionResult R) :=
  (executeTransaction req es taskFails).map .of

/-! ## The evidence in the events -/

/-- How the adapter's promise settled first. -/
def settlement (es : List (Event R)) : Option (Except (Thrown R) R) :=
  es.findSome? fun
    | .settle r => some r
    | _ => none

/-- Some attempt rejected with this very object. -/
def AttemptThrew (es : List (Event R)) (e : Thrown R) : Prop :=
  ∃ ref e', e.ref? = some ref ∧ e'.ref? = some ref ∧ Event.callbackThrew e' ∈ es

/-- The rollback was confirmed after the last attempt had started. -/
def LastAttemptConfirmed (es : List (Event R)) : Prop :=
  ∃ before after, es = before ++ .confirmTransactionRollback :: after ∧ Event.run ∉ after

/-- The adapter acknowledged the commit, or threw a committed error of its own. -/
def CommitEvidence (es : List (Event R)) : Prop :=
  (∃ r, settlement es = some (.ok r)) ∨
    ∃ e, settlement es = some (.error e) ∧ e.committedResult?.isSome ∧ ¬ AttemptThrew es e

/-- The adapter confirmed the rollback of the last attempt, by a confirmation or by throwing a
rolled back error of its own. -/
def RollbackEvidence (es : List (Event R)) : Prop :=
  LastAttemptConfirmed es ∨
    ∃ e, settlement es = some (.error e) ∧ e.isRolledBack = true ∧ ¬ AttemptThrew es e

/-! ## The state remembers the evidence -/

namespace RootRun

@[simp] theorem ofEvents_nil : ofEvents ([] : List (Event R)) = init := rfl

@[simp] theorem ofEvents_snoc (es : List (Event R)) (e : Event R) :
    ofEvents (es ++ [e]) = (ofEvents es).step e := by
  simp [ofEvents]

theorem step_settled (s : RootRun R) (e : Event R) :
    (s.step e).settled = s.settled.or (settlement [e]) := by
  cases e with
  | run =>
    simp only [step, run]
    split <;> simp [settlement]
  | resume =>
    simp only [step, resume]
    split <;> simp [settlement]
  | callbackThrew e =>
    simp only [step, callbackThrew]
    split <;> simp [settlement]
  | confirmTransactionRollback => simp [step, settlement]
  | settle r => simp [step, settle, settlement]

theorem settled_ofEvents (es : List (Event R)) : (ofEvents es).settled = settlement es := by
  induction es using List.reverseRecOn with
  | nil => rfl
  | append_singleton es e ih =>
    rw [ofEvents_snoc, step_settled, ih]
    simp [settlement]

/-- Only a rejecting attempt adds to the remembered errors. -/
theorem mem_step_callbackErrors {s : RootRun R} {e : Event R} {ref : Nat} :
    ref ∈ (s.step e).callbackErrors ↔
      ref ∈ s.callbackErrors ∨ ∃ e', e = .callbackThrew e' ∧ e'.ref? = some ref := by
  cases e with
  | run =>
    simp only [step, run]
    split <;> simp
  | resume =>
    simp only [step, resume]
    split <;> simp
  | callbackThrew e =>
    simp only [step, callbackThrew]
    split <;> rename_i h
    · simp [h, or_comm, eq_comm]
    · simp [h]
  | confirmTransactionRollback => simp [step]
  | settle r => simp [step, settle]

theorem mem_callbackErrors {es : List (Event R)} {ref : Nat} :
    ref ∈ (ofEvents es).callbackErrors ↔
      ∃ e', Event.callbackThrew e' ∈ es ∧ e'.ref? = some ref := by
  induction es using List.reverseRecOn with
  | nil => simp [init]
  | append_singleton es e ih =>
    rw [ofEvents_snoc, mem_step_callbackErrors, ih]
    constructor
    · rintro (⟨e', he', hr⟩ | ⟨e', rfl, hr⟩)
      · exact ⟨e', List.mem_append_left _ he', hr⟩
      · exact ⟨e', List.mem_append_right _ (List.mem_singleton_self _), hr⟩
    · rintro ⟨e', he', hr⟩
      rcases List.mem_append.mp he' with he' | he'
      · exact .inl ⟨e', he', hr⟩
      · exact .inr ⟨e', (List.mem_singleton.mp he').symm, hr⟩

theorem isCallbackError_iff {es : List (Event R)} {e : Thrown R} :
    (ofEvents es).isCallbackError e = true ↔ AttemptThrew es e := by
  unfold isCallbackError AttemptThrew
  cases he : e.ref? with
  | none => simp
  | some ref =>
    simp only [List.contains_eq_mem, decide_eq_true_eq, mem_callbackErrors, Option.some.injEq]
    constructor
    · rintro ⟨e', hmem, hr⟩
      exact ⟨ref, e', rfl, hr, hmem⟩
    · rintro ⟨_, e', rfl, hr, hmem⟩
      exact ⟨e', hmem, hr⟩

/-- Starting an attempt takes the confirmation back, and nothing but a confirmation gives one. -/
theorem step_confirmed (s : RootRun R) (e : Event R) :
    (s.step e).confirmed = true ↔
      e = .confirmTransactionRollback ∨ (s.confirmed = true ∧ e ≠ .run) := by
  cases e with
  | run =>
    simp only [step, run]
    split <;> simp
  | resume =>
    simp only [step, resume]
    split <;> simp
  | callbackThrew e =>
    simp only [step, callbackThrew]
    split <;> simp
  | confirmTransactionRollback => simp [step]
  | settle r => simp [step, settle]

theorem lastAttemptConfirmed_snoc {es : List (Event R)} {e : Event R} :
    LastAttemptConfirmed (es ++ [e]) ↔
      e = .confirmTransactionRollback ∨ (LastAttemptConfirmed es ∧ e ≠ .run) := by
  constructor
  · rintro ⟨before, after, heq, hrun⟩
    induction after using List.reverseRecOn with
    | nil => exact .inl (by simpa using (List.append_inj' heq rfl).2)
    | append_singleton after e' _ =>
      rw [← List.cons_append, ← List.append_assoc] at heq
      obtain ⟨rfl, he⟩ := List.append_inj' heq rfl
      obtain rfl : e = e' := by simpa using he
      refine .inr ⟨⟨before, after, rfl, fun h => hrun (List.mem_append_left _ h)⟩, ?_⟩
      rintro rfl
      exact hrun (List.mem_append_right _ (List.mem_singleton_self _))
  · rintro (rfl | ⟨⟨before, after, rfl, hrun⟩, hne⟩)
    · exact ⟨es, [], rfl, List.not_mem_nil⟩
    · refine ⟨before, after ++ [e], by simp, fun h => ?_⟩
      rcases List.mem_append.mp h with h | h
      · exact hrun h
      · exact hne (List.mem_singleton.mp h).symm

theorem confirmed_iff {es : List (Event R)} :
    (ofEvents es).confirmed = true ↔ LastAttemptConfirmed es := by
  induction es using List.reverseRecOn with
  | nil => simp [init, LastAttemptConfirmed]
  | append_singleton es e ih => rw [ofEvents_snoc, step_confirmed, ih, lastAttemptConfirmed_snoc]

end RootRun

/-! ## The report is true -/

/-- What a concluded run observed, read off its evidence. -/
theorem RootRun.conclude_outcome {es : List (Event R)} {r : Except (Thrown R) R}
    (hr : settlement es = some r) (taskFails : Bool) :
    (((ofEvents es).conclude taskFails r).1.outcome = .committed → CommitEvidence es) ∧
      (((ofEvents es).conclude taskFails r).1.outcome = .notCommitted → RollbackEvidence es) := by
  cases r with
  | ok result =>
    refine ⟨fun _ => .inl ⟨result, hr⟩, fun h => ?_⟩
    simp only [conclude] at h
    split at h
    · cases h
    · split at h <;> cases h
  | error e =>
    simp only [conclude]
    split
    · next result hres hcb =>
      have hnot : ¬ AttemptThrew es e := by
        rw [← isCallbackError_iff, hcb]
        exact Bool.false_ne_true
      refine ⟨fun _ => .inr ⟨e, hr, by rw [hres]; rfl, hnot⟩, fun h => ?_⟩
      split at h <;> cases h
    · refine ⟨fun h => ?_, fun h => ?_⟩
      · dsimp only at h
        split at h <;> cases h
      · dsimp only at h
        split at h
        · next hc =>
          simp only [rollbackConfirmed, Bool.or_eq_true, Bool.and_eq_true,
            Bool.not_eq_true'] at hc
          rcases hc with hc | ⟨hrb, hcb⟩
          · exact .inl (confirmed_iff.mp hc)
          · refine .inr ⟨e, hr, hrb, ?_⟩
            rw [← isCallbackError_iff, hcb]
            exact Bool.false_ne_true
        · cases h

theorem TransactionResult.outcome_of (x : Observation R × Except (Failure R) R)
    (h : x.1.outcome ≠ .committed → ∃ e, x.2 = .error e) :
    (TransactionResult.of x).outcome = x.1.outcome := by
  obtain ⟨⟨o, r⟩, _ | _⟩ := x
  · cases o <;> rfl
  · cases o with
    | committed => rfl
    | notCommitted => simp at h
    | unknown => simp at h

/-- Without a commit, `executeTransaction` rejects. -/
theorem RootRun.conclude_error (s : RootRun R) (taskFails : Bool) (r : Except (Thrown R) R)
    (h : (s.conclude taskFails r).1.outcome ≠ .committed) :
    ∃ e, (s.conclude taskFails r).2 = .error e := by
  cases r with
  | ok result =>
    simp only [conclude] at h ⊢
    split at h
    · next hs => exact ⟨.completedWithoutCallback, by rw [if_pos hs]⟩
    · split at h <;> exact absurd rfl h
  | error e =>
    simp only [conclude] at h ⊢
    split
    · split <;> exact ⟨_, rfl⟩
    · exact ⟨_, rfl⟩

/-- A report of a commit or of a rollback has its evidence in this invocation, and without
evidence the report is `unknown`. -/
theorem transactionResult_evidence (req : Request) (es : List (Event R)) (taskFails : Bool)
    (res : TransactionResult R) (h : transactionResult req es taskFails = some res) :
    (res.outcome = .committed → CommitEvidence es) ∧
      (res.outcome = .notCommitted → req.refusal ≠ none ∨ RollbackEvidence es) ∧
      (¬ CommitEvidence es → req.refusal = none → ¬ RollbackEvidence es →
        res.outcome = .unknown) := by
  have hmain : (res.outcome = .committed → CommitEvidence es) ∧
      (res.outcome = .notCommitted → req.refusal ≠ none ∨ RollbackEvidence es) := by
    unfold transactionResult executeTransaction at h
    cases hreq : req.refusal with
    | some why =>
      rw [hreq] at h
      cases h
      refine ⟨fun h => ?_, fun _ => .inl (Option.some_ne_none why)⟩
      cases h
    | none =>
      rw [hreq] at h
      simp only [Option.map_map, Option.map_eq_some_iff, RootRun.settled_ofEvents] at h
      obtain ⟨r, hr, rfl⟩ := h
      have hout := TransactionResult.outcome_of _
        ((RootRun.ofEvents es).conclude_error taskFails r)
      obtain ⟨hc, hn⟩ := RootRun.conclude_outcome hr taskFails
      rw [Function.comp_apply, hout]
      exact ⟨hc, fun h => .inr (hn h)⟩
  refine ⟨hmain.1, hmain.2, fun hc hreq hn => ?_⟩
  cases ho : res.outcome with
  | committed => exact absurd (hmain.1 ho) hc
  | notCommitted => exact (hmain.2 ho).elim (absurd hreq) fun h => absurd h hn
  | unknown => rfl

/-- A callback that throws committed errors, retried and rolled back by its adapter. -/
def retriedEvents : List (Event Nat) :=
  [.run, .confirmTransactionRollback, .callbackThrew (.object 1 (.committed 5)), .run,
    .callbackThrew (.object 1 (.committed 5)), .confirmTransactionRollback,
    .settle (.error (.object 1 (.committed 5)))]

def plainRequest : Request where
  contextUsable := true
  inTransaction := false
  callbackIsFunction := true
  optionsValid := true
  ambientTransaction := false
  storeRegistered := true
  storeTransactions := true
  nativeValid := true

theorem transactionResult_evidence_retried :
    transactionResult plainRequest retriedEvents false =
        some (.notCommitted (.thrown (.object 1 (.committed 5)))) ∧
      (plainRequest.refusal ≠ none ∨ RollbackEvidence retriedEvents) :=
  ⟨rfl, (transactionResult_evidence plainRequest retriedEvents false _ rfl).2.1 rfl⟩

end ActiveTs.Transactions
