import Mathlib.Data.List.Basic

/-! # The tracker of transaction operations

`createTransactionOperationTracker` admits the operations of a transaction, remembers the ones that
have not settled and those whose rejection nobody has observed, and waits for all of them. A run is
cut into the segments that the event loop runs without interruption. -/

namespace ActiveTs.Transactions.OperationTracker

variable {Error : Type}

inductive Settlement (Error : Type)
  | fulfilled
  | rejected (error : Error)
  deriving DecidableEq

/-- The promise of an operation. Its first reaction records how it settled; the waiters react after
that. -/
inductive Phase (Error : Type)
  | running
  | settled (settlement : Settlement Error)
  | recorded (settlement : Settlement Error)
  deriving DecidableEq

/-- `TrackedTransactionOperation`. It is active while it runs. -/
structure Operation (Error : Type) where
  parent : Option Nat
  /-- The operations that a rejection handler of the promise observes, those upstream first. -/
  observes : List Nat
  phase : Phase Error
  /-- `track` has returned the promise; before that, `run` is in its first segment. -/
  returned : Bool
  rejectionHandled : Bool

namespace Operation
variable (operation : Operation Error)

def active : Bool :=
  match operation.phase with
  | .running => true
  | _ => false

/-- `state` and `error`: the state of a fulfilled operation stays `pending`. -/
def rejection : Option Error :=
  match operation.phase with
  | .recorded (.rejected error) => some error
  | _ => none

end Operation

/-- What a rejection handler has captured: the promise that it was attached to, and the scope. -/
structure Observer where
  operation : Nat
  scope : Option Nat

/-- A call of `waitForPendingOperations`, and what is left of its last snapshot. -/
inductive Wait
  | awaiting (operation : Nat) (rest : List Nat)
  | ended

structure Tracker (Error : Type) where
  closed : Option String
  operations : List (Operation Error)
  /-- The set, in insertion order. -/
  pendingOperations : List Nat
  observers : List Observer
  waits : List Wait

inductive WaitOutcome (Error : Type)
  | resolved
  | thrown (error : Error)
  | aggregate (errors : List Error) (message : String)

def WaitOutcome.errors : WaitOutcome Error → List Error
  | resolved => []
  | thrown error => [error]
  | aggregate errors _ => errors

/-- The scope of a call is the operation in whose asynchronous context it runs. -/
inductive Action (Error : Type)
  | close (reason : String)
  | track (scope : Option Nat) (closedError : Option (String → Error)) (admitAfterClose : Bool)
  /-- `then`, `catch` or `finally` on the promise of an operation -/
  | trackContinuation (scope : Option Nat) (upstream : Nat)
  | return (operation : Nat)
  | settle (operation : Nat) (settlement : Settlement Error)
  | record (operation : Nat)
  | attach (operation : Nat) (scope : Option Nat)
  /-- a rejection handler has succeeded -/
  | observe (observer : Nat)
  | wait
  | resume (wait : Nat)

inductive Event (Error : Type)
  | closed (reason : String)
  | tracked (operation : Nat) (admitAfterClose : Bool)
  | refused (error : Error)
  | untracked (upstream : Nat)
  | returned (operation : Nat)
  | settled (operation : Nat) (settlement : Settlement Error)
  | recorded (operation : Nat)
  | attached (operation : Nat)
  /-- with the operations whose rejection counts as handled -/
  | observed (observer : Nat) (handled : List Nat)
  | waiting (wait : Nat)
  | reported (wait : Nat) (outcome : WaitOutcome Error)

/-- `transactionOperationIsSelfOrDescendant`; a parent is admitted before its children. -/
def isSelfOrDescendantFrom (operations : List (Operation Error)) (ancestor : Nat) : Nat → Nat → Bool
  | 0, _ => false
  | fuel + 1, current =>
    current = ancestor ||
      ((operations[current]?).bind Operation.parent).any (isSelfOrDescendantFrom operations ancestor fuel)

namespace Tracker
variable (s : Tracker Error)

def initial : Tracker Error := ⟨none, [], [], [], []⟩

def hasPendingOperations : Bool := !s.pendingOperations.isEmpty

def active (operation : Nat) : Bool := (s.operations[operation]?).any Operation.active

def isSelfOrDescendant (operation ancestor : Nat) : Bool :=
  isSelfOrDescendantFrom s.operations ancestor (operation + 1) operation

/-- The parent of what is tracked in a scope. -/
def parentIn (scope : Option Nat) : Option Nat := scope.filter s.active

def canObserve (scope : Option Nat) (operation : Nat) : Bool :=
  s.closed.isNone ||
    scope.any fun ancestor => s.active ancestor && s.isSelfOrDescendant operation ancestor

def setOperation (i : Nat) (operation : Operation Error) : Tracker Error :=
  { s with operations := s.operations.set i operation }

def deletePending (i : Nat) : Tracker Error :=
  { s with pendingOperations := s.pendingOperations.filter (· ≠ i) }

/-- A new operation, whose `run` has not been called yet. -/
def addOperation (parent : Option Nat) (upstream : List Nat) : Tracker Error :=
  { s with operations := s.operations ++
      [⟨parent, upstream ++ [s.operations.length], .running, false, false⟩] }

def observeRejection (i : Nat) : Tracker Error :=
  match s.operations[i]? with
  | none => s
  | some operation =>
    let s := s.setOperation i { operation with rejectionHandled := true }
    if operation.rejection.isSome then s.deletePending i else s

/-- The reactions to the settled promise. -/
def recordSettlement (i : Nat) (operation : Operation Error) (settlement : Settlement Error) :
    Tracker Error :=
  let s := s.setOperation i { operation with phase := .recorded settlement }
  match settlement with
  | .fulfilled => s.deletePending i
  | .rejected _ => if operation.rejectionHandled then s.deletePending i else s

/-- The first operation of a snapshot that is to be awaited, and the rest. -/
def scan : List Nat → Option (Nat × List Nat)
  | [] => none
  | i :: rest =>
    if (s.operations[i]?).any fun operation => operation.rejection.isNone then some (i, rest)
    else scan rest

variable [DecidableEq Error]

/-- The distinct errors that nobody has handled, in order. -/
def failures : List Nat → List Error → List Error
  | [], failures => failures
  | i :: rest, failures' =>
    match (s.operations[i]?).filter (fun operation => !operation.rejectionHandled) >>=
        Operation.rejection with
    | some error => failures rest (if error ∈ failures' then failures' else failures' ++ [error])
    | none => failures rest failures'

section
-- How the context of the transaction is called.
variable (context : String)

def waitOutcome : List Error → WaitOutcome Error
  | [] => .resolved
  | [error] => .thrown error
  | errors => .aggregate errors s!"{context} transaction operations failed."

/-- A snapshot without pending operations ends the wait. -/
def collect (wait : Nat) : Tracker Error × Event Error :=
  ({ s with pendingOperations := [], waits := s.waits.set wait .ended },
    .reported wait (waitOutcome context (s.failures s.pendingOperations [])))

/-- Awaits the next operation of the snapshot; after the last one, takes another snapshot. -/
def continueWait (wait : Nat) (rest : List Nat) : Tracker Error × Event Error :=
  match (s.scan rest).or (s.scan s.pendingOperations) with
  | some (operation, rest) =>
    ({ s with waits := s.waits.set wait (.awaiting operation rest) }, .waiting wait)
  | none => s.collect context wait

section
variable (configurationError : String → Error)

def closedError (custom : Option (String → Error)) (closed : String) : Error :=
  (custom.map fun error => error closed).getD (configurationError
    s!"Cannot start operations on a closed {context} transaction after {closed}.")

/-- A call of `track`; `run` starts at once. -/
def track (scope : Option Nat) (custom : Option (String → Error)) (admitAfterClose : Bool) :
    Tracker Error × Event Error :=
  let parent := s.parentIn scope
  match s.closed with
  | some closed =>
    if parent = none ∧ admitAfterClose = false then
      (s, .refused (closedError context configurationError custom closed))
    else (s.addOperation parent [], .tracked s.operations.length admitAfterClose)
  | none => (s.addOperation parent [], .tracked s.operations.length admitAfterClose)

/-- A continuation that is not tracked keeps the observers of its upstream. -/
def trackContinuation (scope : Option Nat) (upstream : Nat) (operation : Operation Error) :
    Tracker Error × Event Error :=
  let parent := s.parentIn scope
  if s.closed.isSome ∧ parent = none then (s, .untracked upstream)
  else (s.addOperation parent operation.observes, .tracked s.operations.length false)

def step : Action Error → Option (Tracker Error × Event Error)
  | .close reason => some ({ s with closed := some reason }, .closed reason)
  | .track scope custom admitAfterClose =>
    some (s.track context configurationError scope custom admitAfterClose)
  | .trackContinuation scope upstream =>
    ((s.operations[upstream]?).filter Operation.returned).map (s.trackContinuation scope upstream)
  | .return i =>
    ((s.operations[i]?).filter fun operation => !operation.returned).map fun operation =>
      ({ s.setOperation i { operation with returned := true } with
        pendingOperations := s.pendingOperations ++ [i] }, .returned i)
  | .settle i settlement =>
    ((s.operations[i]?).filter Operation.active).map fun operation =>
      (s.setOperation i { operation with phase := .settled settlement }, .settled i settlement)
  | .record i => do
    let operation ← (s.operations[i]?).filter Operation.returned
    match operation.phase with
    | .settled settlement => some (s.recordSettlement i operation settlement, .recorded i)
    | _ => none
  | .attach i scope =>
    ((s.operations[i]?).filter Operation.returned).map fun _ =>
      ({ s with observers := s.observers ++ [⟨i, scope⟩] }, .attached i)
  | .observe n => do
    let observer ← s.observers[n]?
    let operation ← s.operations[observer.operation]?
    let handled := operation.observes.filter (s.canObserve observer.scope)
    some (handled.foldl observeRejection s, .observed n handled)
  | .wait =>
    some (continueWait { s with waits := s.waits ++ [.ended] } context s.waits.length [])
  | .resume n =>
    match s.waits[n]? with
    | some (.awaiting i rest) =>
      match (s.operations[i]?).map Operation.phase with
      | some (.recorded _) => some (s.continueWait context n rest)
      | _ => none
    | _ => none

end

end

end Tracker

/-- A segment of a run. -/
def Step [DecidableEq Error] (context : String) (configurationError : String → Error)
    (s : Tracker Error) (event : Event Error) (t : Tracker Error) : Prop :=
  ∃ action, s.step context configurationError action = some (t, event)

end ActiveTs.Transactions.OperationTracker
