import ActiveTs.Lib.Prog
import ActiveTs.Outbox.Worker
import Mathlib.Logic.Function.Basic

/-! # The store outbox

`StoreOutboxAdapter` keeps outbox events as rows of a store. Its operations are sequences of store
calls, and other tasks run between any two of them. A store call may fail without effect, or take
effect and fail. Every change of an outbox row is logged with the task that made it, for the proofs
only. -/

namespace ActiveTs.Outbox

/-! ## The world -/

/-- The capabilities of the store. -/
structure StoreMode where
  optimisticLock : Bool
  /-- `storeSupportsOutboxLeaseTransactions`. -/
  leaseTransactions : Bool
  /-- `storeSupportsOutboxManagementTransactions`. -/
  managementTransactions : Bool

/-- A change of an outbox row. -/
structure Change (D : Type) where
  id : String
  before : Option (OutboxEvent D)
  after : Option (OutboxEvent D)

/-- A row of the search revision model. -/
structure SearchRevision where
  revision : Nat
  version : Nat

/-- A write on the way to a search adapter; no document stands for `delete`. -/
structure SearchRequest (D : Type) where
  adapter : String
  identity : String
  document : Option D
  revision : Option Nat

/-- What a search adapter knows of a document identity. -/
structure SearchEntry (D : Type) where
  document : Option D
  revision : Option Nat

structure World (T D : Type) where
  clock : Nat
  events : String → Option (OutboxEvent D)
  /-- The ids that `randomUUID` does not return any more. -/
  usedIds : List String
  revisions : String → Option SearchRevision
  /-- The authoritative rows. -/
  rows : String → Option D
  /-- The search adapters, by adapter and document identity. -/
  search : String → String → SearchEntry D
  /-- Search writes that may still arrive after their call has failed. -/
  inFlight : List (SearchRequest D)
  log : List (T × Change D)

inductive OutboxError
  | validation
  | configuration
  | conflict
  | notFound
  /-- The store, a hook or a search adapter throws. -/
  | store
  /-- An aggregate error that says "rollback failed". -/
  | rollbackFailed
  /-- `staleSearchSyncLeaseReleaseError`. -/
  | staleLeaseRelease
  deriving DecidableEq

/-- How an outside call ends. -/
inductive Outcome
  | ok
  | failed
  /-- It takes effect and fails. -/
  | uncertain
  /-- It fails, and a search write may take effect later. -/
  | late

/-- What the environment decides in a step. -/
structure Choice (D : Type) where
  outcome : Outcome
  /-- A transaction fails with a conflict. -/
  conflict : Bool
  tick : Nat
  uuid : String
  page : List (OutboxEvent D)
  rounds : Nat
  settling : Environment D

abbrev OutboxTask (T D : Type) := Prog (World T D) (Choice D) OutboxError

variable {T D : Type} [DecidableEq D]

namespace World

def advance (s : World T D) (n : Nat) : World T D := { s with clock := s.clock + n }

def setEvent (s : World T D) (t : T) (id : String) (after : Option (OutboxEvent D)) : World T D :=
  { s with
    events := Function.update s.events id after
    usedIds := id :: s.usedIds
    log := s.log ++ [(t, ⟨id, s.events id, after⟩)] }

/-- `store.create` of an outbox row. -/
def create (s : World T D) (t : T) (event : OutboxEvent D) :
    World T D × Except OutboxError Unit :=
  if (s.events event.id).isSome then (s, .error .conflict)
  else (s.setEvent t event.id (some event), .ok ())

/-- `store.update` of an outbox row. -/
def update (s : World T D) (t : T) (event : OutboxEvent D) (expectedVersion : Option Nat) :
    World T D × Except OutboxError Unit :=
  match s.events event.id with
  | none => (s, .error .notFound)
  | some current =>
    if expectedVersion.isSome && current.version ≠ expectedVersion then (s, .error .conflict)
    else (s.setEvent t event.id (some event), .ok ())

/-- `store.delete` of an outbox row. -/
def delete (s : World T D) (t : T) (id : String) (expectedVersion : Option Nat) :
    World T D × Except OutboxError Unit :=
  match s.events id with
  | none =>
    if expectedVersion.isSome then (s, .error .conflict) else (s.setEvent t id none, .ok ())
  | some current =>
    if expectedVersion.isSome && current.version ≠ expectedVersion then (s, .error .conflict)
    else (s.setEvent t id none, .ok ())

end World

/-! ## Calls -/

section
variable {α : Type}

/-- A call of the store. -/
def storeCall (f : World T D → World T D × Except OutboxError α) : OutboxTask T D α :=
  .atomically fun c s =>
    match c.outcome with
    | .ok => f (s.advance c.tick)
    | .uncertain => ((f (s.advance c.tick)).1, .error .store)
    | _ => (s.advance c.tick, .error .store)

/-- `context.transaction` of a store that detects conflicts: the body takes effect at once. -/
def transaction (body : OutboxTask T D α) : OutboxTask T D α :=
  .atomically fun c s =>
    match body.runAlone { c with outcome := .ok, tick := 0 } (s.advance c.tick) with
    | some (s', .ok a) =>
      match c.outcome with
      | .ok => (s', .ok a)
      | .uncertain => (s', .error .store)
      | _ => (s.advance c.tick, .error (if c.conflict then .conflict else .store))
    | some (_, .error e) => (s.advance c.tick, .error e)
    | none => (s.advance c.tick, .error .store)

end

/-- `new Date()`. -/
def now : OutboxTask T D Nat := .atomically fun c s => (s.advance c.tick, .ok (s.clock + c.tick))

/-- An id that was never used. -/
def randomUUID : OutboxTask T D String :=
  .step (fun c s => c.uuid ∉ s.usedIds)
    (fun c s => { s.advance c.tick with usedIds := c.uuid :: s.usedIds }) fun c _ => .ret c.uuid

/-- A hook or a validation. -/
def mayThrow : OutboxTask T D Unit := storeCall fun s => (s, .ok ())

/-! ## Leases -/

def STORE_OUTBOX_LEASE_TTL_MS : Nat := 5 * 60 * 1000

def STORE_OUTBOX_SEARCH_REVISION_TIME_SCALE : Nat := 1024

def withOutboxLease (event : OutboxEvent D) (leaseToken : String) (leaseExpiresAt : Nat) :
    OutboxEvent D :=
  { event with
    version := some (outboxEventVersion event + 1)
    leaseToken := some leaseToken
    leaseExpiresAt := some leaseExpiresAt }

def withoutOutboxLease (event : OutboxEvent D) : OutboxEvent D :=
  { event with
    version := some (outboxEventVersion event + 1), leaseToken := none, leaseExpiresAt := none }

def isOutboxLeaseActive (event : OutboxEvent D) (now : Nat) : Bool :=
  event.leaseToken.isSome && event.leaseExpiresAt.any fun expiresAt => now < expiresAt

def isOutboxLeaseCurrent (event : OutboxEvent D) (leaseToken : String) (now : Nat) : Bool :=
  event.leaseToken = some leaseToken && isOutboxLeaseActive event now

def isOutboxDeliveryAvailable (event : OutboxEvent D) (now : Nat) : Bool :=
  event.availableAt.all fun availableAt => availableAt ≤ now

/-- Every field is compared. -/
def isOutboxSnapshotCurrent (current snapshot : OutboxEvent D) : Bool := current = snapshot

namespace StoreMode

/-- `outboxExpectedVersionOption`, for a store with optimistic locking. -/
def expectedVersion (mode : StoreMode) (event : OutboxEvent D) : Option Nat :=
  if mode.optimisticLock then event.version else none

/-- The operations that run one transaction for each event. -/
def eachInTransaction (mode : StoreMode) : Bool := !mode.optimisticLock && mode.leaseTransactions

end StoreMode

/-- A conflict or a missing row. -/
def OutboxError.isConflict : OutboxError → Bool
  | .conflict => true
  | .notFound => true
  | _ => false

/-! ## The operations -/

section
variable (mode : StoreMode) (t : T)

def currentOutboxEvent (id : String) : OutboxTask T D (Option (OutboxEvent D)) :=
  storeCall fun s => (s, .ok (s.events id))

/-- `append`. -/
def append (event : OutboxEvent D) : OutboxTask T D Unit := storeCall fun s => s.create t event

def updateEvent (current next : OutboxEvent D) : OutboxTask T D Unit :=
  storeCall fun s => s.update t next (mode.expectedVersion current)

/-- The check of the leased snapshot that renewals and reservations share. -/
def isLeaseHeld (event : OutboxEvent D) (now : Nat) (current : Option (OutboxEvent D)) : Bool :=
  current.any fun current => isOutboxSnapshotCurrent current event &&
    event.leaseToken.any fun token => isOutboxLeaseCurrent current token now

def isLeaseCurrent (event : OutboxEvent D) : OutboxTask T D Bool := do
  let current ← currentOutboxEvent event.id
  match event.leaseToken with
  | none =>
    return current.any fun current =>
      current.leaseToken.isNone && isOutboxSnapshotCurrent current event
  | some _ =>
    let now ← now
    return isLeaseHeld event now current

/-- A row that can be claimed for the event that was listed. -/
def isClaimable (event : OutboxEvent D) (now : Nat) (current : OutboxEvent D) : Bool :=
  current.deadLetteredAt.isNone && isOutboxDeliveryAvailable current now &&
    isOutboxSnapshotCurrent current event && !isOutboxLeaseActive current now

/-- The row that was found, and the claimed event. -/
structure Claim (D : Type) where
  current : Option (OutboxEvent D)
  claimed : Option (OutboxEvent D)

def claimRun (event : OutboxEvent D) (token : String) (expiresAt now : Nat) :
    OutboxTask T D (Claim D) := do
  let found ← currentOutboxEvent event.id
  match found.filter (isClaimable event now) with
  | none => return ⟨found, none⟩
  | some current =>
    let claimed := withOutboxLease current token expiresAt
    updateEvent mode t current claimed
    return ⟨some claimed, some claimed⟩

def claimOutboxLease (event : OutboxEvent D) (token : String) (expiresAt now : Nat) :
    OutboxTask T D (Claim D) :=
  if mode.optimisticLock then claimRun mode t event token expiresAt now
  else transaction (claimRun mode t event token expiresAt now)

def renewRun (event : OutboxEvent D) (token : String) (expiresAt now : Nat) :
    OutboxTask T D (Option (OutboxEvent D)) := do
  let current ← currentOutboxEvent event.id
  match current.filter fun current => isLeaseHeld event now (some current) with
  | none => return none
  | some current =>
    let renewed := withOutboxLease current token expiresAt
    updateEvent mode t current renewed
    return some renewed

/-- A conflict is an answer, not an error. -/
def orConflict {α : Type} (answer : α) (p : OutboxTask T D α) : OutboxTask T D α := do
  match ← p.attempt with
  | .ok a => return a
  | .error e => if e.isConflict then return answer else throw e

def renewLease (event : OutboxEvent D) : OutboxTask T D (Option (OutboxEvent D)) :=
  match event.leaseToken with
  | none => throw .configuration
  | some token => do
    let now ← now
    let expiresAt := now + STORE_OUTBOX_LEASE_TTL_MS
    orConflict none <|
      if mode.optimisticLock then renewRun mode t event token expiresAt now
      else if mode.leaseTransactions then transaction (renewRun mode t event token expiresAt now)
      else throw .configuration

def releaseRun : List (OutboxEvent D) → OutboxTask T D Unit
  | [] => return ()
  | event :: rest => do
    if event.leaseToken.isSome then
      let current ← currentOutboxEvent event.id
      match current.filter fun current => current.leaseToken = event.leaseToken with
      | none => releaseRun rest
      | some current =>
        orConflict () (updateEvent mode t current (withoutOutboxLease current))
        releaseRun rest
    else releaseRun rest

/-- One task after the other; an error is thrown when all have run. -/
def eachSettled {α : Type} (f : α → OutboxTask T D Unit) : List α → OutboxTask T D Unit
  | [] => return ()
  | a :: rest => do
    let result ← (f a).attempt
    eachSettled f rest
    match result with
    | .ok () => return ()
    | .error e => throw e

def release (events : List (OutboxEvent D)) : OutboxTask T D Unit :=
  if mode.eachInTransaction then
    eachSettled (fun event => transaction (releaseRun mode t [event])) events
  else releaseRun mode t events

inductive Disposition
  | retry
  | deadLetter

/-- `outboxDeadLetterEvent`. -/
def outboxDeadLetterEvent (failure : DeliveryFailure D) : Option (OutboxEvent D) :=
  match failure.event with
  | some event =>
    (sanitizeOutboxEvent false { event with
      version := some (outboxEventVersion event + 1)
      deliveryAttempts := some failure.attempt
      deadLetteredAt := some failure.failedAt
      lastDeliveryError := some failure.error
      leaseToken := none
      leaseExpiresAt := none
      availableAt := none }).toOption
  | none => none

def Disposition.settled (disposition : Disposition) (failure : DeliveryFailure D) :
    OutboxTask T D (OutboxEvent D) :=
  match disposition with
  | .retry => (outboxRetryEvent failure).elim (throw .validation) pure
  | .deadLetter => (outboxDeadLetterEvent failure).elim (throw .validation) pure

def settleRun (disposition : Disposition) : List (DeliveryFailure D) → OutboxTask T D Unit
  | [] => return ()
  | failure :: rest => do
    match failure.event with
    | none => throw .validation
    | some source =>
      let current ← currentOutboxEvent source.id
      match current with
      | none =>
        if source.leaseToken.isNone then
          let next ← disposition.settled failure
          append t next
        settleRun disposition rest
      | some current =>
        if isOutboxSnapshotCurrent current source then
          let next ← disposition.settled { failure with event := some current }
          updateEvent mode t current next
        settleRun disposition rest

/-- `retry` and `deadLetter`. -/
def settleDeliveryFailures (disposition : Disposition) (failures : List (DeliveryFailure D)) :
    OutboxTask T D Unit :=
  if failures.any (·.event.isNone) then throw .validation
  else if mode.eachInTransaction then
    eachSettled (fun failure => transaction (settleRun mode t disposition [failure])) failures
  else if mode.managementTransactions then transaction (settleRun mode t disposition failures)
  else settleRun mode t disposition failures

/-! ## Acknowledgement -/

/-- The event may be acknowledged: its row is the snapshot, under a lease that has not expired. -/
def isAckable (event : OutboxEvent D) (now : Nat) (current : OutboxEvent D) : Bool :=
  if event.leaseToken.isSome then isLeaseHeld event now (some current)
  else current.leaseToken.isNone && isOutboxSnapshotCurrent current event

def ackChecks (now : Nat) :
    List (OutboxEvent D) → OutboxTask T D (Option (List (OutboxEvent D)))
  | [] => return some []
  | event :: rest => do
    let current ← currentOutboxEvent event.id
    match current.filter (isAckable event now) with
    | none => return none
    | some current =>
      let currentEvents ← ackChecks now rest
      return currentEvents.map (current :: ·)

def reinsertDeletedEvent (event : OutboxEvent D) : OutboxTask T D Unit := do
  let current ← currentOutboxEvent event.id
  if current.isNone then append t event

/-- Whether all the events are back. -/
def reinsertDeletedEvents : List (OutboxEvent D) → OutboxTask T D Bool
  | [] => return true
  | event :: rest => do
    let result ← (reinsertDeletedEvent t event).attempt
    let others ← reinsertDeletedEvents rest
    return result.isOk && others

/-- The deletions of `ack`, with the events deleted so far. -/
def ackDeletes (recoverDeletes : Bool) :
    List (OutboxEvent D) → List (OutboxEvent D) → OutboxTask T D Bool
  | [], _ => return true
  | current :: rest, deleted => do
    let result ←
      (storeCall fun s => s.delete t current.id (mode.expectedVersion current)).attempt
    match result with
    | .ok () => ackDeletes recoverDeletes rest (deleted ++ [current])
    | .error e =>
      if recoverDeletes then
        if e.isConflict then
          if ← reinsertDeletedEvents t deleted then return false else throw .rollbackFailed
        else if ← reinsertDeletedEvents t (deleted ++ [current]) then throw e
        else throw .rollbackFailed
      else throw e

def ackRun (recoverDeletes : Bool) (batch : List (OutboxEvent D)) (now : Nat) :
    OutboxTask T D Bool := do
  match ← ackChecks now batch with
  | none => return false
  | some currentEvents => ackDeletes mode t recoverDeletes currentEvents []

/-- One transaction for each event, up to the first that is not acknowledged. -/
def ackEach : List (OutboxEvent D) → OutboxTask T D Bool
  | [] => return true
  | event :: rest => do
    let now ← now
    if ← orConflict false (transaction (ackRun mode t false [event] now)) then ackEach rest
    else return false

def ack (events : List (OutboxEvent D)) : OutboxTask T D Bool :=
  if mode.eachInTransaction then ackEach mode t events
  else do
    let now ← now
    if mode.managementTransactions then
      orConflict false (transaction (ackRun mode t false events now))
    else ackRun mode t true events now

end

end ActiveTs.Outbox
