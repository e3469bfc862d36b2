import ActiveTs.Outbox.Events
import Mathlib.Data.List.DropRight

/-! # One run of the search sync worker

The worker visits the events of a batch in order. An event that conflicts with an undelivered one
is deferred; the others are delivered, and a delivery can succeed, fail or find its lease lost. At
the end the failures are split into dead letters and retries, and what remains is given back to the
outbox in the order of the batch. What deliveries and handlers do is the `Environment`. -/

namespace ActiveTs.Outbox

variable {D : Type u}

/-! ## The outside of a run -/

/-- A thrown error. `staleLeaseRelease` is the mark of `staleSearchSyncLeaseReleaseError`. -/
structure WorkerError where
  message : String
  staleLeaseRelease : Bool

/-- How the delivery of one event ends. -/
inductive DeliveryResult
  | processed
  /-- The lease was lost: the event is neither delivered nor failed. -/
  | lost
  | failed (error : WorkerError)

/-- A lease renewal changes these two fields only (`assertOutboxLeaseRenewal`). -/
structure Renewal where
  version : Nat
  leaseExpiresAt : Nat

/-- A delivery, with the last renewal of the lease during it. -/
structure Delivery where
  renewal : Option Renewal
  result : DeliveryResult

def OutboxEvent.renew (event : OutboxEvent D) : Option Renewal → OutboxEvent D
  | some r => { event with version := some r.version, leaseExpiresAt := some r.leaseExpiresAt }
  | none => event

structure WorkerOptions where
  maxAttempts : Nat
  maxAttempts_pos : 0 < maxAttempts
  maxAttempts_safe : maxAttempts ≤ MAX_SAFE_INTEGER
  batchSize : Option Nat
  /-- `options.deadLetter ?? options.outbox.deadLetter` is there. -/
  hasDeadLetter : Bool
  /-- `options.outbox.retry` is there. -/
  hasRetry : Bool

structure Environment (D : Type u) where
  deliver : Nat → OutboxEvent D → Delivery
  /-- `createSearchSyncDeliveryFailure` throws for the event at this index: no retry delay, or no
  valid date or message. -/
  failureThrows : Nat → Bool
  failedAt : Nat → Nat
  retryAt : Nat → Nat
  deadLetterFails : Bool
  retryFails : Nat → Bool

/-! ## The event loop -/

/-- `PendingSearchSyncDeferredEvent`, and a recovered value. -/
structure Pending (D : Type u) where
  index : Nat
  value : RawEntry D

/-- `PendingSearchSyncFailure`. -/
structure PendingFailure (D : Type u) extends Pending D where
  event : Option (OutboxEvent D)
  error : WorkerError

/-- The locals of the loop. The source keeps `processed` as a count and `failed` as the errors, and
no record of the lost leases. -/
structure LoopState (D : Type u) where
  blocked : List String
  processed : List Nat
  lost : List Nat
  failed : List Nat
  deferred : List (Pending D)
  deliveryFailures : List (PendingFailure D)

namespace LoopState

def init : LoopState D := ⟨[], [], [], [], [], []⟩

def defer (s : LoopState D) (index : Nat) (value : RawEntry D) : LoopState D :=
  { s with deferred := s.deferred ++ [⟨index, value⟩] }

/-- `blockOutboxEntityOrderKeys`. -/
def block (s : LoopState D) (keys : List String) : LoopState D :=
  { s with blocked := s.blocked ++ keys }

/-- The `catch` of the loop. -/
def fail (s : LoopState D) (index : Nat) (value : RawEntry D) (event : Option (OutboxEvent D))
    (error : WorkerError) : LoopState D :=
  { s with
    failed := s.failed ++ [index]
    deliveryFailures :=
      if error.staleLeaseRelease then s.deliveryFailures
      else s.deliveryFailures ++ [⟨⟨index, value⟩, event, error⟩] }

end LoopState

section
variable (documentIdentity : String → Option String → EntityId → Option DatastoreKey → String)

/-- One round of the event loop. -/
def visit (env : Environment D) (s : LoopState D) (index : Nat) (raw : RawEntry D) :
    LoopState D :=
  let identityKeys := outboxIdentityOrderKeys raw.identity index
  if outboxEntityOrderKeysBlocked s.blocked identityKeys then s.defer index raw
  else
    match raw.sanitize with
    | .error _ => (s.fail index raw none ⟨"validation", false⟩).block identityKeys
    | .ok event =>
      if outboxEntityOrderKeysBlocked s.blocked
          (outboxEntityOrderCheckKeys documentIdentity event) then
        s.defer index (.event event)
      else
        let delivery := env.deliver index event
        let blockKeys := outboxEntityOrderBlockKeys documentIdentity (event.renew delivery.renewal)
        match delivery.result with
        | .processed => { s with processed := s.processed ++ [index] }
        | .lost => { s with lost := s.lost ++ [index] }.block blockKeys
        | .failed error =>
          (s.fail index raw (some (event.renew delivery.renewal)) error).block blockKeys

/-- A batch with its indices, from `start` on. -/
def indexed (start : Nat) : List (RawEntry D) → List (Pending D)
  | [] => []
  | raw :: rest => ⟨start, raw⟩ :: indexed (start + 1) rest

def eventLoop (env : Environment D) (batch : List (RawEntry D)) : LoopState D :=
  (indexed 0 batch).foldl (fun s entry => visit documentIdentity env s entry.index entry.value) .init

end

/-! ## Settling the failures -/

/-- `OutboxDeliveryFailure`. -/
structure DeliveryFailure (D : Type u) where
  event : Option (OutboxEvent D)
  attempt : Nat
  maxAttempts : Nat
  failedAt : Nat
  retryAt : Option Nat
  error : String

/-- `createSearchSyncDeliveryFailure`, `none` when it throws. -/
def createSearchSyncDeliveryFailure (opts : WorkerOptions) (env : Environment D)
    (pending : PendingFailure D) : Option (DeliveryFailure D) :=
  let previousAttempts :=
    ((pending.event.bind OutboxEvent.deliveryAttempts).getD pending.value.deliveryAttempts)
  let attempt := min opts.maxAttempts (previousAttempts + 1)
  if env.failureThrows pending.index then none
  else some {
    event := pending.event
    attempt
    maxAttempts := opts.maxAttempts
    failedAt := env.failedAt pending.index
    retryAt := if attempt < opts.maxAttempts then some (env.retryAt pending.index) else none
    error := pending.error.message }

/-- `outboxRetryEvent`. -/
def outboxRetryEvent (failure : DeliveryFailure D) : Option (OutboxEvent D) :=
  match failure.event, failure.retryAt with
  | some event, some retryAt =>
    (sanitizeOutboxEvent false { event with
      version := some (outboxEventVersion event + 1)
      deliveryAttempts := some failure.attempt
      availableAt := some retryAt
      lastDeliveryError := some failure.error
      leaseToken := none
      leaseExpiresAt := none
      deadLetteredAt := none }).toOption
  | _, _ => none

/-- The failures split into retries, dead letters and values to recover as they are. -/
structure Split (D : Type u) where
  retries : List (PendingFailure D × DeliveryFailure D)
  deadLetters : List (PendingFailure D × DeliveryFailure D)
  recover : List (Pending D)

def splitFailures (opts : WorkerOptions) (env : Environment D) :
    List (PendingFailure D) → Split D
  | [] => ⟨[], [], []⟩
  | pending :: rest =>
    let split := splitFailures opts env rest
    match createSearchSyncDeliveryFailure opts env pending with
    | none => { split with recover := pending.toPending :: split.recover }
    | some failure =>
      if failure.maxAttempts ≤ failure.attempt then
        { split with deadLetters := (pending, failure) :: split.deadLetters }
      else { split with retries := (pending, failure) :: split.retries }

theorem createSearchSyncDeliveryFailure_eq_some {opts : WorkerOptions} {env : Environment D}
    {pending : PendingFailure D} {failure : DeliveryFailure D}
    (h : createSearchSyncDeliveryFailure opts env pending = some failure) :
    failure.event = pending.event ∧ failure.maxAttempts = opts.maxAttempts ∧
      failure.attempt = min opts.maxAttempts
        ((pending.event.bind OutboxEvent.deliveryAttempts).getD pending.value.deliveryAttempts + 1) := by
  unfold createSearchSyncDeliveryFailure at h
  dsimp only at h
  split at h
  · cases h
  · cases h
    exact ⟨rfl, rfl, rfl⟩

/-- Which failures are where. -/
structure Split.Sound (opts : WorkerOptions) (env : Environment D)
    (failures : List (PendingFailure D)) (split : Split D) : Prop where
  retries : ∀ x ∈ split.retries, x.1 ∈ failures ∧
    createSearchSyncDeliveryFailure opts env x.1 = some x.2 ∧ x.2.attempt < x.2.maxAttempts
  deadLetters : ∀ x ∈ split.deadLetters, x.1 ∈ failures ∧
    createSearchSyncDeliveryFailure opts env x.1 = some x.2 ∧ x.2.maxAttempts ≤ x.2.attempt
  recover : ∀ p ∈ split.recover, ∃ pf ∈ failures, pf.toPending = p

theorem splitFailures_sound (opts : WorkerOptions) (env : Environment D)
    (failures : List (PendingFailure D)) :
    (splitFailures opts env failures).Sound opts env failures := by
  induction failures with
  | nil => exact ⟨fun _ h => (by cases h), fun _ h => (by cases h), fun _ h => (by cases h)⟩
  | cons pending rest ih =>
    have ih : (splitFailures opts env rest).Sound opts env (pending :: rest) := by
      refine ⟨fun x hx => ?_, fun x hx => ?_, fun p hp => ?_⟩
      · exact (ih.retries x hx).imp_left (List.mem_cons_of_mem _)
      · exact (ih.deadLetters x hx).imp_left (List.mem_cons_of_mem _)
      · obtain ⟨pf, hpf, heq⟩ := ih.recover p hp
        exact ⟨pf, List.mem_cons_of_mem _ hpf, heq⟩
    rw [splitFailures]
    cases hcreate : createSearchSyncDeliveryFailure opts env pending with
    | none =>
      refine ⟨ih.retries, ih.deadLetters, fun p hp => ?_⟩
      rcases List.mem_cons.mp hp with rfl | hp
      · exact ⟨pending, List.mem_cons_self, rfl⟩
      · exact ih.recover p hp
    | some failure =>
      dsimp only
      split <;> rename_i hmax
      · refine ⟨ih.retries, fun x hx => ?_, ih.recover⟩
        rcases List.mem_cons.mp hx with rfl | hx
        · exact ⟨List.mem_cons_self, hcreate, hmax⟩
        · exact ih.deadLetters x hx
      · refine ⟨fun x hx => ?_, ih.deadLetters, ih.recover⟩
        rcases List.mem_cons.mp hx with rfl | hx
        · exact ⟨List.mem_cons_self, hcreate, Nat.lt_of_not_le hmax⟩
        · exact ih.retries x hx

/-- The dead letters that the handler took, and the values that come back from it. -/
def handleDeadLetters (opts : WorkerOptions) (env : Environment D)
    (deadLetters : List (PendingFailure D × DeliveryFailure D)) : List Nat × List (Pending D) :=
  if opts.hasDeadLetter && !env.deadLetterFails then (deadLetters.map (·.1.index), [])
  else ([], deadLetters.map (·.1.toPending))

/-- The retries of a drained batch: the indices given to `retry` and the values to recover, `none`
when an exception out of `outboxRetryEvent` ends the settlement. -/
def drainRetries (opts : WorkerOptions) (env : Environment D) :
    List (PendingFailure D × DeliveryFailure D) → List Nat × Option (List (Pending D))
  | [] => ([], some [])
  | (pending, failure) :: rest =>
    let (retried, recover) := drainRetries opts env rest
    match failure.event with
    | some _ =>
      match outboxRetryEvent failure with
      | none => ([], none)
      | some next => (retried, recover.map (⟨pending.index, .event next⟩ :: ·))
    | none =>
      if opts.hasRetry && !env.retryFails pending.index then (pending.index :: retried, recover)
      else (retried, recover.map (pending.toPending :: ·))

/-- The retries of a leased batch go to `retry` in one call. -/
def leaseRetries (env : Environment D) (retries : List (PendingFailure D × DeliveryFailure D)) :
    List Nat × Option (List (Pending D)) :=
  if env.retryFails 0 then ([], some (retries.map (·.1.toPending)))
  else (retries.map (·.1.index), some [])

/-- One insertion of `orderPendingOutboxRecoveries`: before the trailing values of later events. -/
def insertRecovery (ordered : List (Pending D)) (value : Pending D) : List (Pending D) :=
  ordered.rdropWhile (fun other => value.index < other.index) ++
    value :: ordered.rtakeWhile fun other => value.index < other.index

def orderPendingOutboxRecoveries (values : List (Pending D)) : List (Pending D) :=
  values.foldl insertRecovery []

/-- What became of the failures and the deferred events. -/
structure Settlement (D : Type u) where
  deadLettered : List Nat
  retried : List Nat
  /-- The values passed to `requeue` or `release`. -/
  recovered : List (Pending D)

def settleSearchSyncFailures (opts : WorkerOptions) (env : Environment D) (usesLease : Bool)
    (failures : List (PendingFailure D)) (deferred : List (Pending D)) : Settlement D :=
  let split := splitFailures opts env failures
  let (deadLettered, fromDeadLetters) := handleDeadLetters opts env split.deadLetters
  let (retried, fromRetries) :=
    if usesLease then leaseRetries env split.retries else drainRetries opts env split.retries
  match fromRetries with
  | none => ⟨deadLettered, retried, []⟩
  | some fromRetries =>
    ⟨deadLettered, retried, orderPendingOutboxRecoveries
      (split.recover ++ fromDeadLetters ++ fromRetries ++ deferred)⟩

/-! ## The whole run -/

structure WorkerRun (D : Type u) where
  loop : LoopState D
  settlement : Settlement D
  /-- The events beyond `batchSize`, given back before the loop. -/
  overflow : List (Pending D)

def runSearchSyncWorker
    (documentIdentity : String → Option String → EntityId → Option DatastoreKey → String)
    (opts : WorkerOptions) (env : Environment D) (usesLease : Bool) (batch : List (RawEntry D)) :
    WorkerRun D :=
  let size := opts.batchSize.getD batch.length
  let loop := eventLoop documentIdentity env (batch.take size)
  { loop
    settlement :=
      settleSearchSyncFailures opts env usesLease loop.deliveryFailures loop.deferred
    overflow := indexed size (batch.drop size) }

end ActiveTs.Outbox
