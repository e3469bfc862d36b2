import ActiveTs.Outbox.StoreAdapter

/-! # The search sync worker on leases

A run leases a batch from the store outbox and delivers its events one by one. Before the first
search write of a delivery it appends a repair event, which reconciles the document from the store,
and the acknowledgement of the delivered event takes the repair event with it. -/

namespace ActiveTs.Outbox

/-- A search adapter that the documents of a model go to. -/
structure Route where
  adapter : String
  /-- `capabilities.revisionWrites`. -/
  revisionWrites : Bool

structure SearchSync (D : Type) where
  mode : StoreMode
  options : WorkerOptions
  /-- `options.deadLetter` is given. -/
  deadLetterSink : Bool
  /-- `datastoreSearchDocumentIdentity`. -/
  documentIdentity : String → Option String → EntityId → Option DatastoreKey → String
  /-- `resolveSearchSyncAdapterRoutes`, `none` for a model that is not registered. -/
  routes : OutboxEvent D → Option (List Route)
  searchSyncReservationIdentity : OutboxEvent D → String
  /-- `outboxEventSearchDocumentIdentity`, of an event with the data to be indexed. -/
  searchDocumentIdentity : OutboxEvent D → Option D → String
  /-- The authoritative row of the event. -/
  rowKey : OutboxEvent D → String

variable {T D : Type} [DecidableEq D]

/-! ## The search side -/

namespace World

/-- `acceptRevision`, and the write if it is accepted. -/
def acceptSearch (s : World T D) (request : SearchRequest D) : World T D :=
  let entry := s.search request.adapter request.identity
  let accepted : SearchEntry D := ⟨request.document, request.revision.or entry.revision⟩
  if request.revision.any fun revision => entry.revision.any fun current => revision ≤ current then s
  else
    { s with
      search := Function.update s.search request.adapter
        (Function.update (s.search request.adapter) request.identity accepted) }

end World

/-- `executeSearchSyncMutation`. A call that fails may still arrive. -/
def executeSearchSyncMutation (request : SearchRequest D) : OutboxTask T D Unit :=
  .atomically fun c s =>
    match c.outcome with
    | .ok => ((s.advance c.tick).acceptSearch request, .ok ())
    | .failed => (s.advance c.tick, .error .store)
    | .uncertain => ((s.advance c.tick).acceptSearch request, .error .store)
    | .late =>
      ({ s.advance c.tick with inFlight := request :: s.inFlight }, .error .store)

section
variable (cfg : SearchSync D) (t : T)

/-! ## Reservations and mutations -/

/-- The next revision of a document identity. -/
def nextRevision (mode : StoreMode) (identity : String) : OutboxTask T D Nat := do
  match ← storeCall fun s => (s, .ok (s.revisions identity)) with
  | none =>
    let now ← now
    let revision := now * STORE_OUTBOX_SEARCH_REVISION_TIME_SCALE
    if revision = 0 ∨ MAX_SAFE_INTEGER < revision then throw .conflict
    else
      storeCall fun s =>
        if (s.revisions identity).isSome then (s, .error .conflict)
        else ({ s with revisions := Function.update s.revisions identity (some ⟨revision, 0⟩) },
          .ok ())
      return revision
  | some current =>
    if MAX_SAFE_INTEGER ≤ current.revision ∨ MAX_SAFE_INTEGER ≤ current.version then
      throw .conflict
    else
      storeCall fun s =>
        match s.revisions identity with
        | none => (s, .error .notFound)
        | some stored =>
          if mode.optimisticLock && stored.version ≠ current.version then (s, .error .conflict)
          else
            ({ s with
              revisions := Function.update s.revisions identity
                (some ⟨current.revision + 1, current.version + 1⟩) }, .ok ())
      return current.revision + 1

/-- The lease of the event holds now. -/
def holdsLease (event : OutboxEvent D) : OutboxTask T D Bool := do
  let current ← currentOutboxEvent event.id
  let now ← now
  return isLeaseHeld event now current

def reserveRun (mode : StoreMode) (identity : String) (event : OutboxEvent D)
    (revalidateLease : Bool) : OutboxTask T D (Option Nat) := do
  if ← holdsLease event then
    let revision ← nextRevision mode identity
    if revalidateLease then
      if ← holdsLease event then return some revision else return none
    else return some revision
  else return none

def reserveSearchRevision (mode : StoreMode) (identity : String) (event : OutboxEvent D) :
    OutboxTask T D (Option Nat) :=
  if event.leaseToken.isNone then throw .configuration
  else do
    let result ← Prog.attempt <|
      if mode.optimisticLock then reserveRun mode identity event true
      else if mode.leaseTransactions then transaction (reserveRun mode identity event false)
      else throw .configuration
    match result with
    | .ok revision => return revision
    | .error e =>
      if e.isConflict then
        if ← isLeaseCurrent event then throw e else return none
      else throw e

/-- `SearchSyncMutation`; no document stands for `delete`. -/
structure SearchSyncMutation (D : Type) where
  identity : String
  document : Option D

def resolveSearchSyncMutation (event : OutboxEvent D) (reconcileFromStore : Bool) :
    OutboxTask T D (SearchSyncMutation D) := do
  if reconcileFromStore || (event.operation ≠ .delete && event.data.isNone) then
    let document ← storeCall fun s => (s, .ok (s.rows (cfg.rowKey event)))
    mayThrow
    return ⟨cfg.searchDocumentIdentity event document, document⟩
  else
    mayThrow
    let document := if event.operation = .delete then none else event.data
    return ⟨cfg.searchDocumentIdentity event event.data, document⟩

def enqueueSearchSyncRepair (event : OutboxEvent D) : OutboxTask T D (OutboxEvent D) := do
  let id ← randomUUID
  let sequence ← .atomically fun c s => (s, .ok c.uuid)
  let repairEvent : OutboxEvent D := {
    id
    model := event.model
    modelId := event.modelId
    modelIdentity := event.modelIdentity
    modelDatastoreAncestor := event.modelDatastoreAncestor
    modelDatastoreScope := event.modelDatastoreScope
    operation := .update
    data := none
    reconcileFromStore := true
    createdAt := event.createdAt
    sequence := some sequence
    version := some 0
    leaseToken := none
    leaseExpiresAt := none
    deliveryAttempts := none
    availableAt := none
    deadLetteredAt := none
    lastDeliveryError := none }
  append t repairEvent
  return repairEvent

def ensureSearchSyncLeaseCurrent (event : OutboxEvent D) : OutboxTask T D Bool := do
  if ← isLeaseCurrent event then return true
  else
    match ← (release cfg.mode t [event]).attempt with
    | .ok () => return false
    | .error _ => throw .staleLeaseRelease

/-- The renewals during a mutation. -/
structure Renewals (D : Type) where
  activeEvent : OutboxEvent D
  renewalError : Option OutboxError
  renewalLost : Bool

def renewRounds : Nat → Renewals D → OutboxTask T D (Renewals D)
  | 0, r => return r
  | rounds + 1, r =>
    if r.renewalError.isSome || r.renewalLost then return r
    else do
      match ← (renewLease cfg.mode t r.activeEvent).attempt with
      | .ok none => return { r with renewalLost := true }
      | .ok (some renewed) =>
        if r.activeEvent.leaseExpiresAt.any fun previous =>
            renewed.leaseExpiresAt.any fun expiresAt => previous < expiresAt then
          renewRounds rounds { r with activeEvent := renewed }
        else return { r with renewalError := some .configuration }
      | .error e => return { r with renewalError := some e }

/-- The timer ticks any number of times. -/
def renewals (r : Renewals D) : OutboxTask T D (Renewals D) :=
  .step (fun _ _ => true) (fun c s => s.advance c.tick) fun c _ => renewRounds cfg t c.rounds r

/-- The result of `runSearchSyncMutationWithLease`. -/
structure MutationResult (D : Type) where
  event : OutboxEvent D
  current : Bool
  renewalError : Option OutboxError
  mutationError : Option OutboxError

def runSearchSyncMutationWithLease (event : OutboxEvent D) (mutation : OutboxTask T D Unit) :
    OutboxTask T D (MutationResult D) := do
  let before ← renewals cfg t ⟨event, none, false⟩
  let result ← mutation.attempt
  let after ← renewals cfg t before
  match result with
  | .error e => return ⟨after.activeEvent, false, after.renewalError, some e⟩
  | .ok () =>
    if after.renewalError.isSome || after.renewalLost then
      return ⟨after.activeEvent, false, after.renewalError.or (some .conflict), none⟩
    else
      let current ← ensureSearchSyncLeaseCurrent cfg t after.activeEvent
      return ⟨after.activeEvent, current, none, none⟩

/-! ## The delivery of one event -/

/-- The locals of one round of the event loop. -/
structure Locals (D : Type) where
  event : OutboxEvent D
  repair : Option (OutboxEvent D)
  preserveRepair : Bool
  /-- A remote mutation was started; the source keeps no record of it. -/
  mutationStarted : Bool

inductive DeliveryEnd
  | processed
  | lost
  | failed (error : OutboxError)
  deriving DecidableEq

/-- The locals at the end of the round, and how it ended. -/
structure Report (D : Type) extends Locals D where
  result : DeliveryEnd

/-- The `catch` of the round. -/
def stop (l : Locals D) (e : OutboxError) : OutboxTask T D (Report D) := do
  match l.repair with
  | none => return ⟨l, .failed e⟩
  | some repair =>
    if l.preserveRepair then return ⟨l, .failed e⟩
    else
      let _ ← (ack cfg.mode t [repair]).attempt
      return ⟨l, .failed e⟩

/-- An `await` in the round. -/
def awaiting {α : Type} (l : Locals D) (p : OutboxTask T D α)
    (next : α → OutboxTask T D (Report D)) : OutboxTask T D (Report D) := do
  match ← p.attempt with
  | .ok a => next a
  | .error e => stop cfg t l e

/-- Goes on under a current lease. -/
def whileCurrent (l : Locals D) (next : OutboxTask T D (Report D)) : OutboxTask T D (Report D) :=
  awaiting cfg t l (ensureSearchSyncLeaseCurrent cfg t l.event) fun current =>
    if current then next else return ⟨l, .lost⟩

def acknowledge (l : Locals D) : OutboxTask T D (Report D) := do
  match ← (ack cfg.mode t (l.event :: l.repair.toList)).attempt with
  | .ok true => return ⟨l, .processed⟩
  | .ok false => return ⟨{ l with preserveRepair := true }, .lost⟩
  | .error e => stop cfg t { l with preserveRepair := true } e

/-- A write without a revision may have overtaken a newer one: the document is written again from
the store. -/
def reconcile (l : Locals D) (repair : OutboxEvent D) (route : Route)
    (next : OutboxTask T D (Report D)) : OutboxTask T D (Report D) :=
  awaiting cfg t l (resolveSearchSyncMutation cfg repair true) fun mutation =>
    awaiting cfg t l
      (executeSearchSyncMutation ⟨route.adapter, mutation.identity, mutation.document, none⟩)
      fun _ => next

def deliverRoutes (searchRevision : Option Nat) (mutation : SearchSyncMutation D) :
    List Route → Locals D → OutboxTask T D (Report D)
  | [], l => acknowledge cfg t l
  | route :: rest, l =>
    let routeRevision := if route.revisionWrites then searchRevision else none
    whileCurrent cfg t l <| awaiting cfg t l mayThrow fun _ => whileCurrent cfg t l <|
      let started := { l with preserveRepair := true, mutationStarted := true }
      let request : SearchRequest D :=
        ⟨route.adapter, mutation.identity, mutation.document, routeRevision⟩
      awaiting cfg t started
        (runSearchSyncMutationWithLease cfg t l.event (executeSearchSyncMutation request))
        fun result =>
          let l := { started with event := result.event }
          match result.mutationError with
          | some e => stop cfg t l e
          | none =>
            if result.current then
              awaiting cfg t l mayThrow fun _ => whileCurrent cfg t l <|
                deliverRoutes searchRevision mutation rest l
            else
              let ended := match result.renewalError with
                | some e => stop cfg t l e
                | none => return ⟨l, .lost⟩
              match l.repair, routeRevision with
              | some repair, none => reconcile cfg t l repair route ended
              | _, _ => ended

/-- One round of the event loop, for an event that is not blocked. -/
def deliver (event : OutboxEvent D) : OutboxTask T D (Report D) :=
  let l : Locals D := ⟨event, none, false, false⟩
  whileCurrent cfg t l <|
    match cfg.routes event with
    | none => stop cfg t l .configuration
    | some routes =>
      let reservedIdentity := cfg.searchSyncReservationIdentity event
      awaiting cfg t l (reserveSearchRevision cfg.mode reservedIdentity event) fun reserved =>
        match reserved with
        | none => whileCurrent cfg t l (stop cfg t l .conflict)
        | some revision =>
          awaiting cfg t l (resolveSearchSyncMutation cfg event event.reconcileFromStore)
            fun mutation =>
              if mutation.identity ≠ reservedIdentity then stop cfg t l .conflict
              else if routes.isEmpty then acknowledge cfg t l
              else
                awaiting cfg t l (enqueueSearchSyncRepair t event) fun repair =>
                  deliverRoutes cfg t (some revision) mutation routes
                    { l with repair := some repair }

/-! ## The event loop -/

/-- What the loop without its concurrency knows of a delivery. -/
def Report.delivery (report : Report D) : Delivery where
  renewal :=
    match report.event.version, report.event.leaseExpiresAt with
    | some version, some leaseExpiresAt => some ⟨version, leaseExpiresAt⟩
    | _, _ => none
  result :=
    match report.result with
    | .processed => .processed
    | .lost => .lost
    | .failed e => .failed ⟨"", e = .staleLeaseRelease⟩

def Environment.delivering (delivery : Delivery) : Environment D where
  deliver _ _ := delivery
  failureThrows _ := false
  failedAt _ := 0
  retryAt _ := 0
  deadLetterFails := false
  retryFails _ := false

/-- The event at this index is delivered in its round. -/
def isDelivered (s : LoopState D) (index : Nat) (event : OutboxEvent D) : Bool :=
  !outboxEntityOrderKeysBlocked s.blocked
      (outboxIdentityOrderKeys (RawEntry.event event).identity index) &&
    (RawEntry.event event).sanitize.isOk &&
    !outboxEntityOrderKeysBlocked s.blocked
      (outboxEntityOrderCheckKeys cfg.documentIdentity event)

/-- The rounds of the event loop, with the reports of the deliveries. -/
def searchSyncLoop (index : Nat) (s : LoopState D) (reports : List (Report D)) :
    List (OutboxEvent D) → OutboxTask T D (LoopState D × List (Report D))
  | [] => return (s, reports)
  | event :: rest => do
    if isDelivered cfg s index event then
      let report ← deliver cfg t event
      let next := visit cfg.documentIdentity (.delivering report.delivery) s index (.event event)
      searchSyncLoop (index + 1) next (reports ++ [report]) rest
    else
      let next :=
        visit cfg.documentIdentity (.delivering ⟨none, .lost⟩) s index (.event event)
      searchSyncLoop (index + 1) next reports rest

/-! ## Settlement -/

/-- The events that can be handed back to the outbox. -/
def recoveredEvents (recovered : List (Pending D)) : List (OutboxEvent D) :=
  recovered.filterMap fun pending =>
    match pending.value with
    | .event event => some event
    | .malformed .. => none

/-- The values that come back from the dead-letter handler. -/
def settleDeadLetters (deadLetters : List (PendingFailure D × DeliveryFailure D)) :
    OutboxTask T D (List (Pending D)) := do
  if deadLetters.isEmpty then return []
  else
    let sources := deadLetters.filterMap fun entry =>
      entry.1.event.or (recoveredEvents [entry.1.toPending]).head?
    let handled ← Prog.attempt <|
      if cfg.deadLetterSink then do
        mayThrow
        let _ ← ack cfg.mode t sources
      else settleDeliveryFailures cfg.mode t .deadLetter (deadLetters.map (·.2))
    return if handled.isOk then [] else deadLetters.map (·.1.toPending)

def settleRetries (retries : List (PendingFailure D × DeliveryFailure D)) :
    OutboxTask T D (List (Pending D)) := do
  if retries.isEmpty then return []
  else
    let handled ← (settleDeliveryFailures cfg.mode t .retry (retries.map (·.2))).attempt
    return if handled.isOk then [] else retries.map (·.1.toPending)

/-- `settleSearchSyncFailures`, for a leased batch. -/
def settleLeasedFailures (failures : List (PendingFailure D)) (deferred : List (Pending D)) :
    OutboxTask T D Unit := do
  let split ← .atomically fun c s => (s, .ok (splitFailures cfg.options c.settling failures))
  let fromDeadLetters ← settleDeadLetters cfg t split.deadLetters
  let fromRetries ← settleRetries cfg t split.retries
  let recovered := orderPendingOutboxRecoveries
    (split.recover ++ fromDeadLetters ++ fromRetries ++ deferred)
  let _ ← (release cfg.mode t (recoveredEvents recovered)).attempt

end

/-! ## Runs of the worker -/

section
variable (mode : StoreMode) (t : T)

/-- The claims of one page, with the order keys that are blocked. -/
def claimPage (documentIdentity : String → Option String → EntityId → Option DatastoreKey → String)
    (limit : Option Nat) (token : String) (expiresAt now : Nat) :
    List (OutboxEvent D) → List String → List (OutboxEvent D) →
      OutboxTask T D (List String × List (OutboxEvent D))
  | [], blocked, leased => return (blocked, leased)
  | event :: rest, blocked, leased => do
    let keysOf := outboxEntityOrderBlockKeys documentIdentity
    if limit.any fun limit => limit ≤ leased.length then return (blocked, leased)
    else if event.deadLetteredAt.isSome then
      claimPage documentIdentity limit token expiresAt now rest blocked leased
    else if outboxEntityOrderKeysBlocked blocked
          (outboxEntityOrderCheckKeys documentIdentity event) ||
        !isOutboxDeliveryAvailable event now || isOutboxLeaseActive event now then
      claimPage documentIdentity limit token expiresAt now rest (blocked ++ keysOf event) leased
    else
      match ← (claimOutboxLease mode t event token expiresAt now).attempt with
      | .ok ⟨_, some claimed⟩ =>
        claimPage documentIdentity limit token expiresAt now rest (blocked ++ keysOf claimed)
          (leased ++ [claimed])
      | .ok ⟨current, none⟩ =>
        claimPage documentIdentity limit token expiresAt now rest
          (blocked ++ keysOf event ++ current.elim [] keysOf) leased
      | .error e =>
        if e.isConflict then
          let next ← currentOutboxEvent event.id
          claimPage documentIdentity limit token expiresAt now rest
            (blocked ++ keysOf event ++ next.elim [] keysOf) leased
        else
          release mode t (leased ++ [withOutboxLease event token expiresAt])
          throw e

/-- `listPageWithContext`: rows of the outbox, in an order that the store decides. -/
def listPage : OutboxTask T D (List (OutboxEvent D)) :=
  .atomically fun c s =>
    match c.outcome with
    | .ok => (s.advance c.tick, .ok (c.page.filter fun event => s.events event.id = some event))
    | _ => (s.advance c.tick, .error .store)

def leasePages (documentIdentity : String → Option String → EntityId → Option DatastoreKey → String)
    (limit : Option Nat) (token : String) (expiresAt now : Nat) :
    Nat → List String → List (OutboxEvent D) → OutboxTask T D (List (OutboxEvent D))
  | 0, _, leased => return leased
  | pages + 1, blocked, leased => do
    let page ← listPage
    let (blocked, leased) ←
      claimPage mode t documentIdentity limit token expiresAt now page blocked leased
    leasePages documentIdentity limit token expiresAt now pages blocked leased

/-- `lease`. The store decides how many pages there are. -/
def lease (documentIdentity : String → Option String → EntityId → Option DatastoreKey → String)
    (limit : Option Nat) : OutboxTask T D (List (OutboxEvent D)) := do
  let now ← now
  let token ← randomUUID
  .step (fun _ _ => true) (fun c s => s.advance c.tick) fun c _ =>
    leasePages mode t documentIdentity limit token (now + STORE_OUTBOX_LEASE_TTL_MS) now c.rounds
      [] []

end

/-- `runSearchSyncWorker` on an outbox with exclusive leases: the reports of its deliveries. -/
def runLeasedSearchSync (cfg : SearchSync D) (t : T) : OutboxTask T D (List (Report D)) := do
  let events ← lease cfg.mode t cfg.documentIdentity cfg.options.batchSize
  let (loop, reports) ← searchSyncLoop cfg t 0 .init [] events
  settleLeasedFailures cfg t loop.deliveryFailures loop.deferred
  return reports

/-! ## Everything that happens to an outbox -/

/-- A model write, with the event that the outbox plugin appends in the same transaction. -/
def writeRow (t : T) (key : String) (document : Option D) (event : OutboxEvent D) :
    OutboxTask T D Unit :=
  storeCall fun s =>
    match s.create t event with
    | (s', .ok ()) => ({ s' with rows := Function.update s'.rows key document }, .ok ())
    | (_, .error e) => (s, .error e)

/-- A search write arrives whose call has failed. -/
def arrive : OutboxTask T D Unit :=
  .atomically fun c s =>
    match s.inFlight[c.rounds]? with
    | some request =>
      ({ s.acceptSearch request with inFlight := s.inFlight.eraseIdx c.rounds }, .ok ())
    | none => (s, .ok ())

/-- The tasks on one outbox: workers, writers, other callers of the adapter, and late writes. -/
inductive Job (D : Type)
  | worker (cfg : SearchSync D)
  | write (key : String) (document : Option D) (event : OutboxEvent D)
  | append (event : OutboxEvent D)
  | renewLease (event : OutboxEvent D)
  | release (events : List (OutboxEvent D))
  | settle (disposition : Disposition) (failures : List (DeliveryFailure D))
  | ack (events : List (OutboxEvent D))
  | arrive

def Job.task (mode : StoreMode) (t : T) : Job D → OutboxTask T D (List (Report D))
  | .worker cfg => runLeasedSearchSync { cfg with mode } t
  | .write key document event => do writeRow t key document event; return []
  | .append event => do Outbox.append t event; return []
  | .renewLease event => do let _ ← Outbox.renewLease mode t event; return []
  | .release events => do Outbox.release mode t events; return []
  | .settle disposition failures => do
    settleDeliveryFailures mode t disposition failures
    return []
  | .ack events => do let _ ← Outbox.ack mode t events; return []
  | .arrive => do Outbox.arrive; return []

end ActiveTs.Outbox
