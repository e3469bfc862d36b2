import ActiveTs.Lib.Except
import ActiveTs.Outbox.StoreAdapter

/-! # Outbox rows

Every operation that changes an event writes the whole row anew, with the next version. A row that the
validator refuses makes every later listing fail. Retries and dead letters are validated before they
are written; leases, renewals and releases are not, so they write a version past the safe integers. -/

namespace ActiveTs.Outbox

variable {D : Type}

def MAX_CACHE_KEY_BYTES : Nat := 4096

/-- `assertSafeCacheKey`. -/
def isSafeCacheKey (key : String) : Bool :=
  !key.toList.isEmpty && decide (key.utf8ByteSize ≤ MAX_CACHE_KEY_BYTES) &&
    !key.toList.contains (Char.ofNat 0)

/-- A key that `randomUUID` or `nextStoreOutboxSequence` has made. -/
abbrev SafeCacheKey := { key : String // isSafeCacheKey key = true }

inductive RowError
  | event (error : EventError)
  | unsafeKey
  | unsafeFailure
  | configuration
  | conflict

/-- The strings of an event that `sanitizeOutboxEvent` checks and an operation can change. -/
def hasSafeCacheKeys (event : OutboxEvent D) : Bool :=
  isSafeCacheKey event.id && event.modelIdentity.all isSafeCacheKey &&
    event.sequence.all isSafeCacheKey && event.leaseToken.all isSafeCacheKey &&
    event.lastDeliveryError.all isSafeCacheKey

def sanitizeStoreOutboxEvent (event : OutboxEvent D) : Except RowError (OutboxEvent D) :=
  if hasSafeCacheKeys event then (sanitizeOutboxEvent false event).mapError .event
  else .error .unsafeKey

/-- `sanitizeOutboxDeliveryFailure` with `requireEvent`. -/
def sanitizeOutboxDeliveryFailure (failure : DeliveryFailure D) :
    Except RowError (OutboxEvent D) :=
  match failure.event with
  | none => .error .configuration
  | some event =>
    (sanitizeStoreOutboxEvent event).bind fun event =>
      if failure.attempt = 0 ∨ MAX_SAFE_INTEGER < failure.attempt ∨ failure.maxAttempts = 0 ∨
          MAX_SAFE_INTEGER < failure.maxAttempts ∨ failure.maxAttempts < failure.attempt ∨
          isSafeCacheKey failure.error = false then .error .unsafeFailure
      else .ok event

def withStoreOutboxSequence (event : OutboxEvent D) (next : SafeCacheKey) : OutboxEvent D :=
  { event with
    sequence := some (event.sequence.getD next.val), version := some (event.version.getD 0) }

/-! ## Operations -/

/-- The rows by id. -/
abbrev OutboxRows (D : Type) := String → Option (OutboxEvent D)

inductive RowOperation (D : Type)
  | append (event : OutboxEvent D) (sequence : SafeCacheKey)
  /-- `claimOutboxLease` for a listed event. -/
  | claim (event : OutboxEvent D) (token : SafeCacheKey) (now : Nat)
  | renewLease (event : OutboxEvent D) (now : Nat)
  | release (event : OutboxEvent D)
  | settle (disposition : Disposition) (failure : DeliveryFailure D)

section
variable [DecidableEq D]

/-- `currentOutboxEvent`. -/
def readRow (rows : OutboxRows D) (id : String) : Except RowError (Option (OutboxEvent D)) :=
  match rows id with
  | none => .ok none
  | some row => (sanitizeStoreOutboxEvent row).map some

/-- `outboxRetryEvent` or `outboxDeadLetterEvent`. -/
def settledEvent (disposition : Disposition) (failure : DeliveryFailure D) :
    Except RowError (OutboxEvent D) :=
  match disposition with
  | .retry => (outboxRetryEvent failure).elim (.error .configuration) .ok
  | .deadLetter => (outboxDeadLetterEvent failure).elim (.error .configuration) .ok

/-- The row that an operation writes, if any. -/
def RowOperation.write (rows : OutboxRows D) :
    RowOperation D → Except RowError (Option (OutboxEvent D))
  | .append event sequence =>
    (sanitizeStoreOutboxEvent event).bind fun event =>
      if (rows event.id).isSome then .error .conflict
      else .ok (some (withStoreOutboxSequence event sequence))
  | .claim event token now =>
    (readRow rows event.id).bind fun current =>
      .ok ((current.filter (isClaimable event now)).map fun current =>
        withOutboxLease current token.val (now + STORE_OUTBOX_LEASE_TTL_MS))
  | .renewLease event now =>
    (sanitizeStoreOutboxEvent event).bind fun event =>
      match event.leaseToken with
      | none => .error .configuration
      | some token =>
        (readRow rows event.id).bind fun current =>
          .ok ((current.filter fun current => isLeaseHeld event now (some current)).map
            fun current => withOutboxLease current token (now + STORE_OUTBOX_LEASE_TTL_MS))
  | .release event =>
    (sanitizeStoreOutboxEvent event).bind fun event =>
      if event.leaseToken.isNone then .ok none
      else
        (readRow rows event.id).bind fun current =>
          .ok ((current.filter fun current => current.leaseToken = event.leaseToken).map
            withoutOutboxLease)
  | .settle disposition failure =>
    (sanitizeOutboxDeliveryFailure failure).bind fun source =>
      (readRow rows source.id).bind fun current =>
        match current with
        | none =>
          if source.leaseToken.isSome then .ok none
          else (settledEvent disposition failure).map some
        | some current =>
          if isOutboxSnapshotCurrent current source then
            (settledEvent disposition { failure with event := some current }).map some
          else .ok none

/-- The rows after an operation; one that fails writes nothing. -/
def RowOperation.apply (rows : OutboxRows D) (operation : RowOperation D) : OutboxRows D :=
  match operation.write rows with
  | .ok (some next) => Function.update rows next.id (some next)
  | _ => rows

/-- The operations of a run with the rows that they find. -/
def rowTrace (rows : OutboxRows D) :
    List (RowOperation D) → List (OutboxRows D × RowOperation D)
  | [] => []
  | operation :: rest => (rows, operation) :: rowTrace (operation.apply rows) rest

/-! ## Rows that stay readable -/

/-- What an operation writes can be read again, and replaces an older version only. -/
def Sound (step : OutboxRows D × RowOperation D) : Prop :=
  ∀ next, step.2.write step.1 = .ok (some next) →
    sanitizeStoreOutboxEvent next = .ok next ∧
      ∀ old, step.1 next.id = some old → outboxEventVersion old < outboxEventVersion next

/-- The event that a lease, a renewal or a release is about. -/
def RowOperation.leased : RowOperation D → Option (OutboxEvent D)
  | .claim event _ _ => some event
  | .renewLease event _ => some event
  | .release event => some event
  | _ => none

/-- The lease of this row is rewritten by the operation. -/
def RowOperation.rewritesLease (current : OutboxEvent D) : RowOperation D → Bool
  | .claim event _ now => isClaimable event now current
  | .renewLease event now =>
    (sanitizeStoreOutboxEvent event).isOk && isLeaseHeld event now (some current)
  | .release event =>
    (sanitizeStoreOutboxEvent event).isOk && event.leaseToken.isSome &&
      current.leaseToken = event.leaseToken
  | _ => false

/-- A lease, a renewal or a release meets a row with the last safe version. -/
def Exhausted (step : OutboxRows D × RowOperation D) : Prop :=
  ∃ event current, step.2.leased = some event ∧ step.1 event.id = some current ∧
    step.2.rewritesLease current = true ∧ outboxEventVersion current = MAX_SAFE_INTEGER

/-- Every row is stored under its id and can be read. -/
def Readable (rows : OutboxRows D) : Prop :=
  ∀ id row, rows id = some row → row.id = id ∧ sanitizeStoreOutboxEvent row = .ok row

end

/-! ## Valid events -/

/-- What the validator demands. -/
structure ValidEvent (event : OutboxEvent D) : Prop where
  keys : hasSafeCacheKeys event = true
  version : outboxEventVersion event ≤ MAX_SAFE_INTEGER
  attempts : event.deliveryAttempts.getD 0 ≤ MAX_SAFE_INTEGER
  lease : event.leaseToken.isNone = event.leaseExpiresAt.isNone
  alive : event.deadLetteredAt.isSome = true → event.leaseToken = none

theorem sanitizeOutboxEvent_eq_ok {event event' : OutboxEvent D} :
    sanitizeOutboxEvent false event = .ok event' ↔
      event' = event ∧ outboxEventVersion event ≤ MAX_SAFE_INTEGER ∧
        event.deliveryAttempts.getD 0 ≤ MAX_SAFE_INTEGER ∧
        event.leaseToken.isNone = event.leaseExpiresAt.isNone ∧
        (event.deadLetteredAt.isSome = true → event.leaseToken = none) := by
  unfold sanitizeOutboxEvent
  rw [Bool.false_and, if_neg Bool.false_ne_true]
  by_cases hversion : MAX_SAFE_INTEGER < event.version.getD 0
  · rw [if_pos hversion]
    refine ⟨fun h => (by cases h), fun h => ?_⟩
    exact absurd h.2.1 (Nat.not_le_of_gt hversion)
  rw [if_neg hversion]
  by_cases hattempts : MAX_SAFE_INTEGER < event.deliveryAttempts.getD 0
  · rw [if_pos hattempts]
    refine ⟨fun h => (by cases h), fun h => ?_⟩
    exact absurd h.2.2.1 (Nat.not_le_of_gt hattempts)
  rw [if_neg hattempts]
  by_cases hlease : event.leaseToken.isNone = event.leaseExpiresAt.isNone
  · rw [if_neg (by simp [hlease])]
    by_cases hdead : (event.deadLetteredAt.isSome && event.leaseToken.isSome) = true
    · rw [if_pos hdead]
      rw [Bool.and_eq_true] at hdead
      refine ⟨fun h => (by cases h), fun h => ?_⟩
      rw [h.2.2.2.2 hdead.1] at hdead
      cases hdead.2
    · rw [if_neg hdead]
      constructor
      · intro h
        refine ⟨(Except.ok.inj h).symm, Nat.le_of_not_lt hversion, Nat.le_of_not_lt hattempts, hlease,
          fun hsome => ?_⟩
        simpa [hsome] using hdead
      · rintro ⟨rfl, -⟩
        rfl
  · rw [if_pos (by simpa using hlease)]
    exact ⟨fun h => (by cases h), fun h => absurd h.2.2.2.1 hlease⟩

theorem sanitizeStoreOutboxEvent_eq_ok {event event' : OutboxEvent D} :
    sanitizeStoreOutboxEvent event = .ok event' ↔ event' = event ∧ ValidEvent event := by
  unfold sanitizeStoreOutboxEvent
  by_cases hkeys : hasSafeCacheKeys event = true
  · rw [if_pos hkeys]
    cases hs : sanitizeOutboxEvent false event with
    | error e =>
      refine ⟨fun h => (by cases h), fun ⟨_, h⟩ => ?_⟩
      rw [(@sanitizeOutboxEvent_eq_ok _ event event).mpr
        ⟨rfl, h.version, h.attempts, h.lease, h.alive⟩] at hs
      cases hs
    | ok found =>
      obtain ⟨rfl, hversion, hattempts, hlease, halive⟩ := sanitizeOutboxEvent_eq_ok.mp hs
      constructor
      · intro h
        exact ⟨(Except.ok.inj h).symm, hkeys, hversion, hattempts, hlease, halive⟩
      · rintro ⟨rfl, -⟩
        rfl
  · rw [if_neg hkeys]
    exact ⟨fun h => (by cases h), fun h => absurd h.2.keys hkeys⟩

theorem hasSafeCacheKeys_iff {event : OutboxEvent D} :
    hasSafeCacheKeys event = true ↔ isSafeCacheKey event.id = true ∧
      event.modelIdentity.all isSafeCacheKey = true ∧ event.sequence.all isSafeCacheKey = true ∧
      event.leaseToken.all isSafeCacheKey = true ∧
      event.lastDeliveryError.all isSafeCacheKey = true := by
  simp [hasSafeCacheKeys, and_assoc]

theorem ValidEvent.withLease {event : OutboxEvent D} (h : ValidEvent event) {token : String}
    (htoken : isSafeCacheKey token = true) (halive : event.deadLetteredAt = none) (expiresAt : Nat) :
    ValidEvent (withOutboxLease event token expiresAt) ↔
      outboxEventVersion event + 1 ≤ MAX_SAFE_INTEGER := by
  refine ⟨ValidEvent.version, fun hversion => ⟨?_, hversion, h.attempts, rfl, fun hdead => ?_⟩⟩
  · obtain ⟨hid, hidentity, hsequence, -, herror⟩ := hasSafeCacheKeys_iff.mp h.keys
    exact hasSafeCacheKeys_iff.mpr ⟨hid, hidentity, hsequence, htoken, herror⟩
  · rw [withOutboxLease, halive] at hdead
    cases hdead

theorem ValidEvent.withoutLease {event : OutboxEvent D} (h : ValidEvent event) :
    ValidEvent (withoutOutboxLease event) ↔ outboxEventVersion event + 1 ≤ MAX_SAFE_INTEGER := by
  refine ⟨ValidEvent.version, fun hversion => ⟨?_, hversion, h.attempts, rfl, fun _ => rfl⟩⟩
  obtain ⟨hid, hidentity, hsequence, -, herror⟩ := hasSafeCacheKeys_iff.mp h.keys
  exact hasSafeCacheKeys_iff.mpr ⟨hid, hidentity, hsequence, rfl, herror⟩

theorem ValidEvent.withSequence {event : OutboxEvent D} (h : ValidEvent event)
    (next : SafeCacheKey) : ValidEvent (withStoreOutboxSequence event next) := by
  refine ⟨?_, h.version, h.attempts, h.lease, h.alive⟩
  obtain ⟨hid, hidentity, hsequence, htoken, herror⟩ := hasSafeCacheKeys_iff.mp h.keys
  refine hasSafeCacheKeys_iff.mpr ⟨hid, hidentity, ?_, htoken, herror⟩
  cases hs : event.sequence with
  | none =>
    rw [withStoreOutboxSequence, hs]
    exact next.property
  | some sequence =>
    rw [hs] at hsequence
    rw [withStoreOutboxSequence, hs]
    exact hsequence

theorem elim_eq_ok {α : Type} {x : Option α} {error : RowError} {a : α}
    (h : x.elim (.error error) Except.ok = .ok a) : x = some a := by
  cases x with
  | none => cases h
  | some a' => exact congrArg some (Except.ok.inj h)

/-- What `outboxRetryEvent` and `outboxDeadLetterEvent` have in common. -/
theorem settledEvent_ok {disposition : Disposition} {failure : DeliveryFailure D}
    {event next : OutboxEvent D} (hevent : failure.event = some event)
    (h : settledEvent disposition failure = .ok next) :
    sanitizeOutboxEvent false next = .ok next ∧
      ∃ availableAt deadLetteredAt, next = { event with
        version := some (outboxEventVersion event + 1)
        deliveryAttempts := some failure.attempt
        availableAt := availableAt
        deadLetteredAt := deadLetteredAt
        lastDeliveryError := some failure.error
        leaseToken := none
        leaseExpiresAt := none } := by
  cases disposition with
  | retry =>
    have h := elim_eq_ok h
    unfold outboxRetryEvent at h
    rw [hevent] at h
    cases hretry : failure.retryAt with
    | none =>
      rw [hretry] at h
      cases h
    | some retryAt =>
      rw [hretry] at h
      have h := Except.toOption_eq_some.mp h
      obtain ⟨rfl, -⟩ := sanitizeOutboxEvent_eq_ok.mp h
      exact ⟨h, some retryAt, none, rfl⟩
  | deadLetter =>
    have h := elim_eq_ok h
    unfold outboxDeadLetterEvent at h
    rw [hevent] at h
    have h := Except.toOption_eq_some.mp h
    obtain ⟨rfl, -⟩ := sanitizeOutboxEvent_eq_ok.mp h
    exact ⟨h, none, some failure.failedAt, rfl⟩

/-- A retry or a dead letter is valid and has the next version. -/
theorem ValidEvent.settled {event next : OutboxEvent D} (h : ValidEvent event)
    {disposition : Disposition} {failure : DeliveryFailure D} (hevent : failure.event = some event)
    (herror : isSafeCacheKey failure.error = true)
    (hnext : settledEvent disposition failure = .ok next) :
    ValidEvent next ∧ next.id = event.id ∧
      outboxEventVersion next = outboxEventVersion event + 1 := by
  obtain ⟨hsanitized, availableAt, deadLetteredAt, rfl⟩ := settledEvent_ok hevent hnext
  obtain ⟨-, hversion, hattempts, hlease, halive⟩ := sanitizeOutboxEvent_eq_ok.mp hsanitized
  obtain ⟨hid, hidentity, hsequence, -, -⟩ := hasSafeCacheKeys_iff.mp h.keys
  exact ⟨⟨hasSafeCacheKeys_iff.mpr ⟨hid, hidentity, hsequence, rfl, herror⟩, hversion, hattempts,
    hlease, halive⟩, rfl, rfl⟩

/-! ## What an operation writes -/

section
variable [DecidableEq D] {rows : OutboxRows D} {operation : RowOperation D} {next : OutboxEvent D}

omit [DecidableEq D] in
theorem readRow_of_readable (h : Readable rows) (id : String) : readRow rows id = .ok (rows id) := by
  unfold readRow
  cases hrow : rows id with
  | none => rfl
  | some row =>
    dsimp only
    rw [(h id row hrow).2]
    rfl

omit [DecidableEq D] in
theorem Readable.valid (h : Readable rows) {id : String} {row : OutboxEvent D}
    (hrow : rows id = some row) : row.id = id ∧ ValidEvent row :=
  ⟨(h id row hrow).1, (sanitizeStoreOutboxEvent_eq_ok.mp (h id row hrow).2).2⟩

/-- A held lease is renewed on the row as it was listed. -/
theorem isLeaseHeld_eq_true {event current : OutboxEvent D} {now : Nat}
    (h : isLeaseHeld event now (some current) = true) : current = event := by
  simp only [isLeaseHeld, Option.any_some, Bool.and_eq_true, isOutboxSnapshotCurrent,
    decide_eq_true_eq] at h
  exact h.1

omit [DecidableEq D] in
/-- The token of a held lease is safe, and its event is alive. -/
theorem ValidEvent.leased {event : OutboxEvent D} (h : ValidEvent event) {token : String}
    (htoken : event.leaseToken = some token) :
    isSafeCacheKey token = true ∧ event.deadLetteredAt = none := by
  obtain ⟨-, -, -, hsafe, -⟩ := hasSafeCacheKeys_iff.mp h.keys
  rw [htoken] at hsafe
  refine ⟨hsafe, ?_⟩
  by_contra hdead
  rw [h.alive (Option.isSome_iff_ne_none.mpr hdead)] at htoken
  cases htoken

omit [DecidableEq D] in
theorem sanitizeOutboxDeliveryFailure_eq_ok {failure : DeliveryFailure D} {source : OutboxEvent D}
    (h : sanitizeOutboxDeliveryFailure failure = .ok source) :
    failure.event = some source ∧ ValidEvent source ∧ isSafeCacheKey failure.error = true := by
  unfold sanitizeOutboxDeliveryFailure at h
  cases hevent : failure.event with
  | none =>
    rw [hevent] at h
    cases h
  | some event =>
    rw [hevent] at h
    obtain ⟨event', hsanitized, hchecked⟩ := Except.bind_eq_ok.mp h
    obtain ⟨rfl, hvalid⟩ := sanitizeStoreOutboxEvent_eq_ok.mp hsanitized
    split at hchecked
    · cases hchecked
    · next hsafe =>
      obtain rfl := Except.ok.inj hchecked
      simp only [not_or, Bool.not_eq_false] at hsafe
      exact ⟨rfl, hvalid, hsafe.2.2.2.2.2⟩

/-- Rewriting a lease gives the next version. -/
structure LeaseWrite (rows : OutboxRows D) (operation : RowOperation D) (event current : OutboxEvent D)
    (next : OutboxEvent D) : Prop where
  leased : operation.leased = some event
  found : rows event.id = some current
  rewrites : operation.rewritesLease current = true
  id_eq : next.id = event.id
  version : outboxEventVersion next = outboxEventVersion current + 1
  valid : ValidEvent next ↔ outboxEventVersion current + 1 ≤ MAX_SAFE_INTEGER

/-- A write that is valid and, where it replaces a row, has the next version. -/
def ValidWrite (rows : OutboxRows D) (next : OutboxEvent D) : Prop :=
  ValidEvent next ∧ ∀ old, rows next.id = some old →
    outboxEventVersion next = outboxEventVersion old + 1

theorem write_claim (hreadable : Readable rows) {event : OutboxEvent D} {token : SafeCacheKey}
    {now : Nat} : (RowOperation.claim event token now).write rows =
      .ok (((rows event.id).filter (isClaimable event now)).map fun current =>
        withOutboxLease current token.val (now + STORE_OUTBOX_LEASE_TTL_MS)) :=
  Except.bind_of_eq_ok (readRow_of_readable hreadable event.id)

theorem write_renewLease (hreadable : Readable rows) {event : OutboxEvent D} {token : String}
    {now : Nat} (hevent : sanitizeStoreOutboxEvent event = .ok event)
    (htoken : event.leaseToken = some token) : (RowOperation.renewLease event now).write rows =
      .ok (((rows event.id).filter fun current => isLeaseHeld event now (some current)).map
        fun current => withOutboxLease current token (now + STORE_OUTBOX_LEASE_TTL_MS)) := by
  refine (Except.bind_of_eq_ok hevent).trans ?_
  rw [htoken]
  exact Except.bind_of_eq_ok (readRow_of_readable hreadable event.id)

theorem write_release (hreadable : Readable rows) {event : OutboxEvent D}
    (hevent : sanitizeStoreOutboxEvent event = .ok event)
    (hleased : event.leaseToken.isNone = false) : (RowOperation.release event).write rows =
      .ok (((rows event.id).filter fun current => current.leaseToken = event.leaseToken).map
        withoutOutboxLease) := by
  refine (Except.bind_of_eq_ok hevent).trans ((if_neg ?_).trans ?_)
  · rw [hleased]
    exact Bool.false_ne_true
  · exact Except.bind_of_eq_ok (readRow_of_readable hreadable event.id)

theorem rewritesLease_renewLease {event current : OutboxEvent D} {now : Nat} :
    (RowOperation.renewLease event now).rewritesLease current =
      ((sanitizeStoreOutboxEvent event).isOk && isLeaseHeld event now (some current)) := rfl

theorem rewritesLease_release {event current : OutboxEvent D} :
    (RowOperation.release event).rewritesLease current =
      ((sanitizeStoreOutboxEvent event).isOk && event.leaseToken.isSome &&
        decide (current.leaseToken = event.leaseToken)) := rfl

/-- A claimed row is alive and as it was listed. -/
theorem isClaimable_eq_true {event current : OutboxEvent D} {now : Nat}
    (h : isClaimable event now current = true) :
    current.deadLetteredAt = none ∧ current = event := by
  simp only [isClaimable, Bool.and_eq_true, Option.isNone_iff_eq_none, isOutboxSnapshotCurrent,
    decide_eq_true_eq] at h
  exact ⟨h.1.1.1, h.1.2⟩

theorem write_cases (hreadable : Readable rows) (h : operation.write rows = .ok (some next)) :
    ValidWrite rows next ∨ ∃ event current, LeaseWrite rows operation event current next := by
  cases operation with
  | append event sequence =>
    obtain ⟨event', hevent, hwrite⟩ := Except.bind_eq_ok.mp h
    obtain ⟨rfl, hvalid⟩ := sanitizeStoreOutboxEvent_eq_ok.mp hevent
    split at hwrite
    · cases hwrite
    · next hfree =>
      cases hwrite
      refine .inl ⟨hvalid.withSequence sequence, fun old hold => ?_⟩
      exact absurd (Option.isSome_iff_exists.mpr ⟨old, hold⟩) hfree
  | claim event token now =>
    rw [write_claim hreadable] at h
    obtain ⟨current, hcurrent, rfl⟩ := Option.map_eq_some_iff.mp (Except.ok.inj h)
    obtain ⟨hrow, hclaimable⟩ := Option.filter_eq_some_iff.mp hcurrent
    obtain ⟨hid, hvalid⟩ := hreadable.valid hrow
    exact .inr ⟨event, current, rfl, hrow, hclaimable, hid, rfl,
      hvalid.withLease token.property (isClaimable_eq_true hclaimable).1 _⟩
  | renewLease event now =>
    obtain ⟨event', hevent, hwrite⟩ := Except.bind_eq_ok.mp h
    obtain ⟨rfl, -⟩ := sanitizeStoreOutboxEvent_eq_ok.mp hevent
    cases htoken : event'.leaseToken with
    | none =>
      rw [htoken] at hwrite
      cases hwrite
    | some token =>
      rw [write_renewLease hreadable hevent htoken] at h
      obtain ⟨current, hcurrent, rfl⟩ := Option.map_eq_some_iff.mp (Except.ok.inj h)
      obtain ⟨hrow, hheld⟩ := Option.filter_eq_some_iff.mp hcurrent
      obtain ⟨-, hvalid⟩ := hreadable.valid hrow
      obtain rfl := isLeaseHeld_eq_true hheld
      obtain ⟨hsafe, halive⟩ := hvalid.leased htoken
      refine .inr ⟨current, current, rfl, hrow, ?_, rfl, rfl, hvalid.withLease hsafe halive _⟩
      rw [rewritesLease_renewLease, hevent, hheld]
      rfl
  | release event =>
    obtain ⟨event', hevent, hwrite⟩ := Except.bind_eq_ok.mp h
    obtain ⟨rfl, -⟩ := sanitizeStoreOutboxEvent_eq_ok.mp hevent
    cases hleased : event'.leaseToken.isNone with
    | true =>
      cases (if_pos hleased).symm.trans hwrite
    | false =>
      rw [write_release hreadable hevent hleased] at h
      obtain ⟨current, hcurrent, rfl⟩ := Option.map_eq_some_iff.mp (Except.ok.inj h)
      obtain ⟨hrow, hsame⟩ := Option.filter_eq_some_iff.mp hcurrent
      obtain ⟨hid, hvalid⟩ := hreadable.valid hrow
      refine .inr ⟨event', current, rfl, hrow, ?_, hid, rfl, hvalid.withoutLease⟩
      rw [rewritesLease_release, hevent, hsame, Option.isNone_eq_false_iff.mp hleased]
      rfl
  | settle disposition failure =>
    obtain ⟨source, hsource, hwrite⟩ := Except.bind_eq_ok.mp h
    obtain ⟨hevent, hvalid, herror⟩ := sanitizeOutboxDeliveryFailure_eq_ok hsource
    rw [readRow_of_readable hreadable] at hwrite
    cases hrow : rows source.id with
    | none =>
      rw [hrow] at hwrite
      change (if _ then _ else _) = _ at hwrite
      split at hwrite
      · cases hwrite
      · obtain ⟨written, hsettled, hnext⟩ := Except.map_eq_ok.mp hwrite
        cases hnext
        obtain ⟨hnext, hid, -⟩ := hvalid.settled hevent herror hsettled
        refine .inl ⟨hnext, fun old hold => ?_⟩
        rw [hid, hrow] at hold
        cases hold
    | some current =>
      rw [hrow] at hwrite
      change (if _ then _ else _) = _ at hwrite
      split at hwrite
      · obtain ⟨written, hsettled, hnext⟩ := Except.map_eq_ok.mp hwrite
        cases hnext
        obtain ⟨hid, hcurrent⟩ := hreadable.valid hrow
        obtain ⟨hnext, hid', hversion⟩ :=
          @ValidEvent.settled _ current next hcurrent disposition
            { failure with event := some current } rfl herror hsettled
        refine .inl ⟨hnext, fun old hold => ?_⟩
        rw [hid', hid, hrow] at hold
        rw [hversion, Option.some.inj hold]
      · cases hwrite

theorem write_of_rewritesLease (hreadable : Readable rows) {event current : OutboxEvent D}
    (hleased : operation.leased = some event) (hcurrent : rows event.id = some current)
    (hrewrites : operation.rewritesLease current = true) :
    ∃ next, operation.write rows = .ok (some next) ∧
      outboxEventVersion next = outboxEventVersion current + 1 := by
  cases operation with
  | append => cases hleased
  | claim event' token now =>
    obtain rfl := Option.some.inj hleased
    have hfilter : (rows event'.id).filter (isClaimable event' now) = some current :=
      Option.filter_eq_some_iff.mpr ⟨hcurrent, hrewrites⟩
    rw [write_claim hreadable, hfilter]
    exact ⟨_, rfl, rfl⟩
  | renewLease event' now =>
    obtain rfl := Option.some.inj hleased
    rw [rewritesLease_renewLease, Bool.and_eq_true] at hrewrites
    obtain ⟨-, hheld⟩ := hrewrites
    obtain rfl := isLeaseHeld_eq_true hheld
    have hfilter : (rows current.id).filter
        (fun found => isLeaseHeld current now (some found)) = some current :=
      Option.filter_eq_some_iff.mpr ⟨hcurrent, hheld⟩
    cases htoken : current.leaseToken with
    | none => simp [isLeaseHeld, htoken] at hheld
    | some token =>
      refine ⟨withOutboxLease current token (now + STORE_OUTBOX_LEASE_TTL_MS), ?_, rfl⟩
      rw [write_renewLease hreadable (hreadable _ _ hcurrent).2 htoken, hfilter]
      rfl
  | release event' =>
    obtain rfl := Option.some.inj hleased
    rw [rewritesLease_release, Bool.and_eq_true, Bool.and_eq_true] at hrewrites
    obtain ⟨⟨hok, hsome⟩, hsame⟩ := hrewrites
    have hfilter : (rows event'.id).filter
        (fun found => found.leaseToken = event'.leaseToken) = some current :=
      Option.filter_eq_some_iff.mpr ⟨hcurrent, hsame⟩
    cases hsanitized : sanitizeStoreOutboxEvent event' with
    | error => simp [hsanitized, Except.isOk, Except.toBool] at hok
    | ok found =>
      obtain ⟨rfl, -⟩ := sanitizeStoreOutboxEvent_eq_ok.mp hsanitized
      refine ⟨withoutOutboxLease current, ?_, rfl⟩
      rw [write_release hreadable hsanitized (Option.isNone_eq_false_iff.mpr hsome), hfilter]
      rfl
  | settle => cases hleased

theorem sound_iff (hreadable : Readable rows) :
    Sound (rows, operation) ↔ ¬ Exhausted (rows, operation) := by
  constructor
  · rintro hsound ⟨event, current, hleased, hcurrent, hrewrites, hversion⟩
    obtain ⟨next, hwrite, hnext⟩ :=
      write_of_rewritesLease hreadable hleased hcurrent hrewrites
    have hvalid := (sanitizeStoreOutboxEvent_eq_ok.mp (hsound next hwrite).1).2.version
    omega
  · intro hexhausted next hwrite
    rcases write_cases hreadable hwrite with ⟨hvalid, hold⟩ | ⟨event, current, hlease⟩
    · refine ⟨sanitizeStoreOutboxEvent_eq_ok.mpr ⟨rfl, hvalid⟩, fun old hrow => ?_⟩
      rw [hold old hrow]
      exact Nat.lt_succ_self _
    · obtain ⟨hid, hcurrent⟩ := hreadable.valid hlease.found
      have hne : outboxEventVersion current ≠ MAX_SAFE_INTEGER := fun heq =>
        hexhausted ⟨event, current, hlease.leased, hlease.found, hlease.rewrites, heq⟩
      have hle := hcurrent.version
      refine ⟨sanitizeStoreOutboxEvent_eq_ok.mpr ⟨rfl, hlease.valid.mpr (by omega)⟩,
        fun old hrow => ?_⟩
      replace hrow := hlease.found.symm.trans (hlease.id_eq ▸ hrow)
      obtain rfl := Option.some.inj hrow
      rw [hlease.version]
      exact Nat.lt_succ_self _

theorem readable_apply (hreadable : Readable rows) (hsound : Sound (rows, operation)) :
    Readable (operation.apply rows) := by
  unfold RowOperation.apply
  split
  · next next hwrite =>
    intro id row hrow
    by_cases hid : id = next.id
    · rw [hid, Function.update_self] at hrow
      obtain rfl := Option.some.inj hrow
      exact ⟨hid.symm, (hsound next hwrite).1⟩
    · rw [Function.update_of_ne hid] at hrow
      exact hreadable id row hrow
  · exact hreadable

end

section
variable [DecidableEq D]

theorem trace_sound_iff {rows : OutboxRows D} (hreadable : Readable rows)
    (operations : List (RowOperation D)) :
    (∀ step ∈ rowTrace rows operations, Sound step) ↔
      ∀ step ∈ rowTrace rows operations, ¬ Exhausted step := by
  induction operations generalizing rows with
  | nil => exact ⟨fun _ step h => absurd h List.not_mem_nil, fun _ step h => absurd h List.not_mem_nil⟩
  | cons operation rest ih =>
    rw [rowTrace, List.forall_mem_cons, List.forall_mem_cons, ← sound_iff hreadable]
    exact and_congr_right fun hsound => ih (readable_apply hreadable hsound)

/-- From an empty outbox, every write of a run can be read again and has a larger version than the
row it replaces, unless the lease of a row with the last safe version is rewritten. -/
theorem rows_sound_iff (operations : List (RowOperation D)) :
    (∀ step ∈ rowTrace (fun _ => none) operations, Sound step) ↔
      ∀ step ∈ rowTrace (fun _ => none) operations, ¬ Exhausted step :=
  trace_sound_iff (fun _ _ h => absurd h (Option.some_ne_none _).symm) operations

end

def lastVersionEvent : OutboxEvent Unit where
  id := "event"
  model := "Post"
  modelId := some (.string "1")
  modelIdentity := none
  modelDatastoreAncestor := none
  modelDatastoreScope := none
  operation := .create
  data := none
  reconcileFromStore := false
  createdAt := 0
  sequence := some "1"
  version := some MAX_SAFE_INTEGER
  leaseToken := none
  leaseExpiresAt := none
  deliveryAttempts := none
  availableAt := none
  deadLetteredAt := none
  lastDeliveryError := none

theorem isSafeCacheKey_one : isSafeCacheKey "1" = true := by decide

/-- An event with the last safe version is appended and leased. The row is then refused. -/
theorem not_sound_lastVersion :
    ¬ ∀ step ∈ rowTrace (fun _ => none)
      [.append lastVersionEvent ⟨"1", isSafeCacheKey_one⟩,
        .claim lastVersionEvent ⟨"1", isSafeCacheKey_one⟩ 0], Sound step := by
  rw [trace_sound_iff fun _ _ h => absurd h (Option.some_ne_none _).symm]
  intro h
  refine h _ (List.mem_cons_of_mem _ (List.mem_singleton.mpr rfl)) ?_
  exact ⟨lastVersionEvent, lastVersionEvent, rfl, by rfl, by decide, rfl⟩

end ActiveTs.Outbox
