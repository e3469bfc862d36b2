import ActiveTs.Outbox.Order
import Mathlib.Data.List.Nodup

/-! # Nothing drained is lost

Draining deletes a batch from the outbox, so the worker must account for each of its events: it is
processed, handed to the dead letter handler, or requeued. Two things break the account. An error
with the mark of a lost lease release is not settled at all, and an event whose version cannot be
raised makes `outboxRetryEvent` throw in the middle of the settlement. -/

namespace ActiveTs.Outbox

variable {D : Type u}
variable (documentIdentity : String → Option String → EntityId → Option DatastoreKey → String)

/-! ## The failures of a loop -/

/-- A failure that the loop hands to the settlement. -/
structure FailureOf (env : Environment D) (batch : List (RawEntry D)) (pf : PendingFailure D) :
    Prop where
  value : batch[pf.index]? = some pf.value
  event : ∀ event, pf.value.sanitize = .ok event →
    pf.event = some (event.renew (env.deliver pf.index event).renewal) ∧
      (env.deliver pf.index event).result = .failed pf.error ∧ pf.error.staleLeaseRelease = false

theorem deliveryFailures_fail (s : LoopState D) (index : Nat) (raw : RawEntry D)
    (event : Option (OutboxEvent D)) (error : WorkerError) (keys : List String) :
    ((s.fail index raw event error).block keys).deliveryFailures =
      if error.staleLeaseRelease then s.deliveryFailures
      else s.deliveryFailures ++ [⟨⟨index, raw⟩, event, error⟩] := rfl

theorem failureOf_eventLoop (env : Environment D) (batch : List (RawEntry D)) :
    ∀ pf ∈ (eventLoop documentIdentity env batch).deliveryFailures, FailureOf env batch pf := by
  induction batch using List.reverseRecOn with
  | nil =>
    intro pf hpf
    cases hpf
  | append_singleton batch raw ih =>
    have hold : ∀ pf ∈ (eventLoop documentIdentity env batch).deliveryFailures,
        FailureOf env (batch ++ [raw]) pf := fun pf hpf => by
      refine ⟨?_, (ih pf hpf).event⟩
      rw [List.getElem?_append_left (List.getElem?_eq_some_iff.mp (ih pf hpf).value).1]
      exact (ih pf hpf).value
    have hlast : (batch ++ [raw])[batch.length]? = some raw := by simp
    rw [eventLoop_snoc]
    rcases visit_cases documentIdentity env (eventLoop documentIdentity env batch) batch.length raw
      with ⟨-, hv⟩ | ⟨-, ⟨⟨e, hs⟩, hv⟩ | ⟨event, hs, hv⟩⟩
    · rw [hv]
      exact hold
    · rw [hv, deliveryFailures_fail, if_neg Bool.false_ne_true]
      intro pf hpf
      rcases List.mem_append.mp hpf with hpf | hpf
      · exact hold pf hpf
      · cases List.mem_singleton.mp hpf
        refine ⟨hlast, fun event hok => ?_⟩
        rw [show raw.sanitize = .error e from hs] at hok
        cases hok
    · rw [hv]
      unfold LoopState.finish
      cases hd : (env.deliver batch.length event).result with
      | processed => exact hold
      | lost => exact hold
      | failed error =>
        dsimp only
        rw [deliveryFailures_fail]
        cases hmark : error.staleLeaseRelease with
        | true => exact hold
        | false =>
          intro pf hpf
          rcases List.mem_append.mp hpf with hpf | hpf
          · exact hold pf hpf
          · cases List.mem_singleton.mp hpf
            refine ⟨hlast, fun event' hok => ?_⟩
            rw [show raw.sanitize = .ok event from hs] at hok
            cases hok
            exact ⟨rfl, hd, hmark⟩

/-- Without marked errors every failure is settled. -/
theorem deliveryFailures_unmarked (env : Environment D) (batch : List (RawEntry D))
    (hunmarked : ∀ i event error, batch[i]? = some (.event event) →
      (env.deliver i event).result = .failed error → error.staleLeaseRelease = false) :
    (eventLoop documentIdentity env batch).deliveryFailures.map (·.index) =
      (eventLoop documentIdentity env batch).failed := by
  induction batch using List.reverseRecOn with
  | nil => rfl
  | append_singleton batch raw ih =>
    have ih := ih fun i event error hget => by
      refine hunmarked i event error ?_
      rw [List.getElem?_append_left (List.getElem?_eq_some_iff.mp hget).1, hget]
    rw [eventLoop_snoc]
    rcases visit_cases documentIdentity env (eventLoop documentIdentity env batch) batch.length raw
      with ⟨-, hv⟩ | ⟨-, ⟨-, hv⟩ | ⟨event, hs, hv⟩⟩
    · rw [hv]
      exact ih
    · rw [hv, deliveryFailures_fail, if_neg Bool.false_ne_true, List.map_append, ih]
      rfl
    · obtain ⟨rfl, -⟩ := RawEntry.sanitize_ok hs
      rw [hv]
      unfold LoopState.finish
      cases hd : (env.deliver batch.length event).result with
      | processed => exact ih
      | lost => exact ih
      | failed error =>
        dsimp only
        have hmark := hunmarked batch.length event error (by simp) hd
        rw [deliveryFailures_fail, if_neg (by rw [hmark]; exact Bool.false_ne_true),
          List.map_append, ih]
        rfl

/-! ## The settlement keeps its indices -/

theorem splitFailures_perm (opts : WorkerOptions) (env : Environment D)
    (failures : List (PendingFailure D)) :
    ((splitFailures opts env failures).recover.map Pending.index ++
        ((splitFailures opts env failures).deadLetters.map (·.1.index) ++
          (splitFailures opts env failures).retries.map (·.1.index))).Perm
      (failures.map (·.index)) := by
  induction failures with
  | nil => rfl
  | cons pf failures ih =>
    rw [splitFailures]
    cases createSearchSyncDeliveryFailure opts env pf with
    | none => exact ih.cons _
    | some failure =>
      dsimp only
      split
      · exact List.perm_middle.trans (ih.cons _)
      · simp only [List.map_cons, ← List.append_assoc] at ih ⊢
        exact List.perm_middle.trans (ih.cons _)

theorem handleDeadLetters_index (opts : WorkerOptions) (env : Environment D)
    (deadLetters : List (PendingFailure D × DeliveryFailure D)) :
    (handleDeadLetters opts env deadLetters).1 ++
        (handleDeadLetters opts env deadLetters).2.map Pending.index =
      deadLetters.map (·.1.index) := by
  unfold handleDeadLetters
  split
  · simp
  · simp

theorem handleDeadLetters_mem {opts : WorkerOptions} {env : Environment D}
    {deadLetters : List (PendingFailure D × DeliveryFailure D)} {p : Pending D}
    (hp : p ∈ (handleDeadLetters opts env deadLetters).2) :
    ∃ x ∈ deadLetters, x.1.toPending = p := by
  unfold handleDeadLetters at hp
  split at hp
  · cases hp
  · exact List.mem_map.mp hp

/-- An event whose next version is safe gets a retry event of the same id. -/
theorem outboxRetryEvent_eq_some {failure : DeliveryFailure D} {event : OutboxEvent D}
    {retryAt : Nat} (hevent : failure.event = some event) (hretry : failure.retryAt = some retryAt)
    (hversion : outboxEventVersion event < MAX_SAFE_INTEGER)
    (hattempt : failure.attempt ≤ MAX_SAFE_INTEGER) :
    ∃ next, outboxRetryEvent failure = some next ∧ next.id = event.id := by
  have hv : ¬ MAX_SAFE_INTEGER < outboxEventVersion event + 1 := Nat.not_lt.mpr hversion
  have ha : ¬ MAX_SAFE_INTEGER < failure.attempt := Nat.not_lt.mpr hattempt
  unfold outboxRetryEvent
  rw [hevent, hretry]
  simp [sanitizeOutboxEvent, hv, ha, Except.toOption]

theorem outboxRetryEvent_eq_none {failure : DeliveryFailure D} {event : OutboxEvent D}
    (hevent : failure.event = some event)
    (hversion : MAX_SAFE_INTEGER ≤ outboxEventVersion event) : outboxRetryEvent failure = none := by
  have hv : MAX_SAFE_INTEGER < outboxEventVersion event + 1 := Nat.lt_succ_of_le hversion
  unfold outboxRetryEvent
  rw [hevent]
  cases failure.retryAt with
  | none => rfl
  | some retryAt => simp [sanitizeOutboxEvent, hv, Except.toOption]

/-- Retries that all have a retry event are all requeued. -/
theorem drainRetries_eq_some (opts : WorkerOptions) (env : Environment D)
    (retries : List (PendingFailure D × DeliveryFailure D))
    (h : ∀ x ∈ retries, ∃ event next, x.2.event = some event ∧
      outboxRetryEvent x.2 = some next ∧ next.id = event.id) :
    ∃ recover, drainRetries opts env retries = ([], some recover) ∧
      recover.map Pending.index = retries.map (·.1.index) ∧
      ∀ p ∈ recover, ∃ x ∈ retries, ∃ event next, x.2.event = some event ∧
        p = ⟨x.1.index, .event next⟩ ∧ next.id = event.id := by
  induction retries with
  | nil => exact ⟨[], rfl, rfl, fun _ h => (nomatch h)⟩
  | cons x retries ih =>
    obtain ⟨event, next, hevent, hnext, hid⟩ := h x List.mem_cons_self
    obtain ⟨recover, hrec, hindex, hval⟩ := ih fun y hy => h y (List.mem_cons_of_mem _ hy)
    refine ⟨⟨x.1.index, .event next⟩ :: recover, ?_, ?_, ?_⟩
    · simp [drainRetries, hrec, hevent, hnext]
    · rw [List.map_cons, List.map_cons, hindex]
    · intro p hp
      rcases List.mem_cons.mp hp with rfl | hp
      · exact ⟨x, List.mem_cons_self, event, next, hevent, rfl, hid⟩
      · obtain ⟨y, hy, hrest⟩ := hval p hp
        exact ⟨y, List.mem_cons_of_mem _ hy, hrest⟩

/-! ## Conservation -/

/-- An environment of a drained batch: no leases, and a delivery throws or succeeds. -/
def Environment.drain (env : Environment D) (throws : Nat → OutboxEvent D → Option WorkerError) :
    Environment D :=
  { env with deliver := fun i event => ⟨none, (throws i event).elim .processed .failed⟩ }

/-- All values that the run passes to `requeue`. -/
def WorkerRun.requeued (run : WorkerRun D) : List (Pending D) :=
  run.overflow ++ run.settlement.recovered

/-- Every event of the batch is processed, dead-lettered or requeued, once. -/
structure Conserved (batch : List (RawEntry D)) (run : WorkerRun D) : Prop where
  once : ∀ i < batch.length, run.loop.processed.count i + run.settlement.deadLettered.count i +
    (run.requeued.map Pending.index).count i = 1
  same : ∀ p ∈ run.requeued, ∃ event event',
    batch[p.index]? = some (.event event) ∧ p.value = .event event' ∧ event'.id = event.id

/-- A retry of the event would need a version beyond the safe integers. -/
def Overflows (opts : WorkerOptions) (event : OutboxEvent D) : Prop :=
  MAX_SAFE_INTEGER ≤ outboxEventVersion event ∧
    event.deliveryAttempts.getD 0 + 1 < opts.maxAttempts

section
variable {documentIdentity}
variable {opts : WorkerOptions} {env : Environment D} {batch : List (RawEntry D)}

theorem drain_result (throws : Nat → OutboxEvent D → Option WorkerError) (i : Nat)
    (event : OutboxEvent D) : ((env.drain throws).deliver i event).result =
      (throws i event).elim .processed .failed := rfl

theorem drain_failed {throws : Nat → OutboxEvent D → Option WorkerError} {i : Nat}
    {event : OutboxEvent D} {error : WorkerError}
    (h : ((env.drain throws).deliver i event).result = .failed error) :
    throws i event = some error := by
  rw [drain_result] at h
  cases hthrows : throws i event with
  | none =>
    rw [hthrows] at h
    cases h
  | some error' =>
    rw [hthrows] at h
    cases h
    rfl

/-- A drained batch has no leases to lose. -/
theorem lost_drain
    (documentIdentity : String → Option String → EntityId → Option DatastoreKey → String) (env : Environment D) (throws : Nat → OutboxEvent D → Option WorkerError)
    (batch : List (RawEntry D)) :
    (eventLoop documentIdentity (env.drain throws) batch).lost = [] := by
  induction batch using List.reverseRecOn with
  | nil => rfl
  | append_singleton batch raw ih =>
    rw [eventLoop_snoc]
    rcases visit_cases documentIdentity (env.drain throws)
        (eventLoop documentIdentity (env.drain throws) batch) batch.length raw
      with ⟨-, hv⟩ | ⟨-, ⟨-, hv⟩ | ⟨event, -, hv⟩⟩
    · rw [hv]
      exact ih
    · rw [hv]
      exact ih
    · rw [hv]
      unfold LoopState.finish
      rw [drain_result]
      cases throws batch.length event with
      | none => exact ih
      | some error => exact ih

/-- The attempt of a failure counts on from the attempts of its event. -/
theorem attempt_eq {pending : PendingFailure D} {failure : DeliveryFailure D}
    {event : OutboxEvent D} (hvalue : pending.value = .event event)
    (hevent : pending.event = some event)
    (h : createSearchSyncDeliveryFailure opts env pending = some failure) :
    failure.event = some event ∧ failure.maxAttempts = opts.maxAttempts ∧
      failure.attempt = min opts.maxAttempts (event.deliveryAttempts.getD 0 + 1) ∧
      (failure.attempt < opts.maxAttempts → ∃ retryAt, failure.retryAt = some retryAt) := by
  have hprevious : (pending.event.bind OutboxEvent.deliveryAttempts).getD
      pending.value.deliveryAttempts = event.deliveryAttempts.getD 0 := by
    rw [hevent, hvalue]
    cases hattempts : event.deliveryAttempts with
    | none => simp [RawEntry.deliveryAttempts, hattempts]
    | some attempts => simp [hattempts]
  unfold createSearchSyncDeliveryFailure at h
  rw [hprevious] at h
  dsimp only at h
  split at h
  · cases h
  · obtain rfl := Option.some.inj h
    exact ⟨hevent, rfl, rfl, fun hlt => ⟨_, if_pos hlt⟩⟩

/-- What a failure of a drained valid batch says of its event. -/
theorem FailureOf.drain {throws : Nat → OutboxEvent D → Option WorkerError}
    (hvalid : ∀ raw ∈ batch, ∃ event, raw.sanitize = .ok event) {pf : PendingFailure D}
    (h : FailureOf (env.drain throws) batch pf) : ∃ event, batch[pf.index]? = some (.event event) ∧
      pf.value = .event event ∧ pf.event = some event ∧
      throws pf.index event = some pf.error ∧ pf.error.staleLeaseRelease = false := by
  obtain ⟨event, hs⟩ := hvalid pf.value (List.mem_of_getElem? h.value)
  obtain ⟨hevent, hresult, hmark⟩ := h.event event hs
  obtain ⟨hvalue, -⟩ := RawEntry.sanitize_ok hs
  refine ⟨event, ?_, hvalue, hevent, drain_failed hresult, hmark⟩
  rw [h.value, hvalue]

/-- A failure of a valid event that can be retried. -/
structure Retryable (opts : WorkerOptions) (pf : PendingFailure D) (event : OutboxEvent D) :
    Prop where
  value : pf.value = .event event
  source : pf.event = some event
  safe : ¬ Overflows opts event

theorem Retryable.retry {pf : PendingFailure D} {event : OutboxEvent D}
    {failure : DeliveryFailure D} (h : Retryable opts pf event)
    (hcreate : createSearchSyncDeliveryFailure opts env pf = some failure)
    (hattempt : failure.attempt < failure.maxAttempts) :
    ∃ next, failure.event = some event ∧ outboxRetryEvent failure = some next ∧
      next.id = event.id := by
  obtain ⟨hevent, hmax, hmin, hretry⟩ := attempt_eq h.value h.source hcreate
  rw [hmax] at hattempt
  obtain ⟨retryAt, hretry⟩ := hretry hattempt
  have hversion : outboxEventVersion event < MAX_SAFE_INTEGER := by
    by_contra hnot
    refine h.safe ⟨Nat.le_of_not_lt hnot, ?_⟩
    omega
  have hsafe := opts.maxAttempts_safe
  obtain ⟨next, hnext, hid⟩ := outboxRetryEvent_eq_some hevent hretry hversion (by omega)
  exact ⟨next, hevent, hnext, hid⟩

/-- The settlement of retryable failures gives every failure and every deferred event to one
place. -/
theorem settle_perm (opts : WorkerOptions) (env : Environment D)
    {failures : List (PendingFailure D)} (deferred : List (Pending D))
    (h : ∀ pf ∈ failures, ∃ event, Retryable opts pf event) :
    ((settleSearchSyncFailures opts env false failures deferred).deadLettered ++
        (settleSearchSyncFailures opts env false failures deferred).recovered.map
          Pending.index).Perm (failures.map (·.index) ++ deferred.map Pending.index) ∧
      ∀ p ∈ (settleSearchSyncFailures opts env false failures deferred).recovered,
        p ∈ deferred ∨ ∃ pf ∈ failures, p.index = pf.index ∧ ∃ event event',
          pf.value = .event event ∧ p.value = .event event' ∧ event'.id = event.id := by
  obtain ⟨hretries, hdead, hrecover⟩ := splitFailures_sound opts env failures
  obtain ⟨recover, hdrain, hindex, hval⟩ := drainRetries_eq_some opts env
    (splitFailures opts env failures).retries fun x hx => by
      obtain ⟨hmem, hcreate, hattempt⟩ := hretries x hx
      obtain ⟨event, hx⟩ := h x.1 hmem
      obtain ⟨next, hnext⟩ := hx.retry hcreate hattempt
      exact ⟨event, next, hnext⟩
  have hsettle : settleSearchSyncFailures opts env false failures deferred =
      ⟨(handleDeadLetters opts env (splitFailures opts env failures).deadLetters).1, [],
        orderPendingOutboxRecoveries ((splitFailures opts env failures).recover ++
          (handleDeadLetters opts env (splitFailures opts env failures).deadLetters).2 ++
          recover ++ deferred)⟩ := by
    simp [settleSearchSyncFailures, hdrain]
  rw [hsettle]
  have hletters := handleDeadLetters_index opts env (splitFailures opts env failures).deadLetters
  have hperm := perm_orderPendingOutboxRecoveries ((splitFailures opts env failures).recover ++
    (handleDeadLetters opts env (splitFailures opts env failures).deadLetters).2 ++
    recover ++ deferred)
  refine ⟨?_, fun p hp => ?_⟩
  · refine ((hperm.map _).append_left _).trans ?_
    simp only [List.map_append, hindex, ← List.append_assoc]
    refine List.Perm.append_right _ ?_
    refine List.Perm.trans ?_ (splitFailures_perm opts env failures)
    rw [← List.append_assoc, ← hletters]
    refine List.Perm.append_right _ ?_
    rw [← List.append_assoc]
    exact .append_right _ List.perm_append_comm
  · have hp := hperm.mem_iff.mp hp
    have hsource : ∀ pf ∈ failures, ∃ event event', pf.value = .event event ∧
        pf.value = .event event' ∧ event'.id = event.id := fun pf hpf => by
      obtain ⟨event, hevent⟩ := h pf hpf
      exact ⟨event, event, hevent.value, hevent.value, rfl⟩
    rcases List.mem_append.mp hp with hp | hp
    · right
      rcases List.mem_append.mp hp with hp | hp
      · rcases List.mem_append.mp hp with hp | hp
        · obtain ⟨pf, hpf, rfl⟩ := hrecover p hp
          exact ⟨pf, hpf, rfl, hsource pf hpf⟩
        · obtain ⟨x, hx, rfl⟩ := handleDeadLetters_mem hp
          exact ⟨x.1, (hdead x hx).1, rfl, hsource x.1 (hdead x hx).1⟩
      · obtain ⟨x, hx, event, next, hevent, rfl, hid⟩ := hval p hp
        obtain ⟨hmem, hcreate, -⟩ := hretries x hx
        obtain ⟨event', hx'⟩ := h x.1 hmem
        obtain ⟨hevent', -⟩ := attempt_eq hx'.value hx'.source hcreate
        rw [hevent] at hevent'
        cases hevent'
        exact ⟨x.1, hmem, rfl, event, next, hx'.value, rfl, hid⟩
    · exact .inl hp

theorem getElem?_of_take {n i : Nat} {raw : RawEntry D} (h : (batch.take n)[i]? = some raw) :
    batch[i]? = some raw := by
  rw [List.getElem?_take] at h
  split at h
  · exact h
  · cases h

theorem getElem?_indexed {start : Nat} {p : Pending D} (hp : p ∈ indexed start batch) :
    ∃ i, p.index = start + i ∧ batch[i]? = some p.value := by
  induction batch generalizing start with
  | nil => cases hp
  | cons raw batch ih =>
    rcases List.mem_cons.mp hp with rfl | hp
    · exact ⟨0, rfl, rfl⟩
    · obtain ⟨i, hi, hval⟩ := ih hp
      exact ⟨i + 1, by omega, hval⟩

/-- The indices of the loop and of the overflow are those of the batch. -/
theorem range_take_drop (size : Nat) (batch : List (RawEntry D)) :
    List.range (batch.take size).length ++ (indexed size (batch.drop size)).map Pending.index =
      List.range batch.length := by
  rw [map_index_indexed, List.range_eq_range', List.range_eq_range', List.length_drop,
    List.length_take]
  rcases Nat.le_total size batch.length with hle | hle
  · rw [Nat.min_eq_left hle]
    have h : List.range' 0 size ++ List.range' (0 + 1 * size) (batch.length - size) =
        List.range' 0 (size + (batch.length - size)) := List.range'_append
    rw [Nat.one_mul, Nat.zero_add, Nat.add_sub_cancel' hle] at h
    exact h
  · rw [Nat.min_eq_right hle, Nat.sub_eq_zero_of_le hle, List.range'_zero, List.append_nil]

/-- A run whose failures are all settled and retryable conserves its batch. -/
theorem conserved_of_retryable {throws : Nat → OutboxEvent D → Option WorkerError}
    (hvalid : ∀ raw ∈ batch, ∃ event, raw.sanitize = .ok event)
    (hsafe : ∀ i event error, .event event ∈ batch.take (opts.batchSize.getD batch.length) →
      throws i event = some error → error.staleLeaseRelease = false ∧ ¬ Overflows opts event) :
    Conserved batch (runSearchSyncWorker documentIdentity opts (env.drain throws) false batch) := by
  have hvalid' : ∀ raw ∈ batch.take (opts.batchSize.getD batch.length),
      ∃ event, raw.sanitize = .ok event := fun raw hraw => hvalid raw (List.mem_of_mem_take hraw)
  have hfailure := failureOf_eventLoop documentIdentity (env.drain throws)
    (batch.take (opts.batchSize.getD batch.length))
  have hretryable : ∀ pf ∈ (eventLoop documentIdentity (env.drain throws)
      (batch.take (opts.batchSize.getD batch.length))).deliveryFailures,
      ∃ event, Retryable opts pf event := fun pf hpf => by
    obtain ⟨event, hget, hvalue, hevent, hthrows, -⟩ := (hfailure pf hpf).drain hvalid'
    exact ⟨event, hvalue, hevent, (hsafe _ event _ (List.mem_of_getElem? hget) hthrows).2⟩
  have hvisited := visited_eventLoop documentIdentity (env.drain throws)
    (batch.take (opts.batchSize.getD batch.length))
  have hfailed := deliveryFailures_unmarked documentIdentity (env.drain throws)
    (batch.take (opts.batchSize.getD batch.length))
    fun i event error hget h => (hsafe i event error (List.mem_of_getElem? hget)
      (drain_failed h)).1
  obtain ⟨hperm, hsame⟩ := settle_perm opts (env.drain throws) (eventLoop
    documentIdentity (env.drain throws)
    (batch.take (opts.batchSize.getD batch.length))).deferred hretryable
  have hcovered := hvisited.covered
  rw [lost_drain, List.append_nil, ← hfailed] at hcovered
  constructor
  · intro i hi
    have hcount := (hcovered.append_right
      ((indexed (opts.batchSize.getD batch.length)
        (batch.drop (opts.batchSize.getD batch.length))).map Pending.index)).count_eq i
    rw [range_take_drop, List.count_eq_one_of_mem List.nodup_range (List.mem_range.mpr hi)]
      at hcount
    have hsettled := hperm.count_eq i
    simp only [List.count_append] at hcount hsettled
    simp only [runSearchSyncWorker, WorkerRun.requeued, List.map_append, List.count_append]
    omega
  · intro p hp
    rcases List.mem_append.mp hp with hp | hp
    · obtain ⟨i, hi, hget⟩ := getElem?_indexed hp
      rw [List.getElem?_drop] at hget
      obtain ⟨event, hs⟩ := hvalid p.value (List.mem_of_getElem? hget)
      obtain ⟨hevent, -⟩ := RawEntry.sanitize_ok hs
      rw [hevent, ← hi] at hget
      exact ⟨event, event, hget, hevent, rfl⟩
    · rcases hsame p hp with hp | ⟨pf, hpf, hindex, event, event', hvalue, hp, hid⟩
      · obtain ⟨hget, -⟩ := hvisited.deferred p hp
        have hget := getElem?_of_take hget
        obtain ⟨event, hs⟩ := hvalid p.value (List.mem_of_getElem? hget)
        obtain ⟨hevent, -⟩ := RawEntry.sanitize_ok hs
        rw [hevent] at hget
        exact ⟨event, event, hget, hevent, rfl⟩
      · refine ⟨event, event', ?_, hp, hid⟩
        rw [hindex, ← hvalue]
        exact getElem?_of_take (hfailure pf hpf).value

/-- Only the delivery of one index throws. -/
def throwsAt (n : Nat) (error : WorkerError) (i : Nat) (_ : OutboxEvent D) : Option WorkerError :=
  if i = n then some error else none

theorem throwsAt_eq_some {n i : Nat} {error error' : WorkerError} {event : OutboxEvent D}
    (h : throwsAt n error i event = some error') : i = n ∧ error' = error := by
  unfold throwsAt at h
  split at h
  · cases h
    exact ⟨‹_›, rfl⟩
  · cases h

/-- The index whose delivery throws is neither processed nor deferred. -/
theorem throwsAt_undone {n : Nat} {error : WorkerError}
    (hvalid : ∀ raw ∈ batch, ∃ event, raw.sanitize = .ok event) {s : LoopState D}
    (h : Visited documentIdentity (env.drain (throwsAt n error)) batch s) :
    n ∉ s.processed ∧ n ∉ s.deferred.map Pending.index := by
  constructor
  · intro hn
    obtain ⟨raw, event, -, -, hresult, -⟩ := h.processed n hn
    simp [drain_result, throwsAt] at hresult
  · intro hn
    obtain ⟨p, hp, rfl⟩ := List.mem_map.mp hn
    obtain ⟨-, k, hk, hundone, -⟩ := h.deferred p hp
    obtain ⟨raw, hraw, hne⟩ := h.undone k hundone
    obtain ⟨event, hs⟩ := hvalid raw (List.mem_of_getElem? hraw)
    have hne := hne event hs
    rw [drain_result, throwsAt, if_neg (Nat.ne_of_lt hk)] at hne
    exact hne rfl

/-- A failure whose event overflows is retried, but has no retry event. -/
theorem overflow_failure (env : Environment D) {pf : PendingFailure D} {event : OutboxEvent D}
    (hvalue : pf.value = .event event) (hevent : pf.event = some event)
    (hthrows : env.failureThrows pf.index = false) (hover : Overflows opts event) :
    ∃ failure, createSearchSyncDeliveryFailure opts env pf = some failure ∧
      failure.attempt < failure.maxAttempts ∧ failure.event = some event ∧
      outboxRetryEvent failure = none := by
  obtain ⟨failure, hcreate⟩ : ∃ failure,
      createSearchSyncDeliveryFailure opts env pf = some failure := by
    simp [createSearchSyncDeliveryFailure, hthrows]
  obtain ⟨hsource, hmax, hmin, -⟩ := attempt_eq hvalue hevent hcreate
  refine ⟨failure, hcreate, ?_, hsource, outboxRetryEvent_eq_none hsource hover.1⟩
  have hattempts := hover.2
  omega

/-- Such failures end the settlement before anything is requeued. -/
theorem settle_overflow {failures : List (PendingFailure D)} (deferred : List (Pending D))
    (hne : failures ≠ [])
    (h : ∀ pf ∈ failures, ∃ failure event, createSearchSyncDeliveryFailure opts env pf =
      some failure ∧ failure.attempt < failure.maxAttempts ∧ failure.event = some event ∧
      outboxRetryEvent failure = none) :
    settleSearchSyncFailures opts env false failures deferred = ⟨[], [], []⟩ := by
  have hdead : (splitFailures opts env failures).deadLetters = [] := by
    clear hne
    induction failures with
    | nil => rfl
    | cons pf failures ih =>
      obtain ⟨failure, event, hcreate, hattempt, -⟩ := h pf List.mem_cons_self
      have ih := ih fun pf' hpf' => h pf' (List.mem_cons_of_mem _ hpf')
      simp [splitFailures, hcreate, Nat.not_le.mpr hattempt, ih]
  have hdrain : drainRetries opts env (splitFailures opts env failures).retries = ([], none) := by
    cases failures with
    | nil => exact absurd rfl hne
    | cons pf failures =>
      obtain ⟨failure, event, hcreate, hattempt, hevent, hnone⟩ := h pf List.mem_cons_self
      simp [splitFailures, hcreate, Nat.not_le.mpr hattempt, drainRetries, hevent, hnone]
  have hletters : handleDeadLetters opts env [] = ([], []) := by
    unfold handleDeadLetters
    split <;> rfl
  simp [settleSearchSyncFailures, hdrain, hdead, hletters]

theorem not_mem_overflow (batch : List (RawEntry D)) {n size : Nat} (hn : n < size) :
    n ∉ (indexed size batch).map Pending.index := by
  intro hmem
  obtain ⟨p, hp, rfl⟩ := List.mem_map.mp hmem
  obtain ⟨i, hi, -⟩ := getElem?_indexed hp
  omega

/-- A marked error is not settled, and an event that overflows ends the settlement. -/
theorem conserved_throwsAt (env : Environment D) {n : Nat} (error : WorkerError)
    {event : OutboxEvent D}
    (hvalid : ∀ raw ∈ batch, ∃ event, raw.sanitize = .ok event)
    (hthrows : ∀ i, env.failureThrows i = false)
    (hn : (batch.take (opts.batchSize.getD batch.length))[n]? = some (.event event))
    (h : Conserved batch
      (runSearchSyncWorker documentIdentity opts (env.drain (throwsAt n error)) false batch)) :
    error.staleLeaseRelease = false ∧ ¬ Overflows opts event := by
  have hvalid' : ∀ raw ∈ batch.take (opts.batchSize.getD batch.length),
      ∃ event, raw.sanitize = .ok event := fun raw hraw => hvalid raw (List.mem_of_mem_take hraw)
  have hlength : n < (batch.take (opts.batchSize.getD batch.length)).length :=
    (List.getElem?_eq_some_iff.mp hn).1
  have hvisited := visited_eventLoop documentIdentity (env.drain (throwsAt n error))
    (batch.take (opts.batchSize.getD batch.length))
  have hfailure := failureOf_eventLoop documentIdentity (env.drain (throwsAt n error))
    (batch.take (opts.batchSize.getD batch.length))
  obtain ⟨hprocessed, hdeferred⟩ := throwsAt_undone hvalid' hvisited
  have hover := not_mem_overflow (batch.drop (opts.batchSize.getD batch.length))
    (Nat.lt_of_lt_of_le hlength (List.length_take_le ..))
  have hpf : ∀ pf ∈ (eventLoop documentIdentity (env.drain (throwsAt n error))
      (batch.take (opts.batchSize.getD batch.length))).deliveryFailures,
      pf.index = n ∧ pf.error = error ∧ pf.value = .event event ∧ pf.event = some event ∧
        pf.error.staleLeaseRelease = false := fun pf hmem => by
    obtain ⟨event', hget, hvalue, hevent, hthrow, hmark⟩ := (hfailure pf hmem).drain hvalid'
    obtain ⟨hindex, herror⟩ := throwsAt_eq_some hthrow
    rw [hindex, hn] at hget
    cases hget
    exact ⟨hindex, herror, hvalue, hevent, hmark⟩
  have honce := h.once n (hlength.trans_le (List.length_take_le' ..))
  simp only [runSearchSyncWorker, WorkerRun.requeued, List.map_append, List.count_append,
    List.count_eq_zero_of_not_mem hprocessed, List.count_eq_zero_of_not_mem hover] at honce
  have hunmarked : error.staleLeaseRelease = false := by
    by_contra hmark
    have hnil : (eventLoop documentIdentity (env.drain (throwsAt n error))
        (batch.take (opts.batchSize.getD batch.length))).deliveryFailures = [] := by
      refine List.eq_nil_iff_forall_not_mem.mpr fun pf hmem => ?_
      obtain ⟨-, rfl, -, -, hunmarked⟩ := hpf pf hmem
      exact hmark hunmarked
    rw [hnil] at honce
    obtain ⟨hperm, -⟩ := settle_perm opts (env.drain (throwsAt n error))
      (eventLoop documentIdentity (env.drain (throwsAt n error))
        (batch.take (opts.batchSize.getD batch.length))).deferred
      (fun _ hmem => absurd hmem List.not_mem_nil)
    have hcount := hperm.count_eq n
    rw [List.map_nil, List.nil_append, List.count_eq_zero_of_not_mem hdeferred,
      List.count_append] at hcount
    omega
  refine ⟨hunmarked, fun hoverflows => ?_⟩
  have hne : (eventLoop documentIdentity (env.drain (throwsAt n error))
      (batch.take (opts.batchSize.getD batch.length))).deliveryFailures ≠ [] := by
    intro hnil
    have hfailed := deliveryFailures_unmarked documentIdentity (env.drain (throwsAt n error))
      (batch.take (opts.batchSize.getD batch.length)) fun i event' error' _ hresult => by
        obtain ⟨-, rfl⟩ := throwsAt_eq_some (drain_failed hresult)
        exact hunmarked
    rw [hnil, List.map_nil] at hfailed
    have hlost := lost_drain documentIdentity env (throwsAt n error)
      (batch.take (opts.batchSize.getD batch.length))
    rcases hvisited.mem_cases hlength with hp | hu | hd
    · exact hprocessed hp
    · rcases hu with hu | hu
      · rw [← hfailed] at hu
        cases hu
      · rw [hlost] at hu
        cases hu
    · exact hdeferred hd
  rw [settle_overflow _ hne fun pf hmem => by
    obtain ⟨hindex, -, hvalue, hevent, -⟩ := hpf pf hmem
    obtain ⟨failure, hfailure⟩ := overflow_failure (env.drain (throwsAt n error)) hvalue
      hevent (hthrows _) hoverflows
    exact ⟨failure, event, hfailure⟩] at honce
  simp at honce

end

/-- Two events, the first of them with the given version. -/
def drainedBatch (version : Nat) : List (RawEntry Unit) :=
  let event : OutboxEvent Unit :=
    { id := "a", model := "post", modelId := some (.number 1), modelIdentity := none
      modelDatastoreAncestor := none, modelDatastoreScope := none, operation := .delete
      data := none, reconcileFromStore := false, createdAt := 0, sequence := none
      version := some version, leaseToken := none, leaseExpiresAt := none, deliveryAttempts := none
      availableAt := none, deadLetteredAt := none, lastDeliveryError := none }
  [.event event, .event { event with id := "b", modelId := some (.number 2), version := some 0 }]

def fiveAttempts : WorkerOptions := ⟨5, by decide, by decide, none, true, true⟩

end ActiveTs.Outbox
