import ActiveTs.Outbox.MemoryOutbox
import Mathlib.Data.List.DropRight

/-! # Recovery of a failed drain

Before a drain the worker lists the outbox. When the drain fails, the events of that list that are
gone are put back: those before the last event that stayed are requeued at the front, those after it
are appended. The appended ones come behind the events that other writers appended meanwhile. -/

namespace ActiveTs.Outbox

variable {D ε σ : Type}

/-- The operations of an outbox over a state; a failing operation has no effect. -/
structure OutboxAdapter (σ D ε : Type) where
  append : σ → OutboxEvent D → Except ε σ
  list : Option (σ → Except ε (List (OutboxEvent D)))
  requeue : Option (σ → List (OutboxEvent D) → Except ε σ)

inductive RecoveryError (ε : Type)
  | event (error : EventError)
  | adapter (error : ε)

inductive OutboxDrainRecoverySnapshot (D ε : Type)
  | captured (value : List (OutboxEvent D))
  | notCaptured (error : Option ε)

def captureOutboxDrainRecoverySnapshot (outbox : OutboxAdapter σ D ε) (s : σ) :
    OutboxDrainRecoverySnapshot D ε :=
  match outbox.list with
  | none => .notCaptured none
  | some list =>
    match list s with
    | .ok value => .captured value
    | .error error => .notCaptured (some error)

def snapshotOutboxEventForRequeue (event : OutboxEvent D) : OutboxEvent D :=
  match sanitizeOutboxEvent false event with
  | .ok event => event
  | .error _ => event

def appendOutboxEvents (outbox : OutboxAdapter σ D ε) :
    List (OutboxEvent D) → σ → List (RecoveryError ε) × σ
  | [], s => ([], s)
  | event :: rest, s =>
    match outbox.append s (snapshotOutboxEventForRequeue event) with
    | .ok s => appendOutboxEvents outbox rest s
    | .error error =>
      let (errors, s) := appendOutboxEvents outbox rest s
      (.adapter error :: errors, s)

def requeueOutboxEvents (outbox : OutboxAdapter σ D ε) (events : List (OutboxEvent D)) (s : σ) :
    List (RecoveryError ε) × σ :=
  let snapshots := events.map snapshotOutboxEventForRequeue
  if snapshots.isEmpty then ([], s)
  else
    match outbox.requeue with
    | some requeue =>
      match requeue s snapshots with
      | .ok s => ([], s)
      | .error error => ([.adapter error], s)
    | none => appendOutboxEvents outbox snapshots s

/-- `currentIds`, or the errors of the events that cannot be read. -/
def currentIds : List (OutboxEvent D) → Except (List (RecoveryError ε)) (List String)
  | [] => .ok []
  | event :: rest =>
    match sanitizeOutboxEvent false event, (currentIds rest : Except (List (RecoveryError ε)) _) with
    | .ok event, .ok ids => .ok (event.id :: ids)
    | .ok _, .error errors => .error errors
    | .error error, .ok _ => .error [.event error]
    | .error error, .error errors => .error (.event error :: errors)

def isCurrent (ids : List String) (event : OutboxEvent D) : Bool :=
  match sanitizeOutboxEvent false event with
  | .ok event => ids.contains event.id
  | .error _ => false

/-- `firstCurrentIndex` and `lastCurrentIndex`. -/
def currentSpan (current : OutboxEvent D → Bool) (before : List (OutboxEvent D)) :
    Option (Nat × Nat) :=
  before.zipIdx.foldl (fun span entry =>
    if current entry.1 then some ((span.map Prod.fst).getD entry.2, entry.2) else span) none

def recoverFailedOutboxDrain (outbox : OutboxAdapter σ D ε)
    (snapshot : OutboxDrainRecoverySnapshot D ε) (s : σ) : List (RecoveryError ε) × σ :=
  match snapshot with
  | .notCaptured error => ((error.map .adapter).toList, s)
  | .captured before =>
    match outbox.list with
    | none => ([], s)
    | some list =>
      match list s with
      | .error error => ([.adapter error], s)
      | .ok after =>
        match currentIds after with
        | .error errors => (errors, s)
        | .ok ids =>
          let missing (events : List (OutboxEvent D)) := events.filter fun e => !isCurrent ids e
          match currentSpan (isCurrent ids) before with
          | none => requeueOutboxEvents outbox (missing before) s
          | some (first, last) =>
            let front := missing (before.take first)
            let back := missing (before.drop (last + 1))
            let middle := missing ((before.take last).drop (first + 1))
            let (errors, s) := requeueOutboxEvents outbox (front ++ middle) s
            let (errors', s) := appendOutboxEvents outbox back s
            (errors ++ errors', s)

/-! ## Outboxes that are queues -/

/-- An outbox with one list of valid events with distinct ids: `append` adds at the end and
`requeue` at the front, unless an id is taken. -/
structure QueueOrdered (outbox : OutboxAdapter σ D ε) where
  events : σ → List (OutboxEvent D)
  sanitized : ∀ s, ∀ event ∈ events s, sanitizeOutboxEvent false event = .ok event
  nodup : ∀ s, ((events s).map OutboxEvent.id).Nodup
  list_eq : outbox.list = some fun s => .ok (events s)
  append_ok : ∀ s event, sanitizeOutboxEvent false event = .ok event →
    event.id ∉ (events s).map OutboxEvent.id →
      ∃ s', outbox.append s event = .ok s' ∧ events s' = events s ++ [event]
  requeue : σ → List (OutboxEvent D) → Except ε σ
  requeue_eq : outbox.requeue = some requeue
  requeue_ok : ∀ s es, (∀ event ∈ es, sanitizeOutboxEvent false event = .ok event) →
    ((es ++ events s).map OutboxEvent.id).Nodup →
      ∃ s', requeue s es = .ok s' ∧ events s' = es ++ events s

namespace MemoryOutbox

def adapter (D : Type) : OutboxAdapter (MemoryOutbox D) D MemoryOutboxError where
  append := append
  list := some fun outbox => .ok outbox.events
  requeue := some requeue

theorem append_ok (outbox : MemoryOutbox D) (event : OutboxEvent D)
    (h : sanitizeOutboxEvent false event = .ok event)
    (hid : event.id ∉ outbox.events.map OutboxEvent.id) :
    ∃ outbox', outbox.append event = .ok outbox' ∧ outbox'.events = outbox.events ++ [event] := by
  unfold append
  split
  · next e he =>
    rw [h] at he
    cases he
  · next normalized hn =>
    obtain rfl : event = normalized := Except.ok.inj (h.symm.trans hn)
    rw [dif_neg hid]
    exact ⟨_, rfl, rfl⟩

theorem sanitizeAll_self {events : List (OutboxEvent D)}
    (h : ∀ event ∈ events, sanitizeOutboxEvent false event = .ok event) :
    sanitizeAll events = .ok events := by
  induction events with
  | nil => rfl
  | cons event rest ih =>
    rw [sanitizeAll, h event List.mem_cons_self]
    dsimp only
    rw [ih fun e he => h e (List.mem_cons_of_mem _ he)]
    rfl

theorem requeue_ok (outbox : MemoryOutbox D) (events : List (OutboxEvent D))
    (h : ∀ event ∈ events, sanitizeOutboxEvent false event = .ok event)
    (hid : ((events ++ outbox.events).map OutboxEvent.id).Nodup) :
    ∃ outbox', outbox.requeue events = .ok outbox' ∧ outbox'.events = events ++ outbox.events := by
  unfold requeue
  split
  · next e he =>
    rw [sanitizeAll_self h] at he
    cases he
  · next normalized hn =>
    obtain rfl : events = normalized := Except.ok.inj ((sanitizeAll_self h).symm.trans hn)
    rw [dif_pos hid]
    exact ⟨_, rfl, rfl⟩

def queueOrdered : QueueOrdered (adapter D) where
  events := events
  sanitized := sanitized
  nodup := nodup
  list_eq := rfl
  append_ok := append_ok
  requeue := requeue
  requeue_eq := rfl
  requeue_ok := requeue_ok

end MemoryOutbox

/-! ## What a recovery does -/

section
variable {outbox : OutboxAdapter σ D ε} (queue : QueueOrdered outbox)

theorem snapshotOutboxEventForRequeue_self (event : OutboxEvent D) :
    snapshotOutboxEventForRequeue event = event := by
  unfold snapshotOutboxEventForRequeue
  split
  · next e h => exact (sanitizeOutboxEvent_ok h).1
  · rfl

theorem currentIds_ok {events : List (OutboxEvent D)}
    (h : ∀ event ∈ events, sanitizeOutboxEvent false event = .ok event) :
    (currentIds events : Except (List (RecoveryError ε)) _) =
      .ok (events.map OutboxEvent.id) := by
  induction events with
  | nil => rfl
  | cons event rest ih =>
    rw [currentIds, h event List.mem_cons_self, ih fun e he => h e (List.mem_cons_of_mem _ he)]
    rfl

theorem QueueOrdered.append_events (events : List (OutboxEvent D)) (s : σ)
    (h : ∀ event ∈ events, sanitizeOutboxEvent false event = .ok event)
    (hid : ((queue.events s ++ events).map OutboxEvent.id).Nodup) :
    ∃ s', appendOutboxEvents outbox events s = ([], s') ∧
      queue.events s' = queue.events s ++ events := by
  induction events generalizing s with
  | nil => exact ⟨s, rfl, (List.append_nil _).symm⟩
  | cons event rest ih =>
    have hfresh : event.id ∉ (queue.events s).map OutboxEvent.id := by
      intro hmem
      rw [List.map_append] at hid
      exact (List.nodup_append.mp hid).2.2 _ hmem _ List.mem_cons_self rfl
    obtain ⟨s₁, happend, hevents⟩ := queue.append_ok s event (h event List.mem_cons_self) hfresh
    have hid₁ : ((queue.events s₁ ++ rest).map OutboxEvent.id).Nodup := by
      rw [hevents, List.append_assoc]
      exact hid
    obtain ⟨s₂, hrest, hevents₂⟩ := ih s₁ (fun e he => h e (List.mem_cons_of_mem _ he)) hid₁
    refine ⟨s₂, ?_, ?_⟩
    · rw [appendOutboxEvents, snapshotOutboxEventForRequeue_self, happend]
      exact hrest
    · rw [hevents₂, hevents, List.append_assoc]
      rfl

theorem QueueOrdered.requeue_events (events : List (OutboxEvent D)) (s : σ)
    (h : ∀ event ∈ events, sanitizeOutboxEvent false event = .ok event)
    (hid : ((events ++ queue.events s).map OutboxEvent.id).Nodup) :
    ∃ s', requeueOutboxEvents outbox events s = ([], s') ∧
      queue.events s' = events ++ queue.events s := by
  have hmap : events.map snapshotOutboxEventForRequeue = events := by
    rw [List.map_congr_left fun e _ => snapshotOutboxEventForRequeue_self e]
    exact List.map_id' events
  unfold requeueOutboxEvents
  rw [hmap]
  cases events with
  | nil => exact ⟨s, rfl, rfl⟩
  | cons event rest =>
    obtain ⟨s', hrequeue, hevents⟩ := queue.requeue_ok s (event :: rest) h hid
    refine ⟨s', ?_, hevents⟩
    simp only [List.isEmpty_cons, Bool.false_eq_true, if_false, queue.requeue_eq, hrequeue]

/-! ## The events that stayed -/

section
variable {current : OutboxEvent D → Bool}

theorem currentSpan_concat (before : List (OutboxEvent D)) (event : OutboxEvent D) :
    currentSpan current (before ++ [event]) =
      if current event then
        some (((currentSpan current before).map Prod.fst).getD before.length, before.length)
      else currentSpan current before := by
  simp [currentSpan, List.zipIdx_append]

/-- Nothing of the list is current, or the two indices are those of its first and last current
event. -/
theorem currentSpan_spec (before : List (OutboxEvent D)) :
    (currentSpan current before = none ∧ ∀ event ∈ before, current event = false) ∨
    ∃ first front event rest, currentSpan current before = some (first, front.length) ∧
      before = front ++ event :: rest ∧ current event = true ∧
      (∀ event ∈ rest, current event = false) ∧
      ∃ front' event' rest', before = front' ++ event' :: rest' ∧ first = front'.length ∧
        current event' = true ∧ first ≤ front.length := by
  induction before using List.reverseRecOn with
  | nil => exact .inl ⟨rfl, fun _ h => absurd h List.not_mem_nil⟩
  | append_singleton before event ih =>
    rw [currentSpan_concat]
    cases hcurrent : current event with
    | false =>
      rw [if_neg Bool.false_ne_true]
      rcases ih with ⟨hspan, hnone⟩ | ⟨first, front, x, rest, hspan, rfl, hx, hrest, front',
        x', rest', heq, hfirst, hx', hle⟩
      · refine .inl ⟨hspan, fun e he => ?_⟩
        rcases List.mem_append.mp he with he | he
        · exact hnone e he
        · rw [List.mem_singleton.mp he, hcurrent]
      · refine .inr ⟨first, front, x, rest ++ [event], hspan, by simp, hx, fun e he => ?_,
          front', x', rest' ++ [event], by rw [heq, List.append_assoc]; rfl, hfirst, hx', hle⟩
        rcases List.mem_append.mp he with he | he
        · exact hrest e he
        · rw [List.mem_singleton.mp he, hcurrent]
    | true =>
      rw [if_pos rfl]
      rcases ih with ⟨hspan, -⟩ | ⟨first, front, x, rest, hspan, -, -, -, front', x', rest', rfl,
        hfirst, hx', -⟩
      · rw [hspan]
        exact .inr ⟨before.length, before, event, [], rfl, rfl, hcurrent,
          fun _ h => absurd h List.not_mem_nil, before, event, [], rfl, rfl, hcurrent,
          Nat.le_refl _⟩
      · rw [hspan]
        refine .inr ⟨first, _, event, [], rfl, rfl, hcurrent,
          fun _ h => absurd h List.not_mem_nil, front', x', rest' ++ [event], by simp, hfirst, hx',
          ?_⟩
        rw [hfirst, List.length_append]
        exact Nat.le_add_right ..

/-- The two parts that are requeued are what is missing before the last current event. -/
theorem missing_front (front' rest' front rest : List (OutboxEvent D)) (event' event : OutboxEvent D)
    (heq : front' ++ event' :: rest' = front ++ event :: rest) (hcurrent : current event' = true)
    (hle : front'.length ≤ front.length) :
    ((front' ++ event' :: rest').take front'.length).filter (fun e => !current e) ++
      (((front' ++ event' :: rest').take front.length).drop (front'.length + 1)).filter
        (fun e => !current e) = front.filter fun e => !current e := by
  have htake : (front' ++ event' :: rest').take front.length = front := by
    rw [heq, List.take_left]
  rw [htake, List.take_left]
  rcases Nat.eq_or_lt_of_le hle with hlen | hlt
  · have : front' = front := (List.append_inj heq hlen).1
    rw [this, List.drop_eq_nil_of_le (Nat.le_succ _), List.filter_nil, List.append_nil]
  · obtain ⟨more, rfl⟩ : ∃ more, front = front' ++ event' :: more := by
      rcases List.append_eq_append_iff.mp heq with ⟨tail, rfl, htail⟩ | ⟨tail, rfl, -⟩
      · cases tail with
        | nil => simp at hlt
        | cons x more => exact ⟨more, by rw [(List.cons.inj htail).1]⟩
      · rw [List.length_append] at hlt
        omega
    rw [List.filter_append, List.filter_cons_of_neg (by simp [hcurrent])]
    congr 2
    rw [List.drop_append]
    simp

end

/-- With distinct ids, a recovery puts the missing events before the last current one at the front
and the later ones at the end. -/
theorem QueueOrdered.recover_events {before : List (OutboxEvent D)} {s : σ}
    {removed : OutboxEvent D → Bool}
    (hsanitized : ∀ event ∈ before, sanitizeOutboxEvent false event = .ok event)
    (hcurrent : ∀ event ∈ before,
      isCurrent ((queue.events s).map OutboxEvent.id) event = !removed event)
    (hid : ((before.filter removed ++ queue.events s).map OutboxEvent.id).Nodup) :
    ∃ s', recoverFailedOutboxDrain outbox (.captured before) s = ([], s') ∧
      (((∀ event ∈ before, removed event = true) ∧ queue.events s' = before ++ queue.events s) ∨
        ∃ front event back, before = front ++ event :: back ∧ removed event = false ∧
          (∀ event ∈ back, removed event = true) ∧
          queue.events s' = front.filter removed ++ queue.events s ++ back) := by
  generalize hids : (queue.events s).map OutboxEvent.id = ids at hcurrent
  have hmissing : ∀ events ⊆ before,
      (events.filter fun e => !isCurrent ids e) = events.filter removed := by
    intro events hsub
    refine List.filter_congr fun e he => ?_
    rw [hcurrent e (hsub he), Bool.not_not]
  unfold recoverFailedOutboxDrain
  simp only [queue.list_eq, currentIds_ok (queue.sanitized s), hids]
  rcases @currentSpan_spec D (isCurrent ids) before with ⟨hspan, hnone⟩ |
    ⟨first, front, event, back, hspan, heq, hevent, hback, front', event', rest', heq', rfl, hevent',
      hle⟩
  · have hall : ∀ event ∈ before, removed event = true := by
      intro e he
      have h := hnone e he
      rw [hcurrent e he, Bool.not_eq_false'] at h
      exact h
    have hfilter : before.filter removed = before := List.filter_eq_self.mpr hall
    rw [hspan]
    dsimp only
    rw [hmissing before (List.Subset.refl _), hfilter]
    rw [hfilter] at hid
    obtain ⟨s', hrun, hevents⟩ := queue.requeue_events before s hsanitized hid
    exact ⟨s', hrun, .inl ⟨hall, hevents⟩⟩
  · have hfront : front ⊆ before := by
      rw [heq]
      exact List.subset_append_left ..
    have hbacksub : back ⊆ before := by
      rw [heq]
      exact fun e he => List.mem_append_right _ (List.mem_cons_of_mem _ he)
    have hbackall : ∀ e ∈ back, removed e = true := by
      intro e he
      have h := hback e he
      rw [hcurrent e (hbacksub he), Bool.not_eq_false'] at h
      exact h
    have hstayed : removed event = false := by
      rw [hcurrent event (by simp [heq]), Bool.not_eq_true'] at hevent
      exact hevent
    have hfilter : before.filter removed = front.filter removed ++ back := by
      rw [heq, List.filter_append, List.filter_cons_of_neg (by simp [hstayed]),
        List.filter_eq_self.mpr hbackall]
    have hparts := @missing_front D (isCurrent ids) front' rest' front back event' event
      (heq'.symm.trans heq) hevent' hle
    rw [← heq', hmissing front hfront] at hparts
    have hlate : (before.drop (front.length + 1)).filter (fun e => !isCurrent ids e) = back := by
      have : before.drop (front.length + 1) = back := by
        rw [heq, List.drop_append]
        simp
      rw [this, hmissing back hbacksub, List.filter_eq_self.mpr hbackall]
    rw [hspan]
    dsimp only
    rw [hparts, hlate]
    rw [hfilter, List.append_assoc] at hid
    have hperm : (front.filter removed ++ (back ++ queue.events s)).Perm
        (front.filter removed ++ queue.events s ++ back) := by
      rw [List.append_assoc]
      exact List.perm_append_comm.append_left _
    have hid' := (hperm.map OutboxEvent.id).nodup_iff.mp hid
    obtain ⟨s₁, hrun, hevents⟩ := queue.requeue_events (front.filter removed) s
      (fun e he => hsanitized e (hfront (List.mem_of_mem_filter he)))
      (by rw [List.map_append] at hid'; exact (List.nodup_append.mp hid').1)
    rw [← hevents] at hid'
    obtain ⟨s₂, hrun₂, hevents₂⟩ := queue.append_events back s₁
      (fun e he => hsanitized e (hbacksub he)) hid'
    rw [hrun]
    dsimp only
    rw [hrun₂]
    exact ⟨s₂, rfl, .inr ⟨front, event, back, heq, hstayed, hbackall, by rw [hevents₂, hevents]⟩⟩

end

/-! ## Order -/

section
-- `datastoreSearchDocumentIdentity`.
variable (documentIdentity : String → Option String → EntityId → Option DatastoreKey → String)

/-- A drain that has failed: which events of the captured list it removed, and what other writers
appended since the capture. -/
structure FailedDrain {outbox : OutboxAdapter σ D ε} (queue : QueueOrdered outbox) where
  before : σ
  after : σ
  removed : OutboxEvent D → Bool
  appended : List (OutboxEvent D)
  listed : queue.events after = (queue.events before).filter (!removed ·) ++ appended
  /-- No removed event waits for an earlier one that stayed. -/
  respects : (queue.events before).Pairwise fun earlier later =>
    removed earlier = false → removed later = true → Conflicts documentIdentity earlier later = false

variable {documentIdentity}
variable {outbox : OutboxAdapter σ D ε} {queue : QueueOrdered outbox}

namespace FailedDrain

/-- `recoverFailedOutboxDrain` with the snapshot that was captured before the drain. -/
def recovery (drain : FailedDrain documentIdentity queue) : List (RecoveryError ε) × σ :=
  recoverFailedOutboxDrain outbox (captureOutboxDrainRecoverySnapshot outbox drain.before)
    drain.after

/-- All events in the order in which they came. -/
def arrived (drain : FailedDrain documentIdentity queue) : List (OutboxEvent D) :=
  queue.events drain.before ++ drain.appended

/-- What a recovery should achieve. -/
structure Recovered (drain : FailedDrain documentIdentity queue) : Prop where
  errors : drain.recovery.1 = []
  /-- Every event is there, and once. -/
  restored : (queue.events drain.recovery.2).Perm drain.arrived
  kept : (queue.events drain.after).Sublist (queue.events drain.recovery.2)
  /-- Of two conflicting events the older one is before the newer one. -/
  order : drain.arrived.Pairwise fun earlier later =>
    Conflicts documentIdentity earlier later = true →
      [earlier, later].Sublist (queue.events drain.recovery.2)

/-- No id is used again, and no appended event waits for an event that was removed behind the last
one that stayed. -/
structure Recoverable (drain : FailedDrain documentIdentity queue) : Prop where
  fresh : ∀ event ∈ queue.events drain.before, drain.removed event = true →
    ∀ new ∈ drain.appended, event.id ≠ new.id
  late : ∀ front event back, queue.events drain.before = front ++ event :: back →
    drain.removed event = false → (∀ late ∈ back, drain.removed late = true) →
      ∀ late ∈ back, ∀ new ∈ drain.appended, Conflicts documentIdentity late new = false

end FailedDrain

/-- In a list without duplicates two elements have one order. -/
theorem not_sublist_swap {α : Type} {l : List α} (hnodup : l.Nodup) {x y : α}
    (h : [x, y].Sublist l) : ¬ [y, x].Sublist l := by
  intro h'
  induction l with
  | nil => cases h
  | cons z l ih =>
    obtain ⟨hz, hnodup⟩ := List.nodup_cons.mp hnodup
    cases h with
    | cons _ h =>
      cases h' with
      | cons _ h' => exact ih hnodup h h'
      | cons_cons _ _ => exact hz (h.subset (by simp))
    | cons_cons _ h =>
      cases h' with
      | cons _ h' => exact hz (h'.subset (by simp))
      | cons_cons _ _ => exact hz (h.subset (by simp))

/-- An element of the first list is before one of the second. -/
theorem pair_sublist_append {α : Type} {l m : List α} {x y : α} (hx : x ∈ l) (hy : y ∈ m) :
    [x, y].Sublist (l ++ m) :=
  (List.singleton_sublist.mpr hx).append (List.singleton_sublist.mpr hy)

variable (drain : FailedDrain documentIdentity queue)

namespace FailedDrain

theorem nodup_id_eq {x y : OutboxEvent D} (hx : x ∈ queue.events drain.before)
    (hy : y ∈ queue.events drain.before) (hid : x.id = y.id) : x = y :=
  List.inj_on_of_nodup_map (queue.nodup drain.before) hx hy hid

theorem isCurrent_after (hfresh : ∀ event ∈ queue.events drain.before,
      drain.removed event = true → ∀ new ∈ drain.appended, event.id ≠ new.id)
    (event : OutboxEvent D) (hevent : event ∈ queue.events drain.before) :
    isCurrent ((queue.events drain.after).map OutboxEvent.id) event = !drain.removed event := by
  unfold isCurrent
  rw [queue.sanitized _ event hevent, drain.listed]
  dsimp only
  rw [Bool.eq_iff_iff, List.contains_iff_mem, List.mem_map, Bool.not_eq_true']
  constructor
  · rintro ⟨other, hother, hid⟩
    by_contra hremoved
    rw [Bool.not_eq_false] at hremoved
    rcases List.mem_append.mp hother with hother | hother
    · obtain ⟨hother, hkept⟩ := List.mem_filter.mp hother
      obtain rfl := drain.nodup_id_eq hother hevent hid
      simp [hremoved] at hkept
    · exact hfresh event hevent hremoved other hother hid.symm
  · intro hkept
    refine ⟨event, List.mem_append_left _ (List.mem_filter.mpr ⟨hevent, ?_⟩), rfl⟩
    rw [hkept]
    rfl

theorem nodup_missing (hfresh : ∀ event ∈ queue.events drain.before,
      drain.removed event = true → ∀ new ∈ drain.appended, event.id ≠ new.id) :
    (((queue.events drain.before).filter drain.removed ++ queue.events drain.after).map
      OutboxEvent.id).Nodup := by
  rw [List.map_append, List.nodup_append]
  refine ⟨((List.filter_sublist (p := drain.removed)).map OutboxEvent.id).nodup
    (queue.nodup drain.before), queue.nodup drain.after, ?_⟩
  rintro id hid _ hid' rfl
  obtain ⟨event, hevent, rfl⟩ := List.mem_map.mp hid
  obtain ⟨hevent, hremoved⟩ := List.mem_filter.mp hevent
  have hcurrent := drain.isCurrent_after hfresh event hevent
  unfold isCurrent at hcurrent
  rw [queue.sanitized _ event hevent, hremoved] at hcurrent
  dsimp only at hcurrent
  rw [Bool.not_true, List.contains_eq_mem, decide_eq_false_iff_not] at hcurrent
  exact hcurrent hid'

theorem recovery_events (hfresh : ∀ event ∈ queue.events drain.before,
      drain.removed event = true → ∀ new ∈ drain.appended, event.id ≠ new.id) :
    drain.recovery.1 = [] ∧
      (((∀ event ∈ queue.events drain.before, drain.removed event = true) ∧
          queue.events drain.recovery.2 = queue.events drain.before ++ drain.appended) ∨
        ∃ front event back, queue.events drain.before = front ++ event :: back ∧
          drain.removed event = false ∧ (∀ late ∈ back, drain.removed late = true) ∧
          queue.events drain.recovery.2 =
            front.filter drain.removed ++ queue.events drain.after ++ back) := by
  have hcapture : captureOutboxDrainRecoverySnapshot outbox drain.before =
      .captured (queue.events drain.before) := by
    simp [captureOutboxDrainRecoverySnapshot, queue.list_eq]
  obtain ⟨s', hrun, hevents⟩ := queue.recover_events (queue.sanitized drain.before)
    (drain.isCurrent_after hfresh) (drain.nodup_missing hfresh)
  unfold recovery
  rw [hcapture, hrun]
  refine ⟨rfl, ?_⟩
  rcases hevents with ⟨hall, hevents⟩ | hevents
  · refine .inl ⟨hall, ?_⟩
    have hnone : (queue.events drain.before).filter (!drain.removed ·) = [] := by
      refine List.filter_eq_nil_iff.mpr fun event hevent => ?_
      rw [hall event hevent]
      exact Bool.false_ne_true
    rw [hevents, drain.listed, hnone, List.nil_append]
  · exact .inr hevents

/-- Without reuse of ids, what was appended is behind an event that stayed. -/
theorem listed_split {front back : List (OutboxEvent D)} {event : OutboxEvent D}
    (hbefore : queue.events drain.before = front ++ event :: back)
    (hstayed : drain.removed event = false) (hback : ∀ late ∈ back, drain.removed late = true) :
    queue.events drain.after =
      (front ++ [event]).filter (!drain.removed ·) ++ drain.appended := by
  have hnone : back.filter (!drain.removed ·) = [] := by
    refine List.filter_eq_nil_iff.mpr fun late hlate => ?_
    rw [hback late hlate]
    exact Bool.false_ne_true
  rw [drain.listed, hbefore]
  simp [hnone, hstayed]

theorem last_stayed_unique {removed : OutboxEvent D → Bool}
    {front back front' back' : List (OutboxEvent D)} {event event' : OutboxEvent D}
    (heq : front ++ event :: back = front' ++ event' :: back')
    (hstayed : removed event = false) (hback : ∀ late ∈ back, removed late = true)
    (hstayed' : removed event' = false) (hback' : ∀ late ∈ back', removed late = true) :
    back = back' := by
  rcases List.append_eq_append_iff.mp heq with ⟨tail, -, htail⟩ | ⟨tail, -, htail⟩
  · cases tail with
    | nil => exact (List.cons.inj htail).2
    | cons x tail =>
      have := hback event' (by rw [(List.cons.inj htail).2]; simp)
      rw [this] at hstayed'
      cases hstayed'
  · cases tail with
    | nil => exact (List.cons.inj htail).2.symm
    | cons x tail =>
      have := hback' event (by rw [(List.cons.inj htail).2]; simp)
      rw [this] at hstayed
      cases hstayed

theorem fresh_of_recovered (h : drain.Recovered) : ∀ event ∈ queue.events drain.before,
    drain.removed event = true → ∀ new ∈ drain.appended, event.id ≠ new.id := by
  intro event hevent _ new hnew hid
  have hnodup := ((h.restored.map OutboxEvent.id).nodup_iff.mp (queue.nodup drain.recovery.2))
  rw [arrived, List.map_append] at hnodup
  exact (List.nodup_append.mp hnodup).2.2 event.id (List.mem_map_of_mem hevent) new.id
    (List.mem_map_of_mem hnew) hid

theorem late_of_recovered (h : drain.Recovered) (front : List (OutboxEvent D))
    (event : OutboxEvent D) (back : List (OutboxEvent D))
    (hbefore : queue.events drain.before = front ++ event :: back)
    (hstayed : drain.removed event = false) (hback : ∀ late ∈ back, drain.removed late = true)
    (late : OutboxEvent D) (hlate : late ∈ back) (new : OutboxEvent D)
    (hnew : new ∈ drain.appended) : Conflicts documentIdentity late new = false := by
  by_contra hconflict
  rw [Bool.not_eq_false] at hconflict
  have harrived : [late, new].Sublist drain.arrived := by
    refine pair_sublist_append ?_ hnew
    rw [hbefore]
    exact List.mem_append_right _ (List.mem_cons_of_mem _ hlate)
  have horder := List.pairwise_iff_forall_sublist.mp h.order harrived hconflict
  have hnodup : (queue.events drain.recovery.2).Nodup :=
    List.Nodup.of_map _ (queue.nodup drain.recovery.2)
  refine not_sublist_swap hnodup horder ?_
  -- The recovery has put the removed event behind the appended one.
  obtain ⟨hall, -⟩ | ⟨front', event', back', hbefore', hstayed', hback', hevents⟩ :=
    (drain.recovery_events (drain.fresh_of_recovered h)).2
  · rw [hall event (by simp [hbefore])] at hstayed
    cases hstayed
  · rw [hevents, last_stayed_unique (hbefore'.symm.trans hbefore) hstayed' hback' hstayed hback]
    refine pair_sublist_append ?_ hlate
    rw [drain.listed]
    exact List.mem_append_right _ (List.mem_append_right _ hnew)

/-- When an event stayed, the events up to the last one keep their order among each other and are
before what was appended; the later ones come last. -/
theorem order_of_late {front back : List (OutboxEvent D)} {event : OutboxEvent D}
    (hbefore : queue.events drain.before = front ++ event :: back)
    (hstayed : drain.removed event = false) (hback : ∀ late ∈ back, drain.removed late = true)
    (hevents : queue.events drain.recovery.2 =
      front.filter drain.removed ++ queue.events drain.after ++ back)
    (hlate : ∀ late ∈ back, ∀ new ∈ drain.appended,
      Conflicts documentIdentity late new = false) :
    drain.arrived.Pairwise fun earlier later => Conflicts documentIdentity earlier later = true →
      [earlier, later].Sublist (queue.events drain.recovery.2) := by
  have hfilter : (front ++ [event]).filter drain.removed = front.filter drain.removed := by
    simp [hstayed]
  have hafter := drain.listed_split hbefore hstayed hback
  have hrespects := drain.respects
  have hsplit : queue.events drain.before = (front ++ [event]) ++ back := by simp [hbefore]
  rw [hsplit] at hrespects
  rw [← hfilter, hafter] at hevents
  rw [arrived, hsplit, hevents]
  generalize front ++ [event] = upTo at hrespects ⊢
  -- An event up to the last one that stayed is before the appended and the later events.
  have hmem : ∀ x ∈ upTo, x ∈ upTo.filter drain.removed ++ upTo.filter (!drain.removed ·) := by
    intro x hx
    exact (List.filter_append_perm drain.removed upTo).mem_iff.mpr hx
  have hassoc : upTo.filter drain.removed ++ (upTo.filter (!drain.removed ·) ++ drain.appended) ++
      back = (upTo.filter drain.removed ++ upTo.filter (!drain.removed ·)) ++
        (drain.appended ++ back) := by
    simp only [List.append_assoc]
  rw [hassoc, List.pairwise_append, List.pairwise_append]
  refine ⟨⟨?_, ?_, ?_⟩, ?_, ?_⟩
  · refine List.pairwise_iff_forall_sublist.mpr fun {x y} hxy hconflict => ?_
    refine List.Sublist.trans ?_ (List.sublist_append_left ..)
    have hxy' : x ∈ upTo ∧ y ∈ upTo := ⟨hxy.subset (by simp), hxy.subset (by simp)⟩
    cases hx : drain.removed x with
    | true =>
      cases hy : drain.removed y with
      | true =>
        have := hxy.filter drain.removed
        rw [List.filter_cons_of_pos hx, List.filter_cons_of_pos hy, List.filter_nil] at this
        exact this.trans (List.sublist_append_left ..)
      | false =>
        exact pair_sublist_append (List.mem_filter.mpr ⟨hxy'.1, hx⟩)
          (List.mem_filter.mpr ⟨hxy'.2, by simp [hy]⟩)
    | false =>
      cases hy : drain.removed y with
      | true =>
        have hfree := List.pairwise_iff_forall_sublist.mp hrespects
          (hxy.trans (List.sublist_append_left ..)) hx hy
        rw [hfree] at hconflict
        cases hconflict
      | false =>
        have := hxy.filter (!drain.removed ·)
        rw [List.filter_cons_of_pos (by simp [hx]), List.filter_cons_of_pos (by simp [hy]),
          List.filter_nil] at this
        exact this.trans (List.sublist_append_right ..)
  · refine List.pairwise_iff_forall_sublist.mpr fun {x y} hxy _ => ?_
    exact (hxy.trans (List.sublist_append_right ..)).trans (List.sublist_append_right ..)
  · intro x hx y hy _
    exact pair_sublist_append (hmem x hx) (List.mem_append_right _ hy)
  · refine List.pairwise_iff_forall_sublist.mpr fun {x y} hxy _ => ?_
    exact (hxy.trans (List.sublist_append_left ..)).trans (List.sublist_append_right ..)
  · intro x hx y hy hconflict
    rcases List.mem_append.mp hx with hx | hx
    · exact pair_sublist_append (hmem x hx) (List.mem_append_left _ hy)
    · rw [hlate x hx y hy] at hconflict
      cases hconflict

theorem restored_of_late {front back : List (OutboxEvent D)} {event : OutboxEvent D}
    (hbefore : queue.events drain.before = front ++ event :: back)
    (hstayed : drain.removed event = false) (hback : ∀ late ∈ back, drain.removed late = true)
    (hevents : queue.events drain.recovery.2 =
      front.filter drain.removed ++ queue.events drain.after ++ back) :
    (queue.events drain.recovery.2).Perm drain.arrived := by
  have hfilter : (front ++ [event]).filter drain.removed = front.filter drain.removed := by
    simp [hstayed]
  have hsplit : queue.events drain.before = (front ++ [event]) ++ back := by simp [hbefore]
  rw [hevents, ← hfilter, drain.listed_split hbefore hstayed hback, arrived, hsplit]
  generalize front ++ [event] = upTo
  calc upTo.filter drain.removed ++ (upTo.filter (!drain.removed ·) ++ drain.appended) ++ back
      _ = (upTo.filter drain.removed ++ upTo.filter (!drain.removed ·)) ++
          (drain.appended ++ back) := by simp only [List.append_assoc]
      List.Perm _ (upTo ++ (back ++ drain.appended)) :=
        (List.filter_append_perm drain.removed upTo).append List.perm_append_comm
      _ = upTo ++ back ++ drain.appended := (List.append_assoc ..).symm

end FailedDrain

/-- A recovery achieves what it should exactly for the recoverable drains. -/
theorem recovered_iff : drain.Recovered ↔ drain.Recoverable := by
  constructor
  · intro h
    exact ⟨drain.fresh_of_recovered h, drain.late_of_recovered h⟩
  · intro h
    obtain ⟨herrors, ⟨hall, hevents⟩ | ⟨front, event, back, hbefore, hstayed, hback, hevents⟩⟩ :=
      drain.recovery_events h.fresh
    · refine ⟨herrors, ?_, ?_, ?_⟩
      · rw [hevents]
        exact List.Perm.refl _
      · rw [hevents, drain.listed]
        exact (List.filter_sublist).append_right _
      · rw [hevents]
        exact List.pairwise_iff_forall_sublist.mpr fun hxy _ => hxy
    · refine ⟨herrors, drain.restored_of_late hbefore hstayed hback hevents, ?_,
        drain.order_of_late hbefore hstayed hback hevents
          (h.late front event back hbefore hstayed hback)⟩
      rw [hevents]
      exact (List.sublist_append_right ..).trans (List.sublist_append_left ..)

end

/-- Of an event of another row and an event of the row of `waitingEvent`, the drain removes the
second; a further event of that row is appended before the recovery. -/
def overtakenDrain : FailedDrain hashedIdentity (MemoryOutbox.queueOrdered (D := Unit)) where
  before := {
    events := [{ waitingEvent with id := "other", model := "comment" },
      { waitingEvent with id := "older" }]
    sanitized := by
      intro event hevent
      rcases List.mem_cons.mp hevent with rfl | hevent
      · rfl
      cases List.mem_singleton.mp hevent
      rfl
    nodup := by decide }
  after := {
    events := [{ waitingEvent with id := "other", model := "comment" },
      { waitingEvent with id := "newer" }]
    sanitized := by
      intro event hevent
      rcases List.mem_cons.mp hevent with rfl | hevent
      · rfl
      cases List.mem_singleton.mp hevent
      rfl
    nodup := by decide }
  removed event := event.id == "older"
  appended := [{ waitingEvent with id := "newer" }]
  listed := rfl
  respects := by decide

/-- The recovery appends the older event behind the newer one. -/
theorem not_recovered_overtaken : ¬ overtakenDrain.Recovered := by
  intro h
  have horder := List.pairwise_iff_forall_sublist.mp h.order
    (show [_, { waitingEvent with id := "newer" }].Sublist
      [_, { waitingEvent with id := "older" }, { waitingEvent with id := "newer" }] from
      List.sublist_cons_self ..) rfl
  exact absurd horder (by decide)

end ActiveTs.Outbox
