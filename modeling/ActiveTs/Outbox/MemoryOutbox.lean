import ActiveTs.Lib.Except
import ActiveTs.Outbox.Order
import ActiveTs.Outbox.StoreAdapter
import Mathlib.Data.List.Nodup
import Mathlib.Data.List.Perm.Basic

/-! # The memory outbox

`MemoryOutboxAdapter` keeps its events in one list. A drain takes the events that can be delivered
and leaves the others in their order. An event that cannot be delivered yet blocks the later events
that conflict with it, but an event that is blocked blocks nothing itself. -/

namespace ActiveTs.Outbox

variable {D : Type}

structure MemoryOutbox (D : Type) where
  events : List (OutboxEvent D)
  /-- `sanitizeOutboxEvent` has accepted them. -/
  sanitized : ∀ event ∈ events, sanitizeOutboxEvent false event = .ok event
  /-- `assertAvailableIds` has refused duplicates. -/
  nodup : (events.map OutboxEvent.id).Nodup

inductive MemoryOutboxError
  | invalid (error : EventError)
  | conflict

namespace MemoryOutbox

/-- `sanitizeOutboxEvent` for each of the events. -/
def sanitizeAll : List (OutboxEvent D) → Except EventError (List (OutboxEvent D))
  | [] => .ok []
  | event :: rest =>
    match sanitizeOutboxEvent false event with
    | .error e => .error e
    | .ok event => (sanitizeAll rest).map (event :: ·)

theorem sanitizeOutboxEvent_self {requireModelId : Bool} {event event' : OutboxEvent D}
    (h : sanitizeOutboxEvent requireModelId event = .ok event') :
    sanitizeOutboxEvent requireModelId event' = .ok event' := by
  obtain ⟨rfl, -⟩ := sanitizeOutboxEvent_ok h
  exact h

theorem sanitizeAll_ok {events safe : List (OutboxEvent D)} (h : sanitizeAll events = .ok safe) :
    safe = events ∧ ∀ event ∈ events, sanitizeOutboxEvent false event = .ok event := by
  induction events generalizing safe with
  | nil =>
    cases h
    exact ⟨rfl, fun _ he => absurd he List.not_mem_nil⟩
  | cons event rest ih =>
    unfold sanitizeAll at h
    split at h
    · cases h
    · next event' hevent =>
      obtain ⟨safe', hrest, rfl⟩ := Except.map_eq_ok.mp h
      obtain ⟨rfl, hall⟩ := ih hrest
      obtain ⟨rfl, -⟩ := sanitizeOutboxEvent_ok hevent
      refine ⟨rfl, fun e he => ?_⟩
      rcases List.mem_cons.mp he with rfl | he
      · exact hevent
      · exact hall e he

/-- `append`: the event is added at the end. -/
def append (outbox : MemoryOutbox D) (event : OutboxEvent D) :
    Except MemoryOutboxError (MemoryOutbox D) :=
  match h : sanitizeOutboxEvent false event with
  | .error e => .error (.invalid e)
  | .ok normalized =>
    if hid : normalized.id ∈ outbox.events.map OutboxEvent.id then .error .conflict
    else .ok {
      events := outbox.events ++ [normalized]
      sanitized := by
        intro e he
        rcases List.mem_append.mp he with he | he
        · exact outbox.sanitized e he
        · cases List.mem_singleton.mp he
          exact sanitizeOutboxEvent_self h
      nodup := by
        rw [List.map_append, List.nodup_append]
        refine ⟨outbox.nodup, List.nodup_singleton _, fun a ha b hb => ?_⟩
        rintro rfl
        exact hid (List.mem_singleton.mp hb ▸ ha) }

/-- `requeue`: the events are added at the front. -/
def requeue (outbox : MemoryOutbox D) (events : List (OutboxEvent D)) :
    Except MemoryOutboxError (MemoryOutbox D) :=
  match h : sanitizeAll events with
  | .error e => .error (.invalid e)
  | .ok normalized =>
    if hid : ((normalized ++ outbox.events).map OutboxEvent.id).Nodup then .ok {
      events := normalized ++ outbox.events
      sanitized := by
        intro e he
        rcases List.mem_append.mp he with he | he
        · obtain ⟨rfl, hall⟩ := sanitizeAll_ok h
          exact hall e he
        · exact outbox.sanitized e he
      nodup := hid }
    else .error .conflict

end MemoryOutbox

/-! ## Draining -/

section
-- `datastoreSearchDocumentIdentity`.
variable (documentIdentity : String → Option String → EntityId → Option DatastoreKey → String)

/-- The locals of `drain`. -/
structure Drain (D : Type) where
  drained : List (OutboxEvent D)
  retained : List (OutboxEvent D)
  blockedEntityKeys : List String

/-- One round of the loop. -/
def Drain.visit (limit : Option Nat) (now : Nat) (s : Drain D) (event : OutboxEvent D) :
    Drain D :=
  if event.deadLetteredAt.isSome then { s with retained := s.retained ++ [event] }
  else if limit.any (· ≤ s.drained.length) ||
      outboxEntityOrderKeysBlocked s.blockedEntityKeys
        (outboxEntityOrderCheckKeys documentIdentity event) then
    { s with retained := s.retained ++ [event] }
  else if !isOutboxDeliveryAvailable event now then
    { s with
      blockedEntityKeys := s.blockedEntityKeys ++ outboxEntityOrderBlockKeys documentIdentity event
      retained := s.retained ++ [event] }
  else { s with drained := s.drained ++ [event] }

def drainEvents (limit : Option Nat) (now : Nat) (events : List (OutboxEvent D)) : Drain D :=
  events.foldl (Drain.visit documentIdentity limit now) ⟨[], [], []⟩

/-! ## What holds of every drain -/

variable {documentIdentity} {limit : Option Nat} {now : Nat}

theorem drainEvents_concat (events : List (OutboxEvent D)) (event : OutboxEvent D) :
    drainEvents documentIdentity limit now (events ++ [event]) =
      (drainEvents documentIdentity limit now events).visit documentIdentity limit now event := by
  simp [drainEvents]

/-- A round puts the event at the end of one of the two lists. -/
theorem Drain.visit_cases (s : Drain D) (event : OutboxEvent D) :
    ((s.visit documentIdentity limit now event).drained = s.drained ∧
      (s.visit documentIdentity limit now event).retained = s.retained ++ [event]) ∨
    ((s.visit documentIdentity limit now event).drained = s.drained ++ [event] ∧
      (s.visit documentIdentity limit now event).retained = s.retained ∧
      limit.any (· ≤ s.drained.length) = false) := by
  unfold Drain.visit
  split
  · exact .inl ⟨rfl, rfl⟩
  · split
    · exact .inl ⟨rfl, rfl⟩
    · next h =>
      split
      · exact .inl ⟨rfl, rfl⟩
      · rw [Bool.or_eq_true, not_or, Bool.not_eq_true] at h
        exact .inr ⟨rfl, rfl, h.1⟩

theorem drainEvents_sublist (events : List (OutboxEvent D)) :
    (drainEvents documentIdentity limit now events).drained.Sublist events ∧
      (drainEvents documentIdentity limit now events).retained.Sublist events ∧
      ((drainEvents documentIdentity limit now events).drained ++
        (drainEvents documentIdentity limit now events).retained).Perm events := by
  induction events using List.reverseRecOn with
  | nil => exact ⟨.slnil, .slnil, .nil⟩
  | append_singleton events event ih =>
    obtain ⟨hdrained, hretained, hperm⟩ := ih
    rw [drainEvents_concat]
    rcases @Drain.visit_cases _ documentIdentity limit now
      (drainEvents documentIdentity limit now events) event with ⟨h, h'⟩ | ⟨h, h', -⟩
    · rw [h, h']
      refine ⟨hdrained.trans (List.sublist_append_left ..), hretained.append_right _, ?_⟩
      rw [← List.append_assoc]
      exact hperm.append_right _
    · rw [h, h']
      refine ⟨hdrained.append_right _, hretained.trans (List.sublist_append_left ..), ?_⟩
      rw [List.append_assoc]
      refine (List.perm_append_comm.append_left _).trans ?_
      rw [← List.append_assoc]
      exact hperm.append_right _

theorem length_drainEvents_le (events : List (OutboxEvent D)) (n : Nat) :
    (drainEvents documentIdentity (some n) now events).drained.length ≤ n := by
  induction events using List.reverseRecOn with
  | nil => exact Nat.zero_le n
  | append_singleton events event ih =>
    rw [drainEvents_concat]
    rcases @Drain.visit_cases _ documentIdentity (some n) now
      (drainEvents documentIdentity (some n) now events) event with ⟨h, -⟩ | ⟨h, -, hlt⟩
    · rw [h]
      exact ih
    · have hlt : ¬ n ≤ (drainEvents documentIdentity (some n) now events).drained.length :=
        of_decide_eq_false hlt
      rw [h, List.length_append, List.length_singleton]
      omega

/-! ## Which events are drained -/

variable (documentIdentity now)

/-- The later event has to wait for the earlier one. -/
def Conflicts (earlier later : OutboxEvent D) : Bool :=
  outboxEntityOrderKeysBlocked (outboxEntityOrderBlockKeys documentIdentity earlier)
    (outboxEntityOrderCheckKeys documentIdentity later)

/-- The events that block others: not dead letters, not available, and themselves not behind an
event that blocks. -/
def blockers (events : List (OutboxEvent D)) : List (OutboxEvent D) :=
  events.foldl (fun blocking event =>
    if event.deadLetteredAt.isNone && !blocking.any (Conflicts documentIdentity · event) &&
        !isOutboxDeliveryAvailable event now then
      blocking ++ [event]
    else blocking) []

/-- The event is behind one that blocks. -/
def Behind (before : List (OutboxEvent D)) (event : OutboxEvent D) : Bool :=
  (blockers documentIdentity now before).any (Conflicts documentIdentity · event)

/-- The event can be delivered, were it not for the limit. -/
def Deliverable (before : List (OutboxEvent D)) (event : OutboxEvent D) : Bool :=
  event.deadLetteredAt.isNone && isOutboxDeliveryAvailable event now &&
    !Behind documentIdentity now before event

/-- The events that can be delivered, after those before them. -/
def deliverables (before : List (OutboxEvent D)) : List (OutboxEvent D) → List (OutboxEvent D)
  | [] => []
  | event :: rest =>
    if Deliverable documentIdentity now before event then
      event :: deliverables (before ++ [event]) rest
    else deliverables (before ++ [event]) rest

variable {documentIdentity now}

theorem deliverables_append (before events rest : List (OutboxEvent D)) :
    deliverables documentIdentity now before (events ++ rest) =
      deliverables documentIdentity now before events ++
        deliverables documentIdentity now (before ++ events) rest := by
  induction events generalizing before with
  | nil => simp [deliverables]
  | cons event events ih =>
    simp only [List.cons_append, deliverables]
    split
    · rw [ih, List.append_assoc, List.cons_append]
      rfl
    · rw [ih, List.append_assoc]
      rfl

theorem blockers_concat (events : List (OutboxEvent D)) (event : OutboxEvent D) :
    blockers documentIdentity now (events ++ [event]) =
      if event.deadLetteredAt.isNone && !Behind documentIdentity now events event &&
          !isOutboxDeliveryAvailable event now then
        blockers documentIdentity now events ++ [event]
      else blockers documentIdentity now events := by
  simp [blockers, Behind]

theorem blockers_append_subset (events rest : List (OutboxEvent D)) :
    blockers documentIdentity now events ⊆ blockers documentIdentity now (events ++ rest) := by
  induction rest using List.reverseRecOn with
  | nil =>
    rw [List.append_nil]
    exact List.Subset.refl _
  | append_singleton rest event ih =>
    rw [← List.append_assoc, blockers_concat]
    split
    · exact List.subset_append_of_subset_left _ ih
    · exact ih

theorem keysBlocked_flatMap (blocking : List (OutboxEvent D)) (event : OutboxEvent D) :
    outboxEntityOrderKeysBlocked (blocking.flatMap (outboxEntityOrderBlockKeys documentIdentity))
        (outboxEntityOrderCheckKeys documentIdentity event) =
      blocking.any (Conflicts documentIdentity · event) := by
  rw [Bool.eq_iff_iff, outboxEntityOrderKeysBlocked_iff, List.any_eq_true]
  constructor
  · rintro ⟨key, hkey, hmem⟩
    obtain ⟨other, hother, hmem⟩ := List.mem_flatMap.mp hmem
    exact ⟨other, hother, outboxEntityOrderKeysBlocked_iff.mpr ⟨key, hkey, hmem⟩⟩
  · rintro ⟨other, hother, hconflict⟩
    obtain ⟨key, hkey, hmem⟩ := outboxEntityOrderKeysBlocked_iff.mp hconflict
    exact ⟨key, hkey, List.mem_flatMap.mpr ⟨other, hother, hmem⟩⟩

theorem deliverables_single (before : List (OutboxEvent D)) (event : OutboxEvent D) :
    deliverables documentIdentity now before [event] =
      if Deliverable documentIdentity now before event then [event] else [] := by
  simp [deliverables]

/-- A round before the limit is reached. -/
theorem Drain.visit_open (s : Drain D) (before : List (OutboxEvent D)) (event : OutboxEvent D)
    (hopen : limit.any (· ≤ s.drained.length) = false)
    (hblocked : s.blockedEntityKeys = (blockers documentIdentity now before).flatMap
      (outboxEntityOrderBlockKeys documentIdentity)) :
    (s.visit documentIdentity limit now event).drained =
        s.drained ++ deliverables documentIdentity now before [event] ∧
      (s.visit documentIdentity limit now event).blockedEntityKeys =
        (blockers documentIdentity now (before ++ [event])).flatMap
          (outboxEntityOrderBlockKeys documentIdentity) := by
  have hbehind : outboxEntityOrderKeysBlocked s.blockedEntityKeys
      (outboxEntityOrderCheckKeys documentIdentity event) =
        Behind documentIdentity now before event := by
    rw [hblocked, keysBlocked_flatMap]
    rfl
  rw [deliverables_single, blockers_concat, Drain.visit, hopen, hbehind, Bool.false_or]
  cases hdead : event.deadLetteredAt with
  | some at_ => simp [Deliverable, hdead, hblocked]
  | none =>
    cases hb : Behind documentIdentity now before event with
    | true => simp [Deliverable, hdead, hb, hblocked]
    | false =>
      cases ha : isOutboxDeliveryAvailable event now with
      | true => simp [Deliverable, hdead, hb, ha, hblocked]
      | false => simp [Deliverable, hdead, hb, ha, hblocked]

/-- A round after the limit is reached. -/
theorem Drain.visit_full (s : Drain D) (event : OutboxEvent D)
    (hfull : limit.any (· ≤ s.drained.length) = true) :
    (s.visit documentIdentity limit now event).drained = s.drained := by
  unfold Drain.visit
  split
  · rfl
  · rw [hfull, Bool.true_or, if_pos rfl]

/-- A drain takes the events that can be delivered, up to the limit. Until the limit is reached, its
keys are those of the events that block. -/
theorem drainEvents_spec (events : List (OutboxEvent D)) :
    (drainEvents documentIdentity limit now events).drained =
        limit.elim (deliverables documentIdentity now [] events)
          (deliverables documentIdentity now [] events).take ∧
      (limit.all ((deliverables documentIdentity now [] events).length < ·) = true →
        (drainEvents documentIdentity limit now events).blockedEntityKeys =
          (blockers documentIdentity now events).flatMap
            (outboxEntityOrderBlockKeys documentIdentity)) := by
  induction events using List.reverseRecOn with
  | nil =>
    refine ⟨?_, fun _ => rfl⟩
    cases limit with
    | none => rfl
    | some n => exact (List.take_nil).symm
  | append_singleton events event ih =>
    obtain ⟨hdrained, hblocked⟩ := ih
    rw [drainEvents_concat, deliverables_append, List.nil_append]
    generalize hL : deliverables documentIdentity now [] events = L at *
    generalize hs : drainEvents documentIdentity limit now events = s at *
    cases limit with
    | none =>
      obtain ⟨h, h'⟩ := @Drain.visit_open _ documentIdentity none now s events event rfl (hblocked rfl)
      exact ⟨h.trans (congrArg (· ++ _) hdrained), fun _ => h'⟩
    | some n =>
      have hdrained : s.drained = L.take n := hdrained
      rcases Nat.lt_or_ge L.length n with hlt | hge
      · have hopen : (some n).any (· ≤ s.drained.length) = false := by
          rw [hdrained, List.take_of_length_le (Nat.le_of_lt hlt)]
          exact decide_eq_false (Nat.not_le_of_gt hlt)
        obtain ⟨h, h'⟩ := s.visit_open events event hopen (hblocked (decide_eq_true hlt))
        refine ⟨?_, fun _ => h'⟩
        rw [h, hdrained, List.take_of_length_le (Nat.le_of_lt hlt)]
        refine (List.take_of_length_le ?_).symm
        rw [deliverables_single, List.length_append]
        split <;> simp <;> omega
      · have hfull : (some n).any (· ≤ s.drained.length) = true := by
          rw [hdrained]
          exact decide_eq_true (by rw [List.length_take, Nat.min_eq_left hge])
        refine ⟨?_, fun hall => ?_⟩
        · rw [s.visit_full event hfull, hdrained]
          exact (List.take_append_of_le_length hge).symm
        · have hlt := of_decide_eq_true hall
          rw [List.length_append] at hlt
          omega

theorem deliverables_sublist (before events : List (OutboxEvent D)) :
    (deliverables documentIdentity now before events).Sublist events := by
  induction events generalizing before with
  | nil => exact .slnil
  | cons event rest ih =>
    unfold deliverables
    split
    · exact (ih _).cons_cons event
    · exact (ih _).cons event

/-- The event after `before` is drained if it can be delivered and the limit is not reached. -/
theorem mem_drained_iff {before rest : List (OutboxEvent D)} {event : OutboxEvent D}
    (hnodup : (before ++ event :: rest).Nodup) :
    event ∈ (drainEvents documentIdentity limit now (before ++ event :: rest)).drained ↔
      Deliverable documentIdentity now before event = true ∧
        limit.all ((deliverables documentIdentity now [] before).length < ·) = true := by
  obtain ⟨-, hnodup, hdisjoint⟩ := List.nodup_append.mp hnodup
  have hrest : event ∉ rest := (List.nodup_cons.mp hnodup).1
  have hA : event ∉ deliverables documentIdentity now [] before := fun hmem =>
    hdisjoint _ ((deliverables_sublist [] before).subset hmem) _ List.mem_cons_self rfl
  have hB : event ∉ deliverables documentIdentity now (before ++ [event]) rest := fun hmem =>
    hrest ((deliverables_sublist _ rest).subset hmem)
  rw [(drainEvents_spec _).1, deliverables_append, List.nil_append, deliverables]
  generalize deliverables documentIdentity now [] before = A at *
  generalize deliverables documentIdentity now (before ++ [event]) rest = B at *
  by_cases hd : Deliverable documentIdentity now before event = true
  · rw [if_pos hd]
    cases limit with
    | none => simp [hd]
    | some n =>
      have htake : event ∈ (A ++ event :: B).take n ↔ A.length < n := by
        constructor
        · intro hmem
          by_contra hge
          rw [List.take_append_of_le_length (Nat.le_of_not_lt hge)] at hmem
          exact hA (List.mem_of_mem_take hmem)
        · intro hlt
          rw [List.take_append, List.take_cons (by omega)]
          simp
      simpa [hd] using htake
  · rw [if_neg hd]
    have hnot : event ∉ A ++ B := fun hmem => (List.mem_append.mp hmem).elim hA hB
    cases limit with
    | none => simpa [hd] using hnot
    | some n =>
      refine ⟨fun hmem => ?_, fun h => absurd h.1 hd⟩
      exact absurd (List.mem_of_mem_take hmem) hnot

theorem not_drained_of_retained {events : List (OutboxEvent D)} (hnodup : events.Nodup)
    {event : OutboxEvent D}
    (h : event ∈ (drainEvents documentIdentity limit now events).retained) :
    event ∉ (drainEvents documentIdentity limit now events).drained := by
  intro h'
  have hperm := (@drainEvents_sublist _ documentIdentity limit now events).2.2
  exact (List.nodup_append.mp (hperm.nodup_iff.mpr hnodup)).2.2 event h' event h rfl

theorem mem_retained_of_not_drained {events : List (OutboxEvent D)} {event : OutboxEvent D}
    (hevent : event ∈ events)
    (h : event ∉ (drainEvents documentIdentity limit now events).drained) :
    event ∈ (drainEvents documentIdentity limit now events).retained := by
  have hperm := (@drainEvents_sublist _ documentIdentity limit now events).2.2
  exact (List.mem_append.mp (hperm.mem_iff.mpr hevent)).resolve_left h

/-! ## Order -/

variable (documentIdentity now)

/-- What a drain of the memory outbox keeps. -/
structure DrainKept (limit : Option Nat) (events drained retained : List (OutboxEvent D)) :
    Prop where
  drained_sublist : drained.Sublist events
  retained_sublist : retained.Sublist events
  perm : (drained ++ retained).Perm events
  length_le : ∀ n, limit = some n → drained.length ≤ n
  /-- What waits for an event that stays is not drained. -/
  order : ∀ before event between later rest,
    events = before ++ event :: (between ++ later :: rest) → event ∈ retained →
      event.deadLetteredAt = none → later ∈ drained →
        Conflicts documentIdentity event later = false

/-- Every event that could be delivered but for an event which is itself behind another is behind
one that blocks, too. -/
def DrainChained (limit : Option Nat) (events : List (OutboxEvent D)) : Prop :=
  ∀ before event between later rest, events = before ++ event :: (between ++ later :: rest) →
    event.deadLetteredAt = none → Behind documentIdentity now before event = true →
    later.deadLetteredAt = none → isOutboxDeliveryAvailable later now = true →
    limit.all ((deliverables documentIdentity now [] (before ++ event :: between)).length < ·) =
      true →
    Conflicts documentIdentity event later = true →
      Behind documentIdentity now (before ++ event :: between) later = true

variable {documentIdentity now}

theorem order_of_chained {events : List (OutboxEvent D)} (hnodup : events.Nodup)
    (h : DrainChained documentIdentity now limit events)
    {before between rest : List (OutboxEvent D)} {event later : OutboxEvent D}
    (hevents : events = before ++ event :: (between ++ later :: rest))
    (hretained : event ∈ (drainEvents documentIdentity limit now events).retained)
    (halive : event.deadLetteredAt = none)
    (hdrained : later ∈ (drainEvents documentIdentity limit now events).drained) :
    Conflicts documentIdentity event later = false := by
  by_contra hconflict
  rw [Bool.not_eq_false] at hconflict
  have hsplit : events = (before ++ event :: between) ++ later :: rest := by simp [hevents]
  have hlater : Deliverable documentIdentity now (before ++ event :: between) later = true ∧
      limit.all ((deliverables documentIdentity now [] (before ++ event :: between)).length < ·) =
        true := by
    rw [hsplit] at hdrained hnodup
    exact (mem_drained_iff hnodup).mp hdrained
  obtain ⟨hdeliverable, hlimit⟩ := hlater
  simp only [Deliverable, Bool.and_eq_true, Option.isNone_iff_eq_none, Bool.not_eq_true']
    at hdeliverable
  obtain ⟨⟨hlaterAlive, havailable⟩, hfree⟩ := hdeliverable
  cases hbehind : Behind documentIdentity now before event with
  | true =>
    rw [h before event between later rest hevents halive hbehind hlaterAlive havailable hlimit
      hconflict] at hfree
    cases hfree
  | false =>
    -- The event stays because it is not available, so it blocks the later one.
    have hstays : isOutboxDeliveryAvailable event now = false := by
      by_contra havail
      rw [Bool.not_eq_false] at havail
      have hevent : Deliverable documentIdentity now before event = true := by
        simp [Deliverable, halive, havail, hbehind]
      have hopen : limit.all ((deliverables documentIdentity now [] before).length < ·) = true := by
        rw [deliverables_append, List.length_append] at hlimit
        cases limit with
        | none => rfl
        | some n => exact decide_eq_true (Nat.lt_of_le_of_lt (Nat.le_add_right ..)
            (of_decide_eq_true hlimit))
      rw [hevents] at hretained hnodup
      exact not_drained_of_retained hnodup hretained ((mem_drained_iff hnodup).mpr ⟨hevent, hopen⟩)
    have hblocks : event ∈ blockers documentIdentity now (before ++ event :: between) := by
      have hself : event ∈ blockers documentIdentity now (before ++ [event]) := by
        simp [blockers_concat, halive, hbehind, hstays]
      have hsubset := @blockers_append_subset _ documentIdentity now (before ++ [event]) between
      rw [List.append_assoc] at hsubset
      exact hsubset hself
    have : Behind documentIdentity now (before ++ event :: between) later = true :=
      List.any_eq_true.mpr ⟨event, hblocks, hconflict⟩
    rw [this] at hfree
    cases hfree

theorem chained_of_order {events : List (OutboxEvent D)} (hnodup : events.Nodup)
    (h : ∀ before event between later rest,
      events = before ++ event :: (between ++ later :: rest) →
        event ∈ (drainEvents documentIdentity limit now events).retained →
          event.deadLetteredAt = none →
            later ∈ (drainEvents documentIdentity limit now events).drained →
              Conflicts documentIdentity event later = false) :
    DrainChained documentIdentity now limit events := by
  intro before event between later rest hevents halive hbehind hlaterAlive havailable hlimit
    hconflict
  by_contra hfree
  rw [Bool.not_eq_true] at hfree
  have hsplit : events = (before ++ event :: between) ++ later :: rest := by simp [hevents]
  have hdrained : later ∈ (drainEvents documentIdentity limit now events).drained := by
    rw [hsplit] at hnodup ⊢
    refine (mem_drained_iff hnodup).mpr ⟨?_, hlimit⟩
    simp [Deliverable, hlaterAlive, havailable, hfree]
  have hretained : event ∈ (drainEvents documentIdentity limit now events).retained := by
    rw [hevents] at hnodup ⊢
    refine mem_retained_of_not_drained (by simp) fun hmem => ?_
    have hdeliverable := ((mem_drained_iff hnodup).mp hmem).1
    simp [Deliverable, hbehind] at hdeliverable
  rw [h before event between later rest hevents hretained halive hdrained] at hconflict
  cases hconflict

variable (documentIdentity)

/-- `drain`: the events that are delivered, and the outbox that is left. -/
def MemoryOutbox.drain (outbox : MemoryOutbox D) (limit : Option Nat) (now : Nat) :
    List (OutboxEvent D) × MemoryOutbox D :=
  ((drainEvents documentIdentity limit now outbox.events).drained, {
    events := (drainEvents documentIdentity limit now outbox.events).retained
    sanitized := fun event hevent =>
      outbox.sanitized event ((drainEvents_sublist outbox.events).2.1.subset hevent)
    nodup := ((drainEvents_sublist outbox.events).2.1.map OutboxEvent.id).nodup outbox.nodup })

end

/-! Three events of one Datastore row: the first is not available and names it by a document
identity, the second by an ancestor key without namespace, the third by another document identity. -/

def waitingEvent : OutboxEvent Unit where
  id := "a"
  model := "post"
  modelId := some (.number 1)
  modelIdentity := some "datastore:n1"
  modelDatastoreAncestor := none
  modelDatastoreScope := none
  operation := .delete
  data := none
  reconcileFromStore := false
  createdAt := 0
  sequence := none
  version := some 0
  leaseToken := none
  leaseExpiresAt := none
  deliveryAttempts := some 1
  availableAt := some 10
  deadLetteredAt := none
  lastDeliveryError := none

def blockedEvent : OutboxEvent Unit :=
  { waitingEvent with
    id := "b", modelIdentity := none, operation := .update, deliveryAttempts := none
    availableAt := none, modelDatastoreAncestor := some ⟨none, [("user", .number 7)]⟩ }

def overtakingEvent : OutboxEvent Unit :=
  { waitingEvent with
    id := "c", modelIdentity := some "datastore:n2", deliveryAttempts := none, availableAt := none }

def aliasedQueue : MemoryOutbox Unit where
  events := [waitingEvent, blockedEvent, overtakingEvent]
  sanitized := by
    intro event hevent
    rcases List.mem_cons.mp hevent with rfl | hevent
    · rfl
    rcases List.mem_cons.mp hevent with rfl | hevent
    · rfl
    cases List.mem_singleton.mp hevent
    rfl
  nodup := by decide

end ActiveTs.Outbox
