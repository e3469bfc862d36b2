import ActiveTs.Outbox.Calls

/-! # Acknowledging a batch

`ack` deletes the rows of a batch. In one transaction, or where it puts back what it has deleted, it
deletes all of them or none, as far as no other party changes a row in between. Where every event has
a transaction of its own, the events before the first that is not acknowledged stay deleted. -/

namespace ActiveTs.Outbox

open Prog

variable {T D : Type} {t : T}

/-- What happens between two steps of the call: others change rows, and their changes are logged. -/
def Others (t : T) (s s' : World T D) : Prop :=
  ∃ changes, s'.log = s.log ++ changes ∧ (∀ e ∈ changes, e.1 ≠ t) ∧
    ∀ id, (∀ e ∈ changes, e.2.id ≠ id) → s'.events id = s.events id

/-- The changes since the call has begun. -/
def during (start s : World T D) : List (T × Change D) := s.log.drop start.log.length

def ChangedByOther (t : T) (start : World T D) (id : String) (s : World T D) : Prop :=
  ∃ e ∈ during start s, e.1 ≠ t ∧ e.2.id = id

/-- The call has deleted the row, whatever happened to it later. -/
def DeletedBy (t : T) (start : World T D) (id : String) (s : World T D) : Prop :=
  ∃ e ∈ during start s, e.1 = t ∧ e.2.id = id ∧ e.2.after = none

/-- What the row is, unless another party has changed it during the call. -/
def Row (t : T) (start : World T D) (id : String) (is : Option (OutboxEvent D) → Prop)
    (s : World T D) : Prop :=
  ChangedByOther t start id s ∨ is (s.events id)

/-! ## Changes during the call -/

section
variable {start s s' : World T D} {id : String} {is : Option (OutboxEvent D) → Prop}

theorem during_append {changes : List (T × Change D)}
    (hstart : start.log.length ≤ s.log.length) (hlog : s'.log = s.log ++ changes) :
    during start s' = during start s ++ changes := by
  rw [during, hlog, List.drop_append_of_le_length hstart]
  rfl

theorem Others.le (h : Others t s s') (hstart : start.log.length ≤ s.log.length) :
    start.log.length ≤ s'.log.length := by
  obtain ⟨changes, hlog, -, -⟩ := h
  rw [hlog, List.length_append]
  omega

theorem ChangedByOther.others (h : ChangedByOther t start id s)
    (hstart : start.log.length ≤ s.log.length) (hothers : Others t s s') :
    ChangedByOther t start id s' := by
  obtain ⟨e, he, hother⟩ := h
  obtain ⟨changes, hlog, -, -⟩ := hothers
  refine ⟨e, ?_, hother⟩
  rw [during_append hstart hlog]
  exact List.mem_append_left _ he

theorem Row.others (h : Row t start id is s) (hstart : start.log.length ≤ s.log.length)
    (hothers : Others t s s') : Row t start id is s' := by
  rcases h with h | h
  · exact .inl (h.others hstart hothers)
  obtain ⟨changes, hlog, hother, hsame⟩ := hothers
  by_cases hid : ∀ e ∈ changes, e.2.id ≠ id
  · rw [← hsame id hid] at h
    exact .inr h
  · simp only [not_forall, not_not] at hid
    obtain ⟨e, he, hid⟩ := hid
    refine .inl ⟨e, ?_, hother e he, hid⟩
    rw [during_append hstart hlog]
    exact List.mem_append_right _ he

theorem DeletedBy.of_others (h : DeletedBy t start id s')
    (hstart : start.log.length ≤ s.log.length) (hothers : Others t s s') :
    DeletedBy t start id s := by
  obtain ⟨e, he, hown, hdeleted⟩ := h
  obtain ⟨changes, hlog, hother, -⟩ := hothers
  rw [during_append hstart hlog] at he
  rcases List.mem_append.mp he with he | he
  · exact ⟨e, he, hown, hdeleted⟩
  · exact absurd hown (hother e he)

theorem log_setEvent (s : World T D) (id : String) (after : Option (OutboxEvent D)) :
    (s.setEvent t id after).log = s.log ++ [(t, ⟨id, s.events id, after⟩)] := rfl

theorem events_setEvent (s : World T D) (id : String) (after : Option (OutboxEvent D)) :
    (s.setEvent t id after).events = Function.update s.events id after := rfl

theorem ChangedByOther.setEvent {id' : String} {after : Option (OutboxEvent D)}
    (h : ChangedByOther t start id s) (hstart : start.log.length ≤ s.log.length) :
    ChangedByOther t start id (s.setEvent t id' after) := by
  obtain ⟨e, he, hother⟩ := h
  refine ⟨e, ?_, hother⟩
  rw [during_append hstart (log_setEvent s id' after)]
  exact List.mem_append_left _ he

/-- A change of the call to a row. -/
theorem Row.setEvent {id' : String} {after : Option (OutboxEvent D)} (h : Row t start id is s)
    (hstart : start.log.length ≤ s.log.length) (hafter : id = id' → is after) :
    Row t start id is (s.setEvent t id' after) := by
  rcases h with h | h
  · exact .inl (h.setEvent hstart)
  right
  by_cases hid : id = id'
  · subst hid
    rw [events_setEvent, Function.update_self]
    exact hafter rfl
  · rw [events_setEvent, Function.update_of_ne hid]
    exact h

theorem row_setEvent {after : Option (OutboxEvent D)} (h : is after) :
    Row t start id is (s.setEvent t id after) := by
  right
  rw [events_setEvent, Function.update_self]
  exact h

theorem DeletedBy.of_setEvent {id' : String} {after : Option (OutboxEvent D)}
    (h : DeletedBy t start id (s.setEvent t id' after))
    (hstart : start.log.length ≤ s.log.length) :
    DeletedBy t start id s ∨ id = id' ∧ after = none := by
  obtain ⟨e, he, hown, hid, hdeleted⟩ := h
  rw [during_append hstart (log_setEvent s id' after)] at he
  rcases List.mem_append.mp he with he | he
  · exact .inl ⟨e, he, hown, hid, hdeleted⟩
  · rw [List.mem_singleton.mp he] at hid hdeleted
    exact .inr ⟨hid.symm, hdeleted⟩

theorem Row.mono {is' : Option (OutboxEvent D) → Prop} (h : Row t start id is s)
    (his : ∀ row, is row → is' row) : Row t start id is' s :=
  h.imp_right (his _)

/-! ## Assertions -/

/-- The rows that the call has deleted are those of `deleted`. -/
structure Bound (t : T) (start : World T D) (deleted : List (OutboxEvent D)) (s : World T D) :
    Prop where
  le : start.log.length ≤ s.log.length
  deleted : ∀ id, DeletedBy t start id s → ∃ event ∈ deleted, event.id = id

def Gone (t : T) (start : World T D) (deleted : List (OutboxEvent D)) (s : World T D) : Prop :=
  ∀ event ∈ deleted, Row t start event.id (· = none) s

/-- The batch is the rows, as far as the call and nobody else has changed them. -/
structure Known (t : T) (start : World T D) (batch : List (OutboxEvent D)) (s : World T D) :
    Prop where
  row : ∀ event ∈ batch, Row t start event.id (fun row => row = none ∨ row = some event) s
  same : ∀ a ∈ batch, ∀ b ∈ batch, a.id = b.id → a = b ∨ ChangedByOther t start a.id s

/-- The rows of these events are back. -/
def Back (t : T) (start : World T D) (batch reinserted : List (OutboxEvent D)) (s : World T D) :
    Prop :=
  ∀ event ∈ batch, (∃ other ∈ reinserted, other.id = event.id) →
    Row t start event.id (· = some event) s

/-- Every row of the batch that the call has deleted is back. -/
def Restored (t : T) (start : World T D) (batch : List (OutboxEvent D)) (s : World T D) : Prop :=
  ∀ event ∈ batch, DeletedBy t start event.id s → Row t start event.id (· = some event) s

variable {start s s' : World T D} {batch deleted reinserted : List (OutboxEvent D)}

theorem Others.advance (s : World T D) (n : Nat) : Others t s (s.advance n) :=
  ⟨[], (List.append_nil _).symm, fun _ h => absurd h List.not_mem_nil, fun _ _ => rfl⟩

theorem survives_bound : Survives (Others t) (Bound t start deleted) := fun _ _ h hothers =>
  ⟨hothers.le h.le, fun id hdeleted => h.deleted id (hdeleted.of_others h.le hothers)⟩

/-- The rows of these events, and no others, are deleted. -/
abbrev Progress (t : T) (start : World T D) (done : List (OutboxEvent D)) (s : World T D) : Prop :=
  Bound t start done s ∧ Gone t start done s

theorem survives_progress : Survives (Others t) (Progress t start deleted) :=
  fun s s' h hothers => ⟨survives_bound s s' h.1 hothers, fun event hevent =>
    (h.2 event hevent).others h.1.le hothers⟩

theorem Known.others (h : Known t start batch s) (hstart : start.log.length ≤ s.log.length)
    (hothers : Others t s s') : Known t start batch s' where
  row event hevent := (h.row event hevent).others hstart hothers
  same a ha b hb hid := (h.same a ha b hb hid).imp_right (·.others hstart hothers)

theorem le_setEvent {id : String} {after : Option (OutboxEvent D)}
    (h : start.log.length ≤ s.log.length) :
    start.log.length ≤ (s.setEvent t id after).log.length := by
  rw [log_setEvent, List.length_append]
  omega

theorem Bound.mono {deleted' : List (OutboxEvent D)} (h : Bound t start deleted s)
    (hsub : deleted ⊆ deleted') : Bound t start deleted' s where
  le := h.le
  deleted id hdeleted := by
    obtain ⟨event, hevent, hid⟩ := h.deleted id hdeleted
    exact ⟨event, hsub hevent, hid⟩

/-- A deletion. -/
theorem Bound.delete {event : OutboxEvent D} (h : Bound t start deleted s) :
    Bound t start (deleted ++ [event]) (s.setEvent t event.id none) where
  le := le_setEvent h.le
  deleted id hdeleted := by
    rcases hdeleted.of_setEvent h.le with hdeleted | ⟨rfl, -⟩
    · obtain ⟨event', hevent', hid⟩ := h.deleted id hdeleted
      exact ⟨event', List.mem_append_left _ hevent', hid⟩
    · exact ⟨event, List.mem_append_right _ (List.mem_singleton_self _), rfl⟩

theorem Known.delete {id : String} (h : Known t start batch s)
    (hstart : start.log.length ≤ s.log.length) : Known t start batch (s.setEvent t id none) where
  row event hevent := (h.row event hevent).setEvent hstart fun _ => .inl rfl
  same a ha b hb hid := (h.same a ha b hb hid).imp_right (·.setEvent hstart)

theorem Gone.delete {event : OutboxEvent D} (h : Gone t start deleted s)
    (hstart : start.log.length ≤ s.log.length) :
    Gone t start (deleted ++ [event]) (s.setEvent t event.id none) := by
  intro event' hevent'
  rcases List.mem_append.mp hevent' with hevent' | hevent'
  · exact (h event' hevent').setEvent hstart fun _ => rfl
  · rw [List.mem_singleton.mp hevent']
    exact row_setEvent rfl

/-- A row of the batch is put back. -/
theorem Bound.insert {event : OutboxEvent D} (h : Bound t start deleted s) :
    Bound t start deleted (s.setEvent t event.id (some event)) where
  le := le_setEvent h.le
  deleted id hdeleted := by
    rcases hdeleted.of_setEvent h.le with hdeleted | ⟨-, hnone⟩
    · exact h.deleted id hdeleted
    · cases hnone

theorem Known.insert {event : OutboxEvent D} (h : Known t start batch s)
    (hstart : start.log.length ≤ s.log.length) (hevent : event ∈ batch) :
    Known t start batch (s.setEvent t event.id (some event)) where
  row other hother := by
    by_cases hid : other.id = event.id
    · rcases h.same other hother event hevent hid with rfl | hchanged
      · exact row_setEvent (.inr rfl)
      · exact .inl (hchanged.setEvent hstart)
    · exact (h.row other hother).setEvent hstart fun h => absurd h hid
  same a ha b hb hid := (h.same a ha b hb hid).imp_right (·.setEvent hstart)

/-- What is back stays when a row is put back that is missing. -/
theorem Back.insert {event : OutboxEvent D} (h : Back t start batch reinserted s)
    (hknown : Known t start batch s) (hstart : start.log.length ≤ s.log.length)
    (hevent : event ∈ batch) :
    Back t start batch (event :: reinserted) (s.setEvent t event.id (some event)) := by
  intro other hother hback
  by_cases hid : other.id = event.id
  · rcases hknown.same other hother event hevent hid with rfl | hchanged
    · exact row_setEvent rfl
    · exact .inl (hchanged.setEvent hstart)
  · obtain ⟨event', hevent', hid'⟩ := hback
    rcases List.mem_cons.mp hevent' with rfl | hevent'
    · exact absurd hid'.symm hid
    · exact (h other hother ⟨event', hevent', hid'⟩).setEvent hstart fun h => absurd h hid

theorem Back.others (h : Back t start batch reinserted s)
    (hstart : start.log.length ≤ s.log.length) (hothers : Others t s s') :
    Back t start batch reinserted s' :=
  fun event hevent hback => (h event hevent hback).others hstart hothers

theorem Restored.of_bound (hbound : Bound t start deleted s) (h : Back t start batch deleted s) :
    Restored t start batch s :=
  fun event hevent hdeleted => h event hevent (hbound.deleted event.id hdeleted)

end

theorem progress_start {start : World T D} : Progress t start [] start := by
  have hduring : during start start = [] := by rw [during, List.drop_length]
  refine ⟨⟨Nat.le_refl _, ?_⟩, fun _ h => absurd h List.not_mem_nil⟩
  rintro id ⟨e, he, -⟩
  rw [hduring] at he
  exact absurd he List.not_mem_nil

theorem restored_of_nil {start s : World T D} {batch : List (OutboxEvent D)}
    (h : Bound t start [] s) : Restored t start batch s := by
  intro event _ hdeleted
  obtain ⟨other, hother, -⟩ := h.deleted event.id hdeleted
  exact absurd hother List.not_mem_nil

/-! ## Calls -/

section
variable [DecidableEq D] {env : World T D → World T D → Prop} {mode : StoreMode} {α : Type}
  {P F : World T D → Prop} {Q : α → World T D → Prop} {E : OutboxError → World T D → Prop}
  {start : World T D} {batch deleted done : List (OutboxEvent D)}

omit [DecidableEq D] in
theorem survives_of_others (henv : ∀ s s', env s s' → Others t s s')
    (h : Survives (Others t) P) : Survives env P := fun s s' hP hs => h s s' hP (henv s s' hs)

omit [DecidableEq D] in
theorem survives_advance (hP : Survives (Others t) P) (s : World T D) (n : Nat) (h : P s) :
    P (s.advance n) :=
  hP s _ h (Others.advance s n)

omit [DecidableEq D] in
theorem ensures_storeCall (henv : ∀ s s', env s s' → Others t s s')
    (hP : Survives (Others t) P) {f : World T D → World T D × Except OutboxError α}
    (hok : ∀ s a, P s → (f s).2 = .ok a → Q a (f s).1)
    (herror : ∀ s e, P s → (f s).2 = .error e → E e (f s).1)
    (hstore : ∀ s, P s → E .store s ∧ E .store (f s).1) :
    Ensures env P (storeCall f) Q E :=
  ensures_call (survives_of_others henv hP) (survives_advance hP) hok herror hstore

omit [DecidableEq D] in
theorem ensures_transaction (henv : ∀ s s', env s s' → Others t s s')
    (hP : Survives (Others t) P) {body : OutboxTask T D α} {E' : OutboxError → World T D → Prop}
    (hbody : Ensures Eq P body Q E') (hnone : ∀ s e, P s → E e s)
    (hdoubt : ∀ a s, Q a s → E .store s) : Ensures env P (transaction body) Q E :=
  ensures_inTransaction (survives_of_others henv hP) (survives_advance hP) hbody hnone hdoubt

omit [DecidableEq D] in
theorem ensures_now (henv : ∀ s s', env s s' → Others t s s') (hP : Survives (Others t) P) :
    Ensures env P (now : OutboxTask T D Nat) (fun _ => P) fun _ _ => False := by
  refine .atomically (survives_of_others henv hP) fun c s h => ⟨fun _ _ => ?_, fun _ h => (by cases h)⟩
  exact hP s _ h (Others.advance s c.tick)

omit [DecidableEq D] in
theorem ensures_currentOutboxEvent (start : World T D) (henv : ∀ s s', env s s' → Others t s s')
    (hP : Survives (Others t) P) (id : String) :
    Ensures env P (currentOutboxEvent id)
      (fun current s => P s ∧ Row t start id (· = current) s) fun _ => P := by
  refine ensures_storeCall henv hP (fun s a h ha => ?_) (fun s e _ he => by cases he)
    fun s h => ⟨h, h⟩
  exact ⟨h, .inr (Except.ok.inj ha)⟩

/-! ## Checks -/

theorem isAckable_eq_true {event current : OutboxEvent D} {now : Nat}
    (h : isAckable event now current = true) : current = event := by
  unfold isAckable at h
  split at h
  · simp only [isLeaseHeld, Option.any_some, Bool.and_eq_true, isOutboxSnapshotCurrent,
      decide_eq_true_eq] at h
    exact h.1
  · simp only [Bool.and_eq_true, isOutboxSnapshotCurrent, decide_eq_true_eq] at h
    exact h.2

omit [DecidableEq D] in
theorem survives_row (hle : ∀ s : World T D, F s → start.log.length ≤ s.log.length)
    (hF : Survives (Others t) F) {id : String} {is : Option (OutboxEvent D) → Prop} :
    Survives (Others t) fun s => F s ∧ Row t start id is s :=
  fun s s' h hothers => ⟨hF s s' h.1 hothers, h.2.others (hle s h.1) hothers⟩

/-- The checks change nothing. Where they pass, the batch is the rows. -/
theorem ensures_ackChecks (henv : ∀ s s', env s s' → Others t s s')
    (hle : ∀ s : World T D, F s → start.log.length ≤ s.log.length) (hF : Survives (Others t) F)
    (now : Nat) (batch : List (OutboxEvent D)) :
    Ensures env F (ackChecks now batch)
      (fun r s => F s ∧ ∀ currentEvents, r = some currentEvents → currentEvents = batch ∧
        ∀ event ∈ batch, Row t start event.id (· = some event) s) fun _ => F := by
  induction batch generalizing F with
  | nil =>
    refine .pure fun s h => ⟨h, fun currentEvents hr => ?_⟩
    cases hr
    exact ⟨rfl, fun _ h => absurd h List.not_mem_nil⟩
  | cons event rest ih =>
    refine .bind (ensures_currentOutboxEvent start henv hF event.id) fun current => ?_
    cases hcurrent : current.filter (isAckable event now) with
    | none => exact .pure fun s h => ⟨h.1, fun _ hr => by cases hr⟩
    | some found =>
      obtain ⟨rfl, hackable⟩ := Option.filter_eq_some_iff.mp hcurrent
      obtain rfl := isAckable_eq_true hackable
      have hrow : Survives (Others t) fun s => F s ∧ Row t start found.id (· = some found) s :=
        survives_row hle hF
      refine .bind ((ih (fun s h => hle s h.1) hrow).weaken (fun _ h => h) (fun _ _ h => h)
        fun _ _ h => h.1) fun r => .pure fun s h => ⟨h.1.1, fun currentEvents hr => ?_⟩
      obtain ⟨others, rfl, rfl⟩ := Option.map_eq_some_iff.mp hr
      obtain ⟨rfl, hrows⟩ := h.2 others rfl
      exact ⟨rfl, List.forall_mem_cons.mpr ⟨h.1.2, hrows⟩⟩

omit [DecidableEq D] in
theorem known_of_rows {s : World T D}
    (h : ∀ event ∈ batch, Row t start event.id (· = some event) s) : Known t start batch s where
  row event hevent := (h event hevent).mono fun _ => .inr
  same a ha b hb hid := by
    rcases h a ha with hchanged | hrow
    · exact .inr hchanged
    rcases h b hb with hchanged | hrow'
    · exact .inr (hid ▸ hchanged)
    · rw [hid, hrow'] at hrow
      exact .inl (Option.some.inj hrow).symm

/-! ## Deletions -/

omit [DecidableEq D] in
theorem Back.mono {s : World T D} {reinserted reinserted' : List (OutboxEvent D)}
    (h : Back t start batch reinserted s) (hsub : reinserted' ⊆ reinserted) :
    Back t start batch reinserted' s := by
  rintro event hevent ⟨other, hother, hid⟩
  exact h event hevent ⟨other, hsub hother, hid⟩

/-- The call is putting back what it has deleted. -/
structure Restoring (t : T) (start : World T D) (batch deleted reinserted : List (OutboxEvent D))
    (s : World T D) : Prop where
  bound : Bound t start deleted s
  known : Known t start batch s
  back : Back t start batch reinserted s

omit [DecidableEq D] in
theorem survives_restoring {reinserted : List (OutboxEvent D)} :
    Survives (Others t) (Restoring t start batch deleted reinserted) := fun s s' h hothers =>
  ⟨survives_bound s s' h.bound hothers, h.known.others h.bound.le hothers,
    h.back.others h.bound.le hothers⟩

omit [DecidableEq D] in
/-- A row that is there already needs no insertion. -/
theorem Restoring.found {s : World T D} {reinserted : List (OutboxEvent D)}
    {event current : OutboxEvent D} (h : Restoring t start batch deleted reinserted s)
    (hevent : event ∈ batch) (hrow : Row t start event.id (· = some current) s) :
    Restoring t start batch deleted (event :: reinserted) s where
  bound := h.bound
  known := h.known
  back other hother hback := by
    by_cases hid : other.id = event.id
    · rcases h.known.same other hother event hevent hid with rfl | hchanged
      · rcases hrow with hchanged | hrow
        · exact .inl hchanged
        · refine (h.known.row other hother).imp_right fun hknown => hknown.resolve_left ?_
          rw [hrow]
          exact Option.some_ne_none _
      · exact .inl hchanged
    · obtain ⟨event', hevent', hid'⟩ := hback
      rcases List.mem_cons.mp hevent' with rfl | hevent'
      · exact absurd hid'.symm hid
      · exact h.back other hother ⟨event', hevent', hid'⟩

omit [DecidableEq D] in
theorem ensures_reinsertDeletedEvent (henv : ∀ s s', env s s' → Others t s s')
    {reinserted : List (OutboxEvent D)} {event : OutboxEvent D} (hevent : event ∈ batch) :
    Ensures env (Restoring t start batch deleted reinserted) (reinsertDeletedEvent t event)
      (fun _ => Restoring t start batch deleted (event :: reinserted))
      fun _ => Restoring t start batch deleted reinserted := by
  refine .bind (ensures_currentOutboxEvent start henv survives_restoring event.id)
    fun current => ?_
  cases current with
  | some current => exact .pure fun s h => h.1.found hevent h.2
  | none =>
    have hinsert : ∀ s : World T D, Restoring t start batch deleted reinserted s →
        Restoring t start batch deleted (event :: reinserted)
          (s.setEvent t event.id (some event)) := fun s h =>
      ⟨h.bound.insert, h.known.insert h.bound.le hevent,
        h.back.insert h.known h.bound.le hevent⟩
    have happend : Ensures env (Restoring t start batch deleted reinserted) (append t event)
        (fun _ => Restoring t start batch deleted (event :: reinserted))
        fun _ => Restoring t start batch deleted reinserted := by
      refine ensures_storeCall henv survives_restoring (fun s a h ha => ?_) (fun s e h he => ?_)
        fun s h => ⟨h, ?_⟩
      · unfold World.create at ha ⊢
        split at ha
        · cases ha
        · next hfree =>
          rw [if_neg hfree]
          exact hinsert s h
      · unfold World.create at he ⊢
        split at he
        · next hfound =>
          rw [if_pos hfound]
          exact h
        · cases he
      · unfold World.create
        split
        · exact h
        · have hinserted := hinsert s h
          exact ⟨hinserted.bound, hinserted.known,
            hinserted.back.mono (List.subset_cons_self _ _)⟩
    exact happend.weaken (fun _ h => h.1) (fun _ _ h => h) fun _ _ h => h

omit [DecidableEq D] in
theorem ensures_reinsertDeletedEvents (henv : ∀ s s', env s s' → Others t s s')
    {reinserted : List (OutboxEvent D)} (events : List (OutboxEvent D)) (hevents : events ⊆ batch) :
    Ensures env (Restoring t start batch deleted reinserted) (reinsertDeletedEvents t events)
      (fun all s => all = true → Restoring t start batch deleted (events ++ reinserted) s)
      fun _ _ => False := by
  induction events generalizing reinserted with
  | nil => exact .pure fun _ h _ => h
  | cons event rest ih =>
    obtain ⟨hevent, hrest⟩ := List.cons_subset.mp hevents
    refine .bind (ensures_reinsertDeletedEvent henv hevent).attempt fun r => ?_
    cases r with
    | ok u =>
      refine .bind ((ih hrest).weaken (fun s h => h.1 u rfl) (fun _ _ h => h) fun _ _ h => h)
        fun all => .pure fun s h hall => ?_
      have hdone := h (Bool.and_eq_true_iff.mp hall).2
      refine ⟨hdone.bound, hdone.known, hdone.back.mono fun other hother => ?_⟩
      rw [List.cons_append, List.mem_cons, List.mem_append] at hother
      rw [List.mem_append, List.mem_cons]
      tauto
    | error e =>
      refine .bind ((ih hrest).weaken (fun s h => h.2 e rfl) (fun _ _ h => h) fun _ _ h => h)
        fun all => .pure fun s _ hall => ?_
      cases (Bool.and_eq_true_iff.mp hall).1

/-- The call is deleting, and has deleted these rows. -/
structure Deleting (t : T) (start : World T D) (batch deleted : List (OutboxEvent D))
    (s : World T D) : Prop where
  bound : Bound t start deleted s
  known : Known t start batch s
  gone : Gone t start deleted s

omit [DecidableEq D] in
theorem survives_deleting : Survives (Others t) (Deleting t start batch deleted) :=
  fun s s' h hothers => ⟨survives_bound s s' h.bound hothers, h.known.others h.bound.le hothers,
    (survives_progress s s' ⟨h.bound, h.gone⟩ hothers).2⟩

omit [DecidableEq D] in
theorem Deleting.restoring {s : World T D} (h : Deleting t start batch deleted s) :
    Restoring t start batch deleted [] s :=
  ⟨h.bound, h.known, fun _ _ ⟨_, hback, _⟩ => absurd hback List.not_mem_nil⟩

omit [DecidableEq D] in
/-- A deletion that is lost to another party has not taken effect. -/
theorem ensures_deleteEvent (henv : ∀ s s', env s s' → Others t s s') (current : OutboxEvent D)
    (expectedVersion : Option Nat) :
    Ensures env (Deleting t start batch deleted)
      (storeCall fun s => s.delete t current.id expectedVersion)
      (fun _ => Deleting t start batch (deleted ++ [current]))
      fun e s => (e.isConflict = true → Restoring t start batch deleted [] s) ∧
        Restoring t start batch (deleted ++ [current]) [] s := by
  have hdelete : ∀ s : World T D, Deleting t start batch deleted s →
      Deleting t start batch (deleted ++ [current]) (s.setEvent t current.id none) := fun s h =>
    ⟨h.bound.delete, h.known.delete h.bound.le, h.gone.delete h.bound.le⟩
  have hkeep : ∀ s : World T D, Deleting t start batch deleted s →
      Restoring t start batch deleted [] s ∧
        Restoring t start batch (deleted ++ [current]) [] s := fun s h =>
    ⟨h.restoring, h.bound.mono (List.subset_append_left _ _), h.known, h.restoring.back⟩
  have hcases : ∀ s : World T D, (∃ e, s.delete t current.id expectedVersion = (s, .error e)) ∨
      s.delete t current.id expectedVersion = (s.setEvent t current.id none, .ok ()) := by
    intro s
    unfold World.delete
    split <;> split
    · exact .inl ⟨_, rfl⟩
    · exact .inr rfl
    · exact .inl ⟨_, rfl⟩
    · exact .inr rfl
  refine ensures_storeCall henv survives_deleting (fun s u h hu => ?_) (fun s e h he => ?_)
    fun s h => ⟨⟨fun h => (by cases h), (hkeep s h).2⟩, fun h => (by cases h), ?_⟩
  · rcases hcases s with ⟨e, hcall⟩ | hcall
    · rw [hcall] at hu
      cases hu
    · rw [hcall]
      exact hdelete s h
  · rcases hcases s with ⟨e', hcall⟩ | hcall
    · rw [hcall]
      exact ⟨fun _ => (hkeep s h).1, (hkeep s h).2⟩
    · rw [hcall] at he
      cases he
  · rcases hcases s with ⟨e', hcall⟩ | hcall
    · rw [hcall]
      exact (hkeep s h).2
    · rw [hcall]
      exact (hdelete s h).restoring

omit [DecidableEq D] in
/-- The deletions of `ack`: all, or, where they are undone, none. The rows of `done` were deleted by
earlier transactions of the call. -/
theorem ensures_ackDeletes (henv : ∀ s s', env s s' → Others t s s') (recoverDeletes : Bool)
    (rest : List (OutboxEvent D))
    (hsub : recoverDeletes = true → done = [] ∧ deleted ⊆ batch ∧ rest ⊆ batch) :
    Ensures env (Deleting t start batch (done ++ deleted))
      (ackDeletes mode t recoverDeletes rest deleted)
      (fun acknowledged s =>
        (acknowledged = true → Progress t start (done ++ (deleted ++ rest)) s) ∧
        (acknowledged = false → recoverDeletes = true ∧ Restored t start batch s))
      fun e s => recoverDeletes = true → e ≠ .rollbackFailed → Restored t start batch s := by
  induction rest generalizing deleted with
  | nil =>
    refine .pure fun s h => ⟨fun _ => ?_, fun h => (by cases h)⟩
    rw [List.append_nil]
    exact ⟨h.bound, h.gone⟩
  | cons current rest ih =>
    refine .bind (ensures_deleteEvent henv current _).attempt fun result => ?_
    cases result with
    | ok u =>
      have hnext := @ih (deleted ++ [current]) fun hrecover => by
        obtain ⟨hdone, hdeleted, hrest⟩ := hsub hrecover
        obtain ⟨hcurrent, hrest⟩ := List.cons_subset.mp hrest
        exact ⟨hdone, List.append_subset.mpr
          ⟨hdeleted, List.cons_subset.mpr ⟨hcurrent, List.nil_subset _⟩⟩, hrest⟩
      rw [List.append_assoc deleted, List.singleton_append, ← List.append_assoc done] at hnext
      exact hnext.weaken (fun s h => h.1 u rfl) (fun _ _ h => h) fun _ _ h => h
    | error e =>
      cases recoverDeletes with
      | false => exact .throw fun _ _ h => (by cases h)
      | true =>
        obtain ⟨rfl, hdeleted, hrest⟩ := hsub rfl
        have hcurrent : current ∈ batch := hrest List.mem_cons_self
        have hrestored : ∀ (events : List (OutboxEvent D)) (s : World T D),
            Restoring t start batch events (events ++ []) s → Restored t start batch s := by
          intro events s h
          rw [List.append_nil] at h
          exact .of_bound h.bound h.back
        refine .ite (fun _ => .ite (fun hconflict => ?_) fun _ => ?_) fun h => absurd rfl h
        · have hback : Ensures env (Restoring t start batch deleted [])
            (reinsertDeletedEvents t deleted) _ _ :=
            ensures_reinsertDeletedEvents henv deleted hdeleted
          refine .bind (hback.weaken (fun s h => (h.2 e rfl).1 hconflict) (fun _ _ h => h)
            fun _ _ h => h.elim) fun all => .ite (fun hall => .pure fun s h => ?_) fun _ => ?_
          · exact ⟨fun h => (by cases h), fun _ => ⟨rfl, hrestored _ s (h hall)⟩⟩
          · exact .throw fun _ _ _ h => absurd rfl h
        · have hback : Ensures env (Restoring t start batch (deleted ++ [current]) [])
            (reinsertDeletedEvents t (deleted ++ [current])) _ _ :=
            ensures_reinsertDeletedEvents henv (deleted ++ [current]) (List.append_subset.mpr
              ⟨hdeleted, List.cons_subset.mpr ⟨hcurrent, List.nil_subset _⟩⟩)
          refine .bind (hback.weaken (fun s h => (h.2 e rfl).2) (fun _ _ h => h)
            fun _ _ h => h.elim) fun all => .ite (fun hall => .throw fun s h _ _ => ?_) fun _ => ?_
          · exact hrestored _ s (h hall)
          · exact .throw fun _ _ _ h => absurd rfl h

/-! ## `ack` -/

/-- Nothing of the batch is deleted that was not deleted before. -/
def Left (t : T) (start : World T D) (done batch : List (OutboxEvent D)) (recoverDeletes : Bool)
    (s : World T D) : Prop :=
  if recoverDeletes then Restored t start batch s
  else Progress t start done s

theorem ensures_ackRun (henv : ∀ s s', env s s' → Others t s s') (recoverDeletes : Bool)
    (hdone : recoverDeletes = true → done = []) (now : Nat) :
    Ensures env (Progress t start done)
      (ackRun mode t recoverDeletes batch now)
      (fun acknowledged s =>
        (acknowledged = true → Progress t start (done ++ batch) s) ∧
          (acknowledged = false → Left t start done batch recoverDeletes s))
      fun e s => recoverDeletes = true → e ≠ .rollbackFailed → Restored t start batch s := by
  have hnone : ∀ s : World T D, Bound t start done s → recoverDeletes = true →
      Restored t start batch s := by
    intro s h hrecover
    rw [hdone hrecover] at h
    exact restored_of_nil h
  have hchecks : Ensures env (Progress t start done)
      (ackChecks now batch) _ _ :=
    ensures_ackChecks henv (fun s h => h.1.le) survives_progress now batch
  refine .bind (hchecks.weaken (fun _ h => h) (fun _ _ h => h) fun e s h hrecover _ =>
    hnone s h.1 hrecover) fun r => ?_
  cases r with
  | none =>
    refine .pure fun s h => ⟨fun h => (by cases h), fun _ => ?_⟩
    unfold Left
    split
    · next hrecover => exact hnone s h.1.1 hrecover
    · exact h.1
  | some currentEvents =>
    intro s r s' h hrun
    obtain ⟨hprogress, hrows⟩ := h
    obtain ⟨rfl, hrows⟩ := hrows currentEvents rfl
    have hdeletes : Ensures env (Deleting t start currentEvents (done ++ []))
        (ackDeletes mode t recoverDeletes currentEvents []) _ _ :=
      ensures_ackDeletes henv recoverDeletes currentEvents fun hrecover =>
        ⟨hdone hrecover, List.nil_subset _, List.Subset.refl _⟩
    rw [List.append_nil] at hdeletes
    obtain ⟨hok, herror⟩ := hdeletes s r s' ⟨hprogress.1, known_of_rows hrows, hprogress.2⟩ hrun
    refine ⟨fun acknowledged hr => ⟨(hok acknowledged hr).1, fun hfalse => ?_⟩, herror⟩
    obtain ⟨hrecover, hrestored⟩ := (hok acknowledged hr).2 hfalse
    unfold Left
    rw [if_pos hrecover]
    exact hrestored

/-- A transaction acknowledges all its events or none, also where its commit is in doubt. -/
theorem ensures_ackTransaction (henv : ∀ s s', env s s' → Others t s s') (now : Nat) :
    Ensures env (Progress t start done)
      (orConflict false (transaction (ackRun mode t false batch now)))
      (fun acknowledged s =>
        (acknowledged = true → Progress t start (done ++ batch) s) ∧
          (acknowledged = false → Progress t start done s))
      fun e s => Progress t start done s ∨
        e = .store ∧ Progress t start (done ++ batch) s := by
  have hbody : Ensures Eq (Progress t start done)
      (ackRun mode t false batch now) _ _ :=
    ensures_ackRun (fun s s' h => h ▸ Others.advance s 0) false (fun h => by cases h) now
  have htransaction : Ensures env (Progress t start done)
      (transaction (ackRun mode t false batch now)) _ fun e s => Progress t start done s ∨
        e = .store ∧ Progress t start (done ++ batch) s :=
    ensures_transaction henv survives_progress hbody (fun s e h => .inl h) fun acknowledged s h => by
      cases acknowledged with
      | true => exact .inr ⟨rfl, h.1 rfl⟩
      | false => exact .inl (h.2 rfl)
  refine ensures_orConflict htransaction fun e s h hconflict => ⟨fun h => (by cases h), fun _ => ?_⟩
  rcases h with h | ⟨rfl, -⟩
  · exact h
  · cases hconflict

/-- The events before the first that is not acknowledged are deleted. -/
theorem ensures_ackEach (henv : ∀ s s', env s s' → Others t s s') (events : List (OutboxEvent D)) :
    Ensures env (Progress t start done) (ackEach mode t events)
      (fun acknowledged s => ∃ more rest, events = more ++ rest ∧
        Progress t start (done ++ more) s ∧
          (acknowledged = true → rest = []))
      fun _ s => ∃ more rest, events = more ++ rest ∧
        Progress t start (done ++ more) s := by
  have hstop : ∀ (events : List (OutboxEvent D)) (s : World T D),
      Progress t start done s → ∃ more rest, events = more ++ rest ∧
        Progress t start (done ++ more) s := by
    intro events s h
    refine ⟨[], events, rfl, ?_⟩
    rw [List.append_nil]
    exact h
  induction events generalizing done with
  | nil =>
    refine .pure fun s h => ⟨[], [], rfl, ?_, fun _ => rfl⟩
    rw [List.append_nil]
    exact h
  | cons event rest ih =>
    refine .bind ((ensures_now henv survives_progress).weaken (fun _ h => h) (fun _ _ h => h)
      fun _ _ h => h.elim) fun now => ?_
    have htransaction : Ensures env (Progress t start done)
        (orConflict false (transaction (ackRun mode t false [event] now))) _ _ :=
      ensures_ackTransaction henv now
    refine .bind (htransaction.weaken (fun _ h => h) (fun _ _ h => h) fun e s h => ?_)
      fun acknowledged => ?_
    · rcases h with h | ⟨-, h⟩
      · exact hstop _ s h
      · exact ⟨[event], rest, rfl, h⟩
    · cases acknowledged with
      | false =>
        refine .pure fun s h => ?_
        obtain ⟨more, others, hsplit, hprogress⟩ := hstop (event :: rest) s (h.2 rfl)
        exact ⟨more, others, hsplit, hprogress, fun h => (by cases h)⟩
      | true =>
        have hmore : ∀ more : List (OutboxEvent D), done ++ [event] ++ more = done ++ event :: more :=
          fun more => by rw [List.append_assoc, List.singleton_append]
        refine (@ih (done ++ [event]) ?_).weaken (fun s h => h.1 rfl) (fun acknowledged s h => ?_)
          fun e s h => ?_
        · intro events s h
          refine ⟨[], events, rfl, ?_⟩
          rw [List.append_nil]
          exact h
        · obtain ⟨more, others, rfl, hprogress, htrue⟩ := h
          rw [hmore] at hprogress
          exact ⟨event :: more, others, rfl, hprogress, htrue⟩
        · obtain ⟨more, others, rfl, hprogress⟩ := h
          rw [hmore] at hprogress
          exact ⟨event :: more, others, rfl, hprogress⟩

end

section
variable [DecidableEq D] {mode : StoreMode} {start s' : World T D} {batch : List (OutboxEvent D)}
  {r : Except OutboxError Bool}

/-- Where the events do not have transactions of their own, `ack` deletes all rows of the batch or
leaves none of them deleted, as far as nobody else changes them. With a transaction for each event,
a first part of the batch is deleted. -/
theorem ack_allOrNothing (hrun : (ack mode t batch).Runs (Others t) start r s')
    (hback : r ≠ .error .rollbackFailed) :
    (mode.eachInTransaction = false →
      (r = .ok true → Gone t start batch s') ∧
      (r ≠ .ok true → Restored t start batch s' ∨
        mode.managementTransactions = true ∧ r = .error .store ∧ Gone t start batch s')) ∧
    (mode.eachInTransaction = true → ∃ done rest, batch = done ++ rest ∧
      Progress t start done s' ∧ (r = .ok true → rest = [])) := by
  have hothers : ∀ s s' : World T D, Others t s s' → Others t s s' := fun _ _ h => h
  have hstart : Progress t start [] start := progress_start
  have hnothing : ∀ s : World T D, Progress t start [] s → Restored t start batch s :=
    fun s h => restored_of_nil h.1
  constructor
  · intro heach
    rw [ack, if_neg (by rw [heach]; exact Bool.false_ne_true)] at hrun
    have hend : Ensures (Others t) (Progress t start []) (do
        let now ← now
        if mode.managementTransactions then
          orConflict false (transaction (ackRun mode t false batch now))
        else ackRun mode t true batch now)
        (fun acknowledged s => (acknowledged = true → Gone t start batch s) ∧
          (acknowledged = false → Restored t start batch s))
        fun e s => e ≠ .rollbackFailed → Restored t start batch s ∨
          mode.managementTransactions = true ∧ e = .store ∧ Gone t start batch s := by
      refine .bind ((ensures_now hothers survives_progress).weaken (fun _ h => h) (fun _ _ h => h)
        fun _ _ h => h.elim) fun now => .ite (fun hmanaged => ?_) fun _ => ?_
      · refine (ensures_ackTransaction hothers now).weaken (fun _ h => h)
          (fun acknowledged s h => ⟨fun htrue => (h.1 htrue).2, fun hfalse =>
            hnothing s (h.2 hfalse)⟩) fun e s h _ => ?_
        exact h.imp (hnothing s) fun h => ⟨hmanaged, h.1, h.2.2⟩
      · exact (ensures_ackRun hothers true (fun _ => rfl) now).weaken (fun _ h => h)
          (fun acknowledged s h => ⟨fun htrue => (h.1 htrue).2, h.2⟩)
          fun e s h hne => .inl (h rfl hne)
    obtain ⟨hok, herror⟩ := hend start r s' hstart hrun
    refine ⟨fun hr => (hok true hr).1 rfl, fun hr => ?_⟩
    cases r with
    | ok acknowledged =>
      cases acknowledged with
      | true => exact absurd rfl hr
      | false => exact .inl ((hok false rfl).2 rfl)
    | error e =>
      refine (herror e rfl fun he => hback (congrArg _ he)).imp_right fun h => ?_
      exact ⟨h.1, congrArg _ h.2.1, h.2.2⟩
  · intro heach
    rw [ack, if_pos heach] at hrun
    obtain ⟨hok, herror⟩ := ensures_ackEach hothers batch start r s' hstart hrun
    cases r with
    | ok acknowledged =>
      obtain ⟨done, rest, hsplit, hprogress, htrue⟩ := hok acknowledged rfl
      exact ⟨done, rest, hsplit, hprogress, fun hr => htrue (Except.ok.inj hr)⟩
    | error e =>
      obtain ⟨done, rest, hsplit, hprogress⟩ := herror e rfl
      exact ⟨done, rest, hsplit, hprogress, fun hr => by cases hr⟩

end

/-! ## Runs -/

/-- The acknowledgement as a whole, read strictly: no other party may matter. -/
def AllOrNothing (t : T) (start : World T D) (batch : List (OutboxEvent D))
    (r : Except OutboxError Bool) (s : World T D) : Prop :=
  (r = .ok true → ∀ event ∈ batch, s.events event.id = none) ∧
    (r ≠ .ok true → ∀ event ∈ batch, DeletedBy t start event.id s →
      s.events event.id = some event)

def firstOfBatch : OutboxEvent Unit where
  id := "a"
  model := "Post"
  modelId := some (.string "1")
  modelIdentity := none
  modelDatastoreAncestor := none
  modelDatastoreScope := none
  operation := .create
  data := none
  reconcileFromStore := false
  createdAt := 0
  sequence := some "1"
  version := some 0
  leaseToken := none
  leaseExpiresAt := none
  deliveryAttempts := none
  availableAt := none
  deadLetteredAt := none
  lastDeliveryError := none

def secondOfBatch : OutboxEvent Unit := { firstOfBatch with id := "b", sequence := some "2" }

def retriedFirst : OutboxEvent Unit :=
  { firstOfBatch with version := some 1, deliveryAttempts := some 1, availableAt := some 1 }

def batchWorld (events : String → Option (OutboxEvent Unit)) : World Bool Unit where
  clock := 0
  events := events
  usedIds := []
  revisions _ := none
  rows _ := none
  search _ _ := ⟨none, none⟩
  inFlight := []
  log := []

def firstOnly : String → Option (OutboxEvent Unit)
  | "a" => some firstOfBatch
  | _ => none

def bothOfBatch : String → Option (OutboxEvent Unit)
  | "a" => some firstOfBatch
  | "b" => some secondOfBatch
  | _ => none

def quietChoice (outcome : Outcome) : Choice Unit where
  outcome := outcome
  conflict := false
  tick := 0
  uuid := ""
  page := []
  rounds := 0
  settling := ⟨fun _ _ => ⟨none, .lost⟩, fun _ => false, fun _ => 0, fun _ => 0, false, fun _ => false⟩

/-- Nobody else acts before this step of the call. -/
def undisturbed (outcome : Outcome) : (World Bool Unit → World Bool Unit) × Choice Unit :=
  (fun s => s, quietChoice outcome)

/-- Another party changes a row before this step of the call. -/
def disturbed (id : String) (after : Option (OutboxEvent Unit)) :
    (World Bool Unit → World Bool Unit) × Choice Unit :=
  (fun s => s.setEvent false id after, quietChoice .ok)

/-- One transaction for each event. -/
def eachMode : StoreMode := ⟨false, true, true⟩

/-- One transaction for the batch. -/
def managedMode : StoreMode := ⟨true, true, true⟩

/-- Deletions that are undone. -/
def compensatingMode : StoreMode := ⟨true, false, false⟩

theorem others_map_undisturbed (outcomes : List Outcome) :
    ∀ move ∈ outcomes.map undisturbed, ∀ s : World Bool Unit, Others true s (move.1 s) := by
  intro move hmove s
  obtain ⟨outcome, -, rfl⟩ := List.mem_map.mp hmove
  exact Others.advance s 0

theorem others_disturbed (id : String) (after : Option (OutboxEvent Unit)) (s : World Bool Unit) :
    Others true s ((disturbed id after).1 s) := by
  refine ⟨_, rfl, fun e he => ?_, fun id' hid => ?_⟩
  · rw [List.mem_singleton.mp he]
    exact Bool.false_ne_true
  · exact Function.update_of_ne (Ne.symm (hid _ (List.mem_singleton_self _))) _ _

/-- A run that ends with a row of the batch deleted, and not back as it was. -/
def losesFirst (mode : StoreMode) (start : World Bool Unit)
    (moves : List ((World Bool Unit → World Bool Unit) × Choice Unit))
    (r : Except OutboxError Bool) : Bool :=
  ((ack mode true [firstOfBatch, secondOfBatch]).runWith moves start).any fun x =>
    decide (x.1 = r) && decide (x.2.events firstOfBatch.id ≠ some firstOfBatch) &&
      (during start x.2).any fun e => e.1 = true && e.2.id = firstOfBatch.id && e.2.after.isNone

theorem not_allOrNothing_of_losesFirst {mode : StoreMode} {start : World Bool Unit}
    {moves : List ((World Bool Unit → World Bool Unit) × Choice Unit)}
    {r : Except OutboxError Bool} (hmoves : ∀ move ∈ moves, ∀ s, Others true s (move.1 s))
    (hr : r ≠ .ok true) (h : losesFirst mode start moves r = true) :
    ∃ s, (ack mode true [firstOfBatch, secondOfBatch]).Runs (Others true) start r s ∧
      ¬ AllOrNothing true start [firstOfBatch, secondOfBatch] r s := by
  obtain ⟨⟨r', s⟩, hrun, htest⟩ := (Option.any_eq_true _ _).mp h
  simp only [Bool.and_eq_true, decide_eq_true_eq, List.any_eq_true, Option.isNone_iff_eq_none]
    at htest
  obtain ⟨⟨rfl, hne⟩, e, he, ⟨hown, hid⟩, hnone⟩ := htest
  exact ⟨s, .of_runWith hmoves hrun, fun hall =>
    hne (hall.2 hr firstOfBatch List.mem_cons_self ⟨e, he, hown, hid, hnone⟩)⟩

/-- The second row is lost to another party, and the first is put back. -/
theorem ack_allOrNothing_undone :
    ∃ s, (ack compensatingMode true [firstOfBatch, secondOfBatch]).Runs (Others true)
      (batchWorld bothOfBatch) (.ok false) s ∧
        Restored true (batchWorld bothOfBatch) [firstOfBatch, secondOfBatch] s := by
  let moves := [.ok, .ok, .ok, .ok].map undisturbed ++
    disturbed "b" none :: [.ok, .ok].map undisturbed
  obtain ⟨⟨r, s⟩, hrun, htest⟩ := (Option.any_eq_true _ _).mp (by decide +kernel :
    ((ack compensatingMode true [firstOfBatch, secondOfBatch]).runWith moves
      (batchWorld bothOfBatch)).any fun x => decide (x.1 = .ok false))
  obtain rfl : r = .ok false := of_decide_eq_true htest
  have hmoves : ∀ move ∈ moves, ∀ s, Others true s (move.1 s) :=
    List.forall_mem_append.mpr ⟨others_map_undisturbed _, List.forall_mem_cons.mpr
      ⟨others_disturbed "b" none, others_map_undisturbed _⟩⟩
  have hruns := Runs.of_runWith hmoves hrun
  obtain ⟨hone, -⟩ := ack_allOrNothing hruns (fun h => by cases h)
  refine ⟨s, hruns, ((hone rfl).2 fun h => by cases h).resolve_right fun h => ?_⟩
  cases h.1

/-- With a transaction for each event, the first event is gone when the second is not acknowledged.
Where deletions are undone, a row that another party has stored in the meantime is left alone. A
commit that takes effect and fails leaves nothing. -/
theorem not_allOrNothing :
    (∃ s, (ack eachMode true [firstOfBatch, secondOfBatch]).Runs (Others true)
      (batchWorld firstOnly) (.ok false) s ∧
        ¬ AllOrNothing true (batchWorld firstOnly) [firstOfBatch, secondOfBatch] (.ok false) s) ∧
    (∃ s, (ack compensatingMode true [firstOfBatch, secondOfBatch]).Runs (Others true)
      (batchWorld bothOfBatch) (.ok false) s ∧
        ¬ AllOrNothing true (batchWorld bothOfBatch) [firstOfBatch, secondOfBatch] (.ok false) s) ∧
    ∃ s, (ack managedMode true [firstOfBatch, secondOfBatch]).Runs (Others true)
      (batchWorld bothOfBatch) (.error .store) s ∧
        ¬ AllOrNothing true (batchWorld bothOfBatch) [firstOfBatch, secondOfBatch]
          (.error .store) s := by
  refine ⟨?_, ?_, ?_⟩
  · exact not_allOrNothing_of_losesFirst (others_map_undisturbed [.ok, .ok, .ok, .ok])
      (fun h => by cases h) (by decide +kernel)
  · exact not_allOrNothing_of_losesFirst (List.forall_mem_append.mpr
      ⟨others_map_undisturbed [.ok, .ok, .ok, .ok], List.forall_mem_cons.mpr
        ⟨others_disturbed "b" none, List.forall_mem_singleton.mpr
          (others_disturbed "a" (some retriedFirst))⟩⟩)
      (fun h => by cases h) (by decide +kernel)
  · exact not_allOrNothing_of_losesFirst (others_map_undisturbed [.ok, .uncertain])
      (fun h => by cases h) (by decide +kernel)

end ActiveTs.Outbox
