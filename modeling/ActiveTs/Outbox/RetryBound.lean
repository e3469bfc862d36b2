import ActiveTs.Lib.Except
import ActiveTs.Outbox.Calls
import ActiveTs.Outbox.SearchSync

/-! # The bound of delivery attempts

Every settled failure of a leased event counts one more attempt, until the attempts reach the maximum
of the run that settles it: then the event becomes a dead letter, which no operation delivers,
retries or changes any more. The maximum may be another one in every run. -/

namespace ActiveTs.Outbox

open Prog

variable {T D : Type}

/-! ## Changes of a row -/

abbrev EventRows (D : Type) := String → Option (OutboxEvent D)

def OutboxEvent.attempts (event : OutboxEvent D) : Nat := event.deliveryAttempts.getD 0

/-- What may happen to a row, with the maxima of the runs that settle failures. -/
inductive Change.Allowed (maxima : Nat → Prop) : Change D → Prop
  | created (event : OutboxEvent D) : Allowed maxima ⟨event.id, none, some event⟩
  | removed (id : String) (before : Option (OutboxEvent D)) : Allowed maxima ⟨id, before, none⟩
  /-- Leases come and go. -/
  | kept {id : String} {before after : OutboxEvent D} (alive : before.deadLetteredAt = none)
      (attempts : after.attempts = before.attempts) (still : after.deadLetteredAt = none) :
      Allowed maxima ⟨id, some before, some after⟩
  | retried {id : String} {before after : OutboxEvent D} {maxAttempts : Nat}
      (run : maxima maxAttempts) (alive : before.deadLetteredAt = none)
      (below : before.attempts + 1 < maxAttempts)
      (attempts : after.attempts = before.attempts + 1) (still : after.deadLetteredAt = none) :
      Allowed maxima ⟨id, some before, some after⟩
  | deadLettered {id : String} {before after : OutboxEvent D} {maxAttempts : Nat}
      (run : maxima maxAttempts) (alive : before.deadLetteredAt = none)
      (reached : maxAttempts ≤ before.attempts + 1) (attempts : after.attempts = maxAttempts)
      (dead : after.deadLetteredAt.isSome = true) : Allowed maxima ⟨id, some before, some after⟩

/-- The rows change as the label says, which is of the kind `Z`. -/
def Changes (Z : Change D → Prop) (rows : EventRows D) (ch : Change D) (rows' : EventRows D) :
    Prop :=
  ch.before = rows ch.id ∧ rows' = Function.update rows ch.id ch.after ∧ Z ch

/-- A settled failure: the attempts were counted, or the event became a dead letter. -/
def Change.isSettlement (ch : Change D) : Bool :=
  ch.before.any fun before => ch.after.any fun after =>
    before.attempts != after.attempts || before.deadLetteredAt != after.deadLetteredAt

/-- The settled failures of one event. -/
def settlements (id : String) (changes : List (Change D)) : List (Change D) :=
  changes.filter fun ch => ch.id = id && ch.isSettlement

theorem settlements_append (id : String) (changes changes' : List (Change D)) :
    settlements id (changes ++ changes') = settlements id changes ++ settlements id changes' :=
  List.filter_append ..

/-! ## The bound -/

/-- Where an event stands that began with `start` attempts and whose failures were settled `n`
times, by runs whose maxima are at most `bound`. -/
def Bounded (bound start n : Nat) (event : OutboxEvent D) : Prop :=
  if event.deadLetteredAt.isNone then
    event.attempts = start + n ∧ (n = 0 ∨ event.attempts < bound)
  else n ≤ max 1 (bound - start)

theorem settlements_singleton (id : String) (ch : Change D) :
    (settlements id [ch]).length = if ch.id = id ∧ ch.isSettlement = true then 1 else 0 := by
  rw [settlements]
  split
  · rename_i h
    rw [List.filter_cons_of_pos (by simpa using h)]
    rfl
  · rename_i h
    rw [List.filter_cons_of_neg (by simpa using h)]
    rfl

theorem bounded_alive {bound start n : Nat} {event : OutboxEvent D}
    (h : event.deadLetteredAt = none) :
    Bounded bound start n event ↔
      event.attempts = start + n ∧ (n = 0 ∨ event.attempts < bound) := by
  rw [Bounded, h]
  exact Iff.rfl

theorem bounded_dead {bound start n : Nat} {event : OutboxEvent D}
    (h : event.deadLetteredAt.isSome = true) :
    Bounded bound start n event ↔ n ≤ max 1 (bound - start) := by
  rw [Bounded, Option.isNone_eq_false_iff.mpr h]
  exact Iff.rfl

/-- An update of the row counts where it is a settlement. -/
theorem bounded_step {maxima : Nat → Prop} {bound start n : Nat}
    (hbound : ∀ maxAttempts, maxima maxAttempts → maxAttempts ≤ bound) {before after : OutboxEvent D}
    {id : String} (h : Bounded bound start n before)
    (hch : Change.Allowed maxima ⟨id, some before, some after⟩) :
    Bounded bound start
      (n + (settlements id [(⟨id, some before, some after⟩ : Change D)]).length) after := by
  cases hch with
  | kept halive hattempts hstill =>
    have hlength : (settlements id [(⟨id, some before, some after⟩ : Change D)]).length = 0 := by
      rw [settlements_singleton, if_neg (by simp [Change.isSettlement, halive, hattempts, hstill])]
    rw [hlength, bounded_alive hstill, hattempts]
    exact (bounded_alive halive).mp h
  | retried hrun halive hbelow hattempts hstill =>
    have hlength : (settlements id [(⟨id, some before, some after⟩ : Change D)]).length = 1 := by
      rw [settlements_singleton, if_pos ⟨rfl, by simp [Change.isSettlement, hattempts]⟩]
    obtain ⟨hcount, -⟩ := (bounded_alive halive).mp h
    have hmax := hbound _ hrun
    rw [hlength, bounded_alive hstill, hattempts]
    exact ⟨by omega, .inr (by omega)⟩
  | deadLettered hrun halive hreached hattempts hdead =>
    have hchanged : before.deadLetteredAt ≠ after.deadLetteredAt := by
      rw [halive]
      intro heq
      rw [← heq] at hdead
      cases hdead
    have hlength : (settlements id [(⟨id, some before, some after⟩ : Change D)]).length = 1 := by
      rw [settlements_singleton, if_pos ⟨rfl, by simp [Change.isSettlement, hchanged]⟩]
    obtain ⟨hcount, hbelow⟩ := (bounded_alive halive).mp h
    rw [hlength, bounded_dead hdead]
    rcases hbelow with rfl | hbelow
    · exact Nat.le_max_left _ _
    · exact Nat.le_trans (by omega) (Nat.le_max_right _ _)

/-- While an event is there, its attempts count its settled failures. -/
theorem bounded_run {maxima : Nat → Prop} {bound : Nat}
    (hbound : ∀ maxAttempts, maxima maxAttempts → maxAttempts ≤ bound) {rows rows' : EventRows D}
    {changes : List (Change D)} (h : Steps (Changes (Change.Allowed maxima)) rows changes rows')
    {id : String} {event : OutboxEvent D} (hevent : rows id = some event)
    (halive : event.deadLetteredAt = none)
    (hstays : ∀ ch ∈ changes, ch.id = id → ch.after ≠ none) :
    ∃ event', rows' id = some event' ∧
      Bounded bound event.attempts (settlements id changes).length event' := by
  induction h with
  | nil =>
    refine ⟨event, hevent, ?_⟩
    rw [Bounded, halive]
    exact ⟨rfl, .inl rfl⟩
  | @snoc changes rows₁ ch rows₂ _ hstep ih =>
    obtain ⟨before, hbefore, hcounted⟩ :=
      ih fun ch' hch' => hstays ch' (List.mem_append_left _ hch')
    obtain ⟨hrow, rfl, hallowed⟩ := hstep
    rw [settlements_append, List.length_append]
    by_cases hid : ch.id = id
    · obtain ⟨own, old, new⟩ := ch
      cases hid
      rw [hbefore] at hrow
      cases hrow
      cases hnew : new with
      | none => exact absurd hnew (hstays _ (List.mem_append_right _ (List.mem_singleton.mpr rfl)) rfl)
      | some after =>
        subst hnew
        exact ⟨after, Function.update_self .., bounded_step hbound hcounted hallowed⟩
    · refine ⟨before, ?_, ?_⟩
      · rw [Function.update_of_ne (Ne.symm hid)]
        exact hbefore
      · rw [settlements_singleton, if_neg (fun h => hid h.1)]
        exact hcounted

/-! ## Rows during an operation -/

/-- A dead letter has no lease (`sanitizeOutboxEvent`). -/
def WellLeased (event : OutboxEvent D) : Prop :=
  event.deadLetteredAt.isSome = true → event.leaseToken = none

theorem WellLeased.alive {event : OutboxEvent D} (h : WellLeased event)
    (hleased : event.leaseToken.isSome = true) : event.deadLetteredAt = none := by
  rw [← Option.not_isSome_iff_eq_none]
  intro hdead
  rw [h hdead] at hleased
  cases hleased

theorem wellLeased_of_alive {event : OutboxEvent D} (h : event.deadLetteredAt = none) :
    WellLeased event := by
  intro hdead
  rw [h] at hdead
  cases hdead

theorem sanitizeOutboxEvent_wellLeased {requireModelId : Bool} {event event' : OutboxEvent D}
    (h : sanitizeOutboxEvent requireModelId event = .ok event') : WellLeased event' := by
  obtain ⟨rfl, -⟩ := sanitizeOutboxEvent_ok h
  unfold sanitizeOutboxEvent at h
  intro hdead
  by_contra hleased
  have hboth : (event'.deadLetteredAt.isSome && event'.leaseToken.isSome) = true := by
    rw [hdead, Option.isSome_iff_ne_none.mpr hleased]
    rfl
  simp only [hboth, if_true] at h
  split at h
  · cases h
  · split at h
    · cases h
    · split at h
      · cases h
      · split at h
        · cases h
        · cases h

/-- Every row has the id of its event, and dead letters have no lease. -/
def WellKept (rows : EventRows D) : Prop :=
  ∀ id event, rows id = some event → event.id = id ∧ WellLeased event

/-- The rows came from `start` by changes of the kind `Z`. -/
structure Reached (Z : Change D → Prop) (start rows : EventRows D) : Prop where
  changes : ∃ changes, Steps (Changes Z) start changes rows
  kept : WellKept rows

/-- The task runs alone and makes changes of the kind `Z`. -/
abbrev Alone {α : Type} (Z : Change D → Prop) (start : EventRows D) (P : EventRows D → Prop)
    (p : OutboxTask T D α) (Q : α → EventRows D → Prop) : Prop :=
  Ensures Eq (fun s : World T D => Reached Z start s.events ∧ P s.events) p
    (fun a s => Reached Z start s.events ∧ Q a s.events) fun _ s => Reached Z start s.events

section
variable {α : Type} {Z : Change D → Prop} {start : EventRows D} {P : EventRows D → Prop}
  {Q : α → EventRows D → Prop} {p : OutboxTask T D α} {t : T} {mode : StoreMode}

theorem Reached.setEvent {s : World T D} (h : Reached Z start s.events) {id : String}
    {after : Option (OutboxEvent D)} (hZ : Z ⟨id, s.events id, after⟩)
    (hafter : ∀ event, after = some event → event.id = id ∧ WellLeased event) :
    Reached Z start (s.setEvent t id after).events := by
  obtain ⟨⟨changes, hchanges⟩, hkept⟩ := h
  constructor
  · exact ⟨changes ++ [⟨id, s.events id, after⟩], hchanges.snoc ⟨rfl, rfl, hZ⟩⟩
  · intro id' event hevent
    change Function.update s.events id after id' = some event at hevent
    by_cases hid : id' = id
    · subst hid
      rw [Function.update_self] at hevent
      exact hafter event hevent
    · rw [Function.update_of_ne hid] at hevent
      exact hkept id' event hevent

theorem survives_eq {P : World T D → Prop} : Survives Eq P := by
  rintro s _ h rfl
  exact h

theorem alone_call {f : World T D → World T D × Except OutboxError α}
    (h : ∀ s, Reached Z start s.events → P s.events →
      Reached Z start (f s).1.events ∧ ∀ a, (f s).2 = .ok a → Q a (f s).1.events) :
    Alone Z start P (storeCall f) Q := by
  refine ensures_call survives_eq (fun _ _ h => h) ?_ ?_ ?_
  · intro s a hs ha
    obtain ⟨hreached, hresult⟩ := h s hs.1 hs.2
    exact ⟨hreached, hresult a ha⟩
  · intro s e hs _
    exact (h s hs.1 hs.2).1
  · intro s hs
    exact ⟨hs.1, (h s hs.1 hs.2).1⟩

/-- What holds of no particular rows is known to what follows. -/
theorem Alone.assume {known : Prop} (h : known → Alone Z start P p Q) :
    Alone Z start (fun rows => P rows ∧ known) p Q :=
  fun s r s' hs => h hs.2.2 s r s' ⟨hs.1, hs.2.1⟩

theorem Alone.known {known : Prop} (h : known → Alone Z start (fun _ => True) p Q) :
    Alone Z start (fun _ => known) p Q :=
  fun s r s' hs => h hs.2 s r s' ⟨hs.1, trivial⟩

theorem alone_currentOutboxEvent (id : String) :
    Alone Z start P (currentOutboxEvent id : OutboxTask T D _) fun current rows =>
      (P rows ∧ rows id = current) ∧
        ∀ event, current = some event → event.id = id ∧ WellLeased event := by
  apply alone_call
  intro s hreached hP
  refine ⟨hreached, ?_⟩
  rintro current ⟨⟩
  exact ⟨⟨hP, rfl⟩, hreached.kept id⟩

theorem alone_now : Alone Z start P (now : OutboxTask T D Nat) fun _ => P := by
  refine .atomically survives_eq ?_
  intro c s h
  refine ⟨fun _ _ => h, ?_⟩
  intro e he
  cases he

/-- The row is what the caller has read, since the task runs alone. -/
theorem alone_updateEvent {current next : OutboxEvent D}
    (hP : ∀ rows, P rows → rows next.id = some current)
    (hZ : Z ⟨next.id, some current, some next⟩) (hnext : WellLeased next) :
    Alone Z start P (updateEvent mode t current next) fun _ rows => rows next.id = some next := by
  apply alone_call
  intro s hreached hs
  have hrow := hP _ hs
  rw [World.update, hrow]
  dsimp only
  split
  · refine ⟨hreached, ?_⟩
    intro a ha
    cases ha
  · refine ⟨hreached.setEvent (by rw [hrow]; exact hZ) ?_, ?_⟩
    · rintro event ⟨⟩
      exact ⟨rfl, hnext⟩
    · intro _ _
      exact Function.update_self ..

theorem alone_append {event : OutboxEvent D} (hZ : Z ⟨event.id, none, some event⟩)
    (hevent : WellLeased event) :
    Alone Z start P (append t event) fun _ rows => rows event.id = some event := by
  apply alone_call
  intro s hreached _
  rw [World.create]
  split
  · refine ⟨hreached, ?_⟩
    intro a ha
    cases ha
  · rename_i hnone
    rw [Option.not_isSome_iff_eq_none] at hnone
    refine ⟨hreached.setEvent (by rw [hnone]; exact hZ) ?_, ?_⟩
    · rintro _ ⟨⟩
      exact ⟨rfl, hevent⟩
    · intro _ _
      exact Function.update_self ..

theorem alone_delete (id : String) (expectedVersion : Option Nat)
    (hZ : ∀ before, Z ⟨id, before, none⟩) :
    Alone Z start P (storeCall fun s : World T D => s.delete t id expectedVersion)
      fun _ _ => True := by
  apply alone_call
  intro s hreached _
  have hdeleted : Reached Z start (s.setEvent t id none).events := by
    refine hreached.setEvent (hZ _) ?_
    intro event h
    cases h
  refine ⟨?_, fun _ _ => trivial⟩
  rw [World.delete]
  split
  · split
    · exact hreached
    · exact hdeleted
  · split
    · exact hreached
    · exact hdeleted

theorem Alone.pure {a : α} (h : ∀ rows, P rows → Q a rows) :
    Alone Z start P (pure a : OutboxTask T D α) Q :=
  Ensures.pure fun _ hs => ⟨hs.1, h _ hs.2⟩

theorem Alone.throw (e : OutboxError) : Alone Z start P (throw e : OutboxTask T D α) Q :=
  Ensures.throw fun _ hs => hs.1

theorem Alone.bind {β : Type} {R : β → EventRows D → Prop} {f : α → OutboxTask T D β}
    (h : Alone Z start P p Q) (hf : ∀ a, Alone Z start (Q a) (f a) R) :
    Alone Z start P (p >>= f) R :=
  Ensures.bind h hf

theorem Alone.weaken {P' : EventRows D → Prop} {Q' : α → EventRows D → Prop}
    (h : Alone Z start P p Q) (hP : ∀ rows, P' rows → P rows)
    (hQ : ∀ a rows, Q a rows → Q' a rows) : Alone Z start P' p Q' :=
  Ensures.weaken h (fun _ hs => ⟨hs.1, hP _ hs.2⟩) (fun a _ hs => ⟨hs.1, hQ a _ hs.2⟩) fun _ _ h => h

theorem Alone.attempt (h : Alone Z start P p Q) :
    Alone Z start P p.attempt fun r rows => ∀ a, r = .ok a → Q a rows := by
  have hattempt : Ensures _ _ _ _ fun _ (s : World T D) => Reached Z start s.events :=
    Ensures.attempt h
  refine Ensures.weaken hattempt (fun _ h => h) ?_ fun _ _ h => h
  intro r s hr
  cases r with
  | ok a =>
    refine ⟨(hr.1 a rfl).1, ?_⟩
    rintro _ ⟨⟩
    exact (hr.1 a rfl).2
  | error e =>
    refine ⟨hr.2 e rfl, ?_⟩
    intro a ha
    cases ha

theorem Alone.transaction (h : Alone Z start P p Q) : Alone Z start P (transaction p) Q :=
  ensures_inTransaction survives_eq (fun _ _ h => h) h (fun _ _ hs => hs.1) fun _ _ hs => hs.1

theorem Alone.orConflict {answer : α} (h : Alone Z start P p Q) (hanswer : ∀ rows, Q answer rows) :
    Alone Z start P (orConflict answer p) Q :=
  ensures_orConflict h fun _ _ hs _ => ⟨hs, hanswer _⟩

theorem Alone.eachSettled {β : Type} {f : β → OutboxTask T D Unit} {l : List β}
    (h : ∀ b ∈ l, Alone Z start (fun _ => True) (f b) fun _ _ => True) :
    Alone Z start (fun _ => True) (eachSettled f l) fun _ _ => True := by
  induction l with
  | nil => exact .pure fun _ _ => trivial
  | cons b rest ih =>
    refine .bind (h b List.mem_cons_self).attempt fun r => ?_
    refine .bind ((ih fun b' hb' => h b' (List.mem_cons_of_mem _ hb')).weaken (fun _ _ => trivial)
      fun _ _ h => h) fun _ => ?_
    cases r with
    | ok u => exact .pure fun _ _ => trivial
    | error e => exact .throw e

end

/-! ## The operations -/

section
variable [DecidableEq D] {maxima : Nat → Prop} {start : EventRows D} {t : T} {mode : StoreMode}

omit [DecidableEq D] in
/-- A new or extended lease, or its end. -/
theorem alone_relet {P : EventRows D → Prop} {current next : OutboxEvent D}
    (hP : ∀ rows, P rows → rows next.id = some current) (halive : current.deadLetteredAt = none)
    (hattempts : next.attempts = current.attempts) (hstill : next.deadLetteredAt = none) :
    Alone (Change.Allowed maxima) start P (updateEvent mode t current next) fun _ _ => True :=
  (alone_updateEvent hP (.kept halive hattempts hstill) (wellLeased_of_alive hstill)).weaken
    (fun _ h => h) fun _ _ _ => trivial

theorem alone_claimRun (event : OutboxEvent D) (token : String) (expiresAt now : Nat) :
    Alone (Change.Allowed maxima) start (fun _ => True)
      (claimRun mode t event token expiresAt now) fun _ _ => True := by
  refine .bind (alone_currentOutboxEvent _) fun found => .assume fun hfound => ?_
  split
  · exact .pure fun _ _ => trivial
  · rename_i current hcurrent
    obtain ⟨rfl, hclaimable⟩ := Option.filter_eq_some_iff.mp hcurrent
    have halive : current.deadLetteredAt = none := by
      simp only [isClaimable, Bool.and_eq_true, Option.isNone_iff_eq_none] at hclaimable
      exact hclaimable.1.1.1
    refine .bind (Q := fun _ _ => True) (alone_relet ?_ halive rfl halive) fun _ =>
      .pure fun _ _ => trivial
    intro rows hrows
    change rows current.id = some current
    rw [(hfound current rfl).1]
    exact hrows.2

theorem alone_claimOutboxLease (event : OutboxEvent D) (token : String) (expiresAt now : Nat) :
    Alone (Change.Allowed maxima) start (fun _ => True)
      (claimOutboxLease mode t event token expiresAt now) fun _ _ => True := by
  rw [claimOutboxLease]
  split
  · exact alone_claimRun event token expiresAt now
  · exact (alone_claimRun event token expiresAt now).transaction

theorem isLeaseHeld_leased {event current : OutboxEvent D} {now : Nat}
    (h : isLeaseHeld event now (some current) = true) :
    current = event ∧ event.leaseToken.isSome = true := by
  simp only [isLeaseHeld, Option.any_some, Bool.and_eq_true] at h
  refine ⟨of_decide_eq_true h.1, ?_⟩
  cases hlease : event.leaseToken with
  | none =>
    rw [hlease] at h
    cases h.2
  | some token => rfl

theorem alone_renewRun (event : OutboxEvent D) (token : String) (expiresAt now : Nat) :
    Alone (Change.Allowed maxima) start (fun _ => True)
      (renewRun mode t event token expiresAt now) fun _ _ => True := by
  refine .bind (alone_currentOutboxEvent _) fun found => .assume fun hfound => ?_
  split
  · exact .pure fun _ _ => trivial
  · rename_i current hcurrent
    obtain ⟨rfl, hheld⟩ := Option.filter_eq_some_iff.mp hcurrent
    obtain ⟨rfl, hleased⟩ := isLeaseHeld_leased hheld
    have halive := (hfound current rfl).2.alive hleased
    refine .bind (Q := fun _ _ => True) (alone_relet ?_ halive rfl halive) fun _ =>
      .pure fun _ _ => trivial
    exact fun rows hrows => hrows.2

theorem alone_renewLease (event : OutboxEvent D) :
    Alone (Change.Allowed maxima) start (fun _ => True) (renewLease mode t event)
      fun _ _ => True := by
  rw [renewLease]
  split
  · exact .throw _
  · rename_i token _
    refine .bind alone_now fun now => .orConflict ?_ fun _ => trivial
    split
    · exact alone_renewRun event token _ now
    · split
      · exact (alone_renewRun event token _ now).transaction
      · exact .throw _

omit [DecidableEq D] in
theorem alone_releaseRun (events : List (OutboxEvent D)) :
    Alone (Change.Allowed maxima) start (fun _ => True) (releaseRun mode t events)
      fun _ _ => True := by
  induction events with
  | nil => exact .pure fun _ _ => trivial
  | cons event rest ih =>
    rw [releaseRun]
    split
    · rename_i hleased
      refine .bind (alone_currentOutboxEvent _) fun found => .assume fun hfound => ?_
      have hrest : Alone _ start (fun rows => True ∧ rows event.id = found) _ _ :=
        ih.weaken (fun _ _ => trivial) fun _ _ h => h
      split
      · exact hrest
      · rename_i current hcurrent
        obtain ⟨rfl, hsame⟩ := Option.filter_eq_some_iff.mp hcurrent
        obtain ⟨hid, hwell⟩ := hfound current rfl
        have halive : current.deadLetteredAt = none := by
          apply hwell.alive
          rw [of_decide_eq_true hsame]
          exact hleased
        refine .bind (.orConflict (alone_relet ?_ halive rfl halive) fun _ => trivial) fun _ => ih
        intro rows hrows
        change rows current.id = some current
        rw [hid]
        exact hrows.2
    · exact ih

omit [DecidableEq D] in
theorem alone_release (events : List (OutboxEvent D)) :
    Alone (Change.Allowed maxima) start (fun _ => True) (release mode t events)
      fun _ _ => True := by
  rw [release]
  split
  · exact .eachSettled fun event _ => (alone_releaseRun [event]).transaction
  · exact alone_releaseRun events

/-! ### Settled failures -/

/-- The event that replaces the one of the failure. -/
def Disposition.event (disposition : Disposition) (failure : DeliveryFailure D) :
    Option (OutboxEvent D) :=
  match disposition with
  | .retry => outboxRetryEvent failure
  | .deadLetter => outboxDeadLetterEvent failure

/-- The disposition that the worker chooses for the failure. -/
def Disposition.Fits (disposition : Disposition) (failure : DeliveryFailure D) : Prop :=
  match disposition with
  | .retry => failure.attempt < failure.maxAttempts
  | .deadLetter => failure.maxAttempts ≤ failure.attempt

/-- A failure of a leased event, with the attempts that the worker counts. -/
structure Counted (maxima : Nat → Prop) (disposition : Disposition) (failure : DeliveryFailure D)
    (source : OutboxEvent D) : Prop where
  leased : source.leaseToken.isSome = true
  run : maxima failure.maxAttempts
  attempt : failure.attempt = min failure.maxAttempts (source.attempts + 1)
  fits : disposition.Fits failure

omit [DecidableEq D] in
theorem Counted.not_isNone {disposition : Disposition} {failure : DeliveryFailure D}
    {source : OutboxEvent D} (h : Counted maxima disposition failure source) :
    ¬ source.leaseToken.isNone = true := by
  rw [Option.isNone_iff_eq_none]
  exact Option.isSome_iff_ne_none.mp h.leased

omit [DecidableEq D] in
theorem outboxRetryEvent_parts {failure : DeliveryFailure D} {source next : OutboxEvent D}
    (hsource : failure.event = some source) (h : outboxRetryEvent failure = some next) :
    next.id = source.id ∧ next.attempts = failure.attempt ∧ next.deadLetteredAt = none := by
  unfold outboxRetryEvent at h
  rw [hsource] at h
  split at h
  · rename_i heq _
    cases heq
    obtain ⟨rfl, -⟩ := sanitizeOutboxEvent_ok (Except.toOption_eq_some.mp h)
    exact ⟨rfl, rfl, rfl⟩
  · cases h

omit [DecidableEq D] in
theorem outboxDeadLetterEvent_eq_some {failure : DeliveryFailure D} {source next : OutboxEvent D}
    (hsource : failure.event = some source) (h : outboxDeadLetterEvent failure = some next) :
    next.id = source.id ∧ next.attempts = failure.attempt ∧ next.deadLetteredAt.isSome = true ∧
      WellLeased next := by
  unfold outboxDeadLetterEvent at h
  rw [hsource] at h
  dsimp only at h
  have hsanitized := Except.toOption_eq_some.mp h
  obtain ⟨rfl, -⟩ := sanitizeOutboxEvent_ok hsanitized
  exact ⟨rfl, rfl, rfl, sanitizeOutboxEvent_wellLeased hsanitized⟩

omit [DecidableEq D] in
/-- What settles a failure is a retry or a dead letter of its event. -/
theorem Counted.allowed {disposition : Disposition} {failure : DeliveryFailure D}
    {source next : OutboxEvent D} (h : Counted maxima disposition failure source)
    (hwell : WellLeased source) (hsource : failure.event = some source)
    (hnext : disposition.event failure = some next) :
    next.id = source.id ∧ WellLeased next ∧
      Change.Allowed maxima ⟨next.id, some source, some next⟩ := by
  have halive := hwell.alive h.leased
  have hattempt := h.attempt
  have hfits := h.fits
  cases disposition with
  | retry =>
    obtain ⟨hid, hattempts, hstill⟩ := outboxRetryEvent_parts hsource hnext
    change failure.attempt < failure.maxAttempts at hfits
    exact ⟨hid, wellLeased_of_alive hstill,
      .retried h.run halive (by omega) (by omega) hstill⟩
  | deadLetter =>
    obtain ⟨hid, hattempts, hdead, hnextWell⟩ := outboxDeadLetterEvent_eq_some hsource hnext
    change failure.maxAttempts ≤ failure.attempt at hfits
    exact ⟨hid, hnextWell, .deadLettered h.run halive (by omega) (by omega) hdead⟩

omit [DecidableEq D] in
theorem alone_settled {Z : Change D → Prop} {P : EventRows D → Prop} (disposition : Disposition)
    (failure : DeliveryFailure D) :
    Alone Z start P (disposition.settled failure : OutboxTask T D _)
      fun next rows => P rows ∧ disposition.event failure = some next := by
  cases disposition with
  | retry =>
    unfold Disposition.settled Disposition.event
    cases outboxRetryEvent failure with
    | none => exact .throw _
    | some next => exact .pure fun _ h => ⟨h, rfl⟩
  | deadLetter =>
    unfold Disposition.settled Disposition.event
    cases outboxDeadLetterEvent failure with
    | none => exact .throw _
    | some next => exact .pure fun _ h => ⟨h, rfl⟩

theorem alone_settleRun (disposition : Disposition) (failures : List (DeliveryFailure D))
    (h : ∀ failure ∈ failures, ∀ source, failure.event = some source →
      Counted maxima disposition failure source) :
    Alone (Change.Allowed maxima) start (fun _ => True) (settleRun mode t disposition failures)
      fun _ _ => True := by
  induction failures with
  | nil => exact .pure fun _ _ => trivial
  | cons failure rest ih =>
    have ih := ih fun failure hfailure => h failure (List.mem_cons_of_mem _ hfailure)
    unfold settleRun
    split
    · exact .throw _
    · rename_i source hsource
      have hcounted := h failure List.mem_cons_self source hsource
      refine .bind (alone_currentOutboxEvent _) fun found => .assume fun hfound => ?_
      have hrest : Alone _ start (fun rows => True ∧ rows source.id = found) _ _ :=
        ih.weaken (fun _ _ => trivial) fun _ _ h => h
      split
      · -- A leased event whose row is gone is not put back.
        rw [if_neg hcounted.not_isNone]
        exact hrest
      · rename_i current
        split
        · rename_i hcurrent
          obtain rfl : current = source := of_decide_eq_true hcurrent
          have hwell := (hfound current rfl).2
          have hfailure : { failure with event := some current } = failure := by
            rw [← hsource]
          rw [hfailure]
          refine .bind (alone_settled disposition failure) fun next => .assume fun hnext => ?_
          obtain ⟨hid, hnextWell, hallowed⟩ := hcounted.allowed hwell hsource hnext
          refine .bind (Q := fun _ _ => True) ?_ fun _ => ih
          refine (alone_updateEvent ?_ hallowed hnextWell).weaken (fun _ h => h) fun _ _ _ => trivial
          intro rows hrows
          rw [hid]
          exact hrows.2
        · exact hrest

/-- Where the row is still the source, the settlement replaces it. -/
theorem alone_settleRun_current (disposition : Disposition) {failure : DeliveryFailure D}
    {source : OutboxEvent D} (hsource : failure.event = some source)
    (hcounted : Counted maxima disposition failure source) :
    Alone (Change.Allowed maxima) start (fun rows => rows source.id = some source)
      (settleRun mode t disposition [failure]) fun _ rows =>
        ∃ next, disposition.event failure = some next ∧ rows source.id = some next := by
  unfold settleRun
  rw [hsource]
  refine .bind (alone_currentOutboxEvent _) fun found => .assume fun hfound => ?_
  cases found with
  | none =>
    rintro s r s' ⟨-, hsome, hnone⟩
    rw [hsome] at hnone
    cases hnone
  | some current =>
    by_cases hcurrent : isOutboxSnapshotCurrent current source = true
    · obtain rfl : current = source := of_decide_eq_true hcurrent
      have hwell := (hfound current rfl).2
      have hfailure : { failure with event := some current } = failure := by
        rw [← hsource]
      dsimp only
      rw [if_pos hcurrent, hfailure]
      refine .bind (alone_settled disposition failure) fun next => .assume fun hnext => ?_
      obtain ⟨hid, hnextWell, hallowed⟩ := hcounted.allowed hwell hsource hnext
      refine .bind (alone_updateEvent ?_ hallowed hnextWell) fun _ => .pure ?_
      · intro rows hrows
        rw [hid]
        exact hrows.2
      · intro rows hrows
        rw [hid] at hrows
        exact ⟨next, hnext, hrows⟩
    · rintro s r s' ⟨-, hsome, hfoundRow⟩
      rw [hsome] at hfoundRow
      cases hfoundRow
      exact absurd (decide_eq_true rfl) hcurrent

theorem alone_settleDeliveryFailures (disposition : Disposition)
    (failures : List (DeliveryFailure D))
    (h : ∀ failure ∈ failures, ∀ source, failure.event = some source →
      Counted maxima disposition failure source) :
    Alone (Change.Allowed maxima) start (fun _ => True)
      (settleDeliveryFailures mode t disposition failures) fun _ _ => True := by
  rw [settleDeliveryFailures]
  split
  · exact .throw _
  · split
    · refine .eachSettled fun failure hfailure => (alone_settleRun disposition [failure] ?_).transaction
      intro other hother
      cases List.mem_singleton.mp hother
      exact h failure hfailure
    · split
      · exact (alone_settleRun disposition failures h).transaction
      · exact alone_settleRun disposition failures h

omit [DecidableEq D] in
theorem alone_eachSettled_singleton {α : Type} {Z : Change D → Prop} {P : EventRows D → Prop}
    {Q : EventRows D → Prop} {f : α → OutboxTask T D Unit} {a : α}
    (h : Alone Z start P (f a) fun _ => Q) : Alone Z start P (eachSettled f [a]) fun _ => Q := by
  refine .bind h.attempt fun r => ?_
  refine .bind (Q := fun _ rows => ∀ u, r = .ok u → Q rows) (.pure fun _ h => h) fun _ => ?_
  cases r with
  | ok u => exact .pure fun rows hrows => hrows u rfl
  | error e => exact .throw e

theorem alone_settleDeliveryFailures_current (disposition : Disposition)
    {failure : DeliveryFailure D} {source : OutboxEvent D} (hsource : failure.event = some source)
    (hcounted : Counted maxima disposition failure source) :
    Alone (Change.Allowed maxima) start (fun rows => rows source.id = some source)
      (settleDeliveryFailures mode t disposition [failure]) fun _ rows =>
        ∃ next, disposition.event failure = some next ∧ rows source.id = some next := by
  have hrun : Alone (Change.Allowed maxima) start (fun rows => rows source.id = some source)
      (settleRun mode t disposition [failure]) _ :=
    alone_settleRun_current disposition hsource hcounted
  rw [settleDeliveryFailures, if_neg (by simp [hsource])]
  split
  · exact alone_eachSettled_singleton hrun.transaction
  · split
    · exact hrun.transaction
    · exact hrun

/-! ### Acknowledgements -/

theorem alone_ackChecks (now : Nat) (batch : List (OutboxEvent D)) :
    Alone (Change.Allowed maxima) start (fun _ => True) (ackChecks now batch : OutboxTask T D _)
      fun r _ => ∀ currentEvents, r = some currentEvents →
        ∀ event ∈ currentEvents, WellLeased event := by
  induction batch with
  | nil =>
    refine .pure ?_
    rintro rows _ _ ⟨⟩ event hevent
    cases hevent
  | cons event rest ih =>
    refine .bind (alone_currentOutboxEvent _) fun found => .assume fun hfound => ?_
    split
    · refine .pure ?_
      rintro rows _ currentEvents ⟨⟩
    · rename_i current hcurrent
      obtain ⟨rfl, -⟩ := Option.filter_eq_some_iff.mp hcurrent
      refine .bind (ih.weaken (fun _ _ => trivial) fun _ _ h => h) fun r => .pure ?_
      intro rows hrest currentEvents hevents other hother
      obtain ⟨rest', hrest', rfl⟩ := Option.map_eq_some_iff.mp hevents
      rcases List.mem_cons.mp hother with rfl | hother
      · exact (hfound other rfl).2
      · exact hrest rest' hrest' other hother

omit [DecidableEq D] in
theorem alone_reinsertDeletedEvents (deleted : List (OutboxEvent D))
    (hdeleted : ∀ event ∈ deleted, WellLeased event) :
    Alone (Change.Allowed maxima) start (fun _ => True) (reinsertDeletedEvents t deleted)
      fun _ _ => True := by
  induction deleted with
  | nil => exact .pure fun _ _ => trivial
  | cons event rest ih =>
    have hput : Alone (Change.Allowed maxima) start (fun _ => True) (reinsertDeletedEvent t event)
        fun _ _ => True := by
      refine .bind (alone_currentOutboxEvent _) fun found => .assume fun _ => ?_
      split
      · exact (alone_append (.created event) (hdeleted event List.mem_cons_self)).weaken
          (fun _ h => h) fun _ _ _ => trivial
      · exact .pure fun _ _ => trivial
    refine .bind hput.attempt fun _ => ?_
    refine .bind ((ih fun event hevent => hdeleted event (List.mem_cons_of_mem _ hevent)).weaken
      (fun _ _ => trivial) fun _ _ h => h) fun _ => ?_
    exact .pure fun _ _ => trivial

omit [DecidableEq D] in
theorem alone_ackDeletes (recoverDeletes : Bool) (batch deleted : List (OutboxEvent D))
    (hbatch : ∀ event ∈ batch, WellLeased event) (hdeleted : ∀ event ∈ deleted, WellLeased event) :
    Alone (Change.Allowed maxima) start (fun _ => True)
      (ackDeletes mode t recoverDeletes batch deleted) fun _ _ => True := by
  induction batch generalizing deleted with
  | nil => exact .pure fun _ _ => trivial
  | cons current rest ih =>
    have hdeleted' : ∀ event ∈ deleted ++ [current], WellLeased event := by
      intro event hevent
      rcases List.mem_append.mp hevent with hevent | hevent
      · exact hdeleted event hevent
      · rw [List.mem_singleton.mp hevent]
        exact hbatch current List.mem_cons_self
    refine .bind (alone_delete _ _ fun before => .removed _ before).attempt fun result => ?_
    cases result with
    | ok u =>
      exact (ih _ (fun event hevent => hbatch event (List.mem_cons_of_mem _ hevent)) hdeleted').weaken
        (fun _ _ => trivial) fun _ _ h => h
    | error e =>
      have hback : ∀ events : List (OutboxEvent D), (∀ event ∈ events, WellLeased event) →
          ∀ {P : EventRows D → Prop}, Alone (Change.Allowed maxima) start P
            (reinsertDeletedEvents t events) fun _ _ => True := fun events hevents _ =>
        (alone_reinsertDeletedEvents events hevents).weaken (fun _ _ => trivial) fun _ _ h => h
      dsimp only
      split
      · split
        · refine .bind (hback deleted hdeleted) fun back => ?_
          split
          · exact .pure fun _ _ => trivial
          · exact .throw _
        · refine .bind (hback _ hdeleted') fun back => ?_
          split
          · exact .throw _
          · exact .throw _
      · exact .throw _

theorem alone_ackRun (recoverDeletes : Bool) (batch : List (OutboxEvent D)) (now : Nat) :
    Alone (Change.Allowed maxima) start (fun _ => True)
      (ackRun mode t recoverDeletes batch now) fun _ _ => True := by
  refine .bind (alone_ackChecks now batch) fun r => ?_
  cases r with
  | none => exact .pure fun _ _ => trivial
  | some currentEvents =>
    refine .known fun hwell => ?_
    exact alone_ackDeletes recoverDeletes currentEvents [] (hwell currentEvents rfl)
      fun event hevent => absurd hevent List.not_mem_nil

theorem alone_ackEach (events : List (OutboxEvent D)) :
    Alone (Change.Allowed maxima) start (fun _ => True) (ackEach mode t events)
      fun _ _ => True := by
  induction events with
  | nil => exact .pure fun _ _ => trivial
  | cons event rest ih =>
    refine .bind alone_now fun now => ?_
    refine .bind (.orConflict (alone_ackRun false [event] now).transaction fun _ => trivial)
      fun acknowledged => ?_
    split
    · exact ih
    · exact .pure fun _ _ => trivial

theorem alone_ack (events : List (OutboxEvent D)) :
    Alone (Change.Allowed maxima) start (fun _ => True) (ack mode t events) fun _ _ => True := by
  rw [ack]
  split
  · exact alone_ackEach events
  · refine .bind alone_now fun now => ?_
    split
    · exact .orConflict (alone_ackRun false events now).transaction fun _ => trivial
    · exact alone_ackRun true events now

/-! ### A worker's settlement -/

/-- A failure as the event loop makes it: the delivery of a leased event, whose lease may have been
renewed meanwhile. -/
def FromDelivery (pending : PendingFailure D) : Prop :=
  ∀ source, pending.event = some source → ∃ event renewal, pending.value = .event event ∧
    source = event.renew renewal ∧ event.leaseToken.isSome = true ∧
      event.attempts ≤ MAX_SAFE_INTEGER

omit [DecidableEq D] in
theorem sanitizeOutboxEvent_attempts {requireModelId : Bool} {event event' : OutboxEvent D}
    (h : sanitizeOutboxEvent requireModelId event = .ok event') :
    event'.attempts ≤ MAX_SAFE_INTEGER := by
  obtain ⟨rfl, -⟩ := sanitizeOutboxEvent_ok h
  unfold sanitizeOutboxEvent at h
  split at h
  · cases h
  · split at h
    · cases h
    · split at h
      · cases h
      · rename_i hattempts
        exact Nat.le_of_not_lt hattempts

omit [DecidableEq D] in
theorem fromDelivery_fail {s : LoopState D} (hs : ∀ pf ∈ s.deliveryFailures, FromDelivery pf)
    {index : Nat} {raw : RawEntry D} {event : Option (OutboxEvent D)} {error : WorkerError}
    (h : FromDelivery ⟨⟨index, raw⟩, event, error⟩) :
    ∀ pf ∈ (s.fail index raw event error).deliveryFailures, FromDelivery pf := by
  intro pf hpf
  rw [LoopState.fail] at hpf
  dsimp only at hpf
  split at hpf
  · exact hs pf hpf
  · rcases List.mem_append.mp hpf with hpf | hpf
    · exact hs pf hpf
    · rw [List.mem_singleton.mp hpf]
      exact h

omit [DecidableEq D] in
theorem fromDelivery_visit
    {documentIdentity : String → Option String → EntityId → Option DatastoreKey → String}
    {env : Environment D} {s : LoopState D} (hs : ∀ pf ∈ s.deliveryFailures, FromDelivery pf)
    (index : Nat) {raw : RawEntry D}
    (hraw : ∀ event, raw = .event event → event.leaseToken.isSome = true) :
    ∀ pf ∈ (visit documentIdentity env s index raw).deliveryFailures, FromDelivery pf := by
  rw [visit]
  split
  · exact hs
  · split
    · change ∀ pf ∈ (s.fail index raw none ⟨"validation", false⟩).deliveryFailures, FromDelivery pf
      refine fromDelivery_fail hs ?_
      intro source hsource
      cases hsource
    · rename_i event hsanitize
      split
      · exact hs
      · dsimp only
        split
        · exact hs
        · exact hs
        · rename_i error _
          change ∀ pf ∈ (s.fail index raw (some (event.renew _)) error).deliveryFailures,
            FromDelivery pf
          refine fromDelivery_fail hs ?_
          rintro source ⟨⟩
          obtain ⟨rfl, -⟩ := RawEntry.sanitize_ok hsanitize
          exact ⟨event, _, rfl, rfl, hraw event rfl, sanitizeOutboxEvent_attempts hsanitize⟩

omit [DecidableEq D] in
/-- The failures of a leased batch come from its deliveries. -/
theorem fromDelivery_eventLoop
    {documentIdentity : String → Option String → EntityId → Option DatastoreKey → String}
    {env : Environment D} {batch : List (RawEntry D)}
    (hbatch : ∀ event, RawEntry.event event ∈ batch → event.leaseToken.isSome = true) :
    ∀ pf ∈ (eventLoop documentIdentity env batch).deliveryFailures, FromDelivery pf := by
  have hloop : ∀ (entries : List (Pending D)) (s : LoopState D),
      (∀ entry ∈ entries, ∀ event, entry.value = .event event → event.leaseToken.isSome = true) →
      (∀ pf ∈ s.deliveryFailures, FromDelivery pf) →
      ∀ pf ∈ (entries.foldl (fun s entry => visit documentIdentity env s entry.index entry.value)
        s).deliveryFailures, FromDelivery pf := by
    intro entries
    induction entries with
    | nil => exact fun _ _ hs => hs
    | cons entry rest ih =>
      intro s hentries hs
      refine ih _ (fun other hother => hentries other (List.mem_cons_of_mem _ hother)) ?_
      exact fromDelivery_visit hs entry.index (hentries entry List.mem_cons_self)
  refine hloop _ _ ?_ ?_
  · intro entry hentry event hevent
    refine hbatch event ?_
    have hmem : entry.value ∈ batch := by
      have hvalues : ∀ (start : Nat) (l : List (RawEntry D)),
          (indexed start l).map Pending.value = l := by
        intro start l
        induction l generalizing start with
        | nil => rfl
        | cons raw rest ih => rw [indexed, List.map_cons, ih]
      rw [← hvalues 0 batch]
      exact List.mem_map_of_mem hentry
    rw [← hevent]
    exact hmem
  · intro pf hpf
    cases hpf

omit [DecidableEq D] in
theorem FromDelivery.counted {opts : WorkerOptions} {env : Environment D}
    {pending : PendingFailure D} (h : FromDelivery pending) {failure : DeliveryFailure D}
    (hcreate : createSearchSyncDeliveryFailure opts env pending = some failure)
    {disposition : Disposition} (hfits : disposition.Fits failure) {source : OutboxEvent D}
    (hsource : failure.event = some source) :
    Counted (· = opts.maxAttempts) disposition failure source := by
  obtain ⟨hevent, hmax, hattempt⟩ := createSearchSyncDeliveryFailure_eq_some hcreate
  rw [hevent] at hsource
  obtain ⟨event, renewal, hvalue, rfl, hleased, hsafe⟩ := h source hsource
  have hsame : (event.renew renewal).deliveryAttempts = event.deliveryAttempts ∧
      (event.renew renewal).leaseToken = event.leaseToken := by
    cases renewal <;> exact ⟨rfl, rfl⟩
  constructor
  · rw [hsame.2]
    exact hleased
  · exact hmax
  · rw [hattempt, hmax, hsource, hvalue, OutboxEvent.attempts, Option.bind_some, hsame.1]
    cases hattempts : event.deliveryAttempts with
    | some attempts => rfl
    | none => simp [RawEntry.deliveryAttempts, hattempts]
  · exact hfits

theorem alone_settleDeadLetters {cfg : SearchSync D}
    (deadLetters : List (PendingFailure D × DeliveryFailure D))
    (h : ∀ x ∈ deadLetters, ∀ source, x.2.event = some source →
      Counted maxima .deadLetter x.2 source) :
    Alone (Change.Allowed maxima) start (fun _ => True) (settleDeadLetters cfg t deadLetters)
      fun _ _ => True := by
  rw [settleDeadLetters]
  split
  · exact .pure fun _ _ => trivial
  · refine .bind (Q := fun _ _ => True) (Alone.weaken (Alone.attempt (Q := fun _ _ => True) ?_)
      (fun _ h => h) fun _ _ _ => trivial) fun handled => .pure fun _ _ => trivial
    split
    · refine .bind (Q := fun _ _ => True) (alone_call fun s hs _ => ⟨hs, fun _ _ => trivial⟩)
        fun _ => ?_
      exact .bind (alone_ack _) fun _ => .pure fun _ _ => trivial
    · apply alone_settleDeliveryFailures
      intro failure hfailure
      obtain ⟨x, hx, rfl⟩ := List.mem_map.mp hfailure
      exact h x hx

theorem alone_settleRetries {cfg : SearchSync D}
    (retries : List (PendingFailure D × DeliveryFailure D))
    (h : ∀ x ∈ retries, ∀ source, x.2.event = some source → Counted maxima .retry x.2 source) :
    Alone (Change.Allowed maxima) start (fun _ => True) (settleRetries cfg t retries)
      fun _ _ => True := by
  rw [settleRetries]
  split
  · exact .pure fun _ _ => trivial
  · refine .bind (Q := fun _ _ => True) (Alone.weaken (Alone.attempt (Q := fun _ _ => True) ?_)
      (fun _ h => h) fun _ _ _ => trivial) fun handled => .pure fun _ _ => trivial
    apply alone_settleDeliveryFailures
    intro failure hfailure
    obtain ⟨x, hx, rfl⟩ := List.mem_map.mp hfailure
    exact h x hx

theorem alone_settleLeasedFailures (cfg : SearchSync D) (failures : List (PendingFailure D))
    (deferred : List (Pending D)) (h : ∀ pending ∈ failures, FromDelivery pending) :
    Alone (Change.Allowed (· = cfg.options.maxAttempts)) start (fun _ => True)
      (settleLeasedFailures cfg t failures deferred) fun _ _ => True := by
  refine .bind (Q := fun split _ => ∃ env, split.Sound cfg.options env failures) ?_
    fun split => ?_
  · refine .atomically survives_eq ?_
    intro c s hs
    constructor
    · rintro _ ⟨⟩
      exact ⟨hs.1, c.settling, splitFailures_sound _ _ _⟩
    · intro e he
      cases he
  · refine .known ?_
    rintro ⟨env, hsplit⟩
    refine .bind (alone_settleDeadLetters split.deadLetters ?_) fun _ =>
      .bind (alone_settleRetries split.retries ?_) fun _ => ?_
    · intro x hx source hsource
      obtain ⟨hmem, hcreate, hfits⟩ := hsplit.deadLetters x hx
      exact (h x.1 hmem).counted hcreate (show Disposition.Fits .deadLetter x.2 from hfits) hsource
    · intro x hx source hsource
      obtain ⟨hmem, hcreate, hfits⟩ := hsplit.retries x hx
      exact (h x.1 hmem).counted hcreate (show Disposition.Fits .retry x.2 from hfits) hsource
    · exact .bind (alone_release _).attempt fun _ => .pure fun _ _ => trivial

/-! ### Leases of a batch -/

theorem alone_claimPage
    (documentIdentity : String → Option String → EntityId → Option DatastoreKey → String)
    (limit : Option Nat) (token : String) (expiresAt now : Nat) (page : List (OutboxEvent D))
    (blocked : List String) (leased : List (OutboxEvent D)) :
    Alone (Change.Allowed maxima) start (fun _ => True)
      (claimPage mode t documentIdentity limit token expiresAt now page blocked leased)
      fun _ _ => True := by
  induction page generalizing blocked leased with
  | nil => exact .pure fun _ _ => trivial
  | cons event rest ih =>
    rw [claimPage]
    split
    · exact .pure fun _ _ => trivial
    · split
      · exact ih _ _
      · split
        · exact ih _ _
        · refine .bind (Q := fun _ _ => True)
            ((alone_claimOutboxLease event token expiresAt now).attempt.weaken (fun _ h => h)
              fun _ _ _ => trivial) fun claim => ?_
          split
          · exact ih _ _
          · exact ih _ _
          · split
            · exact .bind ((alone_currentOutboxEvent _).weaken (fun _ h => h) fun _ _ _ => trivial)
                fun _ => ih _ _
            · exact .bind (alone_release _) fun _ => .throw _

theorem alone_leasePages
    (documentIdentity : String → Option String → EntityId → Option DatastoreKey → String)
    (limit : Option Nat) (token : String) (expiresAt now pages : Nat) (blocked : List String)
    (leased : List (OutboxEvent D)) :
    Alone (Change.Allowed maxima) start (fun _ => True)
      (leasePages mode t documentIdentity limit token expiresAt now pages blocked leased)
      fun _ _ => True := by
  induction pages generalizing blocked leased with
  | zero => exact .pure fun _ _ => trivial
  | succ pages ih =>
    refine .bind (Q := fun _ _ => True) ?_ fun page => ?_
    · refine .atomically survives_eq ?_
      intro c s hs
      cases c.outcome <;> exact ⟨fun _ _ => ⟨hs.1, trivial⟩, fun _ _ => hs.1⟩
    · exact .bind (alone_claimPage _ _ _ _ _ _ _ _) fun _ => ih _ _

theorem alone_lease
    (documentIdentity : String → Option String → EntityId → Option DatastoreKey → String)
    (limit : Option Nat) :
    Alone (Change.Allowed maxima) start (fun _ => True) (lease mode t documentIdentity limit)
      fun _ _ => True := by
  refine .bind alone_now fun now => .bind (Q := fun _ _ => True) ?_ fun token => ?_
  · intro s r s' hs hrun
    cases hrun with
    | step henv _ hnext =>
      cases henv
      cases hnext
      refine ⟨fun _ _ => ⟨hs.1, trivial⟩, ?_⟩
      intro e he
      cases he
  · intro s r s' hs hrun
    cases hrun with
    | step henv _ hnext =>
      cases henv
      refine alone_leasePages documentIdentity limit token _ now _ [] [] _ r s' ?_ hnext
      exact ⟨hs.1, trivial⟩

end

/-! ## Histories -/

/-- What can happen to an outbox, an operation at a time: workers lease events, renew and release
their leases, acknowledge events and settle failed deliveries, each with its own options, and new
events arrive. -/
inductive Op (D : Type)
  | lease (documentIdentity : String → Option String → EntityId → Option DatastoreKey → String)
      (limit : Option Nat)
  | renewLease (event : OutboxEvent D)
  | release (events : List (OutboxEvent D))
  | ack (events : List (OutboxEvent D))
  | append (event : OutboxEvent D)
  | settle (cfg : SearchSync D) (failures : List (PendingFailure D)) (deferred : List (Pending D))

section
variable [DecidableEq D]

def Op.task (mode : StoreMode) (t : T) : Op D → OutboxTask T D Unit
  | .lease documentIdentity limit => do
    let _ ← Outbox.lease mode t documentIdentity limit
    return ()
  | .renewLease event => do
    let _ ← Outbox.renewLease mode t event
    return ()
  | .release events => Outbox.release mode t events
  | .ack events => do
    let _ ← Outbox.ack mode t events
    return ()
  | .append event => Outbox.append t event
  | .settle cfg failures deferred => settleLeasedFailures { cfg with mode } t failures deferred

/-- Appended events are sanitized, and failures come from deliveries. -/
def Op.Valid : Op D → Prop
  | .append event => sanitizeOutboxEvent true event = .ok event
  | .settle _ failures _ => ∀ pending ∈ failures, FromDelivery pending
  | .lease .. | .renewLease _ | .release _ | .ack _ => True

/-- The maximum of the run that settles. -/
def Op.maxima : Op D → Nat → Prop
  | .settle cfg _ _ => (· = cfg.options.maxAttempts)
  | .lease .. | .renewLease _ | .release _ | .ack _ | .append _ => fun _ => False

/-- A task runs an operation, with a choice of the environment in each of its steps. -/
def OpStep (mode : StoreMode) (s : World T D) (e : T × Op D) (s' : World T D) : Prop :=
  e.2.Valid ∧ ∃ r, (e.2.task mode e.1).Runs Eq s r s'

theorem alone_op {start : EventRows D} {t : T} {mode : StoreMode} {op : Op D} (h : op.Valid) :
    Alone (Change.Allowed op.maxima) start (fun _ => True) (op.task mode t) fun _ _ => True := by
  cases op with
  | lease documentIdentity limit =>
    exact .bind (alone_lease documentIdentity limit) fun _ => .pure fun _ _ => trivial
  | renewLease event => exact .bind (alone_renewLease event) fun _ => .pure fun _ _ => trivial
  | release events => exact alone_release events
  | ack events => exact .bind (alone_ack events) fun _ => .pure fun _ _ => trivial
  | append event =>
    exact (alone_append (.created event) (sanitizeOutboxEvent_wellLeased h)).weaken
      (fun _ h => h) fun _ _ _ => trivial
  | settle cfg failures deferred =>
    have hfrom : ∀ pending ∈ failures, FromDelivery pending := h
    exact alone_settleLeasedFailures { cfg with mode } failures deferred hfrom

theorem OpStep.reached {mode : StoreMode} {s s' : World T D} {e : T × Op D}
    (h : OpStep mode s e s') (hs : WellKept s.events) :
    Reached (Change.Allowed e.2.maxima) s.events s'.events := by
  obtain ⟨hvalid, r, hrun⟩ := h
  have hstart : Reached (Change.Allowed e.2.maxima) s.events s.events := ⟨⟨[], .nil⟩, hs⟩
  obtain ⟨hok, herror⟩ := alone_op hvalid s r s' ⟨hstart, trivial⟩ hrun
  cases r with
  | ok u => exact (hok u rfl).1
  | error e => exact herror e rfl

omit [DecidableEq D] in
theorem Change.Allowed.mono {maxima maxima' : Nat → Prop} {ch : Change D}
    (h : Change.Allowed maxima ch) (hmaxima : ∀ n, maxima n → maxima' n) :
    Change.Allowed maxima' ch := by
  cases h with
  | created event => exact .created event
  | removed id before => exact .removed id before
  | kept halive hattempts hstill => exact .kept halive hattempts hstill
  | retried hrun halive hbelow hattempts hstill =>
    exact .retried (hmaxima _ hrun) halive hbelow hattempts hstill
  | deadLettered hrun halive hreached hattempts hdead =>
    exact .deadLettered (hmaxima _ hrun) halive hreached hattempts hdead

/-- The maxima of the runs of a history. -/
def maximaOf (ops : List (T × Op D)) (maxAttempts : Nat) : Prop :=
  ∃ e ∈ ops, e.2.maxima maxAttempts

omit [DecidableEq D] in
theorem changes_mono {Z Z' : Change D → Prop} (hZ : ∀ ch, Z ch → Z' ch) {rows rows' : EventRows D}
    {changes : List (Change D)} (h : Steps (Changes Z) rows changes rows') :
    Steps (Changes Z') rows changes rows' := by
  induction h with
  | nil => exact .nil
  | snoc _ hstep ih =>
    obtain ⟨hbefore, hafter, hz⟩ := hstep
    exact ih.snoc ⟨hbefore, hafter, hZ _ hz⟩

theorem reached_history {mode : StoreMode} {s s' : World T D} {ops : List (T × Op D)}
    (h : Steps (OpStep mode) s ops s') (hs : WellKept s.events) :
    Reached (Change.Allowed (maximaOf ops)) s.events s'.events := by
  induction h with
  | nil => exact ⟨⟨[], .nil⟩, hs⟩
  | @snoc ops s₁ e s₂ _ hstep ih =>
    obtain ⟨⟨changes, hchanges⟩, hkept⟩ := ih
    obtain ⟨⟨changes', hchanges'⟩, hkept'⟩ := hstep.reached hkept
    refine ⟨⟨changes ++ changes', .trans (changes_mono ?_ hchanges) (changes_mono ?_ hchanges')⟩,
      hkept'⟩
    · rintro ch hch
      refine hch.mono ?_
      rintro n ⟨e', he', hn⟩
      exact ⟨e', List.mem_append_left _ he', hn⟩
    · rintro ch hch
      refine hch.mono ?_
      intro n hn
      exact ⟨e, List.mem_append_right _ (List.mem_singleton.mpr rfl), hn⟩

/-! ## The bound of a history -/

/-- A settled failure by a run with this maximum. -/
def SettledBy (maxAttempts : Nat) (before after : OutboxEvent D) : Prop :=
  if before.attempts + 1 < maxAttempts then
    after.attempts = before.attempts + 1 ∧ after.deadLetteredAt = none
  else after.attempts = maxAttempts ∧ after.deadLetteredAt.isSome = true

/-- What holds of the deliveries of an outbox whose rows were `rows` and are those of `s` after the
operations `ops`. -/
structure RetryBound (mode : StoreMode) (rows : EventRows D) (ops : List (T × Op D))
    (s : World T D) : Prop where
  /-- An operation counts an attempt, makes a dead letter of an event that reaches the maximum of its
  run, or leaves the attempts alone; it does not update dead letters. -/
  step : ∀ e s', OpStep mode s e s' →
    ∃ changes, Steps (Changes (Change.Allowed e.2.maxima)) s.events changes s'.events
  /-- A failed delivery that is settled counts, or the event becomes a dead letter. -/
  settles : ∀ (t : T) (opts : WorkerOptions) (env : Environment D) (pending : PendingFailure D)
    (failure : DeliveryFailure D) (source : OutboxEvent D) (disposition : Disposition)
    (s' : World T D), FromDelivery pending → pending.event = some source →
      createSearchSyncDeliveryFailure opts env pending = some failure →
      disposition.Fits failure → s.events source.id = some source →
      (settleDeliveryFailures mode t disposition [failure]).Runs Eq s (.ok ()) s' →
      ∃ next, s'.events source.id = some next ∧ SettledBy opts.maxAttempts source next
  /-- While an event is there, its attempts are those it had and one for each settled failure, below
  all maxima up to the dead letter. -/
  bounded : ∃ changes, Steps (Changes (Change.Allowed (maximaOf ops))) rows changes s.events ∧
    ∀ bound, (∀ maxAttempts, maximaOf ops maxAttempts → maxAttempts ≤ bound) →
      ∀ id event, rows id = some event → event.deadLetteredAt = none →
        (∀ ch ∈ changes, ch.id = id → ch.after ≠ none) →
        ∃ event', s.events id = some event' ∧
          Bounded bound event.attempts (settlements id changes).length event'

omit [DecidableEq D] in
theorem Counted.settledBy {maxAttempts : Nat} {disposition : Disposition}
    {failure : DeliveryFailure D} {source next : OutboxEvent D}
    (h : Counted (· = maxAttempts) disposition failure source)
    (hsource : failure.event = some source) (hnext : disposition.event failure = some next) :
    SettledBy maxAttempts source next := by
  have hattempt := h.attempt
  have hrun : failure.maxAttempts = maxAttempts := h.run
  have hfits := h.fits
  rw [SettledBy]
  cases disposition with
  | retry =>
    obtain ⟨-, hattempts, hstill⟩ := outboxRetryEvent_parts hsource hnext
    change failure.attempt < failure.maxAttempts at hfits
    rw [if_pos (by omega)]
    exact ⟨by omega, hstill⟩
  | deadLetter =>
    obtain ⟨-, hattempts, hdead, -⟩ := outboxDeadLetterEvent_eq_some hsource hnext
    change failure.maxAttempts ≤ failure.attempt at hfits
    rw [if_neg (by omega)]
    exact ⟨by omega, hdead⟩

end

/-! ### A lowered maximum -/

/-- An event in its sixth delivery. -/
def oftenTried : OutboxEvent Unit where
  id := "a"
  model := "Post"
  modelId := some (.number 1)
  modelIdentity := none
  modelDatastoreAncestor := none
  modelDatastoreScope := none
  operation := .update
  data := none
  reconcileFromStore := false
  createdAt := 0
  sequence := some "1"
  version := some 11
  leaseToken := some "worker"
  leaseExpiresAt := some 100
  deliveryAttempts := some 5
  availableAt := none
  deadLetteredAt := none
  lastDeliveryError := none

/-- A run that gives up after three attempts. -/
def loweredRun : SearchSync Unit where
  mode := ⟨true, true, true⟩
  options := ⟨3, by decide, by decide, none, true, true⟩
  deadLetterSink := false
  documentIdentity _ _ _ _ := ""
  routes _ := some []
  searchSyncReservationIdentity _ := ""
  searchDocumentIdentity _ _ := ""
  rowKey _ := ""

def oftenTriedRows : EventRows Unit := Function.update (fun _ => none) "a" (some oftenTried)

def oftenTriedWorld : World Unit Unit where
  clock := 50
  events := oftenTriedRows
  usedIds := ["a"]
  revisions _ := none
  rows _ := none
  search _ _ := ⟨none, none⟩
  inFlight := []
  log := []

def failedSixth : PendingFailure Unit := ⟨⟨0, .event oftenTried⟩, some oftenTried, ⟨"down", false⟩⟩

def settlingChoice : Choice Unit where
  outcome := .ok
  conflict := false
  tick := 1
  uuid := ""
  page := []
  rounds := 0
  settling :=
    { deliver := fun _ _ => ⟨none, .processed⟩
      failureThrows := fun _ => false
      failedAt := fun _ => 51
      retryAt := fun _ => 60
      deadLetterFails := false
      retryFails := fun _ => false }

theorem oftenTriedRows_wellKept : WellKept oftenTriedRows := by
  intro id event h
  by_cases hid : id = "a"
  · subst hid
    cases (Function.update_self .. : oftenTriedRows "a" = _).symm.trans h
    exact ⟨rfl, wellLeased_of_alive rfl⟩
  · rw [oftenTriedRows, Function.update_of_ne hid] at h
    cases h

theorem fromDelivery_failedSixth : FromDelivery failedSixth := by
  rintro source ⟨⟩
  exact ⟨oftenTried, none, rfl, rfl, rfl, by decide⟩

end ActiveTs.Outbox
