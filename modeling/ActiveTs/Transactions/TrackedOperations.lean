import ActiveTs.Lib.Histories
import ActiveTs.Transactions.OperationTracker
import Mathlib.Data.List.DropRight

/-! # What a wait for the operations reports

A wait ends when every operation has settled, and reports each rejection that nobody has observed, once.
After a close and a wait nothing more is admitted on behalf of the operations so far. -/

namespace ActiveTs.Transactions.OperationTracker

variable {Error : Type} {s t : Tracker Error} {e : Event Error} {i : Nat}

/-! ## Reading the state -/

namespace Operation
variable (operation : Operation Error)

def settlement : Option (Settlement Error) :=
  match operation.phase with
  | .running => none
  | .settled settlement => some settlement
  | .recorded settlement => some settlement

/-- Waits for the operation concern it: it has not settled, or its rejection is to be reported. -/
def kept : Bool :=
  match operation.phase with
  | .recorded .fulfilled => false
  | .recorded (.rejected _) => !operation.rejectionHandled
  | _ => true

end Operation

namespace Tracker

theorem lookup_setOperation {operation operation' : Operation Error}
    (h : s.operations[i]? = some operation) (j : Nat) :
    (s.setOperation i operation').operations[j]? =
      if i = j then some operation' else s.operations[j]? := by
  obtain ⟨hlt, -⟩ := List.getElem?_eq_some_iff.mp h
  rw [setOperation, List.getElem?_set, if_pos hlt]

theorem lookup_addOperation (parent : Option Nat) (upstream : List Nat) (j : Nat) :
    (s.addOperation parent upstream).operations[j]? =
      if s.operations.length = j then
        some ⟨parent, upstream ++ [s.operations.length], .running, false, false⟩
      else s.operations[j]? := by
  change (s.operations ++ [_])[j]? = _
  by_cases h : s.operations.length = j
  · subst h
    rw [if_pos rfl, List.getElem?_append_right (Nat.le_refl _), Nat.sub_self,
      List.getElem?_cons_zero]
  · rw [if_neg h]
    rcases Nat.lt_or_gt_of_ne h with h | h
    · rw [List.getElem?_eq_none (by simp; omega), List.getElem?_eq_none (Nat.le_of_lt h)]
    · exact List.getElem?_append_left h

theorem mem_deletePending {j : Nat} :
    j ∈ (s.deletePending i).pendingOperations ↔ j ∈ s.pendingOperations ∧ j ≠ i := by
  rw [deletePending, List.mem_filter, decide_eq_true_eq]

theorem observeRejection_of_none (h : s.operations[i]? = none) : s.observeRejection i = s := by
  rw [observeRejection, h]

theorem lookup_observeRejection (j : Nat) :
    (s.observeRejection i).operations[j]? =
      if i = j then (s.operations[j]?).map fun operation => { operation with rejectionHandled := true }
      else s.operations[j]? := by
  cases h : s.operations[i]? with
  | none =>
    rw [observeRejection_of_none h]
    split
    · next hij => rw [← hij, h, Option.map_none]
    · rfl
  | some operation =>
    have hset : (s.setOperation i { operation with rejectionHandled := true }).operations[j]? =
        if i = j then some { operation with rejectionHandled := true } else s.operations[j]? :=
      lookup_setOperation h j
    have hpending : (s.observeRejection i).operations =
        (s.setOperation i { operation with rejectionHandled := true }).operations := by
      rw [observeRejection, h]
      dsimp only
      split <;> rfl
    rw [hpending, hset]
    split
    · next hij => rw [← hij, h, Option.map_some]
    · rfl

theorem mem_pending_observeRejection {j : Nat} :
    j ∈ (s.observeRejection i).pendingOperations ↔ j ∈ s.pendingOperations ∧
      ¬ (j = i ∧ (s.operations[i]?).any fun operation => operation.rejection.isSome) := by
  cases h : s.operations[i]? with
  | none => simp [observeRejection_of_none h]
  | some operation =>
    rw [observeRejection, h, Option.any_some]
    dsimp only
    split
    · next hrejected =>
      rw [mem_deletePending, hrejected, and_iff_left rfl]
      rfl
    · next hrejected =>
      rw [Bool.not_eq_true] at hrejected
      simp [hrejected, setOperation]

theorem closed_observeRejection : (s.observeRejection i).closed = s.closed := by
  unfold observeRejection
  split
  · rfl
  · dsimp only
    split <;> rfl

/-- What a rejection handler changes. -/
theorem lookup_observe (handled : List Nat) (j : Nat) :
    (handled.foldl observeRejection s).operations[j]? =
      if j ∈ handled then
        (s.operations[j]?).map fun operation => { operation with rejectionHandled := true }
      else s.operations[j]? := by
  induction handled generalizing s with
  | nil => rfl
  | cons i handled ih =>
    rw [List.foldl_cons, ih, lookup_observeRejection]
    by_cases hij : i = j
    · rw [if_pos hij, if_pos (List.mem_cons.mpr (Or.inl hij.symm))]
      split
      · cases s.operations[j]? <;> rfl
      · rfl
    · have hmem : j ∈ i :: handled ↔ j ∈ handled := by
        rw [List.mem_cons, or_iff_right (Ne.symm hij)]
      simp only [if_neg hij, hmem]

theorem mem_pending_observe (handled : List Nat) (j : Nat) :
    j ∈ (handled.foldl observeRejection s).pendingOperations ↔ j ∈ s.pendingOperations ∧
      ¬ (j ∈ handled ∧ (s.operations[j]?).any fun operation => operation.rejection.isSome) := by
  induction handled generalizing s with
  | nil => simp
  | cons i handled ih =>
    have hrejected : ((s.observeRejection i).operations[j]?).any (fun operation =>
        operation.rejection.isSome) =
        (s.operations[j]?).any fun operation => operation.rejection.isSome := by
      rw [lookup_observeRejection]
      split
      · cases s.operations[j]? <;> rfl
      · rfl
    rw [List.foldl_cons, ih, mem_pending_observeRejection, hrejected, List.mem_cons]
    by_cases hij : j = i
    · subst hij
      grind
    · grind

theorem closed_observe (handled : List Nat) :
    (handled.foldl observeRejection s).closed = s.closed := by
  induction handled generalizing s with
  | nil => rfl
  | cons i handled ih => rw [List.foldl_cons, ih, closed_observeRejection]

theorem closed_recordSettlement {operation : Operation Error} {settlement : Settlement Error} :
    (s.recordSettlement i operation settlement).closed = s.closed := by
  cases settlement with
  | fulfilled => rfl
  | rejected error =>
    rw [recordSettlement]
    split <;> rfl

theorem scan_eq_none {snapshot : List Nat} : s.scan snapshot = none ↔
    ∀ i ∈ snapshot, ∀ operation, s.operations[i]? = some operation →
      operation.rejection.isSome = true := by
  induction snapshot with
  | nil => simp [scan]
  | cons i rest ih =>
    rw [scan, List.forall_mem_cons, ← ih]
    cases h : s.operations[i]? with
    | none => simp
    | some operation => cases hrejection : operation.rejection <;> simp [hrejection]

/-- The operation has been rejected, and nobody has observed that. -/
def Unhandled (s : Tracker Error) (i : Nat) (error : Error) : Prop :=
  ∃ operation, s.operations[i]? = some operation ∧ operation.rejectionHandled = false ∧
    operation.rejection = some error

theorem Unhandled.unique {error error' : Error} (h : s.Unhandled i error)
    (h' : s.Unhandled i error') : error = error' := by
  obtain ⟨operation, hlookup, -, hrejection⟩ := h
  obtain ⟨operation', hlookup', -, hrejection'⟩ := h'
  rw [hlookup, Option.some.injEq] at hlookup'
  rwa [← hlookup', hrejection, Option.some.injEq] at hrejection'

section
variable [DecidableEq Error]

theorem failures_waits (waits : List Wait) (snapshot : List Nat) (failures' : List Error) :
    Tracker.failures { s with waits := waits } snapshot failures' = s.failures snapshot failures' := by
  induction snapshot generalizing failures' with
  | nil => rfl
  | cons i rest ih => simp only [failures, ih]

theorem failures_cons (i : Nat) (rest : List Nat) (failures' : List Error) :
    (∃ error, s.Unhandled i error ∧ error ∉ failures' ∧
      s.failures (i :: rest) failures' = s.failures rest (failures' ++ [error])) ∨
    ((∀ error, s.Unhandled i error → error ∈ failures') ∧
      s.failures (i :: rest) failures' = s.failures rest failures') := by
  rw [failures]
  split
  · next error h =>
    obtain ⟨operation, hoperation, hrejection⟩ := Option.bind_eq_some_iff.mp h
    obtain ⟨hlookup, hhandled⟩ := Option.filter_eq_some_iff.mp hoperation
    have hunhandled : s.Unhandled i error := ⟨operation, hlookup, by simpa using hhandled, hrejection⟩
    split
    · next hold => exact Or.inr ⟨fun error' h => hunhandled.unique h ▸ hold, rfl⟩
    · next hnew => exact Or.inl ⟨error, hunhandled, hnew, rfl⟩
  · next h =>
    refine Or.inr ⟨?_, rfl⟩
    rintro error ⟨operation, hlookup, hhandled, hrejection⟩
    rw [hlookup, Option.filter_some, hhandled] at h
    cases hrejection.symm.trans h

theorem nodup_failures {snapshot : List Nat} {failures' : List Error} (h : failures'.Nodup) :
    (s.failures snapshot failures').Nodup := by
  induction snapshot generalizing failures' with
  | nil => exact h
  | cons i rest ih =>
    rcases failures_cons i rest failures' with ⟨error, -, hnew, heq⟩ | ⟨-, heq⟩
    · rw [heq]
      apply ih
      rw [List.nodup_append]
      refine ⟨h, List.pairwise_singleton _ _, ?_⟩
      rintro error' hold _ hmem rfl
      exact hnew (List.mem_singleton.mp hmem ▸ hold)
    · rw [heq]
      exact ih h

theorem mem_failures {snapshot : List Nat} {failures' : List Error} {error : Error} :
    error ∈ s.failures snapshot failures' ↔
      error ∈ failures' ∨ ∃ i ∈ snapshot, s.Unhandled i error := by
  induction snapshot generalizing failures' with
  | nil => exact (or_iff_left (by simp)).symm
  | cons i rest ih =>
    rw [List.exists_mem_cons_iff]
    rcases failures_cons i rest failures' with ⟨error', hunhandled, -, heq⟩ | ⟨hold, heq⟩
    · have honly : s.Unhandled i error ↔ error = error' :=
        ⟨fun h => h.unique hunhandled, fun h => h ▸ hunhandled⟩
      rw [heq, ih, List.mem_append, List.mem_singleton, honly, or_assoc]
    · rw [heq, ih]
      constructor
      · exact Or.imp_right Or.inr
      · rintro (h | h | h)
        · exact Or.inl h
        · exact Or.inl (hold error h)
        · exact Or.inr h

end

theorem lookup_recordSettlement {operation : Operation Error} {settlement : Settlement Error}
    (h : s.operations[i]? = some operation) (j : Nat) :
    (s.recordSettlement i operation settlement).operations[j]? =
      if i = j then some { operation with phase := .recorded settlement } else s.operations[j]? := by
  rw [← lookup_setOperation h]
  cases settlement with
  | fulfilled => rfl
  | rejected error =>
    rw [recordSettlement]
    split <;> rfl

theorem mem_pending_recordSettlement {operation : Operation Error} {settlement : Settlement Error}
    {j : Nat} : j ∈ (s.recordSettlement i operation settlement).pendingOperations ↔
      j ∈ s.pendingOperations ∧
        (i = j → { operation with phase := .recorded settlement }.kept = true) := by
  have hne : (i = j → False) ↔ j ≠ i := ⟨fun h heq => h heq.symm, fun h heq => h heq.symm⟩
  cases settlement with
  | fulfilled =>
    change j ∈ (Tracker.deletePending _ i).pendingOperations ↔ _
    rw [mem_deletePending, ← hne]
    simp [Operation.kept, setOperation]
  | rejected error =>
    rw [recordSettlement]
    split
    · next h =>
      rw [mem_deletePending, ← hne]
      simp [Operation.kept, setOperation, h]
    · next h => simp [Operation.kept, setOperation, h]

end Tracker

/-! ## Segments -/

section
variable (context : String)

/-- What a segment of the event loop does. -/
inductive Moves [DecidableEq Error] (s : Tracker Error) : Event Error → Tracker Error → Prop
  | close (reason : String) : Moves s (.closed reason) { s with closed := some reason }
  | refuse (error : Error) : Moves s (.refused error) s
  | passOn (upstream : Nat) : Moves s (.untracked upstream) s
  | track {parent : Option Nat} {upstream : List Nat} {admitAfterClose : Bool}
    (hopen : s.closed = none ∨ parent.isSome = true ∨ admitAfterClose = true)
    (hparent : ∀ p, parent = some p → s.active p = true)
    (hupstream : ∀ j ∈ upstream, ∃ operation ∈ s.operations, j ∈ operation.observes) :
    Moves s (.tracked s.operations.length admitAfterClose) (s.addOperation parent upstream)
  | return {i : Nat} {operation : Operation Error} (h : s.operations[i]? = some operation)
    (hreturned : operation.returned = false) :
    Moves s (.returned i) { s.setOperation i { operation with returned := true } with
      pendingOperations := s.pendingOperations ++ [i] }
  | settle {i : Nat} {operation : Operation Error} (h : s.operations[i]? = some operation)
    (hphase : operation.phase = .running) (settlement : Settlement Error) :
    Moves s (.settled i settlement) (s.setOperation i { operation with phase := .settled settlement })
  | record {i : Nat} {operation : Operation Error} {settlement : Settlement Error}
    (h : s.operations[i]? = some operation) (hreturned : operation.returned = true)
    (hphase : operation.phase = .settled settlement) :
    Moves s (.recorded i) (s.recordSettlement i operation settlement)
  | attach (i : Nat) (observers : List Observer) : Moves s (.attached i) { s with observers := observers }
  | observe {operation : Operation Error} (h : operation ∈ s.operations) (n : Nat)
    (scope : Option Nat) : Moves s (.observed n (operation.observes.filter (s.canObserve scope)))
      ((operation.observes.filter (s.canObserve scope)).foldl Tracker.observeRejection s)
  | wait (n : Nat) (waits : List Wait) : Moves s (.waiting n) { s with waits := waits }
  | report (n : Nat) (waits : List Wait) (hscan : s.scan s.pendingOperations = none) :
    Moves s (.reported n (Tracker.waitOutcome context (s.failures s.pendingOperations [])))
      { s with pendingOperations := [], waits := waits }

variable {context} [DecidableEq Error] {configurationError : String → Error}

omit [DecidableEq Error] in
theorem Tracker.parentIn_eq_some {scope : Option Nat} {p : Nat} (h : s.parentIn scope = some p) :
    s.active p = true :=
  (Option.filter_eq_some_iff.mp h).2

theorem Moves.of_continueWait {waits : List Wait} {n : Nat} {rest : List Nat}
    (h : Tracker.continueWait { s with waits := waits } context n rest = (t, e)) :
    Moves context s e t := by
  rw [Tracker.continueWait] at h
  split at h
  · cases h
    exact .wait n _
  · next hscan =>
    cases h
    have hsettled := Tracker.scan_eq_none.mp (Option.or_eq_none_iff.mp hscan).2
    rw [Tracker.failures_waits]
    exact .report n _ (Tracker.scan_eq_none.mpr hsettled)

theorem Step.moves (h : Step context configurationError s e t) : Moves context s e t := by
  obtain ⟨action, h⟩ := h
  cases action with
  | close reason =>
    cases h
    exact .close reason
  | track scope custom admitAfterClose =>
    rw [Tracker.step, Option.some.injEq, Tracker.track] at h
    have hparent p (hp : s.parentIn scope = some p) := Tracker.parentIn_eq_some hp
    have hupstream : ∀ j ∈ ([] : List Nat), ∃ operation ∈ s.operations, j ∈ operation.observes :=
      fun j hj => absurd hj List.not_mem_nil
    split at h
    · split at h
      · cases h
        exact .refuse _
      · next hlate =>
        cases h
        refine .track (Or.inr ?_) hparent hupstream
        rwa [not_and_or, ← ne_eq, Option.ne_none_iff_isSome, Bool.not_eq_false] at hlate
    · next hclosed =>
      cases h
      exact .track (Or.inl hclosed) hparent hupstream
  | trackContinuation scope upstream =>
    obtain ⟨operation, hoperation, h⟩ := Option.map_eq_some_iff.mp h
    have hmem := List.mem_of_getElem? (Option.filter_eq_some_iff.mp hoperation).1
    rw [Tracker.trackContinuation] at h
    split at h
    · cases h
      exact .passOn upstream
    · next hlate =>
      cases h
      refine .track ?_ (fun p hp => Tracker.parentIn_eq_some hp) fun j hj => ⟨operation, hmem, hj⟩
      rw [not_and_or, Option.not_isSome_iff_eq_none, ← ne_eq, Option.ne_none_iff_isSome] at hlate
      exact hlate.imp_right Or.inl
  | «return» i =>
    obtain ⟨operation, hoperation, h⟩ := Option.map_eq_some_iff.mp h
    obtain ⟨hlookup, hreturned⟩ := Option.filter_eq_some_iff.mp hoperation
    cases h
    exact .return hlookup (by simpa using hreturned)
  | settle i settlement =>
    obtain ⟨operation, hoperation, h⟩ := Option.map_eq_some_iff.mp h
    obtain ⟨hlookup, hactive⟩ := Option.filter_eq_some_iff.mp hoperation
    cases h
    refine .settle hlookup ?_ settlement
    rw [Operation.active] at hactive
    split at hactive
    · assumption
    · cases hactive
  | record i =>
    obtain ⟨operation, hoperation, h⟩ := Option.bind_eq_some_iff.mp h
    obtain ⟨hlookup, hreturned⟩ := Option.filter_eq_some_iff.mp hoperation
    split at h
    · next settlement hphase =>
      cases h
      exact .record hlookup hreturned hphase
    · cases h
  | attach i scope =>
    obtain ⟨operation, hoperation, h⟩ := Option.map_eq_some_iff.mp h
    cases h
    exact .attach i _
  | observe n =>
    obtain ⟨observer, hobserver, h⟩ := Option.bind_eq_some_iff.mp h
    obtain ⟨operation, hoperation, h⟩ := Option.bind_eq_some_iff.mp h
    cases h
    exact .observe (List.mem_of_getElem? hoperation) n observer.scope
  | wait => exact .of_continueWait (Option.some.inj h)
  | resume n =>
    rw [Tracker.step] at h
    split at h
    · split at h
      · exact .of_continueWait (Option.some.inj h)
      · cases h
    · cases h

end

/-! ## One operation -/

/-- The event is about the operation. -/
def Event.Concerns (i : Nat) : Event Error → Prop
  | .returned j => j = i
  | .settled j _ => j = i
  | .observed _ handled => i ∈ handled
  | _ => False

/-- What an event does to an operation. -/
inductive Change (i : Nat) :
    Event Error → Option (Operation Error) → Option (Operation Error) → Prop
  | other {e : Event Error} {o : Option (Operation Error)} (h : ¬ e.Concerns i) : Change i e o o
  | track (parent : Option Nat) {observes : List Nat} (admitAfterClose : Bool)
    (h : ∀ j ∈ observes, j ≤ i) :
    Change i (.tracked i admitAfterClose) none (some ⟨parent, observes, .running, false, false⟩)
  | return {operation : Operation Error} (h : operation.returned = false) :
    Change i (.returned i) (some operation) (some { operation with returned := true })
  | settle {operation : Operation Error} (h : operation.phase = .running)
    (settlement : Settlement Error) : Change i (.settled i settlement) (some operation)
      (some { operation with phase := .settled settlement })
  | record {operation : Operation Error} {settlement : Settlement Error}
    (hreturned : operation.returned = true) (h : operation.phase = .settled settlement) :
    Change i (.recorded i) (some operation) (some { operation with phase := .recorded settlement })
  | observe {operation : Operation Error} {handled : List Nat} (n : Nat) (h : i ∈ handled) :
    Change i (.observed n handled) (some operation)
      (some { operation with rejectionHandled := true })

/-- A handler observes operations that were admitted before its own. -/
def Bounded (s : Tracker Error) : Prop :=
  ∀ (i : Nat) (operation : Operation Error), s.operations[i]? = some operation →
    ∀ j ∈ operation.observes, j ≤ i

theorem Moves.change {context : String} [DecidableEq Error] (h : Moves context s e t)
    (hbounded : Bounded s) (i : Nat) : Change i e s.operations[i]? t.operations[i]? := by
  cases h with
  | close | refuse | passOn | attach | wait | report => exact .other id
  | track _ _ hupstream =>
    rw [Tracker.lookup_addOperation]
    split
    · next hi =>
      subst hi
      rw [List.getElem?_eq_none (Nat.le_refl _)]
      apply Change.track
      intro j hj
      rcases List.mem_append.mp hj with hj | hj
      · obtain ⟨operation, hmem, hobserves⟩ := hupstream j hj
        obtain ⟨k, hk, hlookup⟩ := List.mem_iff_getElem.mp hmem
        have hle := hbounded k operation (List.getElem?_eq_some_iff.mpr ⟨hk, hlookup⟩) j hobserves
        exact hle.trans (Nat.le_of_lt hk)
      · exact Nat.le_of_eq (List.mem_singleton.mp hj)
    · exact .other id
  | «return» hlookup hreturned =>
    change Change i _ _ ((Tracker.setOperation _ _ _).operations[i]?)
    rw [Tracker.lookup_setOperation hlookup]
    split
    · next hi =>
      rw [← hi, hlookup]
      exact .return hreturned
    · next hi => exact .other hi
  | settle hlookup hphase =>
    rw [Tracker.lookup_setOperation hlookup]
    split
    · next hi =>
      rw [← hi, hlookup]
      exact .settle hphase _
    · next hi => exact .other hi
  | record hlookup hreturned hphase =>
    rw [Tracker.lookup_recordSettlement hlookup]
    split
    · next hi =>
      rw [← hi, hlookup]
      exact .record hreturned hphase
    · exact .other id
  | observe hmem n scope =>
    rw [Tracker.lookup_observe]
    split
    · next hi =>
      obtain ⟨k, hk, hlookup⟩ := List.mem_iff_getElem.mp hmem
      have hle := hbounded k _ (List.getElem?_eq_some_iff.mpr ⟨hk, hlookup⟩) i
        (List.mem_of_mem_filter hi)
      rw [List.getElem?_eq_getElem (Nat.lt_of_le_of_lt hle hk)]
      exact .observe n hi
    · next hi => exact .other hi

/-! ## What the events tell -/

/-- Some handler has observed the rejection. -/
def Handled (es : List (Event Error)) (i : Nat) : Prop :=
  ∃ n handled, .observed n handled ∈ es ∧ i ∈ handled

theorem handled_snoc {es : List (Event Error)} : Handled (es ++ [e]) i ↔
    Handled es i ∨ ∃ n handled, e = .observed n handled ∧ i ∈ handled := by
  simp only [Handled, List.mem_append, List.mem_singleton]
  constructor
  · rintro ⟨n, handled, hmem | heq, hi⟩
    · exact Or.inl ⟨n, handled, hmem, hi⟩
    · exact Or.inr ⟨n, handled, heq.symm, hi⟩
  · rintro (⟨n, handled, hmem, hi⟩ | ⟨n, handled, heq, hi⟩)
    · exact ⟨n, handled, Or.inl hmem, hi⟩
    · exact ⟨n, handled, Or.inr heq.symm, hi⟩

/-- The events tell the state of the operation. -/
structure Told (es : List (Event Error)) (i : Nat) (o : Option (Operation Error)) : Prop where
  tracked : o.isSome = true → ∃ admitAfterClose, .tracked i admitAfterClose ∈ es
  returned : .returned i ∈ es ↔ o.any Operation.returned = true
  settled : ∀ settlement, .settled i settlement ∈ es ↔ o.bind Operation.settlement = some settlement
  handled : Handled es i ↔ o.any Operation.rejectionHandled = true
  /-- Reactions are attached when the operation is returned. -/
  unrecorded : ∀ operation settlement, o = some operation → operation.returned = false →
    operation.phase ≠ .recorded settlement
  bounded : ∀ operation, o = some operation → ∀ j ∈ operation.observes, j ≤ i

theorem Told.nil : Told ([] : List (Event Error)) i none where
  tracked h := by cases h
  returned := by simp
  settled := by simp
  handled := by simp [Handled]
  unrecorded _ _ h := by cases h
  bounded _ h := by cases h

/-- Only an operation that was returned gets reactions. -/
theorem Change.unrecorded {o o' : Option (Operation Error)} (hchange : Change i e o o')
    (h : ∀ operation settlement, o = some operation → operation.returned = false →
      operation.phase ≠ .recorded settlement) :
    ∀ operation settlement, o' = some operation → operation.returned = false →
      operation.phase ≠ .recorded settlement := by
  intro operation settlement heq hnot hphase
  cases hchange with
  | other => exact h operation settlement heq hnot hphase
  | track =>
    cases heq
    cases hphase
  | «return» =>
    cases heq
    cases hnot
  | settle =>
    cases heq
    cases hphase
  | record hreturned =>
    cases heq
    cases hreturned.symm.trans hnot
  | observe =>
    cases heq
    exact h _ settlement rfl hnot hphase

theorem Change.observes_le {o o' : Option (Operation Error)} (hchange : Change i e o o')
    (h : ∀ operation, o = some operation → ∀ j ∈ operation.observes, j ≤ i) :
    ∀ operation, o' = some operation → ∀ j ∈ operation.observes, j ≤ i := by
  intro operation heq
  cases hchange with
  | other => exact h operation heq
  | track _ _ hobserves =>
    cases heq
    exact hobserves
  | «return» | settle | record | observe =>
    have hbefore := h _ rfl
    cases heq
    exact hbefore

/-- An operation is there since it was tracked. -/
theorem Change.isSome {o o' : Option (Operation Error)} (hchange : Change i e o o') :
    o'.isSome = true → o.isSome = true ∨ ∃ late, .tracked i late = e := by
  intro hsome
  cases hchange with
  | other => exact Or.inl hsome
  | track _ late => exact Or.inr ⟨late, rfl⟩
  | «return» | settle | record | observe => exact Or.inl rfl

theorem Told.change {es : List (Event Error)} {o o' : Option (Operation Error)} (h : Told es i o)
    (hchange : Change i e o o') : Told (es ++ [e]) i o' where
  tracked hsome := by
    rcases hchange.isSome hsome with hsome | ⟨late, rfl⟩
    · exact (h.tracked hsome).imp fun _ hmem => List.mem_append_left _ hmem
    · exact ⟨late, List.mem_append_right _ (List.mem_singleton_self _)⟩
  returned := by
    rw [List.mem_append, List.mem_singleton, h.returned]
    cases hchange with
    | other hother =>
      apply or_iff_left
      rintro rfl
      exact hother rfl
    | _ => simp
  settled settlement := by
    rw [List.mem_append, List.mem_singleton, h.settled]
    cases hchange with
    | other hother =>
      apply or_iff_left
      rintro rfl
      exact hother rfl
    | settle hphase => simp [Operation.settlement, hphase, eq_comm]
    | record _ hphase => simp [Operation.settlement, hphase]
    | _ => simp [Operation.settlement]
  handled := by
    rw [handled_snoc, h.handled]
    cases hchange with
    | other hother =>
      apply or_iff_left
      rintro ⟨n, handled, rfl, hi⟩
      exact hother hi
    | observe _ hi => simp [hi]
    | _ => simp
  unrecorded := hchange.unrecorded h.unrecorded
  bounded := hchange.observes_le h.bounded

/-! ## Pending operations -/

def Event.isReport : Event Error → Bool
  | .reported _ _ => true
  | _ => false

/-- The events after the last report. -/
def sinceReport (es : List (Event Error)) : List (Event Error) := es.rtakeWhile (!·.isReport)

theorem sinceReport_snoc {es : List (Event Error)} (h : e.isReport = false) :
    sinceReport (es ++ [e]) = sinceReport es ++ [e] :=
  List.rtakeWhile_concat_pos _ _ _ (by rw [h]; rfl)

theorem sinceReport_report {es : List (Event Error)} (h : e.isReport = true) :
    sinceReport (es ++ [e]) = [] :=
  List.rtakeWhile_concat_neg _ _ _ (by rw [h]; exact Bool.false_ne_true)

theorem mem_of_sinceReport {es : List (Event Error)} (h : e ∈ sinceReport es) : e ∈ es :=
  (List.rtakeWhile_suffix _ es).subset h

namespace Operation
variable {operation : Operation Error}

theorem kept_of_unrecorded (h : ∀ settlement, operation.phase ≠ .recorded settlement) :
    operation.kept = true := by
  rw [kept]
  split
  · next hphase => exact absurd hphase (h _)
  · next hphase => exact absurd hphase (h _)
  · rfl

theorem kept_observed : { operation with rejectionHandled := true }.kept =
    (operation.kept && !operation.rejection.isSome) := by
  obtain ⟨parent, observes, phase, returned, handled⟩ := operation
  rcases phase with _ | _ | (_ | _)
  · rfl
  · rfl
  · rfl
  · exact (Bool.and_false _).symm

/-- Of the recorded operations, the rejections are kept that nobody has handled. -/
theorem kept_iff {settlement : Settlement Error} (h : operation.phase = .recorded settlement) :
    operation.kept = true ↔
      operation.rejectionHandled = false ∧ ∃ error, settlement = .rejected error := by
  rw [kept, h]
  cases settlement <;> simp

theorem rejection_eq_some {error : Error} :
    operation.rejection = some error ↔ operation.phase = .recorded (.rejected error) := by
  rw [rejection]
  split
  · next h => rw [h, Option.some.injEq, Phase.recorded.injEq, Settlement.rejected.injEq]
  · next hphase => exact ⟨fun h => absurd h.symm (Option.some_ne_none error), fun h => absurd h (hphase error)⟩

end Operation

section
variable {context : String} [DecidableEq Error]

/-- An operation enters the set when it is returned, and leaves it when it is no longer kept. -/
theorem Moves.mem_pending (h : Moves context s e t) (hreport : e.isReport = false)
    (hkept : i ∈ s.pendingOperations → (s.operations[i]?).any Operation.kept = true)
    (hunrecorded : ∀ operation settlement, s.operations[i]? = some operation →
      operation.returned = false → operation.phase ≠ .recorded settlement) :
    i ∈ t.pendingOperations ↔ (i ∈ s.pendingOperations ∨ .returned i = e) ∧
      (t.operations[i]?).any Operation.kept = true := by
  have hsame (he : .returned i ≠ e)
      (hstill : i ∈ s.pendingOperations → (t.operations[i]?).any Operation.kept = true) :
      i ∈ s.pendingOperations ↔ (i ∈ s.pendingOperations ∨ .returned i = e) ∧
        (t.operations[i]?).any Operation.kept = true := by
    rw [or_iff_left he, iff_self_and]
    exact hstill
  cases h with
  | close | refuse | passOn | attach | wait => exact hsame (by simp) hkept
  | report => cases hreport
  | track =>
    apply hsame (by simp)
    intro hi
    rw [Tracker.lookup_addOperation]
    split
    · rfl
    · exact hkept hi
  | «return» hlookup hnot =>
    change i ∈ s.pendingOperations ++ [_] ↔ _ ∧ ((Tracker.setOperation _ _ _).operations[i]?).any _ = true
    rw [List.mem_append, List.mem_singleton, Event.returned.injEq, iff_self_and,
      Tracker.lookup_setOperation hlookup]
    intro hi
    split
    · next heq =>
      subst heq
      have hphase settlement := hunrecorded _ settlement hlookup hnot
      exact Operation.kept_of_unrecorded hphase
    · next hne => exact hkept (hi.resolve_right (Ne.symm hne))
  | settle hlookup hphase settlement =>
    apply hsame (by simp)
    intro hi
    rw [Tracker.lookup_setOperation hlookup]
    split
    · rfl
    · exact hkept hi
  | record hlookup hreturned hphase =>
    rw [Tracker.mem_pending_recordSettlement, Tracker.lookup_recordSettlement hlookup,
      or_iff_left (by simp)]
    apply and_congr_right
    intro hi
    split
    · next heq => rw [forall_prop_of_true heq, Option.any_some]
    · next hne => exact iff_of_true (fun heq => absurd heq hne) (hkept hi)
  | observe hmem n scope =>
    rw [Tracker.mem_pending_observe, Tracker.lookup_observe, or_iff_left (by simp)]
    apply and_congr_right
    intro hi
    have hkept := hkept hi
    split
    · next hhandled =>
      cases hlookup : s.operations[i]? with
      | none =>
        rw [hlookup] at hkept
        cases hkept
      | some operation =>
        rw [hlookup, Option.any_some] at hkept
        rw [Option.map_some, Option.any_some, Option.any_some, Operation.kept_observed, hkept,
          Bool.true_and, and_iff_right hhandled, Bool.not_eq_true, Bool.not_eq_true']
    · next hother => exact iff_of_true (fun h => hother h.1) hkept

theorem Moves.closed_isSome (h : Moves context s e t) :
    t.closed.isSome = true ↔ s.closed.isSome = true ∨ ∃ reason, e = .closed reason := by
  cases h with
  | close reason => exact iff_of_true rfl (Or.inr ⟨reason, rfl⟩)
  | record hlookup hreturned hphase => rw [Tracker.closed_recordSettlement, or_iff_left (by simp)]
  | observe hmem n scope => rw [Tracker.closed_observe, or_iff_left (by simp)]
  | _ => exact (or_iff_left (by simp)).symm

end

namespace Change
variable {o o' : Option (Operation Error)}

theorem kept (h : Change i e o o') (ho : o.isSome = true)
    (hkept : o'.any Operation.kept = true) : o.any Operation.kept = true := by
  cases h with
  | other => exact hkept
  | track => cases ho
  | «return» => exact hkept
  | settle hphase => exact Operation.kept_of_unrecorded (by simp [hphase])
  | record _ hphase => exact Operation.kept_of_unrecorded (by simp [hphase])
  | observe n hi =>
    rw [Option.any_some, Operation.kept_observed, Bool.and_eq_true] at hkept
    exact hkept.1

theorem recorded {operation : Operation Error} {settlement : Settlement Error}
    (h : Change i e (some operation) o') (hphase : operation.phase = .recorded settlement) :
    ∃ operation', o' = some operation' ∧ operation'.phase = .recorded settlement := by
  cases h with
  | other => exact ⟨operation, rfl, hphase⟩
  | «return» => exact ⟨_, rfl, hphase⟩
  | settle hrunning => cases hphase.symm.trans hrunning
  | record _ hsettled => cases hphase.symm.trans hsettled
  | observe => exact ⟨_, rfl, hphase⟩

end Change

/-- The state accounts for every event. -/
structure Accounts (es : List (Event Error)) (s : Tracker Error) : Prop where
  told : ∀ i, Told es i s.operations[i]?
  pending : ∀ i, i ∈ s.pendingOperations ↔
    .returned i ∈ sinceReport es ∧ (s.operations[i]?).any Operation.kept = true
  reported : ∀ i, .returned i ∈ es → .returned i ∉ sinceReport es →
    ∃ operation settlement, s.operations[i]? = some operation ∧ operation.phase = .recorded settlement
  closed : (∃ reason, .closed reason ∈ es) → s.closed.isSome = true

namespace Accounts
variable {es : List (Event Error)}

theorem initial : Accounts [] (Tracker.initial : Tracker Error) where
  told _ := .nil
  pending i := by simp [Tracker.initial, sinceReport]
  reported i h := absurd h List.not_mem_nil
  closed h := by simp at h

theorem isSome_of_returned (h : Accounts es s) (hreturned : .returned i ∈ es) :
    (s.operations[i]?).isSome = true := by
  obtain ⟨operation, hlookup, -⟩ := Option.any_eq_true _ _ |>.mp ((h.told i).returned.mp hreturned)
  rw [hlookup]
  rfl

/-- Once no snapshot has an operation to wait for, every operation is recorded. -/
theorem recorded_of_scan (h : Accounts es s) (hscan : s.scan s.pendingOperations = none)
    (hreturned : .returned i ∈ es) : ∃ operation settlement,
      s.operations[i]? = some operation ∧ operation.phase = .recorded settlement := by
  by_cases hsince : .returned i ∈ sinceReport es
  · obtain ⟨operation, hlookup⟩ := Option.isSome_iff_exists.mp (h.isSome_of_returned hreturned)
    by_contra hnone
    have hphase (settlement : Settlement Error) : operation.phase ≠ .recorded settlement :=
      fun hphase => hnone ⟨operation, settlement, hlookup, hphase⟩
    have hpending : i ∈ s.pendingOperations := by
      rw [h.pending, hlookup]
      exact ⟨hsince, Operation.kept_of_unrecorded hphase⟩
    obtain ⟨error, herror⟩ := Option.isSome_iff_exists.mp
      (Tracker.scan_eq_none.mp hscan i hpending operation hlookup)
    exact hphase _ (Operation.rejection_eq_some.mp herror)
  · exact h.reported i hreturned hsince

variable {context : String} [DecidableEq Error]

theorem move (h : Accounts es s) (hmove : Moves context s e t) : Accounts (es ++ [e]) t := by
  have hbounded : Bounded s := fun i => (h.told i).bounded
  have hchange (i : Nat) := hmove.change hbounded i
  refine ⟨fun i => (h.told i).change (hchange i), fun i => ?_, fun i hreturned hsince => ?_, ?_⟩
  · cases hreport : e.isReport with
    | false =>
      have hkept (hi : i ∈ s.pendingOperations) := ((h.pending i).mp hi).2
      rw [hmove.mem_pending hreport hkept (h.told i).unrecorded, sinceReport_snoc hreport,
        List.mem_append, List.mem_singleton, h.pending]
      apply and_congr_left
      intro hkept
      apply or_congr_left
      rw [and_iff_left_iff_imp]
      intro hsince
      exact (hchange i).kept (h.isSome_of_returned (mem_of_sinceReport hsince)) hkept
    | true =>
      rw [sinceReport_report hreport]
      cases hmove with
      | report => exact iff_of_false List.not_mem_nil fun h => List.not_mem_nil h.1
      | _ => cases hreport
  · cases hreport : e.isReport with
    | false =>
      rw [sinceReport_snoc hreport, List.mem_append, not_or] at hsince
      have hold := (List.mem_append.mp hreturned).resolve_right hsince.2
      obtain ⟨operation, settlement, hlookup, hphase⟩ := h.reported i hold hsince.1
      have hchange := hchange i
      rw [hlookup] at hchange
      obtain ⟨operation', hlookup', hphase'⟩ := hchange.recorded hphase
      exact ⟨operation', settlement, hlookup', hphase'⟩
    | true =>
      cases hmove with
      | report n waits hscan =>
        rw [List.mem_append, List.mem_singleton, or_iff_left (by simp)] at hreturned
        exact h.recorded_of_scan hscan hreturned
      | _ => cases hreport
  · rintro ⟨reason, hmem⟩
    rw [hmove.closed_isSome]
    rcases List.mem_append.mp hmem with hmem | hmem
    · exact Or.inl (h.closed ⟨reason, hmem⟩)
    · exact Or.inr ⟨reason, (List.mem_singleton.mp hmem).symm⟩

theorem run {configurationError : String → Error}
    (h : Steps (Step context configurationError) Tracker.initial es s) : Accounts es s :=
  h.history (P := fun s es => Accounts es s) (fun hs hstep => hs.move hstep.moves) initial

end Accounts

/-! ## Reports -/

section
variable {context : String} [DecidableEq Error] {configurationError : String → Error}
variable {es later : List (Event Error)} {wait : Nat} {outcome : WaitOutcome Error}

omit [DecidableEq Error] in
theorem errors_waitOutcome (errors : List Error) :
    (Tracker.waitOutcome context errors).errors = errors := by
  rcases errors with _ | ⟨error, _ | _⟩ <;> rfl

omit [DecidableEq Error] in
/-- What a report is about: rejections since the last one, of which no handler has observed any. -/
theorem Accounts.unhandled_iff (h : Accounts es s) (hscan : s.scan s.pendingOperations = none)
    {error : Error} : i ∈ s.pendingOperations ∧ s.Unhandled i error ↔
      .returned i ∈ sinceReport es ∧ .settled i (.rejected error) ∈ es ∧ ¬ Handled es i := by
  rw [h.pending, (h.told i).settled, (h.told i).handled]
  constructor
  · rintro ⟨⟨hsince, -⟩, operation, hlookup, hhandled, hrejection⟩
    rw [hlookup, Option.any_some, hhandled, Option.bind_some, Operation.settlement,
      Operation.rejection_eq_some.mp hrejection]
    exact ⟨hsince, rfl, Bool.false_ne_true⟩
  · rintro ⟨hsince, hsettled, hhandled⟩
    obtain ⟨operation, settlement, hlookup, hphase⟩ :=
      h.recorded_of_scan hscan (mem_of_sinceReport hsince)
    rw [hlookup, Option.bind_some, Operation.settlement, hphase] at hsettled
    cases hsettled
    rw [hlookup, Option.any_some, Bool.not_eq_true] at hhandled
    refine ⟨⟨hsince, ?_⟩, operation, hlookup, hhandled, Operation.rejection_eq_some.mpr hphase⟩
    rw [hlookup]
    exact (Operation.kept_iff hphase).mpr ⟨hhandled, error, rfl⟩

/-- A wait ends when all operations so far have settled. It reports the rejections of the operations
that were started since the last report, without those that a handler has observed, each error once. -/
theorem waitForPendingOperations_reports
    (h : Steps (Step context configurationError) Tracker.initial (es ++ [.reported wait outcome]) s) :
    (∀ i, .returned i ∈ es → ∃ settlement, .settled i settlement ∈ es) ∧
      outcome = Tracker.waitOutcome context outcome.errors ∧ outcome.errors.Nodup ∧
      ∀ error, error ∈ outcome.errors ↔ ∃ i, .returned i ∈ sinceReport es ∧
        .settled i (.rejected error) ∈ es ∧ ¬ Handled es i := by
  obtain ⟨t, ht, hstep⟩ := h.snoc_inv
  have haccounts := Accounts.run ht
  cases hstep.moves with
  | report _ waits hscan =>
    rw [errors_waitOutcome]
    refine ⟨fun i hreturned => ?_, rfl, Tracker.nodup_failures .nil, fun error => ?_⟩
    · obtain ⟨operation, settlement, hlookup, hphase⟩ := haccounts.recorded_of_scan hscan hreturned
      refine ⟨settlement, (haccounts.told i).settled settlement |>.mpr ?_⟩
      rw [hlookup, Option.bind_some, Operation.settlement, hphase]
    · rw [Tracker.mem_failures, or_iff_right List.not_mem_nil]
      exact exists_congr fun i => haccounts.unhandled_iff hscan

/-- Of two rejections one is observed; the other is reported. -/
theorem waitForPendingOperations_reports_unobserved :
    ∃ es : List (Event Nat), .returned 0 ∈ es ∧ .returned 1 ∈ es ∧
      ∀ error, error ∈ [8] ↔ ∃ i, .returned i ∈ sinceReport es ∧
        .settled i (.rejected error) ∈ es ∧ ¬ Handled es i := by
  obtain ⟨es, s, h, hzero, hone⟩ : ∃ (es : List (Event Nat)) (s : Tracker Nat),
      Steps (Step "sqlite store" fun _ => 0) Tracker.initial (es ++ [.reported 0 (.thrown 8)]) s ∧
        .returned 0 ∈ es ∧ .returned 1 ∈ es :=
    ⟨[.tracked 0 false, .returned 0, .tracked 1 false, .returned 1, .attached 0,
        .settled 0 (.rejected 7), .recorded 0, .observed 0 [0], .closed "callback finished",
        .waiting 0, .settled 1 (.rejected 8), .recorded 1], _,
      @Histories.steps_of_performAll _ _ _ (fun s => Tracker.step s "sqlite store" fun _ => 0) _ _
        [.track none none false, .return 0, .track none none false, .return 1, .attach 0 none,
          .settle 0 (.rejected 7), .record 0, .observe 0, .close "callback finished", .wait,
          .settle 1 (.rejected 8), .record 1, .resume 0] _ rfl, by simp, by simp⟩
  exact ⟨es, hzero, hone, (waitForPendingOperations_reports h).2.2.2⟩

/-! ## After a close -/

/-- An event of a tracker that no operation enters. -/
def Event.Idle : Event Error → Prop
  | .tracked _ _ => False
  | .returned _ => False
  | .settled _ _ => False
  | .observed _ handled => handled = []
  | .reported _ outcome => outcome = .resolved
  | _ => True

/-- The tracker is closed, and no operation runs. -/
structure Quiet (s : Tracker Error) : Prop where
  closed : s.closed.isSome = true
  returned : ∀ (i : Nat) (operation : Operation Error), s.operations[i]? = some operation →
    operation.returned = true
  inactive : ∀ i, s.active i = false
  empty : s.pendingOperations = []

omit [DecidableEq Error] in
theorem Quiet.not_canObserve (h : Quiet s) (scope : Option Nat) (i : Nat) :
    s.canObserve scope i = false := by
  have hnone : s.closed.isNone = false := by rw [← Option.not_isSome, h.closed, Bool.not_true]
  rw [Tracker.canObserve, hnone, Bool.false_or]
  cases scope with
  | none => rfl
  | some ancestor => rw [Option.any_some, h.inactive, Bool.false_and]

theorem Quiet.move (h : Quiet s) (hmove : Moves context s e t) (hlate : ∀ i, e ≠ .tracked i true) :
    Quiet t ∧ e.Idle := by
  cases hmove with
  | close reason => exact ⟨⟨rfl, h.returned, h.inactive, h.empty⟩, trivial⟩
  | refuse | passOn => exact ⟨h, trivial⟩
  | attach | wait => exact ⟨⟨h.closed, h.returned, h.inactive, h.empty⟩, trivial⟩
  | track hopen hparent =>
    exfalso
    rcases hopen with hnone | hsome | rfl
    · rw [← Option.isNone_iff_eq_none, ← Bool.not_eq_false, ← Option.not_isSome, h.closed] at hnone
      exact hnone rfl
    · obtain ⟨parent, rfl⟩ := Option.isSome_iff_exists.mp hsome
      cases (hparent parent rfl).symm.trans (h.inactive parent)
    · exact hlate _ rfl
  | «return» hlookup hnot => cases (h.returned _ _ hlookup).symm.trans hnot
  | @settle i _ hlookup hphase =>
    have hinactive := h.inactive i
    rw [Tracker.active, hlookup, Option.any_some, Operation.active, hphase] at hinactive
    cases hinactive
  | record hlookup hreturned hphase =>
    refine ⟨⟨?_, fun j operation hlookup' => ?_, fun j => ?_, ?_⟩, trivial⟩
    · rw [Tracker.closed_recordSettlement, h.closed]
    · rw [Tracker.lookup_recordSettlement hlookup] at hlookup'
      split at hlookup'
      · cases hlookup'
        exact hreturned
      · exact h.returned j operation hlookup'
    · rw [Tracker.active, Tracker.lookup_recordSettlement hlookup]
      split
      · rfl
      · exact h.inactive j
    · rw [List.eq_nil_iff_forall_not_mem]
      intro j hj
      rw [Tracker.mem_pending_recordSettlement, h.empty] at hj
      cases hj.1
  | observe hmem n scope =>
    rw [List.filter_eq_nil_iff.mpr fun j _ => by rw [h.not_canObserve]; exact Bool.false_ne_true]
    exact ⟨h, rfl⟩
  | report n waits hscan =>
    rw [h.empty]
    exact ⟨⟨h.closed, h.returned, h.inactive, rfl⟩, rfl⟩

/-- A report on a closed tracker leaves it quiet, unless the first segment of an operation still runs. -/
theorem Accounts.quiet (h : Accounts es s) (hmove : Moves context s (.reported wait outcome) t)
    (hclosed : ∃ reason, .closed reason ∈ es)
    (hreturned : ∀ i admitAfterClose, .tracked i admitAfterClose ∈ es → .returned i ∈ es) :
    Quiet t := by
  cases hmove with
  | report _ waits hscan =>
    have hstarted {i : Nat} (hsome : (s.operations[i]?).isSome = true) : .returned i ∈ es := by
      obtain ⟨_, hmem⟩ := (h.told i).tracked hsome
      exact hreturned i _ hmem
    refine ⟨h.closed hclosed, fun i operation hlookup => ?_, fun i => ?_, rfl⟩
    · change s.operations[i]? = some operation at hlookup
      have hany := (h.told i).returned.mp (hstarted (by rw [hlookup]; rfl))
      rwa [hlookup] at hany
    · change (s.operations[i]?).any Operation.active = false
      cases hlookup : s.operations[i]? with
      | none => rfl
      | some operation =>
        obtain ⟨operation', settlement, hlookup', hphase⟩ :=
          h.recorded_of_scan hscan (hstarted (by rw [hlookup]; rfl))
        cases hlookup.symm.trans hlookup'
        rw [Option.any_some, Operation.active, hphase]

/-- After a close and a report nothing enters the tracker any more, except what is admitted in spite of
the close: no operation starts or settles, and no wait has anything to report. -/
theorem closed_tracker_idle
    (h : Steps (Step context configurationError) Tracker.initial
      (es ++ [.reported wait outcome] ++ later) s)
    (hclosed : ∃ reason, .closed reason ∈ es)
    (hreturned : ∀ i admitAfterClose, .tracked i admitAfterClose ∈ es → .returned i ∈ es)
    (hlate : ∀ i, .tracked i true ∉ later) :
    s.pendingOperations = [] ∧ ∀ e ∈ later, e.Idle := by
  obtain ⟨t, ht, hlater⟩ := h.append_inv
  obtain ⟨u, hu, hstep⟩ := ht.snoc_inv
  have hquiet : Quiet t := (Accounts.run hu).quiet hstep.moves hclosed hreturned
  have hrun : (∀ i, .tracked i true ∉ later) → Quiet s ∧ ∀ e ∈ later, e.Idle := by
    apply hlater.history (P := fun s later =>
      (∀ i, .tracked i true ∉ later) → Quiet s ∧ ∀ e ∈ later, e.Idle)
    · intro u later e u' hu hstep hlate
      obtain ⟨hquiet, hidle⟩ := hu fun i hmem => hlate i (List.mem_append_left _ hmem)
      have hmove := hquiet.move hstep.moves fun i heq =>
        hlate i (List.mem_append_right _ (heq ▸ List.mem_singleton_self _))
      refine ⟨hmove.1, fun e' hmem => ?_⟩
      rcases List.mem_append.mp hmem with hmem | hmem
      · exact hidle e' hmem
      · rw [List.mem_singleton.mp hmem]
        exact hmove.2
    · exact fun _ => ⟨hquiet, fun e he => absurd he List.not_mem_nil⟩
  exact ⟨(hrun hlate).1.empty, (hrun hlate).2⟩

/-- A late write is refused, and the next wait has nothing to report. -/
theorem closed_tracker_idle_refused :
    ∃ later : List (Event Nat), .refused 9 ∈ later ∧ .reported 1 .resolved ∈ later ∧
      ∀ e ∈ later, e.Idle := by
  obtain ⟨s, h⟩ : ∃ s : Tracker Nat, Steps (Step "sqlite store" fun _ => 9) Tracker.initial
      ([.tracked 0 false, .returned 0, .closed "callback finished", .waiting 0,
        .settled 0 (.rejected 7), .recorded 0] ++ [.reported 0 (.thrown 7)] ++
          [.refused 9, .closed "rollback", .reported 1 .resolved]) s :=
    ⟨_, @Histories.steps_of_performAll _ _ _ (fun s => Tracker.step s "sqlite store" fun _ => 9) _ _
      [.track none none false, .return 0, .close "callback finished", .wait,
        .settle 0 (.rejected 7), .record 0, .resume 0, .track none none false, .close "rollback",
        .wait] _ rfl⟩
  refine ⟨_, by simp, by simp, (closed_tracker_idle h ⟨"callback finished", by simp⟩ ?_ (by simp)).2⟩
  intro i admitAfterClose hmem
  simp only [List.mem_cons, Event.tracked.injEq, reduceCtorEq, List.not_mem_nil, or_false] at hmem
  simp [hmem.1]

end

end ActiveTs.Transactions.OperationTracker
