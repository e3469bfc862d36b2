import ActiveTs.Lib.JsMap
import Mathlib.Data.List.Perm.Basic
import Mathlib.Data.List.Count

/-! # Deferred tasks of nested transactions

A transaction callback registers tasks for after the commit or the rollback, invalidates cache
keys and opens savepoints. What a callback registers, with its savepoints and how each of them
ended, is a `Script`; running it merges the lists of a savepoint into those of its parent, and the
outcome of the root decides which of the merged lists run. -/

namespace ActiveTs.Transactions

universe u v

variable {T : Type u} {K : Type v}

/-! ## Scripts -/

inductive SavepointOutcome
  | released
  | rolledBack
  | unconfirmed

inductive RootOutcome
  | committed
  | rolledBack
  | unknown
  deriving DecidableEq

/-- The registrations of one callback in their order, each savepoint with those of its own
callback. -/
inductive Script (T : Type u) (K : Type v)
  | done
  | afterCommit (task : T) (rest : Script T K)
  | afterRollback (task : T) (rest : Script T K)
  | afterCommitInternal (task : T) (rest : Script T K)
  | invalidate (key : K) (rest : Script T K)
  | savepoint (outcome : SavepointOutcome) (body rest : Script T K)

/-! ## The state of a scope -/

/-- The task object of one registered invalidation. -/
structure Invalidation (K : Type v) where
  key : K
  ref : Nat
  deriving DecidableEq

inductive InternalTask (T : Type u) (K : Type v)
  | mergeTransactionCacheKeyOwnership
  | own (task : T)
  | invalidate (task : Invalidation K)

/-- The task lists of `TransactionState`. -/
structure TransactionState (T : Type u) (K : Type v) [DecidableEq K] where
  internalAfterCommit : List (InternalTask T K)
  afterCommit : List T
  afterRollback : List T
  cacheInvalidations : JsMap K (Invalidation K)

/-- A task that has run. -/
inductive Ran (T : Type u) (K : Type v)
  | mergedOwnership
  | internal (task : T)
  | afterCommit (task : T)
  | afterRollback (task : T)
  | invalidated (key : K)

def InternalTask.invalidation? : InternalTask T K → Option (Invalidation K)
  | invalidate task => some task
  | _ => none

def InternalTask.ran : InternalTask T K → Ran T K
  | mergeTransactionCacheKeyOwnership => .mergedOwnership
  | own task => .internal task
  | invalidate task => .invalidated task.key

namespace Ran

def afterCommit? : Ran T K → Option T
  | afterCommit task => some task
  | _ => none

def afterRollback? : Ran T K → Option T
  | afterRollback task => some task
  | _ => none

def internal? : Ran T K → Option T
  | internal task => some task
  | _ => none

def invalidated? : Ran T K → Option K
  | invalidated key => some key
  | _ => none

end Ran

variable [DecidableEq K]

namespace TransactionState

def empty : TransactionState T K := ⟨[], [], [], .empty⟩

/-- `ActiveContext.invalidate` in a transaction: a key gets one task in each scope. -/
def invalidate (s : TransactionState T K) (key : K) (ref : Nat) : TransactionState T K :=
  if s.cacheInvalidations.has key then s
  else
    { s with
      cacheInvalidations := s.cacheInvalidations.set key ⟨key, ref⟩
      internalAfterCommit := s.internalAfterCommit ++ [.invalidate ⟨key, ref⟩] }

/-- The entries of a settled savepoint that its parent did not have. -/
def acceptedInvalidations (parent child : TransactionState T K) : List (K × Invalidation K) :=
  child.cacheInvalidations.entries.filter fun e => !parent.cacheInvalidations.has e.1

def mergedInvalidations (parent child : TransactionState T K) : JsMap K (Invalidation K) :=
  (parent.acceptedInvalidations child).foldl (fun m e => m.set e.1 e.2) parent.cacheInvalidations

/-- Whether a task of a released savepoint goes to its parent. -/
def keepsTask (parent child : TransactionState T K) (task : InternalTask T K) : Bool :=
  match task.invalidation? with
  | some inv =>
    !(child.cacheInvalidations.entries.any fun e => e.2 = inv) ||
      (parent.acceptedInvalidations child).any fun e => e.2 = inv
  | none => true

/-- The parent after the release of a savepoint. -/
def release (parent child : TransactionState T K) : TransactionState T K where
  internalAfterCommit :=
    parent.internalAfterCommit ++ child.internalAfterCommit.filter (parent.keepsTask child)
  afterCommit := parent.afterCommit ++ child.afterCommit
  afterRollback := parent.afterRollback ++ child.afterRollback
  cacheInvalidations := parent.mergedInvalidations child

/-- The parent after a savepoint whose rollback is unconfirmed: "uncertain writes for root-outcome
cache cleanup, without commit tasks". -/
def keepUnconfirmed (parent child : TransactionState T K) : TransactionState T K where
  internalAfterCommit := parent.internalAfterCommit
  afterCommit := parent.afterCommit
  afterRollback := parent.afterRollback ++ child.afterRollback
  cacheInvalidations := parent.mergedInvalidations child

end TransactionState

/-! ## Running a transaction -/

/-- One scope while its callback runs: `created` counts the invalidation tasks of the whole
transaction, `ran` lists the tasks that have run in it. -/
structure ScopeRun (T : Type u) (K : Type v) [DecidableEq K] where
  state : TransactionState T K
  created : Nat
  ran : List (Ran T K)

/-- What the end of a savepoint does to its parent. -/
def ScopeRun.settle (parent : TransactionState T K) (child : ScopeRun T K) :
    SavepointOutcome → ScopeRun T K
  | .released => { child with state := parent.release child.state }
  | .unconfirmed => { child with state := parent.keepUnconfirmed child.state }
  | .rolledBack =>
    { child with
      state := parent
      ran := child.ran ++ child.state.afterRollback.map .afterRollback }

def Script.run : Script T K → ScopeRun T K → ScopeRun T K
  | .done, w => w
  | .afterCommit task rest, w =>
    rest.run { w with state := { w.state with afterCommit := w.state.afterCommit ++ [task] } }
  | .afterRollback task rest, w =>
    rest.run { w with state := { w.state with afterRollback := w.state.afterRollback ++ [task] } }
  | .afterCommitInternal task rest, w =>
    rest.run { w with state := { w.state with
      internalAfterCommit := w.state.internalAfterCommit ++ [.own task] } }
  | .invalidate key rest, w =>
    rest.run { w with state := w.state.invalidate key w.created, created := w.created + 1 }
  | .savepoint outcome body rest, w =>
    rest.run ((body.run { w with state := .empty }).settle w.state outcome)

section
variable (task : T) (rest : Script T K) (w : ScopeRun T K)

@[simp] theorem Script.run_done : Script.done.run w = w := rfl

@[simp] theorem Script.run_afterCommit : (Script.afterCommit task rest).run w =
    rest.run { w with state := { w.state with afterCommit := w.state.afterCommit ++ [task] } } := rfl

@[simp] theorem Script.run_afterRollback : (Script.afterRollback task rest).run w =
    rest.run { w with state := { w.state with afterRollback := w.state.afterRollback ++ [task] } } := rfl

@[simp] theorem Script.run_afterCommitInternal : (Script.afterCommitInternal task rest).run w =
    rest.run { w with state := { w.state with
      internalAfterCommit := w.state.internalAfterCommit ++ [.own task] } } := rfl

@[simp] theorem Script.run_invalidate (key : K) : (Script.invalidate key rest).run w =
    rest.run { w with state := w.state.invalidate key w.created, created := w.created + 1 } := rfl

@[simp] theorem Script.run_savepoint (outcome : SavepointOutcome) (body : Script T K) :
    (Script.savepoint outcome body rest).run w =
      rest.run ((body.run { w with state := .empty }).settle w.state outcome) := rfl

end

/-- `createState` of the root: its first internal task merges the cache key ownership. -/
def rootState : TransactionState T K :=
  { TransactionState.empty with internalAfterCommit := [.mergeTransactionCacheKeyOwnership] }

/-- `runAfterCommitTasks`. -/
def TransactionState.runAfterCommitTasks (s : TransactionState T K) : List (Ran T K) :=
  s.internalAfterCommit.map InternalTask.ran ++ s.afterCommit.map .afterCommit

/-- The tasks that the root runs for its outcome. -/
def TransactionState.conclude (s : TransactionState T K) : RootOutcome → List (Ran T K)
  | .committed => s.runAfterCommitTasks
  | .rolledBack => s.afterRollback.map .afterRollback
  | .unknown => s.cacheInvalidations.entries.map fun e => .invalidated e.2.key

/-- All tasks that a root transaction runs, in order. -/
def Script.transaction (b : Script T K) (outcome : RootOutcome) : List (Ran T K) :=
  let w := b.run ⟨rootState, 0, []⟩
  w.ran ++ w.state.conclude outcome

/-! ## What the tasks are for -/

namespace Script

/-- The afterCommit tasks of the scopes that survive when the root commits. -/
def survivingAfterCommit : Script T K → List T
  | done => []
  | afterCommit task rest => task :: rest.survivingAfterCommit
  | afterRollback _ rest => rest.survivingAfterCommit
  | afterCommitInternal _ rest => rest.survivingAfterCommit
  | invalidate _ rest => rest.survivingAfterCommit
  | savepoint .released body rest => body.survivingAfterCommit ++ rest.survivingAfterCommit
  | savepoint _ _ rest => rest.survivingAfterCommit

def survivingInternal : Script T K → List T
  | done => []
  | afterCommit _ rest => rest.survivingInternal
  | afterRollback _ rest => rest.survivingInternal
  | afterCommitInternal task rest => task :: rest.survivingInternal
  | invalidate _ rest => rest.survivingInternal
  | savepoint .released body rest => body.survivingInternal ++ rest.survivingInternal
  | savepoint _ _ rest => rest.survivingInternal

/-- The keys invalidated in the scopes that survive when the root commits. -/
def survivingKeys : Script T K → List K
  | done => []
  | afterCommit _ rest => rest.survivingKeys
  | afterRollback _ rest => rest.survivingKeys
  | afterCommitInternal _ rest => rest.survivingKeys
  | invalidate key rest => key :: rest.survivingKeys
  | savepoint .released body rest => body.survivingKeys ++ rest.survivingKeys
  | savepoint _ _ rest => rest.survivingKeys

/-- The keys invalidated under no savepoint that was rolled back, each with whether every savepoint
above it was released. -/
def invalidations : Script T K → List (K × Bool)
  | done => []
  | afterCommit _ rest => rest.invalidations
  | afterRollback _ rest => rest.invalidations
  | afterCommitInternal _ rest => rest.invalidations
  | invalidate key rest => (key, true) :: rest.invalidations
  | savepoint .released body rest => body.invalidations ++ rest.invalidations
  | savepoint .unconfirmed body rest =>
    body.invalidations.map (fun e => (e.1, false)) ++ rest.invalidations
  | savepoint .rolledBack _ rest => rest.invalidations

/-- The afterRollback tasks with a rolled back savepoint above them, or all of them when the scope
itself was rolled back. -/
def undone : Script T K → Bool → List T
  | done, _ => []
  | afterCommit _ rest, up => rest.undone up
  | afterRollback task rest, up => if up then task :: rest.undone up else rest.undone up
  | afterCommitInternal _ rest, up => rest.undone up
  | invalidate _ rest, up => rest.undone up
  | savepoint .rolledBack body rest, up => body.undone true ++ rest.undone up
  | savepoint _ body rest, up => body.undone up ++ rest.undone up

/-- Some key of a surviving scope was first invalidated in an unconfirmed savepoint. -/
def Masked (b : Script T K) : Prop :=
  ∃ key ∈ b.survivingKeys, JsMap.lookup key b.invalidations = some false

end Script

/-- Every task runs as often as the outcomes of its scopes allow, and never otherwise. -/
structure DeferredLaw (b : Script T K) (outcome : RootOutcome) (ran : List (Ran T K)) : Prop where
  afterCommit : ran.filterMap Ran.afterCommit? =
    if outcome = .committed then b.survivingAfterCommit else []
  internal : ran.filterMap Ran.internal? =
    if outcome = .committed then b.survivingInternal else []
  afterRollback : (ran.filterMap Ran.afterRollback?).Perm (b.undone (outcome = .rolledBack))
  invalidated : outcome = .committed →
    ∀ key ∈ b.survivingKeys, (ran.filterMap Ran.invalidated?).count key = 1
  evicted : outcome = .unknown →
    ∀ key ∈ b.invalidations.map Prod.fst, key ∈ ran.filterMap Ran.invalidated?

/-! ## Merged invalidations -/

namespace TransactionState

theorem get?_mergedInvalidations (parent child : TransactionState T K) (key : K) :
    (parent.mergedInvalidations child).get? key =
      (parent.cacheInvalidations.get? key).or (child.cacheInvalidations.get? key) := by
  have hnodup : ((parent.acceptedInvalidations child).map Prod.fst).Nodup :=
    child.cacheInvalidations.nodup.sublist (List.Sublist.map _ List.filter_sublist)
  rw [mergedInvalidations, JsMap.get?_foldl_set hnodup, acceptedInvalidations,
    JsMap.lookup_filter_key fun key => !parent.cacheInvalidations.has key]
  cases hp : parent.cacheInvalidations.get? key with
  | none => simp [JsMap.has_eq_false.mpr hp, JsMap.get?]
  | some inv => simp [JsMap.has, hp]

theorem mem_acceptedInvalidations {parent child : TransactionState T K} {key : K}
    {inv : Invalidation K} :
    (key, inv) ∈ parent.acceptedInvalidations child ↔
      child.cacheInvalidations.get? key = some inv ∧
        parent.cacheInvalidations.get? key = none := by
  rw [acceptedInvalidations, List.mem_filter, JsMap.mem_entries_iff, Bool.not_eq_true',
    JsMap.has_eq_false]

end TransactionState

/-! ## The invalidation tasks of a scope

A scope has one task for each key whose first invalidation came from a surviving scope, and none
for the keys that it only knows from an unconfirmed savepoint. -/

/-- The state of a scope after the invalidations `m` in it and its settled savepoints. -/
structure Tracks (s : TransactionState T K) (m : List (K × Bool)) : Prop where
  known : ∀ key, (s.cacheInvalidations.get? key).isSome = (JsMap.lookup key m).isSome
  task : ∀ key inv, s.cacheInvalidations.get? key = some inv → inv.key = key
  armed : ∀ inv, .invalidate inv ∈ s.internalAfterCommit ↔
    s.cacheInvalidations.get? inv.key = some inv ∧ JsMap.lookup inv.key m = some true
  once : (s.internalAfterCommit.filterMap InternalTask.invalidation?).Nodup

namespace Tracks

variable {s c : TransactionState T K} {m mc : List (K × Bool)}

omit [DecidableEq K] in
theorem mem_invalidations {l : List (InternalTask T K)} {inv : Invalidation K} :
    inv ∈ l.filterMap InternalTask.invalidation? ↔ .invalidate inv ∈ l := by
  rw [List.mem_filterMap]
  constructor
  · rintro ⟨task, hmem, htask⟩
    cases task with
    | invalidate inv' =>
      cases htask
      exact hmem
    | mergeTransactionCacheKeyOwnership => cases htask
    | own task => cases htask
  · exact fun h => ⟨_, h, rfl⟩

theorem empty : Tracks (TransactionState.empty : TransactionState T K) [] where
  known _ := rfl
  task _ _ h := by cases h
  armed inv := by simp [TransactionState.empty, JsMap.lookup]
  once := List.nodup_nil

/-- Only the invalidation tasks and the map matter. -/
theorem congr (h : Tracks s m) {s' : TransactionState T K}
    (hmap : s'.cacheInvalidations = s.cacheInvalidations)
    (htasks : s'.internalAfterCommit.filterMap InternalTask.invalidation? =
      s.internalAfterCommit.filterMap InternalTask.invalidation?) : Tracks s' m where
  known := by
    rw [hmap]
    exact h.known
  task := by
    rw [hmap]
    exact h.task
  armed inv := by rw [hmap, ← mem_invalidations, htasks, mem_invalidations, h.armed]
  once := by
    rw [htasks]
    exact h.once

theorem invalidate (h : Tracks s m) (key : K) (ref : Nat) :
    Tracks (s.invalidate key ref) (m ++ [(key, true)]) := by
  unfold TransactionState.invalidate
  have hlookup : ∀ key', JsMap.lookup key' (m ++ [(key, true)]) =
      (JsMap.lookup key' m).or (if key = key' then some true else none) := fun key' => by
    rw [JsMap.lookup_append]
    rfl
  cases hkey : s.cacheInvalidations.get? key with
  | some old =>
    have hsome : (JsMap.lookup key m).isSome := by
      rw [← h.known, hkey]
      rfl
    have hsame : ∀ key', JsMap.lookup key' (m ++ [(key, true)]) = JsMap.lookup key' m :=
      fun key' => by
        rw [hlookup]
        by_cases hk : key = key'
        · subst hk
          rw [Option.or_of_isSome hsome]
        · rw [if_neg hk, Option.or_none]
    rw [if_pos (by simp [JsMap.has, hkey])]
    exact ⟨fun key' => by rw [hsame, h.known], h.task, fun inv => by rw [hsame, h.armed], h.once⟩
  | none =>
    have hnone : JsMap.lookup key m = none := by
      rw [← Option.not_isSome_iff_eq_none, ← h.known, hkey]
      exact Bool.false_ne_true
    rw [if_neg (by simp [JsMap.has, hkey])]
    constructor
    · intro key'
      by_cases hk : key = key'
      · subst hk
        simp [hlookup, hnone]
      · simp [hlookup, JsMap.get?_set_of_ne _ _ hk, hk, h.known]
    · intro key' inv hinv
      by_cases hk : key = key'
      · subst hk
        simp only [JsMap.get?_set_self, Option.some.injEq] at hinv
        rw [← hinv]
      · rw [JsMap.get?_set_of_ne _ _ hk] at hinv
        exact h.task _ _ hinv
    · intro inv
      rw [List.mem_append, h.armed, List.mem_singleton, InternalTask.invalidate.injEq, hlookup]
      by_cases hk : key = inv.key
      · rw [← hk, hkey, hnone, JsMap.get?_set_self]
        simp [eq_comm]
      · rw [JsMap.get?_set_of_ne _ _ hk, if_neg hk, Option.or_none]
        refine or_iff_left fun hinv => hk ?_
        rw [hinv]
    · rw [List.filterMap_append]
      refine List.nodup_append.mpr ⟨h.once, List.nodup_singleton _, ?_⟩
      rintro inv hinv inv' hinv' rfl
      obtain rfl : inv = ⟨key, ref⟩ := by simpa [InternalTask.invalidation?] using hinv'
      have hget := ((h.armed _).mp (mem_invalidations.mp hinv)).1
      rw [hkey] at hget
      cases hget

/-- What a released savepoint hands to its parent are the tasks of the keys new to it. -/
theorem keepsTask_iff (hc : Tracks c mc) {inv : Invalidation K}
    (hmem : .invalidate inv ∈ c.internalAfterCommit) :
    s.keepsTask c (.invalidate inv) = true ↔ s.cacheInvalidations.get? inv.key = none := by
  have hget := ((hc.armed inv).mp hmem).1
  have hown : (c.cacheInvalidations.entries.any fun e => e.2 = inv) = true :=
    List.any_eq_true.mpr ⟨_, JsMap.mem_entries_iff.mpr hget, by simp⟩
  simp only [TransactionState.keepsTask, InternalTask.invalidation?, hown, Bool.not_true,
    Bool.false_or, List.any_eq_true, decide_eq_true_eq, Prod.exists]
  constructor
  · rintro ⟨key, inv', hacc, rfl⟩
    obtain ⟨hinv, hnone⟩ := TransactionState.mem_acceptedInvalidations.mp hacc
    rwa [hc.task _ _ hinv]
  · intro hnone
    exact ⟨_, _, TransactionState.mem_acceptedInvalidations.mpr ⟨hget, hnone⟩, rfl⟩

theorem known_append (h : Tracks s m) {m' : List (K × Bool)}
    (hc : ∀ key, (c.cacheInvalidations.get? key).isSome = (JsMap.lookup key m').isSome)
    (key : K) : ((s.mergedInvalidations c).get? key).isSome = (JsMap.lookup key (m ++ m')).isSome := by
  rw [TransactionState.get?_mergedInvalidations, JsMap.lookup_append, Option.isSome_or,
    Option.isSome_or, h.known, hc]

theorem task_merged (h : Tracks s m) (hc : Tracks c mc) {key : K} {inv : Invalidation K}
    (hinv : (s.mergedInvalidations c).get? key = some inv) : inv.key = key := by
  rw [TransactionState.get?_mergedInvalidations] at hinv
  rcases Option.or_eq_some_iff.mp hinv with hinv | ⟨_, hinv⟩
  · exact h.task _ _ hinv
  · exact hc.task _ _ hinv

theorem release (h : Tracks s m) (hc : Tracks c mc) : Tracks (s.release c) (m ++ mc) where
  known := h.known_append hc.known
  task _ _ := h.task_merged hc
  armed inv := by
    simp only [TransactionState.release, List.mem_append, List.mem_filter, h.armed,
      TransactionState.get?_mergedInvalidations, JsMap.lookup_append]
    cases hs : s.cacheInvalidations.get? inv.key with
    | some old =>
      have hsome : (JsMap.lookup inv.key m).isSome := by
        rw [← h.known, hs]
        rfl
      rw [Option.or_of_isSome hsome, Option.some_or]
      refine or_iff_left ?_
      rintro ⟨hmem, hkeep⟩
      rw [(hc.keepsTask_iff hmem).mp hkeep] at hs
      cases hs
    | none =>
      have hnone : JsMap.lookup inv.key m = none := by
        rw [← Option.not_isSome_iff_eq_none, ← h.known, hs]
        exact Bool.false_ne_true
      rw [hnone, Option.none_or, Option.none_or]
      constructor
      · rintro (⟨hget, _⟩ | ⟨hmem, _⟩)
        · cases hget
        · exact (hc.armed inv).mp hmem
      · intro hinv
        have hmem := (hc.armed inv).mpr hinv
        exact .inr ⟨hmem, (hc.keepsTask_iff hmem).mpr hs⟩
  once := by
    simp only [TransactionState.release, List.filterMap_append]
    refine List.nodup_append.mpr ⟨h.once, hc.once.sublist ?_, ?_⟩
    · exact List.Sublist.filterMap _ List.filter_sublist
    · rintro inv hinv inv' hinv' rfl
      have hget := ((h.armed _).mp (mem_invalidations.mp hinv)).1
      obtain ⟨hmem, hkeep⟩ := List.mem_filter.mp (mem_invalidations.mp hinv')
      rw [(hc.keepsTask_iff hmem).mp hkeep] at hget
      cases hget

theorem lookup_map_false (key : K) (m : List (K × Bool)) :
    JsMap.lookup key (m.map fun e => (e.1, false)) = (JsMap.lookup key m).map fun _ => false := by
  induction m with
  | nil => rfl
  | cons e m ih =>
    by_cases h : e.1 = key
    · simp [JsMap.lookup, h]
    · simp [JsMap.lookup, h, ih]

theorem keepUnconfirmed (h : Tracks s m) (hc : Tracks c mc) :
    Tracks (s.keepUnconfirmed c) (m ++ mc.map fun e => (e.1, false)) where
  known := by
    refine h.known_append fun key => ?_
    rw [hc.known, lookup_map_false, Option.isSome_map]
  task _ _ := h.task_merged hc
  armed inv := by
    simp only [TransactionState.keepUnconfirmed, h.armed,
      TransactionState.get?_mergedInvalidations, JsMap.lookup_append, lookup_map_false]
    cases hs : s.cacheInvalidations.get? inv.key with
    | some old =>
      have hsome : (JsMap.lookup inv.key m).isSome := by
        rw [← h.known, hs]
        rfl
      rw [Option.or_of_isSome hsome, Option.some_or]
    | none =>
      have hnone : JsMap.lookup inv.key m = none := by
        rw [← Option.not_isSome_iff_eq_none, ← h.known, hs]
        exact Bool.false_ne_true
      simp [hnone]
  once := h.once

end Tracks

/-! ## Running a script -/

namespace Script

/-- A scope tracks what its script invalidates. -/
theorem tracks_run (b : Script T K) {w : ScopeRun T K} {m : List (K × Bool)}
    (h : Tracks w.state m) : Tracks (b.run w).state (m ++ b.invalidations) := by
  induction b generalizing w m with
  | done =>
    rw [invalidations, List.append_nil]
    exact h
  | afterCommit task rest ih => exact ih (h.congr rfl rfl)
  | afterRollback task rest ih => exact ih (h.congr rfl rfl)
  | afterCommitInternal task rest ih =>
    refine ih (h.congr rfl ?_)
    simp [InternalTask.invalidation?]
  | invalidate key rest ih =>
    have := ih (h.invalidate key w.created) (w := { w with
      state := w.state.invalidate key w.created, created := w.created + 1 })
    rwa [List.append_assoc] at this
  | savepoint outcome body rest ihb ihr =>
    have hc : Tracks (body.run { w with state := .empty }).state body.invalidations :=
      ihb (m := []) Tracks.empty
    rw [run_savepoint]
    cases outcome with
    | released =>
      rw [invalidations, ← List.append_assoc]
      exact ihr (h.release hc)
    | unconfirmed =>
      rw [invalidations, ← List.append_assoc]
      exact ihr (h.keepUnconfirmed hc)
    | rolledBack => exact ihr h

theorem afterCommit_run (b : Script T K) (w : ScopeRun T K) :
    (b.run w).state.afterCommit = w.state.afterCommit ++ b.survivingAfterCommit := by
  induction b generalizing w with
  | done => simp [survivingAfterCommit]
  | afterCommit task rest ih => simp [survivingAfterCommit, ih]
  | afterRollback task rest ih => simp [survivingAfterCommit, ih]
  | afterCommitInternal task rest ih => simp [survivingAfterCommit, ih]
  | invalidate key rest ih =>
    rw [run_invalidate, ih, survivingAfterCommit, TransactionState.invalidate]
    split <;> rfl
  | savepoint outcome body rest ihb ihr =>
    rw [run_savepoint, ihr]
    cases outcome with
    | released => simp [ScopeRun.settle, TransactionState.release, survivingAfterCommit, ihb,
        TransactionState.empty]
    | unconfirmed => rfl
    | rolledBack => rfl

/-- The internal tasks of a scope that are no invalidations. -/
def ownTask? : InternalTask T K → Option T
  | .own task => some task
  | _ => none

theorem filterMap_ownTask?_keepsTask (p c : TransactionState T K) :
    (c.internalAfterCommit.filter (p.keepsTask c)).filterMap ownTask? =
      c.internalAfterCommit.filterMap ownTask? := by
  rw [List.filterMap_filter]
  refine List.filterMap_congr fun task _ => ?_
  cases task with
  | invalidate inv => simp [ownTask?]
  | mergeTransactionCacheKeyOwnership => simp [ownTask?]
  | own task => simp [TransactionState.keepsTask, InternalTask.invalidation?]

theorem internal_run (b : Script T K) (w : ScopeRun T K) :
    (b.run w).state.internalAfterCommit.filterMap ownTask? =
      w.state.internalAfterCommit.filterMap ownTask? ++ b.survivingInternal := by
  induction b generalizing w with
  | done => simp [survivingInternal]
  | afterCommit task rest ih => simp [survivingInternal, ih]
  | afterRollback task rest ih => simp [survivingInternal, ih]
  | afterCommitInternal task rest ih => simp [survivingInternal, ih, ownTask?]
  | invalidate key rest ih =>
    rw [run_invalidate, ih, survivingInternal, TransactionState.invalidate]
    split
    · rfl
    · simp [ownTask?]
  | savepoint outcome body rest ihb ihr =>
    rw [run_savepoint, ihr]
    cases outcome with
    | released =>
      simp [ScopeRun.settle, TransactionState.release, survivingInternal,
        filterMap_ownTask?_keepsTask, ihb, TransactionState.empty]
    | unconfirmed => rfl
    | rolledBack => rfl

/-- While callbacks run, only afterRollback tasks run. -/
theorem ran_run (b : Script T K) (w : ScopeRun T K) :
    (b.run w).ran.filterMap Ran.afterCommit? = w.ran.filterMap Ran.afterCommit? ∧
      (b.run w).ran.filterMap Ran.internal? = w.ran.filterMap Ran.internal? ∧
      (b.run w).ran.filterMap Ran.invalidated? = w.ran.filterMap Ran.invalidated? := by
  induction b generalizing w with
  | done => exact ⟨rfl, rfl, rfl⟩
  | afterCommit task rest ih => exact ih _
  | afterRollback task rest ih => exact ih _
  | afterCommitInternal task rest ih => exact ih _
  | invalidate key rest ih => exact ih _
  | savepoint outcome body rest ihb ihr =>
    rw [run_savepoint]
    obtain ⟨h₁, h₂, h₃⟩ := ihr ((body.run { w with state := .empty }).settle w.state outcome)
    obtain ⟨hb₁, hb₂, hb₃⟩ := ihb { w with state := .empty }
    rw [h₁, h₂, h₃]
    cases outcome with
    | released => exact ⟨hb₁, hb₂, hb₃⟩
    | unconfirmed => exact ⟨hb₁, hb₂, hb₃⟩
    | rolledBack =>
      refine ⟨?_, ?_, ?_⟩ <;>
        simp [ScopeRun.settle, hb₁, hb₂, hb₃, List.filterMap_map, Function.comp_def,
          Ran.afterCommit?, Ran.internal?, Ran.invalidated?]

/-- The afterRollback tasks that reach the scope itself. -/
def keptRollback : Script T K → List T
  | done => []
  | afterCommit _ rest => rest.keptRollback
  | afterRollback task rest => task :: rest.keptRollback
  | afterCommitInternal _ rest => rest.keptRollback
  | invalidate _ rest => rest.keptRollback
  | savepoint .rolledBack _ rest => rest.keptRollback
  | savepoint _ body rest => body.keptRollback ++ rest.keptRollback

omit [DecidableEq K] in
/-- A rollback of the scope undoes what it kept besides what its savepoints undid. -/
theorem undone_true (b : Script T K) : (b.undone true).Perm (b.undone false ++ b.keptRollback) := by
  induction b with
  | done => exact .nil
  | afterCommit task rest ih => exact ih
  | afterRollback task rest ih => exact (ih.cons task).trans List.perm_middle.symm
  | afterCommitInternal task rest ih => exact ih
  | invalidate key rest ih => exact ih
  | savepoint outcome body rest ihb ihr =>
    have hboth : (body.undone true ++ rest.undone true).Perm
        ((body.undone false ++ rest.undone false) ++ (body.keptRollback ++ rest.keptRollback)) := by
      refine (ihb.append ihr).trans ?_
      rw [List.append_assoc, List.append_assoc]
      refine .append_left _ ?_
      rw [← List.append_assoc, ← List.append_assoc]
      exact .append_right _ List.perm_append_comm
    cases outcome with
    | released => exact hboth
    | unconfirmed => exact hboth
    | rolledBack =>
      rw [undone, undone, keptRollback, List.append_assoc]
      exact .append_left _ ihr

theorem afterRollback_run (b : Script T K) (w : ScopeRun T K) :
    (b.run w).state.afterRollback = w.state.afterRollback ++ b.keptRollback := by
  induction b generalizing w with
  | done => simp [keptRollback]
  | afterCommit task rest ih => simp [keptRollback, ih]
  | afterRollback task rest ih => simp [keptRollback, ih]
  | afterCommitInternal task rest ih => simp [keptRollback, ih]
  | invalidate key rest ih =>
    rw [run_invalidate, ih, keptRollback, TransactionState.invalidate]
    split <;> rfl
  | savepoint outcome body rest ihb ihr =>
    rw [run_savepoint, ihr]
    cases outcome with
    | released =>
      simp [ScopeRun.settle, TransactionState.release, keptRollback, ihb, TransactionState.empty]
    | unconfirmed =>
      simp [ScopeRun.settle, TransactionState.keepUnconfirmed, keptRollback, ihb,
        TransactionState.empty]
    | rolledBack => rfl

omit [DecidableEq K] in
theorem filterMap_afterRollback? (l : List T) :
    (l.map Ran.afterRollback).filterMap (Ran.afterRollback? : Ran T K → Option T) = l := by
  simp [List.filterMap_map, Function.comp_def, Ran.afterRollback?]

/-- While callbacks run, the rolled back savepoints run their afterRollback tasks. -/
theorem ran_afterRollback_run (b : Script T K) (w : ScopeRun T K) :
    ((b.run w).ran.filterMap Ran.afterRollback?).Perm
      (w.ran.filterMap Ran.afterRollback? ++ b.undone false) := by
  induction b generalizing w with
  | done =>
    rw [undone, List.append_nil]
    rfl
  | afterCommit task rest ih => exact ih _
  | afterRollback task rest ih => exact ih _
  | afterCommitInternal task rest ih => exact ih _
  | invalidate key rest ih => exact ih _
  | savepoint outcome body rest ihb ihr =>
    rw [run_savepoint]
    refine (ihr _).trans ?_
    have hb := ihb { w with state := .empty }
    cases outcome with
    | released =>
      change List.Perm _ (_ ++ (body.undone false ++ rest.undone false))
      rw [← List.append_assoc]
      exact hb.append_right _
    | unconfirmed =>
      change List.Perm _ (_ ++ (body.undone false ++ rest.undone false))
      rw [← List.append_assoc]
      exact hb.append_right _
    | rolledBack =>
      rw [undone, ← List.append_assoc]
      refine .append_right _ ?_
      rw [ScopeRun.settle, List.filterMap_append, filterMap_afterRollback?,
        body.afterRollback_run { w with state := .empty }]
      refine (hb.append_right _).trans ?_
      rw [List.append_assoc]
      exact .append_left _ body.undone_true.symm

/-! ## The law -/

omit [DecidableEq K] in
theorem mem_survivingKeys {b : Script T K} {key : K} :
    key ∈ b.survivingKeys ↔ (key, true) ∈ b.invalidations := by
  induction b with
  | done => simp [survivingKeys, invalidations]
  | afterCommit task rest ih => exact ih
  | afterRollback task rest ih => exact ih
  | afterCommitInternal task rest ih => exact ih
  | invalidate key rest ih => simp [survivingKeys, invalidations, ih]
  | savepoint outcome body rest ihb ihr =>
    cases outcome with
    | released => simp [survivingKeys, invalidations, ihb, ihr]
    | unconfirmed => simp [survivingKeys, invalidations, ihr]
    | rolledBack => exact ihr

end Script

/-- The keys that the invalidation tasks of a scope clear. -/
def TransactionState.clearedKeys (s : TransactionState T K) : List K :=
  (s.internalAfterCommit.filterMap InternalTask.invalidation?).map Invalidation.key

namespace Tracks

variable {s : TransactionState T K} {m : List (K × Bool)}

theorem nodup_clearedKeys (h : Tracks s m) : s.clearedKeys.Nodup := by
  refine List.Nodup.map_on (fun inv hinv inv' hinv' hkey => ?_) h.once
  have hget := ((h.armed inv).mp (mem_invalidations.mp hinv)).1
  have hget' := ((h.armed inv').mp (mem_invalidations.mp hinv')).1
  rw [hkey, hget'] at hget
  exact (Option.some.inj hget).symm

theorem mem_clearedKeys (h : Tracks s m) {key : K} :
    key ∈ s.clearedKeys ↔ JsMap.lookup key m = some true := by
  rw [TransactionState.clearedKeys, List.mem_map]
  constructor
  · rintro ⟨inv, hinv, rfl⟩
    exact ((h.armed inv).mp (mem_invalidations.mp hinv)).2
  · intro hkey
    have hsome : (s.cacheInvalidations.get? key).isSome := by
      rw [h.known, hkey]
      rfl
    obtain ⟨inv, hinv⟩ := Option.isSome_iff_exists.mp hsome
    obtain rfl := h.task _ _ hinv
    exact ⟨inv, mem_invalidations.mpr ((h.armed inv).mpr ⟨hinv, hkey⟩), rfl⟩

theorem count_clearedKeys (h : Tracks s m) {key : K} :
    s.clearedKeys.count key = 1 ↔ JsMap.lookup key m = some true := by
  rw [← h.mem_clearedKeys]
  constructor
  · intro hcount
    exact List.count_pos_iff.mp (hcount ▸ Nat.one_pos)
  · exact fun hmem => List.count_eq_one_of_mem h.nodup_clearedKeys hmem

end Tracks

theorem tracks_rootState : Tracks (rootState : TransactionState T K) [] :=
  Tracks.empty.congr rfl rfl

theorem TransactionState.filterMap_runAfterCommitTasks {α : Type w} (s : TransactionState T K)
    {f : Ran T K → Option α} {g : InternalTask T K → Option α} {h : T → Option α}
    (hg : ∀ task, f (InternalTask.ran task) = g task) (hh : ∀ task, f (.afterCommit task) = h task) :
    s.runAfterCommitTasks.filterMap f =
      s.internalAfterCommit.filterMap g ++ s.afterCommit.filterMap h := by
  rw [runAfterCommitTasks, List.filterMap_append, List.filterMap_map, List.filterMap_map]
  exact congrArg₂ _ (congrArg (List.filterMap · _) (funext hg))
    (congrArg (List.filterMap · _) (funext hh))

/-- What runs after a commit, by kind. -/
theorem TransactionState.filterMap_conclude (s : TransactionState T K) :
    (s.conclude .committed).filterMap Ran.afterCommit? = s.afterCommit ∧
      (s.conclude .committed).filterMap Ran.internal? =
        s.internalAfterCommit.filterMap Script.ownTask? ∧
      (s.conclude .committed).filterMap Ran.afterRollback? = [] ∧
      (s.conclude .committed).filterMap Ran.invalidated? = s.clearedKeys := by
  refine ⟨?_, ?_, ?_, ?_⟩
  · refine (s.filterMap_runAfterCommitTasks (g := fun _ => none) (h := some)
      (fun task => ?_) fun _ => rfl).trans (by simp)
    cases task <;> rfl
  · refine (s.filterMap_runAfterCommitTasks (g := Script.ownTask?) (h := fun _ => none)
      (fun task => ?_) fun _ => rfl).trans (by simp)
    cases task <;> rfl
  · refine (s.filterMap_runAfterCommitTasks (g := fun _ => none) (h := fun _ => none)
      (fun task => ?_) fun _ => rfl).trans (by simp)
    cases task <;> rfl
  · refine (s.filterMap_runAfterCommitTasks
      (g := fun task => task.invalidation?.map Invalidation.key) (h := fun _ => none)
      (fun task => ?_) fun _ => rfl).trans (by simp [clearedKeys, List.map_filterMap])
    cases task <;> rfl

/-- The tasks of a transaction obey the law exactly when no key of a surviving scope is masked by
an earlier invalidation in an unconfirmed savepoint, or nothing commits. -/
theorem deferredLaw_iff (b : Script T K) (outcome : RootOutcome) :
    DeferredLaw b outcome (b.transaction outcome) ↔ ¬ (outcome = .committed ∧ b.Masked) := by
  have htracks := b.tracks_run (w := ⟨rootState, 0, []⟩) tracks_rootState
  obtain ⟨hc, hi, hk⟩ := b.ran_run ⟨rootState, 0, []⟩
  have hr := b.ran_afterRollback_run ⟨rootState, 0, []⟩
  have hsc := b.afterCommit_run ⟨rootState, 0, []⟩
  have hsi := b.internal_run ⟨rootState, 0, []⟩
  have hsr := b.afterRollback_run ⟨rootState, 0, []⟩
  simp only [List.filterMap_nil, List.nil_append] at hc hi hk hr htracks
  cases outcome with
  | committed =>
    obtain ⟨h₁, h₂, h₃, h₄⟩ := (b.run ⟨rootState, 0, []⟩).state.filterMap_conclude
    have hcount : ∀ key, ((b.transaction .committed).filterMap Ran.invalidated?).count key = 1 ↔
        JsMap.lookup key b.invalidations = some true := fun key => by
      rw [Script.transaction, List.filterMap_append, hk, h₄, List.nil_append,
        htracks.count_clearedKeys]
    constructor
    · rintro h ⟨-, key, hkey, hfalse⟩
      have := (hcount key).mp (h.invalidated rfl key hkey)
      rw [hfalse] at this
      cases this
    · intro h
      constructor
      · rw [Script.transaction, List.filterMap_append, hc, h₁, hsc, if_pos rfl]
        rfl
      · rw [Script.transaction, List.filterMap_append, hi, h₂, hsi, if_pos rfl]
        rfl
      · rw [Script.transaction, List.filterMap_append, h₃, List.append_nil]
        exact hr
      · intro _ key hkey
        rw [hcount]
        have hmem := Script.mem_survivingKeys.mp hkey
        cases hl : JsMap.lookup key b.invalidations with
        | none =>
          exact absurd (List.mem_map_of_mem (f := Prod.fst) hmem) (JsMap.lookup_eq_none.mp hl)
        | some sure =>
          cases sure with
          | true => rfl
          | false => exact absurd ⟨rfl, key, hkey, hl⟩ h
      · intro h
        cases h
  | rolledBack =>
    refine iff_of_true ?_ fun h => by cases h.1
    constructor
    · rw [Script.transaction, List.filterMap_append, hc]
      simp [TransactionState.conclude, Ran.afterCommit?]
    · rw [Script.transaction, List.filterMap_append, hi]
      simp [TransactionState.conclude, Ran.internal?]
    · rw [Script.transaction, List.filterMap_append, TransactionState.conclude,
        Script.filterMap_afterRollback?, hsr]
      exact (hr.append_right _).trans b.undone_true.symm
    · intro h
      cases h
    · intro h
      cases h
  | unknown =>
    refine iff_of_true ?_ fun h => by cases h.1
    constructor
    · rw [Script.transaction, List.filterMap_append, hc]
      simp [TransactionState.conclude, Ran.afterCommit?]
    · rw [Script.transaction, List.filterMap_append, hi]
      simp [TransactionState.conclude, Ran.internal?]
    · have hnone : ((b.run ⟨rootState, 0, []⟩).state.conclude .unknown).filterMap
          Ran.afterRollback? = [] := by
        simp [TransactionState.conclude, Ran.afterRollback?]
      rw [Script.transaction, List.filterMap_append, hnone, List.append_nil]
      exact hr
    · intro h
      cases h
    · intro _ key hkey
      have hsome : ((b.run ⟨rootState, 0, []⟩).state.cacheInvalidations.get? key).isSome := by
        rw [htracks.known, Option.isSome_iff_ne_none, Ne, JsMap.lookup_eq_none, not_not]
        exact hkey
      obtain ⟨inv, hinv⟩ := Option.isSome_iff_exists.mp hsome
      have hentry := JsMap.mem_entries_iff.mpr hinv
      rw [Script.transaction, List.filterMap_append, hk, List.nil_append, List.mem_filterMap]
      refine ⟨.invalidated key, List.mem_map.mpr ⟨_, hentry, ?_⟩, rfl⟩
      rw [htracks.task _ _ hinv]

/-- A savepoint whose rollback is unconfirmed invalidates a key, its parent invalidates the key
again and commits. -/
def maskedScript : Script Nat Nat :=
  .savepoint .unconfirmed (.invalidate 1 .done) (.invalidate 1 .done)

theorem not_deferredLaw_masked :
    ¬ DeferredLaw maskedScript .committed (maskedScript.transaction .committed) := by
  intro h
  have hone := h.invalidated rfl 1 (by decide)
  exact absurd hone (by decide)

end ActiveTs.Transactions
