import ActiveTs.Lib.Prog
import ActiveTs.EntityCache.Tables

/-! # Entity loads over a shared cache

The tasks that touch one model's cache entries: loads that fill the cache, store writes followed
by an invalidation, and expiries. A step of a task is what runs between two awaits; a call of an
adapter or a hook takes effect in a step of its own, or fails there without effect. The
environment decides by a flag whether it succeeds.

A key stands for an id and for its cache key. Hooks leave the payloads alone, and the loads run
outside of transactions. -/

namespace ActiveTs.EntityCache

/-! ## The shared state -/

/-- A row of the store, or its absence. The stamp numbers the write that left it; no program
looks at it. -/
structure Row (V : Type v) where
  value : Option V
  stamp : Nat
deriving DecidableEq

/-- A cache entry: its value, if there is one, and its version. -/
structure Cell (V : Type v) where
  value : Option (Row V)
  version : Nat
  /-- The stamp of the row in the store when the version was installed. -/
  installed : Nat
deriving DecidableEq

/-- The history of a run, for the statements about it. -/
inductive Event (P : Type u) (T : Type v) (K : Type w) where
  /-- The write of the task reached the store. -/
  | wrote (t : T) (k : K) (stamp : Nat)
  | loadStarted (t : T) (p : P)
  /-- The load took the row from the cache. -/
  | cacheHit (t : T) (p : P) (k : K) (stamp : Nat)
  /-- A set, delete or invalidation by the task changed the cache. -/
  | effected (t : T) (k : K)
  | marked (t : T) (p : P) (k : K)
  | cleared (t : T) (p : P) (k : K) (installed : Nat)
  /-- A counter of the process had no successor. -/
  | exhausted (t : T)
deriving DecidableEq

namespace Event

variable {P : Type u} {T : Type v} {K : Type w}

/-- Every clear meets the condition on what it clears and the history before it, and no counter
is exhausted. -/
def EveryClear (good : T → P → K → Nat → List (Event P T K) → Prop) : List (Event P T K) → Prop
  | [] => True
  | .cleared t p k installed :: log => good t p k installed log ∧ EveryClear good log
  | .exhausted _ :: _ => False
  | _ :: log => EveryClear good log

variable {good : T → P → K → Nat → List (Event P T K) → Prop}

instance decidableEveryClear [∀ t p k installed, DecidablePred (good t p k installed)] :
    DecidablePred (EveryClear good)
  | [] => .isTrue trivial
  | .cleared _ _ _ _ :: log => @instDecidableAnd _ _ _ (decidableEveryClear log)
  | .exhausted _ :: _ => .isFalse id
  | .wrote .. :: log => decidableEveryClear log
  | .loadStarted .. :: log => decidableEveryClear log
  | .cacheHit .. :: log => decidableEveryClear log
  | .effected .. :: log => decidableEveryClear log
  | .marked .. :: log => decidableEveryClear log

theorem EveryClear.tail {e : Event P T K} {log : List (Event P T K)}
    (h : EveryClear good (e :: log)) : EveryClear good log := by
  cases e with
  | cleared => exact h.2
  | exhausted => exact h.elim
  | _ => exact h

theorem EveryClear.of_append {es log : List (Event P T K)} (h : EveryClear good (es ++ log)) :
    EveryClear good log := by
  induction es with
  | nil => exact h
  | cons e es ih => exact ih h.tail

end Event

/-- The events of a call that changes the keys in the cache. -/
def effects {P : Type u} {T : Type v} {K : Type w} (t : T) (keys : List K) : List (Event P T K) :=
  keys.map (.effected t)

theorem mem_effects {P : Type u} {T : Type v} {K : Type w} {t t' : T} {k : K} {keys : List K} :
    (.effected t' k : Event P T K) ∈ effects t keys ↔ t' = t ∧ k ∈ keys := by
  simp [effects, eq_comm, and_comm]

/-- The store, the cache, and the memory of each process. -/
structure World (P : Type u) (T : Type v) (K : Type w) (V : Type x) where
  memory : P → Memory K
  store : K → Row V
  cell : K → Cell V
  writes : Nat
  nextVersion : Nat
  /-- The newest event comes first. -/
  log : List (Event P T K)

inductive Error where
  | hook
  | adapter
  | epochExhausted
  | generationExhausted
  | aggregate (cause error : Error)
deriving DecidableEq

/-- The options of the model and of the context. -/
structure Settings where
  distributed : Bool
  /-- `negativeTtl` is defined. -/
  negativeTtl : Bool
  maxBatchSize : Nat

abbrev CacheTask (P : Type u) (T : Type v) (K : Type w) (V : Type x) :=
  Prog (World P T K V) Bool Error

variable {P T K V : Type} [DecidableEq P] [DecidableEq K]

namespace World

variable (w : World P T K V)

def record (e : Event P T K) : World P T K V := { w with log := e :: w.log }

def setMemory (p : P) (m : Memory K) : World P T K V :=
  { w with memory := Function.update w.memory p m }

/-! ## Adapters -/

/-- A write of the store: a new row, or a deletion. -/
def write (t : T) (k : K) (value : Option V) : World P T K V :=
  { w with
    store := Function.update w.store k ⟨value, w.writes + 1⟩
    writes := w.writes + 1
    log := .wrote t k (w.writes + 1) :: w.log }

def getMany (keys : List K) : List (K × Option (Row V)) := keys.map fun k => (k, (w.cell k).value)

def getManyVersioned (keys : List K) : List (K × Option (Row V) × Nat) :=
  keys.map fun k => (k, (w.cell k).value, (w.cell k).version)

def setMany (t : T) (entries : List (K × Row V)) : World P T K V :=
  { w with
    cell := fun k => match JsMap.lookup k entries with
      | none => w.cell k
      | some row => { w.cell k with value := some row }
    log := effects t (entries.map Prod.fst) ++ w.log }

/-- The entries whose version is the current one. -/
def accepted (entries : List (K × Row V × Nat)) : List (K × Row V) :=
  (entries.filter fun e => (w.cell e.1).version = e.2.2).map fun e => (e.1, e.2.1)

/-- `setManyVersioned`: a compare-and-set for every entry. -/
def setManyVersioned (t : T) (entries : List (K × Row V × Nat)) :
    World P T K V × List (K × Row V) :=
  (w.setMany t (w.accepted entries), w.accepted entries)

def deleteMany (t : T) (keys : List K) : World P T K V :=
  { w with
    cell := fun k => if k ∈ keys then { w.cell k with value := none } else w.cell k
    log := effects t keys ++ w.log }

/-- `invalidateMany`: the values go, and the keys get a fresh version. -/
def invalidateMany (t : T) (keys : List K) : World P T K V :=
  { w with
    cell := fun k => if k ∈ keys then ⟨none, w.nextVersion, (w.store k).stamp⟩ else w.cell k
    nextVersion := w.nextVersion + 1
    log := effects t keys ++ w.log }

/-- The value passed its deadline, or the version did and the next read creates a fresh one. -/
def expire (k : K) (version : Bool) : World P T K V :=
  { w with
    cell := Function.update w.cell k
      (if version then ⟨none, w.nextVersion, (w.store k).stamp⟩ else { w.cell k with value := none })
    nextVersion := w.nextVersion + 1 }

/-! ## Synchronous parts -/

/-- `bumpCacheEpoch` for a list of keys. -/
def bumpAll (p : P) (t : T) : List K → World P T K V → World P T K V × Except Error Unit
  | [], w => (w, .ok ())
  | k :: keys, w =>
    match (w.memory p).bumpCacheEpoch k with
    | none => (w.record (.exhausted t), .error .epochExhausted)
    | some m => bumpAll p t keys (w.setMemory p m)

/-- `markCacheInvalidationFailure` for a list of keys. -/
def markAll (p : P) (t : T) : List K → World P T K V → World P T K V × Except Error Unit
  | [], w => (w, .ok ())
  | k :: keys, w =>
    let marked := (w.memory p).markCacheInvalidationFailure k
    let w := (w.setMemory p marked.1).record (.marked t p k)
    if marked.2 then (w.record (.exhausted t), .error .generationExhausted)
    else markAll p t keys w

/-- A handler that marks the keys and throws its error again. -/
def markAndThrow (p : P) (t : T) (keys : List K) (e : Error) {α : Type} (w : World P T K V) :
    World P T K V × Except Error α :=
  match markAll p t keys w with
  | (w, .ok _) => (w, .error e)
  | (w, .error e') => (w, .error e')

def clear (p : P) (t : T) (k : K) : World P T K V :=
  (w.setMemory p ((w.memory p).clearCacheInvalidationFailure k)).record
    (.cleared t p k (w.cell k).installed)

/-- `clearCacheInvalidationFailure` for a list of keys. -/
def clearAll (p : P) (t : T) (keys : List K) (w : World P T K V) : World P T K V :=
  keys.foldl (fun w k => w.clear p t k) w

theorem markAll_log (p : P) (t : T) (keys : List K) (w : World P T K V) :
    ∃ es, (markAll p t keys w).1.log = es ++ w.log := by
  induction keys generalizing w with
  | nil => exact ⟨[], rfl⟩
  | cons k keys ih =>
    simp only [markAll]
    split
    · exact ⟨[.exhausted t, .marked t p k], rfl⟩
    · obtain ⟨es, h⟩ := ih ((w.setMemory p
        ((w.memory p).markCacheInvalidationFailure k).1).record (.marked t p k))
      exact ⟨es ++ [.marked t p k], by rw [h, List.append_assoc]; rfl⟩

theorem clearAll_log (p : P) (t : T) (keys : List K) (w : World P T K V) :
    ∃ es, (clearAll p t keys w).log = es ++ w.log := by
  induction keys generalizing w with
  | nil => exact ⟨[], rfl⟩
  | cons k keys ih =>
    obtain ⟨es, h⟩ := ih (w.clear p t k)
    exact ⟨es ++ [.cleared t p k (w.cell k).installed], by
      rw [clearAll, List.foldl_cons, ← clearAll, h, List.append_assoc]; rfl⟩

theorem markAndThrow_fst (p : P) (t : T) (keys : List K) (e : Error) {α : Type}
    (w : World P T K V) :
    (markAndThrow p t keys e (α := α) w).1 = (markAll p t keys w).1 := by
  unfold markAndThrow
  split
  · next h => rw [h]
  · next h => rw [h]

theorem markAndThrow_ne_ok (p : P) (t : T) (keys : List K) (e : Error) {α : Type}
    (w : World P T K V) (a : α) : (markAndThrow p t keys e w).2 ≠ .ok a := by
  unfold markAndThrow
  split
  · exact nofun
  · exact nofun

/-- The entries whose key still has the epoch that was noted. -/
def unchanged (p : P) (epochs : JsMap K Nat) (entries : List (K × Row V)) : List (K × Row V) :=
  entries.filter fun e => (w.memory p).cacheEpochUnchanged e.1 epochs

end World

namespace CacheTask

/-- A part without an await that may throw. -/
def sync {α : Type} (f : World P T K V → World P T K V × Except Error α) : CacheTask P T K V α :=
  Prog.sync f

/-- A call of an adapter. -/
def call {α : Type} (f : World P T K V → World P T K V × α) : CacheTask P T K V α :=
  Prog.call .adapter f

/-- `runHooks`. -/
def hook : CacheTask P T K V Unit := Prog.call .hook fun w => (w, ())

end CacheTask

section
variable (settings : Settings) (p : P) (t : T)

open CacheTask

/-! ## Invalidation -/

/-- `invalidateMany` of a distributed cache, `deleteMany` of another. -/
def removeKeys (keys : List K) : CacheTask P T K V Unit :=
  call fun w =>
    (if settings.distributed then w.invalidateMany t keys else w.deleteMany t keys, ())

/-- The part of `performInvalidate` after the deletion: the second bump still belongs to the
guarded block, so that a failure of it marks the key. -/
def finishInvalidate (k : K) (w : World P T K V) : World P T K V × Except Error Unit :=
  match w.bumpAll p t [k] with
  | (w, .ok _) => (w.clearAll p t [k], .ok ())
  | (w, .error e) => w.markAndThrow p t [k] e

def performInvalidate (k : K) : CacheTask P T K V Unit := do
  sync (World.bumpAll p t [k])
  tryCatch (do hook; removeKeys settings t [k]) fun e => sync (World.markAndThrow p t [k] e)
  sync (finishInvalidate p t k)
  hook

def poisonCommittedCacheSet (keys : List K) (cause : Error) : CacheTask P T K V Unit :=
  if keys = [] then pure ()
  else do
    sync (World.bumpAll p t keys)
    tryCatch
      (do removeKeys settings t keys; Prog.modify (World.clearAll p t keys))
      fun e => sync (World.markAndThrow p t keys (.aggregate cause e))

/-! ## Fills -/

/-- The entries with the version to expect; one without a version is skipped. -/
def versionedEntries (versions : JsMap K Nat) (entries : List (K × Row V)) :
    List (K × Row V × Nat) :=
  entries.filterMap fun e => (versions.get? e.1).map fun version => (e.1, e.2, version)

/-- The set of a fill, with the entries that it committed. -/
def setEntries (versions : JsMap K Nat) (entries : List (K × Row V)) :
    CacheTask P T K V (List (K × Row V)) :=
  if settings.distributed then
    call fun w => w.setManyVersioned t (versionedEntries versions entries)
  else
    call fun w => (w.setMany t entries, entries)

/-- The keys that `setEntries` attempts. -/
def attemptedKeys (versions : JsMap K Nat) (entries : List (K × Row V)) : List K :=
  if settings.distributed then (versionedEntries versions entries).map Prod.fst
  else entries.map Prod.fst

/-- Clears the failures of the committed keys whose epoch is unchanged. -/
def clearStable (epochs : JsMap K Nat) (committed : List (K × Row V)) (w : World P T K V) :
    World P T K V × List K :=
  let stable := (w.unchanged p epochs committed).map Prod.fst
  (w.clearAll p t stable, stable)

/-- The committed keys that were invalidated meanwhile. -/
def staleKeys (epochs : JsMap K Nat) (committed : List (K × Row V)) (w : World P T K V) :
    List K :=
  (committed.filter fun e => !(w.memory p).cacheEpochUnchanged e.1 epochs).map Prod.fst

/-- The part after a set: with stale keys to delete nothing happens yet, and otherwise the
committed keys are cleared. -/
def settleSet (epochs : JsMap K Nat) (committed : List (K × Row V)) (w : World P T K V) :
    World P T K V × (List K ⊕ List K) :=
  if staleKeys p epochs committed w = [] then
    let (w, stable) := clearStable p t epochs committed w
    (w, .inr stable)
  else (w, .inl (staleKeys p epochs committed w))

/-- Deletes the stale keys of a set, and clears the others afterwards. -/
def deleteStale (epochs : JsMap K Nat) (committed : List (K × Row V)) :
    List K ⊕ List K → CacheTask P T K V (List K)
  | .inr stable => pure stable
  | .inl stale => do
    tryCatch (removeKeys settings t stale) fun e => sync (World.markAndThrow p t stale e)
    Prog.modifyGet (clearStable p t epochs committed)

def afterCacheSet (stable : List K) : CacheTask P T K V Unit :=
  if stable = [] then pure ()
  else
    tryCatch hook fun e => do
      poisonCommittedCacheSet settings p t stable e
      throw e

/-- The part of `writeCacheEntries` from the set on. -/
def commitEntries (epochs versions : JsMap K Nat) (writable : List (K × Row V)) :
    CacheTask P T K V Unit :=
  if writable = [] then pure ()
  else do
    let committed ← tryCatch (setEntries settings t versions writable) fun e => do
      poisonCommittedCacheSet settings p t (attemptedKeys settings versions writable) e
      throw e
    let settled ← Prog.modifyGet (settleSet p t epochs committed)
    let stable ← deleteStale settings p t epochs committed settled
    afterCacheSet settings p t stable

def writeCacheEntries (epochs versions : JsMap K Nat) (entries : List (K × Row V)) :
    CacheTask P T K V Unit :=
  if entries = [] then pure ()
  else do
    let pending ← Prog.get fun w => w.unchanged p epochs entries
    if pending = [] then pure ()
    else do
      hook
      let writable ← Prog.get fun w => w.unchanged p epochs pending
      commitEntries settings p t epochs versions writable

/-! ## Loads -/

/-- What a load notes before its first await. -/
structure Snapshot (K : Type u) where
  epochs : JsMap K Nat
  readable : List K
  /-- The distributed keys to recover. -/
  failed : List K

def takeSnapshot (keys : List K) (w : World P T K V) : World P T K V × Snapshot K :=
  let m := w.memory p
  (w.record (.loadStarted t p),
    { epochs := .ofEntries (keys.map fun k => (k, m.cacheEpoch k))
      readable := keys.filter fun k => !m.hasCacheInvalidationFailure k
      failed := if settings.distributed then keys.filter m.hasCacheInvalidationFailure else [] })

/-- `applyNegativeCachePolicy` for one value. -/
def applyNegativeCachePolicy (value : Option (Row V)) : Option (Row V) :=
  value.filter fun row => settings.negativeTtl || row.value.isSome

/-- The values of a cache read that the load takes. -/
def cachedRows (epochs : JsMap K Nat) (found : List (K × Option (Row V))) (w : World P T K V) :
    List (K × Row V) :=
  found.filterMap fun e =>
    if !(w.memory p).hasCacheInvalidationFailure e.1 &&
        (w.memory p).cacheEpochUnchanged e.1 epochs then
      (applyNegativeCachePolicy settings e.2).map fun row => (e.1, row)
    else none

def acceptCached (epochs : JsMap K Nat) (found : List (K × Option (Row V)))
    (w : World P T K V) : World P T K V × List (K × Row V) :=
  let rows := cachedRows settings p epochs found w
  ({ w with log := rows.map (fun e => .cacheHit t p e.1 e.2.stamp) ++ w.log }, rows)

/-- The read of a cache, with the versions of a distributed one. -/
def readEntries (keys : List K) : CacheTask P T K V (List (K × Option (Row V)) × List (K × Nat)) :=
  if settings.distributed then do
    let snapshots ← call fun w => (w, w.getManyVersioned keys)
    pure (snapshots.map fun e => (e.1, e.2.1), snapshots.map fun e => (e.1, e.2.2))
  else do
    let values ← call fun w => (w, w.getMany keys)
    pure (values, [])

def readCache (snapshot : Snapshot K) : CacheTask P T K V (List (K × Row V) × List (K × Nat)) :=
  if snapshot.readable = [] then pure ([], [])
  else do
    hook
    let found ← readEntries settings snapshot.readable
    hook
    let cached ← Prog.modifyGet (acceptCached settings p t snapshot.epochs found.1)
    pure (cached, found.2)

/-- The versions under which the failed keys are recovered. -/
def recoverVersions (snapshot : Snapshot K) : CacheTask P T K V (List (K × Nat)) :=
  if snapshot.failed = [] then pure []
  else
    tryCatch
      (do
        let snapshots ← call fun w => (w, w.getManyVersioned snapshot.failed)
        pure (snapshots.map fun e => (e.1, e.2.2)))
      fun _ => pure []

def readStore (missing : List K) : CacheTask P T K V (List (K × Row V)) :=
  if missing = [] then pure []
  else do
    hook
    let loaded ← call fun w => (w, missing.map fun k => (k, w.store k))
    hook
    pure loaded

/-- The loaded rows that may be cached. -/
def cacheable (epochs versions : JsMap K Nat) (loaded : List (K × Row V)) (w : World P T K V) :
    List (K × Row V) :=
  (w.unchanged p epochs loaded).filter fun e => !settings.distributed || versions.has e.1

def fillCache (epochs versions : JsMap K Nat) (loaded : List (K × Row V)) :
    CacheTask P T K V Unit :=
  if loaded = [] then pure ()
  else do
    let rows ← Prog.get (cacheable settings p epochs versions loaded)
    writeCacheEntries settings p t epochs versions (rows.filter fun e => e.2.value.isSome)
    writeCacheEntries settings p t epochs versions
      (rows.filter fun e => e.2.value.isNone && settings.negativeTtl)

/-- `loadManyNow` for at most `maxBatchSize` ids. The result has the rows in the order of the
ids. -/
def loadBatch (ids : List K) : CacheTask P T K V (List (Option (Row V))) := do
  let keys := (JsMap.ofEntries (ids.map fun k => (k, ()))).keys
  let snapshot ← Prog.modifyGet (takeSnapshot settings p t keys)
  let found ← readCache settings p t snapshot
  let recovered ← recoverVersions snapshot
  let loaded ← readStore (keys.filter fun k => !(JsMap.ofEntries found.1).has k)
  -- the hooks after instantiation, which run together
  hook
  fillCache settings p t snapshot.epochs (.ofEntries (found.2 ++ recovered)) loaded
  pure (ids.map fun k => ((JsMap.ofEntries found.1).get? k).orElse fun _ =>
    (JsMap.ofEntries loaded).get? k)

/-- The chunks that the loop of `chunkItems` cuts off, one a turn. -/
def chunkItems (size : Nat) : Nat → List K → List (List K)
  | 0, _ => []
  | turns + 1, items =>
    if items = [] then [] else items.take size :: chunkItems size turns (items.drop size)

def loadChunks : List (List K) → CacheTask P T K V (List (Option (Row V)))
  | [] => pure []
  | chunk :: chunks => do
    let rows ← loadBatch settings p t chunk
    let rest ← loadChunks chunks
    pure (rows ++ rest)

def loadManyNow (ids : List K) : CacheTask P T K V (List (Option (Row V))) :=
  if ids = [] then pure []
  else if settings.maxBatchSize < ids.length then
    loadChunks settings p t (chunkItems settings.maxBatchSize ids.length ids)
  else loadBatch settings p t ids

end

/-! ## Runs -/

/-- What a task does. -/
inductive Operation (K : Type u) (V : Type v) where
  | load (ids : List K)
  /-- A store write, followed by the invalidation of its key. -/
  | write (k : K) (value : Option V)
  | expire (k : K) (version : Bool)

def Operation.run (settings : Settings) (p : P) (t : T) :
    Operation K V → CacheTask P T K V Unit
  | .load ids => do
    let _ ← loadManyNow settings p t ids
    pure ()
  | .write k value => do
    CacheTask.call fun w => (w.write t k value, ())
    performInvalidate settings p t k
  | .expire k version => Prog.modify fun w => w.expire k version

/-- The tasks of some processes, before any of them has run; the cache is empty. -/
def start (settings : Settings) (process : T → P) (operation : T → Operation K V)
    (store : K → Option V) : Pool T (World P T K V) Bool Error Unit :=
  .init
    { memory := fun _ => .empty
      store := fun k => ⟨store k, 0⟩
      cell := fun _ => ⟨none, 0, 0⟩
      writes := 0
      nextVersion := 1
      log := [] }
    fun t => (operation t).run settings (process t) t

end ActiveTs.EntityCache
