import ActiveTs.Lib.JsTable

/-! # The in-memory store adapter

`MemoryStoreAdapter` keeps its rows in collections by model name and entity key, and beside
them a revision for every row that was written and may still have to be compared with the
snapshot of a running transaction. Payload validation and row cloning happen before any state
is touched; the model starts from validated ids and rows. -/

namespace ActiveTs.MemoryStore

/-! ## Entity ids, rows and errors -/

/-- An entity id: a string, a safe integer, or a Datastore int64 outside the safe range. -/
inductive EntityId where
  | string (value : String)
  | number (value : Int)
  | datastoreInt64 (value : Int)
deriving DecidableEq

/-- `String(id)`. -/
def EntityId.text : EntityId → String
  | .string value => value
  | .number value => toString value
  | .datastoreInt64 value => "\x00active-ts:datastore-int64:" ++ toString value

def entityIdKey : EntityId → String
  | .string value => "string:" ++ value
  | .number value => "number:" ++ toString value
  | .datastoreInt64 value => "datastore-int64:" ++ toString value

/-- A stored row: its own `version` field, when that is a number, and everything else. -/
structure Row (α : Type) where
  version : Option Nat
  data : α
deriving DecidableEq

def memoryVersionMatches (current : Option (Row α)) (expectedVersion : Nat) : Bool :=
  match current with
  | none => false
  | some row => row.version == some expectedVersion

/-- The errors of the adapter, each with its message. -/
inductive StoreError where
  | configuration (message : String)
  | conflict (message : String)
  | notFound (message : String)
deriving DecidableEq

def MAX_ROW_REVISION : Nat := 9007199254740991

/-- The address of a row: model name and entity key. -/
abbrev RowKey := String × String

abbrev Collections (α : Type) := JsTable String String (Row α)

structure MemoryStoreAdapter (α : Type) where
  collections : Collections α
  rowRevisions : JsTable String String Nat
  rowRevisionTombstones : JsTable String String Nat
  /-- How many running transactions were started at a generation. -/
  activeTransactionSnapshots : JsMap Nat Nat
  rowRevisionGeneration : Nat

namespace MemoryStoreAdapter

variable {α : Type}

/-- A new adapter. -/
def new : MemoryStoreAdapter α where
  collections := .empty
  rowRevisions := .empty
  rowRevisionTombstones := .empty
  activeTransactionSnapshots := .empty
  rowRevisionGeneration := 0

/-- The row at an address. -/
def row? (s : MemoryStoreAdapter α) (a : RowKey) : Option (Row α) := s.collections.at? a

def has (s : MemoryStoreAdapter α) (a : RowKey) : Bool := s.collections.contains a

/-! ## Row revisions -/

/-- The first of `count` fresh revisions, and the store that has given them out. -/
def reserveRowRevisions (s : MemoryStoreAdapter α) (count : Nat) :
    Except StoreError (Nat × MemoryStoreAdapter α) :=
  if count = 0 ∨ MAX_ROW_REVISION < s.rowRevisionGeneration + count then
    .error (.configuration "memory store row revision counter is exhausted.")
  else
    .ok (s.rowRevisionGeneration + 1,
      { s with rowRevisionGeneration := s.rowRevisionGeneration + count })

def hasSnapshotBefore (s : MemoryStoreAdapter α) (revision : Nat) : Bool :=
  s.activeTransactionSnapshots.keys.any fun snapshot => snapshot < revision

/-- Forget the tombstone of a row that has one. -/
def dropTombstone (tombstones : JsTable String String Nat) (a : RowKey) :
    JsTable String String Nat :=
  if tombstones.contains a then (tombstones.remove a).prune a.1 else tombstones

def recordRowRevision (s : MemoryStoreAdapter α) (a : RowKey) (revision : Nat)
    (rowExists : Bool) : MemoryStoreAdapter α :=
  let revisions := s.rowRevisions.put a revision
  if rowExists then
    { s with
      rowRevisions := revisions
      rowRevisionTombstones := dropTombstone s.rowRevisionTombstones a }
  else if s.hasSnapshotBefore revision then
    { s with
      rowRevisions := revisions
      rowRevisionTombstones := s.rowRevisionTombstones.put a revision }
  else
    { s with
      rowRevisions := (revisions.remove a).prune a.1
      rowRevisionTombstones := dropTombstone s.rowRevisionTombstones a }

def beginTransactionSnapshot (s : MemoryStoreAdapter α) : Nat × MemoryStoreAdapter α :=
  let snapshot := s.rowRevisionGeneration
  let count := (s.activeTransactionSnapshots.get? snapshot).getD 0
  (snapshot, { s with
    activeTransactionSnapshots := s.activeTransactionSnapshots.set snapshot (count + 1) })

def oldestSnapshot (s : MemoryStoreAdapter α) : Option Nat :=
  s.activeTransactionSnapshots.keys.foldl
    (fun oldest snapshot =>
      match oldest with
      | none => some snapshot
      | some o => if snapshot < o then some snapshot else some o)
    none

/-- One tombstone of the compaction loop: its revision is dropped unless the row was written
again since. -/
def compactTombstone (oldest : Option Nat) (s : MemoryStoreAdapter α) (a : RowKey)
    (revision : Nat) : MemoryStoreAdapter α :=
  if oldest.all (fun o => revision ≤ o) then
    { s with
      rowRevisions :=
        if s.rowRevisions.at? a = some revision then s.rowRevisions.remove a else s.rowRevisions
      rowRevisionTombstones := s.rowRevisionTombstones.remove a }
  else s

def compactRowRevisionTombstones (s : MemoryStoreAdapter α) : MemoryStoreAdapter α :=
  let oldest := s.oldestSnapshot
  s.rowRevisionTombstones.entries.foldl
    (fun s (name, tombstones) =>
      let s := tombstones.entries.foldl
        (fun s (id, revision) => compactTombstone oldest s (name, id) revision) s
      { s with
        rowRevisions := s.rowRevisions.prune name
        rowRevisionTombstones := s.rowRevisionTombstones.prune name })
    s

/-- One transaction less at a generation. -/
def releaseSnapshot (snapshots : JsMap Nat Nat) (snapshot : Nat) : JsMap Nat Nat :=
  match snapshots.get? snapshot with
  | some 1 => snapshots.delete snapshot
  | some count => snapshots.set snapshot (count - 1)
  | none => snapshots

def releaseTransactionSnapshot (s : MemoryStoreAdapter α) (snapshot : Nat) :
    MemoryStoreAdapter α :=
  compactRowRevisionTombstones
    { s with activeTransactionSnapshots := releaseSnapshot s.activeTransactionSnapshots snapshot }

/-! ## Direct operations -/

def get (s : MemoryStoreAdapter α) (model : String) (id : EntityId) : Option (Row α) :=
  s.row? (model, entityIdKey id)

def getMany (s : MemoryStoreAdapter α) (model : String) (ids : List EntityId) :
    List (Option (Row α)) :=
  ids.map (s.get model)

/-- The tail of `create` and `update`: a fresh revision, the row, and its record. -/
def setRow (s : MemoryStoreAdapter α) (a : RowKey) (data : Row α) :
    Except StoreError (MemoryStoreAdapter α) := do
  let (revision, s) ← s.reserveRowRevisions 1
  let s := { s with collections := s.collections.put a data }
  return s.recordRowRevision a revision true

/-- The tail of `delete`, for a row that exists. -/
def removeRow (s : MemoryStoreAdapter α) (a : RowKey) :
    Except StoreError (MemoryStoreAdapter α) := do
  let (revision, s) ← s.reserveRowRevisions 1
  let s := { s with collections := s.collections.remove a }
  return s.recordRowRevision a revision false

/-- The optimistic lock of `update` and `delete`; `target` names the row in the message. -/
def checkVersion (s : MemoryStoreAdapter α) (a : RowKey) (target : String) :
    Option Nat → Except StoreError Unit
  | none => .ok ()
  | some version =>
    if memoryVersionMatches (s.row? a) version then .ok ()
    else .error (.conflict s!"Optimistic lock failed for {target}. Expected version {version}.")

def create (s : MemoryStoreAdapter α) (model : String) (id : EntityId) (data : Row α) :
    Except StoreError (MemoryStoreAdapter α) :=
  let a := (model, entityIdKey id)
  if s.has a then
    .error (.conflict s!"Cannot create {model}:{id.text} because it already exists.")
  else s.setRow a data

def update (s : MemoryStoreAdapter α) (model : String) (id : EntityId) (data : Row α)
    (expectedVersion : Option Nat) : Except StoreError (MemoryStoreAdapter α) :=
  let a := (model, entityIdKey id)
  if !s.has a then
    .error (.notFound s!"Cannot update {model}:{id.text} because it does not exist.")
  else do
    s.checkVersion a s!"{model}:{id.text}" expectedVersion
    s.setRow a data

/-- Deleting a missing row is an error only under an expected version. -/
def delete (s : MemoryStoreAdapter α) (model : String) (id : EntityId)
    (expectedVersion : Option Nat) : Except StoreError (MemoryStoreAdapter α) :=
  let a := (model, entityIdKey id)
  if expectedVersion.isSome && !s.has a then
    .error (.notFound s!"Cannot delete {model}:{id.text} because it does not exist.")
  else do
    s.checkVersion a s!"{model}:{id.text}" expectedVersion
    if s.has a then s.removeRow a else .ok s

/-- The rows of a batch in order, each with the next of the reserved revisions. -/
def numbered (first : Nat) : List β → List (β × Nat)
  | [] => []
  | b :: rest => (b, first) :: numbered (first + 1) rest

/-- The first key of the list that already occurred before it. -/
def firstDuplicate : List String → Option String
  | keys => go [] keys
where
  go (seen : List String) : List String → Option String
    | [] => none
    | key :: rest => if key ∈ seen then some key else go (key :: seen) rest

/-- `count === 0 ? 0 : this.reserveRowRevisions(count)`. -/
def reserveFor (s : MemoryStoreAdapter α) (count : Nat) :
    Except StoreError (Nat × MemoryStoreAdapter α) :=
  if count = 0 then .ok (0, s) else s.reserveRowRevisions count

def seed (s : MemoryStoreAdapter α) (model : String) (rows : List (EntityId × Row α)) :
    Except StoreError (MemoryStoreAdapter α) :=
  let prepared := rows.map fun (id, row) => (entityIdKey id, row)
  match firstDuplicate (prepared.map Prod.fst) with
  | some key => .error (.conflict
      s!"Cannot seed {model}:{key} because the seed batch contains duplicate ids.")
  | none =>
    match prepared.find? fun (key, _) => s.has (model, key) with
    | some (key, _) =>
      .error (.conflict s!"Cannot seed {model}:{key} because it already exists.")
    | none => do
      let (firstRevision, s) ← s.reserveFor prepared.length
      -- `collection(model)` creates the collection even for an empty batch
      let s := { s with collections := s.collections.set model (s.collections.inner model) }
      return (numbered firstRevision prepared).foldl
        (fun s ((key, row), revision) =>
          let s := { s with collections := s.collections.put (model, key) row }
          s.recordRowRevision (model, key) revision true)
        s

/-- Record the removal of every listed row. -/
def recordRemovals (s : MemoryStoreAdapter α) (removed : List RowKey) (firstRevision : Nat) :
    MemoryStoreAdapter α :=
  (numbered firstRevision removed).foldl
    (fun s (a, revision) => s.recordRowRevision a revision false) s

/-- Drop one collection, or all of them. -/
def reset (s : MemoryStoreAdapter α) :
    Option String → Except StoreError (MemoryStoreAdapter α)
  | some model => do
    let removed := (s.collections.inner model).keys.map fun key => (model, key)
    let (firstRevision, s) ← s.reserveFor removed.length
    let s := { s with collections := JsMap.delete s.collections model }
    return s.recordRemovals removed firstRevision
  | none => do
    let removed := s.collections.rows.map JsTable.addr
    let (firstRevision, s) ← s.reserveFor removed.length
    let s := { s with collections := .empty }
    return s.recordRemovals removed firstRevision

end MemoryStoreAdapter

end ActiveTs.MemoryStore
