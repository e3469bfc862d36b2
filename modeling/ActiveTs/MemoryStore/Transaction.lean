import ActiveTs.MemoryStore.Model

/-! # Transactions of the in-memory store

A transaction works on a private store that starts as a copy of the collections. Beside it, it
keeps one net change for every row (`dirty`) and the rows it read by key (`pointReads`). The
commit checks both against the base store and then applies the net changes. -/

namespace ActiveTs.MemoryStore

/-- The net change of one row. -/
inductive DirtyChange (α : Type) where
  | create (value : Row α)
  | update (value : Row α) (expectedVersion : Option Nat)
  | delete (expectedVersion : Option Nat)

abbrev Dirty (α : Type) := JsTable String String (DirtyChange α)

abbrev PointReadSet := JsTable String String Unit

/-- What a savepoint restores when its callback throws. -/
structure Checkpoint (α : Type) where
  collections : Collections α
  dirty : Dirty α
  pointReads : PointReadSet

/-! ## The collapsed change log -/

section
variable {α : Type}

def recordPointRead (pointReads : PointReadSet) (a : RowKey) : PointReadSet :=
  pointReads.put a ()

/-- `mapSet(dirty, model.name, …)`: marking creates the inner map of the model. -/
def dirtyCollection (dirty : Dirty α) (name : String) : Dirty α :=
  JsMap.set dirty name (dirty.inner name)

def markCreate (dirty : Dirty α) (a : RowKey) (value : Row α) : Dirty α :=
  match dirty.at? a with
  | some (.delete expectedVersion) => dirty.put a (.update value expectedVersion)
  | _ => dirty.put a (.create value)

def markUpdate (dirty : Dirty α) (a : RowKey) (value : Row α) (expectedVersion : Option Nat) :
    Dirty α :=
  match dirty.at? a with
  | some (.create _) => dirty.put a (.create value)
  | some (.update _ current) => dirty.put a (.update value current)
  | some (.delete current) => dirty.put a (.update value current)
  | none => dirty.put a (.update value expectedVersion)

def markDelete (dirty : Dirty α) (a : RowKey) (existed : Bool) (expectedVersion : Option Nat) :
    Dirty α :=
  match dirty.at? a with
  | some (.create _) => (dirty.remove a).prune a.1
  | some (.update _ current) => dirty.put a (.delete current)
  | some (.delete current) => dirty.put a (.delete current)
  | none =>
    if existed then dirty.put a (.delete expectedVersion)
    else (dirtyCollection dirty a.1).prune a.1

/-! ## Commit -/

namespace MemoryStoreAdapter

/-- The checks of one net change against the committed rows. -/
def checkChange (s : MemoryStoreAdapter α) (a : RowKey) (change : DirtyChange α) :
    Except StoreError Unit :=
  match change with
  | .create _ =>
    if s.has a then
      .error (.conflict s!"Cannot create {a.1}:{a.2} because it already exists.")
    else .ok ()
  | .update _ expectedVersion =>
    if !s.has a then
      .error (.notFound s!"Cannot update {a.1}:{a.2} because it does not exist.")
    else s.checkVersion a s!"{a.1}:{a.2}" expectedVersion
  | .delete none => .ok ()
  | .delete (some version) =>
    if !s.has a then
      .error (.notFound s!"Cannot delete {a.1}:{a.2} because it does not exist.")
    else s.checkVersion a s!"{a.1}:{a.2}" (some version)

/-- A point read fails the commit when its row was written after the snapshot. -/
def checkPointRead (s : MemoryStoreAdapter α) (revisionSnapshot : Nat) (a : RowKey) :
    Except StoreError Unit :=
  match s.rowRevisions.at? a with
  | none => .ok ()
  | some currentRevision =>
    if revisionSnapshot < currentRevision then
      .error (.conflict
        s!"Transaction conflict for {a.1}:{a.2} because it changed after a transactional point read.")
    else .ok ()

/-- Whether a net change takes a revision: deleting a row that is gone does not. -/
def mutates (s : MemoryStoreAdapter α) (r : String × String × DirtyChange α) : Bool :=
  match r.2.2 with
  | .delete _ => s.has (JsTable.addr r)
  | _ => true

/-- Apply one net change; the counter is the next free revision. -/
def applyChange (s : MemoryStoreAdapter α) (revision : Nat)
    (r : String × String × DirtyChange α) : MemoryStoreAdapter α × Nat :=
  let a := JsTable.addr r
  match r.2.2 with
  | .delete _ =>
    if s.has a then
      let s := { s with collections := s.collections.remove a }
      (s.recordRowRevision a revision false, revision + 1)
    else (s, revision)
  | .create value | .update value _ =>
    let s := { s with collections := s.collections.put a value }
    (s.recordRowRevision a revision true, revision + 1)

def applyDirty (s : MemoryStoreAdapter α) (dirty : Dirty α) (pointReads : PointReadSet)
    (revisionSnapshot : Nat) : Except StoreError (MemoryStoreAdapter α) := do
  dirty.rows.forM fun r => s.checkChange (JsTable.addr r) r.2.2
  pointReads.rows.forM fun r => s.checkPointRead revisionSnapshot (JsTable.addr r)
  let (firstRevision, s) ← s.reserveFor (dirty.rows.countP s.mutates)
  return (dirty.rows.foldl (fun p r => p.1.applyChange p.2 r) (s, firstRevision)).1

end MemoryStoreAdapter
end

/-! ## The transaction adapter -/

structure Tx (α : Type) where
  txStore : MemoryStoreAdapter α
  dirty : Dirty α
  pointReads : PointReadSet
  revisionSnapshot : Nat
  readOnly : Bool
  /-- The savepoints whose callbacks are running, innermost first. -/
  checkpoints : List (Checkpoint α)
  /-- Why the adapter no longer takes operations. -/
  closed : Option String
  /-- The snapshot has been released. -/
  settled : Bool

/-- The operations of the adapter handed to the callback. A savepoint is the call, and then
the return or the throw of its own callback. -/
inductive TxOp (α : Type) where
  | get (model : String) (id : EntityId)
  | getMany (model : String) (ids : List EntityId)
  | create (model : String) (id : EntityId) (data : Row α)
  | update (model : String) (id : EntityId) (data : Row α) (expectedVersion : Option Nat)
  | delete (model : String) (id : EntityId) (expectedVersion : Option Nat)
  | savepoint
  | savepointReturn
  | savepointThrow

inductive Response (α : Type) where
  | done
  | row (row : Option (Row α))
  | rows (rows : List (Option (Row α)))

namespace Tx

variable {α : Type}

def start (s : MemoryStoreAdapter α) (readOnly : Bool) : Tx α where
  txStore := { (MemoryStoreAdapter.new : MemoryStoreAdapter α) with collections := s.collections }
  dirty := .empty
  pointReads := .empty
  revisionSnapshot := s.rowRevisionGeneration
  readOnly := readOnly
  checkpoints := []
  closed := none
  settled := false

def get (tx : Tx α) (model : String) (id : EntityId) : Tx α × Option (Row α) :=
  ({ tx with pointReads := recordPointRead tx.pointReads (model, entityIdKey id) },
    tx.txStore.get model id)

def getMany (tx : Tx α) (model : String) (ids : List EntityId) :
    Tx α × List (Option (Row α)) :=
  ({ tx with
      pointReads := ids.foldl
        (fun reads id => recordPointRead reads (model, entityIdKey id)) tx.pointReads },
    tx.txStore.getMany model ids)

def rejectReadOnlyWrite : StoreError :=
  .configuration "memory store transaction is read-only."

def create (tx : Tx α) (model : String) (id : EntityId) (data : Row α) :
    Except StoreError (Tx α) :=
  if tx.readOnly then .error rejectReadOnlyWrite
  else do
    let txStore ← tx.txStore.create model id data
    return { tx with
      txStore := txStore
      dirty := markCreate tx.dirty (model, entityIdKey id) data }

def update (tx : Tx α) (model : String) (id : EntityId) (data : Row α)
    (expectedVersion : Option Nat) : Except StoreError (Tx α) :=
  if tx.readOnly then .error rejectReadOnlyWrite
  else do
    let txStore ← tx.txStore.update model id data expectedVersion
    return { tx with
      txStore := txStore
      dirty := markUpdate tx.dirty (model, entityIdKey id) data expectedVersion }

def delete (tx : Tx α) (model : String) (id : EntityId) (expectedVersion : Option Nat) :
    Except StoreError (Tx α) :=
  if tx.readOnly then .error rejectReadOnlyWrite
  else do
    let existed := tx.txStore.has (model, entityIdKey id)
    let txStore ← tx.txStore.delete model id expectedVersion
    return { tx with
      txStore := txStore
      dirty := markDelete tx.dirty (model, entityIdKey id) existed expectedVersion }

def savepoint (tx : Tx α) : Tx α :=
  { tx with
    checkpoints := ⟨tx.txStore.collections, tx.dirty, tx.pointReads⟩ :: tx.checkpoints }

def savepointReturn (tx : Tx α) : Tx α := { tx with checkpoints := tx.checkpoints.tail }

def savepointThrow (tx : Tx α) : Tx α :=
  match tx.checkpoints with
  | [] => tx
  | checkpoint :: rest =>
    { tx with
      txStore := { tx.txStore with collections := checkpoint.collections }
      dirty := checkpoint.dirty
      pointReads := checkpoint.pointReads
      checkpoints := rest }

/-- The name of an operation in the message of the closed adapter. -/
def opName : TxOp α → String
  | .get .. => "get"
  | .getMany .. => "getMany"
  | .create .. => "create"
  | .update .. => "update"
  | .delete .. => "delete"
  | .savepoint | .savepointReturn | .savepointThrow => "savepoint"

/-- An operation on an open adapter. A failed operation leaves the transaction as it is, and
the callback may go on after catching the error. -/
def run (tx : Tx α) : TxOp α → Except StoreError (Tx α × Response α)
  | .get model id =>
    let (tx, row) := tx.get model id
    .ok (tx, .row row)
  | .getMany model ids =>
    let (tx, rows) := tx.getMany model ids
    .ok (tx, .rows rows)
  | .create model id data => (tx.create model id data).map (·, .done)
  | .update model id data expectedVersion =>
    (tx.update model id data expectedVersion).map (·, .done)
  | .delete model id expectedVersion => (tx.delete model id expectedVersion).map (·, .done)
  | .savepoint => .ok (tx.savepoint, .done)
  | .savepointReturn => .ok (tx.savepointReturn, .done)
  | .savepointThrow => .ok (tx.savepointThrow, .done)

/-- An operation on the guarded adapter. -/
def guardedRun (tx : Tx α) (op : TxOp α) : Except StoreError (Tx α × Response α) :=
  match tx.closed with
  | some closed => .error (.configuration
      s!"Cannot {opName op} on a closed memory store transaction adapter after {closed}.")
  | none => tx.run op

end Tx

/-! ## The adapter and its transactions -/

/-- An operation on the adapter itself. -/
inductive DirectOp (α : Type) where
  | get (model : String) (id : EntityId)
  | getMany (model : String) (ids : List EntityId)
  | create (model : String) (id : EntityId) (data : Row α)
  | update (model : String) (id : EntityId) (data : Row α) (expectedVersion : Option Nat)
  | delete (model : String) (id : EntityId) (expectedVersion : Option Nat)
  | seed (model : String) (rows : List (EntityId × Row α))
  | reset (model : Option String)

def MemoryStoreAdapter.run (s : MemoryStoreAdapter α) :
    DirectOp α → Except StoreError (MemoryStoreAdapter α × Response α)
  | .get model id => .ok (s, .row (s.get model id))
  | .getMany model ids => .ok (s, .rows (s.getMany model ids))
  | .create model id data => (s.create model id data).map (·, .done)
  | .update model id data expectedVersion =>
    (s.update model id data expectedVersion).map (·, .done)
  | .delete model id expectedVersion => (s.delete model id expectedVersion).map (·, .done)
  | .seed model rows => (s.seed model rows).map (·, .done)
  | .reset model => (s.reset model).map (·, .done)

abbrev TxId := Nat

/-- The adapter with every transaction ever begun on it. -/
structure Machine (α : Type) where
  store : MemoryStoreAdapter α
  txs : List (Tx α)

/-- One atomic step: nothing else runs between two `await`s of the adapter. -/
inductive Action (α : Type) where
  | direct (op : DirectOp α)
  | begin (readOnly : Bool)
  | tx (t : TxId) (op : TxOp α)
  | commit (t : TxId)
  | rollback (t : TxId)

namespace Machine

variable {α : Type}

def new : Machine α := ⟨.new, []⟩

/-- The commit of a transaction whose callback has returned. A savepoint is a pending operation
of the adapter until its callback has settled, and the commit waits for it. -/
def commit (m : Machine α) (t : TxId) : Option (Machine α × Except StoreError (Response α)) := do
  let tx ← m.txs[t]?
  guard (tx.closed.isNone ∧ tx.checkpoints.isEmpty)
  match m.store.applyDirty tx.dirty tx.pointReads tx.revisionSnapshot with
  | .ok store =>
    return (⟨store.releaseTransactionSnapshot tx.revisionSnapshot,
      m.txs.set t { tx with closed := some "commit", settled := true }⟩, .ok .done)
  | .error e => return (⟨m.store, m.txs.set t { tx with closed := some "rollback" }⟩, .error e)

/-- The end of a transaction that did not commit. -/
def rollback (m : Machine α) (t : TxId) : Option (Machine α × Except StoreError (Response α)) := do
  let tx ← m.txs[t]?
  guard (!tx.settled)
  return (⟨m.store.releaseTransactionSnapshot tx.revisionSnapshot,
    m.txs.set t { tx with closed := some "rollback", settled := true }⟩, .ok .done)

/-- One step, or none when the action cannot happen now. A failed operation changes nothing. -/
def step (m : Machine α) : Action α → Option (Machine α × Except StoreError (Response α))
  | .direct op =>
    match m.store.run op with
    | .ok (store, response) => some (⟨store, m.txs⟩, .ok response)
    | .error e => some (m, .error e)
  | .begin readOnly =>
    let (_, store) := m.store.beginTransactionSnapshot
    some (⟨store, m.txs ++ [Tx.start m.store readOnly]⟩, .ok .done)
  | .tx t op => do
    let tx ← m.txs[t]?
    match tx.guardedRun op with
    | .ok (tx, response) => some (⟨m.store, m.txs.set t tx⟩, .ok response)
    | .error e => some (m, .error e)
  | .commit t => m.commit t
  | .rollback t => m.rollback t

end Machine

end ActiveTs.MemoryStore
