import ActiveTs.Lib.Prog
import Mathlib.Data.Int.Order.Basic

/-! # Saves and deletes of one row

Model instances of one row are saved and deleted outside transactions by any number of tasks. An
instance remembers the version that it loaded or last wrote, and its writes carry that version as
the expected one. The world keeps, for the proofs only, the states that the row has had, the writes
of the store and the state that each instance stands on. -/

namespace ActiveTs.Models

def MAX_SAFE_INTEGER : Int := 9007199254740991

def isSafeInteger (n : Int) : Bool := -MAX_SAFE_INTEGER ≤ n && n ≤ MAX_SAFE_INTEGER

/-! ## The world -/

/-- Stored data. Its `version` field is `none` when it is missing or not a number. -/
structure Row (D : Type) where
  data : D
  version : Option Int
  deriving DecidableEq

/-- A `Model` instance. -/
structure ModelState (D : Type) where
  data : D
  /-- `data.version`. -/
  version : Option Int
  /-- `persistedId` is defined. -/
  persisted : Bool
  persistedVersion : Option Int
  /-- The row that the instance was loaded from or last wrote. -/
  base : Row D
  deriving DecidableEq

inductive WriteKind
  | save
  | delete
  deriving DecidableEq

/-- A write that the store took: the state that the writer's instance stood on (for the static
forms: that was read), the state that the write replaced, and the one it left. -/
structure Write (T D : Type) where
  op : T
  kind : WriteKind
  base : Row D
  replaced : Option (Row D)
  written : Option (Row D)
  deriving DecidableEq

structure World (T I D : Type) where
  row : Option (Row D)
  models : I → Option (ModelState D)
  states : List (Row D)
  writes : List (Write T D)

inductive WriteError
  | notPersisted
  | versionChanged
  | unsafeVersion
  /-- A hook, a validation or another check before the store write throws. -/
  | beforeWrite
  | conflict
  /-- The store throws without effect. -/
  | store
  /-- `ActiveTsCommittedWriteError`. -/
  | afterWrite
  deriving DecidableEq

/-- What the environment decides in a step: whether the call succeeds, what hooks make of the data,
what the caller assigns, which state a cached read returns. -/
structure Choice (D : Type) where
  ok : Bool
  data : D
  version : Option Int
  pick : Nat

variable {T I D : Type} [DecidableEq I]

namespace World

def init (row : Row D) : World T I D := ⟨some row, fun _ => none, [row], []⟩

def setModel (s : World T I D) (i : I) (m : ModelState D) : World T I D :=
  { s with models := Function.update s.models i (some m) }

/-- The row now has the state `row`. -/
def write (s : World T I D) (op : T) (kind : WriteKind) (base : Row D) (row : Option (Row D)) :
    World T I D :=
  { s with
    row
    states := s.states ++ row.toList
    writes := s.writes ++ [⟨op, kind, base, s.row, row⟩] }

/-- `store.update` of a store that checks `expectedVersion` atomically. -/
def update (s : World T I D) (op : T) (base row : Row D) (expectedVersion : Option Int) :
    World T I D × Except WriteError Unit :=
  match s.row with
  | none => (s, .error .conflict)
  | some current =>
    if expectedVersion.isSome && current.version ≠ expectedVersion then (s, .error .conflict)
    else (s.write op .save base (some row), .ok ())

/-- `store.delete`: an absent row has no version. -/
def delete (s : World T I D) (op : T) (base : Row D) (expectedVersion : Option Int) :
    World T I D × Except WriteError Unit :=
  if expectedVersion.isSome && s.row.bind Row.version ≠ expectedVersion then (s, .error .conflict)
  else (s.write op .delete base none, .ok ())

end World

/-! ## Instances -/

namespace ModelState

/-- The constructor, for a row that was read. -/
def loaded (row : Row D) : ModelState D :=
  { data := row.data, version := row.version, persisted := true
    persistedVersion := row.version, base := row }

def expectedWriteVersion (m : ModelState D) : Except WriteError (Option Int) :=
  if m.persistedVersion.isSome && m.version ≠ m.persistedVersion then .error .versionChanged
  else .ok (m.persistedVersion.or m.version)

/-- `writePreparedSave` after the store write. -/
def saved (row : Row D) : ModelState D :=
  { data := row.data, version := row.version, persisted := true
    persistedVersion := row.version, base := row }

/-- `delete` after the store write. -/
def deleted (m : ModelState D) : ModelState D :=
  { m with persisted := false, persistedVersion := none }

end ModelState

abbrev Task (T I D : Type) := Prog (World T I D) (Choice D) WriteError

/-! ## Save -/

/-- `PreparedModelUpdate`: the data with its version field, and the expected version. -/
structure PreparedModelUpdate (D : Type) where
  row : Row D
  expectedVersion : Option Int
  base : Row D

/-- The start of `save` and `delete`: the instance and its expected version. -/
def beginWrite (i : I) : Task T I D (Option Int × Row D) :=
  .sync fun s =>
    match s.models i with
    | none => (s, .error .notPersisted)
    | some m =>
      if m.persisted then (s, m.expectedWriteVersion.map fun version => (version, m.base))
      else (s, .error .notPersisted)

/-- The hooks before a save and its validation, with the data that they return. -/
def runBeforeUpdate : Task T I D (Row D) :=
  .atomically fun c s => (s, if c.ok then .ok ⟨c.data, c.version⟩ else .error .beforeWrite)

/-- Hooks and checks before a delete. -/
def runBeforeDelete : Task T I D Unit :=
  .atomically fun c s => (s, if c.ok then .ok () else .error .beforeWrite)

def prepareSave (i : I) : Task T I D (PreparedModelUpdate D) := do
  let (originalVersion, base) ← beginWrite i
  let row ← runBeforeUpdate
  if originalVersion.isSome && row.version ≠ originalVersion then throw .versionChanged
  else
    match originalVersion.or row.version with
    | none => return ⟨row, none, base⟩
    | some expectedVersion =>
      if isSafeInteger (expectedVersion + 1) then
        return ⟨{ row with version := some (expectedVersion + 1) }, some expectedVersion, base⟩
      else throw .unsafeVersion

def writePreparedSave (op : T) (i : I) (prepared : PreparedModelUpdate D) : Task T I D Unit := do
  Prog.atomically fun c s =>
    if c.ok then s.update op prepared.base prepared.row prepared.expectedVersion
    else (s, .error .store)
  Prog.modify fun s => s.setModel i (.saved prepared.row)

/-- `finishPreparedSave`, `afterStoreWrite`: what can fail once the write is committed. -/
def finishWrite : Task T I D Unit :=
  .atomically fun c s => (s, if c.ok then .ok () else .error .afterWrite)

def save (op : T) (i : I) : Task T I D Unit := do
  let prepared ← prepareSave i
  writePreparedSave op i prepared
  finishWrite

/-! ## Delete and the static forms -/

def delete (op : T) (i : I) : Task T I D Unit := do
  let (expectedVersion, base) ← beginWrite i
  runBeforeDelete
  Prog.atomically fun c s =>
    if c.ok then s.delete op base expectedVersion else (s, .error .store)
  Prog.modify fun s => (s.models i).elim s fun m => s.setModel i m.deleted
  finishWrite

/-- The store read of the static forms. -/
def readFresh : Task T I D (Option (Row D)) :=
  .atomically fun c s => (s, if c.ok then .ok s.row else .error .beforeWrite)

/-- A new instance in the free place `i`. -/
def instantiate (i : I) (row : Row D) : Task T I D Unit :=
  .step (fun _ s => (s.models i).isNone) (fun _ s => s.setModel i (.loaded row)) fun _ _ => .ret ()

/-- The caller assigns to the data of an instance. -/
def assign (i : I) (f : D → Option Int → D × Option Int) : Task T I D Unit :=
  .modify fun s => (s.models i).elim s fun m =>
    s.setModel i { m with data := (f m.data m.version).1, version := (f m.data m.version).2 }

/-- `Model.update`, with its instance in the place `i`. -/
def staticUpdate (op : T) (i : I) (patch : D → Option Int → D × Option Int) :
    Task T I D Unit := do
  let found ← readFresh
  match found with
  | none => finishWrite
  | some row =>
    instantiate i row
    assign i patch
    save op i

/-- `Model.delete`. -/
def staticDelete (op : T) : Task T I D Unit := do
  let existing ← readFresh
  match existing with
  | none => finishWrite
  | some row =>
    runBeforeDelete
    Prog.atomically fun c s =>
      if c.ok then s.delete op row row.version else (s, .error .store)
    finishWrite

/-- A load into the free place `i`: of the stored row, or of an earlier state from a cache. -/
def load (i : I) : Task T I D Unit := do
  let found ← Prog.atomically fun c s => (s, .ok s.states[c.pick]?)
  match found with
  | none => return ()
  | some row => instantiate i row

/-- The operations on the row. -/
inductive Job (I D : Type)
  | save (i : I)
  | delete (i : I)
  | staticUpdate (i : I) (patch : D → Option Int → D × Option Int)
  | staticDelete
  | load (i : I)
  | assign (i : I) (f : D → Option Int → D × Option Int)

def Job.task (op : T) : Job I D → Task T I D Unit
  | .save i => Models.save op i
  | .delete i => Models.delete op i
  | .staticUpdate i patch => Models.staticUpdate op i patch
  | .staticDelete => Models.staticDelete op
  | .load i => Models.load i
  | .assign i f => Models.assign i f

end ActiveTs.Models
