import ActiveTs.Datastore.RepairManifest
import Mathlib.Logic.Function.Basic

/-! # A run of an ID repair

Every operation of a manifest runs in a transaction of its own, after a preflight that reads all of
them. Any call of the SDK may fail, and a commit that fails may have taken effect. The run stops at
the first failure and says how far it came. -/

namespace ActiveTs.Datastore

open ActiveTs.Outbox (EntityId)

variable {V : Type}

/-! ## Contents and failures -/

inductive FieldValue (V : Type)
  /-- A string or a number. -/
  | id (id : EntityId)
  | other (value : V)

/-- The fields of an entity. -/
abbrev Entity (V : Type) := String → Option (FieldValue V)

/-- A Datastore. -/
abbrev Content (V : Type) := SdkKey → Option (Entity V)

/-- The calls of a run that can fail, with the index of their operation. -/
inductive RepairCall
  | preflightSource (index : Nat)
  | preflightTarget (index : Nat)
  | start (index : Nat)
  | readSource (index : Nat)
  | readTarget (index : Nat)
  | update (index : Nat)
  | insert (index : Nat)
  | delete (index : Nat)
  | commit (index : Nat)
  | rollback (index : Nat)
  deriving DecidableEq

structure FailurePlacement where
  fails : RepairCall → Bool
  /-- A commit that fails took effect. -/
  takesEffect : Nat → Bool

def noFailures : FailurePlacement := ⟨fun _ => false, fun _ => false⟩

inductive RepairFailure
  | sdk (call : RepairCall)
  | key (error : KeyError)
  | sourceMissing
  | payloadChanged
  | targetExists
  deriving DecidableEq

inductive RepairOperationError
  | failed (cause : RepairFailure)
  | rollbackFailed (cause : RepairFailure)
  | indeterminateCommit
  deriving DecidableEq

inductive RepairResult
  | repaired
  | alreadyRepaired
  deriving DecidableEq

inductive Mutation (V : Type)
  | update (key : SdkKey) (data : Entity V)
  | insert (key : SdkKey) (data : Entity V)
  | delete (key : SdkKey)

def Mutation.apply (content : Content V) : Mutation V → Content V
  | update key data => Function.update content key (some data)
  | insert key data => Function.update content key (some data)
  | delete key => Function.update content key none

/-- A commit applies the staged mutations in order. -/
def applyMutations (content : Content V) (staged : List (Mutation V)) : Content V :=
  staged.foldl Mutation.apply content

/-! ## Reads and checks -/

inductive CurrentPayload
  | missing
  | invalid
  | payload (payload : DatastoreIdRepairPayload)
  deriving DecidableEq

def payloadFromEntity (entity : Entity V) (idField : String) : CurrentPayload :=
  match entity idField with
  | none => .missing
  | some (.other _) => .invalid
  | some (.id id) => if safeEntityId id then .payload (repairPayloadForId id) else .invalid

def sameRepairPayload (actual : CurrentPayload) (expected : DatastoreIdRepairPayload) : Bool :=
  actual = .payload expected

section
variable (placement : FailurePlacement)

def sdkCall (call : RepairCall) : Except RepairFailure Unit :=
  refuse (placement.fails call) (.sdk call)

def sdkKey (key : DatastoreIdInventoryKey) : Except RepairFailure SdkKey :=
  (inventoryKeyToSdkOptions key).mapError RepairFailure.key

def transactionGet (content : Content V) (call : RepairCall) (key : SdkKey) :
    Except RepairFailure (Option (Entity V)) := do
  sdkCall placement call
  .ok (content key)

/-- `source` must exist. -/
def existing : Option (Entity V) → Except RepairFailure (Entity V)
  | none => .error .sourceMissing
  | some entity => .ok entity

variable (manifest : DatastoreIdRepairManifest)

/-- A manifest that keeps its keys finds the ID field that it would write. -/
def alreadyRepaired (operation : DatastoreIdRepairOperation) (source : Entity V) : Bool :=
  manifest.policy = .keyWins &&
    sameRepairPayload (payloadFromEntity source manifest.idField)
      (repairPayloadForId operation.replacementId)

def expectedPayload (operation : DatastoreIdRepairOperation) (source : Entity V) : Bool :=
  sameRepairPayload (payloadFromEntity source manifest.idField) operation.expectedPayload

def preflightOperation (content : Content V) (index : Nat)
    (operation : DatastoreIdRepairOperation) : Except RepairFailure Unit := do
  let sourceKey ← sdkKey operation.source
  let read ← transactionGet placement content (.preflightSource index) sourceKey
  let source ← existing read
  refuse (!alreadyRepaired manifest operation source && !expectedPayload manifest operation source)
    .payloadChanged
  match manifest.policy with
  | .keyWins => .ok ()
  | .payloadWins => do
    let targetKey ← sdkKey operation.target
    let target ← transactionGet placement content (.preflightTarget index) targetKey
    refuse target.isSome .targetExists

def preflightRepairManifest (content : Content V) :
    Nat → List DatastoreIdRepairOperation → Except RepairFailure Unit
  | _, [] => .ok ()
  | index, operation :: operations => do
    preflightOperation placement manifest content index operation
    preflightRepairManifest content (index + 1) operations

/-! ## One operation -/

def repairedEntity (operation : DatastoreIdRepairOperation) (source : Entity V) : Entity V :=
  Function.update source manifest.idField (some (.id operation.replacementId))

/-- A started transaction up to its commit. -/
def stageRepairOperation (content : Content V) (index : Nat)
    (operation : DatastoreIdRepairOperation) :
    Except RepairFailure (RepairResult × List (Mutation V)) := do
  let sourceKey ← sdkKey operation.source
  let read ← transactionGet placement content (.readSource index) sourceKey
  let source ← existing read
  if alreadyRepaired manifest operation source then .ok (.alreadyRepaired, [])
  else do
    refuse (!expectedPayload manifest operation source) .payloadChanged
    let data := repairedEntity manifest operation source
    match manifest.policy with
    | .keyWins => do
      sdkCall placement (.update index)
      .ok (.repaired, [.update sourceKey data])
    | .payloadWins => do
      let targetKey ← sdkKey operation.target
      let target ← transactionGet placement content (.readTarget index) targetKey
      refuse target.isSome .targetExists
      sdkCall placement (.insert index)
      sdkCall placement (.delete index)
      .ok (.repaired, [.insert targetKey data, .delete sourceKey])

def applyRepairOperation (content : Content V) (index : Nat)
    (operation : DatastoreIdRepairOperation) :
    Except RepairOperationError RepairResult × Content V :=
  if placement.fails (.start index) then (.error (.failed (.sdk (.start index))), content)
  else
    match stageRepairOperation placement manifest content index operation with
    | .error cause =>
      if placement.fails (.rollback index) then (.error (.rollbackFailed cause), content)
      else (.error (.failed cause), content)
    | .ok (result, staged) =>
      if placement.fails (.commit index) then
        (.error .indeterminateCommit,
          if placement.takesEffect index then applyMutations content staged else content)
      else (.ok result, applyMutations content staged)

/-! ## The loop -/

structure DatastoreIdRepairApplyReport where
  total : Nat
  processed : Nat
  repaired : Nat
  alreadyRepaired : Nat
  indeterminate : Nat
  deriving DecidableEq

inductive ApplyOutcome
  | report (report : DatastoreIdRepairApplyReport)
  | refused (error : ManifestError)
  | failed (error : RepairOperationError)
  /-- `ActiveTsCommittedTransactionError`. -/
  | committed (error : RepairOperationError) (progress : DatastoreIdRepairApplyReport)
  deriving DecidableEq

/-- What the loop throws when an operation failed. -/
def stopApply (total repaired already : Nat) (error : RepairOperationError) : ApplyOutcome :=
  if error = .indeterminateCommit then
    .committed error ⟨total, repaired + already, repaired, already, 1⟩
  else if repaired > 0 then .committed error ⟨total, repaired + already, repaired, already, 0⟩
  else .failed error

def applyRepairOperations (total : Nat) :
    Nat → List DatastoreIdRepairOperation → Nat → Nat → Content V → ApplyOutcome × Content V
  | _, [], repaired, already, content => (.report ⟨total, total, repaired, already, 0⟩, content)
  | index, operation :: operations, repaired, already, content =>
    match applyRepairOperation placement manifest content index operation with
    | (.ok .repaired, content) =>
      applyRepairOperations total (index + 1) operations (repaired + 1) already content
    | (.ok .alreadyRepaired, content) =>
      applyRepairOperations total (index + 1) operations repaired (already + 1) content
    | (.error error, content) => (stopApply total repaired already error, content)

def applyDatastoreIdRepairManifest (content : Content V) : ApplyOutcome × Content V :=
  match normalizeRepairManifest manifest with
  | .error error => (.refused error, content)
  | .ok manifest =>
    match preflightRepairManifest placement manifest content 0 manifest.operations with
    | .error cause => (.failed (.failed cause), content)
    | .ok _ =>
      applyRepairOperations placement manifest manifest.operations.length 0 manifest.operations 0 0
        content

end

end ActiveTs.Datastore
