import ActiveTs.Datastore.Inventory

/-! # Planning an ID repair

The planner takes the report of an inventory and its issues, checks that they belong together, and
writes the manifest of the repair. Who applies a manifest reads it from JSON, derives everything again
and compares digests. Issues and manifests arrive as JSON values here; a member that is `undefined`
is one that is missing. -/

namespace ActiveTs.Datastore

open ActiveTs.Outbox (EntityId)
open ActiveTs.Sql (segments safeFieldPath)
open JsonText

inductive DatastoreIdRepairDescendantPolicy
  | verifiedNone
  | migratedSeparately
  deriving DecidableEq

structure DatastoreIdRepairInventorySummary where
  inventoryId : String
  issueDigest : String
  scanned : Nat
  pages : Nat
  matched : Nat
  typeMismatches : Nat
  deriving DecidableEq

/-- What a manifest has a digest of. -/
structure RepairManifestContents where
  kind : String
  idField : String
  target : String
  ns : Option String
  policy : DatastoreIdRepairPolicy
  descendantPolicy : Option DatastoreIdRepairDescendantPolicy
  excludeFromIndexes : List String
  inventory : DatastoreIdRepairInventorySummary
  operations : List DatastoreIdRepairOperation

/-- A manifest as it is written. -/
structure RepairManifest where
  contents : RepairManifestContents
  digest : String

structure DatastoreIdRepairPlanOptions where
  target : String
  policy : DatastoreIdRepairPolicy
  excludeFromIndexes : List String
  /-- `true`, or nothing. -/
  allowKeyMoves : Bool
  descendantPolicy : Option DatastoreIdRepairDescendantPolicy

inductive PlanError
  | badReport
  | badTarget
  | allowKeyMoves
  | descendantPolicy
  | excludeFromIndexes (index : Nat)
  | otherDrift
  | issueCount
  | issueInventory (index : Nat)
  | issueIndex (index : Nat)
  | issueClassification
  | issueDigest
  | badKind
  | badIdField
  | badInventory
  | badFormat
  | read (error : RecordError)
  | manifest (error : ManifestError)
  | digest
  deriving DecidableEq

def readJson (result : Except RecordError α) : Except PlanError α := result.mapError PlanError.read

def atManifest (result : Except ManifestError α) : Except PlanError α :=
  result.mapError PlanError.manifest

/-! ## Checks that planner and reader share -/

def lowerHex (c : Char) : Bool := ('0' ≤ c && c ≤ '9') || ('a' ≤ c && c ≤ 'f')

/-- `/^[0-9a-f]{8}-[0-9a-f]{4}-4[0-9a-f]{3}-[89ab][0-9a-f]{3}-[0-9a-f]{12}$/` -/
def uuidV4 (id : String) : Bool :=
  id.toList.length = 36 && id.toList.zipIdx.all fun (c, index) =>
    if index = 8 || index = 13 || index = 18 || index = 23 then c = '-'
    else if index = 14 then c = '4'
    else if index = 19 then c = '8' || c = '9' || c = 'a' || c = 'b'
    else lowerHex c

def hexDigest (digest : String) : Bool := digest.toList.length = 64 && digest.toList.all lowerHex

/-- `/^sha256:[0-9a-f]{64}$/` -/
def manifestDigest (digest : String) : Bool :=
  "sha256:".toList.isPrefixOf digest.toList && hexDigest (String.ofList (digest.toList.drop 7))

def DatastoreIdRepairInventorySummary.safe (inventory : DatastoreIdRepairInventorySummary) : Bool :=
  uuidV4 inventory.inventoryId && manifestDigest inventory.issueDigest &&
    safeInteger inventory.scanned && safeInteger inventory.pages && 0 < inventory.pages &&
    safeInteger inventory.matched && safeInteger inventory.typeMismatches &&
    inventory.matched + inventory.typeMismatches = inventory.scanned

/-! ## Index exclusions -/

def arrayPart (part : String) : Bool := "[]".toList.isSuffixOf part.toList

def arrayField (part : String) : String :=
  if arrayPart part then String.ofList part.toList.dropLast.dropLast else part

/-- `assertSafeDatastoreIndexExclusionPath`. -/
def safeIndexExclusionPath (path : String) : Bool :=
  let parts := segments path
  let recursiveWildcard := parts.getLast? = some "*"
  safeFieldPath path && !path.toList.contains '/' && parts.zipIdx.all fun (part, index) =>
    (part = "*" && 0 < index && index + 1 = parts.length) ||
      (arrayField part != "" && !(arrayField part).toList.any ("[]*".toList.contains ·) &&
        safeFieldPath (arrayField part) &&
        !(recursiveWildcard && arrayPart part && index + 2 < parts.length))

/-- `replaceAll('[]', '')` -/
def withoutArrays : List Char → List Char
  | '[' :: ']' :: rest => withoutArrays rest
  | c :: rest => c :: withoutArrays rest
  | [] => []

def datastoreIndexExclusionOverlapsField (exclusion field : String) : Bool :=
  let path := withoutArrays exclusion.toList
  let propertyPath := if ".*".toList.isSuffixOf path then path.dropLast.dropLast else path
  propertyPath = field.toList || (field.toList ++ ['.']).isPrefixOf propertyPath ||
    (propertyPath ++ ['.']).isPrefixOf field.toList

def normalizeExcludeFromIndexes (idField : String) (index : Nat) (seen : List String) :
    List String → Except PlanError Unit
  | [] => .ok ()
  | field :: fields => do
    refuse (!safeIndexExclusionPath field) (.excludeFromIndexes index)
    refuse (datastoreIndexExclusionOverlapsField field idField) (.excludeFromIndexes index)
    refuse (field ∈ seen) (.excludeFromIndexes index)
    normalizeExcludeFromIndexes idField (index + 1) (field :: seen) fields

/-! ## JSON -/

def idJson : EntityId → Value
  | .string value => string value
  | .number value => integer value
  | .datastoreInt64 value => string ("\x00active-ts:datastore-int64:" ++ value)

def DatastoreIdRepairOperation.toJson (operation : DatastoreIdRepairOperation) : Value :=
  record [("issueIndex", integer operation.issueIndex), ("source", operation.source.toJson),
    ("target", operation.target.toJson), ("expectedPayload", operation.expectedPayload.toJson),
    ("replacementId", idJson operation.replacementId)]

def DatastoreIdRepairInventorySummary.toJson (inventory : DatastoreIdRepairInventorySummary) : Value :=
  record [("inventoryId", string inventory.inventoryId),
    ("issueDigest", string inventory.issueDigest), ("scanned", integer inventory.scanned),
    ("pages", integer inventory.pages), ("matched", integer inventory.matched),
    ("typeMismatches", integer inventory.typeMismatches)]

def DatastoreIdRepairPolicy.text : DatastoreIdRepairPolicy → String
  | keyWins => "key-wins"
  | payloadWins => "payload-wins"

def DatastoreIdRepairDescendantPolicy.text : DatastoreIdRepairDescendantPolicy → String
  | verifiedNone => "verified-none"
  | migratedSeparately => "migrated-separately"

def RepairManifestContents.fields (contents : RepairManifestContents) : Fields :=
  [("format", string "active-ts/datastore-id-repair"), ("version", integer 1),
    ("kind", string contents.kind), ("idField", string contents.idField),
    ("target", string contents.target), ("namespace", contents.ns.map string),
    ("policy", string contents.policy.text),
    ("allowKeyMoves", Value.bool (contents.policy == .payloadWins)),
    ("descendantPolicy", contents.descendantPolicy.map fun policy => string policy.text),
    ("excludeFromIndexes", Value.array (contents.excludeFromIndexes.map string)),
    ("inventory", contents.inventory.toJson),
    ("operations", Value.array (contents.operations.map DatastoreIdRepairOperation.toJson))]

def RepairManifestContents.toJson (contents : RepairManifestContents) : Value :=
  record contents.fields

def RepairManifest.toJson (manifest : RepairManifest) : Value :=
  record (manifest.contents.fields ++ [("digest", some (string manifest.digest))])

/-! ## Reading JSON -/

def readStorage (value : Option Value) : Except RecordError KeyStorage := do
  let text ← readString "storage" value
  if text = "id" then .ok .id
  else if text = "name" then .ok .name
  else .error (.badMember "storage")

def readKeyPart (value : Value) : Except RecordError DatastoreIdInventoryKeyPart := do
  let part ← readRecord ["kind", "storage", "value"] value
  let kind ← readString "kind" (part "kind")
  let storage ← readStorage (part "storage")
  let value ← readString "value" (part "value")
  .ok ⟨kind, storage, value⟩

def readKey (name : String) : Option Value → Except RecordError DatastoreIdInventoryKey
  | none => .error (.badMember name)
  | some value => do
    let key ← readRecord ["path", "namespace"] value
    let ns ← readStringOption "namespace" (key "namespace")
    let items ← readArray "path" (key "path")
    let path ← items.mapM readKeyPart
    .ok ⟨ns, path⟩

def readPayload (name : String) : Option Value → Except RecordError DatastoreIdRepairPayload
  | none => .error (.badMember name)
  | some value => do
    let payload ← readRecord ["type", "value"] value
    let type ← readString "type" (payload "type")
    if type = "int64" then (readString "value" (payload "value")).map .int64
    else if type = "string" then (readString "value" (payload "value")).map .string
    else if type = "number" then (readSafeInteger "value" (payload "value")).map .number
    else .error (.badMember "type")

def readId (name : String) : Option Value → Except RecordError EntityId
  | some (.number value) => (readSafeInteger name (some (.number value))).map .number
  | value => (readString name value).map entityIdOfText

def readOperation (value : Value) : Except RecordError DatastoreIdRepairOperation := do
  let operation ← readRecord
    ["issueIndex", "source", "target", "expectedPayload", "replacementId"] value
  let issueIndex ← readCount "issueIndex" (operation "issueIndex")
  let source ← readKey "source" (operation "source")
  let expectedPayload ← readPayload "expectedPayload" (operation "expectedPayload")
  let target ← readKey "target" (operation "target")
  let replacementId ← readId "replacementId" (operation "replacementId")
  .ok ⟨issueIndex, source, target, expectedPayload, replacementId⟩

def readSummary : Option Value → Except RecordError DatastoreIdRepairInventorySummary
  | none => .error (.badMember "inventory")
  | some value => do
    let inventory ← readRecord
      ["inventoryId", "issueDigest", "scanned", "pages", "matched", "typeMismatches"] value
    let inventoryId ← readString "inventoryId" (inventory "inventoryId")
    let issueDigest ← readString "issueDigest" (inventory "issueDigest")
    let scanned ← readCount "scanned" (inventory "scanned")
    let pages ← readCount "pages" (inventory "pages")
    let matched ← readCount "matched" (inventory "matched")
    let typeMismatches ← readCount "typeMismatches" (inventory "typeMismatches")
    .ok ⟨inventoryId, issueDigest, scanned, pages, matched, typeMismatches⟩

def readPolicy (value : Option Value) : Except RecordError DatastoreIdRepairPolicy := do
  let text ← readString "policy" value
  if text = "key-wins" then .ok .keyWins
  else if text = "payload-wins" then .ok .payloadWins
  else .error (.badMember "policy")

def readDescendantPolicy :
    Option Value → Except RecordError (Option DatastoreIdRepairDescendantPolicy)
  | none => .ok none
  | some value => do
    let text ← readString "descendantPolicy" (some value)
    if text = "verified-none" then .ok (some .verifiedNone)
    else if text = "migrated-separately" then .ok (some .migratedSeparately)
    else .error (.badMember "descendantPolicy")

/-- The members of a manifest, each of its type. -/
def readManifest (value : Value) : Except PlanError RepairManifest := do
  let manifest ← readJson (readRecord ["format", "version", "kind", "idField", "target", "namespace",
    "policy", "allowKeyMoves", "descendantPolicy", "excludeFromIndexes", "inventory", "operations",
    "digest"] value)
  let format ← readJson (readString "format" (manifest "format"))
  let version ← readJson (readCount "version" (manifest "version"))
  refuse (format ≠ "active-ts/datastore-id-repair" ∨ version ≠ 1) .badFormat
  let digest ← readJson (readString "digest" (manifest "digest"))
  let kind ← readJson (readString "kind" (manifest "kind"))
  let idField ← readJson (readString "idField" (manifest "idField"))
  let target ← readJson (readString "target" (manifest "target"))
  let ns ← readJson (readStringOption "namespace" (manifest "namespace"))
  let policy ← readJson (readPolicy (manifest "policy"))
  let allowKeyMoves ← readJson (readBool "allowKeyMoves" (manifest "allowKeyMoves"))
  refuse (allowKeyMoves ≠ (policy == .payloadWins)) .allowKeyMoves
  let descendantPolicy ← readJson (readDescendantPolicy (manifest "descendantPolicy"))
  let exclusions ← readJson (readArray "excludeFromIndexes" (manifest "excludeFromIndexes"))
  let excludeFromIndexes ← readJson (exclusions.mapM fun item =>
    readString "excludeFromIndexes" (some item))
  let inventory ← readJson (readSummary (manifest "inventory"))
  let items ← readJson (readArray "operations" (manifest "operations"))
  let operations ← readJson (items.mapM readOperation)
  .ok ⟨⟨kind, idField, target, ns, policy, descendantPolicy, excludeFromIndexes, inventory,
    operations⟩, digest⟩

/-! ## Manifests -/

/-- What a run uses. -/
def RepairManifestContents.core (contents : RepairManifestContents) : DatastoreIdRepairManifest :=
  ⟨contents.kind, contents.idField, contents.ns, contents.policy, contents.inventory.typeMismatches,
    contents.operations⟩

def RepairManifestContents.normalize (contents : RepairManifestContents) :
    Except PlanError RepairManifestContents := do
  refuse (!safeKind contents.kind) .badKind
  refuse (!safeTopLevelField contents.idField) .badIdField
  refuse (!safeEntityId (entityIdOfText contents.target)) .badTarget
  refuse (contents.descendantPolicy.isSome ≠ (contents.policy == .payloadWins)) .descendantPolicy
  normalizeExcludeFromIndexes contents.idField 0 [] contents.excludeFromIndexes
  refuse (!contents.inventory.safe) .badInventory
  let core ← atManifest (normalizeRepairManifest contents.core)
  .ok { contents with operations := core.operations }

def repairManifestDigest (sha256 : List Char → String) (contents : RepairManifestContents) : String :=
  "sha256:" ++ sha256 (text contents.toJson)

/-- `normalizeRepairManifest` of a manifest that comes from outside. -/
def acceptRepairManifest (sha256 : List Char → String) (value : Value) :
    Except PlanError RepairManifest := do
  let manifest ← readManifest value
  refuse (!manifestDigest manifest.digest) .digest
  let contents ← manifest.contents.normalize
  refuse (manifest.digest ≠ repairManifestDigest sha256 contents) .digest
  .ok ⟨contents, manifest.digest⟩

/-! ## The plan -/

def normalizeInventoryReport (report : DatastoreIdInventoryReport) : Except PlanError Unit :=
  let total := (DatastoreIdInventoryClassification.all.map report.counts).sum
  refuse (!(uuidV4 report.inventoryId && manifestDigest report.issueDigest && safeKind report.kind &&
    safeTopLevelField report.idField && safeNamespace report.ns && safeInteger report.scanned &&
    safeInteger report.pages && 0 < report.pages && safeInteger total && total = report.scanned))
    .badReport

/-- An issue whose payload has an id in another type. -/
structure TypeMismatchIssue where
  inventoryId : String
  issueIndex : Nat
  key : DatastoreIdInventoryKey
  payload : DatastoreIdRepairPayload
  reason : Utf16.Units

def TypeMismatchIssue.issue (issue : TypeMismatchIssue) : DatastoreIdInventoryIssue :=
  ⟨issue.inventoryId, issue.issueIndex, .typeMismatch, issue.key, .id issue.payload, issue.reason⟩

def readIssue (value : Value) : Except PlanError TypeMismatchIssue := do
  let issue ← readJson (readRecord
    ["inventoryId", "issueIndex", "classification", "key", "payload", "reason"] value)
  let inventoryId ← readJson (readString "inventoryId" (issue "inventoryId"))
  let issueIndex ← readJson (readCount "issueIndex" (issue "issueIndex"))
  let classification ← readJson (readString "classification" (issue "classification"))
  refuse (classification ≠ "type-mismatch") .issueClassification
  let reason ← readJson (readUnits "reason" (issue "reason"))
  let key ← readJson (readKey "key" (issue "key"))
  let payload ← readJson (readPayload "payload" (issue "payload"))
  .ok ⟨inventoryId, issueIndex, key, payload, reason⟩

def normalizeTypeMismatchIssue (report : DatastoreIdInventoryReport) (index : Nat) (value : Value) :
    Except PlanError TypeMismatchIssue := do
  let issue ← readIssue value
  refuse (!uuidV4 issue.inventoryId || issue.inventoryId != report.inventoryId)
    (.issueInventory index)
  refuse (issue.issueIndex ≠ index) (.issueIndex index)
  let key ← atManifest (atOperation index (normalizeInventoryKey issue.key report.kind report.ns))
  atManifest (issue.payload.normalize index)
  atManifest (assertTypeMismatch key issue.payload index)
  .ok { issue with key := key }

/-- The loop over the issues. -/
def planIssues (report : DatastoreIdInventoryReport) (policy : DatastoreIdRepairPolicy)
    (index : Nat) : List Value →
    Except PlanError (List (TypeMismatchIssue × DatastoreIdRepairOperation))
  | [] => .ok []
  | value :: values => do
    let issue ← normalizeTypeMismatchIssue report index value
    let operation ← atManifest
      (atOperation index (buildRepairOperation index issue.key issue.payload policy))
    let rest ← planIssues report policy (index + 1) values
    .ok ((issue, operation) :: rest)

def inventoryIssueDigest (sha256 : List Char → String) (issues : List DatastoreIdInventoryIssue) :
    String :=
  "sha256:" ++ sha256 (lines (issues.map DatastoreIdInventoryIssue.toJson))

def DatastoreIdRepairPlanOptions.check (options : DatastoreIdRepairPlanOptions) (idField : String) :
    Except PlanError Unit := do
  refuse (!safeEntityId (entityIdOfText options.target)) .badTarget
  refuse (options.allowKeyMoves ≠ (options.policy == .payloadWins)) .allowKeyMoves
  refuse (options.descendantPolicy.isSome ≠ (options.policy == .payloadWins)) .descendantPolicy
  normalizeExcludeFromIndexes idField 0 [] options.excludeFromIndexes

def createDatastoreIdRepairManifest (sha256 : List Char → String)
    (report : DatastoreIdInventoryReport) (issues : List Value)
    (options : DatastoreIdRepairPlanOptions) : Except PlanError RepairManifest := do
  normalizeInventoryReport report
  options.check report.idField
  refuse (DatastoreIdInventoryClassification.all.any fun c =>
    c != .matched && c != .typeMismatch && report.counts c != 0) .otherDrift
  refuse (issues.length ≠ report.counts .typeMismatch) .issueCount
  let planned ← planIssues report options.policy 0 issues
  refuse (inventoryIssueDigest sha256 (planned.map fun plan => plan.1.issue) ≠ report.issueDigest)
    .issueDigest
  atManifest (assertRepairOperationSet (planned.map Prod.snd) options.policy)
  let contents : RepairManifestContents :=
    ⟨report.kind, report.idField, options.target, report.ns, options.policy,
      options.descendantPolicy, options.excludeFromIndexes,
      ⟨report.inventoryId, report.issueDigest, report.scanned, report.pages, report.counts .matched,
        report.counts .typeMismatch⟩, planned.map Prod.snd⟩
  .ok ⟨contents, repairManifestDigest sha256 contents⟩

end ActiveTs.Datastore
