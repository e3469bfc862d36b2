import ActiveTs.Datastore.RepairManifest
import ActiveTs.Lib.JsonRecord
import ActiveTs.Sql.Rows

/-! # The inventory of a kind's IDs

The scan reads the entities of a kind page by page, and compares the ID field of each with the last
part of its key. What does not match becomes an issue, whose JSON is a line of the text that the
report has a digest of. Cutting the scan into other pages changes nothing but their number. -/

namespace ActiveTs.Datastore

open ActiveTs.Outbox (EntityId)
open ActiveTs.Sql (safeFieldPath)
open JsonText (Value integer string record lines)

/-! ## Entities -/

inductive SdkKeyId
  | number (value : JsNumber)
  | text (value : String)

/-- One key object of the SDK; its parent comes next in a chain. -/
structure SdkKeyPart where
  kind : String
  name : Option String
  id : Option SdkKeyId

/-- The ID field as an own property. -/
inductive IdProperty
  | missing
  | string (value : String)
  | number (value : JsNumber)
  /-- An accessor, a hidden property, or a value that is no string or number, with its type. -/
  | other (actualType : String)

structure InventoryEntity where
  /-- The key and its parents. -/
  chain : List SdkKeyPart
  ns : Option String
  idProperty : IdProperty

/-- One answer of the query, and whether and where it goes on. -/
structure InventoryPage where
  entities : List InventoryEntity
  cursor : Option String

inductive InventoryError
  | badOptions
  | keyKind
  | keyNameAndId
  | keyName
  | keyId (error : KeyError)
  | incompleteKey
  | leafKind
  | badNamespace
  | namespaceMismatch
  | badCursor
  | repeatedCursor
  /-- The query gave no further page. -/
  | noPage
  deriving DecidableEq

structure InventoryOptions where
  kind : String
  idField : String
  ns : Option String

def safeTopLevelField (field : String) : Bool := safeFieldPath field && !field.toList.contains '.'

/-- The checks of `normalizeDatastoreIdInventoryOptions` on what the scan uses. -/
def InventoryOptions.safe (options : InventoryOptions) : Bool :=
  safeKind options.kind && safeTopLevelField options.idField && safeNamespace options.ns

/-! ## Keys -/

def entityNumber (value : JsNumber) : Except KeyError EntityId :=
  match JsonText.safeInteger? value with
  | none => .error .unsafeEntityId
  | some n => .ok (.number n)

def numericId : SdkKeyId → Except KeyError EntityId
  | .number value => do
    let id ← entityNumber value
    assertNativeDatastoreEntityId id
    .ok id
  | .text value => datastoreEntityIdFromNativeNumeric value

/-- `String(id)`, where an int64 is its decimal text. -/
def idText : EntityId → String
  | .string value => value
  | .number value => toString value
  | .datastoreInt64 value => value

/-- `assertSafeSchemaIdentifier`. -/
def schemaIdentifier (name : String) : Bool :=
  name.toList.head?.any letter &&
    name.toList.all (fun c => letter c || ('0' ≤ c && c ≤ '9') || c == '_' || c == '-') &&
    name != "constructor" && name != "prototype"

/-- The error of a kind that active-ts cannot have. -/
def unsupportedKind (context kind : String) : Option String :=
  if !schemaIdentifier kind then
    some (context ++ ".kind \"" ++ kind ++ "\" is not allowed. Use letters, numbers, \"_\" or \"-\", " ++
      "starting with a letter.")
  else if 63 < kind.utf8ByteSize then some (context ++ ".kind \"" ++ kind ++ "\" is too long.")
  else none

/-- A name that is not empty and has no null byte can only be too long. -/
def unsupportedName (context name : String) : Option String :=
  match assertNativeDatastoreEntityId (entityIdOfText name) with
  | .error _ => some (context ++ ".name is too long.")
  | .ok () => none

def emptyOrNull (text : String) : Bool := text = "" || text.toList.contains (Char.ofNat 0)

/-- One turn of the loop over a key and its parents, and what active-ts has against the part. -/
def inventoryKeyPart (context : String) (raw : SdkKeyPart) :
    Except InventoryError (DatastoreIdInventoryKeyPart × Option String) :=
  if emptyOrNull raw.kind then .error .keyKind
  else
    match raw.name, raw.id with
    | some _, some _ => .error .keyNameAndId
    | some name, none =>
      if emptyOrNull name then .error .keyName
      else
        .ok (⟨raw.kind, .name, name⟩,
          (unsupportedKind context raw.kind).or (unsupportedName context name))
    | none, some id =>
      match numericId id with
      | .error error => .error (.keyId error)
      | .ok id => .ok (⟨raw.kind, .id, idText id⟩, unsupportedKind context raw.kind)
    | none, none => .error .incompleteKey

/-- The path ends with the key itself, and the first thing to say is about it. -/
def inventoryPath (context : String) (index : Nat) :
    List SdkKeyPart → Except InventoryError (List DatastoreIdInventoryKeyPart × Option String)
  | [] => .ok ([], none)
  | raw :: chain => do
    let part ← inventoryKeyPart (context ++ " SDK key part[" ++ toString index ++ "]") raw
    let parents ← inventoryPath context (index + 1) chain
    .ok (parents.1 ++ [part.1], part.2.or parents.2)

structure ParsedDatastoreIdInventoryKey where
  key : DatastoreIdInventoryKey
  leaf : DatastoreIdInventoryKeyPart
  /-- `none` when active-ts can have the key. -/
  unsupportedReason : Option String

def datastoreIdInventoryKey (options : InventoryOptions) (context : String)
    (entity : InventoryEntity) : Except InventoryError ParsedDatastoreIdInventoryKey := do
  let path ← inventoryPath context 0 entity.chain
  match path.1.getLast? with
  | none => .error .leafKind
  | some leaf =>
    if leaf.kind ≠ options.kind then .error .leafKind
    else if !safeNamespace entity.ns then .error .badNamespace
    else if entity.ns ≠ options.ns then .error .namespaceMismatch
    else .ok ⟨⟨entity.ns, path.1⟩, leaf, path.2⟩

/-! ## Payloads -/

inductive DatastoreIdInventoryPayload
  | missing
  | invalid (actualType : String)
  | id (payload : DatastoreIdRepairPayload)
  deriving DecidableEq

def datastoreIdInventoryPayload : IdProperty → DatastoreIdInventoryPayload
  | .missing => .missing
  | .other actualType => .invalid actualType
  | .string value =>
    if safeEntityId (entityIdOfText value) then .id (repairPayloadForId (entityIdOfText value))
    else .invalid "string"
  | .number value =>
    match JsonText.safeInteger? value with
    | none => .invalid "number"
    | some n => .id (.number n)

/-! ## Classification -/

inductive DatastoreIdInventoryClassification
  | matched
  | typeMismatch
  | valueMismatch
  | missingPayloadId
  | invalidPayloadId
  | unsupportedKey
  deriving DecidableEq

namespace DatastoreIdInventoryClassification

def all : List DatastoreIdInventoryClassification :=
  [matched, typeMismatch, valueMismatch, missingPayloadId, invalidPayloadId, unsupportedKey]

def text : DatastoreIdInventoryClassification → String
  | matched => "match"
  | typeMismatch => "type-mismatch"
  | valueMismatch => "value-mismatch"
  | missingPayloadId => "missing-payload-id"
  | invalidPayloadId => "invalid-payload-id"
  | unsupportedKey => "unsupported-key"

end DatastoreIdInventoryClassification

def classifyDatastoreIdInventory (parsed : ParsedDatastoreIdInventoryKey)
    (payload : DatastoreIdInventoryPayload) (idField : String) :
    Except KeyError (DatastoreIdInventoryClassification × String) :=
  match parsed.unsupportedReason, payload with
  | some reason, _ => .ok (.unsupportedKey, reason)
  | none, .missing => .ok (.missingPayloadId, "Payload field \"" ++ idField ++ "\" is missing.")
  | none, .invalid _ =>
    .ok (.invalidPayloadId,
      "Payload field \"" ++ idField ++ "\" is not a valid string or safe-integer entity ID.")
  | none, .id payload => do
    let expectedId ← parsed.leaf.entityId
    if payload.text ≠ parsed.leaf.value then
      .ok (.valueMismatch,
        "Physical key and payload field \"" ++ idField ++ "\" have different values.")
    else if !payload.sameType expectedId then
      .ok (.typeMismatch,
        "Physical key and payload field \"" ++ idField ++
          "\" have matching text but different ID types.")
    else .ok (.matched, "")

/-- What the scan finds out about an entity. -/
structure InventoryRow where
  key : DatastoreIdInventoryKey
  payload : DatastoreIdInventoryPayload
  classification : DatastoreIdInventoryClassification
  reason : String

def inventoryRow (options : InventoryOptions) (index : Nat) (entity : InventoryEntity) :
    Except InventoryError InventoryRow := do
  let parsed ← datastoreIdInventoryKey options
    ("Datastore ID inventory entity[" ++ toString index ++ "]") entity
  let payload := datastoreIdInventoryPayload entity.idProperty
  match classifyDatastoreIdInventory parsed payload options.idField with
  | .error error => .error (.keyId error)
  | .ok classified => .ok ⟨parsed.key, payload, classified.1, classified.2⟩

/-! ## Issues -/

structure DatastoreIdInventoryIssue where
  inventoryId : String
  issueIndex : Nat
  classification : DatastoreIdInventoryClassification
  key : DatastoreIdInventoryKey
  payload : DatastoreIdInventoryPayload
  reason : Utf16.Units

def KeyStorage.text : KeyStorage → String
  | id => "id"
  | name => "name"

def DatastoreIdInventoryKeyPart.toJson (part : DatastoreIdInventoryKeyPart) : Value :=
  record [("kind", string part.kind), ("storage", string part.storage.text),
    ("value", string part.value)]

def DatastoreIdInventoryKey.toJson (key : DatastoreIdInventoryKey) : Value :=
  record [("path", Value.array (key.path.map DatastoreIdInventoryKeyPart.toJson)),
    ("namespace", key.ns.map string)]

def DatastoreIdRepairPayload.toJson : DatastoreIdRepairPayload → Value
  | string value => record [("type", JsonText.string "string"), ("value", JsonText.string value)]
  | number value => record [("type", JsonText.string "number"), ("value", integer value)]
  | int64 value => record [("type", JsonText.string "int64"), ("value", JsonText.string value)]

def DatastoreIdInventoryPayload.toJson : DatastoreIdInventoryPayload → Value
  | missing => record [("type", string "missing")]
  | invalid actualType => record [("type", string "invalid"), ("actualType", string actualType)]
  | id payload => payload.toJson

def DatastoreIdInventoryIssue.toJson (issue : DatastoreIdInventoryIssue) : Value :=
  record [("inventoryId", string issue.inventoryId), ("issueIndex", integer issue.issueIndex),
    ("classification", string issue.classification.text), ("key", issue.key.toJson),
    ("payload", issue.payload.toJson), ("reason", Value.string issue.reason)]

/-! ## The scan -/

structure InventoryScan where
  issues : List DatastoreIdInventoryIssue
  counts : DatastoreIdInventoryClassification → Nat
  scanned : Nat
  pages : Nat
  /-- What the hash was updated with. -/
  hashed : List Char

structure DatastoreIdInventoryReport where
  inventoryId : String
  issueDigest : String
  kind : String
  idField : String
  ns : Option String
  scanned : Nat
  pages : Nat
  counts : DatastoreIdInventoryClassification → Nat

def InventoryRow.issue (row : InventoryRow) (inventoryId : String) (issueIndex : Nat) :
    DatastoreIdInventoryIssue :=
  ⟨inventoryId, issueIndex, row.classification, row.key, row.payload, Utf16.ofString row.reason⟩

def InventoryScan.add (inventoryId : String) (scan : InventoryScan) (row : InventoryRow) :
    InventoryScan :=
  let counted : InventoryScan :=
    { scan with
      counts := fun c => if c = row.classification then scan.counts c + 1 else scan.counts c
      scanned := scan.scanned + 1 }
  if row.classification = .matched then counted
  else
    let issue := row.issue inventoryId scan.issues.length
    { counted with
      issues := scan.issues ++ [issue]
      hashed := scan.hashed ++ (JsonText.text issue.toJson ++ ['\n']) }

/-- The loop over the entities of a page. -/
def scanEntities (options : InventoryOptions) (inventoryId : String) (index : Nat) :
    List InventoryEntity → InventoryScan → Except InventoryError InventoryScan
  | [], scan => .ok scan
  | entity :: entities, scan => do
    let row ← inventoryRow options index entity
    scanEntities options inventoryId (index + 1) entities (scan.add inventoryId row)

def safeCursor (cursor : String) : Bool :=
  cursor != "" && (Utf16.ofString cursor).length ≤ 4096 && !cursor.toList.contains (Char.ofNat 0)

/-- The loop over the pages. The emulator repeats its terminal cursor with an empty page. -/
def scanPages (options : InventoryOptions) (inventoryId : String) (seenCursors : List String) :
    List InventoryPage → InventoryScan → Except InventoryError InventoryScan
  | [], _ => .error .noPage
  | page :: pages, scan =>
    let scan := { scan with pages := scan.pages + 1 }
    match page.cursor with
    | none => scanEntities options inventoryId 0 page.entities scan
    | some cursor =>
      if !safeCursor cursor then .error .badCursor
      else if cursor ∈ seenCursors then
        if page.entities.isEmpty then .ok scan else .error .repeatedCursor
      else do
        let scan ← scanEntities options inventoryId 0 page.entities scan
        scanPages options inventoryId (cursor :: seenCursors) pages scan

/-- The report, and the issues that were handed out on the way. -/
def inventoryDatastoreIds (sha256 : List Char → String) (options : InventoryOptions)
    (inventoryId : String) (pages : List InventoryPage) :
    Except InventoryError (DatastoreIdInventoryReport × List DatastoreIdInventoryIssue) :=
  if !options.safe then .error .badOptions
  else do
    let scan ← scanPages options inventoryId [] pages ⟨[], fun _ => 0, 0, 0, []⟩
    .ok (⟨inventoryId, "sha256:" ++ sha256 scan.hashed, options.kind, options.idField, options.ns,
      scan.scanned, scan.pages, scan.counts⟩, scan.issues)

end ActiveTs.Datastore
