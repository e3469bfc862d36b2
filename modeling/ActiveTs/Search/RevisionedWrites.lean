import ActiveTs.EntityIds.DatastoreKeys
import ActiveTs.Lib.JsTable
import ActiveTs.Lib.Registers
import ActiveTs.Query.Cursors

/-! # Revisioned search writes

The memory adapter keeps a map of revisions beside its documents. The Elasticsearch and OpenSearch adapter
writes with external versions, stores a tombstone for a delete and takes a version conflict for success. -/

namespace ActiveTs.Search

open Utf16 (Units ofString)
open EntityIds (EntityId assertSafeEntityId byteLength SAFE_SCHEMA_IDENTIFIER)
open Query.Cursors (assertSafeFieldPath dot)

/-! ## Models and documents -/

structure SearchIndexMeta where
  adapter : Option Units
  fields : List Units

/-- `ResolvedModelMeta`. -/
structure SearchModel where
  name : Units
  idField : Units
  searchIndexes : List SearchIndexMeta
  /-- `datastore.ancestorFields`. -/
  ancestorFields : List Units
  datastoreSearchScope : Option Units
  searchDocumentIdentity : Option Units

namespace SearchModel

def searchIndexesForAdapter (model : SearchModel) (adapter : Units) : List SearchIndexMeta :=
  model.searchIndexes.filter fun index => index.adapter.all (· = adapter)

def searchFieldsForAdapter (model : SearchModel) (adapter : Units) : List Units :=
  ((model.searchIndexesForAdapter adapter).flatMap SearchIndexMeta.fields).eraseDups

def searchProjectionFieldsForAdapter (model : SearchModel) (adapter : Units) : List Units :=
  (model.searchFieldsForAdapter adapter ++ model.ancestorFields).eraseDups

end SearchModel

/-- The paths that `setPath` wrote, with their values. -/
abbrev Document (V : Type) := List (Units × V)

/-- What the adapters share, of data `D` with values `V`. -/
structure Shared (D V : Type) where
  /-- `snapshotSearchAdapterModel` accepts the model for an adapter of this kind. -/
  snapshotSearchAdapterModel : Units → SearchModel → Bool
  /-- `none` where it throws. No data is given for a delete. -/
  searchDocumentIdentity : SearchModel → EntityId → Option D → Option Units
  /-- The id of the data, or the indexed id; `none` where they differ or are unsafe. -/
  documentId : SearchModel → EntityId → D → Option V
  searchProjectionValue : D → Units → Option V
  /-- `applyFieldTypeTransforms` at a path, `none` where it throws. -/
  writeTransform : SearchModel → Units → V → Option V
  /-- `assertPortableStoredData`. -/
  portable : Document V → Bool
  /-- `cloneJsonTransportPayload`. -/
  transportable : Document V → Bool
  /-- The value `true`. -/
  jsTrue : V
  toLowerCase : Units → Units

def MAX_SAFE_INTEGER : Nat := 9007199254740991

/-- `normalizeSearchWriteOptions`: a revision is a positive safe integer. -/
def normalizeSearchWriteOptions (revision : Option Nat) : Option (Option Nat) :=
  if revision.all fun revision => 0 < revision && revision ≤ MAX_SAFE_INTEGER then some revision else none

section
variable {D V : Type} (cfg : Shared D V)

def projectSearchDocument (model : SearchModel) (adapter : Units) (id : EntityId) (data : D) :
    Option (Document V) := do
  let documentId ← cfg.documentId model id data
  let fields := model.searchProjectionFieldsForAdapter adapter
  let projected := (model.idField, documentId) ::
    fields.filterMap fun field => (cfg.searchProjectionValue data field).map (field, ·)
  let normalized ← projected.mapM fun field =>
    (cfg.writeTransform model field.1 field.2).map (field.1, ·)
  if cfg.portable normalized then some normalized else none

/-! ## The memory adapter -/

/-- A stored document with its scope. -/
structure IndexedDocument (V : Type) where
  document : Document V
  scope : Option Units

/-- Documents and revisions, by the name of the model and the identity of the document. -/
structure MemorySearchAdapter (V : Type) where
  indexes : JsTable Units Units (IndexedDocument V)
  revisions : JsTable Units Units Nat

namespace MemorySearchAdapter

def kind : Units := ofString "memory"

def empty : MemorySearchAdapter V := ⟨.empty, .empty⟩

/-- The state after `acceptRevision`, `none` where the revision is turned down. -/
def acceptRevision (adapter : MemorySearchAdapter V) (address : Units × Units) (revision : Option Nat) :
    Option (MemorySearchAdapter V) :=
  match revision with
  | none => some adapter
  | some revision =>
    if (adapter.revisions.at? address).any (revision ≤ ·) then none
    else some { adapter with revisions := adapter.revisions.put address revision }

/-- A call that throws gives `none`; it has changed nothing. -/
def index (adapter : MemorySearchAdapter V) (model : SearchModel) (id : EntityId) (data : D)
    (revision : Option Nat) : Option (MemorySearchAdapter V) := do
  if cfg.snapshotSearchAdapterModel kind model then
    let revision ← normalizeSearchWriteOptions revision
    let key ← cfg.searchDocumentIdentity model id (some data)
    let document ← projectSearchDocument cfg model kind id data
    match adapter.acceptRevision (model.name, key) revision with
    | none => return adapter
    | some accepted =>
      return { accepted with
        indexes := accepted.indexes.put (model.name, key) ⟨document, model.datastoreSearchScope⟩ }
  else none

def delete (adapter : MemorySearchAdapter V) (model : SearchModel) (id : EntityId)
    (revision : Option Nat) : Option (MemorySearchAdapter V) := do
  if cfg.snapshotSearchAdapterModel kind model then
    (assertSafeEntityId id).toOption
    let revision ← normalizeSearchWriteOptions revision
    let key ← cfg.searchDocumentIdentity model id none
    match adapter.acceptRevision (model.name, key) revision with
    | none => return adapter
    | some accepted => return { accepted with indexes := accepted.indexes.remove (model.name, key) }
  else none

/-- `search`: `documentMatches` is the comparison with the query text, `filterRows` the filter. -/
def search (adapter : MemorySearchAdapter V) (model : SearchModel)
    (documentMatches : Document V → List Units → Bool) (filterRows : Document V → Bool)
    (limit : Option Nat) : List (Document V) :=
  let fields := model.searchFieldsForAdapter kind
  if fields = [] then []
  else
    let items := (adapter.indexes.inner model.name).entries.filter fun item =>
      item.2.scope = model.datastoreSearchScope && model.searchDocumentIdentity.all (item.1 = ·) &&
        documentMatches item.2.document fields
    let list := (items.map fun item => item.2.document).filter filterRows
    limit.elim list list.take

end MemorySearchAdapter

/-! ## The Elasticsearch index -/

/-- A stored document with its version. -/
structure StoredDocument (V : Type) where
  source : Document V
  version : Nat

/-- Documents by index name and `_id`. -/
abbrev Elasticsearch (V : Type) := JsTable Units Units (StoredDocument V)

inductive ClientError
  | versionConflict
  | missingDocument
  deriving DecidableEq

namespace Elasticsearch

/-- `client.index`; with a version it is external versioning. -/
def index (backend : Elasticsearch V) (address : Units × Units) (version : Option Nat)
    (document : Document V) : Except ClientError (Elasticsearch V) :=
  match version with
  | none =>
    .ok (backend.put address ⟨document, (backend.at? address).elim 1 (·.version + 1)⟩)
  | some version =>
    if (backend.at? address).any (version ≤ ·.version) then .error .versionConflict
    else .ok (backend.put address ⟨document, version⟩)

def delete (backend : Elasticsearch V) (address : Units × Units) :
    Except ClientError (Elasticsearch V) :=
  if backend.contains address then .ok (backend.remove address) else .error .missingDocument

end Elasticsearch

/-! ## The Elasticsearch adapter -/

def ELASTICSEARCH_INDEX_MAX_BYTES : Nat := 255
def ELASTICSEARCH_ID_MAX_BYTES : Nat := 512
def ELASTICSEARCH_TOMBSTONE_FIELD : Units := ofString "active_ts_deleted"

def ELASTICSEARCH_RESERVED_PROJECTION_FIELD_NAMES : List Units :=
  ["_id", "_source", "_index", "_score", "_type", "_routing", "_seq_no", "_primary_term", "_version",
    "_ignored"].map ofString ++ [ELASTICSEARCH_TOMBSTONE_FIELD]

def MAX_CACHE_KEY_BYTES : Nat := 4096

/-- `assertSafeCacheKey`. -/
def safeCacheKey (key : Units) : Bool :=
  !key.isEmpty && byteLength key ≤ MAX_CACHE_KEY_BYTES && !key.contains 0

/-- `assertSafeElasticsearchProjectionField`. -/
def safeElasticsearchProjectionField (field : Units) : Bool :=
  (assertSafeFieldPath field).isOk &&
    !ELASTICSEARCH_RESERVED_PROJECTION_FIELD_NAMES.contains (field.takeWhile (· ≠ dot))

/-- `/[\s,\\/*?"<>|#]/` -/
def unsafeIndexUnit (unit : Fin 65536) : Bool :=
  JsNumber.whitespace (Char.ofNat unit.1) || (ofString ",\\/*?\"<>|#").contains unit

/-- `/^[-_+]/` -/
def unsafeIndexStart (index : Units) : Bool := index.head?.any (ofString "-_+").contains

/-- `assertSafeElasticsearchIndexName`. -/
def safeElasticsearchIndexName (toLowerCase : Units → Units) (index : Units) : Bool :=
  !(index.isEmpty || index = ofString "." || index = ofString ".." || index ≠ toLowerCase index ||
      index.any unsafeIndexUnit || unsafeIndexStart index) &&
    byteLength index ≤ ELASTICSEARCH_INDEX_MAX_BYTES

structure ElasticsearchOptions where
  /-- `elasticsearch` or `opensearch`. -/
  adapterKind : Units
  indexPrefix : Option Units
  requireRevisionWrites : Bool

namespace ElasticsearchOptions

variable (options : ElasticsearchOptions)

def indexText (name : Units) : Units := options.indexPrefix.getD [] ++ name

def indexName (name : Units) : Option Units :=
  if SAFE_SCHEMA_IDENTIFIER name &&
      safeElasticsearchIndexName cfg.toLowerCase (options.indexText name) then
    some (options.indexText name)
  else none

/-- `assertElasticsearchRevisionWrite`. -/
def revisionWrite (revision : Option Nat) : Bool := !options.requireRevisionWrites || revision.isSome

def elasticsearchDocumentId (identity : Units) : Option Units :=
  if safeCacheKey identity && byteLength identity ≤ ELASTICSEARCH_ID_MAX_BYTES then some identity
  else none

/-- The checks of the id field, `elasticsearchSearchFields` and `elasticsearchProjectionFields`. -/
def safeFields (model : SearchModel) : Bool :=
  safeElasticsearchProjectionField model.idField &&
    (model.searchFieldsForAdapter options.adapterKind).all safeElasticsearchProjectionField &&
      (model.searchProjectionFieldsForAdapter options.adapterKind).all safeElasticsearchProjectionField

/-- `catch`: a conflict of a revisioned write is a success. -/
def catchConflict (backend : Elasticsearch V) (revision : Option Nat) :
    Except ClientError (Elasticsearch V) → Option (Elasticsearch V)
  | .ok written => some written
  | .error .versionConflict => if revision.isSome then some backend else none
  | .error .missingDocument => none

/-- A call that throws gives `none`; it has changed nothing. -/
def index (backend : Elasticsearch V) (model : SearchModel) (id : EntityId) (data : D)
    (revision : Option Nat) : Option (Elasticsearch V) := do
  if cfg.snapshotSearchAdapterModel options.adapterKind model then
    let revision ← normalizeSearchWriteOptions revision
    if options.revisionWrite revision && options.safeFields model then
      let identity ← cfg.searchDocumentIdentity model id (some data)
      let documentId ← elasticsearchDocumentId identity
      let name ← options.indexName cfg model.name
      let document ← projectSearchDocument cfg model options.adapterKind id data
      if cfg.transportable document then
        catchConflict backend revision (backend.index (name, documentId) revision document)
      else none
    else none
  else none

def tombstone : Document V := [(ELASTICSEARCH_TOMBSTONE_FIELD, cfg.jsTrue)]

def delete (backend : Elasticsearch V) (model : SearchModel) (id : EntityId)
    (revision : Option Nat) : Option (Elasticsearch V) := do
  if cfg.snapshotSearchAdapterModel options.adapterKind model then
    let revision ← normalizeSearchWriteOptions revision
    if options.revisionWrite revision then
      let identity ← cfg.searchDocumentIdentity model id none
      let documentId ← elasticsearchDocumentId identity
      let name ← options.indexName cfg model.name
      match revision with
      | some revision =>
        catchConflict backend (some revision)
          (backend.index (name, documentId) (some revision) (tombstone cfg))
      | none =>
        match backend.delete (name, documentId) with
        | .ok deleted => return deleted
        | .error .missingDocument => return backend
        | .error .versionConflict => none
    else none
  else none

end ElasticsearchOptions

/-! ## Searches of the Elasticsearch index -/

/-- The own fields of a native body that the adapter reads. A query or a filter is what it selects. -/
structure NativeBody (V : Type) where
  query : Option (Document V → Bool)
  hasSource : Bool
  /-- `size`, `from` or `search_after`. -/
  hasPagination : Bool
  postFilter : Option (Document V → Bool)

structure SearchBody (V : Type) where
  query : Document V → Bool
  postFilter : Option (Document V → Bool)

/-- A `term` query: the field has the value. -/
def term [DecidableEq V] (field : Units) (value : V) (source : Document V) : Bool :=
  source.contains (field, value)

variable [DecidableEq V]

def withElasticsearchLiveDocumentFilter (body : SearchBody V) : SearchBody V :=
  { body with
    postFilter := some fun source =>
      body.postFilter.all (· source) && !term ELASTICSEARCH_TOMBSTONE_FIELD cfg.jsTrue source }

/-- `textBody` is the `multi_match` of the query text on the fields. -/
def elasticsearchSearchBody (native : Option (NativeBody V)) (textBody : Document V → Bool)
    (fields : List Units) (hasLimit : Bool) : Option (SearchBody V) :=
  match native with
  | none => some (withElasticsearchLiveDocumentFilter cfg ⟨textBody, none⟩)
  | some native =>
    if fields ≠ [] then
      if native.query.isSome || native.hasSource || native.hasPagination then none
      else some (withElasticsearchLiveDocumentFilter cfg ⟨textBody, native.postFilter⟩)
    else if hasLimit && native.hasPagination then none
    else
      some (withElasticsearchLiveDocumentFilter cfg
        ⟨native.query.getD fun _ => true, native.postFilter⟩)

/-- The hits of a response: in any order and of any number, documents of the index that the query and
the filter select. -/
def Elasticsearch.Hits (backend : Elasticsearch V) (name : Units) (body : SearchBody V)
    (hits : List (Units × Document V)) : Prop :=
  ∀ hit ∈ hits, ∃ version, backend.at? (name, hit.1) = some ⟨hit.2, version⟩ ∧
    body.query hit.2 = true ∧ body.postFilter.all (· hit.2) = true

/-! ## Deliveries -/

/-- An index call, or a delete call when there is no data. -/
structure SearchCall (D : Type) where
  model : SearchModel
  id : EntityId
  data : Option D
  revision : Nat

/-- The document that the call is about. -/
def SearchCall.address (call : SearchCall D) : Option (Units × Units) :=
  (cfg.searchDocumentIdentity call.model call.id call.data).map (call.model.name, ·)

namespace MemorySearchAdapter

def perform (adapter : MemorySearchAdapter V) (call : SearchCall D) : Option (MemorySearchAdapter V) :=
  match call.data with
  | some data => adapter.index cfg call.model call.id data (some call.revision)
  | none => adapter.delete cfg call.model call.id (some call.revision)

def deliver (adapter : MemorySearchAdapter V) (call : SearchCall D) : MemorySearchAdapter V :=
  (adapter.perform cfg call).getD adapter

/-- The call does not throw. -/
def accepts (call : SearchCall D) : Bool := (empty.perform cfg call).isSome

/-- The searchable documents. -/
def searchable (adapter : MemorySearchAdapter V) (address : Units × Units) : Option (Document V) :=
  (adapter.indexes.at? address).map IndexedDocument.document

end MemorySearchAdapter

namespace ElasticsearchOptions

variable (options : ElasticsearchOptions)

def perform (backend : Elasticsearch V) (call : SearchCall D) : Option (Elasticsearch V) :=
  match call.data with
  | some data => options.index cfg backend call.model call.id data (some call.revision)
  | none => options.delete cfg backend call.model call.id (some call.revision)

def deliver (backend : Elasticsearch V) (call : SearchCall D) : Elasticsearch V :=
  (options.perform cfg backend call).getD backend

/-- The call does not throw. -/
def accepts (call : SearchCall D) : Bool := (options.perform cfg JsMap.empty call).isSome

/-- The searchable documents: no filter for live documents leaves them out. -/
def searchable (backend : Elasticsearch V) (address : Units × Units) : Option (Document V) :=
  ((backend.at? (options.indexText address.1, address.2)).map StoredDocument.source).filter fun source =>
    (withElasticsearchLiveDocumentFilter cfg ⟨fun _ => true, none⟩).postFilter.all (· source)

end ElasticsearchOptions
end

end ActiveTs.Search
