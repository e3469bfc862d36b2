import ActiveTs.Search.RevisionedWrites

/-! # Search writes converge

Both adapters keep a register for every document. They end with the newest of the writes that they accept,
whatever the order of the deliveries. -/

namespace ActiveTs.Search

open Utf16 (Units ofString)
open EntityIds (EntityId assertSafeEntityId byteLength SAFE_SCHEMA_IDENTIFIER)
open Query.Cursors (assertSafeFieldPath dot)

theorem normalizeSearchWriteOptions_cases (revision : Nat) :
    normalizeSearchWriteOptions (some revision) = none ∨
      normalizeSearchWriteOptions (some revision) = some (some revision) := by
  unfold normalizeSearchWriteOptions
  split
  · exact .inr rfl
  · exact .inl rfl

section
variable {D V : Type} (cfg : Shared D V)

/-- The document that the call leaves, for an adapter of this kind. -/
def SearchCall.document (kind : Units) (call : SearchCall D) : Option (Document V) :=
  call.data.bind (projectSearchDocument cfg call.model kind call.id)

/-- The document of the call, when the call is accepted. -/
def SearchCall.key (accepts : SearchCall D → Bool) (call : SearchCall D) : Option (Units × Units) :=
  if accepts call then call.address cfg else none

/-- The calls about a document that an adapter accepts. -/
def accepted (accepts : SearchCall D → Bool) (writes : List (SearchCall D)) (address : Units × Units) :
    List (SearchCall D) :=
  writes.filter fun call => call.key cfg accepts = some address

/-- Every document is that of its newest accepted write, and absent when this write is a delete or there
is none. -/
structure EndsWith (kind : Units) (accepts : SearchCall D → Bool) (writes : List (SearchCall D))
    (searchable : Units × Units → Option (Document V)) : Prop where
  indexed : ∀ {address call data}, Registers.Newest SearchCall.revision (accepted cfg accepts writes address) call →
    call.data = some data → ∃ document, projectSearchDocument cfg call.model kind call.id data = some document ∧
      searchable address = some document
  deleted : ∀ {address call}, Registers.Newest SearchCall.revision (accepted cfg accepts writes address) call →
    call.data = none → searchable address = none
  untouched : ∀ {address}, accepted cfg accepts writes address = [] → searchable address = none

variable {cfg} in
theorem SearchCall.key_eq_some {accepts : SearchCall D → Bool} {call : SearchCall D}
    {address : Units × Units} :
    call.key cfg accepts = some address ↔ accepts call = true ∧ call.address cfg = some address := by
  unfold SearchCall.key
  split
  · next h => simp [h]
  · next h => simp [h]

theorem mem_accepted {accepts : SearchCall D → Bool} {writes : List (SearchCall D)}
    {address : Units × Units} {call : SearchCall D} :
    call ∈ accepted cfg accepts writes address ↔
      call ∈ writes ∧ accepts call = true ∧ call.address cfg = some address := by
  rw [accepted, List.mem_filter, decide_eq_true_iff, SearchCall.key_eq_some]

/-- An adapter that keeps a register for every document ends with the newest writes. -/
theorem EndsWith.of_keeps {S : Type} {kind : Units} {accepts : SearchCall D → Bool}
    {deliver : S → SearchCall D → S} {searchable : S → Units × Units → Option (Document V)}
    {Shows : S → Units × Units → Option (SearchCall D) → Prop}
    (hkeeps : Registers.Keeps SearchCall.revision (SearchCall.key cfg accepts) deliver Shows)
    (hshows : ∀ {s address held}, Shows s address held →
      searchable s address = held.bind (SearchCall.document cfg kind))
    (hdocument : ∀ call data, accepts call = true → call.data = some data →
      ∃ document, projectSearchDocument cfg call.model kind call.id data = some document)
    {empty : S} (hempty : ∀ address, Shows empty address none) {writes delivered : List (SearchCall D)}
    (hsame : ∀ call, call ∈ delivered ↔ call ∈ writes)
    (hdistinct : ∀ a ∈ writes, ∀ b ∈ writes, ∀ address, a.address cfg = some address →
      b.address cfg = some address → a.revision = b.revision → a = b) :
    EndsWith cfg kind accepts writes (searchable (delivered.foldl deliver empty)) := by
  have hnewest : ∀ {address call},
      Registers.Newest SearchCall.revision (accepted cfg accepts writes address) call →
      searchable (delivered.foldl deliver empty) address = call.document cfg kind := by
    intro address call hcall
    have hend := hkeeps.shows_newest (hempty address) hsame
      (fun a ha b hb hka hkb => hdistinct a ha b hb address (SearchCall.key_eq_some.mp hka).2
        (SearchCall.key_eq_some.mp hkb).2) hcall
    rw [hshows hend, Option.bind_some]
  refine ⟨fun {address call data} hcall hdata => ?_, fun {address call} hcall hdata => ?_,
    fun {address} hnone => ?_⟩
  · obtain ⟨-, haccepts, -⟩ := (mem_accepted cfg).mp hcall.mem
    obtain ⟨document, hproject⟩ := hdocument call data haccepts hdata
    refine ⟨document, hproject, ?_⟩
    rw [hnewest hcall, SearchCall.document, hdata, Option.bind_some, hproject]
  · rw [hnewest hcall, SearchCall.document, hdata, Option.bind_none]
  · have hfree : ∀ call ∈ writes, call.key cfg accepts ≠ some address := by
      intro call hcall hkey
      have hmem : call ∈ accepted cfg accepts writes address :=
        List.mem_filter.mpr ⟨hcall, decide_eq_true hkey⟩
      rw [hnone] at hmem
      exact List.not_mem_nil hmem
    rw [hshows (hkeeps.shows_none (hempty address) hsame hfree), Option.bind_none]

end

/-! ## The memory adapter -/

namespace MemorySearchAdapter

section
variable {V : Type}

/-- What a call does that passes the checks. -/
def write (adapter : MemorySearchAdapter V) (address : Units × Units) (revision : Nat)
    (content : Option (IndexedDocument V)) : MemorySearchAdapter V :=
  if (adapter.revisions.at? address).any (revision ≤ ·) then adapter
  else
    { revisions := adapter.revisions.put address revision
      indexes := content.elim (adapter.indexes.remove address) (adapter.indexes.put address) }

theorem at?_revisions_write (adapter : MemorySearchAdapter V) (address other : Units × Units)
    (revision : Nat) (content : Option (IndexedDocument V)) :
    (adapter.write address revision content).revisions.at? other =
      if address = other ∧ ¬(adapter.revisions.at? address).any (revision ≤ ·) = true then some revision
      else adapter.revisions.at? other := by
  unfold write
  split
  · next h => simp [h]
  · next h => simp [h, JsTable.at?_put]

theorem at?_indexes_write (adapter : MemorySearchAdapter V) (address other : Units × Units)
    (revision : Nat) (content : Option (IndexedDocument V)) :
    (adapter.write address revision content).indexes.at? other =
      if address = other ∧ ¬(adapter.revisions.at? address).any (revision ≤ ·) = true then content
      else adapter.indexes.at? other := by
  unfold write
  split
  · next h => simp [h]
  · next h =>
    cases content with
    | none => simp [h, JsTable.at?_remove]
    | some content => simp [h, JsTable.at?_put]

end

variable {D V : Type} (cfg : Shared D V)

/-- The call passes the checks and writes this content. -/
structure Performs (call : SearchCall D) (target : Units × Units)
    (content : Option (IndexedDocument V)) : Prop where
  address : call.address cfg = some target
  document : content.map IndexedDocument.document = call.document cfg kind
  isSome : content.isSome = call.data.isSome
  perform : ∀ adapter : MemorySearchAdapter V,
    adapter.perform cfg call = some (adapter.write target call.revision content)

variable {cfg} in
theorem index_eq {adapter : MemorySearchAdapter V} {model : SearchModel} {id : EntityId} {data : D}
    {revision : Nat} {key : Units} {document : Document V}
    (hmodel : cfg.snapshotSearchAdapterModel kind model = true)
    (hrevision : normalizeSearchWriteOptions (some revision) = some (some revision))
    (hkey : cfg.searchDocumentIdentity model id (some data) = some key)
    (hdocument : projectSearchDocument cfg model kind id data = some document) :
    adapter.index cfg model id data (some revision) =
      some (adapter.write (model.name, key) revision
        (some ⟨document, model.datastoreSearchScope⟩)) := by
  simp only [index, hmodel, hrevision, hkey, hdocument, if_true, Option.bind_eq_bind, Option.bind_some,
    acceptRevision, write]
  by_cases hle : (adapter.revisions.at? (model.name, key)).any (revision ≤ ·) = true
  · rw [if_pos hle, if_pos hle]
    rfl
  · rw [if_neg hle, if_neg hle]
    rfl

variable {cfg} in
theorem delete_eq {adapter : MemorySearchAdapter V} {model : SearchModel} {id : EntityId}
    {revision : Nat} {key : Units} {valid : Unit}
    (hmodel : cfg.snapshotSearchAdapterModel kind model = true)
    (hid : (assertSafeEntityId id).toOption = some valid)
    (hrevision : normalizeSearchWriteOptions (some revision) = some (some revision))
    (hkey : cfg.searchDocumentIdentity model id none = some key) :
    adapter.delete cfg model id (some revision) =
      some (adapter.write (model.name, key) revision none) := by
  simp only [delete, hmodel, hid, hrevision, hkey, if_true, Option.bind_eq_bind, Option.bind_some,
    acceptRevision, write]
  by_cases hle : (adapter.revisions.at? (model.name, key)).any (revision ≤ ·) = true
  · rw [if_pos hle, if_pos hle]
    rfl
  · rw [if_neg hle, if_neg hle]
    rfl

theorem perform_cases (call : SearchCall D) :
    (∀ adapter : MemorySearchAdapter V, adapter.perform cfg call = none) ∨
      ∃ target content, Performs cfg call target content := by
  obtain ⟨model, id, data, revision⟩ := call
  by_cases hmodel : cfg.snapshotSearchAdapterModel kind model = true
  · rcases normalizeSearchWriteOptions_cases revision with hrevision | hrevision
    · apply Or.inl
      intro adapter
      cases data <;> simp [perform, index, delete, hmodel, hrevision]
    · cases hkey : cfg.searchDocumentIdentity model id data with
      | none =>
        apply Or.inl
        intro adapter
        cases data <;> simp [perform, index, delete, hmodel, hrevision, hkey]
      | some key =>
        cases data with
        | some data =>
          cases hdocument : projectSearchDocument cfg model kind id data with
          | none =>
            apply Or.inl
            intro adapter
            simp [perform, index, hmodel, hrevision, hkey, hdocument]
          | some document =>
            refine .inr ⟨(model.name, key), some ⟨document, model.datastoreSearchScope⟩, ⟨?_, ?_, ?_, ?_⟩⟩
            · simp [SearchCall.address, hkey]
            · simp [SearchCall.document, hdocument]
            · rfl
            · intro adapter
              exact index_eq hmodel hrevision hkey hdocument
        | none =>
          cases hid : (assertSafeEntityId id).toOption with
          | none =>
            apply Or.inl
            intro adapter
            simp [perform, delete, hmodel, hid]
          | some valid =>
            refine .inr ⟨(model.name, key), none, ⟨?_, ?_, ?_, ?_⟩⟩
            · simp [SearchCall.address, hkey]
            · rfl
            · rfl
            · intro adapter
              exact delete_eq hmodel hid hrevision hkey
  · apply Or.inl
    intro adapter
    cases data <;> simp [perform, index, delete, hmodel]

variable {cfg} in
theorem accepts_iff {call : SearchCall D} :
    accepts cfg call = true ↔ ∃ target content, Performs cfg call target content := by
  rcases perform_cases cfg call with hnone | ⟨target, content, h⟩
  · apply iff_of_false
    · simp [accepts, hnone]
    · rintro ⟨target, content, h⟩
      cases (hnone empty).symm.trans (h.perform empty)
  · apply iff_of_true
    · simp [accepts, h.perform]
    · exact ⟨target, content, h⟩

/-- The maps hold the newest write of the document. -/
structure Shows (adapter : MemorySearchAdapter V) (address : Units × Units)
    (held : Option (SearchCall D)) : Prop where
  revision : adapter.revisions.at? address = held.map SearchCall.revision
  searchable : adapter.searchable address = held.bind (SearchCall.document cfg kind)

variable {cfg} in
theorem Shows.write_of_ne {adapter : MemorySearchAdapter V} {address target : Units × Units}
    {held : Option (SearchCall D)} {revision : Nat} {content : Option (IndexedDocument V)}
    (hshows : Shows cfg adapter address held) (hne : target ≠ address) :
    Shows cfg (adapter.write target revision content) address held where
  revision := by
    rw [at?_revisions_write, if_neg fun h => hne h.1]
    exact hshows.revision
  searchable := by
    rw [MemorySearchAdapter.searchable, at?_indexes_write, if_neg fun h => hne h.1]
    exact hshows.searchable

variable {cfg} in
theorem Shows.write {adapter : MemorySearchAdapter V} {address : Units × Units}
    {held : Option (SearchCall D)} {call : SearchCall D} {content : Option (IndexedDocument V)}
    (hshows : Shows cfg adapter address held) (h : Performs cfg call address content) :
    Shows cfg (adapter.write address call.revision content) address
      (Registers.accept SearchCall.revision held call) := by
  by_cases hle : (adapter.revisions.at? address).any (call.revision ≤ ·) = true
  · -- The adapter and the register both turn the call down.
    have hkept : Registers.accept SearchCall.revision held call = held := by
      cases held with
      | none => simp [hshows.revision] at hle
      | some held =>
        rw [hshows.revision] at hle
        exact if_pos (of_decide_eq_true hle)
    rw [hkept, MemorySearchAdapter.write, if_pos hle]
    exact hshows
  · have htaken : Registers.accept SearchCall.revision held call = some call := by
      cases held with
      | none => rfl
      | some held =>
        rw [hshows.revision] at hle
        exact if_neg fun h => hle (decide_eq_true h)
    rw [htaken]
    constructor
    · rw [at?_revisions_write, if_pos ⟨rfl, hle⟩]
      rfl
    · rw [MemorySearchAdapter.searchable, at?_indexes_write, if_pos ⟨rfl, hle⟩]
      exact h.document

theorem keeps : Registers.Keeps SearchCall.revision (SearchCall.key cfg (accepts cfg)) (deliver cfg)
    (Shows cfg (V := V)) where
  step := by
    intro adapter address held hshows call
    rcases perform_cases cfg call with hnone | ⟨target, content, h⟩
    · have hkey : call.key cfg (accepts cfg) ≠ some address := by
        rw [Ne, SearchCall.key_eq_some]
        simp [accepts, hnone]
      rw [if_neg hkey, deliver, hnone, Option.getD_none]
      exact hshows
    · have haccepts : accepts cfg call = true := accepts_iff.mpr ⟨target, content, h⟩
      rw [deliver, h.perform, Option.getD_some, SearchCall.key, if_pos haccepts, h.address]
      by_cases hat : target = address
      · subst hat
        rw [if_pos rfl]
        exact hshows.write h
      · rw [if_neg fun heq => hat (Option.some.inj heq)]
        exact hshows.write_of_ne hat

theorem mem_of_mem_limit {α : Type} {a : α} {list : List α} {limit : Option Nat}
    (h : a ∈ limit.elim list list.take) : a ∈ list := by
  cases limit with
  | none => exact h
  | some limit => exact List.mem_of_mem_take h

theorem searchable_of_mem_search {adapter : MemorySearchAdapter V} {model : SearchModel}
    {documentMatches : Document V → List Units → Bool} {filterRows : Document V → Bool}
    {limit : Option Nat} {document : Document V}
    (h : document ∈ adapter.search model documentMatches filterRows limit) :
    ∃ identity, adapter.searchable (model.name, identity) = some document := by
  simp only [search] at h
  split at h
  · cases h
  · have hlist := List.mem_of_mem_filter (mem_of_mem_limit h)
    obtain ⟨item, hitem, rfl⟩ := List.mem_map.mp hlist
    refine ⟨item.1, ?_⟩
    rw [searchable, JsTable.at?, JsMap.mem_entries_iff.mp (List.mem_of_mem_filter hitem)]
    rfl

end MemorySearchAdapter

/-! ## The Elasticsearch adapter -/

/-- What `mapM` collects comes from the list. -/
theorem mem_of_mapM {α β : Type} {f : α → Option β} {list : List α} {collected : List β}
    (h : list.mapM f = some collected) {b : β} (hb : b ∈ collected) : ∃ a ∈ list, f a = some b := by
  induction list generalizing collected with
  | nil =>
    cases h
    cases hb
  | cons a list ih =>
    rw [List.mapM_cons] at h
    obtain ⟨c, hc, h⟩ := Option.bind_eq_some_iff.mp h
    obtain ⟨rest, hrest, h⟩ := Option.bind_eq_some_iff.mp h
    cases h
    rcases List.mem_cons.mp hb with rfl | hb
    · exact ⟨a, List.mem_cons_self, hc⟩
    · obtain ⟨x, hx, hfx⟩ := ih hrest hb
      exact ⟨x, List.mem_cons_of_mem a hx, hfx⟩

section
variable {D V : Type} {cfg : Shared D V}

/-- The paths of a document are the id field and the projected fields. -/
theorem path_of_mem_project {model : SearchModel} {adapter : Units} {id : EntityId} {data : D}
    {document : Document V} (h : projectSearchDocument cfg model adapter id data = some document)
    {path : Units} {value : V} (hmem : (path, value) ∈ document) :
    path = model.idField ∨ path ∈ model.searchProjectionFieldsForAdapter adapter := by
  obtain ⟨documentId, -, h⟩ := Option.bind_eq_some_iff.mp h
  obtain ⟨normalized, hnormalized, h⟩ := Option.bind_eq_some_iff.mp h
  split at h
  · cases h
    obtain ⟨field, hfield, hwrite⟩ := mem_of_mapM hnormalized hmem
    obtain ⟨written, -, heq⟩ := Option.map_eq_some_iff.mp hwrite
    cases heq
    rcases List.mem_cons.mp hfield with rfl | hfield
    · exact .inl rfl
    · obtain ⟨path, hpath, hvalue⟩ := List.mem_filterMap.mp hfield
      obtain ⟨value, -, rfl⟩ := Option.map_eq_some_iff.mp hvalue
      exact .inr hpath
  · cases h

theorem reserved_tombstone : safeElasticsearchProjectionField ELASTICSEARCH_TOMBSTONE_FIELD = false := by
  decide

end

namespace ElasticsearchOptions

section
variable {V : Type}

/-- What an accepted call does to the index. -/
def write (backend : Elasticsearch V) (address : Units × Units) (revision : Nat)
    (source : Document V) : Elasticsearch V :=
  if (backend.at? address).any (revision ≤ ·.version) then backend
  else backend.put address ⟨source, revision⟩

theorem catchConflict_index (backend : Elasticsearch V) (address : Units × Units) (revision : Nat)
    (source : Document V) :
    catchConflict backend (some revision) (backend.index address (some revision) source) =
      some (write backend address revision source) := by
  unfold write Elasticsearch.index
  by_cases hle : (backend.at? address).any (revision ≤ ·.version) = true
  · simp only [hle, if_true, catchConflict, Option.isSome_some]
  · rw [if_neg hle]
    simp only [if_neg hle, catchConflict]

end

variable {D V : Type} [DecidableEq V] (cfg : Shared D V) (options : ElasticsearchOptions)

/-- Where a document is in the index. -/
def target (address : Units × Units) : Units × Units := (options.indexText address.1, address.2)

theorem target_inj {a b : Units × Units} (h : options.target a = options.target b) : a = b := by
  obtain ⟨hname, hidentity⟩ := Prod.mk.inj h
  exact Prod.ext (List.append_cancel_left hname) hidentity

/-- The call passes the checks and writes its document, or a tombstone. -/
structure Performs (call : SearchCall D) (place : Units × Units) (written : Document V) : Prop where
  address : call.address cfg = some place
  source : written = (call.document cfg options.adapterKind).getD (tombstone cfg)
  isSome : (call.document cfg options.adapterKind).isSome = call.data.isSome
  live : ∀ document, call.document cfg options.adapterKind = some document →
    term ELASTICSEARCH_TOMBSTONE_FIELD cfg.jsTrue document = false
  perform : ∀ backend : Elasticsearch V, options.perform cfg backend call =
    some (write backend (options.target place) call.revision written)

variable {cfg options}

theorem elasticsearchDocumentId_cases (identity : Units) :
    elasticsearchDocumentId identity = none ∨ elasticsearchDocumentId identity = some identity := by
  unfold elasticsearchDocumentId
  split
  · exact .inr rfl
  · exact .inl rfl

omit [DecidableEq V] in
theorem indexName_cases (name : Units) :
    options.indexName cfg name = none ∨ options.indexName cfg name = some (options.indexText name) := by
  unfold indexName
  split
  · exact .inr rfl
  · exact .inl rfl

/-- A document with safe fields has no tombstone field. -/
theorem term_eq_false {model : SearchModel} {id : EntityId} {data : D} {document : Document V}
    (hfields : options.safeFields model = true)
    (h : projectSearchDocument cfg model options.adapterKind id data = some document) :
    term ELASTICSEARCH_TOMBSTONE_FIELD cfg.jsTrue document = false := by
  rw [Bool.eq_false_iff]
  intro hterm
  have hmem : (ELASTICSEARCH_TOMBSTONE_FIELD, cfg.jsTrue) ∈ document := List.contains_iff_mem.mp hterm
  simp only [safeFields, Bool.and_eq_true, List.all_eq_true] at hfields
  obtain ⟨⟨hid, -⟩, hprojection⟩ := hfields
  have hsafe : safeElasticsearchProjectionField ELASTICSEARCH_TOMBSTONE_FIELD = true := by
    rcases path_of_mem_project h hmem with hpath | hpath
    · rw [hpath]
      exact hid
    · exact hprojection _ hpath
  rw [reserved_tombstone] at hsafe
  cases hsafe

theorem term_tombstone : term ELASTICSEARCH_TOMBSTONE_FIELD cfg.jsTrue (tombstone cfg) = true := by
  simp [term, tombstone]

omit [DecidableEq V] in
theorem index_eq {backend : Elasticsearch V} {model : SearchModel} {id : EntityId} {data : D}
    {revision : Nat} {identity : Units} {document : Document V}
    (hmodel : cfg.snapshotSearchAdapterModel options.adapterKind model = true)
    (hrevision : normalizeSearchWriteOptions (some revision) = some (some revision))
    (hfields : options.safeFields model = true)
    (hidentity : cfg.searchDocumentIdentity model id (some data) = some identity)
    (hid : elasticsearchDocumentId identity = some identity)
    (hname : options.indexName cfg model.name = some (options.indexText model.name))
    (hdocument : projectSearchDocument cfg model options.adapterKind id data = some document)
    (htransport : cfg.transportable document = true) :
    options.index cfg backend model id data (some revision) =
      some (write backend (options.target (model.name, identity)) revision document) := by
  simp only [index, hmodel, hrevision, hfields, hidentity, hid, hname, hdocument, htransport, if_true,
    Option.bind_eq_bind, Option.bind_some, revisionWrite, Option.isSome_some, Bool.or_true,
    Bool.and_self]
  exact catchConflict_index backend _ revision document

omit [DecidableEq V] in
theorem delete_eq {backend : Elasticsearch V} {model : SearchModel} {id : EntityId}
    {revision : Nat} {identity : Units}
    (hmodel : cfg.snapshotSearchAdapterModel options.adapterKind model = true)
    (hrevision : normalizeSearchWriteOptions (some revision) = some (some revision))
    (hidentity : cfg.searchDocumentIdentity model id none = some identity)
    (hid : elasticsearchDocumentId identity = some identity)
    (hname : options.indexName cfg model.name = some (options.indexText model.name)) :
    options.delete cfg backend model id (some revision) =
      some (write backend (options.target (model.name, identity)) revision (tombstone cfg)) := by
  simp only [delete, hmodel, hrevision, hidentity, hid, hname, if_true, Option.bind_eq_bind,
    Option.bind_some, revisionWrite, Option.isSome_some, Bool.or_true]
  exact catchConflict_index backend _ revision (tombstone cfg)

variable (cfg options)

theorem perform_cases (call : SearchCall D) :
    (∀ backend : Elasticsearch V, options.perform cfg backend call = none) ∨
      ∃ address source, Performs cfg options call address source := by
  obtain ⟨model, id, data, revision⟩ := call
  by_cases hmodel : cfg.snapshotSearchAdapterModel options.adapterKind model = true
  case neg =>
    apply Or.inl
    intro backend
    cases data <;> simp [perform, index, delete, hmodel]
  rcases normalizeSearchWriteOptions_cases revision with hrevision | hrevision
  case inl =>
    apply Or.inl
    intro backend
    cases data <;> simp [perform, index, delete, hmodel, hrevision]
  cases hidentity : cfg.searchDocumentIdentity model id data with
  | none =>
    apply Or.inl
    intro backend
    cases data <;> simp [perform, index, delete, hidentity]
  | some identity =>
    rcases elasticsearchDocumentId_cases identity with hid | hid
    case inl =>
      apply Or.inl
      intro backend
      cases data <;> simp [perform, index, delete, hidentity, hid]
    rcases @indexName_cases _ _ cfg options model.name with hname | hname
    case inl =>
      apply Or.inl
      intro backend
      cases data <;> simp [perform, index, delete, hname]
    cases data with
    | none =>
      refine .inr ⟨(model.name, identity), tombstone cfg, ⟨?_, rfl, rfl, ?_, fun backend => ?_⟩⟩
      · simp [SearchCall.address, hidentity]
      · intro document hdocument
        cases hdocument
      · exact delete_eq hmodel hrevision hidentity hid hname
    | some data =>
      by_cases hfields : options.safeFields model = true
      case neg =>
        apply Or.inl
        intro backend
        simp [perform, index, hfields]
      cases hdocument : projectSearchDocument cfg model options.adapterKind id data with
      | none =>
        apply Or.inl
        intro backend
        simp [perform, index, hdocument]
      | some document =>
        by_cases htransport : cfg.transportable document = true
        case neg =>
          apply Or.inl
          intro backend
          simp [perform, index, hdocument, htransport]
        have hcall : SearchCall.document cfg options.adapterKind ⟨model, id, some data, revision⟩ =
            some document := hdocument
        refine .inr ⟨(model.name, identity), document, ⟨?_, ?_, ?_, ?_, fun backend => ?_⟩⟩
        · simp [SearchCall.address, hidentity]
        · rw [hcall, Option.getD_some]
        · rw [hcall]
          rfl
        · intro other hother
          rw [hcall] at hother
          cases hother
          exact term_eq_false hfields hdocument
        · exact index_eq hmodel hrevision hfields hidentity hid hname hdocument htransport

variable {cfg options} in
theorem accepts_iff {call : SearchCall D} :
    accepts cfg options call = true ↔ ∃ address source, Performs cfg options call address source := by
  rcases perform_cases cfg options call with hnone | ⟨address, source, h⟩
  · apply iff_of_false
    · simp [accepts, hnone]
    · rintro ⟨address, source, h⟩
      cases (hnone JsMap.empty).symm.trans (h.perform JsMap.empty)
  · apply iff_of_true
    · simp [accepts, h.perform]
    · exact ⟨address, source, h⟩

/-- What the index stores for an accepted call. -/
def stored (call : SearchCall D) : StoredDocument V :=
  ⟨(call.document cfg options.adapterKind).getD (tombstone cfg), call.revision⟩

/-- The index holds the newest write of the document. -/
structure Shows (backend : Elasticsearch V) (address : Units × Units)
    (held : Option (SearchCall D)) : Prop where
  stored : backend.at? (options.target address) = held.map (stored cfg options)
  live : ∀ call, held = some call → ∀ document, call.document cfg options.adapterKind = some document →
    term ELASTICSEARCH_TOMBSTONE_FIELD cfg.jsTrue document = false

variable {cfg options}

theorem Shows.searchable {backend : Elasticsearch V} {address : Units × Units}
    {held : Option (SearchCall D)} (h : Shows cfg options backend address held) :
    options.searchable cfg backend address =
      held.bind (SearchCall.document cfg options.adapterKind) := by
  have hstored : backend.at? (options.indexText address.1, address.2) = _ := h.stored
  rw [ElasticsearchOptions.searchable, hstored]
  cases held with
  | none => rfl
  | some call =>
    rw [Option.bind_some]
    cases hdocument : call.document cfg options.adapterKind with
    | none =>
      simp [ElasticsearchOptions.stored, hdocument, withElasticsearchLiveDocumentFilter, term_tombstone]
    | some document =>
      have hlive := h.live call rfl document hdocument
      simp [ElasticsearchOptions.stored, hdocument, withElasticsearchLiveDocumentFilter, hlive]

theorem Shows.write_of_ne {backend : Elasticsearch V} {address place : Units × Units}
    {held : Option (SearchCall D)} {revision : Nat} {source : Document V}
    (h : Shows cfg options backend address held) (hne : place ≠ address) :
    Shows cfg options (write backend (options.target place) revision source) address held := by
  refine ⟨?_, h.live⟩
  rw [← h.stored]
  unfold write
  split
  · rfl
  · exact (JsTable.at?_put _ _ _ _).trans (if_neg fun heq => hne (options.target_inj heq))

theorem Shows.write {backend : Elasticsearch V} {address : Units × Units}
    {held : Option (SearchCall D)} {call : SearchCall D} {source : Document V}
    (hshows : Shows cfg options backend address held) (h : Performs cfg options call address source) :
    Shows cfg options (write backend (options.target address) call.revision source) address
      (Registers.accept SearchCall.revision held call) := by
  have hrevision : ∀ other, held = some other →
      (backend.at? (options.target address)).any (call.revision ≤ ·.version) =
        decide (call.revision ≤ other.revision) := by
    intro other hother
    rw [hshows.stored, hother]
    rfl
  have htaken : Registers.accept SearchCall.revision held call = some call →
      ¬(backend.at? (options.target address)).any (call.revision ≤ ·.version) = true →
      Shows cfg options (ElasticsearchOptions.write backend (options.target address) call.revision source)
        address (Registers.accept SearchCall.revision held call) := by
    intro haccept hgreater
    rw [haccept, ElasticsearchOptions.write, if_neg hgreater]
    refine ⟨?_, fun other hother => ?_⟩
    · rw [JsTable.at?_put_self, h.source]
      rfl
    · cases hother
      exact h.live
  cases held with
  | none =>
    apply htaken rfl
    simp [hshows.stored]
  | some other =>
    by_cases hle : call.revision ≤ other.revision
    · rw [Registers.accept, if_pos hle, ElasticsearchOptions.write, hrevision other rfl,
        if_pos (decide_eq_true hle)]
      exact hshows
    · apply htaken (if_neg hle)
      rw [hrevision other rfl]
      exact fun h => hle (of_decide_eq_true h)

variable (cfg options)

theorem keeps : Registers.Keeps SearchCall.revision (SearchCall.key cfg (accepts cfg options))
    (deliver cfg options) (Shows cfg options (V := V)) where
  step := by
    intro backend address held hshows call
    rcases perform_cases cfg options call with hnone | ⟨place, source, h⟩
    · have hkey : call.key cfg (accepts cfg options) ≠ some address := by
        rw [Ne, SearchCall.key_eq_some]
        simp [accepts, hnone]
      rw [if_neg hkey, deliver, hnone, Option.getD_none]
      exact hshows
    · have haccepts : accepts cfg options call = true := accepts_iff.mpr ⟨place, source, h⟩
      rw [deliver, h.perform, Option.getD_some, SearchCall.key, if_pos haccepts, h.address]
      by_cases hat : place = address
      · subst hat
        rw [if_pos rfl]
        exact hshows.write h
      · rw [if_neg fun heq => hat (Option.some.inj heq)]
        exact hshows.write_of_ne hat

end ElasticsearchOptions

section
variable {D V : Type} [DecidableEq V] (cfg : Shared D V) (options : ElasticsearchOptions)

/-- A hit of a search of the adapter is a searchable document and no tombstone. -/
theorem searchable_of_hits {backend : Elasticsearch V} {native : Option (NativeBody V)}
    {textBody : Document V → Bool} {fields : List Units} {name : Units} {hasLimit : Bool}
    {body : SearchBody V} {hits : List (Units × Document V)}
    (hbody : elasticsearchSearchBody cfg native textBody fields hasLimit = some body)
    (hhits : backend.Hits (options.indexText name) body hits) {hit : Units × Document V}
    (hmem : hit ∈ hits) :
    options.searchable cfg backend (name, hit.1) = some hit.2 ∧
      hit.2 ≠ ElasticsearchOptions.tombstone cfg := by
  have hlive : ∃ other, body = withElasticsearchLiveDocumentFilter cfg other := by
    unfold elasticsearchSearchBody at hbody
    cases native with
    | none => exact ⟨_, (Option.some.inj hbody).symm⟩
    | some native =>
      simp only at hbody
      split_ifs at hbody
      · exact ⟨_, (Option.some.inj hbody).symm⟩
      · exact ⟨_, (Option.some.inj hbody).symm⟩
  obtain ⟨other, rfl⟩ := hlive
  obtain ⟨version, hstored, -, hpost⟩ := hhits hit hmem
  have hterm : term ELASTICSEARCH_TOMBSTONE_FIELD cfg.jsTrue hit.2 = false := by
    simp only [withElasticsearchLiveDocumentFilter, Option.all_some, Bool.and_eq_true,
      Bool.not_eq_true'] at hpost
    exact hpost.2
  constructor
  · have hat : backend.at? (options.indexText (name, hit.1).1, (name, hit.1).2) = _ := hstored
    rw [ElasticsearchOptions.searchable, hat]
    simp [withElasticsearchLiveDocumentFilter, hterm]
  · intro htombstone
    rw [htombstone, ElasticsearchOptions.term_tombstone] at hterm
    cases hterm

variable {cfg} in
omit [DecidableEq V] in
/-- Where adapters accept the same calls, one write decides a document for both. -/
theorem EndsWith.document_cases {kind other : Units} {accepts acceptsOther : SearchCall D → Bool}
    {writes : List (SearchCall D)} {searchable searchableOther : Units × Units → Option (Document V)}
    (h : EndsWith cfg kind accepts writes searchable)
    (hother : EndsWith cfg other acceptsOther writes searchableOther)
    (haccepts : ∀ call ∈ writes, accepts call = acceptsOther call) (address : Units × Units) :
    (searchable address = none ∧ searchableOther address = none) ∨
      ∃ call ∈ writes, ∃ data document documentOther,
        projectSearchDocument cfg call.model kind call.id data = some document ∧
          projectSearchDocument cfg call.model other call.id data = some documentOther ∧
            searchable address = some document ∧ searchableOther address = some documentOther := by
  have hsame : accepted cfg accepts writes address = accepted cfg acceptsOther writes address := by
    apply List.filter_congr
    intro call hcall
    rw [SearchCall.key, SearchCall.key, haccepts call hcall]
  by_cases hnil : accepted cfg accepts writes address = []
  · exact .inl ⟨h.untouched hnil, hother.untouched (hsame ▸ hnil)⟩
  · obtain ⟨call, hnewest⟩ := @Registers.exists_newest _ _ _ SearchCall.revision _ hnil
    cases hdata : call.data with
    | none => exact .inl ⟨h.deleted hnewest hdata, hother.deleted (hsame ▸ hnewest) hdata⟩
    | some data =>
      obtain ⟨document, hproject, hdocument⟩ := h.indexed hnewest hdata
      obtain ⟨documentOther, hprojectOther, hdocumentOther⟩ := hother.indexed (hsame ▸ hnewest) hdata
      exact .inr ⟨call, ((mem_accepted cfg).mp hnewest.mem).1, data, document, documentOther, hproject,
        hprojectOther, hdocument, hdocumentOther⟩

omit [DecidableEq V] in
/-- A model whose indexes are for every adapter has one projection. -/
theorem projectSearchDocument_eq {model : SearchModel}
    (h : ∀ index ∈ model.searchIndexes, index.adapter = none) (kind other : Units) (id : EntityId)
    (data : D) :
    projectSearchDocument cfg model kind id data = projectSearchDocument cfg model other id data := by
  have hindexes : model.searchIndexesForAdapter kind = model.searchIndexesForAdapter other := by
    apply List.filter_congr
    intro index hindex
    rw [h index hindex]
    rfl
  rw [projectSearchDocument, projectSearchDocument, SearchModel.searchProjectionFieldsForAdapter,
    SearchModel.searchProjectionFieldsForAdapter, SearchModel.searchFieldsForAdapter,
    SearchModel.searchFieldsForAdapter, hindexes]

/-- Each adapter ends with the newest writes that it accepts. -/
theorem revisioned_writes_converge {writes delivered : List (SearchCall D)}
    (hdelivered : ∀ call, call ∈ delivered ↔ call ∈ writes)
    (hdistinct : ∀ a ∈ writes, ∀ b ∈ writes, ∀ address, a.address cfg = some address →
      b.address cfg = some address → a.revision = b.revision → a = b) :
    let memory : MemorySearchAdapter V := delivered.foldl (MemorySearchAdapter.deliver cfg) .empty
    let elastic : Elasticsearch V := delivered.foldl (options.deliver cfg) .empty
    EndsWith cfg MemorySearchAdapter.kind (MemorySearchAdapter.accepts cfg) writes memory.searchable ∧
      EndsWith cfg options.adapterKind (options.accepts cfg) writes (options.searchable cfg elastic) ∧
      ((∀ call ∈ writes, MemorySearchAdapter.accepts cfg call = options.accepts cfg call) →
        (∀ address,
          (memory.searchable address).isSome = (options.searchable cfg elastic address).isSome) ∧
        ((∀ call ∈ writes, ∀ index ∈ call.model.searchIndexes, index.adapter = none) →
          memory.searchable = options.searchable cfg elastic)) ∧
      (∀ model documentMatches filterRows limit,
        ∀ document ∈ memory.search model documentMatches filterRows limit,
          ∃ identity, memory.searchable (model.name, identity) = some document) ∧
      ∀ native textBody fields hasLimit body name hits,
        elasticsearchSearchBody cfg native textBody fields hasLimit = some body →
        elastic.Hits (options.indexText name) body hits → ∀ hit ∈ hits,
          options.searchable cfg elastic (name, hit.1) = some hit.2 ∧
            hit.2 ≠ ElasticsearchOptions.tombstone cfg := by
  intro memory elastic
  have hmemory : EndsWith cfg MemorySearchAdapter.kind (MemorySearchAdapter.accepts cfg) writes
      memory.searchable := by
    apply EndsWith.of_keeps cfg (MemorySearchAdapter.keeps cfg) (fun h => h.searchable) _ _
      hdelivered hdistinct
    · intro call data haccepts hdata
      obtain ⟨target, content, h⟩ := MemorySearchAdapter.accepts_iff.mp haccepts
      have hsome : (call.document cfg MemorySearchAdapter.kind).isSome = true := by
        rw [← h.document, Option.isSome_map, h.isSome, hdata]
        rfl
      rw [SearchCall.document, hdata, Option.bind_some] at hsome
      exact Option.isSome_iff_exists.mp hsome
    · exact fun address => ⟨rfl, rfl⟩
  have helastic : EndsWith cfg options.adapterKind (options.accepts cfg) writes
      (options.searchable cfg elastic) := by
    apply EndsWith.of_keeps cfg (ElasticsearchOptions.keeps cfg options) (fun h => h.searchable) _ _
      hdelivered hdistinct
    · intro call data haccepts hdata
      obtain ⟨address, source, h⟩ := ElasticsearchOptions.accepts_iff.mp haccepts
      have hsome : (call.document cfg options.adapterKind).isSome = true := by
        rw [h.isSome, hdata]
        rfl
      rw [SearchCall.document, hdata, Option.bind_some] at hsome
      exact Option.isSome_iff_exists.mp hsome
    · intro address
      refine ⟨rfl, fun call hcall => ?_⟩
      cases hcall
  refine ⟨hmemory, helastic, fun haccepts => ⟨?_, fun hindexes => ?_⟩, ?_, ?_⟩
  · intro address
    rcases hmemory.document_cases helastic haccepts address with
      ⟨hnone, hnone'⟩ | ⟨call, -, data, document, document', -, -, hdocument, hdocument'⟩
    · rw [hnone, hnone']
    · rw [hdocument, hdocument']
      rfl
  · funext address
    rcases hmemory.document_cases helastic haccepts address with
      ⟨hnone, hnone'⟩ | ⟨call, hcall, data, document, document', hproject, hproject', hdocument,
        hdocument'⟩
    · rw [hnone, hnone']
    · rw [projectSearchDocument_eq cfg (hindexes call hcall) _ options.adapterKind, hproject'] at hproject
      rw [hdocument, hdocument', Option.some.inj hproject]
  · intro model documentMatches filterRows limit document hmem
    exact MemorySearchAdapter.searchable_of_mem_search hmem
  · intro native textBody fields hasLimit body name hits hbody hhits hit hmem
    exact searchable_of_hits cfg options hbody hhits hmem

end

/-! ## A model with an uppercase name -/

/-- Documents with a title. -/
def titles : Shared Units Units where
  snapshotSearchAdapterModel _ model := SAFE_SCHEMA_IDENTIFIER model.name
  searchDocumentIdentity _ id _ := (EntityIds.entityIdKey id).toOption
  documentId _ id _ := (EntityIds.entityIdKey id).toOption
  searchProjectionValue data field := if field = ofString "title" then some data else none
  writeTransform _ _ value := some value
  portable _ := true
  transportable _ := true
  jsTrue := ofString "true"
  toLowerCase text := text.map fun unit => if 65 ≤ unit.1 ∧ unit.1 ≤ 90 then unit + 32 else unit

def titleModel (name : String) : SearchModel where
  name := ofString name
  idField := ofString "id"
  searchIndexes := [⟨none, [ofString "title"]⟩]
  ancestorFields := []
  datastoreSearchScope := none
  searchDocumentIdentity := none

def indexTitle (name title : String) (revision : Nat) : SearchCall Units :=
  ⟨titleModel name, .string (ofString "1"), some (ofString title), revision⟩

def deleteTitle (name : String) (revision : Nat) : SearchCall Units :=
  ⟨titleModel name, .string (ofString "1"), none, revision⟩

def plainOptions : ElasticsearchOptions := ⟨ofString "elasticsearch", none, false⟩

/-- Elasticsearch takes no index name with an uppercase letter. -/
theorem uppercase_model_diverges :
    ¬∀ address,
      ((MemorySearchAdapter.deliver titles .empty (indexTitle "User" "a" 1)).searchable address).isSome =
        (plainOptions.searchable titles (plainOptions.deliver titles .empty (indexTitle "User" "a" 1))
          address).isSome := by
  intro h
  have hkey := h (ofString "User", ofString "string:1")
  revert hkey
  decide

/-- A delete that arrives before the index that it supersedes. -/
theorem revisioned_writes_converge_user :
    let calls := [deleteTitle "user" 2, indexTitle "user" "a" 1, deleteTitle "user" 2]
    let memory := calls.foldl (MemorySearchAdapter.deliver titles) .empty
    let elastic := calls.foldl (plainOptions.deliver titles) .empty
    ∀ address, (memory.searchable address).isSome = (plainOptions.searchable titles elastic address).isSome := by
  have hdelivered : ∀ call, call ∈ [deleteTitle "user" 2, indexTitle "user" "a" 1, deleteTitle "user" 2] ↔
      call ∈ [indexTitle "user" "a" 1, deleteTitle "user" 2] := by
    intro call
    simp only [List.mem_cons, List.not_mem_nil, or_false]
    exact ⟨fun h => h.elim .inr id, .inr⟩
  have hdistinct : ∀ a ∈ [indexTitle "user" "a" 1, deleteTitle "user" 2],
      ∀ b ∈ [indexTitle "user" "a" 1, deleteTitle "user" 2], ∀ address,
        a.address titles = some address → b.address titles = some address →
          a.revision = b.revision → a = b := by
    intro a ha b hb address _ _ hrevision
    simp only [List.mem_cons, List.not_mem_nil, or_false] at ha hb
    rcases ha with rfl | rfl <;> rcases hb with rfl | rfl
    · rfl
    · cases hrevision
    · cases hrevision
    · rfl
  exact ((revisioned_writes_converge titles plainOptions hdelivered hdistinct).2.2.1 (by decide)).1

end ActiveTs.Search
