import ActiveTs.Lib.Except
import ActiveTs.Outbox.IdentityText
import ActiveTs.Outbox.MemoryOutbox

/-! # Order keys and search documents

The worker resolves an event to the search document that it changes. Two events of one document have
to share an order key. They do when both carry the identity of the document, or the same incomplete
name; an event that names its row by an ancestor without namespace and one that names it by the
ancestor with its namespace share none. -/

namespace ActiveTs.Outbox

variable {D : Type}

inductive IdentityError
  | malformedKey
  | namespaceMismatch
  | missingModelId
  | unexpectedAncestor
  | unexpectedIdentity
  | missingAncestor
  | ancestorMismatch
  | identityMismatch
  | payload

/-! ## Identities -/

def datastoreKeyWithNamespace (key : DatastoreKey) (ns : Option String) :
    Except IdentityError DatastoreKey :=
  if key.path = [] then .error .malformedKey
  else
    match ns with
    | none => .ok key
    | some ns =>
      if key.ns = some ns then .ok key
      else if key.ns.isSome then .error .namespaceMismatch
      else .ok { key with ns := some ns }

/-- `datastoreKeyWithNamespace` for a key that may be missing. -/
def optionalKeyWithNamespace (key : Option DatastoreKey) (ns : Option String) :
    Except IdentityError (Option DatastoreKey) :=
  match key with
  | none => .ok none
  | some key => (datastoreKeyWithNamespace key ns).map some

section
-- The digest of SHA-256 in base64url.
variable (hash : String → String)

def documentDigest (scope : Option String) (key : DatastoreKey) : String :=
  "datastore:" ++ hash
    (match scope with
    | none => datastoreKeyIdentity key
    | some scope => jsonScopedKey (some scope) (datastoreKeyIdentity key))

def datastoreSearchDocumentIdentity (name : String) (scope : Option String) (id : EntityId)
    (ancestor : Option DatastoreKey) (ns : Option String) : Except IdentityError String :=
  let ns := (scope.map datastoreSearchScopeNamespace).getD ns
  (optionalKeyWithNamespace ancestor ns).map fun safeAncestor =>
    documentDigest hash scope
      ⟨(safeAncestor.bind DatastoreKey.ns).or ns,
        (safeAncestor.map DatastoreKey.path).getD [] ++ [(name, id)]⟩

/-- The identity in an order key; the keys of an event without identity are never formed. -/
def orderIdentity (name : String) (scope : Option String) (id : EntityId)
    (ancestor : Option DatastoreKey) : String :=
  (datastoreSearchDocumentIdentity hash name scope id ancestor none).toOption.getD ""

end

/-! ## Resolution of an event -/

/-- How the ancestor of a row follows from its data. -/
structure DatastoreAncestors (D : Type) where
  /-- `outboxEventPayloadHasAncestorFields`. -/
  hasAncestorFields : D → Bool
  /-- `datastorePayloadResolvedAncestor`: the resolver of the model. -/
  payloadAncestor : EntityId → D → Except IdentityError (Option DatastoreKey)
  /-- `datastoreAncestorFromEntityKey` of the hidden entity key. -/
  entityKeyAncestor : EntityId → D → Except IdentityError (Option DatastoreKey)

/-- What the resolution reads of a `ResolvedModelMeta`. -/
structure SearchMeta (D : Type) where
  name : String
  datastoreSearchScope : Option String
  /-- `datastore?.ancestor`. -/
  ancestors : Option (DatastoreAncestors D)

def outboxEventPayloadDatastoreAncestor (ancestors : DatastoreAncestors D) (modelId : EntityId)
    (data : D) (ns : Option String) : Except IdentityError (Option DatastoreKey) :=
  if !ancestors.hasAncestorFields data then .ok none
  else (ancestors.payloadAncestor modelId data).bind (optionalKeyWithNamespace · ns)

def outboxEventEntityKeyDatastoreAncestor (ancestors : DatastoreAncestors D) (modelId : EntityId)
    (data : D) (ns : Option String) : Except IdentityError (Option DatastoreKey) :=
  (ancestors.entityKeyAncestor modelId data).bind (optionalKeyWithNamespace · ns)

def outboxDatastoreAncestorMatches (left right : DatastoreKey) : Bool :=
  datastoreKeyIdentity left == datastoreKeyIdentity right

def outboxEventDataDatastoreAncestor (ancestors : DatastoreAncestors D) (modelId : EntityId)
    (data : D) (ns : Option String) (trustEntityKeyOnlyAncestor : Bool) :
    Except IdentityError (Option DatastoreKey) :=
  (outboxEventPayloadDatastoreAncestor ancestors modelId data ns).bind fun payload =>
    (if payload.isSome || trustEntityKeyOnlyAncestor then
        outboxEventEntityKeyDatastoreAncestor ancestors modelId data ns
      else .ok none).bind fun entityKey =>
        match entityKey, payload with
        | some entityKey, some payload =>
          if outboxDatastoreAncestorMatches entityKey payload then .ok (some entityKey)
          else .error .ancestorMismatch
        | _, _ => .ok (entityKey.or payload)

section
variable (hash : String → String)

/-- The branch for a model without ancestors. -/
def plainDocumentIdentity (event : OutboxEvent D) (model : SearchMeta D) (modelId : EntityId) :
    Except IdentityError (Option String) :=
  if event.modelDatastoreAncestor.isSome then .error .unexpectedAncestor
  else
    (match model.datastoreSearchScope with
      | none => Except.ok none
      | some scope => (datastoreSearchDocumentIdentity hash model.name (some scope) modelId none
          none).map some).bind fun scopedIdentity =>
        if event.modelIdentity.isSome && event.modelIdentity != scopedIdentity then
          .error .unexpectedIdentity
        else .ok scopedIdentity

/-- The branch for a model with ancestors, once the data has been looked at. -/
def ancestorDocumentIdentity (event : OutboxEvent D) (model : SearchMeta D) (modelId : EntityId)
    (dataAncestor : Option DatastoreKey) (ns : Option String) (allowIdentityOnlyDelete : Bool) :
    Except IdentityError (Option String) :=
  match dataAncestor.or event.modelDatastoreAncestor with
  | none =>
    if event.operation = .delete ∧ event.modelIdentity.isSome ∧ allowIdentityOnlyDelete then
      .ok event.modelIdentity
    else .error .missingAncestor
  | some rawAncestor =>
    (datastoreKeyWithNamespace rawAncestor ns).bind fun ancestor =>
      (match dataAncestor, event.modelDatastoreAncestor with
        | some dataAncestor, some stored =>
          (datastoreKeyWithNamespace stored ns).bind fun stored =>
            if outboxDatastoreAncestorMatches dataAncestor stored then .ok ()
            else .error .ancestorMismatch
        | _, _ => .ok ()).bind fun _ =>
          (datastoreSearchDocumentIdentity hash model.name model.datastoreSearchScope modelId
            (some ancestor) none).bind fun expectedIdentity =>
              if event.modelIdentity.isSome && event.modelIdentity != some expectedIdentity then
                .error .identityMismatch
              else .ok (some (event.modelIdentity.getD expectedIdentity))

def outboxEventSearchDocumentIdentity (event : OutboxEvent D) (model : SearchMeta D)
    (data : Option D) (ns : Option String) (allowIdentityOnlyDelete : Bool) :
    Except IdentityError (Option String) :=
  match event.modelId with
  | none => .error .missingModelId
  | some modelId =>
    match model.ancestors with
    | none => plainDocumentIdentity hash event model modelId
    | some ancestors =>
      (match data with
        | none => Except.ok none
        | some data =>
          outboxEventDataDatastoreAncestor ancestors modelId data ns
            (event.operation != OutboxOperation.delete || ancestors.hasAncestorFields data ||
              event.modelIdentity.isSome)).bind fun dataAncestor =>
          ancestorDocumentIdentity hash event model modelId dataAncestor ns allowIdentityOnlyDelete

end

/-! ## Facts about keys -/

theorem datastoreKeyWithNamespace_ok {key key' : DatastoreKey} {ns : Option String}
    (h : datastoreKeyWithNamespace key ns = .ok key') :
    key.path ≠ [] ∧ key'.path = key.path ∧ key'.ns = key.ns.or ns ∧
      datastoreKeyWithNamespace key' ns = .ok key' := by
  unfold datastoreKeyWithNamespace at h
  split at h
  · cases h
  · next hpath =>
    refine ⟨hpath, ?_⟩
    cases ns with
    | none =>
      cases h
      refine ⟨rfl, Option.or_none.symm, ?_⟩
      rw [datastoreKeyWithNamespace, if_neg hpath]
    | some ns =>
      dsimp only at h
      split at h
      · next hns =>
        cases h
        refine ⟨rfl, by rw [hns]; rfl, ?_⟩
        rw [datastoreKeyWithNamespace, if_neg hpath]
        exact if_pos hns
      · split at h
        · cases h
        · next hns =>
          rw [Bool.not_eq_true, Option.isSome_eq_false_iff, Option.isNone_iff_eq_none] at hns
          cases h
          refine ⟨rfl, by rw [hns]; rfl, ?_⟩
          rw [datastoreKeyWithNamespace, if_neg hpath]
          exact if_pos rfl

section
variable {hash : String → String}

theorem documentDigest_congr {scope : Option String} {key key' : DatastoreKey}
    (hns : key.ns = key'.ns) (hpath : pathKeys key.path = pathKeys key'.path) :
    documentDigest hash scope key = documentDigest hash scope key' := by
  unfold documentDigest
  rw [datastoreKeyIdentity_congr hns hpath]

theorem documentDigest_toList (scope : Option String) (key : DatastoreKey) :
    ∃ digest, (documentDigest hash scope key).toList = "datastore:".toList ++ digest :=
  ⟨_, String.toList_append⟩

theorem hash_inj (hhash : Function.Injective hash) {text text' : String}
    (h : "datastore:" ++ hash text = "datastore:" ++ hash text') : text = text' := by
  have h := congrArg String.toList h
  rw [String.toList_append, String.toList_append] at h
  exact hhash (String.toList_inj.mp (List.append_cancel_left h))

theorem documentDigest_inj (hhash : Function.Injective hash) {scope : Option String}
    {key key' : DatastoreKey} (hpath : key.path ≠ []) (hpath' : key'.path ≠ [])
    (h : documentDigest hash scope key = documentDigest hash scope key') :
    key.ns = key'.ns ∧ pathKeys key.path = pathKeys key'.path := by
  cases scope with
  | none => exact datastoreKeyIdentity_inj hpath hpath' (hash_inj hhash h)
  | some scope => exact datastoreKeyIdentity_inj hpath hpath' (jsonScopedKey_inj (hash_inj hhash h))

end

/-! ## The resolved document -/

section
variable {hash : String → String}

theorem optionalKeyWithNamespace_some {key : Option DatastoreKey} {ns : Option String}
    {key' : DatastoreKey} (h : optionalKeyWithNamespace key ns = .ok (some key')) :
    datastoreKeyWithNamespace key' ns = .ok key' := by
  cases key with
  | none => cases h
  | some key =>
    obtain ⟨found, hfound, heq⟩ := Except.map_eq_ok.mp h
    cases heq
    exact (datastoreKeyWithNamespace_ok hfound).2.2.2

/-- The ancestor that follows from the data is inside the namespace of the context. -/
theorem outboxEventDataDatastoreAncestor_some {ancestors : DatastoreAncestors D}
    {modelId : EntityId} {data : D} {ns : Option String} {trust : Bool} {key : DatastoreKey}
    (h : outboxEventDataDatastoreAncestor ancestors modelId data ns trust = .ok (some key)) :
    datastoreKeyWithNamespace key ns = .ok key := by
  have hpayload : ∀ found, outboxEventPayloadDatastoreAncestor ancestors modelId data ns =
      .ok (some found) → datastoreKeyWithNamespace found ns = .ok found := by
    intro found hfound
    unfold outboxEventPayloadDatastoreAncestor at hfound
    split at hfound
    · cases hfound
    · obtain ⟨raw, -, hraw⟩ := Except.bind_eq_ok.mp hfound
      exact optionalKeyWithNamespace_some hraw
  have hentityKey : ∀ found, outboxEventEntityKeyDatastoreAncestor ancestors modelId data ns =
      .ok (some found) → datastoreKeyWithNamespace found ns = .ok found := by
    intro found hfound
    obtain ⟨raw, -, hraw⟩ := Except.bind_eq_ok.mp hfound
    exact optionalKeyWithNamespace_some hraw
  obtain ⟨payload, hp, h⟩ := Except.bind_eq_ok.mp h
  obtain ⟨entityKey, hk, h⟩ := Except.bind_eq_ok.mp h
  have hkey : entityKey = none ∨
      outboxEventEntityKeyDatastoreAncestor ancestors modelId data ns = .ok entityKey := by
    split at hk
    · exact .inr hk
    · exact .inl (Except.ok.inj hk).symm
  cases entityKey with
  | none =>
    cases payload with
    | none => cases h
    | some payload =>
      cases h
      exact hpayload _ hp
  | some entityKey =>
    have hkey := hentityKey _ (hkey.resolve_left (Option.some_ne_none _))
    cases payload with
    | none =>
      cases h
      exact hkey
    | some payload =>
      dsimp only at h
      split at h
      · cases h
        exact hkey
      · cases h

/-- The identity that a document has by its key. -/
theorem datastoreSearchDocumentIdentity_some {name : String} {scope : Option String} {id : EntityId}
    {ancestor ancestor' : DatastoreKey} {ns : Option String}
    (h : datastoreKeyWithNamespace ancestor ((scope.map datastoreSearchScopeNamespace).getD ns) =
      .ok ancestor') :
    datastoreSearchDocumentIdentity hash name scope id (some ancestor) ns =
      .ok (documentDigest hash scope ⟨ancestor'.ns, ancestor'.path ++ [(name, id)]⟩) := by
  have hns := (datastoreKeyWithNamespace_ok h).2.2.1
  unfold datastoreSearchDocumentIdentity optionalKeyWithNamespace
  generalize (scope.map datastoreSearchScopeNamespace).getD ns = effective at h hns ⊢
  dsimp only
  rw [h]
  have hor : ancestor'.ns.or effective = ancestor'.ns := by
    rw [hns, Option.or_assoc, Option.or_self]
  simp [Except.map, hor]

/-- What a resolved event says about its document, for a model with ancestors. -/
structure AncestorResolved (hash : String → String) (name : String) (scope ns : Option String)
    (event : OutboxEvent D) (modelId : EntityId) (document : String) (ancestor : DatastoreKey) :
    Prop where
  path : ancestor.path ≠ []
  within : datastoreKeyWithNamespace ancestor ns = .ok ancestor
  document_eq : document =
    documentDigest hash scope ⟨ancestor.ns, ancestor.path ++ [(name, modelId)]⟩
  identity : ∀ identity, event.modelIdentity = some identity → identity = document
  stored : ∀ stored, event.modelDatastoreAncestor = some stored →
    ∃ stored', datastoreKeyWithNamespace stored ns = .ok stored' ∧ stored'.ns = ancestor.ns ∧
      pathKeys stored'.path = pathKeys ancestor.path

theorem ancestorDocumentIdentity_ok {event : OutboxEvent D} {model : SearchMeta D}
    {modelId : EntityId} {dataAncestor : Option DatastoreKey} {ns : Option String} {allow : Bool}
    {document : Option String}
    (hscope : ∀ scope, model.datastoreSearchScope = some scope →
      datastoreSearchScopeNamespace scope = ns)
    (hdata : ∀ key, dataAncestor = some key → datastoreKeyWithNamespace key ns = .ok key)
    (h : ancestorDocumentIdentity hash event model modelId dataAncestor ns allow = .ok document) :
    (event.modelDatastoreAncestor = none ∧ event.modelIdentity.isSome ∧
        document = event.modelIdentity) ∨
      ∃ found ancestor, document = some found ∧
        AncestorResolved hash model.name model.datastoreSearchScope ns event modelId found
          ancestor := by
  unfold ancestorDocumentIdentity at h
  cases hraw : dataAncestor.or event.modelDatastoreAncestor with
  | none =>
    rw [hraw] at h
    obtain ⟨-, hstored⟩ := Option.or_eq_none_iff.mp hraw
    dsimp only at h
    split at h
    · next hdelete =>
      exact .inl ⟨hstored, hdelete.2.1, (Except.ok.inj h).symm⟩
    · cases h
  | some raw =>
    rw [hraw] at h
    obtain ⟨ancestor, hwith, h⟩ := Except.bind_eq_ok.mp h
    obtain ⟨matched, hmatch, h⟩ := Except.bind_eq_ok.mp h
    obtain ⟨expected, hexpected, h⟩ := Except.bind_eq_ok.mp h
    obtain ⟨hrawPath, hpath, hns, hself⟩ := datastoreKeyWithNamespace_ok hwith
    have hancestorPath : ancestor.path ≠ [] := hpath ▸ hrawPath
    have heffective : datastoreKeyWithNamespace ancestor
        ((model.datastoreSearchScope.map datastoreSearchScopeNamespace).getD none) =
          .ok ancestor := by
      cases hs : model.datastoreSearchScope with
      | none =>
        rw [Option.map_none, Option.getD_none, datastoreKeyWithNamespace, if_neg hancestorPath]
      | some scope => rw [Option.map_some, Option.getD_some, hscope scope hs, hself]
    rw [datastoreSearchDocumentIdentity_some heffective] at hexpected
    have hidentity : (∀ identity, event.modelIdentity = some identity → identity = expected) ∧
        document = some expected := by
      cases hid : event.modelIdentity with
      | none =>
        rw [hid] at h
        cases h
        exact ⟨fun _ h => absurd h (Option.some_ne_none _).symm, rfl⟩
      | some identity =>
        rw [hid] at h
        split at h
        · cases h
        · next heq =>
          cases h
          have : identity = expected := by simpa using heq
          exact ⟨fun i hi => by rw [← this]; exact (Option.some.inj hi).symm, by simp [this]⟩
    refine .inr ⟨expected, ancestor, hidentity.2, hancestorPath, hself,
      (Except.ok.inj hexpected).symm, hidentity.1, fun stored hstored => ?_⟩
    cases dataAncestor with
    | none =>
      have : raw = stored := by
        rw [Option.none_or, hstored] at hraw
        exact (Option.some.inj hraw).symm
      exact ⟨ancestor, this ▸ hwith, rfl, rfl⟩
    | some key =>
      obtain rfl : key = raw := Option.some.inj hraw
      obtain rfl : key = ancestor := Except.ok.inj ((hdata key rfl).symm.trans hwith)
      rw [hstored] at hmatch
      obtain ⟨stored', hstored', hmatch⟩ := Except.bind_eq_ok.mp hmatch
      obtain ⟨hsp, hsp', -, -⟩ := datastoreKeyWithNamespace_ok hstored'
      have hid : datastoreKeyIdentity key = datastoreKeyIdentity stored' := by
        by_contra hne
        rw [outboxDatastoreAncestorMatches, if_neg (by simpa using hne)] at hmatch
        cases hmatch
      obtain ⟨hn, hp⟩ := datastoreKeyIdentity_inj hancestorPath (hsp' ▸ hsp) hid
      exact ⟨stored', hstored', hn.symm, hp.symm⟩

end

/-! ## The texts of order keys -/

def orderKey (model tail : String) : String := model ++ ":" ++ tail

def aliasTail (kind : AliasKind) (scope : Option String) (id : EntityId) : String :=
  "datastore-" ++ (kind.text ++ ("-namespace-alias:" ++ jsonScopedKey scope (entityIdKey id)))

theorem aliasTail_toList (kind : AliasKind) (scope : Option String) (id : EntityId) :
    (aliasTail kind scope id).toList = "datastore-".toList ++ (kind.text.toList ++
      ("-namespace-alias:".toList ++ (jsonScopedKey scope (entityIdKey id)).toList)) := by
  rw [aliasTail, String.toList_append, String.toList_append, String.toList_append]

theorem orderKey_inj {model tail tail' : String} (h : orderKey model tail = orderKey model tail') :
    tail = tail' := by
  have h := congrArg String.toList h
  simp only [orderKey, String.toList_append, List.append_assoc] at h
  have h := List.append_cancel_left (List.append_cancel_left h)
  exact String.toList_inj.mp h

theorem outboxDatastoreAliasKey_eq (event : OutboxEvent D) (kind : AliasKind) (id : EntityId) :
    outboxDatastoreAliasKey event kind id =
      orderKey event.model (aliasTail kind event.modelDatastoreScope id) := by
  change event.model ++ ":datastore-" ++ kind.text ++ "-namespace-alias:" ++ _ =
    event.model ++ ":" ++ _
  apply String.toList_inj.mp
  simp only [String.toList_append, aliasTail_toList]
  simp

theorem aliasTail_inj {kind : AliasKind} {scope : Option String} {id id' : EntityId}
    (h : aliasTail kind scope id = aliasTail kind scope id') : entityIdKey id = entityIdKey id' := by
  have h := congrArg String.toList h
  rw [aliasTail_toList, aliasTail_toList] at h
  have h := List.append_cancel_left (List.append_cancel_left (List.append_cancel_left h))
  exact jsonScopedKey_inj (String.toList_inj.mp h)

section
variable {hash : String → String}

theorem documentDigest_ne_aliasTail {scope scope' : Option String} {key : DatastoreKey}
    {kind : AliasKind} {id : EntityId} :
    documentDigest hash scope key ≠ aliasTail kind scope' id := by
  intro h
  obtain ⟨digest, hdigest⟩ := documentDigest_toList scope key
  have h := congrArg String.toList h
  rw [hdigest, aliasTail_toList] at h
  simp at h

theorem documentDigest_ne_entityIdKey {scope : Option String} {key : DatastoreKey} {id : EntityId} :
    documentDigest hash scope key ≠ entityIdKey id := by
  intro h
  obtain ⟨digest, hdigest⟩ := documentDigest_toList scope key
  have h := congrArg String.toList h
  rw [hdigest] at h
  cases id <;> simp [entityIdKey_string, entityIdKey_number, entityIdKey_datastoreInt64] at h

theorem aliasTail_ne_entityIdKey {kind : AliasKind} {scope : Option String} {id id' : EntityId} :
    aliasTail kind scope id ≠ entityIdKey id' := by
  intro h
  have h := congrArg String.toList h
  rw [aliasTail_toList] at h
  cases kind <;> cases id' <;>
    simp [AliasKind.text, entityIdKey_string, entityIdKey_number,
      entityIdKey_datastoreInt64] at h

end

/-! ## The order keys of an event -/

section
variable {documentIdentity : String → Option String → EntityId → Option DatastoreKey → String}

/-- The three kinds of keys in `outboxEntityOrderKeys`. -/
theorem mem_outboxEntityOrderKeys {event : OutboxEvent D} {modelId : EntityId}
    (hid : event.modelId = some modelId) {key : String} :
    key ∈ outboxEntityOrderKeys documentIdentity event ↔
      (∃ identity, event.modelIdentity = some identity ∧ key = orderKey event.model identity) ∨
      ((event.modelDatastoreAncestor.isSome ∨ event.modelDatastoreScope.isSome) ∧
        key = orderKey event.model (documentIdentity event.model event.modelDatastoreScope modelId
          event.modelDatastoreAncestor)) ∨
      (event.modelIdentity = none ∧ event.modelDatastoreAncestor = none ∧
        event.modelDatastoreScope = none ∧ key = orderKey event.model (entityIdKey modelId)) := by
  have htail : ∀ tail, s!"{event.model}:{tail}" = orderKey event.model tail := fun _ => rfl
  have hdocument : ∀ tail, s!"{event.model}:" ++ tail = orderKey event.model tail := fun _ => rfl
  unfold outboxEntityOrderKeys
  rw [hid]
  simp only [htail, hdocument]
  cases event.modelIdentity with
  | some identity =>
    cases event.modelDatastoreAncestor <;> cases event.modelDatastoreScope <;> simp
  | none =>
    cases event.modelDatastoreAncestor <;> cases event.modelDatastoreScope <;> simp

theorem mem_appendAlias {keys : List String} {added : Option String} {key : String} :
    key ∈ appendAlias keys added ↔ key ∈ keys ∨ added = some key := by
  cases added with
  | none => simp [appendAlias]
  | some other =>
    unfold appendAlias appendOutboxEntityOrderKey
    dsimp only
    split
    · next hmem =>
      rw [Option.some_inj]
      exact ⟨.inl, fun h => h.elim id fun h => h ▸ hmem⟩
    · rw [List.mem_append, List.mem_singleton, Option.some_inj]
      exact or_congr_right eq_comm

theorem aliasKey_eq_some {p : OutboxEvent D → Bool} {event : OutboxEvent D} {modelId : EntityId}
    (hid : event.modelId = some modelId) {kind : AliasKind} {key : String} :
    aliasKey? p event kind = some key ↔
      p event = true ∧ key = orderKey event.model (aliasTail kind event.modelDatastoreScope modelId) := by
  unfold aliasKey?
  rw [hid]
  cases p event with
  | false => simp
  | true =>
    rw [if_pos rfl, Option.map_some, outboxDatastoreAliasKey_eq, Option.some_inj]
    exact ⟨fun h => ⟨rfl, h.symm⟩, fun h => h.2.symm⟩

/-- The order keys with the given aliases for an identity and for an ancestor without namespace. -/
def keysWith (documentIdentity : String → Option String → EntityId → Option DatastoreKey → String)
    (kind kind' : AliasKind) (event : OutboxEvent D) : List String :=
  appendAlias (appendAlias (outboxEntityOrderKeys documentIdentity event)
    (aliasKey? outboxIsDatastoreIdentityOnlyEvent event kind))
    (aliasKey? outboxIsNamespaceLessDatastoreAncestorEvent event kind')

theorem mem_keysWith {kind kind' : AliasKind} {event : OutboxEvent D}
    {modelId : EntityId} (hid : event.modelId = some modelId) {key : String} :
    key ∈ keysWith documentIdentity kind kind' event ↔
      key ∈ outboxEntityOrderKeys documentIdentity event ∨
      (outboxIsDatastoreIdentityOnlyEvent event = true ∧
        key = orderKey event.model (aliasTail kind event.modelDatastoreScope modelId)) ∨
      (outboxIsNamespaceLessDatastoreAncestorEvent event = true ∧
        key = orderKey event.model (aliasTail kind' event.modelDatastoreScope modelId)) := by
  rw [keysWith, mem_appendAlias, mem_appendAlias, aliasKey_eq_some hid, aliasKey_eq_some hid,
    or_assoc]

theorem conflicts_iff {earlier later : OutboxEvent D} :
    Conflicts documentIdentity earlier later = true ↔
      ∃ key ∈ keysWith documentIdentity .namespaceLessAncestor .identityOnly later,
        key ∈ keysWith documentIdentity .identityOnly .namespaceLessAncestor earlier :=
  outboxEntityOrderKeysBlocked_iff

end

/-! ## Which events share a key -/

/-- Both directions of a conflict. -/
def Ordered (hash : String → String) (e f : OutboxEvent D) : Prop :=
  Conflicts (orderIdentity hash) e f = true ∧ Conflicts (orderIdentity hash) f e = true

/-- The order keys of the event contain the identity of its document: it carries that identity, or
an ancestor whose namespace is known. -/
def NamesDocument (ns : Option String) (event : OutboxEvent D) : Prop :=
  event.modelIdentity.isSome ∨ ∃ ancestor, event.modelDatastoreAncestor = some ancestor ∧
    (event.modelDatastoreScope.isSome ∨ ancestor.ns.isSome ∨ ns = none)

/-- Neither event has an ancestor, and both are named in the same way. -/
def BothUnanchored (e f : OutboxEvent D) : Prop :=
  e.modelDatastoreAncestor = none ∧ f.modelDatastoreAncestor = none ∧
    (e.modelDatastoreScope.isSome ∨ e.modelIdentity = none ∧ f.modelIdentity = none)

/-- Two events of one document share a key. -/
def SharesOrderKey (model : SearchMeta D) (ns : Option String) (e f : OutboxEvent D) : Prop :=
  model.ancestors = none ∨ (NamesDocument ns e ∧ NamesDocument ns f) ∨
    (outboxIsNamespaceLessDatastoreAncestorEvent e = true ∧
      outboxIsNamespaceLessDatastoreAncestorEvent f = true) ∨
    (e.modelId.map entityIdKey = f.modelId.map entityIdKey ∧
      (BothUnanchored e f ∨
        (outboxIsDatastoreIdentityOnlyEvent e = true ∧
          outboxIsNamespaceLessDatastoreAncestorEvent f = true) ∨
        (outboxIsNamespaceLessDatastoreAncestorEvent e = true ∧
          outboxIsDatastoreIdentityOnlyEvent f = true)))

/-- The event has been accepted and resolved to a document identity in the context of a store. -/
structure Resolved (hash : String → String) (store : ScopeStore) (model : SearchMeta D)
    (event : OutboxEvent D) (document : Option String) : Prop where
  sanitized : sanitizeOutboxEvent true event = .ok event
  model_eq : event.model = model.name
  /-- `assertOutboxDatastoreProjectId`. -/
  scope : event.modelDatastoreScope = model.datastoreSearchScope
  resolved : ∃ data allow, outboxEventSearchDocumentIdentity hash event model data
    store.datastoreNamespace allow = .ok document

/-- The same identity, or the same row where a model has no identities. -/
def SameDocument (e f : OutboxEvent D) (document document' : Option String) : Prop :=
  document = document' ∧ (document = none → e.modelId.map entityIdKey = f.modelId.map entityIdKey)

/-! ## Models with ancestors -/

section
variable {hash : String → String} {store : ScopeStore} {model : SearchMeta D}

theorem orderIdentity_none (name : String) (scope : Option String) (id : EntityId) :
    orderIdentity hash name scope id none =
      documentDigest hash scope ⟨scope.bind datastoreSearchScopeNamespace, [(name, id)]⟩ := by
  cases scope <;>
    simp [orderIdentity, datastoreSearchDocumentIdentity, optionalKeyWithNamespace, Except.map,
      Except.toOption]

theorem orderIdentity_some {name : String} {scope : Option String} {id : EntityId}
    {stored stored' : DatastoreKey}
    (h : datastoreKeyWithNamespace stored ((scope.map datastoreSearchScopeNamespace).getD none) =
      .ok stored') :
    orderIdentity hash name scope id (some stored) =
      documentDigest hash scope ⟨stored'.ns, stored'.path ++ [(name, id)]⟩ := by
  rw [orderIdentity, datastoreSearchDocumentIdentity_some h]
  rfl

theorem datastoreKeyWithNamespace_none {key : DatastoreKey} (h : key.path ≠ []) :
    datastoreKeyWithNamespace key none = .ok key := by
  rw [datastoreKeyWithNamespace, if_neg h]

variable {event : OutboxEvent D} {document : Option String}

/-- A resolved event of a model with ancestors carries the identity of its document alone, or its
ancestor is known. -/
theorem Resolved.ancestor (h : Resolved hash store model event document)
    (hscope : ∀ scope, model.datastoreSearchScope = some scope →
      datastoreSearchScopeNamespace scope = store.datastoreNamespace)
    (hancestors : model.ancestors ≠ none) :
    ∃ modelId found, event.modelId = some modelId ∧ document = some found ∧
      (∀ identity, event.modelIdentity = some identity → identity = found) ∧
      ((event.modelDatastoreAncestor = none ∧ event.modelIdentity = some found) ∨
        ∃ ancestor, AncestorResolved hash model.name model.datastoreSearchScope
          store.datastoreNamespace event modelId found ancestor) := by
  obtain ⟨data, allow, hresolved⟩ := h.resolved
  unfold outboxEventSearchDocumentIdentity at hresolved
  cases hid : event.modelId with
  | none =>
    rw [hid] at hresolved
    cases hresolved
  | some modelId =>
    obtain ⟨ancestors, hancestors⟩ := Option.ne_none_iff_exists'.mp hancestors
    rw [hid, hancestors] at hresolved
    obtain ⟨dataAncestor, hdata, hresolved⟩ := Except.bind_eq_ok.mp hresolved
    have hwithin : ∀ key, dataAncestor = some key →
        datastoreKeyWithNamespace key store.datastoreNamespace = .ok key := by
      rintro key rfl
      cases data with
      | none => cases hdata
      | some data => exact outboxEventDataDatastoreAncestor_some hdata
    rcases ancestorDocumentIdentity_ok hscope hwithin hresolved with ⟨hanchor, hsome, heq⟩ |
      ⟨found, ancestor, heq, hfound⟩
    · obtain ⟨found, hfound⟩ := Option.isSome_iff_exists.mp hsome
      refine ⟨modelId, found, rfl, heq.trans hfound, ?_, .inl ⟨hanchor, hfound⟩⟩
      intro identity hidentity
      exact Option.some.inj (hidentity.symm.trans hfound)
    · exact ⟨modelId, found, rfl, heq, hfound.identity, .inr ⟨ancestor, hfound⟩⟩

theorem AncestorResolved.orderIdentity_scoped {name : String} {scope : String} {ns : Option String}
    {modelId : EntityId} {found : String} {ancestor stored : DatastoreKey}
    (h : AncestorResolved hash name (some scope) ns event modelId found ancestor)
    (hscope : datastoreSearchScopeNamespace scope = ns)
    (hstored : event.modelDatastoreAncestor = some stored) :
    orderIdentity hash name (some scope) modelId (some stored) = found := by
  obtain ⟨stored', hwith, hns, hpath⟩ := h.stored stored hstored
  have hwithin : datastoreKeyWithNamespace stored
      (((some scope).map datastoreSearchScopeNamespace).getD none) = .ok stored' := by
    rw [Option.map_some, Option.getD_some, hscope, hwith]
  rw [orderIdentity_some hwithin, h.document_eq]
  refine documentDigest_congr hns ?_
  simp only [pathKeys, List.map_append] at hpath ⊢
  rw [hpath]

theorem AncestorResolved.orderIdentity_unscoped {name : String} {ns : Option String}
    {modelId : EntityId} {found : String} {ancestor stored : DatastoreKey}
    (h : AncestorResolved hash name none ns event modelId found ancestor)
    (hstored : event.modelDatastoreAncestor = some stored) :
    orderIdentity hash name none modelId (some stored) =
        documentDigest hash none ⟨stored.ns, stored.path ++ [(name, modelId)]⟩ ∧
      stored.ns.or ns = ancestor.ns ∧ pathKeys stored.path = pathKeys ancestor.path := by
  obtain ⟨stored', hwith, hns, hpath⟩ := h.stored stored hstored
  obtain ⟨hne, hpath', hns', -⟩ := datastoreKeyWithNamespace_ok hwith
  exact ⟨orderIdentity_some (datastoreKeyWithNamespace_none hne), hns'.symm.trans hns,
    hpath' ▸ hpath⟩

end

/-! ## Events that share a key -/

section
variable {hash : String → String} {e f : OutboxEvent D} {modelId modelId' : EntityId}

theorem ordered_of_mem (he : e.modelId = some modelId) (hf : f.modelId = some modelId')
    {key : String} (hkey : key ∈ outboxEntityOrderKeys (orderIdentity hash) e)
    (hkey' : key ∈ outboxEntityOrderKeys (orderIdentity hash) f) : Ordered hash e f :=
  ⟨conflicts_iff.mpr ⟨key, (mem_keysWith hf).mpr (.inl hkey'), (mem_keysWith he).mpr (.inl hkey)⟩,
    conflicts_iff.mpr ⟨key, (mem_keysWith he).mpr (.inl hkey), (mem_keysWith hf).mpr (.inl hkey')⟩⟩

/-- The alias keys tie an event with an identity only to one with an ancestor without namespace. -/
theorem ordered_of_alias (he : e.modelId = some modelId) (hf : f.modelId = some modelId')
    (hmodel : e.model = f.model) (hscope : e.modelDatastoreScope = f.modelDatastoreScope)
    (hrow : entityIdKey modelId = entityIdKey modelId')
    (hidentity : outboxIsDatastoreIdentityOnlyEvent e = true)
    (hless : outboxIsNamespaceLessDatastoreAncestorEvent f = true) : Ordered hash e f := by
  have hkey : ∀ kind, orderKey e.model (aliasTail kind e.modelDatastoreScope modelId) =
      orderKey f.model (aliasTail kind f.modelDatastoreScope modelId') := by
    intro kind
    unfold aliasTail
    rw [hmodel, hscope, hrow]
  constructor
  · exact conflicts_iff.mpr ⟨_, (mem_keysWith hf).mpr (.inr (.inr ⟨hless, rfl⟩)),
      (mem_keysWith he).mpr (.inr (.inl ⟨hidentity, (hkey _).symm⟩))⟩
  · exact conflicts_iff.mpr ⟨_, (mem_keysWith he).mpr (.inr (.inl ⟨hidentity, rfl⟩)),
      (mem_keysWith hf).mpr (.inr (.inr ⟨hless, hkey _⟩))⟩

theorem Ordered.symm (h : Ordered hash e f) : Ordered hash f e := ⟨h.2, h.1⟩

variable {store : ScopeStore} {model : SearchMeta D} {document document' : Option String}

/-- What a resolved event says about its document, for a model without ancestors. -/
theorem Resolved.plain {event : OutboxEvent D} (h : Resolved hash store model event document)
    (hplain : model.ancestors = none) :
    ∃ id, event.modelId = some id ∧ event.modelDatastoreAncestor = none ∧
      (event.modelIdentity = none ∨ event.modelIdentity = document) ∧
      document = event.modelDatastoreScope.map fun scope =>
        orderIdentity hash event.model (some scope) id none := by
  obtain ⟨data, allow, hresolved⟩ := h.resolved
  unfold outboxEventSearchDocumentIdentity at hresolved
  cases hid : event.modelId with
  | none =>
    rw [hid] at hresolved
    cases hresolved
  | some id =>
    rw [hid, hplain] at hresolved
    dsimp only at hresolved
    unfold plainDocumentIdentity at hresolved
    split at hresolved
    · cases hresolved
    · next hanchor =>
      obtain ⟨identity, hidentity, hresolved⟩ := Except.bind_eq_ok.mp hresolved
      have hdoc : identity = event.modelDatastoreScope.map fun scope =>
          orderIdentity hash event.model (some scope) id none := by
        rw [h.scope, h.model_eq]
        cases hs : model.datastoreSearchScope with
        | none =>
          rw [hs] at hidentity
          exact (Except.ok.inj hidentity).symm
        | some scope =>
          rw [hs] at hidentity
          obtain ⟨found, hfound, rfl⟩ := Except.map_eq_ok.mp hidentity
          simp [orderIdentity, hfound, Except.toOption]
      refine ⟨id, rfl, by simpa using hanchor, ?_⟩
      split at hresolved
      · cases hresolved
      · next hmatch =>
        obtain rfl := Except.ok.inj hresolved
        refine ⟨?_, hdoc⟩
        cases hmi : event.modelIdentity with
        | none => exact .inl rfl
        | some identity => exact .inr (by simpa [hmi] using hmatch)

/-- Events of a model without ancestors have one key. -/
theorem ordered_of_plain (hplain : model.ancestors = none)
    (he : Resolved hash store model e document) (hf : Resolved hash store model f document')
    (hsame : SameDocument e f document document') : Ordered hash e f := by
  obtain ⟨id, hid, hanchor, hidentity, hdoc⟩ := he.plain hplain
  obtain ⟨id', hid', hanchor', hidentity', hdoc'⟩ := hf.plain hplain
  obtain ⟨hsame, hrow⟩ := hsame
  cases hs : model.datastoreSearchScope with
  | none =>
    rw [he.scope, hs] at hdoc
    rw [hf.scope, hs] at hdoc'
    have hrow := hrow hdoc
    rw [hid, hid'] at hrow
    have hnone : e.modelIdentity = none := hidentity.elim (fun h => h) fun h => h.trans hdoc
    have hnone' : f.modelIdentity = none := hidentity'.elim (fun h => h) fun h => h.trans hdoc'
    refine ordered_of_mem hid hid' ((mem_outboxEntityOrderKeys hid).mpr
      (.inr (.inr ⟨hnone, hanchor, he.scope.trans hs, rfl⟩)))
      ((mem_outboxEntityOrderKeys hid').mpr (.inr (.inr ⟨hnone', hanchor', hf.scope.trans hs, ?_⟩)))
    rw [he.model_eq, hf.model_eq, Option.some.inj hrow]
  | some scope =>
    have hes := he.scope.trans hs
    have hfs := hf.scope.trans hs
    rw [hes] at hdoc
    rw [hfs] at hdoc'
    refine ordered_of_mem hid hid' ((mem_outboxEntityOrderKeys hid).mpr (.inr (.inl ⟨?_, rfl⟩)))
      ((mem_outboxEntityOrderKeys hid').mpr (.inr (.inl ⟨?_, ?_⟩)))
    · exact .inr (by rw [hes]; rfl)
    · exact .inr (by rw [hfs]; rfl)
    · have heq := hdoc.symm.trans (hsame.trans hdoc')
      rw [hes, hfs, hanchor, hanchor', he.model_eq, hf.model_eq] at *
      exact congrArg (orderKey model.name) (Option.some.inj heq)

end

section
variable {hash : String → String} {e f : OutboxEvent D}
variable {store : ScopeStore} {model : SearchMeta D} {document : Option String}

/-- An event that names its document has the identity of the document among its order keys. -/
theorem Resolved.mem_of_names {found : String} (h : Resolved hash store model e (some found))
    (hscope : ∀ scope, model.datastoreSearchScope = some scope →
      datastoreSearchScopeNamespace scope = store.datastoreNamespace)
    (hancestors : model.ancestors ≠ none) (hnames : NamesDocument store.datastoreNamespace e) :
    orderKey model.name found ∈ outboxEntityOrderKeys (orderIdentity hash) e := by
  obtain ⟨modelId, found', hid, hfound, hidentity, hcases⟩ := h.ancestor hscope hancestors
  obtain rfl := Option.some.inj hfound
  rw [mem_outboxEntityOrderKeys hid, h.model_eq]
  rcases hnames with hsome | ⟨stored, hstored, hns⟩
  · obtain ⟨identity, hi⟩ := Option.isSome_iff_exists.mp hsome
    exact .inl ⟨identity, hi, by rw [hidentity identity hi]⟩
  · rcases hcases with ⟨hnone, -⟩ | ⟨ancestor, hancestor⟩
    · rw [hnone] at hstored
      cases hstored
    · refine .inr (.inl ⟨.inl (by rw [hstored]; rfl), congrArg (orderKey model.name) ?_⟩)
      rw [hstored, h.scope]
      cases hs : model.datastoreSearchScope with
      | some scope =>
        rw [hs] at hancestor
        exact (hancestor.orderIdentity_scoped (hscope scope hs) hstored).symm
      | none =>
        rw [hs] at hancestor
        obtain ⟨horder, hor, hpath⟩ := hancestor.orderIdentity_unscoped hstored
        rw [horder, hancestor.document_eq]
        refine documentDigest_congr ?_ ?_
        · rw [h.scope, hs] at hns
          rcases hns with hns | hns | hns
          · cases hns
          · obtain ⟨ns, hns⟩ := Option.isSome_iff_exists.mp hns
            rw [hns] at hor ⊢
            exact hor.symm
          · rw [hns, Option.or_none] at hor
            exact hor.symm
        · simp only [pathKeys, List.map_append] at hpath ⊢
          rw [hpath]

theorem outboxIsNamespaceLessDatastoreAncestorEvent_iff {event : OutboxEvent D}
    {modelId : EntityId} (hid : event.modelId = some modelId) :
    outboxIsNamespaceLessDatastoreAncestorEvent event = true ↔
      ∃ stored, event.modelDatastoreAncestor = some stored ∧ stored.ns = none := by
  rw [outboxIsNamespaceLessDatastoreAncestorEvent, hid]
  cases event.modelDatastoreAncestor <;> simp

theorem outboxIsDatastoreIdentityOnlyEvent_ancestor {event : OutboxEvent D}
    (h : outboxIsDatastoreIdentityOnlyEvent event = true) :
    event.modelDatastoreAncestor = none ∧ event.modelIdentity.isSome := by
  simp only [outboxIsDatastoreIdentityOnlyEvent, Bool.and_eq_true] at h
  refine ⟨Option.isNone_iff_eq_none.mp h.1.2, ?_⟩
  cases hi : event.modelIdentity with
  | none =>
    rw [hi] at h
    cases h.2
  | some identity => rfl

/-- An event that does not name its document has no identity, and no ancestor or one whose
namespace only the context knows. -/
theorem Resolved.unnamed {event : OutboxEvent D} (h : Resolved hash store model event document)
    (hnames : ¬ NamesDocument store.datastoreNamespace event) :
    event.modelIdentity = none ∧ ∀ stored, event.modelDatastoreAncestor = some stored →
      model.datastoreSearchScope = none ∧ stored.ns = none ∧
        ∃ ns, store.datastoreNamespace = some ns := by
  refine ⟨?_, fun stored hstored => ?_⟩
  · by_contra hne
    exact hnames (.inl (Option.isSome_iff_ne_none.mpr hne))
  · refine ⟨?_, ?_, ?_⟩
    · by_contra hne
      refine hnames (.inr ⟨stored, hstored, .inl ?_⟩)
      rw [h.scope]
      exact Option.isSome_iff_ne_none.mpr hne
    · by_contra hne
      exact hnames (.inr ⟨stored, hstored, .inr (.inl (Option.isSome_iff_ne_none.mpr hne))⟩)
    · by_contra hne
      refine hnames (.inr ⟨stored, hstored, .inr (.inr ?_)⟩)
      exact Option.eq_none_iff_forall_ne_some.mpr fun ns hns => hne ⟨ns, hns⟩

/-- Two ancestors without namespace that lead to one document have one identity. -/
theorem ordered_of_namespaceLess (hhash : Function.Injective hash)
    (hscope : ∀ scope, model.datastoreSearchScope = some scope →
      datastoreSearchScopeNamespace scope = store.datastoreNamespace)
    (hancestors : model.ancestors ≠ none)
    (he : Resolved hash store model e document) (hf : Resolved hash store model f document)
    (hless : outboxIsNamespaceLessDatastoreAncestorEvent e = true)
    (hless' : outboxIsNamespaceLessDatastoreAncestorEvent f = true) : Ordered hash e f := by
  obtain ⟨id, found, hid, hfound, -, hcases⟩ := he.ancestor hscope hancestors
  obtain ⟨id', found', hid', hfound', -, hcases'⟩ := hf.ancestor hscope hancestors
  obtain ⟨stored, hstored, hns⟩ := (outboxIsNamespaceLessDatastoreAncestorEvent_iff hid).mp hless
  obtain ⟨stored', hstored', hns'⟩ := (outboxIsNamespaceLessDatastoreAncestorEvent_iff hid').mp hless'
  cases hs : model.datastoreSearchScope with
  | some scope =>
    rw [hfound] at he hf
    refine ordered_of_mem hid hid'
      (he.mem_of_names hscope hancestors (.inr ⟨stored, hstored, .inl ?_⟩))
      (hf.mem_of_names hscope hancestors (.inr ⟨stored', hstored', .inl ?_⟩))
    · rw [he.scope, hs]
      rfl
    · rw [hf.scope, hs]
      rfl
  | none =>
    rcases hcases with ⟨hnone, -⟩ | ⟨ancestor, hancestor⟩
    · rw [hnone] at hstored
      cases hstored
    rcases hcases' with ⟨hnone, -⟩ | ⟨ancestor', hancestor'⟩
    · rw [hnone] at hstored'
      cases hstored'
    rw [hs] at hancestor hancestor'
    obtain ⟨horder, -, hpath⟩ := hancestor.orderIdentity_unscoped hstored
    obtain ⟨horder', -, hpath'⟩ := hancestor'.orderIdentity_unscoped hstored'
    have hdoc : found = found' := Option.some.inj (hfound.symm.trans hfound')
    rw [hancestor.document_eq, hancestor'.document_eq] at hdoc
    obtain ⟨-, hkeys⟩ := documentDigest_inj hhash (by simp) (by simp) hdoc
    refine ordered_of_mem hid hid' ((mem_outboxEntityOrderKeys hid).mpr (.inr (.inl ⟨?_, rfl⟩)))
      ((mem_outboxEntityOrderKeys hid').mpr (.inr (.inl ⟨?_, ?_⟩)))
    · exact .inl (by rw [hstored]; rfl)
    · exact .inl (by rw [hstored']; rfl)
    · rw [hstored, hstored', he.scope, hf.scope, hs, he.model_eq, hf.model_eq, horder, horder']
      refine congrArg (orderKey model.name) (documentDigest_congr (hns.trans hns'.symm) ?_)
      simp only [pathKeys, List.map_append] at hpath hpath' hkeys ⊢
      rw [hpath, hpath', hkeys]

/-- Without ancestors, the row of an event is named by its id alone. -/
theorem ordered_of_unanchored (he : Resolved hash store model e document)
    (hf : Resolved hash store model f document) {id id' : EntityId} (hid : e.modelId = some id)
    (hid' : f.modelId = some id') (hrow : entityIdKey id = entityIdKey id')
    (h : BothUnanchored e f) : Ordered hash e f := by
  obtain ⟨hanchor, hanchor', hnamed⟩ := h
  cases hs : model.datastoreSearchScope with
  | some scope =>
    refine ordered_of_mem hid hid' ((mem_outboxEntityOrderKeys hid).mpr (.inr (.inl ⟨?_, rfl⟩)))
      ((mem_outboxEntityOrderKeys hid').mpr (.inr (.inl ⟨?_, ?_⟩)))
    · exact .inr (by rw [he.scope, hs]; rfl)
    · exact .inr (by rw [hf.scope, hs]; rfl)
    · rw [hanchor, hanchor', he.scope, hf.scope, hs, he.model_eq, hf.model_eq, orderIdentity_none,
        orderIdentity_none]
      refine congrArg (orderKey model.name) (documentDigest_congr rfl ?_)
      simp only [pathKeys, List.map_cons, List.map_nil, hrow]
  | none =>
    obtain ⟨hidentity, hidentity'⟩ : e.modelIdentity = none ∧ f.modelIdentity = none := by
      rcases hnamed with hnamed | hnamed
      · rw [he.scope, hs] at hnamed
        cases hnamed
      · exact hnamed
    refine ordered_of_mem hid hid'
      ((mem_outboxEntityOrderKeys hid).mpr (.inr (.inr ⟨hidentity, hanchor, he.scope.trans hs, rfl⟩)))
      ((mem_outboxEntityOrderKeys hid').mpr
        (.inr (.inr ⟨hidentity', hanchor', hf.scope.trans hs, ?_⟩)))
    rw [he.model_eq, hf.model_eq, hrow]

theorem ordered_of_shares (hhash : Function.Injective hash)
    (hscope : ∀ scope, model.datastoreSearchScope = some scope →
      datastoreSearchScopeNamespace scope = store.datastoreNamespace)
    (hancestors : model.ancestors ≠ none)
    (he : Resolved hash store model e document) (hf : Resolved hash store model f document)
    (h : SharesOrderKey model store.datastoreNamespace e f) : Ordered hash e f := by
  obtain ⟨id, found, hid, hfound, -, -⟩ := he.ancestor hscope hancestors
  obtain ⟨id', -, hid', -, -, -⟩ := hf.ancestor hscope hancestors
  have hmodel : e.model = f.model := he.model_eq.trans hf.model_eq.symm
  have hscopes : e.modelDatastoreScope = f.modelDatastoreScope := he.scope.trans hf.scope.symm
  rcases h with h | ⟨hnames, hnames'⟩ | ⟨hless, hless'⟩ | ⟨hrow, h⟩
  · exact absurd h hancestors
  · rw [hfound] at he hf
    exact ordered_of_mem hid hid' (he.mem_of_names hscope hancestors hnames)
      (hf.mem_of_names hscope hancestors hnames')
  · exact ordered_of_namespaceLess hhash hscope hancestors he hf hless hless'
  · rw [hid, hid'] at hrow
    have hrow := Option.some.inj hrow
    rcases h with h | ⟨hidentity, hless⟩ | ⟨hless, hidentity⟩
    · exact ordered_of_unanchored he hf hid hid' hrow h
    · exact ordered_of_alias hid hid' hmodel hscopes hrow hidentity hless
    · exact (ordered_of_alias hid' hid hmodel.symm hscopes.symm hrow.symm hidentity hless).symm

/-- The order key by id alone is not the identity of a document below an ancestor. -/
theorem AncestorResolved.ne_unanchored (hhash : Function.Injective hash) {name : String}
    {scope ns : Option String} {modelId modelId' : EntityId} {found : String}
    {ancestor : DatastoreKey}
    (h : AncestorResolved hash name scope ns e modelId found ancestor) (sns : Option String) :
    documentDigest hash scope ⟨sns, [(name, modelId')]⟩ ≠ found := by
  intro heq
  rw [h.document_eq] at heq
  obtain ⟨-, hpath⟩ := documentDigest_inj hhash (by simp) (by simp) heq
  have hlength := congrArg List.length hpath
  simp only [pathKeys, List.length_map, List.length_append, List.length_singleton] at hlength
  exact h.path (List.length_eq_zero_iff.mp (by omega))

/-- What a key of an event says, for a model with ancestors. -/
theorem Resolved.key_cases
    (hscope : ∀ scope, model.datastoreSearchScope = some scope →
      datastoreSearchScopeNamespace scope = store.datastoreNamespace)
    {found : String} (h : Resolved hash store model e (some found)) {id : EntityId}
    (hid : e.modelId = some id)
    (hancestors : model.ancestors ≠ none) {kind kind' : AliasKind} {tail : String}
    (hkey : orderKey model.name tail ∈ keysWith (orderIdentity hash) kind kind' e) :
    (tail = found ∧ NamesDocument store.datastoreNamespace e) ∨
      (∃ stored : DatastoreKey, e.modelDatastoreAncestor = some stored ∧ stored.path ≠ [] ∧
        model.datastoreSearchScope = none ∧
        tail = documentDigest hash none ⟨stored.ns, stored.path ++ [(model.name, id)]⟩) ∨
      (e.modelDatastoreAncestor = none ∧ model.datastoreSearchScope.isSome ∧
        tail = documentDigest hash model.datastoreSearchScope
          ⟨model.datastoreSearchScope.bind datastoreSearchScopeNamespace, [(model.name, id)]⟩) ∨
      (e.modelIdentity = none ∧ e.modelDatastoreAncestor = none ∧
        model.datastoreSearchScope = none ∧ tail = entityIdKey id) ∨
      (outboxIsDatastoreIdentityOnlyEvent e = true ∧
        tail = aliasTail kind model.datastoreSearchScope id) ∨
      (outboxIsNamespaceLessDatastoreAncestorEvent e = true ∧
        tail = aliasTail kind' model.datastoreSearchScope id) := by
  obtain ⟨id', found', hid', hfound, hidentity, hcases⟩ := h.ancestor hscope hancestors
  obtain rfl := Option.some.inj hfound
  obtain rfl : id = id' := Option.some.inj (hid.symm.trans hid')
  rw [mem_keysWith hid, mem_outboxEntityOrderKeys hid, h.model_eq, h.scope] at hkey
  rcases hkey with (⟨identity, hi, hkey⟩ | ⟨hanchored, hkey⟩ | ⟨hi, ha, hs, hkey⟩) | ⟨hio, hkey⟩ |
    ⟨hless, hkey⟩
  · exact .inl ⟨(orderKey_inj hkey).trans (hidentity identity hi), .inl (by rw [hi]; rfl)⟩
  · have hkey := orderKey_inj hkey
    cases ha : e.modelDatastoreAncestor with
    | none =>
      rw [ha, orderIdentity_none] at hkey
      refine .inr (.inr (.inl ⟨rfl, hanchored.resolve_left ?_, hkey⟩))
      rw [ha]
      exact Bool.false_ne_true
    | some stored =>
      rcases hcases with ⟨hnone, -⟩ | ⟨ancestor, hancestor⟩
      · rw [hnone] at ha
        cases ha
      rw [ha] at hkey
      cases hs : model.datastoreSearchScope with
      | some scope =>
        rw [hs] at hancestor hkey
        rw [hancestor.orderIdentity_scoped (hscope scope hs) ha] at hkey
        exact .inl ⟨hkey, .inr ⟨stored, ha, .inl (by rw [h.scope, hs]; rfl)⟩⟩
      | none =>
        rw [hs] at hancestor hkey
        obtain ⟨stored', hwith, -⟩ := hancestor.stored stored ha
        refine .inr (.inl ⟨stored, rfl, (datastoreKeyWithNamespace_ok hwith).1, rfl, ?_⟩)
        rw [hkey, (hancestor.orderIdentity_unscoped ha).1]
  · exact .inr (.inr (.inr (.inl ⟨hi, ha, hs, orderKey_inj hkey⟩)))
  · exact .inr (.inr (.inr (.inr (.inl ⟨hio, orderKey_inj hkey⟩))))
  · exact .inr (.inr (.inr (.inr (.inr ⟨hless, orderKey_inj hkey⟩))))

/-- A key of an event that names its row by an ancestor without namespace. -/
theorem shares_of_namespaceLess (hhash : Function.Injective hash)
    (hscope : ∀ scope, model.datastoreSearchScope = some scope →
      datastoreSearchScopeNamespace scope = store.datastoreNamespace)
    (hancestors : model.ancestors ≠ none) {found : String}
    (he : Resolved hash store model e (some found)) (hf : Resolved hash store model f (some found))
    (hnames : ¬ NamesDocument store.datastoreNamespace f) {stored : DatastoreKey}
    (hstored : f.modelDatastoreAncestor = some stored) {kind kind' : AliasKind} {tail : String}
    (hkey : orderKey model.name tail ∈ keysWith (orderIdentity hash) kind kind' f)
    (hkey' : orderKey model.name tail ∈ keysWith (orderIdentity hash) kind' kind e) :
    SharesOrderKey model store.datastoreNamespace e f := by
  obtain ⟨id, _, hid, -, -, -⟩ := he.ancestor hscope hancestors
  obtain ⟨id', found', hid', hfound, -, hcases⟩ := hf.ancestor hscope hancestors
  obtain rfl := Option.some.inj hfound
  obtain ⟨-, hanchored⟩ := hf.unnamed hnames
  obtain ⟨hs, hns, ns, hcontext⟩ := hanchored stored hstored
  have hless : outboxIsNamespaceLessDatastoreAncestorEvent f = true :=
    (outboxIsNamespaceLessDatastoreAncestorEvent_iff hid').mpr ⟨stored, hstored, hns⟩
  have hkey := hf.key_cases hscope hid' hancestors hkey
  have hkey' := he.key_cases hscope hid hancestors hkey'
  -- The document lies in the namespace of the context, the key of the ancestor does not.
  have hne : documentDigest hash none ⟨stored.ns, stored.path ++ [(model.name, id')]⟩ ≠ found := by
    rcases hcases with ⟨hnone, -⟩ | ⟨ancestor, hancestor⟩
    · rw [hnone] at hstored
      cases hstored
    · rw [hs] at hancestor
      intro heq
      rw [hancestor.document_eq] at heq
      have hns' := (documentDigest_inj hhash (by simp) (by simp) heq).1
      have hor := (hancestor.orderIdentity_unscoped hstored).2.1
      rw [← hns', hns, hcontext] at hor
      cases hor
  have hdigest : ∃ key, found = documentDigest hash model.datastoreSearchScope key := by
    rcases hcases with ⟨hnone, -⟩ | ⟨ancestor, hancestor⟩
    · rw [hnone] at hstored
      cases hstored
    · exact ⟨_, hancestor.document_eq⟩
  obtain ⟨documentKey, hdigest⟩ := hdigest
  by_cases hless' : outboxIsNamespaceLessDatastoreAncestorEvent e = true
  · exact .inr (.inr (.inl ⟨hless', hless⟩))
  rcases hkey with ⟨-, hnames'⟩ | ⟨stored', hstored', hpath, -, rfl⟩ | ⟨hnone, -⟩ | ⟨-, hnone, -⟩ |
    ⟨hio, -⟩ | ⟨-, rfl⟩
  · exact absurd hnames' hnames
  · obtain rfl := Option.some.inj (hstored.symm.trans hstored')
    rcases hkey' with ⟨heq, -⟩ | ⟨other, hother, hpath', -, heq⟩ | ⟨-, hsome, -⟩ | ⟨-, -, -, heq⟩ |
      ⟨-, heq⟩ | ⟨hless', -⟩
    · exact absurd heq hne
    · have hother' := (documentDigest_inj hhash (by simp) (by simp) heq).1
      exact absurd ((outboxIsNamespaceLessDatastoreAncestorEvent_iff hid).mpr
        ⟨other, hother, hother'.symm.trans hns⟩) hless'
    · rw [hs] at hsome
      cases hsome
    · exact absurd heq documentDigest_ne_entityIdKey
    · exact absurd heq documentDigest_ne_aliasTail
    · exact .inr (.inr (.inl ⟨hless', hless⟩))
  · rw [hnone] at hstored
    cases hstored
  · rw [hnone] at hstored
    cases hstored
  · rw [(outboxIsDatastoreIdentityOnlyEvent_ancestor hio).1] at hstored
    cases hstored
  · rcases hkey' with ⟨heq, -⟩ | ⟨other, hother, hpath', -, heq⟩ | ⟨-, -, heq⟩ | ⟨-, -, -, heq⟩ |
      ⟨hio, heq⟩ | ⟨hless', -⟩
    · rw [hdigest] at heq
      exact absurd heq.symm documentDigest_ne_aliasTail
    · exact absurd heq.symm documentDigest_ne_aliasTail
    · exact absurd heq.symm documentDigest_ne_aliasTail
    · exact absurd heq aliasTail_ne_entityIdKey
    · refine .inr (.inr (.inr ⟨?_, .inr (.inl ⟨hio, hless⟩)⟩))
      rw [hid, hid', Option.map_some, Option.map_some, aliasTail_inj heq]
    · exact .inr (.inr (.inl ⟨hless', hless⟩))

/-- A key of an event that names its row by its id alone. -/
theorem shares_of_unanchored (hhash : Function.Injective hash)
    (hscope : ∀ scope, model.datastoreSearchScope = some scope →
      datastoreSearchScopeNamespace scope = store.datastoreNamespace)
    (hancestors : model.ancestors ≠ none) {found : String}
    (he : Resolved hash store model e (some found)) (hf : Resolved hash store model f (some found))
    (hnames : ¬ NamesDocument store.datastoreNamespace f)
    (hunanchored : f.modelDatastoreAncestor = none) {kind kind' : AliasKind} {tail : String}
    (hkey : orderKey model.name tail ∈ keysWith (orderIdentity hash) kind kind' f)
    (hkey' : orderKey model.name tail ∈ keysWith (orderIdentity hash) kind' kind e) :
    SharesOrderKey model store.datastoreNamespace e f := by
  obtain ⟨id, _, hid, -, -, -⟩ := he.ancestor hscope hancestors
  obtain ⟨id', found', hid', hfound, -, hcases⟩ := hf.ancestor hscope hancestors
  obtain rfl := Option.some.inj hfound
  have hidentity := (hf.unnamed hnames).1
  obtain ⟨ancestor, hancestor⟩ := hcases.resolve_left fun h => by
    rw [hidentity] at h
    cases h.2
  have hrow : entityIdKey id = entityIdKey id' →
      e.modelId.map entityIdKey = f.modelId.map entityIdKey := by
    intro h
    rw [hid, hid', Option.map_some, Option.map_some, h]
  rcases hf.key_cases hscope hid' hancestors hkey with ⟨-, hnames'⟩ | ⟨stored, hstored, -⟩ |
    ⟨-, hsome, rfl⟩ | ⟨-, -, hs, rfl⟩ | ⟨hio, -⟩ | ⟨hless, -⟩
  · exact absurd hnames' hnames
  · rw [hunanchored] at hstored
    cases hstored
  · rcases he.key_cases hscope hid hancestors hkey' with ⟨heq, -⟩ | ⟨-, -, -, hnone, -⟩ |
      ⟨hanchor, -, heq⟩ | ⟨-, -, hnone, -⟩ | ⟨-, heq⟩ | ⟨-, heq⟩
    · exact absurd heq (hancestor.ne_unanchored hhash _)
    · rw [hnone] at hsome
      cases hsome
    · have hpath := (documentDigest_inj hhash (by simp) (by simp) heq).2
      refine .inr (.inr (.inr ⟨hrow ?_, .inl ⟨hanchor, hunanchored, .inl ?_⟩⟩))
      · exact (Prod.mk.inj (List.cons.inj hpath).1).2.symm
      · rw [he.scope]
        exact hsome
    · rw [hnone] at hsome
      cases hsome
    · exact absurd heq documentDigest_ne_aliasTail
    · exact absurd heq documentDigest_ne_aliasTail
  · rcases he.key_cases hscope hid hancestors hkey' with ⟨heq, -⟩ | ⟨_, -, -, -, heq⟩ |
      ⟨-, hsome, -⟩ | ⟨hnone, hanchor, -, heq⟩ | ⟨-, heq⟩ | ⟨-, heq⟩
    · rw [hancestor.document_eq] at heq
      exact absurd heq.symm documentDigest_ne_entityIdKey
    · exact absurd heq.symm documentDigest_ne_entityIdKey
    · rw [hs] at hsome
      cases hsome
    · exact .inr (.inr (.inr ⟨hrow heq.symm, .inl ⟨hanchor, hunanchored, .inr ⟨hnone, hidentity⟩⟩⟩))
    · exact absurd heq.symm aliasTail_ne_entityIdKey
    · exact absurd heq.symm aliasTail_ne_entityIdKey
  · have := (outboxIsDatastoreIdentityOnlyEvent_ancestor hio).2
    rw [hidentity] at this
    cases this
  · obtain ⟨stored, hstored, -⟩ := (outboxIsNamespaceLessDatastoreAncestorEvent_iff hid').mp hless
    rw [hunanchored] at hstored
    cases hstored

/-- All keys of an event start with its model. -/
theorem exists_orderKey {event : OutboxEvent D} {id : EntityId} (hid : event.modelId = some id)
    {kind kind' : AliasKind} {key : String}
    (hkey : key ∈ keysWith (orderIdentity hash) kind kind' event) :
    ∃ tail, key = orderKey event.model tail := by
  rw [mem_keysWith hid, mem_outboxEntityOrderKeys hid] at hkey
  rcases hkey with (⟨_, -, h⟩ | ⟨-, h⟩ | ⟨-, -, -, h⟩) | ⟨-, h⟩ | ⟨-, h⟩
  all_goals exact ⟨_, h⟩

/-- A key of an event that does not name its document is a key of another event only if the two
share a name. -/
theorem shares_of_key (hhash : Function.Injective hash)
    (hscope : ∀ scope, model.datastoreSearchScope = some scope →
      datastoreSearchScopeNamespace scope = store.datastoreNamespace)
    (hancestors : model.ancestors ≠ none)
    (he : Resolved hash store model e document) (hf : Resolved hash store model f document)
    (hnames : ¬ NamesDocument store.datastoreNamespace f) {kind kind' : AliasKind} {key : String}
    (hkey : key ∈ keysWith (orderIdentity hash) kind kind' f)
    (hkey' : key ∈ keysWith (orderIdentity hash) kind' kind e) :
    SharesOrderKey model store.datastoreNamespace e f := by
  obtain ⟨id, found, hid, rfl, -, -⟩ := hf.ancestor hscope hancestors
  obtain ⟨tail, rfl⟩ := exists_orderKey hid hkey
  rw [hf.model_eq] at hkey hkey'
  cases hanchor : f.modelDatastoreAncestor with
  | none => exact shares_of_unanchored hhash hscope hancestors he hf hnames hanchor hkey hkey'
  | some stored =>
    exact shares_of_namespaceLess hhash hscope hancestors he hf hnames hanchor hkey hkey'

theorem SharesOrderKey.symm {ns : Option String}
    (hscope : e.modelDatastoreScope = f.modelDatastoreScope) (h : SharesOrderKey model ns e f) :
    SharesOrderKey model ns f e := by
  rcases h with h | ⟨h, h'⟩ | ⟨h, h'⟩ | ⟨hrow, ⟨h, h', hnamed⟩ | ⟨h, h'⟩ | ⟨h, h'⟩⟩
  · exact .inl h
  · exact .inr (.inl ⟨h', h⟩)
  · exact .inr (.inr (.inl ⟨h', h⟩))
  · exact .inr (.inr (.inr ⟨hrow.symm, .inl ⟨h', h, hscope ▸ hnamed.imp_right And.symm⟩⟩))
  · exact .inr (.inr (.inr ⟨hrow.symm, .inr (.inr ⟨h', h⟩)⟩))
  · exact .inr (.inr (.inr ⟨hrow.symm, .inr (.inl ⟨h', h⟩)⟩))

end

variable {hash : String → String} {e f : OutboxEvent D}
variable {store : ScopeStore} {model : SearchMeta D} {document document' : Option String}

/-- The events of one document are ordered exactly when they share a name of it. -/
theorem ordered_iff (hhash : Function.Injective hash)
    (hstore : datastoreSearchScopeForStore store = .ok model.datastoreSearchScope)
    (he : Resolved hash store model e document) (hf : Resolved hash store model f document')
    (hsame : SameDocument e f document document') :
    Ordered hash e f ↔ SharesOrderKey model store.datastoreNamespace e f := by
  have hscope : ∀ scope, model.datastoreSearchScope = some scope →
      datastoreSearchScopeNamespace scope = store.datastoreNamespace := by
    intro scope hs
    rw [hs] at hstore
    exact datastoreSearchScopeForStore_ns hstore
  have hscopes : e.modelDatastoreScope = f.modelDatastoreScope := he.scope.trans hf.scope.symm
  by_cases hplain : model.ancestors = none
  · exact ⟨fun _ => .inl hplain, fun _ => ordered_of_plain hplain he hf hsame⟩
  obtain rfl := hsame.1
  constructor
  · rintro ⟨h, -⟩
    obtain ⟨key, hkey, hkey'⟩ := conflicts_iff.mp h
    by_cases hnames : NamesDocument store.datastoreNamespace f
    · by_cases hnames' : NamesDocument store.datastoreNamespace e
      · exact .inr (.inl ⟨hnames', hnames⟩)
      · exact (shares_of_key hhash hscope hplain hf he hnames' hkey' hkey).symm hscopes.symm
    · exact shares_of_key hhash hscope hplain he hf hnames hkey hkey'
  · exact ordered_of_shares hhash hscope hplain he hf

/-! A store that only has a namespace, and three events of one of its rows: one names the row by an
ancestor without namespace, one by the ancestor in the namespace, one by its identity alone. -/

def tenantStore : ScopeStore where
  isDatastore := false
  cacheScope := none
  datastoreProjectId := none
  datastoreDatabaseId := none
  datastoreNamespace := some "tenant"
  datastoreKeyEncoding := none
  clientScope := false

def postModel : SearchMeta Unit where
  name := "post"
  datastoreSearchScope := none
  ancestors := some ⟨fun _ => false, fun _ _ => .ok none, fun _ _ => .ok none⟩

def postIdentity : String :=
  documentDigest id none ⟨some "tenant", [("user", .number 7), ("post", .number 1)]⟩

def inheritingEvent : OutboxEvent Unit :=
  { waitingEvent with
    id := "a", modelIdentity := none, modelDatastoreAncestor := some ⟨none, [("user", .number 7)]⟩ }

def namespacedEvent : OutboxEvent Unit :=
  { inheritingEvent with
    id := "b", modelDatastoreAncestor := some ⟨some "tenant", [("user", .number 7)]⟩ }

def identityEvent : OutboxEvent Unit :=
  { inheritingEvent with
    id := "c", modelIdentity := some postIdentity, modelDatastoreAncestor := none }

theorem resolved_inheritingEvent :
    Resolved id tenantStore postModel inheritingEvent (some postIdentity) :=
  ⟨rfl, rfl, rfl, none, false, rfl⟩

theorem resolved_namespacedEvent :
    Resolved id tenantStore postModel namespacedEvent (some postIdentity) :=
  ⟨rfl, rfl, rfl, none, false, rfl⟩

theorem resolved_identityEvent :
    Resolved id tenantStore postModel identityEvent (some postIdentity) :=
  ⟨rfl, rfl, rfl, none, true, rfl⟩

theorem ordered_iff_identity : Ordered id inheritingEvent identityEvent ↔
    SharesOrderKey postModel (some "tenant") inheritingEvent identityEvent :=
  ordered_iff Function.injective_id rfl resolved_inheritingEvent resolved_identityEvent
    ⟨rfl, fun h => absurd h (Option.some_ne_none _)⟩

/-- The two ancestors lead to one document, but their events share no key. -/
theorem not_ordered_inheriting :
    Resolved id tenantStore postModel inheritingEvent (some postIdentity) ∧
      Resolved id tenantStore postModel namespacedEvent (some postIdentity) ∧
      ¬ Ordered id inheritingEvent namespacedEvent := by
  refine ⟨resolved_inheritingEvent, resolved_namespacedEvent, fun h => ?_⟩
  have : Conflicts (orderIdentity id) inheritingEvent namespacedEvent = false := by decide
  rw [h.1] at this
  cases this

end ActiveTs.Outbox
