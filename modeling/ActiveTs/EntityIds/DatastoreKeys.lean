import ActiveTs.EntityIds.Keys
import ActiveTs.Lib.Framing

/-! # Ancestors of Datastore entities

A Datastore key is a path of kinds and ids below a namespace. The key of an entity is given to the SDK
as a flat path, or comes back as a chain of key objects; both are read for the ancestor of the
entity. -/

namespace ActiveTs.EntityIds

open Utf16 (Units ofString encode decode)

/-! ## Keys -/

structure DatastoreKeyPart where
  kind : Units
  id : EntityId
  deriving DecidableEq

structure DatastoreKey where
  path : List DatastoreKeyPart
  ns : Option Units
  deriving DecidableEq

inductive DatastoreKeyEncoding
  | activeTs
  | native
  deriving DecidableEq

/-- A value of unknown type. -/
inductive Value
  /-- A string or a number. -/
  | primitive (value : EntityId)
  | other
  deriving DecidableEq

def letter (unit : Fin 65536) : Bool :=
  (65 ≤ unit.1 && unit.1 ≤ 90) || (97 ≤ unit.1 && unit.1 ≤ 122)

/-- `/^[A-Za-z][A-Za-z0-9_-]*$/` -/
def SAFE_SCHEMA_IDENTIFIER : Units → Bool
  | [] => false
  | first :: rest =>
    letter first && rest.all fun unit => letter unit || isDigit unit || unit.1 = 95 || unit.1 = 45

def isReservedFieldName (field : Units) : Bool :=
  (ofString "__").isPrefixOf field || field = ofString "__proto__" || field = ofString "constructor" ||
    field = ofString "prototype"

def MAX_SCHEMA_IDENTIFIER_BYTES : Nat := 63

/-- `assertSafeSchemaIdentifier` and `assertSafePhysicalIdentifierLength`. -/
def normalizeDatastoreKind : Value → Except ValidationError Units
  | .primitive (.string kind) =>
    if !SAFE_SCHEMA_IDENTIFIER kind || isReservedFieldName kind then .error .unsafeKind
    else if MAX_SCHEMA_IDENTIFIER_BYTES < byteLength kind then .error .unsafeKind
    else .ok kind
  | _ => .error .unsafeKind

def normalizeDatastoreEntityId : Value → Except ValidationError EntityId
  | .primitive id => do
    assertSafeEntityId id
    .ok id
  | .other => .error .notAnId

def normalizeDatastoreNamespace : Option Value → Except ValidationError (Option Units)
  | none => .ok none
  | some (.primitive (.string ns)) =>
    if ns = [] || ns.contains 0 then .error .badNamespace else .ok (some ns)
  | some _ => .error .badNamespace

def normalizeDatastoreKeyPart (kind id : Value) : Except ValidationError DatastoreKeyPart := do
  let kind ← normalizeDatastoreKind kind
  let id ← normalizeDatastoreEntityId id
  .ok ⟨kind, id⟩

def normalizeParts : List (Value × Value) → Except ValidationError (List DatastoreKeyPart)
  | [] => .ok []
  | part :: parts => do
    let first ← normalizeDatastoreKeyPart part.1 part.2
    let rest ← normalizeParts parts
    .ok (first :: rest)

/-- A key object `{ path, namespace }` of unknown content. -/
def normalizeDatastoreKey (path : List (Value × Value)) (ns : Option Value) :
    Except ValidationError DatastoreKey :=
  if path = [] then .error .emptyPath
  else do
    let parts ← normalizeParts path
    let ns ← normalizeDatastoreNamespace ns
    .ok ⟨parts, ns⟩

namespace DatastoreKey

def values (path : List DatastoreKeyPart) : List (Value × Value) :=
  path.map fun part => (.primitive (.string part.kind), .primitive part.id)

def normalize (key : DatastoreKey) : Except ValidationError DatastoreKey :=
  normalizeDatastoreKey (values key.path) (key.ns.map fun ns => .primitive (.string ns))

end DatastoreKey

/-! ## Flat paths -/

def assertNativeDatastoreEntityId (value : EntityId) : Except ValidationError EntityId := do
  assertSafeEntityId value
  if isDatastoreInt64Id value then .ok value
  else if value = .number (JsNumber.ofRat false 0) then .error .zeroId
  else .ok value

def pathValue (keyEncoding : DatastoreKeyEncoding) (id : EntityId) : Except ValidationError EntityId :=
  match keyEncoding with
  | .native => assertNativeDatastoreEntityId id
  | .activeTs => (entityIdKey id).map .string

def partValues (keyEncoding : DatastoreKeyEncoding) :
    List DatastoreKeyPart → Except ValidationError (List EntityId)
  | [] => .ok []
  | part :: path => do
    let id ← pathValue keyEncoding part.id
    let rest ← partValues keyEncoding path
    .ok (.string part.kind :: id :: rest)

def datastoreKeyPathValues (key : DatastoreKey) (keyEncoding : DatastoreKeyEncoding) :
    Except ValidationError (List EntityId) := do
  let safeKey ← key.normalize
  partValues keyEncoding safeKey.path

/-! ## Identities -/

/-- A text behind its length. -/
def lengthText (text : Units) : Units :=
  Utf16.decimal text.length ++ ofString ":" ++ text ++ ofString ":"

def identityPart (kind idKey : Units) : Units :=
  ofString "kind:" ++ lengthText kind ++ ofString "id:" ++ lengthText idKey

def identityParts : List DatastoreKeyPart → Except ValidationError Units
  | [] => .ok []
  | part :: path => do
    let id ← entityIdKey part.id
    let rest ← identityParts path
    .ok (identityPart part.kind id ++ rest)

def datastoreKeyIdentity (key : DatastoreKey) : Except ValidationError Units := do
  let safeKey ← key.normalize
  let path ← identityParts safeKey.path
  .ok (ofString "namespace:" ++ (safeKey.ns.map lengthText).getD [] ++ path)

/-! ## Keys of entities -/

/-- The properties of a key object of the SDK beside its path. -/
structure KeyPartObject where
  kind : Option Value
  name : Option Value
  id : Option Value

/-- What a path may hold: flat values, or parts. -/
inductive PathItem
  | value (value : Value)
  | part (kind id : Value)

/-- The key of an entity, with the key objects of its parents. -/
structure EntityKeyObject where
  self : KeyPartObject
  parents : List KeyPartObject
  path : Option (List PathItem)
  ns : Option Value

def datastorePathKind (value : Option Value) : Except ValidationError Units :=
  normalizeDatastoreKind (value.getD .other)

def datastoreEntityIdFromNativeNumeric : EntityId → Except ValidationError EntityId
  | .number value => assertNativeDatastoreEntityId (.number value)
  | .string value =>
    if !canonicalDecimal value then .error .notCanonicalInteger
    else if safeRange (bigInt value) then
      assertNativeDatastoreEntityId (.number (JsNumber.ofRat false (bigInt value)))
    else datastoreInt64Id value

namespace KeyPartObject

def entityId (part : KeyPartObject) : Except ValidationError EntityId :=
  match part.name, part.id with
  | some _, some _ => .error .nameAndId
  | some (.primitive (.string name)), none => do
    assertSafeEntityId (.string name)
    .ok (.string name)
  | some _, none => .error .nameNotString
  | none, some (.primitive id) => datastoreEntityIdFromNativeNumeric id
  | none, _ => .error .idNotNumeric

end KeyPartObject

/-- The parts of a chain of key objects, from the entity to the root. -/
def chainParts : List KeyPartObject → Except ValidationError (List DatastoreKeyPart)
  | [] => .ok []
  | part :: parents => do
    let kind ← datastorePathKind part.kind
    let id ← part.entityId
    let rest ← chainParts parents
    .ok (⟨kind, id⟩ :: rest)

def datastorePathId (value : Value) (keyEncoding : DatastoreKeyEncoding) :
    Except ValidationError EntityId :=
  match value with
  | .primitive (.number value) =>
    match keyEncoding with
    | .native => assertNativeDatastoreEntityId (.number value)
    | .activeTs => normalizeDatastoreEntityId (.primitive (.number value))
  | .primitive (.string value) =>
    match keyEncoding with
    | .native => do
      assertSafeEntityId (.string value)
      if integerPattern value then .error .numericSegment else .ok (.string value)
    | .activeTs =>
      if integerPattern value then do
        assertSafeEntityId (.number (numberOf value))
        if encode (JsNumber.text (numberOf value)) = value then .ok (.number (numberOf value))
        else .error .notCanonicalKey
      else if value.contains colon then entityIdFromCanonicalKey value
      else entityIdFromKey value
  | .other => normalizeDatastoreEntityId .other

/-- A flat path by pairs; `none` when it is empty or odd. -/
def kindIdPairs : List Value → Option (List (Value × Value))
  | kind :: id :: path =>
    if path.isEmpty then some [(kind, id)] else (kindIdPairs path).map ((kind, id) :: ·)
  | _ => none

def PathItem.flat : PathItem → Value
  | value v => v
  | part _ _ => .other

/-- The parts of a path of parts; `none` when an item is none. -/
def partsOf : List PathItem → Option (List (Value × Value))
  | [] => some []
  | .part kind id :: path => (partsOf path).map ((kind, id) :: ·)
  | .value _ :: _ => none

def checkFinalId (finalId expectedId : EntityId) : Except ValidationError Unit := do
  let finalKey ← entityIdKey finalId
  let expectedKey ← entityIdKey expectedId
  if finalKey = expectedKey then .ok () else .error .finalId

def assertNativeParts : List DatastoreKeyPart → Except ValidationError Unit
  | [] => .ok ()
  | part :: path => do
    let _ ← assertNativeDatastoreEntityId part.id
    assertNativeParts path

/-- The ancestor of an entity whose key has been read as parts. -/
def ancestorOfKey (key : DatastoreKey) (modelKind : Units) (expectedId : EntityId)
    (keyEncoding : DatastoreKeyEncoding) : Except ValidationError (Option DatastoreKey) := do
  if keyEncoding = .native then assertNativeParts key.path
  match key.path.getLast? with
  | none => .error .emptyPath
  | some final =>
    if final.kind ≠ modelKind then .error .finalKind
    else do
      checkFinalId final.id expectedId
      if key.path.length = 1 then .ok none
      else do
        let ancestor ← DatastoreKey.normalize ⟨key.path.dropLast, key.ns⟩
        .ok (some ancestor)

def decodePairs (keyEncoding : DatastoreKeyEncoding) :
    List (Value × Value) → Except ValidationError (List DatastoreKeyPart)
  | [] => .ok []
  | pair :: pairs => do
    let kind ← datastorePathKind (some pair.1)
    let id ← datastorePathId pair.2 keyEncoding
    let rest ← decodePairs keyEncoding pairs
    .ok (⟨kind, id⟩ :: rest)

/-- The ancestor of an entity with a flat path. -/
def ancestorOfFlatPath (path : List Value) (ns : Option Value) (modelKind : Units)
    (expectedId : EntityId) (keyEncoding : DatastoreKeyEncoding) :
    Except ValidationError (Option DatastoreKey) :=
  match kindIdPairs path with
  | none => .error .notKindIdPairs
  | some pairs =>
    match pairs.getLast? with
    | none => .error .notKindIdPairs
    | some last => do
      let finalKind ← datastorePathKind (some last.1)
      if finalKind ≠ modelKind then .error .finalKind
      else do
        let finalId ← datastorePathId last.2 keyEncoding
        checkFinalId finalId expectedId
        let ns ← normalizeDatastoreNamespace ns
        if pairs.length = 1 then .ok none
        else do
          let path ← decodePairs keyEncoding pairs.dropLast
          let ancestor ← DatastoreKey.normalize ⟨path, ns⟩
          .ok (some ancestor)

def datastoreAncestorFromEntityKey (key : EntityKeyObject) (modelKind : Units) (expectedId : EntityId)
    (keyEncoding : DatastoreKeyEncoding) : Except ValidationError (Option DatastoreKey) :=
  if keyEncoding = .native ∧ key.self.kind.isSome then do
    let reversedPath ← chainParts (key.self :: key.parents)
    let normalized ← normalizeDatastoreKey (DatastoreKey.values reversedPath.reverse) key.ns
    ancestorOfKey normalized modelKind expectedId keyEncoding
  else
    match key.path with
    | none => .ok none
    | some (.part kind id :: path) =>
      match partsOf (.part kind id :: path) with
      | none => .error .notAnId
      | some parts => do
        let normalized ← normalizeDatastoreKey parts key.ns
        ancestorOfKey normalized modelKind expectedId keyEncoding
    | some path => ancestorOfFlatPath (path.map PathItem.flat) key.ns modelKind expectedId keyEncoding

/-! ## Key objects of a path -/

/-- `{ path, namespace }` with a flat path. -/
def flatKeyObject (path : List EntityId) (ns : Option Units) : EntityKeyObject where
  self := ⟨none, none, none⟩
  parents := []
  path := some (path.map fun value => .value (.primitive value))
  ns := ns.map fun ns => .primitive (.string ns)

/-- The key object for a kind and an id; `client.int` keeps a 64-bit integer as its digits. -/
def sdkPart (kind : EntityId) : EntityId → KeyPartObject
  | .number value => ⟨some (.primitive kind), none, some (.primitive (.number value))⟩
  | .string value =>
    match datastoreInt64Decimal value with
    | some decimal => ⟨some (.primitive kind), none, some (.primitive (.string decimal))⟩
    | none => ⟨some (.primitive kind), some (.primitive (.string value)), none⟩

/-- The key objects of a flat path, from the root. -/
def sdkParts : List EntityId → List KeyPartObject
  | kind :: id :: path => sdkPart kind id :: sdkParts path
  | _ => []

/-- What `client.key` builds from a flat path. -/
def sdkKeyObject (path : List EntityId) (ns : Option Units) : EntityKeyObject :=
  match (sdkParts path).reverse with
  | self :: parents => { flatKeyObject path ns with self := self, parents := parents }
  | [] => flatKeyObject path ns

/-! ## Normal keys -/

/-- A part that normalization keeps. -/
structure SafePart (part : DatastoreKeyPart) : Prop where
  kind : normalizeDatastoreKind (.primitive (.string part.kind)) = .ok part.kind
  id : assertSafeEntityId part.id = .ok ()

theorem normalizeDatastoreKind_ok {kind : Units} {value : Value}
    (h : normalizeDatastoreKind value = .ok kind) : value = .primitive (.string kind) := by
  unfold normalizeDatastoreKind at h
  split at h
  · split at h
    · cases h
    · split at h
      · cases h
      · cases h
        rfl
  · cases h

theorem normalizeDatastoreEntityId_eq_ok {id id' : EntityId} :
    normalizeDatastoreEntityId (.primitive id) = .ok id' ↔ assertSafeEntityId id = .ok () ∧ id' = id := by
  rw [normalizeDatastoreEntityId, Except.bind_eq_ok]
  constructor
  · rintro ⟨⟨⟩, hsafe, h⟩
    exact ⟨hsafe, (Except.ok.inj h).symm⟩
  · rintro ⟨hsafe, rfl⟩
    exact ⟨(), hsafe, rfl⟩

theorem normalizeParts_ok {path parts : List DatastoreKeyPart}
    (h : normalizeParts (DatastoreKey.values path) = .ok parts) :
    parts = path ∧ ∀ part ∈ path, SafePart part := by
  induction path generalizing parts with
  | nil =>
    cases h
    exact ⟨rfl, fun part hpart => absurd hpart List.not_mem_nil⟩
  | cons part path ih =>
    obtain ⟨first, hfirst, hrest⟩ := Except.bind_eq_ok.mp h
    obtain ⟨rest, hparts, hresult⟩ := Except.bind_eq_ok.mp hrest
    cases hresult
    obtain ⟨kind, hkind, hidRest⟩ := Except.bind_eq_ok.mp hfirst
    obtain ⟨id, hid, hresult⟩ := Except.bind_eq_ok.mp hidRest
    cases hresult
    obtain ⟨hsafe, rfl⟩ := normalizeDatastoreEntityId_eq_ok.mp hid
    have hsame := EntityId.string.inj (Value.primitive.inj (normalizeDatastoreKind_ok hkind))
    obtain rfl : part.kind = kind := hsame
    obtain ⟨rfl, hsafeParts⟩ := ih hparts
    exact ⟨rfl, List.forall_mem_cons.mpr ⟨⟨hkind, hsafe⟩, hsafeParts⟩⟩

theorem normalizeParts_of_safe {path : List DatastoreKeyPart} (h : ∀ part ∈ path, SafePart part) :
    normalizeParts (DatastoreKey.values path) = .ok path := by
  induction path with
  | nil => rfl
  | cons part path ih =>
    rw [List.forall_mem_cons] at h
    have hpart : normalizeDatastoreKeyPart (.primitive (.string part.kind)) (.primitive part.id) =
        .ok part := by
      apply Except.bind_eq_ok.mpr
      refine ⟨part.kind, h.1.kind, Except.bind_eq_ok.mpr ⟨part.id, ?_, rfl⟩⟩
      exact normalizeDatastoreEntityId_eq_ok.mpr ⟨h.1.id, rfl⟩
    apply Except.bind_eq_ok.mpr
    exact ⟨part, hpart, Except.bind_eq_ok.mpr ⟨path, ih h.2, rfl⟩⟩

def nsValue (ns : Option Units) : Option Value := ns.map fun ns => .primitive (.string ns)

theorem normalizeDatastoreNamespace_ok {ns ns' : Option Units}
    (h : normalizeDatastoreNamespace (nsValue ns) = .ok ns') : ns' = ns := by
  cases ns with
  | none =>
    cases h
    rfl
  | some ns =>
    simp only [nsValue, Option.map_some, normalizeDatastoreNamespace] at h
    split at h
    · cases h
    · cases h
      rfl

theorem normalize_eq_ok {key result : DatastoreKey} :
    key.normalize = .ok result ↔ result = key ∧ key.path ≠ [] ∧ (∀ part ∈ key.path, SafePart part) ∧
      normalizeDatastoreNamespace (nsValue key.ns) = .ok key.ns := by
  have hempty : DatastoreKey.values key.path = [] ↔ key.path = [] := List.map_eq_nil_iff
  rw [DatastoreKey.normalize, normalizeDatastoreKey]
  constructor
  · intro h
    split at h
    · cases h
    · rename_i hne
      obtain ⟨parts, hparts, hrest⟩ := Except.bind_eq_ok.mp h
      obtain ⟨ns, hns, hresult⟩ := Except.bind_eq_ok.mp hrest
      cases hresult
      obtain ⟨rfl, hsafe⟩ := normalizeParts_ok hparts
      obtain rfl := normalizeDatastoreNamespace_ok hns
      exact ⟨rfl, fun h => hne (hempty.mpr h), hsafe, hns⟩
  · rintro ⟨rfl, hne, hsafe, hns⟩
    rw [if_neg (fun h => hne (hempty.mp h))]
    apply Except.bind_eq_ok.mpr
    exact ⟨_, normalizeParts_of_safe hsafe, Except.bind_eq_ok.mpr ⟨result.ns, hns, rfl⟩⟩

/-! ## Flat paths read back -/

theorem partValues_activeTs {path : List DatastoreKeyPart} {values : List EntityId}
    (h : partValues .activeTs path = .ok values) :
    values = path.flatMap fun part => [.string part.kind, .string (keyText part.id)] := by
  induction path generalizing values with
  | nil =>
    cases h
    rfl
  | cons part path ih =>
    obtain ⟨id, hid, hrest⟩ := Except.bind_eq_ok.mp h
    obtain ⟨rest, hvalues, hresult⟩ := Except.bind_eq_ok.mp hrest
    cases hresult
    obtain ⟨key, hkey, rfl⟩ := Except.map_eq_ok.mp hid
    obtain ⟨-, rfl⟩ := entityIdKey_eq_ok.mp hkey
    rw [ih hvalues]
    rfl

theorem kindIdPairs_flatMap {path : List DatastoreKeyPart} (f : DatastoreKeyPart → EntityId)
    (h : path ≠ []) :
    kindIdPairs ((path.flatMap fun part => [EntityId.string part.kind, f part]).map .primitive) =
      some (path.map fun part => (.primitive (.string part.kind), .primitive (f part))) := by
  induction path with
  | nil => exact absurd rfl h
  | cons part path ih =>
    cases path with
    | nil => rfl
    | cons next path =>
      have hrest := ih (List.cons_ne_nil _ _)
      rw [List.flatMap_cons, List.map_append, List.map_cons, List.map_cons, List.map_nil,
        List.cons_append, List.cons_append, List.nil_append, kindIdPairs, hrest, if_neg]
      · rfl
      · simp

theorem keyText_pattern (id : EntityId) :
    integerPattern (keyText id) = false ∧ (keyText id).contains colon = true := by
  have hword (word rest : Units) (hword : integerPattern (word ++ rest) = false)
      (hcolon : word.contains colon = true) :
      integerPattern (word ++ rest) = false ∧ (word ++ rest).contains colon = true :=
    ⟨hword, by rw [List.contains_append, hcolon, Bool.true_or]⟩
  cases id with
  | string value =>
    rw [keyText]
    split
    · exact hword (ofString "datastore-int64:") _ rfl rfl
    · exact hword (ofString "string:") _ rfl rfl
  | number value => exact hword (ofString "number:") _ rfl rfl

theorem datastorePathId_keyText {id : EntityId} (hsafe : assertSafeEntityId id = .ok ()) :
    datastorePathId (.primitive (.string (keyText id))) .activeTs = .ok id := by
  obtain ⟨hpattern, hcolon⟩ := keyText_pattern id
  simp only [datastorePathId]
  rw [hpattern, if_neg Bool.false_ne_true, if_pos hcolon]
  exact entityIdFromCanonicalKey_eq_ok.mpr (entityIdKey_eq_ok.mpr ⟨hsafe, rfl⟩)

theorem decodePairs_map {path : List DatastoreKeyPart} (h : ∀ part ∈ path, SafePart part) :
    decodePairs .activeTs (path.map fun part =>
      (.primitive (.string part.kind), .primitive (.string (keyText part.id)))) = .ok path := by
  induction path with
  | nil => rfl
  | cons part path ih =>
    rw [List.forall_mem_cons] at h
    apply Except.bind_eq_ok.mpr
    refine ⟨part.kind, h.1.kind, Except.bind_eq_ok.mpr ⟨part.id, datastorePathId_keyText h.1.id, ?_⟩⟩
    exact Except.bind_eq_ok.mpr ⟨path, ih h.2, rfl⟩

theorem checkFinalId_self {id : EntityId} (hsafe : assertSafeEntityId id = .ok ()) :
    checkFinalId id id = .ok () := by
  have hkey : entityIdKey id = .ok (keyText id) := entityIdKey_eq_ok.mpr ⟨hsafe, rfl⟩
  apply Except.bind_eq_ok.mpr
  exact ⟨_, hkey, Except.bind_eq_ok.mpr ⟨_, hkey, if_pos rfl⟩⟩

/-- What an accepted key consists of. -/
theorem datastoreKeyPathValues_ok {key : DatastoreKey} {keyEncoding : DatastoreKeyEncoding}
    {values : List EntityId} (h : datastoreKeyPathValues key keyEncoding = .ok values) :
    (∀ part ∈ key.path, SafePart part) ∧
      normalizeDatastoreNamespace (nsValue key.ns) = .ok key.ns ∧
      partValues keyEncoding key.path = .ok values := by
  obtain ⟨safeKey, hnormal, hvalues⟩ := Except.bind_eq_ok.mp h
  obtain ⟨rfl, -, hsafe, hns⟩ := normalize_eq_ok.mp hnormal
  exact ⟨hsafe, hns, hvalues⟩

theorem flatKeyObject_path (values : List EntityId) (ns : Option Units) (modelKind : Units)
    (expectedId : EntityId) :
    datastoreAncestorFromEntityKey (flatKeyObject values ns) modelKind expectedId .activeTs =
      ancestorOfFlatPath (values.map .primitive) (nsValue ns) modelKind expectedId .activeTs := by
  have hflat : (values.map fun value => PathItem.value (.primitive value)).map PathItem.flat =
      values.map .primitive := by
    rw [List.map_map]
    rfl
  rw [← hflat]
  cases values <;> rfl

theorem normalize_ancestor {path : List DatastoreKeyPart} {ns : Option Units} (hne : path ≠ [])
    (hsafe : ∀ part ∈ path, SafePart part)
    (hns : normalizeDatastoreNamespace (nsValue ns) = .ok ns) :
    DatastoreKey.normalize ⟨path, ns⟩ = .ok ⟨path, ns⟩ :=
  normalize_eq_ok.mpr ⟨rfl, hne, hsafe, hns⟩

theorem ancestor_of_flat {path : List DatastoreKeyPart} {leaf : DatastoreKeyPart} {ns : Option Units}
    {values : List EntityId}
    (h : datastoreKeyPathValues ⟨path ++ [leaf], ns⟩ .activeTs = .ok values) :
    datastoreAncestorFromEntityKey (flatKeyObject values ns) leaf.kind leaf.id .activeTs =
      .ok (if path = [] then none else some ⟨path, ns⟩) := by
  obtain ⟨hsafe, hns, hvalues⟩ := datastoreKeyPathValues_ok h
  obtain ⟨hpath, hleaf⟩ := List.forall_mem_append.mp hsafe
  have hleaf := hleaf leaf List.mem_cons_self
  have hpairs := kindIdPairs_flatMap (fun part => .string (keyText part.id))
    (List.append_ne_nil_of_right_ne_nil path (List.cons_ne_nil leaf []))
  rw [← partValues_activeTs hvalues, List.map_append, List.map_cons, List.map_nil] at hpairs
  rw [flatKeyObject_path]
  simp only [ancestorOfFlatPath]
  rw [hpairs]
  simp only [List.getLast?_concat, List.dropLast_concat]
  apply Except.bind_eq_ok.mpr
  refine ⟨leaf.kind, hleaf.kind, ?_⟩
  rw [if_neg (not_not_intro rfl)]
  apply Except.bind_eq_ok.mpr
  refine ⟨leaf.id, datastorePathId_keyText hleaf.id, Except.bind_eq_ok.mpr ⟨(), checkFinalId_self hleaf.id, ?_⟩⟩
  apply Except.bind_eq_ok.mpr
  refine ⟨ns, hns, ?_⟩
  by_cases hempty : path = []
  · rw [if_pos hempty, hempty]
    rfl
  · have hlength : (path.map fun part => (Value.primitive (.string part.kind),
        Value.primitive (.string (keyText part.id)))).length ≠ 0 := by
      rw [List.length_map]
      exact fun h => hempty (List.length_eq_zero_iff.mp h)
    rw [if_neg hempty, if_neg (by rw [List.length_append]; exact fun h => hlength (Nat.succ.inj h))]
    apply Except.bind_eq_ok.mpr
    exact ⟨path, decodePairs_map hpath,
      Except.bind_eq_ok.mpr ⟨_, normalize_ancestor hempty hpath hns, rfl⟩⟩

/-! ## Chains of key objects read back -/

theorem assertNative_eq_ok {id id' : EntityId} :
    assertNativeDatastoreEntityId id = .ok id' ↔ assertSafeEntityId id = .ok () ∧
      (isDatastoreInt64Id id = false → id ≠ .number (JsNumber.ofRat false 0)) ∧ id' = id := by
  rw [assertNativeDatastoreEntityId, Except.bind_eq_ok]
  constructor
  · rintro ⟨⟨⟩, hsafe, h⟩
    split at h
    · rename_i hint64
      cases h
      exact ⟨hsafe, fun hfalse => absurd (hint64.symm.trans hfalse) (by decide), rfl⟩
    · split at h
      · cases h
      · rename_i hzero
        cases h
        exact ⟨hsafe, fun _ => hzero, rfl⟩
  · rintro ⟨hsafe, hzero, rfl⟩
    refine ⟨(), hsafe, ?_⟩
    by_cases hint64 : isDatastoreInt64Id id' = true
    · rw [if_pos hint64]
    · rw [if_neg hint64, if_neg (hzero (Bool.not_eq_true _ ▸ hint64))]

theorem partValues_native {path : List DatastoreKeyPart} {values : List EntityId}
    (h : partValues .native path = .ok values) :
    (values = path.flatMap fun part => [.string part.kind, part.id]) ∧
      ∀ part ∈ path, assertNativeDatastoreEntityId part.id = .ok part.id := by
  induction path generalizing values with
  | nil =>
    cases h
    exact ⟨rfl, fun part hpart => absurd hpart List.not_mem_nil⟩
  | cons part path ih =>
    obtain ⟨id, hid, hrest⟩ := Except.bind_eq_ok.mp h
    obtain ⟨rest, hvalues, hresult⟩ := Except.bind_eq_ok.mp hrest
    cases hresult
    obtain ⟨-, -, rfl⟩ := assertNative_eq_ok.mp hid
    obtain ⟨rfl, hnative⟩ := ih hvalues
    exact ⟨rfl, List.forall_mem_cons.mpr ⟨hid, hnative⟩⟩

theorem sdkParts_flatMap (path : List DatastoreKeyPart) :
    sdkParts (path.flatMap fun part => [.string part.kind, part.id]) =
      path.map fun part => sdkPart (.string part.kind) part.id := by
  induction path with
  | nil => rfl
  | cons part path ih =>
    rw [List.flatMap_cons, List.cons_append, List.cons_append, List.nil_append, sdkParts, ih]
    rfl

/-- The digits of a 64-bit integer are read as that integer. -/
theorem int64_of_decimal {value decimal : Units} (h : datastoreInt64Decimal value = some decimal) :
    datastoreEntityIdFromNativeNumeric (.string decimal) = .ok (.string value) := by
  have hid := (datastoreInt64Decimal_some h).2
  have hparts := hid
  rw [datastoreInt64Id] at hparts
  split at hparts
  · cases hparts
  · rename_i hcanonical
    split at hparts
    · cases hparts
    · split at hparts
      · cases hparts
      · split at hparts
        · cases hparts
        · rename_i hsafe
          rw [datastoreEntityIdFromNativeNumeric, if_neg hcanonical, if_neg hsafe, hid]

theorem entityId_sdkPart {kind id : EntityId} (h : assertNativeDatastoreEntityId id = .ok id) :
    (sdkPart kind id).entityId = .ok id := by
  obtain ⟨hsafe, -, -⟩ := assertNative_eq_ok.mp h
  cases id with
  | number value => exact h
  | string value =>
    cases hdecimal : datastoreInt64Decimal value with
    | some decimal =>
      simp only [sdkPart, hdecimal, KeyPartObject.entityId]
      exact int64_of_decimal hdecimal
    | none =>
      simp only [sdkPart, hdecimal, KeyPartObject.entityId]
      exact Except.bind_eq_ok.mpr ⟨(), hsafe, rfl⟩

theorem kind_sdkPart (kind id : EntityId) : (sdkPart kind id).kind = some (.primitive kind) := by
  cases id with
  | number value => rfl
  | string value =>
    rw [sdkPart]
    split <;> rfl

theorem chainParts_sdkParts {path : List DatastoreKeyPart} (hsafe : ∀ part ∈ path, SafePart part)
    (hnative : ∀ part ∈ path, assertNativeDatastoreEntityId part.id = .ok part.id) :
    chainParts (path.map fun part => sdkPart (.string part.kind) part.id) = .ok path := by
  induction path with
  | nil => rfl
  | cons part path ih =>
    rw [List.forall_mem_cons] at hsafe hnative
    apply Except.bind_eq_ok.mpr
    refine ⟨part.kind, ?_, Except.bind_eq_ok.mpr ⟨part.id, entityId_sdkPart hnative.1, ?_⟩⟩
    · rw [kind_sdkPart]
      exact hsafe.1.kind
    · exact Except.bind_eq_ok.mpr ⟨path, ih hsafe.2 hnative.2, rfl⟩

theorem assertNativeParts_ok {path : List DatastoreKeyPart}
    (h : ∀ part ∈ path, assertNativeDatastoreEntityId part.id = .ok part.id) :
    assertNativeParts path = .ok () := by
  induction path with
  | nil => rfl
  | cons part path ih =>
    rw [List.forall_mem_cons] at h
    exact Except.bind_eq_ok.mpr ⟨_, h.1, ih h.2⟩

theorem ancestorOfKey_append {path : List DatastoreKeyPart} {leaf : DatastoreKeyPart}
    {ns : Option Units} (hsafe : ∀ part ∈ path ++ [leaf], SafePart part)
    (hnative : ∀ part ∈ path ++ [leaf], assertNativeDatastoreEntityId part.id = .ok part.id)
    (hns : normalizeDatastoreNamespace (nsValue ns) = .ok ns) :
    ancestorOfKey ⟨path ++ [leaf], ns⟩ leaf.kind leaf.id .native =
      .ok (if path = [] then none else some ⟨path, ns⟩) := by
  obtain ⟨hpath, hleaf⟩ := List.forall_mem_append.mp hsafe
  have hleaf := hleaf leaf List.mem_cons_self
  rw [ancestorOfKey]
  apply Except.bind_eq_ok.mpr
  refine ⟨(), assertNativeParts_ok hnative, ?_⟩
  simp only [List.getLast?_concat, List.dropLast_concat]
  rw [if_neg (not_not_intro rfl)]
  apply Except.bind_eq_ok.mpr
  refine ⟨(), checkFinalId_self hleaf.id, ?_⟩
  by_cases hempty : path = []
  · rw [if_pos hempty, hempty]
    rfl
  · have hlength : path.length ≠ 0 := fun h => hempty (List.length_eq_zero_iff.mp h)
    rw [if_neg hempty, if_neg (by rw [List.length_append]; exact fun h => hlength (Nat.succ.inj h))]
    exact Except.bind_eq_ok.mpr ⟨_, normalize_ancestor hempty hpath hns, rfl⟩

theorem ancestor_of_chain {path : List DatastoreKeyPart} {leaf : DatastoreKeyPart} {ns : Option Units}
    {values : List EntityId}
    (h : datastoreKeyPathValues ⟨path ++ [leaf], ns⟩ .native = .ok values) :
    datastoreAncestorFromEntityKey (sdkKeyObject values ns) leaf.kind leaf.id .native =
      .ok (if path = [] then none else some ⟨path, ns⟩) := by
  obtain ⟨hsafe, hns, hvalues⟩ := datastoreKeyPathValues_ok h
  obtain ⟨rfl, hnative⟩ := partValues_native hvalues
  have hreverse : (sdkParts ((path ++ [leaf]).flatMap fun part => [.string part.kind, part.id])).reverse =
      sdkPart (.string leaf.kind) leaf.id ::
        path.reverse.map fun part => sdkPart (.string part.kind) part.id := by
    rw [sdkParts_flatMap, ← List.map_reverse, List.reverse_append]
    rfl
  have hchain := @chainParts_sdkParts (path ++ [leaf]).reverse
    (fun part hpart => hsafe part (List.mem_reverse.mp hpart))
    (fun part hpart => hnative part (List.mem_reverse.mp hpart))
  rw [List.reverse_append, List.reverse_singleton, List.singleton_append, List.map_cons] at hchain
  simp only [sdkKeyObject, hreverse, datastoreAncestorFromEntityKey]
  rw [if_pos ⟨trivial, by rw [kind_sdkPart]; rfl⟩]
  apply Except.bind_eq_ok.mpr
  refine ⟨_, hchain, Except.bind_eq_ok.mpr ⟨⟨path ++ [leaf], ns⟩, ?_, ?_⟩⟩
  · rw [List.reverse_cons, List.reverse_reverse]
    exact normalize_ancestor (List.append_ne_nil_of_right_ne_nil path (List.cons_ne_nil leaf [])) hsafe hns
  · exact ancestorOfKey_append hsafe hnative hns

/-! ## Identities determine keys -/

theorem lengthText_inj {s t x y : Units} (h : lengthText s ++ x = lengthText t ++ y) :
    s = t ∧ x = y := by
  have hframe (s x : Units) :
      lengthText s ++ x = Utf16.decimal s.length ++ 58 :: (s ++ (58 :: x)) := by
    rw [lengthText, List.append_assoc, List.append_assoc, List.append_assoc]
    rfl
  rw [hframe, hframe] at h
  have hfree (n : Nat) : ∀ unit ∈ Utf16.decimal n, unit ≠ 58 := by
    rintro unit hunit rfl
    exact absurd (Utf16.decimal_digits hunit).2 (by decide)
  obtain ⟨rfl, hrest⟩ := Framing.length_append_inj (fun m n => Utf16.decimal_inj) hfree h
  exact ⟨rfl, (List.cons.inj hrest).2⟩

theorem identityPart_inj {kind kind' id id' x y : Units}
    (h : identityPart kind id ++ x = identityPart kind' id' ++ y) :
    kind = kind' ∧ id = id' ∧ x = y := by
  simp only [identityPart, List.append_assoc] at h
  obtain ⟨hkind, hrest⟩ := lengthText_inj (List.append_cancel_left h)
  obtain ⟨hid, hxy⟩ := lengthText_inj (List.append_cancel_left hrest)
  exact ⟨hkind, hid, hxy⟩

theorem identityParts_cons {part : DatastoreKeyPart} {path : List DatastoreKeyPart} {text : Units}
    (h : identityParts (part :: path) = .ok text) :
    ∃ id rest, entityIdKey part.id = .ok id ∧ identityParts path = .ok rest ∧
      text = identityPart part.kind id ++ rest := by
  obtain ⟨id, hid, hrest⟩ := Except.bind_eq_ok.mp h
  obtain ⟨rest, hpath, hresult⟩ := Except.bind_eq_ok.mp hrest
  exact ⟨id, rest, hid, hpath, (Except.ok.inj hresult).symm⟩

theorem identityParts_inj {path path' : List DatastoreKeyPart} {text : Units}
    (h : identityParts path = .ok text) (h' : identityParts path' = .ok text) : path = path' := by
  induction path generalizing path' text with
  | nil =>
    cases h
    cases path' with
    | nil => rfl
    | cons part path' =>
      obtain ⟨id, rest, -, -, htext⟩ := identityParts_cons h'
      cases htext
  | cons part path ih =>
    obtain ⟨id, rest, hid, hpath, htext⟩ := identityParts_cons h
    cases path' with
    | nil =>
      cases h'
      cases htext
    | cons part' path' =>
      obtain ⟨id', rest', hid', hpath', htext'⟩ := identityParts_cons h'
      obtain ⟨hkind, rfl, rfl⟩ := identityPart_inj (htext.symm.trans htext')
      obtain ⟨kind, id⟩ := part
      obtain ⟨kind', id'⟩ := part'
      obtain rfl : kind = kind' := hkind
      obtain rfl : id = id' := entityIdKey_inj hid hid'
      rw [ih hpath hpath']

/-- A namespace starts with a digit, a path with `kind:`. -/
theorem ns_ne_path {path : List DatastoreKeyPart} {ns text x : Units} (hne : path ≠ [])
    (h : identityParts path = .ok text) : lengthText ns ++ x ≠ text := by
  intro htext
  cases path with
  | nil => exact hne rfl
  | cons part path =>
    obtain ⟨id, rest, -, -, rfl⟩ := identityParts_cons h
    obtain ⟨unit, units, hdecimal⟩ := Utf16.decimal_cons ns.length
    have hunit := @Utf16.decimal_digits ns.length unit (hdecimal ▸ List.mem_cons_self)
    rw [lengthText, hdecimal] at htext
    obtain rfl : unit = 107 := (List.cons.inj htext).1
    exact absurd hunit.2 (by decide)

theorem datastoreKeyIdentity_inj {key key' : DatastoreKey} {identity : Units}
    (h : datastoreKeyIdentity key = .ok identity) (h' : datastoreKeyIdentity key' = .ok identity) :
    key = key' := by
  obtain ⟨safeKey, hnormal, hrest⟩ := Except.bind_eq_ok.mp h
  obtain ⟨path, hpath, hresult⟩ := Except.bind_eq_ok.mp hrest
  obtain ⟨rfl, hne, -, -⟩ := normalize_eq_ok.mp hnormal
  obtain ⟨safeKey', hnormal', hrest'⟩ := Except.bind_eq_ok.mp h'
  obtain ⟨path', hpath', hresult'⟩ := Except.bind_eq_ok.mp hrest'
  obtain ⟨rfl, hne', -, -⟩ := normalize_eq_ok.mp hnormal'
  have htext := Except.ok.inj (hresult.trans hresult'.symm)
  rw [List.append_assoc, List.append_assoc] at htext
  have htext := List.append_cancel_left htext
  obtain ⟨parts, ns⟩ := safeKey
  obtain ⟨parts', ns'⟩ := safeKey'
  cases ns with
  | none =>
    cases ns' with
    | none =>
      obtain rfl : path = path' := htext
      rw [show parts = parts' from identityParts_inj hpath hpath']
    | some ns' => exact absurd htext.symm (ns_ne_path hne hpath)
  | some ns =>
    cases ns' with
    | none => exact absurd htext (ns_ne_path hne' hpath')
    | some ns' =>
      obtain ⟨rfl, rfl⟩ := lengthText_inj htext
      rw [show parts = parts' from identityParts_inj hpath hpath']

/-- The key object that an adapter gets back for an entity under an ancestor. -/
def entityKeyObject (keyEncoding : DatastoreKeyEncoding) (path : List EntityId) (ns : Option Units) :
    EntityKeyObject :=
  match keyEncoding with
  | .activeTs => flatKeyObject path ns
  | .native => sdkKeyObject path ns

/-- The ancestor of an entity is read back from its key, and its identity determines it. -/
theorem ancestor_roundTrip {keyEncoding : DatastoreKeyEncoding} {path : List DatastoreKeyPart}
    {ns : Option Units} {kind : Units} {id : EntityId} {values : List EntityId}
    (h : datastoreKeyPathValues ⟨path ++ [⟨kind, id⟩], ns⟩ keyEncoding = .ok values) :
    datastoreAncestorFromEntityKey (entityKeyObject keyEncoding values ns) kind id keyEncoding =
        .ok (if path = [] then none else some ⟨path, ns⟩) ∧
      ∀ key key' identity, datastoreKeyIdentity key = .ok identity →
        datastoreKeyIdentity key' = .ok identity → key = key' := by
  refine ⟨?_, fun key key' identity => datastoreKeyIdentity_inj⟩
  cases keyEncoding with
  | activeTs => exact @ancestor_of_flat path ⟨kind, id⟩ ns values h
  | native => exact @ancestor_of_chain path ⟨kind, id⟩ ns values h

/-- A 64-bit integer above a name that looks like a number. -/
theorem ancestor_roundTrip_int64 :
    let ancestor : List DatastoreKeyPart :=
      [⟨ofString "Org", .string (DATASTORE_INT64_ID_PREFIX ++ ofString "9007199254740993")⟩]
    ∃ values, datastoreKeyPathValues
        ⟨ancestor ++ [⟨ofString "User", .string (ofString "42")⟩], some (ofString "tenant")⟩ .native =
          .ok values ∧
      datastoreAncestorFromEntityKey (entityKeyObject .native values (some (ofString "tenant")))
          (ofString "User") (.string (ofString "42")) .native =
        .ok (if ancestor = [] then none else some ⟨ancestor, some (ofString "tenant")⟩) ∧
      ∀ key key' identity, datastoreKeyIdentity key = .ok identity →
        datastoreKeyIdentity key' = .ok identity → key = key' :=
  ⟨_, rfl, ancestor_roundTrip rfl⟩

end ActiveTs.EntityIds
