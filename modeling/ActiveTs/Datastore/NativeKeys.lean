import ActiveTs.Datastore.PlanReading

/-! # Keys that a repair can name

The parts of a key that Datastore and active-ts both have are written from their ids. They pass the
checks of the planner, and keys of such parts with one identity are one key. -/

namespace ActiveTs.Datastore

open ActiveTs.Outbox (EntityId DatastoreKey pathKeys)

/-- A part as the inventory writes it. -/
def keyPartOfId (kind : String) : EntityId → DatastoreIdInventoryKeyPart
  | .string value => ⟨kind, .name, value⟩
  | .number value => ⟨kind, .id, toString value⟩
  | .datastoreInt64 value => ⟨kind, .id, value⟩

@[simp] theorem keyPartOfId_kind (kind : String) (id : EntityId) : (keyPartOfId kind id).kind = kind := by
  cases id <;> rfl

@[simp] theorem keyPartOfId_value (kind : String) (id : EntityId) :
    (keyPartOfId kind id).value = idText id := by
  cases id <;> rfl

theorem assertSafeEntityId_eq_ok {id : EntityId} {u : Unit} :
    assertSafeEntityId id = .ok u ↔ safeEntityId id = true := by
  unfold assertSafeEntityId
  split
  · exact iff_of_true rfl ‹_›
  · exact iff_of_false (fun h => by cases h) ‹_›

theorem assertNative_eq_ok {id : EntityId} {u : Unit} :
    assertNativeDatastoreEntityId id = .ok u ↔ safeEntityId id = true ∧ id ≠ .number 0 := by
  unfold assertNativeDatastoreEntityId
  split
  · rename_i h
    apply iff_of_false (fun h => by cases h)
    rintro ⟨hsafe, _⟩
    rw [hsafe] at h
    cases h
  · rename_i h
    split
    · rename_i hzero
      exact iff_of_false (fun h => by cases h) fun h => h.2 hzero
    · rename_i hzero
      exact iff_of_true rfl ⟨by simpa using h, hzero⟩

theorem entityIdOfText_safe {value : String} (h : safeEntityId (.string value) = true) :
    entityIdOfText value = .string value := by
  simp only [safeEntityId, Bool.and_eq_true, Bool.not_eq_true'] at h
  apply entityIdOfText_string
  simpa using h.2

theorem entityId_keyPartOfId {kind : String} {id : EntityId}
    (h : assertNativeDatastoreEntityId id = .ok ()) : (keyPartOfId kind id).entityId = .ok id := by
  obtain ⟨hsafe, hzero⟩ := assertNative_eq_ok.mp h
  cases id with
  | string value => exact congrArg Except.ok (entityIdOfText_safe hsafe)
  | number value =>
    have hinteger : safeInteger value = true := hsafe
    change datastoreEntityIdFromNativeNumeric (toString value) = _
    rw [datastoreEntityIdFromNativeNumeric, decimalInteger_toString]
    dsimp only
    rw [if_pos hinteger, h]
    rfl
  | datastoreInt64 text =>
    obtain ⟨value, hvalue, hint64⟩ := safe_int64 hsafe
    simp only [int64Id, Bool.and_eq_true, Bool.not_eq_true'] at hint64
    change datastoreEntityIdFromNativeNumeric text = _
    rw [datastoreEntityIdFromNativeNumeric, hvalue]
    dsimp only
    rw [if_neg (by rw [hint64.2]; decide), datastoreInt64Id_of_safe hsafe]

theorem normalize_keyPartOfId {kind : String} {id : EntityId} (hkind : safeKind kind = true)
    (h : assertNativeDatastoreEntityId id = .ok ()) : (keyPartOfId kind id).normalize = .ok () := by
  have hentity := @entityId_keyPartOfId kind id h
  unfold DatastoreIdInventoryKeyPart.normalize
  rw [keyPartOfId_kind, hkind]
  cases id with
  | string value =>
    change assertNativeDatastoreEntityId (entityIdOfText value) = _
    rw [entityIdOfText_safe (assertNative_eq_ok.mp h).1, h]
  | number value =>
    change (datastoreEntityIdFromNativeNumeric (toString value)).map _ = _
    rw [show datastoreEntityIdFromNativeNumeric (toString value) = _ from hentity]
    rfl
  | datastoreInt64 text =>
    change (datastoreEntityIdFromNativeNumeric text).map _ = _
    rw [show datastoreEntityIdFromNativeNumeric text = _ from hentity]
    rfl

theorem datastoreInt64Id_ok {text : String} {id : EntityId} (h : datastoreInt64Id text = .ok id) :
    id = .datastoreInt64 text ∧ safeEntityId id = true := by
  unfold datastoreInt64Id at h
  split at h
  · cases h
  · rename_i n hn
    split at h
    · cases h
    · split at h
      · cases h
      · split at h
        · cases h
        · obtain rfl := Except.ok.inj h
          refine ⟨rfl, ?_⟩
          simp_all [safeEntityId, int64Id]

/-- A decimal text is the text of its id. -/
theorem native_of_numeric {text : String} {id : EntityId}
    (h : datastoreEntityIdFromNativeNumeric text = .ok id) :
    assertNativeDatastoreEntityId id = .ok () ∧ idText id = text ∧ ∀ value, id ≠ .string value := by
  unfold datastoreEntityIdFromNativeNumeric at h
  split at h
  · cases h
  · rename_i n hn
    split at h
    · obtain ⟨_, hnative, rfl⟩ := Except.map_eq_ok.mp h
      exact ⟨hnative, decimalInteger_text hn, fun _ h => by cases h⟩
    · obtain ⟨rfl, hsafe⟩ := datastoreInt64Id_ok h
      exact ⟨assertNative_eq_ok.mpr ⟨hsafe, fun h => by cases h⟩, rfl, fun _ h => by cases h⟩

/-- What an accepted part stands for. -/
theorem normalize_part_ok {part : DatastoreIdInventoryKeyPart} (h : part.normalize = .ok ()) :
    safeKind part.kind = true ∧ ∃ id, part.entityId = .ok id ∧ safeEntityId id = true := by
  obtain ⟨kind, storage, value⟩ := part
  unfold DatastoreIdInventoryKeyPart.normalize at h
  split at h
  · cases h
  · rename_i hkind
    refine ⟨by simpa using hkind, ?_⟩
    cases storage with
    | id =>
      obtain ⟨id, hid, _⟩ := Except.map_eq_ok.mp h
      exact ⟨id, hid, (assertNative_eq_ok.mp (native_of_numeric hid).1).1⟩
    | name => exact ⟨_, rfl, (assertNative_eq_ok.mp h).1⟩

/-! ## Keys -/

theorem normalizeInventoryKey_eq_ok {key : DatastoreIdInventoryKey} {kind : String}
    {ns : Option String} :
    normalizeInventoryKey key kind ns = .ok key ↔ safeNamespace key.ns = true ∧ key.ns = ns ∧
      (∀ part ∈ key.path, part.normalize = .ok ()) ∧
        ∃ leaf, key.path.getLast? = some leaf ∧ leaf.kind = kind := by
  unfold normalizeInventoryKey
  split
  · rename_i hns
    apply iff_of_false (fun h => by cases h)
    intro h
    rw [h.1] at hns
    cases hns
  · rename_i hns
    split
    · rename_i hother
      exact iff_of_false (fun h => by cases h) fun h => hother h.2.1
    · rename_i hother
      split
      · rename_i hpath
        apply iff_of_false (fun h => by cases h)
        rintro ⟨_, _, _, leaf, hleaf, _⟩
        rw [hpath] at hleaf
        cases hleaf
      · rename_i hpath
        have hleaf := List.getLast?_eq_some_getLast hpath
        rw [Except.bind_eq_ok, hleaf]
        simp only [Option.all_some, beq_iff_eq, Option.some.injEq, exists_eq_left']
        rw [← Except.forM_eq_ok]
        constructor
        · rintro ⟨⟨⟩, hparts, h⟩
          split at h
          · rename_i hkind
            exact ⟨by simpa using hns, not_not.mp hother, hparts, hkind⟩
          · cases h
        · rintro ⟨_, _, hparts, hkind⟩
          exact ⟨⟨⟩, hparts, if_pos hkind⟩

theorem keyLeaf_eq_ok {key : DatastoreIdInventoryKey} {leaf : DatastoreIdInventoryKeyPart} :
    keyLeaf key = .ok leaf ↔ key.path.getLast? = some leaf := by
  rw [keyLeaf]
  cases key.path.getLast? with
  | none => exact iff_of_false (fun h => by cases h) fun h => by cases h
  | some last => simp

/-- Every accepted key has an identity. -/
theorem identity_of_normal {key : DatastoreIdInventoryKey} {kind : String} {ns : Option String}
    (h : normalizeInventoryKey key kind ns = .ok key) :
    ∃ identity, inventoryKeyIdentity key = .ok identity := by
  obtain ⟨hns, _, hparts, leaf, hleaf, _⟩ := normalizeInventoryKey_eq_ok.mp h
  have hids : ∀ parts : List DatastoreIdInventoryKeyPart, (∀ part ∈ parts, part.normalize = .ok ()) →
      ∃ path, idPath parts = .ok path ∧ path.length = parts.length ∧
        ∀ part ∈ path, safeKind part.1 = true ∧ safeEntityId part.2 = true := by
    intro parts hparts
    induction parts with
    | nil => exact ⟨[], rfl, rfl, fun _ h => absurd h List.not_mem_nil⟩
    | cons part parts ih =>
      rw [List.forall_mem_cons] at hparts
      obtain ⟨hkind, id, hid, hsafe⟩ := normalize_part_ok hparts.1
      obtain ⟨path, hpath, hlength, hall⟩ := ih hparts.2
      refine ⟨(part.kind, id) :: path, ?_, congrArg (· + 1) hlength,
        List.forall_mem_cons.mpr ⟨⟨hkind, hsafe⟩, hall⟩⟩
      rw [idPath, hid, hpath]
      rfl
  obtain ⟨path, hpath, hlength, hall⟩ := hids key.path hparts
  have hne : path ≠ [] := by
    rintro rfl
    rw [List.eq_nil_of_length_eq_zero hlength.symm] at hleaf
    cases hleaf
  have hnormal : normalizeDatastoreKey ⟨key.ns, path⟩ = .ok ⟨key.ns, path⟩ := by
    rw [normalizeDatastoreKey, if_neg hne, if_neg, if_neg, if_neg]
    · simp [hns]
    · simpa using fun a b hab => (hall (a, b) hab).2
    · simpa using fun a b hab => (hall (a, b) hab).1
  refine ⟨Outbox.datastoreKeyIdentity ⟨key.ns, path⟩, ?_⟩
  rw [inventoryKeyIdentity, inventoryKeyToLogicalKey, hpath]
  change normalizeDatastoreKey ⟨key.ns, path⟩ >>= datastoreKeyIdentity = _
  rw [hnormal]
  change datastoreKeyIdentity ⟨key.ns, path⟩ = _
  rw [datastoreKeyIdentity, hnormal]
  rfl

/-- A part that Datastore and active-ts both have. -/
def DatastoreIdInventoryKeyPart.Native (part : DatastoreIdInventoryKeyPart) : Prop :=
  safeKind part.kind = true ∧
    ∃ id, assertNativeDatastoreEntityId id = .ok () ∧ part = keyPartOfId part.kind id

theorem native_keyPartOfId {kind : String} {id : EntityId} (hkind : safeKind kind = true)
    (h : assertNativeDatastoreEntityId id = .ok ()) : (keyPartOfId kind id).Native := by
  rw [DatastoreIdInventoryKeyPart.Native, keyPartOfId_kind]
  exact ⟨hkind, id, h, rfl⟩

namespace DatastoreIdInventoryKeyPart.Native

variable {part : DatastoreIdInventoryKeyPart}

theorem normalize (h : part.Native) : part.normalize = .ok () := by
  obtain ⟨hkind, id, hid, hpart⟩ := h
  rw [hpart]
  exact normalize_keyPartOfId hkind hid

theorem of_entityId (h : part.Native) {id : EntityId} (hid : part.entityId = .ok id) :
    part = keyPartOfId part.kind id := by
  obtain ⟨_, id', hid', hpart⟩ := h
  rw [hpart, entityId_keyPartOfId hid'] at hid
  rw [← Except.ok.inj hid]
  exact hpart

end DatastoreIdInventoryKeyPart.Native

theorem path_of_ids {parts : List DatastoreIdInventoryKeyPart} (hparts : ∀ part ∈ parts, part.Native)
    {path : List (String × EntityId)} (h : idPath parts = .ok path) :
    parts = path.map fun part => keyPartOfId part.1 part.2 := by
  induction parts generalizing path with
  | nil =>
    obtain rfl := Except.ok.inj h
    rfl
  | cons part parts ih =>
    rw [List.forall_mem_cons] at hparts
    obtain ⟨id, hid, h⟩ := Except.bind_eq_ok.mp h
    obtain ⟨rest, hrest, h⟩ := Except.bind_eq_ok.mp h
    obtain rfl := Except.ok.inj h
    rw [List.map_cons, ← ih hparts.2 hrest, ← hparts.1.of_entityId hid]

/-- Keys of native parts with one identity are one key. -/
theorem native_identity_inj {left right : DatastoreIdInventoryKey}
    (hleft : ∀ part ∈ left.path, part.Native) (hright : ∀ part ∈ right.path, part.Native)
    {identity : String} (hleftIdentity : inventoryKeyIdentity left = .ok identity)
    (hrightIdentity : inventoryKeyIdentity right = .ok identity) : left = right := by
  obtain ⟨leftPath, hleftPath, hleftNe, _, rfl, _⟩ := inventoryKeyIdentity_ok hleftIdentity
  obtain ⟨rightPath, hrightPath, hrightNe, _, hsame, _⟩ := inventoryKeyIdentity_ok hrightIdentity
  obtain ⟨hns, hkeys⟩ := Outbox.datastoreKeyIdentity_inj hleftNe hrightNe hsame
  have hpaths : leftPath = rightPath := pathKeys_inj hkeys
  have hpath := path_of_ids hleft hleftPath
  rw [hpaths, ← path_of_ids hright hrightPath] at hpath
  obtain ⟨ns, path⟩ := left
  obtain ⟨ns', path'⟩ := right
  obtain rfl : ns = ns' := hns
  obtain rfl : path = path' := hpath
  rfl

end ActiveTs.Datastore
