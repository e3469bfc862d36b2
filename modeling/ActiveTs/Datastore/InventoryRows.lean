import ActiveTs.Datastore.NativeKeys

/-! # The rows of an inventory

The scan goes through its pages as if all entities came at once. What it calls a match or a drift of
types has a key that a repair can name, and a drift has an id of another type with the text of that
key. -/

namespace ActiveTs.Datastore

open ActiveTs.Outbox (EntityId)
open JsonText (lines lines_cons)

/-! ## One scan -/

/-- The issues of rows, from an index on. -/
def issuesFrom (inventoryId : String) (index : Nat) : List InventoryRow → List DatastoreIdInventoryIssue
  | [] => []
  | row :: rows =>
    if row.classification = .matched then issuesFrom inventoryId index rows
    else row.issue inventoryId index :: issuesFrom inventoryId (index + 1) rows

theorem foldl_add (inventoryId : String) (rows : List InventoryRow) (scan : InventoryScan) :
    rows.foldl (InventoryScan.add inventoryId) scan =
      ⟨scan.issues ++ issuesFrom inventoryId scan.issues.length rows,
        fun c => scan.counts c + rows.countP (·.classification = c), scan.scanned + rows.length,
        scan.pages, scan.hashed ++ lines ((issuesFrom inventoryId scan.issues.length rows).map
          DatastoreIdInventoryIssue.toJson)⟩ := by
  induction rows generalizing scan with
  | nil => simp [issuesFrom, lines]
  | cons row rows ih =>
    have hcounts (c : DatastoreIdInventoryClassification) :
        (if c = row.classification then scan.counts c + 1 else scan.counts c) +
          rows.countP (·.classification = c) =
            scan.counts c + (row :: rows).countP (·.classification = c) := by
      rw [List.countP_cons]
      by_cases h : row.classification = c
      · simp [h]
        omega
      · simp [h, Ne.symm h]
    rw [List.foldl_cons, ih, InventoryScan.add, issuesFrom]
    split
    · simp only [hcounts, List.length_cons, Nat.add_assoc, Nat.add_comm 1]
    · simp only [hcounts, List.length_cons, List.length_append, List.length_nil, List.append_assoc,
        List.map_cons, lines_cons, List.cons_append, List.nil_append, Nat.zero_add, Nat.add_assoc,
        Nat.add_comm 1]

/-- The pages lead to the end: each names the next by a new cursor, and the last names none, or, from
the emulator, an old one on an empty page. -/
def finishes (seenCursors : List String) : List InventoryPage → Bool
  | [] => false
  | page :: pages =>
    match page.cursor with
    | none => pages.isEmpty
    | some cursor =>
      safeCursor cursor &&
        if cursor ∈ seenCursors then page.entities.isEmpty && pages.isEmpty
        else finishes (cursor :: seenCursors) pages

theorem foldl_pages (inventoryId : String) (rows : List InventoryRow) (scan : InventoryScan)
    (pages : Nat) : rows.foldl (InventoryScan.add inventoryId) { scan with pages := pages } =
      { rows.foldl (InventoryScan.add inventoryId) scan with pages := pages } := by
  rw [foldl_add, foldl_add]

/-! ## Keys -/

theorem unsupportedKind_eq_none {context kind : String} :
    unsupportedKind context kind = none ↔ safeKind kind = true := by
  have hsafe : safeKind kind = (schemaIdentifier kind && decide (kind.utf8ByteSize ≤ 63)) := rfl
  rw [hsafe, unsupportedKind]
  cases schemaIdentifier kind with
  | false => exact iff_of_false (fun h => by cases h) fun h => by cases h
  | true =>
    rw [Bool.true_and, decide_eq_true_iff, Bool.not_true, if_neg Bool.false_ne_true]
    by_cases hlength : 63 < kind.utf8ByteSize
    · rw [if_pos hlength]
      exact iff_of_false (fun h => by cases h) (Nat.not_le.mpr hlength)
    · rw [if_neg hlength]
      exact iff_of_true rfl (Nat.not_lt.mp hlength)

theorem unsupportedName_eq_none {context name : String} :
    unsupportedName context name = none ↔
      assertNativeDatastoreEntityId (entityIdOfText name) = .ok () := by
  unfold unsupportedName
  split
  · rename_i h
    rw [h]
    exact iff_of_false (fun h => by cases h) fun h => by cases h
  · rename_i h
    exact iff_of_true rfl h

theorem native_of_numericId {raw : SdkKeyId} {id : EntityId} (h : numericId raw = .ok id) :
    assertNativeDatastoreEntityId id = .ok () ∧ ∀ value, id ≠ .string value := by
  cases raw with
  | number value =>
    obtain ⟨id', hid', h⟩ := Except.bind_eq_ok.mp h
    obtain ⟨⟨⟩, hnative, h⟩ := Except.bind_eq_ok.mp h
    obtain rfl := Except.ok.inj h
    refine ⟨hnative, ?_⟩
    unfold entityNumber at hid'
    split at hid'
    · cases hid'
    · obtain rfl := Except.ok.inj hid'
      exact fun _ h => by cases h
  | text value =>
    obtain ⟨hnative, _, hstring⟩ := native_of_numeric h
    exact ⟨hnative, hstring⟩

theorem not_emptyOrNull {text : String} (h : ¬ emptyOrNull text = true) :
    Char.ofNat 0 ∉ text.toList := by
  simp only [emptyOrNull, Bool.or_eq_true, not_or] at h
  simpa using h.2

/-- A part that active-ts can have is native, wherever the entity stands. -/
theorem inventoryKeyPart_supported {context : String} {raw : SdkKeyPart}
    {part : DatastoreIdInventoryKeyPart} (h : inventoryKeyPart context raw = .ok (part, none)) :
    part.Native ∧ ∀ context', inventoryKeyPart context' raw = .ok (part, none) := by
  obtain ⟨kind, name, id⟩ := raw
  unfold inventoryKeyPart at h ⊢
  dsimp only at h ⊢
  split at h
  · cases h
  · rename_i hkind
    simp only [if_neg hkind]
    cases name with
    | some name =>
      cases id with
      | some id => cases h
      | none =>
        dsimp only at h ⊢
        split at h
        · cases h
        · rename_i hname
          obtain ⟨rfl, hnone⟩ := Prod.mk.inj (Except.ok.inj h)
          obtain ⟨hsafe, hnative⟩ := Option.or_eq_none_iff.mp hnone
          rw [unsupportedKind_eq_none] at hsafe
          rw [unsupportedName_eq_none] at hnative
          have hstring := entityIdOfText_string (not_emptyOrNull hname)
          have hid : assertNativeDatastoreEntityId (.string name) = .ok () := by
            rw [← hstring]
            exact hnative
          have hpart : (⟨kind, .name, name⟩ : DatastoreIdInventoryKeyPart) =
              keyPartOfId kind (.string name) := rfl
          refine ⟨?_, fun context' => ?_⟩
          · rw [hpart]
            exact native_keyPartOfId hsafe hid
          · rw [if_neg hname, unsupportedKind_eq_none.mpr hsafe, unsupportedName_eq_none.mpr hnative,
              Option.or_none]
    | none =>
      cases id with
      | none => cases h
      | some id =>
        dsimp only at h ⊢
        cases hid : numericId id with
        | error error =>
          rw [hid] at h
          cases h
        | ok id =>
          rw [hid] at h
          obtain ⟨rfl, hnone⟩ := Prod.mk.inj (Except.ok.inj h)
          rw [unsupportedKind_eq_none] at hnone
          obtain ⟨hnative, hstring⟩ := native_of_numericId hid
          have hpart : (⟨kind, .id, idText id⟩ : DatastoreIdInventoryKeyPart) = keyPartOfId kind id := by
            cases id with
            | string value => exact absurd rfl (hstring value)
            | number value => rfl
            | datastoreInt64 value => rfl
          refine ⟨?_, fun context' => ?_⟩
          · rw [hpart]
            exact native_keyPartOfId hnone hnative
          · dsimp only
            rw [unsupportedKind_eq_none.mpr hnone]

theorem inventoryPath_supported {context : String} {index : Nat} {chain : List SdkKeyPart}
    {path : List DatastoreIdInventoryKeyPart}
    (h : inventoryPath context index chain = .ok (path, none)) :
    (∀ part ∈ path, part.Native) ∧
      ∀ context' index', inventoryPath context' index' chain = .ok (path, none) := by
  induction chain generalizing path index with
  | nil =>
    obtain ⟨rfl, _⟩ := Prod.mk.inj (Except.ok.inj h)
    exact ⟨fun _ h => absurd h List.not_mem_nil, fun _ _ => rfl⟩
  | cons raw chain ih =>
    obtain ⟨⟨part, unsupported⟩, hpart, h⟩ := Except.bind_eq_ok.mp h
    obtain ⟨⟨parents, unsupported'⟩, hparents, h⟩ := Except.bind_eq_ok.mp h
    obtain ⟨rfl, hnone⟩ := Prod.mk.inj (Except.ok.inj h)
    obtain ⟨hunsupported, hunsupported'⟩ := Option.or_eq_none_iff.mp hnone
    obtain rfl : unsupported = none := hunsupported
    obtain rfl : unsupported' = none := hunsupported'
    obtain ⟨hnative, hanywhere⟩ := inventoryKeyPart_supported hpart
    obtain ⟨hparentsNative, hparentsAnywhere⟩ := ih hparents
    constructor
    · intro part' hmem
      rcases List.mem_append.mp hmem with hmem | hmem
      · exact hparentsNative part' hmem
      · exact List.mem_singleton.mp hmem ▸ hnative
    · intro context' index'
      rw [inventoryPath, hanywhere, hparentsAnywhere]
      rfl

/-- A key that a repair can name, of the inventory's kind and namespace. -/
structure DatastoreIdInventoryKey.Native (options : InventoryOptions) (key : DatastoreIdInventoryKey) :
    Prop where
  parts : ∀ part ∈ key.path, part.Native
  ns : safeNamespace key.ns = true ∧ key.ns = options.ns
  leaf : ∃ leaf, key.path.getLast? = some leaf ∧ leaf.kind = options.kind

theorem DatastoreIdInventoryKey.Native.normalize {options : InventoryOptions}
    {key : DatastoreIdInventoryKey} (h : key.Native options) :
    normalizeInventoryKey key options.kind options.ns = .ok key :=
  normalizeInventoryKey_eq_ok.mpr ⟨h.ns.1, h.ns.2, fun part hmem => (h.parts part hmem).normalize, h.leaf⟩

theorem datastoreIdInventoryKey_supported {options : InventoryOptions} {context : String}
    {entity : InventoryEntity} {parsed : ParsedDatastoreIdInventoryKey}
    (h : datastoreIdInventoryKey options context entity = .ok parsed)
    (hsupported : parsed.unsupportedReason = none) :
    parsed.key.Native options ∧ parsed.key.path.getLast? = some parsed.leaf ∧
      ∀ context', datastoreIdInventoryKey options context' entity = .ok parsed := by
  obtain ⟨⟨path, unsupported⟩, hpath, h⟩ := Except.bind_eq_ok.mp h
  dsimp only at h
  cases hleaf : path.getLast? with
  | none =>
    rw [hleaf] at h
    cases h
  | some leaf =>
    rw [hleaf] at h
    dsimp only at h
    split at h
    · cases h
    · rename_i hkind
      split at h
      · cases h
      · rename_i hns
        split at h
        · cases h
        · rename_i hother
          obtain rfl := Except.ok.inj h
          obtain rfl : unsupported = none := hsupported
          obtain ⟨hnative, hanywhere⟩ := inventoryPath_supported hpath
          refine ⟨⟨hnative, ⟨by simpa using hns, not_not.mp hother⟩, leaf, hleaf, not_not.mp hkind⟩,
            hleaf, fun context' => ?_⟩
          refine Except.bind_eq_ok.mpr ⟨_, hanywhere context' 0, ?_⟩
          dsimp only
          rw [hleaf]
          dsimp only
          rw [if_neg hkind, if_neg hns, if_neg hother]

/-! ## Rows -/

theorem entityIdOfText_cases (text : String) :
    entityIdOfText text = .string text ∨ ∃ value, entityIdOfText text = .datastoreInt64 value := by
  unfold entityIdOfText
  split
  · split
    · rename_i id hid
      exact Or.inr ⟨_, (datastoreInt64Id_ok hid).1⟩
    · exact Or.inl rfl
  · exact Or.inl rfl

/-- A payload that the scan takes for an id is one for the planner. -/
theorem payload_normal {property : IdProperty} {payload : DatastoreIdRepairPayload}
    (h : datastoreIdInventoryPayload property = .id payload) (index : Nat) :
    payload.normalize index = .ok () := by
  cases property with
  | missing => cases h
  | other actualType => cases h
  | string text =>
    rw [datastoreIdInventoryPayload] at h
    split at h
    · rename_i hsafe
      have hpayload := DatastoreIdInventoryPayload.id.inj h
      rcases entityIdOfText_cases text with htext | ⟨value, htext⟩
      · rw [htext] at hsafe hpayload
        obtain rfl : .string text = payload := hpayload
        rw [DatastoreIdRepairPayload.normalize, htext]
        exact atOperation_eq_ok.mpr (assertSafeEntityId_eq_ok.mpr hsafe)
      · rw [htext] at hsafe hpayload
        obtain rfl : .int64 value = payload := hpayload
        rw [DatastoreIdRepairPayload.normalize, datastoreInt64Id_of_safe hsafe]
        rfl
    · cases h
  | number value =>
    rw [datastoreIdInventoryPayload] at h
    split at h
    · cases h
    · rename_i n hn
      obtain rfl : .number n = payload := DatastoreIdInventoryPayload.id.inj h
      exact atOperation_eq_ok.mpr (assertSafeEntityId_eq_ok.mpr
        (safeInteger_iff.mpr (JsonText.natAbs_lt_of_safeInteger? hn)))

/-- The ID field and the key have one text, in different types. -/
structure TypeDrift (key : DatastoreIdInventoryKey) (payload : DatastoreIdRepairPayload) : Prop where
  normal : ∀ index, payload.normalize index = .ok ()
  mismatch : ∀ index, assertTypeMismatch key payload index = .ok ()

structure InventoryRow.Supported (options : InventoryOptions) (row : InventoryRow) : Prop where
  key : row.key.Native options
  drift : row.classification = .typeMismatch → ∃ payload, row.payload = .id payload ∧
    TypeDrift row.key payload

theorem classify_supported {parsed : ParsedDatastoreIdInventoryKey}
    {payload : DatastoreIdInventoryPayload} {idField : String}
    {classified : DatastoreIdInventoryClassification × String}
    (h : classifyDatastoreIdInventory parsed payload idField = .ok classified)
    (hsupported : classified.1 ≠ .unsupportedKey) : parsed.unsupportedReason = none ∧
      (classified.1 = .typeMismatch → ∃ id expected, payload = .id id ∧
        parsed.leaf.entityId = .ok expected ∧ id.text = parsed.leaf.value ∧
          id.sameType expected = false) := by
  unfold classifyDatastoreIdInventory at h
  split at h
  · obtain rfl := Except.ok.inj h
    exact absurd rfl hsupported
  · rename_i hreason
    obtain rfl := Except.ok.inj h
    exact ⟨hreason, fun h => by cases h⟩
  · rename_i hreason
    obtain rfl := Except.ok.inj h
    exact ⟨hreason, fun h => by cases h⟩
  · rename_i id hreason
    obtain ⟨expected, hexpected, h⟩ := Except.bind_eq_ok.mp h
    refine ⟨hreason, fun hdrift => ⟨id, expected, rfl, hexpected, ?_⟩⟩
    split at h
    · obtain rfl := Except.ok.inj h
      cases hdrift
    · rename_i htext
      split at h
      · rename_i htype
        exact ⟨not_not.mp htext, by simpa using htype⟩
      · obtain rfl := Except.ok.inj h
        cases hdrift

theorem inventoryRow_of {options : InventoryOptions} {index : Nat} {entity : InventoryEntity}
    {parsed : ParsedDatastoreIdInventoryKey} {payload : DatastoreIdInventoryPayload}
    {classified : DatastoreIdInventoryClassification × String}
    (hkey : datastoreIdInventoryKey options
      ("Datastore ID inventory entity[" ++ toString index ++ "]") entity = .ok parsed)
    (hpayload : datastoreIdInventoryPayload entity.idProperty = payload)
    (hclassified : classifyDatastoreIdInventory parsed payload options.idField = .ok classified) :
    inventoryRow options index entity = .ok ⟨parsed.key, payload, classified.1, classified.2⟩ := by
  subst hpayload
  rw [inventoryRow, hkey]
  simp only [hclassified, bind, Except.bind]

theorem inventoryRow_supported {options : InventoryOptions} {index : Nat} {entity : InventoryEntity}
    {row : InventoryRow} (h : inventoryRow options index entity = .ok row)
    (hsupported : row.classification ≠ .unsupportedKey) :
    row.Supported options ∧ ∀ index', inventoryRow options index' entity = .ok row := by
  obtain ⟨parsed, hparsed, h⟩ := Except.bind_eq_ok.mp h
  dsimp only at h
  split at h
  · cases h
  · rename_i classified hclassified
    obtain rfl := Except.ok.inj h
    obtain ⟨hnone, hdrift⟩ := classify_supported hclassified hsupported
    obtain ⟨hnative, hleaf, hanywhere⟩ := datastoreIdInventoryKey_supported hparsed hnone
    refine ⟨⟨hnative, fun htype => ?_⟩, fun index' => ?_⟩
    · obtain ⟨id, expected, hid, hexpected, htext, hother⟩ := hdrift htype
      refine ⟨id, hid, payload_normal hid, fun position => ?_⟩
      rw [assertTypeMismatch, keyLeaf_eq_ok.mpr hleaf]
      simp [atOperation, Except.mapError, bind, Except.bind, hexpected, refuse, htext, hother]
    · exact inventoryRow_of (hanywhere _) rfl hclassified

/-! ## Runs -/

theorem scanEntities_rows {options : InventoryOptions} {inventoryId : String}
    {entities : List InventoryEntity} {rows : List InventoryRow}
    (h : entities.mapM (inventoryRow options 0) = .ok rows)
    (hsupported : ∀ row ∈ rows, row.classification ≠ .unsupportedKey) (index : Nat)
    (scan : InventoryScan) : scanEntities options inventoryId index entities scan =
      .ok (rows.foldl (InventoryScan.add inventoryId) scan) := by
  induction entities generalizing rows index scan with
  | nil =>
    obtain rfl := Except.ok.inj h
    rfl
  | cons entity entities ih =>
    rw [List.mapM_cons] at h
    obtain ⟨row, hrow, h⟩ := Except.bind_eq_ok.mp h
    obtain ⟨rest, hrest, h⟩ := Except.bind_eq_ok.mp h
    obtain rfl := Except.ok.inj h
    rw [List.forall_mem_cons] at hsupported
    rw [scanEntities, (inventoryRow_supported hrow hsupported.1).2 index]
    exact ih hrest hsupported.2 _ _

/-- However the entities come in pages, the scan adds their rows one after the other. -/
theorem scanPages_rows {options : InventoryOptions} {inventoryId : String} {seenCursors : List String}
    {pages : List InventoryPage} (hpages : finishes seenCursors pages = true) {rows : List InventoryRow}
    (h : (pages.flatMap InventoryPage.entities).mapM (inventoryRow options 0) = .ok rows)
    (hsupported : ∀ row ∈ rows, row.classification ≠ .unsupportedKey) (scan : InventoryScan) :
    scanPages options inventoryId seenCursors pages scan =
      .ok (rows.foldl (InventoryScan.add inventoryId)
        { scan with pages := scan.pages + pages.length }) := by
  induction pages generalizing seenCursors rows scan with
  | nil => cases hpages
  | cons page pages ih =>
    rw [List.flatMap_cons, List.mapM_append] at h
    obtain ⟨front, hfront, h⟩ := Except.bind_eq_ok.mp h
    obtain ⟨back, hback, h⟩ := Except.bind_eq_ok.mp h
    obtain rfl := Except.ok.inj h
    rw [List.forall_mem_append] at hsupported
    have hpage := @scanEntities_rows options inventoryId _ _ hfront hsupported.1 0
    rw [finishes] at hpages
    rw [scanPages]
    cases hcursor : page.cursor with
    | none =>
      rw [hcursor] at hpages
      obtain rfl := List.isEmpty_iff.mp hpages
      obtain rfl : [] = back := Except.ok.inj hback
      dsimp only
      rw [hpage, List.append_nil]
      rfl
    | some cursor =>
      rw [hcursor] at hpages
      dsimp only at hpages ⊢
      rw [Bool.and_eq_true] at hpages
      rw [if_neg (by rw [hpages.1]; decide)]
      by_cases hseen : cursor ∈ seenCursors
      · rw [if_pos hseen, Bool.and_eq_true] at hpages
        rw [if_pos hseen, if_pos hpages.2.1]
        rw [List.isEmpty_iff.mp hpages.2.1] at hfront
        rw [List.isEmpty_iff.mp hpages.2.2] at hback ⊢
        obtain rfl : [] = front := Except.ok.inj hfront
        obtain rfl : [] = back := Except.ok.inj hback
        rfl
      · rw [if_neg hseen] at hpages
        rw [if_neg hseen, hpage]
        change scanPages options inventoryId (cursor :: seenCursors) pages _ = _
        have hlength : scan.pages + (page :: pages).length = scan.pages + 1 + pages.length := by
          rw [List.length_cons]
          omega
        rw [ih hpages.2 hback hsupported.2, List.foldl_append, hlength,
          foldl_pages inventoryId front scan (scan.pages + 1),
          foldl_pages inventoryId front scan (scan.pages + 1 + pages.length)]

end ActiveTs.Datastore
