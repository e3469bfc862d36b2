import ActiveTs.Datastore.RepairPlan

/-! # Manifests are read back

The readers of the planner undo what the scan and the planner write, for numbers that JavaScript has
exactly. So the JSON of issues and of manifests determines them. -/

namespace ActiveTs.Datastore

open ActiveTs.Outbox (EntityId)
open JsonText

theorem readKeyPart_toJson (part : DatastoreIdInventoryKeyPart) :
    readKeyPart part.toJson = .ok part := by
  obtain ⟨kind, storage, value⟩ := part
  rw [readKeyPart, DatastoreIdInventoryKeyPart.toJson, readRecord_record (by simp) (by simp)]
  cases storage <;> simp [readStorage, KeyStorage.text, bind, Except.bind, List.lookup_cons]

theorem readKey_toJson (name : String) (key : DatastoreIdInventoryKey) :
    readKey name (some key.toJson) = .ok key := by
  have hpath := Except.mapM_map_self (l := key.path) fun part _ => readKeyPart_toJson part
  rw [readKey, DatastoreIdInventoryKey.toJson, readRecord_record (by simp) (by simp)]
  simp [bind, Except.bind, List.lookup_cons, readArray, hpath]

/-- A number is one that JavaScript has exactly. -/
def DatastoreIdRepairPayload.Exact : DatastoreIdRepairPayload → Prop
  | number value => value.natAbs < 2 ^ 53
  | _ => True

theorem readPayload_toJson (name : String) {payload : DatastoreIdRepairPayload}
    (h : payload.Exact) : readPayload name (some payload.toJson) = .ok payload := by
  cases payload with
  | string value =>
    rw [readPayload, DatastoreIdRepairPayload.toJson, readRecord_record (by simp) (by simp)]
    simp [bind, Except.bind, List.lookup_cons, Except.map]
  | number value =>
    have hvalue := readSafeInteger_integer "value" h
    rw [readPayload, DatastoreIdRepairPayload.toJson, readRecord_record (by simp) (by simp)]
    simp [bind, Except.bind, List.lookup_cons, Except.map, hvalue]
  | int64 value =>
    rw [readPayload, DatastoreIdRepairPayload.toJson, readRecord_record (by simp) (by simp)]
    simp [bind, Except.bind, List.lookup_cons, Except.map]

/-! ## Ids -/

theorem safeInteger_iff {n : Int} : safeInteger n = true ↔ n.natAbs < 2 ^ 53 := by
  simp only [safeInteger, Bool.and_eq_true, decide_eq_true_iff]
  omega

theorem entityIdOfText_string {value : String} (h : Char.ofNat 0 ∉ value.toList) :
    entityIdOfText value = .string value := by
  rw [entityIdOfText, if_neg]
  intro hfront
  obtain ⟨rest, hrest⟩ := List.isPrefixOf_iff_prefix.mp hfront
  apply h
  rw [← hrest]
  exact List.mem_append_left _ List.mem_cons_self

theorem datastoreInt64Id_of_safe {text : String} (h : safeEntityId (.datastoreInt64 text) = true) :
    datastoreInt64Id text = .ok (.datastoreInt64 text) := by
  obtain ⟨value, hvalue, hint64⟩ := safe_int64 h
  simp only [int64Id, Bool.and_eq_true, bne_iff_ne, Bool.not_eq_true'] at hint64
  rw [datastoreInt64Id, hvalue]
  simp [hint64]

theorem entityIdOfText_int64 {text : String} (h : safeEntityId (.datastoreInt64 text) = true) :
    entityIdOfText ("\x00active-ts:datastore-int64:" ++ text) = .datastoreInt64 text := by
  have hlist : ("\x00active-ts:datastore-int64:" ++ text).toList =
      "\x00active-ts:datastore-int64:".toList ++ text.toList := String.toList_append
  have hdrop : String.ofList (("\x00active-ts:datastore-int64:" ++ text).toList.drop 27) = text := by
    rw [hlist, List.drop_left' (by rfl), String.ofList_toList]
  rw [entityIdOfText, if_pos, hdrop, datastoreInt64Id_of_safe h]
  rw [hlist, List.isPrefixOf_iff_prefix]
  exact List.prefix_append _ _

theorem readId_idJson (name : String) {id : EntityId} (h : safeEntityId id = true) :
    readId name (some (idJson id)) = .ok id := by
  cases id with
  | string value =>
    simp only [safeEntityId, Bool.and_eq_true, Bool.not_eq_true'] at h
    have hnull : Char.ofNat 0 ∉ value.toList := by simpa using h.2
    rw [idJson]
    change (readString name (some (string value))).map entityIdOfText = _
    rw [readString_string]
    exact congrArg Except.ok (entityIdOfText_string hnull)
  | number value =>
    have hvalue := safeInteger_iff.mp h
    have hread := readSafeInteger_integer name hvalue
    rw [integer_eq hvalue] at hread
    rw [idJson, integer_eq hvalue, readId, hread]
    rfl
  | datastoreInt64 text =>
    rw [idJson]
    change (readString name (some (string _))).map entityIdOfText = _
    rw [readString_string]
    exact congrArg Except.ok (entityIdOfText_int64 h)

/-! ## Issues -/

theorem readIssue_toJson {issue : TypeMismatchIssue}
    (hindex : issue.issueIndex < 2 ^ 53) (hpayload : issue.payload.Exact) :
    readIssue issue.issue.toJson = .ok issue := by
  have hcount := readCount_integer "issueIndex" hindex
  have hread := readPayload_toJson "payload" hpayload
  rw [readIssue, DatastoreIdInventoryIssue.toJson, readRecord_record (by simp) (by simp)]
  simp [bind, Except.bind, List.lookup_cons, readJson, Except.mapError, TypeMismatchIssue.issue,
    DatastoreIdInventoryClassification.text, DatastoreIdInventoryPayload.toJson, refuse, readUnits,
    readKey_toJson, hcount, hread]

/-! ## Manifests -/

structure DatastoreIdRepairOperation.Exact (operation : DatastoreIdRepairOperation) : Prop where
  issueIndex : operation.issueIndex < 2 ^ 53
  expectedPayload : operation.expectedPayload.Exact
  replacementId : safeEntityId operation.replacementId = true

/-- All numbers are ones that JavaScript has exactly, and the ids are ids. -/
structure RepairManifestContents.Exact (contents : RepairManifestContents) : Prop where
  scanned : contents.inventory.scanned < 2 ^ 53
  pages : contents.inventory.pages < 2 ^ 53
  matched : contents.inventory.matched < 2 ^ 53
  typeMismatches : contents.inventory.typeMismatches < 2 ^ 53
  operations : ∀ operation ∈ contents.operations, operation.Exact

theorem readOperation_toJson {operation : DatastoreIdRepairOperation} (h : operation.Exact) :
    readOperation operation.toJson = .ok operation := by
  have hindex := readCount_integer "issueIndex" h.issueIndex
  have hpayload := readPayload_toJson "expectedPayload" h.expectedPayload
  have hid := readId_idJson "replacementId" h.replacementId
  rw [readOperation, DatastoreIdRepairOperation.toJson, readRecord_record (by simp) (by simp)]
  simp [bind, Except.bind, List.lookup_cons, readKey_toJson, hindex, hpayload, hid]

theorem readSummary_toJson {contents : RepairManifestContents} (h : contents.Exact) :
    readSummary (some contents.inventory.toJson) = .ok contents.inventory := by
  have hscanned := readCount_integer "scanned" h.scanned
  have hpages := readCount_integer "pages" h.pages
  have hmatched := readCount_integer "matched" h.matched
  have htypeMismatches := readCount_integer "typeMismatches" h.typeMismatches
  rw [readSummary, DatastoreIdRepairInventorySummary.toJson, readRecord_record (by simp) (by simp)]
  simp [bind, Except.bind, List.lookup_cons, hscanned, hpages, hmatched, htypeMismatches]

theorem readPolicy_text (policy : DatastoreIdRepairPolicy) :
    readPolicy (some (string policy.text)) = .ok policy := by
  cases policy <;> simp [readPolicy, DatastoreIdRepairPolicy.text, bind, Except.bind]

theorem readDescendantPolicy_text (policy : Option DatastoreIdRepairDescendantPolicy) :
    readDescendantPolicy (policy.map fun policy => string policy.text) = .ok policy := by
  cases policy with
  | none => rfl
  | some policy =>
    cases policy <;>
      simp [readDescendantPolicy, DatastoreIdRepairDescendantPolicy.text, bind, Except.bind]

theorem readManifest_toJson {manifest : RepairManifest} (h : manifest.contents.Exact) :
    readManifest manifest.toJson = .ok manifest := by
  have hversion : readCount "version" (some (integer 1)) = .ok 1 :=
    readCount_integer (n := 1) "version" (by norm_num)
  have hexclusions : (manifest.contents.excludeFromIndexes.map string).mapM
      (fun item => readString "excludeFromIndexes" (some item)) =
        .ok manifest.contents.excludeFromIndexes :=
    Except.mapM_map_self fun field _ => readString_string _ field
  have hsummary := readSummary_toJson h
  have hoperations := Except.mapM_map_self (l := manifest.contents.operations)
    fun operation hmem => readOperation_toJson (h.operations operation hmem)
  rw [readManifest, RepairManifest.toJson, RepairManifestContents.fields,
    readRecord_record (by simp) (by simp)]
  simp [bind, Except.bind, List.lookup_cons, readJson, Except.mapError, refuse, readArray, readBool,
    readPolicy_text, readDescendantPolicy_text, hversion, hexclusions, hsummary, hoperations]

/-! ## Texts -/

theorem plain_key (key : DatastoreIdInventoryKey) : key.toJson.Plain := by
  apply plain_record
  simp only [List.forall_mem_cons, Option.mem_def, Option.some.injEq, forall_eq']
  refine ⟨.array ?_, ?_, fun _ h => absurd h List.not_mem_nil⟩
  · intro item hitem
    obtain ⟨part, _, rfl⟩ := List.mem_map.mp hitem
    apply plain_record
    simp only [List.forall_mem_cons, Option.mem_def, Option.some.injEq, forall_eq']
    exact ⟨plain_string _, plain_string _, plain_string _, fun _ h => absurd h List.not_mem_nil⟩
  · intro value hvalue
    obtain ⟨ns, _, rfl⟩ := Option.map_eq_some_iff.mp hvalue
    exact plain_string ns

theorem plain_payload {payload : DatastoreIdRepairPayload} (h : payload.Exact) :
    payload.toJson.Plain := by
  have hpair {type : String} {value : Value} (hvalue : value.Plain) :
      (record [("type", string type), ("value", value)]).Plain := by
    apply plain_record
    simp only [List.forall_mem_cons, Option.mem_def, Option.some.injEq, forall_eq']
    exact ⟨plain_string _, hvalue, fun _ h => absurd h List.not_mem_nil⟩
  cases payload with
  | string value => exact hpair (plain_string value)
  | number value => exact hpair (plain_integer h)
  | int64 value => exact hpair (plain_string value)

theorem plain_issue {issue : TypeMismatchIssue} (hindex : issue.issueIndex < 2 ^ 53)
    (hpayload : issue.payload.Exact) : issue.issue.toJson.Plain := by
  apply plain_record
  simp only [List.forall_mem_cons, Option.mem_def, Option.some.injEq, forall_eq']
  exact ⟨plain_string _, plain_integer hindex, plain_string _, plain_key _, plain_payload hpayload,
    .string _, fun _ h => absurd h List.not_mem_nil⟩

theorem plain_operation {operation : DatastoreIdRepairOperation} (h : operation.Exact) :
    operation.toJson.Plain := by
  have hid : (idJson operation.replacementId).Plain := by
    have hsafe := h.replacementId
    cases hreplacement : operation.replacementId with
    | string value => exact plain_string _
    | number value =>
      rw [hreplacement] at hsafe
      exact plain_integer (safeInteger_iff.mp hsafe)
    | datastoreInt64 value => exact plain_string _
  apply plain_record
  simp only [List.forall_mem_cons, Option.mem_def, Option.some.injEq, forall_eq']
  exact ⟨plain_integer h.issueIndex, plain_key _, plain_key _, plain_payload h.expectedPayload, hid,
    fun _ h => absurd h List.not_mem_nil⟩

theorem plain_summary {contents : RepairManifestContents} (h : contents.Exact) :
    contents.inventory.toJson.Plain := by
  apply plain_record
  simp only [List.forall_mem_cons, Option.mem_def, Option.some.injEq, forall_eq']
  exact ⟨plain_string _, plain_string _, plain_integer h.scanned, plain_integer h.pages,
    plain_integer h.matched, plain_integer h.typeMismatches, fun _ h => absurd h List.not_mem_nil⟩

theorem plain_fields {contents : RepairManifestContents} (h : contents.Exact) :
    ∀ field ∈ contents.fields, ∀ value ∈ field.2, value.Plain := by
  have hoption {α : Type} {text : α → String} {o : Option α} :
      ∀ value ∈ o.map fun a => string (text a), value.Plain := by
    intro value hvalue
    obtain ⟨a, _, rfl⟩ := Option.map_eq_some_iff.mp hvalue
    exact plain_string _
  rw [RepairManifestContents.fields]
  simp only [List.forall_mem_cons, Option.mem_def, Option.some.injEq, forall_eq']
  refine ⟨plain_string _, plain_integer (by norm_num), plain_string _, plain_string _,
    plain_string _, hoption, plain_string _, .bool _, hoption, .array ?_, plain_summary h, .array ?_,
    fun _ h => absurd h List.not_mem_nil⟩
  · intro item hitem
    obtain ⟨field, _, rfl⟩ := List.mem_map.mp hitem
    exact plain_string field
  · intro item hitem
    obtain ⟨operation, hmem, rfl⟩ := List.mem_map.mp hitem
    exact plain_operation (h.operations operation hmem)

theorem plain_contents {contents : RepairManifestContents} (h : contents.Exact) :
    contents.toJson.Plain :=
  plain_record (plain_fields h)

theorem plain_manifest {manifest : RepairManifest} (h : manifest.contents.Exact) :
    manifest.toJson.Plain := by
  apply plain_record
  intro field hfield
  rcases List.mem_append.mp hfield with hfield | hfield
  · exact plain_fields h field hfield
  · obtain rfl := List.mem_singleton.mp hfield
    intro value hvalue
    obtain rfl := Option.some.inj hvalue
    exact plain_string _

/-- `JSON.parse(JSON.stringify(manifest))` -/
theorem parse_manifest {manifest : RepairManifest} (h : manifest.contents.Exact) :
    parse (text manifest.toJson) = some manifest.toJson :=
  parse_text (plain_manifest h)

/-- The text that a digest is taken of determines what it is a digest of. -/
theorem contents_text_inj {left right : RepairManifestContents} (hleft : left.Exact)
    (hright : right.Exact) (h : text left.toJson = text right.toJson) : left = right := by
  have hvalue := text_inj (plain_contents hleft) (plain_contents hright) h
  have hmembers : members left.fields = members right.fields := Value.object.inj hvalue
  have hjson : RepairManifest.toJson ⟨left, ""⟩ = RepairManifest.toJson ⟨right, ""⟩ := by
    rw [RepairManifest.toJson, RepairManifest.toJson, record, record, members, members,
      List.filterMap_append, List.filterMap_append]
    exact congrArg Value.object (congrArg (· ++ _) hmembers)
  have hread := @readManifest_toJson ⟨left, ""⟩ hleft
  rw [hjson, @readManifest_toJson ⟨right, ""⟩ hright] at hread
  exact (congrArg RepairManifest.contents (Except.ok.inj hread)).symm

theorem issues_lines_inj {left right : List TypeMismatchIssue}
    (hleft : ∀ issue ∈ left, issue.issueIndex < 2 ^ 53 ∧ issue.payload.Exact)
    (hright : ∀ issue ∈ right, issue.issueIndex < 2 ^ 53 ∧ issue.payload.Exact)
    (h : lines (left.map fun issue => issue.issue.toJson) =
      lines (right.map fun issue => issue.issue.toJson)) : left = right := by
  have hplain {issues : List TypeMismatchIssue}
      (hexact : ∀ issue ∈ issues, issue.issueIndex < 2 ^ 53 ∧ issue.payload.Exact) :
      ∀ value ∈ issues.map fun issue => issue.issue.toJson, value.Plain := by
    intro value hvalue
    obtain ⟨issue, hissue, rfl⟩ := List.mem_map.mp hvalue
    exact plain_issue (hexact issue hissue).1 (hexact issue hissue).2
  have hvalues := lines_inj (hplain hleft) (hplain hright) h
  have hread := Except.mapM_map_self (l := left) fun issue hissue =>
    readIssue_toJson (hleft issue hissue).1 (hleft issue hissue).2
  rw [hvalues, Except.mapM_map_self fun issue hissue =>
    readIssue_toJson (hright issue hissue).1 (hright issue hissue).2] at hread
  exact (Except.ok.inj hread).symm

end ActiveTs.Datastore
