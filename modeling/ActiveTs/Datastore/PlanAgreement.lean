import ActiveTs.Datastore.InventoryRows
import ActiveTs.Datastore.PlanAcceptance

/-! # Inventory and plan agree

Where all entities of a kind match or have drift of types only, the planner makes a manifest of what
the scan hands out, and of nothing else. -/

namespace ActiveTs.Datastore

open ActiveTs.Outbox (EntityId)
open JsonText

/-! ## The report of a scan -/

def inventoryReport (sha256 : List Char → String) (options : InventoryOptions) (inventoryId : String)
    (pages : Nat) (rows : List InventoryRow) : DatastoreIdInventoryReport :=
  ⟨inventoryId, inventoryIssueDigest sha256 (issuesFrom inventoryId 0 rows), options.kind,
    options.idField, options.ns, rows.length, pages, fun c => rows.countP (·.classification = c)⟩

theorem inventory_rows {sha256 : List Char → String} {options : InventoryOptions}
    (hoptions : options.safe = true) {inventoryId : String} {pages : List InventoryPage}
    (hpages : finishes [] pages = true) {rows : List InventoryRow}
    (h : (pages.flatMap InventoryPage.entities).mapM (inventoryRow options 0) = .ok rows)
    (hsupported : ∀ row ∈ rows, row.classification ≠ .unsupportedKey) :
    inventoryDatastoreIds sha256 options inventoryId pages =
      .ok (inventoryReport sha256 options inventoryId pages.length rows,
        issuesFrom inventoryId 0 rows) := by
  have hscan := @scanPages_rows options inventoryId _ _ hpages _ h hsupported
    ⟨[], fun _ => 0, 0, 0, []⟩
  rw [foldl_add] at hscan
  rw [inventoryDatastoreIds, if_neg (not_refused hoptions), hscan]
  simp [inventoryReport, inventoryIssueDigest, bind, Except.bind]

theorem sum_counts (rows : List InventoryRow) :
    (DatastoreIdInventoryClassification.all.map fun c =>
      rows.countP (·.classification = c)).sum = rows.length := by
  induction rows with
  | nil => rfl
  | cons row rows ih =>
    rw [List.length_cons, ← ih]
    simp only [DatastoreIdInventoryClassification.all, List.countP_cons, List.map_cons, List.map_nil,
      List.sum_cons, List.sum_nil]
    cases row.classification <;> simp <;> omega

/-- Matches and drift of types only. -/
def OnlyTypeDrift (rows : List InventoryRow) : Prop :=
  ∀ row ∈ rows, row.classification = .matched ∨ row.classification = .typeMismatch

theorem OnlyTypeDrift.supported {rows : List InventoryRow} (h : OnlyTypeDrift rows) :
    ∀ row ∈ rows, row.classification ≠ .unsupportedKey := by
  intro row hmem hclass
  rcases h row hmem with h | h
  · rw [h] at hclass
    cases hclass
  · rw [h] at hclass
    cases hclass

theorem length_issuesFrom {inventoryId : String} {index : Nat} {rows : List InventoryRow}
    (h : OnlyTypeDrift rows) : (issuesFrom inventoryId index rows).length =
      rows.countP (·.classification = .typeMismatch) := by
  induction rows generalizing index with
  | nil => rfl
  | cons row rows ih =>
    have hrow := h row List.mem_cons_self
    have hrest : OnlyTypeDrift rows := fun row hmem => h row (List.mem_cons_of_mem _ hmem)
    rw [issuesFrom, List.countP_cons]
    split
    · rename_i hmatched
      rw [ih hrest, hmatched]
      rfl
    · rename_i hmatched
      rw [List.length_cons, ih hrest, hrow.resolve_left hmatched]
      rfl

theorem planChecked_report {sha256 : List Char → String}
    (hsha256 : ∀ text, hexDigest (sha256 text) = true) {options : InventoryOptions}
    (hoptions : options.safe = true) {inventoryId : String} (hid : uuidV4 inventoryId = true)
    {pages : Nat} (hpages : safeInteger pages = true) (hpositive : 0 < pages) {rows : List InventoryRow}
    (hdrift : OnlyTypeDrift rows) (hlength : safeInteger rows.length = true)
    {plan : DatastoreIdRepairPlanOptions} (hplan : plan.check options.idField = .ok ()) :
    PlanChecked (inventoryReport sha256 options inventoryId pages rows) plan := by
  refine ⟨?_, hplan, fun c hmatched htypeMismatch => ?_⟩
  · simp only [InventoryOptions.safe, Bool.and_eq_true] at hoptions
    unfold normalizeInventoryReport
    dsimp only
    rw [refuse_eq_ok, inventoryReport]
    dsimp only
    rw [sum_counts, hid, inventoryIssueDigest, manifestDigest_sha256, hsha256, hoptions.1.1,
      hoptions.1.2, hoptions.2, hlength, hpages, decide_eq_true hpositive, decide_eq_true rfl]
    decide
  · apply List.countP_eq_zero.mpr
    intro row hmem hclass
    rcases hdrift row hmem with h | h
    · exact hmatched (h ▸ (of_decide_eq_true hclass).symm)
    · exact htypeMismatch (h ▸ (of_decide_eq_true hclass).symm)

/-! ## Operations -/

/-- The key that an entity moves to when its ID field wins. -/
def DatastoreIdInventoryIssue.moveTarget (issue : DatastoreIdInventoryIssue) :
    Option DatastoreIdInventoryKey :=
  match issue.payload with
  | .id payload => (payload.entityId >>= replaceInventoryKeyLeaf issue.key).toOption
  | _ => none

/-- No ID is 0, and no entity moves to where another is or moves to. -/
structure MovesApart (issues : List DatastoreIdInventoryIssue) : Prop where
  nonzero : ∀ issue ∈ issues, issue.payload ≠ .id (.number 0)
  apart : issues.Pairwise fun a b => a.moveTarget ≠ some b.key ∧ b.moveTarget ≠ some a.key ∧
    a.moveTarget ≠ b.moveTarget

theorem entityId_of_normal {payload : DatastoreIdRepairPayload}
    (h : payload.normalize 0 = .ok ()) : ∃ id, payload.entityId = .ok id ∧ safeEntityId id = true ∧
      payload.sameType id = true ∧ (id = .number 0 → payload = .number 0) := by
  cases payload with
  | string value =>
    refine ⟨.string value, rfl, ?_, rfl, fun h => by cases h⟩
    unfold DatastoreIdRepairPayload.normalize at h
    dsimp only at h
    rcases entityIdOfText_cases value with htext | ⟨other, htext⟩
    · rw [htext] at h
      exact assertSafeEntityId_eq_ok.mp (atOperation_eq_ok.mp h)
    · rw [htext] at h
      cases h
  | number value =>
    refine ⟨.number value, rfl, assertSafeEntityId_eq_ok.mp (atOperation_eq_ok.mp h), rfl, fun h => ?_⟩
    rw [EntityId.number.inj h]
  | int64 value =>
    obtain ⟨id, hid, _⟩ := Except.map_eq_ok.mp h
    obtain ⟨rfl, hsafe⟩ := datastoreInt64Id_ok (atOperation_eq_ok.mp hid)
    exact ⟨_, atOperation_eq_ok.mp hid, hsafe, rfl, fun h => by cases h⟩

/-- What the planner makes of a drift. -/
structure Planned (options : InventoryOptions) (policy : DatastoreIdRepairPolicy)
    (plan : TypeMismatchIssue × DatastoreIdRepairOperation) : Prop where
  key : plan.1.key.Native options
  source : plan.2.source = plan.1.key
  target : plan.2.target.Native options
  keyWins : policy = .keyWins → plan.2.target = plan.1.key
  payloadWins : policy = .payloadWins → plan.1.issue.moveTarget = some plan.2.target ∧
    plan.2.target ≠ plan.1.key

theorem planned_of_drift {options : InventoryOptions} {issue : TypeMismatchIssue}
    (hkey : issue.key.Native options) (hdrift : TypeDrift issue.key issue.payload)
    {policy : DatastoreIdRepairPolicy} (hzero : policy = .payloadWins → issue.payload ≠ .number 0)
    (index : Nat) : ∃ operation,
      buildRepairOperation index issue.key issue.payload policy = .ok operation ∧
        Planned options policy (issue, operation) := by
  obtain ⟨leaf, hleaf, hkind⟩ := hkey.leaf
  have hleafNative := hkey.parts leaf (List.mem_of_getLast? hleaf)
  cases policy with
  | keyWins =>
    obtain ⟨_, id, hid, hpart⟩ := hleafNative
    have hentity : leaf.entityId = .ok id := by
      rw [hpart]
      exact entityId_keyPartOfId hid
    refine ⟨_, Except.bind_eq_ok.mpr ⟨leaf, keyLeaf_eq_ok.mpr hleaf, Except.bind_eq_ok.mpr
      ⟨id, hentity, Except.bind_eq_ok.mpr
        ⟨(), assertSafeEntityId_eq_ok.mpr (assertNative_eq_ok.mp hid).1, rfl⟩⟩⟩, hkey, rfl, hkey,
      fun _ => rfl, fun h => by cases h⟩
  | payloadWins =>
    obtain ⟨id, hid, hsafe, htype, hnumber⟩ := entityId_of_normal (hdrift.normal 0)
    have hnative : assertNativeDatastoreEntityId id = .ok () :=
      assertNative_eq_ok.mpr ⟨hsafe, fun h => hzero rfl (hnumber h)⟩
    have htarget := replaceInventoryKeyLeaf_eq (keyLeaf_eq_ok.mpr hleaf) id
    refine ⟨_, Except.bind_eq_ok.mpr ⟨id, hid, Except.bind_eq_ok.mpr
      ⟨(), assertSafeEntityId_eq_ok.mpr hsafe, Except.bind_eq_ok.mpr
        ⟨(), hnative, Except.bind_eq_ok.mpr ⟨_, htarget, rfl⟩⟩⟩⟩, hkey, rfl, ⟨fun part hmem => ?_,
        hkey.ns, keyPartOfId leaf.kind id, List.getLast?_concat .., ?_⟩, (fun h => by cases h),
      fun _ => ⟨?_, fun heq => ?_⟩⟩
    · rcases List.mem_append.mp hmem with hmem | hmem
      · exact hkey.parts part (List.dropLast_subset _ hmem)
      · obtain rfl := List.mem_singleton.mp hmem
        exact native_keyPartOfId hleafNative.1 hnative
    · rw [keyPartOfId_kind, hkind]
    · exact Except.toOption_eq_some.mpr (Except.bind_eq_ok.mpr ⟨id, hid, htarget⟩)
    · obtain ⟨leaf', keyId, hleaf', hkeyId, hother⟩ := assertTypeMismatch_ok (hdrift.mismatch 0)
      have hpath := congrArg (fun key => key.path.getLast?) heq
      dsimp only at hpath
      rw [List.getLast?_concat, keyLeaf_eq_ok.mp hleaf'] at hpath
      rw [← Option.some.inj hpath, entityId_keyPartOfId hnative] at hkeyId
      rw [← Except.ok.inj hkeyId, htype] at hother
      cases hother

/-- An issue of the scan passes the planner. -/
theorem normalizeTypeMismatchIssue_of_drift {options : InventoryOptions}
    {report : DatastoreIdInventoryReport} (hkind : report.kind = options.kind)
    (hns : report.ns = options.ns) (hid : uuidV4 report.inventoryId = true) {issue : TypeMismatchIssue}
    (hinventory : issue.inventoryId = report.inventoryId) (hindex : issue.issueIndex < 2 ^ 53)
    (hkey : issue.key.Native options) (hdrift : TypeDrift issue.key issue.payload) :
    normalizeTypeMismatchIssue report issue.issueIndex issue.issue.toJson = .ok issue := by
  have hnormal := hkey.normalize
  rw [← hkind, ← hns] at hnormal
  have hread := readIssue_toJson hindex (exact_of_normalize (hdrift.normal 0))
  have hsame : ¬ (!uuidV4 issue.inventoryId || issue.inventoryId != report.inventoryId) = true := by
    rw [hinventory, hid, bne_self_eq_false]
    decide
  exact Except.bind_eq_ok.mpr ⟨issue, hread, Except.bind_eq_ok.mpr ⟨(), refuse_eq_ok.mpr hsame,
    Except.bind_eq_ok.mpr ⟨(), refuse_eq_ok.mpr (not_not.mpr rfl), Except.bind_eq_ok.mpr
      ⟨issue.key, atManifest_eq_ok.mpr (atOperation_eq_ok.mpr hnormal), Except.bind_eq_ok.mpr
        ⟨(), atManifest_eq_ok.mpr (hdrift.normal _), Except.bind_eq_ok.mpr
          ⟨(), atManifest_eq_ok.mpr (hdrift.mismatch _), rfl⟩⟩⟩⟩⟩⟩

/-- The loop over the issues of the scan. -/
theorem planIssues_rows {options : InventoryOptions} {report : DatastoreIdInventoryReport}
    (hkind : report.kind = options.kind) (hns : report.ns = options.ns)
    (hid : uuidV4 report.inventoryId = true) {policy : DatastoreIdRepairPolicy}
    {rows : List InventoryRow} (hrows : ∀ row ∈ rows, row.Supported options)
    (hdrift : OnlyTypeDrift rows) {index : Nat}
    (hzero : policy = .payloadWins → ∀ issue ∈ issuesFrom report.inventoryId index rows,
      issue.payload ≠ .id (.number 0)) (hlength : index + rows.length < 2 ^ 53) :
    ∃ planned, planIssues report policy index ((issuesFrom report.inventoryId index rows).map
        DatastoreIdInventoryIssue.toJson) = .ok planned ∧
      planned.map (fun plan => plan.1.issue) = issuesFrom report.inventoryId index rows ∧
        ∀ plan ∈ planned, Planned options policy plan := by
  induction rows generalizing index with
  | nil => exact ⟨[], rfl, rfl, fun _ h => absurd h List.not_mem_nil⟩
  | cons row rows ih =>
    rw [List.forall_mem_cons] at hrows
    have hrest : OnlyTypeDrift rows := fun row hmem => hdrift row (List.mem_cons_of_mem _ hmem)
    rw [List.length_cons] at hlength
    rw [issuesFrom] at hzero ⊢
    split
    · rename_i hmatched
      rw [if_pos hmatched] at hzero
      exact ih hrows.2 hrest hzero (by omega)
    · rename_i hmatched
      have htype := (hdrift row List.mem_cons_self).resolve_left hmatched
      obtain ⟨payload, hpayload, hrow⟩ := hrows.1.drift htype
      have hissue : row.issue report.inventoryId index = TypeMismatchIssue.issue
          ⟨report.inventoryId, index, row.key, payload, Utf16.ofString row.reason⟩ := by
        rw [InventoryRow.issue, htype, hpayload]
        rfl
      rw [if_neg hmatched, hissue] at hzero
      rw [hissue]
      have hnonzero : policy = .payloadWins → payload ≠ .number 0 := by
        rintro hpolicy rfl
        exact hzero hpolicy _ List.mem_cons_self rfl
      obtain ⟨planned, hplanned, hissues, hall⟩ := @ih hrows.2 hrest (index + 1)
        (fun hpolicy issue hmem => hzero hpolicy issue (List.mem_cons_of_mem _ hmem)) (by omega)
      have hnormal := @normalizeTypeMismatchIssue_of_drift options report hkind hns hid
        ⟨report.inventoryId, index, row.key, payload, Utf16.ofString row.reason⟩ rfl
        (show index < 2 ^ 53 by omega) hrows.1.key hrow
      obtain ⟨operation, hoperation, hplan⟩ := @planned_of_drift options
        ⟨report.inventoryId, index, row.key, payload, Utf16.ofString row.reason⟩ hrows.1.key hrow policy
        hnonzero index
      refine ⟨_ :: planned, Except.bind_eq_ok.mpr ⟨_, hnormal, Except.bind_eq_ok.mpr
        ⟨operation, atManifest_eq_ok.mpr (atOperation_eq_ok.mpr hoperation), Except.bind_eq_ok.mpr
          ⟨planned, hplanned, rfl⟩⟩⟩, ?_, List.forall_mem_cons.mpr ⟨hplan, hall⟩⟩
      rw [List.map_cons, hissues]

/-! ## The set of operations -/

theorem identity_ne {options : InventoryOptions} {left right : DatastoreIdInventoryKey}
    (hleft : left.Native options) (hright : right.Native options) (hne : left ≠ right) :
    inventoryKeyIdentity left ≠ inventoryKeyIdentity right := by
  obtain ⟨identity, hidentity⟩ := identity_of_normal hleft.normalize
  intro h
  exact hne (native_identity_inj hleft.parts hright.parts hidentity (h ▸ hidentity))

theorem keys_issuesFrom (inventoryId : String) (index : Nat) (rows : List InventoryRow) :
    ((issuesFrom inventoryId index rows).map DatastoreIdInventoryIssue.key).Sublist
      (rows.map InventoryRow.key) := by
  induction rows generalizing index with
  | nil => exact List.Sublist.refl _
  | cons row rows ih =>
    rw [issuesFrom]
    split
    · exact (ih index).cons _
    · exact (ih (index + 1)).cons_cons _

theorem set_of_planned {options : InventoryOptions} {policy : DatastoreIdRepairPolicy}
    {planned : List (TypeMismatchIssue × DatastoreIdRepairOperation)}
    (hplanned : ∀ plan ∈ planned, Planned options policy plan)
    (hkeys : (planned.map fun plan => plan.1.key).Nodup)
    (hmoves : policy = .payloadWins → MovesApart (planned.map fun plan => plan.1.issue)) :
    assertRepairOperationSet (planned.map Prod.snd) policy = .ok () := by
  have hdistinct : planned.Pairwise fun a b => a.1.key ≠ b.1.key := List.pairwise_map.mp hkeys
  have hpairs : policy = .payloadWins → planned.Pairwise fun a b => a.2.target ≠ b.1.key ∧
      b.2.target ≠ a.1.key ∧ a.2.target ≠ b.2.target := by
    intro hpolicy
    refine (List.pairwise_map.mp (hmoves hpolicy).apart).imp_of_mem fun {a b} ha hb h => ?_
    rw [((hplanned a ha).payloadWins hpolicy).1, ((hplanned b hb).payloadWins hpolicy).1] at h
    exact ⟨fun heq => h.1 (congrArg some heq), fun heq => h.2.1 (congrArg some heq),
      fun heq => h.2.2 (congrArg some heq)⟩
  apply assertRepairOperationSet_of
  · intro operation hmem
    obtain ⟨plan, hplan, rfl⟩ := List.mem_map.mp hmem
    have h := hplanned plan hplan
    obtain ⟨source, hsource⟩ := identity_of_normal h.key.normalize
    obtain ⟨target, htarget⟩ := identity_of_normal h.target.normalize
    exact ⟨source, target, h.source ▸ hsource, htarget⟩
  · rw [List.pairwise_map]
    cases policy with
    | keyWins =>
      refine hdistinct.imp_of_mem fun {a b} ha hb hne => ?_
      rw [(hplanned a ha).source, (hplanned b hb).source, (hplanned a ha).keyWins rfl,
        (hplanned b hb).keyWins rfl]
      exact ⟨identity_ne (hplanned a ha).key (hplanned b hb).key hne,
        identity_ne (hplanned a ha).key (hplanned b hb).key hne⟩
    | payloadWins =>
      refine (hdistinct.and (hpairs rfl)).imp_of_mem fun {a b} ha hb hne => ?_
      rw [(hplanned a ha).source, (hplanned b hb).source]
      exact ⟨identity_ne (hplanned a ha).key (hplanned b hb).key hne.1,
        identity_ne (hplanned a ha).target (hplanned b hb).target hne.2.2.2⟩
  · intro hpolicy
    have hall : ∀ a ∈ planned, ∀ b ∈ planned, a.2.target ≠ b.1.key := fun a ha b hb =>
      List.Pairwise.forall_of_forall_of_flip (fun a ha => ((hplanned a ha).payloadWins hpolicy).2)
        ((hpairs hpolicy).imp fun h => h.1) ((hpairs hpolicy).imp fun h => h.2.1) ha hb
    intro a ha b hb
    obtain ⟨left, hleft, rfl⟩ := List.mem_map.mp ha
    obtain ⟨right, hright, rfl⟩ := List.mem_map.mp hb
    rw [(hplanned right hright).source]
    exact identity_ne (hplanned left hleft).target (hplanned right hright).key
      (hall left hleft right hright)

/-! ## Agreement -/

/-- All entities of the pages, with what the scan says about each. -/
structure InventoryRun (options : InventoryOptions) (inventoryId : String)
    (pages : List InventoryPage) (rows : List InventoryRow) : Prop where
  safe : options.safe = true
  uuid : uuidV4 inventoryId = true
  finishes : finishes [] pages = true
  scanned : (pages.flatMap InventoryPage.entities).mapM (inventoryRow options 0) = .ok rows
  distinct : (rows.map InventoryRow.key).Nodup
  pageCount : safeInteger pages.length = true
  rowCount : safeInteger rows.length = true

theorem InventoryRun.pagesPos {options : InventoryOptions} {inventoryId : String}
    {pages : List InventoryPage} {rows : List InventoryRow}
    (h : InventoryRun options inventoryId pages rows) : 0 < pages.length := by
  have hpages := h.finishes
  cases pages with
  | nil => cases hpages
  | cons page pages => exact Nat.succ_pos _

theorem InventoryRun.supported {options : InventoryOptions} {inventoryId : String}
    {pages : List InventoryPage} {rows : List InventoryRow}
    (h : InventoryRun options inventoryId pages rows) (hdrift : OnlyTypeDrift rows) :
    ∀ row ∈ rows, row.Supported options := by
  have hall := Except.mapM_eq_ok.mp h.scanned
  have hsupported := hdrift.supported
  clear h hdrift
  generalize pages.flatMap InventoryPage.entities = entities at hall
  induction hall with
  | nil => exact fun _ hmem => absurd hmem List.not_mem_nil
  | cons hrow _ ih =>
    rw [List.forall_mem_cons] at hsupported ⊢
    exact ⟨(inventoryRow_supported hrow hsupported.1).1, ih hsupported.2⟩

/-- The manifest of a scan, and the issues that it is made of. -/
theorem create_of_run {sha256 : List Char → String}
    (hsha256 : ∀ text, hexDigest (sha256 text) = true) {options : InventoryOptions}
    {inventoryId : String} {pages : List InventoryPage} {rows : List InventoryRow}
    (hrun : InventoryRun options inventoryId pages rows) (hdrift : OnlyTypeDrift rows)
    {plan : DatastoreIdRepairPlanOptions} (hplan : plan.check options.idField = .ok ())
    (hmoves : plan.policy = .payloadWins → MovesApart (issuesFrom inventoryId 0 rows)) :
    ∃ (planned : List TypeMismatchIssue) (manifest : RepairManifest),
      createDatastoreIdRepairManifest sha256
        (inventoryReport sha256 options inventoryId pages.length rows)
        ((issuesFrom inventoryId 0 rows).map DatastoreIdInventoryIssue.toJson) plan = .ok manifest ∧
      planned.map TypeMismatchIssue.issue = issuesFrom inventoryId 0 rows ∧
        ∀ issue ∈ planned, issue.issueIndex < 2 ^ 53 ∧ issue.payload.Exact := by
  have hchecked := planChecked_report hsha256 hrun.safe hrun.uuid hrun.pageCount
    hrun.pagesPos hdrift hrun.rowCount hplan
  have hrows : rows.length < 2 ^ 53 := natAbs_natCast_lt hrun.rowCount
  obtain ⟨planned, hplanned, hissues, hall⟩ := @planIssues_rows options
    (inventoryReport sha256 options inventoryId pages.length rows) rfl rfl hrun.uuid plan.policy
    rows (hrun.supported hdrift) hdrift 0 (fun hpolicy => (hmoves hpolicy).nonzero) (by omega)
  have hkeys : (planned.map fun plan => plan.1.key).Nodup := by
    have hkeys : planned.map (fun plan => plan.1.key) =
        (planned.map fun plan => plan.1.issue).map DatastoreIdInventoryIssue.key := by
      rw [List.map_map]
      rfl
    rw [hkeys, hissues]
    exact hrun.distinct.sublist (keys_issuesFrom _ _ _)
  have hset := set_of_planned hall hkeys fun hpolicy => hissues ▸ hmoves hpolicy
  have hcount := @length_issuesFrom inventoryId 0 rows hdrift
  obtain ⟨_, _, hexact⟩ := planIssues_ok (plannedContents
    (inventoryReport sha256 options inventoryId pages.length rows) plan []).core rfl rfl hplanned
  refine ⟨planned.map Prod.fst, _, createDatastoreIdRepairManifest_eq_ok.mpr ⟨hchecked, ?_, planned,
    hplanned, ?_, hset, rfl⟩, ?_, ?_⟩
  · rw [List.length_map, hcount]
    rfl
  · rw [hissues]
    rfl
  · rw [List.map_map]
    exact hissues
  · intro issue hmem
    obtain ⟨plan, hplan, rfl⟩ := List.mem_map.mp hmem
    obtain ⟨hindex, hpayload⟩ := hexact plan hplan
    have hle := List.countP_le_length (p := fun row : InventoryRow => decide
      (row.classification = .typeMismatch)) (l := rows)
    rw [List.length_map] at hindex
    refine ⟨?_, hpayload⟩
    change plan.1.issueIndex < 0 + (issuesFrom inventoryId 0 rows).length at hindex
    omega

/-- The planner accepts what the scan hands out and nothing else; its manifest is accepted again after
its way through JSON, and its digest stands for it. -/
theorem inventory_plan_agree {sha256 : List Char → String}
    (hsha256 : ∀ text, hexDigest (sha256 text) = true) {options : InventoryOptions}
    {inventoryId : String} {pages : List InventoryPage} {rows : List InventoryRow}
    (hrun : InventoryRun options inventoryId pages rows) (hdrift : OnlyTypeDrift rows) :
    ∃ report issues,
      inventoryDatastoreIds sha256 options inventoryId pages = .ok (report, issues) ∧
      ∀ plan : DatastoreIdRepairPlanOptions, plan.check options.idField = .ok () →
        (plan.policy = .payloadWins → MovesApart issues) →
        (∃ manifest value, createDatastoreIdRepairManifest sha256 report
            (issues.map DatastoreIdInventoryIssue.toJson) plan = .ok manifest ∧
          parse (text manifest.toJson) = some value ∧
            acceptRepairManifest sha256 value = .ok manifest) ∧
        (∀ others manifest,
          createDatastoreIdRepairManifest sha256 report others plan = .ok manifest →
            ∃ read, others.mapM readIssue = .ok read ∧
              (NoCollision sha256 (lines (read.map fun issue => issue.issue.toJson))
                (lines (issues.map DatastoreIdInventoryIssue.toJson)) →
                read.map TypeMismatchIssue.issue = issues)) ∧
        ∀ value value' manifest manifest',
          acceptRepairManifest sha256 value = .ok manifest →
          acceptRepairManifest sha256 value' = .ok manifest' →
          NoCollision sha256 (text manifest.contents.toJson) (text manifest'.contents.toJson) →
            manifest.digest = manifest'.digest → manifest = manifest' := by
  refine ⟨_, _, inventory_rows hrun.safe hrun.finishes hrun.scanned hdrift.supported,
    fun plan hplan hmoves => ?_⟩
  obtain ⟨planned, manifest, hcreate, hissues, hexact⟩ :=
    create_of_run hsha256 hrun hdrift hplan hmoves
  refine ⟨?_, fun others manifest' hothers => ?_, fun _ _ _ _ h h' hcollision hdigest =>
    accepted_of_digest h h' hdigest hcollision⟩
  · obtain ⟨hcontents, haccept⟩ := accepted_of_created hsha256 hcreate
    exact ⟨manifest, _, hcreate, parse_manifest hcontents, haccept⟩
  · obtain ⟨_, hlength, planned', hplanned', hdigest, _⟩ :=
      createDatastoreIdRepairManifest_eq_ok.mp hothers
    obtain ⟨hread, _, hexact'⟩ := planIssues_ok (plannedContents
      (inventoryReport sha256 options inventoryId pages.length rows) plan []).core rfl rfl hplanned'
    refine ⟨_, hread, fun hcollision => ?_⟩
    have hrows : rows.length < 2 ^ 53 := natAbs_natCast_lt hrun.rowCount
    have hle := List.countP_le_length (p := fun row : InventoryRow => decide
      (row.classification = .typeMismatch)) (l := rows)
    have hbound : ∀ issue ∈ planned'.map Prod.fst, issue.issueIndex < 2 ^ 53 ∧
        issue.payload.Exact := by
      intro issue hmem
      obtain ⟨plan, hplan, rfl⟩ := List.mem_map.mp hmem
      obtain ⟨hindex, hpayload⟩ := hexact' plan hplan
      rw [hlength] at hindex
      change plan.1.issueIndex < 0 + rows.countP (·.classification = .typeMismatch) at hindex
      exact ⟨by omega, hpayload⟩
    have hlines := @digest_inj sha256
      (lines ((planned'.map Prod.fst).map fun issue => issue.issue.toJson))
      (lines ((issuesFrom inventoryId 0 rows).map DatastoreIdInventoryIssue.toJson)) hcollision (by
        rw [List.map_map]
        change inventoryIssueDigest _ _ = inventoryIssueDigest _ _ at hdigest
        rw [inventoryIssueDigest, List.map_map] at hdigest
        exact hdigest)
    have hemitted : (issuesFrom inventoryId 0 rows).map DatastoreIdInventoryIssue.toJson =
        planned.map fun issue => issue.issue.toJson := by
      rw [← hissues, List.map_map]
      rfl
    rw [hemitted] at hlines
    rw [issues_lines_inj hbound hexact hlines, hissues]

/-- Two pages of users, the first with the number 5 for the name `5`. -/
theorem inventory_plan_agree_users :
    let sha256 : List Char → String := fun text =>
      if text.getLast? = some '\n' then
        "1e5132c75e6cac7b734d463b1ca971bb6559a917b0484e45912e0cbde59d32c3"
      else "af126e43811438d3cf3b9dcc3e3e376a4f20852e6eea4794d8cff55580732218"
    let number (n : Int) : JsNumber := JsNumber.ofRat false n
    ∃ report issues manifest value,
      inventoryDatastoreIds sha256 ⟨"User", "id", none⟩ "7b0c2b9e-3f64-4d0a-9a51-0c3f1e6f2d11"
        [⟨[⟨[⟨"User", some "5", none⟩], none, .number (number 5)⟩], some "next"⟩,
          ⟨[⟨[⟨"User", none, some (.text "7")⟩], none, .number (number 7)⟩], none⟩] =
        .ok (report, issues) ∧
      createDatastoreIdRepairManifest sha256 report (issues.map DatastoreIdInventoryIssue.toJson)
        ⟨"production", .keyWins, [], false, none⟩ = .ok manifest ∧
      parse (text manifest.toJson) = some value ∧ acceptRepairManifest sha256 value = .ok manifest := by
  intro sha256 number
  have hrun : InventoryRun ⟨"User", "id", none⟩ "7b0c2b9e-3f64-4d0a-9a51-0c3f1e6f2d11"
      [⟨[⟨[⟨"User", some "5", none⟩], none, .number (number 5)⟩], some "next"⟩,
        ⟨[⟨[⟨"User", none, some (.text "7")⟩], none, .number (number 7)⟩], none⟩]
      [⟨⟨none, [⟨"User", .name, "5"⟩]⟩, .id (.number 5), .typeMismatch,
          "Physical key and payload field \"id\" have matching text but different ID types."⟩,
        ⟨⟨none, [⟨"User", .id, "7"⟩]⟩, .id (.number 7), .matched, ""⟩] := by
    refine ⟨by decide, by decide, by decide, ?_, by decide, by decide, by decide⟩
    have hpayload (n : Int) (hn : n.natAbs < 2 ^ 53) :
        datastoreIdInventoryPayload (.number (number n)) = .id (.number n) := by
      have hnumber : number n = .finite ⟨n, Binary64.nearest_intCast hn⟩ :=
        Value.number.inj (integer_eq hn)
      rw [hnumber, datastoreIdInventoryPayload, safeInteger?_finite hn]
    have hfirst : inventoryRow ⟨"User", "id", none⟩ 0
        ⟨[⟨"User", some "5", none⟩], none, .number (number 5)⟩ = .ok ⟨⟨none, [⟨"User", .name, "5"⟩]⟩,
          .id (.number 5), .typeMismatch,
          "Physical key and payload field \"id\" have matching text but different ID types."⟩ :=
      @inventoryRow_of ⟨"User", "id", none⟩ 0 _ ⟨_, ⟨"User", .name, "5"⟩, none⟩ _ (_, _) rfl
        (hpayload 5 (by decide)) rfl
    have hsecond : inventoryRow ⟨"User", "id", none⟩ 0
        ⟨[⟨"User", none, some (.text "7")⟩], none, .number (number 7)⟩ =
          .ok ⟨⟨none, [⟨"User", .id, "7"⟩]⟩, .id (.number 7), .matched, ""⟩ :=
      @inventoryRow_of ⟨"User", "id", none⟩ 0 _ ⟨_, ⟨"User", .id, "7"⟩, none⟩ _ (_, _) rfl
        (hpayload 7 (by decide)) rfl
    rw [List.flatMap_cons, List.flatMap_cons, List.flatMap_nil]
    simp only [List.cons_append, List.nil_append, List.mapM_cons, hfirst, hsecond]
    rfl
  obtain ⟨report, issues, hscan, hplans⟩ := @inventory_plan_agree sha256
    (fun text => by
      unfold sha256
      split <;> decide) _ _ _ _ hrun (by
    intro row hmem
    rcases List.mem_pair.mp hmem with rfl | rfl
    · exact Or.inr rfl
    · exact Or.inl rfl)
  obtain ⟨⟨manifest, value, hcreate, hparse, haccept⟩, _⟩ :=
    hplans ⟨"production", .keyWins, [], false, none⟩ rfl (fun h => by cases h)
  exact ⟨report, issues, manifest, value, hscan, hcreate, hparse, haccept⟩

end ActiveTs.Datastore
