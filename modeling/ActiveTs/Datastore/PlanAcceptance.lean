import ActiveTs.Datastore.NativeKeys

/-! # What the planner writes is accepted

The planner and whoever reads its manifest derive operations alike. A manifest that the planner returns
is accepted again, also after its way through JSON, and accepted manifests with one digest are one
manifest, unless their texts collide. -/

namespace ActiveTs.Datastore

open ActiveTs.Outbox (EntityId)
open JsonText

@[simp] theorem readJson_eq_ok {result : Except RecordError α} {a : α} :
    readJson result = .ok a ↔ result = .ok a := by
  cases result with
  | error e => exact iff_of_false (fun h => by cases h) (fun h => by cases h)
  | ok b => simp [readJson, Except.mapError]

@[simp] theorem atManifest_eq_ok {result : Except ManifestError α} {a : α} :
    atManifest result = .ok a ↔ result = .ok a := by
  cases result with
  | error e => exact iff_of_false (fun h => by cases h) (fun h => by cases h)
  | ok b => simp [atManifest, Except.mapError]

/-! ## Accepted contents -/

theorem exact_of_normalize {payload : DatastoreIdRepairPayload} {index : Nat}
    (h : payload.normalize index = .ok ()) : payload.Exact := by
  cases payload with
  | string value => trivial
  | number value => exact safeInteger_iff.mp (assertSafeEntityId_eq_ok.mp (atOperation_eq_ok.mp h))
  | int64 value => trivial

theorem normalizeRepairOperation_exact {manifest : DatastoreIdRepairManifest} {index : Nat}
    {operation operation' : DatastoreIdRepairOperation}
    (h : normalizeRepairOperation manifest index operation = .ok operation') :
    operation.issueIndex = index ∧ operation.expectedPayload.Exact := by
  obtain ⟨_, hindex, h⟩ := Except.bind_eq_ok.mp h
  obtain ⟨_, _, h⟩ := Except.bind_eq_ok.mp h
  obtain ⟨_, hpayload, _⟩ := Except.bind_eq_ok.mp h
  exact ⟨not_not.mp (refuse_eq_ok.mp hindex), exact_of_normalize hpayload⟩

theorem normalizeRepairOperations_exact {manifest : DatastoreIdRepairManifest} {index : Nat}
    {operations operations' : List DatastoreIdRepairOperation}
    (h : normalizeRepairOperations manifest index operations = .ok operations') :
    ∀ operation ∈ operations, operation.issueIndex < index + operations.length ∧
      operation.expectedPayload.Exact ∧ safeEntityId operation.replacementId = true := by
  induction operations generalizing index operations' with
  | nil => exact fun _ hmem => absurd hmem List.not_mem_nil
  | cons operation operations ih =>
    obtain ⟨_, hfirst, h⟩ := Except.bind_eq_ok.mp h
    obtain ⟨_, hrest, _⟩ := Except.bind_eq_ok.mp h
    obtain ⟨hindex, hpayload⟩ := normalizeRepairOperation_exact hfirst
    rw [List.forall_mem_cons, List.length_cons]
    refine ⟨⟨by omega, hpayload, (normalizeRepairOperation_ok hfirst).2.1⟩, fun op hmem => ?_⟩
    obtain ⟨hlt, hexact⟩ := ih hrest op hmem
    exact ⟨by omega, hexact⟩

theorem normalizeRepairManifest_exact {manifest accepted : DatastoreIdRepairManifest}
    (h : normalizeRepairManifest manifest = .ok accepted) :
    manifest.operations.length = manifest.typeMismatches ∧
      ∀ operation ∈ manifest.operations, operation.issueIndex < manifest.operations.length ∧
        operation.expectedPayload.Exact ∧ safeEntityId operation.replacementId = true := by
  obtain ⟨_, _, h⟩ := Except.bind_eq_ok.mp h
  obtain ⟨_, hlength, h⟩ := Except.bind_eq_ok.mp h
  obtain ⟨_, hoperations, _⟩ := Except.bind_eq_ok.mp h
  have hexact := normalizeRepairOperations_exact hoperations
  rw [Nat.zero_add] at hexact
  exact ⟨not_not.mp (refuse_eq_ok.mp hlength), hexact⟩

theorem natAbs_natCast_lt {n : Nat} (h : safeInteger n = true) : n < 2 ^ 53 := safeInteger_iff.mp h

theorem contents_normalize_ok {contents accepted : RepairManifestContents}
    (h : contents.normalize = .ok accepted) : accepted = contents ∧ contents.Exact := by
  obtain ⟨_, _, h⟩ := Except.bind_eq_ok.mp h
  obtain ⟨_, _, h⟩ := Except.bind_eq_ok.mp h
  obtain ⟨_, _, h⟩ := Except.bind_eq_ok.mp h
  obtain ⟨_, _, h⟩ := Except.bind_eq_ok.mp h
  obtain ⟨_, _, h⟩ := Except.bind_eq_ok.mp h
  obtain ⟨_, hinventory, h⟩ := Except.bind_eq_ok.mp h
  obtain ⟨core, hcore, h⟩ := Except.bind_eq_ok.mp h
  rw [atManifest_eq_ok] at hcore
  obtain ⟨rfl, _⟩ := normalizeRepairManifest_safe hcore
  obtain rfl := Except.ok.inj h
  rw [refuse_eq_ok, Bool.not_eq_true', Bool.not_eq_false] at hinventory
  simp only [DatastoreIdRepairInventorySummary.safe, Bool.and_eq_true] at hinventory
  obtain ⟨⟨⟨⟨⟨⟨_, hscanned⟩, hpages⟩, _⟩, hmatched⟩, htypeMismatches⟩, _⟩ := hinventory
  obtain ⟨hlength, hoperations⟩ := normalizeRepairManifest_exact hcore
  have htotal : contents.inventory.typeMismatches < 2 ^ 53 := natAbs_natCast_lt htypeMismatches
  refine ⟨rfl, natAbs_natCast_lt hscanned, natAbs_natCast_lt hpages, natAbs_natCast_lt hmatched,
    htotal, fun operation hmem => ?_⟩
  obtain ⟨hindex, hpayload, hid⟩ := hoperations operation hmem
  exact ⟨lt_trans hindex (lt_of_eq_of_lt hlength htotal), hpayload, hid⟩

theorem acceptRepairManifest_ok {sha256 : List Char → String} {value : Value}
    {manifest : RepairManifest} (h : acceptRepairManifest sha256 value = .ok manifest) :
    manifest.contents.Exact ∧ manifest.digest = repairManifestDigest sha256 manifest.contents := by
  obtain ⟨read, _, h⟩ := Except.bind_eq_ok.mp h
  obtain ⟨_, _, h⟩ := Except.bind_eq_ok.mp h
  obtain ⟨contents, hcontents, h⟩ := Except.bind_eq_ok.mp h
  obtain ⟨_, hdigest, h⟩ := Except.bind_eq_ok.mp h
  obtain ⟨rfl, hexact⟩ := contents_normalize_ok hcontents
  obtain rfl := Except.ok.inj h
  exact ⟨hexact, not_not.mp (refuse_eq_ok.mp hdigest)⟩

/-! ## Digests -/

/-- The hash tells the two texts apart. -/
def NoCollision (sha256 : List Char → String) (left right : List Char) : Prop :=
  sha256 left = sha256 right → left = right

theorem digest_inj {sha256 : List Char → String} {left right : List Char}
    (h : NoCollision sha256 left right) (heq : "sha256:" ++ sha256 left = "sha256:" ++ sha256 right) :
    left = right := by
  apply h
  have hchars := congrArg String.toList heq
  rw [String.toList_append, String.toList_append] at hchars
  exact String.toList_inj.mp (List.append_cancel_left hchars)

/-- Accepted manifests with one digest are one manifest. -/
theorem accepted_of_digest {sha256 : List Char → String} {value value' : Value}
    {manifest manifest' : RepairManifest}
    (h : acceptRepairManifest sha256 value = .ok manifest)
    (h' : acceptRepairManifest sha256 value' = .ok manifest')
    (hdigest : manifest.digest = manifest'.digest)
    (hcollision : NoCollision sha256 (text manifest.contents.toJson)
      (text manifest'.contents.toJson)) : manifest = manifest' := by
  obtain ⟨hexact, heq⟩ := acceptRepairManifest_ok h
  obtain ⟨hexact', heq'⟩ := acceptRepairManifest_ok h'
  have htext := digest_inj hcollision (heq.symm.trans (hdigest.trans heq'))
  obtain ⟨contents, digest⟩ := manifest
  obtain ⟨contents', digest'⟩ := manifest'
  obtain rfl : contents = contents' := contents_text_inj hexact hexact' htext
  obtain rfl : digest = digest' := hdigest
  rfl

/-! ## Plans -/

theorem replaceInventoryKeyLeaf_eq {key : DatastoreIdInventoryKey} {leaf : DatastoreIdInventoryKeyPart}
    (h : keyLeaf key = .ok leaf) (id : EntityId) : replaceInventoryKeyLeaf key id =
      .ok { key with path := key.path.dropLast ++ [keyPartOfId leaf.kind id] } := by
  rw [replaceInventoryKeyLeaf, h]
  cases id <;> rfl

/-- The parts of an operation that its policy does not decide. -/
theorem buildRepairOperation_ok {index : Nat} {source : DatastoreIdInventoryKey}
    {payload : DatastoreIdRepairPayload} {policy : DatastoreIdRepairPolicy}
    {operation : DatastoreIdRepairOperation}
    (h : buildRepairOperation index source payload policy = .ok operation) :
    operation.issueIndex = index ∧ operation.source = source ∧ operation.expectedPayload = payload ∧
      safeEntityId operation.replacementId = true := by
  cases policy with
  | keyWins =>
    obtain ⟨_, _, h⟩ := Except.bind_eq_ok.mp h
    obtain ⟨_, _, h⟩ := Except.bind_eq_ok.mp h
    obtain ⟨_, hsafe, h⟩ := Except.bind_eq_ok.mp h
    obtain rfl := Except.ok.inj h
    exact ⟨rfl, rfl, rfl, assertSafeEntityId_eq_ok.mp hsafe⟩
  | payloadWins =>
    obtain ⟨_, _, h⟩ := Except.bind_eq_ok.mp h
    obtain ⟨_, hsafe, h⟩ := Except.bind_eq_ok.mp h
    obtain ⟨_, _, h⟩ := Except.bind_eq_ok.mp h
    obtain ⟨_, _, h⟩ := Except.bind_eq_ok.mp h
    obtain rfl := Except.ok.inj h
    exact ⟨rfl, rfl, rfl, assertSafeEntityId_eq_ok.mp hsafe⟩

/-- The target of an accepted source is accepted. -/
theorem target_normal {index : Nat} {source : DatastoreIdInventoryKey} {kind : String}
    {ns : Option String} {payload : DatastoreIdRepairPayload} {policy : DatastoreIdRepairPolicy}
    {operation : DatastoreIdRepairOperation} (hsource : normalizeInventoryKey source kind ns = .ok source)
    (h : buildRepairOperation index source payload policy = .ok operation) :
    normalizeInventoryKey operation.target kind ns = .ok operation.target := by
  cases policy with
  | keyWins =>
    rw [(buildRepairOperation_keyWins h).1]
    exact hsource
  | payloadWins =>
    obtain ⟨id, _, h⟩ := Except.bind_eq_ok.mp h
    obtain ⟨_, _, h⟩ := Except.bind_eq_ok.mp h
    obtain ⟨⟨⟩, hnative, h⟩ := Except.bind_eq_ok.mp h
    obtain ⟨target, htarget, h⟩ := Except.bind_eq_ok.mp h
    obtain rfl := Except.ok.inj h
    obtain ⟨hns, hother, hparts, leaf, hleaf, hkind⟩ := normalizeInventoryKey_eq_ok.mp hsource
    rw [replaceInventoryKeyLeaf_eq (keyLeaf_eq_ok.mpr hleaf)] at htarget
    obtain rfl := Except.ok.inj htarget
    have hleafKind := (normalize_part_ok (hparts leaf (List.mem_of_getLast? hleaf))).1
    refine normalizeInventoryKey_eq_ok.mpr ⟨hns, hother, fun part hmem => ?_,
      keyPartOfId leaf.kind id, List.getLast?_concat .., ?_⟩
    · rcases List.mem_append.mp hmem with hmem | hmem
      · exact hparts part (List.dropLast_subset _ hmem)
      · obtain rfl := List.mem_singleton.mp hmem
        exact normalize_keyPartOfId hleafKind hnative
    · rw [keyPartOfId_kind, hkind]

/-- An operation of the planner is derived again by whoever reads it. -/
theorem normalizeRepairOperation_of_build {manifest : DatastoreIdRepairManifest} {index : Nat}
    {key : DatastoreIdInventoryKey} {payload : DatastoreIdRepairPayload}
    {operation : DatastoreIdRepairOperation}
    (hkey : normalizeInventoryKey key manifest.kind manifest.ns = .ok key)
    (hpayload : payload.normalize index = .ok ())
    (hmismatch : assertTypeMismatch key payload index = .ok ())
    (hbuild : buildRepairOperation index key payload manifest.policy = .ok operation) :
    normalizeRepairOperation manifest index operation = .ok operation := by
  have htarget := target_normal hkey hbuild
  obtain ⟨identity, hidentity⟩ := identity_of_normal htarget
  obtain ⟨hindex, hsource, hexpected, hsafe⟩ := buildRepairOperation_ok hbuild
  have hreplacement := assertSafeEntityId_eq_ok (u := ()).mpr hsafe
  obtain ⟨issueIndex, source, target, expectedPayload, replacementId⟩ := operation
  obtain rfl : issueIndex = index := hindex
  obtain rfl : source = key := hsource
  obtain rfl : expectedPayload = payload := hexpected
  simp only [normalizeRepairOperation, refuse, atOperation, Except.mapError, bind, Except.bind, ne_eq,
    not_true_eq_false, if_false, hkey, hpayload, hmismatch, hbuild, htarget, hidentity, hreplacement]

/-- What one turn of the planner's loop has checked. -/
theorem normalizeTypeMismatchIssue_ok {report : DatastoreIdInventoryReport} {index : Nat}
    {value : Value} {issue : TypeMismatchIssue}
    (h : normalizeTypeMismatchIssue report index value = .ok issue) :
    readIssue value = .ok issue ∧ issue.inventoryId = report.inventoryId ∧
      issue.issueIndex = index ∧ normalizeInventoryKey issue.key report.kind report.ns = .ok issue.key ∧
        issue.payload.normalize index = .ok () ∧
          assertTypeMismatch issue.key issue.payload index = .ok () := by
  obtain ⟨read, hread, h⟩ := Except.bind_eq_ok.mp h
  obtain ⟨_, hinventory, h⟩ := Except.bind_eq_ok.mp h
  obtain ⟨_, hindex, h⟩ := Except.bind_eq_ok.mp h
  obtain ⟨key, hkey, h⟩ := Except.bind_eq_ok.mp h
  obtain ⟨⟨⟩, hpayload, h⟩ := Except.bind_eq_ok.mp h
  obtain ⟨⟨⟩, hmismatch, h⟩ := Except.bind_eq_ok.mp h
  rw [atManifest_eq_ok] at hkey hpayload hmismatch
  rw [atOperation_eq_ok] at hkey
  obtain rfl := normalizeInventoryKey_ok hkey
  obtain rfl := Except.ok.inj h
  rw [refuse_eq_ok] at hinventory hindex
  exact ⟨hread, by simpa using (by simpa using hinventory : _ ∧ _).2, not_not.mp hindex, hkey, hpayload,
    hmismatch⟩

/-- The issues that the planner went through, and that its operations are accepted again. -/
theorem planIssues_ok (manifest : DatastoreIdRepairManifest) {report : DatastoreIdInventoryReport}
    (hkind : manifest.kind = report.kind) (hns : manifest.ns = report.ns) {index : Nat}
    {values : List Value} {planned : List (TypeMismatchIssue × DatastoreIdRepairOperation)}
    (h : planIssues report manifest.policy index values = .ok planned) :
    values.mapM readIssue = .ok (planned.map Prod.fst) ∧
      normalizeRepairOperations manifest index (planned.map Prod.snd) = .ok (planned.map Prod.snd) ∧
        ∀ plan ∈ planned, plan.1.issueIndex < index + values.length ∧ plan.1.payload.Exact := by
  induction values generalizing index planned with
  | nil =>
    obtain rfl := Except.ok.inj h
    exact ⟨rfl, rfl, fun _ h => absurd h List.not_mem_nil⟩
  | cons value values ih =>
    obtain ⟨issue, hissue, h⟩ := Except.bind_eq_ok.mp h
    obtain ⟨operation, hoperation, h⟩ := Except.bind_eq_ok.mp h
    obtain ⟨rest, hrest, h⟩ := Except.bind_eq_ok.mp h
    obtain rfl := Except.ok.inj h
    rw [atManifest_eq_ok, atOperation_eq_ok] at hoperation
    obtain ⟨hread, hnormal, hexact⟩ := ih hrest
    obtain ⟨hvalue, _, hindex, hkey, hpayload, hmismatch⟩ := normalizeTypeMismatchIssue_ok hissue
    rw [← hkind, ← hns] at hkey
    have hfirst := normalizeRepairOperation_of_build hkey hpayload hmismatch hoperation
    refine ⟨?_, ?_, List.forall_mem_cons.mpr ⟨⟨?_, exact_of_normalize hpayload⟩, fun plan hplan => ?_⟩⟩
    · rw [List.mapM_cons, hvalue, hread]
      rfl
    · rw [List.map_cons, normalizeRepairOperations, hfirst, hnormal]
      rfl
    · rw [hindex, List.length_cons]
      omega
    · obtain ⟨hlt, hpayload⟩ := hexact plan hplan
      rw [List.length_cons]
      exact ⟨by omega, hpayload⟩

theorem manifestDigest_sha256 (digest : String) :
    manifestDigest ("sha256:" ++ digest) = hexDigest digest := by
  have hlist : ("sha256:" ++ digest).toList = "sha256:".toList ++ digest.toList :=
    String.toList_append
  have hdrop : String.ofList (("sha256:" ++ digest).toList.drop 7) = digest := by
    rw [hlist, List.drop_left' (by rfl), String.ofList_toList]
  have hfront : "sha256:".toList.isPrefixOf ("sha256:" ++ digest).toList = true := by
    rw [hlist, List.isPrefixOf_iff_prefix]
    exact List.prefix_append _ _
  rw [manifestDigest, hdrop, hfront, Bool.true_and]

/-- What the planner checked before it went through the issues. -/
structure PlanChecked (report : DatastoreIdInventoryReport) (options : DatastoreIdRepairPlanOptions) :
    Prop where
  safeReport : normalizeInventoryReport report = .ok ()
  safeOptions : options.check report.idField = .ok ()
  onlyTypeDrift : ∀ c, c ≠ .matched → c ≠ .typeMismatch → report.counts c = 0

/-- The manifest of a plan. -/
def plannedContents (report : DatastoreIdInventoryReport) (options : DatastoreIdRepairPlanOptions)
    (operations : List DatastoreIdRepairOperation) : RepairManifestContents :=
  ⟨report.kind, report.idField, options.target, report.ns, options.policy, options.descendantPolicy,
    options.excludeFromIndexes, ⟨report.inventoryId, report.issueDigest, report.scanned, report.pages,
      report.counts .matched, report.counts .typeMismatch⟩, operations⟩

theorem createDatastoreIdRepairManifest_eq_ok {sha256 : List Char → String}
    {report : DatastoreIdInventoryReport} {issues : List Value}
    {options : DatastoreIdRepairPlanOptions} {manifest : RepairManifest} :
    createDatastoreIdRepairManifest sha256 report issues options = .ok manifest ↔
      PlanChecked report options ∧ issues.length = report.counts .typeMismatch ∧
        ∃ planned, planIssues report options.policy 0 issues = .ok planned ∧
          inventoryIssueDigest sha256 (planned.map fun plan => plan.1.issue) = report.issueDigest ∧
          assertRepairOperationSet (planned.map Prod.snd) options.policy = .ok () ∧
          manifest = ⟨plannedContents report options (planned.map Prod.snd),
            repairManifestDigest sha256
              (plannedContents report options (planned.map Prod.snd))⟩ := by
  have hdrift : (¬ (DatastoreIdInventoryClassification.all.any fun c =>
      c != .matched && c != .typeMismatch && report.counts c != 0) = true) ↔
        ∀ c, c ≠ .matched → c ≠ .typeMismatch → report.counts c = 0 := by
    constructor
    · intro h c hmatched htypeMismatch
      by_contra hzero
      apply h
      refine List.any_eq_true.mpr ⟨c, by cases c <;> decide, ?_⟩
      simp [hmatched, htypeMismatch, hzero]
    · intro h hany
      obtain ⟨c, _, hc⟩ := List.any_eq_true.mp hany
      simp only [Bool.and_eq_true, bne_iff_ne] at hc
      exact hc.2 (h c hc.1.1 hc.1.2)
  unfold createDatastoreIdRepairManifest
  simp only [Except.bind_eq_ok, refuse_eq_ok, atManifest_eq_ok, ne_eq, not_not, hdrift]
  constructor
  · rintro ⟨⟨⟩, hreport, ⟨⟩, hoptions, ⟨⟩, honly, ⟨⟩, hlength, planned, hplanned, ⟨⟩, hdigest, ⟨⟩, hset,
      h⟩
    exact ⟨⟨hreport, hoptions, honly⟩, hlength, planned, hplanned, hdigest, hset,
      (Except.ok.inj h).symm⟩
  · rintro ⟨⟨hreport, hoptions, honly⟩, hlength, planned, hplanned, hdigest, hset, rfl⟩
    exact ⟨⟨⟩, hreport, ⟨⟩, hoptions, ⟨⟩, honly, ⟨⟩, hlength, planned, hplanned, ⟨⟩, hdigest, ⟨⟩, hset,
      rfl⟩

theorem not_refused {b : Bool} (h : b = true) : ¬ (!b) = true := by
  rw [h]
  decide

/-- The summary of a report whose rows all match or have type drift. -/
theorem summary_safe {report : DatastoreIdInventoryReport} {options : DatastoreIdRepairPlanOptions}
    (h : PlanChecked report options) : DatastoreIdRepairInventorySummary.safe
      ⟨report.inventoryId, report.issueDigest, report.scanned, report.pages, report.counts .matched,
        report.counts .typeMismatch⟩ = true := by
  have hreport := h.safeReport
  have hsum : (DatastoreIdInventoryClassification.all.map report.counts).sum =
      report.counts .matched + report.counts .typeMismatch := by
    simp [DatastoreIdInventoryClassification.all, h.onlyTypeDrift]
  simp only [normalizeInventoryReport, refuse_eq_ok, hsum, Bool.not_eq_true', Bool.not_eq_false,
    Bool.and_eq_true, decide_eq_true_iff, safeInteger_iff] at hreport
  obtain ⟨⟨⟨⟨⟨⟨⟨⟨⟨huuid, hdigest⟩, _⟩, _⟩, _⟩, hscanned⟩, hpages⟩, hpositive⟩, _⟩, htotal⟩ := hreport
  simp only [DatastoreIdRepairInventorySummary.safe, Bool.and_eq_true, decide_eq_true_iff,
    safeInteger_iff]
  exact ⟨⟨⟨⟨⟨⟨⟨huuid, hdigest⟩, hscanned⟩, hpages⟩, hpositive⟩, by omega⟩, by omega⟩, htotal⟩

theorem plannedContents_normalize {report : DatastoreIdInventoryReport}
    {options : DatastoreIdRepairPlanOptions} {operations : List DatastoreIdRepairOperation}
    (h : PlanChecked report options) (hlength : operations.length = report.counts .typeMismatch)
    (hoperations : normalizeRepairOperations (plannedContents report options operations).core 0
      operations = .ok operations)
    (hset : assertRepairOperationSet operations options.policy = .ok ()) :
    (plannedContents report options operations).normalize =
      .ok (plannedContents report options operations) := by
  have hsummary := summary_safe h
  have hreport := h.safeReport
  simp only [normalizeInventoryReport, refuse_eq_ok, Bool.not_eq_true', Bool.not_eq_false,
    Bool.and_eq_true] at hreport
  obtain ⟨⟨⟨⟨⟨⟨⟨⟨_, hkind⟩, hidField⟩, hns⟩, _⟩, _⟩, _⟩, _⟩, _⟩ := hreport
  have hoptions := h.safeOptions
  simp only [DatastoreIdRepairPlanOptions.check, Except.bind_eq_ok, refuse_eq_ok] at hoptions
  obtain ⟨_, htarget, _, _, _, hdescendant, hexclude⟩ := hoptions
  have hcore : normalizeRepairManifest (plannedContents report options operations).core =
      .ok (plannedContents report options operations).core := by
    unfold normalizeRepairManifest
    simp only [Except.bind_eq_ok, refuse_eq_ok]
    exact ⟨⟨⟩, not_refused hns, ⟨⟩, not_not.mpr hlength, operations, hoperations, ⟨⟩, hset, rfl⟩
  unfold RepairManifestContents.normalize
  simp only [Except.bind_eq_ok, refuse_eq_ok, atManifest_eq_ok]
  exact ⟨⟨⟩, not_refused hkind, ⟨⟩, not_refused hidField, ⟨⟩, htarget, ⟨⟩, hdescendant, ⟨⟩, hexclude,
    ⟨⟩, not_refused hsummary, _, hcore, rfl⟩

/-- A manifest that the planner returns is accepted as it is. -/
theorem accepted_of_created {sha256 : List Char → String}
    (hsha256 : ∀ text, hexDigest (sha256 text) = true) {report : DatastoreIdInventoryReport}
    {issues : List Value} {options : DatastoreIdRepairPlanOptions} {manifest : RepairManifest}
    (h : createDatastoreIdRepairManifest sha256 report issues options = .ok manifest) :
    manifest.contents.Exact ∧ acceptRepairManifest sha256 manifest.toJson = .ok manifest := by
  obtain ⟨hchecked, hlength, planned, hplanned, _, hset, rfl⟩ :=
    createDatastoreIdRepairManifest_eq_ok.mp h
  obtain ⟨hread, hoperations, _⟩ :=
    planIssues_ok (plannedContents report options (planned.map Prod.snd)).core rfl rfl hplanned
  have hcount : (planned.map Prod.snd).length = report.counts .typeMismatch := by
    rw [← hlength, (Except.mapM_eq_ok.mp hread).length_eq, List.length_map, List.length_map]
  have hcontents := plannedContents_normalize hchecked hcount hoperations hset
  have hexact := (contents_normalize_ok hcontents).2
  refine ⟨hexact, ?_⟩
  unfold acceptRepairManifest
  rw [readManifest_toJson hexact]
  simp only [Except.bind_eq_ok, refuse_eq_ok]
  refine ⟨_, rfl, ⟨⟩, ?_, _, hcontents, ⟨⟩, not_not.mpr rfl, rfl⟩
  rw [repairManifestDigest, manifestDigest_sha256, hsha256]
  decide

end ActiveTs.Datastore
