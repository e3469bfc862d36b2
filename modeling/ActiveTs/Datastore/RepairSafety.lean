import ActiveTs.Datastore.RepairRun

/-! # What an ID repair changes

A run leaves every entity outside its manifest alone, and repairs an entity of the manifest as a
whole or not at all. Its counts describe a prefix of the operations. -/

namespace ActiveTs.Datastore

open ActiveTs.Outbox (EntityId)

variable {V : Type}

/-! ## Repaired entities -/

section
variable (manifest : DatastoreIdRepairManifest) (operation : DatastoreIdRepairOperation)

/-- `after` is `before` with its ID field replaced. -/
def RepairedEntity (before after : Entity V) : Prop :=
  after manifest.idField = some (.id operation.replacementId) ∧
    ∀ field, field ≠ manifest.idField → after field = before field

/-- The entity of the source is under the target and nowhere else, with its ID field replaced. -/
def Repaired (content content' : Content V) : Prop :=
  ∃ source target before after, inventoryKeyToSdkOptions operation.source = .ok source ∧
    inventoryKeyToSdkOptions operation.target = .ok target ∧ content source = some before ∧
      RepairedEntity manifest operation before after ∧ content' target = some after ∧
        (target ≠ source → content' source = none)

def Unchanged (content content' : Content V) : Prop :=
  ∀ key ∈ operation.slots, content' key = content key

/-- The run finds nothing to write. -/
def foundRepaired (content : Content V) : Bool :=
  match inventoryKeyToSdkOptions operation.source with
  | .error _ => false
  | .ok source => (content source).any (alreadyRepaired manifest operation)

/-- The source is there, with the ID field that the inventory saw or that the run writes. -/
def Inventoried (content : Content V) : Prop :=
  ∃ source before, inventoryKeyToSdkOptions operation.source = .ok source ∧
    content source = some before ∧
      (alreadyRepaired manifest operation before ∨ expectedPayload manifest operation before)

end

theorem repairedEntity_repaired (manifest : DatastoreIdRepairManifest)
    (operation : DatastoreIdRepairOperation) (source : Entity V) :
    RepairedEntity manifest operation source (repairedEntity manifest operation source) :=
  ⟨Function.update_self _ _ _, fun _ hfield => Function.update_of_ne hfield _ _⟩

theorem RepairedEntity.trans {manifest : DatastoreIdRepairManifest}
    {operation : DatastoreIdRepairOperation} {a b c : Entity V}
    (h : RepairedEntity manifest operation a b) (h' : RepairedEntity manifest operation b c) :
    RepairedEntity manifest operation a c :=
  ⟨h'.1, fun field hfield => (h'.2 field hfield).trans (h.2 field hfield)⟩

theorem repairPayloadForId_inj {left right : EntityId}
    (h : repairPayloadForId left = repairPayloadForId right) : left = right := by
  cases left <;> cases right <;> cases h <;> rfl

theorem payloadFromEntity_eq_payload {entity : Entity V} {idField : String}
    {payload : DatastoreIdRepairPayload} (h : payloadFromEntity entity idField = .payload payload) :
    ∃ id, entity idField = some (.id id) ∧ repairPayloadForId id = payload := by
  unfold payloadFromEntity at h
  cases hfield : entity idField with
  | none => simp [hfield] at h
  | some value =>
    cases value with
    | other => simp [hfield] at h
    | id id =>
      simp only [hfield] at h
      split at h
      · exact ⟨id, rfl, CurrentPayload.payload.inj h⟩
      · cases h

/-- An entity that counts as repaired holds the ID field that the run would write. -/
theorem alreadyRepaired_entity {manifest : DatastoreIdRepairManifest}
    {operation : DatastoreIdRepairOperation} {source : Entity V}
    (h : alreadyRepaired manifest operation source) :
    manifest.policy = .keyWins ∧ RepairedEntity manifest operation source source := by
  simp only [alreadyRepaired, sameRepairPayload, Bool.and_eq_true, decide_eq_true_eq] at h
  obtain ⟨id, hfield, hpayload⟩ := payloadFromEntity_eq_payload h.2
  rw [repairPayloadForId_inj hpayload] at hfield
  exact ⟨h.1, hfield, fun _ _ => rfl⟩

/-- What a repair writes counts as repaired. -/
theorem alreadyRepaired_of_repaired {manifest : DatastoreIdRepairManifest}
    {operation : DatastoreIdRepairOperation} {before after : Entity V}
    (hpolicy : manifest.policy = .keyWins) (hsafe : safeEntityId operation.replacementId)
    (h : RepairedEntity manifest operation before after) :
    alreadyRepaired manifest operation after := by
  simp [alreadyRepaired, sameRepairPayload, payloadFromEntity, hpolicy, h.1, hsafe]

theorem Unchanged.trans {operation : DatastoreIdRepairOperation} {a b c : Content V}
    (h : Unchanged operation a b) (h' : Unchanged operation b c) : Unchanged operation a c :=
  fun key hkey => (h' key hkey).trans (h key hkey)

section
variable {manifest : DatastoreIdRepairManifest} {operation : DatastoreIdRepairOperation}
  {a b c : Content V}

theorem source_mem_slots {source : SdkKey}
    (h : inventoryKeyToSdkOptions operation.source = .ok source) : source ∈ operation.slots := by
  rw [DatastoreIdRepairOperation.slots, h]
  exact List.mem_append_left _ List.mem_cons_self

theorem target_mem_slots {target : SdkKey}
    (h : inventoryKeyToSdkOptions operation.target = .ok target) : target ∈ operation.slots := by
  rw [DatastoreIdRepairOperation.slots, h]
  exact List.mem_append_right _ List.mem_cons_self

/-- Later changes elsewhere keep a repair. -/
theorem Repaired.then_unchanged (h : Repaired manifest operation a b)
    (h' : Unchanged operation b c) : Repaired manifest operation a c := by
  obtain ⟨source, target, before, after, hsource, htarget, hbefore, hentity, hafter, hgone⟩ := h
  refine ⟨source, target, before, after, hsource, htarget, hbefore, hentity, ?_, fun hne => ?_⟩
  · rw [h' target (target_mem_slots htarget), hafter]
  · rw [h' source (source_mem_slots hsource), hgone hne]

/-- Earlier changes elsewhere keep a repair. -/
theorem Repaired.after_unchanged (h : Unchanged operation a b)
    (h' : Repaired manifest operation b c) : Repaired manifest operation a c := by
  obtain ⟨source, target, before, after, hsource, htarget, hbefore, hentity, hafter, hgone⟩ := h'
  refine ⟨source, target, before, after, hsource, htarget, ?_, hentity, hafter, hgone⟩
  rw [← h source (source_mem_slots hsource), hbefore]

theorem foundRepaired_congr (h : Unchanged operation a b) :
    foundRepaired manifest operation b = foundRepaired manifest operation a := by
  unfold foundRepaired
  cases hsource : inventoryKeyToSdkOptions operation.source with
  | error => rfl
  | ok source =>
    simp only []
    rw [h source (source_mem_slots hsource)]

theorem Inventoried.congr (h : Unchanged operation a b) (h' : Inventoried manifest operation a) :
    Inventoried manifest operation b := by
  obtain ⟨source, before, hsource, hbefore, hpayload⟩ := h'
  exact ⟨source, before, hsource, (h source (source_mem_slots hsource)).trans hbefore, hpayload⟩

end

/-! ## One operation -/

/-- What one operation of a run can come to. -/
inductive OperationEffect (manifest : DatastoreIdRepairManifest)
    (operation : DatastoreIdRepairOperation) (content : Content V) :
    Except RepairOperationError RepairResult × Content V → Prop
  | repaired {content' : Content V} :
    foundRepaired manifest operation content = false → Repaired manifest operation content content' →
      (∀ key, key ∉ operation.slots → content' key = content key) →
        OperationEffect manifest operation content (.ok .repaired, content')
  | alreadyRepaired : foundRepaired manifest operation content = true →
      OperationEffect manifest operation content (.ok .alreadyRepaired, content)
  | indeterminate {content' : Content V} :
    (content' = content ∨ Repaired manifest operation content content') →
      (∀ key, key ∉ operation.slots → content' key = content key) →
        OperationEffect manifest operation content (.error .indeterminateCommit, content')
  | failed {error : RepairOperationError} : error ≠ .indeterminateCommit →
      OperationEffect manifest operation content (.error error, content)

section
variable {placement : FailurePlacement} {manifest : DatastoreIdRepairManifest}
  {operation : DatastoreIdRepairOperation} {index : Nat} {content : Content V}

theorem sdkKey_eq_ok {key : DatastoreIdInventoryKey} {sdk : SdkKey} :
    sdkKey key = .ok sdk ↔ inventoryKeyToSdkOptions key = .ok sdk := by
  unfold sdkKey
  cases inventoryKeyToSdkOptions key with
  | error e => exact iff_of_false (fun h => by cases h) (fun h => by cases h)
  | ok sdk' => simp [Except.mapError]

theorem existing_eq_ok {read : Option (Entity V)} {entity : Entity V} :
    existing read = .ok entity ↔ read = some entity := by
  cases read with
  | none => exact iff_of_false (fun h => by cases h) (fun h => by cases h)
  | some entity' => simp [existing]

theorem transactionGet_ok {call : RepairCall} {key : SdkKey} {read : Option (Entity V)}
    (h : transactionGet placement content call key = .ok read) : read = content key := by
  obtain ⟨_, _, h⟩ := Except.bind_eq_ok.mp h
  exact (Except.ok.inj h).symm

theorem foundRepaired_of_source {source : SdkKey} {before : Entity V}
    (hsource : inventoryKeyToSdkOptions operation.source = .ok source)
    (hbefore : content source = some before) :
    foundRepaired manifest operation content = alreadyRepaired manifest operation before := by
  rw [foundRepaired, hsource]
  simp only [hbefore, Option.any_some]

/-- A staged transaction, and what its commit does. -/
theorem stageRepairOperation_ok {result : RepairResult} {staged : List (Mutation V)}
    {source target : SdkKey} (hsource : inventoryKeyToSdkOptions operation.source = .ok source)
    (htarget : inventoryKeyToSdkOptions operation.target = .ok target)
    (hkeys : target = source ↔ manifest.policy = .keyWins)
    (h : stageRepairOperation placement manifest content index operation = .ok (result, staged)) :
    (result = .alreadyRepaired ∧ staged = [] ∧ foundRepaired manifest operation content = true) ∨
      (result = .repaired ∧ foundRepaired manifest operation content = false ∧
        Repaired manifest operation content (applyMutations content staged) ∧
        ∀ key, key ∉ operation.slots → applyMutations content staged key = content key) := by
  obtain ⟨source', hsource', h⟩ := Except.bind_eq_ok.mp h
  obtain rfl := Except.ok.inj (hsource.symm.trans (sdkKey_eq_ok.mp hsource'))
  obtain ⟨read, hread, h⟩ := Except.bind_eq_ok.mp h
  obtain ⟨before, hexisting, h⟩ := Except.bind_eq_ok.mp h
  have hbefore : content source = some before := by
    rw [← transactionGet_ok hread, existing_eq_ok.mp hexisting]
  have hfound : foundRepaired manifest operation content =
      alreadyRepaired manifest operation before := foundRepaired_of_source hsource hbefore
  have hentity := repairedEntity_repaired manifest operation before
  split at h
  · rename_i halready
    obtain ⟨rfl, rfl⟩ := Prod.mk.inj (Except.ok.inj h)
    exact Or.inl ⟨rfl, rfl, hfound.trans halready⟩
  · rename_i halready
    obtain ⟨_, _, h⟩ := Except.bind_eq_ok.mp h
    have hfound := hfound.trans (Bool.not_eq_true _ ▸ halready)
    refine Or.inr ?_
    cases hpolicy : manifest.policy with
    | keyWins =>
      simp only [hpolicy] at h
      obtain ⟨_, _, h⟩ := Except.bind_eq_ok.mp h
      obtain ⟨rfl, rfl⟩ := Prod.mk.inj (Except.ok.inj h)
      obtain rfl := hkeys.mpr hpolicy
      refine ⟨rfl, hfound, ⟨target, target, before, _, hsource, htarget, hbefore, hentity,
        Function.update_self _ _ _, fun hne => absurd rfl hne⟩, fun key hkey => ?_⟩
      have hne : key ≠ target := fun heq => hkey (heq ▸ source_mem_slots hsource)
      exact Function.update_of_ne hne _ _
    | payloadWins =>
      simp only [hpolicy] at h
      obtain ⟨target', htarget', h⟩ := Except.bind_eq_ok.mp h
      obtain rfl := Except.ok.inj (htarget.symm.trans (sdkKey_eq_ok.mp htarget'))
      obtain ⟨_, _, h⟩ := Except.bind_eq_ok.mp h
      obtain ⟨_, _, h⟩ := Except.bind_eq_ok.mp h
      obtain ⟨_, _, h⟩ := Except.bind_eq_ok.mp h
      obtain ⟨_, _, h⟩ := Except.bind_eq_ok.mp h
      obtain ⟨rfl, rfl⟩ := Prod.mk.inj (Except.ok.inj h)
      have hne : target ≠ source := by
        intro heq
        rw [hkeys.mp heq] at hpolicy
        cases hpolicy
      refine ⟨rfl, hfound, ⟨source, target, before, _, hsource, htarget, hbefore, hentity, ?_,
        fun _ => Function.update_self _ _ _⟩, fun key hkey => ?_⟩
      · exact (Function.update_of_ne hne _ _).trans (Function.update_self _ _ _)
      · have hsourceNe : key ≠ source := fun heq => hkey (heq ▸ source_mem_slots hsource)
        have htargetNe : key ≠ target := fun heq => hkey (heq ▸ target_mem_slots htarget)
        exact (Function.update_of_ne hsourceNe _ _).trans (Function.update_of_ne htargetNe _ _)

theorem applyRepairOperation_effect {source target : SdkKey}
    (hsource : inventoryKeyToSdkOptions operation.source = .ok source)
    (htarget : inventoryKeyToSdkOptions operation.target = .ok target)
    (hkeys : target = source ↔ manifest.policy = .keyWins) :
    OperationEffect manifest operation content
      (applyRepairOperation placement manifest content index operation) := by
  unfold applyRepairOperation
  split
  · exact .failed (by simp)
  · cases hstage : stageRepairOperation placement manifest content index operation with
    | error cause =>
      simp only []
      split
      · exact .failed (by simp)
      · exact .failed (by simp)
    | ok prepared =>
      obtain ⟨result, staged⟩ := prepared
      simp only []
      rcases stageRepairOperation_ok hsource htarget hkeys hstage with
        ⟨rfl, rfl, hfound⟩ | ⟨rfl, hfound, hrepaired, hframe⟩
      · split
        · refine .indeterminate (Or.inl ?_) fun key _ => ?_
          · exact ite_self _
          · split <;> rfl
        · exact .alreadyRepaired hfound
      · split
        · split
          · exact .indeterminate (Or.inr hrepaired) hframe
          · exact .indeterminate (Or.inl rfl) fun _ _ => rfl
        · exact .repaired hfound hrepaired hframe

end

/-! ## The loop -/

/-- The operations so far: each is repaired, or was found so. -/
structure Processed (manifest : DatastoreIdRepairManifest) (start : Content V)
    (done : List DatastoreIdRepairOperation) (repaired already : Nat) (content : Content V) :
    Prop where
  repaired : repaired = done.countP fun operation => !foundRepaired manifest operation start
  already : already = done.countP fun operation => foundRepaired manifest operation start
  written : ∀ operation ∈ done, foundRepaired manifest operation start = false →
    Repaired manifest operation start content
  kept : ∀ operation ∈ done, foundRepaired manifest operation start = true →
    Unchanged operation start content

/-- The entities that no operation names are as before. -/
def OutsideUnchanged (operations : List DatastoreIdRepairOperation) (start content : Content V) :
    Prop :=
  ∀ key, (∀ operation ∈ operations, key ∉ operation.slots) → content key = start key

/-- A report describes what became of the operations: its counts are those of a prefix, and only the
next operation may be uncertain. -/
structure Accounts (manifest : DatastoreIdRepairManifest) (start content : Content V)
    (report : DatastoreIdRepairApplyReport) : Prop where
  total : report.total = manifest.operations.length
  processed : report.processed = report.repaired + report.alreadyRepaired
  indeterminate : report.indeterminate ≤ 1
  operations : ∃ done rest, manifest.operations = done ++ rest ∧ done.length = report.processed ∧
    Processed manifest start done report.repaired report.alreadyRepaired content ∧
      (∀ operation ∈ rest.take report.indeterminate,
        Unchanged operation start content ∨ Repaired manifest operation start content) ∧
          ∀ operation ∈ rest.drop report.indeterminate, Unchanged operation start content
  outside : OutsideUnchanged manifest.operations start content

/-- How a run can end. -/
inductive RunEffect (manifest : DatastoreIdRepairManifest) (start : Content V) :
    ApplyOutcome × Content V → Prop
  | report {content : Content V} {report : DatastoreIdRepairApplyReport} :
    Accounts manifest start content report → report.processed = report.total →
      report.indeterminate = 0 → RunEffect manifest start (.report report, content)
  | committed {content : Content V} {error : RepairOperationError}
      {progress : DatastoreIdRepairApplyReport} : Accounts manifest start content progress →
      RunEffect manifest start (.committed error progress, content)
  | failed {error : RepairOperationError} : RunEffect manifest start (.failed error, start)
  | refused {error : ManifestError} : RunEffect manifest start (.refused error, start)

section
variable {manifest : DatastoreIdRepairManifest} {start content content' : Content V}
  {operation : DatastoreIdRepairOperation} {done rest : List DatastoreIdRepairOperation}
  {repaired already : Nat}

theorem unchanged_of_outside (h : OutsideUnchanged done start content)
    (hapart : ∀ other ∈ done, List.Disjoint other.slots operation.slots) :
    Unchanged operation start content :=
  fun key hkey => h key fun other hother hslot => hapart other hother hslot hkey

theorem OutsideUnchanged.append (h : OutsideUnchanged done start content)
    (h' : ∀ key, key ∉ operation.slots → content' key = content key) :
    OutsideUnchanged (done ++ [operation]) start content' := by
  intro key hkey
  rw [h' key (hkey operation (List.mem_append_right _ List.mem_cons_self)),
    h key fun other hother => hkey other (List.mem_append_left _ hother)]

theorem Processed.nil : Processed manifest start [] 0 0 start where
  repaired := rfl
  already := rfl
  written _ h := absurd h List.not_mem_nil
  kept _ h := absurd h List.not_mem_nil

theorem Processed.later (h : Processed manifest start done repaired already content)
    (h' : ∀ operation ∈ done, Unchanged operation content content') :
    Processed manifest start done repaired already content' where
  repaired := h.repaired
  already := h.already
  written operation hmem hfound := (h.written operation hmem hfound).then_unchanged (h' operation hmem)
  kept operation hmem hfound := (h.kept operation hmem hfound).trans (h' operation hmem)

theorem Processed.snoc_repaired (h : Processed manifest start done repaired already content)
    (hfound : foundRepaired manifest operation start = false)
    (hrepaired : Repaired manifest operation start content) :
    Processed manifest start (done ++ [operation]) (repaired + 1) already content where
  repaired := by simp [h.repaired, hfound]
  already := by simp [h.already, hfound]
  written other hmem hother := by
    rcases List.mem_append.mp hmem with hmem | hmem
    · exact h.written other hmem hother
    · obtain rfl := List.mem_singleton.mp hmem
      exact hrepaired
  kept other hmem hother := by
    rcases List.mem_append.mp hmem with hmem | hmem
    · exact h.kept other hmem hother
    · obtain rfl := List.mem_singleton.mp hmem
      rw [hfound] at hother
      cases hother

theorem Processed.snoc_already (h : Processed manifest start done repaired already content)
    (hfound : foundRepaired manifest operation start = true)
    (hunchanged : Unchanged operation start content) :
    Processed manifest start (done ++ [operation]) repaired (already + 1) content where
  repaired := by simp [h.repaired, hfound]
  already := by simp [h.already, hfound]
  written other hmem hother := by
    rcases List.mem_append.mp hmem with hmem | hmem
    · exact h.written other hmem hother
    · obtain rfl := List.mem_singleton.mp hmem
      rw [hfound] at hother
      cases hother
  kept other hmem hother := by
    rcases List.mem_append.mp hmem with hmem | hmem
    · exact h.kept other hmem hother
    · obtain rfl := List.mem_singleton.mp hmem
      exact hunchanged

theorem Processed.length (h : Processed manifest start done repaired already content) :
    done.length = repaired + already := by
  rw [h.repaired, h.already, List.length_eq_countP_add_countP
    (fun operation => !foundRepaired manifest operation start)]
  simp

/-- Before the first repair nothing has changed. -/
theorem Processed.eq_start (h : Processed manifest start done 0 already content)
    (houtside : OutsideUnchanged done start content) : content = start := by
  funext key
  by_cases hkey : ∃ operation ∈ done, key ∈ operation.slots
  · obtain ⟨operation, hmem, hslot⟩ := hkey
    have hnone := List.countP_eq_zero.mp h.repaired.symm operation hmem
    exact h.kept operation hmem (by simpa using hnone) key hslot
  · exact houtside key fun operation hmem hslot => hkey ⟨operation, hmem, hslot⟩

theorem SafeRepairSet.split (h : SafeRepairSet manifest.policy manifest.operations)
    (hoperations : manifest.operations = done ++ operation :: rest) :
    (∀ other ∈ done, List.Disjoint other.slots operation.slots) ∧
      (∀ other ∈ done, ∀ later ∈ rest, List.Disjoint other.slots later.slots) ∧
        ∀ later ∈ rest, List.Disjoint operation.slots later.slots := by
  have hapart := h.apart
  rw [hoperations, List.pairwise_append, List.pairwise_cons] at hapart
  obtain ⟨_, ⟨hlater, _⟩, hcross⟩ := hapart
  exact ⟨fun other hother => hcross other hother operation List.mem_cons_self,
    fun other hother later hlater => hcross other hother later (List.mem_cons_of_mem _ hlater),
    hlater⟩

/-- The loop from any operation on. -/
theorem applyRepairOperations_effect {placement : FailurePlacement} {index : Nat}
    (hsafe : SafeRepairSet manifest.policy manifest.operations)
    (hoperations : manifest.operations = done ++ rest)
    (hprocessed : Processed manifest start done repaired already content)
    (houtside : OutsideUnchanged done start content) :
    RunEffect manifest start (applyRepairOperations placement manifest manifest.operations.length
      index rest repaired already content) := by
  induction rest generalizing done repaired already content index with
  | nil =>
    rw [List.append_nil] at hoperations
    have hlength := hprocessed.length
    rw [← hoperations] at hlength hprocessed houtside
    exact .report ⟨rfl, hlength, Nat.zero_le _, ⟨manifest.operations, [], (List.append_nil _).symm,
      rfl, hprocessed, fun _ hmem => absurd hmem List.not_mem_nil,
      fun _ hmem => absurd hmem List.not_mem_nil⟩, houtside⟩ rfl rfl
  | cons operation rest ih =>
    obtain ⟨hbefore, hacross, hafter⟩ := hsafe.split hoperations
    obtain ⟨source, target, hsource, htarget, hkeys⟩ :=
      hsafe.keys operation (hoperations ▸ List.mem_append_right _ List.mem_cons_self)
    have hown : Unchanged operation start content := unchanged_of_outside houtside hbefore
    have hnext : manifest.operations = (done ++ [operation]) ++ rest := by
      rw [hoperations, List.append_assoc, List.singleton_append]
    have hrest : ∀ later ∈ rest, Unchanged later start content :=
      fun later hlater => unchanged_of_outside houtside fun other hother =>
        hacross other hother later hlater
    -- What the step changes is none of the other operations' keys.
    have hdone : ∀ content' : Content V,
        (∀ key, key ∉ operation.slots → content' key = content key) →
          ∀ other ∈ done, Unchanged other content content' :=
      fun content' hframe other hother key hkey =>
        hframe key fun hslot => hbefore other hother hkey hslot
    have heffect : OperationEffect manifest operation content
        (applyRepairOperation placement manifest content index operation) :=
      applyRepairOperation_effect hsource htarget hkeys
    rw [applyRepairOperations]
    generalize applyRepairOperation placement manifest content index operation = out at heffect ⊢
    cases heffect with
    | repaired hfound hrepaired hframe =>
      rw [foundRepaired_congr hown] at hfound
      exact ih hnext ((hprocessed.later (hdone _ hframe)).snoc_repaired hfound
        (hrepaired.after_unchanged hown)) (houtside.append hframe)
    | alreadyRepaired hfound =>
      rw [foundRepaired_congr hown] at hfound
      exact ih hnext (hprocessed.snoc_already hfound hown) (houtside.append fun _ _ => rfl)
    | @indeterminate content' hwritten hframe =>
      change RunEffect manifest start (stopApply _ _ _ _, content')
      rw [stopApply, if_pos rfl]
      refine .committed ⟨rfl, rfl, Nat.le_refl 1, ⟨done, operation :: rest, hoperations,
        hprocessed.length, hprocessed.later (hdone _ hframe), fun other hmem => ?_,
        fun later hlater => ?_⟩, fun key hkey => ?_⟩
      · obtain rfl := List.mem_singleton.mp hmem
        rcases hwritten with rfl | hrepaired
        · exact Or.inl hown
        · exact Or.inr (hrepaired.after_unchanged hown)
      · exact (hrest later hlater).trans fun key hkey =>
          hframe key fun hslot => hafter later hlater hslot hkey
      · rw [hnext] at hkey
        exact houtside.append hframe key fun other hother =>
          hkey other (List.mem_append_left _ hother)
    | failed herror =>
      change RunEffect manifest start (stopApply _ _ _ _, content)
      rw [stopApply, if_neg herror]
      split
      · refine .committed ⟨rfl, rfl, Nat.zero_le _, ⟨done, operation :: rest, hoperations,
          hprocessed.length, hprocessed, fun _ hmem => absurd hmem List.not_mem_nil,
          fun later hlater => ?_⟩, fun key hkey => ?_⟩
        · rcases List.mem_cons.mp hlater with rfl | hlater
          · exact hown
          · exact hrest later hlater
        · exact houtside key fun other hother =>
            hkey other (hoperations ▸ List.mem_append_left _ hother)
      · rename_i hzero
        obtain rfl : repaired = 0 := by omega
        rw [hprocessed.eq_start houtside]
        exact .failed

end

theorem applyDatastoreIdRepairManifest_effect {manifest accepted : DatastoreIdRepairManifest}
    (h : normalizeRepairManifest manifest = .ok accepted) (placement : FailurePlacement)
    (start : Content V) :
    RunEffect accepted start (applyDatastoreIdRepairManifest placement manifest start) := by
  obtain ⟨_, hsafe⟩ := normalizeRepairManifest_safe h
  rw [applyDatastoreIdRepairManifest, h]
  simp only []
  split
  · exact .failed
  · exact applyRepairOperations_effect hsafe (List.nil_append _).symm Processed.nil fun _ _ => rfl

theorem Accounts.each {manifest : DatastoreIdRepairManifest} {start content : Content V}
    {report : DatastoreIdRepairApplyReport} (h : Accounts manifest start content report) :
    ∀ operation ∈ manifest.operations,
      Unchanged operation start content ∨ Repaired manifest operation start content := by
  obtain ⟨done, rest, hoperations, _, hprocessed, huncertain, hrest⟩ := h.operations
  intro operation hmem
  rw [hoperations] at hmem
  rcases List.mem_append.mp hmem with hmem | hmem
  · cases hfound : foundRepaired manifest operation start with
    | false => exact Or.inr (hprocessed.written operation hmem hfound)
    | true => exact Or.inl (hprocessed.kept operation hmem hfound)
  · rw [← List.take_append_drop report.indeterminate rest] at hmem
    rcases List.mem_append.mp hmem with hmem | hmem
    · exact huncertain operation hmem
    · exact Or.inl (hrest operation hmem)

theorem RunEffect.outside {manifest : DatastoreIdRepairManifest} {start : Content V}
    {run : ApplyOutcome × Content V} (h : RunEffect manifest start run) :
    OutsideUnchanged manifest.operations start run.2 := by
  cases h with
  | report haccounts => exact haccounts.outside
  | committed haccounts => exact haccounts.outside
  | failed => exact fun _ _ => rfl
  | refused => exact fun _ _ => rfl

theorem RunEffect.each {manifest : DatastoreIdRepairManifest} {start : Content V}
    {run : ApplyOutcome × Content V} (h : RunEffect manifest start run) :
    ∀ operation ∈ manifest.operations,
      Unchanged operation start run.2 ∨ Repaired manifest operation start run.2 := by
  cases h with
  | report haccounts => exact haccounts.each
  | committed haccounts => exact haccounts.each
  | failed => exact fun _ _ => Or.inl fun _ _ => rfl
  | refused => exact fun _ _ => Or.inl fun _ _ => rfl

/-! ## Running a manifest that keeps its keys again -/

section
variable {manifest : DatastoreIdRepairManifest} {operation : DatastoreIdRepairOperation}
  {a b c : Content V}

theorem repaired_of_found (hpolicy : manifest.policy = .keyWins) {source target : SdkKey}
    (hsource : inventoryKeyToSdkOptions operation.source = .ok source)
    (htarget : inventoryKeyToSdkOptions operation.target = .ok target)
    (hkeys : target = source ↔ manifest.policy = .keyWins)
    (hfound : foundRepaired manifest operation a = true) : Repaired manifest operation a a := by
  rw [foundRepaired, hsource] at hfound
  obtain ⟨before, hbefore, halready⟩ := Option.any_eq_true _ _ |>.mp hfound
  obtain rfl := hkeys.mpr hpolicy
  exact ⟨target, target, before, before, hsource, htarget, hbefore,
    (alreadyRepaired_entity halready).2, hbefore, fun hne => absurd rfl hne⟩

theorem Repaired.trans (hpolicy : manifest.policy = .keyWins) {source target : SdkKey}
    (hsource : inventoryKeyToSdkOptions operation.source = .ok source)
    (htarget : inventoryKeyToSdkOptions operation.target = .ok target)
    (hkeys : target = source ↔ manifest.policy = .keyWins)
    (h : Repaired manifest operation a b) (h' : Repaired manifest operation b c) :
    Repaired manifest operation a c := by
  obtain rfl := hkeys.mpr hpolicy
  obtain ⟨source₁, target₁, before, middle, hsource₁, htarget₁, hbefore, hentity, hmiddle, _⟩ := h
  obtain ⟨source₂, target₂, middle', after, hsource₂, htarget₂, hmiddle', hentity', hafter, _⟩ := h'
  obtain rfl := Except.ok.inj (hsource.symm.trans hsource₁)
  obtain rfl := Except.ok.inj (htarget.symm.trans htarget₁)
  obtain rfl := Except.ok.inj (hsource.symm.trans hsource₂)
  obtain rfl := Except.ok.inj (htarget.symm.trans htarget₂)
  obtain rfl := Option.some.inj (hmiddle.symm.trans hmiddle')
  exact ⟨target, target, before, after, hsource, htarget, hbefore, hentity.trans hentity', hafter,
    fun hne => absurd rfl hne⟩

/-- A later run finds the entity as the inventory saw it or as the earlier run left it. -/
theorem inventoried_later (hpolicy : manifest.policy = .keyWins) {source target : SdkKey}
    (hsource : inventoryKeyToSdkOptions operation.source = .ok source)
    (htarget : inventoryKeyToSdkOptions operation.target = .ok target)
    (hkeys : target = source ↔ manifest.policy = .keyWins)
    (hsafe : safeEntityId operation.replacementId) (h : Inventoried manifest operation a)
    (hwritten : Unchanged operation a b ∨ Repaired manifest operation a b) :
    Inventoried manifest operation b := by
  rcases hwritten with hunchanged | hrepaired
  · exact h.congr hunchanged
  · obtain ⟨_, target', before, after, _, htarget', _, hentity, hafter, _⟩ := hrepaired
    obtain rfl := Except.ok.inj (htarget.symm.trans htarget')
    obtain rfl := hkeys.mpr hpolicy
    exact ⟨target, after, hsource, hafter, Or.inl (alreadyRepaired_of_repaired hpolicy hsafe hentity)⟩

theorem applyRepairOperation_noFailures (hpolicy : manifest.policy = .keyWins) (index : Nat)
    (h : Inventoried manifest operation a) :
    ∃ result content, applyRepairOperation noFailures manifest a index operation =
      (.ok result, content) := by
  obtain ⟨source, before, hsource, hbefore, hpayload⟩ := h
  have hread : transactionGet noFailures a (.readSource index) source = .ok (some before) :=
    congrArg Except.ok hbefore
  have hstage : ∃ prepared, stageRepairOperation noFailures manifest a index operation =
      .ok prepared := by
    simp only [stageRepairOperation, hpolicy]
    cases halready : alreadyRepaired manifest operation before with
    | true =>
      exact ⟨_, Except.bind_eq_ok.mpr ⟨source, sdkKey_eq_ok.mpr hsource, Except.bind_eq_ok.mpr
        ⟨_, hread, Except.bind_eq_ok.mpr ⟨before, rfl, if_pos halready⟩⟩⟩⟩
    | false =>
      have hexpected : expectedPayload manifest operation before = true := by
        simpa [halready] using hpayload
      have hnot : ¬alreadyRepaired manifest operation before = true := by simp [halready]
      exact ⟨_, Except.bind_eq_ok.mpr ⟨source, sdkKey_eq_ok.mpr hsource, Except.bind_eq_ok.mpr
        ⟨_, hread, Except.bind_eq_ok.mpr ⟨before, rfl, (if_neg hnot).trans
          (Except.bind_eq_ok.mpr ⟨(), refuse_eq_ok.mpr (by simp [hexpected]), rfl⟩)⟩⟩⟩⟩
  obtain ⟨⟨result, staged⟩, hstage⟩ := hstage
  rw [applyRepairOperation, hstage]
  exact ⟨result, applyMutations a staged, rfl⟩

theorem preflightOperation_noFailures (hpolicy : manifest.policy = .keyWins) {index : Nat}
    (h : Inventoried manifest operation a) :
    preflightOperation noFailures manifest a index operation = .ok () := by
  obtain ⟨source, before, hsource, hbefore, hpayload⟩ := h
  have hread : transactionGet noFailures a (.preflightSource index) source = .ok (some before) :=
    congrArg Except.ok hbefore
  simp only [preflightOperation, hpolicy]
  exact Except.bind_eq_ok.mpr ⟨source, sdkKey_eq_ok.mpr hsource, Except.bind_eq_ok.mpr
    ⟨_, hread, Except.bind_eq_ok.mpr ⟨before, rfl, Except.bind_eq_ok.mpr
      ⟨(), refuse_eq_ok.mpr (by rcases hpayload with h | h <;> simp [h]), rfl⟩⟩⟩⟩

/-- A preflight finds every source as the inventory saw it, or repaired. -/
theorem preflightOperation_inventoried {placement : FailurePlacement} {index : Nat} {u : Unit}
    (h : preflightOperation placement manifest a index operation = .ok u) :
    Inventoried manifest operation a := by
  obtain ⟨source, hsource, h⟩ := Except.bind_eq_ok.mp h
  obtain ⟨read, hread, h⟩ := Except.bind_eq_ok.mp h
  obtain ⟨before, hexisting, h⟩ := Except.bind_eq_ok.mp h
  obtain ⟨_, hpayload, _⟩ := Except.bind_eq_ok.mp h
  rw [refuse_eq_ok] at hpayload
  refine ⟨source, before, sdkKey_eq_ok.mp hsource, ?_, ?_⟩
  · rw [← transactionGet_ok hread, existing_eq_ok.mp hexisting]
  · cases halready : alreadyRepaired manifest operation before with
    | true => exact Or.inl rfl
    | false => exact Or.inr (by simpa [halready] using hpayload)

theorem preflightRepairManifest_inventoried {placement : FailurePlacement} {index : Nat}
    {operations : List DatastoreIdRepairOperation} {u : Unit}
    (h : preflightRepairManifest placement manifest a index operations = .ok u) :
    ∀ operation ∈ operations, Inventoried manifest operation a := by
  induction operations generalizing index with
  | nil => exact fun _ hmem => absurd hmem List.not_mem_nil
  | cons operation operations ih =>
    obtain ⟨_, hfirst, hrest⟩ := Except.bind_eq_ok.mp h
    intro other hmem
    rcases List.mem_cons.mp hmem with rfl | hmem
    · exact preflightOperation_inventoried hfirst
    · exact ih hrest other hmem

theorem preflightRepairManifest_noFailures (hpolicy : manifest.policy = .keyWins) {index : Nat}
    {operations : List DatastoreIdRepairOperation}
    (h : ∀ operation ∈ operations, Inventoried manifest operation a) :
    preflightRepairManifest noFailures manifest a index operations = .ok () := by
  induction operations generalizing index with
  | nil => rfl
  | cons operation operations ih =>
    exact Except.bind_eq_ok.mpr
      ⟨(), preflightOperation_noFailures hpolicy (h operation List.mem_cons_self),
        ih fun other hmem => h other (List.mem_cons_of_mem _ hmem)⟩

theorem applyRepairOperations_noFailures (hpolicy : manifest.policy = .keyWins)
    {operations : List DatastoreIdRepairOperation} {total index repaired already : Nat}
    (hsafe : SafeRepairSet manifest.policy operations)
    (h : ∀ operation ∈ operations, Inventoried manifest operation a) :
    ∃ report content, applyRepairOperations noFailures manifest total index operations repaired
      already a = (.report report, content) := by
  induction operations generalizing index repaired already a with
  | nil => exact ⟨_, _, rfl⟩
  | cons operation operations ih =>
    obtain ⟨result, content, hout⟩ :=
      applyRepairOperation_noFailures hpolicy index (h operation List.mem_cons_self)
    obtain ⟨source, target, hsource, htarget, hkeys⟩ := hsafe.keys operation List.mem_cons_self
    have heffect : OperationEffect manifest operation a
        (applyRepairOperation noFailures manifest a index operation) :=
      applyRepairOperation_effect hsource htarget hkeys
    obtain ⟨hapart, hpairs⟩ := List.pairwise_cons.mp hsafe.apart
    have hrest : SafeRepairSet manifest.policy operations :=
      ⟨fun other hmem => hsafe.keys other (List.mem_cons_of_mem _ hmem),
        fun other hmem => hsafe.replacement other (List.mem_cons_of_mem _ hmem),
        fun hpolicy other hmem => hsafe.changes hpolicy other (List.mem_cons_of_mem _ hmem), hpairs⟩
    have hkept : ∀ other ∈ operations, Inventoried manifest other a :=
      fun other hmem => h other (List.mem_cons_of_mem _ hmem)
    rw [applyRepairOperations, hout]
    rw [hout] at heffect
    cases heffect with
    | repaired _ _ hframe =>
      apply ih hrest
      intro other hmem
      apply (hkept other hmem).congr
      exact fun key hkey => hframe key fun hslot => hapart other hmem hslot hkey
    | alreadyRepaired => exact ih hrest hkept

end

/-- Once the preflight would pass, another run without failures repairs every entity. -/
theorem repaired_by_rerun {manifest accepted : DatastoreIdRepairManifest}
    (h : normalizeRepairManifest manifest = .ok accepted) (hpolicy : accepted.policy = .keyWins)
    (placement : FailurePlacement) {start : Content V}
    (hinventoried : ∀ operation ∈ accepted.operations, Inventoried accepted operation start) :
    ∃ report content, applyDatastoreIdRepairManifest noFailures manifest
        (applyDatastoreIdRepairManifest placement manifest start).2 = (.report report, content) ∧
      ∀ operation ∈ accepted.operations, Repaired accepted operation start content := by
  obtain ⟨_, hsafe⟩ := normalizeRepairManifest_safe h
  have hfirst := (applyDatastoreIdRepairManifest_effect h placement start).each
  generalize (applyDatastoreIdRepairManifest placement manifest start).2 = middle at hfirst ⊢
  have hmiddle : ∀ operation ∈ accepted.operations, Inventoried accepted operation middle := by
    intro operation hmem
    obtain ⟨source, target, hsource, htarget, hkeys⟩ := hsafe.keys operation hmem
    exact inventoried_later hpolicy hsource htarget hkeys (hsafe.replacement operation hmem)
      (hinventoried operation hmem) (hfirst operation hmem)
  obtain ⟨report, content, hrun⟩ : ∃ report content, applyRepairOperations noFailures accepted
      accepted.operations.length 0 accepted.operations 0 0 middle = (.report report, content) :=
    applyRepairOperations_noFailures hpolicy hsafe hmiddle
  have hout : applyDatastoreIdRepairManifest noFailures manifest middle =
      (.report report, content) := by
    rw [applyDatastoreIdRepairManifest, h]
    simp only []
    rw [preflightRepairManifest_noFailures hpolicy hmiddle]
    exact hrun
  refine ⟨report, content, hout, fun operation hmem => ?_⟩
  have hsecond := applyDatastoreIdRepairManifest_effect h noFailures middle
  rw [hout] at hsecond
  cases hsecond with
  | report haccounts hall hcertain =>
    obtain ⟨source, target, hsource, htarget, hkeys⟩ := hsafe.keys operation hmem
    obtain ⟨done, rest, hoperations, hlength, hprocessed, _⟩ := haccounts.operations
    -- The report is about all operations.
    have hrest : rest = [] := by
      have htotal := haccounts.total
      rw [hoperations, List.length_append] at htotal
      exact List.length_eq_zero_iff.mp (by omega)
    rw [hrest, List.append_nil] at hoperations
    rw [hoperations] at hmem
    have hrepaired : Repaired accepted operation middle content := by
      cases hfound : foundRepaired accepted operation middle with
      | false => exact hprocessed.written operation hmem hfound
      | true =>
        have hkept := hprocessed.kept operation hmem hfound
        exact (repaired_of_found hpolicy hsource htarget hkeys hfound).then_unchanged hkept
    rcases hfirst operation (hoperations ▸ hmem) with hunchanged | hwritten
    · exact hrepaired.after_unchanged hunchanged
    · exact hwritten.trans hpolicy hsource htarget hkeys hrepaired

/-- While the preflight cannot pass, no run changes anything. -/
theorem unchanged_without_inventory {manifest accepted : DatastoreIdRepairManifest}
    (h : normalizeRepairManifest manifest = .ok accepted) (placement : FailurePlacement)
    {start : Content V}
    (hmissing : ¬∀ operation ∈ accepted.operations, Inventoried accepted operation start) :
    ∃ cause, applyDatastoreIdRepairManifest placement manifest start =
      (.failed (.failed cause), start) := by
  rw [applyDatastoreIdRepairManifest, h]
  simp only []
  cases hpreflight : preflightRepairManifest placement accepted start 0 accepted.operations with
  | error cause => exact ⟨cause, rfl⟩
  | ok => exact absurd (preflightRepairManifest_inventoried hpreflight) hmissing

/-! ## The contract of a run -/

/-- Whatever fails: entities outside the manifest stay, those of the manifest are repaired as a whole
or stay, and a report counts them. A manifest that keeps its keys can be run again, if the inventory
was right at the start; otherwise no run changes anything. -/
theorem applyDatastoreIdRepairManifest_safe {manifest accepted : DatastoreIdRepairManifest}
    (h : normalizeRepairManifest manifest = .ok accepted) (placement : FailurePlacement)
    (start : Content V) :
    let run := applyDatastoreIdRepairManifest placement manifest start
    let rerun := applyDatastoreIdRepairManifest noFailures manifest run.2
    OutsideUnchanged accepted.operations start run.2 ∧
      (∀ operation ∈ accepted.operations,
        Unchanged operation start run.2 ∨ Repaired accepted operation start run.2) ∧
      (∀ report, run.1 = .report report → Accounts accepted start run.2 report ∧
        report.processed = report.total ∧ report.indeterminate = 0) ∧
      (∀ error progress, run.1 = .committed error progress →
        Accounts accepted start run.2 progress) ∧
      (∀ error, run.1 = .failed error → run.2 = start) ∧
      (accepted.policy = .keyWins →
        (∀ operation ∈ accepted.operations, Inventoried accepted operation start) →
          (∃ report, rerun.1 = .report report) ∧
            ∀ operation ∈ accepted.operations, Repaired accepted operation start rerun.2) ∧
      ((¬∀ operation ∈ accepted.operations, Inventoried accepted operation start) →
        run.2 = start ∧ rerun.2 = start) := by
  intro run rerun
  have heffect : RunEffect accepted start run :=
    applyDatastoreIdRepairManifest_effect h placement start
  refine ⟨heffect.outside, heffect.each, ?_, ?_, ?_, fun hpolicy hinventoried => ?_,
    fun hmissing => ?_⟩
  · intro report hreport
    generalize run = out at heffect hreport
    cases heffect with
    | report haccounts hall hcertain =>
      obtain rfl := ApplyOutcome.report.inj hreport
      exact ⟨haccounts, hall, hcertain⟩
    | committed => cases hreport
    | failed => cases hreport
    | refused => cases hreport
  · intro error progress hprogress
    generalize run = out at heffect hprogress
    cases heffect with
    | report => cases hprogress
    | committed haccounts =>
      obtain ⟨_, rfl⟩ := ApplyOutcome.committed.inj hprogress
      exact haccounts
    | failed => cases hprogress
    | refused => cases hprogress
  · intro error hfailed
    generalize run = out at heffect hfailed
    cases heffect with
    | report => cases hfailed
    | committed => cases hfailed
    | failed => rfl
    | refused => cases hfailed
  · obtain ⟨report, content, hrerun, hrepaired⟩ :=
      repaired_by_rerun h hpolicy placement hinventoried
    have hrerun : rerun = (.report report, content) := hrerun
    rw [hrerun]
    exact ⟨⟨report, rfl⟩, hrepaired⟩
  · obtain ⟨cause, hrun⟩ := unchanged_without_inventory h placement hmissing
    obtain ⟨cause', hrerun⟩ := unchanged_without_inventory h noFailures hmissing
    have hrun : run = (.failed (.failed cause), start) := hrun
    have hsecond : rerun = (.failed (.failed cause'), start) := by
      rw [show rerun = applyDatastoreIdRepairManifest noFailures manifest run.2 from rfl, hrun]
      exact hrerun
    rw [hrun, hsecond]
    exact ⟨rfl, rfl⟩

/-- One book whose key is the number 17 and whose ID field is the text. -/
def bookRepair : DatastoreIdRepairManifest where
  kind := "book"
  idField := "id"
  ns := none
  policy := .keyWins
  typeMismatches := 1
  operations := [⟨0, ⟨none, [⟨"book", .id, "17"⟩]⟩, ⟨none, [⟨"book", .id, "17"⟩]⟩, .string "17",
    .number 17⟩]

def bookEntity : Entity String := fun field =>
  if field = "id" then some (.id (.string "17"))
  else if field = "body" then some (.other "text") else none

def bookContent : Content String := fun key =>
  if key = ⟨none, [("book", .id 17)]⟩ then some bookEntity else none

/-- The acknowledgement of every commit is lost. -/
def lostCommits : FailurePlacement := ⟨fun call => call matches .commit _, fun _ => true⟩

theorem applyDatastoreIdRepairManifest_safe_lostCommit :
    Repaired bookRepair ⟨0, ⟨none, [⟨"book", .id, "17"⟩]⟩, ⟨none, [⟨"book", .id, "17"⟩]⟩, .string "17",
        .number 17⟩ bookContent
      (applyDatastoreIdRepairManifest noFailures bookRepair
        (applyDatastoreIdRepairManifest lostCommits bookRepair bookContent).2).2 := by
  have hinventoried : ∀ operation ∈ bookRepair.operations,
      Inventoried bookRepair operation bookContent := by
    intro operation hmem
    obtain rfl := List.mem_singleton.mp hmem
    exact ⟨_, bookEntity, rfl, rfl, Or.inr rfl⟩
  exact ((applyDatastoreIdRepairManifest_safe rfl lostCommits bookContent).2.2.2.2.2.1 rfl
    hinventoried).2 _ List.mem_cons_self

/-- An entity that is gone is never repaired. -/
theorem not_repaired_missing :
    ¬∀ (manifest accepted : DatastoreIdRepairManifest) (placement : FailurePlacement)
      (start : Content String), normalizeRepairManifest manifest = .ok accepted →
        accepted.policy = .keyWins → ∀ operation ∈ accepted.operations,
          Repaired accepted operation start (applyDatastoreIdRepairManifest noFailures manifest
            (applyDatastoreIdRepairManifest placement manifest start).2).2 := by
  intro h
  obtain ⟨_, _, _, _, _, _, hbefore, _⟩ := h bookRepair bookRepair noFailures (fun _ => none) rfl rfl
    _ List.mem_cons_self
  cases hbefore

end ActiveTs.Datastore
