import ActiveTs.Datastore.Keys

/-! # Manifests of an ID repair

A manifest lists entities whose ID field and key disagree in type, with the key to write and the ID
field to write there. Whoever applies it derives both again from the policy, and refuses a set of
operations in which one entity would be read or written by two of them. -/

namespace ActiveTs.Datastore

open ActiveTs.Outbox (EntityId)

inductive DatastoreIdRepairPolicy
  | keyWins
  | payloadWins
  deriving DecidableEq

inductive DatastoreIdRepairPayload
  | string (value : String)
  | number (value : Int)
  /-- A decimal text. -/
  | int64 (value : String)
  deriving DecidableEq

structure DatastoreIdRepairOperation where
  issueIndex : Nat
  source : DatastoreIdInventoryKey
  target : DatastoreIdInventoryKey
  expectedPayload : DatastoreIdRepairPayload
  replacementId : EntityId

structure DatastoreIdRepairManifest where
  kind : String
  idField : String
  ns : Option String
  policy : DatastoreIdRepairPolicy
  /-- The number of issues of the inventory. -/
  typeMismatches : Nat
  operations : List DatastoreIdRepairOperation

inductive ManifestError
  | badNamespace
  | operationCount
  | issueIndex (index : Nat)
  | key (index : Nat) (error : KeyError)
  | payloadType (index : Nat)
  | notMismatched (index : Nat)
  | targetKey (index : Nat)
  | replacementId (index : Nat)
  | duplicateSource (index : Nat)
  | duplicateTarget (index : Nat)
  | keyMoveChain (index : Nat)
  deriving DecidableEq

/-! ## One operation -/

def refuse (condition : Prop) [Decidable condition] (error : ε) : Except ε Unit :=
  if condition then .error error else .ok ()

/-- The result of a check of keys and ids, as part of an operation. -/
def atOperation (index : Nat) (result : Except KeyError α) : Except ManifestError α :=
  result.mapError (ManifestError.key index)

namespace DatastoreIdRepairPayload

def normalize (payload : DatastoreIdRepairPayload) (index : Nat) : Except ManifestError Unit :=
  match payload with
  | .int64 value => (atOperation index (datastoreInt64Id value)).map fun _ => ()
  | .string value =>
    match entityIdOfText value with
    | .datastoreInt64 _ => .error (.payloadType index)
    | id => atOperation index (assertSafeEntityId id)
  | .number value => atOperation index (assertSafeEntityId (.number value))

/-- `String(payload.value)`. -/
def text : DatastoreIdRepairPayload → String
  | string value => value
  | number value => toString value
  | int64 value => value

/-- The id that a payload stands for. -/
def entityId : DatastoreIdRepairPayload → Except KeyError EntityId
  | string value => .ok (.string value)
  | number value => .ok (.number value)
  | int64 value => datastoreInt64Id value

/-- Payload and key id have one of the types `string`, `number` and `int64`. -/
def sameType : DatastoreIdRepairPayload → EntityId → Bool
  | string _, .string _ => true
  | number _, .number _ => true
  | int64 _, .datastoreInt64 _ => true
  | _, _ => false

end DatastoreIdRepairPayload

def repairPayloadForId : EntityId → DatastoreIdRepairPayload
  | .string value => .string value
  | .number value => .number value
  | .datastoreInt64 value => .int64 value

/-- The last part of a path. -/
def keyLeaf (key : DatastoreIdInventoryKey) : Except KeyError DatastoreIdInventoryKeyPart :=
  match key.path.getLast? with
  | none => .error .emptyPath
  | some leaf => .ok leaf

def assertTypeMismatch (key : DatastoreIdInventoryKey) (payload : DatastoreIdRepairPayload)
    (index : Nat) : Except ManifestError Unit := do
  let leaf ← atOperation index (keyLeaf key)
  let keyId ← atOperation index leaf.entityId
  refuse (payload.sameType keyId || payload.text != leaf.value) (.notMismatched index)

def replaceInventoryKeyLeaf (key : DatastoreIdInventoryKey) (id : EntityId) :
    Except KeyError DatastoreIdInventoryKey := do
  let leaf ← keyLeaf key
  let part : DatastoreIdInventoryKeyPart :=
    match id with
    | .string value => ⟨leaf.kind, .name, value⟩
    | .number value => ⟨leaf.kind, .id, toString value⟩
    | .datastoreInt64 value => ⟨leaf.kind, .id, value⟩
  .ok { key with path := key.path.dropLast ++ [part] }

def buildRepairOperation (issueIndex : Nat) (source : DatastoreIdInventoryKey)
    (payload : DatastoreIdRepairPayload) (policy : DatastoreIdRepairPolicy) :
    Except KeyError DatastoreIdRepairOperation :=
  match policy with
  | .keyWins => do
    let leaf ← keyLeaf source
    let replacementId ← leaf.entityId
    assertSafeEntityId replacementId
    .ok ⟨issueIndex, source, source, payload, replacementId⟩
  | .payloadWins => do
    let replacementId ← payload.entityId
    assertSafeEntityId replacementId
    assertNativeDatastoreEntityId replacementId
    let target ← replaceInventoryKeyLeaf source replacementId
    .ok ⟨issueIndex, source, target, payload, replacementId⟩

def normalizeRepairOperation (manifest : DatastoreIdRepairManifest) (index : Nat)
    (operation : DatastoreIdRepairOperation) : Except ManifestError DatastoreIdRepairOperation := do
  refuse (operation.issueIndex ≠ index) (.issueIndex index)
  let source ← atOperation index (normalizeInventoryKey operation.source manifest.kind manifest.ns)
  operation.expectedPayload.normalize index
  assertTypeMismatch source operation.expectedPayload index
  let expected ← atOperation index
    (buildRepairOperation operation.issueIndex source operation.expectedPayload manifest.policy)
  let target ← atOperation index (normalizeInventoryKey operation.target manifest.kind manifest.ns)
  let targetIdentity ← atOperation index (inventoryKeyIdentity target)
  let expectedIdentity ← atOperation index (inventoryKeyIdentity expected.target)
  refuse (targetIdentity ≠ expectedIdentity) (.targetKey index)
  atOperation index (assertSafeEntityId operation.replacementId)
  refuse (operation.replacementId ≠ expected.replacementId) (.replacementId index)
  .ok { operation with source := source, target := target }

def normalizeRepairOperations (manifest : DatastoreIdRepairManifest) :
    Nat → List DatastoreIdRepairOperation → Except ManifestError (List DatastoreIdRepairOperation)
  | _, [] => .ok []
  | index, operation :: operations => do
    let operation ← normalizeRepairOperation manifest index operation
    let operations ← normalizeRepairOperations manifest (index + 1) operations
    .ok (operation :: operations)

/-! ## The set of operations -/

/-- The loop that fills the maps of sources and targets. -/
def collectIdentities (index : Nat) (sources targets : List String) :
    List DatastoreIdRepairOperation → Except ManifestError (List String)
  | [] => .ok sources
  | operation :: operations => do
    let source ← atOperation index (inventoryKeyIdentity operation.source)
    let target ← atOperation index (inventoryKeyIdentity operation.target)
    refuse (source ∈ sources) (.duplicateSource index)
    refuse (target ∈ targets) (.duplicateTarget index)
    collectIdentities (index + 1) (source :: sources) (target :: targets) operations

/-- The loop that refuses chains and swaps. -/
def refuseChains (index : Nat) (sources : List String) :
    List DatastoreIdRepairOperation → Except ManifestError Unit
  | [] => .ok ()
  | operation :: operations => do
    let target ← atOperation index (inventoryKeyIdentity operation.target)
    refuse (target ∈ sources) (.keyMoveChain index)
    refuseChains (index + 1) sources operations

def assertRepairOperationSet (operations : List DatastoreIdRepairOperation)
    (policy : DatastoreIdRepairPolicy) : Except ManifestError Unit := do
  let sources ← collectIdentities 0 [] [] operations
  match policy with
  | .keyWins => .ok ()
  | .payloadWins => refuseChains 0 sources operations

def normalizeRepairManifest (manifest : DatastoreIdRepairManifest) :
    Except ManifestError DatastoreIdRepairManifest := do
  refuse (!safeNamespace manifest.ns) .badNamespace
  refuse (manifest.operations.length ≠ manifest.typeMismatches) .operationCount
  let operations ← normalizeRepairOperations manifest 0 manifest.operations
  assertRepairOperationSet operations manifest.policy
  .ok { manifest with operations := operations }

/-! ## Accepted manifests -/

@[simp] theorem refuse_eq_ok {condition : Prop} [Decidable condition] {error : ε} {u : Unit} : refuse condition error = .ok u ↔ ¬condition := by
  unfold refuse
  split
  · exact iff_of_false (fun h => by cases h) (not_not_intro ‹_›)
  · exact iff_of_true rfl ‹_›

@[simp] theorem atOperation_eq_ok {index : Nat} {result : Except KeyError α} {a : α} :
    atOperation index result = .ok a ↔ result = .ok a := by
  cases result with
  | error e => exact iff_of_false (fun h => by cases h) (fun h => by cases h)
  | ok b => simp [atOperation, Except.mapError]

/-- The keys that an operation names. -/
def DatastoreIdRepairOperation.slots (operation : DatastoreIdRepairOperation) : List SdkKey :=
  (inventoryKeyToSdkOptions operation.source).toOption.toList ++
    (inventoryKeyToSdkOptions operation.target).toOption.toList

/-- What a run relies on: every operation names an entity and where it belongs, and no two
operations name one key. -/
structure SafeRepairSet (policy : DatastoreIdRepairPolicy)
    (operations : List DatastoreIdRepairOperation) : Prop where
  keys : ∀ operation ∈ operations, ∃ source target,
    inventoryKeyToSdkOptions operation.source = .ok source ∧
      inventoryKeyToSdkOptions operation.target = .ok target ∧
        (target = source ↔ policy = .keyWins)
  replacement : ∀ operation ∈ operations, safeEntityId operation.replacementId
  changes : policy = .keyWins → ∀ operation ∈ operations,
    repairPayloadForId operation.replacementId ≠ operation.expectedPayload
  apart : operations.Pairwise fun a b => List.Disjoint a.slots b.slots

theorem normalizeInventoryKey_ok {key key' : DatastoreIdInventoryKey} {kind : String}
    {ns : Option String} (h : normalizeInventoryKey key kind ns = .ok key') : key' = key := by
  unfold normalizeInventoryKey at h
  split at h
  · cases h
  · split at h
    · cases h
    · split at h
      · cases h
      · obtain ⟨_, _, hleaf⟩ := Except.bind_eq_ok.mp h
        split at hleaf
        · exact (Except.ok.inj hleaf).symm
        · cases hleaf

theorem entityId_ne_of_sameType {payload : DatastoreIdRepairPayload} {id : EntityId}
    (h : payload.sameType id = false) : repairPayloadForId id ≠ payload := by
  rintro rfl
  cases id <;> cases h

theorem assertTypeMismatch_ok {key : DatastoreIdInventoryKey} {payload : DatastoreIdRepairPayload}
    {index : Nat} {u : Unit} (h : assertTypeMismatch key payload index = .ok u) :
    ∃ leaf keyId, keyLeaf key = .ok leaf ∧ leaf.entityId = .ok keyId ∧
      payload.sameType keyId = false := by
  obtain ⟨leaf, hleaf, h⟩ := Except.bind_eq_ok.mp h
  obtain ⟨keyId, hkeyId, h⟩ := Except.bind_eq_ok.mp h
  rw [refuse_eq_ok] at h
  exact ⟨leaf, keyId, atOperation_eq_ok.mp hleaf, atOperation_eq_ok.mp hkeyId, by simp_all⟩

theorem buildRepairOperation_keyWins {index : Nat} {source : DatastoreIdInventoryKey}
    {payload : DatastoreIdRepairPayload} {expected : DatastoreIdRepairOperation}
    (h : buildRepairOperation index source payload .keyWins = .ok expected) :
    expected.target = source ∧
      ∃ leaf, keyLeaf source = .ok leaf ∧ leaf.entityId = .ok expected.replacementId := by
  obtain ⟨leaf, hleaf, h⟩ := Except.bind_eq_ok.mp h
  obtain ⟨id, hid, h⟩ := Except.bind_eq_ok.mp h
  obtain ⟨_, _, h⟩ := Except.bind_eq_ok.mp h
  cases h
  exact ⟨rfl, leaf, hleaf, hid⟩

theorem normalizeRepairOperation_ok {manifest : DatastoreIdRepairManifest} {index : Nat}
    {operation operation' : DatastoreIdRepairOperation}
    (h : normalizeRepairOperation manifest index operation = .ok operation') :
    operation' = operation ∧ safeEntityId operation.replacementId ∧
      (manifest.policy = .keyWins →
        repairPayloadForId operation.replacementId ≠ operation.expectedPayload ∧
          ∃ identity, inventoryKeyIdentity operation.target = .ok identity ∧
            inventoryKeyIdentity operation.source = .ok identity) := by
  obtain ⟨_, _, h⟩ := Except.bind_eq_ok.mp h
  obtain ⟨source, hsource, h⟩ := Except.bind_eq_ok.mp h
  obtain rfl := normalizeInventoryKey_ok (atOperation_eq_ok.mp hsource)
  obtain ⟨_, _, h⟩ := Except.bind_eq_ok.mp h
  obtain ⟨_, hmismatch, h⟩ := Except.bind_eq_ok.mp h
  obtain ⟨expected, hexpected, h⟩ := Except.bind_eq_ok.mp h
  obtain ⟨target, htarget, h⟩ := Except.bind_eq_ok.mp h
  obtain rfl := normalizeInventoryKey_ok (atOperation_eq_ok.mp htarget)
  obtain ⟨targetIdentity, htargetIdentity, h⟩ := Except.bind_eq_ok.mp h
  obtain ⟨expectedIdentity, hexpectedIdentity, h⟩ := Except.bind_eq_ok.mp h
  obtain ⟨_, hsame, h⟩ := Except.bind_eq_ok.mp h
  obtain ⟨_, hsafe, h⟩ := Except.bind_eq_ok.mp h
  obtain ⟨_, hreplacement, h⟩ := Except.bind_eq_ok.mp h
  rw [refuse_eq_ok, not_not] at hsame hreplacement
  rw [atOperation_eq_ok] at hexpected htargetIdentity hexpectedIdentity hsafe
  refine ⟨(Except.ok.inj h).symm, ?_, fun hpolicy => ?_⟩
  · unfold assertSafeEntityId at hsafe
    split at hsafe
    · assumption
    · cases hsafe
  · rw [hpolicy] at hexpected
    obtain ⟨htargetEq, leaf, hleaf, hid⟩ := buildRepairOperation_keyWins hexpected
    obtain ⟨leaf', keyId, hleaf', hkeyId, htype⟩ := assertTypeMismatch_ok hmismatch
    obtain rfl := Except.ok.inj (hleaf.symm.trans hleaf')
    obtain rfl := Except.ok.inj (hid.symm.trans hkeyId)
    rw [hreplacement]
    refine ⟨entityId_ne_of_sameType htype, targetIdentity, htargetIdentity, ?_⟩
    rw [hsame, ← htargetEq]
    exact hexpectedIdentity

theorem normalizeRepairOperations_ok {manifest : DatastoreIdRepairManifest} {index : Nat}
    {operations operations' : List DatastoreIdRepairOperation}
    (h : normalizeRepairOperations manifest index operations = .ok operations') :
    operations' = operations ∧
      ∀ operation ∈ operations, ∃ index', normalizeRepairOperation manifest index' operation =
        .ok operation := by
  induction operations generalizing index operations' with
  | nil => exact ⟨(Except.ok.inj h).symm, fun _ hmem => absurd hmem List.not_mem_nil⟩
  | cons operation operations ih =>
    obtain ⟨first, hfirst, htail⟩ := Except.bind_eq_ok.mp h
    obtain ⟨rest, hrest, hlast⟩ := Except.bind_eq_ok.mp htail
    obtain rfl := (normalizeRepairOperation_ok hfirst).1
    obtain ⟨rfl, hall⟩ := ih hrest
    refine ⟨(Except.ok.inj hlast).symm, fun op hmem => ?_⟩
    rcases List.mem_cons.mp hmem with rfl | hmem
    · exact ⟨index, hfirst⟩
    · exact hall op hmem

/-- The identities that the loop over the operations has seen. -/
theorem collectIdentities_ok {index : Nat} {sources targets collected : List String}
    {operations : List DatastoreIdRepairOperation}
    (h : collectIdentities index sources targets operations = .ok collected) :
    sources ⊆ collected ∧
      (∀ operation ∈ operations, ∃ source target,
        inventoryKeyIdentity operation.source = .ok source ∧
          inventoryKeyIdentity operation.target = .ok target ∧ source ∉ sources ∧
            target ∉ targets ∧ source ∈ collected) ∧
      operations.Pairwise fun a b =>
        inventoryKeyIdentity a.source ≠ inventoryKeyIdentity b.source ∧
          inventoryKeyIdentity a.target ≠ inventoryKeyIdentity b.target := by
  induction operations generalizing index sources targets with
  | nil =>
    obtain rfl := Except.ok.inj h
    exact ⟨List.Subset.refl _, fun _ hmem => absurd hmem List.not_mem_nil, List.Pairwise.nil⟩
  | cons operation operations ih =>
    obtain ⟨source, hsource, h⟩ := Except.bind_eq_ok.mp h
    obtain ⟨target, htarget, h⟩ := Except.bind_eq_ok.mp h
    obtain ⟨_, hnewSource, h⟩ := Except.bind_eq_ok.mp h
    obtain ⟨_, hnewTarget, h⟩ := Except.bind_eq_ok.mp h
    rw [atOperation_eq_ok] at hsource htarget
    rw [refuse_eq_ok] at hnewSource hnewTarget
    obtain ⟨hsub, hall, hpairs⟩ := ih h
    refine ⟨fun x hx => hsub (List.mem_cons_of_mem _ hx), fun op hmem => ?_,
      List.pairwise_cons.mpr ⟨fun op hmem => ?_, hpairs⟩⟩
    · rcases List.mem_cons.mp hmem with rfl | hmem
      · exact ⟨source, target, hsource, htarget, hnewSource, hnewTarget,
          hsub List.mem_cons_self⟩
      · obtain ⟨source', target', hs, ht, hns, hnt, hin⟩ := hall op hmem
        exact ⟨source', target', hs, ht, fun hx => hns (List.mem_cons_of_mem _ hx),
          fun hx => hnt (List.mem_cons_of_mem _ hx), hin⟩
    · obtain ⟨source', target', hs, ht, hns, hnt, _⟩ := hall op hmem
      rw [hsource, htarget, hs, ht]
      constructor
      · intro heq
        exact hns (Except.ok.inj heq ▸ List.mem_cons_self)
      · intro heq
        exact hnt (Except.ok.inj heq ▸ List.mem_cons_self)

theorem refuseChains_ok {index : Nat} {sources : List String}
    {operations : List DatastoreIdRepairOperation} {u : Unit}
    (h : refuseChains index sources operations = .ok u) :
    ∀ operation ∈ operations, ∀ target, inventoryKeyIdentity operation.target = .ok target →
      target ∉ sources := by
  induction operations generalizing index with
  | nil => exact fun _ hmem => absurd hmem List.not_mem_nil
  | cons operation operations ih =>
    obtain ⟨target, htarget, h⟩ := Except.bind_eq_ok.mp h
    obtain ⟨_, hnew, h⟩ := Except.bind_eq_ok.mp h
    rw [atOperation_eq_ok] at htarget
    rw [refuse_eq_ok] at hnew
    intro op hmem target' htarget'
    rcases List.mem_cons.mp hmem with rfl | hmem
    · obtain rfl := Except.ok.inj (htarget.symm.trans htarget')
      exact hnew
    · exact ih h op hmem target' htarget'

/-- The loop over operations whose identities are new. -/
theorem collectIdentities_of {index : Nat} {sources targets : List String}
    {operations : List DatastoreIdRepairOperation}
    (hnew : ∀ operation ∈ operations, ∃ source target,
      inventoryKeyIdentity operation.source = .ok source ∧
        inventoryKeyIdentity operation.target = .ok target ∧ source ∉ sources ∧ target ∉ targets)
    (hpairs : operations.Pairwise fun a b =>
      inventoryKeyIdentity a.source ≠ inventoryKeyIdentity b.source ∧
        inventoryKeyIdentity a.target ≠ inventoryKeyIdentity b.target) :
    ∃ collected, collectIdentities index sources targets operations = .ok collected ∧
      ∀ identity ∈ collected, identity ∈ sources ∨
        ∃ operation ∈ operations, inventoryKeyIdentity operation.source = .ok identity := by
  induction operations generalizing index sources targets with
  | nil => exact ⟨sources, rfl, fun _ hmem => Or.inl hmem⟩
  | cons operation operations ih =>
    rw [List.forall_mem_cons] at hnew
    rw [List.pairwise_cons] at hpairs
    obtain ⟨⟨source, target, hsource, htarget, hnewSource, hnewTarget⟩, hrest⟩ := hnew
    have hstep : ∀ op ∈ operations, ∃ s t, inventoryKeyIdentity op.source = .ok s ∧
        inventoryKeyIdentity op.target = .ok t ∧ s ∉ source :: sources ∧ t ∉ target :: targets := by
      intro op hmem
      obtain ⟨s, t, hs, ht, hs', ht'⟩ := hrest op hmem
      have hne := hpairs.1 op hmem
      rw [hsource, hs, htarget, ht] at hne
      refine ⟨s, t, hs, ht, fun hmem => ?_, fun hmem => ?_⟩
      · rcases List.mem_cons.mp hmem with rfl | hmem
        · exact hne.1 rfl
        · exact hs' hmem
      · rcases List.mem_cons.mp hmem with rfl | hmem
        · exact hne.2 rfl
        · exact ht' hmem
    obtain ⟨collected, hcollected, hfrom⟩ := @ih (index + 1) _ _ hstep hpairs.2
    refine ⟨collected, ?_, fun identity hmem => ?_⟩
    · exact Except.bind_eq_ok.mpr ⟨source, atOperation_eq_ok.mpr hsource,
        Except.bind_eq_ok.mpr ⟨target, atOperation_eq_ok.mpr htarget,
          Except.bind_eq_ok.mpr ⟨(), refuse_eq_ok.mpr hnewSource,
            Except.bind_eq_ok.mpr ⟨(), refuse_eq_ok.mpr hnewTarget, hcollected⟩⟩⟩⟩
    · rcases hfrom identity hmem with hmem | ⟨op, hop, hidentity⟩
      · rcases List.mem_cons.mp hmem with rfl | hmem
        · exact Or.inr ⟨operation, List.mem_cons_self, hsource⟩
        · exact Or.inl hmem
      · exact Or.inr ⟨op, List.mem_cons_of_mem _ hop, hidentity⟩

theorem refuseChains_of {index : Nat} {sources : List String}
    {operations : List DatastoreIdRepairOperation}
    (h : ∀ operation ∈ operations, ∃ target, inventoryKeyIdentity operation.target = .ok target ∧
      target ∉ sources) : refuseChains index sources operations = .ok () := by
  induction operations generalizing index with
  | nil => rfl
  | cons operation operations ih =>
    rw [List.forall_mem_cons] at h
    obtain ⟨⟨target, htarget, hnew⟩, hrest⟩ := h
    exact Except.bind_eq_ok.mpr ⟨target, atOperation_eq_ok.mpr htarget,
      Except.bind_eq_ok.mpr ⟨(), refuse_eq_ok.mpr hnew, ih hrest⟩⟩

theorem assertRepairOperationSet_of {operations : List DatastoreIdRepairOperation}
    {policy : DatastoreIdRepairPolicy}
    (hidentities : ∀ operation ∈ operations, ∃ source target,
      inventoryKeyIdentity operation.source = .ok source ∧
        inventoryKeyIdentity operation.target = .ok target)
    (hpairs : operations.Pairwise fun a b =>
      inventoryKeyIdentity a.source ≠ inventoryKeyIdentity b.source ∧
        inventoryKeyIdentity a.target ≠ inventoryKeyIdentity b.target)
    (hchains : policy = .payloadWins → ∀ a ∈ operations, ∀ b ∈ operations,
      inventoryKeyIdentity a.target ≠ inventoryKeyIdentity b.source) :
    assertRepairOperationSet operations policy = .ok () := by
  obtain ⟨collected, hcollected, hfrom⟩ := @collectIdentities_of 0 [] [] operations
    (fun operation hmem => by
      obtain ⟨source, target, hsource, htarget⟩ := hidentities operation hmem
      exact ⟨source, target, hsource, htarget, List.not_mem_nil, List.not_mem_nil⟩) hpairs
  rw [assertRepairOperationSet, hcollected]
  cases policy with
  | keyWins => rfl
  | payloadWins =>
    apply refuseChains_of
    intro operation hmem
    obtain ⟨_, target, _, htarget⟩ := hidentities operation hmem
    refine ⟨target, htarget, fun hin => ?_⟩
    rcases hfrom target hin with hin | ⟨other, hother, hsource⟩
    · cases hin
    · exact hchains rfl operation hmem other hother (htarget.trans hsource.symm)

theorem slots_eq {operation : DatastoreIdRepairOperation} {source target : SdkKey}
    (hsource : inventoryKeyToSdkOptions operation.source = .ok source)
    (htarget : inventoryKeyToSdkOptions operation.target = .ok target) :
    operation.slots = [source, target] := by
  rw [DatastoreIdRepairOperation.slots, hsource, htarget]
  rfl

/-- Identities that differ belong to different entities. -/
theorem sdk_ne_of_identity_ne {left right : DatastoreIdInventoryKey}
    {leftIdentity rightIdentity : String} {leftSdk rightSdk : SdkKey}
    (hleft : inventoryKeyIdentity left = .ok leftIdentity)
    (hright : inventoryKeyIdentity right = .ok rightIdentity)
    (hne : inventoryKeyIdentity left ≠ inventoryKeyIdentity right)
    (hleftSdk : inventoryKeyToSdkOptions left = .ok leftSdk)
    (hrightSdk : inventoryKeyToSdkOptions right = .ok rightSdk) : leftSdk ≠ rightSdk := by
  intro h
  apply hne
  rw [hleft, hright, (identity_eq_iff hleft hright hleftSdk hrightSdk).mpr h]

theorem normalizeRepairManifest_safe {manifest accepted : DatastoreIdRepairManifest}
    (h : normalizeRepairManifest manifest = .ok accepted) :
    accepted = manifest ∧ SafeRepairSet accepted.policy accepted.operations := by
  obtain ⟨_, _, h⟩ := Except.bind_eq_ok.mp h
  obtain ⟨_, _, h⟩ := Except.bind_eq_ok.mp h
  obtain ⟨operations, hoperations, h⟩ := Except.bind_eq_ok.mp h
  obtain ⟨_, hset, haccepted⟩ := Except.bind_eq_ok.mp h
  obtain ⟨rfl, hall⟩ := normalizeRepairOperations_ok hoperations
  obtain rfl := Except.ok.inj haccepted
  obtain ⟨sources, hsources, hchains⟩ := Except.bind_eq_ok.mp hset
  obtain ⟨_, hidentities, hpairs⟩ := collectIdentities_ok hsources
  -- In a manifest that moves keys no target is a source.
  have hmoves : manifest.policy = .payloadWins → ∀ a ∈ manifest.operations,
      ∀ b ∈ manifest.operations,
        inventoryKeyIdentity a.target ≠ inventoryKeyIdentity b.source := by
    intro hpolicy a ha b hb heq
    rw [hpolicy] at hchains
    obtain ⟨source, _, hsource, _, _, _, hin⟩ := hidentities b hb
    exact refuseChains_ok hchains a ha source (heq.trans hsource) hin
  have hkeeps : manifest.policy = .keyWins → ∀ a ∈ manifest.operations,
      inventoryKeyIdentity a.target = inventoryKeyIdentity a.source := by
    intro hpolicy a ha
    obtain ⟨_, hnormal⟩ := hall a ha
    obtain ⟨_, htarget, hsource⟩ := ((normalizeRepairOperation_ok hnormal).2.2 hpolicy).2
    rw [htarget, hsource]
  refine ⟨rfl, fun operation hmem => ?_, fun operation hmem => ?_, fun hpolicy operation hmem => ?_,
    hpairs.imp_of_mem fun {a b} ha hb hne => ?_⟩
  · obtain ⟨source, target, hsource, htarget, _⟩ := hidentities operation hmem
    obtain ⟨_, _, _, _, _, hsourceSdk⟩ := inventoryKeyIdentity_ok hsource
    obtain ⟨_, _, _, _, _, htargetSdk⟩ := inventoryKeyIdentity_ok htarget
    refine ⟨_, _, hsourceSdk, htargetSdk, ?_⟩
    rw [← identity_eq_iff htarget hsource htargetSdk hsourceSdk]
    constructor
    · intro heq
      cases hpolicy : manifest.policy with
      | keyWins => rfl
      | payloadWins =>
        have hne := hmoves hpolicy operation hmem operation hmem
        rw [htarget, hsource, heq] at hne
        exact absurd rfl hne
    · intro hpolicy
      have heq := hkeeps hpolicy operation hmem
      rw [htarget, hsource] at heq
      exact Except.ok.inj heq
  · obtain ⟨_, hnormal⟩ := hall operation hmem
    exact (normalizeRepairOperation_ok hnormal).2.1
  · obtain ⟨_, hnormal⟩ := hall operation hmem
    exact ((normalizeRepairOperation_ok hnormal).2.2 hpolicy).1
  · obtain ⟨as, at', has, hat, _⟩ := hidentities a ha
    obtain ⟨bs, bt, hbs, hbt, _⟩ := hidentities b hb
    obtain ⟨_, _, _, _, _, hasSdk⟩ := inventoryKeyIdentity_ok has
    obtain ⟨_, _, _, _, _, hatSdk⟩ := inventoryKeyIdentity_ok hat
    obtain ⟨_, _, _, _, _, hbsSdk⟩ := inventoryKeyIdentity_ok hbs
    obtain ⟨_, _, _, _, _, hbtSdk⟩ := inventoryKeyIdentity_ok hbt
    have hcross : inventoryKeyIdentity a.source ≠ inventoryKeyIdentity b.target ∧
        inventoryKeyIdentity a.target ≠ inventoryKeyIdentity b.source := by
      cases hpolicy : manifest.policy with
      | keyWins =>
        rw [hkeeps hpolicy a ha, hkeeps hpolicy b hb]
        exact ⟨hne.1, hne.1⟩
      | payloadWins => exact ⟨(hmoves hpolicy b hb a ha).symm, hmoves hpolicy a ha b hb⟩
    rw [slots_eq hasSdk hatSdk, slots_eq hbsSdk hbtSdk]
    simp only [List.disjoint_cons_left, List.mem_cons, List.not_mem_nil, or_false, not_or,
      List.disjoint_nil_left, and_true]
    exact ⟨⟨sdk_ne_of_identity_ne has hbs hne.1 hasSdk hbsSdk,
        sdk_ne_of_identity_ne has hbt hcross.1 hasSdk hbtSdk⟩,
      sdk_ne_of_identity_ne hat hbs hcross.2 hatSdk hbsSdk,
      sdk_ne_of_identity_ne hat hbt hne.2 hatSdk hbtSdk⟩

end ActiveTs.Datastore
