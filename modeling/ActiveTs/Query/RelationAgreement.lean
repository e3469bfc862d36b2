import ActiveTs.Query.RelationPreload

/-! # The preload of one relation

An owner is given what its ref resolves to exactly when the rows of its ref come back with the owner's
key, and other rows that come back with it are not in the way. -/

namespace ActiveTs.Query.Relations

open Utf16 (Units ofString)

section
variable {Key : Type} {content : Content Key} {relation : Relation Key}

/-- What is known of the owner of a group. -/
structure InGroup (group : List (ActiveOwner Key)) (owner : ActiveOwner Key) : Prop where
  mem : owner ∈ group
  keys : ∀ other ∈ group, KeyOfValue other

variable (content relation) in
/-- The condition under which an owner is given what its ref resolves to, with the owners of its
ancestor. -/
structure Recovers (full usesAncestor : Bool) (group : List (ActiveOwner Key))
    (owner : ActiveOwner Key) : Prop where
  keyed : Keyed content relation usesAncestor owner.ancestor group
  /-- The rows of the ref come back with the owner's key. -/
  own : ∀ result, owner.resolve content relation full = .ok result → ∀ row ∈ result.items,
    row ∈ loadedFor content relation usesAncestor owner.ancestor group (owner.bucketKey usesAncestor)
  /-- To many: a row that comes back with the owner's key is one that the owner's value selects, and
  it is loaded with the chunk of this value. -/
  alone : relation.kind = .many → ∀ chunk ∈ valueChunks group, ∀ row ∈ content.rows relation.target,
    chunkSelects content relation owner.ancestor chunk row = true →
    inBucket content relation usesAncestor (owner.bucketKey usesAncestor) row = true →
    owns content relation owner row = true ∧
      ∃ value ∈ chunk, portableScalarKey value = .ok owner.keys.joinKey
  /-- To one: of the rows that come back with the owner's key, the first is the row of the ref. -/
  first : relation.kind = .one → ∀ row,
    (loadedFor content relation usesAncestor owner.ancestor group
      (owner.bucketKey usesAncestor)).head? = some row →
    ∀ result, owner.resolve content relation full = .ok result → row ∈ result.items
  /-- Where the ancestor of the row is not known there is only one. -/
  single : relation.kind = .one → (usesAncestor && owner.keys.canMatch) = false →
    (content.model relation.target).ancestor.isSome = true →
    (loadedFor content relation usesAncestor owner.ancestor group
      (owner.bucketKey usesAncestor)).length ≤ 1

/-- A row of the owner's own value is selected by the chunk that has the key of the value. -/
theorem InGroup.chunkSelects_own {group : List (ActiveOwner Key)} {owner : ActiveOwner Key}
    (h : InGroup group owner) {own : List Data} {value : Data} (hvalue : value ∈ own)
    (hkey : portableScalarKey value = .ok owner.keys.joinKey) {row : Item}
    (howns : owns content relation owner row = true) :
    chunkSelects content relation owner.ancestor own row = true := by
  rw [owns, Bool.and_eq_true] at howns
  refine chunkSelects_iff.mpr ⟨value, hvalue, ?_⟩
  have hsame := content.selects_key relation.target relation.foreignKey value owner.localValue
    owner.keys.joinKey hkey (h.keys owner h.mem)
  have hselected := howns.1
  rw [selected, accepts] at hselected ⊢
  rwa [hsame]

theorem inBucket_of_loadedFor {usesAncestor : Bool} {ancestor : Option Key}
    {group : List (ActiveOwner Key)} {key : Units} {row : Item}
    (h : row ∈ loadedFor content relation usesAncestor ancestor group key) :
    inBucket content relation usesAncestor key row = true := by
  obtain ⟨chunk, -, hrow⟩ := List.mem_flatMap.mp h
  have hloaded := (List.mem_filter.mp hrow).2
  rw [Bool.and_eq_true] at hloaded
  exact hloaded.2

/-! ## What a ref gives -/

theorem selectFields_direct {full : Bool}
    (h : byId content relation (full || relation.preload.isEmpty) = true) :
    selectFields content relation full = none := by
  simp only [byId, Bool.and_eq_true] at h
  rw [selectFields, if_pos h.1.2]

theorem kind_of_byId {direct : Bool} (h : byId content relation direct = true) :
    relation.kind = .one := by
  simp only [byId, Bool.and_eq_true, decide_eq_true_eq] at h
  exact h.1.1.1

/-- The ref of a relation to many gives the rows that the owner owns. -/
theorem resolve_many {owner : ActiveOwner Key} {full : Bool} {result : Result}
    (hkind : relation.kind = .many) (h : owner.resolve content relation full = .ok result) :
    result = .of relation (selectFields content relation full)
      ((content.rows relation.target).filter (owns content relation owner)) := by
  obtain ⟨-, ⟨hdirect, -⟩ | ⟨-, rows, hrows, rfl⟩⟩ := resolve_cases h
  · rw [Bool.and_eq_true] at hdirect
    have hone := kind_of_byId hdirect.1
    rw [hkind] at hone
    cases hone
  · exact (ownRows_spec hrows _).1

theorem resolve_one {owner : ActiveOwner Key} {full : Bool} {result : Result}
    (hkind : relation.kind = .one) (h : owner.resolve content relation full = .ok result) :
    ∃ found : Option Item,
      result = .one (found.map fun row => ⟨row, selectFields content relation full⟩) := by
  obtain ⟨-, ⟨hdirect, row, -, rfl⟩ | ⟨-, rows, -, rfl⟩⟩ := resolve_cases h
  · rw [Bool.and_eq_true] at hdirect
    exact ⟨row, by rw [selectFields_direct hdirect.1]⟩
  · exact ⟨rows.head?, by simp [Result.of, hkind]⟩

theorem items_many {select : Option (List Units)} {rows : List Item}
    (hkind : relation.kind = .many) : (Result.of relation select rows).items = rows := by
  simp only [Result.of, hkind, Result.items, List.map_map]
  exact List.map_id rows

/-! ## An owner whose rows come back -/

/-- The rows that are loaded for an owner of a relation to many. -/
theorem loadedFor_many {usesAncestor full : Bool} {group : List (ActiveOwner Key)}
    {owner : ActiveOwner Key} {result : Result} (hkind : relation.kind = .many)
    (hgroup : InGroup group owner) (hresult : owner.resolve content relation full = .ok result)
    (h : Recovers content relation full usesAncestor group owner) :
    loadedFor content relation usesAncestor owner.ancestor group (owner.bucketKey usesAncestor) =
      (content.rows relation.target).filter (owns content relation owner) := by
  have halone := h.alone hkind
  have hown : ∀ row ∈ content.rows relation.target, owns content relation owner row = true →
      inBucket content relation usesAncestor (owner.bucketKey usesAncestor) row = true := by
    intro row hrow howns
    apply inBucket_of_loadedFor
    apply h.own result hresult
    rw [resolve_many hkind hresult, items_many hkind]
    exact List.mem_filter.mpr ⟨hrow, howns⟩
  obtain ⟨before, own, after, value, hsplit, hvalue, hkey, hothers⟩ :=
    exists_ownChunk hgroup.keys hgroup.mem
  rw [loadedFor, hsplit]
  apply Buckets.flatMap_filter_of_alone
  · intro row hrow
    rw [Bool.eq_iff_iff, Bool.and_eq_true]
    constructor
    · rintro ⟨hselects, hbucket⟩
      have hmem : own ∈ valueChunks group := by simp [hsplit]
      exact (halone own hmem row hrow hselects hbucket).1
    · intro howns
      exact ⟨hgroup.chunkSelects_own hvalue hkey howns, hown row hrow howns⟩
  · intro chunk hchunk row hrow
    rw [Bool.eq_false_iff]
    intro hloaded
    rw [Bool.and_eq_true] at hloaded
    have hmem : chunk ∈ valueChunks group := by
      rw [hsplit]
      obtain hchunk | hchunk := List.mem_append.mp hchunk
      · exact List.mem_append_left _ hchunk
      · exact List.mem_append_right _ (List.mem_cons_of_mem _ hchunk)
    obtain ⟨-, other, hother, hkey'⟩ := halone chunk hmem row hrow hloaded.1 hloaded.2
    exact hothers chunk hchunk other hother hkey'

theorem result_of_recovers {usesAncestor full : Bool} {group : List (ActiveOwner Key)}
    {owner : ActiveOwner Key} {result : Result} (hgroup : InGroup group owner)
    (hresult : owner.resolve content relation full = .ok result)
    (h : Recovers content relation full usesAncestor group owner) :
    Result.of relation (selectFields content relation full)
      (loadedFor content relation usesAncestor owner.ancestor group
        (owner.bucketKey usesAncestor)) = result := by
  cases hkind : relation.kind with
  | many => rw [loadedFor_many hkind hgroup hresult h, resolve_many hkind hresult]
  | one =>
    obtain ⟨found, rfl⟩ := resolve_one hkind hresult
    simp only [Result.of, hkind]
    cases hhead : (loadedFor content relation usesAncestor owner.ancestor group
        (owner.bucketKey usesAncestor)).head? with
    | none =>
      cases found with
      | none => rfl
      | some row =>
        have hmem := h.own _ hresult row (by simp [Result.items])
        rw [List.head?_eq_none_iff] at hhead
        rw [hhead] at hmem
        cases hmem
    | some row =>
      have hmem := h.first hkind row hhead _ hresult
      cases found with
      | none => simp [Result.items] at hmem
      | some other =>
        simp only [Result.items, Option.map_some, Option.toList_some, List.mem_singleton] at hmem
        rw [hmem]

/-! ## An owner who is given what its ref resolves to -/

theorem items_subset {select : Option (List Units)} {rows : List Item} {row : Item}
    (h : row ∈ (Result.of relation select rows).items) : row ∈ rows := by
  cases hkind : relation.kind with
  | many => rwa [items_many hkind] at h
  | one =>
    cases rows with
    | nil => simp [Result.of, hkind, Result.items] at h
    | cons first rows =>
      simp only [Result.of, hkind, Result.items, List.head?_cons, Option.map_some,
        Option.toList_some, List.mem_singleton] at h
      rw [h]
      exact List.mem_cons_self

/-- If an owner of a relation to many is given the rows that it owns, no other row comes back with its
key. -/
theorem alone_of_loadedFor {usesAncestor : Bool} {group : List (ActiveOwner Key)}
    {owner : ActiveOwner Key} (hgroup : InGroup group owner)
    (h : loadedFor content relation usesAncestor owner.ancestor group
      (owner.bucketKey usesAncestor) =
      (content.rows relation.target).filter (owns content relation owner)) :
    ∀ chunk ∈ valueChunks group, ∀ row ∈ content.rows relation.target,
      chunkSelects content relation owner.ancestor chunk row = true →
      inBucket content relation usesAncestor (owner.bucketKey usesAncestor) row = true →
      owns content relation owner row = true ∧
        ∃ value ∈ chunk, portableScalarKey value = .ok owner.keys.joinKey := by
  obtain ⟨before, own, after, value, hsplit, hvalue, hkey, -⟩ :=
    exists_ownChunk hgroup.keys hgroup.mem
  have hown : ∀ row ∈ content.rows relation.target, owns content relation owner row = true →
      (chunkSelects content relation owner.ancestor own row &&
        inBucket content relation usesAncestor (owner.bucketKey usesAncestor) row) = true := by
    intro row hrow howns
    have hmem : row ∈ loadedFor content relation usesAncestor owner.ancestor group
        (owner.bucketKey usesAncestor) := by
      rw [h]
      exact List.mem_filter.mpr ⟨hrow, howns⟩
    rw [Bool.and_eq_true]
    exact ⟨hgroup.chunkSelects_own hvalue hkey howns, inBucket_of_loadedFor hmem⟩
  rw [loadedFor, hsplit] at h
  obtain ⟨hownChunk, hothers⟩ := Buckets.alone_of_flatMap_filter hown h
  intro chunk hchunk row hrow hselects hbucket
  have hloaded : (chunkSelects content relation owner.ancestor chunk row &&
      inBucket content relation usesAncestor (owner.bucketKey usesAncestor) row) = true := by
    rw [hselects, hbucket]
    rfl
  rw [hsplit, List.mem_append, List.mem_cons] at hchunk
  obtain hchunk | rfl | hchunk := hchunk
  · rw [hothers chunk (List.mem_append_left _ hchunk) row hrow] at hloaded
    cases hloaded
  · exact ⟨hownChunk row hrow hloaded, value, hvalue, hkey⟩
  · rw [hothers chunk (List.mem_append_right _ hchunk) row hrow] at hloaded
    cases hloaded

theorem assertUnambiguous_eq_ok {target : ModelMeta Key} {canMatch : Bool} {rows : List Item} :
    assertUnambiguousDatastoreRelationFallback target relation canMatch rows = .ok () ↔
      (relation.kind = .one → canMatch = false → target.ancestor.isSome = true →
        rows.length ≤ 1) := by
  rw [assertUnambiguousDatastoreRelationFallback]
  split
  · next hambiguous =>
    simp only [Bool.and_eq_true, decide_eq_true_eq, Bool.not_eq_true'] at hambiguous
    obtain ⟨⟨⟨hkind, hmatch⟩, hancestor⟩, hlength⟩ := hambiguous
    constructor
    · intro h
      cases h
    · intro h
      exact absurd (h hkind hmatch hancestor) (Nat.not_le.mpr hlength)
  · next hambiguous =>
    constructor
    · intro _ hkind hmatch hancestor
      simp only [hkind, hmatch, hancestor, decide_true, Bool.not_false, Bool.and_self,
        Bool.true_and, decide_eq_true_eq] at hambiguous
      exact Nat.not_lt.mp hambiguous
    · exact fun _ => rfl

variable [DecidableEq Key]

/-- An owner whose ref resolves is given the same by the preload exactly when its rows come back. -/
theorem groupResult_eq_iff {usesAncestor full : Bool} {owners : List (ActiveOwner Key)}
    {owner : ActiveOwner Key} {result : Result} (hgroup : InGroup (groupOf owners owner) owner)
    (hresult : owner.resolve content relation full = .ok result) :
    groupResult content relation full usesAncestor owners owner = .ok result ↔
      Recovers content relation full usesAncestor (groupOf owners owner) owner := by
  constructor
  · intro h
    obtain ⟨buckets, hbuckets, hrest⟩ := Except.bind_eq_ok.mp h
    obtain ⟨⟨⟩, hassert, hsame⟩ := Except.bind_eq_ok.mp hrest
    have hkeyed := keyed_of_byForeign hbuckets
    obtain ⟨buckets', hbuckets', hbucket⟩ := byForeign_of_keyed hkeyed
    rw [hbuckets] at hbuckets'
    cases hbuckets'
    have hsame := Except.ok.inj hsame
    rw [hbucket] at hsame hassert
    constructor
    · exact hkeyed
    · intro result' hresult' row hrow
      rw [hresult] at hresult'
      cases hresult'
      rw [← hsame] at hrow
      exact items_subset hrow
    · intro hkind
      apply alone_of_loadedFor hgroup
      have hitems := congrArg Result.items hsame
      rwa [resolve_many hkind hresult, items_many hkind, items_many hkind] at hitems
    · intro hkind row hhead result' hresult'
      rw [hresult] at hresult'
      cases hresult'
      rw [← hsame]
      simp [Result.of, hkind, Result.items, hhead]
    · exact assertUnambiguous_eq_ok.mp hassert
  · intro h
    obtain ⟨buckets, hbuckets, hbucket⟩ := byForeign_of_keyed h.keyed
    refine Except.bind_eq_ok.mpr ⟨buckets, hbuckets, Except.bind_eq_ok.mpr ⟨(), ?_, ?_⟩⟩
    · rw [hbucket]
      exact assertUnambiguous_eq_ok.mpr h.single
    · rw [hbucket, result_of_recovers hgroup hresult h]

/-! ## All owners of a relation -/

omit [DecidableEq Key] in
theorem activeOwner_keys {item : Item} {owner : ActiveOwner Key}
    (h : activeOwner content relation item = .ok (some owner)) : KeyOfValue owner := by
  obtain ⟨localValue, -, hrest⟩ := Except.bind_eq_ok.mp h
  split at hrest
  · cases hrest
  · obtain ⟨ancestor, -, hrest⟩ := Except.bind_eq_ok.mp hrest
    obtain ⟨keys, hkeys, he⟩ := Except.bind_eq_ok.mp hrest
    cases he
    exact joinKey_of_keys hkeys

omit [DecidableEq Key] in
variable (content relation) in
/-- The owners whose local keys are there. -/
def activeOwners (items : List Item) : List (ActiveOwner Key) :=
  items.filterMap fun item => ((activeOwner content relation item).toOption).join

variable (content relation) in
/-- The condition under which a preload gives every owner what its ref resolves to. A relation whose
rows are read by their ids does not ask for chunks. -/
def RelationRecovers (full : Bool) (items : List Item) : Prop :=
  let owners := activeOwners content relation items
  allById content relation owners = true ∨
    ∀ owner ∈ owners, Recovers content relation full (relationUsesAncestor relation owners)
      (groupOf owners owner) owner

omit [DecidableEq Key] in
theorem mem_activeOwners {items : List Item} {owner : ActiveOwner Key} :
    owner ∈ activeOwners content relation items ↔
      ∃ item ∈ items, activeOwner content relation item = .ok (some owner) := by
  rw [activeOwners, List.mem_filterMap]
  apply exists_congr
  intro item
  apply and_congr_right
  intro _
  cases activeOwner content relation item with
  | error e => simp [Except.toOption]
  | ok found => simp [Except.toOption]

omit [DecidableEq Key] in
theorem activeOwner_of_resolve {item : Item} {full : Bool} {result : Result}
    (h : resolveNow content relation full item = .ok result) :
    activeOwner content relation item = .ok none ∧ result = .empty relation.kind ∨
      ∃ owner, activeOwner content relation item = .ok (some owner) ∧
        owner.resolve content relation full = .ok result := by
  obtain ⟨found, hfound, hrest⟩ := Except.bind_eq_ok.mp h
  cases found with
  | none => exact .inl ⟨hfound, (Except.ok.inj hrest).symm⟩
  | some owner => exact .inr ⟨owner, hfound, hrest⟩

omit [DecidableEq Key] in
/-- An owner whose row is read by its id has a ref that reads it so too. -/
theorem pointResult_eq {owners : List (ActiveOwner Key)} {owner : ActiveOwner Key} {full : Bool}
    {result : Result} (hdirect : allById content relation owners = true) (howner : owner ∈ owners)
    (h : owner.resolve content relation full = .ok result) :
    pointResult content relation (some owner) = .ok result := by
  simp only [allById, Bool.and_eq_true, Bool.not_eq_true', List.any_eq_false] at hdirect
  obtain ⟨hbyId, hmatch⟩ := hdirect
  have hfull : (byId content relation (full || relation.preload.isEmpty) &&
      !owner.keys.canMatch) = true := by
    simp only [byId, Bool.and_eq_true] at hbyId ⊢
    simp [hbyId, hmatch owner howner]
  obtain ⟨-, ⟨-, row, hrow, rfl⟩ | ⟨hother, -⟩⟩ := resolve_cases h
  · rw [pointResult, hrow]
    rfl
  · rw [hfull] at hother
    cases hother

section
variable {full : Bool} {items : List Item}

omit [DecidableEq Key] in
theorem mapM_activeOwner (h : ∀ item ∈ items, ∃ result,
    resolveNow content relation full item = .ok result) :
    items.mapM (activeOwner content relation) =
      .ok (items.map fun item => ((activeOwner content relation item).toOption).join) := by
  apply Except.mapM_eq_map
  intro item hitem
  obtain ⟨result, hresult⟩ := h item hitem
  obtain ⟨hnone, -⟩ | ⟨owner, hsome, -⟩ := activeOwner_of_resolve hresult
  · rw [hnone]
    rfl
  · rw [hsome]
    rfl

omit [DecidableEq Key] in
theorem resolve_of_mem (h : ∀ item ∈ items, ∃ result,
    resolveNow content relation full item = .ok result) {owner : ActiveOwner Key}
    (howner : owner ∈ activeOwners content relation items) :
    ∃ result, owner.resolve content relation full = .ok result := by
  obtain ⟨item, hitem, hfound⟩ := mem_activeOwners.mp howner
  obtain ⟨result, hresult⟩ := h item hitem
  obtain ⟨hnone, -⟩ | ⟨other, hsome, hother⟩ := activeOwner_of_resolve hresult
  · rw [hfound] at hnone
    cases hnone
  · rw [hfound] at hsome
    cases hsome
    exact ⟨result, hother⟩

omit [DecidableEq Key] in
/-- The checks of the values are those of the refs. -/
theorem checks_of_resolve (h : ∀ item ∈ items, ∃ result,
    resolveNow content relation full item = .ok result) :
    ((valuesByJoinKey (activeOwners content relation items)).map Prod.snd).forM
      (assertRelationKey content relation) = .ok () := by
  rw [Except.forM_eq_ok]
  intro value hvalue
  obtain ⟨entry, hentry, rfl⟩ := List.mem_map.mp hvalue
  obtain hnil | ⟨owner, howner, he⟩ := mem_valuesFrom hentry
  · cases hnil
  · obtain ⟨result, hresult⟩ := resolve_of_mem h howner
    rw [← he]
    exact (resolve_cases hresult).1

theorem inGroup_of_mem {owner : ActiveOwner Key}
    (h : owner ∈ activeOwners content relation items) :
    InGroup (groupOf (activeOwners content relation items) owner) owner where
  mem := List.mem_filter.mpr ⟨h, by simp⟩
  keys := by
    intro other hother
    obtain ⟨item, -, hfound⟩ := mem_activeOwners.mp (List.mem_filter.mp hother).1
    exact activeOwner_keys hfound

/-- The refs of all owners resolve: the preload gives the same exactly under the condition. -/
theorem preloadRelation_eq_iff {results : List Result}
    (h : items.mapM (resolveNow content relation full) = .ok results) :
    preloadRelation content relation full items = .ok results ↔
      RelationRecovers content relation full items := by
  have hresolved : ∀ item ∈ items, ∃ result, resolveNow content relation full item = .ok result := by
    intro item hitem
    obtain ⟨result, -, hresult⟩ := Except.mapM_mem h hitem
    exact ⟨result, hresult⟩
  have hactive := mapM_activeOwner hresolved
  have howners : (items.map fun item =>
      ((activeOwner content relation item).toOption).join).filterMap id =
      activeOwners content relation items := by
    rw [List.filterMap_map, activeOwners]
    rfl
  have hpreload : preloadRelation content relation full items =
      if allById content relation (activeOwners content relation items) then
        items.mapM fun item => activeOwner content relation item >>= pointResult content relation
      else
        items.mapM fun item => activeOwner content relation item >>=
          chunkResult content relation full
            (relationUsesAncestor relation (activeOwners content relation items))
            (activeOwners content relation items) := by
    rw [← Except.mapM_mapM hactive, ← Except.mapM_mapM hactive, ← howners, preloadRelation, hactive]
    have hchecks := checks_of_resolve hresolved
    rw [← howners] at hchecks
    change (((valuesByJoinKey _).map Prod.snd).forM (assertRelationKey content relation) >>=
      fun _ => _) = _
    rw [hchecks]
    rfl
  rw [hpreload, RelationRecovers]
  split
  · next hdirect =>
    rw [Except.mapM_eq_iff h]
    refine iff_of_true ?_ (.inl hdirect)
    intro item hitem
    obtain ⟨result, hresult⟩ := hresolved item hitem
    rw [hresult]
    obtain ⟨hnone, rfl⟩ | ⟨owner, hsome, hown⟩ := activeOwner_of_resolve hresult
    · rw [hnone]
      rfl
    · rw [hsome]
      exact pointResult_eq hdirect (mem_activeOwners.mpr ⟨item, hitem, hsome⟩) hown
  · next hdirect =>
    rw [Except.mapM_eq_iff h]
    constructor
    · intro hall
      right
      intro owner howner
      obtain ⟨item, hitem, hsome⟩ := mem_activeOwners.mp howner
      obtain ⟨result, hresult⟩ := hresolved item hitem
      obtain ⟨hnone, -⟩ | ⟨other, hother, hown⟩ := activeOwner_of_resolve hresult
      · rw [hsome] at hnone
        cases hnone
      · rw [hsome] at hother
        cases hother
        have hgiven := hall item hitem
        rw [hresult, hsome] at hgiven
        exact (groupResult_eq_iff (inGroup_of_mem howner) hown).mp hgiven
    · rintro (hall | hall) item hitem
      · exact absurd hall hdirect
      · obtain ⟨result, hresult⟩ := hresolved item hitem
        rw [hresult]
        obtain ⟨hnone, rfl⟩ | ⟨owner, hsome, hown⟩ := activeOwner_of_resolve hresult
        · rw [hnone]
          rfl
        · rw [hsome]
          have howner := mem_activeOwners.mpr ⟨item, hitem, hsome⟩
          exact (groupResult_eq_iff (inGroup_of_mem howner) hown).mpr (hall owner howner)

end

end

end ActiveTs.Query.Relations
