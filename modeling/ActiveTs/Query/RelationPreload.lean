import ActiveTs.Query.Relations
import Mathlib.Order.Fin.Basic

/-! # What a preload and a ref load

A chunk of local keys loads the rows that one of them selects, and a row lands in the buckets of its own
keys. The ref of an owner loads the rows that its local key selects. -/

namespace ActiveTs.Query.Relations

open Utf16 (Units ofString)

section
variable {Key : Type} (content : Content Key)

/-! ## What an owner and a chunk select -/

/-- A store takes an operand, and the row is one that it selects. -/
def accepts (relation : Relation Key) (value : Data) (row : Item) : Bool :=
  match content.selects relation.target relation.foreignKey value with
  | .ok select => select row
  | .error _ => false

def selected (relation : Relation Key) (ancestor : Option Key) (value : Data) (row : Item) : Bool :=
  inScope content relation ancestor row && accepts content relation value row

def chunkSelects (relation : Relation Key) (ancestor : Option Key) (chunk : List Data) (row : Item) :
    Bool :=
  inScope content relation ancestor row && chunk.any fun value => accepts content relation value row

def hasTargetKey (relation : Relation Key) (key : Units) (row : Item) : Bool :=
  match rowJoinKeys (content.model relation.target) relation row with
  | .ok (some keys) => keys.targetJoinKey = key
  | _ => false

/-- The rows that the local key of an owner selects, of the owner's ancestor fields where it knows
them. -/
def owns (relation : Relation Key) (owner : ActiveOwner Key) (row : Item) : Bool :=
  selected content relation owner.ancestor owner.localValue row &&
    (!owner.keys.canMatch || hasTargetKey content relation owner.keys.targetJoinKey row)

def inBucket (relation : Relation Key) (usesAncestor : Bool) (key : Units) (row : Item) : Bool :=
  match bucketKeys content relation usesAncestor row with
  | .ok keys => keys.contains key
  | .error _ => false

variable {content} {relation : Relation Key}

theorem chunkSelects_iff {ancestor : Option Key} {chunk : List Data} {row : Item} :
    chunkSelects content relation ancestor chunk row = true ↔
      ∃ value ∈ chunk, selected content relation ancestor value row = true := by
  simp only [chunkSelects, selected, Bool.and_eq_true, List.any_eq_true]
  constructor
  · rintro ⟨hscope, value, hvalue, h⟩
    exact ⟨value, hvalue, hscope, h⟩
  · rintro ⟨value, hvalue, hscope, h⟩
    exact ⟨hscope, value, hvalue, h⟩

theorem accepts_of_ok {value : Data} {select : Item → Bool}
    (h : content.selects relation.target relation.foreignKey value = .ok select) :
    accepts content relation value = select := by
  funext row
  rw [accepts, h]

theorem whereEquals_eq {value : Data} {rows : List Item} (ancestor : Option Key)
    (h : whereEquals content relation ancestor value = .ok rows) :
    rows = (content.rows relation.target).filter (selected content relation ancestor value) := by
  obtain ⟨select, hselect, he⟩ := Except.bind_eq_ok.mp h
  rw [← Except.ok.inj he]
  apply List.filter_congr
  intro row _
  rw [selected, accepts_of_ok hselect]

theorem whereIn_eq {values : List Data} (ancestor : Option Key)
    (h : ∀ value ∈ values, ∃ select,
      content.selects relation.target relation.foreignKey value = .ok select) :
    whereIn content relation ancestor values =
      .ok ((content.rows relation.target).filter (chunkSelects content relation ancestor values)) := by
  have hall : values.mapM (content.selects relation.target relation.foreignKey) =
      .ok (values.map (accepts content relation)) := by
    apply Except.mapM_eq_map
    intro value hvalue
    obtain ⟨select, hselect⟩ := h value hvalue
    rw [accepts_of_ok hselect, hselect]
  rw [whereIn, hall]
  apply congrArg Except.ok
  apply List.filter_congr
  intro row _
  rw [chunkSelects, List.any_map]
  rfl

theorem operands_of_whereIn {values : List Data} {ancestor : Option Key} {rows : List Item}
    (h : whereIn content relation ancestor values = .ok rows) :
    ∀ value ∈ values, ∃ select,
      content.selects relation.target relation.foreignKey value = .ok select := by
  obtain ⟨selects, hselects, -⟩ := Except.bind_eq_ok.mp h
  intro value hvalue
  obtain ⟨select, -, hselect⟩ := Except.mapM_mem hselects hvalue
  exact ⟨select, hselect⟩

/-! ## Buckets -/

variable (content relation) in
/-- The store takes the local keys of a group, and the rows that they select have keys of buckets. -/
def Keyed (usesAncestor : Bool) (ancestor : Option Key) (group : List (ActiveOwner Key)) : Prop :=
  ∀ chunk ∈ valueChunks group,
    (∀ value ∈ chunk, ∃ select,
      content.selects relation.target relation.foreignKey value = .ok select) ∧
    ∀ row ∈ content.rows relation.target, chunkSelects content relation ancestor chunk row = true →
      ∃ keys, bucketKeys content relation usesAncestor row = .ok keys

variable (content relation) in
/-- The keys of the buckets of a row, if it has any. -/
def keysOf (usesAncestor : Bool) (row : Item) : List Units :=
  ((bucketKeys content relation usesAncestor row).toOption).getD []

theorem bucketKeys_eq {usesAncestor : Bool} {row : Item}
    (h : ∃ keys, bucketKeys content relation usesAncestor row = .ok keys) :
    bucketKeys content relation usesAncestor row = .ok (keysOf content relation usesAncestor row) := by
  obtain ⟨keys, hkeys⟩ := h
  rw [keysOf, hkeys]
  rfl

theorem inBucket_eq (usesAncestor : Bool) (key : Units) (row : Item) :
    inBucket content relation usesAncestor key row =
      decide (key ∈ keysOf content relation usesAncestor row) := by
  rw [inBucket, keysOf]
  cases bucketKeys content relation usesAncestor row with
  | ok keys =>
    simp only [Except.toOption, Option.getD_some, List.contains_eq_mem]
    exact decide_eq_decide.mpr Iff.rfl
  | error e => rfl

theorem bucketKeys_nodup {usesAncestor : Bool} {row : Item} {keys : List Units}
    (h : bucketKeys content relation usesAncestor row = .ok keys) : keys.Nodup := by
  unfold bucketKeys at h
  split at h
  · obtain ⟨found, -, hfound⟩ := Except.bind_eq_ok.mp h
    cases found with
    | none =>
      cases hfound
      exact List.nodup_nil
    | some joinKeys =>
      cases hfound
      split
      · next hmatch =>
        have hne : joinKeys.targetJoinKey ≠ joinKeys.joinKey := by simpa [JoinKeys.canMatch] using hmatch
        simp [hne.symm]
      · exact List.nodup_singleton _
  · obtain ⟨foreignValue, -, hforeign⟩ := Except.bind_eq_ok.mp h
    split at hforeign
    · cases hforeign
      exact List.nodup_nil
    · obtain ⟨key, -, rfl⟩ := Except.map_eq_ok.mp hforeign
      exact List.nodup_singleton _

variable (content relation) in
/-- The rows that the chunks of a group load for the bucket of a key. -/
def loadedFor (usesAncestor : Bool) (ancestor : Option Key) (group : List (ActiveOwner Key))
    (key : Units) : List Item :=
  (valueChunks group).flatMap fun chunk => (content.rows relation.target).filter fun row =>
    chunkSelects content relation ancestor chunk row && inBucket content relation usesAncestor key row

theorem keyed_of_byForeign {usesAncestor : Bool} {ancestor : Option Key}
    {group : List (ActiveOwner Key)} {buckets : List (Units × List Item)}
    (h : byForeign content relation usesAncestor ancestor group = .ok buckets) :
    Keyed content relation usesAncestor ancestor group := by
  obtain ⟨loaded, hloaded, hrest⟩ := Except.bind_eq_ok.mp h
  obtain ⟨keyed, hkeyed, -⟩ := Except.bind_eq_ok.mp hrest
  intro chunk hchunk
  obtain ⟨rows, hrows, hwhere⟩ := Except.mapM_mem hloaded hchunk
  have hoperands := operands_of_whereIn hwhere
  refine ⟨hoperands, ?_⟩
  intro row hrow hselects
  rw [whereIn_eq ancestor hoperands] at hwhere
  have hmem : row ∈ loaded.flatten := by
    rw [List.mem_flatten]
    refine ⟨rows, hrows, ?_⟩
    rw [← Except.ok.inj hwhere]
    exact List.mem_filter.mpr ⟨hrow, hselects⟩
  obtain ⟨_, -, hkeys⟩ := Except.mapM_mem hkeyed hmem
  obtain ⟨keys, hkeys, -⟩ := Except.map_eq_ok.mp hkeys
  exact ⟨keys, hkeys⟩

theorem byForeign_of_keyed {usesAncestor : Bool} {ancestor : Option Key}
    {group : List (ActiveOwner Key)} (h : Keyed content relation usesAncestor ancestor group) :
    ∃ buckets, byForeign content relation usesAncestor ancestor group = .ok buckets ∧
      ∀ key, Buckets.bucket key buckets =
        loadedFor content relation usesAncestor ancestor group key := by
  have hloaded : (valueChunks group).mapM (whereIn content relation ancestor) =
      .ok ((valueChunks group).map fun chunk =>
        (content.rows relation.target).filter (chunkSelects content relation ancestor chunk)) :=
    Except.mapM_eq_map fun chunk hchunk => whereIn_eq ancestor (h chunk hchunk).1
  have hkeys : ∀ row ∈ ((valueChunks group).map fun chunk =>
      (content.rows relation.target).filter (chunkSelects content relation ancestor chunk)).flatten,
      bucketKeys content relation usesAncestor row =
        .ok (keysOf content relation usesAncestor row) := by
    intro row hrow
    simp only [List.mem_flatten, List.mem_map] at hrow
    obtain ⟨_, ⟨chunk, hchunk, rfl⟩, hmem⟩ := hrow
    obtain ⟨hmem, hselects⟩ := List.mem_filter.mp hmem
    exact bucketKeys_eq ((h chunk hchunk).2 row hmem hselects)
  have hkeyed : ∀ row ∈ ((valueChunks group).map fun chunk =>
      (content.rows relation.target).filter (chunkSelects content relation ancestor chunk)).flatten,
      (bucketKeys content relation usesAncestor row).map (fun keys => (row, keys)) =
        .ok (row, keysOf content relation usesAncestor row) := by
    intro row hrow
    rw [hkeys row hrow]
    rfl
  have hforeign : byForeign content relation usesAncestor ancestor group = .ok _ :=
    Except.bind_eq_ok.mpr ⟨_, hloaded,
      Except.bind_eq_ok.mpr ⟨_, Except.mapM_eq_map hkeyed, rfl⟩⟩
  refine ⟨_, hforeign, ?_⟩
  intro key
  rw [Buckets.bucket_ofRows]
  · rw [List.filter_map, List.map_map, List.filter_flatten, List.map_map, loadedFor, List.flatMap]
    rw [show (Prod.fst ∘ fun row : Item => (row, keysOf content relation usesAncestor row)) = id from rfl,
      List.map_id]
    congr 2
    funext chunk
    rw [Function.comp_apply, List.filter_filter]
    apply List.filter_congr
    intro row _
    rw [inBucket_eq, Bool.and_comm]
    exact congrArg _ (decide_eq_decide.mpr Iff.rfl)
  · intro row hrow
    obtain ⟨item, hitem, rfl⟩ := List.mem_map.mp hrow
    exact bucketKeys_nodup (hkeys item hitem)

/-! ## The values of a group -/

/-- The join key of an owner is the key of its local value. -/
def KeyOfValue (owner : ActiveOwner Key) : Prop :=
  portableScalarKey owner.localValue = .ok owner.keys.joinKey

theorem joinKey_of_keys {target : ModelMeta Key} {value data : Data} {keys : JoinKeys}
    (h : relationTargetJoinKeys target relation value data = .ok keys) :
    portableScalarKey value = .ok keys.joinKey := by
  obtain ⟨joinKey, hkey, hrest⟩ := Except.bind_eq_ok.mp h
  split at hrest
  · cases hrest
    exact hkey
  · obtain ⟨found, -, hfound⟩ := Except.bind_eq_ok.mp hrest
    cases found with
    | none =>
      cases hfound
      exact hkey
    | some targetJoinKey =>
      cases hfound
      exact hkey

/-- What the loop over the owners keeps of the map that it fills. -/
theorem valuesFrom {owners : List (ActiveOwner Key)} {values : List (Units × Data)}
    (hnodup : (values.map Prod.fst).Nodup)
    (hvalues : ∀ entry ∈ values, portableScalarKey entry.2 = .ok entry.1)
    (howners : ∀ owner ∈ owners, KeyOfValue owner) :
    let filled := owners.foldl
      (fun values owner => JsMap.insertEntry owner.keys.joinKey owner.localValue values) values
    (filled.map Prod.fst).Nodup ∧ (∀ entry ∈ filled, portableScalarKey entry.2 = .ok entry.1) ∧
      (∀ key ∈ values.map Prod.fst, key ∈ filled.map Prod.fst) ∧
      ∀ owner ∈ owners, owner.keys.joinKey ∈ filled.map Prod.fst := by
  induction owners generalizing values with
  | nil => exact ⟨hnodup, hvalues, fun _ h => h, fun _ h => by cases h⟩
  | cons owner owners ih =>
    rw [List.forall_mem_cons] at howners
    have hinserted : ∀ entry ∈ JsMap.insertEntry owner.keys.joinKey owner.localValue values,
        portableScalarKey entry.2 = .ok entry.1 := by
      intro entry hentry
      obtain rfl | hentry := JsMap.mem_insertEntry hentry
      · exact howners.1
      · exact hvalues entry hentry
    have hkeys : ∀ key, key = owner.keys.joinKey ∨ key ∈ values.map Prod.fst →
        key ∈ (JsMap.insertEntry owner.keys.joinKey owner.localValue values).map Prod.fst := by
      intro key hkey
      rw [JsMap.map_fst_insertEntry]
      split
      · next hmem =>
        obtain rfl | hkey := hkey
        · exact hmem
        · exact hkey
      · obtain rfl | hkey := hkey
        · exact List.mem_append_right _ (List.mem_singleton_self _)
        · exact List.mem_append_left _ hkey
    obtain ⟨hfilled, hentries, hkept, hnew⟩ :=
      ih (JsMap.nodup_insertEntry hnodup) hinserted howners.2
    refine ⟨hfilled, hentries, fun key hkey => hkept key (hkeys key (.inr hkey)), ?_⟩
    rw [List.forall_mem_cons]
    exact ⟨hkept _ (hkeys _ (.inl rfl)), hnew⟩

/-- The values that are checked and asked for are local values of owners. -/
theorem mem_valuesFrom {owners : List (ActiveOwner Key)} {values : List (Units × Data)}
    {entry : Units × Data}
    (h : entry ∈ owners.foldl
      (fun values owner => JsMap.insertEntry owner.keys.joinKey owner.localValue values) values) :
    entry ∈ values ∨ ∃ owner ∈ owners, owner.localValue = entry.2 := by
  induction owners generalizing values with
  | nil => exact .inl h
  | cons owner owners ih =>
    obtain h | ⟨other, hother, hvalue⟩ := ih h
    · obtain rfl | h := JsMap.mem_insertEntry h
      · exact .inr ⟨owner, List.mem_cons_self, rfl⟩
      · exact .inl h
    · exact .inr ⟨other, List.mem_cons_of_mem _ hother, hvalue⟩

/-- The chunk of the key of an owner is the only one that has the key. -/
theorem exists_ownChunk {group : List (ActiveOwner Key)} {owner : ActiveOwner Key}
    (hgroup : ∀ owner ∈ group, KeyOfValue owner) (howner : owner ∈ group) :
    ∃ before own after value, valueChunks group = before ++ own :: after ∧ value ∈ own ∧
      portableScalarKey value = .ok owner.keys.joinKey ∧
      ∀ chunk ∈ before ++ after, ∀ other ∈ chunk,
        portableScalarKey other ≠ .ok owner.keys.joinKey := by
  obtain ⟨hnodup, hentries, -, hkeys⟩ :=
    @valuesFrom _ group [] List.nodup_nil (fun _ h => by cases h) hgroup
  obtain ⟨⟨key, value⟩, hentry, rfl⟩ := List.mem_map.mp (hkeys owner howner)
  have hvalue := hentries _ hentry
  have hpositive : 0 < MAX_PORTABLE_IN_VALUES := by decide
  obtain ⟨before, own, after, hsplit, hown⟩ :=
    Buckets.exists_chunk hpositive (List.mem_map_of_mem (f := Prod.snd) hentry)
  refine ⟨before, own, after, value, hsplit, hown, hvalue, ?_⟩
  have hdistinct : (((valuesByJoinKey group).map Prod.snd).map portableScalarKey).Nodup := by
    have he : ((valuesByJoinKey group).map Prod.snd).map portableScalarKey =
        ((valuesByJoinKey group).map Prod.fst).map Except.ok := by
      rw [List.map_map, List.map_map]
      exact List.map_congr_left hentries
    rw [he]
    exact hnodup.map fun _ _ h => Except.ok.inj h
  intro chunk hchunk other hother
  rw [← hvalue]
  exact Buckets.key_ne_of_other_chunk hpositive hdistinct hsplit hown hchunk hother

/-! ## The ref of an owner -/

theorem matchingRows_eq {key : Units} {rows list : List Item}
    (h : matchingRows content relation key rows = .ok list) :
    list = rows.filter (hasTargetKey content relation key) := by
  obtain ⟨keyed, hkeyed, he⟩ := Except.bind_eq_ok.mp h
  rw [← Except.ok.inj he]
  have hall := Except.mapM_eq_ok.mp hkeyed
  clear hkeyed he h
  induction hall with
  | nil => rfl
  | cons hkeys _ ih =>
    obtain ⟨keys, hrow, rfl⟩ := Except.map_eq_ok.mp hkeys
    rw [List.filter_cons, List.filter_cons, hasTargetKey, hrow]
    cases keys with
    | none => simpa using ih
    | some keys =>
      by_cases hkey : keys.targetJoinKey = key
      · simpa [hkey] using ih
      · simpa [hkey] using ih

/-- The query of an owner gives the rows that the owner owns; of a relation to one it takes what is
needed to tell that there is only one. -/
theorem ownRows_spec {owner : ActiveOwner Key} {rows : List Item}
    (h : ownRows content relation owner = .ok rows) (select : Option (List Units)) :
    Result.of relation select rows =
        .of relation select ((content.rows relation.target).filter (owns content relation owner)) ∧
      (relation.kind = .one → owner.keys.canMatch = false →
        (content.model relation.target).ancestor.isSome = true →
        ((content.rows relation.target).filter (owns content relation owner)).length ≤ 1) := by
  obtain ⟨found, hfound, hrest⟩ := Except.bind_eq_ok.mp h
  have he := whereEquals_eq _ hfound
  cases hmatch : owner.keys.canMatch with
  | true =>
    rw [if_pos hmatch] at hrest
    rw [matchingRows_eq hrest, he, List.filter_filter]
    refine ⟨congrArg _ (List.filter_congr ?_), (by simp)⟩
    intro row _
    simp only [owns, hmatch, Bool.not_true, Bool.false_or]
    rw [Bool.and_comm]
  | false =>
    rw [if_neg (by simp [hmatch])] at hrest
    have hall : found = (content.rows relation.target).filter (owns content relation owner) := by
      rw [he]
      apply List.filter_congr
      intro row _
      simp only [owns, hmatch, Bool.not_false, Bool.true_or, Bool.and_true]
    cases hkind : relation.kind with
    | many =>
      rw [hkind] at hrest
      rw [← hall, Except.ok.inj hrest]
      exact ⟨rfl, (by simp)⟩
    | one =>
      rw [hkind] at hrest
      obtain ⟨⟨⟩, hassert, hlist⟩ := Except.bind_eq_ok.mp hrest
      rw [← hall, ← Except.ok.inj hlist]
      constructor
      · simp only [Result.of, hkind]
        cases found with
        | nil => simp
        | cons row found =>
          split <;> rfl
      · intro _ _ hancestor
        rw [assertUnambiguousDatastoreRelationFallback] at hassert
        simp only [hancestor, if_true] at hassert
        split at hassert
        · cases hassert
        · next hone =>
          simp only [hkind, decide_true, Bool.not_false, Bool.and_true,
            Bool.true_and, decide_eq_true_eq, List.length_take] at hone
          omega

/-- How the ref of an owner resolves. -/
theorem resolve_cases {owner : ActiveOwner Key} {full : Bool} {result : Result}
    (h : owner.resolve content relation full = .ok result) :
    assertRelationKey content relation owner.localValue = .ok () ∧
    ((byId content relation (full || relation.preload.isEmpty) && !owner.keys.canMatch) = true ∧
        (∃ row, content.get relation.target owner.ancestor owner.localValue = .ok row ∧
          result = .one (row.map fun row => ⟨row, none⟩)) ∨
      (byId content relation (full || relation.preload.isEmpty) && !owner.keys.canMatch) = false ∧
        ∃ rows, ownRows content relation owner = .ok rows ∧
          result = .of relation (selectFields content relation full) rows) := by
  obtain ⟨⟨⟩, hassert, hrest⟩ := Except.bind_eq_ok.mp h
  refine ⟨hassert, ?_⟩
  split at hrest
  · next hdirect =>
    obtain ⟨row, hrow, he⟩ := Except.bind_eq_ok.mp hrest
    exact .inl ⟨hdirect, row, hrow, (Except.ok.inj he).symm⟩
  · next hdirect =>
    obtain ⟨rows, hrows, he⟩ := Except.bind_eq_ok.mp hrest
    exact .inr ⟨by simpa using hdirect, rows, hrows, (Except.ok.inj he).symm⟩

end

end ActiveTs.Query.Relations
