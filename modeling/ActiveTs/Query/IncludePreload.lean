import ActiveTs.Query.RelationAgreement

/-! # The preload of include paths

The walk over include paths loads one relation after another, and the paths below it for all rows that
the relation led to. It agrees with the refs exactly when each relation does and the rows that are
walked on from are different. -/

namespace ActiveTs.Query.Relations

open Utf16 (Units ofString)

section
variable {Key : Type} [DecidableEq Key] {content : Content Key}

variable (content) in
/-- A relation of the walk, with the paths below it: the preload of the relation recovers the refs, and
the paths below meet their own condition for the rows that the refs lead to. -/
def GroupMeets (below : Units → List Item → List (List Units) → Prop) (owner : ModelMeta Key)
    (items : List Item) (group : Units × List (List Units)) : Prop :=
  ∀ relation, JsMap.lookup group.1 owner.relations = some relation →
    RelationRecovers content relation (!group.2.isEmpty) items ∧
      ∀ results, items.mapM (resolveNow content relation (!group.2.isEmpty)) = .ok results →
        (group.2.isEmpty || (results.flatMap Result.items).isEmpty) = true ∨
          below relation.target (results.flatMap Result.items) group.2

variable (content) in
/-- The condition under which a preload of include paths gives what the refs resolve to. -/
def Meets : Nat → Units → List Item → List (List Units) → Prop
  | 0, _, _, _ => True
  | depth + 1, model, items, includes =>
    (items.isEmpty || includes.isEmpty) = true ∨
      (items.map Item.entity).Nodup ∧
        ∀ group ∈ groupIncludes includes,
          GroupMeets content (Meets depth) (content.model model) items group

/-- One relation and the paths below it, where the walk with the refs returns. -/
theorem group_eq_iff {relation : Relation Key} {items : List Item} {paths : List (List Units)}
    {preload resolve : Units → List Item → List (List Units) → Except RelationError Loads}
    {below : Units → List Item → List (List Units) → Prop}
    (hbelow : ∀ model items paths loads, resolve model items paths = .ok loads →
      (preload model items paths = .ok loads ↔ below model items paths))
    {results : List Result} {nested : Loads}
    (hresults : items.mapM (resolveNow content relation (!paths.isEmpty)) = .ok results)
    (hnested : loadBelow resolve relation.target (results.flatMap Result.items) paths = .ok nested) :
    (preloadRelation content relation (!paths.isEmpty) items = .ok results ∧
      loadBelow preload relation.target (results.flatMap Result.items) paths = .ok nested) ↔
      RelationRecovers content relation (!paths.isEmpty) items ∧
        ((paths.isEmpty || (results.flatMap Result.items).isEmpty) = true ∨
          below relation.target (results.flatMap Result.items) paths) := by
  refine and_congr (preloadRelation_eq_iff hresults) ?_
  rw [loadBelow] at hnested ⊢
  split at hnested
  · next hdone =>
    rw [if_pos hdone]
    exact iff_of_true hnested (.inl hdone)
  · next hmore =>
    rw [if_neg hmore, hbelow _ _ _ _ hnested]
    exact (or_iff_right hmore).symm

/-- The loop over the relations. -/
theorem loadGroups_eq_iff {owner : ModelMeta Key} {items : List Item}
    {preload resolve : Units → List Item → List (List Units) → Except RelationError Loads}
    {below : Units → List Item → List (List Units) → Prop}
    (hbelow : ∀ model items paths loads, resolve model items paths = .ok loads →
      (preload model items paths = .ok loads ↔ below model items paths))
    {groups : List (Units × List (List Units))} {loads : Loads}
    (h : loadGroups (fun relation full items => items.mapM (resolveNow content relation full)) resolve
      owner items groups = .ok loads) :
    loadGroups (preloadRelation content) preload owner items groups = .ok loads ↔
      ∀ group ∈ groups, GroupMeets content below owner items group := by
  induction groups generalizing loads with
  | nil =>
    refine iff_of_true h ?_
    intro group hgroup
    cases hgroup
  | cons group groups ih =>
    obtain ⟨name, paths⟩ := group
    rw [List.forall_mem_cons]
    simp only [loadGroups] at h ⊢
    cases hrelation : JsMap.lookup name owner.relations with
    | none =>
      simp only [hrelation] at h
      cases h
    | some relation =>
      simp only [hrelation] at h ⊢
      obtain ⟨results, hresults, h⟩ := Except.bind_eq_ok.mp h
      obtain ⟨nested, hnested, h⟩ := Except.bind_eq_ok.mp h
      obtain ⟨rest, hrest, he⟩ := Except.bind_eq_ok.mp h
      cases he
      have hgroup : GroupMeets content below owner items (name, paths) ↔
          RelationRecovers content relation (!paths.isEmpty) items ∧
            ((paths.isEmpty || (results.flatMap Result.items).isEmpty) = true ∨
              below relation.target (results.flatMap Result.items) paths) := by
        simp only [GroupMeets, hrelation, Option.some.injEq, forall_eq', hresults, Except.ok.injEq]
      rw [hgroup, ← group_eq_iff hbelow hresults hnested, ← ih hrest, Except.bind_eq_ok]
      constructor
      · rintro ⟨results', hpreload, h⟩
        obtain ⟨nested', hnested', h⟩ := Except.bind_eq_ok.mp h
        obtain ⟨rest', hrest', he⟩ := Except.bind_eq_ok.mp h
        cases he
        exact ⟨⟨hpreload, hnested'⟩, hrest'⟩
      · rintro ⟨⟨hpreload, hnested'⟩, hrest'⟩
        exact ⟨results, hpreload, Except.bind_eq_ok.mpr ⟨nested, hnested',
          Except.bind_eq_ok.mpr ⟨rest, hrest', rfl⟩⟩⟩

theorem modelResultSnapshots_eq_ok {items : List Item} :
    modelResultSnapshots items = .ok () ↔ (items.map Item.entity).Nodup := by
  rw [modelResultSnapshots]
  split
  · next h => exact iff_of_true rfl h
  · next h =>
    refine iff_of_false ?_ h
    intro he
    cases he

/-- The induction is on the length of the paths: a path is walked one relation further for the rows
that its first relation led to. -/
theorem preloadIncludes_eq_iff {depth : Nat} {model : Units} {items : List Item}
    {includes : List (List Units)} {loads : Loads}
    (h : resolveIncludes content depth model items includes = .ok loads) :
    preloadIncludes content depth model items includes = .ok loads ↔
      Meets content depth model items includes := by
  induction depth generalizing model items includes loads with
  | zero => exact iff_of_true h trivial
  | succ depth ih =>
    rw [resolveIncludes] at h
    rw [preloadIncludes, Meets]
    split at h
    · next hdone =>
      rw [if_pos hdone]
      exact iff_of_true h (.inl hdone)
    · next hmore =>
      rw [if_neg hmore, or_iff_right hmore, ← modelResultSnapshots_eq_ok, Except.bind_eq_ok]
      have hgroups := loadGroups_eq_iff (fun _ _ _ _ => ih) h
      rw [← hgroups]
      constructor
      · rintro ⟨_, hsnapshots, hloads⟩
        exact ⟨hsnapshots, hloads⟩
      · rintro ⟨hsnapshots, hloads⟩
        exact ⟨(), hsnapshots, hloads⟩

end

/-! ## Posts of one author -/

/-- A store that compares the scalars themselves. -/
def scalarSelects (field : Units) (value : Data) : Except RelationError (Item → Bool) :=
  (portableScalarKey value).map fun key row =>
    match fieldValue row.data field >>= portableScalarKey with
    | .ok other => other = key
    | .error _ => false

/-- Posts with an author, who works for a company. -/
def blogModel (model : Units) : ModelMeta Unit where
  idField := ofString "id"
  relations :=
    if model = ofString "Post" then
      [(ofString "author", ⟨.one, ofString "User", ofString "authorId", ofString "id", [], none⟩)]
    else if model = ofString "User" then
      [(ofString "company", ⟨.one, ofString "Company", ofString "companyId", ofString "id", [], none⟩)]
    else []
  ancestor := none
  ancestorFields := none

def blogUser : Item :=
  ⟨1, .object [(ofString "id", .string (ofString "u1")), (ofString "companyId", .string (ofString "c1"))]⟩

def blogCompany : Item := ⟨2, .object [(ofString "id", .string (ofString "c1"))]⟩

def blogRows (model : Units) : List Item :=
  if model = ofString "User" then [blogUser]
  else if model = ofString "Company" then [blogCompany]
  else []

def blog : Content Unit where
  model := blogModel
  rows := blogRows
  selects _ := scalarSelects
  selects_key _ field a b key ha hb := by rw [scalarSelects, scalarSelects, ha, hb]
  under _ _ _ := true
  get model _ id := (scalarSelects (ofString "id") id).map fun select => (blogRows model).find? select
  selectable _ _ := true

def blogPost (entity : Nat) : Item := ⟨entity, .object [(ofString "authorId", .string (ofString "u1"))]⟩

def authorCompany : List (List Units) := [[ofString "author", ofString "company"]]

end ActiveTs.Query.Relations
