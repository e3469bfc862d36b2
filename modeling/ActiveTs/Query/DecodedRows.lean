import ActiveTs.Query.FieldTypes

/-! # Rows as a read decodes them

The declared fields of a model and its id are apart from each other, so picking fields and decoding
dates change each field by itself. A read of some fields gives at each of them the stored value, dates
decoded. -/

namespace ActiveTs.Query

open Utf16 (Units ofString encode)
open Cursors (assertSafeFieldPath dot)

/-! ## Models -/

/-- What reads use of a model: its id field and its field types, with `fieldTypes` as a map. -/
structure ResolvedModelMeta where
  idField : Units
  fieldTypes : List (Units × FieldType)
  nodup : (fieldTypes.map Prod.fst).Nodup
  safe : ∀ field ∈ idField :: fieldTypes.map Prod.fst, assertSafeFieldPath field = .ok field
  /-- `assertNoOverlappingFieldPaths` -/
  noOverlap : ∀ parent ∈ idField :: fieldTypes.map Prod.fst,
    ∀ child ∈ idField :: fieldTypes.map Prod.fst, ¬parent ++ [dot] <+: child

def ResolvedModelMeta.fields (model : ResolvedModelMeta) : List Units :=
  model.idField :: model.fieldTypes.map Prod.fst

theorem intercalate_append {A R : List Units} (hA : A ≠ []) (hR : R ≠ []) :
    [dot].intercalate (A ++ R) = [dot].intercalate A ++ dot :: [dot].intercalate R := by
  induction A with
  | nil => exact absurd rfl hA
  | cons a A ih =>
    cases A with
    | nil =>
      rw [List.singleton_append, List.intercalate_cons_of_ne_nil hR, List.intercalate_singleton,
        List.append_assoc, List.singleton_append]
    | cons b A =>
      rw [List.cons_append, List.intercalate_cons_of_ne_nil (by simp),
        List.intercalate_cons_of_ne_nil (List.cons_ne_nil b A), ih (List.cons_ne_nil b A),
        List.append_assoc, List.append_assoc, List.append_assoc]

/-- Parts in front of others are those of a path that the other lies under. -/
theorem path_prefix_of_parts {a b : Units} (hne : a ≠ b) (h : partsOf a <+: partsOf b) :
    a ++ [dot] <+: b := by
  obtain ⟨rest, hrest⟩ := h
  have hparts : partsOf a ≠ [] := List.splitOn_ne_nil _ _
  have hb : b = [dot].intercalate (partsOf a ++ rest) := by
    rw [hrest]
    exact (List.intercalate_splitOn dot).symm
  have ha : a = [dot].intercalate (partsOf a) := (List.intercalate_splitOn dot).symm
  cases rest with
  | nil =>
    rw [List.append_nil, ← ha] at hb
    exact absurd hb.symm hne
  | cons part rest =>
    rw [intercalate_append hparts (List.cons_ne_nil _ _), ← ha] at hb
    rw [hb]
    exact ⟨[dot].intercalate (part :: rest), by rw [List.append_assoc]; rfl⟩

namespace ResolvedModelMeta
variable {model : ResolvedModelMeta}

theorem apart {a b : Units} (ha : a ∈ model.fields) (hb : b ∈ model.fields) (hne : a ≠ b) :
    Apart (partsOf a) (partsOf b) :=
  ⟨fun h => model.noOverlap a ha b hb (path_prefix_of_parts hne h),
    fun h => model.noOverlap b hb a ha (path_prefix_of_parts hne.symm h)⟩

theorem safePath_eq {field : Units} (h : field ∈ model.fields) : safePath field = .ok (partsOf field) := by
  rw [safePath, model.safe field h]
  rfl

theorem valueFor_eq {field : Units} (h : field ∈ model.fields) (data : Data) :
    valueFor data field = data.valueAt [] (partsOf field) := by
  rw [valueFor, model.safePath_eq h]
  rfl

theorem setPath_eq {field : Units} (h : field ∈ model.fields) (target : List (Units × Data))
    (value : Data) : setPath target field value = setAt value (partsOf field) target := by
  rw [setPath, model.safePath_eq h]
  rfl

end ResolvedModelMeta

section
variable {model : ResolvedModelMeta}

/-- What one write at a field does. -/
structure Written (model : ResolvedModelMeta) (field : Units) (value : Data)
    (before after : List (Units × Data)) : Prop where
  set : setPath before field value = .ok after
  same : valueFor (.object after) field = .ok value
  others : ∀ other ∈ model.fields, other ≠ field →
    valueFor (.object after) other = valueFor (.object before) other
  reaches_same : reaches (partsOf field) after
  reaches_others : ∀ other ∈ model.fields, other ≠ field →
    reaches (partsOf other) before → reaches (partsOf other) after

theorem exists_written {field : Units} {before : List (Units × Data)} (hfield : field ∈ model.fields)
    (h : reaches (partsOf field) before) (value : Data) :
    ∃ after, Written model field value before after := by
  obtain ⟨after, hset⟩ := setAt_of_reaches h value
  refine ⟨after, ?_, ?_, ?_, ?_, ?_⟩
  · rw [model.setPath_eq hfield, hset]
  · rw [model.valueFor_eq hfield]
    exact valueAt_setAt hset (List.splitOn_ne_nil _ _) []
  · intro other hother hne
    rw [model.valueFor_eq hother, model.valueFor_eq hother]
    exact valueAt_setAt_apart hset (model.apart hfield hother hne.symm) []
  · exact reaches_setAt hset
  · intro other hother hne hreaches
    exact reaches_setAt_apart hset (model.apart hfield hother hne.symm) hreaches

/-! ## Picking fields -/

/-- What is picked has the fields that are done and nothing of the others. -/
structure Picked (model : ResolvedModelMeta) (data : Data) (done : List Units)
    (picked : List (Units × Data)) : Prop where
  got : ∀ field ∈ done, valueFor (.object picked) field = valueFor data field
  rest : ∀ field ∈ model.fields, field ∉ done → valueFor (.object picked) field = .ok .undefined
  reach : ∀ field ∈ model.fields, reaches (partsOf field) picked

theorem picked_nil (data : Data) : Picked model data [] [] where
  got := by
    intro field hfield
    cases hfield
  rest := by
    intro field hfield _
    rw [model.valueFor_eq hfield]
    have hparts : partsOf field ≠ [] := List.splitOn_ne_nil _ _
    obtain ⟨k, path, hcons⟩ := List.exists_cons_of_ne_nil hparts
    rw [hcons]
    exact valueAt_empty [] k path
  reach := fun field _ => reaches_empty (partsOf field)

theorem Picked.step {data : Data} {done : List Units} {picked after : List (Units × Data)}
    (h : Picked model data done picked) {field : Units} {value : Data} (hfield : field ∈ model.fields)
    (hdone : ∀ field ∈ done, field ∈ model.fields)
    (hvalue : valueFor data field = .ok value) (hwritten : Written model field value picked after) :
    Picked model data (field :: done) after where
  got := by
    intro other hother
    by_cases hne : other = field
    · rw [hne, hwritten.same, hvalue]
    · rcases List.mem_cons.mp hother with rfl | hother
      · exact absurd rfl hne
      · rw [hwritten.others other (hdone other hother) hne]
        exact h.got other hother
  rest := by
    intro other hother hnot
    rw [List.mem_cons, not_or] at hnot
    rw [hwritten.others other hother hnot.1]
    exact h.rest other hother hnot.2
  reach := by
    intro other hother
    by_cases hne : other = field
    · rw [hne]
      exact hwritten.reaches_same
    · exact hwritten.reaches_others other hother hne (h.reach other hother)

/-- A field without a value is left out. -/
theorem Picked.skip {data : Data} {done : List Units} {picked : List (Units × Data)}
    (h : Picked model data done picked) {field : Units} (hfield : field ∈ model.fields)
    (hvalue : valueFor data field = .ok .undefined) : Picked model data (field :: done) picked where
  got := by
    intro other hother
    by_cases hmem : other ∈ done
    · exact h.got other hmem
    · rcases List.mem_cons.mp hother with rfl | hother
      · rw [hvalue]
        exact h.rest other hfield hmem
      · exact absurd hother hmem
  rest := by
    intro other hother hnot
    rw [List.mem_cons, not_or] at hnot
    exact h.rest other hother hnot.2
  reach := h.reach

theorem pickInto_picked {data : Data} {fields done : List Units} {picked : List (Units × Data)}
    (hfields : ∀ field ∈ fields, field ∈ model.fields) (hdone : ∀ field ∈ done, field ∈ model.fields)
    (hvalues : ∀ field ∈ model.fields, ∃ value, valueFor data field = .ok value)
    (h : Picked model data done picked) :
    ∃ picked', pickInto data fields picked = .ok picked' ∧
      Picked model data (fields.reverse ++ done) picked' := by
  induction fields generalizing done picked with
  | nil => exact ⟨picked, rfl, h⟩
  | cons field fields ih =>
    rw [List.forall_mem_cons] at hfields
    have hdone' : ∀ other ∈ field :: done, other ∈ model.fields :=
      List.forall_mem_cons.mpr ⟨hfields.1, hdone⟩
    rw [List.reverse_cons, List.append_assoc, List.singleton_append, pickInto]
    obtain ⟨value, hvalue⟩ := hvalues field hfields.1
    rw [hvalue]
    change ∃ picked', (if value.defined then _ else _) = _ ∧ _
    by_cases hdefined : value.defined = true
    · rw [if_pos hdefined]
      obtain ⟨after, hwritten⟩ := exists_written hfields.1 (h.reach field hfields.1) value
      rw [hwritten.set]
      exact ih hfields.2 hdone' (h.step hfields.1 hdone hvalue hwritten)
    · rw [if_neg hdefined]
      have hundefined : value = .undefined := by
        cases value with
        | undefined => rfl
        | null => exact absurd rfl hdefined
        | boolean value => exact absurd rfl hdefined
        | number value => exact absurd rfl hdefined
        | string value => exact absurd rfl hdefined
        | date time => exact absurd rfl hdefined
        | array items => exact absurd rfl hdefined
        | object properties => exact absurd rfl hdefined
      rw [hundefined] at hvalue
      exact ih hfields.2 hdone' (h.skip hfields.1 hvalue)

theorem pickFields_picked {data : Data} {fields : List Units}
    (hfields : ∀ field ∈ fields, field ∈ model.fields)
    (hvalues : ∀ field ∈ model.fields, ∃ value, valueFor data field = .ok value) :
    ∃ picked done, pickFields data fields model.idField = .ok picked ∧ Picked model data done picked ∧
      (∀ field ∈ model.idField :: fields, field ∈ done) ∧ ∀ field ∈ done, field ∈ model.fields := by
  have hid : model.idField ∈ model.fields := List.mem_cons_self
  have hselected : ∀ field ∈ withIdField fields model.idField, field ∈ model.fields := by
    intro field hfield
    rw [withIdField, List.mem_eraseDups] at hfield
    exact List.forall_mem_cons.mpr ⟨hid, hfields⟩ field hfield
  obtain ⟨id, hvalue⟩ := hvalues model.idField hid
  have hnil := @picked_nil model data
  obtain ⟨after, hwritten⟩ := exists_written hid (hnil.reach model.idField hid) id
  have hfirst := hnil.step hid (by simp) hvalue hwritten
  obtain ⟨picked, hpick, hpicked⟩ := pickInto_picked hselected
    (List.forall_mem_cons.mpr ⟨hid, by simp⟩) hvalues hfirst
  refine ⟨picked, _, ?_, hpicked, ?_, ?_⟩
  · rw [pickFields, hvalue]
    change setPath [] model.idField id >>= _ = _
    rw [hwritten.set]
    exact hpick
  · intro field hfield
    rw [List.mem_append, List.mem_reverse, withIdField, List.mem_eraseDups]
    exact Or.inl hfield
  · intro field hfield
    rcases List.mem_append.mp hfield with hfield | hfield
    · exact hselected field (List.mem_reverse.mp hfield)
    · rw [List.mem_singleton.mp hfield]
      exact hid

end

/-! ## Decoding dates -/

section
variable (dates : DateParser)

/-- The values that may be stored at a field of some type. -/
inductive Stored : FieldType → Data → Prop
  | missing {type : FieldType} {value : Data} (h : value.missing = true) : Stored type value
  | string (value : Units) : Stored .string (.string value)
  | boolean (value : Bool) : Stored .boolean (.boolean value)
  | number (value : JsNumber) (h : Cursors.isFinite value = true) : Stored .number (.number value)
  | date {value iso : Units} (h : normalizeDateString dates value = .ok iso) :
      Stored .date (.string value)

/-- A stored value and what a read makes of it. -/
inductive Decodes : FieldType → Data → Data → Prop
  | missing {type : FieldType} {value : Data} (h : value.missing = true) : Decodes type value value
  | string (value : Units) : Decodes .string (.string value) (.string value)
  | boolean (value : Bool) : Decodes .boolean (.boolean value) (.boolean value)
  | number (value : JsNumber) (h : Cursors.isFinite value = true) :
      Decodes .number (.number value) (.number value)
  | date {value iso : Units} {time : JsDate.Time} (h : normalizeDateString dates value = .ok iso)
      (hstored : StoredDate value time) : Decodes .date (.string value) (.date time)

/-- A row whose date fields that hold a date can be written. -/
def Opens (types : List (Units × FieldType)) (row : List (Units × Data)) : Prop :=
  ∀ field, (field, FieldType.date) ∈ types → ∀ value, valueFor (.object row) field = .ok value →
    value.missing = false → reaches (partsOf field) row

variable {dates} {model : ResolvedModelMeta}

theorem Stored.decodes_of_ne {type : FieldType} {value : Data} (h : Stored dates type value)
    (hne : type ≠ .date) : Decodes dates type value value := by
  cases h with
  | missing h => exact .missing h
  | string value => exact .string value
  | boolean value => exact .boolean value
  | number value h => exact .number value h
  | date h => exact absurd rfl hne

theorem applyFieldTypeTransforms_decodes {types : List (Units × FieldType)} {row : List (Units × Data)}
    (htypes : ∀ entry ∈ types, entry.1 ∈ model.fields) (hnodup : (types.map Prod.fst).Nodup)
    (hstored : ∀ entry ∈ types, ∃ value, valueFor (.object row) entry.1 = .ok value ∧
      Stored dates entry.2 value)
    (hopens : Opens types row) :
    ∃ row', applyFieldTypeTransforms dates types row = .ok row' ∧
      (∀ entry ∈ types, ∃ value value', valueFor (.object row) entry.1 = .ok value ∧
        valueFor (.object row') entry.1 = .ok value' ∧ Decodes dates entry.2 value value') ∧
      ∀ other ∈ model.fields, other ∉ types.map Prod.fst →
        valueFor (.object row') other = valueFor (.object row) other := by
  induction types generalizing row with
  | nil =>
    refine ⟨row, rfl, ?_, fun _ _ _ => rfl⟩
    intro entry hentry
    cases hentry
  | cons entry types ih =>
    obtain ⟨field, type⟩ := entry
    rw [List.forall_mem_cons] at htypes hstored
    rw [List.map_cons, List.nodup_cons] at hnodup
    obtain ⟨⟨value, hvalue, hvalueStored⟩, hstored⟩ := hstored
    -- A field that is not changed.
    have hkeep (hdecodes : Decodes dates type value value) :
        ∃ row', applyFieldTypeTransforms dates types row = .ok row' ∧
          (∀ entry ∈ (field, type) :: types, ∃ value value', valueFor (.object row) entry.1 = .ok value ∧
            valueFor (.object row') entry.1 = .ok value' ∧ Decodes dates entry.2 value value') ∧
          ∀ other ∈ model.fields, other ∉ ((field, type) :: types).map Prod.fst →
            valueFor (.object row') other = valueFor (.object row) other := by
      obtain ⟨row', hrow', hdecoded, hothers⟩ := ih htypes.2 hnodup.2 hstored
        fun other hother => hopens other (List.mem_cons_of_mem _ hother)
      refine ⟨row', hrow', List.forall_mem_cons.mpr ⟨⟨value, value, hvalue, ?_, hdecodes⟩, hdecoded⟩, ?_⟩
      · rw [hothers field htypes.1 hnodup.1, hvalue]
      · intro other hother hnot
        rw [List.map_cons, List.mem_cons, not_or] at hnot
        exact hothers other hother hnot.2
    rw [applyFieldTypeTransforms]
    by_cases htype : type = .date
    · subst htype
      rw [if_neg (not_not.mpr rfl), hvalue]
      change ∃ row', (if value.missing then _ else _) = _ ∧ _
      by_cases hmissing : value.missing = true
      · rw [if_pos hmissing]
        exact hkeep (.missing hmissing)
      · rw [if_neg hmissing]
        cases hvalueStored with
        | missing h => exact absurd h hmissing
        | @date text iso hdate =>
          obtain ⟨time, htime, hruntime⟩ := normalizeDateRuntimeValue_stored hdate
          have hreach := hopens field List.mem_cons_self _ hvalue rfl
          obtain ⟨after, hwritten⟩ := exists_written htypes.1 hreach (.date time)
          rw [hruntime]
          change ∃ row', ((setPath row field (.date time)).mapError FieldTypeError.data >>= fun next =>
            applyFieldTypeTransforms dates types next) = _ ∧ _
          rw [hwritten.set]
          have hne : ∀ entry ∈ types, entry.1 ≠ field := by
            rintro entry hentry rfl
            exact hnodup.1 (List.mem_map.mpr ⟨entry, hentry, rfl⟩)
          have hsame : ∀ entry ∈ types,
              valueFor (.object after) entry.1 = valueFor (.object row) entry.1 := by
            intro entry hentry
            exact hwritten.others entry.1 (htypes.2 entry hentry) (hne entry hentry)
          obtain ⟨row', hrow', hdecoded, hothers⟩ := @ih after htypes.2 hnodup.2
            (by
              intro entry hentry
              rw [hsame entry hentry]
              exact hstored entry hentry)
            (by
              intro other hother other_value hother_value hother_missing
              rw [hsame _ hother] at hother_value
              exact hwritten.reaches_others other (htypes.2 _ hother) (hne _ hother)
                (hopens other (List.mem_cons_of_mem _ hother) other_value hother_value hother_missing))
          refine ⟨row', hrow', ?_, ?_⟩
          · refine List.forall_mem_cons.mpr ⟨⟨_, .date time, hvalue, ?_, .date hdate htime⟩, ?_⟩
            · rw [hothers field htypes.1 hnodup.1]
              exact hwritten.same
            · intro entry hentry
              rw [← hsame entry hentry]
              exact hdecoded entry hentry
          · intro other hother hnot
            rw [List.map_cons, List.mem_cons, not_or] at hnot
            rw [hothers other hother hnot.2]
            exact hwritten.others other hother hnot.1
    · rw [if_pos htype]
      exact hkeep (hvalueStored.decodes_of_ne htype)

end

end ActiveTs.Query
