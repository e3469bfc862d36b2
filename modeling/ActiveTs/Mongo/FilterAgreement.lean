import ActiveTs.Mongo.Filters

/-! # Agreement of filters with plans

A filter knows of a field only the values that its path reaches. Where these show the scalars and the
items that `valueFor` reads, and texts are ordered alike by bytes and by code units, the filter of a
plan matches the documents that `matchesPlan` accepts; elsewhere some plan tells them apart. -/

namespace ActiveTs.Mongo

open ActiveTs.Query (Operator WhereEntry Plan)
open ActiveTs.Sql (Json JsString PortableError valueFor segments)

/-! ## What a path shows -/

/-- Beyond the safe numbers no operand tells numbers apart. -/
def clamp : Sql.Scalar Text → Sql.Scalar Text
  | .number value =>
    if 9007199254740991 < value then .number 9007199254740992
    else if value < -9007199254740991 then .number (-9007199254740992)
    else .number value
  | value => value

theorem clamp_number (value : ℚ) : clamp (.number value) =
    if 9007199254740991 < value then .number 9007199254740992
    else if value < -9007199254740991 then .number (-9007199254740992)
    else .number value := rfl

/-- Some operand is the scalar. -/
def nameable : Sql.Scalar Text → Bool
  | .number value => safeNumber value
  | _ => true

def Present (found : List (Option Value)) : Prop := ∃ value ∈ found, value.isSome = true

def HasArray (found : List (Option Value)) : Prop := ∃ value ∈ found, isArray value = true

def ScalarAt (found : List (Option Value)) (c : Sql.Scalar Text) : Prop :=
  Present found ∧ ¬ HasArray found ∧ ∃ value ∈ found, (scalarOf value).map clamp = some c

def ItemAt (found : List (Option Value)) (c : Sql.Scalar Text) : Prop :=
  nameable c = true ∧ ∃ value ∈ found, ∃ item ∈ itemsOf value, item.scalar = some c

/-- What a path reaches shows the value that the application reads, and its texts are compared alike. -/
structure Shown (found : List (Option Value)) (value : Option Value) : Prop where
  present : Present found ↔ value.isSome = true
  scalars : ∀ c, ScalarAt found c ↔ ScalarAt [value] c
  items : ∀ c, ItemAt found c ↔ ItemAt [value] c
  text : ∀ text, value = some (.string text) → Utf8.Low text
  itemText : ∀ text, Json.string text ∈ itemsOf value → Utf8.replacement ∉ text

variable {found : List (Option Value)} {value : Option Value}

theorem fieldExists_holds (expected : Bool) :
    (Predicate.fieldExists expected).holds found = true ↔ (Present found ↔ expected = true) := by
  have hany : found.any Option.isSome = true ↔ Present found := List.any_eq_true
  rw [Predicate.holds_fieldExists, beq_iff_eq, Bool.eq_iff_iff, hany]

theorem isArray_holds : Predicate.isArray.holds found = true ↔ HasArray found := by
  rw [Predicate.holds_isArray, List.any_eq_true]
  constructor
  · rintro ⟨leaf, hleaf, harray⟩
    obtain ⟨value, hvalue, hmem⟩ := List.mem_flatMap.mp hleaf
    refine ⟨value, hvalue, ?_⟩
    rcases List.mem_append.mp hmem with hmem | hmem
    · -- Only an array has items.
      obtain ⟨item, hitem, -⟩ := List.mem_map.mp hmem
      cases value with
      | none => cases hitem
      | some value => cases value <;> first | rfl | cases hitem
    · rwa [← List.mem_singleton.mp hmem]
  · rintro ⟨value, hvalue, harray⟩
    exact ⟨value, List.mem_flatMap.mpr ⟨value, hvalue, List.mem_append_right _ List.mem_cons_self⟩,
      harray⟩

theorem expand_of_not_isArray (h : isArray value = false) : expand value = [value] := by
  cases value with
  | none => rfl
  | some value => cases value <;> first | rfl | cases h

theorem value_holds (harray : ¬ HasArray found) (test : ValueTest) :
    (Predicate.value test).holds found = true ↔ ∃ value ∈ found, test.holds value = true := by
  have hexpand : found.flatMap expand = found := by
    conv_rhs => rw [← List.flatMap_singleton' found]
    apply List.flatMap_congr
    intro value hvalue
    apply expand_of_not_isArray
    rw [← Bool.not_eq_true]
    exact fun h => harray ⟨value, hvalue, h⟩
  rw [Predicate.holds_value, hexpand, List.any_eq_true]

theorem not_holds (predicate : Predicate) :
    predicate.not.holds found = true ↔ ¬ predicate.holds found = true := by
  rw [Predicate.holds_not, Bool.not_eq_true', Bool.not_eq_true]

/-- A guarded condition looks at scalars only. -/
theorem scalarFieldCondition_matches {document : Document} {path : List String}
    {condition : List Predicate} (hfound : reach path (.object document) = found) :
    (mongoScalarFieldCondition path condition).matchesDocument document = true ↔
      Present found ∧ ¬ HasArray found ∧ ∀ predicate ∈ condition, predicate.holds found = true := by
  rw [mongoScalarFieldCondition, matchesDocument_and]
  simp only [List.all_cons, List.all_nil, Bool.and_true, Bool.and_eq_true, matchesDocument_field,
    hfound, fieldExists_holds, not_holds, isArray_holds, List.all_eq_true, iff_true]

/-- What is not excluded matches with every array. -/
theorem excludingCondition_matches {document : Document} {path : List String} {test : ValueTest}
    (hfound : reach path (.object document) = found) :
    (Filter.or [.field path [.isArray],
      mongoScalarFieldCondition path [.not (.value test)]]).matchesDocument document = true ↔
      Present found ∧ ¬ (Present found ∧ ¬ HasArray found ∧
        (Predicate.value test).holds found = true) := by
  have harray : HasArray found → Present found := by
    rintro ⟨leaf, hleaf, hitems⟩
    cases leaf with
    | none => cases hitems
    | some leaf => exact ⟨_, hleaf, rfl⟩
  rw [matchesDocument_or]
  simp only [List.any_cons, List.any_nil, Bool.or_false, Bool.or_eq_true, matchesDocument_field,
    List.all_cons, List.all_nil, Bool.and_true, hfound, isArray_holds,
    scalarFieldCondition_matches hfound, List.forall_mem_singleton, not_holds]
  tauto

theorem nullCondition_matches {document : Document} {path : List String}
    (hfound : reach path (.object document) = found) :
    (mongoNullFieldCondition path).matchesDocument document = true ↔
      ¬ Present found ∨ Present found ∧ ¬ HasArray found ∧
        (Predicate.value (.compare .eq (.scalar .null))).holds found = true := by
  rw [mongoNullFieldCondition, matchesDocument_or]
  simp only [List.any_cons, List.any_nil, Bool.or_false, Bool.or_eq_true, matchesDocument_field,
    List.all_cons, List.all_nil, Bool.and_true, hfound, fieldExists_holds, Bool.false_eq_true,
    iff_false, scalarFieldCondition_matches hfound, List.forall_mem_singleton]

/-! ## Tests of scalars -/

/-- The test does not tell apart what no operand tells apart. -/
def Coarse (test : ValueTest) : Prop := ∀ c, test.onScalar (clamp c) = test.onScalar c

theorem compareScalars_clamp {c d : Sql.Scalar Text} (hd : nameable d = true) :
    compareScalars (clamp c) d = compareScalars c d := by
  cases c with
  | number value =>
    cases d with
    | number operand =>
      simp only [nameable, safeNumber, Bool.and_eq_true, decide_eq_true_iff] at hd
      rw [clamp_number]
      split
      · next h =>
        have hleft : compare (9007199254740992 : ℚ) operand = .gt :=
          compare_gt_iff_gt.mpr (lt_of_le_of_lt hd.2 (by norm_num))
        have hright : compare value operand = .gt := compare_gt_iff_gt.mpr (lt_of_le_of_lt hd.2 h)
        rw [compareScalars, compareScalars, hleft, hright]
      · split
        · next h =>
          have hleft : compare (-9007199254740992 : ℚ) operand = .lt :=
            compare_lt_iff_lt.mpr (lt_of_lt_of_le (by norm_num) hd.1)
          have hright : compare value operand = .lt := compare_lt_iff_lt.mpr (lt_of_lt_of_le h hd.1)
          rw [compareScalars, compareScalars, hleft, hright]
        · rfl
    | null => rw [clamp_number]; split <;> first | rfl | (split <;> rfl)
    | bool value => rw [clamp_number]; split <;> first | rfl | (split <;> rfl)
    | string text => rw [clamp_number]; split <;> first | rfl | (split <;> rfl)
  | null => rfl
  | bool value => rfl
  | string text => rfl

theorem compareConstant_clamp {o : Constant JsString} (ho : portableConstant o = true)
    (c : Sql.Scalar Text) :
    compareConstant (clamp c) (sendConstant o) = compareConstant c (sendConstant o) := by
  cases o with
  | date time => rfl
  | scalar operand =>
    apply compareScalars_clamp
    cases operand with
    | number value => exact ho
    | null => rfl
    | bool value => rfl
    | string units => rfl

theorem coarse_compare {o : Constant JsString} (ho : portableConstant o = true)
    (operator : Comparison) : Coarse (.compare operator (sendConstant o)) := by
  intro c
  rw [ValueTest.onScalar_compare, ValueTest.onScalar_compare, compareConstant_clamp ho]

theorem coarse_in {os : List (Constant JsString)} (hos : os.all portableConstant = true) :
    Coarse (.in (os.map sendConstant)) := by
  intro c
  rw [ValueTest.onScalar_in, ValueTest.onScalar_in, List.any_map, List.any_map, Bool.eq_iff_iff,
    List.any_eq_true, List.any_eq_true]
  apply exists_congr
  intro o
  apply and_congr_right
  intro ho
  rw [Function.comp_apply, Function.comp_apply,
    compareConstant_clamp (List.all_eq_true.mp hos o ho)]

theorem coarse_of_number {test : ValueTest} (h : ∀ value, test.onScalar (.number value) = false) :
    Coarse test := by
  intro c
  cases c with
  | number value =>
    rw [clamp_number]
    split
    · rw [h, h]
    · split
      · rw [h, h]
      · rfl
  | null => rfl
  | bool value => rfl
  | string text => rfl

/-- A guarded test is a test of the scalars that are shown. -/
theorem exists_scalarAt {test : ValueTest} (htest : Coarse test) :
    (Present found ∧ ¬ HasArray found ∧ (Predicate.value test).holds found = true) ↔
      ∃ c, ScalarAt found c ∧ test.onScalar c = true := by
  constructor
  · rintro ⟨hpresent, harray, hholds⟩
    obtain ⟨value, hvalue, htrue⟩ := (value_holds harray test).mp hholds
    obtain ⟨c, hc, htrue⟩ := Option.any_eq_true _ _ |>.mp htrue
    refine ⟨clamp c, ⟨hpresent, harray, value, hvalue, ?_⟩, ?_⟩
    · rw [hc, Option.map_some]
    · rwa [htest]
  · rintro ⟨c, ⟨hpresent, harray, value, hvalue, hc⟩, htrue⟩
    refine ⟨hpresent, harray, (value_holds harray test).mpr ⟨value, hvalue, ?_⟩⟩
    obtain ⟨d, hd, rfl⟩ := Option.map_eq_some_iff.mp hc
    rw [ValueTest.holds, hd, Option.any_some, ← htest]
    exact htrue

/-- The value that is read shows its own scalar. -/
theorem scalarAt_singleton (c : Sql.Scalar Text) :
    ScalarAt [value] c ↔ ∃ d, value.bind Json.scalar = some d ∧ clamp d = c := by
  cases value with
  | none =>
    constructor
    · rintro ⟨⟨value, hmem, hsome⟩, -⟩
      rw [List.mem_singleton.mp hmem] at hsome
      cases hsome
    · rintro ⟨d, hd, -⟩
      cases hd
  | some value =>
    rw [Option.bind_some]
    constructor
    · rintro ⟨-, -, leaf, hmem, hleaf⟩
      rw [List.mem_singleton.mp hmem] at hleaf
      exact Option.map_eq_some_iff.mp hleaf
    · rintro ⟨d, hd, rfl⟩
      refine ⟨⟨_, List.mem_cons_self, rfl⟩, ?_, _, List.mem_cons_self, ?_⟩
      · rintro ⟨leaf, hmem, harray⟩
        rw [List.mem_singleton.mp hmem] at harray
        cases value with
        | array items => cases hd
        | null => cases harray
        | bool value => cases harray
        | integer value => cases harray
        | real value => cases harray
        | string text => cases harray
        | object fields => cases harray
      · rw [scalarOf, hd, Option.map_some]

/-- A guarded test is a test of the scalar that is read. -/
theorem guarded_test (hscalars : ∀ c, ScalarAt found c ↔ ScalarAt [value] c) {test : ValueTest}
    (htest : Coarse test) :
    (Present found ∧ ¬ HasArray found ∧ (Predicate.value test).holds found = true) ↔
      (value.bind Json.scalar).any test.onScalar = true := by
  rw [exists_scalarAt htest, Option.any_eq_true]
  constructor
  · rintro ⟨c, hc, htrue⟩
    obtain ⟨d, hd, rfl⟩ := (scalarAt_singleton c).mp ((hscalars c).mp hc)
    exact ⟨d, hd, htest d ▸ htrue⟩
  · rintro ⟨d, hd, htrue⟩
    refine ⟨clamp d, (hscalars _).mpr ((scalarAt_singleton _).mpr ⟨d, hd, rfl⟩), ?_⟩
    rwa [htest]

/-! ## Tests of what is read -/

theorem eq_accepts {order : Option Ordering} :
    order.any Comparison.eq.accepts = true ↔ order = some .eq := by
  cases order with
  | none => simp
  | some order => simp [Comparison.accepts]

/-- A text without replacements is sent as it is read. -/
theorem readScalar_eq_iff {c : Sql.Scalar Text}
    (hc : ∀ text, c = .string text → Utf8.replacement ∉ text) (operand : Sql.Scalar JsString) :
    readScalar c = operand ↔ sendScalar operand = c := by
  cases c <;> cases operand <;> simp only [readScalar, sendScalar, reduceCtorEq,
    Sql.Scalar.bool.injEq, Sql.Scalar.number.injEq, Sql.Scalar.string.injEq]
  · exact eq_comm
  · exact eq_comm
  · next text units =>
    rw [← Utf8.decode_eq_iff (hc text rfl)]
    exact eq_comm

theorem strictEqual_eq {o : Constant JsString}
    (htext : ∀ text, value = some (.string text) → Utf8.replacement ∉ text) :
    strictEqual value (.constant o) =
      (value.bind Json.scalar).any (ValueTest.compare .eq (sendConstant o)).onScalar := by
  have hscalar : ∀ c, value.bind Json.scalar = some c →
      ∀ text, c = .string text → Utf8.replacement ∉ text := by
    rintro c hc text rfl
    cases value with
    | none => cases hc
    | some value =>
      cases value <;> cases hc
      exact htext _ rfl
  cases o with
  | date time =>
    cases value.bind Json.scalar <;> rfl
  | scalar operand =>
    rw [strictEqual, rowScalar, Bool.eq_iff_iff, decide_eq_true_iff]
    cases hbind : value.bind Json.scalar with
    | none => simp
    | some c =>
      rw [Option.map_some, Option.some.injEq, Option.any_some,
        ValueTest.onScalar_compare, eq_accepts, compareConstant_eq, sendConstant, Constant.scalar.injEq, readScalar_eq_iff (hscalar c hbind)]

/-- Below the surrogates the two orders agree. -/
theorem compareRangeValues_eq {o : Constant JsString}
    (htext : ∀ text, value = some (.string text) → Utf8.Low text)
    (ho : (comparableKind (.constant o)).isSome = true) :
    compareRangeValues value (.constant o) =
      (value.bind Json.scalar).bind (compareConstant · (sendConstant o)) := by
  cases value with
  | none => rfl
  | some value =>
    rw [Option.bind_some]
    cases o with
    | date time => cases value <;> rfl
    | scalar operand =>
      cases operand with
      | null => cases ho
      | bool value => cases ho
      | number operand => cases value <;> rfl
      | string units =>
        cases value with
        | string text =>
          have horder := Utf8.compareLex_decode (htext text rfl) units
          rw [← Utf8.compareLex_encode] at horder
          exact congrArg some horder.symm
        | null => rfl
        | bool value => rfl
        | integer value => rfl
        | real value => rfl
        | array items => rfl
        | object fields => rfl

theorem compareRangeValues_any {o : Constant JsString}
    (htext : ∀ text, value = some (.string text) → Utf8.Low text)
    (ho : (comparableKind (.constant o)).isSome = true) (operator : Comparison) :
    (compareRangeValues value (.constant o)).any operator.accepts =
      (value.bind Json.scalar).any (ValueTest.compare operator (sendConstant o)).onScalar := by
  rw [compareRangeValues_eq htext ho, Option.any_bind]
  rfl

theorem any_gt {order : Option Ordering} :
    decide (order = some .gt) = order.any Comparison.gt.accepts := by
  cases order with
  | none => rfl
  | some order => cases order <;> rfl

theorem any_lt {order : Option Ordering} :
    decide (order = some .lt) = order.any Comparison.lt.accepts := by
  cases order with
  | none => rfl
  | some order => cases order <;> rfl

theorem startsWith_eq {units : JsString}
    (htext : ∀ text, value = some (.string text) → Utf8.Low text) :
    startsWith value (.constant (.scalar (.string units))) =
      (value.bind Json.scalar).any (ValueTest.regex (Utf16.decode units)).onScalar := by
  cases value with
  | none => rfl
  | some value =>
    rw [Option.bind_some]
    cases value with
    | string text =>
      have hprefix := Utf8.decode_prefix_iff (htext text rfl) units
      rw [← List.isPrefixOf_iff_prefix, ← List.isPrefixOf_iff_prefix, ← Bool.eq_iff_iff] at hprefix
      exact hprefix.symm
    | null => rfl
    | bool value => rfl
    | integer value => rfl
    | real value => rfl
    | array items => rfl
    | object fields => rfl

theorem exists_constant {operand : Operand} (h : portableScalar operand = true) :
    ∃ o, operand = .constant o ∧ portableConstant o = true := by
  cases operand with
  | constant o => exact ⟨o, rfl, h⟩
  | absent => cases h
  | list values => cases h

theorem exists_range {operand : Operand} (h : rangeOperand operand = true) :
    ∃ o, operand = .constant o ∧ portableConstant o = true ∧
      (comparableKind (.constant o)).isSome = true := by
  rw [rangeOperand, Bool.and_eq_true] at h
  obtain ⟨o, rfl, ho⟩ := exists_constant h.2
  exact ⟨o, rfl, ho, h.1⟩

/-! ## Conditions -/

/-- Items are tested as they are. -/
theorem any_item_holds (leaf : Option Value) (operand : Constant Text) : (itemsOf leaf).any
    (fun item => (ValueTest.compare .eq operand).holds (some item)) = true ↔
      ∃ c, operand = .scalar c ∧ ∃ item ∈ itemsOf leaf, item.scalar = some c := by
  rw [List.any_eq_true]
  constructor
  · rintro ⟨item, hmem, hholds⟩
    obtain ⟨c, hc, htrue⟩ := Option.any_eq_true _ _ |>.mp hholds
    exact ⟨c, compareConstant_eq.mp (eq_accepts.mp htrue), item, hmem, hc⟩
  · rintro ⟨c, ho, item, hmem, hc⟩
    refine ⟨item, hmem, ?_⟩
    rw [ValueTest.holds, scalarOf, hc, Option.any_some, ValueTest.onScalar_compare, eq_accepts]
    exact compareConstant_eq.mpr ho

theorem elemMatchCondition_matches {document : Document} {path : List String}
    (hfound : reach path (.object document) = found) (operand : Constant Text) :
    (Filter.field path [.elemMatch (.compare .eq operand)]).matchesDocument document = true ↔
      ∃ c, operand = .scalar c ∧ ∃ leaf ∈ found, ∃ item ∈ itemsOf leaf, item.scalar = some c := by
  rw [matchesDocument_field, List.all_cons, List.all_nil, Bool.and_true, hfound, Predicate.holds_elemMatch,
    List.any_eq_true]
  simp only [any_item_holds]
  constructor
  · rintro ⟨leaf, hleaf, c, hc, hitems⟩
    exact ⟨c, hc, leaf, hleaf, hitems⟩
  · rintro ⟨c, hc, leaf, hleaf, hitems⟩
    exact ⟨leaf, hleaf, c, hc, hitems⟩

namespace Shown

variable {document : Document} {path : List String} (h : Shown found value)
  (hfound : reach path (.object document) = found)

include h in
theorem replacement (text : Text) (hvalue : value = some (.string text)) :
    Utf8.replacement ∉ text := (h.text text hvalue).replacement_notMem

include h hfound in
theorem scalar_matches {test : ValueTest} (htest : Coarse test) :
    (mongoScalarFieldCondition path [.value test]).matchesDocument document =
      (value.bind Json.scalar).any test.onScalar := by
  rw [Bool.eq_iff_iff, scalarFieldCondition_matches hfound, List.forall_mem_singleton,
    guarded_test h.scalars htest]

include h hfound in
/-- The tests of one condition may be met by different values that the path reaches. -/
theorem scalar_matches_both {test test' : ValueTest} (htest : Coarse test) (htest' : Coarse test') :
    (mongoScalarFieldCondition path [.value test, .value test']).matchesDocument document =
      ((value.bind Json.scalar).any test.onScalar && (value.bind Json.scalar).any test'.onScalar) := by
  rw [Bool.eq_iff_iff, Bool.and_eq_true, scalarFieldCondition_matches hfound, ← guarded_test h.scalars htest,
    ← guarded_test h.scalars htest']
  simp only [List.mem_cons, List.not_mem_nil, or_false, forall_eq_or_imp, forall_eq]
  tauto

include h in
theorem includedIn_eq (values : List (Constant JsString)) : includedIn value (.list values) =
    (value.bind Json.scalar).any (ValueTest.in (values.map sendConstant)).onScalar := by
  rw [includedIn, Bool.eq_iff_iff, List.any_eq_true, Option.any_eq_true]
  simp only [strictEqual_eq h.replacement, ValueTest.onScalar_in, List.any_map, List.any_eq_true,
    Function.comp_apply, decide_eq_true_iff]
  constructor
  · rintro ⟨o, ho, htrue⟩
    obtain ⟨c, hc, htrue⟩ := Option.any_eq_true _ _ |>.mp htrue
    exact ⟨c, hc, o, ho, eq_accepts.mp htrue⟩
  · rintro ⟨c, hc, o, ho, heq⟩
    exact ⟨o, ho, Option.any_eq_true _ _ |>.mpr ⟨c, hc, eq_accepts.mpr heq⟩⟩

include h hfound in
theorem excluding_matches {test : ValueTest} (htest : Coarse test) :
    (Filter.or [.field path [.isArray],
      mongoScalarFieldCondition path [.not (.value test)]]).matchesDocument document =
      (value.isSome && !(value.bind Json.scalar).any test.onScalar) := by
  rw [Bool.eq_iff_iff, Bool.and_eq_true, Bool.not_eq_true', ← Bool.not_eq_true,
    excludingCondition_matches hfound, guarded_test h.scalars htest, h.present]

include h hfound in
theorem null_matches : (mongoNullFieldCondition path).matchesDocument document =
    value.all fun value => value.scalar = some .null := by
  have hnull : Coarse (.compare .eq (.scalar .null)) :=
    coarse_of_number fun _ => rfl
  rw [Bool.eq_iff_iff, nullCondition_matches hfound, guarded_test h.scalars hnull, h.present]
  cases value with
  | none => simp
  | some value =>
    rw [Option.isSome_some, Option.bind_some, Option.all_some, decide_eq_true_iff]
    cases value <;> simp [Json.scalar, ValueTest.onScalar_compare, compareConstant, compareScalars,
      Comparison.accepts]

include h hfound in
theorem notNull_matches : (mongoNotNullFieldCondition path).matchesDocument document =
    value.any fun value => value.scalar ≠ some .null := by
  have hnull : Coarse (.compare .eq (.scalar .null)) :=
    coarse_of_number fun _ => rfl
  rw [mongoNotNullFieldCondition, Predicate.ne, h.excluding_matches hfound hnull]
  cases value with
  | none => rfl
  | some value => cases value <;> rfl

include h hfound in
/-- An item that is named is an item that is read. -/
theorem elemMatch_matches {o : Constant JsString} (ho : portableConstant o = true) :
    (Filter.field path [.elemMatch (.compare .eq (sendConstant o))]).matchesDocument document =
      arrayIncludesValue value (.constant o) := by
  have hnameable : ∀ c, sendConstant o = .scalar c → nameable c = true := by
    intro c hc
    cases o with
    | date time => cases hc
    | scalar operand =>
      cases hc
      cases operand with
      | number value => exact ho
      | null => rfl
      | bool value => rfl
      | string units => rfl
  have hread : arrayIncludesValue value (.constant o) = (itemsOf value).any
      fun item => (ValueTest.compare .eq (sendConstant o)).holds (some item) := by
    rw [arrayIncludesValue, Bool.eq_iff_iff, List.any_eq_true, List.any_eq_true]
    apply exists_congr
    intro item
    apply and_congr_right
    intro hmem
    rw [strictEqual_eq fun text htext => h.itemText text (Option.some.inj htext ▸ hmem)]
    rfl
  rw [hread, Bool.eq_iff_iff, any_item_holds, elemMatchCondition_matches hfound]
  apply exists_congr
  intro c
  apply and_congr_right
  intro hc
  have hitems := h.items c
  simp only [ItemAt, hnameable c hc, true_and] at hitems
  rw [hitems, List.exists_mem_cons_iff]
  simp

end Shown

end ActiveTs.Mongo
