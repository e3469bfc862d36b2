import ActiveTs.Mongo.PlanAgreement

/-! # Where filters and plans disagree

A field that does not show what `valueFor` reads is told apart by some plan with one entry. -/

namespace ActiveTs.Mongo

open ActiveTs.Query (Operator WhereEntry Plan)
open ActiveTs.Sql (Json JsString PortableError valueFor segments)

/-! ## Scalars -/

theorem readScalar_injective {c d : Sql.Scalar Text} (h : readScalar c = readScalar d) : c = d := by
  cases c <;> cases d <;> simp only [readScalar, reduceCtorEq, Sql.Scalar.bool.injEq,
    Sql.Scalar.number.injEq, Sql.Scalar.string.injEq] at h ⊢
  · exact h
  · exact h
  · exact Utf16.encode_injective h

theorem sendScalar_readScalar (c : Sql.Scalar Text) : sendScalar (readScalar c) = c := by
  cases c with
  | string text => exact congrArg _ (Utf16.decode_encode text)
  | null => rfl
  | bool value => rfl
  | number value => rfl

theorem rowScalar_eq_iff {value : Option Value} {c : Sql.Scalar Text} :
    rowScalar value = some (readScalar c) ↔ value.bind Json.scalar = some c := by
  rw [rowScalar, Option.map_eq_some_iff]
  constructor
  · rintro ⟨d, hd, heq⟩
    rw [hd, readScalar_injective heq]
  · intro h
    exact ⟨c, h, rfl⟩

theorem portableConstant_readScalar {c : Sql.Scalar Text} (h : nameable c = true) :
    portableConstant (.scalar (readScalar c)) = true := by
  cases c with
  | number value => exact h
  | null => rfl
  | bool value => rfl
  | string text => rfl

/-- What `clamp` gives is a scalar that some operand is, or the number next to these. -/
theorem clamp_cases (c : Sql.Scalar Text) :
    (nameable c = true ∧ clamp c = c) ∨
    (∃ value, c = .number value ∧ 9007199254740991 < value ∧ clamp c = .number 9007199254740992) ∨
    ∃ value, c = .number value ∧ value < -9007199254740991 ∧
      clamp c = .number (-9007199254740992) := by
  cases c with
  | number value =>
    by_cases hhigh : 9007199254740991 < value
    · exact .inr (.inl ⟨value, rfl, hhigh, if_pos hhigh⟩)
    by_cases hlow : value < -9007199254740991
    · exact .inr (.inr ⟨value, rfl, hlow, (if_neg hhigh).trans (if_pos hlow)⟩)
    · refine .inl ⟨?_, (if_neg hhigh).trans (if_neg hlow)⟩
      simp only [nameable, safeNumber, Bool.and_eq_true, decide_eq_true_iff]
      exact ⟨not_lt.mp hlow, not_lt.mp hhigh⟩
  | null => exact .inl ⟨rfl, rfl⟩
  | bool value => exact .inl ⟨rfl, rfl⟩
  | string text => exact .inl ⟨rfl, rfl⟩

theorem clamp_eq_iff {c d : Sql.Scalar Text} (hc : nameable c = true) : clamp d = c ↔ d = c := by
  rcases clamp_cases d with ⟨-, hd⟩ | ⟨value, rfl, hvalue, hd⟩ | ⟨value, rfl, hvalue, hd⟩
  · rw [hd]
  · rw [hd]
    constructor
    · rintro rfl
      exact absurd hc (by norm_num [nameable, safeNumber])
    · rintro rfl
      simp only [nameable, safeNumber, Bool.and_eq_true, decide_eq_true_iff] at hc
      exact absurd hvalue (not_lt.mpr hc.2)
  · rw [hd]
    constructor
    · rintro rfl
      exact absurd hc (by norm_num [nameable, safeNumber])
    · rintro rfl
      simp only [nameable, safeNumber, Bool.and_eq_true, decide_eq_true_iff] at hc
      exact absurd hvalue (not_lt.mpr hc.1)

theorem accepts_number {d : Sql.Scalar Text} {operand : ℚ} {operator : Comparison} :
    (ValueTest.compare operator (.scalar (.number operand))).onScalar d = true ↔
      ∃ number, d = .number number ∧ operator.accepts (compare number operand) = true := by
  cases d <;> simp [ValueTest.onScalar, compareConstant, compareScalars]

theorem above_iff (d : Sql.Scalar Text) :
    (ValueTest.compare .gt (.scalar (.number 9007199254740991))).onScalar d = true ↔
      clamp d = .number 9007199254740992 := by
  simp only [accepts_number, Comparison.accepts, decide_eq_true_iff, compare_gt_iff_gt]
  rcases clamp_cases d with ⟨hd, hclamp⟩ | ⟨number, rfl, hnumber, hclamp⟩ |
    ⟨number, rfl, hnumber, hclamp⟩
  · refine iff_of_false ?_ ?_
    · rintro ⟨number, rfl, hnumber⟩
      simp only [nameable, safeNumber, Bool.and_eq_true, decide_eq_true_iff] at hd
      exact absurd hnumber (not_lt.mpr hd.2)
    · rw [hclamp]
      rintro rfl
      exact absurd hd (by norm_num [nameable, safeNumber])
  · exact iff_of_true ⟨number, rfl, hnumber⟩ hclamp
  · refine iff_of_false ?_ ?_
    · rintro ⟨_, ⟨⟩, habove⟩
      exact absurd (lt_trans habove hnumber) (by norm_num)
    · rw [hclamp]
      norm_num

theorem below_iff (d : Sql.Scalar Text) :
    (ValueTest.compare .lt (.scalar (.number (-9007199254740991)))).onScalar d = true ↔
      clamp d = .number (-9007199254740992) := by
  simp only [accepts_number, Comparison.accepts, decide_eq_true_iff, compare_lt_iff_lt]
  rcases clamp_cases d with ⟨hd, hclamp⟩ | ⟨number, rfl, hnumber, hclamp⟩ |
    ⟨number, rfl, hnumber, hclamp⟩
  · refine iff_of_false ?_ ?_
    · rintro ⟨number, rfl, hnumber⟩
      simp only [nameable, safeNumber, Bool.and_eq_true, decide_eq_true_iff] at hd
      exact absurd hnumber (not_lt.mpr hd.1)
    · rw [hclamp]
      rintro rfl
      exact absurd hd (by norm_num [nameable, safeNumber])
  · refine iff_of_false ?_ ?_
    · rintro ⟨_, ⟨⟩, hbelow⟩
      exact absurd (lt_trans hnumber hbelow) (by norm_num)
    · rw [hclamp]
      norm_num
  · exact iff_of_true ⟨number, rfl, hnumber⟩ hclamp

theorem eq_readScalar (c d : Sql.Scalar Text) :
    (ValueTest.compare .eq (sendConstant (.scalar (readScalar c)))).onScalar d = true ↔ d = c := by
  rw [ValueTest.onScalar, eq_accepts, compareConstant_eq, sendConstant, sendScalar_readScalar,
    Constant.scalar.injEq]
  exact eq_comm

theorem strictEqual_readScalar {value : Option Value} (c : Sql.Scalar Text) :
    strictEqual value (.constant (.scalar (readScalar c))) =
      (value.bind Json.scalar).any
        (ValueTest.compare .eq (sendConstant (.scalar (readScalar c)))).onScalar := by
  rw [Bool.eq_iff_iff, strictEqual, decide_eq_true_iff, rowScalar_eq_iff, Option.any_eq_true]
  constructor
  · intro h
    exact ⟨c, h, (eq_readScalar c c).mpr rfl⟩
  · rintro ⟨d, hd, htrue⟩
    rw [hd, (eq_readScalar c d).mp htrue]

theorem compareRangeValues_number {value : Option Value} {number : ℚ} (operator : Comparison) :
    (compareRangeValues value (.constant (.scalar (.number number)))).any operator.accepts =
      (value.bind Json.scalar).any
        (ValueTest.compare operator (.scalar (.number number))).onScalar := by
  cases value with
  | none => rfl
  | some value => cases value <;> rfl

theorem ScalarAt.exists_clamp {found : List (Option Value)} {c : Sql.Scalar Text}
    (h : ScalarAt found c) : ∃ d, clamp d = c := by
  obtain ⟨-, -, leaf, -, hleaf⟩ := h
  obtain ⟨d, -, hd⟩ := Option.map_eq_some_iff.mp hleaf
  exact ⟨d, hd⟩

/-! ## Probes -/

def epoch : JsDate.Time := ⟨0, Nat.zero_le _⟩

section
variable {containment : Option Value → WhereEntry Operand → Except PortableError Bool}
  {document : Document} {field : String}

/-- The field shows in the document what `valueFor` reads. -/
def ShowsField (document : Document) (field : String) : Prop :=
  ∃ value, valueFor (.object document : Value) field = .ok value ∧
    Shown (reach (segments field) (.object document)) value

/-- The accepted entries of a field agree. -/
def FieldAgrees (containment : Option Value → WhereEntry Operand → Except PortableError Bool)
    (document : Document) (field : String) : Prop :=
  ∀ entry filter, entry.field = field → acceptedEntry entry = true →
    mongoWhereCondition entry = .ok filter →
      (filter.matchesDocument document = true ↔
        compareWhere containment document entry = .ok true)

namespace FieldAgrees

variable (h : FieldAgrees containment document field) (hsafe : safeMongoField field = true)

include h hsafe in
theorem probe {op : Operator} {operand : Operand} {filter : Filter}
    (haccepted : acceptedEntry ⟨field, op, operand, none⟩ = true)
    (hfilter : operatorCondition (segments field) ⟨field, op, operand, none⟩ = .ok filter) :
    filter.matchesDocument document = true ↔
      compareWhere containment document ⟨field, op, operand, none⟩ = .ok true := by
  apply h _ _ rfl haccepted
  exact (@mongoWhereCondition_eq ⟨field, op, operand, none⟩ hsafe).trans hfilter

include h hsafe in
/-- Every document has null or another value, so no document is without both. -/
theorem valueFor_ok : ∃ value, valueFor (.object document : Value) field = .ok value := by
  cases hvalue : valueFor (.object document : Value) field with
  | ok value => exact ⟨value, rfl⟩
  | error e =>
    have hfails (op : Operator) :
        ¬ compareWhere containment document ⟨field, op, .absent, none⟩ = .ok true := by
      rw [compareWhere, hvalue]
      intro heq
      cases heq
    have hnull : ¬ (mongoNullFieldCondition (segments field)).matchesDocument document = true :=
      fun hmatches => hfails .isNull ((h.probe hsafe rfl rfl).mp hmatches)
    have hnotNull :
        ¬ (mongoNotNullFieldCondition (segments field)).matchesDocument document = true :=
      fun hmatches => hfails .isNotNull ((h.probe hsafe rfl rfl).mp hmatches)
    rw [nullCondition_matches rfl] at hnull
    rw [mongoNotNullFieldCondition, Predicate.ne, excludingCondition_matches rfl] at hnotNull
    exact absurd hnotNull (by tauto)

variable {value : Option Value} (hvalue : valueFor (.object document : Value) field = .ok value)

include h hsafe hvalue in
theorem probe_value {op : Operator} {operand : Operand} {filter : Filter}
    (haccepted : acceptedEntry ⟨field, op, operand, none⟩ = true)
    (hfilter : operatorCondition (segments field) ⟨field, op, operand, none⟩ = .ok filter) :
    filter.matchesDocument document = true ↔
      compareValue containment value ⟨field, op, operand, none⟩ = .ok true := by
  rw [h.probe hsafe haccepted hfilter,
    @compareWhere_eq containment document ⟨field, op, operand, none⟩ value hvalue]

include h hsafe hvalue in
/-- No value is the date of the operand. -/
theorem present_iff : Present (reach (segments field) (.object document)) ↔ value.isSome = true := by
  have hnever : ¬ (Present (reach (segments field) (.object document)) ∧
      ¬ HasArray (reach (segments field) (.object document)) ∧
      (Predicate.value (.compare .eq (.date epoch))).holds
        (reach (segments field) (.object document)) = true) := by
    rw [exists_scalarAt (coarse_of_number fun _ => rfl)]
    rintro ⟨c, -, htrue⟩
    cases htrue
  have hprobe : (mongoNotEqualFieldCondition (segments field) (.date epoch)).matchesDocument document
      = true ↔ compareValue containment value ⟨field, .ne, .constant (.date epoch), none⟩ = .ok true :=
    h.probe_value hsafe hvalue rfl rfl
  rw [mongoNotEqualFieldCondition, Predicate.ne, excludingCondition_matches rfl] at hprobe
  have hread : compareValue containment value ⟨field, .ne, .constant (.date epoch), none⟩ =
      .ok value.isSome := congrArg Except.ok (Bool.and_true _)
  rw [hread, Except.ok.injEq] at hprobe
  exact (and_iff_left hnever).symm.trans hprobe

include h hsafe hvalue in
/-- A probe with one guarded test. -/
theorem probe_scalar {op : Operator} {operand : Operand} {test : ValueTest} (htest : Coarse test)
    (haccepted : acceptedEntry ⟨field, op, operand, none⟩ = true)
    (hfilter : operatorCondition (segments field) ⟨field, op, operand, none⟩ =
      .ok (mongoScalarFieldCondition (segments field) [.value test])) :
    (∃ c, ScalarAt (reach (segments field) (.object document)) c ∧ test.onScalar c = true) ↔
      compareValue containment value ⟨field, op, operand, none⟩ = .ok true := by
  rw [← h.probe_value hsafe hvalue haccepted hfilter, scalarFieldCondition_matches rfl,
    List.forall_mem_singleton, exists_scalarAt htest]

include h hsafe hvalue in
/-- A probe for one scalar tells whether the path shows it. -/
theorem scalar_iff (op : Operator) (operand : Operand) {test : ValueTest} {c : Sql.Scalar Text}
    (hc : ∃ d, clamp d = c) (htest : Coarse test) (hone : ∀ d, test.onScalar d = true ↔ clamp d = c)
    (haccepted : acceptedEntry ⟨field, op, operand, none⟩ = true)
    (hfilter : operatorCondition (segments field) ⟨field, op, operand, none⟩ =
      .ok (mongoScalarFieldCondition (segments field) [.value test]))
    (hread : compareValue containment value ⟨field, op, operand, none⟩ =
      .ok ((value.bind Json.scalar).any test.onScalar)) :
    ScalarAt (reach (segments field) (.object document)) c ↔ ScalarAt [value] c := by
  have hprobe := h.probe_scalar hsafe hvalue htest haccepted hfilter
  rw [hread, Except.ok.injEq, Option.any_eq_true] at hprobe
  obtain ⟨d, rfl⟩ := hc
  rw [scalarAt_singleton]
  constructor
  · intro hfound
    have hd : test.onScalar (clamp d) = true := by
      rw [htest, hone]
    obtain ⟨e, he, htrue⟩ := hprobe.mp ⟨_, hfound, hd⟩
    exact ⟨e, he, (hone e).mp htrue⟩
  · rintro ⟨e, he, heq⟩
    obtain ⟨c, hfound, htrue⟩ := hprobe.mpr ⟨e, he, (hone e).mpr heq⟩
    obtain ⟨d', rfl⟩ := hfound.exists_clamp
    rw [htest, hone] at htrue
    rwa [← htrue]

include h hsafe hvalue in
theorem scalars_iff (c : Sql.Scalar Text) :
    ScalarAt (reach (segments field) (.object document)) c ↔ ScalarAt [value] c := by
  by_cases hclamp : ∃ d, clamp d = c
  · obtain ⟨d, rfl⟩ := hclamp
    rcases clamp_cases d with ⟨hd, hclamp⟩ | ⟨number, rfl, hnumber, hclamp⟩ |
      ⟨number, rfl, hnumber, hclamp⟩
    · apply h.scalar_iff hsafe hvalue .eq (.constant (.scalar (readScalar d))) ⟨d, rfl⟩
        (coarse_compare (portableConstant_readScalar hd) .eq) _ (portableConstant_readScalar hd) rfl
      · exact congrArg Except.ok (strictEqual_readScalar d)
      · intro e
        rw [eq_readScalar, hclamp, clamp_eq_iff hd]
    · rw [hclamp]
      apply h.scalar_iff hsafe hvalue .gt (.constant (.scalar (.number 9007199254740991)))
        ⟨_, hclamp⟩ (coarse_compare (o := .scalar (.number 9007199254740991)) rfl .gt) _ rfl rfl
      · exact congrArg Except.ok (any_gt.trans (compareRangeValues_number _))
      · exact above_iff
    · rw [hclamp]
      apply h.scalar_iff hsafe hvalue .lt (.constant (.scalar (.number (-9007199254740991))))
        ⟨_, hclamp⟩ (coarse_compare (o := .scalar (.number (-9007199254740991))) rfl .lt) _ rfl rfl
      · exact congrArg Except.ok (any_lt.trans (compareRangeValues_number _))
      · exact below_iff
  · exact iff_of_false (fun h => hclamp h.exists_clamp) fun h => hclamp h.exists_clamp

include h hsafe hvalue in
theorem items_iff (c : Sql.Scalar Text) :
    ItemAt (reach (segments field) (.object document)) c ↔ ItemAt [value] c := by
  by_cases hc : nameable c = true
  · have hprobe : (Filter.field (segments field) [.elemMatch (.compare .eq
        (sendConstant (.scalar (readScalar c))))]).matchesDocument document = true ↔
        compareValue containment value
          ⟨field, .arrayContains, .constant (.scalar (readScalar c)), none⟩ = .ok true :=
      h.probe_value hsafe hvalue (portableConstant_readScalar hc) rfl
    have hread : compareValue containment value
        ⟨field, .arrayContains, .constant (.scalar (readScalar c)), none⟩ = .ok true ↔
        ∃ item ∈ itemsOf value, item.scalar = some c := by
      change Except.ok (arrayIncludesValue value _) = Except.ok true ↔ _
      rw [Except.ok.injEq, arrayIncludesValue, List.any_eq_true]
      apply exists_congr
      intro item
      apply and_congr_right
      intro _
      rw [strictEqual, decide_eq_true_iff, rowScalar_eq_iff, Option.bind_some]
    have hone : (∃ d, sendConstant (.scalar (readScalar c)) = .scalar d ∧
        ∃ leaf ∈ reach (segments field) (.object document),
          ∃ item ∈ itemsOf leaf, item.scalar = some d) ↔
        ItemAt (reach (segments field) (.object document)) c := by
      rw [sendConstant, sendScalar_readScalar, ItemAt, hc]
      simp only [Constant.scalar.injEq, true_and, exists_eq_left']
    rw [elemMatchCondition_matches rfl, hone, hread] at hprobe
    rw [hprobe, ItemAt, hc]
    simp
  · exact iff_of_false (fun h => hc h.1) fun h => hc h.1

include h hsafe hvalue in
/-- A text that is not low is ordered differently against some operand. -/
theorem low_of_string {text : Text} (htext : value = some (.string text)) : Utf8.Low text := by
  by_contra hlow
  obtain ⟨other, hother⟩ := Utf8.exists_flip hlow
  have hcoarse : Coarse (.compare .gt (.scalar (.string (Utf16.decode (Utf16.encode other))))) :=
    coarse_of_number fun _ => rfl
  have hprobe := h.probe_scalar hsafe hvalue hcoarse
    (show acceptedEntry ⟨field, .gt, .constant (.scalar (.string (Utf16.encode other))), none⟩ = true
      from rfl) rfl
  rw [← exists_scalarAt hcoarse, guarded_test (h.scalars_iff hsafe hvalue) hcoarse] at hprobe
  have hserver : (value.bind Json.scalar).any
      (ValueTest.compare .gt (.scalar (.string (Utf16.decode (Utf16.encode other))))).onScalar = true ↔
      List.compareLex Utf8.compareChar text other = .gt := by
    rw [htext, ← Utf8.compareLex_encode, Utf16.decode_encode]
    exact decide_eq_true_iff
  have hread : compareValue containment value
      ⟨field, .gt, .constant (.scalar (.string (Utf16.encode other))), none⟩ = .ok true ↔
      List.compareLex Utf16.compareChar text other = .gt := by
    have horder : compareRangeValues value (.constant (.scalar (.string (Utf16.encode other)))) =
        some (List.compareLex Utf16.compareChar text other) := by
      rw [htext, ← Utf16.compareLex_encode]
      rfl
    rw [compareValue, horder, Except.ok.injEq, decide_eq_true_iff, Option.some.injEq]
  rw [hserver, hread] at hprobe
  rcases hother with ⟨hless, hgreater⟩ | ⟨hgreater, hless⟩
  · rw [hprobe.mpr hgreater] at hless
    cases hless
  · rw [hprobe.mp hgreater] at hless
    cases hless

include h hsafe hvalue in
theorem no_replacement {text : Text} (htext : Json.string text ∈ itemsOf value) :
    Utf8.replacement ∉ text := by
  intro hmem
  obtain ⟨units, hdecode, hnone⟩ := Utf8.exists_replaced hmem
  have hprobe : (Filter.field (segments field) [.elemMatch (.compare .eq
      (.scalar (.string (Utf16.decode units))))]).matchesDocument document = true ↔
      compareValue containment value
        ⟨field, .arrayContains, .constant (.scalar (.string units)), none⟩ = .ok true :=
    h.probe_value hsafe hvalue rfl rfl
  have hitem : ItemAt (reach (segments field) (.object document)) (.string text) :=
    (h.items_iff hsafe hvalue _).mpr ⟨rfl, value, List.mem_cons_self, _, htext, rfl⟩
  have hmatches := hprobe.mp ((elemMatchCondition_matches rfl _).mpr
    ⟨.string text, by rw [hdecode], hitem.2⟩)
  have hread : arrayIncludesValue value (.constant (.scalar (.string units))) = true :=
    Except.ok.inj hmatches
  obtain ⟨item, -, hequal⟩ := List.any_eq_true.mp hread
  rw [strictEqual, decide_eq_true_iff, rowScalar, Option.map_eq_some_iff] at hequal
  obtain ⟨c, -, hc⟩ := hequal
  cases c with
  | string other => exact hnone other (Sql.Scalar.string.inj hc)
  | null => cases hc
  | bool value => cases hc
  | number value => cases hc

include h hsafe in
/-- Where no accepted entry tells a field apart, its path shows what is read. -/
theorem shows : ShowsField document field := by
  obtain ⟨value, hvalue⟩ := h.valueFor_ok hsafe
  refine ⟨value, hvalue, ?_⟩
  exact {
    present := h.present_iff hsafe hvalue
    scalars := h.scalars_iff hsafe hvalue
    items := h.items_iff hsafe hvalue
    text := fun _ htext => h.low_of_string hsafe hvalue htext
    itemText := fun _ htext => h.no_replacement hsafe hvalue htext }

end FieldAgrees

theorem mongoFilter_single {entry : WhereEntry Operand} {filter : Filter}
    (h : mongoWhereCondition entry = .ok filter) : mongoFilter (.node [entry] []) = .ok filter := by
  rw [mongoFilter, mongoWhereFilter, List.mapM_cons, h]
  rfl

theorem matchesPlan_single (entry : WhereEntry Operand) :
    matchesPlan containment document (.node [entry] []) =
      compareWhere containment document entry := by
  rw [matchesPlan, compareWheres]
  cases compareWhere containment document entry with
  | error e => rfl
  | ok answer => cases answer <;> rfl

end

/-- The texts of a value are ordered alike, and its items are sent as they are read. -/
def PlainTexts (value : Option Value) : Prop :=
  (∀ text, value = some (.string text) → Utf8.Low text) ∧
    ∀ text, Json.string text ∈ itemsOf value → Utf8.replacement ∉ text

/-- Without arrays on the way a path shows what is read. -/
theorem shown_of_direct {document : Document} {field : String} (hsafe : safeMongoField field = true)
    (hdirect : Direct (segments field) (.object document))
    (htexts : ∀ value, valueFor (.object document : Value) field = .ok value → PlainTexts value) :
    ShowsField document field := by
  obtain ⟨value, hvalue, hreach⟩ := reach_direct hdirect
  have hread : valueFor (.object document : Value) field = .ok value := by
    rw [safeMongoField, Bool.and_eq_true, Bool.and_eq_true] at hsafe
    rw [valueFor, if_pos hsafe.1.1, hvalue]
  refine ⟨value, hread, ?_⟩
  rw [hreach]
  exact {
    present := by simp [Present]
    scalars := fun _ => Iff.rfl
    items := fun _ => Iff.rfl
    text := (htexts value hread).1
    itemText := (htexts value hread).2 }

theorem mongoFilter_agrees_of_shows
    {containment : Option Value → WhereEntry Operand → Except PortableError Bool}
    {document : Document} {plan : Plan Operand} {filter : Filter}
    (hplan : EachEntry (fun entry => acceptedEntry entry = true ∧
      (safeMongoField entry.field = true → ShowsField document entry.field)) plan)
    (hfilter : mongoFilter plan = .ok filter) :
    filter.matchesDocument document = true ↔ matchesPlan containment document plan = .ok true := by
  have hanswers : EachEntry (fun entry => ∃ filter answer,
      Agrees containment document entry filter answer) plan := by
    apply (hplan.and (safe_of_mongoFilter hfilter)).mono
    rintro entry ⟨⟨haccepted, hfield⟩, hsafe⟩
    obtain ⟨value, hvalue, hshown⟩ := hfield hsafe
    exact entry_agrees containment hsafe hvalue hshown haccepted
  let test (entry : WhereEntry Operand) : Bool :=
    (compareWhere containment document entry).toOption.getD false
  have hcompiles : EachEntry (Compiles document test) plan := by
    apply hanswers.mono
    rintro entry ⟨filter, answer, hentry⟩ filter' hfilter'
    obtain rfl := Except.ok.inj (hentry.compiled.symm.trans hfilter')
    rw [hentry.same]
    simp only [test, hentry.read]
    rfl
  have hread : EachEntry (fun entry =>
      compareWhere containment document entry = .ok (test entry)) plan := by
    apply hanswers.mono
    rintro entry ⟨filter, answer, hentry⟩
    simp only [test, hentry.read]
    rfl
  rw [mongoFilter_matches hcompiles hfilter, matchesPlan_eq hread, Except.ok.injEq]

/-- Documents without arrays on the way to the fields of a plan match as `matchesPlan` says, as far
as their texts are plain. -/
theorem mongoFilter_agrees_of_direct
    {containment : Option Value → WhereEntry Operand → Except PortableError Bool}
    {document : Document} {plan : Plan Operand} {filter : Filter}
    (hplan : EachEntry (fun entry => acceptedEntry entry = true ∧
      Direct (segments entry.field) (.object document) ∧
      ∀ value, valueFor (.object document : Value) entry.field = .ok value → PlainTexts value) plan)
    (hfilter : mongoFilter plan = .ok filter) :
    filter.matchesDocument document = true ↔ matchesPlan containment document plan = .ok true := by
  apply mongoFilter_agrees_of_shows (hplan.mono _) hfilter
  rintro entry ⟨haccepted, hdirect, htexts⟩
  exact ⟨haccepted, fun hsafe => shown_of_direct hsafe hdirect htexts⟩

/-- On a document the filters of all plans over some fields match as `matchesPlan` says exactly if
each of the fields shows there what `valueFor` reads. -/
theorem mongoFilter_agrees_iff
    (containment : Option Value → WhereEntry Operand → Except PortableError Bool)
    (document : Document) (fields : String → Prop) :
    (∀ plan filter,
      EachEntry (fun entry => acceptedEntry entry = true ∧ fields entry.field) plan →
      mongoFilter plan = .ok filter →
      (filter.matchesDocument document = true ↔
        matchesPlan containment document plan = .ok true)) ↔
    ∀ field, fields field → safeMongoField field = true → ShowsField document field := by
  constructor
  · intro h field hfield hsafe
    apply @FieldAgrees.shows containment _ _ _ hsafe
    rintro entry filter rfl haccepted hfilter
    rw [← matchesPlan_single]
    apply h _ _ _ (mongoFilter_single hfilter)
    refine .node ?_ fun _ hmem => absurd hmem List.not_mem_nil
    intro entry' hmem
    rw [List.mem_singleton.mp hmem]
    exact ⟨haccepted, hfield⟩
  · intro h plan filter hplan hfilter
    apply mongoFilter_agrees_of_shows (hplan.mono _) hfilter
    rintro entry ⟨haccepted, hfield⟩
    exact ⟨haccepted, h entry.field hfield⟩

/-! ## Documents on the way -/

/-- An array of documents stands on the way to the field. -/
def linesOfOrder : Document := [("lines", .array [.object [("sku", .integer ⟨1, by decide⟩)]])]

def skuIsOne : Plan Operand := .node [⟨"lines.sku", .eq, .constant (.scalar (.number 1)), none⟩] []

/-- U+E000 is one unit above the surrogates, and fewer bytes than U+10000. -/
def privateName : Document := [("name", .string [Char.ofNat 0xE000])]

def nameAfterSupplementary : Plan Operand :=
  .node [⟨"name", .gt, .constant (.scalar (.string (Utf16.encode [Char.ofNat 0x10000]))), none⟩] []

theorem mongoFilter_differs :
    (∃ filter, EachEntry (fun entry => acceptedEntry entry = true) skuIsOne ∧
      mongoFilter skuIsOne = .ok filter ∧ filter.matchesDocument linesOfOrder = true ∧
      matchesPlan (fun _ _ => .ok true) linesOfOrder skuIsOne = .ok false) ∧
    ∃ filter, EachEntry (fun entry => acceptedEntry entry = true) nameAfterSupplementary ∧
      mongoFilter nameAfterSupplementary = .ok filter ∧ filter.matchesDocument privateName = false ∧
      matchesPlan (fun _ _ => .ok true) privateName nameAfterSupplementary = .ok true := by
  have hsingle {entry : WhereEntry Operand} (h : acceptedEntry entry = true) :
      EachEntry (fun entry => acceptedEntry entry = true) (.node [entry] []) :=
    .node (List.forall_mem_singleton.mpr h) fun _ hmem => absurd hmem List.not_mem_nil
  constructor
  · exact ⟨_, hsingle rfl, rfl, by decide, rfl⟩
  · exact ⟨_, hsingle rfl, rfl, by decide, rfl⟩

end ActiveTs.Mongo
