import ActiveTs.Sql.Postgres

/-! # Lists of the PostgreSQL adapter

The compiled `where` of a whole plan, the compiled `order by`, and the lists that PostgreSQL may return. -/

namespace ActiveTs.Sql.Postgres

open ActiveTs.Query (Operator WhereEntry Plan)

variable {castOther : Document → JsonComparisonType → Except PostgresError Datum}
  {modelFieldType : String → Option FieldType} {document : Document}
  {containment : Option Row → WhereEntry Operand → Except PortableError Bool}

/-! ## Plans -/

theorem joined_eq_none {join : Condition → Condition → Condition} {conditions : List Condition} :
    joined join conditions = none ↔ conditions = [] := by
  cases conditions <;> simp [joined]

theorem joined_and_evaluates {params : List Param} {conditions : List Condition} {ts : List Truth}
    (h : List.Forall₂ (EvaluatesIn castOther document params) conditions ts) {condition : Condition}
    (hjoined : joined .and conditions = some condition) :
    ∃ t, EvaluatesIn castOther document params condition t ∧
      (t = some true ↔ ∀ u ∈ ts, u = some true) := by
  cases h with
  | nil => cases hjoined
  | @cons _ t _ ts hc hcs =>
    cases hjoined
    refine ⟨_, hc.foldl_and hcs, ?_⟩
    rw [Truth.foldl_and_eq_true, List.forall_mem_cons]

theorem joined_or_evaluates {params : List Param} {conditions : List Condition} {ts : List Truth}
    (h : List.Forall₂ (EvaluatesIn castOther document params) conditions ts) {condition : Condition}
    (hjoined : joined .or conditions = some condition) :
    ∃ t, EvaluatesIn castOther document params condition t ∧
      (t = some true ↔ ∃ u ∈ ts, u = some true) := by
  cases h with
  | nil => cases hjoined
  | @cons _ t _ ts hc hcs =>
    cases hjoined
    refine ⟨_, hc.foldl_or hcs, ?_⟩
    rw [Truth.foldl_or_eq_true, List.exists_mem_cons_iff]

/-- The alternatives of a plan together, the own entries among them when there are any. -/
theorem PlanDecides.of_alternatives {params : List Param} {plan : Plan Operand}
    {conditions : List Condition} {ts : List Truth} {portable : Except PortableError Bool}
    (hempty : conditions = [] ↔ plan.wheres = [] ∧ plan.or = [])
    (hevals : List.Forall₂ (EvaluatesIn castOther document params) conditions ts)
    (hts : ∀ holds, portable = .ok holds →
      ((conditions = [] ∨ ∃ t ∈ ts, t = some true) ↔ holds = true)) :
    PlanDecides castOther document params plan (joined .or conditions) portable where
  none_iff := joined_eq_none.trans hempty
  decides := by
    cases hjoined : joined .or conditions with
    | none =>
      refine ⟨some true, nofun, fun _ => rfl, fun holds hok => ?_⟩
      rw [← hts holds hok]
      exact iff_of_true rfl (Or.inl (joined_eq_none.mp hjoined))
    | some condition =>
      obtain ⟨t, heval, ht⟩ := joined_or_evaluates hevals hjoined
      refine ⟨t, fun c hc => Option.some.inj hc ▸ heval, nofun, fun holds hok => ?_⟩
      have hne : conditions ≠ [] := by
        intro hnil
        rw [joined_eq_none.mpr hnil] at hjoined
        cases hjoined
      rw [← hts holds hok, ht, or_iff_right hne]

variable (castOther containment) in
/-- The compiled condition of a plan is true on the documents that `matchesPlan` accepts. -/
theorem whereCondition_decides {plan : Plan Operand} {params params' : List Param}
    {condition : Option Condition} (haccepted : acceptedPlan modelFieldType plan = true)
    (hread : ∀ entry ∈ entriesOf plan, EntryReadable modelFieldType document entry)
    (h : whereCondition modelFieldType plan params = .ok (condition, params')) :
    params <+: params' ∧ PlanDecides castOther document params' plan condition
      (matchesPlan containment (read document) plan) := by
  induction plan generalizing params condition params' with
  | node wheres or ih =>
    rw [acceptedPlan, Bool.and_eq_true, List.all_eq_true] at haccepted
    rw [entriesOf, List.forall_mem_append] at hread
    rw [whereCondition] at h
    obtain ⟨⟨parts, middle⟩, hparts, hrest⟩ := Except.bind_eq_ok.mp h
    obtain ⟨⟨orParts, last⟩, hor, hresult⟩ := Except.bind_eq_ok.mp hrest
    obtain ⟨hgrown, ts, hevals, hts⟩ := @entryConditions_evaluate castOther modelFieldType document
      containment _ _ _ _ haccepted.1 hread.1 hparts
    obtain ⟨hgrown', hnil, us, horEvals, hus⟩ := @orConditions_evaluate castOther modelFieldType document
      containment _ _ _ _ (fun branch hmem params condition params' haccepted hread h =>
        ih branch hmem haccepted hread h) haccepted.2 hread.2 hor
    have hwheres := entryConditions_eq_nil hparts
    cases hjoined : joined .and parts with
    | none =>
      rw [hjoined] at hresult
      cases hresult
      have hown := hwheres.mp (joined_eq_none.mp hjoined)
      subst hown
      refine ⟨hgrown.trans hgrown', .of_alternatives (by simp [hnil]) horEvals fun holds hok => ?_⟩
      cases or with
      | nil =>
        cases hok
        simp [hnil]
      | cons branch branches =>
        have hok : matchesBranch containment (read document) (branch :: branches) = .ok holds := hok
        rw [or_iff_right (by simp [hnil]), hus holds hok]
    | some own =>
      rw [hjoined] at hresult
      cases hresult
      have hne : wheres ≠ [] := by
        intro hempty
        rw [joined_eq_none.mpr (hwheres.mpr hempty)] at hjoined
        cases hjoined
      obtain ⟨t, heval, ht⟩ := joined_and_evaluates hevals hjoined
      refine ⟨hgrown.trans hgrown', .of_alternatives (by simp [hne]) (.cons (heval.mono hgrown') horEvals)
        fun holds hok => ?_⟩
      rw [matchesPlan] at hok
      obtain ⟨base, hbase, hplan⟩ := Except.bind_eq_ok.mp hok
      rw [or_iff_right (List.cons_ne_nil _ _), List.exists_mem_cons_iff, ht, hts base hbase]
      cases or with
      | nil =>
        cases hor
        cases horEvals
        cases hplan
        simp
      | cons branch branches =>
        rw [List.isEmpty_eq_false_iff.mpr hne] at hplan
        cases base with
        | true =>
          cases hplan
          simp
        | false =>
          have hplan : matchesBranch containment (read document) (branch :: branches) = .ok holds := hplan
          rw [hus holds hplan, Bool.false_eq_true, false_or]

/-! ## Order -/

/-- What the sort expressions of a field compute of a value. -/
inductive SortData : Option FieldType → Scalar JsString → List Datum → Prop
  | missing (type : FieldType) : SortData (some type) .null [.number 0, .null]
  | typed {type : FieldType} {d : Datum} {s : Scalar JsString} (h : Same (sortType type) d s) :
    SortData (some type) s [.number 1, orderedDatum d]
  | null : SortData none .null [.number 0, .null, .null, .null]
  | bool (value : Bool) : SortData none (.bool value) [.number 1, .bool value, .null, .null]
  | number (value : ℚ) : SortData none (.number value) [.number 2, .null, .number value, .null]
  | text (value : Text) : SortData none (.string (Utf16.encode value))
      [.number 3, .null, .null, .text (postgresStringOrderKey value)]

theorem Same.compare_ordered {type : JsonComparisonType} {d e : Datum} {a b : Scalar JsString}
    (h : Same type d a) (h' : Same type e b) :
    compareOrder (orderedDatum d) (orderedDatum e) = compareValues a b := by
  cases h with
  | number value =>
    cases h'
    rfl
  | bool value =>
    cases h'
    rfl
  | text value =>
    cases h' with
    | text value' => exact compareCodePoints_orderKey value value'
  | date value =>
    cases h' with
    | date value' => exact compare_dates value value'

theorem Same.compareValues_null {type : JsonComparisonType} {d : Datum} {a : Scalar JsString}
    (h : Same type d a) : compareValues a .null = .gt ∧ compareValues .null a = .lt := by
  cases h <;> exact ⟨rfl, rfl⟩

/-- Rank and values together order as `compareValues` does. -/
theorem SortData.compare {type : Option FieldType} {s t : Scalar JsString} {ds es : List Datum}
    (h : SortData type s ds) (h' : SortData type t es) (direction : SortDirection)
    (left right : List (SortDirection × Datum)) :
    compareOrderKeys (ds.map (direction, ·) ++ left) (es.map (direction, ·) ++ right) =
      (direction.apply (compareValues s t)).then (compareOrderKeys left right) := by
  cases h with
  | missing type =>
    cases h' with
    | missing => cases direction <;> rfl
    | typed h' =>
      rw [h'.compareValues_null.2]
      cases direction <;> rfl
  | typed h =>
    cases h' with
    | missing =>
      rw [h.compareValues_null.1]
      cases direction <;> rfl
    | typed h' =>
      simp only [List.map_cons, List.map_nil, List.cons_append, List.nil_append, compareOrderKeys,
        h.compare_ordered h']
      cases direction <;> rfl
  | null => cases h' <;> cases direction <;> rfl
  | bool value =>
    cases h' with
    | bool value' => cases value <;> cases value' <;> cases direction <;> rfl
    | _ => cases direction <;> rfl
  | number value =>
    cases h' with
    | number value' =>
      have hcompare : compareOrder (.number value) (.number value') = _ :=
        (Same.number value).compare_ordered (.number value')
      simp only [List.map_cons, List.map_nil, List.cons_append, List.nil_append, compareOrderKeys,
        hcompare]
      cases direction <;> rfl
    | _ => cases direction <;> rfl
  | text value =>
    cases h' with
    | text value' =>
      have hcompare : compareOrder (.text (postgresStringOrderKey value))
          (.text (postgresStringOrderKey value')) = _ :=
        (Same.text value).compare_ordered (.text value')
      simp only [List.map_cons, List.map_nil, List.cons_append, List.nil_append, compareOrderKeys,
        hcompare]
      cases direction <;> rfl
    | _ => cases direction <;> rfl

/-- The expressions with these values, whatever is pushed later. -/
def KeysIn (castOther : Document → JsonComparisonType → Except PostgresError Datum)
    (document : Document) (params : List Param) (expressions : List (SortExpr × SortDirection))
    (keys : List (SortDirection × Datum)) : Prop :=
  ∀ rest, orderKey castOther ⟨document, params ++ rest⟩ expressions = .ok keys

theorem KeysIn.mono {params params' : List Param} {expressions : List (SortExpr × SortDirection)}
    {keys : List (SortDirection × Datum)} (h : KeysIn castOther document params expressions keys)
    (hparams : params <+: params') : KeysIn castOther document params' expressions keys := by
  obtain ⟨pushed, rfl⟩ := hparams
  intro rest
  rw [List.append_assoc]
  exact h _

theorem orderKey_append {context : Context} {left right : List (SortExpr × SortDirection)}
    {keys keys' : List (SortDirection × Datum)} (hleft : orderKey castOther context left = .ok keys)
    (hright : orderKey castOther context right = .ok keys') :
    orderKey castOther context (left ++ right) = .ok (keys ++ keys') := by
  induction left generalizing keys with
  | nil =>
    cases hleft
    exact hright
  | cons entry left ih =>
    obtain ⟨e, direction⟩ := entry
    obtain ⟨d, hd, hrest⟩ := Except.bind_eq_ok.mp hleft
    obtain ⟨rest, hkeys, hresult⟩ := Except.bind_eq_ok.mp hrest
    cases hresult
    exact Except.bind_eq_ok.mpr ⟨d, hd, Except.bind_eq_ok.mpr ⟨_, ih hkeys, rfl⟩⟩

theorem sortType_ne_null (type : FieldType) : sortType type ≠ .null := by
  cases type <;> exact JsonComparisonType.noConfusion

/-- A value of a declared type passes the guard of the type. -/
theorem typeof_of_holdsType {type : FieldType} {value : Document} (h : holdsType type (read value))
    (hnull : value ≠ .null) : jsonbTypeof value = guardText (sortType type) := by
  cases value with
  | null => exact absurd rfl hnull
  | _ => cases type <;> first | rfl | exact h.elim

variable (castOther) in
/-- The expressions of a declared field. -/
theorem typed_keys {type : FieldType} {found : Option Document} {s : Scalar JsString}
    (hholds : ∀ value, found = some value → holdsType type (read value))
    (hs : comparable (found.map read) = .ok s) (path : Nat) (direction : SortDirection) :
    ∃ ds, SortData (some type) s ds ∧ ∀ context : Context, context.lookup path = .ok found →
      orderKey castOther context
        [(.caseWhen (missingOrNull path) (.rank 0) (.rank 1), direction),
          (.expr (ordered (sortType type) (.text path (sortType type))), direction)] =
        .ok (ds.map (direction, ·)) := by
  by_cases hnull : found = none ∨ found = some .null
  · have hs : s = .null := by
      rcases hnull with rfl | rfl <;> cases hs <;> rfl
    subst hs
    refine ⟨_, .missing type, fun context hlookup => ?_⟩
    have hvalue : (ordered (sortType type) (.text path (sortType type))).eval castOther context =
        .ok .null := by
      apply ordered_eval_null
      rw [Expr.eval, hlookup]
      rcases hnull with rfl | rfl <;> rfl
    simp only [orderKey, SortExpr.eval, missingOrNull, Condition.eval, hlookup, hvalue]
    rcases hnull with rfl | rfl <;> rfl
  · rw [not_or] at hnull
    obtain ⟨value, rfl⟩ := Option.ne_none_iff_exists'.mp hnull.1
    have hvalue := hholds value rfl
    have hguard := typeof_of_holdsType hvalue fun h => hnull.2 (congrArg some h)
    obtain ⟨d, a, hcast, hscalar, hsame⟩ := castText_same castOther (sortType_ne_null type) (by
      intro htype
      cases type with
      | date => exact hvalue
      | _ => cases htype) hguard
    have hs' : s = a := by
      rw [Option.map_some, comparable, hscalar] at hs
      exact (Except.ok.inj hs).symm
    subst hs'
    refine ⟨_, .typed hsame, fun context hlookup => ?_⟩
    have htext : (ordered (sortType type) (.text path (sortType type))).eval castOther context =
        .ok (orderedDatum d) := by
      apply ordered_eval _ hsame
      rw [Expr.eval, hlookup]
      exact hcast
    have htypeof : jsonbTypeof value ≠ "null" := by
      rw [hguard]
      cases type <;> decide
    simp only [orderKey, SortExpr.eval, missingOrNull, Condition.eval, hlookup, htext, bind,
      Except.bind, Option.isNone_some, Option.map_some, htypeof, decide_false]
    rfl

variable (castOther) in
/-- The expressions of a field without a declared type. -/
theorem untyped_keys {found : Option Document} {s : Scalar JsString}
    (hs : comparable (found.map read) = .ok s) (path : Nat) (direction : SortDirection) :
    ∃ ds, SortData none s ds ∧ ∀ context : Context, context.lookup path = .ok found →
      orderKey castOther context
        [(.caseWhen (missingOrNull path) (.rank 0)
            (.caseWhen (.typeof path "boolean") (.rank 1)
              (.caseWhen (.typeof path "number") (.rank 2)
                (.caseWhen (.typeof path "string") (.rank 3) .invalid))), direction),
          (.caseWhen (.typeof path "boolean") (.expr (.text path .boolean)) .null, direction),
          (.caseWhen (.typeof path "number") (.expr (.text path .number)) .null, direction),
          (.caseWhen (.typeof path "string") (.expr (.orderKey (.text path .string))) .null,
            direction)] =
        .ok (ds.map (direction, ·)) := by
  rcases found with _ | (_ | value | value | value | value | _ | _) <;> cases hs
  · refine ⟨_, .null, fun context hlookup => ?_⟩
    simp only [orderKey, SortExpr.eval, missingOrNull, Condition.eval, hlookup]
    rfl
  · refine ⟨_, .null, fun context hlookup => ?_⟩
    simp only [orderKey, SortExpr.eval, missingOrNull, Condition.eval, hlookup]
    rfl
  · refine ⟨_, .bool value, fun context hlookup => ?_⟩
    simp only [orderKey, SortExpr.eval, missingOrNull, Condition.eval, Expr.eval, hlookup]
    rfl
  · refine ⟨_, .number value.1, fun context hlookup => ?_⟩
    simp only [orderKey, SortExpr.eval, missingOrNull, Condition.eval, Expr.eval, hlookup]
    rfl
  · refine ⟨_, .number value, fun context hlookup => ?_⟩
    simp only [orderKey, SortExpr.eval, missingOrNull, Condition.eval, Expr.eval, hlookup]
    rfl
  · refine ⟨_, .text value, fun context hlookup => ?_⟩
    simp only [orderKey, SortExpr.eval, missingOrNull, Condition.eval, Expr.eval, hlookup]
    rfl

/-- The expressions of a field push its path. -/
theorem jsonSortExpressions_ok {field : String} {direction : SortDirection}
    {params params' : List Param} {expressions : List (SortExpr × SortDirection)}
    (h : jsonSortExpressions modelFieldType field direction params = .ok (expressions, params')) :
    safeFieldPath field = true ∧ params' = params ++ [.path (segments field)] := by
  obtain ⟨⟨path, middle⟩, hpath, hrest⟩ := Except.bind_eq_ok.mp h
  obtain ⟨hsafe, -, rfl⟩ := jsonPathParam_ok hpath
  refine ⟨hsafe, ?_⟩
  cases htype : modelFieldType field with
  | none =>
    rw [htype] at hrest
    cases hrest
    rfl
  | some type =>
    rw [htype] at hrest
    cases hrest
    rfl

theorem orderSql_grows {sort : List CursorSort} {params params' : List Param}
    {expressions : List (SortExpr × SortDirection)}
    (h : orderSql modelFieldType sort params = .ok (expressions, params')) : params <+: params' := by
  induction sort generalizing params expressions with
  | nil =>
    cases h
    exact List.prefix_rfl
  | cons entry sort ih =>
    obtain ⟨⟨first, middle⟩, hfirst, hrest⟩ := Except.bind_eq_ok.mp h
    obtain ⟨⟨others, last⟩, hothers, hresult⟩ := Except.bind_eq_ok.mp hrest
    cases hresult
    obtain ⟨-, rfl⟩ := jsonSortExpressions_ok hfirst
    exact (List.prefix_append _ _).trans (ih hothers)

variable (castOther) in
/-- What `order by` computes of one field of a document. -/
theorem jsonSortExpressions_keys {field : String} {direction : SortDirection}
    {params params' : List Param} {expressions : List (SortExpr × SortDirection)}
    (h : jsonSortExpressions modelFieldType field direction params = .ok (expressions, params'))
    (hread : Readable modelFieldType document field) {s : Scalar JsString}
    (hs : sortKey (read document) field = .ok s) :
    ∃ ds, SortData (modelFieldType field) s ds ∧
      KeysIn castOther document params' expressions (ds.map (direction, ·)) := by
  obtain ⟨⟨path, middle⟩, hpath, hrest⟩ := Except.bind_eq_ok.mp h
  obtain ⟨hsafe, rfl, rfl⟩ := jsonPathParam_ok hpath
  obtain ⟨value, hvalue, hcomparable⟩ := Except.bind_eq_ok.mp hs
  rw [← seen_of_valueFor hsafe hread hvalue, seen] at hcomparable
  have hlookup (rest : List Param) :=
    lookup_append document params rest (segments field)
  cases htype : modelFieldType field with
  | none =>
    rw [htype] at hrest
    cases hrest
    obtain ⟨ds, hds, hkeys⟩ := untyped_keys castOther hcomparable (params.length + 1) direction
    refine ⟨ds, hds, fun rest => ?_⟩
    rw [List.append_assoc]
    exact hkeys _ (hlookup rest)
  | some type =>
    rw [htype] at hrest
    cases hrest
    obtain ⟨ds, hds, hkeys⟩ := typed_keys castOther (fun value hfound =>
      hread.conforms field type _ htype (valueFor_of_lookup hsafe hread hfound)) hcomparable
      (params.length + 1) direction
    refine ⟨ds, hds, fun rest => ?_⟩
    rw [List.append_assoc]
    exact hkeys _ (hlookup rest)

variable (castOther) in
/-- `order by` compares two documents as `compareRowsBySort` does. -/
theorem orderSql_compares {sort : List CursorSort} {params params' : List Param}
    {expressions : List (SortExpr × SortDirection)} {a b : Document}
    (h : orderSql modelFieldType sort params = .ok (expressions, params'))
    (hreadA : ∀ entry ∈ sort, Readable modelFieldType a entry.field)
    (hreadB : ∀ entry ∈ sort, Readable modelFieldType b entry.field)
    (ha : Sortable sort (read a)) (hb : Sortable sort (read b)) :
    ∃ left right, KeysIn castOther a params' expressions left ∧
      KeysIn castOther b params' expressions right ∧
      compareRowsBySort (read a) (read b) sort = .ok (compareOrderKeys left right) := by
  induction sort generalizing params expressions with
  | nil =>
    cases h
    exact ⟨[], [], fun _ => rfl, fun _ => rfl, rfl⟩
  | cons entry sort ih =>
    obtain ⟨⟨first, middle⟩, hfirst, hrest⟩ := Except.bind_eq_ok.mp h
    obtain ⟨⟨others, last⟩, hothers, hresult⟩ := Except.bind_eq_ok.mp hrest
    cases hresult
    rw [List.forall_mem_cons] at hreadA hreadB
    obtain ⟨⟨s, hs⟩, ha⟩ := List.forall_mem_cons.mp ha
    obtain ⟨⟨t, ht⟩, hb⟩ := List.forall_mem_cons.mp hb
    obtain ⟨ds, hds, hkeysA⟩ := jsonSortExpressions_keys castOther hfirst hreadA.1 hs
    obtain ⟨es, hes, hkeysB⟩ := jsonSortExpressions_keys castOther hfirst hreadB.1 ht
    obtain ⟨left, right, hleft, hright, hcompare⟩ := ih hothers hreadA.2 hreadB.2 ha hb
    have hgrown := orderSql_grows hothers
    refine ⟨_, _, fun rest => orderKey_append (hkeysA.mono hgrown rest) (hleft rest),
      fun rest => orderKey_append (hkeysB.mono hgrown rest) (hright rest), ?_⟩
    rw [hds.compare hes, compareRowsBySort, hs, ht, hcompare]
    change (if compareValues s t = .eq then .ok _ else .ok _) = Except.ok _
    by_cases hequal : compareValues s t = .eq
    · rw [if_pos hequal, hequal]
      cases entry.direction <;> rfl
    · rw [if_neg hequal]
      cases entry.direction <;> cases hcmp : compareValues s t <;>
        first | rfl | exact absurd hcmp hequal

/-! ## Queries -/

theorem query_eq_ok {plan : Plan Operand} {sort : List CursorSort} {statement : Statement}
    (h : query modelFieldType plan sort = .ok statement) :
    acceptedPlan modelFieldType plan = true ∧
      ∃ params, whereCondition modelFieldType plan [] = .ok (statement.condition, params) ∧
        orderSql modelFieldType sort params = .ok (statement.order, statement.params) := by
  rw [query] at h
  by_cases haccepted : acceptedPlan modelFieldType plan = true
  · rw [haccepted] at h
    obtain ⟨⟨condition, params⟩, hcondition, hrest⟩ := Except.bind_eq_ok.mp h
    obtain ⟨⟨order, params'⟩, horder, hresult⟩ := Except.bind_eq_ok.mp hrest
    cases hresult
    exact ⟨haccepted, params, hcondition, horder⟩
  · rw [Bool.eq_false_of_not_eq_true haccepted] at h
    cases h

/-- The documents that `where` keeps. -/
def Statement.selects (castOther : Document → JsonComparisonType → Except PostgresError Datum)
    (statement : Statement) (document : Document) : Bool :=
  match statement.evalWhere castOther document with
  | .ok t => t = some true
  | .error _ => false

variable (castOther containment) in
/-- No cast of `where` fails, and it keeps the documents that `matchesPlan` accepts. -/
theorem evalWhere_decides {plan : Plan Operand} {sort : List CursorSort} {statement : Statement}
    (h : query modelFieldType plan sort = .ok statement)
    (hread : ∀ entry ∈ entriesOf plan, EntryReadable modelFieldType document entry) :
    ∃ t, statement.evalWhere castOther document = .ok t ∧
      ∀ holds, matchesPlan containment (read document) plan = .ok holds →
        (t = some true ↔ holds = true) := by
  obtain ⟨haccepted, params, hwhere, horder⟩ := query_eq_ok h
  obtain ⟨-, -, t, heval, hnone, ht⟩ :=
    whereCondition_decides castOther containment haccepted hread hwhere
  refine ⟨t, ?_, ht⟩
  rw [Statement.evalWhere]
  cases hcondition : statement.condition with
  | none => rw [hnone hcondition]
  | some condition =>
    have hvalue := (heval condition hcondition).mono (orderSql_grows horder) []
    rwa [List.append_nil] at hvalue

variable (castOther) in
theorem compareRows_eq {plan : Plan Operand} {sort : List CursorSort} {statement : Statement}
    (h : query modelFieldType plan sort = .ok statement) {a b : Document}
    (hreadA : ∀ entry ∈ sort, Readable modelFieldType a entry.field)
    (hreadB : ∀ entry ∈ sort, Readable modelFieldType b entry.field)
    (ha : Sortable sort (read a)) (hb : Sortable sort (read b)) :
    ∃ order, statement.compareRows castOther a b = .ok order ∧
      compareRowsBySort (read a) (read b) sort = .ok order := by
  obtain ⟨-, params, -, horder⟩ := query_eq_ok h
  obtain ⟨left, right, hleft, hright, hcompare⟩ :=
    orderSql_compares castOther horder hreadA hreadB ha hb
  have hleft := hleft []
  have hright := hright []
  rw [List.append_nil] at hleft hright
  refine ⟨_, ?_, hcompare⟩
  rw [Statement.compareRows, hleft, hright]
  rfl

/-- The documents of a table that a query can be asked about: `where` and `order by` read the fields as
the application does, and the accepted ones can be sorted. -/
structure Queryable (modelFieldType : String → Option FieldType)
    (containment : Option Row → WhereEntry Operand → Except PortableError Bool) (plan : Plan Operand)
    (sort : List CursorSort) (document : Document) : Prop where
  where_fields : ∀ entry ∈ entriesOf plan, EntryReadable modelFieldType document entry
  sort_fields : ∀ entry ∈ sort, Readable modelFieldType document entry.field
  decided : ∃ holds, matchesPlan containment (read document) plan = .ok holds
  sortable : matchesPlan containment (read document) plan = .ok true → Sortable sort (read document)

def nameType (field : String) : Option FieldType := if field = "name" then some .string else none

def named : Document := .object [("id", .string ['a']), ("name", .string ['b', 'c'])]

def unnamed : Document := .object [("id", .string ['b']), ("name", .null)]

def startsWithB : Plan Operand :=
  .node [⟨"name", .startsWith, .scalar (.string [98]), none⟩]
    [.node [⟨"name", .isNull, .absent, none⟩] []]

def byName : List CursorSort := [⟨"name", .desc⟩, ⟨"id", .asc⟩]

theorem queryable_person {id : Text} {name : Document}
    (hname : name = .null ∨ ∃ text, name = .string text)
    (hdecided : ∃ holds, matchesPlan (fun _ _ => .ok false)
      (read (.object [("id", .string id), ("name", name)])) startsWithB = .ok holds) :
    Queryable nameType (fun _ _ => .ok false) startsWithB byName
      (.object [("id", .string id), ("name", name)]) := by
  have hvalue : valueFor (read (.object [("id", .string id), ("name", name)])) "name" =
      .ok (some (read name)) := rfl
  have hconforms : Conforms nameType (.object [("id", .string id), ("name", name)]) := by
    intro field type value htype hfield
    rw [nameType, Option.ite_none_right_eq_some] at htype
    obtain ⟨rfl, htype⟩ := htype
    cases htype
    rw [hvalue] at hfield
    cases hfield
    rcases hname with rfl | ⟨text, rfl⟩ <;> trivial
  have hreadable (field : String) (hpath : portablePath (segments field)
      (.object [("id", .string id), ("name", name)]) = true) :
      Readable nameType (.object [("id", .string id), ("name", name)]) field :=
    ⟨hpath, hconforms⟩
  refine ⟨?_, ?_, hdecided, fun _ => ?_⟩
  · rw [show entriesOf startsWithB = [⟨"name", .startsWith, .scalar (.string [98]), none⟩,
      ⟨"name", .isNull, .absent, none⟩] from rfl, List.forall_mem_cons]
    refine ⟨⟨List.forall_mem_singleton.mpr rfl, hreadable _ ?_⟩,
      List.forall_mem_singleton.mpr ⟨nofun, hreadable _ ?_⟩⟩ <;>
    rcases hname with rfl | ⟨text, rfl⟩ <;> rfl
  · rw [byName, List.forall_mem_cons]
    refine ⟨hreadable _ ?_, List.forall_mem_singleton.mpr (hreadable _ rfl)⟩
    rcases hname with rfl | ⟨text, rfl⟩ <;> rfl
  · rw [Sortable, byName, List.forall_mem_cons]
    refine ⟨?_, List.forall_mem_singleton.mpr ⟨_, rfl⟩⟩
    rcases hname with rfl | ⟨text, rfl⟩ <;> exact ⟨_, rfl⟩

end ActiveTs.Sql.Postgres
