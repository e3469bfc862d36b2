import ActiveTs.Sql.SqliteStatements

/-! # Queries of the SQLite adapter

The compiled `WHERE` is true on the rows that `matchesPlan` accepts, and the compiled `ORDER BY`
compares rows as `compareRowsBySort` does. -/

namespace ActiveTs.Sql.Sqlite

open ActiveTs.Query (Operator WhereEntry Plan)

variable {text : Row → String}
variable {containment : Option Row → WhereEntry Operand → Except PortableError Bool}

/-! ## Fields -/

theorem compareTruth_text (a b : String) :
    compareTruth .eq (.text a) (.text b) = some (decide (a = b)) := by
  have h : List.compareLex compare a.toList b.toList = .eq ↔ a = b := by
    rw [← List.compare_eq_compareLex, Std.LawfulEqCmp.compare_eq_iff_eq, String.toList_inj]
  exact congrArg some (decide_eq_decide.mpr h)

theorem compareTruth_null (operator : Comparison) (value : Value) :
    compareTruth operator .null value = none := rfl

theorem compareTruth_integer_real (operator : Comparison) (a : Int) (b : ℚ) :
    compareTruth operator (.integer a) (.real b) = some (operator.holds (compare (a : ℚ) b)) := rfl

theorem compareTruth_real (operator : Comparison) (a b : ℚ) :
    compareTruth operator (.real a) (.real b) = some (operator.holds (compare a b)) := rfl

@[simp] theorem whenText_null (value : String) (result other : Value) :
    Value.null.whenText value result other = other := rfl

@[simp] theorem whenText_text (test value : String) (result other : Value) :
    (Value.text test).whenText value result other = if test = value then result else other := by
  simp only [Value.whenText, compareTruth_text, Option.getD_some, decide_eq_true_eq]

theorem compareTruth_ne_text (a b : String) :
    compareTruth .ne (.text a) (.text b) = some (decide (a ≠ b)) := by
  have h : List.compareLex compare a.toList b.toList = .eq ↔ a = b := by
    rw [← List.compare_eq_compareLex, Std.LawfulEqCmp.compare_eq_iff_eq, String.toList_inj]
  exact congrArg some (decide_eq_decide.mpr (not_congr h))

/-- The type of a value, with the numbers as one. -/
def typeKeyOf : Option Row → Value
  | some (.integer _) => .text "number"
  | some (.real _) => .text "number"
  | value => jsonType value

/-- What `ORDER BY` compares below the rank. -/
def orderOf (text : Row → String) : Option Row → Value
  | some (.string value) => .blob (sqliteStringOrderKey value)
  | value => jsonExtract text value

/-- What predicates compare. -/
def comparisonOf (text : Row → String) : Option Row → Value
  | none => .text "null"
  | some .null => .text "null"
  | some (.string value) => .blob (sqliteStringOrderKey value)
  | value => jsonExtract text value

section
variable (field : Field) (row : Row) (params : List Value)

theorem eval_type : field.type.eval text row params = (jsonType (lookup field.path row), params) :=
  rfl

theorem eval_typeKey :
    field.typeKey.eval text row params = (typeKeyOf (lookup field.path row), params) := by
  simp only [Field.typeKey, Expr.eval_caseText, Expr.eval_literal, eval_type]
  rcases lookup field.path row with _ | _ | (_ | _) | _ | _ | _ | _ | _ <;>
    simp [jsonType, typeKeyOf]

theorem eval_orderValue :
    field.orderValue.eval text row params = (orderOf text (lookup field.path row), params) := by
  simp only [Field.orderValue, Field.value, Expr.eval_caseText, Expr.eval_jsonExtract,
    Expr.eval_stringOrderKey, eval_type]
  rcases lookup field.path row with _ | _ | (_ | _) | _ | _ | _ | _ | _ <;>
    simp [jsonType, orderOf, sqliteJsonStringOrderKey]

theorem eval_comparisonValue : field.comparisonValue.eval text row params =
    (comparisonOf text (lookup field.path row), params) := by
  simp only [Field.comparisonValue, Expr.eval_coalesce, Expr.eval_literal, eval_orderValue]
  rcases lookup field.path row with _ | _ | (_ | _) | _ | _ | _ | _ | _ <;>
    rfl

end

/-! ## Paths -/

/-- Both read the same value, whenever `valueFor` reads one. -/
theorem lookup_of_valueAt {path : List String} {row : Row} {value : Option Row}
    (hpath : ∀ key ∈ path, numericSegment key = false) (h : valueAt path row = .ok value) :
    lookup path row = value := by
  induction path generalizing row with
  | nil => exact Except.ok.inj h
  | cons key path ih =>
    rw [List.forall_mem_cons] at hpath
    cases row with
    | object fields =>
      simp only [valueAt, ownValue, bind, Except.bind, lookup] at h ⊢
      cases hfield : fields.lookup key with
      | none =>
        rw [hfield] at h
        exact Except.ok.inj h
      | some item =>
        rw [hfield] at h
        exact ih hpath.2 h
    | array items =>
      simp only [valueAt, ownValue, arrayItem_eq_none hpath.1] at h
      by_cases hlength : key = "length"
      · rw [if_pos hlength] at h
        cases h
      · rw [if_neg hlength] at h
        exact Except.ok.inj h
    | null => exact Except.ok.inj h
    | bool _ => exact Except.ok.inj h
    | integer _ => exact Except.ok.inj h
    | real _ => exact Except.ok.inj h
    | string _ => exact Except.ok.inj h

theorem lookup_of_valueFor {name : String} {field : Field} {row : Row} {value : Option Row}
    (hfield : fieldSql name = .ok field) (h : valueFor row name = .ok value) :
    lookup field.path row = value := by
  simp only [fieldSql] at hfield
  split at hfield
  · cases hfield
  split at hfield
  · cases hfield
  next hsafe hplain =>
    cases hfield
    have hsafe : safeFieldPath name = true := by simpa using hsafe
    rw [valueFor, if_pos hsafe] at h
    apply lookup_of_valueAt _ h
    intro key hkey
    have hplain : (segments name).all plainSegment = true := by simpa using hplain
    have hkey := List.all_eq_true.mp hplain key hkey
    rw [plainSegment, Bool.and_eq_true, Bool.not_eq_true'] at hkey
    exact hkey.1

/-! ## Texts -/

/-- High bytes decide first. -/
theorem unitBytes_order : OrderEncoding (compare : Fin 65536 → Fin 65536 → Ordering)
    (compare : Byte → Byte → Ordering) unitBytes where
  nonempty _ := List.cons_ne_nil _ _
  order := by
    intro a b hab xs ys
    simp only [unitBytes, List.cons_append, List.compareLex_cons_cons, List.nil_append]
    change (compare (a.1 / 256) (b.1 / 256)).then ((compare (a.1 % 256) (b.1 % 256)).then _) =
      compare a.1 b.1
    have hne : a.1 ≠ b.1 := fun h => hab (Fin.ext h)
    rcases Nat.lt_trichotomy (a.1 / 256) (b.1 / 256) with hhigh | hhigh | hhigh
    · rw [Nat.compare_eq_lt.mpr hhigh, Nat.compare_eq_lt.mpr (show a.1 < b.1 by omega)]
      rfl
    · rw [Nat.compare_eq_eq.mpr hhigh, Ordering.eq_then]
      rcases Nat.lt_or_gt_of_ne (show a.1 % 256 ≠ b.1 % 256 by omega) with hlow | hlow
      · rw [Nat.compare_eq_lt.mpr hlow, Nat.compare_eq_lt.mpr (show a.1 < b.1 by omega)]
        rfl
      · rw [Nat.compare_eq_gt.mpr hlow, Nat.compare_eq_gt.mpr (show b.1 < a.1 by omega)]
        rfl
    · rw [Nat.compare_eq_gt.mpr hhigh, Nat.compare_eq_gt.mpr (show b.1 < a.1 by omega)]
      rfl

theorem compareLex_sqliteStringOrderKey (a b : JsString) :
    List.compareLex compare (sqliteStringOrderKey a) (sqliteStringOrderKey b) = compareText a b :=
  unitBytes_order.compareLex_flatMap a b

theorem unitBytes_prefix_iff (a b : Fin 65536) (xs ys : List Byte) :
    unitBytes a ++ xs <+: unitBytes b ++ ys ↔ a = b ∧ xs <+: ys := by
  simp only [unitBytes, List.cons_append, List.nil_append, List.cons_prefix_cons, Fin.ext_iff,
    ← and_assoc]
  have hparts : (a.1 / 256 = b.1 / 256 ∧ a.1 % 256 = b.1 % 256) ↔ a.1 = b.1 := by omega
  rw [hparts]

theorem sqliteStringOrderKey_prefix_iff (a b : JsString) :
    sqliteStringOrderKey a <+: sqliteStringOrderKey b ↔ a <+: b := by
  induction a generalizing b with
  | nil => simp [sqliteStringOrderKey]
  | cons unit a ih =>
    cases b with
    | nil => simp [sqliteStringOrderKey, unitBytes]
    | cons unit' b =>
      have hrest := ih b
      simp only [sqliteStringOrderKey, List.flatMap_cons] at hrest ⊢
      rw [unitBytes_prefix_iff, hrest, List.cons_prefix_cons]

/-! ## Conditions -/

/-- A compiled condition takes its own parameters and leaves those of the text behind it. -/
def Evaluates (text : Row → String) (row : Row) (compiled : Compiled) (t : Truth) : Prop :=
  ∀ params, compiled.1.eval text row (compiled.2 ++ params) = (t, params)

namespace Evaluates

variable {row : Row} {c d : Compiled} {t u : Truth}

theorem and (hc : Evaluates text row c t) (hd : Evaluates text row d u) :
    Evaluates text row (.and c.1 d.1, c.2 ++ d.2) (t.and u) := by
  intro params
  simp only [Condition.eval_and, List.append_assoc, hc _, hd _]

theorem or (hc : Evaluates text row c t) (hd : Evaluates text row d u) :
    Evaluates text row (.or c.1 d.1, c.2 ++ d.2) (t.or u) := by
  intro params
  simp only [Condition.eval_or, List.append_assoc, hc _, hd _]

theorem not (hc : Evaluates text row c t) : Evaluates text row (.not c.1, c.2) t.not := by
  intro params
  simp only [Condition.eval_not, hc _]

theorem coalesceFalse (hc : Evaluates text row c t) :
    Evaluates text row (.coalesceFalse c.1, c.2) t.orFalse := by
  intro params
  simp only [Condition.eval_coalesceFalse, hc _]

theorem joinAnd {cs : List Compiled} {ts : List Truth} (hc : Evaluates text row c t)
    (hcs : List.Forall₂ (Evaluates text row) cs ts) :
    Evaluates text row (Sqlite.joinAnd c cs) (ts.foldl Truth.and t) := by
  induction hcs generalizing c t with
  | nil => exact hc
  | cons hd _ ih => exact ih (hc.and hd)

theorem joinOr {cs : List Compiled} {ts : List Truth} (hc : Evaluates text row c t)
    (hcs : List.Forall₂ (Evaluates text row) cs ts) :
    Evaluates text row (Sqlite.joinOr c cs) (ts.foldl Truth.or t) := by
  induction hcs generalizing c t with
  | nil => exact hc
  | cons hd _ ih => exact ih (hc.or hd)

end Evaluates

/-- The condition is true where the portable one holds, and not where it does not hold. Nothing is
asked where the portable one throws. -/
def Decides (text : Row → String) (row : Row) (compiled : Compiled)
    (portable : Except PortableError Bool) : Prop :=
  ∃ t, Evaluates text row compiled t ∧ ∀ holds, portable = .ok holds → (t = some true ↔ holds = true)

/-! ## Scalars -/

theorem compare_intCast (a b : Int) : compare (a : ℚ) (b : ℚ) = compare a b := by
  rcases lt_trichotomy a b with h | h | h
  · rw [compare_lt_iff_lt.mpr h, compare_lt_iff_lt.mpr (Rat.intCast_lt_intCast.mpr h)]
  · rw [h, compare_eq_iff_eq.mpr rfl, compare_eq_iff_eq.mpr rfl]
  · rw [compare_gt_iff_gt.mpr h, compare_gt_iff_gt.mpr (Rat.intCast_lt_intCast.mpr h)]

theorem compareTruth_blob (operator : Comparison) (a b : JsString) :
    compareTruth operator (.blob (sqliteStringOrderKey a)) (.blob (sqliteStringOrderKey b)) =
      some (operator.holds (compareText a b)) := by
  rw [← compareLex_sqliteStringOrderKey]
  rfl

theorem compareTruth_typeKeyOf (value : Option Row) (kind : String) :
    compareTruth .eq (typeKeyOf value) (.text kind) = some true ↔
      typeKeyOf value = .text kind := by
  rcases value with _ | _ | (_ | _) | _ | _ | _ | _ | _ <;>
    simp only [typeKeyOf, jsonType, compareTruth_text, compareTruth_null, Value.text.injEq,
      reduceCtorEq, Option.some.injEq, decide_eq_true_eq]

/-- Guard and comparison together; the guard keeps values of other types away. -/
theorem scalarTruth_iff {operand : Scalar JsString} {kind : String} {bound : Value}
    (hparam : scalarParam operand = some (kind, bound)) (operator : Comparison)
    (value : Option Row) :
    (compareTruth .eq (typeKeyOf value) (.text kind)).and
        (compareTruth operator (comparisonOf text value) bound) = some true ↔
      scalarHolds operator value operand = true := by
  rw [Truth.and_eq_true, compareTruth_typeKeyOf]
  cases operand with
  | null => cases hparam
  | bool b =>
    cases hparam
    rcases value with _ | _ | (_ | _) | _ | _ | _ | _ | _ <;> cases b <;>
      simp [typeKeyOf, jsonType, jsonExtract, scalarHolds, Json.scalar, comparisonOf,
        compareTruth_integer_real, compareTruth_real]
  | number b =>
    cases hparam
    rcases value with _ | _ | (_ | _) | _ | _ | _ | _ | _ <;>
      simp [typeKeyOf, jsonType, jsonExtract, scalarHolds, Json.scalar, comparisonOf,
        compareTruth_integer_real, compareTruth_real]
  | string b =>
    cases hparam
    rcases value with _ | _ | (_ | _) | _ | _ | _ | _ | _ <;>
      simp [typeKeyOf, jsonType, scalarHolds, Json.scalar, comparisonOf, compareTruth_blob]

/-- Comparison with `null`, which only `=` has. -/
theorem nullTruth_iff (value : Option Row) :
    (compareTruth .eq (typeKeyOf value) (.text "null")).and
        (compareTruth .eq (comparisonOf text value) (.text "null")) = some true ↔
      scalarHolds .eq value .null = true := by
  rw [Truth.and_eq_true, compareTruth_typeKeyOf]
  rcases value with _ | _ | (_ | _) | _ | _ | _ | _ | _ <;>
    simp [typeKeyOf, jsonType, scalarHolds, Json.scalar, comparisonOf, compareTruth_text,
      Comparison.holds]

variable (text) in
theorem scalarCondition_evaluates {field : Field} {operand : Operand} {operator : Comparison}
    {compiled : Compiled} (h : scalarCondition field operand operator = .ok compiled) (row : Row) :
    ∃ s t, operand = .scalar s ∧ Evaluates text row compiled t ∧
      (t = some true ↔ scalarHolds operator (lookup field.path row) s = true) := by
  have hnull (h : scalarCondition field (.scalar .null) .eq = .ok compiled) :
      Evaluates text row compiled ((compareTruth .eq (typeKeyOf (lookup field.path row))
        (.text "null")).and (compareTruth .eq (comparisonOf text (lookup field.path row))
        (.text "null"))) := by
    cases h
    intro params
    simp only [Condition.eval_and, Condition.eval_compare, Expr.eval_literal, eval_typeKey,
      eval_comparisonValue, List.nil_append]
  have hbound {s : Scalar JsString} {kind : String} {bound : Value}
      (hparam : scalarParam s = some (kind, bound))
      (h : scalarCondition field (.scalar s) operator = .ok compiled) :
      Evaluates text row compiled ((compareTruth .eq (typeKeyOf (lookup field.path row))
        (.text kind)).and (compareTruth operator (comparisonOf text (lookup field.path row))
        bound)) := by
    have hcompiled : (Condition.and (.compare .eq field.typeKey (.literal kind))
        (.compare operator field.comparisonValue .param), [bound]) = compiled := by
      cases s with
      | null => cases hparam
      | _ => 
        simp only [scalarCondition, hparam] at h
        exact Except.ok.inj h
    subst hcompiled
    intro params
    simp only [Condition.eval_and, Condition.eval_compare, Expr.eval_literal, Expr.eval_param,
      eval_typeKey, eval_comparisonValue, List.singleton_append, List.headD_cons, List.tail_cons]
  cases operand with
  | absent => cases h
  | list values => cases h
  | scalar s =>
    cases hparam : scalarParam s with
    | some param => exact ⟨s, _, rfl, hbound hparam h, scalarTruth_iff hparam _ _⟩
    | none =>
      cases s with
      | null =>
        cases operator with
        | eq => exact ⟨.null, _, rfl, hnull h, nullTruth_iff _⟩
        | _ => cases h
      | _ => cases hparam

/-! ## Entries -/

theorem evaluates_isNull (field : Field) (row : Row) :
    Evaluates text row (.isNull field.type, []) (some (lookup field.path row).isNone) := by
  intro params
  simp only [Condition.eval_isNull, eval_type, List.nil_append]
  rcases lookup field.path row with _ | _ | (_ | _) | _ | _ | _ | _ | _ <;> rfl

theorem evaluates_type (comparison : Comparison) (field : Field) (kind : String) (row : Row) :
    Evaluates text row (.compare comparison field.type (.literal kind), [])
      (compareTruth comparison (jsonType (lookup field.path row)) (.text kind)) := by
  intro params
  simp only [Condition.eval_compare, Expr.eval_literal, eval_type, List.nil_append]

variable (text) in
theorem inConditions_evaluates {field : Field} {values : List (Scalar JsString)}
    {cs : List Compiled} (h : inConditions field values = .ok cs) (row : Row) :
    ∃ ts, List.Forall₂ (Evaluates text row) cs ts ∧
      ((∃ t ∈ ts, t = some true) ↔ ∃ s ∈ values, scalarHolds .eq (lookup field.path row) s = true) := by
  induction values generalizing cs with
  | nil =>
    cases h
    exact ⟨[], .nil, by simp⟩
  | cons value values ih =>
    obtain ⟨first, hfirst, hrest⟩ := Except.bind_eq_ok.mp h
    obtain ⟨rest, hconditions, hresult⟩ := Except.bind_eq_ok.mp hrest
    cases hresult
    obtain ⟨s, t, hs, heval, ht⟩ := scalarCondition_evaluates text hfirst row
    obtain ⟨ts, hevals, hts⟩ := ih hconditions
    cases hs
    refine ⟨t :: ts, .cons heval hevals, ?_⟩
    rw [List.exists_mem_cons_iff, List.exists_mem_cons_iff, ht, hts]

theorem compareTruth_bytes (a b : List Byte) :
    compareTruth .eq (.blob a) (.blob b) = some (decide (a = b)) := by
  have h : List.compareLex compare a b = .eq ↔ a = b := by
    rw [← List.compare_eq_compareLex, Std.LawfulEqCmp.compare_eq_iff_eq]
  exact congrArg some (decide_eq_decide.mpr h)

theorem floor_length (n : Nat) : ((n : ℚ).floor).toNat = n := by
  change ((n : Int) : ℚ).floor.toNat = n
  rw [Rat.floor_intCast, Int.toNat_natCast]

variable (text) in
/-- A row starts with the operand when its bytes do. -/
theorem evaluates_startsWith (field : Field) (value : JsString) (row : Row) :
    ∃ t, Evaluates text row (.and (.compare .eq field.type (.literal "text"))
        (.compare .eq (.substr field.orderValue .param) .param),
        [.real (sqliteStringOrderKey value).length, .blob (sqliteStringOrderKey value)]) t ∧
      (t = some true ↔ startsWith (lookup field.path row) (.scalar (.string value)) = true) := by
  refine ⟨_, fun params => by
    simp only [Condition.eval_and, Condition.eval_compare, Expr.eval_literal, Expr.eval_param,
      Expr.eval_substr, eval_type, eval_orderValue, List.cons_append,
      List.nil_append, List.headD_cons, List.tail_cons]; rfl, ?_⟩
  rw [Truth.and_eq_true]
  rcases lookup field.path row with _ | _ | (_ | _) | _ | _ | stored | _ | _ <;>
    simp only [jsonType, compareTruth_text, compareTruth_null, startsWith, Option.bind, Json.scalar,
      reduceCtorEq, Bool.false_eq_true, Option.some.injEq, String.reduceEq, decide_false, false_and,
      decide_true, true_and]
  rw [orderOf, Value.substr, floor_length, compareTruth_bytes, Option.some.injEq, decide_eq_true_eq,
    List.isPrefixOf_iff_prefix, ← sqliteStringOrderKey_prefix_iff, List.prefix_iff_eq_take, eq_comm]

theorem Decides.of_eq {row : Row} {compiled : Compiled} {b : Bool}
    {portable : Except PortableError Bool} (h : Decides text row compiled (.ok b))
    (hportable : ∀ holds, portable = .ok holds → b = holds) :
    Decides text row compiled portable := by
  obtain ⟨t, heval, ht⟩ := h
  refine ⟨t, heval, fun holds hok => ?_⟩
  rw [← hportable holds hok]
  exact ht b rfl

theorem decides_scalar {field : Field} {value : Operand} {operator : Comparison} {compiled : Compiled}
    (h : scalarCondition field value operator = .ok compiled) (row : Row) :
    ∃ s, value = .scalar s ∧
      Decides text row compiled (.ok (scalarHolds operator (lookup field.path row) s)) := by
  obtain ⟨s, t, hs, heval, ht⟩ := scalarCondition_evaluates text h row
  refine ⟨s, hs, t, heval, fun holds hok => ?_⟩
  rw [ht, ← Except.ok.inj hok]

theorem decides_equal {field : Field} {value : Operand} {compiled : Compiled}
    (h : scalarCondition field value .eq = .ok compiled) (row : Row) :
    Decides text row compiled (.ok (strictEqual (lookup field.path row) value)) := by
  obtain ⟨s, rfl, hdecides⟩ := decides_scalar h row
  rw [← scalarHolds_eq]
  exact hdecides

variable (text) in
theorem decides_range {field : Field} {value : Operand} {operator : Comparison} {compiled : Compiled}
    (hvalid : rangeOperand value = true) (h : scalarCondition field value operator = .ok compiled)
    (row : Row) :
    Decides text row compiled
      (.ok ((compareRangeValues (lookup field.path row) value).any operator.holds)) := by
  obtain ⟨s, rfl, hdecides⟩ := decides_scalar h row
  rw [← scalarHolds_range hvalid]
  exact hdecides

theorem decides_ne {field : Field} {value : Operand} {row : Row} {compiled : Compiled}
    (h : scalarCondition field value .eq = .ok compiled) :
    Decides text row (.and (.not (.isNull field.type)) (.not (.coalesceFalse compiled.1)), compiled.2)
      (.ok ((lookup field.path row).isSome && !strictEqual (lookup field.path row) value)) := by
  obtain ⟨s, t, rfl, heval, ht⟩ := scalarCondition_evaluates text h row
  refine ⟨_, (evaluates_isNull field row).not.and heval.coalesceFalse.not, ?_⟩
  rintro holds hok
  rw [← Except.ok.inj hok, Truth.and_eq_true, Truth.not_eq_true, Truth.not_eq_true,
    Truth.orFalse_eq_false, Ne, ht, scalarHolds_eq]
  cases lookup field.path row <;> simp

theorem decides_in {field : Field} {values : List (Scalar JsString)} {row : Row}
    {first : Compiled} {rest : List Compiled} (h : inConditions field values = .ok (first :: rest)) :
    Decides text row (joinOr first rest)
      (.ok (arrayIncludesValue (.list values) (lookup field.path row))) := by
  obtain ⟨ts, hevals, hts⟩ := inConditions_evaluates text h row
  cases hevals with
  | cons hfirst hrest =>
    refine ⟨_, hfirst.joinOr hrest, ?_⟩
    rintro holds hok
    rw [List.exists_mem_cons_iff] at hts
    rw [← Except.ok.inj hok, Truth.foldl_or_eq_true, hts, arrayIncludesValue, List.any_eq_true]
    simp only [scalarHolds_eq, strictEqual]

theorem decides_null (field : Field) (row : Row) :
    Decides text row (.or (.isNull field.type) (.compare .eq field.type (.literal "null")), [])
      (.ok ((lookup field.path row).all fun value => value.scalar = some .null)) := by
  refine ⟨_, (evaluates_isNull field row).or (evaluates_type .eq field "null" row), ?_⟩
  rintro holds hok
  rw [← Except.ok.inj hok, Truth.or_eq_true]
  rcases lookup field.path row with _ | _ | (_ | _) | _ | _ | _ | _ | _ <;>
    simp [jsonType, compareTruth_text, compareTruth_null, Json.scalar]

theorem decides_notNull (field : Field) (row : Row) :
    Decides text row
      (.and (.not (.isNull field.type)) (.compare .ne field.type (.literal "null")), [])
      (.ok ((lookup field.path row).any fun value => value.scalar ≠ some .null)) := by
  refine ⟨_, (evaluates_isNull field row).not.and (evaluates_type .ne field "null" row), ?_⟩
  rintro holds hok
  rw [← Except.ok.inj hok, Truth.and_eq_true, Truth.not_eq_true]
  rcases lookup field.path row with _ | _ | (_ | _) | _ | _ | _ | _ | _ <;>
    simp [jsonType, compareTruth_ne_text, compareTruth_null, Json.scalar]

theorem decides_between {field : Field} {value value2 : Operand} {lower upper : Compiled}
    (hvalue : rangeOperand value = true) (hvalue2 : rangeOperand value2 = true)
    (hlower : scalarCondition field value .ge = .ok lower)
    (hupper : scalarCondition field value2 .le = .ok upper) (row : Row) :
    Decides text row (.and lower.1 upper.1, lower.2 ++ upper.2)
      (.ok ((compareRangeValues (lookup field.path row) value).any (· ≠ .lt) &&
        (compareRangeValues (lookup field.path row) value2).any (· ≠ .gt))) := by
  obtain ⟨t, hevalLower, ht⟩ := decides_range text hvalue hlower row
  obtain ⟨u, hevalUpper, hu⟩ := decides_range text hvalue2 hupper row
  refine ⟨_, hevalLower.and hevalUpper, ?_⟩
  rintro holds hok
  rw [← Except.ok.inj hok, Truth.and_eq_true, ht _ rfl, hu _ rfl, Bool.and_eq_true]
  rfl

theorem decides_startsWith {field : Field} {value : Operand} {compiled : Compiled}
    (h : startsWithCondition field value = .ok compiled) (row : Row) :
    Decides text row compiled (.ok (startsWith (lookup field.path row) value)) := by
  obtain _ | s | _ := value
  · cases h
  · cases s with
    | string value =>
      rw [startsWithCondition] at h
      by_cases hempty : sqliteStringOrderKey value = []
      · rw [if_pos hempty] at h
        cases h
        refine ⟨_, evaluates_type .eq field "text" row, ?_⟩
        rintro holds hok
        have hvalue : value = [] := by
          have hgrown : value <+: [] := by
            rw [← sqliteStringOrderKey_prefix_iff, hempty]
            exact List.nil_prefix
          exact List.prefix_nil.mp hgrown
        rw [← Except.ok.inj hok, hvalue]
        rcases lookup field.path row with _ | _ | (_ | _) | _ | _ | _ | _ | _ <;>
          simp [jsonType, compareTruth_text, compareTruth_null, Json.scalar, startsWith]
      · rw [if_neg hempty] at h
        cases h
        obtain ⟨t, heval, ht⟩ := evaluates_startsWith text field value row
        exact ⟨t, heval, fun holds hok => by rw [ht, ← Except.ok.inj hok]⟩
    | _ => cases h
  · cases h

theorem valueFor_of_compareWhere {row : Row} {entry : WhereEntry Operand} {field : Field}
    {holds : Bool} (hfield : fieldSql entry.field = .ok field)
    (h : compareWhere containment row entry = .ok holds) :
    valueFor row entry.field = .ok (lookup field.path row) := by
  cases hvalue : valueFor row entry.field with
  | error e =>
    rw [compareWhere, hvalue] at h
    cases h
  | ok value => rw [lookup_of_valueFor hfield hvalue]

variable (text containment) in
theorem entryCondition_decides {entry : WhereEntry Operand} {compiled : Compiled}
    (hvalid : validEntry entry = true) (h : entryCondition entry = .ok compiled) (row : Row) :
    Decides text row compiled (compareWhere containment row entry) := by
  obtain ⟨name, op, value, value2⟩ := entry
  obtain ⟨field, hfield, hcondition⟩ := Except.bind_eq_ok.mp h
  have hread {holds : Bool}
      (hok : compareWhere containment row ⟨name, op, value, value2⟩ = .ok holds) :
      valueFor row name = .ok (lookup field.path row) := valueFor_of_compareWhere hfield hok
  cases op with
  | eq =>
    apply (decides_equal hcondition row).of_eq
    intro holds hok
    rw [compareWhere, hread hok] at hok
    exact Except.ok.inj hok
  | ne =>
    obtain ⟨condition, hscalar, hresult⟩ := Except.bind_eq_ok.mp hcondition
    cases hresult
    apply (decides_ne hscalar).of_eq
    intro holds hok
    rw [compareWhere, hread hok] at hok
    exact Except.ok.inj hok
  | gt =>
    apply (decides_range text hvalid hcondition row).of_eq
    intro holds hok
    rw [compareWhere, hread hok] at hok
    rw [any_gt]
    exact Except.ok.inj hok
  | ge =>
    apply (decides_range text hvalid hcondition row).of_eq
    intro holds hok
    rw [compareWhere, hread hok] at hok
    exact Except.ok.inj hok
  | lt =>
    apply (decides_range text hvalid hcondition row).of_eq
    intro holds hok
    rw [compareWhere, hread hok] at hok
    rw [any_lt]
    exact Except.ok.inj hok
  | le =>
    apply (decides_range text hvalid hcondition row).of_eq
    intro holds hok
    rw [compareWhere, hread hok] at hok
    exact Except.ok.inj hok
  | between =>
    obtain ⟨lower, hlower, hrest⟩ := Except.bind_eq_ok.mp hcondition
    obtain ⟨upper, hupper, hresult⟩ := Except.bind_eq_ok.mp hrest
    cases hresult
    simp only [validEntry, Bool.and_eq_true] at hvalid
    apply (decides_between hvalid.1.1 hvalid.1.2 hlower hupper row).of_eq
    intro holds hok
    rw [compareWhere, hread hok] at hok
    exact Except.ok.inj hok
  | «in» =>
    cases value with
    | absent => cases hcondition
    | scalar _ => cases hcondition
    | list values =>
      obtain ⟨conditions, hin, hresult⟩ := Except.bind_eq_ok.mp hcondition
      cases conditions with
      | nil =>
        cases values with
        | nil => cases hvalid
        | cons value values =>
          obtain ⟨_, _, hrest⟩ := Except.bind_eq_ok.mp hin
          obtain ⟨_, _, hcons⟩ := Except.bind_eq_ok.mp hrest
          cases hcons
      | cons first rest =>
        cases hresult
        apply (decides_in hin).of_eq
        intro holds hok
        rw [compareWhere, hread hok] at hok
        exact Except.ok.inj hok
  | isNull =>
    cases hcondition
    apply (decides_null field row).of_eq
    intro holds hok
    rw [compareWhere, hread hok] at hok
    exact Except.ok.inj hok
  | isNotNull =>
    cases hcondition
    apply (decides_notNull field row).of_eq
    intro holds hok
    rw [compareWhere, hread hok] at hok
    exact Except.ok.inj hok
  | startsWith =>
    apply (decides_startsWith hcondition row).of_eq
    intro holds hok
    rw [compareWhere, hread hok] at hok
    exact Except.ok.inj hok
  | _ => cases hvalid

/-! ## Plans -/

variable (text containment) in
theorem entryConditions_evaluate {entries : List (WhereEntry Operand)} {cs : List Compiled}
    (hvalid : ∀ entry ∈ entries, validEntry entry = true) (h : entryConditions entries = .ok cs)
    (row : Row) :
    ∃ ts, List.Forall₂ (Evaluates text row) cs ts ∧
      ∀ holds, compareWheres containment row entries = .ok holds →
        ((∀ t ∈ ts, t = some true) ↔ holds = true) := by
  induction entries generalizing cs with
  | nil =>
    cases h
    exact ⟨[], .nil, fun holds hok => by simp [← Except.ok.inj hok]⟩
  | cons entry entries ih =>
    rw [List.forall_mem_cons] at hvalid
    obtain ⟨first, hfirst, hrest⟩ := Except.bind_eq_ok.mp h
    obtain ⟨rest, hconditions, hresult⟩ := Except.bind_eq_ok.mp hrest
    cases hresult
    obtain ⟨t, heval, ht⟩ := entryCondition_decides text containment
      hvalid.1 hfirst row
    obtain ⟨ts, hevals, hts⟩ := ih hvalid.2 hconditions
    refine ⟨t :: ts, .cons heval hevals, fun holds hok => ?_⟩
    rw [compareWheres] at hok
    obtain ⟨own, hown, hloop⟩ := Except.bind_eq_ok.mp hok
    rw [List.forall_mem_cons, ht own hown]
    cases own with
    | true => rw [hts holds hloop, eq_self, true_and]
    | false => simp [← Except.ok.inj hloop]

variable (text containment) in
theorem whereSqls_evaluate {branches : List (Plan Operand)} {cs : List Compiled} {row : Row}
    (ih : ∀ branch ∈ branches, ∀ compiled, validPlan branch = true →
      whereSql branch = .ok compiled →
        Decides text row compiled (matchesPlan containment row branch))
    (hvalid : validBranches branches = true) (h : whereSqls branches = .ok cs) :
    ∃ ts, List.Forall₂ (Evaluates text row) cs ts ∧
      ∀ holds, matchesBranch containment row branches = .ok holds →
        ((∃ t ∈ ts, t = some true) ↔ holds = true) := by
  induction branches generalizing cs with
  | nil =>
    cases h
    exact ⟨[], .nil, fun holds hok => by simp [← Except.ok.inj hok]⟩
  | cons branch branches ihbranches =>
    rw [List.forall_mem_cons] at ih
    rw [validBranches, Bool.and_eq_true] at hvalid
    rw [whereSqls] at h
    obtain ⟨first, hfirst, hrest⟩ := Except.bind_eq_ok.mp h
    obtain ⟨rest, hconditions, hresult⟩ := Except.bind_eq_ok.mp hrest
    cases hresult
    obtain ⟨t, heval, ht⟩ := ih.1 first hvalid.1 hfirst
    obtain ⟨ts, hevals, hts⟩ := ihbranches ih.2 hvalid.2 hconditions
    refine ⟨t :: ts, .cons heval hevals, fun holds hok => ?_⟩
    rw [matchesBranch] at hok
    obtain ⟨own, hown, hloop⟩ := Except.bind_eq_ok.mp hok
    rw [List.exists_mem_cons_iff, ht own hown]
    cases own with
    | true => simp [← Except.ok.inj hloop]
    | false => rw [hts holds hloop, Bool.false_eq_true, false_or]

theorem joinAlternatives_evaluates {row : Row} {cs : List Compiled} {ts : List Truth}
    (h : List.Forall₂ (Evaluates text row) cs ts) :
    ∃ t, Evaluates text row (joinAlternatives cs) t ∧
      (t = some true ↔ cs = [] ∨ ∃ u ∈ ts, u = some true) := by
  cases h with
  | nil => exact ⟨some true, fun params => rfl, by simp⟩
  | cons hfirst hrest =>
    refine ⟨_, hfirst.joinOr hrest, ?_⟩
    rw [Truth.foldl_or_eq_true, List.exists_mem_cons_iff]
    simp

theorem whereSqls_eq_nil {branches : List (Plan Operand)} {cs : List Compiled}
    (h : whereSqls branches = .ok cs) : cs = [] ↔ branches = [] := by
  cases branches with
  | nil =>
    cases h
    simp
  | cons branch branches =>
    rw [whereSqls] at h
    obtain ⟨first, _, hrest⟩ := Except.bind_eq_ok.mp h
    obtain ⟨rest, _, hresult⟩ := Except.bind_eq_ok.mp hrest
    cases hresult
    simp

variable (text containment) in
/-- The compiled condition is true on the rows that `matchesPlan` accepts. -/
theorem whereSql_decides {plan : Plan Operand} {compiled : Compiled}
    (hvalid : validPlan plan = true) (h : whereSql plan = .ok compiled) (row : Row) :
    Decides text row compiled (matchesPlan containment row plan) := by
  induction plan generalizing compiled with
  | node wheres or ih =>
    rw [validPlan, Bool.and_eq_true, List.all_eq_true] at hvalid
    rw [whereSql] at h
    obtain ⟨own, hown, hrest⟩ := Except.bind_eq_ok.mp h
    obtain ⟨children, hchildren, hresult⟩ := Except.bind_eq_ok.mp hrest
    obtain ⟨ts, hevals, hts⟩ := entryConditions_evaluate text containment
      hvalid.1 hown row
    obtain ⟨us, hchildEvals, hus⟩ := whereSqls_evaluate text containment
      (fun branch hmem compiled hvalid h => ih branch hmem hvalid h) hvalid.2 hchildren
    have hempty := whereSqls_eq_nil hchildren
    cases wheres with
    | nil =>
      cases hown
      cases hresult
      obtain ⟨t, heval, ht⟩ := joinAlternatives_evaluates hchildEvals
      refine ⟨t, heval, fun holds hok => ?_⟩
      rw [ht, hempty]
      cases or with
      | nil =>
        cases hok
        simp
      | cons branch branches =>
        have hok : matchesBranch containment row (branch :: branches) = .ok holds := hok
        rw [hus holds hok]
        simp
    | cons entry entries =>
      obtain ⟨first, _, hentries⟩ := Except.bind_eq_ok.mp hown
      obtain ⟨rest, _, hcons⟩ := Except.bind_eq_ok.mp hentries
      cases hcons
      cases hresult
      cases hevals with
      | cons hfirst hrest =>
        obtain ⟨t, heval, ht⟩ := joinAlternatives_evaluates (.cons (hfirst.joinAnd hrest) hchildEvals)
        refine ⟨t, heval, fun holds hok => ?_⟩
        rw [matchesPlan] at hok
        obtain ⟨base, hbase, hplan⟩ := Except.bind_eq_ok.mp hok
        have hown := hts base hbase
        rw [List.forall_mem_cons] at hown
        rw [ht, List.exists_mem_cons_iff, Truth.foldl_and_eq_true, hown]
        cases or with
        | nil =>
          cases hchildren
          cases hchildEvals
          cases hplan
          simp
        | cons branch branches =>
          cases base with
          | true =>
            cases hplan
            simp
          | false =>
            have hplan : matchesBranch containment row (branch :: branches) = .ok holds := hplan
            rw [hus holds hplan]
            simp

/-! ## Order -/

theorem sqliteSortRank_of_comparable {value : Option Row} {s : Scalar JsString}
    (h : comparable value = .ok s) :
    sqliteSortRank (jsonType value) = .ok (.integer (comparableTypeRank s)) := by
  rcases value with _ | _ | (_ | _) | _ | _ | _ | _ | _ <;> cases h <;>
    simp [sqliteSortRank, jsonType, comparableTypeRank]

theorem compare_orderOf {v w : Option Row} {a b : Scalar JsString} (ha : comparable v = .ok a)
    (hb : comparable w = .ok b) (h : comparableTypeRank a = comparableTypeRank b) :
    (orderOf text v).compare (orderOf text w) = compareValues a b := by
  rcases v with _ | _ | (_ | _) | _ | _ | _ | _ | _ <;> cases ha <;>
    rcases w with _ | _ | (_ | _) | _ | _ | _ | _ | _ <;> cases hb <;>
    first
    | rfl
    | exact (compare_intCast _ _).symm
    | exact compareLex_sqliteStringOrderKey _ _
    | simp [comparableTypeRank] at h

/-- Rank and value together order as `compareValues` does. -/
theorem compare_rank_then {v w : Option Row} {a b : Scalar JsString} (ha : comparable v = .ok a)
    (hb : comparable w = .ok b) :
    ((Value.integer (comparableTypeRank a)).compare (.integer (comparableTypeRank b))).then
      ((orderOf text v).compare (orderOf text w)) = compareValues a b := by
  have hrank : (Value.integer (comparableTypeRank a)).compare (.integer (comparableTypeRank b)) =
      compare (comparableTypeRank a) (comparableTypeRank b) := by
    cases a <;> cases b <;> rfl
  rw [hrank]
  by_cases h : comparableTypeRank a = comparableTypeRank b
  · rw [Nat.compare_eq_eq.mpr h, Ordering.eq_then, compare_orderOf ha hb h]
  · rw [compareValues_of_ne h]
    rcases Nat.lt_or_gt_of_ne h with hlt | hgt
    · rw [Nat.compare_eq_lt.mpr hlt, Ordering.lt_then]
    · rw [Nat.compare_eq_gt.mpr hgt, Ordering.gt_then]

theorem orderFields_cons {entry : CursorSort} {sort : List CursorSort}
    {fields : List (Field × SortDirection)} (h : orderFields (entry :: sort) = .ok fields) :
    ∃ field rest, fieldSql entry.field = .ok field ∧ orderFields sort = .ok rest ∧
      fields = (field, entry.direction) :: rest := by
  obtain ⟨field, hfield, hrest⟩ := Except.bind_eq_ok.mp h
  obtain ⟨rest, hsort, hresult⟩ := Except.bind_eq_ok.mp hrest
  exact ⟨field, rest, hfield, hsort, (Except.ok.inj hresult).symm⟩

/-- What `ORDER BY` computes of one field of a row. -/
theorem orderKey_cons {field : Field} {direction : SortDirection}
    {fields : List (Field × SortDirection)} {row : Row} {s : Scalar JsString}
    {rest : List (SortDirection × Value)} (hvalue : comparable (lookup field.path row) = .ok s)
    (hrest : orderKey text row fields = .ok rest) :
    orderKey text row ((field, direction) :: fields) =
      .ok ((direction, .integer (comparableTypeRank s)) ::
        (direction, orderOf text (lookup field.path row)) :: rest) := by
  rw [orderKey, eval_type, sqliteSortRank_of_comparable hvalue, hrest, eval_orderValue]
  rfl

theorem comparable_of_sortKey {name : String} {field : Field} {row : Row} {s : Scalar JsString}
    (hfield : fieldSql name = .ok field) (h : sortKey row name = .ok s) :
    comparable (lookup field.path row) = .ok s := by
  obtain ⟨value, hvalue, hcomparable⟩ := Except.bind_eq_ok.mp h
  rw [lookup_of_valueFor hfield hvalue]
  exact hcomparable

variable (text) in
/-- `ORDER BY` compares two rows as `compareRowsBySort` does. -/
theorem compareOrderKeys_eq {sort : List CursorSort} {fields : List (Field × SortDirection)}
    {a b : Row} (h : orderFields sort = .ok fields) (ha : Sortable sort a) (hb : Sortable sort b) :
    ∃ left right, orderKey text a fields = .ok left ∧ orderKey text b fields = .ok right ∧
      compareRowsBySort a b sort = .ok (compareOrderKeys left right) := by
  induction sort generalizing fields with
  | nil =>
    cases h
    exact ⟨[], [], rfl, rfl, rfl⟩
  | cons entry sort ih =>
    obtain ⟨field, rest, hfield, hsort, rfl⟩ := orderFields_cons h
    obtain ⟨⟨s, hs⟩, ha⟩ := List.forall_mem_cons.mp ha
    obtain ⟨⟨t, ht⟩, hb⟩ := List.forall_mem_cons.mp hb
    obtain ⟨left, right, hleft, hright, hcompare⟩ := ih hsort ha hb
    have hvalueA := comparable_of_sortKey hfield hs
    have hvalueB := comparable_of_sortKey hfield ht
    refine ⟨_, _, orderKey_cons hvalueA hleft, orderKey_cons hvalueB hright, ?_⟩
    rw [compareOrderKeys, compareOrderKeys, ← Ordering.then_assoc, SortDirection.apply_then,
      compare_rank_then hvalueA hvalueB, compareRowsBySort, hs, ht, hcompare]
    change (if compareValues s t = .eq then .ok _ else .ok _) = Except.ok _
    by_cases hequal : compareValues s t = .eq
    · rw [if_pos hequal, hequal]
      cases entry.direction <;> rfl
    · rw [if_neg hequal]
      cases entry.direction <;> cases hcmp : compareValues s t <;> first | rfl | exact absurd hcmp hequal

/-! ## Queries -/

theorem query_eq_ok {plan : Plan Operand} {sort : List CursorSort} {idField : String}
    {statement : Statement} (h : query plan sort idField = .ok statement) :
    validPlan plan = true ∧ whereSql plan = .ok statement.condition ∧
      orderFields (sortWithStableId sort idField) = .ok statement.order := by
  rw [query] at h
  by_cases hvalid : validPlan plan = true
  · rw [hvalid] at h
    obtain ⟨condition, hcondition, hrest⟩ := Except.bind_eq_ok.mp h
    obtain ⟨order, horder, hresult⟩ := Except.bind_eq_ok.mp hrest
    cases hresult
    exact ⟨hvalid, hcondition, horder⟩
  · rw [Bool.eq_false_of_not_eq_true hvalid] at h
    cases h

theorem selects_eq {plan : Plan Operand} {sort : List CursorSort} {idField : String}
    {statement : Statement} (h : query plan sort idField = .ok statement) {row : Row} {holds : Bool}
    (hrow : matchesPlan containment row plan = .ok holds) : statement.selects text row = holds := by
  obtain ⟨hvalid, hwhere, -⟩ := query_eq_ok h
  obtain ⟨t, heval, ht⟩ := whereSql_decides text containment hvalid hwhere
    row
  have hvalue := heval []
  rw [List.append_nil] at hvalue
  rw [Statement.selects, hvalue, Bool.eq_iff_iff, decide_eq_true_eq, ht holds hrow]

variable (text) in
theorem compareRows_eq {plan : Plan Operand} {sort : List CursorSort} {idField : String}
    {statement : Statement} (h : query plan sort idField = .ok statement) {a b : Row}
    (ha : Sortable (sortWithStableId sort idField) a)
    (hb : Sortable (sortWithStableId sort idField) b) :
    ∃ order, statement.compareRows text a b = .ok order ∧
      compareRowsBySort a b (sortWithStableId sort idField) = .ok order := by
  obtain ⟨-, -, horder⟩ := query_eq_ok h
  obtain ⟨left, right, hleft, hright, hcompare⟩ := compareOrderKeys_eq text horder ha hb
  refine ⟨_, ?_, hcompare⟩
  rw [Statement.compareRows, hleft, hright]
  rfl

/-- Two rows, one without a name. -/
def namedRow : Row := .object [("id", .string [97]), ("name", .string [98, 99])]

def unnamedRow : Row := .object [("id", .string [98]), ("name", .null)]

def nameStartsOrIsNull : Plan Operand :=
  .node [⟨"name", .startsWith, .scalar (.string [98]), none⟩]
    [.node [⟨"name", .isNull, .absent, none⟩] []]

/-- `tags` has two items, and its `length` is no field of the JSON. -/
def rowWithTags : Row := .object [("id", .string [97]), ("tags", .array [.string [98], .string [99]])]

def tagsLength : Plan Operand := .node [⟨"tags.length", .isNull, .absent, none⟩] []

end ActiveTs.Sql.Sqlite
