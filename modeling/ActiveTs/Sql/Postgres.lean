import ActiveTs.Sql.OrderKeys

/-! # Queries of the PostgreSQL adapter

The compiled `where` is true on the documents that `matchesPlan` accepts, and the compiled `order by`
compares documents as `compareRowsBySort` does, where both read the same values. -/

namespace ActiveTs.Sql.Postgres

open ActiveTs.Query (Operator WhereEntry Plan)

/-! ## Paths -/

theorem readItems_eq (items : List Document) : readItems items = items.map read := by
  induction items with
  | nil => rfl
  | cons item items ih =>
    rw [List.map_cons, ← ih]
    rfl

theorem lookup_readFields (fields : List (String × Document)) (key : String) :
    (readFields fields).lookup key = (fields.lookup key).map read := by
  induction fields with
  | nil => rfl
  | cons field fields ih =>
    obtain ⟨other, value⟩ := field
    rw [readFields_cons, List.lookup_cons, List.lookup_cons, ih]
    cases key == other <;> rfl

/-- Both sides agree on whether the element of a path names an item of an array. -/
def portableElement (key : String) : Document → Bool
  | .array _ => (pathInteger key).isNone || numericSegment key
  | _ => true

def portablePath : List String → Document → Bool
  | [], _ => true
  | key :: path, value => portableElement key value && (element key value).all (portablePath path)

theorem naturalOf_toDigits (n : Nat) : naturalOf (Nat.toDigits 10 n) = some n := by
  rw [naturalOf, if_pos, Nat.ofDigitChars_ten_toDigits]
  refine ⟨Nat.toDigits_ne_nil, ?_⟩
  rw [List.all_eq_true]
  intro c hc
  exact Nat.isDigit_of_mem_toDigits (by decide) (by decide) hc

theorem pathInteger_toString (n : Nat) : pathInteger (toString n) = some (n : Int) := by
  have hlist : (toString n).toList = Nat.toDigits 10 n := by
    rw [Nat.toString_eq_ofList_toDigits, String.toList_ofList]
  obtain ⟨c, cs, hcons⟩ := List.exists_cons_of_ne_nil (@Nat.toDigits_ne_nil n 10)
  have hdigit : c.isDigit = true :=
    Nat.isDigit_of_mem_toDigits (by decide) (by decide) (hcons ▸ List.mem_cons_self)
  have hspace : spaces.contains c = false := by
    rw [List.contains_eq_mem, decide_eq_false_iff_not]
    intro hmem
    have hall : ∀ c ∈ spaces, (!c.isDigit) = true := List.all_eq_true.mp rfl
    have hnot := hall c hmem
    rw [hdigit] at hnot
    cases hnot
  have hdrop : (c :: cs).dropWhile (spaces.contains ·) = c :: cs := by
    rw [List.dropWhile_cons, hspace, if_neg Bool.false_ne_true]
  rw [pathInteger, hlist, hcons, hdrop]
  split
  · next heq =>
    cases heq
    cases hdigit
  · next heq =>
    cases heq
    cases hdigit
  · rw [← hcons, naturalOf_toDigits]
    rfl

/-- The items of an array have the names of their places. -/
theorem arrayItem_toString (items : List α) (n : Nat) : arrayItem items (toString n) = items[n]? := by
  have hfrom (items : List α) (k : Nat) :
      ((items.zipIdx k).find? fun item => toString item.2 == toString n).map Prod.fst =
        if k ≤ n then items[n - k]? else none := by
    induction items generalizing k with
    | nil => simp
    | cons item items ih =>
      rw [List.zipIdx_cons, List.find?_cons]
      by_cases hk : k = n
      · subst hk
        simp
      · have hne : (toString k == toString n) = false := by
          rw [beq_eq_false_iff_ne]
          intro heq
          have hinteger := congrArg pathInteger heq
          rw [pathInteger_toString, pathInteger_toString, Option.some.injEq] at hinteger
          exact hk (Int.ofNat.inj hinteger)
        rw [hne, ih (k + 1)]
        by_cases hle : k ≤ n
        · rw [if_pos hle, if_pos (by omega), show n - k = n - (k + 1) + 1 by omega,
            List.getElem?_cons_succ]
        · rw [if_neg hle, if_neg (by omega)]
  rw [arrayItem, hfrom items 0, if_pos (Nat.zero_le n), Nat.sub_zero]

theorem eq_toString_of_numericSegment {key : String} (h : numericSegment key = true) :
    ∃ n : Nat, key = toString n :=
  ⟨_, (eq_of_beq h).symm⟩

/-- What the application sees of a document at some path. -/
def seen (path : List String) (document : Document) : Option Row :=
  (lookup path document).map read

/-- Where `valueFor` reads a value, the database reads it; where it throws, the database reads none. -/
theorem seen_of_valueAt {path : List String} {document : Document}
    (hpath : portablePath path document = true) :
    seen path document = (valueAt path (read document)).toOption.join := by
  induction path generalizing document with
  | nil => rfl
  | cons key path ih =>
    rw [portablePath, Bool.and_eq_true] at hpath
    obtain ⟨hkey, hrest⟩ := hpath
    have hstep {next : Option Document} (hnext : element key document = next)
        (hvalue : ownValue key (read document) = .ok (next.map read)) :
        seen (key :: path) document = (valueAt (key :: path) (read document)).toOption.join := by
      rw [seen, lookup, hnext, valueAt, hvalue]
      cases next with
      | none => rfl
      | some next =>
        rw [hnext, Option.all_some] at hrest
        exact ih hrest
    cases document with
    | object fields =>
      apply hstep rfl
      rw [read_object, ownValue_object, lookup_readFields]
      rfl
    | array items =>
      by_cases hlength : key = "length"
      · subst hlength
        have hnone : pathInteger "length" = none := by decide
        rw [seen, lookup, element, hnone, read_array, valueAt, ownValue_array]
        rfl
      · have hown (item : Option Row) (h : arrayItem (items.map read) key = item) :
            ownValue key (read (.array items)) = .ok item := by
          rw [read_array, ownValue_array, if_neg hlength, readItems_eq, h]
        rw [portableElement, Bool.or_eq_true] at hkey
        rcases hkey with hinteger | hnumeric
        · apply @hstep none
          · rw [element, Option.isNone_iff_eq_none.mp hinteger]
            rfl
          · apply hown
            apply arrayItem_eq_none
            rw [← Bool.not_eq_true]
            intro hnumeric
            obtain ⟨n, rfl⟩ := eq_toString_of_numericSegment hnumeric
            rw [pathInteger_toString] at hinteger
            cases hinteger
        · obtain ⟨n, rfl⟩ := eq_toString_of_numericSegment hnumeric
          apply @hstep items[n]?
          · rw [element, pathInteger_toString, Option.bind_some, itemAt, if_pos (Int.natCast_nonneg n),
              Int.toNat_natCast]
          · apply hown
            rw [arrayItem_toString, List.getElem?_map]
    | null => rfl
    | bool _ => rfl
    | integer _ => rfl
    | real _ => rfl
    | string _ => rfl

/-! ## Texts -/

def likeSpecial (c : Char) : Prop := c = '\\' ∨ c = '%' ∨ c = '_'

instance (c : Char) : Decidable (likeSpecial c) := inferInstanceAs (Decidable (_ ∨ _))

/-- `escapeLikePrefix` on the text of the operand. -/
def escapeText (text : Text) : Text :=
  text.flatMap fun c => if likeSpecial c then ['\\', c] else [c]

theorem escapeLikePrefix_encode (text : Text) :
    escapeLikePrefix (Utf16.encode text) = Utf16.encode (escapeText text) := by
  rw [escapeLikePrefix, escapeText, Utf16.encode, Utf16.encode, List.flatMap_assoc, List.flatMap_assoc]
  apply List.flatMap_congr
  intro c _
  have hrange := Utf16.toNat_range c
  by_cases hsmall : c.toNat < 0x10000
  · have hunit (d : Char) (hd : d.toNat < 0x10000) :
        Fin.ofNat 65536 c.toNat = Fin.ofNat 65536 d.toNat ↔ c = d := by
      rw [Fin.ext_iff, ← Char.toNat_inj]
      change c.toNat % 65536 = d.toNat % 65536 ↔ _
      rw [Nat.mod_eq_of_lt hsmall, Nat.mod_eq_of_lt hd]
    have hspecial : (Fin.ofNat 65536 c.toNat = 92 ∨ Fin.ofNat 65536 c.toNat = 37 ∨
        Fin.ofNat 65536 c.toNat = 95) ↔ likeSpecial c :=
      or_congr (hunit '\\' (by decide)) (or_congr (hunit '%' (by decide)) (hunit '_' (by decide)))
    rw [Utf16.units_of_lt hsmall, List.flatMap_singleton]
    by_cases h : likeSpecial c
    · rw [if_pos h, if_pos (hspecial.mpr h), List.flatMap_cons, List.flatMap_singleton,
        Utf16.units_of_lt hsmall]
      rfl
    · rw [if_neg h, if_neg (mt hspecial.mp h), List.flatMap_singleton, Utf16.units_of_lt hsmall]
  · have hplain : ¬likeSpecial c := by
      rintro (rfl | rfl | rfl) <;> exact hsmall (by decide)
    have hsurrogate {n : Nat} (hn : n < 65536) (hlarge : 0xD800 ≤ n) :
        ¬(Fin.ofNat 65536 n = 92 ∨ Fin.ofNat 65536 n = 37 ∨ Fin.ofNat 65536 n = 95) := by
      rw [Fin.ext_iff, Fin.ext_iff, Fin.ext_iff]
      change ¬(n % 65536 = 92 ∨ n % 65536 = 37 ∨ n % 65536 = 95)
      omega
    rw [if_neg hplain, List.flatMap_singleton, Utf16.units_of_ge (Nat.not_lt.mp hsmall),
      List.flatMap_cons, List.flatMap_singleton, if_neg (hsurrogate (by omega) (by omega)),
      if_neg (hsurrogate (by omega) (by omega))]
    rfl

theorem like_any (text : Text) : like ['%'] text = true := by
  change text.tails.any (like []) = true
  induction text with
  | nil => rfl
  | cons c text ih => rw [List.tails, List.any_cons, ih, Bool.or_true]

theorem like_escaped (c : Char) (pattern text : Text) :
    like ((if likeSpecial c then ['\\', c] else [c]) ++ pattern) text =
      (decide (text.head? = some c) && like pattern text.tail) := by
  by_cases h : likeSpecial c
  · rw [if_pos h]
    rfl
  · rw [if_neg h, List.singleton_append]
    rw [likeSpecial, not_or, not_or] at h
    rw [like]
    · exact h.2.1
    · exact h.2.2
    · exact fun _ _ heq => absurd heq h.1

theorem like_escapeText (stem text : Text) :
    like (escapeText stem ++ ['%']) text = stem.isPrefixOf text := by
  induction stem generalizing text with
  | nil => exact like_any text
  | cons c stem ih =>
    rw [escapeText, List.flatMap_cons, List.append_assoc, like_escaped]
    rw [escapeText] at ih
    rw [ih]
    cases text with
    | nil => rfl
    | cons d text =>
      rw [List.head?_cons, List.tail_cons, List.isPrefixOf_cons_cons, Bool.eq_iff_iff, Bool.and_eq_true,
        Bool.and_eq_true, decide_eq_true_eq, beq_iff_eq, Option.some.injEq, eq_comm]

/-! ## Data -/

/-- A datum of the database, and the value that the application has for it. -/
inductive Same : JsonComparisonType → Datum → Scalar JsString → Prop
  | number (value : ℚ) : Same .number (.number value) (.number value)
  | bool (value : Bool) : Same .boolean (.bool value) (.bool value)
  | text (value : Text) : Same .string (.text value) (.string (Utf16.encode value))
  | date (value : IsoDate) : Same .date (.timestamp value) (.string (Utf16.encode value.text))

/-- What `ordered` makes of a datum. -/
def orderedDatum : Datum → Datum
  | .text value => .text (postgresStringOrderKey value)
  | value => value

theorem compareCodePoints_eq (a b : Text) : compareCodePoints a b = .eq ↔ a = b := by
  rw [compareCodePoints]
  constructor
  · exact fun h => Std.LawfulEqCmp.eq_of_compare h
  · rintro rfl
    exact Std.ReflCmp.compare_self

theorem compareText_eq (a b : JsString) : compareText a b = .eq ↔ a = b := by
  rw [compareText]
  constructor
  · exact fun h => Std.LawfulEqCmp.eq_of_compare h
  · rintro rfl
    exact Std.ReflCmp.compare_self

theorem compare_dates (a b : IsoDate) :
    a.compare b = compareText (Utf16.encode a.text) (Utf16.encode b.text) := by
  rw [compareText, Utf16.compareLex_encode, IsoDate.compareLex_text]

namespace Same

theorem compareTruth_ordered {type : JsonComparisonType} {d e : Datum} {a b : Scalar JsString}
    (h : Same type d a) (h' : Same type e b) (operator : Comparison) :
    compareTruth operator (orderedDatum d) (orderedDatum e) =
      some (operator.holds (compareValues a b)) := by
  cases h with
  | number value =>
    cases h'
    rfl
  | bool value =>
    cases h'
    rfl
  | text value =>
    cases h' with
    | text value' =>
      rw [compareValues_string, ← compareCodePoints_orderKey]
      rfl
  | date value =>
    cases h' with
    | date value' =>
      rw [compareValues_string, ← compare_dates]
      rfl

theorem compareTruth_eq {type : JsonComparisonType} {d e : Datum} {a b : Scalar JsString}
    (h : Same type d a) (h' : Same type e b) :
    compareTruth .eq d e = some (decide (a = b)) := by
  cases h with
  | number value =>
    cases h' with
    | number value' =>
      have hequal : compare value value' = .eq ↔ value = value' := Std.LawfulEqCmp.compare_eq_iff_eq
      simp only [Scalar.number.injEq]
      exact congrArg some (decide_eq_decide.mpr hequal)
  | bool value =>
    cases h' with
    | bool value' => cases value <;> cases value' <;> rfl
  | text value =>
    cases h' with
    | text value' =>
      have hequal : Scalar.string (Utf16.encode value) = .string (Utf16.encode value') ↔
          value = value' := by
        rw [Scalar.string.injEq]
        exact ⟨Utf16.encode_injective, congrArg _⟩
      simp only [hequal]
      exact congrArg some (decide_eq_decide.mpr (compareCodePoints_eq value value'))
  | date value =>
    cases h' with
    | date value' =>
      simp only [Scalar.string.injEq, ← compareText_eq, ← compare_dates]
      rfl

end Same

/-! ## Operands -/

def scalarType : Scalar JsString → JsonComparisonType
  | .null => .null
  | .bool _ => .boolean
  | .number _ => .number
  | .string _ => .string

/-- The JSON type that an access asks for. -/
def guardType : JsonComparisonType → JsonComparisonType
  | .date => .string
  | type => type

/-- An operand that a parameter carries as it is: well-formed text without U+0000, and for a field of
dates no date of the year 0000. -/
def portableOperand (type : Option FieldType) : Scalar JsString → Bool
  | .string value =>
    !value.contains 0 && Utf16.encode (Utf16.decode value) = value &&
      (type ≠ some .date || (canonicalDate value).all fun date => date.year ≠ 0)
  | _ => true

theorem canonicalDate_eq_some {value : JsString} {date : IsoDate}
    (h : canonicalDate value = some date) :
    IsoDate.parse (Utf16.decode value) = some date ∧ Utf16.encode date.text = value := by
  rw [canonicalDate] at h
  split at h
  · next parsed hparse =>
    split at h
    · next htext =>
      cases h
      exact ⟨hparse, htext⟩
    · cases h
  · cases h

theorem timestamptz_text {date : IsoDate} (h : date.year ≠ 0) : timestamptz date.text = .ok date := by
  rw [timestamptz, IsoDate.parse_text]
  exact if_neg h

section
variable {modelFieldType : String → Option FieldType} {field : String}

/-- A parameter carries a portable operand. -/
theorem bindOperand_same {s : Scalar JsString} (hmatches : operandMatches (modelFieldType field) s = true)
    (hportable : portableOperand (modelFieldType field) s = true) (hnull : s ≠ .null) :
    ∃ d, bindOperand (jsonComparisonType modelFieldType field s) s = .ok d ∧
      Same (jsonComparisonType modelFieldType field s) d s ∧
      guardType (jsonComparisonType modelFieldType field s) = scalarType s := by
  unfold jsonComparisonType
  generalize modelFieldType field = type at hmatches hportable ⊢
  cases s with
  | null => exact absurd rfl hnull
  | bool value =>
    rcases type with _ | _ | _ | _ | _ <;> first
      | exact ⟨_, rfl, .bool value, rfl⟩
      | cases hmatches
  | number value =>
    rcases type with _ | _ | _ | _ | _ <;> first
      | exact ⟨_, rfl, .number value, rfl⟩
      | cases hmatches
  | string value =>
    rw [portableOperand, Bool.and_eq_true, Bool.and_eq_true, decide_eq_true_eq, Bool.not_eq_true']
      at hportable
    obtain ⟨⟨hnul, htext⟩, hyear⟩ := hportable
    have hnul : ¬value.contains 0 = true := by
      rw [hnul]
      exact Bool.false_ne_true
    have hbind : bindOperand .string (.string value) = .ok (.text (Utf16.decode value)) := by
      rw [bindOperand, if_neg hnul]
    have hsame : Same .string (.text (Utf16.decode value)) (.string value) := by
      have h := Same.text (Utf16.decode value)
      rwa [htext] at h
    rcases type with _ | _ | _ | _ | _
    · exact ⟨_, hbind, hsame, rfl⟩
    · exact ⟨_, hbind, hsame, rfl⟩
    · cases hmatches
    · cases hmatches
    · obtain ⟨date, hdate⟩ := Option.isSome_iff_exists.mp hmatches
      obtain ⟨hparse, hencode⟩ := canonicalDate_eq_some hdate
      rw [hdate] at hyear
      have hyear : date.year ≠ 0 := by simpa using hyear
      have hcast : timestamptz (Utf16.decode value) = .ok date := by
        rw [timestamptz, hparse]
        exact if_neg hyear
      refine ⟨.timestamp date, ?_, ?_, rfl⟩
      · rw [bindOperand, if_neg hnul, hcast]
        rfl
      · rw [← hencode]
        exact .date date

end

/-! ## Documents -/

/-- A value of a declared type, or `null`; dates are canonical, and not of the year 0000. -/
def holdsType : FieldType → Row → Prop
  | _, .null => True
  | .string, .string _ => True
  | .number, .integer _ => True
  | .number, .real _ => True
  | .boolean, .bool _ => True
  | .date, .string value => ∃ date : IsoDate, date.year ≠ 0 ∧ value = Utf16.encode date.text
  | _, _ => False

/-- The declared fields of a document are missing, `null` or of their types. -/
def Conforms (modelFieldType : String → Option FieldType) (document : Document) : Prop :=
  ∀ field type value, modelFieldType field = some type →
    valueFor (read document) field = .ok (some value) → holdsType type value

def guardText : JsonComparisonType → String
  | .number => "number"
  | .boolean => "boolean"
  | _ => "string"

theorem typeof_eq_guardText {type : JsonComparisonType} (htype : type ≠ .null) (value : Document) :
    jsonbTypeof value = guardText type ↔
      ((read value).scalar.any fun a => scalarType a = guardType type) = true := by
  cases type with
  | null => exact absurd rfl htype
  | _ => cases value <;> simp [jsonbTypeof, guardText, read, Json.scalar, scalarType, guardType]

section
variable {castOther : Document → JsonComparisonType → Except PostgresError Datum}

variable (castOther) in
/-- Behind its guard no cast fails. -/
theorem castText_same {type : JsonComparisonType} {value : Document} (htype : type ≠ .null)
    (hdate : type = .date → holdsType .date (read value))
    (hguard : jsonbTypeof value = guardText type) :
    ∃ d a, castText castOther type (some value) = .ok d ∧ (read value).scalar = some a ∧
      Same type d a := by
  cases type with
  | null => exact absurd rfl htype
  | number =>
    cases value with
    | integer value => exact ⟨_, _, rfl, rfl, .number value.1⟩
    | real value => exact ⟨_, _, rfl, rfl, .number value⟩
    | _ => simp [jsonbTypeof, guardText] at hguard
  | boolean =>
    cases value with
    | bool value => exact ⟨_, _, rfl, rfl, .bool value⟩
    | _ => simp [jsonbTypeof, guardText] at hguard
  | string =>
    cases value with
    | string value => exact ⟨_, _, rfl, rfl, .text value⟩
    | _ => simp [jsonbTypeof, guardText] at hguard
  | date =>
    cases value with
    | string value =>
      obtain ⟨date, hyear, htext⟩ := hdate rfl
      have htext := Utf16.encode_injective htext
      subst htext
      refine ⟨.timestamp date, _, ?_, rfl, .date date⟩
      rw [castText, timestamptz_text hyear]
      rfl
    | _ => simp [jsonbTypeof, guardText] at hguard

theorem guarded_eval {context : Context} {path : Nat} {value : Option Document}
    (hlookup : context.lookup path = .ok value) {type : JsonComparisonType} (htype : type ≠ .null)
    (hdate : type = .date → ∀ found, value = some found → holdsType .date (read found))
    {inner : Condition} {f : Scalar JsString → Bool}
    (hvalue : ∀ d a, castText castOther type value = .ok d → Same type d a →
      inner.eval castOther context = .ok (some (f a)))
    (hnull : castText castOther type value = .ok .null →
      ∃ t, inner.eval castOther context = .ok t ∧ t ≠ some true) :
    (Condition.coalesceFalse (.and (.typeof path (guardText type)) inner)).eval castOther context =
      .ok (some (((value.map read).bind Json.scalar).any fun a =>
        decide (scalarType a = guardType type) && f a)) := by
  have heval : (Condition.typeof path (guardText type)).eval castOther context =
      .ok (value.map fun value => decide (jsonbTypeof value = guardText type)) := by
    rw [Condition.eval_typeof, hlookup]
    rfl
  rw [Condition.eval_coalesceFalse]
  cases value with
  | none =>
    obtain ⟨t, ht, hne⟩ := hnull rfl
    rw [Condition.eval_and heval ht]
    rcases t with _ | _ | _
    · rfl
    · rfl
    · exact absurd rfl hne
  | some value =>
    by_cases hguard : jsonbTypeof value = guardText type
    · obtain ⟨d, a, hcast, hscalar, hsame⟩ := castText_same castOther htype
        (fun hdateType => hdate hdateType value rfl) hguard
      have htypeof := (typeof_eq_guardText htype value).mp hguard
      rw [hscalar] at htypeof
      simp only [Option.any_some, decide_eq_true_eq] at htypeof
      rw [Condition.eval_and heval (hvalue d a hcast hsame)]
      simp only [Option.map_some, hguard, decide_true, Option.bind_some, hscalar, Option.any_some,
        htypeof, Bool.true_and]
      cases f a <;> rfl
    · have htypeof := mt (typeof_eq_guardText htype value).mpr hguard
      rw [Option.map_some, decide_eq_false hguard] at heval
      rw [Condition.eval_and_false heval, Option.map_some, Option.bind_some]
      cases hscalar : (read value).scalar with
      | none => rfl
      | some a =>
        rw [hscalar, Option.any_some, Bool.not_eq_true, decide_eq_false_iff_not] at htypeof
        simp only [Option.any_some, htypeof, decide_false, Bool.false_and]
        rfl

/-! ## Parameters -/

theorem param_append (document : Document) (params rest : List Param) (param : Param) :
    Context.param ⟨document, params ++ param :: rest⟩ (params.length + 1) = some param := by
  rw [Context.param, if_neg (Nat.succ_ne_zero _), Nat.add_sub_cancel,
    List.getElem?_append_right (Nat.le_refl _), Nat.sub_self, List.getElem?_cons_zero]

theorem lookup_append (document : Document) (params rest : List Param) (path : List String) :
    Context.lookup ⟨document, params ++ .path path :: rest⟩ (params.length + 1) =
      .ok (lookup path document) := by
  rw [Context.lookup, param_append]

/-- The condition has this value whatever is pushed later. -/
def EvaluatesIn (castOther : Document → JsonComparisonType → Except PostgresError Datum)
    (document : Document) (params : List Param) (condition : Condition) (t : Truth) : Prop :=
  ∀ rest, condition.eval castOther ⟨document, params ++ rest⟩ = .ok t

theorem EvaluatesIn.mono {document : Document} {params params' : List Param} {condition : Condition}
    {t : Truth} (h : EvaluatesIn castOther document params condition t) (hparams : params <+: params') :
    EvaluatesIn castOther document params' condition t := by
  obtain ⟨pushed, rfl⟩ := hparams
  intro rest
  rw [List.append_assoc]
  exact h _

theorem jsonPathParam_ok {field : String} {params params' : List Param} {path : Nat}
    (h : jsonPathParam field params = .ok (path, params')) :
    safeFieldPath field = true ∧ path = params.length + 1 ∧
      params' = params ++ [.path (segments field)] := by
  rw [jsonPathParam] at h
  split at h
  · next hsafe =>
    cases h
    exact ⟨hsafe, rfl, rfl⟩
  · cases h

theorem jsonAccessForComparison_ok {field : String} {type : JsonComparisonType}
    {params params' : List Param} {access : Access} (htype : type ≠ .null)
    (h : jsonAccessForComparison field type params = .ok (access, params')) :
    safeFieldPath field = true ∧ params' = params ++ [.path (segments field)] ∧
      access = ⟨.text (params.length + 1) type, .typeof (params.length + 1) (guardText type)⟩ := by
  obtain ⟨⟨path, params''⟩, hpath, hresult⟩ := Except.bind_eq_ok.mp h
  obtain ⟨hsafe, rfl, rfl⟩ := jsonPathParam_ok hpath
  refine ⟨hsafe, ?_⟩
  cases type with
  | null => exact absurd rfl htype
  | _ =>
    cases hresult
    exact ⟨rfl, rfl⟩

/-! ## Fields -/

/-- The application reads the field of a document as the database does. -/
structure Readable (modelFieldType : String → Option FieldType) (document : Document)
    (field : String) : Prop where
  path : portablePath (segments field) document = true
  conforms : Conforms modelFieldType document

variable {modelFieldType : String → Option FieldType} {document : Document} {field : String}

theorem valueFor_of_lookup {found : Document} (hsafe : safeFieldPath field = true)
    (h : Readable modelFieldType document field)
    (hfound : lookup (segments field) document = some found) :
    valueFor (read document) field = .ok (some (read found)) := by
  have hseen := seen_of_valueAt h.path
  rw [seen, hfound, Option.map_some] at hseen
  rw [valueFor, if_pos hsafe]
  cases hvalue : valueAt (segments field) (read document) with
  | error e =>
    rw [hvalue] at hseen
    cases hseen
  | ok value =>
    rw [hvalue] at hseen
    exact congrArg Except.ok hseen.symm

theorem seen_of_valueFor {value : Option Row} (hsafe : safeFieldPath field = true)
    (h : Readable modelFieldType document field) (hvalue : valueFor (read document) field = .ok value) :
    seen (segments field) document = value := by
  rw [valueFor, if_pos hsafe] at hvalue
  rw [seen_of_valueAt h.path, hvalue]
  rfl

/-! ## Predicates -/

theorem jsonNullPredicate_evaluates {params : List Param} {compiled : Compiled}
    (h : jsonNullPredicate field params = .ok compiled) :
    params <+: compiled.2 ∧ EvaluatesIn castOther document compiled.2 compiled.1
      (some (strictEqual (seen (segments field) document) (.scalar .null))) := by
  obtain ⟨⟨path, params'⟩, hpath, hresult⟩ := Except.bind_eq_ok.mp h
  obtain ⟨-, rfl, rfl⟩ := jsonPathParam_ok hpath
  cases hresult
  refine ⟨List.prefix_append _ _, fun rest => ?_⟩
  rw [List.append_assoc, List.singleton_append, Condition.eval_coalesceFalse,
    Condition.eval_isJsonNull, lookup_append, seen]
  rcases lookup (segments field) document with _ | _ | _ | _ | _ | _ | _ | _ <;> rfl

/-- A guarded predicate has the value that its inner condition has on values of the right type. -/
theorem guarded_evaluates {type : JsonComparisonType} {params params' : List Param} {access : Access}
    (htype : type ≠ .null) (haccess : jsonAccessForComparison field type params = .ok (access, params'))
    (hread : Readable modelFieldType document field)
    (hdate : type = .date → modelFieldType field = some .date) (pushed : List Param)
    {inner : Condition} {f : Scalar JsString → Bool}
    (hvalue : ∀ rest d a,
      access.value.eval castOther ⟨document, params' ++ pushed ++ rest⟩ = .ok d → Same type d a →
        inner.eval castOther ⟨document, params' ++ pushed ++ rest⟩ = .ok (some (f a)))
    (hnull : ∀ rest, access.value.eval castOther ⟨document, params' ++ pushed ++ rest⟩ = .ok .null →
      ∃ t, inner.eval castOther ⟨document, params' ++ pushed ++ rest⟩ = .ok t ∧ t ≠ some true) :
    params <+: params' ++ pushed ∧
      EvaluatesIn castOther document (params' ++ pushed) (.coalesceFalse (.and access.guard inner))
        (some (((seen (segments field) document).bind Json.scalar).any fun a =>
          decide (scalarType a = guardType type) && f a)) := by
  obtain ⟨hsafe, rfl, rfl⟩ := jsonAccessForComparison_ok htype haccess
  refine ⟨(List.prefix_append _ _).trans (List.prefix_append _ _), fun rest => ?_⟩
  have hlookup : Context.lookup ⟨document, params ++ [.path (segments field)] ++ pushed ++ rest⟩
      (params.length + 1) = .ok (lookup (segments field) document) := by
    rw [List.append_assoc, List.append_assoc]
    exact lookup_append document params _ _
  have htext : (Expr.text (params.length + 1) type).eval castOther
      ⟨document, params ++ [.path (segments field)] ++ pushed ++ rest⟩ =
      castText castOther type (lookup (segments field) document) := by
    rw [Expr.eval_text, hlookup]
    rfl
  apply guarded_eval hlookup htype
  · intro hdateType found hfound
    exact hread.conforms field .date _ (hdate hdateType) (valueFor_of_lookup hsafe hread hfound)
  · intro d a hcast hsame
    exact hvalue rest d a (htext.trans hcast) hsame
  · intro hcast
    exact hnull rest (htext.trans hcast)

theorem jsonComparisonType_date {s : Scalar JsString}
    (h : jsonComparisonType modelFieldType field s = .date) : modelFieldType field = some .date := by
  unfold jsonComparisonType at h
  generalize modelFieldType field = type at h ⊢
  cases s <;> rcases type with _ | _ | _ | _ | _ <;> first | rfl | cases h

theorem jsonComparisonType_eq_null {s : Scalar JsString} :
    jsonComparisonType modelFieldType field s = .null ↔ s = .null := by
  constructor
  · intro h
    unfold jsonComparisonType at h
    generalize modelFieldType field = type at h
    cases s <;> rcases type with _ | _ | _ | _ | _ <;> first | rfl | cases h
  · rintro rfl
    rfl

theorem param_eval {params rest : List Param} {type : JsonComparisonType} {s : Scalar JsString}
    {d : Datum} (h : bindOperand type s = .ok d) {n : Nat} (hn : n = params.length + 1) :
    (Expr.param n type).eval castOther ⟨document, params ++ .scalar s :: rest⟩ = .ok d := by
  rw [hn, Expr.eval_param (param_append document params rest _)]
  exact h

variable (castOther) in
theorem jsonEqualityPredicate_evaluates {s : Scalar JsString} {params : List Param}
    {compiled : Compiled} (hmatches : operandMatches (modelFieldType field) s = true)
    (hportable : portableOperand (modelFieldType field) s = true)
    (hread : Readable modelFieldType document field)
    (h : jsonEqualityPredicate modelFieldType field s params = .ok compiled) :
    params <+: compiled.2 ∧ EvaluatesIn castOther document compiled.2 compiled.1
      (some (strictEqual (seen (segments field) document) (.scalar s))) := by
  by_cases hnull : s = .null
  · subst hnull
    exact jsonNullPredicate_evaluates h
  · have htype : jsonComparisonType modelFieldType field s ≠ .null :=
      mt jsonComparisonType_eq_null.mp hnull
    have hcompile : ∃ access params', jsonAccessForComparison field
        (jsonComparisonType modelFieldType field s) params = .ok (access, params') ∧
        compiled = (.coalesceFalse (.and access.guard (.compare .eq access.value
          (.param (params' ++ [Param.scalar s]).length (jsonComparisonType modelFieldType field s)))),
          params' ++ [.scalar s]) := by
      rw [jsonEqualityPredicate] at h
      split at h
      · next hnullType => exact absurd hnullType htype
      · obtain ⟨⟨access, params'⟩, haccess, hresult⟩ := Except.bind_eq_ok.mp h
        cases hresult
        exact ⟨access, params', haccess, rfl⟩
    obtain ⟨access, params', haccess, rfl⟩ := hcompile
    obtain ⟨e, hbind, hsame, hguard⟩ := bindOperand_same hmatches hportable hnull
    have hparam (rest : List Param) : (Expr.param (params' ++ [Param.scalar s]).length
        (jsonComparisonType modelFieldType field s)).eval castOther
        ⟨document, params' ++ [.scalar s] ++ rest⟩ = .ok e := by
      rw [List.append_assoc]
      exact param_eval hbind (by simp)
    have hequal : strictEqual (seen (segments field) document) (.scalar s) =
        (((seen (segments field) document).bind Json.scalar).any fun a =>
          decide (scalarType a = guardType (jsonComparisonType modelFieldType field s)) &&
            decide (a = s)) := by
      rw [strictEqual, hguard]
      cases (seen (segments field) document).bind Json.scalar with
      | none => rfl
      | some a =>
        by_cases ha : a = s
        · subst ha
          simp
        · simp [ha]
    rw [hequal]
    apply guarded_evaluates htype haccess hread jsonComparisonType_date
    · intro rest d a hd hsameD
      rw [Condition.eval_compare, hd, hparam rest]
      exact congrArg Except.ok (hsameD.compareTruth_eq hsame)
    · intro rest hd
      refine ⟨none, ?_, by simp⟩
      rw [Condition.eval_compare, hd, hparam rest]
      rfl

theorem eval_orderKey (e : Expr) (context : Context) :
    (Expr.orderKey e).eval castOther context = (e.eval castOther context).map orderedDatum := by
  cases h : e.eval castOther context with
  | error => exact congrArg (· >>= _) h
  | ok d => exact (congrArg (· >>= _) h).trans (by cases d <;> rfl)

theorem ordered_eval {type : JsonComparisonType} {e : Expr} {context : Context} {d : Datum}
    {a : Scalar JsString} (h : e.eval castOther context = .ok d) (hsame : Same type d a) :
    (ordered type e).eval castOther context = .ok (orderedDatum d) := by
  cases hsame with
  | text value =>
    rw [ordered, if_pos rfl, eval_orderKey, h]
    rfl
  | _ => exact h

theorem ordered_eval_null {type : JsonComparisonType} {e : Expr} {context : Context}
    (h : e.eval castOther context = .ok .null) :
    (ordered type e).eval castOther context = .ok .null := by
  rw [ordered]
  split
  · rw [eval_orderKey, h]
    rfl
  · exact h

theorem compareRangeValues_any {s : Scalar JsString} (hs : rangeOperand (.scalar s) = true)
    (operator : Comparison) (value : Option Row) :
    (compareRangeValues value (.scalar s)).any operator.holds =
      ((value.bind Json.scalar).any fun a =>
        decide (scalarType a = scalarType s) && operator.holds (compareValues a s)) := by
  unfold compareRangeValues
  cases s with
  | null => cases hs
  | bool _ => cases hs
  | number _ => rcases value.bind Json.scalar with _ | _ | _ | _ | _ <;> rfl
  | string _ => rcases value.bind Json.scalar with _ | _ | _ | _ | _ <;> rfl

theorem ne_null_of_range {s : Scalar JsString} (hs : rangeOperand (.scalar s) = true) : s ≠ .null := by
  rintro rfl
  cases hs

variable (castOther) in
theorem jsonRangePredicate_evaluates {operator : Comparison} {s : Scalar JsString}
    {params : List Param} {compiled : Compiled} (hrange : rangeOperand (.scalar s) = true)
    (hmatches : operandMatches (modelFieldType field) s = true)
    (hportable : portableOperand (modelFieldType field) s = true)
    (hread : Readable modelFieldType document field)
    (h : jsonRangePredicate modelFieldType field operator s params = .ok compiled) :
    params <+: compiled.2 ∧ EvaluatesIn castOther document compiled.2 compiled.1
      (some ((compareRangeValues (seen (segments field) document) (.scalar s)).any
        operator.holds)) := by
  have hnull := ne_null_of_range hrange
  have htype : jsonComparisonType modelFieldType field s ≠ .null :=
    mt jsonComparisonType_eq_null.mp hnull
  obtain ⟨⟨access, params'⟩, haccess, hresult⟩ := Except.bind_eq_ok.mp h
  cases hresult
  obtain ⟨e, hbind, hsame, hguard⟩ := bindOperand_same hmatches hportable hnull
  have hparam (rest : List Param) : (Expr.param (params' ++ [Param.scalar s]).length
      (jsonComparisonType modelFieldType field s)).eval castOther
      ⟨document, params' ++ [.scalar s] ++ rest⟩ = .ok e := by
    rw [List.append_assoc]
    exact param_eval hbind (by simp)
  rw [compareRangeValues_any hrange, ← hguard]
  apply guarded_evaluates htype haccess hread jsonComparisonType_date
  · intro rest d a hd hsameD
    rw [Condition.eval_compare, ordered_eval hd hsameD, ordered_eval (hparam rest) hsame]
    exact congrArg Except.ok (hsameD.compareTruth_ordered hsame operator)
  · intro rest hd
    refine ⟨none, ?_, by simp⟩
    rw [Condition.eval_compare, ordered_eval_null hd, ordered_eval (hparam rest) hsame]
    rfl

theorem jsonComparisonType_sameKind {s t : Scalar JsString}
    (h : sameKind (.scalar s) (.scalar t) = true) :
    jsonComparisonType modelFieldType field s = jsonComparisonType modelFieldType field t := by
  unfold jsonComparisonType
  generalize modelFieldType field = type
  cases s <;> cases t <;> cases h <;> rcases type with _ | _ | _ | _ | _ <;> rfl

theorem scalarType_sameKind {s t : Scalar JsString} (h : sameKind (.scalar s) (.scalar t) = true) :
    scalarType s = scalarType t := by
  cases s <;> cases t <;> first | rfl | cases h

variable (castOther) in
theorem jsonBetweenPredicate_evaluates {s t : Scalar JsString} {params : List Param}
    {compiled : Compiled} (hrangeS : rangeOperand (.scalar s) = true)
    (hrangeT : rangeOperand (.scalar t) = true) (hkind : sameKind (.scalar s) (.scalar t) = true)
    (hmatchesS : operandMatches (modelFieldType field) s = true)
    (hmatchesT : operandMatches (modelFieldType field) t = true)
    (hportableS : portableOperand (modelFieldType field) s = true)
    (hportableT : portableOperand (modelFieldType field) t = true)
    (hread : Readable modelFieldType document field)
    (h : jsonBetweenPredicate modelFieldType field s t params = .ok compiled) :
    params <+: compiled.2 ∧ EvaluatesIn castOther document compiled.2 compiled.1
      (some ((compareRangeValues (seen (segments field) document) (.scalar s)).any
          Comparison.ge.holds &&
        (compareRangeValues (seen (segments field) document) (.scalar t)).any
          Comparison.le.holds)) := by
  have hnull := ne_null_of_range hrangeS
  have htype : jsonComparisonType modelFieldType field s ≠ .null :=
    mt jsonComparisonType_eq_null.mp hnull
  obtain ⟨⟨access, params'⟩, haccess, hresult⟩ := Except.bind_eq_ok.mp h
  cases hresult
  obtain ⟨low, hbindS, hsameS, hguard⟩ := bindOperand_same hmatchesS hportableS hnull
  obtain ⟨high, hbindT, hsameT, -⟩ := bindOperand_same hmatchesT hportableT (ne_null_of_range hrangeT)
  rw [← jsonComparisonType_sameKind hkind] at hbindT hsameT
  have hlow (rest : List Param) :
      (Expr.param ((params' ++ [Param.scalar s, .scalar t]).length - 1)
        (jsonComparisonType modelFieldType field s)).eval castOther
        ⟨document, params' ++ [.scalar s, .scalar t] ++ rest⟩ = .ok low := by
    rw [List.append_assoc]
    exact param_eval hbindS (by simp)
  have hhigh (rest : List Param) :
      (Expr.param (params' ++ [Param.scalar s, .scalar t]).length
        (jsonComparisonType modelFieldType field s)).eval castOther
        ⟨document, params' ++ [.scalar s, .scalar t] ++ rest⟩ = .ok high := by
    have hsplit : params' ++ [Param.scalar s, .scalar t] ++ rest =
        (params' ++ [.scalar s]) ++ .scalar t :: rest := by simp
    rw [hsplit]
    exact param_eval hbindT (by simp)
  have hboth : ((compareRangeValues (seen (segments field) document) (.scalar s)).any
        Comparison.ge.holds &&
      (compareRangeValues (seen (segments field) document) (.scalar t)).any Comparison.le.holds) =
      (((seen (segments field) document).bind Json.scalar).any fun a =>
        decide (scalarType a = guardType (jsonComparisonType modelFieldType field s)) &&
          (Comparison.ge.holds (compareValues a s) && Comparison.le.holds (compareValues a t))) := by
    rw [compareRangeValues_any hrangeS, compareRangeValues_any hrangeT, hguard,
      ← scalarType_sameKind hkind]
    cases (seen (segments field) document).bind Json.scalar with
    | none => rfl
    | some a =>
      simp only [Option.any_some]
      cases decide (scalarType a = scalarType s) <;> rfl
  rw [hboth]
  apply guarded_evaluates htype haccess hread jsonComparisonType_date
  · intro rest d a hd hsameD
    rw [Condition.eval_between, ordered_eval hd hsameD, ordered_eval (hlow rest) hsameS,
      ordered_eval (hhigh rest) hsameT]
    simp only [bind, Except.bind, hsameD.compareTruth_ordered hsameS,
      hsameD.compareTruth_ordered hsameT]
    cases Comparison.ge.holds (compareValues a s) <;>
      cases Comparison.le.holds (compareValues a t) <;> rfl
  · intro rest hd
    refine ⟨none, ?_, by simp⟩
    rw [Condition.eval_between, ordered_eval_null hd, ordered_eval (hlow rest) hsameS,
      ordered_eval (hhigh rest) hsameT]
    rfl

/-! ## Joined conditions -/

namespace EvaluatesIn
variable {params : List Param} {c d : Condition} {t u : Truth}

theorem and (hc : EvaluatesIn castOther document params c t)
    (hd : EvaluatesIn castOther document params d u) :
    EvaluatesIn castOther document params (.and c d) (t.and u) := by
  intro rest
  exact Condition.eval_and (hc rest) (hd rest)

theorem or (hc : EvaluatesIn castOther document params c t)
    (hd : EvaluatesIn castOther document params d u) :
    EvaluatesIn castOther document params (.or c d) (t.or u) := by
  intro rest
  rw [Condition.eval_or, hc rest, hd rest]
  rfl

theorem not (hc : EvaluatesIn castOther document params c t) :
    EvaluatesIn castOther document params (.not c) t.not := by
  intro rest
  rw [Condition.eval_not, hc rest]
  rfl

theorem foldl_and {cs : List Condition} {ts : List Truth}
    (hc : EvaluatesIn castOther document params c t)
    (hcs : List.Forall₂ (EvaluatesIn castOther document params) cs ts) :
    EvaluatesIn castOther document params (cs.foldl .and c) (ts.foldl Truth.and t) := by
  induction hcs generalizing c t with
  | nil => exact hc
  | cons hd _ ih => exact ih (hc.and hd)

theorem foldl_or {cs : List Condition} {ts : List Truth}
    (hc : EvaluatesIn castOther document params c t)
    (hcs : List.Forall₂ (EvaluatesIn castOther document params) cs ts) :
    EvaluatesIn castOther document params (cs.foldl .or c) (ts.foldl Truth.or t) := by
  induction hcs generalizing c t with
  | nil => exact hc
  | cons hd _ ih => exact ih (hc.or hd)

end EvaluatesIn

/-! ## Lists of operands -/

/-- The groups hold the operands by their types. -/
structure GroupsOf (modelFieldType : String → Option FieldType) (field : String)
    (values : List (Scalar JsString))
    (groups : List (JsonComparisonType × List (Scalar JsString))) : Prop where
  nonempty : ∀ group ∈ groups, group.2 ≠ []
  of_mem : ∀ group ∈ groups, ∀ u ∈ group.2,
    u ∈ values ∧ jsonComparisonType modelFieldType field u = group.1
  mem : ∀ u ∈ values, ∃ group ∈ groups, u ∈ group.2

theorem mem_addOperand {type : JsonComparisonType} {value : Scalar JsString}
    {groups : List (JsonComparisonType × List (Scalar JsString))}
    {group : JsonComparisonType × List (Scalar JsString)} (h : group ∈ addOperand type value groups) :
    group ∈ groups ∨ group = (type, [value]) ∨
      ∃ values, (type, values) ∈ groups ∧ group = (type, values ++ [value]) := by
  induction groups with
  | nil => exact Or.inr (Or.inl (List.mem_singleton.mp h))
  | cons first groups ih =>
    obtain ⟨other, values⟩ := first
    rw [addOperand_cons] at h
    by_cases hother : other = type
    · rw [if_pos hother] at h
      rcases List.mem_cons.mp h with rfl | hmem
      · subst hother
        exact Or.inr (Or.inr ⟨values, List.mem_cons_self, rfl⟩)
      · exact Or.inl (List.mem_cons_of_mem _ hmem)
    · rw [if_neg hother] at h
      rcases List.mem_cons.mp h with rfl | hmem
      · exact Or.inl List.mem_cons_self
      · rcases ih hmem with hold | hnew | ⟨values', hmem', hgrown⟩
        · exact Or.inl (List.mem_cons_of_mem _ hold)
        · exact Or.inr (Or.inl hnew)
        · exact Or.inr (Or.inr ⟨values', List.mem_cons_of_mem _ hmem', hgrown⟩)

theorem addOperand_keeps {type : JsonComparisonType} {value u : Scalar JsString}
    {groups : List (JsonComparisonType × List (Scalar JsString))}
    (h : (∃ group ∈ groups, u ∈ group.2) ∨ u = value) :
    ∃ group ∈ addOperand type value groups, u ∈ group.2 := by
  induction groups with
  | nil =>
    rcases h with ⟨group, hmem, -⟩ | rfl
    · exact absurd hmem List.not_mem_nil
    · exact ⟨_, List.mem_singleton_self _, List.mem_singleton_self _⟩
  | cons first groups ih =>
    obtain ⟨other, values⟩ := first
    rw [addOperand_cons]
    by_cases hother : other = type
    · rw [if_pos hother]
      rcases h with ⟨group, hmem, hu⟩ | rfl
      · rcases List.mem_cons.mp hmem with rfl | hmem
        · exact ⟨_, List.mem_cons_self, List.mem_append_left _ hu⟩
        · exact ⟨group, List.mem_cons_of_mem _ hmem, hu⟩
      · exact ⟨_, List.mem_cons_self, List.mem_append_right _ (List.mem_singleton_self _)⟩
    · rw [if_neg hother]
      rcases h with ⟨group, hmem, hu⟩ | heq
      · rcases List.mem_cons.mp hmem with rfl | hmem
        · exact ⟨_, List.mem_cons_self, hu⟩
        · obtain ⟨group', hmem', hu'⟩ := ih (Or.inl ⟨group, hmem, hu⟩)
          exact ⟨group', List.mem_cons_of_mem _ hmem', hu'⟩
      · obtain ⟨group', hmem', hu'⟩ := ih (Or.inr heq)
        exact ⟨group', List.mem_cons_of_mem _ hmem', hu'⟩

theorem GroupsOf.add {values : List (Scalar JsString)}
    {groups : List (JsonComparisonType × List (Scalar JsString))}
    (h : GroupsOf modelFieldType field values groups) (value : Scalar JsString) :
    GroupsOf modelFieldType field (values ++ [value])
      (addOperand (jsonComparisonType modelFieldType field value) value groups) where
  nonempty := by
    intro group hmem
    rcases mem_addOperand hmem with hold | rfl | ⟨values', -, rfl⟩
    · exact h.nonempty group hold
    · exact List.cons_ne_nil _ _
    · exact List.append_ne_nil_of_right_ne_nil _ (List.cons_ne_nil _ _)
  of_mem := by
    intro group hmem u hu
    rcases mem_addOperand hmem with hold | rfl | ⟨values', hmem', rfl⟩
    · obtain ⟨huvalues, htype⟩ := h.of_mem group hold u hu
      exact ⟨List.mem_append_left _ huvalues, htype⟩
    · obtain rfl := List.mem_singleton.mp hu
      exact ⟨List.mem_append_right _ (List.mem_singleton_self _), rfl⟩
    · rcases List.mem_append.mp hu with hu | hu
      · obtain ⟨huvalues, htype⟩ := h.of_mem _ hmem' u hu
        exact ⟨List.mem_append_left _ huvalues, htype⟩
      · obtain rfl := List.mem_singleton.mp hu
        exact ⟨List.mem_append_right _ (List.mem_singleton_self _), rfl⟩
  mem := by
    intro u hu
    apply addOperand_keeps
    rcases List.mem_append.mp hu with hu | hu
    · exact Or.inl (h.mem u hu)
    · exact Or.inr (List.mem_singleton.mp hu)

theorem operandGroups_groupsOf (values : List (Scalar JsString)) :
    GroupsOf modelFieldType field values (operandGroups modelFieldType field values) := by
  have hfrom (done rest : List (Scalar JsString))
      (groups : List (JsonComparisonType × List (Scalar JsString)))
      (h : GroupsOf modelFieldType field done groups) :
      GroupsOf modelFieldType field (done ++ rest)
        (rest.foldl (fun groups value =>
          addOperand (jsonComparisonType modelFieldType field value) value groups) groups) := by
    induction rest generalizing done groups with
    | nil =>
      rw [List.append_nil]
      exact h
    | cons value rest ih =>
      have hnext := ih (done ++ [value]) _ (h.add value)
      rw [List.append_assoc, List.singleton_append] at hnext
      exact hnext
  exact hfrom [] values [] ⟨by simp, by simp, by simp⟩

theorem bindOperands_same {type : JsonComparisonType} {values : List (Scalar JsString)}
    (h : ∀ u ∈ values, ∃ d, bindOperand type u = .ok d ∧ Same type d u) :
    ∃ items, values.mapM (bindOperand type) = .ok items ∧ List.Forall₂ (Same type) items values := by
  induction values with
  | nil => exact ⟨[], rfl, .nil⟩
  | cons value values ih =>
    obtain ⟨⟨d, hd, hsame⟩, hrest⟩ := List.forall_mem_cons.mp h
    obtain ⟨items, hitems, hsames⟩ := ih hrest
    refine ⟨d :: items, ?_, .cons hsame hsames⟩
    rw [List.mapM_cons, hd]
    simp only [bind, Except.bind, hitems]
    rfl

theorem foldl_or_same {type : JsonComparisonType} {d : Datum} {a : Scalar JsString}
    {items : List Datum} {values : List (Scalar JsString)} (hd : Same type d a)
    (h : List.Forall₂ (Same type) items values) (b : Bool) :
    (items.map (compareTruth .eq d)).foldl Truth.or (some b) =
      some (b || values.any fun u => decide (a = u)) := by
  induction h generalizing b with
  | nil => exact congrArg some (Bool.or_false b).symm
  | @cons e u items values hsame _ ih =>
    have hor : Truth.or (some b) (some (decide (a = u))) = some (b || decide (a = u)) := by
      cases b <;> cases decide (a = u) <;> rfl
    rw [List.map_cons, List.foldl_cons, hd.compareTruth_eq hsame, hor, ih, List.any_cons, Bool.or_assoc]

theorem groupClause_evaluates {type : JsonComparisonType} {values : List (Scalar JsString)}
    {params : List Param} {compiled : Compiled} (hvalues : values ≠ [])
    (htypes : ∀ u ∈ values, jsonComparisonType modelFieldType field u = type)
    (hmatches : ∀ u ∈ values, operandMatches (modelFieldType field) u = true)
    (hportable : ∀ u ∈ values, portableOperand (modelFieldType field) u = true)
    (hread : Readable modelFieldType document field)
    (h : groupClause field type values params = .ok compiled) :
    params <+: compiled.2 ∧ EvaluatesIn castOther document compiled.2 compiled.1
      (some (values.any fun u => strictEqual (seen (segments field) document) (.scalar u))) := by
  obtain ⟨first, rest', hcons⟩ := List.exists_cons_of_ne_nil hvalues
  by_cases hnull : type = .null
  · subst hnull
    have hall : ∀ u ∈ values, u = .null := fun u hu =>
      jsonComparisonType_eq_null.mp (htypes u hu)
    have hany : (values.any fun u => strictEqual (seen (segments field) document) (.scalar u)) =
        strictEqual (seen (segments field) document) (.scalar .null) := by
      rw [Bool.eq_iff_iff, List.any_eq_true]
      constructor
      · rintro ⟨u, hu, hequal⟩
        rwa [hall u hu] at hequal
      · intro hequal
        refine ⟨first, hcons ▸ List.mem_cons_self, ?_⟩
        rwa [hall first (hcons ▸ List.mem_cons_self)]
    rw [hany]
    exact jsonNullPredicate_evaluates h
  · have hne (u : Scalar JsString) (hu : u ∈ values) : u ≠ .null := by
      rintro rfl
      exact hnull ((htypes _ hu).symm.trans rfl)
    have hcompile : ∃ access params', jsonAccessForComparison field type params =
        .ok (access, params') ∧ compiled = (.coalesceFalse (.and access.guard
          (.any access.value (params' ++ [Param.list values]).length type)), params' ++ [.list values]) := by
      rw [groupClause.eq_def] at h
      split at h
      · exact absurd rfl hnull
      · obtain ⟨⟨access, params'⟩, haccess, hresult⟩ := Except.bind_eq_ok.mp h
        cases hresult
        exact ⟨access, params', haccess, rfl⟩
    obtain ⟨access, params', haccess, rfl⟩ := hcompile
    have hbind (u : Scalar JsString) (hu : u ∈ values) :
        ∃ d, bindOperand type u = .ok d ∧ Same type d u ∧ guardType type = scalarType u := by
      have hsame := bindOperand_same (hmatches u hu) (hportable u hu) (hne u hu)
      rwa [htypes u hu] at hsame
    obtain ⟨items, hitems, hsames⟩ := bindOperands_same fun u hu =>
      (hbind u hu).imp fun d hd => ⟨hd.1, hd.2.1⟩
    have hparam (rest : List Param) :
        Context.param ⟨document, params' ++ [.list values] ++ rest⟩
          (params' ++ [Param.list values]).length = some (.list values) := by
      rw [List.append_assoc, List.length_append]
      exact param_append document params' rest _
    have hany : (values.any fun u => strictEqual (seen (segments field) document) (.scalar u)) =
        (((seen (segments field) document).bind Json.scalar).any fun a =>
          decide (scalarType a = guardType type) && values.any fun u => decide (a = u)) := by
      simp only [strictEqual]
      cases (seen (segments field) document).bind Json.scalar with
      | none => simp
      | some a =>
        rw [Option.any_some]
        simp only [Option.some.injEq]
        by_cases hguard : scalarType a = guardType type
        · rw [decide_eq_true hguard, Bool.true_and]
        · rw [decide_eq_false hguard, Bool.false_and, List.any_eq_false]
          intro u hu hequal
          obtain ⟨-, -, -, hscalar⟩ := hbind u hu
          rw [decide_eq_true_eq.mp hequal] at hguard
          exact hguard hscalar.symm
    rw [hany]
    apply guarded_evaluates hnull haccess hread
    · intro hdate
      exact jsonComparisonType_date ((htypes first (hcons ▸ List.mem_cons_self)).trans hdate)
    · intro rest d a hd hsame
      rw [Condition.eval_any hd (hparam rest) hitems, foldl_or_same hsame hsames false, Bool.false_or]
    · intro rest hd
      refine ⟨(items.map (compareTruth .eq .null)).foldl Truth.or (some false), ?_, ?_⟩
      · exact Condition.eval_any hd (hparam rest) hitems
      · rw [Ne, Truth.foldl_or_eq_true]
        simp [compareTruth]

variable (castOther document) in
/-- Conditions that evaluate one after the other, each with more parameters. -/
theorem groupClauses_evaluate {groups : List (JsonComparisonType × List (Scalar JsString))}
    {params params' : List Param} {clauses : List Condition}
    (hclause : ∀ group ∈ groups, ∀ params compiled, groupClause field group.1 group.2 params =
      .ok compiled → params <+: compiled.2 ∧ EvaluatesIn castOther document compiled.2 compiled.1
        (some (group.2.any fun u => strictEqual (seen (segments field) document) (.scalar u))))
    (h : groupClauses field groups params = .ok (clauses, params')) :
    params <+: params' ∧ List.Forall₂ (EvaluatesIn castOther document params') clauses
      (groups.map fun group =>
        some (group.2.any fun u => strictEqual (seen (segments field) document) (.scalar u))) := by
  induction groups generalizing params clauses with
  | nil =>
    cases h
    exact ⟨List.prefix_rfl, .nil⟩
  | cons group groups ih =>
    obtain ⟨type, values⟩ := group
    obtain ⟨⟨clause, middle⟩, hfirst, hrest⟩ := Except.bind_eq_ok.mp h
    obtain ⟨⟨clauses', last⟩, hclauses, hresult⟩ := Except.bind_eq_ok.mp hrest
    cases hresult
    rw [List.forall_mem_cons] at hclause
    obtain ⟨hgrown, heval⟩ := hclause.1 _ _ hfirst
    obtain ⟨hgrown', hevals⟩ := ih hclause.2 hclauses
    exact ⟨hgrown.trans hgrown', .cons (heval.mono hgrown') hevals⟩

variable (castOther) in
theorem jsonInPredicate_evaluates {values : List (Scalar JsString)} {params : List Param}
    {compiled : Compiled} (hmatches : ∀ u ∈ values, operandMatches (modelFieldType field) u = true)
    (hportable : ∀ u ∈ values, portableOperand (modelFieldType field) u = true)
    (hread : Readable modelFieldType document field)
    (h : jsonInPredicate modelFieldType field values params = .ok compiled) :
    params <+: compiled.2 ∧ ∃ t, EvaluatesIn castOther document compiled.2 compiled.1 t ∧
      (t = some true ↔ arrayIncludesValue (.list values) (seen (segments field) document) = true) := by
  obtain ⟨⟨clauses, params'⟩, hclauses, hresult⟩ := Except.bind_eq_ok.mp h
  have hgroups : GroupsOf modelFieldType field values (operandGroups modelFieldType field values) :=
    operandGroups_groupsOf values
  obtain ⟨hgrown, hevals⟩ := groupClauses_evaluate castOther document
    (fun group hmem params compiled hclause => groupClause_evaluates (hgroups.nonempty group hmem)
      (fun u hu => (hgroups.of_mem group hmem u hu).2)
      (fun u hu => hmatches u (hgroups.of_mem group hmem u hu).1)
      (fun u hu => hportable u (hgroups.of_mem group hmem u hu).1) hread hclause) hclauses
  generalize htruths : (operandGroups modelFieldType field values).map _ = truths at hevals
  cases hevals with
  | nil => cases hresult
  | @cons first t clauses ts hfirst hrest =>
    cases hresult
    refine ⟨hgrown, _, hfirst.foldl_or hrest, ?_⟩
    rw [Truth.foldl_or_eq_true]
    have hexists : (t = some true ∨ ∃ u ∈ ts, u = some true) ↔ ∃ u ∈ t :: ts, u = some true := by
      rw [List.exists_mem_cons_iff]
    rw [hexists, ← htruths, arrayIncludesValue, List.any_eq_true]
    constructor
    · rintro ⟨t, hmem, ht⟩
      obtain ⟨group, hgroup, rfl⟩ := List.mem_map.mp hmem
      obtain ⟨u, hu, hequal⟩ := List.any_eq_true.mp (Option.some.inj ht)
      exact ⟨u, (hgroups.of_mem group hgroup u hu).1, hequal⟩
    · rintro ⟨u, hu, hequal⟩
      obtain ⟨group, hgroup, hmem⟩ := hgroups.mem u hu
      refine ⟨_, List.mem_map_of_mem hgroup, ?_⟩
      rw [Option.some.injEq, List.any_eq_true]
      exact ⟨u, hmem, hequal⟩

/-! ## Entries -/

def entryOperands (entry : WhereEntry Operand) : List (Scalar JsString) :=
  let operands : Operand → List (Scalar JsString)
    | .absent => []
    | .scalar value => [value]
    | .list values => values
  operands entry.value ++ operands (entry.value2.getD .absent)

/-- The condition evaluates, and is true where the portable one holds, and not where it does not
hold. -/
def Decides (castOther : Document → JsonComparisonType → Except PostgresError Datum)
    (document : Document) (params : List Param) (condition : Condition)
    (portable : Except PortableError Bool) : Prop :=
  ∃ t, EvaluatesIn castOther document params condition t ∧
    ∀ holds, portable = .ok holds → (t = some true ↔ holds = true)

theorem Decides.of_evaluates {params : List Param} {condition : Condition} {b : Bool}
    {portable : Except PortableError Bool}
    (h : EvaluatesIn castOther document params condition (some b))
    (hportable : ∀ holds, portable = .ok holds → b = holds) :
    Decides castOther document params condition portable := by
  refine ⟨_, h, fun holds hok => ?_⟩
  rw [hportable holds hok, Option.some.injEq]

variable (castOther document field) in
theorem missing_evaluates (params : List Param) :
    EvaluatesIn castOther document (params ++ [.path (segments field)]) (.missing (params.length + 1))
      (some (seen (segments field) document).isNone) := by
  intro rest
  rw [List.append_assoc, List.singleton_append, Condition.eval_missing, lookup_append, seen]
  rcases lookup (segments field) document <;> rfl

theorem isNull_evaluates (params : List Param) :
    EvaluatesIn castOther document (params ++ [.path (segments field)])
      (.or (.missing (params.length + 1)) (.isJsonNull (params.length + 1)))
      (some ((seen (segments field) document).all fun value => value.scalar = some .null)) := by
  intro rest
  rw [List.append_assoc, List.singleton_append, Condition.eval_or, Condition.eval_missing,
    Condition.eval_isJsonNull, lookup_append, seen]
  rcases lookup (segments field) document with _ | _ | _ | _ | _ | _ | _ | _ <;> rfl

/-- The pattern of `like`, as the database reads it. -/
theorem bindOperand_pattern {type : Option FieldType} {value : JsString}
    (h : portableOperand type (.string value) = true) :
    bindOperand .string (.string (escapeLikePrefix value ++ [37])) =
      .ok (.text (escapeText (Utf16.decode value) ++ ['%'])) := by
  rw [portableOperand, Bool.and_eq_true, Bool.and_eq_true, decide_eq_true_eq, Bool.not_eq_true'] at h
  obtain ⟨⟨hnul, htext⟩, -⟩ := h
  have hescaped : escapeLikePrefix value ++ [37] =
      Utf16.encode (escapeText (Utf16.decode value) ++ ['%']) := by
    have hlast : Utf16.encode ['%'] = [37] := by decide
    rw [Utf16.encode_append, hlast, ← escapeLikePrefix_encode, htext]
  have hplain : ¬(escapeLikePrefix value ++ [37]).contains 0 = true := by
    rw [List.contains_eq_mem, decide_eq_false_iff_not] at hnul
    rw [List.contains_eq_mem, decide_eq_true_eq, List.mem_append, escapeLikePrefix, List.mem_flatMap]
    rintro (⟨unit, hunit, hmem⟩ | hmem)
    · split at hmem
      · simp only [List.mem_cons, List.not_mem_nil, or_false] at hmem
        rcases hmem with hmem | rfl
        · exact absurd hmem (by decide)
        · exact hnul hunit
      · rw [List.mem_singleton] at hmem
        exact hnul (hmem ▸ hunit)
    · exact absurd hmem (by decide)
  rw [bindOperand, if_neg hplain, hescaped, Utf16.decode_encode]

variable (castOther document field) in
theorem startsWith_evaluates {type : Option FieldType} {value : JsString}
    (h : portableOperand type (.string value) = true) (params : List Param) :
    ∃ t, EvaluatesIn castOther document
        (params ++ [.path (segments field)] ++ [.scalar (.string (escapeLikePrefix value ++ [37]))])
        (.and (.typeof (params.length + 1) "string") (.like (params.length + 1) (params.length + 2)))
        t ∧
      (t = some true ↔
        startsWith (seen (segments field) document) (.scalar (.string value)) = true) := by
  have hbind := bindOperand_pattern h
  rw [portableOperand, Bool.and_eq_true, Bool.and_eq_true, decide_eq_true_eq] at h
  have htext := h.1.2
  generalize hpattern : Scalar.string (escapeLikePrefix value ++ [37]) = pattern at hbind ⊢
  have hlookup (rest : List Param) : Context.lookup
      ⟨document, params ++ [.path (segments field)] ++ [.scalar pattern] ++ rest⟩
      (params.length + 1) = .ok (lookup (segments field) document) := by
    rw [List.append_assoc, List.append_assoc]
    exact lookup_append document params _ _
  have hparam (rest : List Param) : Context.param
      ⟨document, params ++ [.path (segments field)] ++ [.scalar pattern] ++ rest⟩
      (params.length + 2) = some (.scalar pattern) := by
    have hlength : params.length + 2 = (params ++ [Param.path (segments field)]).length + 1 := by simp
    rw [List.append_assoc _ [Param.scalar pattern], hlength]
    exact param_append document _ rest _
  have heval (rest : List Param) : (Condition.typeof (params.length + 1) "string").eval castOther
      ⟨document, params ++ [.path (segments field)] ++ [.scalar pattern] ++ rest⟩ =
      .ok ((lookup (segments field) document).map fun value => jsonbTypeof value = "string") := by
    rw [Condition.eval_typeof, hlookup]
    rfl
  cases hfound : lookup (segments field) document with
  | none =>
    refine ⟨none, fun rest => ?_, ?_⟩
    · rw [Condition.eval_and (heval rest)
        (Condition.eval_like_missing ((hlookup rest).trans (congrArg _ hfound)) (hparam rest) hbind),
        hfound]
      rfl
    · rw [seen, hfound]
      simp [startsWith]
  | some found =>
    cases found with
    | string stored =>
      refine ⟨some (like (escapeText (Utf16.decode value) ++ ['%']) stored), fun rest => ?_, ?_⟩
      · rw [Condition.eval_and (heval rest)
          (Condition.eval_like_string ((hlookup rest).trans (congrArg _ hfound)) (hparam rest) hbind),
          hfound]
        cases like (escapeText (Utf16.decode value) ++ ['%']) stored <;> rfl
      · rw [seen, hfound, like_escapeText, Option.some.injEq, List.isPrefixOf_iff_prefix]
        simp only [Option.map_some, read, startsWith, Option.bind_some, Json.scalar]
        rw [List.isPrefixOf_iff_prefix, ← Utf16.encode_prefix_iff, htext]
    | _ =>
      refine ⟨some false, fun rest => ?_, ?_⟩
      · apply Condition.eval_and_false
        rw [heval, hfound]
        rfl
      · rw [seen, hfound]
        simp [startsWith, read, Json.scalar]

theorem valueFor_of_compareWhere
    {containment : Option Row → WhereEntry Operand → Except PortableError Bool}
    {entry : WhereEntry Operand} {holds : Bool} (hsafe : safeFieldPath entry.field = true)
    (hread : Readable modelFieldType document entry.field)
    (h : compareWhere containment (read document) entry = .ok holds) :
    valueFor (read document) entry.field = .ok (seen (segments entry.field) document) := by
  cases hvalue : valueFor (read document) entry.field with
  | error e =>
    rw [compareWhere, hvalue] at h
    cases h
  | ok value => rw [seen_of_valueFor hsafe hread hvalue]

/-- What the adapter has checked of an entry, and that its operands are portable. -/
structure EntryOk (modelFieldType : String → Option FieldType) (entry : WhereEntry Operand) : Prop where
  safe : safeFieldPath entry.field = true
  valid : validEntry entry = true
  fits : entryMatches (modelFieldType entry.field) entry = true
  portable : ∀ s ∈ entryOperands entry, portableOperand (modelFieldType entry.field) s = true

variable {containment : Option Row → WhereEntry Operand → Except PortableError Bool}

theorem startsWith_decides {value : JsString} {value2 : Option Operand} {params : List Param}
    {compiled : Compiled}
    (hportable : portableOperand (modelFieldType field) (.string value) = true)
    (hread : Readable modelFieldType document field)
    (h : startsWithCondition modelFieldType field value params = .ok compiled) :
    params <+: compiled.2 ∧ Decides castOther document compiled.2 compiled.1
      (compareWhere containment (read document)
        ⟨field, .startsWith, .scalar (.string value), value2⟩) := by
  rw [startsWithCondition] at h
  split at h
  · cases h
  · obtain ⟨⟨path, params'⟩, hpath, hresult⟩ := Except.bind_eq_ok.mp h
    obtain ⟨hsafe, rfl, rfl⟩ := jsonPathParam_ok hpath
    cases hresult
    obtain ⟨t, heval, ht⟩ := startsWith_evaluates castOther document field hportable params
    refine ⟨(List.prefix_append _ _).trans (List.prefix_append _ _), t, ?_, fun holds hok => ?_⟩
    · have hlength : (params ++ [Param.path (segments field)] ++
          [Param.scalar (.string (escapeLikePrefix value ++ [37]))]).length = params.length + 2 := by
        simp
      rw [hlength]
      exact heval
    · have hvalue := valueFor_of_compareWhere hsafe hread hok
      rw [compareWhere, hvalue] at hok
      have hholds : startsWith (seen (segments field) document) (.scalar (.string value)) = holds :=
        Except.ok.inj hok
      rw [ht, hholds]

theorem ne_decides {s : Scalar JsString} {value2 : Option Operand} {params : List Param}
    {compiled : Compiled} (hmatches : operandMatches (modelFieldType field) s = true)
    (hportable : portableOperand (modelFieldType field) s = true)
    (hread : Readable modelFieldType document field)
    (h : entryCondition modelFieldType ⟨field, .ne, .scalar s, value2⟩ params = .ok compiled) :
    params <+: compiled.2 ∧ Decides castOther document compiled.2 compiled.1
      (compareWhere containment (read document) ⟨field, .ne, .scalar s, value2⟩) := by
  obtain ⟨⟨path, params'⟩, hpath, hrest⟩ := Except.bind_eq_ok.mp h
  obtain ⟨⟨condition, params''⟩, hequality, hresult⟩ := Except.bind_eq_ok.mp hrest
  obtain ⟨hsafe, rfl, rfl⟩ := jsonPathParam_ok hpath
  cases hresult
  obtain ⟨hgrown, heval⟩ := jsonEqualityPredicate_evaluates castOther hmatches
    hportable hread hequality
  refine ⟨(List.prefix_append _ _).trans hgrown, ?_⟩
  have hboth := ((missing_evaluates castOther document field
    params).mono hgrown).not.and heval.not
  refine ⟨_, hboth, fun holds hok => ?_⟩
  have hvalue := valueFor_of_compareWhere hsafe hread hok
  rw [compareWhere, hvalue] at hok
  have hholds : ((seen (segments field) document).isSome &&
      !strictEqual (seen (segments field) document) (.scalar s)) = holds := Except.ok.inj hok
  rw [← hholds, Truth.and_eq_true, Truth.not_eq_true, Truth.not_eq_true]
  cases seen (segments field) document <;> simp

variable (castOther containment) in
/-- The condition of an entry is true where `compareWhere` accepts. -/
theorem entryCondition_decides {entry : WhereEntry Operand} {params : List Param}
    {compiled : Compiled} (hok : EntryOk modelFieldType entry)
    (hread : Readable modelFieldType document entry.field)
    (h : entryCondition modelFieldType entry params = .ok compiled) :
    params <+: compiled.2 ∧ Decides castOther document compiled.2 compiled.1
      (compareWhere containment (read document) entry) := by
  obtain ⟨field, op, value, value2⟩ := entry
  obtain ⟨hsafe, hvalid, hfits, hportable⟩ := hok
  have hvalue {holds : Bool}
      (hholds : compareWhere containment (read document) ⟨field, op, value, value2⟩ = .ok holds) :
      valueFor (read document) field = .ok (seen (segments field) document) :=
    valueFor_of_compareWhere hsafe hread hholds
  cases op with
  | eq =>
    obtain _ | s | _ := value
    · cases hvalid
    · obtain ⟨hgrown, heval⟩ := jsonEqualityPredicate_evaluates castOther hfits
        (hportable s List.mem_cons_self) hread h
      refine ⟨hgrown, .of_evaluates heval fun holds hholds => ?_⟩
      rw [compareWhere, hvalue hholds] at hholds
      exact Except.ok.inj hholds
    · cases hvalid
  | ne =>
    obtain _ | s | _ := value
    · cases hvalid
    · exact ne_decides hfits (hportable s List.mem_cons_self) hread h
    · cases hvalid
  | gt =>
    obtain _ | s | _ := value
    · cases hvalid
    · obtain ⟨hgrown, heval⟩ := jsonRangePredicate_evaluates castOther hvalid hfits
        (hportable s List.mem_cons_self) hread h
      refine ⟨hgrown, .of_evaluates heval fun holds hholds => ?_⟩
      rw [compareWhere, hvalue hholds] at hholds
      rw [any_gt]
      exact Except.ok.inj hholds
    · cases hvalid
  | ge =>
    obtain _ | s | _ := value
    · cases hvalid
    · obtain ⟨hgrown, heval⟩ := jsonRangePredicate_evaluates castOther hvalid hfits
        (hportable s List.mem_cons_self) hread h
      refine ⟨hgrown, .of_evaluates heval fun holds hholds => ?_⟩
      rw [compareWhere, hvalue hholds] at hholds
      exact Except.ok.inj hholds
    · cases hvalid
  | lt =>
    obtain _ | s | _ := value
    · cases hvalid
    · obtain ⟨hgrown, heval⟩ := jsonRangePredicate_evaluates castOther hvalid hfits
        (hportable s List.mem_cons_self) hread h
      refine ⟨hgrown, .of_evaluates heval fun holds hholds => ?_⟩
      rw [compareWhere, hvalue hholds] at hholds
      rw [any_lt]
      exact Except.ok.inj hholds
    · cases hvalid
  | le =>
    obtain _ | s | _ := value
    · cases hvalid
    · obtain ⟨hgrown, heval⟩ := jsonRangePredicate_evaluates castOther hvalid hfits
        (hportable s List.mem_cons_self) hread h
      refine ⟨hgrown, .of_evaluates heval fun holds hholds => ?_⟩
      rw [compareWhere, hvalue hholds] at hholds
      exact Except.ok.inj hholds
    · cases hvalid
  | between =>
    obtain _ | lower | _ := value
    · cases hvalid
    · obtain _ | _ | upper | _ := value2
      · simp [validEntry, rangeOperand] at hvalid
      · simp [validEntry, rangeOperand] at hvalid
      · simp only [validEntry, Option.getD_some, Bool.and_eq_true] at hvalid
        simp only [entryMatches, Bool.and_eq_true] at hfits
        obtain ⟨hgrown, heval⟩ := jsonBetweenPredicate_evaluates castOther
          hvalid.1.1 hvalid.1.2 hvalid.2 hfits.1 hfits.2 (hportable lower List.mem_cons_self)
          (hportable upper (List.mem_cons_of_mem _ List.mem_cons_self)) hread h
        refine ⟨hgrown, .of_evaluates heval fun holds hholds => ?_⟩
        rw [compareWhere, hvalue hholds] at hholds
        exact Except.ok.inj hholds
      · simp [validEntry, rangeOperand] at hvalid
    · cases hvalid
  | «in» =>
    obtain _ | _ | values := value
    · cases hvalid
    · cases hvalid
    · have hmatches : ∀ u ∈ values, operandMatches (modelFieldType field) u = true :=
        List.all_eq_true.mp hfits
      obtain ⟨hgrown, t, heval, ht⟩ := jsonInPredicate_evaluates castOther hmatches
        (fun u hu => hportable u (List.mem_append_left _ hu)) hread h
      refine ⟨hgrown, t, heval, fun holds hholds => ?_⟩
      rw [compareWhere, hvalue hholds] at hholds
      have hholds : arrayIncludesValue (.list values) (seen (segments field) document) = holds :=
        Except.ok.inj hholds
      rw [ht, hholds]
  | isNull =>
    obtain ⟨⟨path, params'⟩, hpath, hresult⟩ := Except.bind_eq_ok.mp h
    obtain ⟨-, rfl, rfl⟩ := jsonPathParam_ok hpath
    cases hresult
    refine ⟨List.prefix_append _ _, .of_evaluates (isNull_evaluates params) fun holds hholds => ?_⟩
    rw [compareWhere, hvalue hholds] at hholds
    exact Except.ok.inj hholds
  | isNotNull =>
    obtain ⟨⟨path, params'⟩, hpath, hresult⟩ := Except.bind_eq_ok.mp h
    obtain ⟨-, rfl, rfl⟩ := jsonPathParam_ok hpath
    cases hresult
    refine ⟨List.prefix_append _ _,
      .of_evaluates (isNull_evaluates params).not fun holds hholds => ?_⟩
    rw [compareWhere, hvalue hholds] at hholds
    rw [← Except.ok.inj hholds]
    cases seen (segments field) document <;> simp
  | startsWith =>
    obtain _ | (_ | _ | _ | prefixText) | _ := value
    · cases hvalid
    · cases hvalid
    · cases hvalid
    · cases hvalid
    · exact startsWith_decides (hportable _ List.mem_cons_self) hread h
    · cases hvalid
  | _ => cases hvalid

/-! ## Plans -/

/-- What a query needs of an entry on a document. -/
structure EntryReadable (modelFieldType : String → Option FieldType) (document : Document)
    (entry : WhereEntry Operand) : Prop where
  portable : ∀ s ∈ entryOperands entry, portableOperand (modelFieldType entry.field) s = true
  field : Readable modelFieldType document entry.field

theorem entryConditions_evaluate {entries : List (WhereEntry Operand)} {params params' : List Param}
    {conditions : List Condition}
    (haccepted : ∀ entry ∈ entries, (safeFieldPath entry.field && validEntry entry &&
      entryMatches (modelFieldType entry.field) entry) = true)
    (hread : ∀ entry ∈ entries, EntryReadable modelFieldType document entry)
    (h : entryConditions modelFieldType entries params = .ok (conditions, params')) :
    params <+: params' ∧ ∃ ts, List.Forall₂ (EvaluatesIn castOther document params') conditions ts ∧
      ∀ holds, compareWheres containment (read document) entries = .ok holds →
        ((∀ t ∈ ts, t = some true) ↔ holds = true) := by
  induction entries generalizing params conditions with
  | nil =>
    cases h
    exact ⟨List.prefix_rfl, [], .nil, fun holds hok => by simp [← Except.ok.inj hok]⟩
  | cons entry entries ih =>
    rw [List.forall_mem_cons] at haccepted hread
    obtain ⟨⟨condition, middle⟩, hfirst, hrest⟩ := Except.bind_eq_ok.mp h
    obtain ⟨⟨conditions', last⟩, hconditions, hresult⟩ := Except.bind_eq_ok.mp hrest
    cases hresult
    have hentry := haccepted.1
    rw [Bool.and_eq_true, Bool.and_eq_true] at hentry
    obtain ⟨hgrown, t, heval, ht⟩ := entryCondition_decides castOther containment ⟨hentry.1.1, hentry.1.2, hentry.2, hread.1.portable⟩
      hread.1.field hfirst
    obtain ⟨hgrown', ts, hevals, hts⟩ := ih haccepted.2 hread.2 hconditions
    refine ⟨hgrown.trans hgrown', t :: ts, .cons (heval.mono hgrown') hevals, fun holds hok => ?_⟩
    rw [compareWheres] at hok
    obtain ⟨own, hown, hloop⟩ := Except.bind_eq_ok.mp hok
    rw [List.forall_mem_cons, ht own hown]
    cases own with
    | true => rw [hts holds hloop, eq_self, true_and]
    | false => simp [← Except.ok.inj hloop]

theorem entryConditions_eq_nil {entries : List (WhereEntry Operand)} {params params' : List Param}
    {conditions : List Condition}
    (h : entryConditions modelFieldType entries params = .ok (conditions, params')) :
    conditions = [] ↔ entries = [] := by
  cases entries with
  | nil =>
    cases h
    simp
  | cons entry entries =>
    obtain ⟨⟨condition, middle⟩, _, hrest⟩ := Except.bind_eq_ok.mp h
    obtain ⟨⟨conditions', last⟩, _, hresult⟩ := Except.bind_eq_ok.mp hrest
    cases hresult
    simp

/-- What the compiled condition of a plan has to do. An empty plan has none. -/
structure PlanDecides (castOther : Document → JsonComparisonType → Except PostgresError Datum)
    (document : Document) (params : List Param) (plan : Plan Operand) (condition : Option Condition)
    (portable : Except PortableError Bool) : Prop where
  none_iff : condition = none ↔ plan.wheres = [] ∧ plan.or = []
  decides : ∃ t, (∀ c ∈ condition, EvaluatesIn castOther document params c t) ∧
    (condition = none → t = some true) ∧ ∀ holds, portable = .ok holds → (t = some true ↔ holds = true)

theorem orConditions_evaluate {branches : List (Plan Operand)} {params params' : List Param}
    {conditions : List Condition}
    (ih : ∀ branch ∈ branches, ∀ params condition params', acceptedPlan modelFieldType branch = true →
      (∀ entry ∈ entriesOf branch, EntryReadable modelFieldType document entry) →
      whereCondition modelFieldType branch params = .ok (condition, params') →
        params <+: params' ∧ PlanDecides castOther document params' branch condition
          (matchesPlan containment (read document) branch))
    (haccepted : acceptedBranches modelFieldType branches = true)
    (hread : ∀ entry ∈ branchEntriesOf branches, EntryReadable modelFieldType document entry)
    (h : orConditions modelFieldType branches params = .ok (conditions, params')) :
    params <+: params' ∧ (conditions = [] ↔ branches = []) ∧
      ∃ ts, List.Forall₂ (EvaluatesIn castOther document params') conditions ts ∧
        ∀ holds, matchesBranch containment (read document) branches = .ok holds →
          ((∃ t ∈ ts, t = some true) ↔ holds = true) := by
  induction branches generalizing params conditions with
  | nil =>
    rw [orConditions] at h
    cases h
    exact ⟨List.prefix_rfl, by simp, [], .nil, fun holds hok => by simp [← Except.ok.inj hok]⟩
  | cons branch branches ihbranches =>
    obtain ⟨wheres, or⟩ := branch
    rw [List.forall_mem_cons] at ih
    rw [acceptedBranches, Bool.and_eq_true, Bool.and_eq_true] at haccepted
    rw [branchEntriesOf, List.forall_mem_append] at hread
    rw [orConditions] at h
    obtain ⟨⟨condition, middle⟩, hfirst, hrest⟩ := Except.bind_eq_ok.mp h
    obtain ⟨⟨conditions', last⟩, hconditions, hresult⟩ := Except.bind_eq_ok.mp hrest
    cases hresult
    obtain ⟨hgrown, hplan⟩ := ih.1 _ _ _ haccepted.1.2 hread.1 hfirst
    obtain ⟨hgrown', -, ts, hevals, hts⟩ := ihbranches ih.2 haccepted.2 hread.2 hconditions
    obtain ⟨t, heval, -, ht⟩ := hplan.decides
    cases condition with
    | none =>
      have hempty := hplan.none_iff.mp rfl
      simp [Plan.wheres, Plan.or] at hempty
      simp [hempty] at haccepted
    | some c =>
      refine ⟨hgrown.trans hgrown', by simp, t :: ts,
        .cons ((heval c rfl).mono hgrown') hevals, fun holds hok => ?_⟩
      rw [matchesBranch] at hok
      obtain ⟨own, hown, hloop⟩ := Except.bind_eq_ok.mp hok
      rw [List.exists_mem_cons_iff, ht own hown]
      cases own with
      | true => simp [← Except.ok.inj hloop]
      | false => rw [hts holds hloop, Bool.false_eq_true, false_or]

end

end ActiveTs.Sql.Postgres
