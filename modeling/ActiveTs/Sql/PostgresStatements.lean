import ActiveTs.Lib.IsoDate
import ActiveTs.Lib.ThreeValued
import ActiveTs.Sql.Portable

/-! # Statements of the PostgreSQL adapter

The conditions and sort expressions that the adapter writes, what PostgreSQL makes of them on a
`jsonb` document, and their compilation from a plan. A placeholder `$n` is the `n`-th parameter. -/

namespace ActiveTs.Sql.Postgres

open ActiveTs.Query (Operator WhereEntry Plan)

/-! ## Documents -/

/-- A text of the database, by its code points. -/
abbrev Text := List Char

/-- A `jsonb` document. -/
abbrev Document := Json Text

mutual

/-- What the application reads of a document. -/
def read : Document → Row
  | .null => .null
  | .bool value => .bool value
  | .integer value => .integer value
  | .real value => .real value
  | .string value => .string (Utf16.encode value)
  | .array items => .array (readItems items)
  | .object fields => .object (readFields fields)

def readItems : List Document → List Row
  | [] => []
  | item :: items => read item :: readItems items

def readFields : List (String × Document) → List (String × Row)
  | [] => []
  | (key, value) :: fields => (key, read value) :: readFields fields

end

theorem read_array (items : List Document) : read (.array items) = .array (readItems items) := rfl

theorem read_object (fields : List (String × Document)) :
    read (.object fields) = .object (readFields fields) := rfl

theorem readFields_cons (key : String) (value : Document) (fields : List (String × Document)) :
    readFields ((key, value) :: fields) = (key, read value) :: readFields fields := rfl

def spaces : List Char := [' ', '\t', '\n', '\r', Char.ofNat 11, Char.ofNat 12]

def naturalOf (digits : List Char) : Option Nat :=
  if digits ≠ [] ∧ digits.all Char.isDigit then some (Nat.ofDigitChars 10 digits 0) else none

/-- An element of a path that is an integer. -/
def pathInteger (key : String) : Option Int :=
  match key.toList.dropWhile (spaces.contains ·) with
  | '-' :: digits => (naturalOf digits).map fun n => -n
  | '+' :: digits => (naturalOf digits).map fun n => n
  | digits => (naturalOf digits).map fun n => n

/-- A negative index counts from the end. -/
def itemAt (items : List α) (index : Int) : Option α :=
  if 0 ≤ index then items[index.toNat]?
  else if index.natAbs ≤ items.length then items[items.length - index.natAbs]?
  else none

def element (key : String) : Document → Option Document
  | .object fields => fields.lookup key
  | .array items => (pathInteger key).bind (itemAt items)
  | _ => none

/-- `#>` -/
def lookup : List String → Document → Option Document
  | [], value => some value
  | key :: path, value => (element key value).bind (lookup path)

def jsonbTypeof : Document → String
  | .null => "null"
  | .bool _ => "boolean"
  | .integer _ => "number"
  | .real _ => "number"
  | .string _ => "string"
  | .array _ => "array"
  | .object _ => "object"

/-! ## Data -/

inductive PostgresError
  | nulCharacter
  | invalidDate
  | yearZero
  | invalidCast
  | undefinedParameter
  | invalidSort
  deriving DecidableEq

inductive Datum
  | null
  | bool (value : Bool)
  | number (value : ℚ)
  /-- In collation `C`. -/
  | text (value : Text)
  | timestamp (value : IsoDate)

def compareCodePoint (a b : Char) : Ordering := compare a.toNat b.toNat

/-- Collation `C` orders code points. -/
def compareCodePoints (a b : Text) : Ordering := List.compareLex compareCodePoint a b

/-- No statement compares data of different types. -/
def Datum.compare : Datum → Datum → Ordering
  | bool a, bool b => Ord.compare a.toNat b.toNat
  | number a, number b => Ord.compare a b
  | text a, text b => compareCodePoints a b
  | timestamp a, timestamp b => a.compare b
  | _, _ => .eq

def compareTruth (comparison : Comparison) : Datum → Datum → Truth
  | .null, _ => none
  | _, .null => none
  | a, b => some (comparison.holds (a.compare b))

/-- There is no year 0000. -/
def timestamptz (text : Text) : Except PostgresError IsoDate :=
  match IsoDate.parse text with
  | none => .error .invalidDate
  | some date => if date.year = 0 then .error .yearZero else .ok date

/-- `like`, with `\` as escape character. -/
def like : Text → Text → Bool
  | [], text => text.isEmpty
  | '%' :: pattern, text => text.tails.any (like pattern)
  | '_' :: pattern, text => !text.isEmpty && like pattern text.tail
  | '\\' :: c :: pattern, text => text.head? = some c && like pattern text.tail
  | c :: pattern, text => text.head? = some c && like pattern text.tail

/-! ## Types -/

inductive FieldType
  | string
  | number
  | boolean
  | date
  deriving DecidableEq

inductive JsonComparisonType
  | string
  | number
  | boolean
  | date
  | null
  deriving DecidableEq

/-! ## Expressions and conditions -/

inductive Param
  | path (segments : List String)
  | scalar (value : Scalar JsString)
  | list (values : List (Scalar JsString))

/-- What an operand becomes as a parameter of some type. A text is sent in UTF-8. -/
def bindOperand (type : JsonComparisonType) : Scalar JsString → Except PostgresError Datum
  | .number value => if type = .number then .ok (.number value) else .error .invalidCast
  | .bool value => if type = .boolean then .ok (.bool value) else .error .invalidCast
  | .string value =>
    if value.contains 0 then .error .nulCharacter
    else
      match type with
      | .string => .ok (.text (Utf16.decode value))
      | .date => do
        let date ← timestamptz (Utf16.decode value)
        .ok (.timestamp date)
      | _ => .error .invalidCast
  | .null => .ok .null

inductive Expr
  /-- `(data #>> $path::text[])::type` -/
  | text (path : Nat) (type : JsonComparisonType)
  /-- `$n::type` -/
  | param (n : Nat) (type : JsonComparisonType)
  /-- `regexp_replace(replace(…))` of `postgresStringOrderKey` -/
  | orderKey (e : Expr)

inductive Condition
  /-- `data #> $path is null` -/
  | missing (path : Nat)
  /-- `data #> $path = 'null'::jsonb` -/
  | isJsonNull (path : Nat)
  /-- `jsonb_typeof(data #> $path) = 'type'` -/
  | typeof (path : Nat) (type : String)
  | compare (comparison : Comparison) (left right : Expr)
  | between (e low high : Expr)
  /-- `e = any($n::type[])` -/
  | any (e : Expr) (n : Nat) (type : JsonComparisonType)
  /-- `(data #>> $path) like $n escape '\'` -/
  | like (path n : Nat)
  | and (left right : Condition)
  | or (left right : Condition)
  | not (condition : Condition)
  /-- `coalesce(condition, false)` -/
  | coalesceFalse (condition : Condition)

/-- `replace(text, U+D7FF, U+D7FF U+D7FF)`, then U+D7FF U+E000 in front of every supplementary
character. -/
def postgresStringOrderKey (text : Text) : Text :=
  (text.flatMap fun c => if c = Char.ofNat 0xD7FF then [c, c] else [c]).flatMap fun c =>
    if 0x10000 ≤ c.toNat then [Char.ofNat 0xD7FF, Char.ofNat 0xE000, c] else [c]

section
-- Casts of texts of other JSON types.
variable (castOther : Document → JsonComparisonType → Except PostgresError Datum)

def castText (type : JsonComparisonType) : Option Document → Except PostgresError Datum
  | none => .ok .null
  | some .null => .ok .null
  | some (.string value) =>
    match type with
    | .string => .ok (.text value)
    | .date => do
      let date ← timestamptz value
      .ok (.timestamp date)
    | type => castOther (.string value) type
  | some (.integer value) =>
    if type = .number then .ok (.number value.1) else castOther (.integer value) type
  | some (.real value) => if type = .number then .ok (.number value) else castOther (.real value) type
  | some (.bool value) => if type = .boolean then .ok (.bool value) else castOther (.bool value) type
  | some value => castOther value type

/-- The document and the parameters of an evaluation. -/
structure Context where
  document : Document
  params : List Param

namespace Context
variable (context : Context)

def param (n : Nat) : Option Param := if n = 0 then none else context.params[n - 1]?

def lookup (path : Nat) : Except PostgresError (Option Document) :=
  match context.param path with
  | some (.path segments) => .ok (Postgres.lookup segments context.document)
  | _ => .error .undefinedParameter

end Context

def Expr.eval (context : Context) : Expr → Except PostgresError Datum
  | text path type => do castText castOther type (← context.lookup path)
  | param n type =>
    match context.param n with
    | some (.scalar value) => bindOperand type value
    | _ => .error .undefinedParameter
  | orderKey e => do
    match ← e.eval context with
    | .text value => .ok (.text (postgresStringOrderKey value))
    | value => .ok value

/-- A conjunction stops at a left side that is false. -/
def Condition.eval (context : Context) : Condition → Except PostgresError Truth
  | missing path => do .ok (some (← context.lookup path).isNone)
  | isJsonNull path => do .ok ((← context.lookup path).map fun value => jsonbTypeof value = "null")
  | typeof path type => do .ok ((← context.lookup path).map fun value => jsonbTypeof value = type)
  | compare comparison left right => do
    .ok (compareTruth comparison (← left.eval castOther context) (← right.eval castOther context))
  | between e low high => do
    let value ← e.eval castOther context
    let low ← low.eval castOther context
    let high ← high.eval castOther context
    .ok ((compareTruth .ge value low).and (compareTruth .le value high))
  | any e n type => do
    let value ← e.eval castOther context
    match context.param n with
    | some (.list values) => do
      let items ← values.mapM (bindOperand type)
      .ok ((items.map (compareTruth .eq value)).foldl Truth.or (some false))
    | _ => .error .undefinedParameter
  | like path n => do
    let value ← castText castOther .string (← context.lookup path)
    match context.param n with
    | some (.scalar pattern) => do
      match value, ← bindOperand .string pattern with
      | .text value, .text pattern => .ok (some (Postgres.like pattern value))
      | _, _ => .ok none
    | _ => .error .undefinedParameter
  | and left right => do
    match ← left.eval context with
    | some false => .ok (some false)
    | left => do .ok (left.and (← right.eval context))
  | or left right => do
    let left ← left.eval context
    let right ← right.eval context
    .ok (left.or right)
  | not condition => do .ok (← condition.eval context).not
  | coalesceFalse condition => do .ok (← condition.eval context).orFalse

variable {castOther}

theorem Expr.eval_text (context : Context) (path : Nat) (type : JsonComparisonType) :
    (Expr.text path type).eval castOther context =
      (context.lookup path >>= castText castOther type) := rfl

theorem Expr.eval_param {context : Context} {n : Nat} {value : Scalar JsString}
    (h : context.param n = some (.scalar value)) (type : JsonComparisonType) :
    (Expr.param n type).eval castOther context = bindOperand type value := by
  rw [Expr.eval, h]

namespace Condition
variable {context : Context} {c d : Condition} {t u : Truth}

theorem eval_and (hc : c.eval castOther context = .ok t) (hd : d.eval castOther context = .ok u) :
    (and c d).eval castOther context = .ok (t.and u) := by
  refine (congrArg (· >>= _) hc).trans ?_
  rcases t with _ | _ | _
  · exact congrArg (· >>= fun right => .ok (Truth.and none right)) hd
  · rfl
  · exact congrArg (· >>= fun right => .ok (Truth.and (some true) right)) hd

theorem eval_and_false (hc : c.eval castOther context = .ok (some false)) :
    (and c d).eval castOther context = .ok (some false) :=
  congrArg (· >>= _) hc

theorem eval_any {e : Expr} {n : Nat} {type : JsonComparisonType} {value : Datum}
    {values : List (Scalar JsString)} {items : List Datum}
    (he : e.eval castOther context = .ok value) (hn : context.param n = some (.list values))
    (hitems : values.mapM (bindOperand type) = .ok items) :
    (any e n type).eval castOther context =
      .ok ((items.map (compareTruth .eq value)).foldl Truth.or (some false)) := by
  refine (congrArg (· >>= _) he).trans ?_
  rw [hn]
  exact congrArg (· >>= fun items => .ok ((items.map (compareTruth .eq value)).foldl Truth.or
    (some false))) hitems

theorem eval_like_missing {path n : Nat} {pattern : Scalar JsString} {text : Text}
    (hlookup : context.lookup path = .ok none) (hn : context.param n = some (.scalar pattern))
    (hbind : bindOperand .string pattern = .ok (.text text)) :
    (like path n).eval castOther context = .ok none := by
  refine (congrArg (· >>= _) hlookup).trans ?_
  rw [hn]
  exact congrArg (· >>= fun _ => .ok none) hbind

theorem eval_like_string {path n : Nat} {value text : Text} {pattern : Scalar JsString}
    (hlookup : context.lookup path = .ok (some (.string value)))
    (hn : context.param n = some (.scalar pattern))
    (hbind : bindOperand .string pattern = .ok (.text text)) :
    (like path n).eval castOther context = .ok (some (Postgres.like text value)) := by
  refine (congrArg (· >>= _) hlookup).trans ?_
  rw [hn]
  dsimp only
  rw [hbind]
  rfl

variable (context : Context) (path : Nat) (c d : Condition)

theorem eval_missing : (missing path).eval castOther context =
    (do return some (← context.lookup path).isNone) := rfl

theorem eval_isJsonNull : (isJsonNull path).eval castOther context =
    (do return (← context.lookup path).map fun value => jsonbTypeof value = "null") := rfl

theorem eval_typeof (type : String) : (typeof path type).eval castOther context =
    (do return (← context.lookup path).map fun value => jsonbTypeof value = type) := rfl

theorem eval_compare (comparison : Comparison) (left right : Expr) :
    (compare comparison left right).eval castOther context = (do
      let left ← left.eval castOther context
      let right ← right.eval castOther context
      return compareTruth comparison left right) := rfl

theorem eval_between (e low high : Expr) : (between e low high).eval castOther context = (do
    let value ← e.eval castOther context
    let low ← low.eval castOther context
    let high ← high.eval castOther context
    return (compareTruth .ge value low).and (compareTruth .le value high)) := rfl

theorem eval_or : (or c d).eval castOther context = (do
    let left ← c.eval castOther context
    let right ← d.eval castOther context
    return left.or right) := rfl

theorem eval_not : (not c).eval castOther context =
    (do return (← c.eval castOther context).not) := rfl

theorem eval_coalesceFalse : (coalesceFalse c).eval castOther context =
    (do return (← c.eval castOther context).orFalse) := rfl

end Condition

end

/-! ## Compilation of conditions -/

inductive CompileError
  | unsafeField
  | unsupportedOperator
  | unsupportedOperand
  | startsWithType
  deriving DecidableEq

section
-- Without field codecs `modelFieldType` is the declared type.
variable (modelFieldType : String → Option FieldType)

/-- Pushes the path, and returns its number. -/
def jsonPathParam (field : String) (params : List Param) : Except CompileError (Nat × List Param) :=
  if safeFieldPath field then .ok (params.length + 1, params ++ [.path (segments field)])
  else .error .unsafeField

def jsonComparisonType (field : String) (value : Scalar JsString) : JsonComparisonType :=
  match value, modelFieldType field with
  | .null, _ => .null
  | _, some .number => .number
  | _, some .boolean => .boolean
  | _, some .date => .date
  | .number _, _ => .number
  | .bool _, _ => .boolean
  | .string _, _ => .string

structure Access where
  value : Expr
  guard : Condition

def jsonAccessForComparison (field : String) (type : JsonComparisonType) (params : List Param) :
    Except CompileError (Access × List Param) := do
  let (path, params) ← jsonPathParam field params
  match type with
  | .number => .ok (⟨.text path .number, .typeof path "number"⟩, params)
  | .boolean => .ok (⟨.text path .boolean, .typeof path "boolean"⟩, params)
  | .date => .ok (⟨.text path .date, .typeof path "string"⟩, params)
  | _ => .ok (⟨.text path .string, .typeof path "string"⟩, params)

/-- A condition and the parameters so far. -/
abbrev Compiled := Condition × List Param

def jsonNullPredicate (field : String) (params : List Param) : Except CompileError Compiled := do
  let (path, params) ← jsonPathParam field params
  .ok (.coalesceFalse (.isJsonNull path), params)

def jsonEqualityPredicate (field : String) (value : Scalar JsString) (params : List Param) :
    Except CompileError Compiled :=
  match jsonComparisonType modelFieldType field value with
  | .null => jsonNullPredicate field params
  | type => do
    let (access, params) ← jsonAccessForComparison field type params
    let params := params ++ [.scalar value]
    .ok (.coalesceFalse (.and access.guard
      (.compare .eq access.value (.param params.length type))), params)

/-- Texts are compared by their keys. -/
def ordered (type : JsonComparisonType) (e : Expr) : Expr :=
  if type = .string then .orderKey e else e

def jsonRangePredicate (field : String) (operator : Comparison) (value : Scalar JsString)
    (params : List Param) : Except CompileError Compiled := do
  let type := jsonComparisonType modelFieldType field value
  let (access, params) ← jsonAccessForComparison field type params
  let params := params ++ [.scalar value]
  .ok (.coalesceFalse (.and access.guard
    (.compare operator (ordered type access.value) (ordered type (.param params.length type)))), params)

def jsonBetweenPredicate (field : String) (lower upper : Scalar JsString) (params : List Param) :
    Except CompileError Compiled := do
  let type := jsonComparisonType modelFieldType field lower
  let (access, params) ← jsonAccessForComparison field type params
  let params := params ++ [.scalar lower, .scalar upper]
  .ok (.coalesceFalse (.and access.guard
    (.between (ordered type access.value) (ordered type (.param (params.length - 1) type))
      (ordered type (.param params.length type)))), params)

/-- A `Map` from types to operands, in the order of insertion. -/
def addOperand (type : JsonComparisonType) (value : Scalar JsString) :
    List (JsonComparisonType × List (Scalar JsString)) →
      List (JsonComparisonType × List (Scalar JsString))
  | [] => [(type, [value])]
  | (other, values) :: groups =>
    if other = type then (other, values ++ [value]) :: groups
    else (other, values) :: addOperand type value groups

theorem addOperand_cons (type other : JsonComparisonType) (value : Scalar JsString)
    (values : List (Scalar JsString)) (groups : List (JsonComparisonType × List (Scalar JsString))) :
    addOperand type value ((other, values) :: groups) =
      if other = type then (other, values ++ [value]) :: groups
      else (other, values) :: addOperand type value groups := rfl

def operandGroups (field : String) (values : List (Scalar JsString)) :
    List (JsonComparisonType × List (Scalar JsString)) :=
  values.foldl (fun groups value => addOperand (jsonComparisonType modelFieldType field value) value
    groups) []

def groupClause (field : String) (type : JsonComparisonType) (values : List (Scalar JsString))
    (params : List Param) : Except CompileError Compiled :=
  match type with
  | .null => jsonNullPredicate field params
  | type => do
    let (access, params) ← jsonAccessForComparison field type params
    let params := params ++ [.list values]
    .ok (.coalesceFalse (.and access.guard (.any access.value params.length type)), params)

def groupClauses (field : String) : List (JsonComparisonType × List (Scalar JsString)) →
    List Param → Except CompileError (List Condition × List Param)
  | [], params => .ok ([], params)
  | (type, values) :: groups, params => do
    let (clause, params) ← groupClause field type values params
    let (clauses, params) ← groupClauses field groups params
    .ok (clause :: clauses, params)

/-- Conditions joined by `and` or by `or`; none for the empty text. -/
def joined (join : Condition → Condition → Condition) : List Condition → Option Condition
  | [] => none
  | first :: rest => some (rest.foldl join first)

def jsonInPredicate (field : String) (values : List (Scalar JsString)) (params : List Param) :
    Except CompileError Compiled := do
  let (clauses, params) ← groupClauses field (operandGroups modelFieldType field values) params
  match joined .or clauses with
  | some condition => .ok (condition, params)
  | none => .error .unsupportedOperand

/-- A `\` in front of `\`, `%` and `_`. -/
def escapeLikePrefix (value : JsString) : JsString :=
  value.flatMap fun unit => if unit = 92 ∨ unit = 37 ∨ unit = 95 then [92, unit] else [unit]

def startsWithCondition (field : String) (value : JsString) (params : List Param) :
    Except CompileError Compiled :=
  if (modelFieldType field).any (· ≠ .string) then .error .startsWithType
  else do
    let (path, params) ← jsonPathParam field params
    let params := params ++ [.scalar (.string (escapeLikePrefix value ++ [37]))]
    .ok (.and (.typeof path "string") (.like path params.length), params)

def entryCondition (entry : WhereEntry Operand) (params : List Param) :
    Except CompileError Compiled :=
  match entry.op, entry.value with
  | .startsWith, .scalar (.string value) =>
    startsWithCondition modelFieldType entry.field value params
  | .isNull, _ => do
    let (path, params) ← jsonPathParam entry.field params
    .ok (.or (.missing path) (.isJsonNull path), params)
  | .isNotNull, _ => do
    let (path, params) ← jsonPathParam entry.field params
    .ok (.not (.or (.missing path) (.isJsonNull path)), params)
  | .between, .scalar lower =>
    match entry.value2 with
    | some (.scalar upper) => jsonBetweenPredicate modelFieldType entry.field lower upper params
    | _ => .error .unsupportedOperand
  | .in, .list values => jsonInPredicate modelFieldType entry.field values params
  | .eq, .scalar value => jsonEqualityPredicate modelFieldType entry.field value params
  | .ne, .scalar value => do
    let (path, params) ← jsonPathParam entry.field params
    let (condition, params) ← jsonEqualityPredicate modelFieldType entry.field value params
    .ok (.and (.not (.missing path)) (.not condition), params)
  | .gt, .scalar value => jsonRangePredicate modelFieldType entry.field .gt value params
  | .ge, .scalar value => jsonRangePredicate modelFieldType entry.field .ge value params
  | .lt, .scalar value => jsonRangePredicate modelFieldType entry.field .lt value params
  | .le, .scalar value => jsonRangePredicate modelFieldType entry.field .le value params
  | .contains, _ | .arrayContains, _ | .textContains, _ | .jsonContains, _ =>
    .error .unsupportedOperator
  | _, _ => .error .unsupportedOperand

def entryConditions : List (WhereEntry Operand) → List Param →
    Except CompileError (List Condition × List Param)
  | [], params => .ok ([], params)
  | entry :: entries, params => do
    let (condition, params) ← entryCondition modelFieldType entry params
    let (conditions, params) ← entryConditions entries params
    .ok (condition :: conditions, params)

mutual

/-- No condition is the empty text. -/
def whereCondition : Plan Operand → List Param →
    Except CompileError (Option Condition × List Param)
  | .node wheres or, params => do
    let (parts, params) ← entryConditions modelFieldType wheres params
    let (orConditions, params) ← orConditions or params
    match joined .and parts with
    | none => .ok (joined .or orConditions, params)
    | some andCondition => .ok (joined .or (andCondition :: orConditions), params)

/-- The conditions of the branches that are not empty. -/
def orConditions : List (Plan Operand) → List Param →
    Except CompileError (List Condition × List Param)
  | [], params => .ok ([], params)
  | branch :: branches, params => do
    let (condition, params) ← whereCondition branch params
    let (conditions, params) ← orConditions branches params
    .ok (condition.toList ++ conditions, params)

end

/-! ## Compilation of sorts -/

inductive SortExpr
  | rank (n : Nat)
  | expr (e : Expr)
  | null
  /-- `('active-ts-invalid-sort:' || …)::integer` -/
  | invalid
  /-- `case when guard then result else other end` -/
  | caseWhen (guard : Condition) (result other : SortExpr)

/-- `data #> $path is null or jsonb_typeof(data #> $path) = 'null'` -/
def missingOrNull (path : Nat) : Condition := .or (.missing path) (.typeof path "null")

def sortType : FieldType → JsonComparisonType
  | .number => .number
  | .boolean => .boolean
  | .date => .date
  | .string => .string

def jsonSortExpressions (field : String) (direction : SortDirection) (params : List Param) :
    Except CompileError (List (SortExpr × SortDirection) × List Param) := do
  let (path, params) ← jsonPathParam field params
  match modelFieldType field with
  | some type =>
    .ok ([(.caseWhen (missingOrNull path) (.rank 0) (.rank 1), direction),
      (.expr (ordered (sortType type) (.text path (sortType type))), direction)], params)
  | none =>
    .ok ([(.caseWhen (missingOrNull path) (.rank 0)
        (.caseWhen (.typeof path "boolean") (.rank 1)
          (.caseWhen (.typeof path "number") (.rank 2)
            (.caseWhen (.typeof path "string") (.rank 3) .invalid))), direction),
      (.caseWhen (.typeof path "boolean") (.expr (.text path .boolean)) .null, direction),
      (.caseWhen (.typeof path "number") (.expr (.text path .number)) .null, direction),
      (.caseWhen (.typeof path "string") (.expr (.orderKey (.text path .string))) .null, direction)],
      params)

def orderSql : List CursorSort → List Param →
    Except CompileError (List (SortExpr × SortDirection) × List Param)
  | [], params => .ok ([], params)
  | entry :: sort, params => do
    let (expressions, params) ← jsonSortExpressions modelFieldType entry.field entry.direction params
    let (rest, params) ← orderSql sort params
    .ok (expressions ++ rest, params)

end

/-! ## Queries -/

/-- `normalizeDateString` leaves canonical texts. -/
def canonicalDate (value : JsString) : Option IsoDate :=
  match IsoDate.parse (Utf16.decode value) with
  | some date => if Utf16.encode date.text = value then some date else none
  | none => none

/-- `assertOperandCompatibleWithFieldType` on normalized operands. -/
def operandMatches : Option FieldType → Scalar JsString → Bool
  | none, _ => true
  | _, .null => true
  | some .string, .string _ => true
  | some .number, .number _ => true
  | some .boolean, .bool _ => true
  | some .date, .string value => (canonicalDate value).isSome
  | _, _ => false

/-- `assertWhereCompatibleWithFieldType` -/
def entryMatches (type : Option FieldType) (entry : WhereEntry Operand) : Bool :=
  match entry.op, entry.value with
  | .isNull, _ | .isNotNull, _ => true
  | .in, .list values => values.all (operandMatches type)
  | .between, .scalar lower =>
    match entry.value2 with
    | some (.scalar upper) => operandMatches type lower && operandMatches type upper
    | _ => false
  | .startsWith, .scalar value => type.all (· = .string) && operandMatches type value
  | _, .scalar value => operandMatches type value
  | _, _ => false

mutual

/-- Every entry is valid and fits the type of its field, and no branch is empty. -/
def acceptedPlan (modelFieldType : String → Option FieldType) : Plan Operand → Bool
  | .node wheres or =>
    wheres.all (fun entry => safeFieldPath entry.field && validEntry entry &&
      entryMatches (modelFieldType entry.field) entry) && acceptedBranches modelFieldType or

def acceptedBranches (modelFieldType : String → Option FieldType) : List (Plan Operand) → Bool
  | [] => true
  | .node wheres or :: branches =>
    !(wheres.isEmpty && or.isEmpty) && acceptedPlan modelFieldType (.node wheres or) &&
      acceptedBranches modelFieldType branches

end

/-- The clauses of a query and its parameters. -/
structure Statement where
  condition : Option Condition
  order : List (SortExpr × SortDirection)
  params : List Param

/-- The part of `query` that decides about the rows and their order. -/
def query (modelFieldType : String → Option FieldType) (plan : Plan Operand)
    (sort : List CursorSort) : Except CompileError Statement :=
  if !acceptedPlan modelFieldType plan then .error .unsupportedOperand
  else do
    let (condition, params) ← whereCondition modelFieldType plan []
    let (order, params) ← orderSql modelFieldType sort params
    .ok ⟨condition, order, params⟩

section
variable (castOther : Document → JsonComparisonType → Except PostgresError Datum)

def SortExpr.eval (context : Context) : SortExpr → Except PostgresError Datum
  | rank n => .ok (.number n)
  | expr e => e.eval castOther context
  | null => .ok .null
  | invalid => .error .invalidSort
  | caseWhen guard result other => do
    match ← guard.eval castOther context with
    | some true => result.eval context
    | _ => other.eval context

/-- `NULL` comes last in an ascending order. -/
def compareOrder : Datum → Datum → Ordering
  | .null, .null => .eq
  | .null, _ => .gt
  | _, .null => .lt
  | a, b => a.compare b

def orderKey (context : Context) : List (SortExpr × SortDirection) →
    Except PostgresError (List (SortDirection × Datum))
  | [] => .ok []
  | (e, direction) :: order => do
    let value ← e.eval castOther context
    let rest ← orderKey context order
    .ok ((direction, value) :: rest)

def compareOrderKeys : List (SortDirection × Datum) → List (SortDirection × Datum) → Ordering
  | (direction, a) :: left, (_, b) :: right =>
    (direction.apply (compareOrder a b)).then (compareOrderKeys left right)
  | _, _ => .eq

namespace Statement
variable (statement : Statement)

/-- Without a condition there is no `where`. -/
def evalWhere (document : Document) : Except PostgresError Truth :=
  match statement.condition with
  | none => .ok (some true)
  | some condition => condition.eval castOther ⟨document, statement.params⟩

def compareRows (a b : Document) : Except PostgresError Ordering := do
  let left ← orderKey castOther ⟨a, statement.params⟩ statement.order
  let right ← orderKey castOther ⟨b, statement.params⟩ statement.order
  .ok (compareOrderKeys left right)

end Statement

end

end ActiveTs.Sql.Postgres
