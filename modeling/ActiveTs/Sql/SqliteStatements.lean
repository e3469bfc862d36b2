import ActiveTs.Lib.ThreeValued
import ActiveTs.Sql.Portable

/-! # Statements of the SQLite adapter

The expressions and conditions that the adapter writes, what SQLite makes of them on a row, and their
compilation from a plan. Every `?` takes the next of the bound parameters, in the order of the
text. -/

namespace ActiveTs.Sql.Sqlite

open ActiveTs.Query (Operator WhereEntry Plan)

/-! ## Values -/

abbrev Byte := Fin 256

inductive Value
  | null
  | integer (value : Int)
  | real (value : ℚ)
  | text (value : String)
  | blob (value : List Byte)

namespace Value

/-- The order of storage classes. -/
def storageClass : Value → Nat
  | null => 0
  | integer _ => 1
  | real _ => 1
  | text _ => 2
  | blob _ => 3

def compare : Value → Value → Ordering
  | integer a, integer b => Ord.compare a b
  | integer a, real b => Ord.compare (a : ℚ) b
  | real a, integer b => Ord.compare a (b : ℚ)
  | real a, real b => Ord.compare a b
  | text a, text b => List.compareLex Ord.compare a.toList b.toList
  | blob a, blob b => List.compareLex Ord.compare a b
  | a, b => Ord.compare a.storageClass b.storageClass

end Value

/-- A comparison with `NULL` is unknown. -/
def compareTruth (comparison : Comparison) : Value → Value → Truth
  | .null, _ => none
  | _, .null => none
  | a, b => some (comparison.holds (a.compare b))

/-! ## Functions of JSON -/

/-- A path of quoted labels leads through objects only. -/
def lookup : List String → Row → Option Row
  | [], value => some value
  | key :: path, .object fields => (fields.lookup key).bind (lookup path)
  | _ :: _, _ => none

def jsonType : Option Row → Value
  | none => .null
  | some .null => .text "null"
  | some (.bool true) => .text "true"
  | some (.bool false) => .text "false"
  | some (.integer _) => .text "integer"
  | some (.real _) => .text "real"
  | some (.string _) => .text "text"
  | some (.array _) => .text "array"
  | some (.object _) => .text "object"

/-- The bytes of UTF-16BE. -/
def unitBytes (unit : Fin 65536) : List Byte :=
  [⟨unit.1 / 256, by omega⟩, ⟨unit.1 % 256, by omega⟩]

def sqliteStringOrderKey (value : JsString) : List Byte := value.flatMap unitBytes

/-- `active_ts_string_order_key` of a value in JSON. -/
def sqliteJsonStringOrderKey : Option Row → Value
  | some (.string value) => .blob (sqliteStringOrderKey value)
  | _ => .null

section
-- The text of a string, an array or an object.
variable (text : Row → String)

def jsonExtract : Option Row → Value
  | none => .null
  | some .null => .null
  | some (.bool value) => .integer value.toNat
  | some (.integer value) => .integer value.1
  | some (.real value) => .real value
  | some value => .text (text value)

/-! ## Expressions and conditions -/

inductive Expr
  | literal (value : String)
  /-- `?` -/
  | param
  /-- `json_type(data, path)` -/
  | jsonType (path : List String)
  /-- `json_extract(data, path)` -/
  | jsonExtract (path : List String)
  /-- `active_ts_string_order_key(data -> path)` -/
  | stringOrderKey (path : List String)
  /-- `case e when 'value' then result else other end` -/
  | caseText (e : Expr) (value : String) (result other : Expr)
  | coalesce (e other : Expr)
  /-- `substr(e, 1, length)` -/
  | substr (e length : Expr)

/-- An unknown comparison falls through to `other`. -/
def Value.whenText (test : Value) (value : String) (result other : Value) : Value :=
  if (compareTruth .eq test (.text value)).getD false then result else other

def Value.coalesce : Value → Value → Value
  | null, other => other
  | value, _ => value

def Value.isNull : Value → Bool
  | null => true
  | _ => false

/-- The first bytes of a `BLOB`. -/
def Value.substr : Value → Value → Value
  | blob bytes, integer length => blob (bytes.take length.toNat)
  | blob bytes, real length => blob (bytes.take length.floor.toNat)
  | _, _ => null

/-- The value of an expression, and the parameters that it leaves. -/
def Expr.eval (row : Row) : Expr → List Value → Value × List Value
  | literal value, params => (.text value, params)
  | param, params => (params.headD .null, params.tail)
  | jsonType path, params => (Sqlite.jsonType (lookup path row), params)
  | jsonExtract path, params => (Sqlite.jsonExtract text (lookup path row), params)
  | stringOrderKey path, params => (sqliteJsonStringOrderKey (lookup path row), params)
  | caseText e value result other, params =>
    let (test, params) := e.eval row params
    let (result, params) := result.eval row params
    let (other, params) := other.eval row params
    (test.whenText value result other, params)
  | coalesce e other, params =>
    let (value, params) := e.eval row params
    let (other, params) := other.eval row params
    (value.coalesce other, params)
  | substr e length, params =>
    let (value, params) := e.eval row params
    let (length, params) := length.eval row params
    (value.substr length, params)

namespace Expr
variable (row : Row) (params : List Value) (path : List String) (e other : Expr)

theorem eval_literal (value : String) : (literal value).eval text row params = (.text value, params) := rfl

theorem eval_param : param.eval text row params = (params.headD .null, params.tail) := rfl

theorem eval_jsonExtract :
    (jsonExtract path).eval text row params = (Sqlite.jsonExtract text (lookup path row), params) := rfl

theorem eval_stringOrderKey : (stringOrderKey path).eval text row params =
    (sqliteJsonStringOrderKey (lookup path row), params) := rfl

theorem eval_caseText (value : String) (result : Expr) :
    (caseText e value result other).eval text row params =
      let test := e.eval text row params
      let result := result.eval text row test.2
      let other := other.eval text row result.2
      (test.1.whenText value result.1 other.1, other.2) := rfl

theorem eval_coalesce : (coalesce e other).eval text row params =
    let value := e.eval text row params
    let other := other.eval text row value.2
    (value.1.coalesce other.1, other.2) := rfl

theorem eval_substr : (substr e other).eval text row params =
    let value := e.eval text row params
    let length := other.eval text row value.2
    (value.1.substr length.1, length.2) := rfl

end Expr

inductive Condition
  /-- `0` or `1` -/
  | const (value : Bool)
  | compare (comparison : Comparison) (left right : Expr)
  | isNull (e : Expr)
  | and (left right : Condition)
  | or (left right : Condition)
  | not (condition : Condition)
  /-- `coalesce(condition, 0)` -/
  | coalesceFalse (condition : Condition)

def Condition.eval (row : Row) : Condition → List Value → Truth × List Value
  | const value, params => (some value, params)
  | compare comparison left right, params =>
    let (left, params) := left.eval text row params
    let (right, params) := right.eval text row params
    (compareTruth comparison left right, params)
  | isNull e, params =>
    let (value, params) := e.eval text row params
    (some value.isNull, params)
  | and left right, params =>
    let (left, params) := left.eval row params
    let (right, params) := right.eval row params
    (left.and right, params)
  | or left right, params =>
    let (left, params) := left.eval row params
    let (right, params) := right.eval row params
    (left.or right, params)
  | not condition, params =>
    let (value, params) := condition.eval row params
    (value.not, params)
  | coalesceFalse condition, params =>
    let (value, params) := condition.eval row params
    (value.orFalse, params)

namespace Condition
variable (row : Row) (params : List Value) (c d : Condition)

theorem eval_compare (comparison : Comparison) (left right : Expr) :
    (compare comparison left right).eval text row params =
      let left := left.eval text row params
      let right := right.eval text row left.2
      (compareTruth comparison left.1 right.1, right.2) := rfl

theorem eval_isNull (e : Expr) : (isNull e).eval text row params =
    let value := e.eval text row params
    (some value.1.isNull, value.2) := rfl

theorem eval_and : (and c d).eval text row params =
    let left := c.eval text row params
    let right := d.eval text row left.2
    (left.1.and right.1, right.2) := rfl

theorem eval_or : (or c d).eval text row params =
    let left := c.eval text row params
    let right := d.eval text row left.2
    (left.1.or right.1, right.2) := rfl

theorem eval_not : (not c).eval text row params =
    let value := c.eval text row params
    (value.1.not, value.2) := rfl

theorem eval_coalesceFalse : (coalesceFalse c).eval text row params =
    let value := c.eval text row params
    (value.1.orFalse, value.2) := rfl

end Condition

end

/-! ## Compilation -/

inductive SqliteError
  | unsafeField
  /-- Segments with quotes, backslashes or control characters, and numeric ones. -/
  | unsupportedSegment
  | unsupportedOperand
  | unsupportedOperator
  | invalidPlan
  | notSortable
  deriving DecidableEq

def plainSegment (segment : String) : Bool :=
  !numericSegment segment &&
    segment.toList.all fun c => c != '"' && c != '\\' && 32 ≤ c.toNat

/-- What `fieldSql` returns, from the path of the field. -/
structure Field where
  path : List String

namespace Field

def type (field : Field) : Expr := .jsonType field.path

def value (field : Field) : Expr := .jsonExtract field.path

def typeKey (field : Field) : Expr :=
  .caseText field.type "integer" (.literal "number")
    (.caseText field.type "real" (.literal "number") field.type)

def orderValue (field : Field) : Expr :=
  .caseText field.type "text" (.stringOrderKey field.path) field.value

def comparisonValue (field : Field) : Expr := .coalesce field.orderValue (.literal "null")

end Field

def fieldSql (field : String) : Except SqliteError Field :=
  if !safeFieldPath field then .error .unsafeField
  else if !(segments field).all plainSegment then .error .unsupportedSegment
  else .ok ⟨segments field⟩

/-- The type that a scalar has in `typeKey`, and its bound value. -/
def scalarParam : Scalar JsString → Option (String × Value)
  | .null => none
  | .number value => some ("number", .real value)
  | .string value => some ("text", .blob (sqliteStringOrderKey value))
  | .bool value => some (if value then "true" else "false", .real value.toNat)

/-- A condition and the parameters that it pushes. -/
abbrev Compiled := Condition × List Value

def scalarCondition (field : Field) (value : Operand) (operator : Comparison) :
    Except SqliteError Compiled :=
  match value, operator with
  | .scalar .null, .eq =>
    .ok (.and (.compare .eq field.typeKey (.literal "null"))
      (.compare .eq field.comparisonValue (.literal "null")), [])
  | .scalar value, operator =>
    match scalarParam value with
    | none => .error .unsupportedOperand
    | some (kind, bound) =>
      .ok (.and (.compare .eq field.typeKey (.literal kind))
        (.compare operator field.comparisonValue .param), [bound])
  | _, _ => .error .unsupportedOperand

/-- The alternatives of `in` after the first. -/
def inConditions (field : Field) : List (Scalar JsString) → Except SqliteError (List Compiled)
  | [] => .ok []
  | value :: values => do
    let first ← scalarCondition field (.scalar value) .eq
    let rest ← inConditions field values
    .ok (first :: rest)

def startsWithCondition (field : Field) : Operand → Except SqliteError Compiled
  | .scalar (.string value) =>
    let key := sqliteStringOrderKey value
    if key = [] then .ok (.compare .eq field.type (.literal "text"), [])
    else
      .ok (.and (.compare .eq field.type (.literal "text"))
        (.compare .eq (.substr field.orderValue .param) .param), [.real key.length, .blob key])
  | _ => .error .unsupportedOperand

def joinOr (first : Compiled) (rest : List Compiled) : Compiled :=
  rest.foldl (fun left right => (.or left.1 right.1, left.2 ++ right.2)) first

def joinAnd (first : Compiled) (rest : List Compiled) : Compiled :=
  rest.foldl (fun left right => (.and left.1 right.1, left.2 ++ right.2)) first

def entryCondition (entry : WhereEntry Operand) : Except SqliteError Compiled := do
  let field ← fieldSql entry.field
  match entry.op with
  | .eq => scalarCondition field entry.value .eq
  | .ne => do
    let condition ← scalarCondition field entry.value .eq
    .ok (.and (.not (.isNull field.type)) (.not (.coalesceFalse condition.1)), condition.2)
  | .gt => scalarCondition field entry.value .gt
  | .ge => scalarCondition field entry.value .ge
  | .lt => scalarCondition field entry.value .lt
  | .le => scalarCondition field entry.value .le
  | .between => do
    let lower ← scalarCondition field entry.value .ge
    let upper ← scalarCondition field (entry.value2.getD .absent) .le
    .ok (.and lower.1 upper.1, lower.2 ++ upper.2)
  | .in =>
    match entry.value with
    | .list values => do
      match ← inConditions field values with
      | [] => .ok (.const false, [])
      | first :: rest => .ok (joinOr first rest)
    | _ => .error .unsupportedOperand
  | .isNull =>
    .ok (.or (.isNull field.type) (.compare .eq field.type (.literal "null")), [])
  | .isNotNull =>
    .ok (.and (.not (.isNull field.type)) (.compare .ne field.type (.literal "null")), [])
  | .startsWith => startsWithCondition field entry.value
  | .contains | .arrayContains | .textContains | .jsonContains => .error .unsupportedOperator

def entryConditions : List (WhereEntry Operand) → Except SqliteError (List Compiled)
  | [] => .ok []
  | entry :: entries => do
    let first ← entryCondition entry
    let rest ← entryConditions entries
    .ok (first :: rest)

/-- An empty list of alternatives selects every row. -/
def joinAlternatives : List Compiled → Compiled
  | [] => (.const true, [])
  | first :: rest => joinOr first rest

mutual

def whereSql : Plan Operand → Except SqliteError Compiled
  | .node wheres or => do
    let own ← entryConditions wheres
    let children ← whereSqls or
    match own with
    | [] => .ok (joinAlternatives children)
    | first :: rest => .ok (joinAlternatives (joinAnd first rest :: children))

def whereSqls : List (Plan Operand) → Except SqliteError (List Compiled)
  | [] => .ok []
  | child :: children => do
    let first ← whereSql child
    let rest ← whereSqls children
    .ok (first :: rest)

end

/-! ## Order -/

/-- `active_ts_sort_rank` of a type. -/
def sqliteSortRank : Value → Except SqliteError Value
  | .null => .ok (.integer 0)
  | .text type =>
    if type = "null" then .ok (.integer 0)
    else if type = "false" ∨ type = "true" then .ok (.integer 1)
    else if type = "integer" ∨ type = "real" then .ok (.integer 2)
    else if type = "text" then .ok (.integer 3)
    else .error .notSortable
  | _ => .error .notSortable

def orderFields : List CursorSort → Except SqliteError (List (Field × SortDirection))
  | [] => .ok []
  | entry :: sort => do
    let field ← fieldSql entry.field
    let rest ← orderFields sort
    .ok ((field, entry.direction) :: rest)

/-- The clauses of a query. -/
structure Statement where
  condition : Compiled
  order : List (Field × SortDirection)

/-- The part of `query` that decides about the rows and their order. -/
def query (plan : Plan Operand) (sort : List CursorSort) (idField : String) :
    Except SqliteError Statement :=
  if !validPlan plan then .error .invalidPlan
  else do
    let condition ← whereSql plan
    let order ← orderFields (sortWithStableId sort idField)
    .ok ⟨condition, order⟩

/-- The values by which `ORDER BY` compares a row: rank and value of every field. -/
def orderKey (text : Row → String) (row : Row) :
    List (Field × SortDirection) → Except SqliteError (List (SortDirection × Value))
  | [] => .ok []
  | (field, direction) :: fields => do
    let rank ← sqliteSortRank (field.type.eval text row []).1
    let rest ← orderKey text row fields
    .ok ((direction, rank) :: (direction, (field.orderValue.eval text row []).1) :: rest)

/-- `NULL` comes first in an ascending order. -/
def compareOrderKeys : List (SortDirection × Value) → List (SortDirection × Value) → Ordering
  | (direction, a) :: left, (_, b) :: right =>
    (direction.apply (a.compare b)).then (compareOrderKeys left right)
  | _, _ => .eq

namespace Statement
variable (text : Row → String) (statement : Statement)

def selects (row : Row) : Bool :=
  (statement.condition.1.eval text row statement.condition.2).1 = some true

def compareRows (a b : Row) : Except SqliteError Ordering := do
  let left ← orderKey text a statement.order
  let right ← orderKey text b statement.order
  .ok (compareOrderKeys left right)

end Statement

end ActiveTs.Sql.Sqlite
