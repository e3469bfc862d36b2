import ActiveTs.Mongo.Documents
import ActiveTs.Query.Cursors

/-! # Filters of the MongoDB adapter

`mongoFilter` compiles the entries and branches of a plan; `matchesPlan` decides about a document as
the application reads it. -/

namespace ActiveTs.Mongo

open ActiveTs.Query (Operator WhereEntry Plan)
open ActiveTs.Query.Cursors (isPortableDate)
open ActiveTs.Sql (Json JsString PortableError valueFor safeFieldPath segments)

/-- The operand of an entry; `absent` is `undefined`. -/
inductive Operand
  | absent
  | constant (value : Constant JsString)
  | list (values : List (Constant JsString))
  deriving DecidableEq

/-! ## Portable meaning -/

/-- A stored scalar as the application reads it. -/
def readScalar : Sql.Scalar Text → Sql.Scalar JsString
  | .null => .null
  | .bool value => .bool value
  | .number value => .number value
  | .string text => .string (Utf16.encode text)

/-- The primitive value that the application reads. -/
def rowScalar (value : Option Value) : Option (Sql.Scalar JsString) :=
  (value.bind Json.scalar).map readScalar

/-- `value === operand`; no value of a row is a date. -/
def strictEqual (value : Option Value) : Operand → Bool
  | .absent => value.isNone
  | .constant (.scalar operand) => rowScalar value = some operand
  | .constant (.date _) => false
  | .list _ => false

/-- `compareRangeValues`; `none` is `NaN`. -/
def compareRangeValues (value : Option Value) (expected : Operand) : Option Ordering :=
  match rowScalar value, expected with
  | some (.number value), .constant (.scalar (.number expected)) => some (compare value expected)
  | some (.string value), .constant (.scalar (.string expected)) =>
    some (Sql.compareText value expected)
  | _, _ => none

/-- `arrayIncludesValue`, where the operand is the array. -/
def includedIn (value : Option Value) : Operand → Bool
  | .list values => values.any fun item => strictEqual value (.constant item)
  | _ => false

/-- `arrayIncludesValue`, where the row has the array. -/
def arrayIncludesValue (value : Option Value) (expected : Operand) : Bool :=
  (itemsOf value).any fun item => strictEqual (some item) expected

def startsWith (value : Option Value) (expected : Operand) : Bool :=
  match rowScalar value, expected with
  | some (.string value), .constant (.scalar (.string expected)) => expected.isPrefixOf value
  | _, _ => false

section
-- `textContainsValue` and `jsonContains`, which the adapter does not accept.
variable (containment : Option Value → WhereEntry Operand → Except PortableError Bool)

/-- The operators of `compareWhere`. -/
def compareValue (value : Option Value) (entry : WhereEntry Operand) : Except PortableError Bool :=
  match entry.op with
  | .eq => .ok (strictEqual value entry.value)
  | .ne => .ok (value.isSome && !strictEqual value entry.value)
  | .gt => .ok (compareRangeValues value entry.value = some .gt)
  | .ge => .ok ((compareRangeValues value entry.value).any (· ≠ .lt))
  | .lt => .ok (compareRangeValues value entry.value = some .lt)
  | .le => .ok ((compareRangeValues value entry.value).any (· ≠ .gt))
  | .in => .ok (includedIn value entry.value)
  | .between => .ok ((compareRangeValues value entry.value).any (· ≠ .lt) &&
      (compareRangeValues value (entry.value2.getD .absent)).any (· ≠ .gt))
  | .isNull => .ok (value.all fun value => value.scalar = some .null)
  | .isNotNull => .ok (value.any fun value => value.scalar ≠ some .null)
  | .startsWith => .ok (startsWith value entry.value)
  | .arrayContains => .ok (arrayIncludesValue value entry.value)
  | .contains => .error .unsupportedOperator
  | .textContains | .jsonContains => containment value entry

def compareWhere (document : Document) (entry : WhereEntry Operand) : Except PortableError Bool := do
  let value ← valueFor (.object document : Value) entry.field
  compareValue containment value entry

/-- The loop over the own entries of a plan. -/
def compareWheres (document : Document) : List (WhereEntry Operand) → Except PortableError Bool
  | [] => .ok true
  | entry :: entries => do
    if ← compareWhere containment document entry then compareWheres document entries else .ok false

mutual

def matchesPlan (document : Document) : Plan Operand → Except PortableError Bool
  | .node wheres or => do
    let baseMatches ← compareWheres containment document wheres
    if or.isEmpty then .ok baseMatches
    else if !wheres.isEmpty && baseMatches then .ok true
    else matchesBranch document or

def matchesBranch (document : Document) : List (Plan Operand) → Except PortableError Bool
  | [] => .ok false
  | branch :: branches => do
    if ← matchesPlan document branch then .ok true else matchesBranch document branches

end

end

/-! ## Valid operands -/

def safeNumber (value : ℚ) : Bool := -9007199254740991 ≤ value && value ≤ 9007199254740991

/-- `assertPortableScalar` -/
def portableConstant : Constant JsString → Bool
  | .scalar (.number value) => safeNumber value
  | .scalar _ => true
  | .date time => isPortableDate time

def portableScalar : Operand → Bool
  | .constant value => portableConstant value
  | _ => false

/-- `comparableKind` -/
inductive Kind
  | number
  | string
  | date
  deriving DecidableEq

def comparableKind : Operand → Option Kind
  | .constant (.scalar (.number _)) => some .number
  | .constant (.scalar (.string _)) => some .string
  | .constant (.date _) => some .date
  | _ => none

def rangeOperand (operand : Operand) : Bool :=
  (comparableKind operand).isSome && portableScalar operand

/-- What a regular expression can be written of: the driver refuses U+0000, the server the escapes
of the line separators. -/
def regexText (text : JsString) : Bool :=
  text.all fun unit => unit.1 ≠ 0 && unit.1 ≠ 0x2028 && unit.1 ≠ 0x2029

/-- `assertValidWhereOperand`, for the operators that the adapter accepts. -/
def acceptedEntry (entry : WhereEntry Operand) : Bool :=
  (entry.op = .between || entry.value2.isNone) &&
  match entry.op with
  | .eq | .ne | .arrayContains => portableScalar entry.value
  | .gt | .ge | .lt | .le => rangeOperand entry.value
  | .in =>
    match entry.value with
    | .list values => values ≠ [] && values.length ≤ 30 && values.all portableConstant
    | _ => false
  | .between => rangeOperand entry.value && rangeOperand (entry.value2.getD .absent) &&
      comparableKind entry.value = comparableKind (entry.value2.getD .absent)
  | .isNull | .isNotNull => entry.value = .absent
  | .startsWith =>
    match entry.value with
    | .constant (.scalar (.string text)) => regexText text
    | _ => false
  | .contains | .textContains | .jsonContains => false

/-! ## Compiling -/

inductive MongoError
  | unsafeField
  | unsupportedOperator
  deriving DecidableEq

/-- The names that the internal storage key and the operators of the server have. -/
def safeMongoField (field : String) : Bool :=
  safeFieldPath field && (segments field).head? ≠ some "_id" &&
    (segments field).all fun part => !"$".toList.isPrefixOf part.toList

def assertSafeMongoField (field : String) : Except MongoError (List String) :=
  if safeMongoField field then .ok (segments field) else .error .unsafeField

/-- Surrogates that stand alone are not sent. -/
def sendScalar : Sql.Scalar JsString → Sql.Scalar Text
  | .null => .null
  | .bool value => .bool value
  | .number value => .number value
  | .string units => .string (Utf16.decode units)

def sendConstant : Constant JsString → Constant Text
  | .scalar value => .scalar (sendScalar value)
  | .date time => .date time

/-- `undefined` is sent as null. -/
def sendOperand : Operand → Constant Text
  | .constant value => sendConstant value
  | _ => .scalar .null

def sendOperands : Operand → List (Constant Text)
  | .list values => values.map sendConstant
  | _ => []

def literalOf : Operand → Text
  | .constant (.scalar (.string units)) => Utf16.decode units
  | _ => []

def mongoScalarFieldCondition (path : List String) (condition : List Predicate) : Filter :=
  .and [.field path [.fieldExists true], .field path [.not .isArray], .field path condition]

def mongoNullFieldCondition (path : List String) : Filter :=
  .or [.field path [.fieldExists false],
    mongoScalarFieldCondition path [.value (.compare .eq (.scalar .null))]]

def mongoNotNullFieldCondition (path : List String) : Filter :=
  .or [.field path [.isArray], mongoScalarFieldCondition path [.ne (.scalar .null)]]

def mongoNotEqualFieldCondition (path : List String) (value : Constant Text) : Filter :=
  .or [.field path [.isArray], mongoScalarFieldCondition path [.ne value]]

/-- The operators of `mongoWhereCondition`. -/
def operatorCondition (path : List String) (entry : WhereEntry Operand) : Except MongoError Filter :=
  let value := sendOperand entry.value
  match entry.op with
  | .eq => .ok (mongoScalarFieldCondition path [.value (.compare .eq value)])
  | .ne => .ok (mongoNotEqualFieldCondition path value)
  | .gt => .ok (mongoScalarFieldCondition path [.value (.compare .gt value)])
  | .ge => .ok (mongoScalarFieldCondition path [.value (.compare .gte value)])
  | .lt => .ok (mongoScalarFieldCondition path [.value (.compare .lt value)])
  | .le => .ok (mongoScalarFieldCondition path [.value (.compare .lte value)])
  | .in => .ok (mongoScalarFieldCondition path [.value (.in (sendOperands entry.value))])
  | .between => .ok (mongoScalarFieldCondition path [.value (.compare .gte value),
      .value (.compare .lte (sendOperand (entry.value2.getD .absent)))])
  | .isNull => .ok (mongoNullFieldCondition path)
  | .isNotNull => .ok (mongoNotNullFieldCondition path)
  | .contains => .error .unsupportedOperator
  | .arrayContains => .ok (.field path [.elemMatch (.compare .eq value)])
  | .textContains | .jsonContains => .error .unsupportedOperator
  | .startsWith => .ok (mongoScalarFieldCondition path
      [.value .isString, .value (.regex (literalOf entry.value))])

def mongoWhereCondition (entry : WhereEntry Operand) : Except MongoError Filter := do
  let path ← assertSafeMongoField entry.field
  operatorCondition path entry

def mongoWhereFilter (wheres : List (WhereEntry Operand)) : Except MongoError Filter := do
  match ← wheres.mapM mongoWhereCondition with
  | [] => .ok .all
  | [condition] => .ok condition
  | conditions => .ok (.and conditions)

/-- The alternatives: an empty filter is none of them. -/
def alternatives (base : Filter) (or : List Filter) : Filter :=
  match or, base with
  | [], base => base
  | or, .all => .or or
  | or, base => .or (base :: or)

mutual

def mongoFilter : Plan Operand → Except MongoError Filter
  | .node wheres or => do
    let base ← mongoWhereFilter wheres
    let or ← mongoFilters or
    .ok (alternatives base or)

def mongoFilters : List (Plan Operand) → Except MongoError (List Filter)
  | [] => .ok []
  | branch :: branches => do
    let filter ← mongoFilter branch
    let filters ← mongoFilters branches
    .ok (filter :: filters)

end

end ActiveTs.Mongo
