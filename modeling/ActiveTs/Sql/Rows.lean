import ActiveTs.Lib.Lex
import ActiveTs.Lib.Utf16
import ActiveTs.Query.Plans
import Mathlib.Algebra.Order.Ring.Unbundled.Rat

/-! # Portable queries over JSON rows

What a query means for every store: `matchesPlan` decides about a row, `compareRowsBySort` about the
order of two. Rows are JSON as a database keeps it. -/

namespace ActiveTs.Sql

open ActiveTs.Query (Operator WhereEntry Plan)

/-! ## Rows -/

/-- A JavaScript string: its UTF-16 code units. -/
abbrev JsString := List (Fin 65536)

/-- JavaScript compares strings by their code units. -/
def compareText (a b : JsString) : Ordering := List.compareLex compare a b

/-- The integers that JavaScript reads exactly. -/
abbrev SafeInteger := { n : Int // n.natAbs ≤ 9007199254740991 }

/-- A JSON value with its texts in `S`. Numbers are finite, and the fields of an object have
different names. -/
inductive Json (S : Type)
  | null
  | bool (value : Bool)
  /-- A number that is written without fraction and exponent. -/
  | integer (value : SafeInteger)
  | real (value : ℚ)
  | string (value : S)
  | array (items : List (Json S))
  | object (fields : List (String × Json S))

/-- A row as the application reads it. -/
abbrev Row := Json JsString

/-- The primitive values of JavaScript that rows and operands share. -/
inductive Scalar (S : Type)
  | null
  | bool (value : Bool)
  | number (value : ℚ)
  | string (value : S)
  deriving DecidableEq

/-- The operand of an entry; `absent` is `undefined`. -/
inductive Operand
  | absent
  | scalar (value : Scalar JsString)
  | list (values : List (Scalar JsString))
  deriving DecidableEq

inductive PortableError
  /-- `length` of an array is an own property that is not enumerable. -/
  | notEnumerable
  | unsafeField
  | unsupportedOperator
  | notSortable
  deriving DecidableEq

/-! ## Fields -/

def segments (field : String) : List String := (field.toList.splitOn '.').map String.ofList

/-- `assertSafeFieldPath`. -/
def safeFieldPath (field : String) : Bool :=
  !field.toList.contains (Char.ofNat 0) && (segments field).all fun segment =>
    segment != "" && !"__".toList.isPrefixOf segment.toList && segment != "constructor" &&
      segment != "prototype"

/-- An own property of an array that is an item. -/
def arrayItem (items : List α) (key : String) : Option α :=
  (items.zipIdx.find? fun item => toString item.2 == key).map Prod.fst

/-- The names of items: `/^(?:0|[1-9][0-9]*)$/`. -/
def numericSegment (segment : String) : Bool :=
  toString (Nat.ofDigitChars 10 segment.toList 0) == segment

/-- One step of `valueFor`; `none` is `undefined`. -/
def ownValue (key : String) : Json S → Except PortableError (Option (Json S))
  | .object fields => .ok (fields.lookup key)
  | .array items => if key = "length" then .error .notEnumerable else .ok (arrayItem items key)
  | _ => .ok none

theorem ownValue_object (key : String) (fields : List (String × Json S)) :
    ownValue key (.object fields) = .ok (fields.lookup key) := rfl

theorem ownValue_array (key : String) (items : List (Json S)) :
    ownValue key (.array items) =
      if key = "length" then .error .notEnumerable else .ok (arrayItem items key) := rfl

def valueAt : List String → Json S → Except PortableError (Option (Json S))
  | [], value => .ok (some value)
  | key :: path, value => do
    match ← ownValue key value with
    | none => .ok none
    | some value => valueAt path value

def valueFor (row : Json S) (field : String) : Except PortableError (Option (Json S)) :=
  if safeFieldPath field then valueAt (segments field) row else .error .unsafeField

/-! ## Entries -/

namespace Json

/-- A value that `===` compares by content. -/
def scalar : Json S → Option (Scalar S)
  | null => some .null
  | bool value => some (.bool value)
  | integer value => some (.number value.1)
  | real value => some (.number value)
  | string value => some (.string value)
  | array _ => none
  | object _ => none

end Json

/-- `value === operand`. -/
def strictEqual (value : Option (Json JsString)) : Operand → Bool
  | .absent => value.isNone
  | .scalar operand => value.bind Json.scalar = some operand
  | .list _ => false

/-- `compareRangeValues`; `none` is `NaN`. -/
def compareRangeValues (value : Option (Json JsString)) (expected : Operand) : Option Ordering :=
  match value.bind Json.scalar, expected with
  | some (.number value), .scalar (.number expected) => some (compare value expected)
  | some (.string value), .scalar (.string expected) => some (compareText value expected)
  | _, _ => none

def arrayIncludesValue (expected : Operand) (value : Option (Json JsString)) : Bool :=
  match expected with
  | .list values => values.any fun item => value.bind Json.scalar = some item
  | _ => false

def startsWith (value : Option (Json JsString)) (expected : Operand) : Bool :=
  match value.bind Json.scalar, expected with
  | some (.string value), .scalar (.string expected) => expected.isPrefixOf value
  | _, _ => false

section
-- The operators that no SQL adapter accepts.
variable (containment : Option (Json JsString) → WhereEntry Operand → Except PortableError Bool)

def compareWhere (row : Json JsString) (entry : WhereEntry Operand) : Except PortableError Bool := do
  let value ← valueFor row entry.field
  match entry.op with
  | .eq => .ok (strictEqual value entry.value)
  | .ne => .ok (value.isSome && !strictEqual value entry.value)
  | .gt => .ok (compareRangeValues value entry.value = some .gt)
  | .ge => .ok ((compareRangeValues value entry.value).any (· ≠ .lt))
  | .lt => .ok (compareRangeValues value entry.value = some .lt)
  | .le => .ok ((compareRangeValues value entry.value).any (· ≠ .gt))
  | .in => .ok (arrayIncludesValue entry.value value)
  | .between => .ok ((compareRangeValues value entry.value).any (· ≠ .lt) &&
      (compareRangeValues value (entry.value2.getD .absent)).any (· ≠ .gt))
  | .isNull => .ok (value.all fun value => value.scalar = some .null)
  | .isNotNull => .ok (value.any fun value => value.scalar ≠ some .null)
  | .startsWith => .ok (startsWith value entry.value)
  | .contains => .error .unsupportedOperator
  | .arrayContains | .textContains | .jsonContains => containment value entry

/-- The loop over the own entries of a plan. -/
def compareWheres (row : Json JsString) : List (WhereEntry Operand) → Except PortableError Bool
  | [] => .ok true
  | entry :: entries => do
    if ← compareWhere containment row entry then compareWheres row entries else .ok false

mutual

def matchesPlan (row : Json JsString) : Plan Operand → Except PortableError Bool
  | .node wheres or => do
    let baseMatches ← compareWheres containment row wheres
    if or.isEmpty then .ok baseMatches
    else if !wheres.isEmpty && baseMatches then .ok true
    else matchesBranch row or

def matchesBranch (row : Json JsString) : List (Plan Operand) → Except PortableError Bool
  | [] => .ok false
  | branch :: branches => do
    if ← matchesPlan row branch then .ok true else matchesBranch row branches

end

end

/-! ## Valid operands -/

/-- `assertPortableScalar`. -/
def portableScalar : Operand → Bool
  | .scalar (.number value) => -9007199254740991 ≤ value && value ≤ 9007199254740991
  | .scalar _ => true
  | _ => false

/-- `assertRangeOperand`. -/
def rangeOperand : Operand → Bool
  | .scalar (.number value) => -9007199254740991 ≤ value && value ≤ 9007199254740991
  | .scalar (.string _) => true
  | _ => false

def sameKind : Operand → Operand → Bool
  | .scalar (.number _), .scalar (.number _) => true
  | .scalar (.string _), .scalar (.string _) => true
  | _, _ => false

/-- `assertValidWhereOperand`, for the operators that some SQL adapter accepts. -/
def validEntry (entry : WhereEntry Operand) : Bool :=
  match entry.op with
  | .eq | .ne => portableScalar entry.value
  | .gt | .ge | .lt | .le => rangeOperand entry.value
  | .in =>
    match entry.value with
    | .list values => values ≠ [] && values.length ≤ 30 && values.all fun v => portableScalar (.scalar v)
    | _ => false
  | .between => rangeOperand entry.value && rangeOperand (entry.value2.getD .absent) &&
      sameKind entry.value (entry.value2.getD .absent)
  | .isNull | .isNotNull => entry.value = .absent
  | .startsWith => match entry.value with
    | .scalar (.string _) => true
    | _ => false
  | .contains | .arrayContains | .textContains | .jsonContains => false

mutual

def validPlan : Plan Operand → Bool
  | .node wheres or => wheres.all validEntry && validBranches or

def validBranches : List (Plan Operand) → Bool
  | [] => true
  | branch :: branches => validPlan branch && validBranches branches

end

/-! ## Order -/

inductive SortDirection
  | asc
  | desc
  deriving DecidableEq

structure CursorSort where
  field : String
  direction : SortDirection
  deriving DecidableEq

def sortWithStableId (sort : List CursorSort) (idField : String) : List CursorSort :=
  if sort.any fun entry => entry.field == idField then sort else sort ++ [⟨idField, .asc⟩]

/-- A missing value counts as `null`. -/
def comparable : Option (Json JsString) → Except PortableError (Scalar JsString)
  | none => .ok .null
  | some value =>
    match value.scalar with
    | some value => .ok value
    | none => .error .notSortable

def comparableTypeRank : Scalar JsString → Nat
  | .null => 0
  | .bool _ => 1
  | .number _ => 2
  | .string _ => 3

def compareValues : Scalar JsString → Scalar JsString → Ordering
  | .null, .null => .eq
  | .bool a, .bool b => compare a.toNat b.toNat
  | .number a, .number b => compare a b
  | .string a, .string b => compareText a b
  | a, b => compare (comparableTypeRank a) (comparableTypeRank b)

theorem compareValues_string (a b : JsString) :
    compareValues (.string a) (.string b) = compareText a b := rfl

def SortDirection.apply : SortDirection → Ordering → Ordering
  | asc, order => order
  | desc, order => order.swap

def sortKey (row : Json JsString) (field : String) : Except PortableError (Scalar JsString) :=
  valueFor row field >>= comparable

/-- The loop stops at the first field that decides. -/
def compareRowsBySort (a b : Json JsString) : List CursorSort → Except PortableError Ordering
  | [] => .ok .eq
  | entry :: sort => do
    let left ← sortKey a entry.field
    let right ← sortKey b entry.field
    if compareValues left right = .eq then compareRowsBySort a b sort
    else .ok (entry.direction.apply (compareValues left right))

end ActiveTs.Sql
