import ActiveTs.Lib.Except
import ActiveTs.Lib.JsDate
import ActiveTs.Lib.JsNumber
import ActiveTs.Lib.Utf16

/-! # Sort values and keyset cursors

Rows are sorted by the values at some field paths and at last by their id. A cursor has the sort values
of a row. -/

namespace ActiveTs.Query.Cursors

open Utf16 (Units ofString encode)

/-! ## Values -/

mutual

/-- What a row may have at a field. -/
inductive Value
  | undefined
  | null
  | boolean (value : Bool)
  | number (value : JsNumber)
  | string (value : Units)
  /-- `none` is an invalid date. A date may have properties of its own. -/
  | date (time : Option JsDate.Time) (symbols : Bool) (properties : List (Units × Property))
  /-- A plain object, an array or another instance, with its own properties. -/
  | object (properties : List (Units × Property))
  /-- Functions, symbols and bigints. -/
  | unsupported

inductive Property
  | data (value : Value)
  /-- A data property that is not enumerable, like `length` of an array. -/
  | hidden
  | accessor

end

/-- The messages of `ActiveTsConfigurationError` and `ActiveTsValidationError`. -/
inductive CursorError
  /-- "Cursor value must be a finite number." -/
  | notFinite
  /-- "Sort and cursor values must be string, number, boolean, Date, null, or missing." -/
  | notComparable
  /-- "Sort and cursor Date values must be valid." -/
  | invalidDate
  /-- "Sort and cursor Date values require UTC years 0000 through 9999." -/
  | notPortableDate
  /-- "Sort and cursor Date values cannot contain symbol fields." -/
  | symbolsOnDate
  /-- "Sort and cursor Date values cannot contain custom property …" -/
  | propertyOnDate (property : Units)
  | emptyPath
  | nullByteInPath
  | emptySegment (path : Units)
  | reservedField (path : Units)
  | notDataProperty (path : List Units)
  | notEnumerable (path : List Units)
  /-- "Cursor sort and values must have the same length." -/
  | differentLengths
  /-- "Cursor values must be string, number, boolean, or null." -/
  | unsafeCursorValue
  /-- "Cursor was created for a different query ordering." -/
  | differentOrdering
  /-- "active-ts cursor is too long." -/
  | tooLong
  /-- "active-ts cursor must not contain null bytes." -/
  | nullByteInCursor
  /-- "Invalid active-ts cursor." -/
  | invalidCursor
  /-- "… cannot combine offset() with cursor()." -/
  | offsetAndCursor
  deriving DecidableEq

/-! ## Field paths -/

def dot : Fin 65536 := 46

/-- The names in `RESERVED_FIELD_NAMES`, and those that start with `__`. -/
def isReservedFieldName (field : Units) : Bool :=
  (ofString "__").isPrefixOf field ||
    [ofString "__proto__", ofString "constructor", ofString "prototype"].contains field

/-- The loop over the parts of a path. -/
def checkParts (field : Units) : List Units → Except CursorError Unit
  | [] => .ok ()
  | part :: parts =>
    if part = [] then .error (.emptySegment field)
    else if isReservedFieldName part then .error (.reservedField field)
    else checkParts field parts

def assertSafeFieldPath (field : Units) : Except CursorError Units := do
  if field = [] then .error .emptyPath
  else if field.contains 0 then .error .nullByteInPath
  else
    checkParts field (field.splitOn dot)
    .ok field

namespace Value

/-- The own property of an object or a date. -/
def ownProperty (key : Units) : Value → Option Property
  | date _ _ properties => properties.lookup key
  | object properties => properties.lookup key
  | _ => none

end Value

def ownFieldValue (path : List Units) : Property → Except CursorError Value
  | .data value => .ok value
  | .hidden => .error (.notEnumerable path)
  | .accessor => .error (.notDataProperty path)

/-- The loop of `valueFor`; `done` are the keys in front. -/
def valueAt (done : List Units) : List Units → Value → Except CursorError Value
  | [], current => .ok current
  | key :: path, current =>
    match current.ownProperty key with
    | none => .ok .undefined
    | some property => do
      let value ← ownFieldValue (done ++ [key]) property
      valueAt (done ++ [key]) path value

def valueFor (data : Value) (field : Units) : Except CursorError Value := do
  let field ← assertSafeFieldPath field
  valueAt [] (field.splitOn dot) data

/-! ## Sort values -/

def isFinite : JsNumber → Bool
  | .nan => false
  | .infinite _ => false
  | .negativeZero => true
  | .finite _ => true

/-- The rational that a finite number is. -/
def toRat : JsNumber → ℚ
  | .finite value => value.1
  | _ => 0

/-- `string | number | boolean | null`; numbers are finite. -/
inductive Comparable
  | null
  | boolean (value : Bool)
  | number (value : JsNumber) (finite : isFinite value = true)
  | string (value : Units)
  deriving DecidableEq

def comparableNumber (value : JsNumber) : Except CursorError Comparable :=
  if h : isFinite value = true then .ok (.number value h) else .error .notFinite

/-- Years of four digits. -/
def isPortableDate (time : JsDate.Time) : Bool :=
  -62167219200000 ≤ time.1 && time.1 < 253402300800000

def cursorDateComparable (time : Option JsDate.Time) (symbols : Bool)
    (properties : List (Units × Property)) : Except CursorError Comparable :=
  match time with
  | none => .error .invalidDate
  | some time =>
    if !isPortableDate time then .error .notPortableDate
    else if symbols then .error .symbolsOnDate
    else
      match properties with
      | [] => .ok (.string (encode (JsDate.isoString time)))
      | (property, _) :: _ => .error (.propertyOnDate property)

def comparable : Value → Except CursorError Comparable
  | .date time symbols properties => cursorDateComparable time symbols properties
  | .undefined => .ok .null
  | .null => .ok .null
  | .string value => .ok (.string value)
  | .boolean value => .ok (.boolean value)
  | .number value => comparableNumber value
  | .object _ => .error .notComparable
  | .unsupported => .error .notComparable

namespace Comparable

def value : Comparable → Value
  | null => .null
  | boolean value => .boolean value
  | number value _ => .number value
  | string value => .string value

/-- `a === b` -/
def strictEqual : Comparable → Comparable → Bool
  | null, null => true
  | boolean a, boolean b => a = b
  | number a _, number b _ => toRat a = toRat b
  | string a, string b => a = b
  | _, _ => false

/-- `a > b`, for two numbers or two strings. -/
def greater : Comparable → Comparable → Bool
  | number a _, number b _ => toRat b < toRat a
  | string a, string b => List.compareLex compare b a = .lt
  | _, _ => false

end Comparable

def comparableTypeRank : Comparable → Int
  | .boolean _ => 1
  | .number _ _ => 2
  | _ => 3

def compareValues (a b : Comparable) : Int :=
  if a.strictEqual b then 0
  else if a = .null then -1
  else if b = .null then 1
  else if comparableTypeRank a ≠ comparableTypeRank b then
    comparableTypeRank a - comparableTypeRank b
  else
    match a, b with
    | .boolean a, .boolean b => a.toNat - b.toNat
    | a, b => if a.greater b then 1 else -1

/-! ## Sorts -/

inductive SortDirection
  | asc
  | desc
  deriving DecidableEq

structure CursorSort where
  field : Units
  direction : SortDirection
  deriving DecidableEq

def SortDirection.apply : SortDirection → Int → Int
  | asc, order => order
  | desc, order => -order

def sanitizeCursorSortList : List CursorSort → Except CursorError (List CursorSort)
  | [] => .ok []
  | entry :: entries => do
    let field ← assertSafeFieldPath entry.field
    let safeSort ← sanitizeCursorSortList entries
    .ok (⟨field, entry.direction⟩ :: safeSort)

def sortWithStableId (planSort : List CursorSort) (idField : Units) :
    Except CursorError (List CursorSort) := do
  let safeIdField ← assertSafeFieldPath idField
  let sort ← sanitizeCursorSortList planSort
  let hasIdField := sort.any fun entry => entry.field = safeIdField
  .ok (if hasIdField then sort else sort ++ [⟨safeIdField, .asc⟩])

/-! ## Comparing rows -/

/-- The sort values of a row, in the order of the sort. -/
def keysOf (row : Value) : List CursorSort → Except CursorError (List Comparable)
  | [] => .ok []
  | entry :: sort => do
    let key ← valueFor row entry.field >>= comparable
    let keys ← keysOf row sort
    .ok (key :: keys)

def cursorValues (row : Value) (sort : List CursorSort) : Except CursorError (List Comparable) := do
  let safeSort ← sanitizeCursorSortList sort
  keysOf row safeSort

/-- The loop of `compareKeys`; keys have as many values as the sort has entries. -/
def compareSortKeys : List CursorSort → List Comparable → List Comparable → Int
  | entry :: sort, left :: lefts, right :: rights =>
    let order := compareValues left right
    if order ≠ 0 then entry.direction.apply order else compareSortKeys sort lefts rights
  | _, _, _ => 0

structure PreparedSort where
  keyFor : Value → Except CursorError (List Comparable)
  compareKeys : List Comparable → List Comparable → Int

def prepareRowSort (sort : List CursorSort) : Except CursorError PreparedSort := do
  let safeSort ← sanitizeCursorSortList sort
  .ok { keyFor := fun row => keysOf row safeSort, compareKeys := compareSortKeys safeSort }

/-- The loop of `compareRowsBySort`. -/
def compareRows (a b : Value) : List CursorSort → Except CursorError Int
  | [] => .ok 0
  | entry :: sort => do
    let left ← valueFor a entry.field >>= comparable
    let right ← valueFor b entry.field >>= comparable
    let order := compareValues left right
    if order ≠ 0 then .ok (entry.direction.apply order) else compareRows a b sort

def compareRowsBySort (a b : Value) (sort : List CursorSort) : Except CursorError Int := do
  let safeSort ← sanitizeCursorSortList sort
  compareRows a b safeSort

structure KeysetCursor where
  sort : List CursorSort
  values : List Value

def assertSafeCursorValue : Value → Except CursorError Unit
  | .null | .string _ | .boolean _ => .ok ()
  | .number value => if isFinite value then .ok () else .error .unsafeCursorValue
  | _ => .error .unsafeCursorValue

def sanitizeKeysetCursor (cursor : KeysetCursor) : Except CursorError KeysetCursor := do
  let sort ← sanitizeCursorSortList cursor.sort
  if sort.length ≠ cursor.values.length then .error .differentLengths
  else
    cursor.values.forM assertSafeCursorValue
    .ok ⟨sort, cursor.values⟩

/-- The loop of `compareRowToCursor`. -/
def compareToValues (row : Value) : List CursorSort → List Value → Except CursorError Int
  | entry :: sort, value :: values => do
    let left ← valueFor row entry.field >>= comparable
    let right ← comparable value
    let order := compareValues left right
    if order ≠ 0 then .ok (entry.direction.apply order) else compareToValues row sort values
  | _, _ => .ok 0

def compareRowToCursor (row : Value) (cursor : KeysetCursor) : Except CursorError Int := do
  let safeCursor ← sanitizeKeysetCursor cursor
  compareToValues row safeCursor.sort safeCursor.values

end ActiveTs.Query.Cursors
