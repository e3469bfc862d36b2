import ActiveTs.Lib.Extremes
import ActiveTs.Lib.MergeSort
import ActiveTs.Query.DecodedRows
import ActiveTs.Query.Plans
import ActiveTs.Query.RowOrder

/-! # Aggregates, natively and over rows

The memory store aggregates its stored rows in the order of their insertion, and the winning text of a
date field is turned into a date afterwards. The fallback queries the rows, which come in the order of
their ids, decodes them, and aggregates what it has. Texts of dates are in the order of the dates, so
both give the same results; a zero may differ in its sign. -/

namespace ActiveTs.Query

open Utf16 (Units ofString encode)
open Cursors (CursorError assertSafeFieldPath dot isFinite toRat)
open KeyOrder (sign directed)

/-- `sum` and `avg` add floating-point numbers and are not here. -/
inductive AggregateSpec
  | count (as : Units)
  | min (as field : Units)
  | max (as field : Units)
  deriving DecidableEq

namespace AggregateSpec

def as : AggregateSpec → Units
  | count as | min as _ | max as _ => as

def field? : AggregateSpec → Option Units
  | count _ => none
  | min _ field | max _ field => some field

end AggregateSpec

inductive AggregateError
  | path (error : CursorError)
  | data (error : DataError)
  | fieldType (error : FieldTypeError)
  /-- "Aggregate alias … cannot contain "."." -/
  | dotInAlias (as : Units)
  /-- "Duplicate aggregate alias … is not allowed." -/
  | duplicateAlias (as : Units)
  /-- "… does not support boolean min/max fields." -/
  | booleanField (as : Units)
  /-- "Aggregate … expected scalar comparable values in field …" -/
  | notComparable (as field : Units)
  /-- "Aggregate … expected comparable values of one scalar type in field …" -/
  | differentKinds (as field : Units)
  /-- "… expected a non-negative safe integer count." -/
  | unsafeCount (as : Units)
  /-- "Aggregate … result for field … must match … field type." -/
  | otherType (as field : Units)
  | sort (error : CursorError)

/-! ## Specs -/

def assertSafeAggregateAlias (as : Units) : Except AggregateError Units := do
  let safeAlias ← (assertSafeFieldPath as).mapError .path
  if dot ∈ safeAlias then .error (.dotInAlias safeAlias) else .ok safeAlias

def assertSpecField : Option Units → Except AggregateError Unit
  | none => .ok ()
  | some field => (assertSafeFieldPath field).mapError .path >>= fun _ => .ok ()

/-- The loop of `validateAggregateSpecs`, with the aliases that were seen. -/
def validateSpecs (aliases : List Units) : List AggregateSpec → Except AggregateError Unit
  | [] => .ok ()
  | spec :: specs => do
    let as ← assertSafeAggregateAlias spec.as
    if as ∈ aliases then .error (.duplicateAlias as)
    else do
      assertSpecField spec.field?
      validateSpecs (as :: aliases) specs

def validateAggregateSpecs (specs : List AggregateSpec) : Except AggregateError (List AggregateSpec) := do
  validateSpecs [] specs
  .ok specs

def fieldTypeFor (model : ResolvedModelMeta) (field : Units) : Option FieldType :=
  JsMap.lookup field model.fieldTypes

def assertSpecCompatible (model : ResolvedModelMeta) (spec : AggregateSpec) :
    Except AggregateError Unit :=
  if spec.field?.bind (fieldTypeFor model) = some .boolean then .error (.booleanField spec.as)
  else .ok ()

def assertAggregateSpecsCompatibleWithModel (model : ResolvedModelMeta) (specs : List AggregateSpec) :
    Except AggregateError (List AggregateSpec) := do
  let safeSpecs ← validateAggregateSpecs specs
  safeSpecs.forM (assertSpecCompatible model)
  .ok safeSpecs

/-! ## Aggregating rows -/

/-- `string | number | Date`; numbers are finite. -/
inductive ComparableAggregateValue
  | number (value : JsNumber) (finite : isFinite value = true)
  | string (value : Units)
  | date (time : JsDate.Time)

def ComparableAggregateValue.data : ComparableAggregateValue → Data
  | number value _ => .number value
  | string value => .string value
  | date time => .date time

inductive AggregateValue
  | null
  /-- A number of rows. -/
  | count (rows : Nat)
  | value (value : ComparableAggregateValue)

/-- The values by alias, in the order of the specs. -/
abbrev AggregateResult := List (Units × AggregateValue)

def comparableValue (as field : Units) : Data → Except AggregateError ComparableAggregateValue
  | .number value => if h : isFinite value = true then .ok (.number value h)
      else .error (.notComparable as field)
  | .string value => .ok (.string value)
  | .date time => .ok (.date time)
  | _ => .error (.notComparable as field)

def compareComparableValues (as field : Units) :
    ComparableAggregateValue → ComparableAggregateValue → Except AggregateError Int
  | .date left, .date right => .ok (left.1 - right.1)
  | .number left _, .number right _ =>
    .ok (if toRat left < toRat right then -1 else if toRat right < toRat left then 1 else 0)
  | .string left, .string right =>
    .ok (if List.compareLex compare left right = .lt then -1
      else if List.compareLex compare right left = .lt then 1 else 0)
  | _, _ => .error (.differentKinds as field)

/-- The loop over the rows for `min` and `max`; `better` tests the comparison with the value so far. -/
def extremeFrom (as field : Units) (better : Int → Bool) :
    Option ComparableAggregateValue → List Data → Except AggregateError (Option ComparableAggregateValue)
  | result, [] => .ok result
  | result, row :: rows => do
    let value ← (valueFor row field).mapError .data
    if value.missing then extremeFrom as field better result rows
    else do
      let comparable ← comparableValue as field value
      match result with
      | none => extremeFrom as field better (some comparable) rows
      | some best => do
        let order ← compareComparableValues as field comparable best
        extremeFrom as field better (some (if better order then comparable else best)) rows

def resultValue : Option ComparableAggregateValue → AggregateValue
  | none => .null
  | some best => .value best

def aggregateSpec (rows : List Data) : AggregateSpec → Except AggregateError AggregateValue
  | .count _ => .ok (.count rows.length)
  | .min as field => (extremeFrom as field (fun order => order < 0) none rows).map resultValue
  | .max as field => (extremeFrom as field (fun order => order > 0) none rows).map resultValue

def aggregateRows (rows : List Data) (specs : List AggregateSpec) :
    Except AggregateError AggregateResult := do
  let safeSpecs ← validateAggregateSpecs specs
  safeSpecs.mapM fun spec => (aggregateSpec rows spec).map (spec.as, ·)

/-! ## Results -/

def MAX_SAFE_INTEGER : Nat := 9007199254740991

def hasType : ComparableAggregateValue → FieldType → Bool
  | .number _ _, .number => true
  | .string _, .string => true
  | _, _ => false

def normalizeMinMaxResultValue (dates : DateParser) (as field : Units) (type : FieldType)
    (value : ComparableAggregateValue) : Except AggregateError ComparableAggregateValue :=
  if type = .date then
    ((normalizeDateRuntimeValue dates value.data).mapError .fieldType).map .date
  else if hasType value type then .ok value
  else .error (.otherType as field)

/-- `normalizeAggregateResult` and the field type on one value. -/
def normalizeValue (dates : DateParser) (model : ResolvedModelMeta) (spec : AggregateSpec) :
    AggregateValue → Except AggregateError AggregateValue
  | .count rows => if rows ≤ MAX_SAFE_INTEGER then .ok (.count rows) else .error (.unsafeCount spec.as)
  | .null => .ok .null
  | .value value =>
    match spec.field? with
    | none => .ok (.value value)
    | some field =>
      match fieldTypeFor model field with
      | none => .ok (.value value)
      | some type => (normalizeMinMaxResultValue dates spec.as field type value).map .value

def normalizeAggregateFieldTypes (dates : DateParser) (model : ResolvedModelMeta)
    (specs : List AggregateSpec) (result : AggregateResult) : Except AggregateError AggregateResult := do
  let safeSpecs ← validateAggregateSpecs specs
  (safeSpecs.zip result).mapM fun entry =>
    (normalizeValue dates model entry.1 entry.2.2).map (entry.2.1, ·)

/-! ## The memory store -/

/-- The own properties of a stored row. -/
abbrev Row := List (Units × Data)

section
variable {V : Type} [DecidableEq V] (ops : Operands Row V) (dates : DateParser)
  (model : ResolvedModelMeta)

def filtered (rows : List Row) (plan : Plan V) : List Row :=
  rows.filter fun row => matchesPlan (compareWhere ops row) plan

/-- What `comparable` of `cursor.ts` takes a value for. -/
def Data.cursorValue : Data → Cursors.Value
  | undefined => .undefined
  | null => .null
  | boolean value => .boolean value
  | number value => .number value
  | string value => .string value
  | date time => .date (some time) false []
  | array _ | object _ => .unsupported

/-- `keyFor` for the sort by id. -/
def idKey (row : Row) : Except AggregateError Cursors.Comparable := do
  let id ← (valueFor (.object row) model.idField).mapError .data
  (Cursors.comparable id.cursorValue).mapError .sort

/-- `sortMemoryRows`, for a plan without a sort of its own. -/
def sortMemoryRows (rows : List Row) : Except AggregateError (List Row) := do
  let keyed ← rows.mapM fun row => (idKey model row).map (row, ·)
  let sorted := MergeSort.sort
    (fun a b => Cursors.compareSortKeys [⟨model.idField, .asc⟩] [a.2] [b.2] ≤ 0) keyed
  .ok (sorted.map Prod.fst)

/-- `query` without limit, offset and cursor; nothing is left behind it. -/
def queryRows (rows : List Row) (plan : Plan V) (select : Option (List Units)) :
    Except AggregateError (List Row) := do
  let list ← sortMemoryRows model (filtered ops rows plan)
  match select with
  | none => .ok list
  | some fields => list.mapM fun row => (pickFields (.object row) fields model.idField).mapError .data

/-- `aggregate` of the memory store. -/
def storeAggregate (rows : List Row) (plan : Plan V) (specs : List AggregateSpec) :
    Except AggregateError AggregateResult := do
  let specs ← assertAggregateSpecsCompatibleWithModel model specs
  aggregateRows ((filtered ops rows plan).map .object) specs

/-! ## `runAggregate` -/

def validateRead (row : Row) : Except AggregateError Row :=
  (applyFieldTypeTransforms dates model.fieldTypes row).mapError .fieldType

def nativeAggregate (rows : List Row) (plan : Plan V) (specs : List AggregateSpec) :
    Except AggregateError AggregateResult := do
  let activeSpecs ← assertAggregateSpecsCompatibleWithModel model specs
  let rawAggregate ← storeAggregate ops model rows plan activeSpecs
  normalizeAggregateFieldTypes dates model activeSpecs rawAggregate

/-- The fields that the fallback selects. -/
def selectOf (specs : List AggregateSpec) : Option (List Units) :=
  let fields := (specs.filterMap AggregateSpec.field?).eraseDups
  if fields = [] then none else some (withIdField fields model.idField)

def fallbackAggregate (rows : List Row) (plan : Plan V) (specs : List AggregateSpec) :
    Except AggregateError AggregateResult := do
  let activeSpecs ← assertAggregateSpecsCompatibleWithModel model specs
  let list ← queryRows ops model rows plan (selectOf model activeSpecs)
  let rows ← list.mapM (validateRead dates model)
  let result ← aggregateRows (rows.map .object) activeSpecs
  normalizeAggregateFieldTypes dates model activeSpecs result

end

end ActiveTs.Query
