import ActiveTs.Lib.JsDate
import ActiveTs.Lib.Utf8Order
import ActiveTs.Sql.Rows

/-! # Filters of MongoDB

What a filter matches, on documents of JSON values. A path finds values: an array on the way gives
the item that the next key is the index of, and what the rest of the path finds in every item that
is a document. -/

namespace ActiveTs.Mongo

open ActiveTs.Sql (Json)

abbrev Text := List Char

/-- A value as the database keeps it. -/
abbrev Value := Json Text

abbrev Document := List (String × Value)

/-- A constant of a query or a filter. -/
inductive Constant (S : Type)
  | scalar (value : Sql.Scalar S)
  | date (time : JsDate.Time)
  deriving DecidableEq

/-! ## Paths -/

def isContainer : Value → Bool
  | .array _ => true
  | .object _ => true
  | _ => false

/-- What the rest of a path finds from an item that the key names; only its last key names scalars. -/
def atIndex (find : Value → List (Option Value)) (last : Bool) (item : Value) : List (Option Value) :=
  if last || isContainer item then find item else []

/-- The values at the end of a path; `none` where the last key is missing. -/
def reach : List String → Value → List (Option Value)
  | [], value => [some value]
  | key :: path, .object fields =>
    match fields.lookup key with
    | none => [none]
    | some value => reach path value
  | key :: path, .array items =>
    items.zipIdx.flatMap fun (item, index) =>
      (match item with
        | .object fields =>
          match fields.lookup key with
          | none => [none]
          | some value => reach path value
        | _ => []) ++
      if toString index = key then atIndex (reach path) path.isEmpty item else []
  | _ :: _, _ => [none]

/-! ## Conditions on values -/

/-- The operators that compare values of one type. -/
inductive Comparison
  | eq
  | gt
  | gte
  | lt
  | lte
  deriving DecidableEq

def Comparison.accepts : Comparison → Ordering → Bool
  | eq, order => order = .eq
  | gt, order => order = .gt
  | gte, order => order ≠ .lt
  | lt, order => order = .lt
  | lte, order => order ≠ .gt

/-- Strings are compared by their bytes. -/
def compareScalars : Sql.Scalar Text → Sql.Scalar Text → Option Ordering
  | .null, .null => some .eq
  | .bool a, .bool b => some (compare a.toNat b.toNat)
  | .number a, .number b => some (compare a b)
  | .string a, .string b => some (List.compareLex compare (Utf8.encode a) (Utf8.encode b))
  | _, _ => none

def compareConstant (value : Sql.Scalar Text) : Constant Text → Option Ordering
  | .scalar operand => compareScalars value operand
  | .date _ => none

/-- Conditions that a scalar meets by itself. -/
inductive ValueTest
  /-- `$type: 'string'` -/
  | isString
  | compare (operator : Comparison) (operand : Constant Text)
  | in (operands : List (Constant Text))
  /-- `$regex` of `^` and an escaped text -/
  | regex (literal : Text)

def ValueTest.onScalar : ValueTest → Sql.Scalar Text → Bool
  | isString, .string _ => true
  | isString, _ => false
  | compare operator operand, value => (compareConstant value operand).any operator.accepts
  | «in» operands, value => operands.any fun operand => compareConstant value operand = some .eq
  | regex literal, .string text => literal.isPrefixOf text
  | regex _, _ => false

theorem ValueTest.onScalar_compare (operator : Comparison) (operand : Constant Text)
    (value : Sql.Scalar Text) : (compare operator operand).onScalar value =
      (compareConstant value operand).any operator.accepts := rfl

theorem ValueTest.onScalar_in (operands : List (Constant Text)) (value : Sql.Scalar Text) :
    («in» operands).onScalar value =
      operands.any fun operand => compareConstant value operand = some .eq := rfl

/-- A missing value counts as null. -/
def scalarOf : Option Value → Option (Sql.Scalar Text)
  | none => some .null
  | some value => value.scalar

def ValueTest.holds (test : ValueTest) (value : Option Value) : Bool :=
  (scalarOf value).any test.onScalar

inductive Predicate
  | fieldExists (expected : Bool)
  /-- `$type: 'array'` -/
  | isArray
  | value (test : ValueTest)
  | elemMatch (test : ValueTest)
  | not (predicate : Predicate)

/-- `$ne` -/
def Predicate.ne (operand : Constant Text) : Predicate := .not (.value (.compare .eq operand))

def itemsOf : Option Value → List Value
  | some (.array items) => items
  | _ => []

def isArray : Option Value → Bool
  | some (.array _) => true
  | _ => false

/-- An array is tested item by item and as a whole. -/
def expand (value : Option Value) : List (Option Value) := (itemsOf value).map some ++ [value]

def Predicate.holds (found : List (Option Value)) : Predicate → Bool
  | fieldExists expected => found.any Option.isSome == expected
  | isArray => (found.flatMap expand).any Mongo.isArray
  | value test => (found.flatMap expand).any test.holds
  | elemMatch test => found.any fun value => (itemsOf value).any fun item => test.holds (some item)
  | not predicate => !predicate.holds found

namespace Predicate
variable (found : List (Option Value))

theorem holds_fieldExists (expected : Bool) :
    (fieldExists expected).holds found = (found.any Option.isSome == expected) := rfl

theorem holds_isArray : isArray.holds found = (found.flatMap expand).any Mongo.isArray := rfl

theorem holds_value (test : ValueTest) :
    (value test).holds found = (found.flatMap expand).any test.holds := rfl

theorem holds_elemMatch (test : ValueTest) : (elemMatch test).holds found =
    found.any fun value => (itemsOf value).any fun item => test.holds (some item) := rfl

theorem holds_not (predicate : Predicate) :
    (not predicate).holds found = !predicate.holds found := rfl

end Predicate

/-! ## Filters -/

inductive Filter
  /-- A filter without conditions. -/
  | all
  | field (path : List String) (predicates : List Predicate)
  | and (filters : List Filter)
  | or (filters : List Filter)

mutual

def Filter.matchesDocument (document : Document) : Filter → Bool
  | .all => true
  | .field path predicates => predicates.all (·.holds (reach path (.object document)))
  | .and filters => matchesEvery document filters
  | .or filters => matchesSome document filters

def matchesEvery (document : Document) : List Filter → Bool
  | [] => true
  | filter :: filters => filter.matchesDocument document && matchesEvery document filters

def matchesSome (document : Document) : List Filter → Bool
  | [] => false
  | filter :: filters => filter.matchesDocument document || matchesSome document filters

end

theorem matchesEvery_eq (document : Document) (filters : List Filter) :
    matchesEvery document filters = filters.all (·.matchesDocument document) := by
  induction filters with
  | nil => rfl
  | cons filter filters ih => rw [matchesEvery, List.all_cons, ih]

theorem matchesSome_eq (document : Document) (filters : List Filter) :
    matchesSome document filters = filters.any (·.matchesDocument document) := by
  induction filters with
  | nil => rfl
  | cons filter filters ih => rw [matchesSome, List.any_cons, ih]

@[simp] theorem matchesDocument_field (document : Document) (path : List String)
    (predicates : List Predicate) : (Filter.field path predicates).matchesDocument document =
      predicates.all (·.holds (reach path (.object document))) := rfl

@[simp] theorem matchesDocument_and (document : Document) (filters : List Filter) :
    (Filter.and filters).matchesDocument document = filters.all (·.matchesDocument document) :=
  matchesEvery_eq document filters

@[simp] theorem matchesDocument_or (document : Document) (filters : List Filter) :
    (Filter.or filters).matchesDocument document = filters.any (·.matchesDocument document) :=
  matchesSome_eq document filters

@[simp] theorem matchesDocument_all (document : Document) :
    Filter.all.matchesDocument document = true := rfl

/-! ## Comparing -/

theorem compareScalars_eq {a b : Sql.Scalar Text} : compareScalars a b = some .eq ↔ a = b := by
  cases a <;> cases b <;> simp only [compareScalars, Option.some.injEq, reduceCtorEq,
    Sql.Scalar.bool.injEq, Sql.Scalar.number.injEq, Sql.Scalar.string.injEq]
  · next a b => cases a <;> cases b <;> decide
  · exact compare_eq_iff_eq
  · rw [Utf8.compareLex_encode, Utf8.compareLex_eq_iff]

theorem compareConstant_eq {value : Sql.Scalar Text} {operand : Constant Text} :
    compareConstant value operand = some .eq ↔ operand = .scalar value := by
  cases operand with
  | scalar operand =>
    rw [compareConstant, compareScalars_eq, Constant.scalar.injEq]
    exact eq_comm
  | date time => simp [compareConstant]

/-! ## Paths without arrays on the way -/

/-- No array stands before the end of the path. -/
def Direct : List String → Value → Prop
  | key :: path, .object fields => ∀ value, fields.lookup key = some value → Direct path value
  | _ :: _, .array _ => False
  | _, _ => True

theorem reach_direct {path : List String} {value : Value} (h : Direct path value) :
    ∃ found, Sql.valueAt path value = .ok found ∧ reach path value = [found] := by
  induction path generalizing value with
  | nil => exact ⟨some value, rfl, rfl⟩
  | cons key path ih =>
    cases value with
    | object fields =>
      rw [Sql.valueAt, Sql.ownValue_object, reach]
      cases hlookup : fields.lookup key with
      | none => exact ⟨none, rfl, rfl⟩
      | some value => exact ih (h value hlookup)
    | array items => exact h.elim
    | null => exact ⟨none, rfl, rfl⟩
    | bool value => exact ⟨none, rfl, rfl⟩
    | integer value => exact ⟨none, rfl, rfl⟩
    | real value => exact ⟨none, rfl, rfl⟩
    | string value => exact ⟨none, rfl, rfl⟩

end ActiveTs.Mongo
