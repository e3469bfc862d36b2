import ActiveTs.Sql.Rows

/-! # Portable queries and databases

What the adapters have to agree with: the rows that a query accepts, and their order. -/

namespace ActiveTs.Sql

open ActiveTs.Query (Operator WhereEntry Plan)

/-! ## Items of arrays -/

theorem numericSegment_toString (n : Nat) : numericSegment (toString n) = true := by
  have hdigits : Nat.ofDigitChars 10 (toString n).toList 0 = n := by
    rw [Nat.toString_eq_ofList_toDigits, String.toList_ofList]
    exact Nat.ofDigitChars_ten_toDigits
  rw [numericSegment, hdigits, beq_self_eq_true]

theorem arrayItem_eq_none {key : String} (hkey : numericSegment key = false) (items : List Row) :
    arrayItem items key = none := by
  rw [arrayItem, Option.map_eq_none_iff, List.find?_eq_none]
  intro item _ hitem
  rw [← eq_of_beq hitem, numericSegment_toString] at hkey
  cases hkey

/-! ## Comparisons -/

inductive Comparison
  | eq
  | ne
  | gt
  | ge
  | lt
  | le

def Comparison.holds : Comparison → Ordering → Bool
  | eq, order => order = .eq
  | ne, order => order ≠ .eq
  | gt, order => order = .gt
  | ge, order => order ≠ .lt
  | lt, order => order = .lt
  | le, order => order ≠ .gt

/-- The value has the type of the operand, and compares to it as asked. -/
def scalarHolds (operator : Comparison) (value : Option Row) (operand : Scalar JsString) : Bool :=
  match value.bind Json.scalar, operand with
  | some .null, .null => operator.holds .eq
  | some (.bool a), .bool b => a = b && operator.holds .eq
  | some (.number a), .number b => operator.holds (compare a b)
  | some (.string a), .string b => operator.holds (compareText a b)
  | _, _ => false

theorem scalarHolds_eq (value : Option Row) (s : Scalar JsString) :
    scalarHolds .eq value s = strictEqual value (.scalar s) := by
  rcases value with _ | _ | _ | _ | _ | _ | _ | _ <;> cases s <;>
    simp [scalarHolds, strictEqual, Json.scalar, Comparison.holds, compareText,
      Std.LawfulEqCmp.compare_eq_iff_eq]

theorem scalarHolds_range {s : Scalar JsString} (hs : rangeOperand (.scalar s) = true)
    (operator : Comparison) (value : Option Row) :
    scalarHolds operator value s = (compareRangeValues value (.scalar s)).any operator.holds := by
  cases s with
  | null => cases hs
  | bool _ => cases hs
  | number _ => rcases value with _ | _ | _ | _ | _ | _ | _ | _ <;> rfl
  | string _ => rcases value with _ | _ | _ | _ | _ | _ | _ | _ <;> rfl

theorem any_gt (order : Option Ordering) :
    order.any Comparison.gt.holds = decide (order = some .gt) := by
  rcases order with _ | _ | _ | _ <;> rfl

theorem any_lt (order : Option Ordering) :
    order.any Comparison.lt.holds = decide (order = some .lt) := by
  rcases order with _ | _ | _ | _ <;> rfl

/-! ## Order -/

theorem SortDirection.apply_then (direction : SortDirection) (a b : Ordering) :
    (direction.apply a).then (direction.apply b) = direction.apply (a.then b) := by
  cases direction <;> cases a <;> rfl

theorem compareValues_of_ne {a b : Scalar JsString}
    (h : comparableTypeRank a ≠ comparableTypeRank b) :
    compareValues a b = compare (comparableTypeRank a) (comparableTypeRank b) := by
  cases a <;> cases b <;> first | rfl | exact absurd rfl h

/-- The values of a row by which `compareRowsBySort` sorts. -/
def Sortable (sort : List CursorSort) (row : Row) : Prop :=
  ∀ entry ∈ sort, ∃ s, sortKey row entry.field = .ok s

/-! ## Entries of a plan -/

mutual

def entriesOf : Plan Operand → List (WhereEntry Operand)
  | .node wheres or => wheres ++ branchEntriesOf or

def branchEntriesOf : List (Plan Operand) → List (WhereEntry Operand)
  | [] => []
  | branch :: branches => entriesOf branch ++ branchEntriesOf branches

end

/-! ## Lists of rows -/

/-- What a database may list: the selected rows, none in front of one that sorts before it. -/
def Lists (selects : α → Bool) (compareRows : α → α → Except ε Ordering) (rows result : List α) :
    Prop :=
  result.Perm (rows.filter selects) ∧
    result.Pairwise fun a b => ∃ order, compareRows a b = .ok order ∧ order ≠ .gt

/-- What the portable semantics makes of a query. -/
def accepts (containment : Option Row → WhereEntry Operand → Except PortableError Bool)
    (plan : Plan Operand) (row : Row) : Bool :=
  match matchesPlan containment row plan with
  | .ok holds => holds
  | .error _ => false

end ActiveTs.Sql
