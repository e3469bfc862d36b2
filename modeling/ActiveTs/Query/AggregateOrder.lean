import ActiveTs.Query.Aggregates

/-! # The order of comparable values

The loops of `min` and `max` keep the least value in this order or in its reverse. Values that are equal
in it are the same, zeros without their sign. -/

namespace ActiveTs.Query

open Utf16 (Units)
open Cursors (isFinite toRat)
open KeyOrder (sign directed)

/-! ## Results up to the sign of zero -/

theorem nearest_zero : Binary64.nearest 0 = some 0 :=
  @Binary64.nearest_intCast 0 (by decide)

def positiveZero : JsNumber := .finite ⟨0, nearest_zero⟩

def AggregateValue.withoutSign : AggregateValue → AggregateValue
  | .value (.number .negativeZero _) => .value (.number positiveZero rfl)
  | other => other

def withoutSigns (result : AggregateResult) : AggregateResult :=
  result.map fun entry => (entry.1, entry.2.withoutSign)

/-! ## The order of comparable values -/

namespace ComparableAggregateValue

def kind : ComparableAggregateValue → Nat
  | number _ _ => 0
  | string _ => 1
  | date _ => 2

def magnitude : ComparableAggregateValue → ℚ
  | number value _ => toRat value
  | string _ => 0
  | date time => time.1

def text : ComparableAggregateValue → Units
  | string value => value
  | _ => []

/-- Kinds first, then numbers and dates by magnitude and strings by their code units. -/
def order (a b : ComparableAggregateValue) : Ordering :=
  (compare a.kind b.kind).then ((compare a.magnitude b.magnitude).then
    (List.compareLex compare a.text b.text))

instance : Std.TransCmp order := by
  have htext : Std.TransCmp fun a b : ComparableAggregateValue =>
      List.compareLex compare a.text b.text := KeyOrder.transCmp_on text
  exact inferInstanceAs (Std.TransCmp (compareLex (compareOn kind) (compareLex (compareOn magnitude)
    fun a b => List.compareLex compare a.text b.text)))

theorem order_number {a b : JsNumber} (ha : isFinite a = true) (hb : isFinite b = true) :
    (number a ha).order (number b hb) = compare (toRat a) (toRat b) := by
  change (compare (toRat a) (toRat b)).then .eq = _
  exact Ordering.then_eq

theorem order_string (a b : Units) : (string a).order (string b) = List.compareLex compare a b := rfl

theorem order_date (s t : JsDate.Time) : (date s).order (date t) = compare (s.1 : ℚ) (t.1 : ℚ) := by
  change (compare (s.1 : ℚ) (t.1 : ℚ)).then .eq = _
  exact Ordering.then_eq

/-- Values that are equal in the order are the same, zeros without their sign. -/
theorem withoutSign_of_order {a b : ComparableAggregateValue} (h : a.order b = .eq) :
    (AggregateValue.value a).withoutSign = (AggregateValue.value b).withoutSign := by
  rw [order, Ordering.then_eq_eq, Ordering.then_eq_eq] at h
  obtain ⟨hkind, hmagnitude, htext⟩ := h
  have hkind' : a.kind = b.kind := Std.LawfulEqCmp.eq_of_compare hkind
  have hmagnitude' : a.magnitude = b.magnitude := Std.LawfulEqCmp.eq_of_compare hmagnitude
  have htext' : a.text = b.text := Std.LawfulEqCmp.eq_of_compare htext
  cases a with
  | number x hx =>
    cases b with
    | number y hy =>
      change toRat x = toRat y at hmagnitude'
      cases x with
      | nan => cases hx
      | infinite negative => cases hx
      | negativeZero =>
        cases y with
        | nan => cases hy
        | infinite negative => cases hy
        | negativeZero => rfl
        | finite q =>
          have hq : q = ⟨0, nearest_zero⟩ := Subtype.ext hmagnitude'.symm
          subst hq
          rfl
      | finite p =>
        cases y with
        | nan => cases hy
        | infinite negative => cases hy
        | negativeZero =>
          have hp : p = ⟨0, nearest_zero⟩ := Subtype.ext hmagnitude'
          subst hp
          rfl
        | finite q =>
          have hpq : p = q := Subtype.ext hmagnitude'
          subst hpq
          rfl
    | string y => cases hkind'
    | date y => cases hkind'
  | string x =>
    cases b with
    | number y hy => cases hkind'
    | string y =>
      change x = y at htext'
      rw [htext']
    | date y => cases hkind'
  | date x =>
    cases b with
    | number y hy => cases hkind'
    | string y => cases hkind'
    | date y =>
      have hxy : x = y := Subtype.ext (Int.cast_injective hmagnitude')
      rw [hxy]

end ComparableAggregateValue

open ComparableAggregateValue

/-! ## The loop keeps the least value -/

theorem sign_compareComparableValues {as field : Units} {a b : ComparableAggregateValue}
    (hkind : a.kind = b.kind) :
    ∃ n, compareComparableValues as field a b = .ok n ∧ sign n = a.order b := by
  cases a with
  | number x hx =>
    cases b with
    | number y hy =>
      refine ⟨_, rfl, ?_⟩
      rw [order_number]
      rcases lt_trichotomy (toRat x) (toRat y) with h | h | h
      · rw [if_pos h, compare_lt_iff_lt.mpr h]
        rfl
      · rw [if_neg (by rw [h]; exact lt_irrefl _), if_neg (by rw [h]; exact lt_irrefl _),
          compare_eq_iff_eq.mpr h]
        rfl
      · rw [if_neg (lt_asymm h), if_pos h, compare_gt_iff_gt.mpr h]
        rfl
    | string y => cases hkind
    | date y => cases hkind
  | string x =>
    cases b with
    | number y hy => cases hkind
    | string y =>
      refine ⟨_, rfl, ?_⟩
      rw [order_string]
      cases hcmp : List.compareLex compare x y with
      | lt => rfl
      | eq =>
        have hback : List.compareLex compare y x = .eq := Std.OrientedCmp.eq_symm hcmp
        rw [if_neg (by simp), hback]
        rfl
      | gt =>
        have hback : List.compareLex compare y x = .lt := Std.OrientedCmp.lt_of_gt hcmp
        rw [if_neg (by simp), if_pos hback]
        rfl
    | date y => cases hkind
  | date x =>
    cases b with
    | number y hy => cases hkind
    | string y => cases hkind
    | date y =>
      refine ⟨_, rfl, ?_⟩
      rw [order_date]
      rcases Int.lt_trichotomy x.1 y.1 with h | h | h
      · rw [KeyOrder.sign_of_neg (by omega), compare_lt_iff_lt.mpr (Int.cast_lt.mpr h)]
      · rw [show x.1 - y.1 = 0 by omega, compare_eq_iff_eq.mpr (congrArg _ h)]
        rfl
      · rw [KeyOrder.sign_of_pos (by omega), compare_gt_iff_gt.mpr (Int.cast_lt.mpr h)]

/-- The comparable value of a row at a field. -/
def comparableAt (as field : Units) (row : Data) : Option ComparableAggregateValue :=
  match valueFor row field with
  | .ok value => if value.missing then none else (comparableValue as field value).toOption
  | .error _ => none

/-- The order in which `min` (ascending) or `max` (descending) looks for the least value. -/
def direction (descending : Bool) (a b : ComparableAggregateValue) : Ordering :=
  directed descending (a.order b)

instance (descending : Bool) : Std.TransCmp (direction descending) :=
  KeyOrder.transCmp_directed descending id

theorem extremeFrom_eq {as field : Units} {better : Int → Bool} {descending : Bool}
    (hbetter : ∀ n, better n = true ↔ directed descending (sign n) = .lt) {kind : Nat}
    {rows : List Data} {result : Option ComparableAggregateValue}
    (hresult : ∀ best, result = some best → best.kind = kind)
    (hrows : ∀ row ∈ rows, ∃ value, valueFor row field = .ok value ∧ (value.missing = true ∨
      value.missing = false ∧ ∃ c, comparableValue as field value = .ok c ∧ c.kind = kind)) :
    extremeFrom as field better result rows =
      .ok ((rows.filterMap (comparableAt as field)).foldl (Extremes.keep (direction descending)) result) := by
  induction rows generalizing result with
  | nil => rfl
  | cons row rows ih =>
    rw [List.forall_mem_cons] at hrows
    obtain ⟨⟨value, hvalue, hcase⟩, hrows⟩ := hrows
    rw [extremeFrom, hvalue]
    change (if value.missing then _ else _) = _
    rcases hcase with hmissing | ⟨hpresent, c, hc, hkind⟩
    · have hnone : comparableAt as field row = none := by
        rw [comparableAt, hvalue]
        exact if_pos hmissing
      rw [if_pos hmissing, List.filterMap_cons, hnone]
      exact ih hresult hrows
    · have hsome : comparableAt as field row = some c := by
        rw [comparableAt, hvalue]
        change (if value.missing then none else (comparableValue as field value).toOption) = _
        rw [hpresent, hc]
        rfl
      rw [hpresent, if_neg Bool.false_ne_true, List.filterMap_cons, hsome, hc, List.foldl_cons]
      cases result with
      | none => exact ih (fun best h => Option.some.inj h ▸ hkind) hrows
      | some best =>
        have hbest := hresult best rfl
        obtain ⟨n, hn, hsign⟩ := @sign_compareComparableValues as field c best (hkind.trans hbest.symm)
        change (compareComparableValues as field c best >>= _) = _
        rw [hn, Extremes.keep]
        change extremeFrom as field better (some (if better n then c else best)) rows = _
        have htest : better n = true ↔ direction descending c best = .lt := by
          rw [hbetter n, hsign]
          rfl
        by_cases hlt : direction descending c best = .lt
        · rw [if_pos (htest.mpr hlt), if_pos hlt]
          exact ih (fun best' h => Option.some.inj h ▸ hkind) hrows
        · rw [if_neg (htest.not.mpr hlt), if_neg hlt]
          exact ih (fun best' h => Option.some.inj h ▸ hbest) hrows

theorem better_min (n : Int) : decide (n < 0) = true ↔ directed false (sign n) = .lt := by
  rw [decide_eq_true_iff]
  change _ ↔ sign n = .lt
  rcases Int.lt_trichotomy n 0 with h | h | h
  · exact ⟨fun _ => KeyOrder.sign_of_neg h, fun _ => h⟩
  · rw [h]
    exact ⟨fun h => absurd h (by omega), fun h => (by cases h)⟩
  · rw [KeyOrder.sign_of_pos h]
    exact ⟨fun h => absurd h (by omega), fun h => (by cases h)⟩

theorem better_max (n : Int) : decide (n > 0) = true ↔ directed true (sign n) = .lt := by
  rw [decide_eq_true_iff, directed, if_pos rfl, Ordering.swap_eq_lt]
  exact KeyOrder.sign_eq_gt.symm

end ActiveTs.Query
