import ActiveTs.EntityIds.Keys
import ActiveTs.Lib.KeyOrder
import ActiveTs.Lib.Lex
import ActiveTs.Query.Cursors
import Mathlib.Algebra.Order.Ring.Unbundled.Rat

/-! # The order of rows

Four comparisons are written for rows: by the rows themselves, by keys that were taken before, and by
a cursor. All of them are the order of the sort values, one after the other, with the id at last. -/

namespace ActiveTs.Query.Cursors

open Utf16 (Units ofString encode)
open KeyOrder (sign directed compareBy)

/-! ## The order of sort values -/

namespace Comparable

/-- The kinds of values, in their order. -/
def kind : Comparable → Nat
  | null => 0
  | boolean _ => 1
  | number _ _ => 2
  | string _ => 3

/-- What values of one kind differ in. -/
def magnitude : Comparable → ℚ
  | boolean value => value.toNat
  | number value _ => toRat value
  | _ => 0

def text : Comparable → Units
  | string value => value
  | _ => []

/-- Kinds first, then booleans and numbers by magnitude and strings by their code units. -/
def order (a b : Comparable) : Ordering :=
  (compare a.kind b.kind).then ((compare a.magnitude b.magnitude).then
    (List.compareLex compare a.text b.text))

instance : Std.TransCmp order := by
  have htext : Std.TransCmp fun a b : Comparable => List.compareLex compare a.text b.text :=
    KeyOrder.transCmp_on text
  exact inferInstanceAs (Std.TransCmp (compareLex (compareOn kind) (compareLex (compareOn magnitude)
    fun a b => List.compareLex compare a.text b.text)))

theorem order_of_kind {a b : Comparable} (h : a.kind ≠ b.kind) :
    a.order b = compare a.kind b.kind := by
  rw [order]
  cases hcompare : compare a.kind b.kind with
  | lt => rfl
  | eq => exact absurd (Std.LawfulEqCmp.eq_of_compare hcompare) h
  | gt => rfl

theorem order_boolean (a b : Bool) : (boolean a).order (boolean b) = compare a.toNat b.toNat := by
  cases a <;> cases b <;> rfl

theorem order_number {a b : JsNumber} (ha : isFinite a = true) (hb : isFinite b = true) :
    (number a ha).order (number b hb) = compare (toRat a) (toRat b) := by
  change (compare (toRat a) (toRat b)).then .eq = _
  exact Ordering.then_eq

theorem order_string (a b : Units) : (string a).order (string b) = List.compareLex compare a b :=
  rfl

/-- Only `===` values are equal in the order. -/
theorem strictEqual_iff {a b : Comparable} : a.strictEqual b = true ↔ a.order b = .eq := by
  by_cases hkind : a.kind = b.kind
  · cases a <;> cases b <;> cases hkind
    · exact ⟨fun _ => rfl, fun _ => rfl⟩
    · rename_i a b
      rw [order_boolean, Std.LawfulEqCmp.compare_eq_iff_eq]
      cases a <;> cases b <;> decide
    · rw [order_number, Std.LawfulEqCmp.compare_eq_iff_eq, strictEqual, decide_eq_true_iff]
    · rw [order_string, Std.LawfulEqCmp.compare_eq_iff_eq, strictEqual, decide_eq_true_iff]
  · rw [order_of_kind hkind, Std.LawfulEqCmp.compare_eq_iff_eq]
    refine ⟨fun h => ?_, fun h => absurd h hkind⟩
    cases a <;> cases b <;> first | exact absurd rfl hkind | cases h

end Comparable

/-- The last line of `compareValues`. -/
theorem sign_greater {a b : Comparable} (heq : ¬ a.strictEqual b = true)
    (hgreater : a.greater b = true ↔ a.order b = .gt) :
    sign (if a.greater b then 1 else -1) = a.order b := by
  rw [Comparable.strictEqual_iff] at heq
  cases horder : a.order b with
  | lt =>
    rw [horder] at hgreater
    rw [if_neg fun h => absurd (hgreater.mp h) (by decide)]
    rfl
  | eq => exact absurd horder heq
  | gt =>
    rw [if_pos (hgreater.mpr horder)]
    rfl

theorem sign_compareValues (a b : Comparable) : sign (compareValues a b) = a.order b := by
  unfold compareValues
  split
  · rename_i heq
    rw [Comparable.strictEqual_iff.mp heq]
    rfl
  rename_i heq
  by_cases hkind : a.kind = b.kind
  · cases a <;> cases b <;> cases hkind
    · exact absurd rfl heq
    · rename_i a b
      cases a <;> cases b <;> rfl
    · rename_i a ha b hb
      apply sign_greater heq
      rw [Comparable.order_number, Comparable.greater, decide_eq_true_iff, compare_gt_iff_gt]
    · rename_i a b
      apply sign_greater heq
      rw [Comparable.order_string, Comparable.greater, decide_eq_true_iff,
        Std.OrientedCmp.gt_iff_lt]
  · rw [Comparable.order_of_kind hkind]
    cases a <;> cases b <;> first | rfl | exact absurd rfl hkind

/-! ## The order of rows -/

/-- The key of a row at a field; where the row has none, it does not matter. -/
def keyAt (field : Units) (row : Value) : Comparable :=
  match valueFor row field >>= comparable with
  | .ok key => key
  | .error _ => .null

def sortKeys (sort : List CursorSort) : List (Bool × (Value → Comparable)) :=
  sort.map fun entry => (entry.direction = .desc, keyAt entry.field)

/-- The order that all comparisons have. -/
def rowOrder (sort : List CursorSort) : Value → Value → Ordering :=
  compareBy Comparable.order (sortKeys sort)

instance (sort : List CursorSort) : Std.TransCmp (rowOrder sort) :=
  KeyOrder.transCmp_compareBy (sortKeys sort)

/-- A row with admissible sort values. -/
def Sortable (sort : List CursorSort) (row : Value) : Prop :=
  ∀ entry ∈ sort, ∃ key, (valueFor row entry.field >>= comparable) = .ok key

theorem keyAt_eq {field : Units} {row : Value} {key : Comparable}
    (h : (valueFor row field >>= comparable) = .ok key) : keyAt field row = key := by
  rw [keyAt, h]

theorem keysOf_eq_ok {row : Value} {sort : List CursorSort} {keys : List Comparable} :
    keysOf row sort = .ok keys ↔
      Sortable sort row ∧ keys = sort.map fun entry => keyAt entry.field row := by
  induction sort generalizing keys with
  | nil =>
    constructor
    · intro h
      cases h
      exact ⟨fun entry hentry => absurd hentry List.not_mem_nil, rfl⟩
    · rintro ⟨-, rfl⟩
      rfl
  | cons entry sort ih =>
    simp only [keysOf, Except.bind_eq_ok (x := valueFor row entry.field >>= comparable),
      Except.bind_eq_ok (x := keysOf row sort), ih, Sortable, List.forall_mem_cons, List.map_cons]
    constructor
    · rintro ⟨key, hkey, keys, ⟨hsort, rfl⟩, h⟩
      cases h
      exact ⟨⟨⟨key, hkey⟩, hsort⟩, by rw [keyAt_eq hkey]⟩
    · rintro ⟨⟨⟨key, hkey⟩, hsort⟩, rfl⟩
      exact ⟨key, hkey, _, ⟨hsort, rfl⟩, by rw [keyAt_eq hkey]⟩

/-! ## Comparisons of rows -/

theorem sign_apply (direction : SortDirection) (order : Int) :
    sign (direction.apply order) = directed (direction = .desc) (sign order) := by
  cases direction with
  | asc => rfl
  | desc => exact KeyOrder.sign_neg order

theorem apply_ne_zero {direction : SortDirection} {order : Int} (h : order ≠ 0) :
    sign (direction.apply order) ≠ .eq := by
  rw [sign_apply, Ne, KeyOrder.directed_eq_iff, KeyOrder.sign_eq_iff]
  exact h

/-- A field that differs decides; otherwise the rest does. -/
theorem rowOrder_cons (entry : CursorSort) (sort : List CursorSort) (a b : Value) :
    rowOrder (entry :: sort) a b =
      (sign (entry.direction.apply (compareValues (keyAt entry.field a) (keyAt entry.field b)))).then
        (rowOrder sort a b) := by
  rw [sign_apply, sign_compareValues]
  rfl

theorem then_of_ne {first second : Ordering} (h : first ≠ .eq) : first.then second = first := by
  cases first with
  | lt => rfl
  | eq => exact absurd rfl h
  | gt => rfl

theorem rowOrder_of_ne {entry : CursorSort} {sort : List CursorSort} {a b : Value}
    (h : compareValues (keyAt entry.field a) (keyAt entry.field b) ≠ 0) :
    rowOrder (entry :: sort) a b =
      sign (entry.direction.apply (compareValues (keyAt entry.field a) (keyAt entry.field b))) := by
  rw [rowOrder_cons, then_of_ne (apply_ne_zero h)]

theorem rowOrder_of_eq {entry : CursorSort} {sort : List CursorSort} {a b : Value}
    (h : compareValues (keyAt entry.field a) (keyAt entry.field b) = 0) :
    rowOrder (entry :: sort) a b = rowOrder sort a b := by
  rw [rowOrder_cons, sign_apply, h, KeyOrder.sign_zero, KeyOrder.directed_eq_iff.mpr rfl,
    Ordering.eq_then]

theorem compareRows_sortable {sort : List CursorSort} {a b : Value} (ha : Sortable sort a)
    (hb : Sortable sort b) :
    ∃ order, compareRows a b sort = .ok order ∧ sign order = rowOrder sort a b := by
  induction sort with
  | nil => exact ⟨0, rfl, rfl⟩
  | cons entry sort ih =>
    obtain ⟨⟨left, hleft⟩, ha⟩ := List.forall_mem_cons.mp ha
    obtain ⟨⟨right, hright⟩, hb⟩ := List.forall_mem_cons.mp hb
    obtain ⟨order, hrest, hsign⟩ := ih ha hb
    have hl := keyAt_eq hleft
    have hr := keyAt_eq hright
    rw [compareRows, hleft, hright]
    simp only [bind, Except.bind]
    split
    · rename_i hne
      refine ⟨_, rfl, ?_⟩
      rw [← hl, ← hr] at hne ⊢
      exact (rowOrder_of_ne hne).symm
    · rename_i heq
      rw [Classical.not_not, ← hl, ← hr] at heq
      exact ⟨order, hrest, hsign.trans (rowOrder_of_eq heq).symm⟩

theorem sign_compareSortKeys (sort : List CursorSort) (a b : Value) :
    sign (compareSortKeys sort (sort.map fun entry => keyAt entry.field a)
      (sort.map fun entry => keyAt entry.field b)) = rowOrder sort a b := by
  induction sort with
  | nil => rfl
  | cons entry sort ih =>
    rw [List.map_cons, List.map_cons, compareSortKeys]
    split
    · rename_i hne
      exact (rowOrder_of_ne hne).symm
    · rename_i heq
      rw [Classical.not_not] at heq
      rw [rowOrder_of_eq heq, ih]

/-- A sort value stays what it is. -/
theorem comparable_value (key : Comparable) : comparable key.value = .ok key := by
  cases key with
  | null => rfl
  | boolean value => rfl
  | number value finite => exact dif_pos finite
  | string value => rfl

theorem safe_value (key : Comparable) : assertSafeCursorValue key.value = .ok () := by
  cases key with
  | null => rfl
  | boolean value => rfl
  | number value finite => exact if_pos finite
  | string value => rfl

/-- The values of a row stand for it, also where another row is not sortable. -/
theorem compareToValues_eq {row last : Value} {sort : List CursorSort} {keys : List Comparable}
    (h : keysOf last sort = .ok keys) :
    compareToValues row sort (keys.map Comparable.value) = compareRows row last sort := by
  induction sort generalizing keys with
  | nil =>
    cases h
    rfl
  | cons entry sort ih =>
    rw [keysOf, Except.bind_eq_ok] at h
    obtain ⟨key, hkey, h⟩ := h
    rw [Except.bind_eq_ok] at h
    obtain ⟨rest, hrest, h⟩ := h
    cases h
    rw [List.map_cons, compareToValues, compareRows, comparable_value, hkey, ih hrest]

/-! ## Safe sorts -/

theorem assertSafeFieldPath_eq_ok {field safeField : Units}
    (h : assertSafeFieldPath field = .ok safeField) : safeField = field := by
  rw [assertSafeFieldPath] at h
  split at h
  · cases h
  · split at h
    · cases h
    · rw [Except.bind_eq_ok] at h
      obtain ⟨-, -, h⟩ := h
      cases h
      rfl

/-- Sanitizing keeps a sort and leaves nothing to sanitize. -/
theorem sanitize_eq_ok {sort safeSort : List CursorSort}
    (h : sanitizeCursorSortList sort = .ok safeSort) : safeSort = sort := by
  induction sort generalizing safeSort with
  | nil =>
    cases h
    rfl
  | cons entry sort ih =>
    rw [sanitizeCursorSortList, Except.bind_eq_ok] at h
    obtain ⟨field, hfield, h⟩ := h
    rw [Except.bind_eq_ok] at h
    obtain ⟨rest, hrest, h⟩ := h
    cases h
    rw [assertSafeFieldPath_eq_ok hfield, ih hrest]

theorem sanitize_append {sort sort' : List CursorSort} (h : sanitizeCursorSortList sort = .ok sort)
    (h' : sanitizeCursorSortList sort' = .ok sort') :
    sanitizeCursorSortList (sort ++ sort') = .ok (sort ++ sort') := by
  induction sort with
  | nil => exact h'
  | cons entry sort ih =>
    rw [sanitizeCursorSortList, Except.bind_eq_ok] at h
    obtain ⟨field, hfield, h⟩ := h
    rw [Except.bind_eq_ok] at h
    obtain ⟨rest, hrest, h⟩ := h
    cases sanitize_eq_ok hrest
    rw [List.cons_append, sanitizeCursorSortList, hfield, ih hrest, assertSafeFieldPath_eq_ok hfield]
    rfl

/-- The id comes last, unless the sort has it. -/
def withId (planSort : List CursorSort) (idField : Units) : List CursorSort :=
  if planSort.any fun entry => entry.field = idField then planSort else planSort ++ [⟨idField, .asc⟩]

theorem sortWithStableId_eq_ok {planSort sort : List CursorSort} {idField : Units} :
    sortWithStableId planSort idField = .ok sort ↔
      assertSafeFieldPath idField = .ok idField ∧ sanitizeCursorSortList planSort = .ok planSort ∧
        sort = withId planSort idField := by
  rw [sortWithStableId, Except.bind_eq_ok]
  constructor
  · rintro ⟨safeIdField, hid, h⟩
    rw [Except.bind_eq_ok] at h
    obtain ⟨safeSort, hsort, h⟩ := h
    cases assertSafeFieldPath_eq_ok hid
    cases sanitize_eq_ok hsort
    cases h
    exact ⟨hid, hsort, rfl⟩
  · rintro ⟨hid, hsort, rfl⟩
    refine ⟨idField, hid, ?_⟩
    rw [hsort]
    rfl

/-- What `sortWithStableId` returns has the id and is safe. -/
theorem stable_sort {planSort sort : List CursorSort} {idField : Units}
    (h : sortWithStableId planSort idField = .ok sort) :
    sanitizeCursorSortList sort = .ok sort ∧ ∃ entry ∈ sort, entry.field = idField := by
  obtain ⟨hid, hsort, rfl⟩ := sortWithStableId_eq_ok.mp h
  rw [withId]
  split
  · rename_i hany
    obtain ⟨entry, hentry, hfield⟩ := List.any_eq_true.mp hany
    exact ⟨hsort, entry, hentry, of_decide_eq_true hfield⟩
  · refine ⟨sanitize_append hsort ?_, ⟨idField, .asc⟩, ?_, rfl⟩
    · rw [sanitizeCursorSortList, hid]
      rfl
    · exact List.mem_append_right planSort List.mem_cons_self

/-! ## Ids -/

def idValue : EntityIds.EntityId → Value
  | .string value => .string value
  | .number value => .number value

/-- The id of a row is one that a store accepts. -/
structure HasId (idField : Units) (row : Value) (id : EntityIds.EntityId) : Prop where
  field : valueFor row idField = .ok (idValue id)
  safe : EntityIds.assertSafeEntityId id = .ok ()

theorem keyAt_string {idField value : Units} {row : Value}
    (h : valueFor row idField = .ok (.string value)) : keyAt idField row = .string value :=
  keyAt_eq (by rw [h]; rfl)

/-- A safe number is finite, and not `-0`. -/
theorem HasId.number {idField : Units} {row : Value} {value : JsNumber}
    (h : HasId idField row (.number value)) :
    ∃ q, value = .finite q ∧ keyAt idField row = .number (.finite q) rfl := by
  have hsafe := h.safe
  cases value with
  | nan => cases hsafe
  | infinite negative => cases hsafe
  | negativeZero => cases hsafe
  | finite q =>
    refine ⟨q, rfl, keyAt_eq ?_⟩
    rw [h.field]
    rfl

theorem keyAt_ne {idField : Units} {a b : Value} {ida idb : EntityIds.EntityId}
    (ha : HasId idField a ida) (hb : HasId idField b idb) (hne : ida ≠ idb) :
    (keyAt idField a).order (keyAt idField b) ≠ .eq := by
  rw [Ne, ← Comparable.strictEqual_iff]
  cases ida with
  | string x =>
    rw [keyAt_string ha.field]
    cases idb with
    | string y =>
      rw [keyAt_string hb.field, Comparable.strictEqual, decide_eq_true_iff]
      intro h
      exact hne (by rw [h])
    | number y =>
      obtain ⟨q, -, hkey⟩ := hb.number
      rw [hkey]
      exact Bool.false_ne_true
  | number x =>
    obtain ⟨q, rfl, hkey⟩ := ha.number
    rw [hkey]
    cases idb with
    | string y =>
      rw [keyAt_string hb.field]
      exact Bool.false_ne_true
    | number y =>
      obtain ⟨r, rfl, hkey'⟩ := hb.number
      rw [hkey']
      intro h
      have hvalue : q.1 = r.1 := of_decide_eq_true h
      exact hne (by rw [Subtype.ext hvalue])

/-! ## All comparisons together -/

theorem compareRowsBySort_eq {sort : List CursorSort} (hsort : sanitizeCursorSortList sort = .ok sort)
    (a b : Value) : compareRowsBySort a b sort = compareRows a b sort := by
  rw [compareRowsBySort, hsort]
  rfl

theorem compareRowsBySort_sortable {sort : List CursorSort}
    (hsort : sanitizeCursorSortList sort = .ok sort) {a b : Value} (ha : Sortable sort a)
    (hb : Sortable sort b) :
    ∃ order, compareRowsBySort a b sort = .ok order ∧ sign order = rowOrder sort a b := by
  rw [compareRowsBySort_eq hsort]
  exact compareRows_sortable ha hb

/-- `compareRowsBySort` on rows with admissible sort values. -/
structure TotalPreorder (sort : List CursorSort) : Prop where
  returns : ∀ {a b}, Sortable sort a → Sortable sort b →
    ∃ order, compareRowsBySort a b sort = .ok order
  reflexive : ∀ {a}, Sortable sort a → compareRowsBySort a a sort = .ok 0
  antisymmetric : ∀ {a b m n}, Sortable sort a → Sortable sort b →
    compareRowsBySort a b sort = .ok m → compareRowsBySort b a sort = .ok n →
    sign n = (sign m).swap
  transitive : ∀ {a b c l m n}, Sortable sort a → Sortable sort b → Sortable sort c →
    compareRowsBySort a b sort = .ok l → compareRowsBySort b c sort = .ok m →
    compareRowsBySort a c sort = .ok n → l ≤ 0 → m ≤ 0 → n ≤ 0

theorem sign_compareRowsBySort {sort : List CursorSort}
    (hsort : sanitizeCursorSortList sort = .ok sort) {a b : Value} {n : Int} (ha : Sortable sort a)
    (hb : Sortable sort b) (h : compareRowsBySort a b sort = .ok n) : sign n = rowOrder sort a b := by
  obtain ⟨order, horder, hsign⟩ := compareRowsBySort_sortable hsort ha hb
  cases horder.symm.trans h
  exact hsign

theorem totalPreorder_of_safe {sort : List CursorSort}
    (hsort : sanitizeCursorSortList sort = .ok sort) : TotalPreorder sort where
  returns := by
    intro a b ha hb
    obtain ⟨order, horder, -⟩ := compareRowsBySort_sortable hsort ha hb
    exact ⟨order, horder⟩
  reflexive := by
    intro a ha
    obtain ⟨order, horder, hsign⟩ := compareRowsBySort_sortable hsort ha ha
    rw [@Std.ReflCmp.compare_self _ (rowOrder sort), KeyOrder.sign_eq_iff] at hsign
    rw [horder, hsign]
  antisymmetric := by
    intro a b m n ha hb hm hn
    rw [sign_compareRowsBySort hsort ha hb hm, sign_compareRowsBySort hsort hb ha hn]
    exact Std.OrientedCmp.eq_swap
  transitive := by
    intro a b c l m n ha hb hc hl hm hn
    rw [← KeyOrder.isLE_sign, ← KeyOrder.isLE_sign, ← KeyOrder.isLE_sign,
      sign_compareRowsBySort hsort ha hb hl, sign_compareRowsBySort hsort hb hc hm,
      sign_compareRowsBySort hsort ha hc hn]
    exact Std.TransCmp.isLE_trans

theorem rowOrder_ne_eq {sort : List CursorSort} {idField : Units} {a b : Value}
    {ida idb : EntityIds.EntityId} (hfield : ∃ entry ∈ sort, entry.field = idField)
    (ha : HasId idField a ida) (hb : HasId idField b idb) (hne : ida ≠ idb) :
    rowOrder sort a b ≠ .eq := by
  intro h
  obtain ⟨entry, hentry, rfl⟩ := hfield
  exact keyAt_ne ha hb hne (KeyOrder.compareBy_eq_iff.mp h _ (List.mem_map_of_mem hentry))

/-- The values of a row are values of a cursor. -/
theorem sanitizeKeysetCursor_keys {sort : List CursorSort} {keys : List Comparable}
    (hsort : sanitizeCursorSortList sort = .ok sort) (hlength : keys.length = sort.length) :
    sanitizeKeysetCursor ⟨sort, keys.map Comparable.value⟩ =
      .ok ⟨sort, keys.map Comparable.value⟩ := by
  have hsafe : (keys.map Comparable.value).forM assertSafeCursorValue = .ok ⟨⟩ := by
    rw [Except.forM_eq_ok]
    intro value hvalue
    obtain ⟨key, -, rfl⟩ := List.mem_map.mp hvalue
    exact safe_value key
  simp only [sanitizeKeysetCursor, hsort, bind, Except.bind, List.length_map, hlength, ne_eq,
    not_true, if_false, hsafe]

theorem compareRowToCursor_eq {row last : Value} {sort : List CursorSort} {keys : List Comparable}
    (h : cursorValues last sort = .ok keys) :
    compareRowToCursor row ⟨sort, keys.map Comparable.value⟩ = compareRowsBySort row last sort := by
  rw [cursorValues, Except.bind_eq_ok] at h
  obtain ⟨safeSort, hsort, hkeys⟩ := h
  cases sanitize_eq_ok hsort
  have hlength : keys.length = sort.length := by
    rw [(keysOf_eq_ok.mp hkeys).2, List.length_map]
  rw [compareRowToCursor, sanitizeKeysetCursor_keys hsort hlength, compareRowsBySort_eq hsort]
  exact compareToValues_eq hkeys

theorem comparisons_agree :
    (∀ planSort idField sort, sortWithStableId planSort idField = .ok sort →
      TotalPreorder sort ∧
      ∀ a b ida idb order, Sortable sort a → Sortable sort b → HasId idField a ida →
        HasId idField b idb → ida ≠ idb → compareRowsBySort a b sort = .ok order → order ≠ 0) ∧
    (∀ sort prepared, prepareRowSort sort = .ok prepared →
      (∀ row, (∃ keys, prepared.keyFor row = .ok keys) ↔ Sortable sort row) ∧
      ∀ a b left right, prepared.keyFor a = .ok left → prepared.keyFor b = .ok right →
        ∃ order, compareRowsBySort a b sort = .ok order ∧
          sign (prepared.compareKeys left right) = sign order) ∧
    ∀ sort row last values, cursorValues last sort = .ok values →
      compareRowToCursor row ⟨sort, values.map Comparable.value⟩ =
        compareRowsBySort row last sort := by
  refine ⟨?_, ?_, ?_⟩
  · intro planSort idField sort h
    obtain ⟨hsort, hfield⟩ := stable_sort h
    refine ⟨totalPreorder_of_safe hsort, ?_⟩
    intro a b ida idb order ha hb hida hidb hne horder
    rw [Ne, ← KeyOrder.sign_eq_iff, sign_compareRowsBySort hsort ha hb horder]
    exact rowOrder_ne_eq hfield hida hidb hne
  · intro sort prepared h
    rw [prepareRowSort, Except.bind_eq_ok] at h
    obtain ⟨safeSort, hsort, h⟩ := h
    cases h
    cases sanitize_eq_ok hsort
    refine ⟨fun row => ?_, ?_⟩
    · constructor
      · rintro ⟨keys, hkeys⟩
        exact (keysOf_eq_ok.mp hkeys).1
      · intro hrow
        exact ⟨_, keysOf_eq_ok.mpr ⟨hrow, rfl⟩⟩
    · intro a b left right hleft hright
      obtain ⟨ha, rfl⟩ := keysOf_eq_ok.mp hleft
      obtain ⟨hb, rfl⟩ := keysOf_eq_ok.mp hright
      obtain ⟨order, horder, hsign⟩ := compareRowsBySort_sortable hsort ha hb
      exact ⟨order, horder, (sign_compareSortKeys sort a b).trans hsign.symm⟩
  · intro sort row last values h
    exact compareRowToCursor_eq h

end ActiveTs.Query.Cursors
