import Mathlib.Data.List.Induction
import Mathlib.Data.List.ReduceOption
import ActiveTs.Sql.PostgresStatements

/-! # String order keys of the PostgreSQL adapter

Collation `C` orders code points, JavaScript orders code units. The key of a text moves supplementary
characters between U+D7FF and U+E000 and doubles U+D7FF, so that keys are in the order of the texts and
can be read back. Native `min` and `max` of a string field are taken over keys. -/

namespace ActiveTs.Sql.Postgres

/-! ## The order of keys -/

/-- One character of `postgresStringOrderKey`. -/
def orderKeyChar (c : Char) : Text :=
  if c = Char.ofNat 0xD7FF then [c, c]
  else if 0x10000 ≤ c.toNat then [Char.ofNat 0xD7FF, Char.ofNat 0xE000, c]
  else [c]

theorem postgresStringOrderKey_eq (text : Text) :
    postgresStringOrderKey text = text.flatMap orderKeyChar := by
  rw [postgresStringOrderKey, List.flatMap_assoc]
  apply List.flatMap_congr
  intro c _
  by_cases hescape : c = Char.ofNat 0xD7FF
  · subst hescape
    decide
  · rw [if_neg hescape, orderKeyChar, if_neg hescape, List.flatMap_singleton]

instance : Std.OrientedCmp compareCodePoint where
  eq_swap {a b} := Std.OrientedCmp.eq_swap (a := a.toNat) (b := b.toNat)

instance : Std.LawfulEqCmp compareCodePoint where
  compare_self := Nat.compare_eq_eq.mpr rfl
  eq_of_compare h := Char.toNat_inj.mp (Nat.compare_eq_eq.mp h)

theorem orderKeyChar_cases (c : Char) :
    c.toNat = 0xD7FF ∧ orderKeyChar c = [Char.ofNat 0xD7FF, Char.ofNat 0xD7FF] ∨
      0x10000 ≤ c.toNat ∧ orderKeyChar c = [Char.ofNat 0xD7FF, Char.ofNat 0xE000, c] ∨
      c.toNat ≠ 0xD7FF ∧ c.toNat < 0x10000 ∧ orderKeyChar c = [c] := by
  have hlast : (Char.ofNat 0xD7FF).toNat = 0xD7FF := by decide
  by_cases hescape : c = Char.ofNat 0xD7FF
  · subst hescape
    exact Or.inl ⟨hlast, rfl⟩
  · have hne : c.toNat ≠ 0xD7FF := fun heq => hescape (Char.toNat_inj.mp (heq.trans hlast.symm))
    by_cases hlarge : 0x10000 ≤ c.toNat
    · refine Or.inr (Or.inl ⟨hlarge, ?_⟩)
      rw [orderKeyChar, if_neg hescape, if_pos hlarge]
    · refine Or.inr (Or.inr ⟨hne, Nat.not_le.mp hlarge, ?_⟩)
      rw [orderKeyChar, if_neg hescape, if_neg hlarge]

/-- Supplementary characters stand between U+D7FF and U+E000, as their surrogates do. -/
theorem orderKeyChar_order : OrderEncoding Utf16.compareChar compareCodePoint orderKeyChar := by
  have hfirst {x y : Char} (hxy : x.toNat < y.toNat) (xs ys : List Char) :
      List.compareLex compareCodePoint (x :: xs) (y :: ys) = .lt := by
    have hcompare : compareCodePoint x y = .lt := Nat.compare_eq_lt.mpr hxy
    rw [List.compareLex_cons_cons, hcompare, Ordering.lt_then]
  have hsame (x : Char) (xs ys : List Char) :
      List.compareLex compareCodePoint (x :: xs) (x :: ys) =
        List.compareLex compareCodePoint xs ys := List.compareLex_append_same [x] xs ys
  have hlast : (Char.ofNat 0xD7FF).toNat = 0xD7FF := by decide
  have hnext : (Char.ofNat 0xE000).toNat = 0xE000 := by decide
  apply OrderEncoding.of_lt
  · intro c
    rcases orderKeyChar_cases c with ⟨-, hkey⟩ | ⟨-, hkey⟩ | ⟨-, -, hkey⟩ <;>
      rw [hkey] <;> exact List.cons_ne_nil _ _
  · intro a b h xs ys
    have hranks : Utf16.rank a < Utf16.rank b := Nat.compare_eq_lt.mp h
    have ha := Utf16.rank_cases a
    have hb := Utf16.rank_cases b
    rcases orderKeyChar_cases a with ⟨hescapeA, hkeyA⟩ | ⟨hlargeA, hkeyA⟩ | ⟨hneA, hsmallA, hkeyA⟩ <;>
      rcases orderKeyChar_cases b with ⟨hescapeB, hkeyB⟩ | ⟨hlargeB, hkeyB⟩ | ⟨hneB, hsmallB, hkeyB⟩ <;>
      rw [hkeyA, hkeyB]
    · omega
    · simp only [List.cons_append, hsame]
      apply hfirst
      rw [hlast, hnext]
      omega
    · apply hfirst
      rw [hlast]
      omega
    · omega
    · simp only [List.cons_append, hsame]
      apply hfirst
      omega
    · apply hfirst
      rw [hlast]
      omega
    · apply hfirst
      rw [hlast]
      omega
    · apply hfirst
      rw [hlast]
      omega
    · apply hfirst
      omega

theorem compareCodePoints_orderKey (a b : Text) :
    compareCodePoints (postgresStringOrderKey a) (postgresStringOrderKey b) =
      compareText (Utf16.encode a) (Utf16.encode b) := by
  rw [compareText, Utf16.compareLex_encode, compareCodePoints, postgresStringOrderKey_eq,
    postgresStringOrderKey_eq]
  exact orderKeyChar_order.compareLex_flatMap a b

instance : Std.TransCmp compareCodePoint where
  isLE_trans {a b c} := Std.TransCmp.isLE_trans (a := a.toNat) (b := b.toNat) (c := c.toNat)

instance : Std.TransCmp compareCodePoints :=
  inferInstanceAs (Std.TransCmp (List.compareLex compareCodePoint))

/-! ## Reading keys back -/

/-- `/\uD7FF(\uD7FF|\uE000([\u{10000}-\u{10FFFF}]))/gu`, each match replaced by what stands for it. -/
def decodeOrderKey : Text → Text
  | a :: b :: c :: rest =>
    if a = Char.ofNat 0xD7FF ∧ b = Char.ofNat 0xD7FF then b :: decodeOrderKey (c :: rest)
    else if a = Char.ofNat 0xD7FF ∧ b = Char.ofNat 0xE000 ∧ 0x10000 ≤ c.toNat then
      c :: decodeOrderKey rest
    else a :: decodeOrderKey (b :: c :: rest)
  | [a, b] => if a = Char.ofNat 0xD7FF ∧ b = Char.ofNat 0xD7FF then [b] else [a, b]
  | text => text

theorem decodeOrderKey_doubled (rest : Text) :
    decodeOrderKey (Char.ofNat 0xD7FF :: Char.ofNat 0xD7FF :: rest) =
      Char.ofNat 0xD7FF :: decodeOrderKey rest := by
  cases rest with
  | nil => rfl
  | cons c rest => rw [decodeOrderKey, if_pos ⟨rfl, rfl⟩]

theorem decodeOrderKey_supplementary {c : Char} (hc : 0x10000 ≤ c.toNat) (rest : Text) :
    decodeOrderKey (Char.ofNat 0xD7FF :: Char.ofNat 0xE000 :: c :: rest) =
      c :: decodeOrderKey rest := by
  have hne : ¬(Char.ofNat 0xD7FF = Char.ofNat 0xD7FF ∧ Char.ofNat 0xE000 = Char.ofNat 0xD7FF) :=
    fun h => absurd h.2 (by decide)
  rw [decodeOrderKey, if_neg hne, if_pos ⟨rfl, rfl, hc⟩]

theorem decodeOrderKey_plain {c : Char} (hc : c ≠ Char.ofNat 0xD7FF) (rest : Text) :
    decodeOrderKey (c :: rest) = c :: decodeOrderKey rest := by
  cases rest with
  | nil => rfl
  | cons d rest =>
    cases rest with
    | nil => rw [decodeOrderKey, if_neg fun h => hc h.1]; rfl
    | cons e rest => rw [decodeOrderKey, if_neg fun h => hc h.1, if_neg fun h => hc h.1]

/-- A key that looks like an escape sequence is one, wherever it stands. -/
theorem decodeOrderKey_key (text : Text) : decodeOrderKey (postgresStringOrderKey text) = text := by
  rw [postgresStringOrderKey_eq]
  induction text with
  | nil => rfl
  | cons c text ih =>
    rw [List.flatMap_cons]
    rcases orderKeyChar_cases c with ⟨hescape, hkey⟩ | ⟨hlarge, hkey⟩ | ⟨hne, -, hkey⟩
    · have hc : c = Char.ofNat 0xD7FF := Char.toNat_inj.mp hescape
      rw [hkey, hc]
      exact (decodeOrderKey_doubled _).trans (congrArg _ ih)
    · rw [hkey]
      exact (decodeOrderKey_supplementary hlarge _).trans (congrArg _ ih)
    · have hc : c ≠ Char.ofNat 0xD7FF := by
        rintro rfl
        exact hne rfl
      rw [hkey, List.singleton_append, decodeOrderKey_plain hc, ih]

/-! ## Native aggregates -/

/-- The operation of an aggregate spec. -/
inductive Extreme
  | min
  | max

namespace Extreme

/-- How a value compares with the best one so far to take its place. -/
def better : Extreme → Ordering
  | min => .lt
  | max => .gt

/-- How the result compares with every value. -/
def admits : Extreme → Ordering → Bool
  | min, order => order.isLE
  | max, order => order.isGE

end Extreme

/-- `typedJsonFieldParam` of a string field: the cast in the last branch fails. -/
def typedJsonField (path : List String) (document : Document) : Except PostgresError (Option Text) :=
  match lookup path document with
  | none | some .null => .ok none
  | some (.string value) => .ok (some value)
  | some _ => .error .invalidCast

def pick (op : Extreme) (best : Option Text) (value : Text) : Option Text :=
  match best with
  | none => some value
  | some current => if compareCodePoints value current = op.better then some value else best

/-- `min` and `max` of PostgreSQL, which skip nulls. -/
def extreme (op : Extreme) (values : List (Option Text)) : Option Text :=
  values.reduceOption.foldl (pick op) none

/-- The result of a spec on a string field. -/
def decodeResult : Option Text → Scalar JsString
  | none => .null
  | some key => .string (Utf16.encode (decodeOrderKey key))

/-- A `min` or `max` spec of `adapter.aggregate` on a string field, over the documents that the
statement selects. -/
def aggregate (op : Extreme) (path : List String) (documents : List Document) :
    Except PostgresError (Scalar JsString) := do
  let values ← documents.mapM (typedJsonField path)
  .ok (decodeResult (extreme op (values.map (Option.map postgresStringOrderKey))))

/-- `best` is the extreme of the values seen so far. -/
def Best (op : Extreme) (cmp : α → α → Ordering) (seen : List α) (best : Option α) : Prop :=
  best = none ∧ seen = [] ∨
    ∃ v ∈ seen, best = some v ∧ ∀ w ∈ seen, op.admits (cmp v w) = true

namespace Extreme

variable {α : Type} {cmp : α → α → Ordering} [Std.TransCmp cmp]

theorem admits_self (op : Extreme) (a : α) : op.admits (cmp a a) = true := by
  have hself : cmp a a = .eq := Std.ReflCmp.compare_self
  rw [hself]
  cases op <;> rfl

omit [Std.TransCmp cmp] in
theorem admits_of_better (op : Extreme) {a b : α} (h : cmp a b = op.better) :
    op.admits (cmp a b) = true := by
  rw [h]
  cases op <;> rfl

theorem admits_of_not_better (op : Extreme) {a b : α} (h : cmp a b ≠ op.better) :
    op.admits (cmp b a) = true := by
  rw [@Std.OrientedCmp.eq_swap _ cmp _ b a]
  cases op <;> cases hcmp : cmp a b <;> first | rfl | exact absurd hcmp h

theorem admits_trans (op : Extreme) {a b c : α} (hab : op.admits (cmp a b) = true)
    (hbc : op.admits (cmp b c) = true) : op.admits (cmp a c) = true := by
  cases op with
  | min => exact Std.TransCmp.isLE_trans hab hbc
  | max => exact Std.TransCmp.isGE_trans hab hbc

end Extreme

theorem best_pick {op : Extreme} {seen : List Text} {best : Option Text}
    (h : Best op compareCodePoints seen best) (value : Text) :
    Best op compareCodePoints (seen ++ [value]) (pick op best value) := by
  have hself : op.admits (compareCodePoints value value) = true := op.admits_self value
  rcases h with ⟨rfl, rfl⟩ | ⟨v, hv, rfl, hbest⟩
  · refine Or.inr ⟨value, List.mem_singleton_self _, rfl, fun w hw => ?_⟩
    rw [List.mem_singleton.mp hw]
    exact hself
  · rw [pick]
    split
    · next hbetter =>
      refine Or.inr ⟨value, List.mem_append_right _ (List.mem_singleton_self _), rfl, fun w hw => ?_⟩
      rcases List.mem_append.mp hw with hw | hw
      · exact op.admits_trans (op.admits_of_better hbetter) (hbest w hw)
      · rw [List.mem_singleton.mp hw]
        exact hself
    · next hbetter =>
      refine Or.inr ⟨v, List.mem_append_left _ hv, rfl, fun w hw => ?_⟩
      rcases List.mem_append.mp hw with hw | hw
      · exact hbest w hw
      · rw [List.mem_singleton.mp hw]
        exact op.admits_of_not_better hbetter

theorem best_extreme (op : Extreme) (values : List (Option Text)) :
    Best op compareCodePoints values.reduceOption (extreme op values) := by
  rw [extreme]
  induction values.reduceOption using List.reverseRecOn with
  | nil => exact Or.inl ⟨rfl, rfl⟩
  | append_singleton seen value ih =>
    rw [List.foldl_append]
    exact best_pick ih value

/-- What a document has at a string field: a string, or nothing. -/
inductive FieldValue : Option Document → Option Text → Prop
  | missing : FieldValue none none
  | null : FieldValue (some .null) none
  | string (value : Text) : FieldValue (some (.string value)) (some value)

/-- The result of `min` or `max` over values in the order of `compareValues`, null where there are
none. -/
def IsExtreme (op : Extreme) (values : List Text) (result : Scalar JsString) : Prop :=
  result = .null ∧ values = [] ∨
    ∃ v ∈ values, result = .string (Utf16.encode v) ∧ ∀ w ∈ values,
      op.admits (compareValues (.string (Utf16.encode v)) (.string (Utf16.encode w))) = true

theorem typedJsonField_of_fieldValue {path : List String} {document : Document} {value : Option Text}
    (h : FieldValue (lookup path document) value) : typedJsonField path document = .ok value := by
  rw [typedJsonField]
  cases hlookup : lookup path document with
  | none =>
    rw [hlookup] at h
    cases h
    rfl
  | some found =>
    rw [hlookup] at h
    cases h <;> rfl

theorem typedJsonField_error {path : List String} {document : Document}
    (h : ∀ value, ¬FieldValue (lookup path document) value) :
    typedJsonField path document = .error .invalidCast := by
  rw [typedJsonField]
  cases hlookup : lookup path document with
  | none =>
    rw [hlookup] at h
    exact absurd .missing (h none)
  | some found =>
    rw [hlookup] at h
    cases found with
    | null => exact absurd .null (h none)
    | string value => exact absurd (.string value) (h (some value))
    | bool _ => rfl
    | integer _ => rfl
    | real _ => rfl
    | array _ => rfl
    | object _ => rfl

theorem mapM_typedJsonField {path : List String} {documents : List Document}
    {values : List (Option Text)}
    (h : List.Forall₂ (fun document value => FieldValue (lookup path document) value) documents
      values) :
    documents.mapM (typedJsonField path) = .ok values := by
  induction h with
  | nil => rfl
  | cons hvalue _ ih =>
    rw [List.mapM_cons, typedJsonField_of_fieldValue hvalue, ih]
    rfl

theorem typedJsonField_cases (path : List String) (document : Document) :
    (∃ value, typedJsonField path document = .ok value) ∨
      typedJsonField path document = .error .invalidCast := by
  by_cases h : ∃ value, FieldValue (lookup path document) value
  · obtain ⟨value, h⟩ := h
    exact Or.inl ⟨value, typedJsonField_of_fieldValue h⟩
  · exact Or.inr (typedJsonField_error fun value hvalue => h ⟨value, hvalue⟩)

theorem mapM_typedJsonField_error {path : List String} {documents : List Document}
    {document : Document} (hdocument : document ∈ documents)
    (hother : ∀ value, ¬FieldValue (lookup path document) value) :
    documents.mapM (typedJsonField path) = .error .invalidCast := by
  induction documents with
  | nil => cases hdocument
  | cons first rest ih =>
    rw [List.mapM_cons]
    rcases List.mem_cons.mp hdocument with rfl | hrest
    · rw [typedJsonField_error hother]
      rfl
    · rcases typedJsonField_cases path first with ⟨value, hvalue⟩ | herror
      · rw [hvalue, ih hrest]
        rfl
      · rw [herror]
        rfl

theorem isExtreme_aggregate (op : Extreme) {path : List String} {documents : List Document}
    {values : List (Option Text)}
    (h : List.Forall₂ (fun document value => FieldValue (lookup path document) value) documents
      values) :
    ∃ result, aggregate op path documents = .ok result ∧
      IsExtreme op values.reduceOption result := by
  have hkeys : (values.map (Option.map postgresStringOrderKey)).reduceOption =
      values.reduceOption.map postgresStringOrderKey := List.reduceOption_map
  have hbest := best_extreme op (values.map (Option.map postgresStringOrderKey))
  rw [hkeys] at hbest
  have haggregate : aggregate op path documents =
      .ok (decodeResult (extreme op (values.map (Option.map postgresStringOrderKey)))) := by
    rw [aggregate, mapM_typedJsonField h]
    rfl
  refine ⟨_, haggregate, ?_⟩
  rcases hbest with ⟨hnone, hempty⟩ | ⟨key, hkey, hsome, hadmits⟩
  · rw [hnone]
    exact Or.inl ⟨rfl, List.map_eq_nil_iff.mp hempty⟩
  · obtain ⟨v, hv, rfl⟩ := List.mem_map.mp hkey
    rw [hsome, decodeResult, decodeOrderKey_key]
    refine Or.inr ⟨v, hv, rfl, fun w hw => ?_⟩
    have hw := hadmits _ (List.mem_map_of_mem hw)
    rw [compareCodePoints_orderKey] at hw
    exact hw

/-- Keys are in the order of the texts as JavaScript has them, the replacement reads them back, and
native `min` and `max` are the least and the greatest of the values. A document with a value of another
type makes the statement fail. -/
theorem order_keys_embed :
    (∀ a b : Text, compareCodePoints (postgresStringOrderKey a) (postgresStringOrderKey b) = .lt ↔
      compareText (Utf16.encode a) (Utf16.encode b) = .lt) ∧
    (∀ a : Text, decodeOrderKey (postgresStringOrderKey a) = a) ∧
    ∀ (op : Extreme) (path : List String) (documents : List Document),
      (∀ values, List.Forall₂ (fun document value => FieldValue (lookup path document) value)
          documents values →
        ∃ result, aggregate op path documents = .ok result ∧
          IsExtreme op values.reduceOption result) ∧
      ((∃ document ∈ documents, ∀ value, ¬FieldValue (lookup path document) value) →
        aggregate op path documents = .error .invalidCast) := by
  refine ⟨fun a b => ?_, decodeOrderKey_key, fun op path documents => ⟨fun values h => ?_, ?_⟩⟩
  · rw [compareCodePoints_orderKey]
  · exact isExtreme_aggregate op h
  · rintro ⟨document, hdocument, hother⟩
    rw [aggregate, mapM_typedJsonField_error hdocument hother]
    rfl

end ActiveTs.Sql.Postgres
