import ActiveTs.Lib.Except
import ActiveTs.Lib.Framing
import ActiveTs.Lib.JsDate
import ActiveTs.Lib.JsNumber
import Mathlib.Data.List.Lex
import Mathlib.Data.List.Sort

/-! # Keys of function inputs

Without a key resolver a cached function is keyed by a text of its input. Every value is written with
a tag of its kind, texts behind their length, and the properties of an object in the order of their
names; so a text determines the input up to that order. -/

namespace ActiveTs.FunctionCache

open Utf16 (Units ofString encode)
open Framing (Ends Apart Starts joinTexts)

/-! ## Inputs -/

inductive Input
  | null
  | string (value : Units)
  | number (value : JsNumber)
  | boolean (value : Bool)
  | bigint (value : Int)
  /-- `none` is an invalid date. -/
  | date (time : Option JsDate.Time)
  | array (items : List Input)
  | object (properties : List (Units × Input))
  /-- `undefined`, symbols, functions, and arrays and objects that are not plain. -/
  | other

namespace Input

/-- Induction with the hypothesis for every item and every property. -/
@[elab_as_elim, induction_eliminator]
theorem induction {motive : Input → Prop} (null : motive null) (string : ∀ value, motive (string value))
    (number : ∀ value, motive (number value)) (boolean : ∀ value, motive (boolean value))
    (bigint : ∀ value, motive (bigint value)) (date : ∀ time, motive (date time))
    (array : ∀ items, (∀ item ∈ items, motive item) → motive (array items))
    (object : ∀ properties, (∀ property ∈ properties, motive property.2) → motive (object properties))
    (other : motive other) : ∀ input, motive input := by
  intro input
  refine @Input.rec motive (fun items => ∀ item ∈ items, motive item)
    (fun properties => ∀ property ∈ properties, motive property.2)
    (fun property => motive property.2) null string number boolean bigint date array object other
    ?_ ?_ ?_ ?_ ?_ input
  · exact fun item hitem => absurd hitem List.not_mem_nil
  · exact fun item items hitem hitems => List.forall_mem_cons.mpr ⟨hitem, hitems⟩
  · exact fun property hproperty => absurd hproperty List.not_mem_nil
  · exact fun property properties hproperty hproperties =>
      List.forall_mem_cons.mpr ⟨hproperty, hproperties⟩
  · exact fun name value hvalue => hvalue

/-- The names of the properties of an object are different. -/
inductive WellFormed : Input → Prop
  | null : WellFormed null
  | string (value : Units) : WellFormed (string value)
  | number (value : JsNumber) : WellFormed (number value)
  | boolean (value : Bool) : WellFormed (boolean value)
  | bigint (value : Int) : WellFormed (bigint value)
  | date (time : Option JsDate.Time) : WellFormed (date time)
  | array {items : List Input} : (∀ item ∈ items, WellFormed item) → WellFormed (array items)
  | object {properties : List (Units × Input)} : (properties.map Prod.fst).Nodup →
    (∀ property ∈ properties, WellFormed property.2) → WellFormed (object properties)
  | other : WellFormed other

/-- Equality up to the order of properties. -/
inductive Same : Input → Input → Prop
  | null : Same null null
  | string (value : Units) : Same (string value) (string value)
  | number (value : JsNumber) : Same (number value) (number value)
  | boolean (value : Bool) : Same (boolean value) (boolean value)
  | bigint (value : Int) : Same (bigint value) (bigint value)
  | date (time : Option JsDate.Time) : Same (date time) (date time)
  | array {items items' : List Input} : List.Forall₂ Same items items' →
    Same (array items) (array items')
  | object {properties properties' : List (Units × Input)} :
    (properties.map Prod.fst).Perm (properties'.map Prod.fst) →
    (∀ name value value', (name, value) ∈ properties → (name, value') ∈ properties' →
      Same value value') → Same (object properties) (object properties')

end Input

/-! ## Texts -/

inductive KeyError
  /-- "Function cache default keys only support JSON-like inputs." -/
  | notJsonLike
  deriving DecidableEq

def stableStringComponent (value : Units) : Units :=
  Utf16.decimal value.length ++ ofString ":" ++ value

/-- The text of a number, which `String` would not tell from `0` where it is `-0`. -/
def numberText : JsNumber → Except KeyError Units
  | .finite value => .ok (encode (JsNumber.text (.finite value)))
  | .negativeZero => .ok (ofString "-0")
  | .nan | .infinite _ => .error .notJsonLike

def insertSortedString : List Units → Units → List Units
  | [], value => [value]
  | first :: values, value =>
    if first < value then first :: insertSortedString values value else value :: first :: values

def sortedStableInputPropertyNames (names : List Units) : List Units :=
  names.foldl insertSortedString []

def comma : Fin 65536 := 44

def entryText (texts : List (Units × Units)) (name : Units) : Units :=
  stableStringComponent name ++ ofString ":" ++ (texts.lookup name).getD []

mutual

def stableStringify : Input → Except KeyError Units
  | .null => .ok (ofString "null")
  | .string value => .ok (ofString "string:" ++ stableStringComponent value)
  | .number value => do .ok (ofString "number:" ++ (← numberText value))
  | .boolean value => .ok (ofString "boolean:" ++ ofString (toString value))
  | .bigint value => .ok (ofString "bigint:" ++ ofString (toString value))
  | .date time =>
    match time with
    | some time => .ok (ofString "date:" ++ encode (JsDate.isoString time))
    | none => .error .notJsonLike
  | .array items => do
    let texts ← stringifyItems items
    .ok (ofString "array:[" ++ joinTexts comma texts ++ ofString "]")
  | .object properties => do
    -- the names are sorted before their values are read
    let texts ← stringifyProperties properties
    let names := sortedStableInputPropertyNames (properties.map Prod.fst)
    .ok (ofString "object:\x7b" ++ joinTexts comma (names.map (entryText texts)) ++ ofString "\x7d")
  | .other => .error .notJsonLike

def stringifyItems : List Input → Except KeyError (List Units)
  | [] => .ok []
  | item :: items => do .ok ((← stableStringify item) :: (← stringifyItems items))

def stringifyProperties : List (Units × Input) → Except KeyError (List (Units × Units))
  | [] => .ok []
  | (name, value) :: properties => do
    let text ← stableStringify value
    .ok ((name, text) :: (← stringifyProperties properties))

end

/-! ## Sorted names -/

theorem insertSortedString_eq (values : List Units) (value : Units) :
    insertSortedString values value = values.orderedInsert (· ≤ ·) value := by
  induction values with
  | nil => rfl
  | cons first values ih =>
    rw [insertSortedString, List.orderedInsert_cons, ih]
    by_cases h : value ≤ first
    · rw [if_pos h, if_neg (not_lt.mpr h)]
    · rw [if_neg h, if_pos (not_le.mp h)]

theorem foldl_insert {names sorted : List Units} (hsorted : sorted.Pairwise (· ≤ ·)) :
    (names.foldl insertSortedString sorted).Perm (sorted ++ names) ∧
      (names.foldl insertSortedString sorted).Pairwise (· ≤ ·) := by
  induction names generalizing sorted with
  | nil => exact ⟨by rw [List.append_nil]; rfl, hsorted⟩
  | cons name names ih =>
    have hinsert : (insertSortedString sorted name).Pairwise (· ≤ ·) := by
      rw [insertSortedString_eq]
      exact hsorted.orderedInsert name
    obtain ⟨hperm, hpairwise⟩ := ih hinsert
    refine ⟨hperm.trans ?_, hpairwise⟩
    rw [insertSortedString_eq]
    exact ((List.perm_orderedInsert (· ≤ ·) name sorted).append_right names).trans
      List.perm_middle.symm

theorem sortedNames_perm (names : List Units) :
    (sortedStableInputPropertyNames names).Perm names :=
  (foldl_insert List.Pairwise.nil).1

theorem sortedNames_congr {names names' : List Units} (h : names.Perm names') :
    sortedStableInputPropertyNames names = sortedStableInputPropertyNames names' := by
  have hperm := (sortedNames_perm names).trans (h.trans (sortedNames_perm names').symm)
  exact hperm.eq_of_pairwise (fun a b _ _ hab hba => le_antisymm hab hba)
    (foldl_insert List.Pairwise.nil).2 (foldl_insert List.Pairwise.nil).2

/-! ## Texts of items and properties -/

theorem stringifyItems_ok {items : List Input} {texts : List Units}
    (h : stringifyItems items = .ok texts) :
    List.Forall₂ (fun item text => stableStringify item = .ok text) items texts := by
  induction items generalizing texts with
  | nil =>
    cases h
    exact .nil
  | cons item items ih =>
    rw [stringifyItems] at h
    obtain ⟨text, htext, hrest⟩ := Except.bind_eq_ok.mp h
    obtain ⟨rest, hitems, hresult⟩ := Except.bind_eq_ok.mp hrest
    cases hresult
    exact .cons htext (ih hitems)

theorem stringifyProperties_ok {properties : List (Units × Input)} {texts : List (Units × Units)}
    (h : stringifyProperties properties = .ok texts) :
    List.Forall₂ (fun property text => property.1 = text.1 ∧ stableStringify property.2 = .ok text.2)
      properties texts := by
  induction properties generalizing texts with
  | nil =>
    cases h
    exact .nil
  | cons property properties ih =>
    rw [stringifyProperties] at h
    obtain ⟨text, htext, hrest⟩ := Except.bind_eq_ok.mp h
    obtain ⟨rest, hproperties, hresult⟩ := Except.bind_eq_ok.mp hrest
    cases hresult
    exact .cons ⟨rfl, htext⟩ (ih hproperties)

/-- The text of a property is that of its value. -/
theorem lookup_text {properties : List (Units × Input)} {texts : List (Units × Units)}
    (hnodup : (properties.map Prod.fst).Nodup)
    (htexts : List.Forall₂ (fun property text =>
      property.1 = text.1 ∧ stableStringify property.2 = .ok text.2) properties texts)
    {name : Units} {value : Input} (hmem : (name, value) ∈ properties) :
    ∃ text, texts.lookup name = some text ∧ stableStringify value = .ok text := by
  induction htexts with
  | nil => cases hmem
  | @cons property text properties texts hfirst hrest ih =>
    rw [List.map_cons, List.nodup_cons] at hnodup
    rcases List.mem_cons.mp hmem with rfl | hmem
    · exact ⟨text.2, by rw [List.lookup_cons, ← hfirst.1]; simp, hfirst.2⟩
    · obtain ⟨found, hlookup, hfound⟩ := ih hnodup.2 hmem
      have hne : (name == text.1) = false := by
        rw [beq_eq_false_iff_ne, ← hfirst.1]
        rintro rfl
        exact hnodup.1 (List.mem_map.mpr ⟨_, hmem, rfl⟩)
      exact ⟨found, by rw [List.lookup_cons, hne]; exact hlookup, hfound⟩

theorem exists_of_mem_names {properties : List (Units × Input)} {name : Units}
    (h : name ∈ properties.map Prod.fst) : ∃ value, (name, value) ∈ properties := by
  obtain ⟨property, hmem, rfl⟩ := List.mem_map.mp h
  exact ⟨property.2, hmem⟩

/-! ## Delimiters -/

/-- What stands behind the text of an item or a property. -/
def delimiter (unit : Fin 65536) : Prop := unit = comma ∨ unit = 93 ∨ unit = 125

instance (unit : Fin 65536) : Decidable (delimiter unit) :=
  inferInstanceAs (Decidable (unit = comma ∨ unit = 93 ∨ unit = 125))

theorem encode_free {text : List Char} (h : ∀ c ∈ text, c ≠ ',' ∧ c ≠ ']' ∧ c ≠ Char.ofNat 125) :
    ∀ unit ∈ encode text, ¬ delimiter unit := by
  rintro unit hunit (rfl | rfl | rfl)
  · exact (h _ (Utf16.char_of_mem_encode hunit (by decide))).1 rfl
  · exact (h _ (Utf16.char_of_mem_encode hunit (by decide))).2.1 rfl
  · exact (h _ (Utf16.char_of_mem_encode hunit (by decide))).2.2 rfl

theorem component_append (value rest : Units) :
    stableStringComponent value ++ rest = Utf16.decimal value.length ++ 58 :: (value ++ rest) := by
  rw [stableStringComponent, List.append_assoc, List.append_assoc]
  rfl

/-- A component says where it ends. -/
theorem component_inj {a b x y : Units}
    (h : stableStringComponent a ++ x = stableStringComponent b ++ y) : a = b ∧ x = y := by
  rw [component_append, component_append] at h
  refine Framing.length_append_inj (fun m n => Utf16.decimal_inj) ?_ h
  rintro n unit hunit rfl
  exact absurd (Utf16.decimal_digits hunit).2 (by decide)

theorem component_starts (value rest : Units) :
    Starts delimiter (stableStringComponent value ++ rest) := by
  obtain ⟨unit, units, hdecimal⟩ := Utf16.decimal_cons value.length
  have hunit := @Utf16.decimal_digits value.length unit (hdecimal ▸ List.mem_cons_self)
  rw [component_append, hdecimal]
  refine ⟨unit, _, rfl, ?_⟩
  rintro (rfl | rfl | rfl)
  all_goals
    revert hunit
    decide

/-! ## Kinds -/

inductive Kind
  | null
  | string
  | number
  | boolean
  | bigint
  | date
  | array
  | object
  | other
  deriving DecidableEq

def Kind.tag : Kind → Units
  | null => ofString "null"
  | string => ofString "string:"
  | number => ofString "number:"
  | boolean => ofString "boolean:"
  | bigint => ofString "bigint:"
  | date => ofString "date:"
  | array => ofString "array:["
  | object => ofString "object:\x7b"
  | other => ofString "?other"

def Input.kind : Input → Kind
  | null => .null
  | string _ => .string
  | number _ => .number
  | boolean _ => .boolean
  | bigint _ => .bigint
  | date _ => .date
  | array _ => .array
  | object _ => .object
  | other => .other

/-- Three units tell the kinds. -/
theorem tag_inj {k l : Kind} {x y : Units} (h : k.tag ++ x = l.tag ++ y) : k = l := by
  have hlength : ∀ k : Kind, 3 ≤ k.tag.length := by
    intro k
    cases k <;> decide
  have htake := congrArg (List.take 3) h
  rw [List.take_append_of_le_length (hlength k), List.take_append_of_le_length (hlength l)] at htake
  revert htake
  cases k <;> cases l <;> decide

theorem starts_tag (k : Kind) (rest : Units) : Starts delimiter (k.tag ++ rest) := by
  cases k <;> exact ⟨_, _, rfl, by decide⟩

theorem stringify_tag {input : Input} {text : Units} (h : stableStringify input = .ok text) :
    ∃ body, text = input.kind.tag ++ body := by
  cases input with
  | null =>
    cases h
    exact ⟨[], rfl⟩
  | string value =>
    cases h
    exact ⟨_, rfl⟩
  | number value =>
    rw [stableStringify] at h
    obtain ⟨body, _, hresult⟩ := Except.bind_eq_ok.mp h
    cases hresult
    exact ⟨_, rfl⟩
  | boolean value =>
    cases h
    exact ⟨_, rfl⟩
  | bigint value =>
    cases h
    exact ⟨_, rfl⟩
  | date time =>
    cases time with
    | none => cases h
    | some time =>
      cases h
      exact ⟨_, rfl⟩
  | array items =>
    rw [stableStringify] at h
    obtain ⟨texts, _, hresult⟩ := Except.bind_eq_ok.mp h
    cases hresult
    exact ⟨_, List.append_assoc _ _ _⟩
  | object properties =>
    rw [stableStringify] at h
    obtain ⟨texts, _, hresult⟩ := Except.bind_eq_ok.mp h
    cases hresult
    exact ⟨_, List.append_assoc _ _ _⟩
  | other => cases h

theorem stringify_starts {input : Input} {text : Units} (h : stableStringify input = .ok text) :
    Starts delimiter text := by
  obtain ⟨body, rfl⟩ := stringify_tag h
  exact starts_tag _ _

/-! ## Texts of scalars -/

theorem numberText_free {x : JsNumber} {text : Units} (h : numberText x = .ok text) :
    ∀ unit ∈ text, ¬ delimiter unit := by
  have hchars {chars : List Char} (hall : ∀ c ∈ chars, JsNumber.numberChar c = true) :
      ∀ unit ∈ encode chars, ¬ delimiter unit := by
    apply encode_free
    intro c hc
    have hchar := hall c hc
    refine ⟨?_, ?_, ?_⟩
    all_goals
      rintro rfl
      cases hchar
  cases x with
  | nan => cases h
  | infinite => cases h
  | negativeZero =>
    cases h
    exact hchars (List.all_eq_true.mp rfl)
  | finite value =>
    cases h
    exact hchars (JsNumber.text_numberChars value)

/-- `-0` is the text of no other number. -/
theorem text_ne_negativeZero (value : Binary64.Finite) :
    JsNumber.text (.finite value) ≠ "-0".toList := by
  intro h
  have hread := JsNumber.read_text (x := .finite value) (by simp)
  rw [h] at hread
  have hminus : JsNumber.read "-0".toList = .negativeZero := JsNumber.read_minus_zero
  rw [hminus] at hread
  cases hread

theorem numberText_inj {x y : JsNumber} {text : Units} (hx : numberText x = .ok text)
    (hy : numberText y = .ok text) : x = y := by
  cases x with
  | nan => cases hx
  | infinite => cases hx
  | negativeZero =>
    cases hx
    cases y with
    | nan => cases hy
    | infinite => cases hy
    | negativeZero => rfl
    | finite value =>
      exact absurd (Utf16.encode_injective (Except.ok.inj hy)) (text_ne_negativeZero value)
  | finite value =>
    cases hx
    cases y with
    | nan => cases hy
    | infinite => cases hy
    | negativeZero =>
      exact absurd (Utf16.encode_injective (Except.ok.inj hy)).symm (text_ne_negativeZero value)
    | finite value' =>
      have htext := Utf16.encode_injective (Except.ok.inj hy)
      exact congrArg JsNumber.finite (JsNumber.text_injective htext).symm

theorem toList_toString (value : Int) :
    (toString value).toList = (if value < 0 then ['-'] else []) ++ Nat.toDigits 10 value.natAbs := by
  cases value with
  | ofNat n => exact Nat.toList_repr
  | negSucc n =>
    rw [show toString (Int.negSucc n) = "-" ++ (n + 1).repr from rfl, String.toList_append,
      Nat.toList_repr, if_pos (Int.negSucc_lt_zero n)]
    rfl

theorem toString_free (value : Int) : ∀ unit ∈ ofString (toString value), ¬ delimiter unit := by
  apply encode_free
  intro c hc
  have hcases : c = '-' ∨ c.isDigit = true := by
    rw [toList_toString] at hc
    rcases List.mem_append.mp hc with hc | hc
    · split at hc
      · exact Or.inl (List.mem_singleton.mp hc)
      · cases hc
    · exact Or.inr (JsNumber.toDigits_isDigit hc)
  refine ⟨?_, ?_, ?_⟩
  all_goals
    rintro rfl
    revert hcases
    decide

theorem isoString_free (time : JsDate.Time) : ∀ unit ∈ encode (JsDate.isoString time), ¬ delimiter unit := by
  apply encode_free
  intro c hc
  have hcases := JsDate.mem_isoString hc
  refine ⟨?_, ?_, ?_⟩
  all_goals
    rintro rfl
    revert hcases
    decide

theorem boolean_free (value : Bool) : ∀ unit ∈ ofString (toString value), ¬ delimiter unit := by
  have hall : ∀ c ∈ (toString value).toList,
      (c != ',' && c != ']' && c != Char.ofNat 125) = true := by
    cases value
    · exact List.all_eq_true.mp rfl
    · exact List.all_eq_true.mp rfl
  apply encode_free
  intro c hc
  simpa [and_assoc] using hall c hc

/-! ## Texts end where they end -/

theorem mem_texts {P : α → β → Prop} {as : List α} {bs : List β} (h : List.Forall₂ P as bs) {b : β}
    (hb : b ∈ bs) : ∃ a ∈ as, P a b := by
  induction h with
  | nil => cases hb
  | cons hfirst _ ih =>
    rcases List.mem_cons.mp hb with rfl | hb
    · exact ⟨_, List.mem_cons_self, hfirst⟩
    · obtain ⟨a, ha, hab⟩ := ih hb
      exact ⟨a, List.mem_cons_of_mem _ ha, hab⟩

/-- Behind equal tags the bodies decide. -/
theorem apart_of_bodies {tag s t : Units} (h : Apart delimiter s t) :
    Apart delimiter (tag ++ s) (tag ++ t) := by
  intro x y hx hy htext
  rw [List.append_assoc, List.append_assoc] at htext
  obtain ⟨rfl, hxy⟩ := h x y hx hy (List.append_cancel_left htext)
  exact ⟨rfl, hxy⟩

theorem apart_of_free {s t : Units} (hs : ∀ unit ∈ s, ¬ delimiter unit)
    (ht : ∀ unit ∈ t, ¬ delimiter unit) : Apart delimiter s t :=
  fun _ _ hx hy h => Framing.append_inj_of_free hs ht hx hy h

/-- Texts in brackets. -/
theorem apart_joined {close : Fin 65536} (hclose : delimiter close) (hne : comma ≠ close)
    {ss ts : List Units} (hss : ∀ s ∈ ss, Starts delimiter s) (hts : ∀ t ∈ ts, Starts delimiter t)
    (hapart : ∀ s ∈ ss, ∀ t ∈ ts, Apart delimiter s t) :
    Apart delimiter (joinTexts comma ss ++ [close]) (joinTexts comma ts ++ [close]) := by
  intro x y _ _ h
  rw [List.append_assoc, List.append_assoc] at h
  obtain ⟨rfl, hxy⟩ := Framing.joinTexts_inj (show delimiter comma from Or.inl rfl) hclose hne hss hts hapart h
  exact ⟨rfl, hxy⟩

theorem apart_entries {texts texts' : List (Units × Units)} {name name' : Units}
    (h : name = name' → Apart delimiter ((texts.lookup name).getD []) ((texts'.lookup name').getD [])) :
    Apart delimiter (entryText texts name) (entryText texts' name') := by
  intro x y hx hy htext
  rw [entryText, entryText, List.append_assoc, List.append_assoc, List.append_assoc,
    List.append_assoc] at htext
  obtain ⟨rfl, hrest⟩ := component_inj htext
  obtain ⟨hvalue, hxy⟩ := h rfl x y hx hy (List.append_cancel_left hrest)
  exact ⟨by rw [entryText, entryText, hvalue], hxy⟩

theorem lookup_of_sorted {properties : List (Units × Input)} {texts : List (Units × Units)}
    (hnodup : (properties.map Prod.fst).Nodup) (htexts : stringifyProperties properties = .ok texts)
    {name : Units} (hname : name ∈ sortedStableInputPropertyNames (properties.map Prod.fst)) :
    ∃ value text, (name, value) ∈ properties ∧ texts.lookup name = some text ∧
      stableStringify value = .ok text := by
  obtain ⟨value, hmem⟩ := exists_of_mem_names ((sortedNames_perm _).mem_iff.mp hname)
  obtain ⟨text, hlookup, htext⟩ := lookup_text hnodup (stringifyProperties_ok htexts) hmem
  exact ⟨value, text, hmem, hlookup, htext⟩

theorem items_start {items : List Input} {texts : List Units}
    (h : stringifyItems items = .ok texts) : ∀ text ∈ texts, Starts delimiter text := by
  intro text htext
  obtain ⟨item, -, hok⟩ := mem_texts (stringifyItems_ok h) htext
  exact stringify_starts hok

theorem entries_start (texts : List (Units × Units)) (names : List Units) :
    ∀ text ∈ names.map (entryText texts), Starts delimiter text := by
  intro text htext
  obtain ⟨name, -, rfl⟩ := List.mem_map.mp htext
  rw [entryText, List.append_assoc]
  exact component_starts _ _

/-- Items and entries are apart when the values are. -/
theorem items_apart {items items' : List Input} {texts texts' : List Units}
    (h : stringifyItems items = .ok texts) (h' : stringifyItems items' = .ok texts')
    (hapart : ∀ item ∈ items, ∀ item' ∈ items', ∀ s t, stableStringify item = .ok s →
      stableStringify item' = .ok t → Apart delimiter s t) :
    ∀ s ∈ texts, ∀ t ∈ texts', Apart delimiter s t := by
  intro s hs t ht
  obtain ⟨item, hitem, hok⟩ := mem_texts (stringifyItems_ok h) hs
  obtain ⟨item', hitem', hok'⟩ := mem_texts (stringifyItems_ok h') ht
  exact hapart item hitem item' hitem' s t hok hok'

theorem entries_apart {properties properties' : List (Units × Input)}
    {texts texts' : List (Units × Units)} (hnodup : (properties.map Prod.fst).Nodup)
    (hnodup' : (properties'.map Prod.fst).Nodup) (h : stringifyProperties properties = .ok texts)
    (h' : stringifyProperties properties' = .ok texts')
    (hapart : ∀ property ∈ properties, ∀ property' ∈ properties', ∀ s t,
      stableStringify property.2 = .ok s → stableStringify property'.2 = .ok t →
        Apart delimiter s t) :
    ∀ s ∈ (sortedStableInputPropertyNames (properties.map Prod.fst)).map (entryText texts),
      ∀ t ∈ (sortedStableInputPropertyNames (properties'.map Prod.fst)).map (entryText texts'),
        Apart delimiter s t := by
  intro s hs t ht
  obtain ⟨name, hname, rfl⟩ := List.mem_map.mp hs
  obtain ⟨name', hname', rfl⟩ := List.mem_map.mp ht
  obtain ⟨value, found, hmem, hlookup, hok⟩ := lookup_of_sorted hnodup h hname
  obtain ⟨value', found', hmem', hlookup', hok'⟩ := lookup_of_sorted hnodup' h' hname'
  refine apart_entries fun _ => ?_
  rw [hlookup, hlookup']
  exact hapart _ hmem _ hmem' _ _ hok hok'

/-- Texts of different kinds have different tags. -/
theorem apart_of_kind {a b : Input} {s t : Units} (hs : stableStringify a = .ok s)
    (ht : stableStringify b = .ok t) (h : a.kind = b.kind → Apart delimiter s t) :
    Apart delimiter s t := by
  obtain ⟨body, rfl⟩ := stringify_tag hs
  obtain ⟨body', rfl⟩ := stringify_tag ht
  intro x y hx hy htext
  have htag := htext
  rw [List.append_assoc, List.append_assoc] at htag
  exact h (tag_inj htag) x y hx hy htext

theorem stringify_apart {a b : Input} {s t : Units} (ha : a.WellFormed) (hb : b.WellFormed)
    (hs : stableStringify a = .ok s) (ht : stableStringify b = .ok t) : Apart delimiter s t := by
  refine apart_of_kind hs ht fun hkind => ?_
  induction a generalizing b s t with
  | null =>
    cases b with
    | null =>
      cases hs
      cases ht
      exact fun x y _ _ h => ⟨rfl, List.append_cancel_left h⟩
    | _ => cases hkind
  | string value =>
    cases b with
    | string value' =>
      cases hs
      cases ht
      refine apart_of_bodies fun x y _ _ h => ?_
      obtain ⟨rfl, hxy⟩ := component_inj h
      exact ⟨rfl, hxy⟩
    | _ => cases hkind
  | number value =>
    cases b with
    | number value' =>
      rw [stableStringify] at hs ht
      obtain ⟨body, hbody, hresult⟩ := Except.bind_eq_ok.mp hs
      obtain ⟨body', hbody', hresult'⟩ := Except.bind_eq_ok.mp ht
      cases hresult
      cases hresult'
      exact apart_of_bodies (apart_of_free (numberText_free hbody) (numberText_free hbody'))
    | _ => cases hkind
  | boolean value =>
    cases b with
    | boolean value' =>
      cases hs
      cases ht
      exact apart_of_bodies (apart_of_free (boolean_free value) (boolean_free value'))
    | _ => cases hkind
  | bigint value =>
    cases b with
    | bigint value' =>
      cases hs
      cases ht
      exact apart_of_bodies (apart_of_free (toString_free value) (toString_free value'))
    | _ => cases hkind
  | date time =>
    cases b with
    | date time' =>
      cases time with
      | none => cases hs
      | some time =>
        cases time' with
        | none => cases ht
        | some time' =>
          cases hs
          cases ht
          exact apart_of_bodies (apart_of_free (isoString_free time) (isoString_free time'))
    | _ => cases hkind
  | array items ih =>
    cases b with
    | array items' =>
      rw [stableStringify] at hs ht
      obtain ⟨texts, htexts, hresult⟩ := Except.bind_eq_ok.mp hs
      obtain ⟨texts', htexts', hresult'⟩ := Except.bind_eq_ok.mp ht
      cases hresult
      cases hresult'
      cases ha with | array hitems =>
      cases hb with | array hitems' =>
      rw [List.append_assoc, List.append_assoc]
      exact apart_of_bodies (apart_joined (Or.inr (Or.inl rfl)) (by decide) (items_start htexts)
        (items_start htexts') (items_apart htexts htexts' fun item hitem item' hitem' _ _ hok hok' =>
          apart_of_kind hok hok' (ih item hitem (hitems item hitem) (hitems' item' hitem') hok hok')))
    | _ => cases hkind
  | object properties ih =>
    cases b with
    | object properties' =>
      rw [stableStringify] at hs ht
      obtain ⟨texts, htexts, hresult⟩ := Except.bind_eq_ok.mp hs
      obtain ⟨texts', htexts', hresult'⟩ := Except.bind_eq_ok.mp ht
      cases hresult
      cases hresult'
      cases ha with | object hnodup hvalues =>
      cases hb with | object hnodup' hvalues' =>
      rw [List.append_assoc, List.append_assoc]
      exact apart_of_bodies (apart_joined (Or.inr (Or.inr rfl)) (by decide) (entries_start _ _)
        (entries_start _ _) (entries_apart hnodup hnodup' htexts htexts'
          fun _ hmem _ hmem' _ _ hok hok' =>
            apart_of_kind hok hok' (ih _ hmem (hvalues _ hmem) (hvalues' _ hmem') hok hok')))
    | _ => cases hkind
  | other => cases hs

/-! ## Texts determine inputs -/

theorem toString_int_inj {m n : Int} (h : ofString (toString m) = ofString (toString n)) : m = n := by
  have hread (value : Int) : ((toString value).toList.headD ' ' = '-' ↔ value < 0) ∧
      Nat.ofDigitChars 10 ((toString value).toList.filter Char.isDigit) 0 = value.natAbs := by
    have hdigits : (Nat.toDigits 10 value.natAbs).filter Char.isDigit = Nat.toDigits 10 value.natAbs :=
      List.filter_eq_self.mpr fun c hc => JsNumber.toDigits_isDigit hc
    rw [toList_toString]
    by_cases hneg : value < 0
    · rw [if_pos hneg]
      exact ⟨⟨fun _ => hneg, fun _ => rfl⟩, by
        rw [List.singleton_append, List.filter_cons_of_neg (by decide), hdigits,
          Nat.ofDigitChars_ten_toDigits]⟩
    · rw [if_neg hneg, List.nil_append, hdigits, Nat.ofDigitChars_ten_toDigits]
      refine ⟨⟨fun hhead => ?_, fun h => absurd h hneg⟩, rfl⟩
      cases hcons : Nat.toDigits 10 value.natAbs with
      | nil => exact absurd hcons Nat.toDigits_ne_nil
      | cons c rest =>
        have hc : c.isDigit = true := JsNumber.toDigits_isDigit (hcons ▸ List.mem_cons_self)
        rw [hcons] at hhead
        obtain rfl : c = '-' := hhead
        cases hc
  have htext := Utf16.encode_injective h
  obtain ⟨hm, hm'⟩ := hread m
  obtain ⟨hn, hn'⟩ := hread n
  rw [htext] at hm hm'
  have hsign : m < 0 ↔ n < 0 := hm.symm.trans hn
  omega

theorem kind_eq_of_text {a b : Input} {text : Units} (ha : stableStringify a = .ok text)
    (hb : stableStringify b = .ok text) : a.kind = b.kind := by
  obtain ⟨body, hbody⟩ := stringify_tag ha
  obtain ⟨body', hbody'⟩ := stringify_tag hb
  exact tag_inj (hbody.symm.trans hbody')

theorem same_of_texts {items items' : List Input} {texts : List Units}
    (ih : ∀ item ∈ items, ∀ item' ∈ items', ∀ text, stableStringify item = .ok text →
      stableStringify item' = .ok text → item.Same item')
    (h : List.Forall₂ (fun item text => stableStringify item = .ok text) items texts)
    (h' : List.Forall₂ (fun item text => stableStringify item = .ok text) items' texts) :
    List.Forall₂ Input.Same items items' := by
  induction h generalizing items' with
  | nil =>
    cases h'
    exact .nil
  | cons hfirst _ ihrest =>
    cases h' with
    | cons hfirst' hrest' =>
      refine .cons (ih _ List.mem_cons_self _ List.mem_cons_self _ hfirst hfirst') (ihrest ?_ hrest')
      exact fun item hitem item' hitem' =>
        ih item (List.mem_cons_of_mem _ hitem) item' (List.mem_cons_of_mem _ hitem')

theorem entries_inj {texts texts' : List (Units × Units)} {names names' : List Units}
    (h : names.map (entryText texts) = names'.map (entryText texts')) :
    names = names' ∧ ∀ name ∈ names, (texts.lookup name).getD [] = (texts'.lookup name).getD [] := by
  induction names generalizing names' with
  | nil =>
    rw [List.map_nil, eq_comm, List.map_eq_nil_iff] at h
    exact ⟨h.symm, fun name hname => absurd hname List.not_mem_nil⟩
  | cons name names ih =>
    cases names' with
    | nil => cases h
    | cons name' names' =>
      obtain ⟨hentry, hrest⟩ := List.cons.inj h
      rw [entryText, entryText, List.append_assoc, List.append_assoc] at hentry
      obtain ⟨rfl, hvalue⟩ := component_inj hentry
      obtain ⟨rfl, hvalues⟩ := ih hrest
      exact ⟨rfl, List.forall_mem_cons.mpr ⟨List.append_cancel_left hvalue, hvalues⟩⟩

/-- The texts between brackets, when all of them come from inputs. -/
theorem joined_inj {close : Fin 65536} (hclose : delimiter close) (hne : comma ≠ close)
    {tag : Units} {ss ts : List Units} (hss : ∀ s ∈ ss, Starts delimiter s)
    (hts : ∀ t ∈ ts, Starts delimiter t) (hapart : ∀ s ∈ ss, ∀ t ∈ ts, Apart delimiter s t)
    (h : tag ++ joinTexts comma ss ++ [close] = tag ++ joinTexts comma ts ++ [close]) : ss = ts := by
  rw [List.append_assoc, List.append_assoc] at h
  exact (Framing.joinTexts_inj (show delimiter comma from Or.inl rfl) hclose hne hss hts hapart
    (List.append_cancel_left h)).1

theorem same_of_text {a b : Input} {text : Units} (ha : a.WellFormed) (hb : b.WellFormed)
    (hs : stableStringify a = .ok text) (ht : stableStringify b = .ok text) : a.Same b := by
  have hkind := kind_eq_of_text hs ht
  induction a generalizing b text with
  | null =>
    cases b with
    | null => exact .null
    | _ => cases hkind
  | string value =>
    cases b with
    | string value' =>
      cases hs
      have htext := List.append_cancel_left (Except.ok.inj ht)
      have hvalue := @component_inj value' value [] [] (by rw [htext])
      rw [hvalue.1]
      exact .string value
    | _ => cases hkind
  | number value =>
    cases b with
    | number value' =>
      rw [stableStringify] at hs ht
      obtain ⟨body, hbody, hresult⟩ := Except.bind_eq_ok.mp hs
      obtain ⟨body', hbody', hresult'⟩ := Except.bind_eq_ok.mp ht
      cases hresult
      obtain rfl := List.append_cancel_left (Except.ok.inj hresult')
      rw [numberText_inj hbody hbody']
      exact .number value'
    | _ => cases hkind
  | boolean value =>
    cases b with
    | boolean value' =>
      cases hs
      have htext := List.append_cancel_left (Except.ok.inj ht)
      have hvalue : value' = value := by
        revert htext
        cases value' <;> cases value <;> decide
      rw [hvalue]
      exact .boolean value
    | _ => cases hkind
  | bigint value =>
    cases b with
    | bigint value' =>
      cases hs
      have hvalue := toString_int_inj (List.append_cancel_left (Except.ok.inj ht))
      rw [hvalue]
      exact .bigint value
    | _ => cases hkind
  | date time =>
    cases b with
    | date time' =>
      cases time with
      | none => cases hs
      | some time =>
        cases time' with
        | none => cases ht
        | some time' =>
          cases hs
          have htext := Utf16.encode_injective (List.append_cancel_left (Except.ok.inj ht))
          rw [JsDate.isoString_injective htext]
          exact .date _
    | _ => cases hkind
  | array items ih =>
    cases b with
    | array items' =>
      rw [stableStringify] at hs ht
      obtain ⟨texts, htexts, hresult⟩ := Except.bind_eq_ok.mp hs
      obtain ⟨texts', htexts', hresult'⟩ := Except.bind_eq_ok.mp ht
      cases hresult
      cases ha with | array hitems =>
      cases hb with | array hitems' =>
      have hitemTexts := stringifyItems_ok htexts
      have hitemTexts' := stringifyItems_ok htexts'
      have hsame : texts = texts' :=
        joined_inj (Or.inr (Or.inl rfl)) (by decide) (items_start htexts) (items_start htexts')
          (items_apart htexts htexts' fun item hitem item' hitem' _ _ hok hok' =>
            stringify_apart (hitems item hitem) (hitems' item' hitem') hok hok')
          (Except.ok.inj hresult').symm
      rw [← hsame] at hitemTexts'
      exact .array (same_of_texts (fun item hitem item' hitem' text hok hok' =>
        ih item hitem (hitems item hitem) (hitems' item' hitem') hok hok'
          (kind_eq_of_text hok hok')) hitemTexts hitemTexts')
    | _ => cases hkind
  | object properties ih =>
    cases b with
    | object properties' =>
      rw [stableStringify] at hs ht
      obtain ⟨texts, htexts, hresult⟩ := Except.bind_eq_ok.mp hs
      obtain ⟨texts', htexts', hresult'⟩ := Except.bind_eq_ok.mp ht
      cases hresult
      cases ha with | object hnodup hvalues =>
      cases hb with | object hnodup' hvalues' =>
      have hentries : (sortedStableInputPropertyNames (properties.map Prod.fst)).map (entryText texts) =
          (sortedStableInputPropertyNames (properties'.map Prod.fst)).map (entryText texts') :=
        joined_inj (Or.inr (Or.inr rfl)) (by decide) (entries_start _ _) (entries_start _ _)
          (entries_apart hnodup hnodup' htexts htexts' fun _ hmem _ hmem' _ _ hok hok' =>
            stringify_apart (hvalues _ hmem) (hvalues' _ hmem') hok hok')
          (Except.ok.inj hresult').symm
      obtain ⟨hnames, hlookups⟩ := entries_inj hentries
      refine .object ((sortedNames_perm _).symm.trans (hnames ▸ sortedNames_perm _)) ?_
      intro name value value' hmem hmem'
      obtain ⟨found, hlookup, hok⟩ := lookup_text hnodup (stringifyProperties_ok htexts) hmem
      obtain ⟨found', hlookup', hok'⟩ := lookup_text hnodup' (stringifyProperties_ok htexts') hmem'
      have hname : name ∈ sortedStableInputPropertyNames (properties.map Prod.fst) :=
        (sortedNames_perm _).mem_iff.mpr (List.mem_map.mpr ⟨_, hmem, rfl⟩)
      have hfound := hlookups name hname
      rw [hlookup, hlookup', Option.getD_some, Option.getD_some] at hfound
      subst hfound
      exact ih _ hmem (hvalues _ hmem) (hvalues' _ hmem') hok hok' (kind_eq_of_text hok hok')
    | _ => cases hkind
  | other => cases hs

/-! ## Inputs determine texts -/

theorem texts_of_same {items items' : List Input} {texts texts' : List Units}
    (ih : ∀ item ∈ items, ∀ item' ∈ items', ∀ s t, item.Same item' → stableStringify item = .ok s →
      stableStringify item' = .ok t → s = t)
    (hsame : List.Forall₂ Input.Same items items')
    (h : List.Forall₂ (fun item text => stableStringify item = .ok text) items texts)
    (h' : List.Forall₂ (fun item text => stableStringify item = .ok text) items' texts') :
    texts = texts' := by
  induction hsame generalizing texts texts' with
  | nil =>
    cases h
    cases h'
    rfl
  | cons hfirst _ ihrest =>
    cases h with
    | cons htext hrest =>
      cases h' with
      | cons htext' hrest' =>
        rw [ih _ List.mem_cons_self _ List.mem_cons_self _ _ hfirst htext htext']
        refine congrArg _ (ihrest ?_ hrest hrest')
        exact fun item hitem item' hitem' =>
          ih item (List.mem_cons_of_mem _ hitem) item' (List.mem_cons_of_mem _ hitem')

theorem text_of_same {a b : Input} {s t : Units} (ha : a.WellFormed) (hb : b.WellFormed)
    (hsame : a.Same b) (hs : stableStringify a = .ok s) (ht : stableStringify b = .ok t) : s = t := by
  induction a generalizing b s t with
  | null =>
    cases hsame
    exact Except.ok.inj (hs.symm.trans ht)
  | string value =>
    cases hsame
    exact Except.ok.inj (hs.symm.trans ht)
  | number value =>
    cases hsame
    exact Except.ok.inj (hs.symm.trans ht)
  | boolean value =>
    cases hsame
    exact Except.ok.inj (hs.symm.trans ht)
  | bigint value =>
    cases hsame
    exact Except.ok.inj (hs.symm.trans ht)
  | date time =>
    cases hsame
    exact Except.ok.inj (hs.symm.trans ht)
  | array items ih =>
    cases hsame with
    | array hitemsSame =>
      rw [stableStringify] at hs ht
      obtain ⟨texts, htexts, hresult⟩ := Except.bind_eq_ok.mp hs
      obtain ⟨texts', htexts', hresult'⟩ := Except.bind_eq_ok.mp ht
      cases hresult
      cases hresult'
      cases ha with | array hitems =>
      cases hb with | array hitems' =>
      rw [texts_of_same (fun item hitem item' hitem' s t hsame hok hok' =>
        ih item hitem (hitems item hitem) (hitems' item' hitem') hsame hok hok') hitemsSame
        (stringifyItems_ok htexts) (stringifyItems_ok htexts')]
  | object properties ih =>
    cases hsame with
    | object hnames hvaluesSame =>
      rw [stableStringify] at hs ht
      obtain ⟨texts, htexts, hresult⟩ := Except.bind_eq_ok.mp hs
      obtain ⟨texts', htexts', hresult'⟩ := Except.bind_eq_ok.mp ht
      cases hresult
      cases hresult'
      cases ha with | object hnodup hvalues =>
      cases hb with | object hnodup' hvalues' =>
      have hsorted := sortedNames_congr hnames
      have hentries : ∀ name ∈ sortedStableInputPropertyNames (properties.map Prod.fst),
          entryText texts name = entryText texts' name := by
        intro name hname
        obtain ⟨value, found, hmem, hlookup, hok⟩ := lookup_of_sorted hnodup htexts hname
        obtain ⟨value', found', hmem', hlookup', hok'⟩ :=
          lookup_of_sorted hnodup' htexts' (hsorted ▸ hname)
        have hfound := ih _ hmem (hvalues _ hmem) (hvalues' _ hmem')
          (hvaluesSame name value value' hmem hmem') hok hok'
        rw [entryText, entryText, hlookup, hlookup', hfound]
      rw [← hsorted, List.map_congr_left hentries]
  | other => cases hs

/-- Two inputs have one key exactly when they are the same up to the order of properties. -/
theorem stableStringify_eq_iff {a b : Input} {s t : Units} (ha : a.WellFormed) (hb : b.WellFormed)
    (hs : stableStringify a = .ok s) (ht : stableStringify b = .ok t) : s = t ↔ a.Same b := by
  constructor
  · rintro rfl
    exact same_of_text ha hb hs ht
  · intro hsame
    exact text_of_same ha hb hsame hs ht

theorem stableStringify_eq_iff_reordered : ∃ s t,
    stableStringify (.object [([97], .boolean true), ([98], .null)]) = .ok s ∧
      stableStringify (.object [([98], .null), ([97], .boolean true)]) = .ok t ∧
      (s = t ↔ (Input.object [([97], .boolean true), ([98], .null)]).Same
        (.object [([98], .null), ([97], .boolean true)])) := by
  have hleft : (Input.object [([97], .boolean true), ([98], .null)]).WellFormed :=
    .object (by decide) (by simp [Input.WellFormed.boolean, Input.WellFormed.null])
  have hright : (Input.object [([98], .null), ([97], .boolean true)]).WellFormed :=
    .object (by decide) (by simp [Input.WellFormed.boolean, Input.WellFormed.null])
  exact ⟨_, _, rfl, rfl, stableStringify_eq_iff hleft hright rfl rfl⟩

end ActiveTs.FunctionCache
