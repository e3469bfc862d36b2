import ActiveTs.Lib.Base64Url
import ActiveTs.Lib.JsonText
import ActiveTs.Query.RowOrder

/-! # The texts of cursors

A cursor is given to the client as base64url of its JSON. Of its values only `-0` comes back changed,
as `0`. -/

namespace ActiveTs.Query.Cursors

open Utf16 (Units ofString encode)
open KeyOrder (sign directed compareBy)

/-! ## encodeCursor -/

def directionText : SortDirection → Units
  | .asc => ofString "asc"
  | .desc => ofString "desc"

def one : Binary64.Finite := ⟨((1 : Int) : ℚ), Binary64.nearest_intCast (by decide)⟩

def sortJson (entry : CursorSort) : JsonText.Value :=
  .object [(ofString "field", .string entry.field),
    (ofString "direction", .string (directionText entry.direction))]

/-- The values that `assertSafeCursorValue` passes. -/
def valueJson : Value → JsonText.Value
  | .boolean value => .bool value
  | .number value => .number value
  | .string value => .string value
  | _ => .null

def keysetCursorJson (cursor : KeysetCursor) : JsonText.Value :=
  .object [(ofString "v", .number (.finite one)), (ofString "kind", .string (ofString "keyset")),
    (ofString "sort", .array (cursor.sort.map sortJson)),
    (ofString "values", .array (cursor.values.map valueJson))]

/-- The bytes of the JSON of a cursor. -/
def cursorBytes (cursor : KeysetCursor) : List Utf8.Byte :=
  Utf8.encode (JsonText.text (keysetCursorJson cursor))

def encodeCursor (cursor : KeysetCursor) : Except CursorError Units := do
  let safeCursor ← sanitizeKeysetCursor cursor
  .ok (Base64Url.encode (cursorBytes safeCursor))

/-! ## decodeCursor -/

def MAX_CURSOR_LENGTH : Nat := 4096

def assertSafeCursor (cursor : Units) : Except CursorError Units :=
  if MAX_CURSOR_LENGTH < cursor.length then .error .tooLong
  else if cursor.contains 0 then .error .nullByteInCursor
  else .ok cursor

/-- Of members of one name the last counts. -/
def ownCursorValue (members : List (Units × JsonText.Value)) (name : String) :
    Option JsonText.Value :=
  members.reverse.lookup (ofString name)

def directionOf (text : Units) : Option SortDirection :=
  if text = ofString "asc" then some .asc
  else if text = ofString "desc" then some .desc
  else none

def readSort : JsonText.Value → Option CursorSort
  | .object members =>
    match ownCursorValue members "field", ownCursorValue members "direction" with
    | some (.string field), some (.string direction) => (directionOf direction).map (⟨field, ·⟩)
    | _, _ => none
  | _ => none

/-- A parsed value; arrays and objects are no cursor values. -/
def valueOf : JsonText.Value → Value
  | .null => .null
  | .bool value => .boolean value
  | .number value => .number value
  | .string value => .string value
  | .array _ => .unsupported
  | .object _ => .unsupported

def isNumberOne : Option JsonText.Value → Bool
  | some (.number value) => isFinite value && decide (toRat value = 1)
  | _ => false

def isString (text : String) : Option JsonText.Value → Bool
  | some (.string value) => value = ofString text
  | _ => false

/-- The parts of a payload of this version. -/
def readCursor : JsonText.Value → Option KeysetCursor
  | .object members =>
    if isNumberOne (ownCursorValue members "v") && isString "keyset" (ownCursorValue members "kind") then
      match ownCursorValue members "sort", ownCursorValue members "values" with
      | some (.array sort), some (.array values) =>
        (sort.mapM readSort).map fun sort => ⟨sort, values.map valueOf⟩
      | _, _ => none
    else none
  | _ => none

/-- Whatever is wrong with a payload, the cursor is invalid. -/
def sanitizeParsed : Option KeysetCursor → Except CursorError KeysetCursor
  | none => .error .invalidCursor
  | some parsed =>
    match sanitizeKeysetCursor parsed with
    | .ok cursor => .ok cursor
    | .error _ => .error .invalidCursor

def decodeCursor (cursor : Units) : Except CursorError KeysetCursor := do
  let safeCursor ← assertSafeCursor cursor
  sanitizeParsed ((JsonText.parse (Utf8.decode (Base64Url.decode safeCursor))).bind readCursor)

def assertCursorMatchesSort (cursor : KeysetCursor) (sort : List CursorSort) :
    Except CursorError Unit := do
  let safeCursor ← sanitizeKeysetCursor cursor
  let safeSort ← sanitizeCursorSortList sort
  if safeCursor.sort = safeSort then .ok () else .error .differentOrdering

/-! ## Values that come back -/

namespace Comparable

def zero : Binary64.Finite := ⟨((0 : Int) : ℚ), Binary64.nearest_zero⟩

/-- What a value is after it was in a cursor. -/
def plain : Comparable → Comparable
  | number .negativeZero _ => number (.finite zero) rfl
  | key => key

theorem order_plain (a b : Comparable) : a.order b.plain = a.order b := by
  cases b with
  | number value finite =>
    cases value with
    | negativeZero => rfl
    | nan => rfl
    | infinite negative => rfl
    | finite value => rfl
  | null => rfl
  | boolean value => rfl
  | string value => rfl

end Comparable

theorem text_zero : JsNumber.text (.finite Comparable.zero) = ['0'] := by
  decide +kernel

/-- The text of a value is that of the value that comes back. -/
theorem text_plain (key : Comparable) :
    JsonText.text (valueJson key.plain.value) = JsonText.text (valueJson key.value) := by
  cases key with
  | number value finite =>
    cases value with
    | negativeZero =>
      change JsonText.text (.number (.finite Comparable.zero)) = JsonText.text (.number .negativeZero)
      rw [JsonText.text_number, JsonText.text_number]
      exact text_zero
    | nan => rfl
    | infinite negative => rfl
    | finite value => rfl
  | null => rfl
  | boolean value => rfl
  | string value => rfl

theorem valueJson_plain (key : Comparable) : (valueJson key.plain.value).Plain := by
  cases key with
  | number value finite =>
    cases value with
    | negativeZero => exact .number _
    | nan => cases finite
    | infinite negative => cases finite
    | finite value => exact .number value
  | null => exact .null
  | boolean value => exact .bool value
  | string value => exact .string value

theorem valueOf_valueJson (key : Comparable) : valueOf (valueJson key.value) = key.value := by
  cases key <;> rfl

theorem readSort_sortJson (entry : CursorSort) : readSort (sortJson entry) = some entry := by
  obtain ⟨field, direction⟩ := entry
  have hfield : ownCursorValue [(ofString "field", .string field),
      (ofString "direction", .string (directionText direction))] "field" = some (.string field) := by
    rfl
  have hdirection : ownCursorValue [(ofString "field", .string field),
      (ofString "direction", .string (directionText direction))] "direction" =
        some (.string (directionText direction)) := by
    rfl
  rw [sortJson, readSort, hfield, hdirection]
  cases direction <;> rfl

/-! ## Cursors that come back -/

/-- The cursor with the sort values of a row. -/
def cursorOf (sort : List CursorSort) (keys : List Comparable) : KeysetCursor :=
  ⟨sort, keys.map Comparable.value⟩

theorem itemTexts_eq (items : List JsonText.Value) :
    JsonText.itemTexts items = items.map JsonText.text := by
  induction items with
  | nil => rfl
  | cons item items ih => rw [JsonText.itemTexts, ih, List.map_cons]

/-- An array is written by the texts of its items. -/
theorem text_array_congr {items items' : List JsonText.Value}
    (h : items.map JsonText.text = items'.map JsonText.text) :
    JsonText.text (.array items) = JsonText.text (.array items') := by
  rw [JsonText.text_array, JsonText.text_array, itemTexts_eq, itemTexts_eq, h]

theorem cursorBytes_plain (sort : List CursorSort) (keys : List Comparable) :
    cursorBytes (cursorOf sort (keys.map Comparable.plain)) = cursorBytes (cursorOf sort keys) := by
  have hvalues : JsonText.text (.array ((cursorOf sort (keys.map Comparable.plain)).values.map valueJson)) =
      JsonText.text (.array ((cursorOf sort keys).values.map valueJson)) := by
    apply text_array_congr
    simp only [cursorOf, List.map_map]
    apply List.map_congr_left
    intro key _
    exact text_plain key
  simp only [cursorBytes, keysetCursorJson, JsonText.text, JsonText.memberTexts] at hvalues ⊢
  rw [hvalues]
  rfl

theorem keysetCursorJson_plain (sort : List CursorSort) (keys : List Comparable) :
    (keysetCursorJson (cursorOf sort (keys.map Comparable.plain))).Plain := by
  have hsort : ∀ item ∈ sort.map sortJson, item.Plain := by
    intro item hitem
    obtain ⟨entry, -, rfl⟩ := List.mem_map.mp hitem
    apply JsonText.Value.Plain.object
    simp only [List.forall_mem_cons]
    exact ⟨.string _, .string _, fun member hmember => absurd hmember List.not_mem_nil⟩
  have hvalues : ∀ item ∈ (cursorOf sort (keys.map Comparable.plain)).values.map valueJson,
      item.Plain := by
    intro item hitem
    simp only [cursorOf, List.map_map] at hitem
    obtain ⟨key, -, rfl⟩ := List.mem_map.mp hitem
    exact valueJson_plain key
  apply JsonText.Value.Plain.object
  simp only [List.forall_mem_cons]
  exact ⟨.number one, .string _, .array hsort, .array hvalues,
    fun member hmember => absurd hmember List.not_mem_nil⟩

theorem mapM_readSort (sort : List CursorSort) : (sort.map sortJson).mapM readSort = some sort := by
  induction sort with
  | nil => rfl
  | cons entry sort ih =>
    rw [List.map_cons, List.mapM_cons, readSort_sortJson, ih]
    rfl

theorem readCursor_json (sort : List CursorSort) (keys : List Comparable) :
    readCursor (keysetCursorJson (cursorOf sort keys)) = some (cursorOf sort keys) := by
  have hvalues : ((cursorOf sort keys).values.map valueJson).map valueOf =
      (cursorOf sort keys).values := by
    simp only [cursorOf, List.map_map]
    apply List.map_congr_left
    intro key _
    exact valueOf_valueJson key
  have hmembers : readCursor (keysetCursorJson (cursorOf sort keys)) =
      (((sort.map sortJson).mapM readSort).map fun sort =>
        ⟨sort, ((cursorOf sort keys).values.map valueJson).map valueOf⟩) := by
    rfl
  rw [hmembers, mapM_readSort, Option.map_some, hvalues]
  rfl

section
variable {sort : List CursorSort} {keys : List Comparable}

theorem sanitize_cursorOf (hsort : sanitizeCursorSortList sort = .ok sort)
    (hlength : keys.length = sort.length) :
    sanitizeKeysetCursor (cursorOf sort keys) = .ok (cursorOf sort keys) :=
  sanitizeKeysetCursor_keys hsort hlength

theorem encodeCursor_cursorOf (hsort : sanitizeCursorSortList sort = .ok sort)
    (hlength : keys.length = sort.length) :
    encodeCursor (cursorOf sort keys) = .ok (Base64Url.encode (cursorBytes (cursorOf sort keys))) := by
  rw [encodeCursor, sanitize_cursorOf hsort hlength]
  rfl

theorem cursorBytes_pos (cursor : KeysetCursor) : 0 < (cursorBytes cursor).length := by
  rw [cursorBytes, keysetCursorJson, JsonText.text, Utf8.encode, List.flatMap_cons,
    List.length_append]
  exact Nat.add_pos_left (by decide) _

/-- Four letters are three bytes, so the limit of a text is one of its JSON. -/
theorem length_le_iff (bytes : List Utf8.Byte) :
    (Base64Url.encode bytes).length ≤ MAX_CURSOR_LENGTH ↔ bytes.length ≤ 3072 := by
  rw [Base64Url.length_encode, MAX_CURSOR_LENGTH]
  omega

theorem decodeCursor_tooLong {bytes : List Utf8.Byte} (h : 3072 < bytes.length) :
    decodeCursor (Base64Url.encode bytes) = .error .tooLong := by
  have hlength : MAX_CURSOR_LENGTH < (Base64Url.encode bytes).length := by
    rw [← Nat.not_le, length_le_iff]
    omega
  rw [decodeCursor, assertSafeCursor, if_pos hlength]
  rfl

/-- A cursor that is short enough comes back, with `0` for `-0`. -/
theorem decodeCursor_encode (hsort : sanitizeCursorSortList sort = .ok sort)
    (hlength : keys.length = sort.length)
    (hbytes : (cursorBytes (cursorOf sort keys)).length ≤ 3072) :
    decodeCursor (Base64Url.encode (cursorBytes (cursorOf sort keys))) =
      .ok (cursorOf sort (keys.map Comparable.plain)) := by
  have hsafe : assertSafeCursor (Base64Url.encode (cursorBytes (cursorOf sort keys))) =
      .ok (Base64Url.encode (cursorBytes (cursorOf sort keys))) := by
    rw [assertSafeCursor, if_neg (Nat.not_lt.mpr ((length_le_iff _).mpr hbytes)), if_neg]
    rw [List.contains_iff_mem]
    exact Base64Url.zero_not_mem_encode _
  have hparse : JsonText.parse (Utf8.decode (cursorBytes (cursorOf sort keys))) =
      some (keysetCursorJson (cursorOf sort (keys.map Comparable.plain))) := by
    rw [← cursorBytes_plain, cursorBytes, Utf8.decode_encode,
      JsonText.parse_text (keysetCursorJson_plain sort keys)]
  have hlength' : (keys.map Comparable.plain).length = sort.length := by
    rw [List.length_map, hlength]
  rw [decodeCursor, hsafe, Except.bind_eq_ok]
  refine ⟨_, rfl, ?_⟩
  rw [Base64Url.decode_encode, hparse, Option.bind_some, readCursor_json, sanitizeParsed,
    sanitize_cursorOf hsort hlength']

/-- The keys compare to any value as those of a row do. -/
def StandsFor (sort : List CursorSort) (keys : List Comparable) (row : Value) : Prop :=
  List.Forall₂ (fun entry key => ∀ a : Comparable, a.order key = a.order (keyAt entry.field row)) sort
    keys

theorem standsFor_plain (sort : List CursorSort) (row : Value) :
    StandsFor sort ((sort.map fun entry => keyAt entry.field row).map Comparable.plain) row := by
  rw [List.map_map]
  induction sort with
  | nil => exact .nil
  | cons entry sort ih => exact .cons (fun a => Comparable.order_plain a _) ih

theorem compareToValues_standsFor {row last : Value} (hrow : Sortable sort row)
    (hkeys : StandsFor sort keys last) :
    ∃ order, compareToValues row sort (keys.map Comparable.value) = .ok order ∧
      sign order = rowOrder sort row last := by
  induction hkeys with
  | nil => exact ⟨0, rfl, rfl⟩
  | @cons entry key sort keys hkey _ ih =>
    obtain ⟨⟨left, hleft⟩, hrow⟩ := List.forall_mem_cons.mp hrow
    obtain ⟨order, hrest, hsign⟩ := ih hrow
    have hcompare : sign (compareValues left key) =
        sign (compareValues (keyAt entry.field row) (keyAt entry.field last)) := by
      rw [sign_compareValues, sign_compareValues, keyAt_eq hleft, hkey]
    rw [List.map_cons, compareToValues, hleft, comparable_value]
    simp only [bind, Except.bind]
    split
    · rename_i hne
      refine ⟨_, rfl, ?_⟩
      have hne' : compareValues (keyAt entry.field row) (keyAt entry.field last) ≠ 0 := by
        rwa [Ne, ← KeyOrder.sign_eq_iff, ← hcompare, KeyOrder.sign_eq_iff]
      rw [rowOrder_of_ne hne', sign_apply, sign_apply, hcompare]
    · rename_i heq
      refine ⟨order, hrest, ?_⟩
      rw [Classical.not_not, ← KeyOrder.sign_eq_iff, hcompare, KeyOrder.sign_eq_iff] at heq
      rw [rowOrder_of_eq heq, hsign]

/-- A cursor that came back compares as the row that it was made of. -/
theorem compareRowToCursor_plain {row last : Value} (hsort : sanitizeCursorSortList sort = .ok sort)
    (hrow : Sortable sort row) :
    ∃ order, compareRowToCursor row
        (cursorOf sort ((sort.map fun entry => keyAt entry.field last).map Comparable.plain)) =
          .ok order ∧ sign order = rowOrder sort row last := by
  rw [compareRowToCursor, sanitize_cursorOf hsort (by rw [List.length_map, List.length_map])]
  exact compareToValues_standsFor hrow (standsFor_plain sort last)

end

/-! ## Long values -/

theorem length_bytes_pos (c : Char) : 1 ≤ (Utf8.bytes c).length := by
  simp only [Utf8.bytes]
  split
  · exact Nat.le_refl 1
  · split
    · exact Nat.le_add_left 1 1
    · split
      · exact Nat.le_add_left 1 2
      · exact Nat.le_add_left 1 3

theorem length_quoteUnit_pos (unit : Fin 65536) : 1 ≤ (JsonText.quoteUnit unit).length := by
  unfold JsonText.quoteUnit
  iterate 7
    split
    · exact Nat.le_add_left 1 1
  split
  · exact Nat.le_add_left 1 5
  · exact Nat.le_refl 1

theorem length_encode_ge (text : List Char) : text.length ≤ (Utf8.encode text).length := by
  induction text with
  | nil => exact Nat.le_refl _
  | cons c text ih =>
    have hc := length_bytes_pos c
    rw [Utf8.encode] at ih ⊢
    rw [List.flatMap_cons, List.length_append, List.length_cons]
    omega

/-- Two units at most are one character. -/
theorem length_quote_ge (value : Units) : value.length ≤ 2 * (JsonText.quote value).length := by
  fun_induction JsonText.quote value with
  | case1 => exact Nat.le_refl _
  | case2 unit =>
    have hunit := length_quoteUnit_pos unit
    rw [List.length_singleton]
    omega
  | case3 high low rest h ih =>
    rw [List.length_cons, List.length_cons, List.length_cons]
    omega
  | case4 high low rest h ih =>
    have hhigh := length_quoteUnit_pos high
    rw [List.length_append, List.length_cons]
    omega

/-- The cursor of a row with a long string is long. -/
theorem length_cursorBytes_ge {sort : List CursorSort} {keys : List Comparable} {value : Units}
    (h : Comparable.string value ∈ keys) :
    value.length ≤ 2 * (cursorBytes (cursorOf sort keys)).length := by
  have hitem : JsonText.text (.string value) ∈
      JsonText.itemTexts ((cursorOf sort keys).values.map valueJson) := by
    rw [itemTexts_eq]
    apply List.mem_map_of_mem
    exact List.mem_map.mpr ⟨.string value, List.mem_map.mpr ⟨_, h, rfl⟩, rfl⟩
  have hjoin := Framing.length_le_joinTexts ',' hitem
  have hencode := length_encode_ge (JsonText.text (keysetCursorJson (cursorOf sort keys)))
  have hquote := length_quote_ge value
  rw [JsonText.text, JsonText.stringText, List.length_cons, List.length_append] at hjoin
  have htext : (Framing.joinTexts ','
      (JsonText.itemTexts ((cursorOf sort keys).values.map valueJson))).length ≤
        (JsonText.text (keysetCursorJson (cursorOf sort keys))).length := by
    have hvalues : JsonText.stringText (ofString "values") ++ ':' ::
        JsonText.text (.array ((cursorOf sort keys).values.map valueJson)) ∈
          JsonText.memberTexts [(ofString "v", .number (.finite one)),
            (ofString "kind", .string (ofString "keyset")),
            (ofString "sort", .array ((cursorOf sort keys).sort.map sortJson)),
            (ofString "values", .array ((cursorOf sort keys).values.map valueJson))] :=
      .tail _ (.tail _ (.tail _ (.head _)))
    have hmembers := Framing.length_le_joinTexts ',' hvalues
    rw [keysetCursorJson, JsonText.text, List.length_cons, List.length_append]
    rw [List.length_append, List.length_cons, JsonText.text, List.length_cons,
      List.length_append] at hmembers
    omega
  rw [cursorBytes]
  omega

end ActiveTs.Query.Cursors
