import ActiveTs.Lib.JsDateOrder
import ActiveTs.Query.StoredData

/-! # Field types

A model declares the types of fields. Dates are stored as text, canonical or of the day alone, and a
read turns the texts of date fields into dates. -/

namespace ActiveTs.Query

open Utf16 (Units ofString encode)
open Cursors (assertSafeFieldPath dot)

inductive FieldType
  | string
  | boolean
  | number
  | date
  deriving DecidableEq

inductive FieldTypeError
  | data (error : DataError)
  /-- "… must be a valid date." -/
  | invalidDate
  /-- "… requires UTC years 0000 through 9999." -/
  | notPortable
  /-- "… must be a valid ISO date string." -/
  | notIsoDate
  /-- "… must be a Date, YYYY-MM-DD, or canonical ISO date string." -/
  | notCanonical
  /-- "… must be a Date or ISO date string." -/
  | notDate

/-- `Date.parse`: it reads what `toISOString` writes; other texts are up to the implementation. -/
structure DateParser where
  parse : Units → Option JsDate.Time
  parse_isoString : ∀ t, JsDate.Portable t → parse (encode (JsDate.isoString t)) = some t

/-! ## Dates -/

def isDigit (unit : Fin 65536) : Bool := 48 ≤ unit.1 && unit.1 ≤ 57

def hyphen : Fin 65536 := 45

/-- `/^\d{4}-\d{2}-\d{2}$/` -/
def dateOnly : Units → Bool
  | [y₁, y₂, y₃, y₄, h₁, m₁, m₂, h₂, d₁, d₂] =>
    [y₁, y₂, y₃, y₄, m₁, m₂, d₁, d₂].all isDigit && h₁ = hyphen && h₂ = hyphen
  | _ => false

/-- `assertValidDate`, on a date without properties of its own. -/
def assertValidDate : Option JsDate.Time → Except FieldTypeError JsDate.Time
  | none => .error .invalidDate
  | some time => if JsDate.Portable time then .ok time else .error .notPortable

section
variable (dates : DateParser)

def normalizeDateString (value : Units) : Except FieldTypeError Units :=
  if dateOnly value then do
    let date ← assertValidDate (dates.parse (value ++ ofString "T00:00:00.000Z"))
    if (encode (JsDate.isoString date)).take 10 ≠ value then .error .notIsoDate
    else .ok (encode (JsDate.isoString date))
  else do
    let date ← assertValidDate (dates.parse value)
    if encode (JsDate.isoString date) ≠ value then .error .notCanonical
    else .ok value

def normalizeDateRuntimeValue : Data → Except FieldTypeError JsDate.Time
  | .date time => assertValidDate (some time)
  | .string value => do
    let iso ← normalizeDateString dates value
    -- The source takes the date as it is; a text that was accepted is always read.
    match dates.parse iso with
    | some time => .ok time
    | none => .error .invalidDate
  | _ => .error .notDate

/-! ## Reading rows -/

/-- `applyFieldTypeTransforms` of reads, with the field types that are left. -/
def applyFieldTypeTransforms :
    List (Units × FieldType) → List (Units × Data) → Except FieldTypeError (List (Units × Data))
  | [], next => .ok next
  | (field, type) :: types, next =>
    if type ≠ .date then applyFieldTypeTransforms types next
    else do
      let current ← (valueFor (.object next) field).mapError .data
      if current.missing then applyFieldTypeTransforms types next
      else do
        let date ← normalizeDateRuntimeValue dates current
        let next ← (setPath next field (.date date)).mapError .data
        applyFieldTypeTransforms types next

end

/-- `value !== undefined` -/
def Data.defined : Data → Bool
  | undefined => false
  | _ => true

def withIdField (fields : List Units) (idField : Units) : List Units := (idField :: fields).eraseDups

/-- The loop of `pickFields`. -/
def pickInto (data : Data) : List Units → List (Units × Data) → Except DataError (List (Units × Data))
  | [], picked => .ok picked
  | field :: fields, picked => do
    let value ← valueFor data field
    if value.defined then do
      let picked ← setPath picked field value
      pickInto data fields picked
    else pickInto data fields picked

def pickFields (data : Data) (fields : List Units) (idField : Units) :
    Except DataError (List (Units × Data)) := do
  let id ← valueFor data idField
  let picked ← setPath [] idField id
  pickInto data (withIdField fields idField) picked

/-! ## Stored dates -/

/-- The text of a date that may be stored: canonical, or the day alone of a midnight. -/
structure StoredDate (value : Units) (time : JsDate.Time) : Prop where
  portable : JsDate.Portable time
  text : value = encode (JsDate.isoString time) ∨
    value = encode (JsDate.dateText time) ∧ JsDate.timeOfDay time = 0

theorem length_encode {cs : List Char} (h : ∀ c ∈ cs, c.toNat < 0x10000) :
    (encode cs).length = cs.length := by
  induction cs with
  | nil => rfl
  | cons c cs ih =>
    rw [List.forall_mem_cons] at h
    rw [encode, List.flatMap_cons, Utf16.units_of_lt h.1, List.singleton_append, List.length_cons,
      List.length_cons]
    exact congrArg (· + 1) (ih h.2)

theorem isoString_units (t : JsDate.Time) :
    encode (JsDate.isoString t) =
      encode (JsDate.dateText t) ++ encode (JsDate.timeText (JsDate.timeOfDay t)) := by
  rw [JsDate.isoString_eq, Utf16.encode_append]

theorem length_encode_dateText {t : JsDate.Time} (h : JsDate.Portable t) :
    (encode (JsDate.dateText t)).length = 10 := by
  rw [length_encode, JsDate.length_dateText h]
  intro c hc
  have hmem : c ∈ JsDate.isoString t := by
    rw [JsDate.isoString_eq]
    exact List.mem_append_left _ hc
  rcases JsDate.mem_isoString hmem with hdigit | hother
  · have hnine : c.toNat ≤ 57 := (Char.isDigit_iff_toNat.mp hdigit).2
    omega
  · have hall : ∀ c ∈ ['-', '+', 'T', ':', '.', 'Z'], decide (c.toNat < 0x10000) = true :=
      List.all_eq_true.mp rfl
    exact of_decide_eq_true (hall c hother)

section
variable {dates : DateParser}

theorem assertValidDate_eq_ok {parsed : Option JsDate.Time} {time : JsDate.Time} :
    assertValidDate parsed = .ok time ↔ parsed = some time ∧ JsDate.Portable time := by
  cases parsed with
  | none =>
    constructor
    · intro h
      cases h
    · rintro ⟨h, -⟩
      cases h
  | some time' =>
    rw [assertValidDate]
    split
    · rename_i hportable
      constructor
      · intro h
        cases h
        exact ⟨rfl, hportable⟩
      · rintro ⟨h, -⟩
        cases h
        rfl
    · rename_i hportable
      constructor
      · intro h
        cases h
      · rintro ⟨h, hportable'⟩
        cases h
        exact absurd hportable' hportable

/-- What the check of a date text accepts. -/
theorem stored_of_normalizeDateString {value iso : Units}
    (h : normalizeDateString dates value = .ok iso) :
    ∃ time, StoredDate value time ∧ iso = encode (JsDate.isoString time) := by
  rw [normalizeDateString] at h
  split at h
  · obtain ⟨time, hvalid, h⟩ := Except.bind_eq_ok.mp h
    obtain ⟨hparse, hportable⟩ := assertValidDate_eq_ok.mp hvalid
    split at h
    · cases h
    · rename_i htake
      cases h
      -- The parser read the midnight of the day, so the date that it gave is that midnight.
      have hvalue : value = encode (JsDate.dateText time) := by
        rw [← not_not.mp htake, isoString_units, List.take_left' (length_encode_dateText hportable)]
      obtain ⟨midnight, hportable', htext, -, hzero⟩ := JsDate.exists_midnight hportable
      have hiso : value ++ ofString "T00:00:00.000Z" = encode (JsDate.isoString midnight) := by
        rw [htext, Utf16.encode_append, hvalue]
        exact congrArg _ (by decide)
      rw [hiso, dates.parse_isoString midnight hportable'] at hparse
      cases hparse
      exact ⟨_, ⟨hportable, Or.inr ⟨hvalue, hzero⟩⟩, rfl⟩
  · obtain ⟨time, hvalid, h⟩ := Except.bind_eq_ok.mp h
    obtain ⟨-, hportable⟩ := assertValidDate_eq_ok.mp hvalid
    split at h
    · cases h
    · rename_i htext
      cases h
      exact ⟨time, ⟨hportable, Or.inl (not_not.mp htext).symm⟩, (not_not.mp htext).symm⟩

/-- A date that is stored is read as that date. -/
theorem normalizeDateRuntimeValue_stored {value iso : Units}
    (h : normalizeDateString dates value = .ok iso) :
    ∃ time, StoredDate value time ∧ normalizeDateRuntimeValue dates (.string value) = .ok time := by
  obtain ⟨time, hstored, rfl⟩ := stored_of_normalizeDateString h
  refine ⟨time, hstored, ?_⟩
  rw [normalizeDateRuntimeValue, h]
  change (match dates.parse (encode (JsDate.isoString time)) with
    | some time => Except.ok time
    | none => .error FieldTypeError.invalidDate) = _
  rw [dates.parse_isoString time hstored.portable]

end

/-- Two stored texts of which the first is not behind the second, are of dates in that order. -/
theorem StoredDate.mono {v w : Units} {s t : JsDate.Time} (hv : StoredDate v s) (hw : StoredDate w t)
    (h : (List.compareLex compare v w).isLE = true) : s.1 ≤ t.1 := by
  have hrest : ∀ {value : Units} {time : JsDate.Time}, StoredDate value time →
      ∃ rest, value = encode (JsDate.dateText time ++ rest) ∧
        (rest = JsDate.timeText (JsDate.timeOfDay time) ∨ rest = [] ∧ JsDate.timeOfDay time = 0) := by
    rintro value time ⟨-, rfl | ⟨rfl, hzero⟩⟩
    · exact ⟨_, by rw [JsDate.isoString_eq], Or.inl rfl⟩
    · exact ⟨[], by rw [List.append_nil], Or.inr ⟨rfl, hzero⟩⟩
  obtain ⟨rest, rfl, hrest₁⟩ := hrest hv
  obtain ⟨rest', rfl, hrest₂⟩ := hrest hw
  rw [Utf16.compareLex_encode, JsDate.compareLex_dateText hv.portable hw.portable] at h
  have hs := JsDate.time_eq s
  have ht := JsDate.time_eq t
  have hslt := JsDate.timeOfDay_lt s
  have htlt := JsDate.timeOfDay_lt t
  cases hdays : compare (JsDate.dayOf s) (JsDate.dayOf t) with
  | lt =>
    have := Int.compare_eq_lt.mp hdays
    omega
  | gt =>
    rw [hdays] at h
    cases h
  | eq =>
    have hday := Int.compare_eq_eq.mp hdays
    rw [hdays, Ordering.eq_then] at h
    rcases hrest₁ with rfl | ⟨rfl, hzero⟩
    · rcases hrest₂ with rfl | ⟨rfl, hzero⟩
      · rw [JsDate.compareLex_timeText hslt htlt] at h
        cases htimes : compare (JsDate.timeOfDay s) (JsDate.timeOfDay t) with
        | lt =>
          have := Nat.compare_eq_lt.mp htimes
          omega
        | eq =>
          have := Nat.compare_eq_eq.mp htimes
          omega
        | gt =>
          rw [htimes] at h
          cases h
      · -- A time of the day is behind the day alone.
        cases h
    · omega

/-- A text is of one date. -/
theorem StoredDate.unique {value : Units} {s t : JsDate.Time} (hs : StoredDate value s)
    (ht : StoredDate value t) : s = t := by
  have hself : (List.compareLex compare value value).isLE = true := by
    have heq : List.compareLex compare value value = .eq := Std.ReflCmp.compare_self
    rw [heq]
    rfl
  exact Subtype.ext (Int.le_antisymm (hs.mono ht hself) (ht.mono hs hself))

end ActiveTs.Query
