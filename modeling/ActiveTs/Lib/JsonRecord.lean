import ActiveTs.Lib.Except
import ActiveTs.Lib.JsonText

/-! # Records in JSON

Objects with the fields of a record, and the readers of such objects. A field without a value is left
out. Of two members with one name JavaScript keeps the later. What is written is read back, so the
text of a record determines it, and so do the lines of several. -/

namespace JsonText

open Utf16 (Units)

inductive RecordError
  | notObject
  | unknownMember (name : Units)
  | badMember (name : String)
  deriving DecidableEq

/-! ## Numbers and strings -/

def integer (n : Int) : Value := .number (JsNumber.ofRat false n)

/-- `Number.isSafeInteger`, where `-0` is refused. -/
def safeInteger? : JsNumber → Option Int
  | .finite q => if q.1.den = 1 ∧ q.1.num.natAbs < 2 ^ 53 then some q.1.num else none
  | _ => none

/-- A safe integer that is not negative; `-0` counts as zero. -/
def count? : JsNumber → Option Nat
  | .negativeZero => some 0
  | value => (safeInteger? value).bind fun n => if n < 0 then none else some n.toNat

def string (s : String) : Value := .string (Utf16.ofString s)

/-- The text of well-formed units. -/
def string? (value : Units) : Option String :=
  if Utf16.encode (Utf16.decode value) = value then some (String.ofList (Utf16.decode value)) else none

/-! ## Records -/

abbrev Fields := List (String × Option Value)

def members (fields : Fields) : List (Units × Value) :=
  fields.filterMap fun field => field.2.map fun value => (Utf16.ofString field.1, value)

def record (fields : Fields) : Value := .object (members fields)

/-- The value of an own property. -/
def member (name : String) : List (Units × Value) → Option Value
  | [] => none
  | (other, value) :: rest =>
    (member name rest).or (if other = Utf16.ofString name then some value else none)

/-- The own properties of an object that has no others. -/
def readRecord (known : List String) : Value → Except RecordError (String → Option Value)
  | .object members =>
    match members.find? fun member => !known.any fun name => member.1 = Utf16.ofString name with
    | some unknown => .error (.unknownMember unknown.1)
    | none => .ok fun name => member name members
  | _ => .error .notObject

section Readers

variable (name : String)

def orBad : Option α → Except RecordError α
  | none => .error (.badMember name)
  | some a => .ok a

def readUnits : Option Value → Except RecordError Units
  | some (.string units) => .ok units
  | _ => .error (.badMember name)

def readString : Option Value → Except RecordError String
  | some (.string units) => orBad name (string? units)
  | _ => .error (.badMember name)

/-- `undefined` or a string. -/
def readStringOption : Option Value → Except RecordError (Option String)
  | none => .ok none
  | some value => (readString name (some value)).map some

def readCount : Option Value → Except RecordError Nat
  | some (.number value) => orBad name (count? value)
  | _ => .error (.badMember name)

def readSafeInteger : Option Value → Except RecordError Int
  | some (.number value) => orBad name (safeInteger? value)
  | _ => .error (.badMember name)

def readBool : Option Value → Except RecordError Bool
  | some (.bool value) => .ok value
  | _ => .error (.badMember name)

def readArray : Option Value → Except RecordError (List Value)
  | some (.array items) => .ok items
  | _ => .error (.badMember name)

/-! ## What is written is read back -/

theorem integer_eq {n : Int} (h : n.natAbs < 2 ^ 53) :
    integer n = .number (.finite ⟨n, Binary64.nearest_intCast h⟩) :=
  congrArg Value.number (JsNumber.ofRat_of_nearest (Binary64.nearest_intCast h) fun _ => rfl)

theorem safeInteger?_finite {n : Int} (h : n.natAbs < 2 ^ 53) :
    safeInteger? (.finite ⟨n, Binary64.nearest_intCast h⟩) = some n := by
  rw [safeInteger?, if_pos ⟨Rat.den_intCast n, by rw [Rat.num_intCast]; exact h⟩, Rat.num_intCast]

theorem natAbs_lt_of_safeInteger? {value : JsNumber} {n : Int} (h : safeInteger? value = some n) :
    n.natAbs < 2 ^ 53 := by
  unfold safeInteger? at h
  split at h
  · split at h
    · rename_i hsafe
      obtain rfl := Option.some.inj h
      exact hsafe.2
    · cases h
  · cases h

theorem readSafeInteger_integer {n : Int} (h : n.natAbs < 2 ^ 53) :
    readSafeInteger name (some (integer n)) = .ok n := by
  rw [integer_eq h, readSafeInteger, safeInteger?_finite h]
  rfl

theorem readCount_integer {n : Nat} (h : n < 2 ^ 53) :
    readCount name (some (integer n)) = .ok n := by
  have hnat : (n : Int).natAbs < 2 ^ 53 := h
  rw [integer_eq hnat, readCount, count?, safeInteger?_finite hnat, Option.bind_some,
    if_neg (Int.not_lt.mpr (Int.natCast_nonneg n)), Int.toNat_natCast]
  · rfl
  · intro hzero
    cases hzero

theorem string?_ofString (s : String) : string? (Utf16.ofString s) = some s := by
  rw [string?, Utf16.ofString, Utf16.decode_encode, if_pos rfl, String.ofList_toList]

theorem ofString_inj {s t : String} : Utf16.ofString s = Utf16.ofString t ↔ s = t := by
  constructor
  · intro h
    exact String.toList_inj.mp (Utf16.encode_injective h)
  · exact congrArg _

@[simp] theorem readString_string (s : String) : readString name (some (string s)) = .ok s := by
  rw [string, readString, string?_ofString]
  rfl

@[simp] theorem readStringOption_map (s : Option String) :
    readStringOption name (s.map string) = .ok s := by
  cases s with
  | none => rfl
  | some s =>
    rw [Option.map_some, readStringOption, readString_string]
    rfl

theorem member_members_of_not_mem {fields : Fields} (h : name ∉ fields.map Prod.fst) :
    member name (members fields) = none := by
  induction fields with
  | nil => rfl
  | cons field fields ih =>
    obtain ⟨other, value⟩ := field
    rw [List.map_cons, List.mem_cons, not_or] at h
    cases value with
    | none => exact ih h.2
    | some value =>
      change (member name (members fields)).or _ = none
      rw [ih h.2, Option.none_or, if_neg]
      exact fun heq => h.1 (ofString_inj.mp heq).symm

theorem member_members {fields : Fields} (h : (fields.map Prod.fst).Nodup) :
    member name (members fields) = (fields.lookup name).join := by
  induction fields with
  | nil => rfl
  | cons field fields ih =>
    obtain ⟨other, value⟩ := field
    rw [List.map_cons, List.nodup_cons] at h
    rw [List.lookup_cons]
    by_cases heq : name = other
    · subst heq
      have hrest := member_members_of_not_mem name h.1
      rw [beq_self_eq_true]
      cases value with
      | none => exact hrest
      | some value =>
        change (member name (members fields)).or _ = _
        rw [hrest, if_pos rfl]
        rfl
    · rw [beq_false_of_ne heq]
      cases value with
      | none => exact ih h.2
      | some value =>
        change (member name (members fields)).or _ = _
        rw [ih h.2, if_neg fun h => heq (ofString_inj.mp h).symm, Option.or_none]

theorem readRecord_record {known : List String} {fields : Fields}
    (hknown : fields.map Prod.fst ⊆ known) (hnodup : (fields.map Prod.fst).Nodup) :
    readRecord known (record fields) = .ok fun name => (fields.lookup name).join := by
  have hfind : (members fields).find? (fun member =>
      !known.any fun name => member.1 = Utf16.ofString name) = none := by
    rw [List.find?_eq_none]
    intro entry hentry
    obtain ⟨field, hfield, hvalue⟩ := List.mem_filterMap.mp hentry
    obtain ⟨value, _, rfl⟩ := Option.map_eq_some_iff.mp hvalue
    have hname : known.any (fun name => Utf16.ofString field.1 = Utf16.ofString name) = true :=
      List.any_eq_true.mpr ⟨field.1, hknown (List.mem_map_of_mem hfield), decide_eq_true rfl⟩
    rw [hname]
    decide
  rw [record, readRecord, hfind]
  exact congrArg Except.ok (funext fun name => member_members name hnodup)

end Readers

/-! ## Texts -/

theorem plain_integer {n : Int} (h : n.natAbs < 2 ^ 53) : (integer n).Plain := by
  rw [integer_eq h]
  exact .number _

theorem plain_string (s : String) : (string s).Plain := .string _

theorem plain_record {fields : Fields} (h : ∀ field ∈ fields, ∀ value ∈ field.2, value.Plain) :
    (record fields).Plain := by
  apply Value.Plain.object
  intro entry hentry
  obtain ⟨field, hfield, hvalue⟩ := List.mem_filterMap.mp hentry
  obtain ⟨value, hsome, rfl⟩ := Option.map_eq_some_iff.mp hvalue
  exact h field hfield value hsome

theorem text_inj {left right : Value} (hleft : left.Plain) (hright : right.Plain)
    (h : text left = text right) : left = right := by
  have hparse := parse_text hleft
  rw [h, parse_text hright] at hparse
  exact (Option.some.inj hparse).symm

/-- The values, each on a line. -/
def lines (values : List Value) : List Char := values.flatMap fun value => text value ++ ['\n']

theorem lines_cons (value : Value) (values : List Value) :
    lines (value :: values) = text value ++ '\n' :: lines values := by
  rw [lines, List.flatMap_cons, List.append_assoc]
  rfl

/-- A text is read to its end, so a line ends where the parser stops. -/
theorem lines_inj {left right : List Value} (hleft : ∀ value ∈ left, value.Plain)
    (hright : ∀ value ∈ right, value.Plain) (h : lines left = lines right) : left = right := by
  induction left generalizing right with
  | nil =>
    cases right with
    | nil => rfl
    | cons value right =>
      rw [lines_cons] at h
      exact absurd h.symm (by simp [lines])
  | cons value left ih =>
    cases right with
    | nil =>
      rw [lines_cons] at h
      exact absurd h (by simp [lines])
    | cons value' right =>
      rw [List.forall_mem_cons] at hleft hright
      rw [lines_cons, lines_cons] at h
      have hend (rest : List Char) : Framing.Ends NumberEnd ('\n' :: rest) := by
        intro c hc
        obtain rfl : '\n' = c := Option.some.inj hc
        rfl
      obtain ⟨fuel, hfuel, hfuel'⟩ : ∃ fuel, 2 * (text value).length ≤ fuel ∧
          2 * (text value').length ≤ fuel :=
        ⟨_, Nat.le_max_left _ _, Nat.le_max_right _ _⟩
      have hread := readsBack hleft.1 fuel _ hfuel (hend (lines left))
      rw [h, readsBack hright.1 fuel _ hfuel' (hend (lines right))] at hread
      obtain ⟨hvalue, hrest⟩ := Prod.mk.inj (Option.some.inj hread)
      rw [hvalue, ih hleft.2 hright.2 (List.cons.inj hrest).2.symm]

end JsonText
