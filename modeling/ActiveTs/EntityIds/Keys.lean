import ActiveTs.Lib.Except
import ActiveTs.Lib.JsNumber
import ActiveTs.Lib.Utf16

/-! # Entity ids and their keys

An id is a string or a safe integer; a 64-bit integer of Datastore is a string in a reserved form that
no other id has. The key of an id names its kind, and every key can be read back. -/

namespace ActiveTs.EntityIds

open Utf16 (Units ofString encode decode isHigh isLow)

/-! ## Ids -/

/-- What a caller may give as an id. -/
inductive EntityId
  | string (value : Units)
  | number (value : JsNumber)
  deriving DecidableEq

/-- The messages of `ActiveTsValidationError`. -/
inductive ValidationError
  | emptyString
  | malformedUnicode
  | tooLong
  | nullByte
  | negativeZero
  | notSafeInteger
  | notCanonicalInt64
  | zeroInt64
  | notInt64
  | safeRangeInt64
  | notCanonicalKey
  | notAnId
  | unsafeKind
  | badNamespace
  | emptyPath
  | zeroId
  | notCanonicalInteger
  | nameAndId
  | nameNotString
  | idNotNumeric
  | numericSegment
  | notKindIdPairs
  | finalKind
  | finalId
  deriving DecidableEq

def MAX_ENTITY_ID_BYTES : Nat := 1024

/-- `/[\uD800-\uDFFF]/u`: a surrogate outside a pair. -/
def hasLoneSurrogate : Units → Bool
  | [] => false
  | [unit] => isHigh unit || isLow unit
  | high :: low :: rest =>
    if isHigh high && isLow low then hasLoneSurrogate rest
    else isHigh high || isLow high || hasLoneSurrogate (low :: rest)

/-- `Buffer.byteLength(value, 'utf8')`. -/
def byteLength (value : Units) : Nat := ((decode value).map Char.utf8Size).sum

/-! ## Integers of Datastore -/

def DATASTORE_INT64_ID_PREFIX : Units := ofString "\x00active-ts:datastore-int64:"

def isDigit (unit : Fin 65536) : Bool := 48 ≤ unit.1 && unit.1 ≤ 57

/-- `0|[1-9]\d*` -/
def unsignedPattern : Units → Bool
  | [] => false
  | first :: rest =>
    first.1 = 48 && rest.isEmpty || (49 ≤ first.1 && first.1 ≤ 57 && rest.all isDigit)

/-- `/^-?(0|[1-9]\d*)$/` -/
def integerPattern : Units → Bool
  | [] => false
  | first :: rest => if first.1 = 45 then unsignedPattern rest else unsignedPattern (first :: rest)

def digitsValue (digits : Units) : Nat := digits.foldl (fun value unit => 10 * value + (unit.1 - 48)) 0

/-- `BigInt` of a text of this pattern. -/
def bigInt : Units → Int
  | [] => 0
  | first :: rest => if first.1 = 45 then -(digitsValue rest : Int) else digitsValue (first :: rest)

def canonicalDecimal (decimal : Units) : Bool :=
  integerPattern decimal && decimal != ofString "-0"

def int64Range (value : Int) : Bool := -9223372036854775808 ≤ value && value ≤ 9223372036854775807

def safeRange (value : Int) : Bool := -9007199254740991 ≤ value && value ≤ 9007199254740991

def datastoreInt64Id (decimal : Units) : Except ValidationError EntityId :=
  if !canonicalDecimal decimal then .error .notCanonicalInt64
  else if bigInt decimal = 0 then .error .zeroInt64
  else if !int64Range (bigInt decimal) then .error .notInt64
  else if safeRange (bigInt decimal) then .error .safeRangeInt64
  else .ok (.string (DATASTORE_INT64_ID_PREFIX ++ decimal))

/-- The digits of an id in the reserved form. -/
def datastoreInt64Decimal (value : Units) : Option Units :=
  if !DATASTORE_INT64_ID_PREFIX.isPrefixOf value then none
  else
    let decimal := value.drop DATASTORE_INT64_ID_PREFIX.length
    if !canonicalDecimal decimal then none
    else if bigInt decimal = 0 || !int64Range (bigInt decimal) then none
    else if safeRange (bigInt decimal) then none
    else some decimal

def isDatastoreInt64Id : EntityId → Bool
  | .string value => (datastoreInt64Decimal value).isSome
  | .number _ => false

/-! ## Safe ids -/

def isSafeInteger : JsNumber → Bool
  | .finite value => value.1.den = 1 && safeRange value.1.num
  | .negativeZero => true
  | .nan | .infinite _ => false

def assertSafeEntityId (id : EntityId) : Except ValidationError Unit :=
  if isDatastoreInt64Id id then .ok ()
  else
    match id with
    | .string value =>
      if value = [] then .error .emptyString
      else if hasLoneSurrogate value then .error .malformedUnicode
      else if MAX_ENTITY_ID_BYTES < byteLength value then .error .tooLong
      else if value.contains 0 then .error .nullByte
      else .ok ()
    | .number value =>
      if value = .negativeZero then .error .negativeZero
      else if !isSafeInteger value then .error .notSafeInteger
      else .ok ()

/-! ## Keys -/

/-- The kind of an id and its text. -/
def keyText : EntityId → Units
  | .string value =>
    match datastoreInt64Decimal value with
    | some decimal => ofString "datastore-int64:" ++ decimal
    | none => ofString "string:" ++ value
  | .number value => ofString "number:" ++ encode (JsNumber.text value)

def entityIdKey (id : EntityId) : Except ValidationError Units := do
  assertSafeEntityId id
  .ok (keyText id)

def colon : Fin 65536 := 58

/-- `Number(value)`. -/
def numberOf (value : Units) : JsNumber := JsNumber.read (decode value)

def assertCanonical (id : EntityId) (key : Units) : Except ValidationError EntityId := do
  if (← entityIdKey id) = key then .ok id else .error .notCanonicalKey

def entityIdFromKey (key : Units) : Except ValidationError EntityId :=
  if key.contains colon then
    let type := key.takeWhile (· ≠ colon)
    let value := (key.dropWhile (· ≠ colon)).drop 1
    if type = ofString "datastore-int64" then do
      assertCanonical (← datastoreInt64Id value) key
    else if type = ofString "number" then do
      assertSafeEntityId (.number (numberOf value))
      assertCanonical (.number (numberOf value)) key
    else if type = ofString "string" then do
      assertSafeEntityId (.string value)
      .ok (.string value)
    else do
      assertSafeEntityId (.string key)
      .ok (.string key)
  else do
    assertSafeEntityId (.string key)
    .ok (.string key)

def entityIdFromCanonicalKey (key : Units) : Except ValidationError EntityId := do
  let id ← entityIdFromKey key
  assertCanonical id key

/-! ## Reading a key back -/

theorem datastoreInt64Decimal_some {value decimal : Units}
    (h : datastoreInt64Decimal value = some decimal) :
    value = DATASTORE_INT64_ID_PREFIX ++ decimal ∧
      datastoreInt64Id decimal = .ok (.string value) := by
  simp only [datastoreInt64Decimal] at h
  split at h
  · cases h
  · rename_i hpre
    split at h
    · cases h
    · rename_i hcanonical
      split at h
      · cases h
      · rename_i hrange
        split at h
        · cases h
        · rename_i hsafe
          cases h
          have hvalue : value = DATASTORE_INT64_ID_PREFIX ++
              value.drop DATASTORE_INT64_ID_PREFIX.length := by
            rw [Bool.not_eq_true', Bool.not_eq_false, List.isPrefixOf_iff_prefix] at hpre
            exact List.prefix_iff_eq_append.mp hpre |>.symm
          rw [Bool.or_eq_true, decide_eq_true_iff, not_or] at hrange
          refine ⟨hvalue, ?_⟩
          rw [datastoreInt64Id, if_neg hcanonical, if_neg hrange.1, if_neg hrange.2, if_neg hsafe,
            ← hvalue]

theorem split_key (type : Units) (h : colon ∉ type) (value : Units) :
    (type ++ colon :: value).contains colon = true ∧
      (type ++ colon :: value).takeWhile (· ≠ colon) = type ∧
      ((type ++ colon :: value).dropWhile (· ≠ colon)).drop 1 = value := by
  have hne : ∀ unit ∈ type, decide (unit ≠ colon) = true := by
    intro unit hunit
    rw [decide_eq_true_iff]
    rintro rfl
    exact h hunit
  refine ⟨by simp, ?_, ?_⟩
  · rw [List.takeWhile_append_of_pos hne, List.takeWhile_cons_of_neg (by simp), List.append_nil]
  · rw [List.dropWhile_append_of_pos hne, List.dropWhile_cons_of_neg (by simp)]
    rfl

theorem safe_number {value : JsNumber} (h : assertSafeEntityId (.number value) = .ok ()) :
    value ≠ .negativeZero := by
  rintro rfl
  cases h

theorem assertCanonical_ok {id result : EntityId} {key : Units} :
    assertCanonical id key = .ok result ↔ entityIdKey id = .ok key ∧ result = id := by
  rw [assertCanonical, Except.bind_eq_ok]
  constructor
  · rintro ⟨own, hown, h⟩
    split at h
    · rename_i heq
      cases h
      exact ⟨heq ▸ hown, rfl⟩
    · cases h
  · rintro ⟨hkey, rfl⟩
    exact ⟨key, hkey, if_pos rfl⟩

theorem entityIdKey_eq_ok {id : EntityId} {key : Units} :
    entityIdKey id = .ok key ↔ assertSafeEntityId id = .ok () ∧ key = keyText id := by
  rw [entityIdKey, Except.bind_eq_ok]
  constructor
  · rintro ⟨⟨⟩, hsafe, h⟩
    exact ⟨hsafe, (Except.ok.inj h).symm⟩
  · rintro ⟨hsafe, rfl⟩
    exact ⟨(), hsafe, rfl⟩

theorem entityIdFromKey_keyText {id : EntityId} (hsafe : assertSafeEntityId id = .ok ()) :
    entityIdFromKey (keyText id) = .ok id := by
  have hkey : entityIdKey id = .ok (keyText id) := entityIdKey_eq_ok.mpr ⟨hsafe, rfl⟩
  have hcanonical : assertCanonical id (keyText id) = .ok id := assertCanonical_ok.mpr ⟨hkey, rfl⟩
  cases id with
  | string value =>
    cases hdecimal : datastoreInt64Decimal value with
    | some decimal =>
      have htext : keyText (.string value) = ofString "datastore-int64" ++ colon :: decimal := by
        rw [keyText, hdecimal]
        rfl
      obtain ⟨hcontains, htype, hvalue⟩ :=
        split_key (ofString "datastore-int64") (by decide) decimal
      simp only [entityIdFromKey]
      rw [htext, if_pos hcontains, htype, hvalue, if_pos rfl, (datastoreInt64Decimal_some hdecimal).2,
        ← htext]
      exact hcanonical
    | none =>
      have htext : keyText (.string value) = ofString "string" ++ colon :: value := by
        rw [keyText, hdecimal]
        rfl
      obtain ⟨hcontains, htype, hvalue⟩ := split_key (ofString "string") (by decide) value
      simp only [entityIdFromKey]
      rw [htext, if_pos hcontains, htype, hvalue, if_neg (by decide), if_neg (by decide), if_pos rfl,
        hsafe]
      rfl
  | number value =>
    have htext : keyText (.number value) =
        ofString "number" ++ colon :: encode (JsNumber.text value) := rfl
    have hread : numberOf (encode (JsNumber.text value)) = value := by
      rw [numberOf, Utf16.decode_encode, JsNumber.read_text (safe_number hsafe)]
    obtain ⟨hcontains, htype, hvalue⟩ :=
      split_key (ofString "number") (by decide) (encode (JsNumber.text value))
    simp only [entityIdFromKey]
    rw [htext, if_pos hcontains, htype, hvalue, if_neg (by decide), if_pos rfl, hread, hsafe, ← htext]
    exact hcanonical

theorem entityIdFromCanonicalKey_eq_ok {id : EntityId} {key : Units} :
    entityIdFromCanonicalKey key = .ok id ↔ entityIdKey id = .ok key := by
  rw [entityIdFromCanonicalKey, Except.bind_eq_ok]
  constructor
  · rintro ⟨own, -, hcanonical⟩
    obtain ⟨hkey, rfl⟩ := assertCanonical_ok.mp hcanonical
    exact hkey
  · intro hkey
    obtain ⟨hsafe, rfl⟩ := entityIdKey_eq_ok.mp hkey
    exact ⟨id, entityIdFromKey_keyText hsafe, assertCanonical_ok.mpr ⟨hkey, rfl⟩⟩

theorem entityIdKey_inj {a b : EntityId} {key : Units} (ha : entityIdKey a = .ok key)
    (hb : entityIdKey b = .ok key) : a = b := by
  rw [← entityIdFromCanonicalKey_eq_ok] at ha hb
  exact Except.ok.inj (ha.symm.trans hb)

/-- Keys are a faithful encoding of safe ids. -/
theorem keys_faithful {a b : EntityId} (ha : assertSafeEntityId a = .ok ()) :
    (entityIdKey a = entityIdKey b ↔ a = b) ∧
      (entityIdKey a >>= entityIdFromCanonicalKey) = .ok a ∧
      ∀ key id, entityIdFromCanonicalKey key = .ok id → entityIdKey id = .ok key := by
  have hkey : entityIdKey a = .ok (keyText a) := entityIdKey_eq_ok.mpr ⟨ha, rfl⟩
  refine ⟨⟨fun h => ?_, congrArg entityIdKey⟩, ?_, fun key id => entityIdFromCanonicalKey_eq_ok.mp⟩
  · exact entityIdKey_inj hkey (h ▸ hkey)
  · exact Except.bind_eq_ok.mpr ⟨keyText a, hkey, entityIdFromCanonicalKey_eq_ok.mpr hkey⟩

/-- A string that looks like the key of a 64-bit integer is not that integer. -/
theorem keys_faithful_int64 :
    let integer := EntityId.string (DATASTORE_INT64_ID_PREFIX ++ ofString "9007199254740993")
    let text := EntityId.string (ofString "datastore-int64:9007199254740993")
    (entityIdKey integer = entityIdKey text ↔ integer = text) ∧
      (entityIdKey integer >>= entityIdFromCanonicalKey) = .ok integer ∧
      ∀ key id, entityIdFromCanonicalKey key = .ok id → entityIdKey id = .ok key :=
  keys_faithful (by decide)

end ActiveTs.EntityIds
