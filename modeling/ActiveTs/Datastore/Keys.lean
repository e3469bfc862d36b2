import ActiveTs.Lib.Except
import ActiveTs.Outbox.IdentityText

/-! # Datastore keys

A key of Datastore is a path of kinds and ids below a namespace, where an id is a 64-bit integer or
a name. The inventory of a repair writes the ids as texts beside how they are stored; active-ts
compares such keys by their identity text. Two of them have one identity exactly when they name one
key of the SDK. -/

namespace ActiveTs.Datastore

open ActiveTs.Outbox (EntityId DatastoreKey entityIdKey entityIdKey_string entityIdKey_number
  entityIdKey_datastoreInt64 pathKeys)

inductive KeyError
  | notCanonicalInteger
  | zeroId
  | notInt64
  | withinSafeRange
  | unsafeEntityId
  | unsafeKind
  | emptyPath
  | badNamespace
  | namespaceMismatch
  | leafKindMismatch
  deriving DecidableEq

/-! ## Ids -/

def safeInteger (value : Int) : Bool := -9007199254740991 ≤ value && value ≤ 9007199254740991

def int64 (value : Int) : Bool := -9223372036854775808 ≤ value && value ≤ 9223372036854775807

def signedDigits : List Char → Int
  | '-' :: digits => -(Nat.ofDigitChars 10 digits 0 : Int)
  | digits => Nat.ofDigitChars 10 digits 0

/-- The integer of a text that matches `/^-?(0|[1-9]\d*)$/` and is not `-0`. -/
def decimalInteger (text : String) : Option Int :=
  if toString (signedDigits text.toList) = text then some (signedDigits text.toList) else none

theorem decimalInteger_text {text : String} {value : Int} (h : decimalInteger text = some value) :
    toString value = text := by
  unfold decimalInteger at h
  split at h
  · rename_i heq
    cases h
    exact heq
  · cases h

theorem signedDigits_toDigits (n : Nat) : signedDigits (Nat.toDigits 10 n) = n := by
  have hsign : '-' ∉ Nat.toDigits 10 n := by
    intro h
    have hdigit := Nat.isDigit_of_mem_toDigits (b := 10) (n := n) (by decide) (by decide) h
    revert hdigit
    decide
  rw [signedDigits, Nat.ofDigitChars_ten_toDigits]
  intro digits h
  exact hsign (h ▸ List.mem_cons_self)

theorem signedDigits_toString (value : Int) : signedDigits (toString value).toList = value := by
  cases value with
  | ofNat n =>
    have htext : (toString (Int.ofNat n)).toList = Nat.toDigits 10 n := by
      rw [show toString (Int.ofNat n) = n.repr from rfl, Nat.repr, String.toList_ofList]
    rw [htext, signedDigits_toDigits]
    rfl
  | negSucc n =>
    have htext : (toString (Int.negSucc n)).toList = '-' :: Nat.toDigits 10 (n + 1) := by
      rw [show toString (Int.negSucc n) = "-" ++ (n + 1).repr from rfl, String.toList_append, Nat.repr,
        String.toList_ofList, String.toList_ofList, List.singleton_append]
    rw [htext, signedDigits, Nat.ofDigitChars_ten_toDigits]
    rfl

theorem decimalInteger_toString (value : Int) : decimalInteger (toString value) = some value := by
  rw [decimalInteger, signedDigits_toString, if_pos rfl]

def int64Id (value : Int) : Bool := value != 0 && int64 value && !safeInteger value

def datastoreInt64Id (text : String) : Except KeyError EntityId :=
  match decimalInteger text with
  | none => .error .notCanonicalInteger
  | some value =>
    if value = 0 then .error .zeroId
    else if !int64 value then .error .notInt64
    else if safeInteger value then .error .withinSafeRange
    else .ok (.datastoreInt64 text)

/-- A JavaScript string as an id: the reserved representation stands for a 64-bit integer. -/
def entityIdOfText (text : String) : EntityId :=
  if "\x00active-ts:datastore-int64:".toList.isPrefixOf text.toList then
    match datastoreInt64Id (String.ofList (text.toList.drop 27)) with
    | .ok id => id
    | .error _ => .string text
  else .string text

def safeEntityId : EntityId → Bool
  | .string value =>
    value.utf8ByteSize != 0 && value.utf8ByteSize ≤ 1024 && !value.toList.contains (Char.ofNat 0)
  | .number value => safeInteger value
  | .datastoreInt64 value => (decimalInteger value).any int64Id

def assertSafeEntityId (id : EntityId) : Except KeyError Unit :=
  if safeEntityId id then .ok () else .error .unsafeEntityId

def assertNativeDatastoreEntityId (id : EntityId) : Except KeyError Unit :=
  if !safeEntityId id then .error .unsafeEntityId
  else if id = .number 0 then .error .zeroId
  else .ok ()

def datastoreEntityIdFromNativeNumeric (text : String) : Except KeyError EntityId :=
  match decimalInteger text with
  | none => .error .notCanonicalInteger
  | some value =>
    if safeInteger value then
      (assertNativeDatastoreEntityId (.number value)).map fun _ => .number value
    else datastoreInt64Id text

/-! ## Keys -/

def letter (c : Char) : Bool := ('a' ≤ c && c ≤ 'z') || ('A' ≤ c && c ≤ 'Z')

/-- `assertSafeSchemaIdentifier` and `assertSafePhysicalIdentifierLength`: the names that start with
`__` do not start with a letter. -/
def safeKind (kind : String) : Bool :=
  kind.toList.head?.any letter &&
    kind.toList.all (fun c => letter c || ('0' ≤ c && c ≤ '9') || c == '_' || c == '-') &&
    kind != "constructor" && kind != "prototype" && kind.utf8ByteSize ≤ 63

def safeNamespace (ns : Option String) : Bool :=
  ns.all fun name => name.utf8ByteSize != 0 && !name.toList.contains (Char.ofNat 0)

def normalizeDatastoreKey (key : DatastoreKey) : Except KeyError DatastoreKey :=
  if key.path = [] then .error .emptyPath
  else if !key.path.all fun part => safeKind part.1 then .error .unsafeKind
  else if !key.path.all fun part => safeEntityId part.2 then .error .unsafeEntityId
  else if !safeNamespace key.ns then .error .badNamespace
  else .ok key

def datastoreKeyIdentity (key : DatastoreKey) : Except KeyError String :=
  (normalizeDatastoreKey key).map Outbox.datastoreKeyIdentity

/-! ## Keys of the SDK -/

/-- How Datastore stores an id. -/
inductive SdkId
  | id (value : Int)
  | name (value : String)
  deriving DecidableEq

structure SdkKey where
  ns : Option String
  path : List (String × SdkId)
  deriving DecidableEq

/-- A part of a path that is given to `client.key`; an int64 goes through `client.int`. -/
def sdkId : EntityId → SdkId
  | .string value => .name value
  | .number value => .id value
  | .datastoreInt64 value => .id ((decimalInteger value).getD 0)

theorem int_text_inj {m n : Int} (h : toString m = toString n) : m = n := by
  have hm := decimalInteger_toString m
  rw [h, decimalInteger_toString] at hm
  exact (Option.some.inj hm).symm

theorem entityIdKey_inj {left right : EntityId} (h : entityIdKey left = entityIdKey right) :
    left = right := by
  have hchars := congrArg String.toList h
  cases left with
  | string value =>
    cases right with
    | string => exact congrArg EntityId.string (by simpa [entityIdKey_string] using h)
    | number => simp [entityIdKey_string, entityIdKey_number] at hchars
    | datastoreInt64 => simp [entityIdKey_string, entityIdKey_datastoreInt64] at hchars
  | number value =>
    cases right with
    | string => simp [entityIdKey_string, entityIdKey_number] at hchars
    | number value' =>
      simp only [entityIdKey_number, String.toList_append] at hchars
      have htext := String.toList_inj.mp (List.append_cancel_left hchars)
      exact congrArg EntityId.number (int_text_inj htext)
    | datastoreInt64 => simp [entityIdKey_number, entityIdKey_datastoreInt64] at hchars
  | datastoreInt64 value =>
    cases right with
    | string => simp [entityIdKey_string, entityIdKey_datastoreInt64] at hchars
    | number => simp [entityIdKey_number, entityIdKey_datastoreInt64] at hchars
    | datastoreInt64 => exact congrArg EntityId.datastoreInt64 (by simpa [entityIdKey_datastoreInt64] using h)

theorem safe_int64 {text : String} (h : safeEntityId (.datastoreInt64 text)) :
    ∃ value, decimalInteger text = some value ∧ int64Id value := by
  rw [safeEntityId] at h
  cases hvalue : decimalInteger text with
  | none => simp [hvalue] at h
  | some value => exact ⟨value, rfl, by simpa [hvalue] using h⟩

/-- A number is within the safe range, an int64 is not. -/
theorem sdkId_number_ne_int64 {value : Int} {text : String} (hvalue : safeEntityId (.number value))
    (htext : safeEntityId (.datastoreInt64 text)) :
    sdkId (.number value) ≠ sdkId (.datastoreInt64 text) := by
  obtain ⟨value', hvalue', hint64⟩ := safe_int64 htext
  intro h
  rw [sdkId, sdkId, hvalue'] at h
  obtain rfl : value = value' := SdkId.id.inj h
  simp_all [safeEntityId, int64Id]

theorem sdkId_inj {left right : EntityId} (hleft : safeEntityId left) (hright : safeEntityId right)
    (h : sdkId left = sdkId right) : left = right := by
  cases left with
  | string value =>
    cases right with
    | string => exact congrArg EntityId.string (SdkId.name.inj h)
    | number => cases h
    | datastoreInt64 => cases h
  | number value =>
    cases right with
    | string => cases h
    | number => exact congrArg EntityId.number (SdkId.id.inj h)
    | datastoreInt64 => exact absurd h (sdkId_number_ne_int64 hleft hright)
  | datastoreInt64 text =>
    cases right with
    | string => cases h
    | number => exact absurd h.symm (sdkId_number_ne_int64 hright hleft)
    | datastoreInt64 text' =>
      obtain ⟨value, hvalue, _⟩ := safe_int64 hleft
      obtain ⟨value', hvalue', _⟩ := safe_int64 hright
      rw [sdkId, sdkId, hvalue, hvalue'] at h
      obtain rfl : value = value' := SdkId.id.inj h
      rw [← decimalInteger_text hvalue, ← decimalInteger_text hvalue']

def sdkPart (part : String × EntityId) : String × SdkId := (part.1, sdkId part.2)

theorem sdkPath_inj {left right : List (String × EntityId)}
    (hleft : ∀ part ∈ left, safeEntityId part.2) (hright : ∀ part ∈ right, safeEntityId part.2)
    (h : left.map sdkPart = right.map sdkPart) : left = right := by
  induction left generalizing right with
  | nil => exact (List.map_eq_nil_iff.mp h.symm).symm
  | cons part left ih =>
    cases right with
    | nil => cases h
    | cons part' right =>
      obtain ⟨hpart, hrest⟩ := List.cons.inj h
      have hid := sdkId_inj (hleft _ List.mem_cons_self) (hright _ List.mem_cons_self)
        (Prod.mk.inj hpart).2
      have hkind : part.1 = part'.1 := (Prod.mk.inj hpart).1
      rw [ih (fun p hp => hleft p (List.mem_cons_of_mem _ hp))
        (fun p hp => hright p (List.mem_cons_of_mem _ hp)) hrest, Prod.ext hkind hid]

theorem pathKeys_inj {left right : List (String × EntityId)} (h : pathKeys left = pathKeys right) :
    left = right := by
  apply List.map_injective_iff.mpr _ h
  intro part part' hpart
  exact Prod.ext (Prod.mk.inj hpart).1 (entityIdKey_inj (Prod.mk.inj hpart).2)

/-! ## Keys of an inventory -/

inductive KeyStorage
  | id
  | name
  deriving DecidableEq

structure DatastoreIdInventoryKeyPart where
  kind : String
  storage : KeyStorage
  value : String
  deriving DecidableEq

structure DatastoreIdInventoryKey where
  ns : Option String
  path : List DatastoreIdInventoryKeyPart
  deriving DecidableEq

namespace DatastoreIdInventoryKeyPart

/-- The id that a part of an inventory key stands for. -/
def entityId (part : DatastoreIdInventoryKeyPart) : Except KeyError EntityId :=
  match part.storage with
  | .id => datastoreEntityIdFromNativeNumeric part.value
  | .name => .ok (entityIdOfText part.value)

def normalize (part : DatastoreIdInventoryKeyPart) : Except KeyError Unit :=
  if !safeKind part.kind then .error .unsafeKind
  else
    match part.storage with
    | .id => (datastoreEntityIdFromNativeNumeric part.value).map fun _ => ()
    | .name => assertNativeDatastoreEntityId (entityIdOfText part.value)

end DatastoreIdInventoryKeyPart

/-- The ids of a path, with their kinds. -/
def idPath : List DatastoreIdInventoryKeyPart → Except KeyError (List (String × EntityId))
  | [] => .ok []
  | part :: path => do
    let id ← part.entityId
    let rest ← idPath path
    .ok ((part.kind, id) :: rest)

def normalizeInventoryKey (key : DatastoreIdInventoryKey) (expectedKind : String)
    (expectedNamespace : Option String) : Except KeyError DatastoreIdInventoryKey :=
  if !safeNamespace key.ns then .error .badNamespace
  else if key.ns ≠ expectedNamespace then .error .namespaceMismatch
  else if key.path = [] then .error .emptyPath
  else do
    key.path.forM DatastoreIdInventoryKeyPart.normalize
    if key.path.getLast?.all fun leaf => leaf.kind == expectedKind then .ok key
    else .error .leafKindMismatch

def inventoryKeyToLogicalKey (key : DatastoreIdInventoryKey) : Except KeyError DatastoreKey := do
  let path ← idPath key.path
  normalizeDatastoreKey ⟨key.ns, path⟩

def inventoryKeyIdentity (key : DatastoreIdInventoryKey) : Except KeyError String :=
  inventoryKeyToLogicalKey key >>= datastoreKeyIdentity

def inventoryKeyToSdkOptions (key : DatastoreIdInventoryKey) : Except KeyError SdkKey := do
  let path ← idPath key.path
  .ok ⟨key.ns, path.map sdkPart⟩

theorem normalizeDatastoreKey_ok {key safeKey : DatastoreKey}
    (h : normalizeDatastoreKey key = .ok safeKey) :
    safeKey = key ∧ key.path ≠ [] ∧ ∀ part ∈ key.path, safeEntityId part.2 := by
  unfold normalizeDatastoreKey at h
  split at h
  · cases h
  · rename_i hpath
    split at h
    · cases h
    · split at h
      · cases h
      · rename_i hids
        split at h
        · cases h
        · cases h
          simp only [Bool.not_eq_true', Bool.not_eq_false, List.all_eq_true] at hids
          exact ⟨rfl, hpath, hids⟩

/-- What a key with an identity comes from. -/
theorem inventoryKeyIdentity_ok {key : DatastoreIdInventoryKey} {identity : String}
    (h : inventoryKeyIdentity key = .ok identity) :
    ∃ path, idPath key.path = .ok path ∧ path ≠ [] ∧ (∀ part ∈ path, safeEntityId part.2) ∧
      identity = Outbox.datastoreKeyIdentity ⟨key.ns, path⟩ ∧
      inventoryKeyToSdkOptions key = .ok ⟨key.ns, path.map sdkPart⟩ := by
  obtain ⟨logical, hlogical, hidentity⟩ := Except.bind_eq_ok.mp h
  obtain ⟨path, hpath, hnormal⟩ := Except.bind_eq_ok.mp hlogical
  obtain ⟨rfl, hne, hsafe⟩ := normalizeDatastoreKey_ok hnormal
  obtain ⟨_, hnormal', hidentity⟩ := Except.map_eq_ok.mp hidentity
  obtain ⟨rfl, _⟩ := normalizeDatastoreKey_ok hnormal'
  exact ⟨path, hpath, hne, hsafe, hidentity.symm, Except.bind_eq_ok.mpr ⟨path, hpath, rfl⟩⟩

/-- Two keys have one identity exactly when they name one entity. -/
theorem identity_eq_iff {left right : DatastoreIdInventoryKey} {leftIdentity rightIdentity : String}
    {leftSdk rightSdk : SdkKey} (hleft : inventoryKeyIdentity left = .ok leftIdentity)
    (hright : inventoryKeyIdentity right = .ok rightIdentity)
    (hleftSdk : inventoryKeyToSdkOptions left = .ok leftSdk)
    (hrightSdk : inventoryKeyToSdkOptions right = .ok rightSdk) :
    leftIdentity = rightIdentity ↔ leftSdk = rightSdk := by
  obtain ⟨leftPath, _, hleftNe, hleftSafe, rfl, hsdk⟩ := inventoryKeyIdentity_ok hleft
  obtain rfl := Except.ok.inj (hsdk.symm.trans hleftSdk)
  obtain ⟨rightPath, _, hrightNe, hrightSafe, rfl, hsdk'⟩ := inventoryKeyIdentity_ok hright
  obtain rfl := Except.ok.inj (hsdk'.symm.trans hrightSdk)
  constructor
  · intro h
    obtain ⟨hns, hkeys⟩ := Outbox.datastoreKeyIdentity_inj hleftNe hrightNe h
    have hpaths : leftPath = rightPath := pathKeys_inj hkeys
    rw [show left.ns = right.ns from hns, hpaths]
  · intro h
    have hns : left.ns = right.ns := congrArg SdkKey.ns h
    have hpaths := sdkPath_inj hleftSafe hrightSafe (congrArg SdkKey.path h)
    rw [hns, hpaths]

end ActiveTs.Datastore
