import ActiveTs.Lib.JsMap
import ActiveTs.Query.Cursors

/-! # Data by field paths

What a row has at a field path, and writing at a path. Writing opens the objects on the way; it leaves
alone what neither contains the path nor lies under it. -/

namespace ActiveTs.Query

open Utf16 (Units ofString)
open Cursors (CursorError assertSafeFieldPath)

/-- The data of a row. Objects are plain. -/
inductive Data
  | undefined
  | null
  | boolean (value : Bool)
  | number (value : JsNumber)
  | string (value : Units)
  /-- A valid date without properties of its own. -/
  | date (time : JsDate.Time)
  | array (items : List Data)
  | object (properties : List (Units × Data))

inductive DataError
  | path (error : CursorError)
  /-- "Cannot set field path … because … is not a plain object." -/
  | notPlainObject (segment : Units)

namespace Data

/-- `value === undefined || value === null` -/
def missing : Data → Bool
  | undefined | null => true
  | _ => false

/-- What an own property gives to `ownFieldValue`; `length` of an array is not enumerable. -/
def own (path : List Units) (key : Units) : Data → Option (Except DataError Data)
  | object properties => (JsMap.lookup key properties).map .ok
  | array items =>
    if key = ofString "length" then some (.error (.path (.notEnumerable path)))
    else (items.zipIdx.find? fun item => Utf16.decimal item.2 = key).map fun item => .ok item.1
  | _ => none

/-- The loop of `valueFor`; `done` are the keys in front. -/
def valueAt (done : List Units) : List Units → Data → Except DataError Data
  | [], current => .ok current
  | key :: path, current =>
    match own (done ++ [key]) key current with
    | none => .ok undefined
    | some value => value >>= valueAt (done ++ [key]) path

end Data

/-- The parts of a field path. -/
def partsOf (field : Units) : List Units := field.splitOn Cursors.dot

def safePath (field : Units) : Except DataError (List Units) :=
  ((assertSafeFieldPath field).mapError .path).map partsOf

/-- It is written in `query-utils.ts` and again in `aggregate.ts`. -/
def valueFor (data : Data) (field : Units) : Except DataError Data := do
  let parts ← safePath field
  data.valueAt [] parts

/-- The loop of `setPath`, with the object that it stands at. -/
def setAt (value : Data) : List Units → List (Units × Data) → Except DataError (List (Units × Data))
  | [], properties => .ok properties
  | [leaf], properties => .ok (JsMap.insertEntry leaf value properties)
  | part :: next :: rest, properties =>
    match (JsMap.lookup part properties).getD .undefined with
    | .object inner => do
      let inner ← setAt value (next :: rest) inner
      .ok (JsMap.insertEntry part (.object inner) properties)
    | .undefined | .null => do
      let inner ← setAt value (next :: rest) []
      .ok (JsMap.insertEntry part (.object inner) properties)
    | _ => .error (.notPlainObject part)

def setPath (target : List (Units × Data)) (field : Units) (value : Data) :
    Except DataError (List (Units × Data)) := do
  let parts ← safePath field
  setAt value parts target

/-! ## Paths of which none is inside another -/

def Apart (p q : List Units) : Prop := ¬p <+: q ∧ ¬q <+: p

theorem Apart.tail {k : Units} {p q : List Units} (h : Apart (k :: p) (k :: q)) : Apart p q :=
  ⟨fun hp => h.1 ((List.prefix_cons_inj k).mpr hp), fun hp => h.2 ((List.prefix_cons_inj k).mpr hp)⟩

theorem Apart.exists_cons {p q : List Units} (h : Apart p q) :
    ∃ k p' k' q', p = k :: p' ∧ q = k' :: q' := by
  cases p with
  | nil => exact absurd List.nil_prefix h.1
  | cons k p' =>
    cases q with
    | nil => exact absurd List.nil_prefix h.2
    | cons k' q' => exact ⟨k, p', k', q', rfl, rfl⟩

/-! ## Reading what was written -/

theorem valueAt_missing (done : List Units) (k : Units) (path : List Units) {data : Data}
    (h : data.missing = true) : data.valueAt done (k :: path) = .ok .undefined := by
  cases data with
  | undefined => rfl
  | null => rfl
  | boolean value => cases h
  | number value => cases h
  | string value => cases h
  | date time => cases h
  | array items => cases h
  | object properties => cases h

theorem valueAt_object (done : List Units) (k : Units) (path : List Units)
    (properties : List (Units × Data)) :
    (Data.object properties).valueAt done (k :: path) =
      match JsMap.lookup k properties with
      | none => .ok .undefined
      | some value => value.valueAt (done ++ [k]) path := by
  rw [Data.valueAt, Data.own]
  cases JsMap.lookup k properties <;> rfl

theorem valueAt_empty (done : List Units) (k : Units) (path : List Units) :
    (Data.object []).valueAt done (k :: path) = .ok .undefined := valueAt_object done k path []

/-- The object that `setAt` goes on with. -/
def opened (part : Units) (properties : List (Units × Data)) : Option (List (Units × Data)) :=
  match (JsMap.lookup part properties).getD .undefined with
  | .object inner => some inner
  | .undefined | .null => some []
  | _ => none

theorem setAt_cons (value : Data) (part next : Units) (rest : List Units)
    (properties : List (Units × Data)) :
    setAt value (part :: next :: rest) properties =
      match opened part properties with
      | none => .error (.notPlainObject part)
      | some inner => (setAt value (next :: rest) inner).map fun inner =>
        JsMap.insertEntry part (.object inner) properties := by
  have hbind (x : Except DataError (List (Units × Data))) :
      (x >>= fun inner => .ok (JsMap.insertEntry part (.object inner) properties)) =
        x.map fun inner => JsMap.insertEntry part (.object inner) properties := by
    cases x <;> rfl
  rw [setAt, opened]
  cases (JsMap.lookup part properties).getD .undefined with
  | undefined => exact hbind _
  | null => exact hbind _
  | object inner => exact hbind _
  | boolean value => rfl
  | number value => rfl
  | string value => rfl
  | date time => rfl
  | array items => rfl

/-- Under the object that is opened a path has what it had before. -/
theorem valueAt_opened {part : Units} {properties inner : List (Units × Data)}
    (h : opened part properties = some inner) (done : List Units) (k : Units) (path : List Units) :
    (Data.object properties).valueAt done (part :: k :: path) =
      (Data.object inner).valueAt (done ++ [part]) (k :: path) := by
  rw [valueAt_object]
  rw [opened] at h
  cases hlookup : JsMap.lookup part properties with
  | none =>
    rw [hlookup] at h
    cases h
    exact (valueAt_empty _ k path).symm
  | some value =>
    rw [hlookup, Option.getD_some] at h
    cases value with
    | undefined =>
      cases h
      exact (valueAt_missing _ k path rfl).trans (valueAt_empty _ k path).symm
    | null =>
      cases h
      exact (valueAt_missing _ k path rfl).trans (valueAt_empty _ k path).symm
    | boolean value => cases h
    | number value => cases h
    | string value => cases h
    | date time => cases h
    | array items => cases h
    | object inner' =>
      cases h
      rfl

theorem setAt_cons_ok {value : Data} {part next : Units} {rest : List Units}
    {properties properties' : List (Units × Data)}
    (h : setAt value (part :: next :: rest) properties = .ok properties') :
    ∃ inner inner', opened part properties = some inner ∧
      setAt value (next :: rest) inner = .ok inner' ∧
      properties' = JsMap.insertEntry part (.object inner') properties := by
  rw [setAt_cons] at h
  cases hopened : opened part properties with
  | none =>
    rw [hopened] at h
    cases h
  | some inner =>
    rw [hopened] at h
    obtain ⟨inner', hinner, heq⟩ := Except.map_eq_ok.mp h
    exact ⟨inner, inner', rfl, hinner, heq.symm⟩

theorem valueAt_setAt {value : Data} {path : List Units} {properties properties' : List (Units × Data)}
    (h : setAt value path properties = .ok properties') (hne : path ≠ []) (done : List Units) :
    (Data.object properties').valueAt done path = .ok value := by
  induction path generalizing properties properties' done with
  | nil => exact absurd rfl hne
  | cons part rest ih =>
    cases rest with
    | nil =>
      cases h
      rw [valueAt_object, JsMap.lookup_insertEntry, if_pos rfl]
      rfl
    | cons next rest =>
      obtain ⟨inner, inner', -, hinner, rfl⟩ := setAt_cons_ok h
      rw [valueAt_object, JsMap.lookup_insertEntry, if_pos rfl]
      exact ih hinner (List.cons_ne_nil _ _) _

theorem valueAt_setAt_apart {value : Data} {path other : List Units}
    {properties properties' : List (Units × Data)}
    (h : setAt value path properties = .ok properties') (hapart : Apart path other)
    (done : List Units) :
    (Data.object properties').valueAt done other = (Data.object properties).valueAt done other := by
  induction path generalizing other properties properties' done with
  | nil => exact absurd List.nil_prefix hapart.1
  | cons part rest ih =>
    obtain ⟨k, p', k', q', hcons, rfl⟩ := hapart.exists_cons
    cases hcons
    by_cases hkey : part = k'
    · subst hkey
      obtain ⟨next, rest, k, q', rfl, rfl⟩ := hapart.tail.exists_cons
      obtain ⟨inner, inner', hopened, hinner, rfl⟩ := setAt_cons_ok h
      rw [valueAt_opened hopened, valueAt_object, JsMap.lookup_insertEntry, if_pos rfl]
      exact ih hinner hapart.tail _
    · have hlookup : JsMap.lookup k' properties' = JsMap.lookup k' properties := by
        cases rest with
        | nil =>
          cases h
          rw [JsMap.lookup_insertEntry, if_neg hkey]
        | cons next rest =>
          obtain ⟨inner, inner', -, -, rfl⟩ := setAt_cons_ok h
          rw [JsMap.lookup_insertEntry, if_neg hkey]
      rw [valueAt_object, valueAt_object, hlookup]

/-! ## Paths that can be written -/

/-- On the way only plain objects are met, or nothing. -/
def reaches : List Units → List (Units × Data) → Prop
  | part :: next :: rest, properties =>
    ∃ inner, opened part properties = some inner ∧ reaches (next :: rest) inner
  | _, _ => True

theorem setAt_of_reaches {path : List Units} {properties : List (Units × Data)}
    (h : reaches path properties) (value : Data) :
    ∃ properties', setAt value path properties = .ok properties' := by
  induction path generalizing properties with
  | nil => exact ⟨_, rfl⟩
  | cons part rest ih =>
    cases rest with
    | nil => exact ⟨_, rfl⟩
    | cons next rest =>
      obtain ⟨inner, hopened, hinner⟩ := h
      obtain ⟨inner', hset⟩ := ih hinner
      refine ⟨JsMap.insertEntry part (.object inner') properties, ?_⟩
      rw [setAt_cons, hopened]
      exact Except.map_eq_ok.mpr ⟨inner', hset, rfl⟩

theorem opened_insertEntry_self (part : Units) (inner properties : List (Units × Data)) :
    opened part (JsMap.insertEntry part (.object inner) properties) = some inner := by
  rw [opened, JsMap.lookup_insertEntry, if_pos rfl]
  rfl

theorem opened_insertEntry_of_ne {part k : Units} (h : part ≠ k) (value : Data)
    (properties : List (Units × Data)) :
    opened k (JsMap.insertEntry part value properties) = opened k properties := by
  rw [opened, JsMap.lookup_insertEntry, if_neg h, opened]

theorem reaches_empty (path : List Units) : reaches path [] := by
  induction path with
  | nil => trivial
  | cons part rest ih =>
    cases rest with
    | nil => trivial
    | cons next rest => exact ⟨[], rfl, ih⟩

theorem reaches_setAt {value : Data} {path : List Units} {properties properties' : List (Units × Data)}
    (h : setAt value path properties = .ok properties') : reaches path properties' := by
  induction path generalizing properties properties' with
  | nil => trivial
  | cons part rest ih =>
    cases rest with
    | nil => trivial
    | cons next rest =>
      obtain ⟨inner, inner', -, hinner, rfl⟩ := setAt_cons_ok h
      exact ⟨inner', opened_insertEntry_self part inner' properties, ih hinner⟩

theorem reaches_setAt_apart {value : Data} {path other : List Units}
    {properties properties' : List (Units × Data)}
    (h : setAt value path properties = .ok properties') (hapart : Apart path other)
    (hother : reaches other properties) : reaches other properties' := by
  induction path generalizing other properties properties' with
  | nil => exact absurd List.nil_prefix hapart.1
  | cons part rest ih =>
    obtain ⟨k, p', k', q', hcons, rfl⟩ := hapart.exists_cons
    cases hcons
    by_cases hkey : part = k'
    · subst hkey
      obtain ⟨next, rest, k, q', rfl, rfl⟩ := hapart.tail.exists_cons
      obtain ⟨inner, inner', hopened, hinner, rfl⟩ := setAt_cons_ok h
      obtain ⟨inner'', hopened', hreaches⟩ := hother
      cases hopened.symm.trans hopened'
      exact ⟨inner', opened_insertEntry_self part inner' properties, ih hinner hapart.tail hreaches⟩
    · cases q' with
      | nil => trivial
      | cons next' q' =>
        obtain ⟨inner, hopened, hreaches⟩ := hother
        refine ⟨inner, ?_, hreaches⟩
        cases rest with
        | nil =>
          cases h
          rw [opened_insertEntry_of_ne hkey, hopened]
        | cons next rest =>
          obtain ⟨inner', inner'', -, -, rfl⟩ := setAt_cons_ok h
          rw [opened_insertEntry_of_ne hkey, hopened]

end ActiveTs.Query
