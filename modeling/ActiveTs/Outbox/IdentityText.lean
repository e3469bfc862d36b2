import ActiveTs.Outbox.Events
import Mathlib.Data.List.Basic
import Mathlib.Tactic.IntervalCases

/-! # The texts of identities

A Datastore key is named by a text in which every part is preceded by its length, and the scope of a
store by a JSON array. Both can be read back: different keys have different texts. -/

namespace ActiveTs.Outbox

/-! ## Strings in JSON -/

def hexDigit (c : Char) : Nat :=
  if c.toNat < 58 then c.toNat - 48 else c.toNat - 87

def jsonUnescape (c : Char) : Char :=
  if c.toNat = 98 then Char.ofNat 8
  else if c.toNat = 116 then Char.ofNat 9
  else if c.toNat = 110 then Char.ofNat 10
  else if c.toNat = 102 then Char.ofNat 12
  else if c.toNat = 114 then Char.ofNat 13
  else c

/-- Where a reader of a string stands: between characters, after a backslash or in the digits of a
code. -/
inductive JsonMode
  | plain
  | escape
  | code (value left : Nat)

/-- The rest of a string in `JSON_PARSE`, after its opening quote, and what follows it. -/
def readJsonChars : JsonMode → List Char → Option (List Char × List Char)
  | _, [] => none
  | .plain, c :: rest =>
    if c.toNat = 34 then some ([], rest)
    else if c.toNat = 92 then readJsonChars .escape rest
    else (readJsonChars .plain rest).map fun read => (c :: read.1, read.2)
  | .escape, c :: rest =>
    if c.toNat = 117 then readJsonChars (.code 0 3) rest
    else (readJsonChars .plain rest).map fun read => (jsonUnescape c :: read.1, read.2)
  | .code value left, c :: rest =>
    if left = 0 then
      (readJsonChars .plain rest).map fun read =>
        (Char.ofNat (value * 16 + hexDigit c) :: read.1, read.2)
    else readJsonChars (.code (value * 16 + hexDigit c) (left - 1)) rest

theorem readJsonChars_jsonChar (c : Char) (rest : List Char) :
    readJsonChars .plain (jsonChar c ++ rest) =
      (readJsonChars .plain rest).map fun read => (c :: read.1, read.2) := by
  have hofNat : Char.ofNat c.toNat = c := Char.ofNat_toNat c
  rcases Nat.lt_or_ge c.toNat 32 with hlt | hge
  · generalize c.toNat = n at *
    subst hofNat
    interval_cases n <;> rfl
  · by_cases hescaped : c.toNat = 34 ∨ c.toNat = 92
    · rcases hescaped with h | h
      all_goals
        rw [h] at hofNat
        subst hofNat
        rfl
    · have hchar : jsonChar c = [c] := by
        unfold jsonChar
        rw [if_neg hescaped, if_neg (by omega), if_neg (by omega), if_neg (by omega),
          if_neg (by omega), if_neg (by omega), if_neg (by omega), if_neg (by omega)]
      rw [not_or] at hescaped
      rw [hchar, List.singleton_append, readJsonChars, if_neg hescaped.1, if_neg hescaped.2]

theorem readJsonChars_string (chars rest : List Char) :
    readJsonChars .plain (chars.flatMap jsonChar ++ "\"".toList ++ rest) = some (chars, rest) := by
  induction chars with
  | nil => rfl
  | cons c chars ih =>
    rw [List.flatMap_cons, List.append_assoc, List.append_assoc, readJsonChars_jsonChar,
      ← List.append_assoc, ih]
    rfl

/-- One `string | null` of an array in `JSON_PARSE`. -/
def readJsonPart : List Char → Option (Option String × List Char)
  | [] => none
  | c :: rest =>
    if c.toNat = 34 then
      (readJsonChars .plain rest).map fun read => (some (String.ofList read.1), read.2)
    else some (none, rest.drop 3)

def jsonNullable (value : Option String) : String := (value.map jsonString).getD "null"

theorem toList_jsonString (s : String) :
    (jsonString s).toList = "\"".toList ++ s.toList.flatMap jsonChar ++ "\"".toList := by
  simp [jsonString]

theorem readJsonPart_nullable (value : Option String) (rest : List Char) :
    readJsonPart ((jsonNullable value).toList ++ rest) = some (value, rest) := by
  cases value with
  | none => rfl
  | some s =>
    have hread := readJsonChars_string s.toList rest
    have htext : (jsonNullable (some s)).toList ++ rest =
        Char.ofNat 34 :: (s.toList.flatMap jsonChar ++ "\"".toList ++ rest) := by
      rw [jsonNullable, Option.map_some, Option.getD_some, toList_jsonString, List.append_assoc,
        List.append_assoc, List.append_assoc]
      rfl
    rw [htext, readJsonPart, if_pos (show (Char.ofNat 34).toNat = 34 from rfl), hread,
      Option.map_some, String.ofList_toList]

theorem jsonString_inj {s t : String} (h : jsonString s = jsonString t) : s = t := by
  have hs := readJsonPart_nullable (some s) []
  have ht := readJsonPart_nullable (some t) []
  rw [show jsonNullable (some s) = jsonString s from rfl, h] at hs
  exact Option.some.inj (Prod.mk.inj (Option.some.inj (hs.symm.trans ht))).1

theorem jsonScopedKey_inj {scope : Option String} {key key' : String}
    (h : jsonScopedKey scope key = jsonScopedKey scope key') : key = key' := by
  have h := congrArg String.toList h
  simp only [jsonScopedKey, String.toList_append, List.append_assoc] at h
  have h := List.append_cancel_left (List.append_cancel_left (List.append_cancel_left h))
  exact jsonString_inj (String.toList_inj.mp (List.append_cancel_right h))

/-! ## Scopes -/

inductive DatastoreKeyEncoding
  | activeTs
  | native

def DatastoreKeyEncoding.text : DatastoreKeyEncoding → String
  | activeTs => "active-ts"
  | native => "native"

/-- The fields of a store that name its database. -/
structure ScopeStore where
  isDatastore : Bool
  cacheScope : Option String
  datastoreProjectId : Option String
  /-- `null` is the default database. -/
  datastoreDatabaseId : Option (Option String)
  datastoreNamespace : Option String
  datastoreKeyEncoding : Option DatastoreKeyEncoding
  /-- `datastoreCacheScopeStability` is `client`. -/
  clientScope : Bool

def validName (value : String) : Bool :=
  !value.toList.isEmpty && !value.toList.contains (Char.ofNat 0)

inductive ScopeError
  | unknownDatabase
  | unstableScope

def scopeText (project : String) (database ns : Option String) (encoding : DatastoreKeyEncoding)
    (cacheScope : Option String) : String :=
  "[" ++ jsonString project ++ "," ++ jsonNullable database ++ "," ++ jsonNullable ns ++ "," ++
    jsonString encoding.text ++ "," ++ jsonNullable cacheScope ++ "]"

def datastoreSearchScopeForStore (store : ScopeStore) : Except ScopeError (Option String) :=
  if !store.isDatastore && store.datastoreProjectId.isNone && store.datastoreDatabaseId.isNone &&
      store.datastoreKeyEncoding.isNone then .ok none
  else
    match store.datastoreProjectId, store.datastoreDatabaseId, store.datastoreKeyEncoding with
    | some project, some database, some encoding =>
      if !validName project || !database.all validName || !store.datastoreNamespace.all validName ||
          !store.cacheScope.all validName then .error .unknownDatabase
      else if store.clientScope then .error .unstableScope
      else .ok (some (scopeText project database store.datastoreNamespace encoding store.cacheScope))
    | _, _, _ => .error .unknownDatabase

/-- The third part of the canonical text. -/
def datastoreSearchScopeNamespace (scope : String) : Option String :=
  ((readJsonPart (scope.toList.drop 1)).bind fun project =>
    (readJsonPart (project.2.drop 1)).bind fun database =>
      (readJsonPart (database.2.drop 1)).bind Prod.fst)

theorem readJsonPart_next (value : Option String) (rest : List Char) :
    readJsonPart ((",".toList ++ ((jsonNullable value).toList ++ rest)).drop 1) =
      some (value, rest) :=
  readJsonPart_nullable value rest

theorem datastoreSearchScopeNamespace_text (project : String) (database ns : Option String)
    (encoding : DatastoreKeyEncoding) (cacheScope : Option String) :
    datastoreSearchScopeNamespace (scopeText project database ns encoding cacheScope) = ns := by
  have htext : (scopeText project database ns encoding cacheScope).toList.drop 1 =
      (jsonNullable (some project)).toList ++ (",".toList ++ ((jsonNullable database).toList ++
        (",".toList ++ ((jsonNullable ns).toList ++ (",".toList ++ (jsonString encoding.text ++ "," ++
          jsonNullable cacheScope ++ "]").toList))))) := by
    simp [scopeText, jsonNullable]
  have hproject := readJsonPart_nullable (some project)
  have hdatabase := readJsonPart_next database
  have hns := readJsonPart_next ns
  unfold datastoreSearchScopeNamespace
  rw [htext, hproject, Option.bind_some, hdatabase, Option.bind_some, hns]
  rfl

theorem datastoreSearchScopeForStore_ns {store : ScopeStore} {scope : String}
    (h : datastoreSearchScopeForStore store = .ok (some scope)) :
    datastoreSearchScopeNamespace scope = store.datastoreNamespace := by
  unfold datastoreSearchScopeForStore at h
  split at h
  · cases h
  · split at h
    · split at h
      · cases h
      · split at h
        · cases h
        · obtain rfl := Option.some.inj (Except.ok.inj h)
          exact datastoreSearchScopeNamespace_text ..
    · cases h

/-! ## Keys -/

/-- `length` of a JavaScript string. -/
def utf16Length (chars : List Char) : Nat :=
  (chars.map fun c => if c.toNat < 65536 then 1 else 2).sum

/-- A part after its length. -/
def lengthPrefixed (s : String) : List Char :=
  Nat.toDigits 10 (utf16Length s.toList) ++ ':' :: (s.toList ++ [':'])

def keyPartText (part : String × EntityId) : List Char :=
  ['k', 'i', 'n', 'd', ':'] ++ lengthPrefixed part.1 ++ ['i', 'd', ':'] ++
    lengthPrefixed (entityIdKey part.2)

def datastoreKeyIdentity (key : DatastoreKey) : String :=
  String.ofList ("namespace:".toList ++ (key.ns.map lengthPrefixed).getD [] ++
    key.path.flatMap keyPartText)

theorem append_colon_inj {a b x y : List Char} (ha : ':' ∉ a) (hb : ':' ∉ b)
    (h : a ++ ':' :: x = b ++ ':' :: y) : a = b ∧ x = y := by
  induction a generalizing b with
  | nil =>
    cases b with
    | nil => exact ⟨rfl, (List.cons.inj h).2⟩
    | cons c b => exact absurd List.mem_cons_self ((List.cons.inj h).1 ▸ hb)
  | cons c a ih =>
    cases b with
    | nil => exact absurd List.mem_cons_self ((List.cons.inj h).1 ▸ ha)
    | cons d b =>
      obtain ⟨hc, htail⟩ := List.cons.inj h
      obtain ⟨hab, hxy⟩ := ih (fun hm => ha (List.mem_cons_of_mem _ hm))
        (fun hm => hb (List.mem_cons_of_mem _ hm)) htail
      exact ⟨by rw [hc, hab], hxy⟩

theorem colon_not_mem_toDigits (n : Nat) : ':' ∉ Nat.toDigits 10 n := by
  intro h
  have := Nat.isDigit_of_mem_toDigits (by decide) (by decide) h
  revert this
  decide

theorem toDigits_inj {m n : Nat} (h : Nat.toDigits 10 m = Nat.toDigits 10 n) : m = n := by
  rw [← Nat.ofDigitChars_ten_toDigits (n := m), h, Nat.ofDigitChars_ten_toDigits]

/-- A prefix of the same UTF-16 length is the whole. -/
theorem append_inj_of_utf16Length {a b x y : List Char} (hlen : utf16Length a = utf16Length b)
    (h : a ++ x = b ++ y) : a = b ∧ x = y := by
  have hnil : ∀ l : List Char, utf16Length l = 0 → l = [] := by
    intro l hl
    cases l with
    | nil => rfl
    | cons c l =>
      rw [utf16Length, List.map_cons, List.sum_cons] at hl
      split at hl <;> omega
  have hadd : ∀ l m : List Char, utf16Length (l ++ m) = utf16Length l + utf16Length m := by
    intro l m
    rw [utf16Length, List.map_append, List.sum_append]
    rfl
  rcases List.append_eq_append_iff.mp h with ⟨tail, rfl, rfl⟩ | ⟨tail, rfl, rfl⟩
  · rw [hadd] at hlen
    rw [hnil tail (by omega)]
    exact ⟨(List.append_nil a).symm, rfl⟩
  · rw [hadd] at hlen
    rw [hnil tail (by omega)]
    exact ⟨List.append_nil b, rfl⟩

theorem lengthPrefixed_inj {s t : String} {x y : List Char}
    (h : lengthPrefixed s ++ x = lengthPrefixed t ++ y) : s = t ∧ x = y := by
  have htext : ∀ (s : String) (x : List Char), lengthPrefixed s ++ x =
      Nat.toDigits 10 (utf16Length s.toList) ++ ':' :: (s.toList ++ ':' :: x) := by
    intro s x
    simp [lengthPrefixed]
  rw [htext, htext] at h
  obtain ⟨hdigits, h⟩ := append_colon_inj (colon_not_mem_toDigits _) (colon_not_mem_toDigits _) h
  obtain ⟨hst, h⟩ := append_inj_of_utf16Length (toDigits_inj hdigits) h
  exact ⟨String.toList_inj.mp hst, (List.cons.inj h).2⟩

/-- A path up to the keys of its ids. -/
def pathKeys (path : List (String × EntityId)) : List (String × String) :=
  path.map fun part => (part.1, entityIdKey part.2)

/-- The text of a non-empty path starts with `kind:`. -/
theorem flatMap_keyPartText_cons (part : String × EntityId) (path : List (String × EntityId)) :
    ∃ tail, (part :: path).flatMap keyPartText = 'k' :: tail :=
  ⟨_, rfl⟩

theorem path_inj {path path' : List (String × EntityId)}
    (h : path.flatMap keyPartText = path'.flatMap keyPartText) : pathKeys path = pathKeys path' := by
  induction path generalizing path' with
  | nil =>
    cases path' with
    | nil => rfl
    | cons part path' =>
      obtain ⟨tail, htail⟩ := flatMap_keyPartText_cons part path'
      exact absurd (h.trans htail) (List.cons_ne_nil _ _).symm
  | cons part path ih =>
    cases path' with
    | nil =>
      obtain ⟨tail, htail⟩ := flatMap_keyPartText_cons part path
      exact absurd (htail.symm.trans h) (List.cons_ne_nil _ _)
    | cons part' path' =>
      simp only [List.flatMap_cons, keyPartText, List.append_assoc] at h
      obtain ⟨hkind, h⟩ := lengthPrefixed_inj (List.append_cancel_left h)
      obtain ⟨hid, h⟩ := lengthPrefixed_inj (List.append_cancel_left h)
      rw [pathKeys, List.map_cons, hkind, hid]
      exact congrArg _ (ih h)

/-- A namespace starts with a digit, a path does not. -/
theorem path_ne_lengthPrefixed {path : List (String × EntityId)} (hpath : path ≠ []) (s : String)
    (x : List Char) : path.flatMap keyPartText ≠ lengthPrefixed s ++ x := by
  intro h
  obtain ⟨part, path, rfl⟩ := List.exists_cons_of_ne_nil hpath
  obtain ⟨c, digits, hdigits⟩ :=
    List.exists_cons_of_ne_nil (Nat.toDigits_ne_nil (n := utf16Length s.toList) (b := 10))
  have hc : c.isDigit = true :=
    Nat.isDigit_of_mem_toDigits (b := 10) (n := utf16Length s.toList) (by decide) (by decide)
      (hdigits ▸ List.mem_cons_self)
  obtain ⟨tail, htail⟩ := flatMap_keyPartText_cons part path
  have hhead : 'k' :: tail = c :: (digits ++ ':' :: (s.toList ++ [':']) ++ x) := by
    rw [← htail, h, lengthPrefixed, hdigits]
    rfl
  obtain rfl := (List.cons.inj hhead).1
  revert hc
  decide

theorem datastoreKeyIdentity_inj {key key' : DatastoreKey} (hpath : key.path ≠ [])
    (hpath' : key'.path ≠ []) (h : datastoreKeyIdentity key = datastoreKeyIdentity key') :
    key.ns = key'.ns ∧ pathKeys key.path = pathKeys key'.path := by
  have h := String.ofList_injective h
  rw [List.append_assoc, List.append_assoc] at h
  have h := List.append_cancel_left h
  cases hns : key.ns with
  | none =>
    cases hns' : key'.ns with
    | none =>
      rw [hns, hns'] at h
      exact ⟨rfl, path_inj h⟩
    | some ns' =>
      rw [hns, hns'] at h
      exact absurd h (path_ne_lengthPrefixed hpath ns' _)
  | some ns =>
    cases hns' : key'.ns with
    | none =>
      rw [hns, hns'] at h
      exact absurd h.symm (path_ne_lengthPrefixed hpath' ns _)
    | some ns' =>
      rw [hns, hns'] at h
      obtain ⟨hs, h⟩ := lengthPrefixed_inj h
      exact ⟨congrArg some hs, path_inj h⟩

theorem flatMap_keyPartText (path : List (String × EntityId)) :
    path.flatMap keyPartText = (pathKeys path).flatMap fun part =>
      ['k', 'i', 'n', 'd', ':'] ++ lengthPrefixed part.1 ++ ['i', 'd', ':'] ++
        lengthPrefixed part.2 := by
  induction path with
  | nil => rfl
  | cons part path ih =>
    rw [List.flatMap_cons, ih]
    rfl

/-- The identity of a key depends on the keys of its ids only. -/
theorem datastoreKeyIdentity_congr {key key' : DatastoreKey} (hns : key.ns = key'.ns)
    (hpath : pathKeys key.path = pathKeys key'.path) :
    datastoreKeyIdentity key = datastoreKeyIdentity key' := by
  have htext : key.path.flatMap keyPartText = key'.path.flatMap keyPartText := by
    rw [flatMap_keyPartText, flatMap_keyPartText, hpath]
  unfold datastoreKeyIdentity
  rw [hns, htext]

end ActiveTs.Outbox
