import ActiveTs.EntityIds.Keys
import ActiveTs.Lib.Framing
import ActiveTs.Lib.JsMap

/-! # Cache keys of entities

A key has the name of the model and the key of the id, behind what tells stores of one cache apart: an
explicit scope, a scope that the process gives to a store, or nothing for the store that came first. -/

namespace ActiveTs.EntityCache.Keys

open Utf16 (Units ofString decimal)
open EntityIds (EntityId entityIdKey keyText colon byteLength)

/-! ## Names -/

def isLetter (unit : Fin 65536) : Bool :=
  (65 ≤ unit.1 && unit.1 ≤ 90) || (97 ≤ unit.1 && unit.1 ≤ 122)

/-- `/^[A-Za-z][A-Za-z0-9_-]*$/` -/
def schemaIdentifier : Units → Bool
  | [] => false
  | first :: rest => isLetter first &&
      rest.all fun unit => isLetter unit || EntityIds.isDigit unit || unit.1 = 95 || unit.1 = 45

/-- A name that `assertSafeSchemaIdentifier` lets through. -/
abbrev Identifier := { name : Units // schemaIdentifier name = true }

/-- A store adapter by its source, the adapter that its wrappers were made of. -/
structure Store (S : Type) where
  source : S
  cacheScope : Option Units

/-- A model; `cache` is the source of its cache adapter. -/
structure Model (C : Type) where
  name : Identifier
  store : Identifier
  cache : Option C

/-- A call of `cacheKey` by some context. -/
structure Request (S C : Type) where
  model : Model C
  id : EntityId
  /-- What the context has registered under the name of the store. -/
  store : Store S
  defaultStore : Identifier

inductive CacheKeyError
  | id (error : EntityIds.ValidationError)
  /-- "Local store cache scope counter exceeded the safe integer range." -/
  | tooManyScopes
  /-- "… must be a string." -/
  | notString
  /-- "… cannot be empty." -/
  | empty
  /-- "… is too long." -/
  | tooLong
  /-- "… must not contain null bytes." -/
  | nullByte
  /-- The resolver threw. -/
  | resolver
  /-- "Entity cache key … is already associated with … and cannot be reused for …" -/
  | otherOwner (key existingOwner owner : Units)
  /-- "Entity cache key for … changed from … to …" -/
  | otherKey (owner existingKey key : Units)
  /-- "Custom cache key ownership exceeds cacheKeyOwnerLimit …" -/
  | ownerLimit (limit : Nat)
  deriving DecidableEq

def MAX_CACHE_KEY_BYTES : Nat := 4096

def assertSafeCacheKey (key : Units) : Except CacheKeyError Units :=
  if key = [] then .error .empty
  else if MAX_CACHE_KEY_BYTES < byteLength key then .error .tooLong
  else if 0 ∈ key then .error .nullByte
  else .ok key

/-! ## Scopes of stores -/

/-- What the process remembers: `sharedCachePrimaryStores`, `localStoreCacheScopes` and
`nextLocalStoreCacheScope`. -/
structure Scopes (S C : Type) where
  primaryStores : JsMap C (List S)
  localScopes : JsMap S Nat
  next : Nat

def MAX_SAFE_INTEGER : Nat := 9007199254740991

section
variable {S C : Type} [DecidableEq S] [DecidableEq C]

def Scopes.new : Scopes S C := ⟨.empty, .empty, 0⟩

def localName (n : Nat) : Units := ofString "local-" ++ decimal n

def localCacheScope (g : Scopes S C) (model : Model C) (store : Store S) :
    Scopes S C × Except CacheKeyError (Option Units) :=
  match model.cache with
  | none => (g, .ok none)
  | some cache =>
    match g.primaryStores.get? cache with
    | none => ({ g with primaryStores := g.primaryStores.set cache [store.source] }, .ok none)
    | some primaryStores =>
      if store.source ∈ primaryStores then (g, .ok none)
      else
        match g.localScopes.get? store.source with
        | some n => (g, .ok (some (localName n)))
        | none =>
          if MAX_SAFE_INTEGER < g.next + 1 then ({ g with next := g.next + 1 }, .error .tooManyScopes)
          else
            ({ g with next := g.next + 1, localScopes := g.localScopes.set store.source (g.next + 1) },
              .ok (some (localName (g.next + 1))))

/-! ## Keys -/

/-- A text behind its length. -/
def framed (text : Units) : Units := decimal text.length ++ colon :: text

def named (store : Units) : Units := ofString "store:" ++ framed store

def explicitPrefix (store scope : Units) : Units := named store ++ (ofString ":scope:" ++ framed scope)

def localPrefix (store scope : Units) : Units :=
  named store ++ (ofString ":local-scope:" ++ framed scope)

/-- `physicalPrefix` -/
def physicalPrefix (g : Scopes S C) (request : Request S C) :
    Scopes S C × Except CacheKeyError (Option Units) :=
  let store := request.model.store.1
  match request.store.cacheScope with
  | some scope => (g, .ok (some (explicitPrefix store scope)))
  | none =>
    match localCacheScope g request.model request.store with
    | (g, .error e) => (g, .error e)
    | (g, .ok (some scope)) => (g, .ok (some (localPrefix store scope)))
    | (g, .ok none) =>
      (g, .ok (if request.model.store = request.defaultStore then none else some (named store)))

def entityKey (name : Units) (id : EntityId) : Units := name ++ colon :: keyText id

/-- `owner`, the key without a resolver. -/
def ownerOf (physical : Option Units) (entityKey : Units) : Units :=
  match physical with
  | none => entityKey
  | some physical => physical ++ colon :: entityKey

/-- What the resolver of a context gives for one call. -/
inductive Resolved
  /-- `undefined` or `null` -/
  | nullish
  | string (key : Units)
  | other
  | threw

def resolvedText (owner : Units) : Option Resolved → Except CacheKeyError Units
  | none => .ok owner
  | some .nullish => .ok owner
  | some (.string key) => .ok key
  | some .other => .error .notString
  | some .threw => .error .resolver

def customKey (physical : Option Units) (resolvedKey : Units) : Units :=
  match physical with
  | none => resolvedKey
  | some physical => physical ++ (ofString ":custom:" ++ framed resolvedKey)

def keyOf (physical : Option Units) (owner : Units) (custom : Option Resolved) :
    Except CacheKeyError Units := do
  let text ← resolvedText owner custom
  let resolvedKey ← assertSafeCacheKey text
  if custom.isSome ∧ resolvedKey ≠ owner then assertSafeCacheKey (customKey physical resolvedKey)
  else .ok resolvedKey

/-- `cacheKey` before it looks at the owners of keys: the owner and its key. -/
def cacheKey (g : Scopes S C) (request : Request S C) (custom : Option Resolved) :
    Scopes S C × Except CacheKeyError (Units × Units) :=
  match entityIdKey request.id with
  | .error e => (g, .error (.id e))
  | .ok idKey =>
    match physicalPrefix g request with
    | (g, .error e) => (g, .error e)
    | (g, .ok physical) =>
      let owner := ownerOf physical (request.model.name.1 ++ colon :: idKey)
      (g, (keyOf physical owner custom).map (owner, ·))

/-- Calls of contexts without a resolver, one after the other, with their results. -/
def results (g : Scopes S C) : List (Request S C) → List (Request S C × Except CacheKeyError Units)
  | [] => []
  | request :: requests =>
    (request, (cacheKey g request none).2.map Prod.snd) ::
      results (cacheKey g request none).1 requests

/-! ## The shapes of keys -/

/-- What stands in front of the model. -/
inductive Shape
  | explicit (store scope : Units)
  | inProcess (store : Units) (n : Nat)
  | named (store : Units)
  | plain

def Shape.physical : Shape → Option Units
  | explicit store scope => some (explicitPrefix store scope)
  | inProcess store n => some (localPrefix store (localName n))
  | named store => some (Keys.named store)
  | plain => none

theorem colon_notMem {name : Units} (h : schemaIdentifier name = true) : ∀ unit ∈ name, unit ≠ colon := by
  rintro unit hunit rfl
  cases name with
  | nil => cases hunit
  | cons first rest =>
    rw [schemaIdentifier, Bool.and_eq_true, List.all_eq_true] at h
    rcases List.mem_cons.mp hunit with rfl | hrest
    · exact absurd h.1 (by decide)
    · exact absurd (h.2 colon hrest) (by decide)

/-- A text without colons ends at the first one. -/
theorem colon_split {s t x y : Units} (hs : ∀ unit ∈ s, unit ≠ colon) (ht : ∀ unit ∈ t, unit ≠ colon)
    (h : s ++ colon :: x = t ++ colon :: y) : s = t ∧ x = y := by
  have hcolon (rest : Units) : Framing.Ends (· = colon) (colon :: rest) :=
    @Framing.ends_cons _ (· = colon) _ rfl rest
  obtain ⟨hst, hxy⟩ := Framing.append_inj_of_free hs ht (hcolon x) (hcolon y) h
  exact ⟨hst, (List.cons.inj hxy).2⟩

theorem decimal_free (n : Nat) : ∀ unit ∈ decimal n, unit ≠ colon := by
  rintro unit hunit rfl
  have hdigits := Utf16.decimal_digits hunit
  exact absurd hdigits (by decide)

theorem framed_inj {s t x y : Units} (h : framed s ++ x = framed t ++ y) : s = t ∧ x = y := by
  rw [framed, framed, List.append_assoc, List.append_assoc] at h
  exact Framing.length_append_inj (fun m n => Utf16.decimal_inj) decimal_free h

/-- The key of an id starts with a letter. -/
theorem keyText_cons (id : EntityId) : ∃ unit rest, keyText id = unit :: rest ∧ isLetter unit = true := by
  cases id with
  | string value =>
    rw [keyText]
    cases EntityIds.datastoreInt64Decimal value with
    | some digits => exact ⟨_, _, rfl, by decide⟩
    | none => exact ⟨_, _, rfl, by decide⟩
  | number value => exact ⟨_, _, rfl, by decide⟩

/-- No key of an id is a framed text. -/
theorem keyText_ne_framed (id : EntityId) (text rest : Units) : keyText id ≠ framed text ++ rest := by
  obtain ⟨unit, tail, hkey, hletter⟩ := keyText_cons id
  obtain ⟨digit, digits, hdecimal⟩ := Utf16.decimal_cons text.length
  intro h
  rw [hkey, framed, hdecimal, List.append_assoc, List.cons_append] at h
  have hdigit := Utf16.decimal_digits (hdecimal ▸ List.mem_cons_self : digit ∈ decimal text.length)
  rw [(List.cons.inj h).1] at hletter
  have hall : ∀ unit : Fin 65536, (48 ≤ unit.1 ∧ unit.1 ≤ 57) → isLetter unit = false := by
    intro unit hunit
    have h1 : ¬65 ≤ unit.1 := by omega
    have h2 : ¬97 ≤ unit.1 := by omega
    simp [isLetter, h1, h2]
  rw [hall digit hdigit] at hletter
  cases hletter

/-- A text behind its length and a colon says where it ends. -/
theorem framed_colon_inj {s t x y : Units} (h : framed s ++ colon :: x = framed t ++ colon :: y) :
    s = t ∧ x = y := by
  obtain ⟨hst, hxy⟩ := framed_inj h
  exact ⟨hst, (List.cons.inj hxy).2⟩

/-- What follows the name of the store. -/
def Shape.behind (entity : Units) : Shape → Option (Units × Units)
  | explicit store scope =>
    some (store, ofString "scope" ++ colon :: (framed scope ++ colon :: entity))
  | inProcess store n =>
    some (store, ofString "local-scope" ++ colon :: (framed (localName n) ++ colon :: entity))
  | named store => some (store, entity)
  | plain => none

theorem ownerOf_behind {shape : Shape} {entity store rest : Units}
    (h : shape.behind entity = some (store, rest)) :
    ownerOf shape.physical entity = ofString "store" ++ colon :: (framed store ++ colon :: rest) := by
  have hnamed (x : Units) : named store ++ x = ofString "store" ++ colon :: (framed store ++ x) := by
    rw [named, List.append_assoc]
    exact List.append_assoc (ofString "store") [colon] (framed store ++ x)
  cases shape with
  | explicit store' scope =>
    cases h
    rw [Shape.physical, ownerOf, explicitPrefix, List.append_assoc, List.append_assoc, hnamed]
    rfl
  | inProcess store' n =>
    cases h
    rw [Shape.physical, ownerOf, localPrefix, List.append_assoc, List.append_assoc, hnamed]
    rfl
  | named store' =>
    cases h
    rw [Shape.physical, ownerOf, hnamed]
  | plain => cases h

theorem entityKey_inj {name name' : Identifier} {id id' : EntityId}
    (h : entityKey name.1 id = entityKey name'.1 id') : name = name' ∧ keyText id = keyText id' := by
  obtain ⟨hname, hid⟩ := colon_split (colon_notMem name.2) (colon_notMem name'.2) h
  exact ⟨Subtype.ext hname, hid⟩

/-- A word in front of a framed text is no model. -/
theorem entityKey_ne_framed {word : Units} (hword : ∀ unit ∈ word, unit ≠ colon) (name : Identifier)
    (id : EntityId) (text rest : Units) :
    entityKey name.1 id ≠ word ++ colon :: (framed text ++ rest) := by
  intro h
  obtain ⟨-, hid⟩ := colon_split (colon_notMem name.2) hword h
  exact keyText_ne_framed id text rest hid

theorem word_free {word : String} (h : (ofString word).all (fun unit => unit ≠ colon) = true) :
    ∀ unit ∈ ofString word, unit ≠ colon := by
  intro unit hunit
  simpa using List.all_eq_true.mp h unit hunit

theorem localName_inj {m n : Nat} (h : localName m = localName n) : m = n :=
  Utf16.decimal_inj (List.append_cancel_left h)

theorem behind_inj {shape shape' : Shape} {name name' : Identifier} {id id' : EntityId}
    {store rest : Units} (h : shape.behind (entityKey name.1 id) = some (store, rest))
    (h' : shape'.behind (entityKey name'.1 id') = some (store, rest)) :
    shape = shape' ∧ name = name' ∧ keyText id = keyText id' := by
  have hscope := word_free (show (ofString "scope").all (fun unit => unit ≠ colon) = true by decide)
  have hlocal := word_free (show (ofString "local-scope").all (fun unit => unit ≠ colon) = true by decide)
  have hwords : ofString "scope" ≠ ofString "local-scope" := by decide
  cases shape with
  | explicit s c =>
    cases h
    cases shape' with
    | explicit s' c' =>
      obtain ⟨rfl, hrest⟩ := Prod.mk.inj (Option.some.inj h')
      obtain ⟨rfl, hentity⟩ := framed_colon_inj (colon_split hscope hscope hrest).2
      obtain ⟨hname, hid⟩ := entityKey_inj hentity
      exact ⟨rfl, hname.symm, hid.symm⟩
    | inProcess s' n' =>
      obtain ⟨-, hrest⟩ := Prod.mk.inj (Option.some.inj h')
      exact absurd (colon_split hlocal hscope hrest).1.symm hwords
    | named s' =>
      obtain ⟨-, hrest⟩ := Prod.mk.inj (Option.some.inj h')
      exact absurd hrest (entityKey_ne_framed hscope name' id' _ _)
    | plain => cases h'
  | inProcess s n =>
    cases h
    cases shape' with
    | explicit s' c' =>
      obtain ⟨-, hrest⟩ := Prod.mk.inj (Option.some.inj h')
      exact absurd (colon_split hscope hlocal hrest).1 hwords
    | inProcess s' n' =>
      obtain ⟨rfl, hrest⟩ := Prod.mk.inj (Option.some.inj h')
      obtain ⟨hlocalName, hentity⟩ := framed_colon_inj (colon_split hlocal hlocal hrest).2
      obtain ⟨hname, hid⟩ := entityKey_inj hentity
      rw [localName_inj hlocalName]
      exact ⟨rfl, hname.symm, hid.symm⟩
    | named s' =>
      obtain ⟨-, hrest⟩ := Prod.mk.inj (Option.some.inj h')
      exact absurd hrest (entityKey_ne_framed hlocal name' id' _ _)
    | plain => cases h'
  | named s =>
    cases h
    cases shape' with
    | explicit s' c' =>
      obtain ⟨-, hrest⟩ := Prod.mk.inj (Option.some.inj h')
      exact absurd hrest.symm (entityKey_ne_framed hscope name id _ _)
    | inProcess s' n' =>
      obtain ⟨-, hrest⟩ := Prod.mk.inj (Option.some.inj h')
      exact absurd hrest.symm (entityKey_ne_framed hlocal name id _ _)
    | named s' =>
      obtain ⟨rfl, hrest⟩ := Prod.mk.inj (Option.some.inj h')
      obtain ⟨hname, hid⟩ := entityKey_inj hrest
      exact ⟨rfl, hname.symm, hid.symm⟩
    | plain => cases h'
  | plain => cases h

/-- The text of a key says its shape, the model and the id. -/
theorem ownerOf_inj {shape shape' : Shape} {name name' : Identifier} {id id' : EntityId}
    (h : ownerOf shape.physical (entityKey name.1 id) = ownerOf shape'.physical (entityKey name'.1 id')) :
    shape = shape' ∧ name = name' ∧ keyText id = keyText id' := by
  have hstore := word_free (show (ofString "store").all (fun unit => unit ≠ colon) = true by decide)
  cases hbehind : shape.behind (entityKey name.1 id) with
  | none =>
    cases shape with
    | plain =>
      cases hbehind' : shape'.behind (entityKey name'.1 id') with
      | none =>
        cases shape' with
        | plain =>
          obtain ⟨hname, hid⟩ := entityKey_inj h
          exact ⟨rfl, hname, hid⟩
        | explicit s c => cases hbehind'
        | inProcess s n => cases hbehind'
        | named s => cases hbehind'
      | some parts =>
        rw [ownerOf_behind hbehind'] at h
        exact absurd h (entityKey_ne_framed hstore name id _ _)
    | explicit s c => cases hbehind
    | inProcess s n => cases hbehind
    | named s => cases hbehind
  | some parts =>
    rw [ownerOf_behind hbehind] at h
    cases hbehind' : shape'.behind (entityKey name'.1 id') with
    | none =>
      cases shape' with
      | plain => exact absurd h.symm (entityKey_ne_framed hstore name' id' _ _)
      | explicit s c => cases hbehind'
      | inProcess s n => cases hbehind'
      | named s => cases hbehind'
    | some parts' =>
      rw [ownerOf_behind hbehind'] at h
      obtain ⟨hstores, hrest⟩ := framed_colon_inj (colon_split hstore hstore h).2
      refine behind_inj hbehind ?_
      rw [hbehind', hstores, hrest]

/-! ## What scopes say about stores -/

/-- Every cache has one store without a scope, and no two stores have one scope. -/
structure Scopes.Sound (g : Scopes S C) : Prop where
  single : ∀ cache stores, g.primaryStores.get? cache = some stores → ∃ source, stores = [source]
  bounded : ∀ source n, g.localScopes.get? source = some n → n ≤ g.next
  distinct : ∀ source source' n, g.localScopes.get? source = some n →
    g.localScopes.get? source' = some n → source = source'

/-- What was remembered stays. -/
structure Scopes.Within (g g' : Scopes S C) : Prop where
  primary : ∀ cache stores, g.primaryStores.get? cache = some stores →
    g'.primaryStores.get? cache = some stores
  scope : ∀ source n, g.localScopes.get? source = some n → g'.localScopes.get? source = some n

theorem Scopes.Within.refl (g : Scopes S C) : g.Within g := ⟨fun _ _ h => h, fun _ _ h => h⟩

theorem Scopes.Within.trans {g g' g'' : Scopes S C} (h : g.Within g') (h' : g'.Within g'') :
    g.Within g'' :=
  ⟨fun cache stores hp => h'.primary cache stores (h.primary cache stores hp),
    fun source n hs => h'.scope source n (h.scope source n hs)⟩

theorem Scopes.sound_new : (Scopes.new : Scopes S C).Sound where
  single := by
    intro cache stores h
    cases h
  bounded := by
    intro source n h
    cases h
  distinct := by
    intro source source' n h
    cases h

/-- Why a request has this shape. -/
def Explains (g : Scopes S C) (request : Request S C) : Shape → Prop
  | .explicit store scope => store = request.model.store.1 ∧ request.store.cacheScope = some scope
  | .inProcess store n => store = request.model.store.1 ∧ request.store.cacheScope = none ∧
      g.localScopes.get? request.store.source = some n
  | .named store => store = request.model.store.1 ∧ request.store.cacheScope = none ∧
      ∀ cache, request.model.cache = some cache →
        g.primaryStores.get? cache = some [request.store.source]
  | .plain => request.store.cacheScope = none ∧ ∀ cache, request.model.cache = some cache →
      g.primaryStores.get? cache = some [request.store.source]

theorem Explains.within {g g' : Scopes S C} (hg : g.Within g') {request : Request S C} {shape : Shape}
    (h : Explains g request shape) : Explains g' request shape := by
  cases shape with
  | explicit store scope => exact h
  | inProcess store n => exact ⟨h.1, h.2.1, hg.scope _ _ h.2.2⟩
  | named store => exact ⟨h.1, h.2.1, fun cache hcache => hg.primary _ _ (h.2.2 cache hcache)⟩
  | plain => exact ⟨h.1, fun cache hcache => hg.primary _ _ (h.2 cache hcache)⟩

/-- What `localCacheScope` does to the scopes, and what its result says about the store. -/
structure ScopeLaw (g g' : Scopes S C) (model : Model C) (store : Store S)
    (result : Except CacheKeyError (Option Units)) : Prop where
  sound : g'.Sound
  within : g.Within g'
  primary : result = .ok none → ∀ cache, model.cache = some cache →
    g'.primaryStores.get? cache = some [store.source]
  scope : ∀ scope, result = .ok (some scope) →
    ∃ n, scope = localName n ∧ g'.localScopes.get? store.source = some n

theorem scopeLaw {g : Scopes S C} (hg : g.Sound) (model : Model C) (store : Store S) :
    ScopeLaw g (localCacheScope g model store).1 model store (localCacheScope g model store).2 := by
  rw [localCacheScope]
  cases hcache : model.cache with
  | none =>
    refine ⟨hg, .refl g, ?_, ?_⟩
    · intro _ cache hsome
      rw [hcache] at hsome
      cases hsome
    · intro scope h
      cases h
  | some cache =>
    cases hprimary : g.primaryStores.get? cache with
    | none =>
      -- The first store of the cache.
      simp only [hprimary]
      refine ⟨⟨?_, hg.bounded, hg.distinct⟩, ⟨?_, fun _ _ h => h⟩, ?_, ?_⟩
      · intro cache' stores h
        rw [JsMap.get?_set] at h
        split at h
        · exact ⟨store.source, (Option.some.inj h).symm⟩
        · exact hg.single cache' stores h
      · intro cache' stores h
        rw [JsMap.get?_set, if_neg, h]
        rintro rfl
        rw [hprimary] at h
        cases h
      · intro _ cache' hsome
        cases hcache.symm.trans hsome
        exact JsMap.get?_set_self _ _ _
      · intro scope h
        cases h
    | some stores =>
      obtain ⟨source, rfl⟩ := hg.single cache stores hprimary
      simp only [hprimary]
      by_cases hmem : store.source ∈ [source]
      · rw [if_pos hmem]
        refine ⟨hg, .refl g, ?_, ?_⟩
        · intro _ cache' hsome
          cases hcache.symm.trans hsome
          rw [hprimary, List.mem_singleton.mp hmem]
        · intro scope h
          cases h
      · rw [if_neg hmem]
        cases hlocal : g.localScopes.get? store.source with
        | some n =>
          dsimp only
          refine ⟨hg, .refl g, ?_, ?_⟩
          · intro h
            cases h
          · intro scope h
            cases h
            exact ⟨n, rfl, hlocal⟩
        | none =>
          dsimp only
          have hfresh : ∀ source, g.localScopes.get? source ≠ some (g.next + 1) := by
            intro source h
            have := hg.bounded source _ h
            omega
          split
          · refine ⟨⟨hg.single, ?_, hg.distinct⟩, ⟨fun _ _ h => h, fun _ _ h => h⟩, ?_, ?_⟩
            · intro source n h
              exact Nat.le_succ_of_le (hg.bounded source n h)
            · intro h
              cases h
            · intro scope h
              cases h
          · refine ⟨⟨hg.single, ?_, ?_⟩, ⟨fun _ _ h => h, ?_⟩, ?_, ?_⟩
            · intro source n h
              rw [JsMap.get?_set] at h
              split at h
              · exact Nat.le_of_eq (Option.some.inj h).symm
              · exact Nat.le_succ_of_le (hg.bounded source n h)
            · intro source source' n h h'
              rw [JsMap.get?_set] at h h'
              split at h
              · rename_i hsource
                split at h'
                · rename_i hsource'
                  exact hsource.symm.trans hsource'
                · cases h
                  exact absurd h' (hfresh source')
              · split at h'
                · cases h'
                  exact absurd h (hfresh source)
                · exact hg.distinct source source' n h h'
            · intro source n h
              rw [JsMap.get?_set, if_neg, h]
              rintro rfl
              rw [hlocal] at h
              cases h
            · intro h
              cases h
            · intro scope h
              cases h
              exact ⟨g.next + 1, rfl, JsMap.get?_set_self _ _ _⟩

/-- The key of a request, when it has one, is of a shape that the scopes explain. -/
theorem cacheKey_law {g : Scopes S C} (hg : g.Sound) (request : Request S C) (custom : Option Resolved) :
    (cacheKey g request custom).1.Sound ∧ g.Within (cacheKey g request custom).1 ∧
      ∀ owner key, (cacheKey g request custom).2 = .ok (owner, key) →
        EntityIds.assertSafeEntityId request.id = .ok () ∧ ∃ shape,
          Explains (cacheKey g request custom).1 request shape ∧
          owner = ownerOf shape.physical (entityKey request.model.name.1 request.id) ∧
          keyOf shape.physical owner custom = .ok key := by
  rw [cacheKey]
  cases hid : entityIdKey request.id with
  | error e =>
    refine ⟨hg, .refl g, fun owner key h => ?_⟩
    cases h
  | ok idKey =>
    obtain ⟨hsafe, rfl⟩ := EntityIds.entityIdKey_eq_ok.mp hid
    simp only [physicalPrefix]
    cases hscope : request.store.cacheScope with
    | some scope =>
      refine ⟨hg, .refl g, fun owner key h => ⟨hsafe, .explicit request.model.store.1 scope, ⟨rfl, hscope⟩, ?_⟩⟩
      obtain ⟨key', hkey, heq⟩ := Except.map_eq_ok.mp h
      cases heq
      exact ⟨rfl, hkey⟩
    | none =>
      have hlaw := scopeLaw hg request.model request.store
      obtain ⟨⟨g', result⟩, hlocal⟩ : ∃ x, localCacheScope g request.model request.store = x := ⟨_, rfl⟩
      rw [hlocal] at hlaw
      simp only [hlocal]
      cases result with
      | error e =>
        refine ⟨hlaw.sound, hlaw.within, fun owner key h => ?_⟩
        cases h
      | ok found =>
        cases found with
        | some scope =>
          obtain ⟨n, rfl, hn⟩ := hlaw.scope scope rfl
          refine ⟨hlaw.sound, hlaw.within, fun owner key h =>
            ⟨hsafe, .inProcess request.model.store.1 n, ⟨rfl, hscope, hn⟩, ?_⟩⟩
          obtain ⟨key', hkey, heq⟩ := Except.map_eq_ok.mp h
          cases heq
          exact ⟨rfl, hkey⟩
        | none =>
          refine ⟨hlaw.sound, hlaw.within, fun owner key h => ?_⟩
          obtain ⟨key', hkey, heq⟩ := Except.map_eq_ok.mp h
          cases heq
          by_cases hdefault : request.model.store = request.defaultStore
          · rw [if_pos hdefault] at hkey ⊢
            exact ⟨hsafe, .plain, ⟨hscope, hlaw.primary rfl⟩, rfl, hkey⟩
          · rw [if_neg hdefault] at hkey ⊢
            exact ⟨hsafe, .named request.model.store.1, ⟨rfl, hscope, hlaw.primary rfl⟩, rfl, hkey⟩

/-! ## Keys never alias -/

/-- One store adapter source, or one store name with one explicit scope. -/
def SameStore (a b : Request S C) : Prop :=
  a.store.source = b.store.source ∨
    a.model.store = b.model.store ∧ a.store.cacheScope.isSome ∧ a.store.cacheScope = b.store.cacheScope

/-- Stores of one cache with one shape of keys are the same. -/
theorem sameStore_of_shape {g : Scopes S C} (hg : g.Sound) {a b : Request S C} {shape : Shape} {cache : C}
    (ha : Explains g a shape) (hb : Explains g b shape) (hcache : a.model.cache = some cache)
    (hcache' : b.model.cache = some cache) : SameStore a b := by
  have hprimary (h : g.primaryStores.get? cache = some [a.store.source])
      (h' : g.primaryStores.get? cache = some [b.store.source]) : SameStore a b :=
    Or.inl (List.cons.inj (Option.some.inj (h.symm.trans h'))).1
  cases shape with
  | explicit store scope =>
    refine Or.inr ⟨Subtype.ext (ha.1.symm.trans hb.1), ?_, ha.2.trans hb.2.symm⟩
    rw [ha.2]
    rfl
  | inProcess store n => exact Or.inl (hg.distinct _ _ _ ha.2.2 hb.2.2)
  | named store => exact hprimary (ha.2.2 cache hcache) (hb.2.2 cache hcache')
  | plain => exact hprimary (ha.2 cache hcache) (hb.2 cache hcache')

/-- After all calls every result has a shape that the scopes explain. -/
theorem results_law {g : Scopes S C} (hg : g.Sound) (requests : List (Request S C)) :
    ∃ g' : Scopes S C, g'.Sound ∧ g.Within g' ∧
      ∀ call ∈ results g requests, ∀ key, call.2 = .ok key →
        EntityIds.assertSafeEntityId call.1.id = .ok () ∧ ∃ shape, Explains g' call.1 shape ∧
          key = ownerOf shape.physical (entityKey call.1.model.name.1 call.1.id) := by
  induction requests generalizing g with
  | nil =>
    refine ⟨g, hg, .refl g, fun call hcall => ?_⟩
    cases hcall
  | cons request requests ih =>
    obtain ⟨hsound, hwithin, hkey⟩ := cacheKey_law hg request none
    obtain ⟨g', hg', hwithin', hrest⟩ := ih hsound
    refine ⟨g', hg', hwithin.trans hwithin', fun call hcall key hok => ?_⟩
    rcases List.mem_cons.mp hcall with rfl | hcall
    · obtain ⟨⟨owner, key'⟩, hresult, rfl⟩ := Except.map_eq_ok.mp hok
      obtain ⟨hsafe, shape, hexplains, howner, hkeyOf⟩ := hkey owner key' hresult
      refine ⟨hsafe, shape, hexplains.within hwithin', ?_⟩
      -- Without a resolver the key is the owner.
      obtain ⟨text, htext, hassert⟩ := Except.bind_eq_ok.mp hkeyOf
      cases htext
      obtain ⟨resolvedKey, hsafeKey, hresult'⟩ := Except.bind_eq_ok.mp hassert
      rw [if_neg (by simp)] at hresult'
      cases hresult'
      rw [assertSafeCacheKey] at hsafeKey
      split at hsafeKey
      · cases hsafeKey
      · split at hsafeKey
        · cases hsafeKey
        · split at hsafeKey
          · cases hsafeKey
          · cases hsafeKey
            exact howner
    · exact hrest call hcall key hok

theorem builtin_keys_distinct (requests : List (Request S C)) {a b : Request S C} {key : Units} {cache : C}
    (ha : (a, .ok key) ∈ results .new requests) (hb : (b, .ok key) ∈ results .new requests)
    (hcache : a.model.cache = some cache) (hcache' : b.model.cache = some cache) :
    a.model.name = b.model.name ∧ a.id = b.id ∧ SameStore a b := by
  obtain ⟨g, hg, -, hlaw⟩ := @results_law S C _ _ .new Scopes.sound_new requests
  obtain ⟨hsafe, shape, hexplains, hkey⟩ := hlaw _ ha key rfl
  obtain ⟨hsafe', shape', hexplains', hkey'⟩ := hlaw _ hb key rfl
  obtain ⟨rfl, hname, hid⟩ := ownerOf_inj (hkey.symm.trans hkey')
  refine ⟨hname, ?_, sameStore_of_shape hg hexplains hexplains' hcache hcache'⟩
  exact EntityIds.entityIdKey_inj (EntityIds.entityIdKey_eq_ok.mpr ⟨hsafe, rfl⟩)
    (EntityIds.entityIdKey_eq_ok.mpr ⟨hsafe', hid⟩)

end

end ActiveTs.EntityCache.Keys
