import ActiveTs.EntityCache.CacheKeys

/-! # Owners of custom cache keys

With a resolver a context remembers which entity a key belongs to. Transactions and savepoints remember
what they learn in maps of their own: a savepoint starts with those of its parent and leaves its own
there when it is released, a transaction leaves its own at the root after the commit. -/

namespace ActiveTs.EntityCache.Keys

open Utf16 (Units ofString)

/-! ## The maps -/

/-- `cacheKeyOwners`, from keys to owners, and `entityCacheKeys`, from owners to keys. -/
structure Maps where
  cacheKeyOwners : JsMap Units Units
  entityCacheKeys : JsMap Units Units

namespace Maps

def new : Maps := ⟨.empty, .empty⟩

/-- The first check stands twice in the source. -/
def assertStableEntityCacheKeyMaps (maps : Maps) (owner key : Units) : Except CacheKeyError Unit :=
  let existingOwner := (maps.cacheKeyOwners.get? key).getD owner
  let existingKey := (maps.entityCacheKeys.get? owner).getD key
  if existingOwner ≠ owner then .error (.otherOwner key existingOwner owner)
  else if existingKey ≠ key then .error (.otherKey owner existingKey key)
  else .ok ()

def remember (maps : Maps) (owner key : Units) : Maps :=
  ⟨maps.cacheKeyOwners.set key owner, maps.entityCacheKeys.set owner key⟩

/-- `mapSet` for every entry of other maps. -/
def merge (maps staged : Maps) : Maps :=
  ⟨staged.cacheKeyOwners.entries.foldl (fun owners entry => owners.set entry.1 entry.2)
      maps.cacheKeyOwners,
    staged.entityCacheKeys.entries.foldl (fun keys entry => keys.set entry.1 entry.2)
      maps.entityCacheKeys⟩

end Maps

def assertCacheKeyOwnerLimit (limit : Option Nat) (owners : JsMap Units Units)
    (staged : Option (JsMap Units Units)) (additionalKey : Option Units) : Except CacheKeyError Unit :=
  match limit with
  | none => .ok ()
  | some limit =>
    let stagedKeys := (staged.map JsMap.keys).getD []
    let count := owners.size + (stagedKeys.filter fun key => !owners.has key).length +
      (additionalKey.toList.filter fun key => !owners.has key && !stagedKeys.contains key).length
    if limit < count then .error (.ownerLimit limit) else .ok ()

/-! ## Transactions -/

inductive Phase
  | running
  /-- The callback ended, and the checks after it passed. -/
  | finished
  | closed
  deriving DecidableEq

/-- The state of a transaction attempt, or of a savepoint with its parent. -/
structure Transaction where
  parent : Option Nat
  maps : Maps
  phase : Phase

/-- The maps of the root, and the transactions on it by number. -/
structure World (S C : Type) where
  scopes : Scopes S C
  root : Maps
  transactions : List Transaction

inductive Event (S C : Type)
  /-- A call of `cacheKey` at the root. -/
  | callRoot (request : Request S C) (resolved : Resolved)
  /-- A call of `cacheKey` in a transaction or savepoint. -/
  | call (n : Nat) (request : Request S C) (resolved : Resolved)
  /-- A call in a context with other maps. -/
  | elsewhere (request : Request S C) (custom : Option Resolved)
  | begin
  | savepoint (parent : Nat)
  /-- A callback ended without an error. -/
  | finish (n : Nat)
  | release (n : Nat)
  | commit (n : Nat)
  /-- The transaction or savepoint failed, whatever became of its writes. -/
  | fail (n : Nat)

inductive Outcome
  | returned (owner key : Units)
  | threw (error : CacheKeyError)
  | done

/-- `assertStableEntityCacheKey` at the root. -/
def rememberRoot (limit : Option Nat) (root : Maps) (owner key : Units) : Except CacheKeyError Maps := do
  root.assertStableEntityCacheKeyMaps owner key
  assertCacheKeyOwnerLimit limit root.cacheKeyOwners none (some key)
  .ok (root.remember owner key)

/-- `assertStableEntityCacheKey` in a transaction: what the root knows is not staged again. -/
def rememberStaged (limit : Option Nat) (root staged : Maps) (owner key : Units) :
    Except CacheKeyError Maps := do
  root.assertStableEntityCacheKeyMaps owner key
  staged.assertStableEntityCacheKeyMaps owner key
  assertCacheKeyOwnerLimit limit root.cacheKeyOwners (some staged.cacheKeyOwners) (some key)
  .ok ⟨if root.cacheKeyOwners.has key then staged.cacheKeyOwners else staged.cacheKeyOwners.set key owner,
    if root.entityCacheKeys.has owner then staged.entityCacheKeys else staged.entityCacheKeys.set owner key⟩

/-- `mergeTransactionCacheKeyOwnership` -/
def mergeTransactionCacheKeyOwnership (limit : Option Nat) (root staged : Maps) :
    Except CacheKeyError Maps := do
  assertCacheKeyOwnerLimit limit root.cacheKeyOwners (some staged.cacheKeyOwners) none
  staged.cacheKeyOwners.entries.forM fun entry =>
    root.assertStableEntityCacheKeyMaps entry.2 entry.1
  staged.entityCacheKeys.entries.forM fun entry =>
    root.assertStableEntityCacheKeyMaps entry.1 entry.2
  .ok (root.merge staged)

/-- The checks at the end of a callback; a savepoint's own maps are compared with its parent's. -/
def finishChecks (limit : Option Nat) (root : Maps) (parent : Option Maps) (staged : Maps) :
    Except CacheKeyError Unit := do
  assertCacheKeyOwnerLimit limit root.cacheKeyOwners (some staged.cacheKeyOwners) none
  match parent with
  | none => .ok ()
  | some parent => staged.cacheKeyOwners.entries.forM fun entry =>
      parent.assertStableEntityCacheKeyMaps entry.2 entry.1

section
variable {S C : Type} [DecidableEq S] [DecidableEq C]

namespace World

def new (scopes : Scopes S C) : World S C := ⟨scopes, .new, []⟩

def put (w : World S C) (n : Nat) (transaction : Transaction) : World S C :=
  { w with transactions := w.transactions.set n transaction }

def parentMaps (w : World S C) (transaction : Transaction) : Option Maps :=
  (transaction.parent.bind fun parent => w.transactions[parent]?).map Transaction.maps

end World

/-- A call of `cacheKey` at the root. -/
def callAtRoot (limit : Option Nat) (w : World S C) (request : Request S C) (resolved : Resolved) :
    World S C × Outcome :=
  match cacheKey w.scopes request (some resolved) with
  | (scopes, .error e) => ({ w with scopes }, .threw e)
  | (scopes, .ok (owner, key)) =>
    match rememberRoot limit w.root owner key with
    | .error e => ({ w with scopes }, .threw e)
    | .ok root => ({ w with scopes, root }, .returned owner key)

/-- A call of `cacheKey` in a transaction that is running. -/
def callInTransaction (limit : Option Nat) (w : World S C) (n : Nat) (transaction : Transaction)
    (request : Request S C) (resolved : Resolved) : World S C × Outcome :=
  match cacheKey w.scopes request (some resolved) with
  | (scopes, .error e) => ({ w with scopes }, .threw e)
  | (scopes, .ok (owner, key)) =>
    match rememberStaged limit w.root transaction.maps owner key with
    | .error e => ({ w with scopes }, .threw e)
    | .ok maps => ({ w with scopes }.put n { transaction with maps }, .returned owner key)

/-- The callback of a transaction ends. -/
def finishTransaction (limit : Option Nat) (w : World S C) (n : Nat) (transaction : Transaction) :
    World S C × Outcome :=
  match finishChecks limit w.root (w.parentMaps transaction) transaction.maps with
  | .error e => (w.put n { transaction with phase := .closed }, .threw e)
  | .ok () => (w.put n { transaction with phase := .finished }, .done)

/-- A savepoint that is released leaves its maps with its parent. -/
def releaseSavepoint (w : World S C) (n parent : Nat) (transaction : Transaction) : World S C × Outcome :=
  match w.transactions[parent]? with
  | none => (w, .done)
  | some above =>
    ((w.put parent { above with maps := above.maps.merge transaction.maps }).put n
      { transaction with phase := .closed }, .done)

/-- The first task after a commit; where it throws, the transaction is committed all the same. -/
def commitTransaction (limit : Option Nat) (w : World S C) (n : Nat) (transaction : Transaction) :
    World S C × Outcome :=
  match mergeTransactionCacheKeyOwnership limit w.root transaction.maps with
  | .error e => (w.put n { transaction with phase := .closed }, .threw e)
  | .ok root => ({ w with root }.put n { transaction with phase := .closed }, .done)

/-- Runs on a transaction in some phase; in another phase nothing happens. -/
def onTransaction (w : World S C) (n : Nat) (phase : Phase)
    (act : Transaction → World S C × Outcome) : World S C × Outcome :=
  match w.transactions[n]? with
  | none => (w, .done)
  | some transaction => if transaction.phase = phase then act transaction else (w, .done)

def step (limit : Option Nat) (w : World S C) : Event S C → World S C × Outcome
  | .callRoot request resolved => callAtRoot limit w request resolved
  | .call n request resolved =>
    onTransaction w n .running fun transaction => callInTransaction limit w n transaction request resolved
  | .elsewhere request custom =>
    ({ w with scopes := (cacheKey w.scopes request custom).1 }, .done)
  | .begin =>
    ({ w with transactions := w.transactions ++ [⟨none, .new, .running⟩] }, .done)
  | .savepoint parent =>
    onTransaction w parent .running fun transaction =>
      ({ w with transactions := w.transactions ++ [⟨some parent, transaction.maps, .running⟩] }, .done)
  | .finish n => onTransaction w n .running (finishTransaction limit w n)
  | .release n =>
    onTransaction w n .finished fun transaction =>
      match transaction.parent with
      | none => (w, .done)
      | some parent => releaseSavepoint w n parent transaction
  | .commit n =>
    onTransaction w n .finished fun transaction =>
      match transaction.parent with
      | none => commitTransaction limit w n transaction
      | some _ => (w, .done)
  | .fail n =>
    match w.transactions[n]? with
    | none => (w, .done)
    | some transaction => (w.put n { transaction with phase := .closed }, .done)

def run (limit : Option Nat) (w : World S C) (events : List (Event S C)) : World S C :=
  events.foldl (fun w event => (step limit w event).1) w

/-! ## The maps of the root only grow -/

namespace Maps

/-- Every entry stays as it is. -/
structure Within (maps maps' : Maps) : Prop where
  owners : ∀ key owner, maps.cacheKeyOwners.get? key = some owner →
    maps'.cacheKeyOwners.get? key = some owner
  keys : ∀ owner key, maps.entityCacheKeys.get? owner = some key →
    maps'.entityCacheKeys.get? owner = some key

theorem Within.refl (maps : Maps) : maps.Within maps := ⟨fun _ _ h => h, fun _ _ h => h⟩

theorem Within.trans {maps maps' maps'' : Maps} (h : maps.Within maps') (h' : maps'.Within maps'') :
    maps.Within maps'' :=
  ⟨fun key owner hkey => h'.owners key owner (h.owners key owner hkey),
    fun owner key hkey => h'.keys owner key (h.keys owner key hkey)⟩

/-- The key is free or belongs to the owner, and the owner has no other key. -/
theorem stable_iff {maps : Maps} {owner key : Units} :
    maps.assertStableEntityCacheKeyMaps owner key = .ok () ↔
      (∀ existing, maps.cacheKeyOwners.get? key = some existing → existing = owner) ∧
        ∀ existing, maps.entityCacheKeys.get? owner = some existing → existing = key := by
  have hgetD (found : Option Units) (text : Units) :
      found.getD text = text ↔ ∀ existing, found = some existing → existing = text := by
    cases found <;> simp
  rw [assertStableEntityCacheKeyMaps, ← hgetD, ← hgetD]
  by_cases howner : (maps.cacheKeyOwners.get? key).getD owner = owner
  · by_cases hkey : (maps.entityCacheKeys.get? owner).getD key = key
    · simp [howner, hkey]
    · simp [howner, hkey]
  · simp [howner]

end Maps

/-- Entries that agree with a map overwrite nothing of it. -/
theorem get?_foldl_of_agree {entries : List (Units × Units)} {map : JsMap Units Units}
    {key value : Units} (hagree : ∀ entry ∈ entries, entry.1 = key → entry.2 = value)
    (h : map.get? key = some value) :
    (entries.foldl (fun map entry => map.set entry.1 entry.2) map).get? key = some value := by
  induction entries generalizing map with
  | nil => exact h
  | cons entry entries ih =>
    rw [List.forall_mem_cons] at hagree
    refine ih hagree.2 ?_
    rw [JsMap.get?_set]
    split
    · rename_i hkey
      rw [hagree.1 hkey]
    · exact h

theorem Maps.within_remember {maps : Maps} {owner key : Units}
    (h : maps.assertStableEntityCacheKeyMaps owner key = .ok ()) :
    maps.Within (maps.remember owner key) := by
  obtain ⟨howner, hkey⟩ := Maps.stable_iff.mp h
  constructor
  · intro key' owner' hget
    refine (JsMap.get?_set _ _ _ _).trans ?_
    split
    · rename_i heq
      rw [howner owner' (heq ▸ hget)]
    · exact hget
  · intro owner' key' hget
    refine (JsMap.get?_set _ _ _ _).trans ?_
    split
    · rename_i heq
      rw [hkey key' (heq ▸ hget)]
    · exact hget

theorem Maps.within_merge {maps staged : Maps}
    (howners : ∀ entry ∈ staged.cacheKeyOwners.entries,
      maps.assertStableEntityCacheKeyMaps entry.2 entry.1 = .ok ())
    (hkeys : ∀ entry ∈ staged.entityCacheKeys.entries,
      maps.assertStableEntityCacheKeyMaps entry.1 entry.2 = .ok ()) :
    maps.Within (maps.merge staged) := by
  constructor
  · intro key owner hget
    refine get?_foldl_of_agree (fun entry hentry heq => ?_) hget
    exact ((Maps.stable_iff.mp (howners entry hentry)).1 owner (heq ▸ hget)).symm
  · intro owner key hget
    refine get?_foldl_of_agree (fun entry hentry heq => ?_) hget
    exact ((Maps.stable_iff.mp (hkeys entry hentry)).2 key (heq ▸ hget)).symm

/-- What a call at the root leaves there. -/
theorem rememberRoot_ok {limit : Option Nat} {root root' : Maps} {owner key : Units}
    (h : rememberRoot limit root owner key = .ok root') :
    root.Within root' ∧ root'.cacheKeyOwners.get? key = some owner ∧
      root'.entityCacheKeys.get? owner = some key := by
  obtain ⟨⟨⟩, hstable, h⟩ := Except.bind_eq_ok.mp h
  obtain ⟨⟨⟩, -, h⟩ := Except.bind_eq_ok.mp h
  cases h
  exact ⟨Maps.within_remember hstable, JsMap.get?_set_self _ _ _, JsMap.get?_set_self _ _ _⟩

theorem mergeTransactionCacheKeyOwnership_ok {limit : Option Nat} {root root' staged : Maps}
    (h : mergeTransactionCacheKeyOwnership limit root staged = .ok root') : root.Within root' := by
  obtain ⟨⟨⟩, -, h⟩ := Except.bind_eq_ok.mp h
  obtain ⟨⟨⟩, howners, h⟩ := Except.bind_eq_ok.mp h
  obtain ⟨⟨⟩, hkeys, h⟩ := Except.bind_eq_ok.mp h
  cases h
  exact Maps.within_merge (Except.forM_eq_ok.mp howners) (Except.forM_eq_ok.mp hkeys)

/-! ## Steps and runs -/

omit [DecidableEq S] [DecidableEq C] in
theorem onTransaction_root {w : World S C} {n : Nat} {phase : Phase}
    {act : Transaction → World S C × Outcome}
    (h : ∀ transaction, w.root.Within (act transaction).1.root) :
    w.root.Within (onTransaction w n phase act).1.root := by
  rw [onTransaction]
  cases w.transactions[n]? with
  | none => exact .refl _
  | some transaction =>
    dsimp only
    split
    · exact h transaction
    · exact .refl _

theorem callAtRoot_law (limit : Option Nat) (w : World S C) (request : Request S C)
    (resolved : Resolved) :
    w.root.Within (callAtRoot limit w request resolved).1.root ∧
      ∀ owner key, (callAtRoot limit w request resolved).2 = .returned owner key →
        (callAtRoot limit w request resolved).1.root.cacheKeyOwners.get? key = some owner ∧
        (callAtRoot limit w request resolved).1.root.entityCacheKeys.get? owner = some key := by
  rw [callAtRoot]
  obtain ⟨⟨scopes, result⟩, hkey⟩ : ∃ x, cacheKey w.scopes request (some resolved) = x := ⟨_, rfl⟩
  rw [hkey]
  cases result with
  | error e =>
    refine ⟨.refl _, fun owner key h => ?_⟩
    cases h
  | ok found =>
    obtain ⟨owner, key⟩ := found
    dsimp only
    cases hremember : rememberRoot limit w.root owner key with
    | error e =>
      refine ⟨.refl _, fun owner key h => ?_⟩
      cases h
    | ok root =>
      obtain ⟨hwithin, howner, hkey'⟩ := rememberRoot_ok hremember
      refine ⟨hwithin, fun owner' key' h => ?_⟩
      cases h
      exact ⟨howner, hkey'⟩

/-- No step changes an entry of the root. -/
theorem step_within (limit : Option Nat) (w : World S C) (event : Event S C) :
    w.root.Within (step limit w event).1.root := by
  cases event with
  | callRoot request resolved => exact (callAtRoot_law limit w request resolved).1
  | call n request resolved =>
    refine onTransaction_root fun transaction => ?_
    rw [callInTransaction]
    split
    · exact .refl _
    · split <;> exact .refl _
  | elsewhere request custom => exact .refl _
  | «begin» => exact .refl _
  | savepoint parent => exact onTransaction_root fun transaction => .refl _
  | finish n =>
    refine onTransaction_root fun transaction => ?_
    rw [finishTransaction]
    split <;> exact .refl _
  | release n =>
    refine onTransaction_root fun transaction => ?_
    cases transaction.parent with
    | none => exact .refl _
    | some parent =>
      dsimp only
      rw [releaseSavepoint]
      split <;> exact .refl _
  | commit n =>
    refine onTransaction_root fun transaction => ?_
    cases transaction.parent with
    | none =>
      dsimp only
      rw [commitTransaction]
      split
      · exact .refl _
      · rename_i hmerge
        exact mergeTransactionCacheKeyOwnership_ok hmerge
    | some parent => exact .refl _
  | fail n =>
    rw [step]
    split <;> exact .refl _

theorem run_within (limit : Option Nat) (w : World S C) (events : List (Event S C)) :
    w.root.Within (run limit w events).root := by
  induction events generalizing w with
  | nil => exact .refl _
  | cons event events ih => exact (step_within limit w event).trans (ih _)

/-- A key that a call at the root returned belongs to its owner from then on, as the owner's key. -/
theorem returned_owned {limit : Option Nat} {w : World S C} {request : Request S C} {resolved : Resolved}
    {owner key : Units} (h : (step limit w (.callRoot request resolved)).2 = .returned owner key)
    (events : List (Event S C)) :
    (run limit (step limit w (.callRoot request resolved)).1 events).root.cacheKeyOwners.get? key = some owner ∧
      (run limit (step limit w (.callRoot request resolved)).1 events).root.entityCacheKeys.get? owner =
        some key := by
  obtain ⟨howner, hkey⟩ := (callAtRoot_law limit w request resolved).2 owner key h
  have hwithin := run_within limit (step limit w (.callRoot request resolved)).1 events
  exact ⟨hwithin.owners key owner howner, hwithin.keys owner key hkey⟩

/-! ## All histories -/

/-- In this history a call at the root returned a key for an owner. -/
def Returned (limit : Option Nat) (w : World S C) (events : List (Event S C)) (owner key : Units) : Prop :=
  ∃ before request resolved after, events = before ++ .callRoot request resolved :: after ∧
    (step limit (run limit w before) (.callRoot request resolved)).2 = .returned owner key

theorem Returned.owned {limit : Option Nat} {w : World S C} {events : List (Event S C)}
    {owner key : Units} (h : Returned limit w events owner key) :
    (run limit w events).root.cacheKeyOwners.get? key = some owner ∧
      (run limit w events).root.entityCacheKeys.get? owner = some key := by
  obtain ⟨before, request, resolved, after, rfl, hreturned⟩ := h
  have hrun : run limit w (before ++ .callRoot request resolved :: after) =
      run limit (step limit (run limit w before) (.callRoot request resolved)).1 after := by
    rw [run, List.foldl_append]
    rfl
  rw [hrun]
  exact returned_owned hreturned after

theorem cache_keys_never_alias :
    -- Without a resolver, for the calls of any contexts:
    (∀ (requests : List (Request S C)) (a b : Request S C) (key : Units) (cache : C),
      (a, .ok key) ∈ results .new requests → (b, .ok key) ∈ results .new requests →
      a.model.cache = some cache → b.model.cache = some cache →
      a.model.name = b.model.name ∧ a.id = b.id ∧ SameStore a b) ∧
    -- With a resolver, for every history of one root:
    ∀ (limit : Option Nat) (scopes : Scopes S C) (events : List (Event S C)),
      (∀ later, (run limit (.new scopes) events).root.Within
        (run limit (.new scopes) (events ++ later)).root) ∧
      (∀ owner key, Returned limit (.new scopes) events owner key →
        (run limit (.new scopes) events).root.cacheKeyOwners.get? key = some owner ∧
        (run limit (.new scopes) events).root.entityCacheKeys.get? owner = some key) ∧
      ∀ owner key owner' key', Returned limit (.new scopes) events owner key →
        Returned limit (.new scopes) events owner' key' → (owner = owner' ↔ key = key') := by
  refine ⟨fun requests a b key cache => builtin_keys_distinct requests, fun limit scopes events =>
    ⟨fun later => ?_, fun owner key => Returned.owned, fun owner key owner' key' h h' => ?_⟩⟩
  · rw [run, run, List.foldl_append]
    exact run_within limit _ later
  · obtain ⟨howner, hkey⟩ := h.owned
    obtain ⟨howner', hkey'⟩ := h'.owned
    constructor
    · rintro rfl
      exact Option.some.inj (hkey.symm.trans hkey')
    · rintro rfl
      exact Option.some.inj (howner.symm.trans howner')

end

end ActiveTs.EntityCache.Keys
