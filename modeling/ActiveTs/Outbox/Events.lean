import Mathlib.Data.List.Basic

/-! # Outbox events and their order keys

An outbox event names a model row. Two events of one physical row have to be delivered in order,
but a Datastore row can be named in several ways: by a document identity, by an ancestor key or by
an ancestor key without namespace. So an event has several order keys, and the keys it is checked
against are not the keys that it blocks. -/

namespace ActiveTs.Outbox

def MAX_SAFE_INTEGER : Nat := 9007199254740991

/-! ## Events -/

inductive EntityId
  | string (value : String)
  | number (value : Int)
  | datastoreInt64 (value : String)
  deriving DecidableEq

def entityIdKey : EntityId → String
  | .string value => "string:" ++ value
  | .number value => "number:" ++ toString value
  | .datastoreInt64 value => "datastore-int64:" ++ value

theorem entityIdKey_string (value : String) : entityIdKey (.string value) = "string:" ++ value := rfl

theorem entityIdKey_number (value : Int) :
    entityIdKey (.number value) = "number:" ++ toString value := rfl

theorem entityIdKey_datastoreInt64 (value : String) :
    entityIdKey (.datastoreInt64 value) = "datastore-int64:" ++ value := rfl

structure DatastoreKey where
  ns : Option String
  path : List (String × EntityId)
  deriving DecidableEq

inductive OutboxOperation
  | create
  | update
  | delete
  deriving DecidableEq

/-- `OutboxEvent`, with timestamps in milliseconds. -/
structure OutboxEvent (D : Type u) where
  id : String
  model : String
  modelId : Option EntityId
  modelIdentity : Option String
  modelDatastoreAncestor : Option DatastoreKey
  modelDatastoreScope : Option String
  operation : OutboxOperation
  data : Option D
  reconcileFromStore : Bool
  createdAt : Nat
  sequence : Option String
  version : Option Nat
  leaseToken : Option String
  leaseExpiresAt : Option Nat
  deliveryAttempts : Option Nat
  availableAt : Option Nat
  deadLetteredAt : Option Nat
  lastDeliveryError : Option String
  deriving DecidableEq

variable {D : Type u}

inductive EventError
  | malformed
  | missingModelId
  | unsafeVersion
  | unsafeDeliveryAttempts
  | halfLease
  | deadLetteredWhileLeased

/-- The checks of `sanitizeOutboxEvent` on a record whose fields have their formats. -/
def sanitizeOutboxEvent (requireModelId : Bool) (event : OutboxEvent D) :
    Except EventError (OutboxEvent D) :=
  if requireModelId && event.modelId.isNone then .error .missingModelId
  else if MAX_SAFE_INTEGER < event.version.getD 0 then .error .unsafeVersion
  else if MAX_SAFE_INTEGER < event.deliveryAttempts.getD 0 then .error .unsafeDeliveryAttempts
  else if event.leaseToken.isNone != event.leaseExpiresAt.isNone then .error .halfLease
  else if event.deadLetteredAt.isSome && event.leaseToken.isSome then
    .error .deadLetteredWhileLeased
  else .ok event

def outboxEventVersion (event : OutboxEvent D) : Nat := event.version.getD 0

theorem sanitizeOutboxEvent_ok {requireModelId : Bool} {event event' : OutboxEvent D}
    (h : sanitizeOutboxEvent requireModelId event = .ok event') :
    event' = event ∧ outboxEventVersion event ≤ MAX_SAFE_INTEGER := by
  unfold sanitizeOutboxEvent at h
  by_cases hid : (requireModelId && event.modelId.isNone) = true
  · rw [if_pos hid] at h
    cases h
  by_cases hv : MAX_SAFE_INTEGER < event.version.getD 0
  · rw [if_neg hid, if_pos hv] at h
    cases h
  rw [if_neg hid, if_neg hv] at h
  refine ⟨?_, Nat.le_of_not_lt hv⟩
  split at h
  · cases h
  · split at h
    · cases h
    · split at h
      · cases h
      · exact (Except.ok.inj h).symm

/-! ## Identities of raw values -/

/-- `OutboxEventIdentity`: the parts of a raw value that can be trusted. -/
structure OutboxEventIdentity where
  id : Option String
  model : Option String
  modelId : Option EntityId
  modelIdentity : Option String

/-- An entry of a drain or lease result. -/
inductive RawEntry (D : Type u)
  /-- A record whose fields have their formats. -/
  | event (event : OutboxEvent D)
  /-- Any other value, with what its own data properties still say. -/
  | malformed (identity : OutboxEventIdentity) (deliveryAttempts : Nat)

namespace RawEntry

def identity : RawEntry D → OutboxEventIdentity
  | event e => ⟨some e.id, some e.model, e.modelId, e.modelIdentity⟩
  | malformed identity _ => identity

/-- The attempts in `snapshotOutboxDeliveryIdentity`, zero unless they are a safe integer. -/
def deliveryAttempts : RawEntry D → Nat
  | event e =>
    if e.deliveryAttempts.getD 0 ≤ MAX_SAFE_INTEGER then e.deliveryAttempts.getD 0 else 0
  | malformed _ attempts => attempts

/-- `sanitizeOutboxEvent(rawEvent, { requireModelId: true })`. -/
def sanitize : RawEntry D → Except EventError (OutboxEvent D)
  | event e => sanitizeOutboxEvent true e
  | malformed .. => .error .malformed

theorem sanitize_ok {raw : RawEntry D} {e : OutboxEvent D} (h : raw.sanitize = .ok e) :
    raw = .event e ∧ outboxEventVersion e ≤ MAX_SAFE_INTEGER := by
  cases raw with
  | malformed => cases h
  | event e' =>
    obtain ⟨rfl, hv⟩ := sanitizeOutboxEvent_ok h
    exact ⟨rfl, hv⟩

end RawEntry

/-! ## Order keys -/

def outboxIdentityOrderKeys (identity : OutboxEventIdentity) (index : Nat) : List String :=
  match identity.model, identity.modelIdentity, identity.modelId, identity.id with
  | some model, some modelIdentity, _, _ => [s!"{model}:{modelIdentity}"]
  | some model, none, some modelId, _ => [s!"{model}:{entityIdKey modelId}"]
  | _, _, _, some id => [s!"event:{id}"]
  | _, _, _, none => [s!"malformed:{index}"]

/-- One character of a string in `JSON.stringify`. -/
def jsonChar (c : Char) : List Char :=
  if c.toNat = 34 ∨ c.toNat = 92 then [Char.ofNat 92, c]
  else if c.toNat = 8 then "\\b".toList
  else if c.toNat = 9 then "\\t".toList
  else if c.toNat = 10 then "\\n".toList
  else if c.toNat = 12 then "\\f".toList
  else if c.toNat = 13 then "\\r".toList
  else if c.toNat < 16 then "\\u000".toList ++ Nat.toDigits 16 c.toNat
  else if c.toNat < 32 then "\\u00".toList ++ Nat.toDigits 16 c.toNat
  else [c]

def jsonString (s : String) : String :=
  "\"" ++ String.ofList (s.toList.flatMap jsonChar) ++ "\""

/-- `JSON.stringify([scope ?? null, key])`. -/
def jsonScopedKey (scope : Option String) (key : String) : String :=
  "[" ++ (scope.map jsonString).getD "null" ++ "," ++ jsonString key ++ "]"

inductive AliasKind
  | identityOnly
  | namespaceLessAncestor

def AliasKind.text : AliasKind → String
  | identityOnly => "identity-only"
  | namespaceLessAncestor => "namespace-less-ancestor"

def outboxDatastoreAliasKey (event : OutboxEvent D) (kind : AliasKind) (modelId : EntityId) :
    String :=
  s!"{event.model}:datastore-{kind.text}-namespace-alias:" ++
    jsonScopedKey event.modelDatastoreScope (entityIdKey modelId)

def outboxIsDatastoreIdentityOnlyEvent (event : OutboxEvent D) : Bool :=
  event.modelId.isSome && event.modelDatastoreAncestor.isNone &&
    event.modelIdentity.any fun identity => "datastore:".toList.isPrefixOf identity.toList

def outboxIsNamespaceLessDatastoreAncestorEvent (event : OutboxEvent D) : Bool :=
  event.modelId.isSome && event.modelDatastoreAncestor.any fun key => key.ns.isNone

def appendOutboxEntityOrderKey (keys : List String) (key : String) : List String :=
  if key ∈ keys then keys else keys ++ [key]

/-- The alias key of an event of the given class. -/
def aliasKey? (is : OutboxEvent D → Bool) (event : OutboxEvent D) (kind : AliasKind) :
    Option String :=
  if is event then event.modelId.map (outboxDatastoreAliasKey event kind) else none

def appendAlias (keys : List String) : Option String → List String
  | some key => appendOutboxEntityOrderKey keys key
  | none => keys

section
-- `datastoreSearchDocumentIdentity`: a hash of the model, scope, id and ancestor.
variable (documentIdentity : String → Option String → EntityId → Option DatastoreKey → String)

def outboxEntityOrderKeys (event : OutboxEvent D) : List String :=
  let identityKeys := (event.modelIdentity.map fun identity => s!"{event.model}:{identity}").toList
  let ancestorKeys :=
    match event.modelId with
    | some modelId =>
      if event.modelDatastoreAncestor.isSome || event.modelDatastoreScope.isSome then
        [s!"{event.model}:" ++ documentIdentity event.model event.modelDatastoreScope modelId
          event.modelDatastoreAncestor]
      else []
    | none => []
  if identityKeys ++ ancestorKeys ≠ [] then identityKeys ++ ancestorKeys
  else
    match event.modelId with
    | none => [s!"event:{event.id}"]
    | some modelId => [s!"{event.model}:{entityIdKey modelId}"]

/-- The keys that an event waits for. -/
def outboxEntityOrderCheckKeys (event : OutboxEvent D) : List String :=
  let keys := appendAlias (outboxEntityOrderKeys documentIdentity event)
    (aliasKey? outboxIsDatastoreIdentityOnlyEvent event .namespaceLessAncestor)
  appendAlias keys (aliasKey? outboxIsNamespaceLessDatastoreAncestorEvent event .identityOnly)

/-- The keys that an undelivered event blocks. -/
def outboxEntityOrderBlockKeys (event : OutboxEvent D) : List String :=
  let keys := appendAlias (outboxEntityOrderKeys documentIdentity event)
    (aliasKey? outboxIsDatastoreIdentityOnlyEvent event .identityOnly)
  appendAlias keys
    (aliasKey? outboxIsNamespaceLessDatastoreAncestorEvent event .namespaceLessAncestor)

end

def outboxEntityOrderKeysBlocked (blocked orderKeys : List String) : Bool :=
  orderKeys.any fun key => blocked.contains key

theorem outboxEntityOrderKeysBlocked_iff {blocked orderKeys : List String} :
    outboxEntityOrderKeysBlocked blocked orderKeys = true ↔ ∃ key ∈ orderKeys, key ∈ blocked := by
  simp [outboxEntityOrderKeysBlocked]

end ActiveTs.Outbox
