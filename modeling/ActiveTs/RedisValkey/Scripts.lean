import ActiveTs.Lib.Steps
import ActiveTs.Lib.Except

/-! # The Lua scripts of the Redis/Valkey cache

A cached value and its version live in two keys of the server, each with a deadline of its own.
The scripts run atomically under a frozen clock; the clock moves between them, and a key whose
deadline has passed is gone. -/

namespace ActiveTs.RedisValkey

/-! ## The server -/

/-- A string key with the time in milliseconds after which it is gone. -/
structure Entry (β : Type) where
  data : β
  deadline : Option Nat
deriving DecidableEq

/-- The error of a command that aborts its script. -/
inductive ServerError where
  | invalidExpireTime
deriving DecidableEq

section
variable {β : Type}

def Entry.alive (now : Nat) (e : Entry β) : Bool := e.deadline.all (now ≤ ·)

/-- `PTTL`: -2 for a missing key and -1 for a key without a deadline. -/
def pttl (now : Nat) : Option (Entry β) → Int
  | none => -2
  | some e =>
    match e.deadline with
    | none => -1
    | some deadline => ((deadline - now : Nat) : Int)

/-- `TTL`, in rounded seconds. -/
def ttl (now : Nat) (slot : Option (Entry β)) : Int :=
  if pttl now slot < 0 then pttl now slot else (pttl now slot + 500) / 1000

/-- `SET key data PX milliseconds`. -/
def setPx (now : Nat) (data : β) (milliseconds : Int) :
    Except ServerError (Option (Entry β)) :=
  if milliseconds ≤ 0 then .error .invalidExpireTime
  else .ok (some ⟨data, some (now + milliseconds.toNat)⟩)

/-- `SET key data EX seconds`. -/
def setEx (now : Nat) (data : β) (seconds : Nat) : Except ServerError (Option (Entry β)) :=
  setPx now data (1000 * seconds)

/-- `PEXPIRE key milliseconds`: a deadline that is not in the future deletes the key. -/
def pexpire (now : Nat) (milliseconds : Int) : Option (Entry β) → Option (Entry β)
  | none => none
  | some e =>
    if milliseconds ≤ 0 then none
    else some { e with deadline := some (now + milliseconds.toNat) }

def expire (now : Nat) (seconds : Nat) : Option (Entry β) → Option (Entry β) :=
  pexpire now (1000 * seconds)

def persist : Option (Entry β) → Option (Entry β)
  | none => none
  | some e => some { e with deadline := none }

end

/-- The two keys of one cache entry. -/
structure Server (β : Type) where
  now : Nat
  value : Option (Entry β)
  version : Option (Entry String)

/-! ## The scripts -/

def VERSION_TOMBSTONE_TTL_SECONDS : Nat := 24 * 60 * 60

namespace Server

variable {β : Type}

/-- The version key created beside a value, with the value's lifetime. -/
def createVersion (now : Nat) (token : String) (valueTtl : Int) :
    Except ServerError (Option (Entry String)) :=
  if 0 ≤ valueTtl then setPx now token valueTtl else .ok (some ⟨token, none⟩)

/-- `VERSIONED_GET_SCRIPT`: the value and its version, which is created when it is missing and
gets the lifetime of the value. -/
def versionedGet (s : Server β) (token : String) :
    Except ServerError (Server β × Option β × String) :=
  match s.version with
  | none =>
    match s.value with
    | some value => do
      let version ← createVersion s.now token (pttl s.now s.value)
      return ({ s with version := version }, some value.data, token)
    | none => do
      let version ← setEx s.now token VERSION_TOMBSTONE_TTL_SECONDS
      return ({ s with version := version }, none, token)
  | some version =>
    match s.value with
    | some value =>
      let valueTtl := pttl s.now s.value
      let version' := if 0 ≤ valueTtl then pexpire s.now valueTtl s.version else persist s.version
      .ok ({ s with version := version' }, some value.data, version.data)
    | none =>
      let version' :=
        if ttl s.now s.version < 0 then expire s.now VERSION_TOMBSTONE_TTL_SECONDS s.version
        else s.version
      .ok ({ s with version := version' }, none, version.data)

/-- The `SET` of a value and its version, with or without a lifetime in seconds. -/
def setBoth (s : Server β) (value : β) (version : String) :
    Option Nat → Except ServerError (Server β)
  | none => .ok { s with value := some ⟨value, none⟩, version := some ⟨version, none⟩ }
  | some seconds => do
    let valueSlot ← setEx s.now value seconds
    let versionSlot ← setEx s.now version seconds
    return { s with value := valueSlot, version := versionSlot }

/-- The suffix that keeps a generated token apart from the one it replaces. -/
def rotated (token : String) : String := token ++ ":rotated"

/-- `VERSIONED_SET_SCRIPT`: 1 when the expected version is still the current one. -/
def versionedSet (s : Server β) (expected : String) (value : β) (ttl : Option Nat)
    (token : String) : Except ServerError (Server β × Nat) :=
  match s.version with
  | none => do
    let replacement := if token = expected then rotated token else token
    let version ← setEx s.now replacement VERSION_TOMBSTONE_TTL_SECONDS
    return ({ s with version := version }, 0)
  | some version =>
    if version.data ≠ expected then .ok (s, 0)
    else do
      let s ← s.setBoth value version.data ttl
      return (s, 1)

/-- The token that a script installs in the place of the current version. -/
def nextToken (s : Server β) (token : String) : String :=
  match s.version with
  | some version => if token = version.data then rotated token else token
  | none => token

/-- `UNCONDITIONAL_SET_SCRIPT`. -/
def unconditionalSet (s : Server β) (value : β) (ttl : Option Nat) (token : String) :
    Except ServerError (Server β × Nat) := do
  let s ← s.setBoth value (s.nextToken token) ttl
  return (s, 1)

/-- `INVALIDATE_SCRIPT`. -/
def invalidate (s : Server β) (token : String) : Except ServerError (Server β × Nat) := do
  let version ← setEx s.now (s.nextToken token) VERSION_TOMBSTONE_TTL_SECONDS
  return ({ s with value := none, version := version }, 1)

/-- Time passes, and keys past their deadline are gone. -/
def advance (s : Server β) (milliseconds : Nat) : Server β :=
  let now := s.now + milliseconds
  { now := now
    value := s.value.filter (·.alive now)
    version := s.version.filter (·.alive now) }

end Server

/-! ## Histories -/

inductive Action (β : Type) where
  | versionedGet (token : String)
  | versionedSet (expected : String) (value : β) (ttl : Option Nat) (token : String)
  | unconditionalSet (value : β) (ttl : Option Nat) (token : String)
  | invalidate (token : String)
  /-- The authoritative store is read; the server does nothing. -/
  | storeRead
  | advance (milliseconds : Nat)

inductive Reply (β : Type) where
  | versioned (value : Option β) (version : String)
  | flag (n : Nat)
  | error (e : ServerError)
  | none

namespace Server

variable {β : Type}

/-- A script that fails stops at its first write, and so changes nothing. -/
def reply (s : Server β) (result : Except ServerError (Server β × γ)) (f : γ → Reply β) :
    Server β × Reply β :=
  match result with
  | .ok (s', r) => (s', f r)
  | .error e => (s, .error e)

def step (s : Server β) : Action β → Server β × Reply β
  | .versionedGet token => s.reply (s.versionedGet token) fun r => .versioned r.1 r.2
  | .versionedSet expected value ttl token =>
    s.reply (s.versionedSet expected value ttl token) .flag
  | .unconditionalSet value ttl token => s.reply (s.unconditionalSet value ttl token) .flag
  | .invalidate token => s.reply (s.invalidate token) .flag
  | .storeRead => (s, .none)
  | .advance milliseconds => (s.advance milliseconds, .none)

end Server

/-- One step as a history shows it, with the keys that disappeared in it. -/
structure Event (β : Type) where
  action : Action β
  reply : Reply β
  /-- The version key was there before and is not there after. -/
  versionExpired : Bool
  /-- The value key is not there after. -/
  valueGone : Bool

def Server.Step {β : Type} (s : Server β) (e : Event β) (s' : Server β) : Prop :=
  s.step e.action = (s', e.reply) ∧
    e.versionExpired = (s.version.isSome && s'.version.isNone) ∧
    e.valueGone = s'.value.isNone

abbrev Server.Run {β : Type} (s : Server β) (es : List (Event β)) (s' : Server β) : Prop :=
  Steps Server.Step s es s'

end ActiveTs.RedisValkey
