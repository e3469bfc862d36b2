import ActiveTs.Lib.Histories
import ActiveTs.Lib.JsMap

/-! # Transactions of the Firestore adapter

The transaction handle that a callback gets: mutations are staged with the SDK and buffered, the
mutations of one key run one after the other, and reads show what is buffered. A call runs in segments,
from one `await` to the next; the segments of different calls interleave freely. -/

namespace ActiveTs.Firestore

open Histories

universe u

variable {Key Row Query : Type u}

/-- A `FirestoreTransactionMutation`. -/
inductive Mutation (Row : Type u)
  | create (data : Row)
  | update (data : Row)
  | delete
  deriving DecidableEq

/-- What a buffered mutation shows. -/
def Mutation.row : Mutation Row → Option Row
  | create data => some data
  | update data => some data
  | delete => none

/-- What is staged with the SDK. -/
inductive Write (Key Row : Type u)
  | create (key : Key) (data : Row)
  | set (key : Key) (data : Row)
  | delete (key : Key)
  deriving DecidableEq

inductive Call (Key Row Query : Type u)
  | get (key : Key)
  | getMany (keys : List Key)
  | query (query : Query)
  | create (key : Key) (data : Row)
  | update (key : Key) (data : Row)
  | delete (key : Key)
  deriving DecidableEq

inductive Result (Row : Type u)
  | row (row : Option Row)
  | rows (rows : List (Option Row))
  | list (list : List Row)
  | done
  deriving DecidableEq

/-- Where a call stands. A promise of a queue is the number of the mutation that resolves it. -/
inductive Phase (Key Row : Type u)
  /-- A point read that has read `rows` and waits before it reads `key`. -/
  | waiting (rows : List (Option Row)) (tail : Option Nat) (key : Key) (rest : List Key)
  | fetching (rows : List (Option Row)) (key : Key) (rest : List Key)
  /-- A query that waits for the mutations that were queued when it started. -/
  | waitingAll (pending : List Nat)
  | querying
  /-- A mutation behind the one before it. -/
  | queued (previous : Option Nat)
  /-- An update that reads the row it replaces. -/
  | reading
  /-- A mutation that is staged and not yet buffered. -/
  | written
  | returned (result : Result Row)
  | failed
  /-- Its arguments were refused when it started. -/
  | refused
  deriving DecidableEq

namespace Call

/-- The keys that a point read reads. -/
def keys : Call Key Row Query → List Key
  | get key => [key]
  | getMany keys => keys
  | _ => []

/-- The key that a call changes, and how. -/
def mutation : Call Key Row Query → Option (Key × Mutation Row)
  | create key data => some (key, .create data)
  | update key data => some (key, .update data)
  | delete key => some (key, .delete)
  | _ => none

def mutates (call : Call Key Row Query) : Option Key := call.mutation.map Prod.fst

/-- What a point read returns. -/
def readResult (rows : List (Option Row)) : Call Key Row Query → Result Row
  | get _ => .row rows.head?.join
  | _ => .rows rows

end Call

namespace Phase

def isSettled : Phase Key Row → Bool
  | returned _ | failed | refused => true
  | _ => false

def isQueued : Phase Key Row → Bool
  | queued _ => true
  | _ => false

end Phase

structure State (Key Row Query : Type u) where
  buffered : JsMap Key (Mutation Row)
  /-- `bufferedMutationTails` -/
  tails : JsMap Key Nat
  pointReads : JsMap Key (Option Row)
  dirty : Bool
  /-- The writes of the SDK transaction. -/
  staged : List (Write Key Row)
  /-- The calls by number. -/
  calls : List (Call Key Row Query × Phase Key Row)

/-- The handle before its first call. -/
def State.initial : State Key Row Query := ⟨.empty, .empty, .empty, false, [], []⟩

/-- What a segment of a call does, and where it leaves the call. -/
structure Segment (Key Row : Type u) where
  phase : Phase Key Row
  /-- A row that the SDK read. -/
  read : Option (Key × Option Row) := none
  staged : Option (Write Key Row) := none

/-- What the SDK makes of the next thing it is asked for. -/
inductive Answer
  | ok
  /-- A read is rejected, or its snapshot refused. -/
  | readFails
  | writeFails
  deriving DecidableEq

variable [DecidableEq Key]

namespace State
variable (s : State Key Row Query)

/-- Whether the promise of a mutation is resolved. -/
def released (id : Nat) : Bool := s.calls[id]?.all fun entry => entry.2.isSettled

def bufferedRow (key : Key) : Option (Option Row) := (s.buffered.get? key).map Mutation.row

def cachedPointRead (key : Key) : Option (Option Row) := s.pointReads.get? key

/-- The loop of a point read goes on with the next key. -/
def readNext (call : Call Key Row Query) (rows : List (Option Row)) : List Key → Phase Key Row
  | [] => .returned (call.readResult rows)
  | key :: rest => .waiting rows (s.tails.get? key) key rest

/-- A point read after the mutations it waited for. -/
def pointRead (call : Call Key Row Query) (rows : List (Option Row)) (key : Key) (rest : List Key) :
    Phase Key Row :=
  match s.bufferedRow key with
  | some row => s.readNext call (rows ++ [row]) rest
  | none =>
    match s.cachedPointRead key with
    | some row => s.readNext call (rows ++ [row]) rest
    | none => if s.dirty then .failed else .fetching rows key rest

/-- What is staged for a mutation, unless `write` fails. -/
def stage (write : Write Key Row) : Answer → Segment Key Row
  | .writeFails => ⟨.failed, none, none⟩
  | _ => ⟨.written, none, some write⟩

/-- A mutation whose turn it is. -/
def runMutation (answer : Answer) : Call Key Row Query → Segment Key Row
  | .create key data =>
    match s.buffered.get? key with
    | some .delete => stage (.set key data) answer
    | some _ => ⟨.failed, none, none⟩
    | none => stage (.create key data) answer
  | .update key data =>
    match s.buffered.get? key with
    | some .delete => ⟨.failed, none, none⟩
    | some _ => stage (.set key data) answer
    | none =>
      match s.cachedPointRead key with
      | some none => ⟨.failed, none, none⟩
      | some (some _) => stage (.set key data) answer
      | none => if s.dirty then ⟨.failed, none, none⟩ else ⟨.reading, none, none⟩
  | .delete key => stage (.delete key) answer
  | _ => ⟨.failed, none, none⟩

section
-- What the SDK reads: the rows of one snapshot, and the lists of queries on it.
variable (snapshot : Key → Option Row) (evaluate : Query → (Key → Option Row) → List Row)

/-- The next segment of a call; none while its promise is not resolved. -/
def advance (answer : Answer) (call : Call Key Row Query) : Phase Key Row → Option (Segment Key Row)
  | .waiting rows tail key rest =>
    if tail.all s.released then some ⟨s.pointRead call rows key rest, none, none⟩ else none
  | .fetching rows key rest =>
    match answer with
    | .ok => some ⟨s.readNext call (rows ++ [snapshot key]) rest, some (key, snapshot key), none⟩
    | _ => some ⟨.failed, none, none⟩
  | .waitingAll pending =>
    if pending.all s.released then some ⟨if s.dirty then .failed else .querying, none, none⟩ else none
  | .querying =>
    match answer, call with
    | .ok, .query query => some ⟨.returned (.list (evaluate query snapshot)), none, none⟩
    | _, _ => some ⟨.failed, none, none⟩
  | .queued previous => if previous.all s.released then some (s.runMutation answer call) else none
  | .reading =>
    match answer, call with
    | .readFails, _ => some ⟨.failed, none, none⟩
    | answer, .update key data =>
      match snapshot key with
      | none => some ⟨.failed, some (key, none), none⟩
      | some row => some { stage (.set key data) answer with read := some (key, some row) }
    | _, _ => none
  | .written => some ⟨.returned .done, none, none⟩
  | .returned _ => none
  | .failed => none
  | .refused => none

/-- The effect of a segment on the handle. A mutation that settles releases its place in the queue, and
is buffered when it returns. -/
def perform (id : Nat) (call : Call Key Row Query) (segment : Segment Key Row) :
    State Key Row Query where
  buffered :=
    match call.mutation, segment.phase with
    | some (key, mutation), .returned _ => s.buffered.set key mutation
    | _, _ => s.buffered
  tails :=
    match call.mutates with
    | some key =>
      if segment.phase.isSettled && s.tails.get? key = some id then s.tails.delete key else s.tails
    | none => s.tails
  pointReads :=
    match segment.read with
    | some (key, row) => s.pointReads.set key row
    | none => s.pointReads
  dirty := s.dirty || segment.staged.isSome
  staged := s.staged ++ segment.staged.toList
  calls := s.calls.set id (call, segment.phase)

/-- The state in which a call starts. -/
def startPhase : Call Key Row Query → Phase Key Row
  | .get key => s.readNext (.get key) [] [key]
  | .getMany keys => s.readNext (.getMany keys) [] keys
  | .query _ => .waitingAll (s.tails.entries.map Prod.snd)
  | .create key _ => .queued (s.tails.get? key)
  | .update key _ => .queued (s.tails.get? key)
  | .delete key => .queued (s.tails.get? key)

def start (call : Call Key Row Query) : State Key Row Query where
  buffered := s.buffered
  tails :=
    match call.mutates with
    | some key => s.tails.set key s.calls.length
    | none => s.tails
  pointReads := s.pointReads
  dirty := s.dirty
  staged := s.staged
  calls := s.calls ++ [(call, s.startPhase call)]

/-- A call whose arguments are refused. -/
def refuse (call : Call Key Row Query) : State Key Row Query :=
  { s with calls := s.calls ++ [(call, .refused)] }

inductive Action (Key Row Query : Type u)
  | start (call : Call Key Row Query)
  | refuse (call : Call Key Row Query)
  | resume (id : Nat) (answer : Answer)

/-- The event of a call that gets into a phase. -/
def returnedIn (id : Nat) : Phase Key Row → List (Event (Call Key Row Query) (Result Row))
  | .returned result => [.returned id result]
  | _ => []

/-- One segment of one call, and what the callback sees of it. -/
def step : Action Key Row Query →
    Option (State Key Row Query × List (Event (Call Key Row Query) (Result Row)))
  | .start call => some (s.start call, .started s.calls.length call ::
      returnedIn s.calls.length (s.startPhase call))
  | .refuse call => some (s.refuse call, [.started s.calls.length call])
  | .resume id answer => do
    let (call, phase) ← s.calls[id]?
    let segment ← s.advance snapshot evaluate answer call phase
    some (s.perform id call segment, returnedIn id segment.phase)

/-- A segment of any of the calls, with its events. -/
def Performs (s : State Key Row Query) (events : List (Event (Call Key Row Query) (Result Row)))
    (t : State Key Row Query) : Prop :=
  ∃ action, s.step snapshot evaluate action = some (t, events)

end

end State

/-! ## Commit -/

def setRow (contents : Key → Option Row) (key : Key) (row : Option Row) : Key → Option Row :=
  fun other => if other = key then row else contents other

/-- `create` requires that there is no document. -/
def Write.apply (contents : Key → Option Row) : Write Key Row → Option (Key → Option Row)
  | create key data =>
    match contents key with
    | none => some (setRow contents key (some data))
    | some _ => none
  | set key data => some (setRow contents key (some data))
  | delete key => some (setRow contents key none)

/-- The writes in staging order, all or none. -/
def applyStaged (contents : Key → Option Row) (staged : List (Write Key Row)) :
    Option (Key → Option Row) :=
  staged.foldlM Write.apply contents

/-- The commit waits for the pending operations. -/
def State.commit (snapshot : Key → Option Row) (s : State Key Row Query) : Option (Key → Option Row) :=
  if s.calls.all fun entry => entry.2.isSettled then applyStaged snapshot s.staged else none

/-! ## A private copy -/

/-- An operation on one copy of the rows, with its result. -/
inductive Op (Key Row Query : Type u)
  | get (key : Key) (row : Option Row)
  | query (query : Query) (list : List Row)
  | mutate (key : Key) (mutation : Mutation Row)
  deriving DecidableEq

/-- What an operation does when it is applied directly. -/
inductive Direct (evaluate : Query → (Key → Option Row) → List Row) :
    (Key → Option Row) → Op Key Row Query → (Key → Option Row) → Prop
  | get (contents : Key → Option Row) (key : Key) :
    Direct evaluate contents (.get key (contents key)) contents
  | query (contents : Key → Option Row) (query : Query) :
    Direct evaluate contents (.query query (evaluate query contents)) contents
  | create {contents : Key → Option Row} {key : Key} (data : Row) (h : contents key = none) :
    Direct evaluate contents (.mutate key (.create data)) (setRow contents key (some data))
  | update {contents : Key → Option Row} {key : Key} (data : Row) (h : contents key ≠ none) :
    Direct evaluate contents (.mutate key (.update data)) (setRow contents key (some data))
  | delete (contents : Key → Option Row) (key : Key) :
    Direct evaluate contents (.mutate key .delete) (setRow contents key none)

/-- The operations that a call stands for. A `getMany` is one read for each of its keys. -/
def operations : Call Key Row Query → Result Row → List (Op Key Row Query)
  | .get key, .row row => [.get key row]
  | .getMany keys, .rows rows => (keys.zip rows).map fun read => .get read.1 read.2
  | .query query, .list list => [.query query list]
  | .create key data, .done => [.mutate key (.create data)]
  | .update key data, .done => [.mutate key (.update data)]
  | .delete key, .done => [.mutate key .delete]
  | _, _ => []

end ActiveTs.Firestore
