import ActiveTs.Lib.Histories
import ActiveTs.Lib.KeyedQueues

/-! # Transactions of the Datastore adapter

The store that a callback gets: mutations are buffered, one net mutation for each entity, and reads and
queries show what is buffered over the rows of the SDK transaction. The buffer is flushed when the callback
has finished. A call runs in segments, from one `await` to the next; the segments of different calls
interleave freely. -/

namespace ActiveTs.Datastore.Buffered

open Histories

universe u

variable {Kind Id Data Summary : Type u}

/-! ## Keys -/

structure KeyPart (Kind Id : Type u) where
  kind : Kind
  id : Id
  deriving DecidableEq

/-- The path of a key. An ancestor that is `undefined` is the empty path. -/
abbrev Path (Kind Id : Type u) := List (KeyPart Kind Id)

/-- A `DatastoreAncestorOverride`; none where it is not provided. -/
abbrev Override (Kind Id : Type u) := Option (Path Kind Id)

/-- The ancestor resolvers of the models. -/
abbrev Resolvers (Kind Id Data : Type u) := Kind → Option (Id → Data → Path Kind Id)

section
variable (resolver : Resolvers Kind Id Data)

/-- None where it throws. -/
def datastoreAncestorForWrite (kind : Kind) (id : Id) (data : Option Data) :
    Override Kind Id → Option (Path Kind Id)
  | some ancestor => some ancestor
  | none =>
    match resolver kind, data with
    | none, _ => some []
    | some _, none => none
    | some resolve, some data => some (resolve id data)

def transactionMutationKey (kind : Kind) (id : Id) (data : Option Data) (override : Override Kind Id) :
    Option (Path Kind Id) :=
  (datastoreAncestorForWrite resolver kind id data override).map fun ancestor => ancestor ++ [⟨kind, id⟩]

def assertDatastoreDirectIdReadAllowed (kind : Kind) (override : Override Kind Id) : Bool :=
  match resolver kind, override with
  | none, _ => true
  | some _, none => false
  | some _, some ancestor => !ancestor.isEmpty

/-- `assertDatastoreWriteAncestorOverrideAllowed` and `assertDatastoreWriteAncestorMatchesPayload`. -/
def assertDatastoreWriteAncestor [DecidableEq Kind] [DecidableEq Id] (kind : Kind) (id : Id) (data : Data)
    (override : Override Kind Id) : Bool :=
  match resolver kind, override with
  | some resolve, some ancestor => !ancestor.isEmpty && resolve id data = ancestor
  | _, _ => true

end

/-! ## Mutations -/

inductive Operation (Data : Type u)
  | create (data : Data)
  | update (data : Data)
  | delete (existed : Bool)
  deriving DecidableEq

namespace Operation

/-- What a buffered operation shows. -/
def row : Operation Data → Option Data
  | create data => some data
  | update data => some data
  | delete _ => none

end Operation

/-- A `DatastoreTransactionMutation`. -/
structure Mutation (Kind Id Data : Type u) where
  kind : Kind
  id : Id
  operation : Operation Data
  override : Override Kind Id
  deriving DecidableEq

/-! ## Queries -/

/-- A plan, with what it asks of rows. `compare` sorts by the plan, then by id. -/
structure Query (Kind Id Data : Type u) where
  kind : Kind
  /-- `meta.datastoreAncestor` -/
  ancestor : Path Kind Id
  accepts : Data → Bool
  compare : Data → Data → Ordering
  ordered : Std.TransCmp compare
  offset : Option Nat
  limit : Option Nat
  select : Data → Data

section
variable [DecidableEq Kind] [DecidableEq Id] (resolver : Resolvers Kind Id Data)

/-- Whether the overlay of a query shows entities below this ancestor. A model without a resolver has
entities below an ancestor only in queries with one. -/
def Query.shows (query : Query Kind Id Data) (ancestor : Path Kind Id) : Bool :=
  query.ancestor.isPrefixOf ancestor &&
    (!query.ancestor.isEmpty || ancestor.isEmpty || (resolver query.kind).isSome)

/-- The ancestor part of `transactionRowEntityIdentity` for a mutation. -/
def identityAncestor (mutation : Mutation Kind Id Data) (scopedAncestor : Path Kind Id) : Path Kind Id :=
  match mutation.override with
  | some ancestor => ancestor
  | none =>
    match resolver mutation.kind, mutation.operation.row with
    | some resolve, some data =>
      let resolved := resolve mutation.id data
      if !resolved.isEmpty && scopedAncestor.isPrefixOf resolved then resolved else scopedAncestor
    | _, _ => scopedAncestor

/-- The identity under which a mutation is laid over a query. -/
def Query.overlays (query : Query Kind Id Data) (mutation : Mutation Kind Id Data) :
    Option (Path Kind Id) :=
  if mutation.kind = query.kind then
    match datastoreAncestorForWrite resolver mutation.kind mutation.id mutation.operation.row
        mutation.override with
    | some ancestor =>
      if query.shows resolver ancestor then
        some (identityAncestor resolver mutation query.ancestor ++ [⟨mutation.kind, mutation.id⟩])
      else none
    | none => none
  else none

/-- An entity that the SDK returns, with its key. -/
abbrev Entity (Kind Id Data : Type u) := Path Kind Id × Data

/-- The checks of `normalizeDatastoreEntityForResult` on the key of an entity. -/
def Query.entityInScope (query : Query Kind Id Data) (entity : Entity Kind Id Data) : Bool :=
  query.shows resolver entity.1.dropLast

/-- The check of `transactionRowEntityIdentity` that the payload has the ancestor of the key. -/
def Query.payloadMatches (query : Query Kind Id Data) (entity : Entity Kind Id Data) : Bool :=
  match resolver query.kind, entity.1.getLast? with
  | some resolve, some part => resolve part.id entity.2 = entity.1.dropLast
  | _, _ => true

def deletedIdentities (buffered : JsMap (Path Kind Id) (Mutation Kind Id Data))
    (query : Query Kind Id Data) : List (Path Kind Id) :=
  buffered.entries.filterMap fun entry =>
    match entry.2.operation with
    | .delete _ => query.overlays resolver entry.2
    | _ => none

/-- The rows of the base query by identity; none where a check throws. -/
def baseRows (deleted : List (Path Kind Id)) (query : Query Kind Id Data) :
    List (Entity Kind Id Data) → JsMap (Path Kind Id) Data → Option (JsMap (Path Kind Id) Data)
  | [], rows => some rows
  | entity :: entities, rows =>
    if entity.1 ∈ deleted then baseRows deleted query entities rows
    else if !query.payloadMatches resolver entity then none
    else if rows.has entity.1 then none
    else baseRows deleted query entities (rows.set entity.1 entity.2)

/-- A buffered mutation replaces or removes the row of its entity. -/
def overlayMutation (query : Query Kind Id Data) (rows : JsMap (Path Kind Id) Data)
    (mutation : Mutation Kind Id Data) : JsMap (Path Kind Id) Data :=
  match query.overlays resolver mutation with
  | none => rows
  | some key =>
    match mutation.operation.row with
    | none => rows.delete key
    | some data => rows.set key data

def rowsByIdentity (buffered : JsMap (Path Kind Id) (Mutation Kind Id Data)) (query : Query Kind Id Data)
    (base : List (Entity Kind Id Data)) : Option (JsMap (Path Kind Id) Data) :=
  if base.all (query.entityInScope resolver) then
    (baseRows resolver (deletedIdentities resolver buffered query) query base .empty).map fun rows =>
      buffered.entries.foldl (fun rows entry => overlayMutation resolver query rows entry.2) rows
  else none

end

/-- A row goes in front of the first one that it comes before. -/
def insertRow (compare : Data → Data → Ordering) (row : Data) : List Data → List Data
  | [] => [row]
  | sorted :: rest => if compare row sorted = .lt then row :: sorted :: rest
    else sorted :: insertRow compare row rest

def sortRows (compare : Data → Data → Ordering) (rows : List Data) : List Data :=
  rows.foldl (fun sorted row => insertRow compare row sorted) []

namespace Query

def offsetRows (query : Query Kind Id Data) (rows : List Data) : List Data :=
  match query.offset with
  | none => rows
  | some offset => rows.drop offset

def limitRows (query : Query Kind Id Data) (rows : List Data) : List Data :=
  match query.limit with
  | none => rows
  | some limit => rows.take limit

def more (query : Query Kind Id Data) (rows : List Data) : Bool :=
  query.limit.any fun limit => limit < rows.length

/-- What a query returns for its rows in order. -/
def page (query : Query Kind Id Data) (sorted : List Data) : List Data × Bool :=
  ((query.limitRows (query.offsetRows sorted)).map query.select, query.more (query.offsetRows sorted))

/-- The query of an aggregate has only a filter. -/
def unpaged (query : Query Kind Id Data) : Query Kind Id Data :=
  { query with offset := none, limit := none, select := id }

end Query

/-! ## Calls -/

inductive Call (Kind Id Data Summary : Type u)
  | get (kind : Kind) (id : Id) (override : Override Kind Id)
  | getMany (kind : Kind) (ids : List Id) (override : Override Kind Id)
  | query (query : Query Kind Id Data)
  | aggregate (query : Query Kind Id Data) (aggregateRows : List Data → Summary)
  | create (kind : Kind) (id : Id) (data : Data) (override : Override Kind Id)
  | update (kind : Kind) (id : Id) (data : Data) (override : Override Kind Id)
  | delete (kind : Kind) (id : Id) (override : Override Kind Id)

/-- What a call returns; `conflict` and `notFound` are the errors that tell of the row. -/
inductive Result (Data Summary : Type u)
  | row (row : Option Data)
  | rows (rows : List (Option Data))
  | list (list : List Data) (more : Bool)
  | summary (summary : Summary)
  | done
  | conflict
  | notFound
  deriving DecidableEq

/-- Where a call stands. A promise of a queue is the number of the mutation that resolves it. -/
inductive Phase (Data Summary : Type u)
  /-- Behind mutations that were queued; an aggregate waits again before its query. -/
  | waiting (pending : List Nat) (again : Bool)
  /-- A point read that has these rows from the buffer, and reads the others. -/
  | fetching (buffered : List (Option (Option Data)))
  | querying
  /-- A mutation behind the one before it. -/
  | queued (previous : Option Nat)
  /-- A mutation that reads whether its entity exists. -/
  | checking
  | returned (result : Result Data Summary)
  | failed
  /-- Its arguments were refused when it started. -/
  | refused
  deriving DecidableEq

namespace Phase

def isSettled : Phase Data Summary → Bool
  | returned _ | failed | refused => true
  | _ => false

end Phase

namespace Call
variable (resolver : Resolvers Kind Id Data)

/-- The keys that a point read reads. -/
def keys : Call Kind Id Data Summary → List (Path Kind Id)
  | get kind id override => (transactionMutationKey resolver kind id none override).toList
  | getMany kind ids override =>
    ids.filterMap fun id => transactionMutationKey resolver kind id none override
  | _ => []

/-- The key that a call changes. -/
def mutates : Call Kind Id Data Summary → Option (Path Kind Id)
  | create kind id data override => transactionMutationKey resolver kind id (some data) override
  | update kind id data override => transactionMutationKey resolver kind id (some data) override
  | delete kind id override => transactionMutationKey resolver kind id none override
  | _ => none

/-- The checks of the ancestor that a call gives. -/
def allowed [DecidableEq Kind] [DecidableEq Id] : Call Kind Id Data Summary → Bool
  | get kind _ override => assertDatastoreDirectIdReadAllowed resolver kind override
  | getMany kind _ override => assertDatastoreDirectIdReadAllowed resolver kind override
  | create kind id data override => assertDatastoreWriteAncestor resolver kind id data override
  | update kind id data override => assertDatastoreWriteAncestor resolver kind id data override
  | delete kind _ override => assertDatastoreDirectIdReadAllowed resolver kind override
  | _ => true

/-- What a point read returns. -/
def readResult (rows : List (Option Data)) : Call Kind Id Data Summary → Result Data Summary
  | get _ _ _ => .row rows.head?.join
  | _ => .rows rows

end Call

/-! ## The transaction store -/

structure State (Kind Id Data Summary : Type u) where
  bufferedMutations : JsMap (Path Kind Id) (Mutation Kind Id Data)
  bufferedMutationTails : JsMap (Path Kind Id) Nat
  /-- The calls by number. -/
  calls : List (Call Kind Id Data Summary × Phase Data Summary)

/-- The store before its first call. -/
def State.initial : State Kind Id Data Summary := ⟨.empty, .empty, []⟩

abbrev Contents (Kind Id Data : Type u) := Path Kind Id → Option Data

/-- What the SDK makes of the next read. -/
inductive Answer
  | ok
  | readFails
  deriving DecidableEq

/-- What a segment of a call does to the buffer, and where it leaves the call. -/
structure Segment (Kind Id Data Summary : Type u) where
  phase : Phase Data Summary
  buffered : Option (Path Kind Id × Option (Mutation Kind Id Data)) := none

namespace State
variable [DecidableEq Kind] [DecidableEq Id] (resolver : Resolvers Kind Id Data)
  (s : State Kind Id Data Summary)

/-- Whether the promise of a mutation is resolved. -/
def released (id : Nat) : Bool := s.calls[id]?.all fun entry => entry.2.isSettled

def transactionBufferedRow (key : Path Kind Id) : Option (Option Data) :=
  (s.bufferedMutations.get? key).map fun mutation => mutation.operation.row

/-- A point read after the mutations it waited for. -/
def pointRead (call : Call Kind Id Data Summary) (rows : List (Option (Option Data))) :
    Phase Data Summary :=
  if rows.all Option.isSome then .returned (call.readResult (rows.map Option.join)) else .fetching rows

/-- A mutation whose turn it is. -/
def runMutation : Call Kind Id Data Summary → Segment Kind Id Data Summary
  | .create kind id data override =>
    match transactionMutationKey resolver kind id (some data) override with
    | none => ⟨.failed, none⟩
    | some key =>
      match (s.bufferedMutations.get? key).map Mutation.operation with
      | some (.create _) => ⟨.returned .conflict, none⟩
      | some (.update _) => ⟨.returned .conflict, none⟩
      | some (.delete existed) =>
        ⟨.returned .done, some (key, some ⟨kind, id, if existed then .update data else .create data,
          override⟩)⟩
      | none => ⟨.checking, none⟩
  | .update kind id data override =>
    match transactionMutationKey resolver kind id (some data) override with
    | none => ⟨.failed, none⟩
    | some key =>
      match (s.bufferedMutations.get? key).map Mutation.operation with
      | some (.delete _) => ⟨.returned .notFound, none⟩
      | some (.create _) => ⟨.returned .done, some (key, some ⟨kind, id, .create data, override⟩)⟩
      | some (.update _) => ⟨.returned .done, some (key, some ⟨kind, id, .update data, override⟩)⟩
      | none => ⟨.checking, none⟩
  | .delete kind id override =>
    match transactionMutationKey resolver kind id none override with
    | none => ⟨.failed, none⟩
    | some key =>
      match (s.bufferedMutations.get? key).map Mutation.operation with
      | some (.create _) => ⟨.returned .done, some (key, none)⟩
      | some (.delete _) => ⟨.returned .done, none⟩
      | some (.update _) => ⟨.returned .done, some (key, some ⟨kind, id, .delete true, override⟩)⟩
      | none => ⟨.checking, none⟩
  | _ => ⟨.failed, none⟩

/-- A mutation that has read whether its entity exists. -/
def checked (snapshot : Contents Kind Id Data) :
    Call Kind Id Data Summary → Segment Kind Id Data Summary
  | .create kind id data override =>
    match transactionMutationKey resolver kind id (some data) override with
    | none => ⟨.failed, none⟩
    | some key =>
      match snapshot key with
      | some _ => ⟨.returned .conflict, none⟩
      | none => ⟨.returned .done, some (key, some ⟨kind, id, .create data, override⟩)⟩
  | .update kind id data override =>
    match transactionMutationKey resolver kind id (some data) override with
    | none => ⟨.failed, none⟩
    | some key =>
      match snapshot key with
      | none => ⟨.returned .notFound, none⟩
      | some _ => ⟨.returned .done, some (key, some ⟨kind, id, .update data, override⟩)⟩
  | .delete kind id override =>
    match transactionMutationKey resolver kind id none override with
    | none => ⟨.failed, none⟩
    | some key =>
      match snapshot key with
      | none => ⟨.returned .done, none⟩
      | some _ => ⟨.returned .done, some (key, some ⟨kind, id, .delete true, override⟩)⟩
  | _ => ⟨.failed, none⟩

section
-- What the SDK reads: the rows of one snapshot, and the lists of base queries on it.
variable (snapshot : Contents Kind Id Data)
  (scan : Query Kind Id Data → Contents Kind Id Data → List (Entity Kind Id Data))

/-- A query that has its base rows. -/
def queried (query : Query Kind Id Data) : Option (List Data) :=
  (rowsByIdentity resolver s.bufferedMutations query (scan query snapshot)).map fun rows =>
    sortRows query.compare ((rows.entries.map Prod.snd).filter query.accepts)

/-- The next segment of a call; none while its promises are not resolved. -/
def advance (answer : Answer) (call : Call Kind Id Data Summary) :
    Phase Data Summary → Option (Segment Kind Id Data Summary)
  | .waiting pending again =>
    if pending.all s.released then
      match call with
      | .query _ => some ⟨.querying, none⟩
      | .aggregate _ _ =>
        some ⟨if again then .waiting (s.bufferedMutationTails.entries.map Prod.snd) false else .querying,
          none⟩
      | _ => some ⟨pointRead call ((call.keys resolver).map s.transactionBufferedRow), none⟩
    else none
  | .fetching rows =>
    match answer with
    | .ok => some ⟨.returned (call.readResult
        (List.zipWith (fun row key => row.getD (snapshot key)) rows (call.keys resolver))), none⟩
    | .readFails => some ⟨.failed, none⟩
  | .querying =>
    match answer, call with
    | .ok, .query query =>
      match s.queried resolver snapshot scan query with
      | none => some ⟨.failed, none⟩
      | some sorted => some ⟨.returned (.list (query.page sorted).1 (query.page sorted).2), none⟩
    | .ok, .aggregate query aggregateRows =>
      match s.queried resolver snapshot scan query.unpaged with
      | none => some ⟨.failed, none⟩
      | some sorted => some ⟨.returned (.summary (aggregateRows (query.unpaged.page sorted).1)), none⟩
    | _, _ => some ⟨.failed, none⟩
  | .queued previous => if previous.all s.released then some (s.runMutation resolver call) else none
  | .checking =>
    match answer with
    | .ok => some (checked resolver snapshot call)
    | .readFails => some ⟨.failed, none⟩
  | .returned _ => none
  | .failed => none
  | .refused => none

/-- A mutation is buffered for its entity, or taken out of the buffer. -/
def changeBuffer (buffered : JsMap (Path Kind Id) (Mutation Kind Id Data)) :
    Option (Path Kind Id × Option (Mutation Kind Id Data)) → JsMap (Path Kind Id) (Mutation Kind Id Data)
  | none => buffered
  | some (key, none) => buffered.delete key
  | some (key, some mutation) => buffered.set key mutation

/-- The effect of a segment on the store. A mutation that settles releases its place in the queue. -/
def perform (id : Nat) (call : Call Kind Id Data Summary) (segment : Segment Kind Id Data Summary) :
    State Kind Id Data Summary where
  bufferedMutations := changeBuffer s.bufferedMutations segment.buffered
  bufferedMutationTails :=
    match call.mutates resolver with
    | some key =>
      if segment.phase.isSettled && s.bufferedMutationTails.get? key = some id then
        s.bufferedMutationTails.delete key
      else s.bufferedMutationTails
    | none => s.bufferedMutationTails
  calls := s.calls.set id (call, segment.phase)

/-- The promises that a call waits for when it starts. -/
def startPhase (call : Call Kind Id Data Summary) : Phase Data Summary :=
  match call.mutates resolver, call with
  | some key, _ => .queued (s.bufferedMutationTails.get? key)
  | none, .query _ => .waiting (s.bufferedMutationTails.entries.map Prod.snd) false
  | none, .aggregate _ _ => .waiting (s.bufferedMutationTails.entries.map Prod.snd) true
  | none, _ => .waiting ((call.keys resolver).filterMap s.bufferedMutationTails.get?) false

def start (call : Call Kind Id Data Summary) : State Kind Id Data Summary where
  bufferedMutations := s.bufferedMutations
  bufferedMutationTails :=
    match call.mutates resolver with
    | some key => s.bufferedMutationTails.set key s.calls.length
    | none => s.bufferedMutationTails
  calls := s.calls ++ [(call, s.startPhase resolver call)]

/-- A call whose arguments are refused. -/
def refuse (call : Call Kind Id Data Summary) : State Kind Id Data Summary :=
  { s with calls := s.calls ++ [(call, .refused)] }

inductive Action (Kind Id Data Summary : Type u)
  | start (call : Call Kind Id Data Summary)
  | refuse (call : Call Kind Id Data Summary)
  | resume (id : Nat) (answer : Answer)

/-- The event of a call that gets into a phase. -/
def returnedIn (id : Nat) : Phase Data Summary →
    List (Event (Call Kind Id Data Summary) (Result Data Summary))
  | .returned result => [.returned id result]
  | _ => []

/-- One segment of one call, and what the callback sees of it. -/
def step : Action Kind Id Data Summary → Option (State Kind Id Data Summary ×
    List (Event (Call Kind Id Data Summary) (Result Data Summary)))
  | .start call =>
    if call.allowed resolver then some (s.start resolver call, [.started s.calls.length call])
    else some (s.refuse call, [.started s.calls.length call])
  | .refuse call => some (s.refuse call, [.started s.calls.length call])
  | .resume id answer => do
    let (call, phase) ← s.calls[id]?
    let segment ← s.advance resolver snapshot scan answer call phase
    some (s.perform resolver id call segment, returnedIn id segment.phase)

/-- A segment of any of the calls, with its events. -/
def Performs (s : State Kind Id Data Summary)
    (events : List (Event (Call Kind Id Data Summary) (Result Data Summary)))
    (t : State Kind Id Data Summary) : Prop :=
  ∃ action, s.step resolver snapshot scan action = some (t, events)

end

end State

/-! ## Flush and commit -/

section
variable [DecidableEq Kind] [DecidableEq Id] (resolver : Resolvers Kind Id Data)

def setRow (contents : Contents Kind Id Data) (key : Path Kind Id) (row : Option Data) :
    Contents Kind Id Data :=
  fun other => if other = key then row else contents other

/-- What the SDK stages for a mutation: `insert` requires that there is no entity, `update` that there is
one. -/
def Mutation.apply (contents : Contents Kind Id Data) (mutation : Mutation Kind Id Data) :
    Option (Contents Kind Id Data) :=
  match transactionMutationKey resolver mutation.kind mutation.id mutation.operation.row
      mutation.override with
  | none => none
  | some key =>
    match mutation.operation, contents key with
    | .create data, none => some (setRow contents key (some data))
    | .create _, some _ => none
    | .update data, some _ => some (setRow contents key (some data))
    | .update _, none => none
    | .delete _, _ => some (setRow contents key none)

/-- The buffered mutations in order, all or none. -/
def flush (contents : Contents Kind Id Data)
    (buffered : JsMap (Path Kind Id) (Mutation Kind Id Data)) : Option (Contents Kind Id Data) :=
  buffered.entries.foldlM (fun contents entry => entry.2.apply resolver contents) contents

/-- The commit waits for the pending operations. -/
def State.commit (snapshot : Contents Kind Id Data) (s : State Kind Id Data Summary) :
    Option (Contents Kind Id Data) :=
  if s.calls.all fun entry => entry.2.isSettled then flush resolver snapshot s.bufferedMutations else none

/-! ## A private copy -/

/-- An operation on one copy of the entities, with its result. -/
inductive Op (Kind Id Data Summary : Type u)
  | read (keys : List (Path Kind Id)) (rows : List (Option Data))
  | query (query : Query Kind Id Data) (list : List Data) (more : Bool)
  | aggregate (query : Query Kind Id Data) (aggregateRows : List Data → Summary) (summary : Summary)
  | create (key : Path Kind Id) (data : Data) (result : Result Data Summary)
  | update (key : Path Kind Id) (data : Data) (result : Result Data Summary)
  | delete (key : Path Kind Id)

/-- `sorted` lists the rows of the query in its order. -/
def Lists (contents : Contents Kind Id Data) (query : Query Kind Id Data) (sorted : List Data) : Prop :=
  (sorted.Pairwise fun a b => query.compare b a ≠ .lt) ∧
    ∃ entities : List (Entity Kind Id Data), (entities.map Prod.fst).Nodup ∧
      sorted.Perm (entities.map Prod.snd) ∧
      ∀ key data, (key, data) ∈ entities ↔ contents key = some data ∧
        (∃ ancestor id, key = ancestor ++ [⟨query.kind, id⟩] ∧ query.shows resolver ancestor = true) ∧
        query.accepts data = true

/-- What an operation does when it is applied directly. -/
inductive Direct : Contents Kind Id Data → Op Kind Id Data Summary → Contents Kind Id Data → Prop
  | read (contents : Contents Kind Id Data) (keys : List (Path Kind Id)) :
    Direct contents (.read keys (keys.map contents)) contents
  | query {contents : Contents Kind Id Data} {query : Query Kind Id Data} {sorted : List Data}
    (h : Lists resolver contents query sorted) :
    Direct contents (.query query (query.page sorted).1 (query.page sorted).2) contents
  | aggregate {contents : Contents Kind Id Data} {query : Query Kind Id Data} {sorted : List Data}
    (h : Lists resolver contents query.unpaged sorted) (aggregateRows : List Data → Summary) :
    Direct contents (.aggregate query aggregateRows (aggregateRows sorted)) contents
  | create {contents : Contents Kind Id Data} {key : Path Kind Id} (data : Data)
    (h : contents key = none) :
    Direct contents (.create key data .done) (setRow contents key (some data))
  | conflict {contents : Contents Kind Id Data} {key : Path Kind Id} (data : Data)
    (h : contents key ≠ none) : Direct contents (.create key data .conflict) contents
  | update {contents : Contents Kind Id Data} {key : Path Kind Id} (data : Data)
    (h : contents key ≠ none) :
    Direct contents (.update key data .done) (setRow contents key (some data))
  | notFound {contents : Contents Kind Id Data} {key : Path Kind Id} (data : Data)
    (h : contents key = none) : Direct contents (.update key data .notFound) contents
  | delete (contents : Contents Kind Id Data) (key : Path Kind Id) :
    Direct contents (.delete key) (setRow contents key none)

/-- The operation that a call stands for. -/
def operations (call : Call Kind Id Data Summary) (result : Result Data Summary) :
    List (Op Kind Id Data Summary) :=
  match call, result with
  | .get _ _ _, .row row => [.read (call.keys resolver) [row]]
  | .getMany _ _ _, .rows rows => [.read (call.keys resolver) rows]
  | .query query, .list list more => [.query query list more]
  | .aggregate query aggregateRows, .summary summary => [.aggregate query aggregateRows summary]
  | .create _ _ data _, result =>
    (call.mutates resolver).toList.map fun key => .create key data result
  | .update _ _ data _, result =>
    (call.mutates resolver).toList.map fun key => .update key data result
  | .delete _ _ _, .done => (call.mutates resolver).toList.map .delete
  | _, _ => []

end

end ActiveTs.Datastore.Buffered
