import ActiveTs.Datastore.TransactionBuffer

/-! # Datastore transactions are linearizable

A run of the transaction store has an order of its operations in which each gives the result that it gives
on a private copy, and the flush leaves that copy. A point read takes effect when it looks into the buffer, a
query when it has its base rows, a mutation when it is buffered or refused. -/

namespace ActiveTs.Datastore.Buffered

open Histories
open KeyedQueues (Queues Stage)

universe u

variable {Kind Id Data Summary : Type u} [DecidableEq Kind] [DecidableEq Id]
  {resolver : Resolvers Kind Id Data} {snapshot : Contents Kind Id Data}
  {scan : Query Kind Id Data → Contents Kind Id Data → List (Entity Kind Id Data)}
  {s t : State Kind Id Data Summary}

/-! ## Calls and phases -/

/-- What a point read returns that has these rows from the buffer. -/
def merged (resolver : Resolvers Kind Id Data) (snapshot : Contents Kind Id Data)
    (call : Call Kind Id Data Summary) (rows : List (Option (Option Data))) : List (Option Data) :=
  List.zipWith (fun row key => row.getD (snapshot key)) rows (call.keys resolver)

/-- What a call has done so far. -/
def soFar (resolver : Resolvers Kind Id Data) (snapshot : Contents Kind Id Data)
    (call : Call Kind Id Data Summary) : Phase Data Summary → List (Op Kind Id Data Summary)
  | .fetching rows => operations resolver call (call.readResult (merged resolver snapshot call rows))
  | .returned result => operations resolver call result
  | _ => []

/-- The calls of a transaction, by what they have done. -/
def view (resolver : Resolvers Kind Id Data) (snapshot : Contents Kind Id Data) :
    View (Call Kind Id Data Summary) (Phase Data Summary) (Result Data Summary)
      (Op Kind Id Data Summary) where
  result
    | .returned result => some result
    | _ => none
  done call
    | .failed => none
    | phase => some (soFar resolver snapshot call phase)
  reads op := op.mutates = none

/-- What a call can be in some phase. -/
def Fits (resolver : Resolvers Kind Id Data) (call : Call Kind Id Data Summary) : Phase Data Summary → Prop
  | .waiting _ _ => call.allowed resolver = true ∧ call.mutates resolver = none
  | .fetching _ => call.allowed resolver = true ∧ call.mutates resolver = none
  | .querying => call.allowed resolver = true ∧ call.mutates resolver = none
  | .queued _ => call.mutates resolver ≠ none
  | .checking => call.mutates resolver ≠ none
  | _ => True

omit [DecidableEq Kind] [DecidableEq Id] in
theorem returnedIn_view (id : Nat) (phase : Phase Data Summary) :
    (State.returnedIn id phase : List (Event (Call Kind Id Data Summary) (Result Data Summary))) =
      (view resolver snapshot).returnedIn id phase := by
  cases phase <;> rfl

omit [DecidableEq Kind] [DecidableEq Id] in
theorem done_of_ne {phase : Phase Data Summary} (h : phase ≠ .failed)
    (call : Call Kind Id Data Summary) :
    (view resolver snapshot).done call phase = some (soFar resolver snapshot call phase) := by
  cases phase with
  | failed => exact absurd rfl h
  | _ => rfl

omit [DecidableEq Kind] [DecidableEq Id] in
/-- A call that does not mutate only reads. -/
theorem mutates_of_operations {call : Call Kind Id Data Summary} {result : Result Data Summary}
    {op : Op Kind Id Data Summary} (h : op ∈ operations resolver call result) {key : Path Kind Id}
    (hkey : op.mutates = some key) : call.mutates resolver = some key := by
  cases call with
  | create kind id data override =>
    rw [operations] at h
    obtain ⟨key', hkey', rfl⟩ := List.mem_map.mp h
    cases hkey
    exact Option.mem_toList.mp hkey'
  | update kind id data override =>
    rw [operations] at h
    obtain ⟨key', hkey', rfl⟩ := List.mem_map.mp h
    cases hkey
    exact Option.mem_toList.mp hkey'
  | delete kind id override =>
    cases result with
    | done =>
      rw [operations] at h
      obtain ⟨key', hkey', rfl⟩ := List.mem_map.mp h
      cases hkey
      exact Option.mem_toList.mp hkey'
    | _ => cases h
  | _ =>
    cases result <;> first
    | cases h; done
    | rw [List.mem_singleton.mp h] at hkey
      cases hkey

theorem soFar_reads {call : Call Kind Id Data Summary} {phase : Phase Data Summary}
    (hfits : Fits resolver call phase) (hopen : phase.isSettled = false) {op : Op Kind Id Data Summary}
    (h : op ∈ soFar resolver snapshot call phase) : op.mutates = none := by
  by_contra hmutates
  obtain ⟨key, hkey⟩ := Option.ne_none_iff_exists'.mp hmutates
  cases phase with
  | fetching rows =>
    cases hfits.2.symm.trans (mutates_of_operations h hkey)
  | returned result => cases hopen
  | _ => cases h

theorem direct_of_read {contents contents' : Contents Kind Id Data} {op : Op Kind Id Data Summary}
    (hop : op.mutates = none) (h : Direct resolver contents op contents') : contents' = contents := by
  cases h <;> first | rfl | cases hop

omit [DecidableEq Kind] [DecidableEq Id] in
theorem allowed_key {kind : Kind} {id : Id} {override : Override Kind Id}
    (h : assertDatastoreDirectIdReadAllowed resolver kind override = true) :
    ∃ key, transactionMutationKey resolver kind id none override = some key := by
  rw [transactionMutationKey]
  cases override with
  | some ancestor => exact ⟨_, rfl⟩
  | none =>
    cases hresolver : resolver kind with
    | none =>
      simp only [datastoreAncestorForWrite, hresolver]
      exact ⟨_, rfl⟩
    | some resolve => simp only [assertDatastoreDirectIdReadAllowed, hresolver, Bool.false_eq_true] at h

omit [DecidableEq Kind] [DecidableEq Id] in
theorem payload_key {kind : Kind} {id : Id} {data : Data} {override : Override Kind Id} :
    ∃ key, transactionMutationKey resolver kind id (some data) override = some key := by
  rw [transactionMutationKey]
  cases override with
  | some ancestor => exact ⟨_, rfl⟩
  | none =>
    cases hresolver : resolver kind with
    | none =>
      simp only [datastoreAncestorForWrite, hresolver]
      exact ⟨_, rfl⟩
    | some resolve =>
      simp only [datastoreAncestorForWrite, hresolver]
      exact ⟨_, rfl⟩

/-- What a point read does, by the rows that it returns. -/
theorem operations_readResult {call : Call Kind Id Data Summary} (hallowed : call.allowed resolver = true)
    (hread : call.mutates resolver = none) (hquery : ∀ query, call ≠ .query query)
    (haggregate : ∀ query aggregateRows, call ≠ .aggregate query aggregateRows)
    (contents : Contents Kind Id Data) :
    operations resolver call (call.readResult ((call.keys resolver).map contents)) =
      [.read (call.keys resolver) ((call.keys resolver).map contents)] := by
  cases call with
  | get kind id override =>
    obtain ⟨key, hkey⟩ := @allowed_key _ _ _ resolver kind id override hallowed
    have hkeys : (Call.get kind id override : Call Kind Id Data Summary).keys resolver = [key] := by
      rw [Call.keys, hkey]
      rfl
    rw [hkeys]
    exact congrArg (fun keys => [Op.read keys [contents key]]) hkeys
  | getMany kind ids override => rfl
  | query query => exact absurd rfl (hquery query)
  | aggregate query aggregateRows => exact absurd rfl (haggregate query aggregateRows)
  | create kind id data override =>
    obtain ⟨key, hkey⟩ := @payload_key _ _ _ resolver kind id data override
    cases hread.symm.trans hkey
  | update kind id data override =>
    obtain ⟨key, hkey⟩ := @payload_key _ _ _ resolver kind id data override
    cases hread.symm.trans hkey
  | delete kind id override =>
    obtain ⟨key, hkey⟩ := @allowed_key _ _ _ resolver kind id override hallowed
    cases hread.symm.trans hkey

/-! ## Queues -/

namespace State

omit [DecidableEq Kind] [DecidableEq Id] in
/-- Where a mutation in this phase stands in the queue of its key; a refused one is in none. -/
def stageOf : Phase Data Summary → Option Stage
  | .queued previous => some (.queued previous)
  | .returned _ | .failed => some .settled
  | .refused => none
  | _ => some .working

/-- The queues of the mutations. -/
def queues (resolver : Resolvers Kind Id Data) (s : State Kind Id Data Summary) :
    Queues (Path Kind Id) :=
  .ofCalls (Call.mutates resolver) stageOf s.bufferedMutationTails s.calls

omit [DecidableEq Kind] [DecidableEq Id] in
theorem turn_of_released {previous : Option Nat} (h : previous.all s.released = true) :
    (s.queues resolver).Turn previous := by
  apply Queues.turn_ofCalls
  rintro last call phase rfl hcall stage hstage
  rw [Option.all_some, released, hcall, Option.all_some] at h
  cases phase with
  | returned => exact (Option.some.inj hstage).symm
  | failed => exact (Option.some.inj hstage).symm
  | refused => cases hstage
  | _ => cases h

/-- A phase of a mutation that has the turn. -/
def Working (s : State Kind Id Data Summary) : Phase Data Summary → Prop
  | .queued previous => previous.all s.released = true
  | .checking => True
  | _ => False

omit [DecidableEq Kind] [DecidableEq Id] in
theorem active_of_working {id : Nat} {call : Call Kind Id Data Summary} {phase : Phase Data Summary}
    (hcall : s.calls[id]? = some (call, phase)) (hworking : s.Working phase) {key : Path Kind Id}
    (hkey : call.mutates resolver = some key) : (s.queues resolver).Active key id := by
  cases phase with
  | queued previous =>
    exact .turn (Queues.on_ofCalls.mpr ⟨call, _, hcall, hkey, rfl⟩) (turn_of_released hworking)
  | checking => exact .working (Queues.on_ofCalls.mpr ⟨call, _, hcall, hkey, rfl⟩)
  | _ => exact hworking.elim

/-! ## Segments -/

/-- The segments of a call, by what they do. -/
inductive Advances (resolver : Resolvers Kind Id Data) (snapshot : Contents Kind Id Data)
    (scan : Query Kind Id Data → Contents Kind Id Data → List (Entity Kind Id Data))
    (s : State Kind Id Data Summary) (call : Call Kind Id Data Summary) :
    Phase Data Summary → Segment Kind Id Data Summary → Prop
  /-- A read goes on without having done anything. -/
  | wait {phase phase' : Phase Data Summary} (hphase : phase.isSettled = false)
    (hread : call.mutates resolver = none) (hafter : phase' = .querying ∨
      ∃ pending again, phase' = .waiting pending again) (hbefore : soFar resolver snapshot call phase = []) :
    Advances resolver snapshot scan s call phase ⟨phase', none⟩
  /-- A point read has looked into the buffer. -/
  | look {pending : List Nat} {again : Bool} (hquery : ∀ query, call ≠ .query query)
    (haggregate : ∀ query aggregateRows, call ≠ .aggregate query aggregateRows) :
    Advances resolver snapshot scan s call (.waiting pending again)
      ⟨pointRead call ((call.keys resolver).map s.transactionBufferedRow), none⟩
  | fetched {rows : List (Option (Option Data))} :
    Advances resolver snapshot scan s call (.fetching rows)
      ⟨.returned (call.readResult (merged resolver snapshot call rows)), none⟩
  /-- A query or an aggregate has its base rows. -/
  | queried {query : Query Kind Id Data} {sorted : List Data} {result : Result Data Summary}
    {op : Op Kind Id Data Summary} (h : s.queried resolver snapshot scan query = some sorted)
    (hop : operations resolver call result = [op]) (hread : op.mutates = none)
    (hdirect : ∀ {contents}, Lists resolver contents query sorted → Direct resolver contents op contents) :
    Advances resolver snapshot scan s call .querying ⟨.returned result, none⟩
  /-- A mutation whose turn it is. -/
  | run {previous : Option Nat} (hturn : previous.all s.released = true) :
    Advances resolver snapshot scan s call (.queued previous) (s.runMutation resolver call)
  | check : Advances resolver snapshot scan s call .checking (checked resolver snapshot call)
  | fail {phase : Phase Data Summary} (hphase : phase.isSettled = false)
    (hqueued : ∀ previous, phase ≠ .queued previous) :
    Advances resolver snapshot scan s call phase ⟨.failed, none⟩

omit [DecidableEq Kind] [DecidableEq Id] in
theorem page_unpaged (query : Query Kind Id Data) (sorted : List Data) :
    (query.unpaged.page sorted).1 = sorted := by
  rw [Query.page, Query.limitRows, Query.offsetRows, Query.unpaged]
  exact List.map_id sorted

theorem advance_eq_some {answer : Answer} {call : Call Kind Id Data Summary} {phase : Phase Data Summary}
    {segment : Segment Kind Id Data Summary} (hfits : Fits resolver call phase)
    (h : s.advance resolver snapshot scan answer call phase = some segment) :
    Advances resolver snapshot scan s call phase segment := by
  cases phase with
  | waiting pending again =>
    simp only [advance, Option.ite_none_right_eq_some] at h
    obtain ⟨-, h⟩ := h
    cases call with
    | query query =>
      cases h
      exact .wait rfl hfits.2 (Or.inl rfl) rfl
    | aggregate query aggregateRows =>
      cases h
      refine .wait rfl hfits.2 ?_ rfl
      cases again with
      | true => exact Or.inr ⟨_, _, rfl⟩
      | false => exact Or.inl rfl
    | _ =>
      cases h
      exact .look (by rintro _ ⟨⟩) (by rintro _ _ ⟨⟩)
  | fetching rows =>
    cases answer with
    | ok =>
      cases h
      exact .fetched
    | readFails =>
      cases h
      exact .fail rfl (by rintro _ ⟨⟩)
  | querying =>
    have hfail : Advances resolver snapshot scan s call .querying ⟨.failed, none⟩ :=
      .fail rfl (by rintro _ ⟨⟩)
    cases answer with
    | readFails =>
      cases h
      exact hfail
    | ok =>
      cases call with
      | query query =>
        simp only [advance] at h
        cases hqueried : s.queried resolver snapshot scan query with
        | none =>
          rw [hqueried] at h
          cases h
          exact hfail
        | some sorted =>
          rw [hqueried] at h
          cases h
          exact .queried hqueried rfl rfl fun hlists => .query hlists
      | aggregate query aggregateRows =>
        simp only [advance] at h
        cases hqueried : s.queried resolver snapshot scan query.unpaged with
        | none =>
          rw [hqueried] at h
          cases h
          exact hfail
        | some sorted =>
          rw [hqueried] at h
          cases h
          rw [page_unpaged]
          exact .queried hqueried rfl rfl fun hlists => .aggregate hlists aggregateRows
      | _ =>
        cases h
        exact hfail
  | queued previous =>
    rw [advance, Option.ite_none_right_eq_some] at h
    cases h.2
    exact .run h.1
  | checking =>
    cases answer with
    | ok =>
      cases h
      exact .check
    | readFails =>
      cases h
      exact .fail rfl (by rintro _ ⟨⟩)
  | _ => cases h

theorem calls_perform {id : Nat} {call : Call Kind Id Data Summary} {phase : Phase Data Summary}
    (hcall : s.calls[id]? = some (call, phase)) (segment : Segment Kind Id Data Summary) (id' : Nat) :
    (s.perform resolver id call segment).calls[id']? =
      if id' = id then some (call, segment.phase) else s.calls[id']? := by
  change (s.calls.set id (call, segment.phase))[id']? = _
  split <;> rename_i h
  · rw [h, List.getElem?_set_self (lt_of_getElem? hcall)]
  · exact List.getElem?_set_ne (Ne.symm h)

/-! ## Reachable states -/

/-- The operations of the calls in the order in which they took effect. -/
structure Recorded (resolver : Resolvers Kind Id Data) (snapshot : Contents Kind Id Data)
    (s : State Kind Id Data Summary)
    (events : List (Event (Call Kind Id Data Summary) (Result Data Summary)))
    (log : List (Entry (Op Kind Id Data Summary))) : Prop where
  calls : Logged (view resolver snapshot) s.calls events log
  legal : Steps (Direct resolver) snapshot (log.map Entry.op) (content snapshot s.bufferedMutations)
  inTurn : log.Pairwise fun e e' => ∀ key, e.op.mutates = some key → e'.op.mutates = some key →
    e.call < e'.call

structure Reached (resolver : Resolvers Kind Id Data) (snapshot : Contents Kind Id Data)
    (s : State Kind Id Data Summary)
    (events : List (Event (Call Kind Id Data Summary) (Result Data Summary))) : Prop where
  queued : (s.queues resolver).Ordered
  net : Net resolver snapshot s.bufferedMutations
  fits : ∀ {id : Nat} {call : Call Kind Id Data Summary} {phase : Phase Data Summary},
    s.calls[id]? = some (call, phase) → Fits resolver call phase
  checking : ∀ {id : Nat} {call : Call Kind Id Data Summary} {key : Path Kind Id},
    s.calls[id]? = some (call, .checking) → call.mutates resolver = some key →
      s.bufferedMutations.get? key = none
  recorded : ∃ log, Recorded resolver snapshot s events log

theorem Reached.initial : Reached resolver snapshot (initial : State Kind Id Data Summary) [] where
  queued := Queues.Ordered.empty
  net := Net.empty
  fits h := by cases h
  checking h := by cases h
  recorded := ⟨[], .nil, .nil, .nil⟩

variable {events : List (Event (Call Kind Id Data Summary) (Result Data Summary))}

/-- A call that starts, in the queue of its key unless it is refused or reads. -/
theorem Reached.snoc (hs : Reached resolver snapshot s events) {call : Call Kind Id Data Summary}
    {phase : Phase Data Summary} (hqueues : (s.queues resolver).Step (t.queues resolver))
    (hcalls : t.calls = s.calls ++ [(call, phase)]) (hbuffered : t.bufferedMutations = s.bufferedMutations)
    (hfits : Fits resolver call phase) (hchecking : phase ≠ .checking)
    (hreturned : (view resolver snapshot).result phase = none)
    (hdone : (view resolver snapshot).done call phase = some []) :
    Reached resolver snapshot t (events ++ [.started s.calls.length call]) := by
  have hcases {id : Nat} {call' : Call Kind Id Data Summary} {phase' : Phase Data Summary}
      (h : t.calls[id]? = some (call', phase')) :
      call = call' ∧ phase = phase' ∨ s.calls[id]? = some (call', phase') := by
    rw [hcalls, getElem?_snoc] at h
    split at h
    · exact Or.inl (Prod.mk.inj (Option.some.inj h))
    · exact Or.inr h
  constructor
  · exact hs.queued.step hqueues
  · rw [hbuffered]
    exact hs.net
  · intro id call' phase' h
    rcases hcases h with ⟨rfl, rfl⟩ | h
    · exact hfits
    · exact hs.fits h
  · intro id call' key h hkey
    rw [hbuffered]
    rcases hcases h with ⟨-, hphase⟩ | h
    · exact absurd hphase hchecking
    · exact hs.checking h hkey
  · obtain ⟨log, hlog⟩ := hs.recorded
    refine ⟨log, ?_, ?_, hlog.inTurn⟩
    · have hstart := hlog.calls.start hdone
      rwa [View.returnedIn, hreturned, Option.map_none, Option.toList_none, ← hcalls] at hstart
    · rw [hbuffered]
      exact hlog.legal

/-- What a segment of a call does to the log. -/
structure Acts (resolver : Resolvers Kind Id Data) (snapshot : Contents Kind Id Data)
    (s : State Kind Id Data Summary) (call : Call Kind Id Data Summary) (phase : Phase Data Summary)
    (segment : Segment Kind Id Data Summary) (op : Option (Op Kind Id Data Summary)) : Prop where
  unsettled : phase.isSettled = false
  working : call.mutates resolver ≠ none → s.Working phase
  fits : Fits resolver call segment.phase
  left : stageOf segment.phase = some (if segment.phase.isSettled then .settled else .working)
  checking : ∀ key, segment.phase = .checking → call.mutates resolver = some key →
    (changeBuffer s.bufferedMutations segment.buffered).get? key = none
  net : Net resolver snapshot (changeBuffer s.bufferedMutations segment.buffered)
  others : ∀ key, call.mutates resolver ≠ some key →
    (changeBuffer s.bufferedMutations segment.buffered).get? key = s.bufferedMutations.get? key
  legal : Steps (Direct resolver) (content snapshot s.bufferedMutations) op.toList
    (content snapshot (changeBuffer s.bufferedMutations segment.buffered))
  effects : segment.phase ≠ .failed → soFar resolver snapshot call segment.phase =
    soFar resolver snapshot call phase ++ op.toList
  failed : segment.phase = .failed → op = none
  mutates : ∀ key, op.bind Op.mutates = some key → call.mutates resolver = some key

/-- A segment in which a call takes no effect. -/
theorem Acts.silent (hnet : Net resolver snapshot s.bufferedMutations)
    {call : Call Kind Id Data Summary} {phase phase' : Phase Data Summary}
    (hopen : phase.isSettled = false) (hworking : call.mutates resolver ≠ none → s.Working phase)
    (hfits : Fits resolver call phase')
    (hleft : stageOf phase' = some (if phase'.isSettled then .settled else .working))
    (hchecking : ∀ key, phase' = .checking → call.mutates resolver = some key →
      s.bufferedMutations.get? key = none)
    (heffects : phase' ≠ .failed → soFar resolver snapshot call phase' =
      soFar resolver snapshot call phase) :
    Acts resolver snapshot s call phase ⟨phase', none⟩ none where
  unsettled := hopen
  working := hworking
  fits := hfits
  left := hleft
  checking := hchecking
  net := hnet
  others _ _ := rfl
  legal := .nil
  effects h := (heffects h).trans (List.append_nil _).symm
  failed _ := rfl
  mutates _ h := by cases h

/-- A segment in which a call reads what is shown. -/
theorem Acts.read (hnet : Net resolver snapshot s.bufferedMutations)
    {call : Call Kind Id Data Summary} {phase phase' : Phase Data Summary}
    (hopen : phase.isSettled = false) (hread : call.mutates resolver = none)
    (hfits : Fits resolver call phase')
    (hleft : stageOf phase' = some (if phase'.isSettled then .settled else .working))
    {op : Op Kind Id Data Summary} (hop : op.mutates = none)
    (hdirect : Direct resolver (content snapshot s.bufferedMutations) op
      (content snapshot s.bufferedMutations))
    (hbefore : soFar resolver snapshot call phase = []) (hphase : phase' ≠ .failed)
    (heffects : soFar resolver snapshot call phase' = [op]) :
    Acts resolver snapshot s call phase ⟨phase', none⟩ (some op) where
  unsettled := hopen
  working h := absurd hread h
  fits := hfits
  left := hleft
  checking _ _ hkey := by cases hread.symm.trans hkey
  net := hnet
  others _ _ := rfl
  legal := .single hdirect
  effects _ := by
    rw [hbefore, heffects]
    rfl
  failed h := absurd h hphase
  mutates key h := by cases hop.symm.trans h

theorem changeBuffer_of_ne {buffered : JsMap (Path Kind Id) (Mutation Kind Id Data)} {key : Path Kind Id}
    {change : Option (Path Kind Id × Option (Mutation Kind Id Data))}
    (h : ∀ entry, change = some entry → entry.1 ≠ key) :
    (changeBuffer buffered change).get? key = buffered.get? key := by
  rcases change with _ | ⟨key', _ | mutation⟩
  · rfl
  · exact JsMap.get?_delete_of_ne _ (h _ rfl)
  · exact JsMap.get?_set_of_ne _ _ (h _ rfl)

/-- A mutation of `key` that is run. -/
theorem Acts.mutate (hnet : Net resolver snapshot s.bufferedMutations)
    {call : Call Kind Id Data Summary} {phase : Phase Data Summary} {key : Path Kind Id}
    (hkey : call.mutates resolver = some key) (hopen : phase.isSettled = false)
    (hworking : s.Working phase) (hbefore : soFar resolver snapshot call phase = [])
    {segment : Segment Kind Id Data Summary}
    (heffect : Effect resolver snapshot s.bufferedMutations key call segment)
    (hkeys : ∀ entry, segment.buffered = some entry → entry.1 = key) :
    ∃ op, Acts resolver snapshot s call phase segment op := by
  cases heffect with
  | checking hnone =>
    refine ⟨none, .silent hnet hopen (fun _ => hworking) ?_ rfl ?_ fun _ => hbefore.symm⟩
    · rw [Fits, hkey]
      exact Option.some_ne_none _
    · intro key' _ hkey'
      cases hkey.symm.trans hkey'
      exact hnone
  | @returned result op change hop hopkey hdirect hnet' =>
    refine ⟨some op, hopen, fun _ => hworking, trivial, rfl, ?_, hnet', ?_, .single hdirect, ?_, ?_, ?_⟩
    · intro key' hphase
      cases hphase
    · intro key' hkey'
      apply changeBuffer_of_ne
      intro entry hentry heq
      rw [hkeys entry hentry] at heq
      exact hkey' (hkey.trans (congrArg some heq))
    · intro _
      rw [hbefore]
      exact hop
    · intro hphase
      cases hphase
    · intro key' hkey'
      cases hopkey.symm.trans hkey'
      exact hkey

theorem runMutation_key {call : Call Kind Id Data Summary} {key : Path Kind Id}
    (hkey : call.mutates resolver = some key) {entry : Path Kind Id × Option (Mutation Kind Id Data)}
    (h : (s.runMutation resolver call).buffered = some entry) : entry.1 = key := by
  cases call with
  | create kind id data override =>
    rw [Call.mutates] at hkey
    simp only [runMutation, hkey] at h
    split at h <;> cases h
    rfl
  | update kind id data override =>
    rw [Call.mutates] at hkey
    simp only [runMutation, hkey] at h
    split at h <;> cases h <;> rfl
  | delete kind id override =>
    rw [Call.mutates] at hkey
    simp only [runMutation, hkey] at h
    split at h <;> cases h <;> rfl
  | _ => cases hkey

omit [DecidableEq Kind] [DecidableEq Id] in
theorem checked_key {call : Call Kind Id Data Summary} {key : Path Kind Id}
    (hkey : call.mutates resolver = some key) {entry : Path Kind Id × Option (Mutation Kind Id Data)}
    (h : (checked resolver snapshot call).buffered = some entry) : entry.1 = key := by
  cases call with
  | create kind id data override =>
    rw [Call.mutates] at hkey
    simp only [checked, hkey] at h
    split at h <;> cases h
    rfl
  | update kind id data override =>
    rw [Call.mutates] at hkey
    simp only [checked, hkey] at h
    split at h <;> cases h
    rfl
  | delete kind id override =>
    rw [Call.mutates] at hkey
    simp only [checked, hkey] at h
    split at h <;> cases h
    rfl
  | _ => cases hkey

/-- A point read that looks into the buffer returns, or will return, what is shown. -/
theorem soFar_pointRead {call : Call Kind Id Data Summary} :
    soFar resolver snapshot call
        (pointRead call ((call.keys resolver).map s.transactionBufferedRow)) =
      operations resolver call
        (call.readResult ((call.keys resolver).map (content snapshot s.bufferedMutations))) := by
  have hrow (key : Path Kind Id) : (s.transactionBufferedRow key).getD (snapshot key) =
      content snapshot s.bufferedMutations key := by
    rw [transactionBufferedRow, content]
    cases s.bufferedMutations.get? key <;> rfl
  rw [pointRead]
  split <;> rename_i hall
  · rw [soFar, List.map_map]
    congr 2
    apply List.map_congr_left
    intro key hkey
    obtain ⟨row, hbuffered⟩ := Option.isSome_iff_exists.mp
      (List.all_eq_true.mp hall _ (List.mem_map_of_mem hkey))
    rw [← hrow, Function.comp, hbuffered]
    rfl
  · rw [soFar, merged, List.zipWith_map_left, List.zipWith_self]
    congr 2
    exact List.map_congr_left fun key _ => hrow key

omit [DecidableEq Kind] [DecidableEq Id] in
theorem pointRead_phase {call : Call Kind Id Data Summary} {rows : List (Option (Option Data))} :
    (∃ result, pointRead call rows = .returned result) ∨ pointRead call rows = .fetching rows := by
  rw [pointRead]
  split
  · exact Or.inl ⟨_, rfl⟩
  · exact Or.inr rfl

theorem Reached.acts (hs : Reached resolver snapshot s events)
    (hscan : ∀ query, Scans query snapshot (scan query snapshot)) {id : Nat}
    {call : Call Kind Id Data Summary} {phase : Phase Data Summary}
    (hcall : s.calls[id]? = some (call, phase)) {segment : Segment Kind Id Data Summary}
    (h : Advances resolver snapshot scan s call phase segment) :
    ∃ op, Acts resolver snapshot s call phase segment op := by
  have hfits := hs.fits hcall
  cases h with
  | wait hphase hread hafter hbefore =>
    have hallowed : call.allowed resolver = true := by
      cases phase with
      | waiting => exact hfits.1
      | fetching => exact hfits.1
      | querying => exact hfits.1
      | queued => exact absurd hread hfits
      | checking => exact absurd hread hfits
      | _ => cases hphase
    refine ⟨none, .silent hs.net hphase (fun hne => absurd hread hne) ?_ ?_ ?_ fun _ => ?_⟩
    · rcases hafter with rfl | ⟨pending, again, rfl⟩ <;> exact ⟨hallowed, hread⟩
    · rcases hafter with rfl | ⟨pending, again, rfl⟩ <;> rfl
    · intro key _ hkey
      cases hread.symm.trans hkey
    · rw [hbefore]
      rcases hafter with rfl | ⟨pending, again, rfl⟩ <;> rfl
  | look hquery haggregate =>
    have hsoFar := @soFar_pointRead _ _ _ _ _ _ resolver snapshot s call
    rw [operations_readResult hfits.1 hfits.2 hquery haggregate] at hsoFar
    refine ⟨_, .read hs.net rfl hfits.2 ?_ ?_ rfl (.read _ _) rfl ?_ hsoFar⟩
    · rcases pointRead_phase with ⟨result, hresult⟩ | hfetching
      · rw [hresult]
        trivial
      · rw [hfetching]
        exact hfits
    · rcases pointRead_phase with ⟨result, hresult⟩ | hfetching
      · rw [hresult]
        rfl
      · rw [hfetching]
        rfl
    · intro hfailed
      rcases pointRead_phase with ⟨result, hresult⟩ | hfetching
      · cases hresult.symm.trans hfailed
      · cases hfetching.symm.trans hfailed
  | fetched =>
    refine ⟨none, .silent hs.net rfl (fun hne => absurd hfits.2 hne) trivial rfl ?_ fun _ => rfl⟩
    rintro key ⟨⟩
  | queried h hop hread hdirect =>
    obtain ⟨rows, hrows, rfl⟩ := Option.map_eq_some_iff.mp h
    refine ⟨_, .read hs.net rfl hfits.2 ?_ rfl hread ?_ rfl (by rintro ⟨⟩) hop⟩
    · trivial
    · exact hdirect (queried_lists hs.net (hscan _) hrows)
  | run hturn =>
    obtain ⟨key, hkey⟩ := Option.ne_none_iff_exists'.mp hfits
    apply Acts.mutate hs.net hkey rfl _ rfl (runMutation_effect hs.net hkey)
    · exact fun _ hentry => runMutation_key hkey hentry
    · exact hturn
  | check =>
    obtain ⟨key, hkey⟩ := Option.ne_none_iff_exists'.mp hfits
    apply Acts.mutate hs.net hkey rfl _ rfl (checked_effect hs.net hkey (hs.checking hcall hkey))
    · exact fun _ hentry => checked_key hkey hentry
    · trivial
  | fail hphase hqueued =>
    refine ⟨none, .silent hs.net hphase ?_ trivial rfl (by rintro key ⟨⟩) fun h => absurd rfl h⟩
    intro hne
    cases phase with
    | waiting => exact absurd hfits.2 hne
    | fetching => exact absurd hfits.2 hne
    | querying => exact absurd hfits.2 hne
    | queued previous => exact absurd rfl (hqueued previous)
    | checking => trivial
    | _ => cases hphase

/-- A call goes on. -/
theorem Reached.perform (hs : Reached resolver snapshot s events) {id : Nat}
    {call : Call Kind Id Data Summary} {phase : Phase Data Summary}
    (hcall : s.calls[id]? = some (call, phase)) {segment : Segment Kind Id Data Summary}
    {op : Option (Op Kind Id Data Summary)} (h : Acts resolver snapshot s call phase segment op) :
    Reached resolver snapshot (s.perform resolver id call segment)
      (events ++ returnedIn id segment.phase) := by
  have hactive {key : Path Kind Id} (hkey : call.mutates resolver = some key) :
      (s.queues resolver).Active key id := by
    apply active_of_working hcall (h.working ?_) hkey
    rw [hkey]
    exact Option.some_ne_none _
  have hold {id' : Nat} {call' : Call Kind Id Data Summary} {phase' : Phase Data Summary}
      (h' : (s.perform resolver id call segment).calls[id']? = some (call', phase')) :
      id' = id ∧ call = call' ∧ segment.phase = phase' ∨
        id' ≠ id ∧ s.calls[id']? = some (call', phase') := by
    rw [calls_perform hcall] at h'
    split at h' <;> rename_i hid
    · exact Or.inl ⟨hid, Prod.mk.inj (Option.some.inj h')⟩
    · exact Or.inr ⟨hid, h'⟩
  constructor
  · apply hs.queued.step
    have htails : (s.perform resolver id call segment).bufferedMutationTails =
        Queues.release s.bufferedMutationTails (call.mutates resolver) id segment.phase.isSettled := by
      rw [State.perform]
      cases call.mutates resolver <;> rfl
    have hstep := Queues.step_set hcall (fun _ hkey => hactive hkey) h.left
    rwa [← htails] at hstep
  · exact h.net
  · intro id' call' phase' h'
    rcases hold h' with ⟨-, rfl, rfl⟩ | ⟨-, h'⟩
    · exact h.fits
    · exact hs.fits h'
  · intro id' call' key h' hkey
    rcases hold h' with ⟨-, rfl, hphase⟩ | ⟨hid, h'⟩
    · exact h.checking key hphase hkey
    · change (changeBuffer s.bufferedMutations segment.buffered).get? key = none
      rw [h.others]
      · exact hs.checking h' hkey
      · intro hsame
        exact hid (hs.queued.alone (active_of_working h' trivial hkey) (hactive hsame))
  · obtain ⟨log, hlog⟩ := hs.recorded
    refine ⟨log ++ op.toList.map (⟨id, ·⟩), ?_, ?_, ?_⟩
    · rw [returnedIn_view]
      have hopen : (view resolver snapshot).result phase = none := by
        cases phase with
        | returned => cases h.unsettled
        | _ => rfl
      have hne : phase ≠ .failed := by
        rintro rfl
        cases h.unsettled
      apply hlog.calls.advance hcall hopen (done_of_ne hne call)
      by_cases hphase : segment.phase = .failed
      · rw [hphase]
        exact Or.inr ⟨rfl, h.failed hphase, fun _ hop => soFar_reads (hs.fits hcall) h.unsettled hop⟩
      · exact Or.inl ((done_of_ne hphase call).trans (congrArg some (h.effects hphase)))
    · have hops : (op.toList.map (Entry.mk id)).map Entry.op = op.toList := by
        cases op <;> rfl
      rw [List.map_append, hops]
      exact hlog.legal.trans h.legal
    · apply List.pairwise_append.mpr
      refine ⟨hlog.inTurn, ?_, fun e he e' he' key hkey hkey' => ?_⟩
      · cases op with
        | none => exact .nil
        | some op => exact List.pairwise_singleton ..
      · cases op with
        | none => cases he'
        | some op =>
          cases List.mem_singleton.mp he'
          have hself := hactive (h.mutates key hkey')
          -- The call of an earlier mutation has returned.
          obtain ⟨call', phase', hcall', hread | ⟨ops, hdone, hop⟩⟩ := hlog.calls.of_mem he
          · cases hread.symm.trans hkey
          · have hmem : e.op ∈ soFar resolver snapshot call' phase' := by
              cases phase' with
              | failed => cases hdone
              | _ =>
                cases hdone
                exact hop
            have hsettled : phase'.isSettled = true := by
              by_contra hopen
              rw [soFar_reads (hs.fits hcall') (Bool.not_eq_true _ ▸ hopen) hmem] at hkey
              cases hkey
            have hon : (s.queues resolver).On key e.call .settled := by
              cases phase' with
              | returned result =>
                exact Queues.on_ofCalls.mpr
                  ⟨call', _, hcall', mutates_of_operations hmem hkey, rfl⟩
              | failed => cases hdone
              | refused => cases hmem
              | _ => cases hsettled
            obtain ⟨stage, hself', hne⟩ := hself.on
            rcases Nat.lt_trichotomy e.call id with hlt | heq | hgt
            · exact hlt
            · exact absurd ((heq ▸ hon).unique hself').2.symm hne
            · exact absurd (hs.queued.ordered hself' hon hgt (by rintro _ ⟨⟩)) hne

theorem Reached.step (hs : Reached resolver snapshot s events)
    (hscan : ∀ query, Scans query snapshot (scan query snapshot))
    {new : List (Event (Call Kind Id Data Summary) (Result Data Summary))}
    (h : s.Performs resolver snapshot scan new t) : Reached resolver snapshot t (events ++ new) := by
  obtain ⟨action, h⟩ := h
  have hrefuse (call : Call Kind Id Data Summary) :
      Reached resolver snapshot (s.refuse call) (events ++ [.started s.calls.length call]) :=
    hs.snoc (Queues.step_pass (Or.inr rfl)) rfl rfl trivial (by rintro ⟨⟩) rfl rfl
  cases action with
  | start call =>
    rw [State.step] at h
    split at h <;> rename_i hallowed
    · cases h
      cases hmutates : call.mutates resolver with
      | some key =>
        have hphase : s.startPhase resolver call = .queued (s.bufferedMutationTails.get? key) := by
          simp only [startPhase, hmutates]
        apply @Reached.snoc _ _ _ _ _ _ _ _ s (s.start resolver call) events hs call _ ?_ rfl rfl
        · rw [hphase, Fits, hmutates]
          exact Option.some_ne_none _
        · rw [hphase]
          rintro ⟨⟩
        · rw [hphase]
          rfl
        · rw [hphase]
          rfl
        · rw [queues, start, hmutates]
          apply Queues.step_join hmutates
          rw [hphase]
          rfl
      | none =>
        obtain ⟨pending, again, hphase⟩ : ∃ pending again,
            s.startPhase resolver call = .waiting pending again := by
          cases call <;> simp only [startPhase, hmutates] <;> exact ⟨_, _, rfl⟩
        apply @Reached.snoc _ _ _ _ _ _ _ _ s (s.start resolver call) events hs call _ ?_ rfl rfl
        · rw [hphase]
          exact ⟨hallowed, hmutates⟩
        · rw [hphase]
          rintro ⟨⟩
        · rw [hphase]
          rfl
        · rw [hphase]
          rfl
        · rw [queues, start, hmutates]
          exact Queues.step_pass (Or.inl hmutates)
    · cases h
      exact hrefuse call
  | refuse call =>
    cases h
    exact hrefuse call
  | resume id answer =>
    simp only [State.step, Option.bind_eq_bind, Option.bind_eq_some_iff, Option.some.injEq,
      Prod.mk.injEq] at h
    obtain ⟨⟨call, phase⟩, hcall, segment, hsegment, rfl, rfl⟩ := h
    obtain ⟨op, hacts⟩ := hs.acts hscan hcall (advance_eq_some (hs.fits hcall) hsegment)
    exact hs.perform hcall hacts

theorem reached (hscan : ∀ query, Scans query snapshot (scan query snapshot))
    {labels : List (List (Event (Call Kind Id Data Summary) (Result Data Summary)))}
    (h : Steps (State.Performs resolver snapshot scan) (initial : State Kind Id Data Summary) labels s) :
    Reached resolver snapshot s labels.flatten := by
  apply Steps.history (P := fun s labels => Reached resolver snapshot s labels.flatten) _ h
  · exact .initial
  · intro s labels new t hs hperforms
    rw [List.flatten_append, List.flatten_singleton]
    exact hs.step hscan hperforms

end State

/-! ## Commit -/

/-- Books (`true`) are stored below their authors (`false`), by the last digit of their data. -/
def author : Resolvers Bool Nat Nat := fun kind =>
  if kind then some fun _ data => [⟨false, data % 10⟩] else none

/-- A book of the first author. -/
def shelf : Contents Bool Nat Nat := fun key =>
  if key = [⟨false, 1⟩, ⟨true, 7⟩] then some 21 else none

def booksOfFirst : Query Bool Nat Nat where
  kind := true
  ancestor := [⟨false, 1⟩]
  accepts data := 10 < data
  compare := compare
  ordered := inferInstance
  offset := none
  limit := some 2
  select := id

/-- The entity of the shelf where it has the kind of the query. -/
def scanShelf (query : Query Bool Nat Nat) (_ : Contents Bool Nat Nat) : List (Entity Bool Nat Nat) :=
  if query.kind then [([⟨false, 1⟩, ⟨true, 7⟩], 21)] else []

theorem scanShelf_scans (query : Query Bool Nat Nat) : Scans query shelf (scanShelf query shelf) where
  nodup := by
    rw [scanShelf]
    split
    · exact List.nodup_singleton _
    · exact List.nodup_nil
  stored {key data} h := by
    rw [scanShelf] at h
    split at h <;> rename_i hkind
    · cases List.mem_singleton.mp h
      exact ⟨rfl, [⟨false, 1⟩], 7, by rw [hkind]; rfl⟩
    · cases h
  complete {ancestor id data} hstored _ _ := by
    rw [shelf, Option.ite_none_right_eq_some] at hstored
    obtain ⟨hkey, hdata⟩ := hstored
    have hpart : query.kind = true := by
      have happend : ancestor ++ [⟨query.kind, id⟩] = [⟨false, 1⟩] ++ [⟨true, 7⟩] := hkey
      obtain ⟨-, hpart⟩ := List.append_inj' happend rfl
      exact (KeyPart.mk.inj (List.singleton_inj.mp hpart)).1
    cases hdata
    rw [hkey, scanShelf, if_pos hpart]
    exact List.mem_cons_self

end ActiveTs.Datastore.Buffered
