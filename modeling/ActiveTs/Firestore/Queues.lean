import ActiveTs.Firestore.Transactions
import ActiveTs.Lib.KeyedQueues

/-! # The mutation queues of a Firestore transaction

What one segment of a call can do, and that the mutations of a key are at work one after the other. -/

namespace ActiveTs.Firestore

open Histories
open KeyedQueues (Queues Stage)

universe u

variable {Key Row Query : Type u} [DecidableEq Key] {snapshot : Key → Option Row}
  {evaluate : Query → (Key → Option Row) → List Row} {s t : State Key Row Query}

/-! ## Segments -/

namespace State

/-- What a mutation of `key` stages when it is its turn. -/
inductive Stages (s : State Key Row Query) (key : Key) : Mutation Row → Write Key Row → Prop
  | create {data : Row} (h : s.buffered.get? key = none) : Stages s key (.create data) (.create key data)
  | recreate {data : Row} (h : s.buffered.get? key = some .delete) :
    Stages s key (.create data) (.set key data)
  | update {data : Row} {mutation : Mutation Row} (h : s.buffered.get? key = some mutation)
    (hrow : mutation.row ≠ none) : Stages s key (.update data) (.set key data)
  | updateRead {data row : Row} (h : s.buffered.get? key = none)
    (hread : s.pointReads.get? key = some (some row)) : Stages s key (.update data) (.set key data)
  | delete : Stages s key .delete (.delete key)

/-- What a point read finds without the SDK. -/
def Finds (s : State Key Row Query) (key : Key) (row : Option Row) : Prop :=
  s.bufferedRow key = some row ∨ s.bufferedRow key = none ∧ s.pointReads.get? key = some row

/-- The segments of a call, by the phase that they start in. -/
inductive Advances (snapshot : Key → Option Row) (evaluate : Query → (Key → Option Row) → List Row)
    (s : State Key Row Query) : Call Key Row Query → Phase Key Row → Segment Key Row → Prop
  | found {call : Call Key Row Query} {rows : List (Option Row)} {tail : Option Nat} {key : Key}
    {rest : List Key} {row : Option Row} (h : s.Finds key row) :
    Advances snapshot evaluate s call (.waiting rows tail key rest)
      ⟨s.readNext call (rows ++ [row]) rest, none, none⟩
  | fetch {call : Call Key Row Query} {rows : List (Option Row)} {tail : Option Nat} {key : Key}
    {rest : List Key} (hclean : s.dirty = false) :
    Advances snapshot evaluate s call (.waiting rows tail key rest) ⟨.fetching rows key rest, none, none⟩
  | fetched {call : Call Key Row Query} {rows : List (Option Row)} {key : Key} {rest : List Key} :
    Advances snapshot evaluate s call (.fetching rows key rest)
      ⟨s.readNext call (rows ++ [snapshot key]) rest, some (key, snapshot key), none⟩
  | send {call : Call Key Row Query} {pending : List Nat} (hclean : s.dirty = false) :
    Advances snapshot evaluate s call (.waitingAll pending) ⟨.querying, none, none⟩
  | queried {query : Query} :
    Advances snapshot evaluate s (.query query) .querying
      ⟨.returned (.list (evaluate query snapshot)), none, none⟩
  | stage {call : Call Key Row Query} {previous : Option Nat} {key : Key} {mutation : Mutation Row}
    {write : Write Key Row} (hturn : previous.all s.released = true)
    (hcall : call.mutation = some (key, mutation)) (h : s.Stages key mutation write) :
    Advances snapshot evaluate s call (.queued previous) ⟨.written, none, some write⟩
  | read {key : Key} {data : Row} {previous : Option Nat} (hturn : previous.all s.released = true)
    (h : s.buffered.get? key = none) :
    Advances snapshot evaluate s (.update key data) (.queued previous) ⟨.reading, none, none⟩
  | replace {key : Key} {data row : Row} (h : snapshot key = some row) :
    Advances snapshot evaluate s (.update key data) .reading
      ⟨.written, some (key, some row), some (.set key data)⟩
  | finish {call : Call Key Row Query} :
    Advances snapshot evaluate s call .written ⟨.returned .done, none, none⟩
  | fail {call : Call Key Row Query} {phase : Phase Key Row} {read : Option (Key × Option Row)}
    (hopen : phase.isSettled = false) (hunwritten : phase ≠ .written)
    (hturn : ∀ previous, phase = .queued previous → previous.all s.released = true)
    (hread : ∀ key row, read = some (key, row) → row = snapshot key) :
    Advances snapshot evaluate s call phase ⟨.failed, read, none⟩

theorem pointRead_advances {call : Call Key Row Query} {rows : List (Option Row)} {tail : Option Nat}
    {key : Key} {rest : List Key} :
    Advances snapshot evaluate s call (.waiting rows tail key rest)
      ⟨s.pointRead call rows key rest, none, none⟩ := by
  rw [pointRead]
  cases hbuffered : s.bufferedRow key with
  | some row => exact .found (Or.inl hbuffered)
  | none =>
    cases hcached : s.cachedPointRead key with
    | some row => exact .found (Or.inr ⟨hbuffered, hcached⟩)
    | none =>
      cases hdirty : s.dirty with
      | true => exact .fail rfl nofun nofun nofun
      | false => exact .fetch hdirty

theorem stage_advances {call : Call Key Row Query} {previous : Option Nat} {key : Key}
    {mutation : Mutation Row} {write : Write Key Row} (hturn : previous.all s.released = true)
    (hcall : call.mutation = some (key, mutation)) (h : s.Stages key mutation write) (answer : Answer) :
    Advances snapshot evaluate s call (.queued previous) (stage write answer) := by
  cases answer with
  | writeFails => exact .fail rfl nofun (fun _ h => Phase.queued.inj h ▸ hturn) nofun
  | _ => exact .stage hturn hcall h

theorem runMutation_advances {call : Call Key Row Query} {previous : Option Nat} {answer : Answer}
    (hturn : previous.all s.released = true) :
    Advances snapshot evaluate s call (.queued previous) (s.runMutation answer call) := by
  have hfail : Advances snapshot evaluate s call (.queued previous) ⟨.failed, none, none⟩ :=
    .fail rfl nofun (fun _ h => Phase.queued.inj h ▸ hturn) nofun
  cases call with
  | create key data =>
    rw [runMutation]
    rcases hbuffered : s.buffered.get? key with _ | _ | _ | _
    · exact stage_advances hturn rfl (.create hbuffered) answer
    · exact hfail
    · exact hfail
    · exact stage_advances hturn rfl (.recreate hbuffered) answer
  | update key data =>
    rw [runMutation]
    rcases hbuffered : s.buffered.get? key with _ | _ | _ | _
    · rcases hcached : s.cachedPointRead key with _ | _ | row
      · dsimp only
        split
        · exact hfail
        · exact .read hturn hbuffered
      · exact hfail
      · exact stage_advances hturn rfl (.updateRead hbuffered hcached) answer
    · exact stage_advances hturn rfl (.update hbuffered nofun) answer
    · exact stage_advances hturn rfl (.update hbuffered nofun) answer
    · exact hfail
  | delete key => exact stage_advances hturn rfl .delete answer
  | _ => exact hfail

theorem advance_eq_some {answer : Answer} {call : Call Key Row Query} {phase : Phase Key Row}
    {segment : Segment Key Row} (h : s.advance snapshot evaluate answer call phase = some segment) :
    Advances snapshot evaluate s call phase segment := by
  cases phase with
  | waiting rows tail key rest =>
    rw [advance, Option.ite_none_right_eq_some] at h
    cases h.2
    exact pointRead_advances
  | fetching rows key rest =>
    cases answer <;> cases h
    · exact .fetched
    · exact .fail rfl nofun nofun nofun
    · exact .fail rfl nofun nofun nofun
  | waitingAll pending =>
    rw [advance, Option.ite_none_right_eq_some] at h
    cases h.2
    cases hdirty : s.dirty with
    | true => exact .fail rfl nofun nofun nofun
    | false => exact .send hdirty
  | querying =>
    have hfail : Advances snapshot evaluate s call .querying ⟨.failed, none, none⟩ := .fail rfl nofun nofun nofun
    cases answer <;> cases call <;> cases h <;> first | exact .queried | exact hfail
  | queued previous =>
    rw [advance, Option.ite_none_right_eq_some] at h
    cases h.2
    exact runMutation_advances h.1
  | reading =>
    have hfail : Advances snapshot evaluate s call .reading ⟨.failed, none, none⟩ := .fail rfl nofun nofun nofun
    cases call with
    | update key data =>
      have hrow (row : Option Row) (hread : snapshot key = row) (other : Key) (row' : Option Row)
          (heq : some (key, row) = some (other, row')) : row' = snapshot other := by
        cases heq
        exact hread.symm
      cases answer with
      | readFails =>
        cases h
        exact hfail
      | ok =>
        cases hread : snapshot key with
        | none =>
          simp only [advance, hread, Option.some.injEq] at h
          exact h ▸ .fail rfl nofun nofun (hrow none hread)
        | some row =>
          simp only [advance, hread, Option.some.injEq] at h
          exact h ▸ .replace hread
      | writeFails =>
        cases hread : snapshot key with
        | none =>
          simp only [advance, hread, Option.some.injEq] at h
          exact h ▸ .fail rfl nofun nofun (hrow none hread)
        | some row =>
          simp only [advance, hread, Option.some.injEq] at h
          exact h ▸ .fail rfl nofun nofun (hrow (some row) hread)
    | _ =>
      cases answer <;> cases h
      exact hfail
  | written =>
    cases h
    exact .finish
  | _ => cases h

/-- The steps of the handle, by what they do. -/
inductive Stepped (snapshot : Key → Option Row) (evaluate : Query → (Key → Option Row) → List Row)
    (s : State Key Row Query) :
    List (Event (Call Key Row Query) (Result Row)) → State Key Row Query → Prop
  | start (call : Call Key Row Query) :
    Stepped snapshot evaluate s
      (.started s.calls.length call :: returnedIn s.calls.length (s.startPhase call)) (s.start call)
  | refuse (call : Call Key Row Query) :
    Stepped snapshot evaluate s [.started s.calls.length call] (s.refuse call)
  | segment {id : Nat} {call : Call Key Row Query} {phase : Phase Key Row} {segment : Segment Key Row}
    (hcall : s.calls[id]? = some (call, phase)) (h : Advances snapshot evaluate s call phase segment) :
    Stepped snapshot evaluate s (returnedIn id segment.phase) (s.perform id call segment)

theorem Performs.stepped {events : List (Event (Call Key Row Query) (Result Row))}
    (h : s.Performs snapshot evaluate events t) : Stepped snapshot evaluate s events t := by
  obtain ⟨action, h⟩ := h
  cases action with
  | start call =>
    cases h
    exact .start call
  | refuse call =>
    cases h
    exact .refuse call
  | resume id answer =>
    simp only [step, Option.bind_eq_bind, Option.bind_eq_some_iff, Option.some.injEq,
      Prod.mk.injEq] at h
    obtain ⟨⟨call, phase⟩, hcall, segment, hsegment, rfl, rfl⟩ := h
    exact .segment hcall (advance_eq_some hsegment)

theorem calls_perform {id : Nat} {call : Call Key Row Query} {phase : Phase Key Row}
    (hcall : s.calls[id]? = some (call, phase)) (segment : Segment Key Row) (id' : Nat) :
    (s.perform id call segment).calls[id']? =
      if id' = id then some (call, segment.phase) else s.calls[id']? := by
  obtain ⟨hlt, -⟩ := List.getElem?_eq_some_iff.mp hcall
  change (s.calls.set id (call, segment.phase))[id']? = _
  split <;> rename_i h
  · rw [h, List.getElem?_set_self hlt]
  · exact List.getElem?_set_ne (Ne.symm h)

/-! ## Queues -/

/-- Where a mutation in this phase stands in the queue of its key; a refused one is in none. -/
def stageOf : Phase Key Row → Option Stage
  | .queued previous => some (.queued previous)
  | .returned _ | .failed => some .settled
  | .refused => none
  | _ => some .working

/-- The queues of the mutations. -/
def queues (s : State Key Row Query) : Queues Key :=
  .ofCalls Call.mutates stageOf s.tails s.calls

/-- Mutations are queued by key in the order in which they started. -/
def Queued (s : State Key Row Query) : Prop := s.queues.Ordered

/-- A mutation of `key`, and its phase. -/
def On (s : State Key Row Query) (key : Key) (id : Nat) (phase : Phase Key Row) : Prop :=
  ∃ call, s.calls[id]? = some (call, phase) ∧ call.mutates = some key

omit [DecidableEq Key] in
theorem On.phase_eq {key : Key} {id : Nat} {phase : Phase Key Row} (h : s.On key id phase)
    {call : Call Key Row Query} {phase' : Phase Key Row} (hcall : s.calls[id]? = some (call, phase')) :
    phase = phase' ∧ call.mutates = some key := by
  obtain ⟨call', hcall', hkey⟩ := h
  cases hcall.symm.trans hcall'
  exact ⟨rfl, hkey⟩

omit [DecidableEq Key] in
theorem On.queues {key : Key} {id : Nat} {phase : Phase Key Row} (h : s.On key id phase) {st : Stage}
    (hstage : stageOf phase = some st) : s.queues.On key id st := by
  obtain ⟨call, hcall, hkey⟩ := h
  exact Queues.on_ofCalls.mpr ⟨call, phase, hcall, hkey, hstage⟩

omit [DecidableEq Key] in
theorem stage_of_settled {phase : Phase Key Row} {st : Stage} (hsettled : phase.isSettled = true)
    (h : stageOf phase = some st) : st = .settled := by
  cases phase with
  | returned => exact (Option.some.inj h).symm
  | failed => exact (Option.some.inj h).symm
  | refused => cases h
  | _ => cases hsettled

omit [DecidableEq Key] in
theorem stage_of_open {phase : Phase Key Row} (hopen : phase.isSettled = false) :
    ∃ st, stageOf phase = some st ∧ st ≠ .settled := by
  cases phase with
  | returned => cases hopen
  | failed => cases hopen
  | refused => cases hopen
  | _ =>
    refine ⟨_, rfl, ?_⟩
    exact Stage.noConfusion

omit [DecidableEq Key] in
theorem stage_of_left {phase : Phase Key Row} (hqueued : phase.isQueued = false)
    (hrefused : phase ≠ .refused) :
    stageOf phase = some (if phase.isSettled then .settled else .working) := by
  cases phase with
  | queued previous => cases hqueued
  | refused => exact absurd rfl hrefused
  | _ => rfl

/-- A phase in which a mutation of its key has the turn. -/
def Working (s : State Key Row Query) : Phase Key Row → Prop
  | .queued previous => previous.all s.released = true
  | .reading | .written => True
  | _ => False

omit [DecidableEq Key] in
theorem turn_of_released {previous : Option Nat} (h : previous.all s.released = true) :
    s.queues.Turn previous := by
  apply Queues.turn_ofCalls
  rintro last call phase rfl hcall st hst
  rw [Option.all_some, released, hcall, Option.all_some] at h
  exact stage_of_settled h hst

omit [DecidableEq Key] in
theorem active_of_working {key : Key} {id : Nat} {phase : Phase Key Row} (h : s.On key id phase)
    (hworking : s.Working phase) : s.queues.Active key id := by
  cases phase with
  | queued previous => exact .turn (h.queues rfl) (turn_of_released hworking)
  | reading => exact .working (h.queues rfl)
  | written => exact .working (h.queues rfl)
  | _ => exact hworking.elim

/-- Before a mutation that has left its queue, the earlier ones of its key have settled. -/
theorem Queued.ordered (hs : s.Queued) {key : Key} {c d : Nat} {p q : Phase Key Row}
    (hc : s.On key c p) (hd : s.On key d q) (hlt : c < d) (hqueued : q.isQueued = false)
    (hrefused : q ≠ .refused) : p.isSettled = true := by
  by_contra hopen
  obtain ⟨st, hst, hne⟩ := stage_of_open (Bool.not_eq_true _ ▸ hopen)
  have hleft : ∀ previous, (if q.isSettled then Stage.settled else .working) ≠ .queued previous := by
    intro previous
    split <;> exact Stage.noConfusion
  exact hne (Queues.Ordered.ordered hs (hc.queues hst) (hd.queues (stage_of_left hqueued hrefused)) hlt
    hleft)

/-- One mutation of a key works at a time. -/
theorem Queued.alone (hs : s.Queued) {key : Key} {c d : Nat} {p q : Phase Key Row} (hc : s.On key c p)
    (hd : s.On key d q) (hp : s.Working p) (hne : c ≠ d) : q.isSettled = true ∨ q.isQueued = true := by
  by_contra hneither
  rw [not_or, Bool.not_eq_true, Bool.not_eq_true] at hneither
  have hworking : stageOf q = some .working := by
    rw [stage_of_left hneither.2, hneither.1, if_neg Bool.false_ne_true]
    rintro rfl
    cases hneither.1
  exact hne (Queues.Ordered.alone hs (active_of_working hc hp) (.working (hd.queues hworking)))

/-! ## Steps -/

omit [DecidableEq Key] in
theorem on_snoc {call : Call Key Row Query}
    {phase : Phase Key Row} (hs : t.calls = s.calls ++ [(call, phase)]) {key : Key} {id : Nat}
    {p : Phase Key Row} : t.On key id p ↔
      if id = s.calls.length then call.mutates = some key ∧ p = phase else s.On key id p := by
  rw [On, hs]
  simp only [getElem?_snoc]
  split
  · constructor
    · rintro ⟨call', h, hkey⟩
      cases h
      exact ⟨hkey, rfl⟩
    · rintro ⟨hkey, rfl⟩
      exact ⟨call, rfl, hkey⟩
  · rfl

theorem on_perform {id : Nat} {call : Call Key Row Query} {phase : Phase Key Row}
    (hcall : s.calls[id]? = some (call, phase)) (segment : Segment Key Row) {key : Key} {id' : Nat}
    {p : Phase Key Row} : (s.perform id call segment).On key id' p ↔
      if id' = id then call.mutates = some key ∧ p = segment.phase else s.On key id' p := by
  rw [On]
  simp only [calls_perform hcall]
  split
  · constructor
    · rintro ⟨call', h, hkey⟩
      cases h
      exact ⟨hkey, rfl⟩
    · rintro ⟨hkey, rfl⟩
      exact ⟨call, rfl, hkey⟩
  · rfl

theorem startPhase_of_mutates {call : Call Key Row Query} {key : Key} (h : call.mutates = some key) :
    s.startPhase call = .queued (s.tails.get? key) := by
  cases call <;> cases h <;> rfl

theorem Advances.open {call : Call Key Row Query} {phase : Phase Key Row} {segment : Segment Key Row}
    (h : Advances snapshot evaluate s call phase segment) : phase.isSettled = false := by
  cases h with
  | fail hopen => exact hopen
  | _ => rfl

/-- A mutation that leaves its queue has the turn. -/
theorem Advances.turn {call : Call Key Row Query} {previous : Option Nat} {segment : Segment Key Row}
    (h : Advances snapshot evaluate s call (.queued previous) segment) :
    previous.all s.released = true := by
  cases h with
  | stage hturn => exact hturn
  | read hturn => exact hturn
  | fail _ _ hturn => exact hturn previous rfl

theorem readNext_not_queued {call : Call Key Row Query} {rows : List (Option Row)} {rest : List Key} :
    (s.readNext call rows rest).isQueued = false ∧ s.readNext call rows rest ≠ .refused := by
  cases rest <;> exact ⟨rfl, nofun⟩

theorem Advances.left {call : Call Key Row Query} {phase : Phase Key Row} {segment : Segment Key Row}
    (h : Advances snapshot evaluate s call phase segment) :
    segment.phase.isQueued = false ∧ segment.phase ≠ .refused := by
  cases h with
  | found => exact readNext_not_queued
  | fetched => exact readNext_not_queued
  | _ => exact ⟨rfl, nofun⟩

theorem Advances.active {id : Nat} {call : Call Key Row Query} {phase : Phase Key Row}
    {segment : Segment Key Row} (h : Advances snapshot evaluate s call phase segment)
    (hcall : s.calls[id]? = some (call, phase)) {key : Key} (hkey : call.mutates = some key) :
    s.queues.Active key id := by
  have hon : s.On key id phase := ⟨call, hcall, hkey⟩
  have hopen := h.open
  cases phase with
  | queued previous => exact .turn (hon.queues rfl) (turn_of_released h.turn)
  | returned => cases hopen
  | failed => cases hopen
  | refused => cases hopen
  | _ => exact .working (hon.queues rfl)

/-- A segment moves its mutation on in the queue, and nothing else. -/
theorem queues_perform {id : Nat} {call : Call Key Row Query} {phase : Phase Key Row}
    {segment : Segment Key Row} (hcall : s.calls[id]? = some (call, phase))
    (h : Advances snapshot evaluate s call phase segment) :
    s.queues.Step (s.perform id call segment).queues := by
  have htails : (s.perform id call segment).tails =
      Queues.release s.tails call.mutates id segment.phase.isSettled := by
    rw [perform]
    cases call.mutates <;> rfl
  have hstep := Queues.step_set hcall (fun _ hkey => h.active hcall hkey)
    (stage_of_left h.left.1 h.left.2)
  rwa [← htails] at hstep

theorem queues_start (call : Call Key Row Query) : s.queues.Step (s.start call).queues := by
  rw [queues, start]
  cases hmutates : call.mutates with
  | none => exact Queues.step_pass (Or.inl hmutates)
  | some key =>
    apply Queues.step_join hmutates
    rw [startPhase_of_mutates hmutates]
    rfl

theorem queues_refuse (call : Call Key Row Query) : s.queues.Step (s.refuse call).queues :=
  Queues.step_pass (Or.inr rfl)

theorem Queued.initial : (initial : State Key Row Query).Queued := Queues.Ordered.empty

theorem Queued.step (hs : s.Queued) {events : List (Event (Call Key Row Query) (Result Row))}
    (h : Stepped snapshot evaluate s events t) : t.Queued := by
  apply Queues.Ordered.step hs
  cases h with
  | start call => exact queues_start call
  | refuse call => exact queues_refuse call
  | segment hcall h => exact queues_perform hcall h

end State

end ActiveTs.Firestore
