import ActiveTs.Firestore.Buffer

/-! # Firestore transactions are linearizable

A run of the handle that commits has an order of its operations in which each gives the result that it
gives on a private copy, and that leaves what is committed. A point read takes effect when it decides where
to read, a mutation when it is buffered. -/

namespace ActiveTs.Firestore

open Histories

universe u

variable {Key Row Query : Type u} [DecidableEq Key] {snapshot : Key → Option Row}
  {evaluate : Query → (Key → Option Row) → List Row} {s t : State Key Row Query}

/-! ## Operations -/

namespace Op

def mutates : Op Key Row Query → Option Key
  | mutate key _ => some key
  | _ => none

end Op

theorem direct_of_read {contents contents' : Key → Option Row} {op : Op Key Row Query}
    (hop : op.mutates = none) (h : Direct evaluate contents op contents') :
    contents' = contents := by
  cases h <;> first | rfl | cases hop

/-- The reads of a call that has read `rows`. -/
def readsOf (call : Call Key Row Query) (rows : List (Option Row)) : List (Op Key Row Query) :=
  (call.keys.zip rows).map fun read => .get read.1 read.2

/-- The operations of a call so far. -/
def soFar (snapshot : Key → Option Row) (evaluate : Query → (Key → Option Row) → List Row)
    (call : Call Key Row Query) : Phase Key Row → List (Op Key Row Query)
  | .waiting rows _ _ _ => readsOf call rows
  | .fetching rows key _ => readsOf call (rows ++ [snapshot key])
  | .querying =>
    match call with
    | .query query => [.query query (evaluate query snapshot)]
    | _ => []
  | .returned result => operations call result
  | _ => []

omit [DecidableEq Key] in
theorem readsOf_snoc {call : Call Key Row Query} {rows : List (Option Row)} {key : Key}
    {rest : List Key} (h : call.keys.drop rows.length = key :: rest) (row : Option Row) :
    readsOf call (rows ++ [row]) = readsOf call rows ++ [.get key row] := by
  have hlength : (call.keys.take rows.length).length = rows.length := by
    have hlt := congrArg List.length h
    rw [List.length_drop, List.length_cons] at hlt
    rw [List.length_take]
    omega
  have hkeys : call.keys = call.keys.take rows.length ++ key :: rest := by
    rw [← h, List.take_append_drop]
  have hzip : (call.keys.take rows.length ++ key :: rest).zip (rows ++ []) = _ :=
    List.zip_append hlength
  rw [List.append_nil, ← hkeys, List.zip_nil_right, List.append_nil] at hzip
  rw [readsOf, readsOf, hzip]
  conv_lhs => rw [hkeys]
  rw [List.zip_append hlength, List.map_append, List.zip_cons_cons, List.zip_nil_right]
  rfl

theorem soFar_readNext {call : Call Key Row Query} {rows : List (Option Row)} {rest : List Key}
    (h : call.keys.drop rows.length = rest) :
    soFar snapshot evaluate call (s.readNext call rows rest) = readsOf call rows := by
  cases rest with
  | cons key rest => rfl
  | nil =>
    cases call with
    | get key =>
      cases rows with
      | nil => cases h
      | cons row rows =>
        cases row <;> rfl
    | _ => rfl

theorem soFar_startPhase (call : Call Key Row Query) :
    soFar snapshot evaluate call (s.startPhase call) = [] := by
  cases call with
  | getMany keys =>
    cases keys <;> rfl
  | _ => rfl

omit [DecidableEq Key] in
theorem mutates_of_operations {call : Call Key Row Query} {result : Result Row}
    {op : Op Key Row Query} (h : op ∈ operations call result) {key : Key}
    (hop : op.mutates = some key) : call.mutates = some key := by
  cases call with
  | getMany keys =>
    cases result with
    | rows rows =>
      obtain ⟨read, -, rfl⟩ := List.mem_map.mp h
      cases hop
    | _ => cases h
  | _ =>
    cases result <;> first
    | cases h; done
    | obtain rfl := List.mem_singleton.mp h
      exact hop

/-! ## Logs -/

omit [DecidableEq Key] in
/-- What a call that is open has done so far are reads. -/
theorem mutates_soFar {call : Call Key Row Query} {phase : Phase Key Row}
    (hopen : ∀ result, phase ≠ .returned result) {op : Op Key Row Query}
    (h : op ∈ soFar snapshot evaluate call phase) : op.mutates = none := by
  cases phase with
  | waiting rows tail key rest =>
    obtain ⟨read, -, rfl⟩ := List.mem_map.mp h
    rfl
  | fetching rows key rest =>
    obtain ⟨read, -, rfl⟩ := List.mem_map.mp h
    rfl
  | querying =>
    cases call with
    | query query =>
      rw [List.mem_singleton.mp h]
      rfl
    | _ => cases h
  | returned result => exact absurd rfl (hopen result)
  | _ => cases h

/-- The calls of a transaction, by what they have done. -/
def view (snapshot : Key → Option Row) (evaluate : Query → (Key → Option Row) → List Row) :
    View (Call Key Row Query) (Phase Key Row) (Result Row) (Op Key Row Query) where
  result
    | .returned result => some result
    | _ => none
  done call
    | .failed => none
    | phase => some (soFar snapshot evaluate call phase)
  reads op := op.mutates = none

omit [DecidableEq Key] in
theorem returnedIn_view (id : Nat) (phase : Phase Key Row) :
    (State.returnedIn id phase : List (Event (Call Key Row Query) (Result Row))) =
      (view snapshot evaluate).returnedIn id phase := by
  cases phase <;> rfl

omit [DecidableEq Key] in
theorem done_of_ne {phase : Phase Key Row} (h : phase ≠ .failed) (call : Call Key Row Query) :
    (view snapshot evaluate).done call phase = some (soFar snapshot evaluate call phase) := by
  cases phase with
  | failed => exact absurd rfl h
  | _ => rfl

omit [DecidableEq Key] in
theorem result_of_open {phase : Phase Key Row} (hopen : phase.isSettled = false) :
    (view snapshot evaluate).result phase = none := by
  cases phase with
  | returned => cases hopen
  | _ => rfl

omit [DecidableEq Key] in
theorem done_of_open {phase : Phase Key Row} (hopen : phase.isSettled = false)
    (call : Call Key Row Query) :
    (view snapshot evaluate).done call phase = some (soFar snapshot evaluate call phase) := by
  apply done_of_ne
  rintro rfl
  cases hopen

namespace State

/-- The operations of the calls in the order in which they took effect. -/
structure Logged (snapshot : Key → Option Row) (evaluate : Query → (Key → Option Row) → List Row)
    (s : State Key Row Query) (events : List (Event (Call Key Row Query) (Result Row)))
    (log : List (Entry (Op Key Row Query))) : Prop where
  calls : Histories.Logged (view snapshot evaluate) s.calls events log
  legal : ∀ {m}, applyStaged snapshot s.staged = some m →
    Steps (Direct evaluate) snapshot (log.map Entry.op) (s.content snapshot)
  inTurn : log.Pairwise fun e e' => ∀ key, e.op.mutates = some key → e'.op.mutates = some key →
    e.call < e'.call

theorem Logged.initial :
    Logged snapshot evaluate (initial : State Key Row Query) [] [] where
  calls := .nil
  legal _ := .nil
  inTurn := .nil

variable {events : List (Event (Call Key Row Query) (Result Row))} {log : List (Entry (Op Key Row Query))}

/-- A mutation in the log is that of a call that returned. -/
theorem Logged.mutated (h : Logged snapshot evaluate s events log) {e : Entry (Op Key Row Query)}
    (he : e ∈ log) {key : Key} (hkey : e.op.mutates = some key) :
    ∃ result, s.On key e.call (.returned result) := by
  obtain ⟨call, phase, hcall, hread | ⟨ops, hdone, hop⟩⟩ := h.calls.of_mem he
  · cases hread.symm.trans hkey
  · have hops : e.op ∈ soFar snapshot evaluate call phase := by
      cases phase with
      | failed => cases hdone
      | _ =>
        cases hdone
        exact hop
    cases phase with
    | returned result => exact ⟨result, call, hcall, mutates_of_operations hops hkey⟩
    | _ =>
      rw [mutates_soFar (by rintro _ ⟨⟩) hops] at hkey
      cases hkey

/-- A call that starts. -/
theorem Logged.snoc (h : Logged snapshot evaluate s events log) {call : Call Key Row Query}
    {phase : Phase Key Row} (hcalls : t.calls = s.calls ++ [(call, phase)])
    (hbuffered : t.buffered = s.buffered) (hstaged : t.staged = s.staged) (hphase : phase ≠ .failed)
    (heffects : soFar snapshot evaluate call phase = []) :
    Logged snapshot evaluate t (events ++ .started s.calls.length call ::
      returnedIn s.calls.length phase) log := by
  refine ⟨?_, fun {m} hm => ?_, h.inTurn⟩
  · rw [hcalls, returnedIn_view]
    exact h.calls.start ((done_of_ne hphase call).trans (congrArg some heffects))
  · have hcontent : t.content snapshot = s.content snapshot := by
      funext key
      rw [content, content, bufferedRow, bufferedRow, hbuffered]
    rw [hcontent]
    rw [hstaged] at hm
    exact h.legal hm

/-- A segment that takes effect at most once. -/
theorem Logged.perform (h : Logged snapshot evaluate s events log) {id : Nat}
    {call : Call Key Row Query} {phase : Phase Key Row} (hcall : s.calls[id]? = some (call, phase))
    {segment : Segment Key Row} (hopen : phase.isSettled = false) (op : Option (Op Key Row Query))
    (hlegal : ∀ {m}, applyStaged snapshot s.staged = some m →
      Steps (Direct evaluate) (s.content snapshot) op.toList
        ((s.perform id call segment).content snapshot))
    (heffects : segment.phase ≠ .failed →
      soFar snapshot evaluate call segment.phase = soFar snapshot evaluate call phase ++ op.toList)
    (hfailed : segment.phase = .failed → op = none)
    (hturn : ∀ key, op.bind Op.mutates = some key → ∀ e ∈ log, e.op.mutates = some key → e.call < id) :
    Logged snapshot evaluate (s.perform id call segment) (events ++ returnedIn id segment.phase)
      (log ++ op.toList.map (⟨id, ·⟩)) := by
  refine ⟨?_, fun {m} hm => ?_, ?_⟩
  · rw [returnedIn_view]
    apply h.calls.advance hcall (result_of_open hopen) (done_of_open hopen call)
    by_cases hphase : segment.phase = .failed
    · rw [hphase]
      refine Or.inr ⟨rfl, hfailed hphase, fun _ hop => ?_⟩
      apply mutates_soFar _ hop
      rintro _ rfl
      cases hopen
    · exact Or.inl ((done_of_ne hphase call).trans (congrArg some (heffects hphase)))
  · change applyStaged snapshot (s.staged ++ segment.staged.toList) = some m at hm
    obtain ⟨m', hm', -⟩ := applyStaged_append.mp hm
    have hops : (op.toList.map (Entry.mk id)).map Entry.op = op.toList := by
      cases op <;> rfl
    rw [List.map_append, hops]
    exact (h.legal hm').trans (hlegal hm')
  · apply List.pairwise_append.mpr
    refine ⟨h.inTurn, ?_, fun e he e' he' key hkey hkey' => ?_⟩
    · cases op with
      | none => exact .nil
      | some op => exact List.pairwise_singleton ..
    · cases op with
      | none => cases he'
      | some op =>
        cases List.mem_singleton.mp he'
        exact hturn key hkey' e he hkey

/-- A segment in which a call takes no effect. -/
theorem Logged.silent (h : Logged snapshot evaluate s events log) {id : Nat} {call : Call Key Row Query}
    {phase : Phase Key Row} (hcall : s.calls[id]? = some (call, phase)) {segment : Segment Key Row}
    (hopen : phase.isSettled = false)
    (hcontent : (s.perform id call segment).content snapshot = s.content snapshot)
    (heffects : segment.phase ≠ .failed →
      soFar snapshot evaluate call segment.phase = soFar snapshot evaluate call phase) :
    ∃ log', Logged snapshot evaluate (s.perform id call segment)
      (events ++ returnedIn id segment.phase) log' := by
  refine ⟨_, h.perform hcall hopen none ?_ ?_ (fun _ => rfl) (by rintro _ ⟨⟩)⟩
  · intro m _
    rw [hcontent]
    exact .nil
  · intro hphase
    rw [heffects hphase, Option.toList_none, List.append_nil]

/-- A segment in which a call reads what is shown. -/
theorem Logged.reads (h : Logged snapshot evaluate s events log) {id : Nat} {call : Call Key Row Query}
    {phase : Phase Key Row} (hcall : s.calls[id]? = some (call, phase)) {segment : Segment Key Row}
    (hopen : phase.isSettled = false)
    (hcontent : (s.perform id call segment).content snapshot = s.content snapshot)
    {op : Op Key Row Query} (hop : Direct evaluate (s.content snapshot) op (s.content snapshot))
    (hread : op.mutates = none) (heffects : soFar snapshot evaluate call segment.phase =
      soFar snapshot evaluate call phase ++ [op]) (hphase : segment.phase ≠ .failed) :
    ∃ log', Logged snapshot evaluate (s.perform id call segment)
      (events ++ returnedIn id segment.phase) log' := by
  refine ⟨_, h.perform hcall hopen (some op) ?_ (fun _ => heffects) (fun h => absurd h hphase) ?_⟩
  · intro m _
    rw [hcontent]
    exact .single hop
  · intro key hkey
    cases hread.symm.trans hkey

/-! ## Steps -/

theorem readNext_ne_failed {call : Call Key Row Query} {rows : List (Option Row)} {rest : List Key} :
    s.readNext call rows rest ≠ .failed := by
  cases rest <;> (intro h; cases h)

theorem startPhase_ne_failed (call : Call Key Row Query) : s.startPhase call ≠ .failed := by
  cases call with
  | get key => exact @readNext_ne_failed _ _ _ _ s (.get key) [] [key]
  | getMany keys => exact @readNext_ne_failed _ _ _ _ s (.getMany keys) [] keys
  | _ =>
    intro h
    cases h

theorem Logged.segment (h : Logged snapshot evaluate s events log) (hs : s.Sound snapshot)
    (hq : s.Queued) {id : Nat} {call : Call Key Row Query} {phase : Phase Key Row}
    (hcall : s.calls[id]? = some (call, phase)) {segment : Segment Key Row}
    (hadvances : Advances snapshot evaluate s call phase segment) :
    ∃ log', Logged snapshot evaluate (s.perform id call segment)
      (events ++ returnedIn id segment.phase) log' := by
  have hfits := hs.fits hcall
  have hopen := hadvances.open
  -- The rows that are shown change only where a mutation is buffered.
  have hsame (hbuffer : call.mutation = none ∨ ∀ result, segment.phase ≠ .returned result) :
      (s.perform id call segment).content snapshot = s.content snapshot := by
    funext key
    rw [content, content, bufferedRow, bufferedRow, buffered_perform hbuffer]
  cases hadvances with
  | @found _ rows tail key rest row hfinds =>
    have hop : Direct evaluate (s.content snapshot) (.get key row) (s.content snapshot) := by
      rw [← hs.finds hfinds]
      exact .get _ key
    apply h.reads hcall hopen (hsame (Or.inl hfits.1)) hop rfl
    · rw [soFar_readNext (drop_snoc hfits.2 _)]
      exact readsOf_snoc hfits.2 _
    · exact readNext_ne_failed
  | @fetch _ rows tail key rest hclean =>
    apply h.reads hcall hopen (hsame (Or.inl hfits.1)) (.get _ key) rfl
    · rw [hs.content_eq hclean]
      exact readsOf_snoc hfits.2 _
    · intro hphase
      cases hphase
  | @fetched _ rows key rest =>
    apply h.silent hcall hopen (hsame (Or.inl hfits.1))
    intro _
    exact soFar_readNext (drop_snoc hfits.2 _)
  | @send call pending hclean =>
    have hcontent := hsame (Or.inl hfits)
    cases call with
    | query query =>
      apply h.reads hcall hopen hcontent (.query _ query) rfl
      · rw [hs.content_eq hclean]
        rfl
      · intro hphase
        cases hphase
    | _ => exact h.silent hcall hopen hcontent fun _ => rfl
  | queried => exact h.silent hcall hopen (hsame (Or.inl rfl)) fun _ => rfl
  | stage => exact h.silent hcall hopen (hsame (Or.inr (by rintro _ ⟨⟩))) fun _ => rfl
  | read => exact h.silent hcall hopen (hsame (Or.inr (by rintro _ ⟨⟩))) fun _ => rfl
  | replace => exact h.silent hcall hopen (hsame (Or.inr (by rintro _ ⟨⟩))) fun _ => rfl
  | finish =>
    obtain ⟨⟨key, mutation⟩, hmutation⟩ := Option.ne_none_iff_exists'.mp hfits
    have hkey : call.mutates = some key := congrArg (Option.map Prod.fst) hmutation
    refine ⟨_, h.perform hcall hopen (some (.mutate key mutation)) ?_ ?_ (by rintro ⟨⟩) ?_⟩
    · intro m hm
      rw [(hs.finish hq hcall hmutation).2]
      exact .single (direct_mutate ((hs.staged hm).pending ⟨call, hcall, hmutation⟩).2)
    · intro _
      cases call <;> cases hmutation <;> rfl
    · intro key' hkey' e he hmutates
      cases hkey'
      obtain ⟨result, hon⟩ := h.mutated he hmutates
      by_contra hle
      rcases Nat.lt_or_eq_of_le (Nat.not_lt.mp hle) with hlt | heq
      · cases hq.ordered ⟨call, hcall, hkey⟩ hon hlt rfl (by rintro ⟨⟩)
      · obtain ⟨hphase, -⟩ := hon.phase_eq (heq ▸ hcall)
        cases hphase
  | fail hunsettled hunwritten hturn hread =>
    exact h.silent hcall hopen (hsame (Or.inr (by rintro _ ⟨⟩))) fun hne => absurd rfl hne

theorem Logged.step (h : Logged snapshot evaluate s events log) (hs : s.Sound snapshot) (hq : s.Queued)
    {new : List (Event (Call Key Row Query) (Result Row))} (hstep : Stepped snapshot evaluate s new t) :
    ∃ log', Logged snapshot evaluate t (events ++ new) log' := by
  cases hstep with
  | start call => exact ⟨log, h.snoc rfl rfl rfl (startPhase_ne_failed call) (soFar_startPhase call)⟩
  | refuse call =>
    exact ⟨log, @Logged.snoc _ _ _ _ _ _ _ _ _ _ h call .refused rfl rfl rfl (by rintro ⟨⟩) rfl⟩
  | segment hcall hadvances => exact h.segment hs hq hcall hadvances

/-- What holds in every state of a run. -/
structure Reached (snapshot : Key → Option Row) (evaluate : Query → (Key → Option Row) → List Row)
    (s : State Key Row Query) (events : List (Event (Call Key Row Query) (Result Row))) : Prop where
  queued : s.Queued
  sound : s.Sound snapshot
  logged : ∃ log, Logged snapshot evaluate s events log

theorem reached {labels : List (List (Event (Call Key Row Query) (Result Row)))}
    (h : Steps (State.Performs snapshot evaluate) (initial : State Key Row Query) labels s) :
    Reached snapshot evaluate s labels.flatten := by
  apply Steps.history (P := fun s labels => Reached snapshot evaluate s labels.flatten) _ h
  · exact ⟨.initial, .initial, [], .initial⟩
  · intro s labels new t hs hperforms
    have hstepped := hperforms.stepped
    obtain ⟨log, hlog⟩ := hs.logged
    rw [List.flatten_append, List.flatten_singleton]
    exact ⟨hs.queued.step hstepped, hs.sound.step hs.queued hstepped,
      hlog.step hs.sound hs.queued hstepped⟩

end State

/-! ## Commit -/

/-- A run that commits is linearizable, with one read for each key of a `getMany`; the mutations of a key
keep the order in which they were called. -/
theorem commit_linearizes {labels : List (List (Event (Call Key Row Query) (Result Row)))}
    (h : Steps (State.Performs snapshot evaluate) (State.initial : State Key Row Query) labels s)
    {contents : Key → Option Row} (hcommit : s.commit snapshot = some contents) :
    ∃ order : List (Entry (Op Key Row Query)),
      Linearizes operations (Direct evaluate) labels.flatten snapshot order contents ∧
        order.Pairwise fun e e' => ∀ key, e.op.mutates = some key → e'.op.mutates = some key →
          e.call < e'.call := by
  obtain ⟨hq, hs, log, hlog⟩ := State.reached h
  rw [State.commit, Option.ite_none_right_eq_some, List.all_eq_true] at hcommit
  obtain ⟨hsettled, hstaged⟩ := hcommit
  have hcontents : contents = s.content snapshot := by
    funext key
    apply (hs.staged hstaged).shown
    rintro id mutation ⟨call, hcall, -⟩
    cases hsettled _ (List.mem_of_getElem? hcall)
  have hlinearizes : Linearizes operations (Direct evaluate) labels.flatten snapshot
      (log.filter fun e => Logged.hasReturned (view snapshot evaluate) s.calls e.call) contents := by
    rw [hcontents]
    apply hlog.calls.linearizes (hlog.legal hstaged)
    · exact fun hread hdirect => direct_of_read hread hdirect
    · intro call phase result hresult
      cases phase <;> cases hresult
      rfl
    · intro _ call phase ops _ hopen hops op hop
      have hne : ∀ result, phase ≠ .returned result := by
        rintro result rfl
        cases hopen
      apply mutates_soFar hne
      cases phase with
      | failed => cases hops
      | _ =>
        cases hops
        exact hop
  exact ⟨_, hlinearizes, hlog.inTurn.filter _⟩

/-- A `create` and a `getMany` that starts while the write is staged. -/
theorem commit_linearizes_create :
    ∃ (labels : List (List (Event (Call Bool Nat Unit) (Result Nat)))) (contents : Bool → Option Nat)
      (order : List (Entry (Op Bool Nat Unit))),
      [.returned 1 (.rows [some 7])] ∈ labels ∧
        Linearizes operations (Direct fun _ _ => []) labels.flatten (fun _ => none) order contents ∧
          order.Pairwise fun e e' => ∀ key, e.op.mutates = some key → e'.op.mutates = some key →
            e.call < e'.call := by
  obtain ⟨s, h, contents, hcommit⟩ : ∃ s : State Bool Nat Unit,
      Steps (State.Performs (fun _ => none) fun _ _ => []) State.initial
        [[.started 0 (.create true 7)], [], [.started 1 (.getMany [true])], [.returned 0 .done],
          [.returned 1 (.rows [some 7])]] s ∧
        ∃ contents, s.commit (fun _ => none) = some contents :=
    ⟨_, @steps_of_performAll _ _ _ (fun s => State.step s (fun _ => none) fun _ _ => []) _ _
      [.start (.create true 7), .resume 0 .ok, .start (.getMany [true]), .resume 0 .ok, .resume 1 .ok] _
      rfl, _, rfl⟩
  obtain ⟨order, horder⟩ := commit_linearizes h hcommit
  exact ⟨_, contents, order, by simp, horder⟩

end ActiveTs.Firestore
