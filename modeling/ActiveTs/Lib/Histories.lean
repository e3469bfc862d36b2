import ActiveTs.Lib.Steps

/-! # Histories of calls and their linearizations

Calls overlap; a history says when each one started and what it returned. An order of the operations that
took effect linearizes it where it could have been performed one operation at a time, and where it keeps
calls apart that did not overlap. A system whose calls each take effect at certain of their steps keeps a log
of these, which linearizes its history. -/

namespace Histories

universe u v w x y

variable {Call : Type u} {Result : Type v} {Op : Type w} {M : Type x}

theorem getElem?_snoc {α : Type u} (items : List α) (item : α) (n : Nat) :
    (items ++ [item])[n]? = if n = items.length then some item else items[n]? := by
  split <;> rename_i h
  · rw [h, List.getElem?_concat_length]
  · rcases Nat.lt_or_gt_of_ne h with hlt | hgt
    · exact List.getElem?_append_left hlt
    · rw [List.getElem?_eq_none (by rw [List.length_append, List.length_singleton]; omega),
        List.getElem?_eq_none (by omega)]

theorem lt_of_getElem? {α : Type u} {items : List α} {item : α} {n : Nat} (h : items[n]? = some item) :
    n < items.length :=
  (List.getElem?_eq_some_iff.mp h).1

inductive Event (Call : Type u) (Result : Type v)
  | started (id : Nat) (call : Call)
  | returned (id : Nat) (result : Result)

/-- An operation, and the call that it belongs to. -/
structure Entry (Op : Type w) where
  call : Nat
  op : Op

/-- The operations of one call, in order. -/
def opsOf (id : Nat) (order : List (Entry Op)) : List Op :=
  (order.filter (·.call = id)).map Entry.op

@[simp] theorem opsOf_nil (id : Nat) : opsOf id ([] : List (Entry Op)) = [] := rfl

@[simp] theorem opsOf_append (id : Nat) (order order' : List (Entry Op)) :
    opsOf id (order ++ order') = opsOf id order ++ opsOf id order' := by
  rw [opsOf, opsOf, opsOf, List.filter_append, List.map_append]

@[simp] theorem opsOf_single_self (id : Nat) (op : Op) : opsOf id [⟨id, op⟩] = [op] := by
  simp [opsOf]

theorem opsOf_single_of_ne {id id' : Nat} (h : id' ≠ id) (op : Op) : opsOf id [⟨id', op⟩] = [] := by
  simp [opsOf, h]

theorem mem_opsOf {id : Nat} {op : Op} {order : List (Entry Op)} :
    op ∈ opsOf id order ↔ ⟨id, op⟩ ∈ order := by
  simp only [opsOf, List.mem_map, List.mem_filter, decide_eq_true_eq]
  constructor
  · rintro ⟨⟨call, op⟩, ⟨hmem, rfl⟩, rfl⟩
    exact hmem
  · exact fun hmem => ⟨_, ⟨hmem, rfl⟩, rfl⟩

/-! ## Real time -/

/-- The call `c` had returned when the call `d` started. -/
def ReturnedBefore (events : List (Event Call Result)) (c d : Nat) : Prop :=
  ∃ earlier result call later, .returned c result ∈ earlier ∧
    events = earlier ++ .started d call :: later

theorem returnedBefore_snoc {events : List (Event Call Result)} {e : Event Call Result} {c d : Nat} :
    ReturnedBefore (events ++ [e]) c d ↔ ReturnedBefore events c d ∨
      (∃ call, e = .started d call) ∧ ∃ result, .returned c result ∈ events := by
  constructor
  · rintro ⟨earlier, result, call, later, hmem, h⟩
    cases later using List.reverseRecOn with
    | nil =>
      obtain ⟨rfl, he⟩ := List.append_inj' h rfl
      exact Or.inr ⟨⟨call, List.singleton_inj.mp he⟩, result, hmem⟩
    | append_singleton later last =>
      rw [← List.cons_append, ← List.append_assoc] at h
      obtain ⟨rfl, -⟩ := List.append_inj' h rfl
      exact Or.inl ⟨earlier, result, call, later, hmem, rfl⟩
  · rintro (⟨earlier, result, call, later, hmem, rfl⟩ | ⟨⟨call, rfl⟩, result, hmem⟩)
    · refine ⟨earlier, result, call, later ++ [e], hmem, ?_⟩
      rw [List.append_assoc, List.cons_append]
    · exact ⟨events, result, call, [], hmem, rfl⟩

theorem ReturnedBefore.returned {events : List (Event Call Result)} {c d : Nat}
    (h : ReturnedBefore events c d) : ∃ result, .returned c result ∈ events := by
  obtain ⟨earlier, result, call, later, hmem, rfl⟩ := h
  exact ⟨result, List.mem_append_left _ hmem⟩

/-- No operation comes in front of one of a call that had returned when its own call started. -/
def InRealTime (events : List (Event Call Result)) (order : List (Entry Op)) : Prop :=
  order.Pairwise fun e e' => ¬ReturnedBefore events e'.call e.call

namespace InRealTime
variable {events : List (Event Call Result)} {order : List (Entry Op)}

theorem nil : InRealTime events ([] : List (Entry Op)) := List.Pairwise.nil

theorem filter (h : InRealTime events order) (p : Entry Op → Bool) :
    InRealTime events (order.filter p) :=
  List.Pairwise.filter p h

/-- A call that starts has no operations yet. -/
theorem started (h : InRealTime events order) {id : Nat} (call : Call) (hnew : ∀ e ∈ order, e.call ≠ id) :
    InRealTime (events ++ [.started id call]) order := by
  apply List.Pairwise.imp_of_mem _ h
  intro e e' he _ hreal hbefore
  rcases returnedBefore_snoc.mp hbefore with hbefore | ⟨⟨_, hstart⟩, -⟩
  · exact hreal hbefore
  · cases hstart
    exact hnew e he rfl

theorem returned (h : InRealTime events order) (id : Nat) (result : Result) :
    InRealTime (events ++ [.returned id result]) order := by
  apply List.Pairwise.imp _ h
  intro e e' hreal hbefore
  rcases returnedBefore_snoc.mp hbefore with hbefore | ⟨⟨_, hstart⟩, -⟩
  · exact hreal hbefore
  · cases hstart

/-- A call takes effect before it returns. -/
theorem append (h : InRealTime events order) {id : Nat} (op : Op)
    (hopen : ∀ result, .returned id result ∉ events) : InRealTime events (order ++ [⟨id, op⟩]) := by
  apply List.pairwise_append.mpr
  refine ⟨h, List.pairwise_singleton .., fun e _ e' he' hbefore => ?_⟩
  cases List.mem_singleton.mp he'
  obtain ⟨result, hmem⟩ := hbefore.returned
  exact hopen result hmem

end InRealTime

/-! ## Linearizations -/

/-- An order in which operations that change nothing are left out. -/
theorem steps_filter {R : M → Op → M → Prop} {m m' : M} {order : List (Entry Op)} (p : Entry Op → Bool)
    (hsame : ∀ e ∈ order, p e = false → ∀ m m', R m e.op m' → m' = m)
    (h : Steps R m (order.map Entry.op) m') : Steps R m ((order.filter p).map Entry.op) m' := by
  induction order using List.reverseRecOn generalizing m' with
  | nil => exact h
  | append_singleton order e ih =>
    rw [List.map_append, List.map_singleton] at h
    obtain ⟨t, hsteps, hstep⟩ := h.snoc_inv
    have hrest := ih (fun e he => hsame e (List.mem_append_left _ he)) hsteps
    rw [List.filter_append]
    cases hp : p e with
    | true =>
      rw [List.filter_singleton, hp, cond_true, List.map_append, List.map_singleton]
      exact hrest.snoc hstep
    | false =>
      rw [List.filter_singleton, hp, cond_false, List.append_nil,
        hsame e (List.mem_append_right _ List.mem_cons_self) hp t m' hstep]
      exact hrest

/-- `order` performs the calls that returned, one operation at a time, and nothing else. -/
structure Linearizes (operations : Call → Result → List Op) (R : M → Op → M → Prop)
    (events : List (Event Call Result)) (before : M) (order : List (Entry Op)) (after : M) : Prop where
  legal : Steps R before (order.map Entry.op) after
  complete : ∀ id call result, .started id call ∈ events → .returned id result ∈ events →
    opsOf id order = operations call result
  only : ∀ e ∈ order, ∃ result, .returned e.call result ∈ events
  inRealTime : InRealTime events order

/-! ## Runs of actions -/

/-- The labels of actions that are possible one after the other, and where they lead. -/
def performAll {σ : Type u} {α : Type v} {ε : Type w} (step : σ → α → Option (σ × ε)) :
    σ → List α → Option (σ × List ε)
  | s, [] => some (s, [])
  | s, action :: actions => do
    let (t, label) ← step s action
    let (u, labels) ← performAll step t actions
    some (u, label :: labels)

theorem steps_of_performAll {σ : Type u} {α : Type v} {ε : Type w} {step : σ → α → Option (σ × ε)}
    {s t : σ} {actions : List α} {labels : List ε} (h : performAll step s actions = some (t, labels)) :
    Steps (fun s label t => ∃ action, step s action = some (t, label)) s labels t := by
  induction actions generalizing s labels with
  | nil =>
    cases h
    exact .nil
  | cons action actions ih =>
    simp only [performAll, Option.bind_eq_bind, Option.bind_eq_some_iff, Option.some.injEq,
      Prod.mk.injEq] at h
    obtain ⟨⟨u, label⟩, hstep, ⟨t', rest⟩, hrest, rfl, rfl⟩ := h
    exact (Steps.single ⟨action, hstep⟩).trans (ih hrest)

/-! ## Logs -/

/-- How the calls of a system can be read, from the phase that each one is in. -/
structure View (Call : Type u) (Phase : Type y) (Result : Type v) (Op : Type w) where
  /-- What a call has returned. -/
  result : Phase → Option Result
  /-- What a call has done; none where it failed. -/
  done : Call → Phase → Option (List Op)
  /-- Operations that change nothing. -/
  reads : Op → Prop

/-- The event of a call that gets into a phase. -/
def View.returnedIn {Phase : Type y} (view : View Call Phase Result Op) (id : Nat) (phase : Phase) :
    List (Event Call Result) :=
  ((view.result phase).map (Event.returned id)).toList

/-- The operations of the calls, by number, in the order in which they took effect. -/
structure Logged {Phase : Type y} (view : View Call Phase Result Op) (calls : List (Call × Phase))
    (events : List (Event Call Result)) (log : List (Entry Op)) : Prop where
  started : ∀ {id : Nat} {call : Call}, .started id call ∈ events ↔
    ∃ phase, calls[id]? = some (call, phase)
  returned : ∀ {id : Nat} {result : Result}, .returned id result ∈ events ↔
    ∃ call phase, calls[id]? = some (call, phase) ∧ view.result phase = some result
  effects : ∀ {id : Nat} {call : Call} {phase : Phase} {ops : List Op}, calls[id]? = some (call, phase) →
    view.done call phase = some ops → opsOf id log = ops
  failed : ∀ {id : Nat} {call : Call} {phase : Phase}, calls[id]? = some (call, phase) →
    view.done call phase = none → ∀ op ∈ opsOf id log, view.reads op
  known : ∀ e ∈ log, e.call < calls.length
  inRealTime : InRealTime events log

namespace Logged
variable {Phase : Type y} {view : View Call Phase Result Op} {calls : List (Call × Phase)}
  {events : List (Event Call Result)} {log : List (Entry Op)}

theorem nil : Logged view [] [] [] where
  started := by
    refine iff_of_false List.not_mem_nil ?_
    rintro ⟨_, h⟩
    cases h
  returned := by
    refine iff_of_false List.not_mem_nil ?_
    rintro ⟨_, _, h, -⟩
    cases h
  effects h := by cases h
  failed h := by cases h
  known _ h := absurd h List.not_mem_nil
  inRealTime := .nil

theorem mem_returnedIn {id id' : Nat} {phase : Phase} {result : Result} :
    .returned id' result ∈ view.returnedIn id phase ↔ id' = id ∧ view.result phase = some result := by
  rw [View.returnedIn, Option.mem_toList, Option.map_eq_some_iff]
  constructor
  · rintro ⟨result', h, heq⟩
    cases heq
    exact ⟨rfl, h⟩
  · rintro ⟨rfl, h⟩
    exact ⟨result, h, rfl⟩

theorem started_not_mem_returnedIn {id id' : Nat} {phase : Phase} {call : Call} :
    .started id' call ∉ view.returnedIn id phase := by
  rw [View.returnedIn, Option.mem_toList, Option.map_eq_some_iff]
  rintro ⟨_, -, h⟩
  cases h

theorem inRealTime_returnedIn (h : InRealTime events log) (id : Nat) (phase : Phase) :
    InRealTime (events ++ view.returnedIn id phase) log := by
  rw [View.returnedIn]
  cases view.result phase with
  | none => exact (List.append_nil events).symm ▸ h
  | some result => exact h.returned id result

/-- The operations of a call that has not started. -/
theorem opsOf_length (h : Logged view calls events log) : opsOf calls.length log = [] := by
  rw [opsOf, List.map_eq_nil_iff, List.filter_eq_nil_iff]
  intro e he
  rw [decide_eq_true_eq]
  exact Nat.ne_of_lt (h.known e he)

/-- What an entry of the log says about its call. -/
theorem of_mem (h : Logged view calls events log) {e : Entry Op} (he : e ∈ log) :
    ∃ call phase, calls[e.call]? = some (call, phase) ∧
      (view.reads e.op ∨ ∃ ops, view.done call phase = some ops ∧ e.op ∈ ops) := by
  obtain ⟨⟨call, phase⟩, hcall⟩ : ∃ entry, calls[e.call]? = some entry :=
    ⟨_, List.getElem?_eq_getElem (h.known e he)⟩
  have hmem : e.op ∈ opsOf e.call log := mem_opsOf.mpr he
  refine ⟨call, phase, hcall, ?_⟩
  cases hdone : view.done call phase with
  | none => exact Or.inl (h.failed hcall hdone _ hmem)
  | some ops => exact Or.inr ⟨ops, rfl, h.effects hcall hdone ▸ hmem⟩

/-- A call that starts. -/
theorem start (h : Logged view calls events log) {call : Call} {phase : Phase}
    (hdone : view.done call phase = some []) :
    Logged view (calls ++ [(call, phase)])
      (events ++ .started calls.length call :: view.returnedIn calls.length phase) log := by
  have hold {id : Nat} {call' : Call} {phase' : Phase}
      (h' : (calls ++ [(call, phase)])[id]? = some (call', phase')) :
      id = calls.length ∧ call = call' ∧ phase = phase' ∨ calls[id]? = some (call', phase') := by
    rw [getElem?_snoc] at h'
    split at h' <;> rename_i hid
    · exact Or.inl ⟨hid, Prod.mk.inj (Option.some.inj h')⟩
    · exact Or.inr h'
  have hkeep {id : Nat} {entry : Call × Phase} (h' : calls[id]? = some entry) :
      (calls ++ [(call, phase)])[id]? = some entry := by
    rw [getElem?_snoc, if_neg (Nat.ne_of_lt (lt_of_getElem? h'))]
    exact h'
  have hnew : (calls ++ [(call, phase)])[calls.length]? = some (call, phase) := by
    rw [getElem?_snoc, if_pos rfl]
  constructor
  · intro id call'
    rw [List.mem_append, List.mem_cons, h.started, or_iff_left started_not_mem_returnedIn,
      Event.started.injEq]
    constructor
    · rintro (⟨phase', h'⟩ | ⟨rfl, rfl⟩)
      · exact ⟨phase', hkeep h'⟩
      · exact ⟨phase, hnew⟩
    · rintro ⟨phase', h'⟩
      rcases hold h' with ⟨rfl, rfl, -⟩ | h'
      · exact Or.inr ⟨rfl, rfl⟩
      · exact Or.inl ⟨phase', h'⟩
  · intro id result
    have hne : (Event.returned id result : Event Call Result) ≠ .started calls.length call := by
      intro heq
      cases heq
    rw [List.mem_append, List.mem_cons, h.returned, or_iff_right hne, mem_returnedIn]
    constructor
    · rintro (⟨call', phase', h', hresult⟩ | ⟨rfl, hresult⟩)
      · exact ⟨call', phase', hkeep h', hresult⟩
      · exact ⟨call, phase, hnew, hresult⟩
    · rintro ⟨call', phase', h', hresult⟩
      rcases hold h' with ⟨rfl, -, rfl⟩ | h'
      · exact Or.inr ⟨rfl, hresult⟩
      · exact Or.inl ⟨call', phase', h', hresult⟩
  · intro id call' phase' ops h' hops
    rcases hold h' with ⟨rfl, rfl, rfl⟩ | h'
    · rw [h.opsOf_length]
      exact Option.some.inj (hdone.symm.trans hops)
    · exact h.effects h' hops
  · intro id call' phase' h' hfailed
    rcases hold h' with ⟨rfl, -, -⟩ | h'
    · rw [h.opsOf_length]
      exact fun _ h => absurd h List.not_mem_nil
    · exact h.failed h' hfailed
  · intro e he
    rw [List.length_append]
    exact Nat.lt_add_right _ (h.known e he)
  · rw [← List.singleton_append, ← List.append_assoc]
    apply inRealTime_returnedIn
    exact h.inRealTime.started call fun e he => Nat.ne_of_lt (h.known e he)

/-- A call goes on to its next phase, and takes effect at most once in it. -/
theorem advance (h : Logged view calls events log) {id : Nat} {call : Call} {phase phase' : Phase}
    (hcall : calls[id]? = some (call, phase)) (hopen : view.result phase = none) {ops : List Op}
    (hops : view.done call phase = some ops) (op : Option Op)
    (heffects : view.done call phase' = some (ops ++ op.toList) ∨
      view.done call phase' = none ∧ op = none ∧ ∀ op ∈ ops, view.reads op) :
    Logged view (calls.set id (call, phase')) (events ++ view.returnedIn id phase')
      (log ++ op.toList.map (⟨id, ·⟩)) := by
  have hbefore : opsOf id log = ops := h.effects hcall hops
  have hself : opsOf id (op.toList.map (Entry.mk id)) = op.toList := by
    cases op with
    | none => rfl
    | some op => exact opsOf_single_self id op
  have hother {id' : Nat} (hne : id' ≠ id) : opsOf id' (op.toList.map (Entry.mk id)) = [] := by
    cases op with
    | none => rfl
    | some op => exact opsOf_single_of_ne (Ne.symm hne) op
  have hset (id' : Nat) :
      (calls.set id (call, phase'))[id']? = if id' = id then some (call, phase') else calls[id']? := by
    split <;> rename_i hid
    · rw [hid, List.getElem?_set_self (lt_of_getElem? hcall)]
    · exact List.getElem?_set_ne (Ne.symm hid)
  have hunreturned (result : Result) : .returned id result ∉ events := by
    rw [h.returned]
    rintro ⟨_, _, h', hresult⟩
    cases hcall.symm.trans h'
    rw [hopen] at hresult
    cases hresult
  constructor
  · intro id' call'
    rw [List.mem_append, or_iff_left started_not_mem_returnedIn, h.started]
    simp only [hset]
    split <;> rename_i hid
    · subst hid
      rw [hcall]
      simp
    · rfl
  · intro id' result
    rw [List.mem_append, mem_returnedIn]
    simp only [hset]
    split <;> rename_i hid
    · subst hid
      rw [or_iff_right (hunreturned result)]
      constructor
      · rintro ⟨-, hresult⟩
        exact ⟨call, phase', rfl, hresult⟩
      · rintro ⟨_, _, h', hresult⟩
        cases h'
        exact ⟨rfl, hresult⟩
    · rw [or_iff_left (fun h => hid h.1), h.returned]
  · intro id' call' phase'' ops' h' hops'
    rw [opsOf_append]
    rw [hset] at h'
    split at h' <;> rename_i hid
    · cases h'
      rw [hid, hbefore, hself]
      rcases heffects with heffects | ⟨hnone, -⟩
      · exact Option.some.inj (heffects.symm.trans hops')
      · cases hnone.symm.trans hops'
    · rw [hother hid, List.append_nil]
      exact h.effects h' hops'
  · intro id' call' phase'' h' hfailed op' hop'
    rw [opsOf_append] at hop'
    rw [hset] at h'
    split at h' <;> rename_i hid
    · cases h'
      rcases heffects with heffects | ⟨-, rfl, hreads⟩
      · cases hfailed.symm.trans heffects
      · rw [hid, hbefore, hself, Option.toList_none, List.append_nil] at hop'
        exact hreads op' hop'
    · rw [hother hid, List.append_nil] at hop'
      exact h.failed h' hfailed op' hop'
  · intro e he
    rw [List.length_set]
    rcases List.mem_append.mp he with he | he
    · exact h.known e he
    · obtain ⟨op', -, rfl⟩ := List.mem_map.mp he
      exact lt_of_getElem? hcall
  · apply inRealTime_returnedIn
    cases op with
    | none =>
      rw [Option.toList_none, List.map_nil, List.append_nil]
      exact h.inRealTime
    | some op => exact h.inRealTime.append op hunreturned

/-- Whether a call has returned. -/
def hasReturned (view : View Call Phase Result Op) (calls : List (Call × Phase)) (id : Nat) : Bool :=
  calls[id]?.any fun entry => (view.result entry.2).isSome

/-- The log of the calls that returned linearizes the history, where the others have only read. -/
theorem linearizes (h : Logged view calls events log) {operations : Call → Result → List Op}
    {R : M → Op → M → Prop} {before after : M} (hlegal : Steps R before (log.map Entry.op) after)
    (hreads : ∀ {op m m'}, view.reads op → R m op m' → m' = m)
    (hresult : ∀ {call phase result}, view.result phase = some result →
      view.done call phase = some (operations call result))
    (hopen : ∀ {id : Nat} {call phase ops}, calls[id]? = some (call, phase) → view.result phase = none →
      view.done call phase = some ops → ∀ op ∈ ops, view.reads op) :
    Linearizes operations R events before (log.filter fun e => hasReturned view calls e.call) after := by
  have hdropped : ∀ e ∈ log, hasReturned view calls e.call = false → view.reads e.op := by
    intro e he hunreturned
    obtain ⟨call, phase, hcall, hread | ⟨ops, hdone, hop⟩⟩ := h.of_mem he
    · exact hread
    · rw [hasReturned, hcall, Option.any_some, Option.isSome_eq_false_iff, Option.isNone_iff_eq_none]
        at hunreturned
      exact hopen hcall hunreturned hdone _ hop
  refine ⟨?_, ?_, ?_, h.inRealTime.filter _⟩
  · exact steps_filter _ (fun e he hp _ _ => hreads (hdropped e he hp)) hlegal
  · intro id call result hstarted hreturned
    obtain ⟨_, hcall⟩ := h.started.mp hstarted
    obtain ⟨_, phase, hcall', hphase⟩ := h.returned.mp hreturned
    cases hcall.symm.trans hcall'
    have hkept : opsOf id (log.filter fun e => hasReturned view calls e.call) = opsOf id log := by
      rw [opsOf, opsOf, List.filter_filter]
      congr 1
      apply List.filter_congr
      intro e _
      rw [Bool.and_eq_left_iff_imp, decide_eq_true_eq]
      rintro rfl
      rw [hasReturned, hcall, Option.any_some, hphase]
      rfl
    rw [hkept]
    exact h.effects hcall (hresult hphase)
  · intro e he
    obtain ⟨-, hkept⟩ := List.mem_filter.mp he
    rw [hasReturned, Option.any_eq_true] at hkept
    obtain ⟨⟨call, phase⟩, hcall, hsome⟩ := hkept
    obtain ⟨result, hresult⟩ := Option.isSome_iff_exists.mp hsome
    exact ⟨result, h.returned.mpr ⟨call, phase, hcall, hresult⟩⟩

end Logged

end Histories
