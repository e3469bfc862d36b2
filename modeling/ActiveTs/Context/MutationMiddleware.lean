import ActiveTs.Lib.Except
import ActiveTs.Lib.Steps

/-! # Required mutations behind middleware

A stack of layers around one mutation of a store, a cache or a search index. The layers run
arbitrary code between the calls of `next()`; the runner guards the innermost one, the leaf, and
reports every way in which the layers can miss, repeat or hide the mutation. -/

namespace ActiveTs.MutationMiddleware

variable {V : Type u} {E : Type v}

/-! ## The runner -/

/-- The content of an error variable. The runner has one object for each misuse of `next()`;
`undefined` is also a value that a layer can throw. -/
inductive Thrown (E : Type v)
  | undefined
  | duplicateNext
  | lateNext
  | other (error : E)
  deriving DecidableEq

/-- What the runner rejects with. -/
inductive Failure (E : Type v)
  | missingNext
  | thrown (error : Thrown E)
  | aggregate (errors : List (Thrown E))
  deriving DecidableEq

/-- How a promise of a layer or of the leaf settles. -/
abbrev Outcome (V : Type u) (E : Type v) := Except (Thrown E) V

/-- One call of a layer. -/
structure Invocation (V : Type u) (E : Type v) where
  layer : Nat
  outcome : Option (Outcome V E)

/-- What the runner awaits. -/
inductive Await (V : Type u) (E : Type v)
  | stack
  | leaf (middleware : Outcome V E)
  | done (result : Except (Failure E) V)

structure State (V : Type u) (E : Type v) where
  invocations : List (Invocation V E)
  leafCalls : Nat
  leafPromise : Option (Option (Outcome V E))
  duplicateNextError : Thrown E
  lateNextError : Thrown E
  acceptingNext : Bool
  awaiting : Await V E
  /-- How often the mutation was started. -/
  mutations : Nat
  /-- The calls of the guarded leaf before the runner settled. -/
  attempts : Nat

def Await.isDone : Await V E → Bool
  | .done _ => true
  | .stack | .leaf _ => false

/-- The function that the innermost layer has for `next`. -/
def callLeaf (s : State V E) : State V E :=
  let s := { s with attempts := if s.awaiting.isDone then s.attempts else s.attempts + 1 }
  if !s.acceptingNext then { s with lateNextError := .lateNext }
  else if 1 < s.leafCalls + 1 then
    { s with leafCalls := s.leafCalls + 1, duplicateNextError := .duplicateNext }
  else
    { s with
      leafCalls := s.leafCalls + 1
      leafPromise := some none
      mutations := s.mutations + 1 }

/-- `runMiddlewareLayers`: the function that stands for the layers from this one inwards. -/
def enter (layers : Nat) (s : State V E) (layer : Nat) : State V E :=
  if layer < layers then { s with invocations := s.invocations ++ [{ layer, outcome := none }] }
  else callLeaf s

def start (layers : Nat) : State V E :=
  enter layers
    { invocations := []
      leafCalls := 0
      leafPromise := none
      duplicateNextError := .undefined
      lateNextError := .undefined
      acceptingNext := true
      awaiting := .stack
      mutations := 0
      attempts := 0 } 0

/-- The promise of the whole stack: that of the first call of the outermost layer. -/
def stackOutcome (layers : Nat) (s : State V E) : Option (Outcome V E) :=
  if layers = 0 then s.leafPromise.join else s.invocations[0]?.bind Invocation.outcome

def withoutLeaf : Outcome V E → Failure E
  | .error middlewareError => .thrown middlewareError
  | .ok _ => .missingNext

/-- The stack settled. -/
def afterStack (s : State V E) (middleware : Outcome V E) : State V E :=
  if s.leafCalls < 1 then
    { s with acceptingNext := false, awaiting := .done (.error (withoutLeaf middleware)) }
  else { s with acceptingNext := false, awaiting := .leaf middleware }

/-- The error variable of a `try` around this promise, and whether it failed. -/
def caught : Outcome V E → Bool × Thrown E
  | .ok _ => (false, .undefined)
  | .error error => (true, error)

section
variable [DecidableEq E]

def failures (middleware leaf : Outcome V E) (duplicateNextError lateNextError : Thrown E) :
    List (Thrown E) :=
  let (middlewareFailed, middlewareError) := caught middleware
  let (leafFailed, leafError) := caught leaf
  (if middlewareFailed then [middlewareError] else []) ++
    (if duplicateNextError ≠ .undefined ∧ duplicateNextError ≠ middlewareError then
      [duplicateNextError] else []) ++
    (if lateNextError ≠ .undefined ∧ lateNextError ≠ middlewareError ∧
        lateNextError ≠ duplicateNextError then [lateNextError] else []) ++
    (if leafFailed ∧ leafError ≠ middlewareError ∧ leafError ≠ duplicateNextError then
      [leafError] else [])

/-- The leaf settled too. -/
def conclude (middleware leaf : Outcome V E) (duplicateNextError lateNextError : Thrown E) :
    Except (Failure E) V :=
  match failures middleware leaf duplicateNextError lateNextError, middleware, leaf with
  | _, .ok _, .error _ => .error .missingNext
  | first :: second :: rest, _, _ => .error (.aggregate (first :: second :: rest))
  | [error], _, _ => .error (.thrown error)
  | [], .ok middlewareResult, _ => .ok middlewareResult
  | [], .error middlewareError, _ => .error (.thrown middlewareError)

/-! ## Runs -/

/-- Layers call `next()` and settle at any time, and so does the leaf; `resume` is the runner after
an `await`. -/
inductive Event (V : Type u) (E : Type v)
  | callNext (invocation : Nat)
  | settleLayer (invocation : Nat) (outcome : Outcome V E)
  | settleLeaf (outcome : Outcome V E)
  | resume

def settleLayer (s : State V E) (k : Nat) (outcome : Outcome V E) : Option (State V E) :=
  match s.invocations[k]? with
  | some { layer, outcome := none } =>
    some { s with invocations := s.invocations.set k { layer, outcome := some outcome } }
  | _ => none

def settleLeaf (s : State V E) (outcome : Outcome V E) : Option (State V E) :=
  match s.leafPromise with
  | some none => some { s with leafPromise := some (some outcome) }
  | _ => none

def resume (layers : Nat) (s : State V E) : Option (State V E) :=
  match s.awaiting with
  | .stack => (stackOutcome layers s).map (afterStack s)
  | .leaf middleware =>
    s.leafPromise.join.map fun leaf =>
      { s with awaiting := .done (conclude middleware leaf s.duplicateNextError s.lateNextError) }
  | .done _ => none

def next (layers : Nat) (s : State V E) : Event V E → Option (State V E)
  | .callNext k => s.invocations[k]?.map fun invocation => enter layers s (invocation.layer + 1)
  | .settleLayer k outcome => settleLayer s k outcome
  | .settleLeaf outcome => settleLeaf s outcome
  | .resume => resume layers s

def Step (layers : Nat) (s : State V E) (e : Event V E) (t : State V E) : Prop :=
  next layers s e = some t

/-! ## When the runner resolves -/

/-- Nothing that went wrong is missing from the conclusion. -/
theorem conclude_eq_ok {middleware leaf : Outcome V E} {duplicateNextError lateNextError : Thrown E}
    {v : V} :
    conclude middleware leaf duplicateNextError lateNextError = .ok v ↔
      middleware = .ok v ∧ (∃ w, leaf = .ok w) ∧ duplicateNextError = .undefined ∧
        lateNextError = .undefined := by
  cases middleware with
  | error middlewareError =>
    have hne : conclude (.error middlewareError : Outcome V E) leaf duplicateNextError
        lateNextError ≠ .ok v := by
      rw [conclude.eq_def]
      split <;> simp_all
    constructor
    · intro h
      exact absurd h hne
    · rintro ⟨h, -⟩
      cases h
  | ok result =>
    cases leaf with
    | error leafError =>
      constructor
      · intro h
        cases h
      · rintro ⟨-, ⟨w, h⟩, -⟩
        cases h
    | ok w =>
      -- Without a failure, the list has the two errors of the runner.
      have hfailures : failures (.ok result : Outcome V E) (.ok w) duplicateNextError lateNextError
          = [] ↔ duplicateNextError = .undefined ∧ lateNextError = .undefined := by
        by_cases hduplicate : duplicateNextError = .undefined <;>
          by_cases hlate : lateNextError = .undefined <;> simp [failures, caught, hduplicate, hlate]
      rw [conclude.eq_def]
      cases hlist : failures (.ok result : Outcome V E) (.ok w) duplicateNextError lateNextError with
      | nil =>
        obtain ⟨hduplicate, hlate⟩ := hfailures.mp hlist
        constructor
        · intro h
          cases h
          exact ⟨rfl, ⟨w, rfl⟩, hduplicate, hlate⟩
        · rintro ⟨h, -⟩
          cases h
          rfl
      | cons first rest =>
        constructor
        · intro h
          cases rest <;> cases h
        · rintro ⟨-, -, h⟩
          rw [hfailures.mpr h] at hlist
          cases hlist

end

/-! ## What holds in every state -/

structure Inv (layers : Nat) (s : State V E) : Prop where
  /-- The mutation is started by the first call of the leaf. -/
  started : s.mutations = if s.leafPromise.isSome then 1 else 0
  counted : s.leafPromise.isSome = decide (0 < s.leafCalls)
  tried : s.mutations ≤ s.attempts
  /-- A further attempt leaves an error behind. -/
  noted : s.attempts ≤ 1 ∨ s.duplicateNextError ≠ .undefined ∨ s.lateNextError ≠ .undefined
  open_iff : s.acceptingNext = true ↔ s.awaiting = .stack
  attempted : s.acceptingNext = true → s.attempts = s.leafCalls
  awaited : ∀ middleware, s.awaiting = .leaf middleware →
    stackOutcome layers s = some middleware ∧ s.leafPromise.isSome = true
  resolved : ∀ v, s.awaiting = .done (.ok v) →
    s.mutations = 1 ∧ (∃ w, s.leafPromise = some (some (.ok w))) ∧
      stackOutcome layers s = some (.ok v) ∧ s.attempts = 1

/-- The promises that settled in `s` are settled alike in `t`. -/
structure Later (s t : State V E) : Prop where
  outermost : ∀ o, s.invocations[0]?.bind Invocation.outcome = some o →
    t.invocations[0]?.bind Invocation.outcome = some o
  leaf : ∀ o, s.leafPromise = some (some o) → t.leafPromise = some (some o)

theorem Later.stackOutcome {s t : State V E} (h : Later s t) {layers : Nat} {o : Outcome V E}
    (ho : stackOutcome layers s = some o) : stackOutcome layers t = some o := by
  rw [MutationMiddleware.stackOutcome] at ho ⊢
  split at ho
  · rename_i hlayers
    rw [if_pos hlayers]
    cases hleaf : s.leafPromise with
    | none =>
      rw [hleaf] at ho
      cases ho
    | some outcome =>
      rw [hleaf] at ho
      change outcome = some o at ho
      subst ho
      rw [h.leaf o hleaf]
      rfl
  · rename_i hlayers
    rw [if_neg hlayers]
    exact h.outermost o ho

/-! ### A call of the leaf -/

theorem Inv.leafPromise_none {layers : Nat} {s : State V E} (h : Inv layers s)
    (hcalls : s.leafCalls = 0) : s.leafPromise = none := by
  have hcounted := h.counted
  rw [hcalls] at hcounted
  exact Option.isSome_eq_false_iff.mp hcounted |> Option.isNone_iff_eq_none.mp

/-- The first call in time, a further one, or one after the stack settled. -/
theorem Inv.callLeaf_cases {layers : Nat} {s : State V E} (h : Inv layers s) :
    (s.awaiting = .stack ∧ s.leafCalls = 0 ∧ callLeaf s =
      { s with
        attempts := s.attempts + 1
        leafCalls := s.leafCalls + 1
        leafPromise := some none
        mutations := s.mutations + 1 }) ∨
    (s.awaiting = .stack ∧ 0 < s.leafCalls ∧ callLeaf s =
      { s with
        attempts := s.attempts + 1
        leafCalls := s.leafCalls + 1
        duplicateNextError := .duplicateNext }) ∨
    (s.awaiting ≠ .stack ∧ callLeaf s =
      { s with
        attempts := if s.awaiting.isDone then s.attempts else s.attempts + 1
        lateNextError := .lateNext }) := by
  by_cases hopen : s.acceptingNext = true
  · have hstack : s.awaiting = .stack := h.open_iff.mp hopen
    by_cases hcalls : s.leafCalls = 0
    · exact .inl ⟨hstack, hcalls, by simp [callLeaf, hopen, hcalls, hstack, Await.isDone]⟩
    · have hpos : 0 < s.leafCalls := Nat.pos_of_ne_zero hcalls
      exact .inr (.inl ⟨hstack, hpos, by simp [callLeaf, hopen, hpos, hstack, Await.isDone]⟩)
  · exact .inr (.inr ⟨fun hstack => hopen (h.open_iff.mpr hstack), by simp [callLeaf, hopen]⟩)

theorem Inv.later_callLeaf {layers : Nat} {s : State V E} (h : Inv layers s) :
    Later s (callLeaf s) := by
  rcases h.callLeaf_cases with ⟨-, hcalls, heq⟩ | ⟨-, -, heq⟩ | ⟨-, heq⟩
  · rw [heq]
    refine ⟨fun _ => id, ?_⟩
    intro o ho
    rw [h.leafPromise_none hcalls] at ho
    cases ho
  · rw [heq]
    exact ⟨fun _ => id, fun _ => id⟩
  · rw [heq]
    exact ⟨fun _ => id, fun _ => id⟩

theorem Inv.callLeaf {layers : Nat} {s : State V E} (h : Inv layers s) :
    Inv layers (callLeaf s) := by
  have hlater := h.later_callLeaf
  have hstarted := h.started
  have htried := h.tried
  rcases h.callLeaf_cases with ⟨hstack, hcalls, heq⟩ | ⟨hstack, hcalls, heq⟩ | ⟨hstack, heq⟩
  · have hattempted := h.attempted (h.open_iff.mpr hstack)
    rw [h.leafPromise_none hcalls] at hstarted
    rw [heq]
    constructor
    case started =>
      change s.mutations + 1 = 1
      rw [hstarted]
      rfl
    case counted => simp
    case tried => exact Nat.succ_le_succ htried
    case noted =>
      refine .inl ?_
      change s.attempts + 1 ≤ 1
      omega
    case open_iff => exact h.open_iff
    case attempted =>
      intro _
      exact congrArg Nat.succ hattempted
    case awaited =>
      intro middleware ho
      rw [hstack] at ho
      cases ho
    case resolved =>
      intro v hv
      rw [hstack] at hv
      cases hv
  · have hattempted := h.attempted (h.open_iff.mpr hstack)
    have hcounted := h.counted
    rw [heq]
    constructor
    case started => exact hstarted
    case counted =>
      change s.leafPromise.isSome = decide (0 < s.leafCalls + 1)
      rw [hcounted, decide_eq_true hcalls, decide_eq_true (Nat.succ_pos _)]
    case tried => exact Nat.le_succ_of_le htried
    case noted =>
      refine .inr (.inl ?_)
      intro hd
      cases hd
    case open_iff => exact h.open_iff
    case attempted =>
      intro _
      exact congrArg Nat.succ hattempted
    case awaited =>
      intro middleware ho
      rw [hstack] at ho
      cases ho
    case resolved =>
      intro v hv
      rw [hstack] at hv
      cases hv
  · rw [heq] at hlater ⊢
    constructor
    case started => exact hstarted
    case counted => exact h.counted
    case tried =>
      change s.mutations ≤ if s.awaiting.isDone then s.attempts else s.attempts + 1
      split
      · exact htried
      · exact Nat.le_succ_of_le htried
    case noted =>
      refine .inr (.inr ?_)
      intro hd
      cases hd
    case open_iff => exact h.open_iff
    case attempted =>
      intro hopen
      exact absurd (h.open_iff.mp hopen) hstack
    case awaited =>
      intro middleware ho
      obtain ⟨hsettled, hleaf⟩ := h.awaited middleware ho
      exact ⟨hlater.stackOutcome hsettled, hleaf⟩
    case resolved =>
      intro v hv
      obtain ⟨hmutations, hleaf, hsettled, hattempts⟩ := h.resolved v hv
      refine ⟨hmutations, hleaf, hlater.stackOutcome hsettled, ?_⟩
      change (if s.awaiting.isDone then s.attempts else s.attempts + 1) = 1
      change s.awaiting = _ at hv
      rw [hv]
      exact hattempts

/-! ### The other steps -/

/-- A step that starts or settles no more than promises keeps the invariant. -/
theorem Inv.of_later {layers : Nat} {s : State V E} (h : Inv layers s)
    {invocations : List (Invocation V E)} {leafPromise : Option (Option (Outcome V E))}
    (hlater : Later s { s with invocations, leafPromise })
    (hleaf : leafPromise.isSome = s.leafPromise.isSome) :
    Inv layers { s with invocations, leafPromise } := by
  constructor
  case started =>
    change s.mutations = if leafPromise.isSome then 1 else 0
    rw [hleaf]
    exact h.started
  case counted =>
    change leafPromise.isSome = _
    rw [hleaf]
    exact h.counted
  case tried => exact h.tried
  case noted => exact h.noted
  case open_iff => exact h.open_iff
  case attempted => exact h.attempted
  case awaited =>
    intro middleware ho
    obtain ⟨hsettled, hsome⟩ := h.awaited middleware ho
    exact ⟨hlater.stackOutcome hsettled, hleaf.trans hsome⟩
  case resolved =>
    intro v hv
    obtain ⟨hmutations, ⟨w, hw⟩, hsettled, hattempts⟩ := h.resolved v hv
    exact ⟨hmutations, ⟨w, hlater.leaf _ hw⟩, hlater.stackOutcome hsettled, hattempts⟩

theorem Inv.enter {layers : Nat} {s : State V E} (h : Inv layers s) (layer : Nat) :
    Inv layers (enter layers s layer) := by
  rw [MutationMiddleware.enter]
  split
  · refine h.of_later ⟨?_, fun _ => id⟩ rfl
    intro o ho
    cases hinvocations : s.invocations with
    | nil =>
      rw [hinvocations] at ho
      cases ho
    | cons first rest =>
      rw [hinvocations] at ho
      exact ho
  · exact h.callLeaf

theorem Inv.settleLayer {layers : Nat} {s t : State V E} (h : Inv layers s) {k : Nat}
    {outcome : Outcome V E} (ht : settleLayer s k outcome = some t) : Inv layers t := by
  rw [MutationMiddleware.settleLayer] at ht
  split at ht
  · rename_i layer hk
    cases ht
    refine h.of_later ⟨?_, fun _ => id⟩ rfl
    intro o ho
    cases k with
    | zero =>
      rw [hk] at ho
      cases ho
    | succ k =>
      rw [List.getElem?_set_ne (Nat.succ_ne_zero k)]
      exact ho
  · cases ht

theorem Inv.settleLeaf {layers : Nat} {s t : State V E} (h : Inv layers s)
    {outcome : Outcome V E} (ht : settleLeaf s outcome = some t) : Inv layers t := by
  rw [MutationMiddleware.settleLeaf] at ht
  split at ht
  · rename_i hleaf
    cases ht
    refine h.of_later ⟨fun _ => id, ?_⟩ (by rw [hleaf]; rfl)
    intro o ho
    rw [hleaf] at ho
    cases ho
  · cases ht

/-- The runner goes on behind an `await`. -/
theorem Inv.advance {layers : Nat} {s : State V E} (h : Inv layers s) {acceptingNext : Bool}
    {awaiting : Await V E} (hclosed : acceptingNext = false) (hstack : awaiting ≠ .stack)
    (hawaited : ∀ middleware, awaiting = .leaf middleware →
      stackOutcome layers s = some middleware ∧ s.leafPromise.isSome = true)
    (hresolved : ∀ v, awaiting = .done (.ok v) →
      s.mutations = 1 ∧ (∃ w, s.leafPromise = some (some (.ok w))) ∧
        stackOutcome layers s = some (.ok v) ∧ s.attempts = 1) :
    Inv layers { s with acceptingNext, awaiting } := by
  subst hclosed
  constructor
  case started => exact h.started
  case counted => exact h.counted
  case tried => exact h.tried
  case noted => exact h.noted
  case open_iff =>
    constructor
    · intro ho
      cases ho
    · intro ho
      exact absurd ho hstack
  case attempted =>
    intro ho
    cases ho
  case awaited => exact hawaited
  case resolved => exact hresolved

theorem Inv.afterStack {layers : Nat} {s : State V E} (h : Inv layers s) {middleware : Outcome V E}
    (hsettled : stackOutcome layers s = some middleware) : Inv layers (afterStack s middleware) := by
  rw [MutationMiddleware.afterStack]
  split
  · apply h.advance rfl
    · intro ho
      cases ho
    · intro _ ho
      cases ho
    · intro v hv
      cases hv
  · rename_i hcalls
    apply h.advance rfl
    · intro ho
      cases ho
    · intro _ ho
      cases ho
      refine ⟨hsettled, ?_⟩
      rw [h.counted, decide_eq_true (by omega)]
    · intro v hv
      cases hv

theorem Inv.start (layers : Nat) : Inv layers (start layers : State V E) := by
  apply Inv.enter
  constructor
  case started => rfl
  case counted => rfl
  case tried => exact Nat.le_refl 0
  case noted => exact .inl (Nat.zero_le 1)
  case open_iff => exact ⟨fun _ => rfl, fun _ => rfl⟩
  case attempted =>
    intro _
    rfl
  case awaited =>
    intro _ ho
    cases ho
  case resolved =>
    intro v hv
    cases hv

section
variable [DecidableEq E]

theorem Inv.resume {layers : Nat} {s t : State V E} (h : Inv layers s)
    (ht : resume layers s = some t) : Inv layers t := by
  rw [MutationMiddleware.resume] at ht
  split at ht
  · obtain ⟨middleware, hsettled, rfl⟩ := Option.map_eq_some_iff.mp ht
    exact h.afterStack hsettled
  · rename_i middleware hleaf
    obtain ⟨leaf, hjoin, rfl⟩ := Option.map_eq_some_iff.mp ht
    obtain ⟨hsettled, hsome⟩ := h.awaited middleware hleaf
    have hpromise : s.leafPromise = some (some leaf) := Option.join_eq_some_iff.mp hjoin
    have hclosed : s.acceptingNext = false := by
      rw [← Bool.not_eq_true, h.open_iff, hleaf]
      intro ho
      cases ho
    apply h.advance hclosed
    · intro ho
      cases ho
    · intro _ ho
      cases ho
    · intro v hv
      obtain ⟨rfl, ⟨w, rfl⟩, hduplicate, hlate⟩ := conclude_eq_ok.mp (Await.done.inj hv)
      have hstarted := h.started
      have htried := h.tried
      rw [hsome, if_pos rfl] at hstarted
      have hnoted : s.attempts ≤ 1 := by
        rcases h.noted with hnoted | hnoted | hnoted
        · exact hnoted
        · exact absurd hduplicate hnoted
        · exact absurd hlate hnoted
      exact ⟨hstarted, ⟨w, hpromise⟩, hsettled, Nat.le_antisymm hnoted (hstarted ▸ htried)⟩
  · cases ht

theorem Inv.step {layers : Nat} {s t : State V E} {e : Event V E} (h : Inv layers s)
    (hstep : Step layers s e t) : Inv layers t := by
  cases e with
  | callNext k =>
    obtain ⟨invocation, -, rfl⟩ := Option.map_eq_some_iff.mp hstep
    exact h.enter (invocation.layer + 1)
  | settleLayer k outcome => exact h.settleLayer hstep
  | settleLeaf outcome => exact h.settleLeaf hstep
  | resume => exact h.resume hstep

/-! ## The mutation runs once, and its failure is not hidden -/

/-- What the runner owes its caller. -/
structure Guarded (layers : Nat) (s : State V E) : Prop where
  /-- The mutation is started once at most. -/
  once : s.mutations ≤ 1
  /-- The runner resolves for a mutation that ran, under a stack that resolved, and was not
  attempted again. -/
  resolved : ∀ v, s.awaiting = .done (.ok v) →
    s.mutations = 1 ∧ (∃ w, s.leafPromise = some (some (.ok w))) ∧
      stackOutcome layers s = some (.ok v) ∧ s.attempts = 1
  /-- Whatever the layers made of the leaf's failure, the runner rejects. -/
  reported : ∀ leafError, s.leafPromise = some (some (.error leafError)) →
    ∀ v, s.awaiting ≠ .done (.ok v)
  /-- The runner settles by itself once the stack and the leaf did. -/
  settles : stackOutcome layers s ≠ none → s.leafPromise ≠ some none →
    ∃ es t result, Steps (Step layers) s es t ∧ (∀ e ∈ es, e = .resume) ∧
      t.awaiting = .done result ∧ t.leafPromise = s.leafPromise

theorem Inv.settles_of_leaf {layers : Nat} {s : State V E} (h : Inv layers s)
    {middleware : Outcome V E} (hleaf : s.awaiting = .leaf middleware)
    (hpending : s.leafPromise ≠ some none) :
    ∃ t result, Step layers s .resume t ∧ t.awaiting = .done result ∧
      t.leafPromise = s.leafPromise := by
  obtain ⟨-, hsome⟩ := h.awaited middleware hleaf
  obtain ⟨promise, hpromise⟩ := Option.isSome_iff_exists.mp hsome
  cases promise with
  | none => exact absurd hpromise hpending
  | some leaf =>
    refine ⟨{ s with awaiting := .done (conclude middleware leaf s.duplicateNextError
      s.lateNextError) }, _, ?_, rfl, rfl⟩
    rw [Step, next, MutationMiddleware.resume, hleaf, hpromise]
    rfl

theorem Inv.settles {layers : Nat} {s : State V E} (h : Inv layers s)
    (hsettled : stackOutcome layers s ≠ none) (hpending : s.leafPromise ≠ some none) :
    ∃ es t result, Steps (Step layers) s es t ∧ (∀ e ∈ es, e = .resume) ∧
      t.awaiting = .done result ∧ t.leafPromise = s.leafPromise := by
  cases hawaiting : s.awaiting with
  | done result =>
    refine ⟨[], s, result, .nil, ?_, hawaiting, rfl⟩
    intro e he
    cases he
  | leaf middleware =>
    obtain ⟨t, result, hstep, ht, hsame⟩ := h.settles_of_leaf hawaiting hpending
    refine ⟨[.resume], t, result, .single hstep, ?_, ht, hsame⟩
    intro e he
    exact List.mem_singleton.mp he
  | stack =>
    obtain ⟨middleware, hmiddleware⟩ := Option.ne_none_iff_exists'.mp hsettled
    have hstep : Step layers s .resume (MutationMiddleware.afterStack s middleware) := by
      rw [Step, next, MutationMiddleware.resume, hawaiting, hmiddleware]
      rfl
    by_cases hcalls : s.leafCalls < 1
    · refine ⟨[.resume], _, .error (withoutLeaf middleware), .single hstep, ?_, ?_, ?_⟩
      · intro e he
        exact List.mem_singleton.mp he
      · rw [MutationMiddleware.afterStack, if_pos hcalls]
      · rw [MutationMiddleware.afterStack, if_pos hcalls]
    · have hinv := h.step hstep
      have hleaf : MutationMiddleware.afterStack s middleware =
          { s with acceptingNext := false, awaiting := .leaf middleware } := by
        rw [MutationMiddleware.afterStack, if_neg hcalls]
      rw [hleaf] at hstep hinv
      obtain ⟨t, result, hnext, ht, hsame⟩ := hinv.settles_of_leaf rfl hpending
      refine ⟨[.resume, .resume], t, result, (Steps.single hstep).snoc hnext, ?_, ht, hsame⟩
      intro e he
      simpa using he

theorem mutation_guarded {layers : Nat} {es : List (Event V E)} {s : State V E}
    (h : Steps (Step layers) (start layers) es s) : Guarded layers s := by
  have hinv : Inv layers s := h.invariant Inv.step (Inv.start layers)
  constructor
  case once =>
    rw [hinv.started]
    split
    · exact Nat.le_refl 1
    · exact Nat.zero_le 1
  case resolved => exact hinv.resolved
  case reported =>
    intro leafError hleaf v hv
    obtain ⟨-, ⟨w, hw⟩, -⟩ := hinv.resolved v hv
    rw [hw] at hleaf
    cases hleaf
  case settles => exact hinv.settles

end

/-- A layer swallows the failure of the leaf. -/
theorem mutation_guarded_swallowed :
    ∃ s : State Nat Nat, Guarded 1 s ∧ s.leafPromise = some (some (.error (.other 5))) ∧
      stackOutcome 1 s = some (.ok 7) ∧ s.awaiting = .done (.error .missingNext) := by
  have h₁ : Steps (Step 1) (start 1 : State Nat Nat) [.callNext 0] _ := .single rfl
  have h₂ := h₁.snoc (show Step 1 _ (.settleLeaf (.error (.other 5))) _ from rfl)
  have h₃ := h₂.snoc (show Step 1 _ (.settleLayer 0 (.ok 7)) _ from rfl)
  have h₄ := h₃.snoc (show Step 1 _ .resume _ from rfl)
  have h₅ := h₄.snoc (show Step 1 _ .resume _ from rfl)
  exact ⟨_, mutation_guarded h₅, rfl, rfl, rfl⟩

/-- An outer layer may handle the rejection of an inner one after the mutation. -/
theorem inner_rejection_handled :
    ∃ (es : List (Event Nat Nat)) (s : State Nat Nat), Steps (Step 2) (start 2) es s ∧
      s.awaiting = .done (.ok 7) ∧
        ∃ invocation ∈ s.invocations, invocation.outcome = some (.error (.other 5)) := by
  have h₁ : Steps (Step 2) (start 2 : State Nat Nat) [.callNext 0] _ := .single rfl
  have h₂ := h₁.snoc (show Step 2 _ (.callNext 1) _ from rfl)
  have h₃ := h₂.snoc (show Step 2 _ (.settleLeaf (.ok 1)) _ from rfl)
  have h₄ := h₃.snoc (show Step 2 _ (.settleLayer 1 (.error (.other 5))) _ from rfl)
  have h₅ := h₄.snoc (show Step 2 _ (.settleLayer 0 (.ok 7)) _ from rfl)
  have h₆ := h₅.snoc (show Step 2 _ .resume _ from rfl)
  have h₇ := h₆.snoc (show Step 2 _ .resume _ from rfl)
  exact ⟨_, _, h₇, rfl, ⟨1, some (.error (.other 5))⟩, List.mem_cons_of_mem _ List.mem_cons_self,
    rfl⟩

end ActiveTs.MutationMiddleware
