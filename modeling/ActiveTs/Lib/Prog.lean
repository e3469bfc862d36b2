import Mathlib.Logic.Function.Basic
import ActiveTs.Lib.Steps

/-! # Asynchronous tasks

A task is a program that runs atomically from one suspension point to the next. A pool runs many
tasks on one shared state: a scheduler picks a task and resolves what the environment decides in
its step (whether a call fails, which value it produces). -/

/-- A task over the shared state `σ`, whose steps take a choice of the environment from `ι`. It
returns a value of `α` or fails with an error of `ε`. -/
inductive Prog (σ : Type u) (ι : Type v) (ε : Type w) (α : Type x) where
  | ret (a : α)
  | fail (e : ε)
  /-- A step that is possible where `enabled` holds, with the state and the task after it. -/
  | step (enabled : ι → σ → Bool) (update : ι → σ → σ) (next : ι → σ → Prog σ ι ε α)

namespace Prog

variable {σ : Type u} {ι : Type v} {ε : Type w} {α : Type x} {β : Type y}

def bind : Prog σ ι ε α → (α → Prog σ ι ε β) → Prog σ ι ε β
  | .ret a, f => f a
  | .fail e, _ => .fail e
  | .step enabled update next, f => .step enabled update fun i s => (next i s).bind f

/-- `try … catch …`. -/
def tryCatch : Prog σ ι ε α → (ε → Prog σ ι ε α) → Prog σ ι ε α
  | .ret a, _ => .ret a
  | .fail e, h => h e
  | .step enabled update next, h =>
    .step enabled update fun i s => (next i s).tryCatch h

instance : Monad (Prog σ ι ε) where
  pure := .ret
  bind := .bind

instance : MonadExceptOf ε (Prog σ ι ε) where
  throw := .fail
  tryCatch := .tryCatch

/-- A step that is always possible and ends with a result or an error. -/
def atomically (f : ι → σ → σ × Except ε α) : Prog σ ι ε α :=
  .step (fun _ _ => true) (fun i s => (f i s).1) fun i s =>
    (f i s).2.casesOn .fail .ret

/-- A step without a choice of the environment. -/
def modifyGet (f : σ → σ × α) : Prog σ ι ε α := atomically fun _ s => ((f s).1, .ok (f s).2)

def modify (f : σ → σ) : Prog σ ι ε Unit := modifyGet fun s => (f s, ())

def get (f : σ → α) : Prog σ ι ε α := modifyGet fun s => (s, f s)

/-- A step without a choice of the environment that may fail. -/
def sync (f : σ → σ × Except ε α) : Prog σ ι ε α := atomically fun _ s => f s

/-- A call that takes effect in one step, or fails there without effect. -/
def call (e : ε) (f : σ → σ × α) : Prog σ Bool ε α :=
  atomically fun ok s => if ok then ((f s).1, .ok (f s).2) else (s, .error e)

/-- A step that waits until the condition holds. -/
def await (condition : σ → Bool) : Prog σ ι ε Unit :=
  .step (fun _ s => condition s) (fun _ s => s) fun _ _ => .ret ()

/-- The result of a task as a value. -/
def attempt (p : Prog σ ι ε α) : Prog σ ι ε (Except ε α) :=
  (p.bind fun a => .ret (.ok a)).tryCatch fun e => .ret (.error e)

/-- Runs a task without interruption, `none` where it has to wait. -/
def runAlone (i : ι) : Prog σ ι ε α → σ → Option (σ × Except ε α)
  | .ret a, s => some (s, .ok a)
  | .fail e, s => some (s, .error e)
  | .step enabled update next, s =>
    if enabled i s then (next i s).runAlone i (update i s) else none

/-- The task is over. -/
def isDone : Prog σ ι ε α → Bool
  | .ret _ => true
  | .fail _ => true
  | .step .. => false

def returned : Prog σ ι ε α → Option α
  | .ret a => some a
  | _ => none

theorem returned_eq_some {p : Prog σ ι ε α} {a : α} : p.returned = some a ↔ p = .ret a := by
  cases p <;> simp [returned]

end Prog

/-! ## Pools -/

/-- The tasks of a pool in the middle of their runs. -/
structure Pool (T : Type t) (σ : Type u) (ι : Type v) (ε : Type w) (α : Type x) where
  state : σ
  prog : T → Prog σ ι ε α
  started : T → Bool

namespace Pool

variable {T : Type t} {σ : Type u} {ι : Type v} {ε : Type w} {α : Type x}

/-- No task has run yet. -/
def init (s : σ) (jobs : T → Prog σ ι ε α) : Pool T σ ι ε α := ⟨s, jobs, fun _ => false⟩

/-- A task that took a step and is not over. -/
def InFlight (c : Pool T σ ι ε α) (t : T) : Prop := c.started t ∧ (c.prog t).isDone = false

instance (c : Pool T σ ι ε α) (t : T) : Decidable (c.InFlight t) :=
  inferInstanceAs (Decidable (_ ∧ _))

variable [DecidableEq T]

/-- The task `t` takes a step with the choice `i`. -/
def step (c : Pool T σ ι ε α) (t : T) (i : ι) : Option (Pool T σ ι ε α) :=
  match c.prog t with
  | .ret _ => none
  | .fail _ => none
  | .step enabled update next =>
    if enabled i c.state then
      some ⟨update i c.state, Function.update c.prog t (next i c.state),
        Function.update c.started t true⟩
    else none

/-- A step that leads to a state of `good`. -/
def Step (good : σ → Prop) (c : Pool T σ ι ε α) (e : T × ι) (c' : Pool T σ ι ε α) : Prop :=
  c.step e.1 e.2 = some c' ∧ good c'.state

/-- A run all of whose states are in `good`. -/
abbrev Run (good : σ → Prop) (c : Pool T σ ι ε α) (es : List (T × ι)) (c' : Pool T σ ι ε α) :
    Prop :=
  Steps (Step good) c es c'

/-- What a step does: the task was about to take it. -/
theorem step_cases {c c' : Pool T σ ι ε α} {t : T} {i : ι} (h : c.step t i = some c') :
    ∃ enabled update next, c.prog t = .step enabled update next ∧ enabled i c.state = true ∧
      c' = ⟨update i c.state, Function.update c.prog t (next i c.state),
        Function.update c.started t true⟩ := by
  unfold step at h
  split at h
  · cases h
  · cases h
  · next enabled update next hp =>
    obtain ⟨hen, h⟩ := Option.ite_none_right_eq_some.mp h
    cases h
    exact ⟨enabled, update, next, hp, hen, rfl⟩

/-- Runs a schedule, as far as its steps are possible and lead to states of `good`. -/
def exec (good : σ → Prop) [DecidablePred good] (c : Pool T σ ι ε α) :
    List (T × ι) → Option (Pool T σ ι ε α)
  | [] => some c
  | e :: es => ((c.step e.1 e.2).filter (good ·.state)).bind fun c' => c'.exec good es

theorem Run.of_exec {good : σ → Prop} [DecidablePred good] {c c' : Pool T σ ι ε α}
    {es : List (T × ι)} (h : c.exec good es = some c') : c.Run good es c' := by
  induction es generalizing c with
  | nil =>
    cases h
    exact .nil
  | cons e es ih =>
    obtain ⟨c₁, hs, h⟩ := Option.bind_eq_some_iff.mp h
    obtain ⟨hs, hgood⟩ := Option.filter_eq_some_iff.mp hs
    have htail : c₁.Run good es c' := ih h
    exact (Steps.single ⟨hs, of_decide_eq_true hgood⟩).trans htail

end Pool
