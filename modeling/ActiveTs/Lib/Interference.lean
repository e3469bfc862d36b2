import ActiveTs.Lib.Prog

/-! # One task under interference

A task runs alone in an environment that may change the state before each of its steps. Its triples
speak about every such run; their assertions must survive the changes of the environment. -/

namespace Prog

variable {σ : Type u} {ι : Type v} {ε : Type w} {α β : Type x}

/-- The task runs to its end, and the environment moves before each of its steps. -/
inductive Runs (env : σ → σ → Prop) : Prog σ ι ε α → σ → Except ε α → σ → Prop
  | ret : Runs env (.ret a) s (.ok a) s
  | fail : Runs env (.fail e) s (.error e) s
  | step {enabled : ι → σ → Bool} {update : ι → σ → σ} {next : ι → σ → Prog σ ι ε α} {i : ι}
      {s s₁ s' : σ} {r : Except ε α} (henv : env s s₁) (henabled : enabled i s₁ = true)
      (hnext : Runs env (next i s₁) (update i s₁) r s') :
      Runs env (.step enabled update next) s r s'

/-- Runs a task with the given choices, each after a change of the environment. -/
def runWith : List ((σ → σ) × ι) → Prog σ ι ε α → σ → Option (Except ε α × σ)
  | _, .ret a, s => some (.ok a, s)
  | _, .fail e, s => some (.error e, s)
  | [], .step .., _ => none
  | (change, i) :: rest, .step enabled update next, s =>
    if enabled i (change s) then (next i (change s)).runWith rest (update i (change s)) else none

section
variable {env : σ → σ → Prop} {s s' : σ} {i : ι} {p : Prog σ ι ε α} {r : Except ε α}

theorem Runs.of_runWith {moves : List ((σ → σ) × ι)} (henv : ∀ move ∈ moves, ∀ s, env s (move.1 s))
    (h : p.runWith moves s = some (r, s')) : Runs env p s r s' := by
  induction moves generalizing p s with
  | nil =>
    cases p with
    | ret a =>
      cases h
      exact .ret
    | fail e =>
      cases h
      exact .fail
    | step => cases h
  | cons move rest ih =>
    cases p with
    | ret a =>
      cases h
      exact .ret
    | fail e =>
      cases h
      exact .fail
    | step enabled update next =>
      obtain ⟨henabled, h⟩ := Option.ite_none_right_eq_some.mp h
      exact .step (henv move List.mem_cons_self s) henabled
        (ih (fun move hmove => henv move (List.mem_cons_of_mem _ hmove)) h)

theorem Runs.of_runAlone (h : p.runAlone i s = some (s', r)) : Runs Eq p s r s' := by
  induction p generalizing s with
  | ret a =>
    cases h
    exact .ret
  | fail e =>
    cases h
    exact .fail
  | step enabled update next ih =>
    obtain ⟨henabled, h⟩ := Option.ite_none_right_eq_some.mp h
    exact .step rfl henabled (ih i s h)

end

/-! ## Triples -/

/-- In every run from a state of `P` the task ends in its postcondition. -/
def Ensures (env : σ → σ → Prop) (P : σ → Prop) (p : Prog σ ι ε α) (Q : α → σ → Prop)
    (E : ε → σ → Prop) : Prop :=
  ∀ s r s', P s → p.Runs env s r s' → (∀ a, r = .ok a → Q a s') ∧ ∀ e, r = .error e → E e s'

/-- An assertion that the environment preserves. -/
def Survives (env : σ → σ → Prop) (P : σ → Prop) : Prop := ∀ s s', P s → env s s' → P s'

variable {env : σ → σ → Prop} {P P' : σ → Prop} {p : Prog σ ι ε α} {Q Q' : α → σ → Prop}
  {R : β → σ → Prop} {E E' : ε → σ → Prop}

namespace Ensures

theorem pure {a : α} (h : ∀ s, P s → Q a s) : Ensures env P (pure a : Prog σ ι ε α) Q E := by
  intro s r s' hP hrun
  cases hrun
  refine ⟨fun b hb => ?_, fun e he => (by cases he)⟩
  cases hb
  exact h s hP

theorem throw {e : ε} (h : ∀ s, P s → E e s) : Ensures env P (throw e : Prog σ ι ε α) Q E := by
  intro s r s' hP hrun
  cases hrun
  refine ⟨fun b hb => (by cases hb), fun e he => ?_⟩
  cases he
  exact h s hP

theorem weaken (h : Ensures env P p Q E) (hP : ∀ s, P' s → P s) (hQ : ∀ a s, Q a s → Q' a s)
    (hE : ∀ e s, E e s → E' e s) : Ensures env P' p Q' E' := by
  intro s r s' hs hrun
  obtain ⟨hok, herror⟩ := h s r s' (hP s hs) hrun
  exact ⟨fun a ha => hQ a s' (hok a ha), fun e he => hE e s' (herror e he)⟩

/-- Runs of a sequence. -/
theorem runs_bind {β : Type y} {f : α → Prog σ ι ε β} {s s' : σ} {r : Except ε β}
    (h : (p.bind f).Runs env s r s') :
    (∃ a s₁, p.Runs env s (.ok a) s₁ ∧ (f a).Runs env s₁ r s') ∨
      ∃ e, p.Runs env s (.error e) s' ∧ r = .error e := by
  induction p generalizing s with
  | ret a => exact .inl ⟨a, s, .ret, h⟩
  | fail e =>
    cases h
    exact .inr ⟨e, .fail, rfl⟩
  | step enabled update next ih =>
    cases h with
    | step henv henabled hnext =>
      rcases ih _ _ hnext with ⟨a, s₁, hp, hf⟩ | ⟨e, hp, he⟩
      · exact .inl ⟨a, s₁, .step henv henabled hp, hf⟩
      · exact .inr ⟨e, .step henv henabled hp, he⟩

/-- Runs of `try … catch …`. -/
theorem runs_tryCatch {f : ε → Prog σ ι ε α} {s s' : σ} {r : Except ε α}
    (h : (p.tryCatch f).Runs env s r s') :
    (∃ a, p.Runs env s (.ok a) s' ∧ r = .ok a) ∨
      ∃ e s₁, p.Runs env s (.error e) s₁ ∧ (f e).Runs env s₁ r s' := by
  induction p generalizing s with
  | ret a =>
    cases h
    exact .inl ⟨a, .ret, rfl⟩
  | fail e => exact .inr ⟨e, s, .fail, h⟩
  | step enabled update next ih =>
    cases h with
    | step henv henabled hnext =>
      rcases ih _ _ hnext with ⟨a, hp, ha⟩ | ⟨e, s₁, hp, hf⟩
      · exact .inl ⟨a, .step henv henabled hp, ha⟩
      · exact .inr ⟨e, s₁, .step henv henabled hp, hf⟩

theorem bind {f : α → Prog σ ι ε β} (h : Ensures env P p Q E)
    (hf : ∀ a, Ensures env (Q a) (f a) R E) : Ensures env P (p >>= f) R E := by
  intro s r s' hP hrun
  rcases runs_bind hrun with ⟨a, s₁, hp, hrest⟩ | ⟨e, hp, rfl⟩
  · exact hf a s₁ r s' ((h s _ s₁ hP hp).1 a rfl) hrest
  · refine ⟨fun b hb => (by cases hb), fun e' he' => ?_⟩
    cases he'
    exact (h s _ s' hP hp).2 e rfl

/-- An attempt ends with a result that says which postcondition holds. -/
theorem attempt (h : Ensures env P p Q E) :
    Ensures env P p.attempt (fun r s => (∀ a, r = .ok a → Q a s) ∧ ∀ e, r = .error e → E e s) E' := by
  intro s r s' hP hrun
  have hreturn : ∀ {r' : Except ε α} {s₁ s₂ : σ} {r : Except ε (Except ε α)},
      ((.ret r' : Prog σ ι ε (Except ε α))).Runs env s₁ r s₂ → r = .ok r' ∧ s₂ = s₁ := by
    intro r' s₁ s₂ r hret
    cases hret
    exact ⟨rfl, rfl⟩
  rcases runs_tryCatch hrun with ⟨result, hp, rfl⟩ | ⟨e, s₁, hp, hf⟩
  · rcases runs_bind hp with ⟨a, s₁, hp', hf⟩ | ⟨e, _, he⟩
    · obtain ⟨hresult, rfl⟩ := hreturn hf
      obtain rfl := Except.ok.inj hresult
      refine ⟨fun r hr => ?_, fun e he => (by cases he)⟩
      obtain rfl := Except.ok.inj hr
      exact h s _ _ hP hp'
    · cases he
  · rcases runs_bind hp with ⟨a, s₂, _, hf'⟩ | ⟨e', hp', he⟩
    · cases (hreturn hf').1
    · obtain ⟨rfl, rfl⟩ := hreturn hf
      obtain rfl := Except.error.inj he
      refine ⟨fun r hr => ?_, fun e he => (by cases he)⟩
      obtain rfl := Except.ok.inj hr
      exact h s _ _ hP hp'

theorem ite {c : Prop} [Decidable c] {q : Prog σ ι ε α} (hp : c → Ensures env P p Q E)
    (hq : ¬ c → Ensures env P q Q E) : Ensures env P (if c then p else q) Q E := by
  split
  · next hc => exact hp hc
  · next hc => exact hq hc

/-- One step, after a move of the environment. -/
theorem atomically {f : ι → σ → σ × Except ε α} (hP : Survives env P)
    (h : ∀ i s, P s → (∀ a, (f i s).2 = .ok a → Q a (f i s).1) ∧
      ∀ e, (f i s).2 = .error e → E e (f i s).1) :
    Ensures env P (Prog.atomically f) Q E := by
  intro s r s' hs hrun
  cases hrun with
  | @step _ _ _ i _ s₁ _ _ henv _ hnext =>
    have hstep := h i s₁ (hP s s₁ hs henv)
    dsimp only at hnext
    generalize (f i s₁).1 = s₂ at hnext hstep
    generalize (f i s₁).2 = result at hnext hstep
    cases result with
    | ok a =>
      cases hnext
      exact hstep
    | error e =>
      cases hnext
      exact hstep

end Ensures

end Prog
