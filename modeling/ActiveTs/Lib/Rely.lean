import ActiveTs.Lib.Prog

/-! # Rely and guarantee

A protocol says what the tasks of a pool keep: an invariant, and a preorder in which every step
moves the state forward. Both may speak about ghost state. Every task owns its part of the ghost
state, which a proof chooses anew after each of the task's steps. A task is verified alone, by
triples whose assertions survive the steps of the others, and `Protocol.sound` puts the tasks
together. -/

/-- What the tasks `T` keep about the shared state `σ` and their parts of the ghost state `δ`. -/
structure Protocol (T : Type t) (δ : Type g) (σ : Type u) where
  inv : (T → δ) → σ → Prop
  /-- What every step respects. -/
  evolves : (T → δ) × σ → (T → δ) × σ → Prop
  refl : ∀ x, evolves x x
  trans : ∀ {x y z}, evolves x y → evolves y z → evolves x z

namespace Protocol

variable {T : Type t} {δ : Type g} {σ : Type u} {ι : Type v} {ε : Type w} {α β : Type x}

/-- A step of the task `t`: the other tasks keep their parts of the ghost state. -/
structure Moves (D : Protocol T δ σ) (t : T) (g : T → δ) (s : σ) (g' : T → δ) (s' : σ) :
    Prop where
  inv : D.inv g' s'
  others : ∀ u, u ≠ t → g' u = g u
  evolves : D.evolves (g, s) (g', s')

/-- Any number of steps of other tasks, as the task `t` sees them. -/
structure Rely (D : Protocol T δ σ) (t : T) (g : T → δ) (s : σ) (g' : T → δ) (s' : σ) :
    Prop where
  inv : D.inv g' s'
  own : g' t = g t
  evolves : D.evolves (g, s) (g', s')

/-- The task keeps the protocol from here on, and ends in its postcondition. Only runs through
states of `good` count. -/
def Safe (D : Protocol T δ σ) (good : σ → Prop) (t : T) (Q : α → (T → δ) → σ → Prop)
    (E : ε → (T → δ) → σ → Prop) : Prog σ ι ε α → (T → δ) → σ → Prop
  | .ret a => Q a
  | .fail e => E e
  | .step enabled update next => fun g s => ∀ i, enabled i s = true → good (update i s) →
    ∃ g', D.Moves t g s g' (update i s) ∧
      ∀ g'' s'', D.Rely t g' (update i s) g'' s'' → D.Safe good t Q E (next i s) g'' s''

/-- The triple of a program with a postcondition for its results and one for its errors. -/
def Triple (D : Protocol T δ σ) (good : σ → Prop) (t : T) (P : (T → δ) → σ → Prop)
    (p : Prog σ ι ε α) (Q : α → (T → δ) → σ → Prop) (E : ε → (T → δ) → σ → Prop) : Prop :=
  ∀ g s, D.inv g s → P g s → D.Safe good t Q E p g s

/-- An assertion that the steps of the other tasks preserve. -/
def Stable (D : Protocol T δ σ) (t : T) (P : (T → δ) → σ → Prop) : Prop :=
  ∀ g s g' s', D.inv g s → P g s → D.Rely t g s g' s' → P g' s'

/-- An assertion that every step preserves. -/
def Kept (D : Protocol T δ σ) (F : (T → δ) → σ → Prop) : Prop :=
  ∀ g s g' s', F g s → D.evolves (g, s) (g', s') → F g' s'

variable {D : Protocol T δ σ} {good : σ → Prop} {t : T} {g g' g'' : T → δ} {s s' s'' : σ}
  {P P' F F' : (T → δ) → σ → Prop} {Q Q' : α → (T → δ) → σ → Prop}
  {R : β → (T → δ) → σ → Prop} {E E' : ε → (T → δ) → σ → Prop} {p : Prog σ ι ε α}

/-! ## Steps -/

theorem Moves.refl (h : D.inv g s) : D.Moves t g s g s := ⟨h, fun _ _ => rfl, D.refl _⟩

theorem Moves.trans (h : D.Moves t g s g' s') (h' : D.Moves t g' s' g'' s'') :
    D.Moves t g s g'' s'' :=
  ⟨h'.inv, fun u hu => (h'.others u hu).trans (h.others u hu), D.trans h.evolves h'.evolves⟩

theorem Moves.rely {u : T} (h : D.Moves t g s g' s') (hu : u ≠ t) : D.Rely u g s g' s' :=
  ⟨h.inv, h.others u hu, h.evolves⟩

theorem Rely.refl (h : D.inv g s) : D.Rely t g s g s := ⟨h, rfl, D.refl _⟩

theorem Rely.trans (h : D.Rely t g s g' s') (h' : D.Rely t g' s' g'' s'') :
    D.Rely t g s g'' s'' :=
  ⟨h'.inv, h'.own.trans h.own, D.trans h.evolves h'.evolves⟩

/-! ## Stability -/

theorem Kept.stable (h : D.Kept F) : D.Stable t F := fun g s g' s' _ hF hr =>
  h g s g' s' hF hr.evolves

/-- What a task says about its own part of the ghost state is stable. -/
theorem Stable.own (S : δ → Prop) : D.Stable t fun g _ => S (g t) := by
  intro g s g' s' _ hS hr
  rw [hr.own]
  exact hS

theorem Stable.and (h : D.Stable t P) (h' : D.Stable t P') :
    D.Stable t fun g s => P g s ∧ P' g s :=
  fun g s g' s' hinv hP hr => ⟨h g s g' s' hinv hP.1 hr, h' g s g' s' hinv hP.2 hr⟩

theorem Kept.and (h : D.Kept F) (h' : D.Kept F') : D.Kept fun g s => F g s ∧ F' g s :=
  fun g s g' s' hF he => ⟨h g s g' s' hF.1 he, h' g s g' s' hF.2 he⟩

theorem Kept.const (h : Prop) : D.Kept fun _ _ => h := fun _ _ _ _ hF _ => hF

/-! ## Rules -/

theorem Safe.mono (hinv : D.inv g s) (h : D.Safe good t Q E p g s)
    (hQ : ∀ a g s, D.inv g s → Q a g s → Q' a g s)
    (hE : ∀ e g s, D.inv g s → E e g s → E' e g s) : D.Safe good t Q' E' p g s := by
  induction p generalizing g s with
  | ret a => exact hQ a g s hinv h
  | fail e => exact hE e g s hinv h
  | step enabled update next ih =>
    intro i hen hgood
    obtain ⟨g', hmoves, hnext⟩ := h i hen hgood
    exact ⟨g', hmoves, fun g'' s'' hr => ih i s hr.inv (hnext g'' s'' hr)⟩

theorem Safe.frame (hF : D.Kept F) (h : D.Safe good t Q E p g s) (hf : F g s) :
    D.Safe good t (fun a g s => Q a g s ∧ F g s) (fun e g s => E e g s ∧ F g s) p g s := by
  induction p generalizing g s with
  | ret a => exact ⟨h, hf⟩
  | fail e => exact ⟨h, hf⟩
  | step enabled update next ih =>
    intro i hen hgood
    obtain ⟨g', hmoves, hnext⟩ := h i hen hgood
    have hf' : F g' (update i s) := hF _ _ _ _ hf hmoves.evolves
    exact ⟨g', hmoves, fun g'' s'' hr => ih i s (hnext g'' s'' hr) (hF _ _ _ _ hf' hr.evolves)⟩

theorem Safe.bind {β : Type y} {R : β → (T → δ) → σ → Prop} {f : α → Prog σ ι ε β} (hinv : D.inv g s) (h : D.Safe good t Q E p g s)
    (hf : ∀ a g s, D.inv g s → Q a g s → D.Safe good t R E (f a) g s) :
    D.Safe good t R E (p.bind f) g s := by
  induction p generalizing g s with
  | ret a => exact hf a g s hinv h
  | fail e => exact h
  | step enabled update next ih =>
    intro i hen hgood
    obtain ⟨g', hmoves, hnext⟩ := h i hen hgood
    exact ⟨g', hmoves, fun g'' s'' hr => ih i s hr.inv (hnext g'' s'' hr)⟩

theorem Safe.tryCatch {f : ε → Prog σ ι ε α} (hinv : D.inv g s)
    (h : D.Safe good t Q E' p g s)
    (hf : ∀ e g s, D.inv g s → E' e g s → D.Safe good t Q E (f e) g s) :
    D.Safe good t Q E (p.tryCatch f) g s := by
  induction p generalizing g s with
  | ret a => exact h
  | fail e => exact hf e g s hinv h
  | step enabled update next ih =>
    intro i hen hgood
    obtain ⟨g', hmoves, hnext⟩ := h i hen hgood
    exact ⟨g', hmoves, fun g'' s'' hr => ih i s hr.inv (hnext g'' s'' hr)⟩

namespace Triple

theorem pure {a : α} (h : ∀ g s, D.inv g s → P g s → Q a g s) :
    D.Triple good t P (pure a : Prog σ ι ε α) Q E := h

theorem throw {e : ε} (h : ∀ g s, D.inv g s → P g s → E e g s) :
    D.Triple good t P (throw e : Prog σ ι ε α) Q E := h

theorem bind {f : α → Prog σ ι ε β} (h : D.Triple good t P p Q E)
    (hf : ∀ a, D.Triple good t (Q a) (f a) R E) : D.Triple good t P (p >>= f) R E :=
  fun g s hinv hP => Safe.bind hinv (h g s hinv hP) fun a g s hinv hQ => hf a g s hinv hQ

theorem tryCatch (E' : ε → (T → δ) → σ → Prop) {f : ε → Prog σ ι ε α}
    (h : D.Triple good t P p Q E')
    (hf : ∀ e, D.Triple good t (E' e) (f e) Q E) :
    D.Triple good t P (tryCatch p f) Q E :=
  fun g s hinv hP => Safe.tryCatch hinv (h g s hinv hP) fun e g s hinv hE => hf e g s hinv hE

theorem weaken (h : D.Triple good t P p Q E) (hP : ∀ g s, D.inv g s → P' g s → P g s)
    (hQ : ∀ a g s, D.inv g s → Q a g s → Q' a g s)
    (hE : ∀ e g s, D.inv g s → E e g s → E' e g s) : D.Triple good t P' p Q' E' :=
  fun g s hinv hP' => Safe.mono hinv (h g s hinv (hP g s hinv hP')) hQ hE

theorem pre (h : D.Triple good t P p Q E) (hP : ∀ g s, D.inv g s → P' g s → P g s) :
    D.Triple good t P' p Q E := fun g s hinv hP' => h g s hinv (hP g s hinv hP')

/-- A fact that every step preserves may be carried along. -/
theorem frame (hF : D.Kept F) (h : D.Triple good t P p Q E) :
    D.Triple good t (fun g s => P g s ∧ F g s) p (fun a g s => Q a g s ∧ F g s)
      fun e g s => E e g s ∧ F g s :=
  fun g s hinv hP => Safe.frame hF (h g s hinv hP.1) hP.2

theorem ite {c : Prop} [Decidable c] {q : Prog σ ι ε α} (hp : c → D.Triple good t P p Q E)
    (hq : ¬ c → D.Triple good t P q Q E) : D.Triple good t P (if c then p else q) Q E := by
  split
  · next hc => exact hp hc
  · next hc => exact hq hc

/-- One step: the assertions after it must be stable. -/
theorem atomically {f : ι → σ → σ × Except ε α}
    (h : ∀ i g s, D.inv g s → P g s → good (f i s).1 →
      ∃ g', D.Moves t g s g' (f i s).1 ∧ (∀ a, (f i s).2 = .ok a → Q a g' (f i s).1) ∧
        ∀ e, (f i s).2 = .error e → E e g' (f i s).1)
    (hQ : ∀ a, D.Stable t (Q a)) (hE : ∀ e, D.Stable t (E e)) :
    D.Triple good t P (Prog.atomically f) Q E := by
  intro g s hinv hP i _ hgood
  obtain ⟨g', hmoves, hok, herror⟩ := h i g s hinv hP hgood
  refine ⟨g', hmoves, fun g'' s'' hr => ?_⟩
  cases hf : (f i s).2 with
  | ok a =>
    simp only [hf]
    exact hQ a _ _ _ _ hmoves.inv (hok a hf) hr
  | error e =>
    simp only [hf]
    exact hE e _ _ _ _ hmoves.inv (herror e hf) hr

theorem sync {f : σ → σ × Except ε α}
    (h : ∀ g s, D.inv g s → P g s → good (f s).1 →
      ∃ g', D.Moves t g s g' (f s).1 ∧ (∀ a, (f s).2 = .ok a → Q a g' (f s).1) ∧
        ∀ e, (f s).2 = .error e → E e g' (f s).1)
    (hQ : ∀ a, D.Stable t (Q a)) (hE : ∀ e, D.Stable t (E e)) :
    D.Triple good t P (Prog.sync f : Prog σ ι ε α) Q E :=
  atomically (fun _ => h) hQ hE

/-- A call that fails has no effect, so its precondition still holds. -/
theorem call {e : ε} {f : σ → σ × α}
    (h : ∀ g s, D.inv g s → P g s → good (f s).1 →
      ∃ g', D.Moves t g s g' (f s).1 ∧ Q (f s).2 g' (f s).1)
    (hP : D.Stable t P) (hQ : ∀ a, D.Stable t (Q a)) :
    D.Triple good t P (Prog.call e f) Q fun _ => P := by
  refine atomically (fun ok g s hinv hs hgood => ?_) hQ fun _ => hP
  cases ok with
  | true =>
    obtain ⟨g', hmoves, hq⟩ := h g s hinv hs hgood
    refine ⟨g', hmoves, fun a ha => ?_, fun _ he => (nomatch he)⟩
    cases ha
    exact hq
  | false => exact ⟨g, .refl hinv, fun _ ha => (nomatch ha), fun _ _ => hs⟩

/-- A step that cannot fail. -/
theorem modifyGet {f : σ → σ × α}
    (h : ∀ g s, D.inv g s → P g s → good (f s).1 →
      ∃ g', D.Moves t g s g' (f s).1 ∧ Q (f s).2 g' (f s).1)
    (hQ : ∀ a, D.Stable t (Q a)) :
    D.Triple good t P (Prog.modifyGet f : Prog σ ι ε α) Q E := by
  intro g s hinv hP i _ hgood
  obtain ⟨g', hmoves, hq⟩ := h g s hinv hP hgood
  exact ⟨g', hmoves, fun g'' s'' hr => hQ _ _ _ _ _ hmoves.inv hq hr⟩

/-- A step that reads. -/
theorem get {f : σ → α} (h : ∀ g s, D.inv g s → P g s → Q (f s) g s)
    (hQ : ∀ a, D.Stable t (Q a)) : D.Triple good t P (Prog.get f : Prog σ ι ε α) Q E :=
  modifyGet (fun g s hinv hP _ => ⟨g, .refl hinv, h g s hinv hP⟩) hQ

/-- A step whose continuation depends on the choice. -/
theorem step {enabled : ι → σ → Bool} {update : ι → σ → σ} {next : ι → σ → Prog σ ι ε α}
    (M : ι → (T → δ) → σ → Prop)
    (h : ∀ i g s, D.inv g s → P g s → enabled i s = true → good (update i s) →
      ∃ g', D.Moves t g s g' (update i s) ∧ M i g' (update i s))
    (hM : ∀ i, D.Stable t (M i)) (hnext : ∀ i s, D.Triple good t (M i) (next i s) Q E) :
    D.Triple good t P (.step enabled update next) Q E := by
  intro g s hinv hP i hen hgood
  obtain ⟨g', hmoves, hm⟩ := h i g s hinv hP hen hgood
  exact ⟨g', hmoves, fun g'' s'' hr => hnext i s g'' s'' hr.inv (hM i _ _ _ _ hmoves.inv hm hr)⟩

/-- An attempt ends with a result that says which postcondition holds. -/
theorem attempt (h : D.Triple good t P p Q E) :
    D.Triple good t P p.attempt (fun r => r.casesOn E Q) E' := by
  let Q' : Except ε α → (T → δ) → σ → Prop := fun r => r.casesOn E Q
  have hreturn : ∀ a g s, D.inv g s → Q a g s →
      D.Safe good t Q' E (.ret (.ok a) : Prog σ ι ε (Except ε α)) g s := fun _ _ _ _ hQ => hQ
  have hthrow : ∀ e g s, D.inv g s → E e g s →
      D.Safe good t Q' E' (.ret (.error e) : Prog σ ι ε (Except ε α)) g s := fun _ _ _ _ hE => hE
  exact fun g s hinv hP => Safe.tryCatch hinv (Safe.bind hinv (h g s hinv hP) hreturn) hthrow

end Triple

/-- A task that runs alone makes one move. -/
theorem Safe.runAlone (hgood : ∀ s, good s) {i : ι} {r : Except ε α} (hinv : D.inv g s)
    (h : D.Safe good t Q E p g s) (hr : p.runAlone i s = some (s', r)) :
    ∃ g', D.Moves t g s g' s' ∧ (∀ a, r = .ok a → Q a g' s') ∧ ∀ e, r = .error e → E e g' s' := by
  induction p generalizing g s with
  | ret a =>
    cases hr
    exact ⟨g, .refl hinv, fun _ ha => Except.ok.inj ha ▸ h, fun _ he => (nomatch he)⟩
  | fail e =>
    cases hr
    exact ⟨g, .refl hinv, fun _ ha => (nomatch ha), fun _ he => Except.error.inj he ▸ h⟩
  | step enabled update next ih =>
    obtain ⟨hen, hr⟩ := Option.ite_none_right_eq_some.mp hr
    obtain ⟨g₁, hmoves, hnext⟩ := h i hen (hgood _)
    obtain ⟨g₂, hmoves', hresult⟩ := ih i s hmoves.inv (hnext _ _ (.refl hmoves.inv)) hr
    exact ⟨g₂, hmoves.trans hmoves', hresult⟩

/-! ## Pools -/

variable {jobs : T → Prog σ ι ε α} {pre : T → (T → δ) → σ → Prop}
  {post : T → α → (T → δ) → σ → Prop} {err : T → ε → (T → δ) → σ → Prop}

/-- Where a task of a verified pool stands: it has not begun, and its precondition holds, or
what is left of it is safe whatever the other tasks do next. -/
def Stands (D : Protocol T δ σ) (good : σ → Prop) (jobs : T → Prog σ ι ε α)
    (pre : T → (T → δ) → σ → Prop) (post : T → α → (T → δ) → σ → Prop)
    (err : T → ε → (T → δ) → σ → Prop) (c : Pool T σ ι ε α) (g : T → δ) (t : T) : Prop :=
  (c.started t = false ∧ c.prog t = jobs t ∧ pre t g c.state) ∨
    c.started t = true ∧ ∀ g' s', D.Rely t g c.state g' s' →
      D.Safe good t (post t) (err t) (c.prog t) g' s'

/-- A task that is not in flight has not begun or has ended. -/
theorem Stands.idle {c : Pool T σ ι ε α} (h : D.Stands good jobs pre post err c g t)
    (hinv : D.inv g c.state) (hidle : ¬ c.InFlight t) :
    pre t g c.state ∨ (∃ a, post t a g c.state) ∨ ∃ e, err t e g c.state := by
  rcases h with ⟨_, _, hP⟩ | ⟨hstarted, hsafe⟩
  · exact .inl hP
  · have hnow := hsafe g c.state (.refl hinv)
    cases hp : c.prog t with
    | ret a =>
      rw [hp] at hnow
      exact .inr (.inl ⟨a, hnow⟩)
    | fail e =>
      rw [hp] at hnow
      exact .inr (.inr ⟨e, hnow⟩)
    | step enabled update next =>
      exact absurd ⟨hstarted, by rw [hp]; rfl⟩ hidle

/-- A task with a step to take that has returned. -/
theorem Stands.returned (h : D.Stands good jobs pre post err c g t) (hinv : D.inv g c.state)
    (hjob : (jobs t).isDone = false) (hp : c.prog t = .ret a) : post t a g c.state := by
  rcases h with ⟨_, hprog, _⟩ | ⟨_, hsafe⟩
  · rw [← hprog, hp] at hjob
    cases hjob
  · have hnow := hsafe g c.state (.refl hinv)
    rw [hp] at hnow
    exact hnow

/-- A task with a step to take that has failed. -/
theorem Stands.failed (h : D.Stands good jobs pre post err c g t) (hinv : D.inv g c.state)
    (hjob : (jobs t).isDone = false) (hp : c.prog t = .fail e) : err t e g c.state := by
  rcases h with ⟨_, hprog, _⟩ | ⟨_, hsafe⟩
  · rw [← hprog, hp] at hjob
    cases hjob
  · have hnow := hsafe g c.state (.refl hinv)
    rw [hp] at hnow
    exact hnow

variable [DecidableEq T]

theorem Stands.step (hpre : ∀ t, D.Stable t (pre t))
    (hjobs : ∀ t, D.Triple good t (pre t) (jobs t) (post t) (err t))
    {c c' : Pool T σ ι ε α} {e : T × ι} (hinv : D.inv g c.state)
    (h : ∀ t, D.Stands good jobs pre post err c g t) (hs : c.Step good e c') :
    ∃ g', D.inv g' c'.state ∧ D.evolves (g, c.state) (g', c'.state) ∧
      ∀ t, D.Stands good jobs pre post err c' g' t := by
  obtain ⟨hs, hgood⟩ := hs
  obtain ⟨enabled, update, next, hp, hen, rfl⟩ := Pool.step_cases hs
  have hsafe : D.Safe good e.1 (post e.1) (err e.1) (c.prog e.1) g c.state := by
    rcases h e.1 with ⟨_, hjob, hP⟩ | ⟨_, hsafe⟩
    · rw [hjob]
      exact hjobs e.1 g c.state hinv hP
    · exact hsafe g c.state (.refl hinv)
  rw [hp] at hsafe
  obtain ⟨g', hmoves, hnext⟩ := hsafe e.2 hen hgood
  refine ⟨g', hmoves.inv, hmoves.evolves, fun u => ?_⟩
  rcases eq_or_ne u e.1 with rfl | hu
  · refine .inr ⟨Function.update_self .., fun g'' s'' hr => ?_⟩
    simp only [Function.update_self]
    exact hnext g'' s'' hr
  · rcases h u with ⟨hnot, hjob, hP⟩ | ⟨hstarted, hsafe⟩
    · refine .inl ⟨?_, ?_, hpre u _ _ _ _ hinv hP (hmoves.rely hu)⟩
      · exact (Function.update_of_ne hu ..).trans hnot
      · exact (Function.update_of_ne hu ..).trans hjob
    · refine .inr ⟨(Function.update_of_ne hu ..).trans hstarted, fun g'' s'' hr => ?_⟩
      simp only [Function.update_of_ne hu]
      exact hsafe g'' s'' ((hmoves.rely hu).trans hr)

/-- From where its tasks stand, a verified pool keeps the protocol. -/
theorem Stands.run (hpre : ∀ t, D.Stable t (pre t))
    (hjobs : ∀ t, D.Triple good t (pre t) (jobs t) (post t) (err t))
    {c c' : Pool T σ ι ε α} {es : List (T × ι)} (hinv : D.inv g c.state)
    (h : ∀ t, D.Stands good jobs pre post err c g t) (hrun : c.Run good es c') :
    ∃ g', D.inv g' c'.state ∧ D.evolves (g, c.state) (g', c'.state) ∧
      ∀ t, D.Stands good jobs pre post err c' g' t := by
  refine hrun.invariant (P := fun c' => ∃ g', D.inv g' c'.state ∧
    D.evolves (g, c.state) (g', c'.state) ∧ ∀ t, D.Stands good jobs pre post err c' g' t) ?_ ?_
  · intro c₁ e c₂ h hs
    obtain ⟨g₁, hinv, hevolves, hstands⟩ := h
    obtain ⟨g₂, hinv', hevolves', hstands'⟩ := Stands.step hpre hjobs hinv hstands hs
    exact ⟨g₂, hinv', D.trans hevolves hevolves', hstands'⟩
  · exact ⟨g, hinv, D.refl _, h⟩

omit [DecidableEq T] in
/-- Where the tasks of a pool stand before its run. -/
theorem Stands.init (hinit : ∀ t, pre t g s) (t : T) :
    D.Stands good jobs pre post err (Pool.init s jobs) g t :=
  .inl ⟨rfl, rfl, hinit t⟩

/-- A pool whose tasks are verified one by one keeps the protocol in every run. -/
theorem sound (pre : T → (T → δ) → σ → Prop) (post : T → α → (T → δ) → σ → Prop)
    (err : T → ε → (T → δ) → σ → Prop) (hpre : ∀ t, D.Stable t (pre t))
    (hjobs : ∀ t, D.Triple good t (pre t) (jobs t) (post t) (err t))
    (hinv : D.inv g s) (hinit : ∀ t, pre t g s) {es : List (T × ι)} {c : Pool T σ ι ε α}
    (hrun : (Pool.init s jobs).Run good es c) :
    ∃ g, D.inv g c.state ∧ ∀ t, D.Stands good jobs pre post err c g t := by
  obtain ⟨g', hinv', -, hstands⟩ := Stands.run hpre hjobs hinv (Stands.init hinit) hrun
  exact ⟨g', hinv', hstands⟩

end Protocol
