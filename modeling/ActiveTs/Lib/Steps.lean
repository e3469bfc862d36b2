import Mathlib.Data.List.Basic
import Mathlib.Data.List.Induction

/-! # Labelled runs

Runs of a labelled step relation, with the labels in order, and the induction that carries an
invariant from one step to every reachable state. -/

/-- `Steps R s es t`: the relation `R` leads from `s` to `t` through the labels `es`. -/
inductive Steps {σ : Type u} {ε : Type v} (R : σ → ε → σ → Prop) : σ → List ε → σ → Prop where
  | nil : Steps R s [] s
  | snoc : Steps R s es t → R t e u → Steps R s (es ++ [e]) u

namespace Steps

variable {σ : Type u} {ε : Type v} {R : σ → ε → σ → Prop}

theorem single (h : R s e t) : Steps R s [e] t := snoc nil h

theorem trans (h : Steps R s es t) (h' : Steps R t es' u) : Steps R s (es ++ es') u := by
  induction h' with
  | nil => simpa using h
  | snoc _ hs ih =>
    rw [← List.append_assoc]
    exact snoc ih hs

/-- The last step of a run. -/
theorem snoc_inv (h : Steps R s (es ++ [e]) u) : ∃ t, Steps R s es t ∧ R t e u := by
  generalize hes : es ++ [e] = es' at h
  cases h with
  | nil => simp at hes
  | snoc h hs =>
    obtain ⟨rfl, he⟩ := List.append_inj' hes rfl
    cases he
    exact ⟨_, h, hs⟩

/-- A run can be cut anywhere. -/
theorem append_inv (h : Steps R s (es ++ es') u) : ∃ t, Steps R s es t ∧ Steps R t es' u := by
  induction es' using List.reverseRecOn generalizing u with
  | nil =>
    rw [List.append_nil] at h
    exact ⟨u, h, nil⟩
  | append_singleton es' e ih =>
    rw [← List.append_assoc] at h
    obtain ⟨t, ht, hs⟩ := snoc_inv h
    obtain ⟨t', ht', htail⟩ := ih ht
    exact ⟨t', ht', snoc htail hs⟩

theorem single_inv (h : Steps R s [e] u) : R s e u := by
  obtain ⟨t, ht, hs⟩ := snoc_inv (show Steps R s ([] ++ [e]) u from h)
  generalize hes : ([] : List _) = es at ht
  cases ht with
  | nil => exact hs
  | snoc => simp at hes

/-- Runs of a deterministic relation end in the same state. -/
theorem det (hdet : ∀ {s e t t'}, R s e t → R s e t' → t = t') (h : Steps R s es t)
    (h' : Steps R s es t') : t = t' := by
  induction h generalizing t' with
  | nil =>
    generalize hes : ([] : List _) = es at h'
    cases h' with
    | nil => rfl
    | snoc => simp at hes
  | snoc _ hs ih =>
    obtain ⟨_, h₁, hs'⟩ := h'.snoc_inv
    obtain rfl := ih h₁
    exact hdet hs hs'

/-- Every label of a run is that of a step. -/
theorem mem_step (h : Steps R s es t) {e : ε} (he : e ∈ es) : ∃ u u', R u e u' := by
  induction h with
  | nil => cases he
  | snoc _ hs ih =>
    rcases List.mem_append.mp he with he | he
    · exact ih he
    · cases List.mem_singleton.mp he
      exact ⟨_, _, hs⟩

/-- A state predicate that every step preserves holds along every run. -/
theorem invariant {P : σ → Prop} (hstep : ∀ {s e t}, P s → R s e t → P t)
    (h : Steps R s es t) (hs : P s) : P t := by
  induction h with
  | nil => exact hs
  | snoc _ h ih => exact hstep ih h

/-- A predicate on the state and the history so far, preserved by every step. -/
theorem history {P : σ → List ε → Prop}
    (hstep : ∀ {t es e u}, P t es → R t e u → P u (es ++ [e]))
    (h : Steps R s es t) (hs : P s []) : P t es := by
  induction h with
  | nil => exact hs
  | snoc _ h ih => exact hstep ih h

end Steps
