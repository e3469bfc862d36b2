import Mathlib.Data.List.Forall2

/-! # Results that can fail

When a computation in `Except` returns, each of its parts returned. -/

namespace Except

variable {ε : Type u} {α β : Type v}

theorem bind_eq_ok {x : Except ε α} {f : α → Except ε β} {b : β} :
    (x >>= f) = .ok b ↔ ∃ a, x = .ok a ∧ f a = .ok b := by
  cases x with
  | error e =>
    constructor
    · exact fun h => nomatch h
    · rintro ⟨_, h, _⟩
      cases h
  | ok a =>
    constructor
    · exact fun h => ⟨a, rfl, h⟩
    · rintro ⟨_, hx, h⟩
      cases hx
      exact h

theorem bind_of_eq_ok {x : Except ε α} {f : α → Except ε β} {a : α} (h : x = .ok a) :
    x.bind f = f a := by
  rw [h]
  rfl

theorem toOption_eq_some {x : Except ε α} {a : α} : x.toOption = some a ↔ x = .ok a := by
  cases x with
  | error e =>
    constructor
    · intro h
      cases h
    · intro h
      cases h
  | ok a' =>
    constructor
    · intro h
      exact congrArg Except.ok (Option.some.inj h)
    · intro h
      exact congrArg some (Except.ok.inj h)

theorem map_eq_ok {x : Except ε α} {f : α → β} {b : β} :
    x.map f = .ok b ↔ ∃ a, x = .ok a ∧ f a = b := by
  cases x with
  | error e =>
    constructor
    · exact fun h => nomatch h
    · rintro ⟨_, h, _⟩
      cases h
  | ok a => simp [Except.map]

/-- A loop of checks passes when every check does. -/
theorem forM_eq_ok {l : List γ} {f : γ → Except ε PUnit} :
    l.forM f = .ok ⟨⟩ ↔ ∀ x ∈ l, f x = .ok ⟨⟩ := by
  induction l with
  | nil => exact ⟨fun _ x hx => (nomatch hx), fun _ => rfl⟩
  | cons x l ih =>
    change (f x >>= fun _ => l.forM f) = _ ↔ _
    rw [bind_eq_ok, List.forall_mem_cons]
    constructor
    · rintro ⟨⟨⟩, hx, h⟩
      exact ⟨hx, ih.mp h⟩
    · rintro ⟨hx, h⟩
      exact ⟨⟨⟩, hx, ih.mpr h⟩

/-- A loop returns when every turn does, with what the turns give. -/
theorem mapM_of_forall {γ : Type w} {f : γ → Except ε α} {R : γ → α → Prop} {l : List γ}
    (h : ∀ x ∈ l, ∃ y, f x = .ok y ∧ R x y) : ∃ l', l.mapM f = .ok l' ∧ List.Forall₂ R l l' := by
  induction l with
  | nil => exact ⟨[], rfl, .nil⟩
  | cons x l ih =>
    rw [List.forall_mem_cons] at h
    obtain ⟨⟨y, hy, hR⟩, hrest⟩ := h
    obtain ⟨l', hl', hall⟩ := ih hrest
    refine ⟨y :: l', ?_, .cons hR hall⟩
    rw [List.mapM_cons, hy, hl']
    rfl

theorem mapM_eq_ok {γ : Type w} {f : γ → Except ε α} {l : List γ} {l' : List α} :
    l.mapM f = .ok l' ↔ List.Forall₂ (fun x y => f x = .ok y) l l' := by
  induction l generalizing l' with
  | nil =>
    rw [List.forall₂_nil_left_iff]
    exact ⟨fun h => (Except.ok.inj h).symm, fun h => congrArg Except.ok h.symm⟩
  | cons x l ih =>
    rw [List.mapM_cons, bind_eq_ok, List.forall₂_cons_left_iff]
    constructor
    · rintro ⟨y, hy, h⟩
      obtain ⟨ys, hys, he⟩ := bind_eq_ok.mp h
      exact ⟨y, ys, hy, ih.mp hys, (Except.ok.inj he).symm⟩
    · rintro ⟨y, ys, hy, hys, rfl⟩
      exact ⟨y, hy, bind_eq_ok.mpr ⟨ys, ih.mpr hys, rfl⟩⟩

theorem mapM_mem {γ : Type w} {f : γ → Except ε α} {l : List γ} {l' : List α} {x : γ}
    (h : l.mapM f = .ok l') (hx : x ∈ l) : ∃ y ∈ l', f x = .ok y := by
  have hall := mapM_eq_ok.mp h
  clear h
  induction hall with
  | nil => cases hx
  | cons hy _ ih =>
    obtain rfl | hx := List.mem_cons.mp hx
    · exact ⟨_, List.mem_cons_self, hy⟩
    · obtain ⟨y, hmem, hy'⟩ := ih hx
      exact ⟨y, List.mem_cons_of_mem _ hmem, hy'⟩

theorem mapM_eq_map {γ : Type w} {f : γ → Except ε α} {g : γ → α} {l : List γ}
    (h : ∀ x ∈ l, f x = .ok (g x)) : l.mapM f = .ok (l.map g) := by
  induction l with
  | nil => rfl
  | cons x l ih =>
    rw [List.forall_mem_cons] at h
    rw [List.mapM_cons, h.1, ih h.2]
    rfl

/-- A loop undoes what was done to every item when its turn does. -/
theorem mapM_map_self {γ : Type w} {f : γ → Except ε α} {g : α → γ} {l : List α}
    (h : ∀ x ∈ l, f (g x) = .ok x) : (l.map g).mapM f = .ok l := by
  rw [mapM_eq_ok, List.forall₂_map_left_iff, List.forall₂_same]
  exact h

/-- Two loops one after the other are one loop, where the first returns. -/
theorem mapM_mapM {γ : Type w} {f : γ → Except ε α} {g : α → Except ε β} {l : List γ} {l' : List α}
    (h : l.mapM f = .ok l') : l'.mapM g = l.mapM fun x => f x >>= g := by
  have hall := mapM_eq_ok.mp h
  clear h
  induction hall with
  | nil => rfl
  | cons hx _ ih =>
    rw [List.mapM_cons, List.mapM_cons, ih, hx]
    rfl

/-- A loop gives what another loop gives when each of its turns does. -/
theorem mapM_eq_iff {γ : Type w} {f g : γ → Except ε α} {l : List γ} {l' : List α}
    (h : l.mapM f = .ok l') : l.mapM g = .ok l' ↔ ∀ x ∈ l, g x = f x := by
  rw [mapM_eq_ok]
  have hall := mapM_eq_ok.mp h
  clear h
  induction hall with
  | nil =>
    constructor
    · intro _ x hx
      cases hx
    · exact fun _ => .nil
  | cons hx _ ih =>
    rw [List.forall₂_cons, List.forall_mem_cons, hx]
    exact and_congr_right fun _ => ih

end Except
