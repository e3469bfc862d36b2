import Mathlib.Logic.Relation

/-! # Cycles

Facts about the cycles of a relation: they stay on one level of every measure that the relation
does not decrease, and a new edge closes a cycle only where a path leads back. -/

namespace Relation.TransGen

variable {α : Type u} {R R' : α → α → Prop} {a b : α}

theorem measure_le (f : α → Nat) (hR : ∀ a b, R a b → f a ≤ f b) (h : TransGen R a b) :
    f a ≤ f b := by
  induction h with
  | single h => exact hR _ _ h
  | tail _ h ih => exact Nat.le_trans ih (hR _ _ h)

/-- A path that comes back to the level where it began has stayed on it. -/
theorem level (f : α → Nat) (hR : ∀ a b, R a b → f a ≤ f b) (h : TransGen R a b)
    (hle : f b ≤ f a) : TransGen (fun a b => R a b ∧ f a = f b) a b := by
  induction h with
  | single h => exact .single ⟨h, Nat.le_antisymm (hR _ _ h) hle⟩
  | @tail b d hab hbd ih =>
    have hb : f b ≤ f d := hR _ _ hbd
    have ha : f a ≤ f b := hab.measure_le f hR
    exact .tail (ih (Nat.le_trans hb hle)) ⟨hbd, Nat.le_antisymm hb (Nat.le_trans hle ha)⟩

/-- Paths in a relation with one edge more. -/
theorem of_insert {x y : α} (hR : ∀ a b, R' a b → R a b ∨ a = x ∧ b = y) (h : TransGen R' a b) :
    TransGen R a b ∨ ReflTransGen R a x ∧ ReflTransGen R y b := by
  induction h with
  | single h =>
    rcases hR _ _ h with h | ⟨rfl, rfl⟩
    · exact .inl (.single h)
    · exact .inr ⟨.refl, .refl⟩
  | tail _ h ih =>
    rcases hR _ _ h with h | ⟨rfl, rfl⟩
    · rcases ih with ih | ⟨hax, hyb⟩
      · exact .inl (ih.tail h)
      · exact .inr ⟨hax, hyb.tail h⟩
    · rcases ih with ih | ⟨hax, -⟩
      · exact .inr ⟨ih.to_reflTransGen, .refl⟩
      · exact .inr ⟨hax, .refl⟩

/-- What every edge out of a set keeps, every path keeps. -/
theorem invariant {P : α → Prop} (hR : ∀ a b, P a → R a b → P b) (h : TransGen R a b) (ha : P a) :
    P b := by
  induction h with
  | single h => exact hR _ _ ha h
  | tail _ h ih => exact hR _ _ ih h

end Relation.TransGen
