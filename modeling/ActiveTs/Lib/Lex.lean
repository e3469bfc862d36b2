import Mathlib.Data.List.Basic
import Mathlib.Order.Compare

/-! # Encodings that keep the order of lists

Lists are compared item by item. When every item is encoded as a list of codes, and the codes alone
tell two different items apart in the order of the items, then the encoded lists are in the order of
the lists. -/

variable {α : Type u} {β : Type v}

theorem List.compareLex_append_same {cmp : α → α → Ordering} [Std.ReflCmp cmp] (as xs ys : List α) :
    List.compareLex cmp (as ++ xs) (as ++ ys) = List.compareLex cmp xs ys := by
  induction as with
  | nil => rfl
  | cons a as ih =>
    have hself : cmp a a = .eq := Std.ReflCmp.compare_self
    rw [List.cons_append, List.cons_append, List.compareLex_cons_cons, hself, Ordering.eq_then, ih]

/-- `encode` tells items apart, in the order of `cmp`, whatever follows them. -/
structure OrderEncoding (cmp : α → α → Ordering) (cmpCode : β → β → Ordering) (encode : α → List β) :
    Prop where
  nonempty : ∀ a, encode a ≠ []
  order : ∀ {a b}, a ≠ b → ∀ xs ys,
    List.compareLex cmpCode (encode a ++ xs) (encode b ++ ys) = cmp a b

namespace OrderEncoding

variable {cmp : α → α → Ordering} {cmpCode : β → β → Ordering} {encode : α → List β}

/-- One direction is enough. -/
theorem of_lt [Std.OrientedCmp cmp] [Std.LawfulEqCmp cmp] [Std.OrientedCmp cmpCode]
    (nonempty : ∀ a, encode a ≠ [])
    (h : ∀ {a b}, cmp a b = .lt → ∀ xs ys,
      List.compareLex cmpCode (encode a ++ xs) (encode b ++ ys) = .lt) :
    OrderEncoding cmp cmpCode encode where
  nonempty := nonempty
  order := by
    intro a b hab xs ys
    cases hcmp : cmp a b with
    | lt => exact h hcmp xs ys
    | eq => exact absurd (Std.LawfulEqCmp.eq_of_compare hcmp) hab
    | gt =>
      have hlt : List.compareLex cmpCode (encode b ++ ys) (encode a ++ xs) = .lt :=
        h (Std.OrientedCmp.lt_of_gt hcmp) ys xs
      have hswap : List.compareLex cmpCode (encode a ++ xs) (encode b ++ ys) =
          (List.compareLex cmpCode (encode b ++ ys) (encode a ++ xs)).swap :=
        Std.OrientedCmp.eq_swap
      rw [hswap, hlt]
      rfl

/-- Items in front of different ones do not matter, different ones decide. -/
theorem compareLex_cons [Std.LawfulEqCmp cmp] [Std.ReflCmp cmpCode]
    (h : OrderEncoding cmp cmpCode encode) (a b : α) (xs ys : List β) :
    List.compareLex cmpCode (encode a ++ xs) (encode b ++ ys) =
      (cmp a b).then (List.compareLex cmpCode xs ys) := by
  by_cases hab : a = b
  · subst hab
    have hself : cmp a a = .eq := Std.ReflCmp.compare_self
    rw [List.compareLex_append_same, hself, Ordering.eq_then]
  · rw [h.order hab]
    cases hcmp : cmp a b with
    | lt => rfl
    | eq => exact absurd (Std.LawfulEqCmp.eq_of_compare hcmp) hab
    | gt => rfl

theorem compareLex_flatMap [Std.LawfulEqCmp cmp] [Std.ReflCmp cmpCode]
    (h : OrderEncoding cmp cmpCode encode) (as bs : List α) :
    List.compareLex cmpCode (as.flatMap encode) (bs.flatMap encode) = List.compareLex cmp as bs := by
  induction as generalizing bs with
  | nil =>
    cases bs with
    | nil => rfl
    | cons b bs =>
      obtain ⟨c, cs, hcode⟩ := List.exists_cons_of_ne_nil (h.nonempty b)
      rw [List.flatMap_cons, hcode]
      rfl
  | cons a as ih =>
    cases bs with
    | nil =>
      obtain ⟨c, cs, hcode⟩ := List.exists_cons_of_ne_nil (h.nonempty a)
      rw [List.flatMap_cons, hcode]
      rfl
    | cons b bs =>
      rw [List.flatMap_cons, List.flatMap_cons, h.compareLex_cons, List.compareLex_cons_cons, ih]

end OrderEncoding
