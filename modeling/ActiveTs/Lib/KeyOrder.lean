import Mathlib.Data.Int.Order.Basic
import Mathlib.Order.Compare

/-! # Orders by several keys

Values are compared by one key after the other, each ascending or descending, and the first key that
is different decides. -/

namespace KeyOrder

variable {α : Type u} {κ : Type v} {cmp : κ → κ → Ordering}

def directed (descending : Bool) (order : Ordering) : Ordering :=
  if descending then order.swap else order

theorem directed_eq_iff {descending : Bool} {order : Ordering} :
    directed descending order = .eq ↔ order = .eq := by
  cases descending <;> cases order <;> decide

/-- Whether each key descends, and the key. -/
def compareBy (cmp : κ → κ → Ordering) : List (Bool × (α → κ)) → α → α → Ordering
  | [], _, _ => .eq
  | (descending, key) :: keys, a, b =>
    (directed descending (cmp (key a) (key b))).then (compareBy cmp keys a b)

theorem transCmp_on [Std.TransCmp cmp] (key : α → κ) : Std.TransCmp fun a b => cmp (key a) (key b) := by
  refine { eq_swap := ?_, isLE_trans := ?_ }
  · intro a b
    exact @Std.OrientedCmp.eq_swap _ cmp _ (key a) (key b)
  · intro a b c hab hbc
    exact @Std.TransCmp.isLE_trans _ cmp _ _ _ _ hab hbc

theorem transCmp_directed [Std.TransCmp cmp] (descending : Bool) (key : α → κ) :
    Std.TransCmp fun a b => directed descending (cmp (key a) (key b)) := by
  cases descending with
  | false => exact transCmp_on key
  | true =>
    have hswap : ∀ a b, directed true (cmp (key a) (key b)) = cmp (key b) (key a) := by
      intro a b
      exact (@Std.OrientedCmp.eq_swap _ cmp _ (key b) (key a)).symm
    refine { eq_swap := ?_, isLE_trans := ?_ }
    · intro a b
      rw [hswap, hswap]
      exact Std.OrientedCmp.eq_swap
    · intro a b c hab hbc
      rw [hswap] at hab hbc ⊢
      exact Std.TransCmp.isLE_trans hbc hab

/-- Such an order is a total preorder. -/
theorem transCmp_compareBy [Std.TransCmp cmp] (keys : List (Bool × (α → κ))) :
    Std.TransCmp (compareBy cmp keys) := by
  induction keys with
  | nil =>
    refine { eq_swap := ?_, isLE_trans := ?_ }
    · intro a b
      rfl
    · intro a b c _ _
      rfl
  | cons first keys ih =>
    obtain ⟨descending, key⟩ := first
    have := @transCmp_directed _ _ cmp _ descending key
    exact inferInstanceAs
      (Std.TransCmp (compareLex (fun a b => directed descending (cmp (key a) (key b)))
        (compareBy cmp keys)))

/-- Values are equal in the order when all their keys are. -/
theorem compareBy_eq_iff {keys : List (Bool × (α → κ))} {a b : α} :
    compareBy cmp keys a b = .eq ↔ ∀ key ∈ keys, cmp (key.2 a) (key.2 b) = .eq := by
  induction keys with
  | nil =>
    refine ⟨fun _ key hkey => ?_, fun _ => rfl⟩
    cases hkey
  | cons first keys ih =>
    rw [compareBy, Ordering.then_eq_eq, directed_eq_iff, ih, List.forall_mem_cons]

/-! ## Signs -/

/-- What the result of a comparison function says. -/
def sign (n : Int) : Ordering := if n < 0 then .lt else if 0 < n then .gt else .eq

@[simp] theorem sign_zero : sign 0 = .eq := rfl

theorem sign_of_neg {n : Int} (h : n < 0) : sign n = .lt := if_pos h

theorem sign_of_pos {n : Int} (h : 0 < n) : sign n = .gt := by
  rw [sign, if_neg (by omega), if_pos h]

theorem sign_neg (n : Int) : sign (-n) = (sign n).swap := by
  rcases Int.lt_trichotomy n 0 with h | rfl | h
  · rw [sign_of_neg h, sign_of_pos (Int.neg_pos_of_neg h)]
    rfl
  · rfl
  · rw [sign_of_pos h, sign_of_neg (Int.neg_neg_of_pos h)]
    rfl

theorem sign_eq_iff {n : Int} : sign n = .eq ↔ n = 0 := by
  rcases Int.lt_trichotomy n 0 with h | rfl | h
  · rw [sign_of_neg h]
    exact ⟨fun h => (by cases h), fun h => (by omega)⟩
  · exact ⟨fun _ => rfl, fun _ => rfl⟩
  · rw [sign_of_pos h]
    exact ⟨fun h => (by cases h), fun h => (by omega)⟩

theorem sign_eq_gt {n : Int} : sign n = .gt ↔ 0 < n := by
  rcases Int.lt_trichotomy n 0 with h | rfl | h
  · rw [sign_of_neg h]
    exact ⟨fun h => (by cases h), fun h => (by omega)⟩
  · exact ⟨fun h => (by cases h), fun h => (by omega)⟩
  · rw [sign_of_pos h]
    exact ⟨fun _ => h, fun _ => rfl⟩

theorem isLE_sign {n : Int} : (sign n).isLE = true ↔ n ≤ 0 := by
  rcases Int.lt_trichotomy n 0 with h | rfl | h
  · rw [sign_of_neg h]
    exact ⟨fun _ => (by omega), fun _ => rfl⟩
  · exact ⟨fun _ => Int.le_refl 0, fun _ => rfl⟩
  · rw [sign_of_pos h]
    exact ⟨fun h => (by cases h), fun h => (by omega)⟩

end KeyOrder
