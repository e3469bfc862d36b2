import Mathlib.Data.List.Basic

/-! # Three-valued logic

The conditions of SQL: `none` is unknown. A row is selected by a condition that is true; whether a
condition is false or unknown makes no difference below conjunctions and disjunctions. -/

/-- A truth value; `none` is unknown. -/
abbrev Truth := Option Bool

namespace Truth

def and : Truth → Truth → Truth
  | some true, some true => some true
  | some false, _ => some false
  | _, some false => some false
  | _, _ => none

def or : Truth → Truth → Truth
  | some false, some false => some false
  | some true, _ => some true
  | _, some true => some true
  | _, _ => none

def not : Truth → Truth := Option.map Bool.not

/-- Unknown counts as false. -/
def orFalse (t : Truth) : Truth := some (t.getD false)

@[simp] theorem and_eq_true {s t : Truth} : and s t = some true ↔ s = some true ∧ t = some true := by
  rcases s with _ | _ | _ <;> rcases t with _ | _ | _ <;> simp [and]

@[simp] theorem or_eq_true {s t : Truth} : or s t = some true ↔ s = some true ∨ t = some true := by
  rcases s with _ | _ | _ <;> rcases t with _ | _ | _ <;> simp [or]

@[simp] theorem not_eq_true {t : Truth} : not t = some true ↔ t = some false := by
  rcases t with _ | _ | _ <;> simp [not]

@[simp] theorem orFalse_eq_true {t : Truth} : orFalse t = some true ↔ t = some true := by
  rcases t with _ | _ | _ <;> simp [orFalse]

@[simp] theorem orFalse_eq_false {t : Truth} : orFalse t = some false ↔ t ≠ some true := by
  rcases t with _ | _ | _ <;> simp [orFalse]

theorem foldl_and_eq_true (t : Truth) (ts : List Truth) :
    ts.foldl and t = some true ↔ t = some true ∧ ∀ u ∈ ts, u = some true := by
  induction ts generalizing t with
  | nil => simp
  | cons u ts ih =>
    rw [List.foldl_cons, ih, and_eq_true, List.forall_mem_cons]
    tauto

theorem foldl_or_eq_true (t : Truth) (ts : List Truth) :
    ts.foldl or t = some true ↔ t = some true ∨ ∃ u ∈ ts, u = some true := by
  induction ts generalizing t with
  | nil => simp
  | cons u ts ih =>
    rw [List.foldl_cons, ih, or_eq_true, List.exists_mem_cons_iff]
    tauto

end Truth
