import ActiveTs.Lib.JsMap

/-! # Two-level maps

A map of maps, addressed by a name and a key inside the map of that name. Removing the last
key of a name leaves an empty inner map until it is pruned; lookups do not see the
difference. -/

/-- A map from names to maps from keys to values. -/
abbrev JsTable (ν : Type u) (κ : Type v) (β : Type w) := JsMap ν (JsMap κ β)

namespace JsTable

variable {ν : Type u} {κ : Type v} {β : Type w}

/-- All rows, grouped by name, in insertion order. -/
def rows (t : JsTable ν κ β) : List (ν × κ × β) :=
  t.entries.flatMap fun e => e.2.entries.map fun r => (e.1, r.1, r.2)

/-- The address of a row. -/
def addr (r : ν × κ × β) : ν × κ := (r.1, r.2.1)

variable [DecidableEq ν]

/-- The inner map of a name, empty when there is none. -/
def inner (t : JsTable ν κ β) (n : ν) : JsMap κ β := (JsMap.get? t n).getD .empty

theorem inner_set (t : JsTable ν κ β) (n n' : ν) (m : JsMap κ β) :
    inner (JsMap.set t n m) n' = if n = n' then m else t.inner n' := by
  simp only [inner, JsMap.get?_set]
  split <;> rfl

theorem inner_delete (t : JsTable ν κ β) (n n' : ν) :
    inner (JsMap.delete t n) n' = if n = n' then .empty else t.inner n' := by
  simp only [inner, JsMap.get?_delete]
  split <;> rfl

theorem inner_of_get? {t : JsTable ν κ β} {n : ν} {m : JsMap κ β} (h : JsMap.get? t n = some m) :
    t.inner n = m := by
  simp [inner, h]

variable [DecidableEq κ]

def at? (t : JsTable ν κ β) (a : ν × κ) : Option β := (t.inner a.1).get? a.2

def contains (t : JsTable ν κ β) (a : ν × κ) : Bool := (t.at? a).isSome

/-- Set a row, creating the inner map when it is missing. -/
def put (t : JsTable ν κ β) (a : ν × κ) (v : β) : JsTable ν κ β :=
  JsMap.set t a.1 ((t.inner a.1).set a.2 v)

/-- Remove a row and keep its inner map. -/
def remove (t : JsTable ν κ β) (a : ν × κ) : JsTable ν κ β :=
  match JsMap.get? t a.1 with
  | none => t
  | some m => JsMap.set t a.1 (m.delete a.2)

/-- Drop the inner map of a name when it is empty. -/
def prune (t : JsTable ν κ β) (n : ν) : JsTable ν κ β :=
  match JsMap.get? t n with
  | none => t
  | some m => if m.size = 0 then JsMap.delete t n else t

/-! ## Lookups -/

@[simp] theorem at?_empty (a : ν × κ) : at? (JsMap.empty : JsTable ν κ β) a = none := rfl

theorem at?_put (t : JsTable ν κ β) (a b : ν × κ) (v : β) :
    (t.put a v).at? b = if a = b then some v else t.at? b := by
  obtain ⟨n, k⟩ := a
  obtain ⟨n', k'⟩ := b
  by_cases hn : n = n'
  · subst hn
    simp [at?, put, inner_set, JsMap.get?_set]
  · simp [at?, put, inner_set, hn]

@[simp] theorem at?_put_self (t : JsTable ν κ β) (a : ν × κ) (v : β) :
    (t.put a v).at? a = some v := by
  simp [at?_put]

theorem at?_remove (t : JsTable ν κ β) (a b : ν × κ) :
    (t.remove a).at? b = if a = b then none else t.at? b := by
  obtain ⟨n, k⟩ := a
  obtain ⟨n', k'⟩ := b
  cases hm : JsMap.get? t n with
  | none =>
    simp only [remove, hm]
    by_cases hn : n = n'
    · subst hn
      simp [at?, inner, hm]
    · simp [hn]
  | some m =>
    simp only [remove, hm, at?, inner_set]
    by_cases hn : n = n'
    · subst hn
      simp [JsMap.get?_delete, inner_of_get? hm]
    · simp [hn]

@[simp] theorem at?_remove_self (t : JsTable ν κ β) (a : ν × κ) : (t.remove a).at? a = none := by
  simp [at?_remove]

@[simp] theorem at?_prune (t : JsTable ν κ β) (n : ν) (b : ν × κ) :
    (t.prune n).at? b = t.at? b := by
  cases hm : JsMap.get? t n with
  | none => simp [prune, hm]
  | some m =>
    simp only [prune, hm]
    split
    · next h =>
      simp only [at?, inner_delete]
      split
      · next hn => rw [← hn, inner_of_get? hm, JsMap.size_eq_zero_iff.mp h, JsMap.get?_empty]
      · rfl
    · rfl

/-- Setting a name to its own inner map changes no row. -/
theorem at?_set_inner (t : JsTable ν κ β) (n : ν) (b : ν × κ) :
    at? (JsMap.set t n (t.inner n)) b = t.at? b := by
  simp only [at?, inner_set]
  split
  · next hn => rw [hn]
  · rfl

theorem at?_delete (t : JsTable ν κ β) (n : ν) (b : ν × κ) :
    at? (JsMap.delete t n) b = if n = b.1 then none else t.at? b := by
  simp only [at?, inner_delete]
  split <;> rfl

theorem contains_iff {t : JsTable ν κ β} {a : ν × κ} : t.contains a ↔ ∃ v, t.at? a = some v :=
  Option.isSome_iff_exists

theorem contains_eq_false {t : JsTable ν κ β} {a : ν × κ} :
    t.contains a = false ↔ t.at? a = none := by
  simp [contains]

/-! ## Rows -/

theorem mem_rows_iff {t : JsTable ν κ β} {n : ν} {k : κ} {v : β} :
    (n, k, v) ∈ t.rows ↔ t.at? (n, k) = some v := by
  simp only [rows, List.mem_flatMap, List.mem_map, Prod.exists, Prod.mk.injEq]
  constructor
  · rintro ⟨a, m, hm, b, w, hb, rfl, rfl, rfl⟩
    rw [at?, inner_of_get? (JsMap.mem_entries_iff.mp hm)]
    exact JsMap.mem_entries_iff.mp hb
  · intro h
    cases hm : JsMap.get? t n with
    | none => simp [at?, inner, hm] at h
    | some m =>
      rw [at?, inner_of_get? hm] at h
      exact ⟨n, m, JsMap.mem_entries_iff.mpr hm, k, v, JsMap.mem_entries_iff.mpr h, rfl, rfl, rfl⟩

theorem mem_rows_addr_iff {t : JsTable ν κ β} {a : ν × κ} :
    a ∈ t.rows.map addr ↔ ∃ v, t.at? a = some v := by
  rw [List.mem_map]
  constructor
  · rintro ⟨⟨n, k, v⟩, hr, rfl⟩
    exact ⟨v, mem_rows_iff.mp hr⟩
  · rintro ⟨v, hv⟩
    exact ⟨(a.1, a.2, v), mem_rows_iff.mpr hv, rfl⟩

omit [DecidableEq ν] [DecidableEq κ] in
theorem rows_addr_nodup (t : JsTable ν κ β) : (t.rows.map addr).Nodup := by
  rw [rows, List.map_flatMap, List.nodup_flatMap]
  constructor
  · intro e _
    rw [List.map_map]
    have : (addr ∘ fun r : κ × β => (e.1, r.1, r.2)) = Prod.mk e.1 ∘ Prod.fst := rfl
    rw [this, ← List.map_map]
    exact e.2.nodup.map fun _ _ h => (Prod.mk.inj h).2
  · have := t.nodup
    rw [List.Nodup, List.pairwise_map] at this
    refine this.imp fun {a b} hab => ?_
    simp only [Function.onFun, List.disjoint_left, List.mem_map]
    rintro _ ⟨_, ⟨r, _, rfl⟩, rfl⟩ ⟨_, ⟨r', _, rfl⟩, he⟩
    exact hab (Prod.mk.inj he).1.symm

end JsTable
