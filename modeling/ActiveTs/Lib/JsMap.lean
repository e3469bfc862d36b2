import Mathlib.Data.List.Nodup
import Mathlib.Logic.Basic

/-! # Insertion-ordered maps

The `Map` of JavaScript: a finite map that remembers the order in which its keys were
first inserted. Overwriting a key keeps its place, deleting and inserting it again moves it
to the end. The entries carry the proof that no key occurs twice. -/

namespace JsMap

variable {κ : Type u} {β : Type v}

/-! ## Association lists -/

/-- The value of a key in an association list. -/
def lookup [DecidableEq κ] (k : κ) : List (κ × β) → Option β
  | [] => none
  | (a, b) :: rest => if a = k then some b else lookup k rest

/-- Overwrite a key in place, or append it. -/
def insertEntry [DecidableEq κ] (k : κ) (v : β) : List (κ × β) → List (κ × β)
  | [] => [(k, v)]
  | (a, b) :: rest => if a = k then (a, v) :: rest else (a, b) :: insertEntry k v rest

section
variable [DecidableEq κ]

@[simp] theorem lookup_nil (k : κ) : lookup k ([] : List (κ × β)) = none := rfl

theorem lookup_cons (k a : κ) (b : β) (l : List (κ × β)) :
    lookup k ((a, b) :: l) = if a = k then some b else lookup k l := rfl

@[simp] theorem insertEntry_nil (k : κ) (v : β) : insertEntry k v [] = [(k, v)] := rfl

theorem insertEntry_cons (k a : κ) (v b : β) (l : List (κ × β)) :
    insertEntry k v ((a, b) :: l) = if a = k then (a, v) :: l else (a, b) :: insertEntry k v l := rfl

theorem lookup_eq_none {k : κ} {l : List (κ × β)} :
    lookup k l = none ↔ k ∉ l.map Prod.fst := by
  induction l with
  | nil => simp
  | cons e l ih =>
    obtain ⟨a, b⟩ := e
    by_cases h : a = k
    · simp [lookup_cons, h]
    · simp [lookup_cons, h, ih, Ne.symm h]

theorem mem_of_lookup {k : κ} {v : β} {l : List (κ × β)} (h : lookup k l = some v) :
    (k, v) ∈ l := by
  induction l with
  | nil => simp at h
  | cons e l ih =>
    obtain ⟨a, b⟩ := e
    by_cases hk : a = k
    · simp only [lookup_cons, hk, if_true, Option.some.injEq] at h
      simp [hk, h]
    · simp only [lookup_cons, hk, if_false] at h
      exact List.mem_cons_of_mem _ (ih h)

theorem lookup_of_mem {k : κ} {v : β} {l : List (κ × β)} (hl : (l.map Prod.fst).Nodup)
    (h : (k, v) ∈ l) : lookup k l = some v := by
  induction l with
  | nil => cases h
  | cons e l ih =>
    obtain ⟨a, b⟩ := e
    rw [List.map_cons, List.nodup_cons] at hl
    rcases List.mem_cons.mp h with h | h
    · cases h
      simp [lookup_cons]
    · have hne : a ≠ k := fun he => hl.1 (List.mem_map.mpr ⟨(k, v), h, he.symm⟩)
      simp only [lookup_cons, hne, if_false]
      exact ih hl.2 h

theorem lookup_append (k : κ) (l l' : List (κ × β)) :
    lookup k (l ++ l') = (lookup k l).or (lookup k l') := by
  induction l with
  | nil => simp
  | cons e l ih =>
    obtain ⟨a, b⟩ := e
    by_cases h : a = k
    · simp [lookup_cons, h]
    · simp [lookup_cons, h, ih]

/-- Keeping entries by their key keeps the values of the kept keys. -/
theorem lookup_filter_key (p : κ → Bool) (k : κ) (l : List (κ × β)) :
    lookup k (l.filter fun e => p e.1) = if p k then lookup k l else none := by
  induction l with
  | nil => simp
  | cons e l ih =>
    obtain ⟨a, b⟩ := e
    by_cases h : a = k
    · subst h
      cases hp : p a
      · rw [List.filter_cons_of_neg (by simp [hp]), ih, if_neg (by simp [hp]),
          if_neg (by simp)]
      · rw [List.filter_cons_of_pos (by simp [hp])]
        simp [lookup_cons]
    · cases hp : p a
      · rw [List.filter_cons_of_neg (by simp [hp]), ih]
        simp [lookup_cons, h]
      · rw [List.filter_cons_of_pos (by simp [hp])]
        simp [lookup_cons, h, ih]

theorem lookup_insertEntry (k k' : κ) (v : β) (l : List (κ × β)) :
    lookup k' (insertEntry k v l) = if k = k' then some v else lookup k' l := by
  induction l with
  | nil => simp [lookup_cons]
  | cons e l ih =>
    obtain ⟨a, b⟩ := e
    by_cases h : a = k
    · subst h
      by_cases hk : a = k' <;> simp [insertEntry_cons, lookup_cons, hk]
    · by_cases hk : a = k'
      · subst hk
        simp [insertEntry_cons, lookup_cons, h, Ne.symm h]
      · simp [insertEntry_cons, lookup_cons, h, hk, ih]

theorem map_fst_insertEntry (k : κ) (v : β) (l : List (κ × β)) :
    (insertEntry k v l).map Prod.fst =
      if k ∈ l.map Prod.fst then l.map Prod.fst else l.map Prod.fst ++ [k] := by
  induction l with
  | nil => simp
  | cons e l ih =>
    obtain ⟨a, b⟩ := e
    by_cases h : a = k
    · simp [insertEntry_cons, h]
    · by_cases hm : k ∈ l.map Prod.fst
      · simp only [insertEntry_cons, h, if_false, List.map_cons, ih, hm, if_true, List.mem_cons, or_true]
      · have : k ∉ a :: l.map Prod.fst := by
          simp only [List.mem_cons, not_or]
          exact ⟨Ne.symm h, hm⟩
        simp only [insertEntry_cons, h, if_false, List.map_cons, ih, hm, this, List.cons_append]

theorem mem_insertEntry {k : κ} {v : β} {l : List (κ × β)} {e : κ × β}
    (h : e ∈ insertEntry k v l) : e = (k, v) ∨ e ∈ l := by
  induction l with
  | nil => exact .inl (List.mem_singleton.mp h)
  | cons e' l ih =>
    obtain ⟨a, b⟩ := e'
    rw [insertEntry_cons] at h
    split at h
    · next ha =>
      obtain h | h := List.mem_cons.mp h
      · exact .inl (by rw [h, ha])
      · exact .inr (List.mem_cons_of_mem _ h)
    · obtain h | h := List.mem_cons.mp h
      · exact .inr (by rw [h]; exact List.mem_cons_self)
      · exact (ih h).imp_right (List.mem_cons_of_mem _)

theorem nodup_insertEntry {k : κ} {v : β} {l : List (κ × β)} (hl : (l.map Prod.fst).Nodup) :
    ((insertEntry k v l).map Prod.fst).Nodup := by
  rw [map_fst_insertEntry]
  split
  · exact hl
  · next h =>
    rw [List.nodup_append]
    exact ⟨hl, List.nodup_singleton k, fun a ha b hb => by
      rw [List.mem_singleton.mp hb]
      exact fun he => h (he ▸ ha)⟩

theorem lookup_filter_ne (k k' : κ) (l : List (κ × β)) :
    lookup k' (l.filter (fun e => e.1 ≠ k)) = if k = k' then none else lookup k' l := by
  induction l with
  | nil => simp
  | cons e l ih =>
    obtain ⟨a, b⟩ := e
    by_cases h : a = k
    · subst h
      by_cases hk : a = k' <;> simp_all [lookup_cons]
    · by_cases hk : a = k'
      · subst hk
        simp [lookup_cons, h, Ne.symm h]
      · simp_all [lookup_cons]

end

end JsMap

/-- A finite map in insertion order. -/
structure JsMap (κ : Type u) (β : Type v) where
  entries : List (κ × β)
  nodup : (entries.map Prod.fst).Nodup
deriving DecidableEq

namespace JsMap

variable {κ : Type u} {β : Type v}

/-! ## Operations -/

/-- The empty map. -/
def empty : JsMap κ β := ⟨[], List.nodup_nil⟩

instance : Inhabited (JsMap κ β) := ⟨empty⟩

def keys (m : JsMap κ β) : List κ := m.entries.map Prod.fst

def size (m : JsMap κ β) : Nat := m.entries.length

theorem keys_nodup (m : JsMap κ β) : m.keys.Nodup := m.nodup

variable [DecidableEq κ]

def get? (m : JsMap κ β) (k : κ) : Option β := lookup k m.entries

def has (m : JsMap κ β) (k : κ) : Bool := (m.get? k).isSome

def set (m : JsMap κ β) (k : κ) (v : β) : JsMap κ β :=
  ⟨insertEntry k v m.entries, nodup_insertEntry m.nodup⟩

def delete (m : JsMap κ β) (k : κ) : JsMap κ β :=
  ⟨m.entries.filter (fun e => e.1 ≠ k),
    m.nodup.sublist (List.filter_sublist.map Prod.fst)⟩

/-! ## Lookups -/

@[simp] theorem get?_empty (k : κ) : (empty : JsMap κ β).get? k = none := rfl

theorem get?_set (m : JsMap κ β) (k k' : κ) (v : β) :
    (m.set k v).get? k' = if k = k' then some v else m.get? k' :=
  lookup_insertEntry k k' v m.entries

@[simp] theorem get?_set_self (m : JsMap κ β) (k : κ) (v : β) : (m.set k v).get? k = some v := by
  simp [get?_set]

theorem get?_set_of_ne (m : JsMap κ β) {k k' : κ} (v : β) (h : k ≠ k') :
    (m.set k v).get? k' = m.get? k' := by
  simp [get?_set, h]

theorem get?_delete (m : JsMap κ β) (k k' : κ) :
    (m.delete k).get? k' = if k = k' then none else m.get? k' :=
  lookup_filter_ne k k' m.entries

@[simp] theorem get?_delete_self (m : JsMap κ β) (k : κ) : (m.delete k).get? k = none := by
  simp [get?_delete]

theorem get?_delete_of_ne (m : JsMap κ β) {k k' : κ} (h : k ≠ k') :
    (m.delete k).get? k' = m.get? k' := by
  simp [get?_delete, h]

theorem has_iff {m : JsMap κ β} {k : κ} : m.has k ↔ ∃ v, m.get? k = some v :=
  Option.isSome_iff_exists

theorem has_eq_false {m : JsMap κ β} {k : κ} : m.has k = false ↔ m.get? k = none := by
  simp [has]

theorem mem_entries_iff {m : JsMap κ β} {k : κ} {v : β} :
    (k, v) ∈ m.entries ↔ m.get? k = some v :=
  ⟨lookup_of_mem m.nodup, mem_of_lookup⟩

theorem mem_keys_iff {m : JsMap κ β} {k : κ} : k ∈ m.keys ↔ ∃ v, m.get? k = some v := by
  simp only [keys, List.mem_map, Prod.exists, mem_entries_iff]
  exact ⟨fun ⟨a, b, h, he⟩ => he ▸ ⟨b, h⟩, fun ⟨v, h⟩ => ⟨k, v, h, rfl⟩⟩

theorem size_eq_zero_iff {m : JsMap κ β} : m.size = 0 ↔ ∀ k, m.get? k = none := by
  simp only [size, List.length_eq_zero_iff]
  constructor
  · intro h k
    simp [get?, h]
  · intro h
    by_contra hne
    obtain ⟨e, he⟩ := List.exists_mem_of_ne_nil _ hne
    have := mem_entries_iff.mp (show (e.1, e.2) ∈ m.entries from he)
    rw [h] at this
    cases this

/-- `new Map(entries)`. -/
def ofEntries (l : List (κ × β)) : JsMap κ β := l.foldl (fun m e => m.set e.1 e.2) empty

/-- Setting a list of entries of distinct keys. -/
theorem get?_foldl_set {l : List (κ × β)} (hl : (l.map Prod.fst).Nodup) (m : JsMap κ β) (k : κ) :
    (l.foldl (fun m e => m.set e.1 e.2) m).get? k = (lookup k l).or (m.get? k) := by
  induction l generalizing m with
  | nil => simp
  | cons e l ih =>
    obtain ⟨a, b⟩ := e
    rw [List.map_cons, List.nodup_cons] at hl
    rw [List.foldl_cons, ih hl.2]
    by_cases h : a = k
    · subst h
      simp [lookup_cons, lookup_eq_none.mpr hl.1]
    · simp [lookup_cons, h, get?_set_of_ne m b h]

theorem mem_of_get?_foldl {l : List (κ × β)} {m : JsMap κ β} {k : κ} {v : β}
    (h : (l.foldl (fun m e => m.set e.1 e.2) m).get? k = some v) :
    (k, v) ∈ l ∨ m.get? k = some v := by
  induction l generalizing m with
  | nil => exact .inr h
  | cons e l ih =>
    rcases ih h with hmem | hget
    · exact .inl (List.mem_cons_of_mem _ hmem)
    · rw [get?_set] at hget
      split at hget
      · next he =>
        cases hget
        exact .inl (he ▸ List.mem_cons_self)
      · exact .inr hget

theorem mem_of_get?_ofEntries {l : List (κ × β)} {k : κ} {v : β}
    (h : (ofEntries l).get? k = some v) : (k, v) ∈ l := by
  rcases mem_of_get?_foldl h with hmem | hget
  · exact hmem
  · cases hget

end JsMap
