import ActiveTs.Lib.JsMap

/-! # Buckets and chunks

Rows are put in the buckets of their keys, and a list is cut in chunks of one size. A bucket has the
rows of its key in their order, and the chunks together are the list. -/

namespace Buckets

variable {κ : Type u} {ρ α : Type v}

/-! ## Buckets -/

section
variable [DecidableEq κ]

/-- A row is pushed to the bucket of a key. -/
def push (row : ρ) (buckets : List (κ × List ρ)) (key : κ) : List (κ × List ρ) :=
  JsMap.insertEntry key ((JsMap.lookup key buckets).getD [] ++ [row]) buckets

/-- The buckets of rows that come with their keys. -/
def ofRows (rows : List (ρ × List κ)) : List (κ × List ρ) :=
  rows.foldl (fun buckets row => row.2.foldl (push row.1) buckets) []

def bucket (key : κ) (buckets : List (κ × List ρ)) : List ρ := (JsMap.lookup key buckets).getD []

theorem bucket_push (row : ρ) (buckets : List (κ × List ρ)) (key key' : κ) :
    bucket key' (push row buckets key) =
      bucket key' buckets ++ if key = key' then [row] else [] := by
  rw [bucket, push, JsMap.lookup_insertEntry]
  by_cases h : key = key'
  · subst h
    simp [bucket]
  · simp [h, bucket]

/-- The keys of a row are different, so that it is in a bucket at most once. -/
theorem bucket_pushAll {keys : List κ} (hkeys : keys.Nodup) (row : ρ) (buckets : List (κ × List ρ))
    (key : κ) :
    bucket key (keys.foldl (push row) buckets) =
      bucket key buckets ++ if key ∈ keys then [row] else [] := by
  induction keys generalizing buckets with
  | nil => simp
  | cons k keys ih =>
    rw [List.nodup_cons] at hkeys
    rw [List.foldl_cons, ih hkeys.2, bucket_push, List.append_assoc]
    by_cases h : k = key
    · subst h
      simp [hkeys.1]
    · simp [h, Ne.symm h]

theorem bucket_foldl {rows : List (ρ × List κ)} (hrows : ∀ row ∈ rows, row.2.Nodup)
    (buckets : List (κ × List ρ)) (key : κ) :
    bucket key (rows.foldl (fun buckets row => row.2.foldl (push row.1) buckets) buckets) =
      bucket key buckets ++ (rows.filter fun row => key ∈ row.2).map Prod.fst := by
  induction rows generalizing buckets with
  | nil => simp
  | cons row rows ih =>
    rw [List.forall_mem_cons] at hrows
    rw [List.foldl_cons, ih hrows.2, bucket_pushAll hrows.1, List.append_assoc]
    by_cases h : key ∈ row.2
    · simp [h]
    · simp [h]

/-- A bucket has the rows of its key, in their order. -/
theorem bucket_ofRows {rows : List (ρ × List κ)} (hrows : ∀ row ∈ rows, row.2.Nodup) (key : κ) :
    bucket key (ofRows rows) = (rows.filter fun row => key ∈ row.2).map Prod.fst := by
  rw [ofRows, bucket_foldl hrows]
  rfl

end

/-! ## Chunks -/

/-- The chunks that are cut off, one a turn. -/
def chunksFrom (size : Nat) : Nat → List α → List (List α)
  | 0, _ => []
  | turns + 1, items =>
    if items.isEmpty then [] else items.take size :: chunksFrom size turns (items.drop size)

def chunks (size : Nat) (items : List α) : List (List α) := chunksFrom size items.length items

theorem flatten_chunksFrom (hsize : 0 < size) {turns : Nat} {items : List α}
    (hturns : items.length ≤ turns) : (chunksFrom size turns items).flatten = items := by
  induction turns generalizing items with
  | zero =>
    rw [List.length_eq_zero_iff.mp (Nat.le_zero.mp hturns)]
    rfl
  | succ turns ih =>
    rw [chunksFrom]
    split
    · next hempty => exact (List.isEmpty_iff.mp hempty).symm
    · have hdrop : (items.drop size).length ≤ turns := by
        rw [List.length_drop]
        omega
      rw [List.flatten_cons, ih hdrop, List.take_append_drop]

theorem flatten_chunks (hsize : 0 < size) (items : List α) : (chunks size items).flatten = items :=
  flatten_chunksFrom hsize (Nat.le_refl _)

/-- An item lies in one of the chunks, between others. -/
theorem exists_chunk (hsize : 0 < size) {items : List α} {item : α} (h : item ∈ items) :
    ∃ before own after, chunks size items = before ++ own :: after ∧ item ∈ own := by
  rw [← flatten_chunks hsize items] at h
  obtain ⟨own, hown, hitem⟩ := List.mem_flatten.mp h
  obtain ⟨before, after, hsplit⟩ := List.append_of_mem hown
  exact ⟨before, own, after, hsplit, hitem⟩

/-- Items with different keys: the key of an item is in no other chunk. -/
theorem key_ne_of_other_chunk {f : α → β} (hsize : 0 < size) {items : List α}
    (hnodup : (items.map f).Nodup) (hsplit : chunks size items = before ++ own :: after)
    (hown : item ∈ own) (hchunk : chunk ∈ before ++ after) (hother : other ∈ chunk) :
    f other ≠ f item := by
  rw [← flatten_chunks hsize items, hsplit, List.flatten_append, List.flatten_cons, List.map_append,
    List.map_append] at hnodup
  have hitem : f item ∈ own.map f := List.mem_map_of_mem hown
  have hmem {l : List (List α)} (h : chunk ∈ l) : f other ∈ l.flatten.map f :=
    List.mem_map_of_mem (List.mem_flatten.mpr ⟨chunk, h, hother⟩)
  rw [List.nodup_append, List.nodup_append] at hnodup
  obtain ⟨-, ⟨-, -, hafter⟩, hbefore⟩ := hnodup
  intro he
  obtain hchunk | hchunk := List.mem_append.mp hchunk
  · exact hbefore _ (hmem hchunk) _ (List.mem_append_left _ hitem) he
  · exact hafter _ hitem _ (hmem hchunk) he.symm

/-! ## Rows that are loaded chunk by chunk -/

section
variable {γ : Type w} {rows : List ρ} {before after : List γ} {own : γ} {p : γ → ρ → Bool}
  {q : ρ → Bool}

/-- Only one chunk has rows, and it has the ones that are asked for. -/
theorem flatMap_filter_of_alone (hown : ∀ row ∈ rows, p own row = q row)
    (hothers : ∀ chunk ∈ before ++ after, ∀ row ∈ rows, p chunk row = false) :
    ((before ++ own :: after).flatMap fun chunk => rows.filter (p chunk)) = rows.filter q := by
  have hnone (chunks : List γ) (hchunks : ∀ chunk ∈ chunks, ∀ row ∈ rows, p chunk row = false) :
      (chunks.flatMap fun chunk => rows.filter (p chunk)) = [] := by
    rw [List.flatMap_eq_nil_iff]
    intro chunk hchunk
    rw [List.filter_eq_nil_iff]
    intro row hrow
    simp [hchunks chunk hchunk row hrow]
  rw [List.flatMap_append, List.flatMap_cons,
    hnone before fun chunk hchunk => hothers chunk (List.mem_append_left _ hchunk),
    hnone after fun chunk hchunk => hothers chunk (List.mem_append_right _ hchunk),
    List.nil_append, List.append_nil]
  exact List.filter_congr hown

/-- If the chunks give what is asked for and one of them has all of it, then the others have none. -/
theorem alone_of_flatMap_filter (hown : ∀ row ∈ rows, q row = true → p own row = true)
    (h : ((before ++ own :: after).flatMap fun chunk => rows.filter (p chunk)) = rows.filter q) :
    (∀ row ∈ rows, p own row = true → q row = true) ∧
      ∀ chunk ∈ before ++ after, ∀ row ∈ rows, p chunk row = false := by
  rw [List.flatMap_append, List.flatMap_cons] at h
  have hle : (rows.filter q).length ≤ (rows.filter (p own)).length := by
    rw [← List.countP_eq_length_filter, ← List.countP_eq_length_filter]
    exact List.countP_mono_left hown
  have hlength := congrArg List.length h
  simp only [List.length_append] at hlength
  constructor
  · intro row hrow hp
    have hmem : row ∈ rows.filter q := by
      rw [← h]
      simp [hrow, hp]
    exact (List.mem_filter.mp hmem).2
  · intro chunk hchunk row hrow
    have hempty : ∀ chunk ∈ before ++ after, rows.filter (p chunk) = [] := by
      intro chunk hchunk
      obtain hchunk | hchunk := List.mem_append.mp hchunk
      · have hbefore : before.flatMap (fun chunk => rows.filter (p chunk)) = [] :=
          List.length_eq_zero_iff.mp (by omega)
        exact List.flatMap_eq_nil_iff.mp hbefore chunk hchunk
      · have hafter : after.flatMap (fun chunk => rows.filter (p chunk)) = [] :=
          List.length_eq_zero_iff.mp (by omega)
        exact List.flatMap_eq_nil_iff.mp hafter chunk hchunk
    have hrows := List.filter_eq_nil_iff.mp (hempty chunk hchunk) row hrow
    simpa using hrows

end

end Buckets
