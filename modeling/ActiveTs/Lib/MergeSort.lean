import Mathlib.Data.List.Basic

/-! # Bottom-up merge sort

Passes over a list merge its runs in pairs, so that every pass doubles the length of the runs, until
one run is left. -/

namespace MergeSort

variable {α : Type u} (le : α → α → Bool)

/-- Merges every two runs of this width. -/
def pass (width : Nat) (list : List α) : List α :=
  if width = 0 ∨ list = [] then list
  else
    List.merge (list.take width) ((list.drop width).take width) le ++
      pass width (list.drop (2 * width))
termination_by list.length
decreasing_by
  rename_i h
  have := List.length_pos_iff.mpr fun hnil => h (Or.inr hnil)
  rw [List.length_drop]
  omega

/-- `fuel` bounds the passes. -/
def loop : Nat → Nat → List α → List α
  | 0, _, list => list
  | fuel + 1, width, list =>
    if width < list.length then loop fuel (2 * width) (pass le width list) else list

def sort (list : List α) : List α := loop le list.length 1 list

variable {le}

theorem pass_of_done {width : Nat} {list : List α} (h : width = 0 ∨ list = []) :
    pass le width list = list := by
  rw [pass, if_pos h]

theorem pass_nil (width : Nat) : pass le width ([] : List α) = [] := pass_of_done (Or.inr rfl)

theorem pass_of_more {width : Nat} {list : List α} (h : ¬(width = 0 ∨ list = [])) :
    pass le width list = List.merge (list.take width) ((list.drop width).take width) le ++
      pass le width (list.drop (2 * width)) := by
  rw [pass, if_neg h]

theorem loop_succ (fuel width : Nat) (list : List α) : loop le (fuel + 1) width list =
    if width < list.length then loop le fuel (2 * width) (pass le width list) else list := rfl

/-! ## The same items -/

theorem pass_perm (width : Nat) (list : List α) : (pass le width list).Perm list := by
  fun_induction pass le width list with
  | case1 list h => exact .refl list
  | case2 list h ih =>
    have hsplit : list.take width ++ (list.drop width).take width ++ list.drop (2 * width) = list := by
      rw [List.append_assoc, Nat.two_mul, ← List.drop_drop, List.take_append_drop,
        List.take_append_drop]
    have hmerge := (@List.merge_perm_append _ le (list.take width)
      ((list.drop width).take width)).append ih
    rwa [hsplit] at hmerge

theorem loop_perm (fuel width : Nat) (list : List α) : (loop le fuel width list).Perm list := by
  induction fuel generalizing width list with
  | zero => exact .refl list
  | succ fuel ih =>
    rw [loop_succ]
    split
    · exact (ih _ _).trans (pass_perm width list)
    · exact .refl list

/-- The width passes the length before the fuel runs out. -/
theorem loop_fuel {fuel width : Nat} {list : List α} (hwidth : 0 < width)
    (hfuel : list.length ≤ fuel + width) (more : Nat) :
    loop le (fuel + more) width list = loop le fuel width list := by
  induction fuel generalizing width list with
  | zero =>
    cases more with
    | zero => rfl
    | succ more =>
      rw [Nat.zero_add, loop_succ, if_neg (by omega)]
      rfl
  | succ fuel ih =>
    rw [Nat.succ_add, loop_succ, loop_succ]
    split
    · apply ih (by omega)
      rw [(pass_perm width list).length_eq]
      omega
    · rfl

theorem sort_perm (list : List α) : (sort le list).Perm list := loop_perm _ _ _

theorem sort_pair (a b : α) : sort le [a, b] = if le a b then [a, b] else [b, a] := by
  rw [sort, List.length_cons, List.length_singleton, loop_succ,
    if_pos (show 1 < [a, b].length by simp), pass_of_more (by simp), loop_succ, if_neg]
  · change List.merge [a] [b] le ++ pass le 1 [] = _
    rw [pass_nil, List.append_nil, List.cons_merge_cons, List.nil_merge, List.merge_right]
  · change ¬2 * 1 < (List.merge [a] [b] le ++ pass le 1 []).length
    rw [pass_nil, List.append_nil, List.length_merge]
    simp

/-! ## Items that stand for others -/

section
variable {β : Type v} {le' : β → β → Bool} {f : α → β}

theorem pass_map (h : ∀ a b, le a b = le' (f a) (f b)) (width : Nat) (list : List α) :
    pass le' width (list.map f) = (pass le width list).map f := by
  fun_induction pass le width list with
  | case1 list hlist =>
    apply pass_of_done
    rwa [List.map_eq_nil_iff]
  | case2 list hlist ih =>
    rw [pass_of_more (by rwa [List.map_eq_nil_iff]), List.map_append,
      List.map_merge fun a _ b _ => h a b, List.map_take, List.map_take, List.map_drop, ← ih,
      List.map_drop]

theorem loop_map (h : ∀ a b, le a b = le' (f a) (f b)) (fuel width : Nat) (list : List α) :
    loop le' fuel width (list.map f) = (loop le fuel width list).map f := by
  induction fuel generalizing width list with
  | zero => rfl
  | succ fuel ih =>
    rw [loop_succ, loop_succ, List.length_map, pass_map h, ih]
    split <;> rfl

theorem sort_map (h : ∀ a b, le a b = le' (f a) (f b)) (list : List α) : sort le' (list.map f) = (sort le list).map f := by
  rw [sort, List.length_map, loop_map h]
  rfl

end

/-! ## In order -/

/-- Every run of this width is in order. -/
def Runs (le : α → α → Bool) (width : Nat) (list : List α) : Prop :=
  ∀ k, ((list.drop (k * width)).take width).Pairwise fun a b => le a b = true

theorem Runs.drop {width : Nat} {list : List α} (h : Runs le width list) (n : Nat) :
    Runs le width (list.drop (n * width)) := by
  intro k
  rw [List.drop_drop, ← Nat.add_mul]
  exact h (n + k)

/-- The comparison is a total preorder. -/
structure TotalPreorder (le : α → α → Bool) : Prop where
  trans : ∀ a b c, le a b = true → le b c = true → le a c = true
  total : ∀ a b, (le a b || le b a) = true

/-- A run in front of others. -/
theorem runs_append {width : Nat} {first rest : List α}
    (hfirst : first.Pairwise fun a b => le a b = true) (hrest : Runs le width rest)
    (hlength : first.length = width ∨ first.length < width ∧ rest = []) :
    Runs le width (first ++ rest) := by
  intro k
  cases k with
  | zero =>
    rw [Nat.zero_mul, List.drop_zero]
    rcases hlength with rfl | ⟨hlt, rfl⟩
    · rwa [List.take_left]
    · rwa [List.append_nil, List.take_of_length_le (Nat.le_of_lt hlt)]
  | succ k =>
    have hdrop : (first ++ rest).drop ((k + 1) * width) = rest.drop (k * width) := by
      rcases hlength with rfl | ⟨hlt, rfl⟩
      · rw [Nat.succ_mul, Nat.add_comm, ← List.drop_drop, List.drop_left]
      · rw [List.append_nil, List.drop_nil, List.drop_eq_nil_of_le]
        rw [Nat.succ_mul]
        omega
    rw [hdrop]
    exact hrest k

theorem pass_runs (hle : TotalPreorder le) {width : Nat} {list : List α} (hwidth : 0 < width)
    (h : Runs le width list) : Runs le (2 * width) (pass le width list) := by
  fun_induction pass le width list with
  | case1 list hnil =>
    obtain rfl := hnil.resolve_left (by omega)
    intro k
    rw [List.drop_nil, List.take_nil]
    exact List.Pairwise.nil
  | case2 list hne ih =>
    have hmerge := @List.pairwise_merge _ le hle.trans hle.total _ _
      (by simpa using h 0) (by simpa using h 1)
    apply runs_append hmerge (ih (h.drop 2))
    rw [List.length_merge, List.length_take, List.length_take, List.length_drop]
    by_cases hlength : 2 * width ≤ list.length
    · left
      omega
    · right
      refine ⟨by omega, ?_⟩
      rw [List.drop_eq_nil_of_le (by omega), pass_nil]

/-- A run of a list that is no longer than it is the list. -/
theorem Runs.pairwise {width : Nat} {list : List α} (h : Runs le width list)
    (hlength : list.length ≤ width) : list.Pairwise fun a b => le a b = true := by
  have hrun := h 0
  rwa [Nat.zero_mul, List.drop_zero, List.take_of_length_le hlength] at hrun

theorem loop_pairwise (hle : TotalPreorder le) {fuel width : Nat} {list : List α} (hwidth : 0 < width)
    (hfuel : list.length ≤ fuel + width) (h : Runs le width list) :
    (loop le fuel width list).Pairwise fun a b => le a b = true := by
  induction fuel generalizing width list with
  | zero => exact h.pairwise (by omega)
  | succ fuel ih =>
    rw [loop_succ]
    split
    · apply ih (by omega) _ (pass_runs hle hwidth h)
      rw [(pass_perm width list).length_eq]
      omega
    · rename_i hlength
      exact h.pairwise (Nat.not_lt.mp hlength)

theorem sort_pairwise (hle : TotalPreorder le) (list : List α) :
    (sort le list).Pairwise fun a b => le a b = true := by
  apply loop_pairwise hle Nat.one_pos (Nat.le_add_right _ 1)
  intro k
  generalize list.drop (k * 1) = rest
  cases rest with
  | nil => exact List.Pairwise.nil
  | cons a rest => exact List.pairwise_singleton _ a

/-! ## Equal items -/

/-- The items of the runs before a boundary are related to those behind it. -/
def Parted (S : α → α → Prop) (width : Nat) (list : List α) : Prop :=
  ∀ k, ∀ a ∈ list.take (k * width), ∀ b ∈ list.drop (k * width), S a b

section
variable {S : α → α → Prop} {le' : α → α → Bool}

theorem merge_congr {first second : List α} (h : ∀ a ∈ first, ∀ b ∈ second, le a b = le' a b) :
    List.merge first second le = List.merge first second le' := by
  induction first generalizing second with
  | nil => rw [List.nil_merge, List.nil_merge]
  | cons a first ih =>
    induction second with
    | nil => rw [List.merge_right, List.merge_right]
    | cons b second ih' =>
      rw [List.cons_merge_cons, List.cons_merge_cons, h a List.mem_cons_self b List.mem_cons_self]
      split
      · rw [ih fun a ha b hb => h a (List.mem_cons_of_mem _ ha) b hb]
      · rw [ih' fun a ha b hb => h a ha b (List.mem_cons_of_mem _ hb)]

theorem Parted.drop {width : Nat} {list : List α} (h : Parted S width list) (n : Nat) :
    Parted S width (list.drop (n * width)) := by
  intro k a ha b hb
  refine h (n + k) a ?_ b ?_
  · rw [Nat.add_mul, List.take_add]
    exact List.mem_append_right _ ha
  · rwa [List.drop_drop, ← Nat.add_mul] at hb

/-- A pass compares items of a run with items of the next one only. -/
theorem pass_congr (hle : ∀ a b, S a b → le a b = le' a b) {width : Nat} {list : List α}
    (h : Parted S width list) : pass le width list = pass le' width list := by
  fun_induction pass le width list with
  | case1 list hdone => exact (pass_of_done hdone).symm
  | case2 list hmore ih =>
    have hmerge : List.merge (list.take width) ((list.drop width).take width) le =
        List.merge (list.take width) ((list.drop width).take width) le' := by
      apply merge_congr
      intro a ha b hb
      have hab := h 1 a (by rwa [Nat.one_mul]) b
      rw [Nat.one_mul] at hab
      exact hle a b (hab (List.mem_of_mem_take hb))
    rw [ih (h.drop 2), hmerge]
    exact (pass_of_more hmore).symm

theorem pass_parted {width : Nat} {list : List α} (h : Parted S width list) :
    Parted S (2 * width) (pass le width list) := by
  fun_induction pass le width list with
  | case1 list hdone =>
    intro k a ha b hb
    rcases hdone with rfl | rfl
    · simp at ha
    · rw [List.drop_nil] at hb
      cases hb
  | case2 list hmore ih =>
    intro k a ha b hb
    cases k with
    | zero =>
      rw [Nat.zero_mul] at ha
      cases ha
    | succ k =>
      have hlength : (List.merge (list.take width) ((list.drop width).take width) le).length =
          min (2 * width) list.length := by
        rw [List.length_merge, List.length_take, List.length_take, List.length_drop]
        omega
      have hrest := @pass_perm _ le width (list.drop (2 * width))
      by_cases hlong : 2 * width ≤ list.length
      · rw [Nat.min_eq_left hlong] at hlength
        rw [Nat.succ_mul, Nat.add_comm, ← hlength] at ha hb
        rw [List.take_length_add_append] at ha
        rw [List.drop_length_add_append, hlength] at hb
        rcases List.mem_append.mp ha with ha | ha
        · refine h 2 a ?_ b ?_
          · rw [Nat.two_mul, List.take_add]
            exact (List.merge_perm_append le).mem_iff.mp ha
          · exact hrest.mem_iff.mp (List.mem_of_mem_drop hb)
        · rw [hlength] at ha
          exact ih (h.drop 2) k a ha b hb
      · have hnil : list.drop (2 * width) = [] := List.drop_eq_nil_of_le (by omega)
        rw [hnil, pass_nil, List.append_nil, List.drop_eq_nil_of_le] at hb
        · cases hb
        · rw [hlength]
          exact Nat.le_trans (Nat.min_le_left ..) (Nat.le_mul_of_pos_left _ k.succ_pos)

theorem loop_congr (hle : ∀ a b, S a b → le a b = le' a b) {fuel width : Nat} {list : List α}
    (h : Parted S width list) : loop le fuel width list = loop le' fuel width list := by
  induction fuel generalizing width list with
  | zero => rfl
  | succ fuel ih =>
    rw [loop_succ, loop_succ, ← pass_congr hle h, ih (pass_parted h)]

end

/-- Equal items are told apart by their positions. -/
def stableLe (le : α → α → Bool) (a b : α × Nat) : Bool :=
  le a.1 b.1 && (!le b.1 a.1 || a.2 ≤ b.2)

theorem stableLe_iff {a b : α × Nat} :
    stableLe le a b = true ↔ le a.1 b.1 = true ∧ (le b.1 a.1 = true → a.2 ≤ b.2) := by
  simp only [stableLe, Bool.and_eq_true, Bool.or_eq_true, Bool.not_eq_true', decide_eq_true_eq]
  cases le b.1 a.1 <;> simp

theorem totalPreorder_stableLe (hle : TotalPreorder le) : TotalPreorder (stableLe le) where
  trans := by
    intro a b c hab hbc
    rw [stableLe_iff] at hab hbc ⊢
    refine ⟨hle.trans _ _ _ hab.1 hbc.1, ?_⟩
    intro hca
    exact Nat.le_trans (hab.2 (hle.trans _ _ _ hbc.1 hca)) (hbc.2 (hle.trans _ _ _ hca hab.1))
  total := by
    intro a b
    rw [Bool.or_eq_true, stableLe_iff, stableLe_iff]
    have htotal := hle.total a.1 b.1
    rw [Bool.or_eq_true] at htotal
    by_cases hab : le a.1 b.1 = true
    · by_cases hba : le b.1 a.1 = true
      · rcases Nat.le_total a.2 b.2 with h | h
        · exact .inl ⟨hab, fun _ => h⟩
        · exact .inr ⟨hba, fun _ => h⟩
      · exact .inl ⟨hab, fun h => absurd h hba⟩
    · exact .inr ⟨htotal.resolve_left hab, fun h => absurd h hab⟩

theorem pairwise_zipIdx (list : List α) : list.zipIdx.Pairwise fun a b => a.2 < b.2 := by
  have hpositions := @List.pairwise_lt_range' 0 list.length 1 Nat.one_pos
  rwa [← List.zipIdx_map_snd, List.pairwise_map] at hpositions

/-- The sort places the items, with the positions that they had, in order, and equal items in the
order of their positions. -/
theorem sort_stable (hle : TotalPreorder le) (list : List α) :
    ∃ placed : List (α × Nat), placed.Perm list.zipIdx ∧ sort le list = placed.map Prod.fst ∧
      placed.Pairwise fun a b => le a.1 b.1 = true ∧ (le b.1 a.1 = true → a.2 < b.2) := by
  have hparted : Parted (fun a b : α × Nat => a.2 ≤ b.2) 1 list.zipIdx := by
    intro k a ha b hb
    have hpositions := pairwise_zipIdx list
    rw [← List.take_append_drop (k * 1) list.zipIdx, List.pairwise_append] at hpositions
    exact Nat.le_of_lt (hpositions.2.2 a ha b hb)
  have hagree : ∀ a b : α × Nat, a.2 ≤ b.2 → le a.1 b.1 = stableLe le a b := by
    intro a b hab
    rw [Bool.eq_iff_iff, stableLe_iff]
    exact ⟨fun h => ⟨h, fun _ => hab⟩, And.left⟩
  have hsorted : sort le list = (sort (stableLe le) list.zipIdx).map Prod.fst := by
    have hmap := @sort_map _ (fun a b => le a.1 b.1) _ le Prod.fst (fun _ _ => rfl) list.zipIdx
    rw [List.zipIdx_map_fst] at hmap
    rw [hmap, sort, loop_congr hagree hparted, sort]
  have hperm := @sort_perm _ (stableLe le) list.zipIdx
  refine ⟨_, hperm, hsorted, ?_⟩
  have hdistinct : (sort (stableLe le) list.zipIdx).Pairwise fun a b => a.2 ≠ b.2 :=
    (hperm.pairwise_iff Ne.symm).mpr ((pairwise_zipIdx list).imp Nat.ne_of_lt)
  refine ((sort_pairwise (totalPreorder_stableLe hle) list.zipIdx).and hdistinct).imp ?_
  intro a b h
  obtain ⟨hab, hba⟩ := stableLe_iff.mp h.1
  exact ⟨hab, fun hle => Nat.lt_of_le_of_ne (hba hle) h.2⟩

end MergeSort
