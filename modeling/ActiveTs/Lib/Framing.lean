import Mathlib.Data.List.Basic

/-! # Framed texts

Texts that are told apart inside a longer text: by a delimiter that they do not contain, by their
length, or by a separator between texts of such a kind. -/

namespace Framing

variable {α : Type u}

/-- What may follow a text: nothing, or a delimiter. -/
def Ends (delimiter : α → Prop) (rest : List α) : Prop := ∀ c ∈ rest.head?, delimiter c

theorem ends_cons {delimiter : α → Prop} {c : α} (hc : delimiter c) (rest : List α) :
    Ends delimiter (c :: rest) := by
  intro d hd
  cases hd
  exact hc

/-- Texts without delimiters end where the first delimiter is. -/
theorem append_inj_of_free {delimiter : α → Prop} {s t x y : List α}
    (hs : ∀ c ∈ s, ¬ delimiter c) (ht : ∀ c ∈ t, ¬ delimiter c) (hx : Ends delimiter x)
    (hy : Ends delimiter y) (h : s ++ x = t ++ y) : s = t ∧ x = y := by
  induction s generalizing t with
  | nil =>
    cases t with
    | nil => exact ⟨rfl, h⟩
    | cons d t =>
      rw [List.nil_append, List.cons_append] at h
      exact absurd (hx d (h ▸ rfl)) (ht d List.mem_cons_self)
  | cons c s ih =>
    cases t with
    | nil =>
      rw [List.nil_append, List.cons_append] at h
      exact absurd (hy c (h ▸ rfl)) (hs c List.mem_cons_self)
    | cons d t =>
      obtain ⟨rfl, htail⟩ := List.cons.inj h
      rw [List.forall_mem_cons] at hs ht
      obtain ⟨rfl, hrest⟩ := ih hs.2 ht.2 htail
      exact ⟨rfl, hrest⟩

/-- A text behind its length says where it ends. -/
theorem length_append_inj {digits : Nat → List α} {colon : α}
    (hinj : ∀ m n, digits m = digits n → m = n) (hfree : ∀ n, ∀ c ∈ digits n, c ≠ colon)
    {s t x y : List α}
    (h : digits s.length ++ colon :: (s ++ x) = digits t.length ++ colon :: (t ++ y)) :
    s = t ∧ x = y := by
  have hcolon (rest : List α) : Ends (· = colon) (colon :: rest) := @ends_cons _ (· = colon) _ rfl rest
  obtain ⟨hdigits, hrest⟩ := append_inj_of_free (hfree _) (hfree _) (hcolon _) (hcolon _) h
  exact List.append_inj (List.cons.inj hrest).2 (hinj _ _ hdigits)

/-- Texts with a separator between them. -/
def joinTexts (separator : α) : List (List α) → List α
  | [] => []
  | [text] => text
  | text :: next :: texts => text ++ separator :: joinTexts separator (next :: texts)

theorem length_le_joinTexts (separator : α) {text : List α} {texts : List (List α)}
    (h : text ∈ texts) : text.length ≤ (joinTexts separator texts).length := by
  induction texts with
  | nil => cases h
  | cons first texts ih =>
    cases texts with
    | nil =>
      cases List.mem_singleton.mp h
      exact Nat.le_refl _
    | cons next texts =>
      rw [joinTexts, List.length_append, List.length_cons]
      rcases List.mem_cons.mp h with rfl | h
      · exact Nat.le_add_right _ _
      · have := ih h
        omega

/-- Two texts are the same when they start the same list, up to delimiters. -/
def Apart (delimiter : α → Prop) (s t : List α) : Prop :=
  ∀ x y, Ends delimiter x → Ends delimiter y → s ++ x = t ++ y → s = t ∧ x = y

/-- Texts that are neither empty nor start with a delimiter. -/
def Starts (delimiter : α → Prop) (s : List α) : Prop := ∃ c rest, s = c :: rest ∧ ¬ delimiter c

section
variable {delimiter : α → Prop} {separator close : α}

theorem joinTexts_cons (separator close : α) (text : List α) (texts : List (List α)) (rest : List α) :
    ∃ tail, joinTexts separator (text :: texts) ++ close :: rest = text ++ tail ∧
      (texts = [] ∧ tail = close :: rest ∨
        texts ≠ [] ∧ tail = separator :: (joinTexts separator texts ++ close :: rest)) := by
  cases texts with
  | nil => exact ⟨_, rfl, Or.inl ⟨rfl, rfl⟩⟩
  | cons next texts =>
    exact ⟨_, List.append_assoc _ _ _, Or.inr ⟨List.cons_ne_nil _ _, rfl⟩⟩

/-- A list of texts can be read from between a separator and a closing delimiter. -/
theorem joinTexts_inj (hseparator : delimiter separator) (hclose : delimiter close)
    (hne : separator ≠ close) {ss ts : List (List α)} {x y : List α}
    (hss : ∀ s ∈ ss, Starts delimiter s) (hts : ∀ t ∈ ts, Starts delimiter t)
    (hapart : ∀ s ∈ ss, ∀ t ∈ ts, Apart delimiter s t)
    (h : joinTexts separator ss ++ close :: x = joinTexts separator ts ++ close :: y) :
    ss = ts ∧ x = y := by
  induction ss generalizing ts with
  | nil =>
    cases ts with
    | nil => exact ⟨rfl, (List.cons.inj h).2⟩
    | cons t ts =>
      obtain ⟨tail, htail, -⟩ := joinTexts_cons separator close t ts y
      obtain ⟨c, rest, rfl, hc⟩ := hts t List.mem_cons_self
      rw [htail] at h
      exact absurd ((List.cons.inj h).1 ▸ hclose) hc
  | cons s ss ih =>
    obtain ⟨tail, htail, hcases⟩ := joinTexts_cons separator close s ss x
    rw [htail] at h
    cases ts with
    | nil =>
      obtain ⟨c, rest, rfl, hc⟩ := hss s List.mem_cons_self
      exact absurd ((List.cons.inj h).1 ▸ hclose) hc
    | cons t ts =>
      obtain ⟨tail', htail', hcases'⟩ := joinTexts_cons separator close t ts y
      rw [htail'] at h
      rw [List.forall_mem_cons] at hss hts
      have hends : ∀ {texts : List (List α)} {tail rest : List α},
          (texts = [] ∧ tail = close :: rest ∨
            texts ≠ [] ∧ tail = separator :: (joinTexts separator texts ++ close :: rest)) →
          Ends delimiter tail := by
        rintro texts tail rest (⟨-, rfl⟩ | ⟨-, rfl⟩)
        · exact ends_cons hclose _
        · exact ends_cons hseparator _
      obtain ⟨rfl, hrest⟩ :=
        hapart s List.mem_cons_self t List.mem_cons_self _ _ (hends hcases) (hends hcases') h
      rcases hcases with ⟨rfl, rfl⟩ | ⟨-, rfl⟩
      · rcases hcases' with ⟨rfl, rfl⟩ | ⟨-, rfl⟩
        · exact ⟨rfl, (List.cons.inj hrest).2⟩
        · exact absurd (List.cons.inj hrest).1.symm hne
      · rcases hcases' with ⟨rfl, rfl⟩ | ⟨-, rfl⟩
        · exact absurd (List.cons.inj hrest).1 hne
        · obtain ⟨rfl, hxy⟩ := ih hss.2 hts.2
            (fun s hs t ht => hapart s (List.mem_cons_of_mem _ hs) t (List.mem_cons_of_mem _ ht))
            (List.cons.inj hrest).2
          exact ⟨rfl, hxy⟩

end

end Framing
