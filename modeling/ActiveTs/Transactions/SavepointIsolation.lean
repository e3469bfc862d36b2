import ActiveTs.Transactions.SavepointOrder

/-! # Savepoint isolation

While a savepoint executes, no operation executes beside it but those inside of it and those that
issued it or a savepoint around it. So its rollback undoes what the operations inside of it did, and
nothing that other operations did. -/

namespace ActiveTs.Transactions.SavepointGate

variable {c c' : Gate} {e : Event} {i j s o t : Nat} {x y z : Item}

/-- The item has begun and has not ended. -/
structure Executing (c : Gate) (kind : Kind) (i : Nat) (x : Item) : Prop where
  item : c.items[i]? = some x
  kind : x.kind = kind
  begun : x.phase ≠ .waiting
  unended : x.phase ≠ .done

def Executes (c : Gate) (kind : Kind) (i : Nat) : Prop := ∃ x, Executing c kind i x

/-- The operation was issued inside of the savepoint. -/
def InSubtree (c : Gate) (s o : Nat) : Prop := ∃ x, c.items[o]? = some x ∧ s ∈ x.token

/-- The operation issued the savepoint, itself or through its own operations. -/
def IssuedBy (c : Gate) (s o : Nat) : Prop := ∃ x, c.items[s]? = some x ∧ o ∈ x.operations

/-- The savepoint `t` is `s` or a savepoint around it. -/
def Around (c : Gate) (t s : Nat) : Prop := ∃ x, c.items[s]? = some x ∧ t ∈ s :: x.token

/-- The operation is inside of the savepoint, or has issued it or a savepoint around it. -/
def Beside (c : Gate) (s o : Nat) : Prop :=
  InSubtree c s o ∨ ∃ t, Around c t s ∧ IssuedBy c t o

/-! ## Operations beside a savepoint -/

theorem tokenInParent_self (τ : Token) : tokenInParent τ τ = true := by
  unfold tokenInParent
  split
  · assumption
  · exact List.isSuffixOf_iff_suffix.mpr List.suffix_rfl

namespace Inv

/-- The savepoint that executes next inside of a token, on the way to another. -/
theorem child (h : Inv c) {σ τ : Token} (hτ : Live c τ) (hs : σ <:+ τ) (hne : σ ≠ τ) :
    ∃ s x, s :: σ <:+ τ ∧ c.items[s]? = some x ∧ x.kind = .savepoint ∧ x.token = σ ∧
      x.phase ≠ .waiting ∧ x.phase ≠ .done := by
  induction τ with
  | nil => exact absurd (List.suffix_nil.mp hs) hne
  | cons t τ ih =>
    rcases List.suffix_cons_iff.mp hs with rfl | hs
    · exact absurd rfl hne
    · by_cases heq : σ = τ
      · obtain rfl := heq
        obtain ⟨x, hx, hspec⟩ := hτ
        exact ⟨t, x, List.suffix_rfl, hx, hspec⟩
      · obtain ⟨s, x, hsuffix, hspec⟩ := ih (h.live_tail hτ) hs heq
        exact ⟨s, x, hsuffix.trans (List.suffix_cons t τ), hspec⟩

/-- The operations that execute beside a savepoint. -/
theorem beside (h : Inv c) (hs : Executes c .savepoint s) (ho : Executes c .operation o) :
    Beside c s o := by
  obtain ⟨x, hx, hkindx, hx₁, hx₂⟩ := hs
  obtain ⟨y, hy, hkindy, hy₁, hy₂⟩ := ho
  have hσ : Live c (s :: x.token) := ⟨x, hx, hkindx, rfl, hx₁, hx₂⟩
  have hτ : Live c y.token := h.live hy hy₂
  rcases Nat.lt_or_ge y.token.length (s :: x.token).length with hlen | hlen
  · right
    have hsuffix := h.live_suffix hτ hσ (Nat.le_of_lt hlen)
    have hne : y.token ≠ s :: x.token := fun heq => by
      rw [heq] at hlen
      exact Nat.lt_irrefl _ hlen
    obtain ⟨t, z, ht, hz, hkindz, htoken, hz₁, hz₂⟩ := h.child hσ hsuffix hne
    refine ⟨t, ⟨x, hx, ht.subset (List.mem_cons_self ..)⟩, z, hz, ?_⟩
    rcases Nat.lt_trichotomy o t with hlt | rfl | hgt
    · -- The savepoint has not waited for it, so it was issued in it.
      refine (h.prior t z o y hz hkindz hz₁ hlt hy hkindy ?_).resolve_right hy₂
      rw [htoken]
      exact tokenInParent_self _
    · cases hy.symm.trans hz
      rw [hkindy] at hkindz
      cases hkindz
    · -- It would still wait for the savepoint.
      have hmem := h.barriers t o z y hgt hz hy hkindz hkindy htoken hz₂
      obtain ⟨z', hz', hdone⟩ := isDone_iff.mp (h.begun o y hy hy₁ t hmem)
      cases hz.symm.trans hz'
      exact absurd hdone hz₂
  · left
    exact ⟨y, hy, (h.live_suffix hσ hτ hlen).subset (List.mem_cons_self ..)⟩

/-- A token names savepoints that have begun. -/
theorem begun_of_mem_token (h : Inv c) {τ : Token} (hl : Linked c τ) (hs : s ∈ τ) :
    ∃ x, c.items[s]? = some x ∧ x.phase ≠ .waiting := by
  induction τ with
  | nil => cases hs
  | cons t τ ih =>
    obtain ⟨x, hx, -, rfl, hphase⟩ := hl
    rcases List.mem_cons.mp hs with rfl | hs
    · exact ⟨x, hx, hphase⟩
    · exact ih (h.linked hx) hs

end Inv

/-! ## Work -/

/-- The items of a gate, with the same tokens and operations, at a later time. -/
structure Gate.Extends (c c' : Gate) : Prop where
  grows : ∀ (i : Nat) (x : Item), c.items[i]? = some x → ∃ x', c'.items[i]? = some x' ∧ x.Grows x'

namespace Gate.Extends

theorem inSubtree (h : c.Extends c') (hs : InSubtree c s o) : InSubtree c' s o := by
  obtain ⟨x, hx, hs⟩ := hs
  obtain ⟨x', hx', hgrows⟩ := h.grows o x hx
  exact ⟨x', hx', hgrows.token ▸ hs⟩

theorem inSubtree_of_lt (h : c.Extends c') (ho : o < c.items.length) (hs : InSubtree c' s o) :
    InSubtree c s o := by
  obtain ⟨x', hx', hs⟩ := hs
  obtain ⟨x'', hx'', hgrows⟩ := h.grows o _ (List.getElem?_eq_getElem ho)
  cases hx'.symm.trans hx''
  exact ⟨_, List.getElem?_eq_getElem ho, hgrows.token ▸ hs⟩

theorem beside (h : c.Extends c') (hs : Beside c s o) : Beside c' s o := by
  rcases hs with hs | ⟨t, ⟨x, hx, ht⟩, y, hy, ho⟩
  · exact .inl (h.inSubtree hs)
  · obtain ⟨x', hx', hgrowsx⟩ := h.grows s x hx
    obtain ⟨y', hy', hgrowsy⟩ := h.grows t y hy
    exact .inr ⟨t, ⟨x', hx', hgrowsx.token ▸ ht⟩, y', hy', hgrowsy.operations ▸ ho⟩

end Gate.Extends

/-- What the work that is there says about the executing savepoints. -/
structure WorkInv (c : Gate) : Prop where
  lt : ∀ o ∈ c.work, o < c.items.length
  start_le : ∀ s x, Executing c .savepoint s x → x.start ≤ c.work.length
  /-- Nothing inside of a savepoint has worked before it started. -/
  before : ∀ s x, Executing c .savepoint s x → ∀ o ∈ c.work.take x.start, ¬ InSubtree c s o
  since : ∀ s x, Executing c .savepoint s x → ∀ o ∈ c.work.drop x.start, Beside c s o
  /-- An inner savepoint has started later. -/
  nested : ∀ s x t y, Executing c .savepoint s x → Executing c .savepoint t y → t ∈ x.token →
    y.start ≤ x.start

/-- An item whose code runs keeps the start of its work. -/
theorem Advance.start_eq (h : Advance c i x y) (hy : y.phase ≠ .waiting) :
    x.phase ≠ .waiting ∧ y.start = x.start ∨ x.phase = .waiting ∧ y.start = c.work.length := by
  cases h with
  | start h => exact .inr ⟨(canStart_iff.mp h).1, rfl⟩
  | await h => exact .inl ⟨hy, rfl⟩
  | settle _ h =>
    rw [h]
    exact .inl ⟨nofun, rfl⟩
  | close _ h =>
    rw [h]
    exact .inl ⟨nofun, rfl⟩
  | finish h =>
    rw [(canEnd_iff.mp h).2.1]
    exact .inl ⟨nofun, rfl⟩

theorem Inv.not_inSubtree (h : Inv c) (hx : c.items[s]? = some x) (hphase : x.phase = .waiting) :
    ¬ InSubtree c s o := by
  rintro ⟨y, hy, hs⟩
  obtain ⟨x', hx', hbegun⟩ := h.begun_of_mem_token (h.linked hy) hs
  cases hx.symm.trans hx'
  exact hbegun hphase

theorem WorkInv.issue (h : WorkInv c) (hx : Fresh c x) : WorkInv ⟨c.items ++ [x], c.work⟩ := by
  have hext : c.Extends ⟨c.items ++ [x], c.work⟩ :=
    ⟨fun i y hy => ⟨y, at_append_left hy, .refl y⟩⟩
  have hold : ∀ s y, Executing ⟨c.items ++ [x], c.work⟩ .savepoint s y →
      Executing c .savepoint s y := by
    intro s y hy
    rcases at_append hy.item with hitem | ⟨-, rfl⟩
    · exact ⟨hitem, hy.kind, hy.begun, hy.unended⟩
    · have hkind := hy.kind
      rw [(hx.begun hy.begun).1] at hkind
      cases hkind
  refine ⟨fun o ho => ?_, fun s y hy => h.start_le s y (hold s y hy), fun s y hy o ho hin => ?_,
    fun s y hy o ho => hext.beside (h.since s y (hold s y hy) o ho),
    fun s y t z hy hz => h.nested s y t z (hold s y hy) (hold t z hz)⟩
  · rw [List.length_append]
    exact Nat.lt_add_right _ (h.lt o ho)
  · exact h.before s y (hold s y hy) o ho
      (hext.inSubtree_of_lt (h.lt o (List.mem_of_mem_take ho)) hin)

/-- What executes after a step that advances an item. -/
theorem executing_set (hx : c.items[i]? = some x) (hadv : Advance c i x y)
    (hset : c'.items = c.items.set i y) {w : Item} (hw : Executing c' .savepoint s w) :
    (∃ v, Executing c .savepoint s v ∧ w.token = v.token ∧ w.start = v.start) ∨
    s = i ∧ x.phase = .waiting ∧ w.token = x.token ∧ w.start = c.work.length := by
  obtain ⟨v, hv, hgrows, hcase⟩ := at_set hx hadv hset hw.item
  have hunended : v.phase ≠ .done := fun hd => hw.unended (hgrows.done hd)
  have hkind : v.kind = .savepoint := hgrows.kind.symm.trans hw.kind
  rcases hcase with rfl | ⟨rfl, hadvv⟩
  · exact .inl ⟨_, ⟨hv, hkind, hw.begun, hunended⟩, rfl, rfl⟩
  · cases hx.symm.trans hv
    rcases hadvv.start_eq hw.begun with ⟨hbegun, hstart⟩ | ⟨hwaiting, hstart⟩
    · exact .inl ⟨_, ⟨hv, hkind, hbegun, hunended⟩, hgrows.token, hstart⟩
    · exact .inr ⟨rfl, hwaiting, hgrows.token, hstart⟩

theorem WorkInv.advance (h : WorkInv c) (hinv : Inv c) (hx : c.items[i]? = some x)
    (hadv : Advance c i x y) (hset : c'.items = c.items.set i y) (hwork : c'.work = c.work) :
    WorkInv c' := by
  have hext : c.Extends c' := ⟨fun j z hz => at_set_of_at hx hadv hset hz⟩
  constructor
  · rw [hwork, hset, List.length_set]
    exact h.lt
  · intro s w hw
    rw [hwork]
    rcases executing_set hx hadv hset hw with ⟨v, hv, -, hstart⟩ | ⟨-, -, -, hstart⟩
    · rw [hstart]
      exact h.start_le s v hv
    · exact Nat.le_of_eq hstart
  · intro s w hw o ho hin
    rw [hwork] at ho
    have hin : InSubtree c s o := hext.inSubtree_of_lt (h.lt o (List.mem_of_mem_take ho)) hin
    rcases executing_set hx hadv hset hw with ⟨v, hv, -, hstart⟩ | ⟨rfl, hphase, -, -⟩
    · rw [hstart] at ho
      exact h.before s v hv o ho hin
    · exact hinv.not_inSubtree hx hphase hin
  · intro s w hw o ho
    rw [hwork] at ho
    rcases executing_set hx hadv hset hw with ⟨v, hv, -, hstart⟩ | ⟨-, -, -, hstart⟩
    · rw [hstart] at ho
      exact hext.beside (h.since s v hv o ho)
    · rw [hstart, List.drop_length] at ho
      cases ho
  · intro s w t z hw hz ht
    rcases executing_set hx hadv hset hz with ⟨u, hu, -, hstartz⟩ | ⟨rfl, hphase, -, -⟩
    · rw [hstartz]
      rcases executing_set hx hadv hset hw with ⟨v, hv, htoken, hstart⟩ | ⟨-, -, -, hstart⟩
      · rw [hstart]
        rw [htoken] at ht
        exact h.nested s v t u hv hu ht
      · rw [hstart]
        exact h.start_le t u hu
    · -- Nothing is inside of a savepoint that starts.
      obtain ⟨v, hv, hgrows, -⟩ := at_set hx hadv hset hw.item
      rw [hgrows.token] at ht
      exact absurd ⟨v, hv, ht⟩ (hinv.not_inSubtree hx hphase)

/-- A savepoint that ends is inside of the others that execute. -/
theorem Inv.ends_innermost (h : Inv c) (hx : c.items[i]? = some x) (hcan : c.canEnd i x = true)
    (hy : Executing c .savepoint s y) (hne : s ≠ i) : s ∈ x.token := by
  obtain ⟨hkind, hphase, hinner⟩ := canEnd_iff.mp hcan
  have hbegun : x.phase ≠ .waiting := by
    rw [hphase]
    exact nofun
  have hunended : x.phase ≠ .done := by
    rw [hphase]
    exact nofun
  have hσ : Live c (i :: x.token) := ⟨x, hx, hkind, rfl, hbegun, hunended⟩
  have hτ : Live c (s :: y.token) := ⟨y, hy.item, hy.kind, rfl, hy.begun, hy.unended⟩
  rcases Nat.le_total (s :: y.token).length (i :: x.token).length with hlen | hlen
  · rcases List.suffix_cons_iff.mp (h.live_suffix hτ hσ hlen) with heq | hsuffix
    · exact absurd (List.cons.inj heq).1 hne
    · exact hsuffix.subset (List.mem_cons_self ..)
  · obtain ⟨t, z, -, hz, -, htoken, -, hz₂⟩ := h.child hτ (h.live_suffix hσ hτ hlen)
      fun heq => hne (List.cons.inj heq).1.symm
    exact absurd (hinner t z hz htoken) hz₂

theorem WorkInv.rollback (h : WorkInv c) (hinv : Inv c) (hx : c.items[i]? = some x)
    (hcan : c.canEnd i x = true) (hadv : Advance c i x y) (hdone : y.phase = .done)
    (hset : c'.items = c.items.set i y) (hwork : c'.work = c.work.take x.start) :
    WorkInv c' := by
  have hext : c.Extends c' := ⟨fun j z hz => at_set_of_at hx hadv hset hz⟩
  have hexec : Executing c .savepoint i x := by
    obtain ⟨hkind, hphase, -⟩ := canEnd_iff.mp hcan
    refine ⟨hx, hkind, ?_, ?_⟩ <;> rw [hphase] <;> exact nofun
  have hold : ∀ s w, Executing c' .savepoint s w → ∃ v, Executing c .savepoint s v ∧
      w.token = v.token ∧ w.start = v.start ∧ v.start ≤ x.start := by
    intro s w hw
    rcases executing_set hx hadv hset hw with ⟨v, hv, htoken, hstart⟩ | ⟨rfl, hphase, -⟩
    · refine ⟨v, hv, htoken, hstart, h.nested i x s v hexec hv ?_⟩
      refine hinv.ends_innermost hx hcan hv ?_
      rintro rfl
      have hitem := hw.item
      rw [hset, List.getElem?_set_self (lt_length hx)] at hitem
      cases hitem
      exact hw.unended hdone
    · exact absurd hphase hexec.begun
  constructor
  · intro o ho
    rw [hwork] at ho
    rw [hset, List.length_set]
    exact h.lt o (List.mem_of_mem_take ho)
  · intro s w hw
    obtain ⟨v, hv, -, hstart, hle⟩ := hold s w hw
    rw [hwork, hstart, List.length_take]
    exact Nat.le_min.mpr ⟨hle, h.start_le s v hv⟩
  · intro s w hw o ho hin
    obtain ⟨v, hv, -, hstart, hle⟩ := hold s w hw
    rw [hwork, hstart, List.take_take, Nat.min_eq_left hle] at ho
    exact h.before s v hv o ho (hext.inSubtree_of_lt (h.lt o (List.mem_of_mem_take ho)) hin)
  · intro s w hw o ho
    obtain ⟨v, hv, -, hstart, -⟩ := hold s w hw
    rw [hwork, hstart, List.drop_take] at ho
    exact hext.beside (h.since s v hv o (List.mem_of_mem_take ho))
  · intro s w t z hw hz ht
    obtain ⟨v, hv, htoken, hstart, -⟩ := hold s w hw
    obtain ⟨u, hu, -, hstartz, -⟩ := hold t z hz
    rw [hstart, hstartz]
    rw [htoken] at ht
    exact h.nested s v t u hv hu ht

theorem WorkInv.workOn (h : WorkInv c) (hinv : Inv c) (ho : Executing c .operation o x) :
    WorkInv ⟨c.items, c.work ++ [o]⟩ := by
  have hold : ∀ s y, Executing ⟨c.items, c.work ++ [o]⟩ .savepoint s y →
      Executing c .savepoint s y := fun s y hy => ⟨hy.item, hy.kind, hy.begun, hy.unended⟩
  constructor
  · intro p hp
    rcases List.mem_append.mp hp with hp | hp
    · exact h.lt p hp
    · rw [List.mem_singleton.mp hp]
      exact lt_length ho.item
  · intro s y hy
    rw [List.length_append]
    exact Nat.le_add_right_of_le (h.start_le s y (hold s y hy))
  · intro s y hy p hp hin
    rw [List.take_append_of_le_length (h.start_le s y (hold s y hy))] at hp
    exact h.before s y (hold s y hy) p hp hin
  · intro s y hy p hp
    rw [List.drop_append_of_le_length (h.start_le s y (hold s y hy))] at hp
    rcases List.mem_append.mp hp with hp | hp
    · exact h.since s y (hold s y hy) p hp
    · rw [List.mem_singleton.mp hp]
      exact hinv.beside ⟨y, hold s y hy⟩ ⟨x, ho⟩
  · exact fun s y t z hy hz => h.nested s y t z (hold s y hy) (hold t z hz)

theorem WorkInv.step (h : WorkInv c) (hinv : Inv c) (hs : c.step e = some c') : WorkInv c' := by
  rcases step_cases hs with ⟨x, hx, rfl⟩ | ⟨i, x, y, hx, hadv, hset, -, hwork⟩ |
    ⟨o, x, hx, hkind, hphase, rfl⟩
  · exact h.issue (hinv.fresh hx)
  · rcases hwork with hwork | ⟨hcan, hdone, hwork⟩
    · exact h.advance hinv hx hadv hset hwork
    · exact h.rollback hinv hx hcan hadv hdone hset hwork
  · refine h.workOn hinv ⟨hx, hkind, ?_, ?_⟩ <;> rw [hphase] <;> exact nofun

theorem WorkInv.run {es : List Event} (h : Gate.Run .init es c) : WorkInv c := by
  have hboth : Inv c ∧ WorkInv c := by
    refine h.invariant (P := fun c => Inv c ∧ WorkInv c)
      (fun hinv hs => ⟨hinv.1.step hs, hinv.2.step hinv.1 hs⟩) ⟨.init, ?_⟩
    have hnone : ∀ s x, ¬ Executing .init .savepoint s x := fun s x hx => nomatch hx.item
    exact ⟨nofun, fun s x hx => absurd hx (hnone s x), fun s x hx => absurd hx (hnone s x),
      fun s x hx => absurd hx (hnone s x), fun s x _ _ hx => absurd hx (hnone s x)⟩
  exact hboth.2

/-! ## Isolation -/

theorem rollback_inv (h : c.step (.rollback s) = some c') :
    ∃ x, Executing c .savepoint s x ∧ c'.work = c.work.take x.start := by
  obtain ⟨x, hx, rfl⟩ := Option.map_eq_some_iff.mp h
  obtain ⟨hx, hguard⟩ := Option.filter_eq_some_iff.mp hx
  obtain ⟨hkind, hphase, -⟩ := canEnd_iff.mp hguard
  refine ⟨x, ⟨hx, hkind, ?_, ?_⟩, rfl⟩ <;> rw [hphase] <;> exact nofun

/-- In every run of the gate: the operations that execute beside a savepoint are inside of it or
have issued it or a savepoint around it, savepoints with one parent do not execute at the same time,
and a rollback undoes the work of all operations inside of the savepoint and no work but theirs and
that of the operations that have issued it or a savepoint around it. -/
theorem savepoints_isolated (es : List Event) (c : Gate) (hrun : Gate.Run .init es c) :
    (∀ s o, Executes c .savepoint s → Executes c .operation o →
      InSubtree c s o ∨ ∃ t, Around c t s ∧ IssuedBy c t o) ∧
    (∀ s t x y, Executing c .savepoint s x → Executing c .savepoint t y → x.token = y.token →
      s = t) ∧
    ∀ s c', c.step (.rollback s) = some c' → ∃ undone, c.work = c'.work ++ undone ∧
      (∀ o ∈ c'.work, ¬ InSubtree c s o) ∧
      ∀ o ∈ undone, InSubtree c s o ∨ ∃ t, Around c t s ∧ IssuedBy c t o := by
  have hinv := Inv.run hrun
  have hwork := WorkInv.run hrun
  refine ⟨fun s o hs ho => hinv.beside hs ho, fun s t x y hx hy htoken => ?_, fun s c' hs => ?_⟩
  · exact hinv.executing_unique hx.item hy.item hx.kind hy.kind htoken hx.begun hx.unended
      hy.begun hy.unended
  · obtain ⟨x, hx, hundo⟩ := rollback_inv hs
    refine ⟨c.work.drop x.start, ?_, ?_, hwork.since s x hx⟩
    · rw [hundo, List.take_append_drop]
    · rw [hundo]
      exact hwork.before s x hx

/-- An operation issues a savepoint, and an operation in the savepoint and the first one work. -/
theorem savepoints_isolated_rollback : ∃ (es : List Event) (c c' : Gate),
    Gate.Run .init es c ∧ c.step (.rollback 1) = some c' ∧ c'.work = [0] ∧
      ∃ undone, c.work = c'.work ++ undone ∧
        ∀ o ∈ undone, InSubtree c 1 o ∨ ∃ t, Around c t 1 ∧ IssuedBy c t o := by
  let es : List Event := [.run none [], .work 0, .savepoint (some 0) [], .start 1,
    .run (some 1) [], .work 2, .work 0, .settle 2, .close 1]
  obtain ⟨c, hexec, htest⟩ := (Option.any_eq_true _ _).mp (by decide :
    (Gate.init.exec es).any fun c => (c.step (.rollback 1)).any fun c' => c'.work = [0])
  obtain ⟨c', hstep, hwork⟩ := (Option.any_eq_true _ _).mp htest
  have hrun : Gate.Run .init es c := .of_exec hexec
  obtain ⟨undone, hundone, -, hbeside⟩ := (savepoints_isolated es c hrun).2.2 1 c' hstep
  exact ⟨es, c, c', hrun, hstep, of_decide_eq_true hwork, undone, hundone, hbeside⟩

/-- Code outside of an operation issues a savepoint on the adapter of a savepoint that the operation
has issued: it executes beside the operation. -/
theorem savepoints_isolated_outside : ¬ ∀ (es : List Event) (c : Gate), Gate.Run .init es c →
    ∀ s o, Executes c .savepoint s → Executes c .operation o →
      InSubtree c s o ∨ IssuedBy c s o := by
  intro h
  let es : List Event := [.run none [], .savepoint (some 0) [], .start 1, .savepoint none [1],
    .start 2]
  obtain ⟨c, hexec, htest⟩ := (Option.any_eq_true _ _).mp (by decide :
    (Gate.init.exec es).any fun c =>
      (c.any 2 fun x => x.kind = .savepoint && x.phase = .running && x.operations = []) &&
        c.any 0 fun y => y.kind = .operation && y.phase = .running && y.token = [])
  obtain ⟨hs, ho⟩ := Bool.and_eq_true_iff.mp htest
  obtain ⟨x, hx, hs⟩ := (Option.any_eq_true _ _).mp hs
  obtain ⟨y, hy, ho⟩ := (Option.any_eq_true _ _).mp ho
  simp only [Bool.and_eq_true, decide_eq_true_eq] at hs ho
  obtain ⟨⟨hkindx, hphasex⟩, hoperations⟩ := hs
  obtain ⟨⟨hkindy, hphasey⟩, htoken⟩ := ho
  have hexecx : Executes c .savepoint 2 := by
    refine ⟨x, hx, hkindx, ?_, ?_⟩ <;> rw [hphasex] <;> exact nofun
  have hexecy : Executes c .operation 0 := by
    refine ⟨y, hy, hkindy, ?_, ?_⟩ <;> rw [hphasey] <;> exact nofun
  rcases h es c (.of_exec hexec) 2 0 hexecx hexecy with ⟨y', hy', hin⟩ | ⟨x', hx', hby⟩
  · cases hy.symm.trans hy'
    rw [htoken] at hin
    cases hin
  · cases hx.symm.trans hx'
    rw [hoperations] at hby
    cases hby

end ActiveTs.Transactions.SavepointGate
