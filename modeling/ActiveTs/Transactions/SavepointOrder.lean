import ActiveTs.Transactions.SavepointGate

/-! # The order that the gate keeps

Savepoints with one parent run one after the other, an operation does not begin before the
savepoints that it was issued after, and a savepoint does not start before the operations that it
was issued after, unless it was issued in them. The tokens of what has not ended are those of
executing savepoints, which are nested in each other. -/

namespace ActiveTs.Transactions.SavepointGate

variable {c c' : Gate} {e : Event} {i j : Nat} {x y z : Item}

/-! ## Steps -/

/-- How a step changes an item. -/
inductive Advance (c : Gate) (i : Nat) (x : Item) : Item → Prop
  | start (h : c.canStart i x = true) :
    Advance c i x { x with phase := .running, start := c.work.length }
  | await {j : Nat} (h : x.phase = .running) (hj : c.any j (fun y => y.issuer = some i) = true) :
    Advance c i x { x with awaits := j :: x.awaits }
  | settle (hkind : x.kind = .operation) (h : x.phase = .running)
    (hawaits : x.awaits.all c.isDone = true) : Advance c i x { x with phase := .done }
  | close (hkind : x.kind = .savepoint) (h : x.phase = .running)
    (hawaits : x.awaits.all c.isDone = true) : Advance c i x { x with phase := .closing }
  | finish (h : c.canEnd i x = true) : Advance c i x { x with phase := .done }

/-- A new item. -/
inductive Issued (c : Gate) : Item → Prop
  | operation {issuer : Option Nat} {adapter : Token} {scope : Scope}
    (h : c.issue issuer adapter = some scope) :
    Issued c (c.newOperation issuer scope.token scope.operations)
  | savepoint {issuer : Option Nat} {adapter : Token} {scope : Scope}
    (h : c.issue issuer adapter = some scope) :
    Issued c (c.newSavepoint issuer scope.token scope.operations)

/-- What a step does: it issues an item, or advances one, or works on the store. -/
theorem step_cases (h : c.step e = some c') :
    (∃ x, Issued c x ∧ c' = ⟨c.items ++ [x], c.work⟩) ∨
    (∃ i x x', c.items[i]? = some x ∧ Advance c i x x' ∧ c'.items = c.items.set i x' ∧
      (∀ j ∈ x'.awaits, j ∈ x.awaits ∨ e = .await i j) ∧ (c'.work = c.work ∨
        c.canEnd i x = true ∧ x'.phase = .done ∧ c'.work = c.work.take x.start)) ∨
    ∃ i x, c.items[i]? = some x ∧ x.kind = .operation ∧ x.phase = .running ∧
      c' = ⟨c.items, c.work ++ [i]⟩ := by
  cases e with
  | run issuer adapter =>
    obtain ⟨scope, hscope, rfl⟩ := Option.map_eq_some_iff.mp h
    exact .inl ⟨_, .operation hscope, rfl⟩
  | savepoint issuer adapter =>
    obtain ⟨scope, hscope, rfl⟩ := Option.map_eq_some_iff.mp h
    exact .inl ⟨_, .savepoint hscope, rfl⟩
  | start i =>
    obtain ⟨x, hx, rfl⟩ := Option.map_eq_some_iff.mp h
    obtain ⟨hx, hguard⟩ := Option.filter_eq_some_iff.mp hx
    exact .inr (.inl ⟨i, x, _, hx, .start hguard, rfl, fun _ => .inl, .inl rfl⟩)
  | await i j =>
    obtain ⟨x, hx, rfl⟩ := Option.map_eq_some_iff.mp h
    obtain ⟨hx, hguard⟩ := Option.filter_eq_some_iff.mp hx
    obtain ⟨hphase, hj⟩ := Bool.and_eq_true_iff.mp hguard
    refine .inr (.inl ⟨i, x, _, hx, .await (of_decide_eq_true hphase) hj, rfl, fun k hk => ?_,
      .inl rfl⟩)
    rcases List.mem_cons.mp hk with rfl | hk
    · exact .inr rfl
    · exact .inl hk
  | work i =>
    obtain ⟨x, hx, rfl⟩ := Option.map_eq_some_iff.mp h
    obtain ⟨hx, hguard⟩ := Option.filter_eq_some_iff.mp hx
    obtain ⟨hkind, hphase⟩ := Bool.and_eq_true_iff.mp hguard
    exact .inr (.inr ⟨i, x, hx, of_decide_eq_true hkind, of_decide_eq_true hphase, rfl⟩)
  | settle i =>
    obtain ⟨x, hx, rfl⟩ := Option.map_eq_some_iff.mp h
    obtain ⟨hx, hguard⟩ := Option.filter_eq_some_iff.mp hx
    obtain ⟨hguard, hawaits⟩ := Bool.and_eq_true_iff.mp hguard
    obtain ⟨hkind, hphase⟩ := Bool.and_eq_true_iff.mp hguard
    exact .inr (.inl ⟨i, x, _, hx, .settle (of_decide_eq_true hkind) (of_decide_eq_true hphase)
      hawaits, rfl, fun _ => .inl, .inl rfl⟩)
  | close i =>
    obtain ⟨x, hx, rfl⟩ := Option.map_eq_some_iff.mp h
    obtain ⟨hx, hguard⟩ := Option.filter_eq_some_iff.mp hx
    obtain ⟨hguard, hawaits⟩ := Bool.and_eq_true_iff.mp hguard
    obtain ⟨hkind, hphase⟩ := Bool.and_eq_true_iff.mp hguard
    exact .inr (.inl ⟨i, x, _, hx, .close (of_decide_eq_true hkind) (of_decide_eq_true hphase)
      hawaits, rfl, fun _ => .inl, .inl rfl⟩)
  | release i =>
    obtain ⟨x, hx, rfl⟩ := Option.map_eq_some_iff.mp h
    obtain ⟨hx, hguard⟩ := Option.filter_eq_some_iff.mp hx
    exact .inr (.inl ⟨i, x, _, hx, .finish hguard, rfl, fun _ => .inl, .inl rfl⟩)
  | rollback i =>
    obtain ⟨x, hx, rfl⟩ := Option.map_eq_some_iff.mp h
    obtain ⟨hx, hguard⟩ := Option.filter_eq_some_iff.mp hx
    exact .inr (.inl ⟨i, x, _, hx, .finish hguard, rfl, fun _ => .inl,
      .inr ⟨hguard, rfl, rfl⟩⟩)

/-- An item keeps how it was issued, and its phase goes on. -/
structure Item.Grows (x x' : Item) : Prop where
  kind : x'.kind = x.kind
  token : x'.token = x.token
  operations : x'.operations = x.operations
  issuer : x'.issuer = x.issuer
  pending : x'.pending = x.pending
  waiting : x'.phase = .waiting → x.phase = .waiting
  done : x.phase = .done → x'.phase = .done

theorem Item.Grows.refl (x : Item) : x.Grows x := ⟨rfl, rfl, rfl, rfl, rfl, id, id⟩

theorem canStart_iff : c.canStart i x = true ↔ x.phase = .waiting ∧ x.pending.all c.isDone = true ∧
    (x.kind = .operation ∨ ∀ o, c.waitsForPrior i o = false) := by
  have hprior : ((List.range i).all fun o => !c.waitsForPrior i o) = true ↔
      ∀ o, c.waitsForPrior i o = false := by
    constructor
    · intro h o
      by_cases ho : o < i
      · simpa using List.all_eq_true.mp h o (List.mem_range.mpr ho)
      · simp [Gate.waitsForPrior, ho]
    · intro h
      exact List.all_eq_true.mpr fun o _ => by simp [h o]
  simp only [Gate.canStart, Bool.and_eq_true, Bool.or_eq_true, decide_eq_true_eq, hprior, and_assoc]

theorem isDone_iff : c.isDone i = true ↔ ∃ x, c.items[i]? = some x ∧ x.phase = .done := by
  simp [Gate.isDone, Gate.any, Option.any_eq_true]

theorem waitsForPrior_iff {b o : Nat} : c.waitsForPrior b o = true ↔
    o < b ∧ ∃ y x, c.items[b]? = some y ∧ c.items[o]? = some x ∧ x.kind = .operation ∧
      x.phase ≠ .done ∧ tokenInParent x.token y.token = true ∧ o ∉ y.operations := by
  simp only [Gate.waitsForPrior, Gate.any, Option.any_eq_true, Bool.and_eq_true,
    decide_eq_true_eq, and_assoc]
  constructor
  · rintro ⟨ho, y, hy, x, hx, h⟩
    exact ⟨ho, y, x, hy, hx, h⟩
  · rintro ⟨ho, y, x, hy, hx, h⟩
    exact ⟨ho, y, hy, x, hx, h⟩

theorem canEnd_iff : c.canEnd i x = true ↔ x.kind = .savepoint ∧ x.phase = .closing ∧
    ∀ (j : Nat) (y : Item), c.items[j]? = some y → y.token = i :: x.token → y.phase = .done := by
  simp only [Gate.canEnd, Bool.and_eq_true, decide_eq_true_eq, and_assoc, List.all_eq_true,
    List.mem_range, Gate.any, Option.any_eq_true, Bool.or_eq_true]
  constructor
  · rintro ⟨hkind, hphase, h⟩
    refine ⟨hkind, hphase, fun j y hy htoken => ?_⟩
    obtain ⟨hj, -⟩ := List.getElem?_eq_some_iff.mp hy
    obtain ⟨y', hy', h⟩ := h j hj
    cases hy.symm.trans hy'
    exact h.resolve_left (absurd htoken)
  · rintro ⟨hkind, hphase, h⟩
    refine ⟨hkind, hphase, fun j hj => ⟨_, List.getElem?_eq_getElem hj, ?_⟩⟩
    rw [or_iff_not_imp_left, not_not]
    exact h j _ (List.getElem?_eq_getElem hj)

theorem Advance.grows (h : Advance c i x y) : x.Grows y := by
  cases h with
  | start h =>
    have hphase := (canStart_iff.mp h).1
    exact ⟨rfl, rfl, rfl, rfl, rfl, fun _ => hphase, fun hdone => by rw [hphase] at hdone; cases hdone⟩
  | await => exact ⟨rfl, rfl, rfl, rfl, rfl, id, id⟩
  | settle => exact ⟨rfl, rfl, rfl, rfl, rfl, nofun, fun _ => rfl⟩
  | close hkind h =>
    exact ⟨rfl, rfl, rfl, rfl, rfl, nofun, fun hdone => by rw [h] at hdone; cases hdone⟩
  | finish => exact ⟨rfl, rfl, rfl, rfl, rfl, nofun, fun _ => rfl⟩

/-! ## The invariant -/

structure Inv (c : Gate) : Prop where
  /-- A token belongs to a savepoint that has started, and that does not end before what has it. -/
  token : ∀ (i : Nat) (x : Item) s parent, c.items[i]? = some x → x.token = s :: parent →
    ∃ y, c.items[s]? = some y ∧ s < i ∧ y.kind = .savepoint ∧ y.token = parent ∧
      y.phase ≠ .waiting ∧ (y.phase = .done → x.phase = .done)
  /-- An operation is behind the barriers of its token. -/
  barriers : ∀ (b i : Nat) (y x : Item), b < i → c.items[b]? = some y → c.items[i]? = some x →
    y.kind = .savepoint → x.kind = .operation → y.token = x.token → y.phase ≠ .done →
      b ∈ x.pending
  /-- A savepoint is behind those with the same parent. -/
  queue : ∀ (b i : Nat) (y x : Item), b < i → c.items[b]? = some y → c.items[i]? = some x →
    y.kind = .savepoint → x.kind = .savepoint → y.token = x.token →
      ∃ (p : Nat) (z : Item), p ∈ x.pending ∧ b ≤ p ∧ p < i ∧ c.items[p]? = some z ∧ z.kind = .savepoint ∧
        z.token = x.token
  pending : ∀ (i : Nat) (x : Item) (p : Nat), c.items[i]? = some x → p ∈ x.pending →
    p < i ∧ ∃ z, c.items[p]? = some z ∧ z.kind = .savepoint ∧ z.token = x.token
  /-- What an item was put behind is done when it begins. -/
  begun : ∀ (i : Nat) (x : Item), c.items[i]? = some x → x.phase ≠ .waiting → ∀ p ∈ x.pending, c.isDone p = true
  /-- A savepoint that has started is not ahead of the operations before it, unless in them. -/
  prior : ∀ (i : Nat) (x : Item) (o : Nat) (y : Item), c.items[i]? = some x →
    x.kind = .savepoint → x.phase ≠ .waiting → o < i → c.items[o]? = some y →
      y.kind = .operation → tokenInParent y.token x.token = true →
        o ∈ x.operations ∨ y.phase = .done
  /-- What is issued in an item stays in its scope. -/
  issuer : ∀ (j : Nat) (y : Item) (i : Nat), c.items[j]? = some y → y.issuer = some i →
    ∃ x, c.items[i]? = some x ∧ i < j ∧ x.phase ≠ .waiting ∧
      y.operations = (x.scope i).operations ∧ ((x.scope i).token <:+ y.token ∨ x.phase = .done)
  awaits : ∀ (i : Nat) (x : Item) (j : Nat), c.items[i]? = some x → j ∈ x.awaits →
    x.phase ≠ .waiting ∧ ∃ y, c.items[j]? = some y ∧ y.issuer = some i

/-! ## Executing savepoints -/

/-- The savepoints of the token execute. -/
def Live (c : Gate) : Token → Prop
  | [] => True
  | s :: parent => ∃ x, c.items[s]? = some x ∧ x.kind = .savepoint ∧ x.token = parent ∧
      x.phase ≠ .waiting ∧ x.phase ≠ .done

namespace Inv

/-- The token of what has not ended. -/
theorem live (h : Inv c) (hx : c.items[i]? = some x) (hdone : x.phase ≠ .done) :
    Live c x.token := by
  cases htoken : x.token with
  | nil => trivial
  | cons s parent =>
    obtain ⟨y, hy, -, hkind, hparent, hbegun, hend⟩ := h.token i x s parent hx htoken
    exact ⟨y, hy, hkind, hparent, hbegun, fun hy => hdone (hend hy)⟩

theorem live_tail (h : Inv c) {s : Nat} {parent : Token} (hl : Live c (s :: parent)) :
    Live c parent := by
  obtain ⟨x, hx, -, rfl, -, hdone⟩ := hl
  exact h.live hx hdone

/-- Savepoints with one parent run one after the other. -/
theorem done_of_begun (h : Inv c) {b : Nat} (hb : b < i) (hy : c.items[b]? = some y)
    (hx : c.items[i]? = some x) (hkindy : y.kind = .savepoint) (hkindx : x.kind = .savepoint)
    (htoken : y.token = x.token) (hbegun : x.phase ≠ .waiting) : y.phase = .done := by
  induction i using Nat.strongRecOn generalizing x with
  | ind i ih =>
    obtain ⟨p, z, hp, hbp, hpi, hz, hkindz, htokenz⟩ :=
      h.queue b i y x hb hy hx hkindy hkindx htoken
    obtain ⟨z', hz', hdone⟩ := isDone_iff.mp (h.begun i x hx hbegun p hp)
    cases hz.symm.trans hz'
    rcases Nat.lt_or_eq_of_le hbp with hlt | rfl
    · apply ih p hpi hlt hz hkindz (htoken.trans htokenz.symm)
      rw [hdone]
      exact nofun
    · cases hy.symm.trans hz
      exact hdone

theorem executing_unique (h : Inv c) (hx : c.items[i]? = some x) (hy : c.items[j]? = some y)
    (hkindx : x.kind = .savepoint) (hkindy : y.kind = .savepoint) (htoken : x.token = y.token)
    (hx₁ : x.phase ≠ .waiting) (hx₂ : x.phase ≠ .done) (hy₁ : y.phase ≠ .waiting)
    (hy₂ : y.phase ≠ .done) : i = j := by
  rcases Nat.lt_trichotomy i j with hlt | heq | hlt
  · exact absurd (h.done_of_begun hlt hx hy hkindx hkindy htoken hy₁) hx₂
  · exact heq
  · exact absurd (h.done_of_begun hlt hy hx hkindy hkindx htoken.symm hx₁) hy₂

theorem live_eq (h : Inv c) {σ τ : Token} (hσ : Live c σ) (hτ : Live c τ)
    (hlen : σ.length = τ.length) : σ = τ := by
  induction σ generalizing τ with
  | nil => exact (List.length_eq_zero_iff.mp hlen.symm).symm
  | cons s σ ih =>
    cases τ with
    | nil => cases hlen
    | cons t τ =>
      obtain rfl := ih (h.live_tail hσ) (h.live_tail hτ) (Nat.succ.inj hlen)
      obtain ⟨x, hx, hkindx, htokenx, hx₁, hx₂⟩ := hσ
      obtain ⟨y, hy, hkindy, htokeny, hy₁, hy₂⟩ := hτ
      rw [h.executing_unique hx hy hkindx hkindy (htokenx.trans htokeny.symm) hx₁ hx₂ hy₁ hy₂]

/-- Executing savepoints are nested in each other. -/
theorem live_suffix (h : Inv c) {σ τ : Token} (hσ : Live c σ) (hτ : Live c τ)
    (hlen : σ.length ≤ τ.length) : σ <:+ τ := by
  induction τ with
  | nil =>
    obtain rfl := List.length_eq_zero_iff.mp (Nat.le_zero.mp hlen)
    exact List.suffix_rfl
  | cons t τ ih =>
    rcases Nat.lt_or_eq_of_le hlen with hlt | heq
    · exact (ih (h.live_tail hτ) (Nat.le_of_lt_succ hlt)).trans (List.suffix_cons t τ)
    · obtain rfl := h.live_eq hσ hτ heq
      exact List.suffix_rfl

end Inv

/-! ## New items -/

/-- The last element of a filtered range is the greatest. -/
theorem le_getLast_of_mem {n b : Nat} {q : Nat → Bool} (hb : b ∈ (List.range n).filter q) :
    ∃ p ∈ ((List.range n).filter q).getLast?, p ∈ (List.range n).filter q ∧ b ≤ p := by
  have hsorted : ((List.range n).filter q).Pairwise (· < ·) := List.pairwise_lt_range.filter q
  generalize (List.range n).filter q = l at hb hsorted
  rcases List.eq_nil_or_concat' l with rfl | ⟨l, p, rfl⟩
  · cases hb
  · refine ⟨p, by simp, by simp, ?_⟩
    rcases List.mem_append.mp hb with hb | hb
    · exact Nat.le_of_lt ((List.pairwise_append.mp hsorted).2.2 b hb p (List.mem_singleton_self p))
    · exact Nat.le_of_eq (List.mem_singleton.mp hb)

theorem mem_savepoints {b : Nat} {τ : Token} :
    b ∈ c.savepoints τ ↔ ∃ y, c.items[b]? = some y ∧ y.kind = .savepoint ∧ y.token = τ := by
  simp only [Gate.savepoints, List.mem_filter, List.mem_range, Gate.any, Option.any_eq_true,
    Bool.and_eq_true, decide_eq_true_eq]
  constructor
  · rintro ⟨-, h⟩
    exact h
  · rintro ⟨y, hy, h⟩
    exact ⟨(List.getElem?_eq_some_iff.mp hy).1, y, hy, h⟩

theorem mem_applicableBarriers {b : Nat} {τ : Token} (hy : c.items[b]? = some y)
    (hkind : y.kind = .savepoint) (htoken : y.token = τ) (hdone : y.phase ≠ .done) :
    b ∈ c.applicableBarriers τ := by
  refine List.mem_filter.mpr ⟨mem_savepoints.mpr ⟨y, hy, hkind, htoken⟩, ?_⟩
  rw [Bool.not_eq_true', ← Bool.not_eq_true, isDone_iff]
  rintro ⟨z, hz, h⟩
  cases hy.symm.trans hz
  exact hdone h

/-- What the gate guarantees of an item when it is issued. -/
structure Fresh (c : Gate) (x : Item) : Prop where
  live : Live c x.token
  phase : x.phase ≠ .done
  awaits : x.awaits = []
  barriers : x.kind = .operation → ∀ (b : Nat) (y : Item), c.items[b]? = some y →
    y.kind = .savepoint → y.token = x.token → y.phase ≠ .done → b ∈ x.pending
  queue : x.kind = .savepoint → ∀ (b : Nat) (y : Item), c.items[b]? = some y →
    y.kind = .savepoint → y.token = x.token → ∃ (p : Nat) (z : Item), p ∈ x.pending ∧ b ≤ p ∧
      c.items[p]? = some z ∧ z.kind = .savepoint ∧ z.token = x.token
  pending : ∀ p ∈ x.pending, ∃ z, c.items[p]? = some z ∧ z.kind = .savepoint ∧ z.token = x.token
  begun : x.phase ≠ .waiting → x.kind = .operation ∧ x.pending = []
  issuer : ∀ i, x.issuer = some i → ∃ y, c.items[i]? = some y ∧ y.phase ≠ .waiting ∧
    x.operations = (y.scope i).operations ∧ ((y.scope i).token <:+ x.token ∨ y.phase = .done)

theorem scope_eq_some {scope : Scope} (h : c.scope (some i) = some scope) :
    ∃ y, c.items[i]? = some y ∧ y.phase ≠ .waiting ∧ scope = y.scope i := by
  obtain ⟨y, hy, rfl⟩ := Option.map_eq_some_iff.mp h
  obtain ⟨hy, hphase⟩ := Option.filter_eq_some_iff.mp hy
  exact ⟨y, hy, of_decide_eq_true hphase, rfl⟩

/-- There is a savepoint for the token. -/
def Linked (c : Gate) : Token → Prop
  | [] => True
  | s :: parent => ∃ x, c.items[s]? = some x ∧ x.kind = .savepoint ∧ x.token = parent ∧
      x.phase ≠ .waiting

namespace Inv

theorem linked (h : Inv c) (hx : c.items[i]? = some x) : Linked c x.token := by
  cases htoken : x.token with
  | nil => trivial
  | cons s parent =>
    obtain ⟨y, hy, -, hkind, hparent, hbegun, -⟩ := h.token i x s parent hx htoken
    exact ⟨y, hy, hkind, hparent, hbegun⟩

theorem linked_scope (h : Inv c) {issuer : Option Nat} {scope : Scope}
    (hs : c.scope issuer = some scope) : Linked c scope.token := by
  cases issuer with
  | none =>
    cases hs
    trivial
  | some i =>
    obtain ⟨y, hy, hphase, rfl⟩ := scope_eq_some hs
    unfold Item.scope
    cases hkind : y.kind with
    | operation => exact h.linked hy
    | savepoint => exact ⟨y, hy, hkind, rfl, hphase⟩

/-- The scope of what has not ended. -/
theorem live_scope (h : Inv c) (hy : c.items[i]? = some y) (hphase : y.phase ≠ .waiting)
    (hdone : y.phase ≠ .done) : Live c (y.scope i).token := by
  unfold Item.scope
  cases hkind : y.kind with
  | operation => exact h.live hy hdone
  | savepoint => exact ⟨y, hy, hkind, rfl, hphase, hdone⟩

end Inv

theorem linked_of_hasAdapter {τ : Token} (h : c.hasAdapter τ = true) : Linked c τ := by
  cases τ with
  | nil => trivial
  | cons s parent =>
    obtain ⟨x, hx, h⟩ := (Option.any_eq_true _ _).mp h
    simp only [Bool.and_eq_true, decide_eq_true_eq] at h
    exact ⟨x, hx, h.1.1, h.1.2, h.2⟩

/-- The tracker of a token admits operations while its savepoint executes. -/
theorem live_of_admits {τ : Token} {issuer : Option Nat} (hl : Linked c τ)
    (h : c.admits issuer τ = true) : Live c τ := by
  cases τ with
  | nil => trivial
  | cons s parent =>
    obtain ⟨x, hx, hkind, hparent, hphase⟩ := hl
    obtain ⟨x', hx', h⟩ := (Option.any_eq_true _ _).mp h
    cases hx.symm.trans hx'
    refine ⟨x, hx, hkind, hparent, hphase, fun hdone => ?_⟩
    rw [hdone] at h
    cases h

theorem currentSavepointToken_cases (σ τ : Token) :
    currentSavepointToken σ τ = τ ∨ currentSavepointToken σ τ = σ ∧ ¬ σ <:+ τ := by
  unfold currentSavepointToken
  split
  · exact .inl rfl
  · next hσ =>
    split
    · exact .inl rfl
    · next h =>
      refine .inr ⟨rfl, fun hs => h ?_⟩
      have hτ : τ ≠ [] := by
        rintro rfl
        rw [List.suffix_nil.mp hs] at hσ
        exact hσ rfl
      simpa [tokenIsSelfOrDescendant, hτ] using hs

theorem Inv.fresh (h : Inv c) (hx : Issued c x) : Fresh c x := by
  have hscope : ∀ {issuer adapter scope}, c.issue issuer adapter = some scope →
      Live c scope.token ∧ ∀ i, issuer = some i → ∃ y, c.items[i]? = some y ∧
        y.phase ≠ .waiting ∧ scope.operations = (y.scope i).operations ∧
          ((y.scope i).token <:+ scope.token ∨ y.phase = .done) := by
    intro issuer adapter scope hissue
    obtain ⟨ambient, hambient, hissue⟩ := Option.bind_eq_some_iff.mp hissue
    obtain ⟨hguard, hissue⟩ := Option.ite_none_right_eq_some.mp hissue
    cases hissue
    obtain ⟨hadapter, hadmits⟩ := Bool.and_eq_true_iff.mp hguard
    have hlinked : Linked c (currentSavepointToken adapter ambient.token) := by
      rcases currentSavepointToken_cases adapter ambient.token with heq | ⟨heq, -⟩
      · rw [heq]
        exact h.linked_scope hambient
      · rw [heq]
        exact linked_of_hasAdapter hadapter
    have hlive := live_of_admits hlinked hadmits
    refine ⟨hlive, ?_⟩
    rintro i rfl
    obtain ⟨y, hy, hphase, rfl⟩ := scope_eq_some hambient
    refine ⟨y, hy, hphase, rfl, ?_⟩
    by_cases hdone : y.phase = .done
    · exact .inr hdone
    · left
      -- Executing savepoints are nested, so the adapter's is further inside.
      rcases currentSavepointToken_cases adapter (y.scope i).token with heq | ⟨heq, hnot⟩
      · simp only [heq]
        exact List.suffix_rfl
      · simp only [heq] at hlive ⊢
        rcases Nat.le_total (y.scope i).token.length adapter.length with hlen | hlen
        · exact h.live_suffix (h.live_scope hy hphase hdone) hlive hlen
        · exact absurd (h.live_suffix hlive (h.live_scope hy hphase hdone) hlen) hnot
  cases hx with
  | @operation issuer adapter scope hissue =>
    obtain ⟨hlive, hissuer⟩ := hscope hissue
    refine ⟨hlive, ?_, rfl, fun _ b y hy hkind htoken hdone => ?_, nofun, fun p hp => ?_,
      fun hphase => ?_, hissuer⟩
    · simp only [Gate.newOperation]
      split <;> exact nofun
    · exact mem_applicableBarriers hy hkind htoken hdone
    · exact mem_savepoints.mp (List.mem_of_mem_filter hp)
    · simp only [Gate.newOperation] at hphase
      split at hphase
      · next hempty => exact ⟨rfl, List.isEmpty_iff.mp hempty⟩
      · exact absurd rfl hphase
  | @savepoint issuer adapter scope hissue =>
    obtain ⟨hlive, hissuer⟩ := hscope hissue
    refine ⟨hlive, nofun, rfl, nofun, fun _ b y hy hkind htoken => ?_, fun p hp => ?_,
      fun hphase => absurd rfl hphase, hissuer⟩
    · have hb : b ∈ c.savepoints scope.token := mem_savepoints.mpr ⟨y, hy, hkind, htoken⟩
      obtain ⟨p, hp, hmem, hbp⟩ := le_getLast_of_mem hb
      obtain ⟨z, hz⟩ := mem_savepoints.mp hmem
      exact ⟨p, z, Option.mem_toList.mpr hp, hbp, hz⟩
    · exact mem_savepoints.mp (List.mem_of_getLast? (Option.mem_toList.mp hp))

/-! ## The invariant holds -/

theorem at_append {l : List Item} (h : (l ++ [x])[i]? = some y) :
    l[i]? = some y ∨ i = l.length ∧ y = x := by
  rcases Nat.lt_trichotomy i l.length with hlt | rfl | hgt
  · rw [List.getElem?_append_left hlt] at h
    exact .inl h
  · rw [List.getElem?_concat_length] at h
    exact .inr ⟨rfl, (Option.some.inj h).symm⟩
  · rw [List.getElem?_eq_none (by simpa using Nat.succ_le_of_lt hgt)] at h
    cases h

theorem at_append_left {l : List Item} (h : l[i]? = some y) : (l ++ [x])[i]? = some y := by
  rw [List.getElem?_append_left (List.getElem?_eq_some_iff.mp h).1]
  exact h

theorem isDone_append {w : List Nat} (h : c.isDone i = true) :
    Gate.isDone ⟨c.items ++ [x], w⟩ i = true := by
  obtain ⟨y, hy, hdone⟩ := isDone_iff.mp h
  exact isDone_iff.mpr ⟨y, at_append_left hy, hdone⟩

theorem lt_length (h : c.items[i]? = some x) : i < c.items.length :=
  (List.getElem?_eq_some_iff.mp h).1

theorem Inv.issue (h : Inv c) (hx : Fresh c x) {w : List Nat} : Inv ⟨c.items ++ [x], w⟩ where
  token := by
    intro i y s parent hy htoken
    rcases at_append hy with hy | ⟨rfl, rfl⟩
    · obtain ⟨z, hz, hspec⟩ := h.token i y s parent hy htoken
      exact ⟨z, at_append_left hz, hspec⟩
    · have hlive := hx.live
      rw [htoken] at hlive
      obtain ⟨z, hz, hkind, hparent, hbegun, hdone⟩ := hlive
      exact ⟨z, at_append_left hz, lt_length hz, hkind, hparent, hbegun,
        fun hz => absurd hz hdone⟩
  barriers := by
    intro b i z y hb hz hy hkindz hkindy htoken hdone
    rcases at_append hz with hz₀ | ⟨rfl, rfl⟩
    · rcases at_append hy with hy₀ | ⟨rfl, rfl⟩
      · exact h.barriers b i z y hb hz₀ hy₀ hkindz hkindy htoken hdone
      · exact hx.barriers hkindy b z hz₀ hkindz htoken hdone
    · rcases at_append hy with hy₀ | ⟨rfl, rfl⟩
      · exact absurd (lt_length hy₀) (Nat.not_lt_of_gt hb)
      · exact absurd hb (Nat.lt_irrefl _)
  queue := by
    intro b i z y hb hz hy hkindz hkindy htoken
    rcases at_append hz with hz₀ | ⟨rfl, rfl⟩
    · rcases at_append hy with hy₀ | ⟨rfl, rfl⟩
      · obtain ⟨p, q, hp, hbp, hpi, hq, hspec⟩ := h.queue b i z y hb hz₀ hy₀ hkindz hkindy htoken
        exact ⟨p, q, hp, hbp, hpi, at_append_left hq, hspec⟩
      · obtain ⟨p, q, hp, hbp, hq, hspec⟩ := hx.queue hkindy b z hz₀ hkindz htoken
        exact ⟨p, q, hp, hbp, lt_length hq, at_append_left hq, hspec⟩
    · rcases at_append hy with hy₀ | ⟨rfl, rfl⟩
      · exact absurd (lt_length hy₀) (Nat.not_lt_of_gt hb)
      · exact absurd hb (Nat.lt_irrefl _)
  pending := by
    intro i y p hy hp
    rcases at_append hy with hy | ⟨rfl, rfl⟩
    · obtain ⟨hlt, z, hz, hspec⟩ := h.pending i y p hy hp
      exact ⟨hlt, z, at_append_left hz, hspec⟩
    · obtain ⟨z, hz, hspec⟩ := hx.pending p hp
      exact ⟨lt_length hz, z, at_append_left hz, hspec⟩
  begun := by
    intro i y hy hphase p hp
    rcases at_append hy with hy | ⟨rfl, rfl⟩
    · exact isDone_append (h.begun i y hy hphase p hp)
    · rw [(hx.begun hphase).2] at hp
      cases hp
  prior := by
    intro i y o z hy hkind hphase ho hz
    rcases at_append hy with hy₀ | ⟨rfl, rfl⟩
    · rcases at_append hz with hz₀ | ⟨rfl, rfl⟩
      · exact h.prior i y o z hy₀ hkind hphase ho hz₀
      · exact absurd (lt_length hy₀) (Nat.not_lt_of_gt ho)
    · rw [(hx.begun hphase).1] at hkind
      cases hkind
  issuer := by
    intro j y i hy hissuer
    rcases at_append hy with hy | ⟨rfl, rfl⟩
    · obtain ⟨z, hz, hspec⟩ := h.issuer j y i hy hissuer
      exact ⟨z, at_append_left hz, hspec⟩
    · obtain ⟨z, hz, hspec⟩ := hx.issuer i hissuer
      exact ⟨z, at_append_left hz, lt_length hz, hspec⟩
  awaits := by
    intro i y j hy hj
    rcases at_append hy with hy | ⟨rfl, rfl⟩
    · obtain ⟨hphase, z, hz, hissuer⟩ := h.awaits i y j hy hj
      exact ⟨hphase, z, at_append_left hz, hissuer⟩
    · rw [hx.awaits] at hj
      cases hj

/-- Where an item comes from when one of the items advances. -/
theorem at_set (hx : c.items[i]? = some x) (hadv : Advance c i x y) {l : List Item}
    (hl : l = c.items.set i y) {j : Nat} {z' : Item} (hz : l[j]? = some z') :
    ∃ z, c.items[j]? = some z ∧ z.Grows z' ∧ (z' = z ∨ j = i ∧ Advance c j z z') := by
  rw [hl, List.getElem?_set] at hz
  split at hz
  · next hij =>
    obtain rfl := hij
    obtain ⟨-, hz⟩ := Option.ite_none_right_eq_some.mp hz
    cases hz
    exact ⟨x, hx, hadv.grows, .inr ⟨rfl, hadv⟩⟩
  · exact ⟨z', hz, .refl z', .inl rfl⟩

theorem at_set_of_at (hx : c.items[i]? = some x) (hadv : Advance c i x y) {l : List Item}
    (hl : l = c.items.set i y) {j : Nat} {z : Item} (hz : c.items[j]? = some z) :
    ∃ z', l[j]? = some z' ∧ z.Grows z' := by
  rw [hl, List.getElem?_set]
  split
  · next hij =>
    obtain rfl := hij
    cases hx.symm.trans hz
    exact ⟨y, by rw [if_pos (lt_length hx)], hadv.grows⟩
  · exact ⟨z, hz, .refl z⟩

theorem Item.Grows.scope (h : x.Grows y) : y.scope i = x.scope i := by
  unfold Item.scope
  rw [h.kind, h.token, h.operations]

/-- An item that begins. -/
theorem Advance.begins (h : Advance c i x y) (hy : y.phase ≠ .waiting) :
    x.phase ≠ .waiting ∨ c.canStart i x = true := by
  cases h with
  | start h => exact .inr h
  | await h =>
    rw [h]
    exact .inl nofun
  | settle _ h =>
    rw [h]
    exact .inl nofun
  | close _ h =>
    rw [h]
    exact .inl nofun
  | finish h =>
    rw [(canEnd_iff.mp h).2.1]
    exact .inl nofun

/-- An item that ends. -/
theorem Advance.ends (h : Advance c i x y) (hy : y.phase = .done) :
    x.phase = .done ∨ x.kind = .operation ∨ c.canEnd i x = true := by
  cases h with
  | start h => cases hy
  | await h => exact .inl hy
  | settle hkind => exact .inr (.inl hkind)
  | close => cases hy
  | finish h => exact .inr (.inr h)

theorem Advance.awaits (h : Advance c i x y) {j : Nat} (hj : j ∈ y.awaits) :
    j ∈ x.awaits ∨ x.phase ≠ .waiting ∧ ∃ z, c.items[j]? = some z ∧ z.issuer = some i := by
  cases h with
  | @await k h hk =>
    rcases List.mem_cons.mp hj with rfl | hj
    · obtain ⟨z, hz, hissuer⟩ := (Option.any_eq_true _ _).mp hk
      rw [h]
      exact .inr ⟨nofun, z, hz, of_decide_eq_true hissuer⟩
    · exact .inl hj
  | start => exact .inl hj
  | settle => exact .inl hj
  | close => exact .inl hj
  | finish => exact .inl hj

theorem Inv.advance (h : Inv c) (hx : c.items[i]? = some x) (hadv : Advance c i x y)
    (hset : c'.items = c.items.set i y) : Inv c' where
  token := by
    intro j z' s parent hz' htoken
    obtain ⟨z, hz, hgrows, -⟩ := at_set hx hadv hset hz'
    rw [hgrows.token] at htoken
    obtain ⟨v, hv, hsj, hkind, hparent, hbegun, hend⟩ := h.token j z s parent hz htoken
    obtain ⟨v', hv', hgrowsv⟩ := at_set_of_at hx hadv hset hv
    refine ⟨v', hv', hsj, hgrowsv.kind.trans hkind, hgrowsv.token.trans hparent,
      fun hw => hbegun (hgrowsv.waiting hw), fun hdone => ?_⟩
    obtain ⟨v₁, hv₁, -, hsame | ⟨rfl, hadvv⟩⟩ := at_set hx hadv hset hv'
    · cases hv.symm.trans hv₁
      rw [hsame] at hdone
      exact hgrows.done (hend hdone)
    · cases hv.symm.trans hv₁
      rcases hadvv.ends hdone with hdone | hop | hcan
      · exact hgrows.done (hend hdone)
      · rw [hop] at hkind
        cases hkind
      · rw [← hparent] at htoken
        exact hgrows.done ((canEnd_iff.mp hcan).2.2 j z hz htoken)
  barriers := by
    intro b j v' z' hb hv' hz' hkindv hkindz htoken hdone
    obtain ⟨v, hv, hgrowsv, -⟩ := at_set hx hadv hset hv'
    obtain ⟨z, hz, hgrows, -⟩ := at_set hx hadv hset hz'
    rw [hgrows.pending]
    refine h.barriers b j v z hb hv hz (hgrowsv.kind.symm.trans hkindv)
      (hgrows.kind.symm.trans hkindz) ?_ fun hd => hdone (hgrowsv.done hd)
    rw [← hgrowsv.token, htoken, hgrows.token]
  queue := by
    intro b j v' z' hb hv' hz' hkindv hkindz htoken
    obtain ⟨v, hv, hgrowsv, -⟩ := at_set hx hadv hset hv'
    obtain ⟨z, hz, hgrows, -⟩ := at_set hx hadv hset hz'
    have htoken' : v.token = z.token := by rw [← hgrowsv.token, htoken, hgrows.token]
    obtain ⟨p, q, hp, hbp, hpj, hq, hkindq, htokenq⟩ := h.queue b j v z hb hv hz
      (hgrowsv.kind.symm.trans hkindv) (hgrows.kind.symm.trans hkindz) htoken'
    obtain ⟨q', hq', hgrowsq⟩ := at_set_of_at hx hadv hset hq
    refine ⟨p, q', ?_, hbp, hpj, hq', hgrowsq.kind.trans hkindq, ?_⟩
    · rw [hgrows.pending]
      exact hp
    · rw [hgrowsq.token, htokenq, hgrows.token]
  pending := by
    intro j z' p hz' hp
    obtain ⟨z, hz, hgrows, -⟩ := at_set hx hadv hset hz'
    rw [hgrows.pending] at hp
    obtain ⟨hlt, q, hq, hkindq, htokenq⟩ := h.pending j z p hz hp
    obtain ⟨q', hq', hgrowsq⟩ := at_set_of_at hx hadv hset hq
    refine ⟨hlt, q', hq', hgrowsq.kind.trans hkindq, ?_⟩
    rw [hgrowsq.token, htokenq, hgrows.token]
  begun := by
    intro j z' hz' hphase p hp
    obtain ⟨z, hz, hgrows, hcase⟩ := at_set hx hadv hset hz'
    rw [hgrows.pending] at hp
    have hdone : c.isDone p = true := by
      rcases hcase with rfl | ⟨rfl, hadvz⟩
      · exact h.begun j _ hz hphase p hp
      · rcases hadvz.begins hphase with hbegun | hcan
        · exact h.begun j z hz hbegun p hp
        · exact List.all_eq_true.mp (canStart_iff.mp hcan).2.1 p hp
    obtain ⟨q, hq, hdone⟩ := isDone_iff.mp hdone
    obtain ⟨q', hq', hgrowsq⟩ := at_set_of_at hx hadv hset hq
    exact isDone_iff.mpr ⟨q', hq', hgrowsq.done hdone⟩
  prior := by
    intro j z' o v' hz' hkind hphase ho hv' hkindv hparent
    obtain ⟨z, hz, hgrows, hcase⟩ := at_set hx hadv hset hz'
    obtain ⟨v, hv, hgrowsv, -⟩ := at_set hx hadv hset hv'
    rw [hgrows.token, hgrowsv.token] at hparent
    rw [hgrowsv.kind] at hkindv
    rw [hgrows.kind] at hkind
    rw [hgrows.operations]
    have hprior : o ∈ z.operations ∨ v.phase = .done := by
      rcases hcase with rfl | ⟨rfl, hadvz⟩
      · exact h.prior j _ o v hz hkind hphase ho hv hkindv hparent
      · rcases hadvz.begins hphase with hbegun | hcan
        · exact h.prior j z o v hz hkind hbegun ho hv hkindv hparent
        · rcases (canStart_iff.mp hcan).2.2 with hop | hnone
          · rw [hop] at hkind
            cases hkind
          · by_contra hnot
            rw [not_or] at hnot
            have hwaits : c.waitsForPrior j o = true :=
              waitsForPrior_iff.mpr ⟨ho, z, v, hz, hv, hkindv, hnot.2, hparent, hnot.1⟩
            rw [hnone o] at hwaits
            cases hwaits
    exact hprior.imp_right hgrowsv.done
  issuer := by
    intro j z' k hz' hissuer
    obtain ⟨z, hz, hgrows, -⟩ := at_set hx hadv hset hz'
    rw [hgrows.issuer] at hissuer
    obtain ⟨v, hv, hkj, hphase, hoperations, hscope⟩ := h.issuer j z k hz hissuer
    obtain ⟨v', hv', hgrowsv⟩ := at_set_of_at hx hadv hset hv
    refine ⟨v', hv', hkj, fun hw => hphase (hgrowsv.waiting hw), ?_, ?_⟩
    · rw [hgrows.operations, hgrowsv.scope, hoperations]
    · rw [hgrowsv.scope, hgrows.token]
      exact hscope.imp_right hgrowsv.done
  awaits := by
    intro j z' k hz' hk
    obtain ⟨z, hz, hgrows, hcase⟩ := at_set hx hadv hset hz'
    have hspec : z.phase ≠ .waiting ∧ ∃ v, c.items[k]? = some v ∧ v.issuer = some j := by
      rcases hcase with rfl | ⟨rfl, hadvz⟩
      · exact h.awaits j _ k hz hk
      · rcases hadvz.awaits hk with hk | hspec
        · exact h.awaits j z k hz hk
        · exact hspec
    obtain ⟨hphase, v, hv, hissuer⟩ := hspec
    obtain ⟨v', hv', hgrowsv⟩ := at_set_of_at hx hadv hset hv
    exact ⟨fun hw => hphase (hgrows.waiting hw), v', hv', hgrowsv.issuer.trans hissuer⟩

theorem Inv.step (h : Inv c) (hs : c.step e = some c') : Inv c' := by
  rcases step_cases hs with ⟨x, hx, rfl⟩ | ⟨i, x, y, hx, hadv, hset, -⟩ | ⟨i, x, -, -, -, rfl⟩
  · exact h.issue (h.fresh hx)
  · exact h.advance hx hadv hset
  · exact ⟨h.token, h.barriers, h.queue, h.pending, h.begun, h.prior, h.issuer, h.awaits⟩

theorem Inv.init : Inv .init := by
  constructor <;> simp [Gate.init]

theorem Inv.run {es : List Event} (h : Gate.Run .init es c) : Inv c :=
  h.invariant (fun hinv hs => hinv.step hs) .init

end ActiveTs.Transactions.SavepointGate
