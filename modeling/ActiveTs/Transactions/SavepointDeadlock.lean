import ActiveTs.Lib.Cycles
import ActiveTs.Transactions.SavepointOrder

/-! # Deadlocks of the savepoint gate

Code that awaits only what it has issued itself can still wait for itself through the gate: an
operation awaits an inner one that is behind a savepoint, and the savepoint waits for the operation.
`waitForPriorOperations` leaves out the operations that a savepoint was issued in, but
`applicableBarrierPromises` and the queue leave out nothing. Every cycle of waits contains this
pattern. -/

namespace ActiveTs.Transactions.SavepointGate

open Relation

variable {c c' : Gate} {e : Event} {i j b o p : Nat} {x y z : Item}

/-! ## Who waits for whom -/

/-- The item `i` cannot go on before the item `j` has ended. -/
inductive WaitsFor (c : Gate) (i j : Nat) : Prop
  /-- An operation waits for a barrier, a savepoint for the one before it in the queue. -/
  | pending (x : Item) (hx : c.items[i]? = some x) (hphase : x.phase = .waiting)
    (hj : j ∈ x.pending) (hdone : c.isDone j = false)
  /-- A savepoint waits for an operation before it. -/
  | prior (x : Item) (hx : c.items[i]? = some x) (hkind : x.kind = .savepoint)
    (hphase : x.phase = .waiting) (hprior : c.waitsForPrior i j = true)
  | await (x y : Item) (hx : c.items[i]? = some x) (hphase : x.phase ≠ .done) (hj : j ∈ x.awaits)
    (hy : c.items[j]? = some y) (hdone : y.phase ≠ .done)
  /-- A savepoint whose callback has settled waits for what its tracker follows. -/
  | tracked (x y : Item) (hx : c.items[i]? = some x) (hkind : x.kind = .savepoint)
    (hphase : x.phase = .closing) (hy : c.items[j]? = some y) (htoken : y.token = i :: x.token)
    (hdone : y.phase ≠ .done)

/-- Items wait for each other in a cycle. -/
def Deadlocked (c : Gate) : Prop := ∃ i, TransGen (WaitsFor c) i i

/-- The code of the item `i` awaits the item `j`. -/
def Awaits (c : Gate) (i j : Nat) : Prop :=
  ∃ x y, c.items[i]? = some x ∧ x.phase ≠ .done ∧ j ∈ x.awaits ∧ c.items[j]? = some y ∧
    y.phase ≠ .done

/-- The savepoint `b` has not started, and the item `i` was issued behind it. -/
def Ahead (c : Gate) (b i : Nat) : Prop :=
  ∃ y x, c.items[b]? = some y ∧ c.items[i]? = some x ∧ b < i ∧ y.kind = .savepoint ∧
    y.phase = .waiting ∧ y.token = x.token

/-- An operation awaits an item, itself or through what it awaits, and a savepoint that waits for
the operation is ahead of the item. -/
def Overtaken (c : Gate) : Prop :=
  ∃ o b i, TransGen (Awaits c) o i ∧ Ahead c b i ∧ c.waitsForPrior b o = true

/-- The condition on a step: nothing comes to be awaited in an operation, directly or through what
is awaited, that is behind a savepoint which waits for the operation. -/
def Meets (c : Gate) : Event → Prop
  | .await i j => ¬ ∃ o b k, ReflTransGen (Awaits c) o i ∧ ReflTransGen (Awaits c) j k ∧
      Ahead c b k ∧ c.waitsForPrior b o = true
  | _ => True

/-! ## Such a savepoint closes a cycle -/

theorem isDone_eq_false (hx : c.items[i]? = some x) (hphase : x.phase ≠ .done) :
    c.isDone i = false := by
  rw [← Bool.not_eq_true, isDone_iff]
  rintro ⟨y, hy, hdone⟩
  cases hx.symm.trans hy
  exact hphase hdone

/-- What is behind a savepoint that has not started has not begun. -/
theorem Inv.waiting_of_ahead (h : Inv c) (ha : Ahead c b i) :
    ∃ x, c.items[i]? = some x ∧ x.phase = .waiting := by
  obtain ⟨y, x, hy, hx, hlt, hkindy, hphase, htoken⟩ := ha
  have hdone : y.phase ≠ .done := by
    rw [hphase]
    exact nofun
  refine ⟨x, hx, ?_⟩
  by_contra hbegun
  cases hkindx : x.kind with
  | operation =>
    have hmem := h.barriers b i y x hlt hy hx hkindy hkindx htoken hdone
    have hb := h.begun i x hx hbegun b hmem
    rw [isDone_eq_false hy hdone] at hb
    cases hb
  | savepoint => exact hdone (h.done_of_begun hlt hy hx hkindy hkindx htoken hbegun)

/-- What is behind a savepoint waits for it, through the queue if it is a savepoint. -/
theorem Inv.waits_of_ahead (h : Inv c) (ha : Ahead c b i) : TransGen (WaitsFor c) i b := by
  induction i using Nat.strongRecOn with
  | ind i ih =>
    obtain ⟨x, hx, hwaiting⟩ := h.waiting_of_ahead ha
    obtain ⟨y, x', hy, hx', hlt, hkindy, hphase, htoken⟩ := ha
    cases hx.symm.trans hx'
    have hdone : y.phase ≠ .done := by
      rw [hphase]
      exact nofun
    cases hkindx : x.kind with
    | operation =>
      have hmem := h.barriers b i y x hlt hy hx hkindy hkindx htoken hdone
      exact .single (.pending x hx hwaiting hmem (isDone_eq_false hy hdone))
    | savepoint =>
      obtain ⟨p, z, hp, hbp, hpi, hz, hkindz, htokenz⟩ :=
        h.queue b i y x hlt hy hx hkindy hkindx htoken
      rcases Nat.lt_or_eq_of_le hbp with hlt' | rfl
      · have ha' : Ahead c b p := ⟨y, z, hy, hz, hlt', hkindy, hphase, htoken.trans htokenz.symm⟩
        obtain ⟨z', hz', hwaitingz⟩ := h.waiting_of_ahead ha'
        cases hz.symm.trans hz'
        have hdonez : z.phase ≠ .done := by
          rw [hwaitingz]
          exact nofun
        exact .head (.pending x hx hwaiting hp (isDone_eq_false hz hdonez)) (ih p hpi ha')
      · exact .single (.pending x hx hwaiting hp (isDone_eq_false hy hdone))

theorem Awaits.waitsFor (h : Awaits c i j) : WaitsFor c i j := by
  obtain ⟨x, y, hx, hphase, hj, hy, hdone⟩ := h
  exact .await x y hx hphase hj hy hdone

theorem Inv.deadlocked_of_overtaken (h : Inv c) (ho : Overtaken c) : Deadlocked c := by
  obtain ⟨o, b, i, hawaits, hahead, hprior⟩ := ho
  have hback := h.waits_of_ahead hahead
  obtain ⟨y, x, hy, -, -, hkind, hphase, -⟩ := hahead
  have hout : TransGen (WaitsFor c) o i := hawaits.lift id fun _ _ => Awaits.waitsFor
  exact ⟨o, (hout.trans hback).tail (.prior y hy hkind hphase hprior)⟩

/-! ## Every cycle has such a savepoint -/

/-- How deep in the savepoints the code of an item runs, or will be issued. -/
def level (c : Gate) (i : Nat) : Nat :=
  match c.items[i]? with
  | none => 0
  | some x => if x.phase = .waiting then x.token.length else (x.scope i).token.length

theorem level_waiting (hx : c.items[i]? = some x) (hphase : x.phase = .waiting) :
    level c i = x.token.length := by
  simp [level, hx, hphase]

theorem level_begun (hx : c.items[i]? = some x) (hphase : x.phase ≠ .waiting) :
    level c i = (x.scope i).token.length := by
  simp [level, hx, hphase]

theorem Item.scope_token_operation (h : x.kind = .operation) : (x.scope i).token = x.token := by
  simp [Item.scope, h]

theorem Item.scope_token_savepoint (h : x.kind = .savepoint) :
    (x.scope i).token = i :: x.token := by
  simp [Item.scope, h]

theorem length_le_level (hx : c.items[i]? = some x) : x.token.length ≤ level c i := by
  by_cases hphase : x.phase = .waiting
  · exact Nat.le_of_eq (level_waiting hx hphase).symm
  · rw [level_begun hx hphase]
    cases hkind : x.kind with
    | operation => exact Nat.le_of_eq (congrArg List.length (Item.scope_token_operation hkind)).symm
    | savepoint =>
      rw [Item.scope_token_savepoint hkind]
      exact Nat.le_succ _

/-- An operation, or a savepoint that has not started, with this token. -/
def Node (c : Gate) (τ : Token) (i : Nat) : Prop :=
  ∃ x, c.items[i]? = some x ∧ x.token = τ ∧ (x.kind = .operation ∨ x.phase = .waiting)

/-- Only a savepoint that has started is deeper than its token. -/
theorem node_of_level (hx : c.items[i]? = some x) (h : level c i ≤ x.token.length) :
    Node c x.token i := by
  refine ⟨x, hx, rfl, ?_⟩
  cases hkind : x.kind with
  | operation => exact .inl rfl
  | savepoint =>
    right
    by_contra hphase
    rw [level_begun hx hphase, Item.scope_token_savepoint hkind] at h
    exact Nat.not_succ_le_self _ h

theorem suffix_of_tokenInParent {σ τ : Token} (h : tokenInParent σ τ = true) : τ <:+ σ := by
  unfold tokenInParent at h
  split at h
  · next hτ =>
    rw [List.isEmpty_iff.mp hτ]
    exact List.nil_suffix
  · exact List.isSuffixOf_iff_suffix.mp h

/-- An edge: what it leads to has a token inside of where it comes from. -/
theorem Inv.token_of_waitsFor (h : Inv c) (hw : WaitsFor c i j) :
    ∃ y, c.items[j]? = some y ∧ level c i ≤ y.token.length := by
  cases hw with
  | pending x hx hphase hj hdone =>
    obtain ⟨-, z, hz, -, htoken⟩ := h.pending i x j hx hj
    exact ⟨z, hz, Nat.le_of_eq (by rw [level_waiting hx hphase, htoken])⟩
  | prior x hx hkind hphase hprior =>
    obtain ⟨-, x', y, hx', hy, -, -, hparent, -⟩ := waitsForPrior_iff.mp hprior
    cases hx.symm.trans hx'
    exact ⟨y, hy, by
      rw [level_waiting hx hphase]
      exact (suffix_of_tokenInParent hparent).length_le⟩
  | await x y hx hphase hj hy hdone =>
    obtain ⟨hbegun, y', hy', hissuer⟩ := h.awaits i x j hx hj
    cases hy.symm.trans hy'
    obtain ⟨x', hx', -, -, -, hscope⟩ := h.issuer j y i hy hissuer
    cases hx.symm.trans hx'
    exact ⟨y, hy, by
      rw [level_begun hx hbegun]
      exact (hscope.resolve_right hphase).length_le⟩
  | tracked x y hx hkind hphase hy htoken hdone =>
    have hbegun : x.phase ≠ .waiting := by
      rw [hphase]
      exact nofun
    exact ⟨y, hy, Nat.le_of_eq (by
      rw [level_begun hx hbegun, Item.scope_token_savepoint hkind, htoken])⟩

theorem Inv.level_le (h : Inv c) (hw : WaitsFor c i j) : level c i ≤ level c j := by
  obtain ⟨y, hy, hle⟩ := h.token_of_waitsFor hw
  exact Nat.le_trans hle (length_le_level hy)

/-- The edges of a cycle. -/
def Edge (c : Gate) (i j : Nat) : Prop := WaitsFor c i j ∧ level c i = level c j

theorem Inv.node_of_edge (h : Inv c) (he : Edge c i j) : ∃ τ, Node c τ j := by
  obtain ⟨y, hy, hle⟩ := h.token_of_waitsFor he.1
  rw [he.2] at hle
  exact ⟨y.token, node_of_level hy hle⟩

/-- An operation awaits another item, an item waits for a savepoint that is ahead of it, or a
savepoint waits for an operation. -/
inductive Link (c : Gate) (i j : Nat) : Prop
  | await (h : Awaits c i j) (x : Item) (hx : c.items[i]? = some x) (hkind : x.kind = .operation)
  | ahead (h : Ahead c j i)
  | prior (h : c.waitsForPrior i j = true) (x : Item) (hx : c.items[i]? = some x)
    (hkind : x.kind = .savepoint) (hphase : x.phase = .waiting)

/-- The edges out of operations and waiting savepoints stay with their token. -/
theorem Inv.link_of_edge (h : Inv c) {τ : Token} (hi : Node c τ i) (he : Edge c i j) :
    Node c τ j ∧ Link c i j := by
  obtain ⟨x, hx, rfl, hnode⟩ := hi
  obtain ⟨hw, hlevel⟩ := he
  have hjnode : ∀ y, c.items[j]? = some y → level c i ≤ y.token.length →
      y.token.length ≤ level c i ∧ Node c y.token j := by
    intro y hy hle
    rw [hlevel] at hle ⊢
    exact ⟨length_le_level hy, node_of_level hy hle⟩
  cases hw with
  | pending x' hx' hphase hj hdone =>
    cases hx.symm.trans hx'
    obtain ⟨hlt, z, hz, hkind, htoken⟩ := h.pending i x j hx hj
    have hle : level c i ≤ z.token.length :=
      Nat.le_of_eq (by rw [level_waiting hx hphase, htoken])
    obtain ⟨-, hnodej⟩ := hjnode z hz hle
    rw [htoken] at hnodej
    refine ⟨hnodej, ?_⟩
    obtain ⟨z', hz', -, hop | hwaiting⟩ := hnodej
    · cases hz.symm.trans hz'
      rw [hop] at hkind
      cases hkind
    · cases hz.symm.trans hz'
      exact .ahead ⟨z, x, hz, hx, hlt, hkind, hwaiting, htoken⟩
  | prior x' hx' hkind hphase hprior =>
    cases hx.symm.trans hx'
    obtain ⟨-, x'', y, hx'', hy, -, -, hparent, -⟩ := waitsForPrior_iff.mp hprior
    cases hx.symm.trans hx''
    have hsuffix := suffix_of_tokenInParent hparent
    have hi := level_waiting hx hphase
    obtain ⟨hle, hnodej⟩ := hjnode y hy (by rw [hi]; exact hsuffix.length_le)
    rw [← hsuffix.eq_of_length_le (by rw [← hi]; exact hle)] at hnodej
    exact ⟨hnodej, .prior hprior x hx hkind hphase⟩
  | await x' y hx' hphase hj hy hdone =>
    cases hx.symm.trans hx'
    obtain ⟨hbegun, y', hy', hissuer⟩ := h.awaits i x j hx hj
    cases hy.symm.trans hy'
    obtain ⟨x', hx', -, -, -, hscope⟩ := h.issuer j y i hy hissuer
    cases hx.symm.trans hx'
    have hsuffix := hscope.resolve_right hphase
    have hkind : x.kind = .operation := hnode.resolve_right hbegun
    have hi := level_begun hx hbegun
    obtain ⟨hle, hnodej⟩ := hjnode y hy (by rw [hi]; exact hsuffix.length_le)
    rw [← hsuffix.eq_of_length_le (by rw [← hi]; exact hle),
      Item.scope_token_operation hkind] at hnodej
    exact ⟨hnodej, .await ⟨x, y, hx, hphase, hj, hy, hdone⟩ x hx hkind⟩
  | tracked x' y hx' hkind hphase hy htoken hdone =>
    cases hx.symm.trans hx'
    rcases hnode with hop | hwaiting
    · rw [hop] at hkind
      cases hkind
    · rw [hwaiting] at hphase
      cases hphase

/-- What an operation awaits was issued later, in the operation. -/
theorem Inv.issued_of_awaits (h : Inv c) (ha : Awaits c i j) (hx : c.items[i]? = some x)
    (hkind : x.kind = .operation) (hy : c.items[j]? = some y) :
    i < j ∧ y.operations = i :: x.operations := by
  obtain ⟨x', -, hx', -, hj, -⟩ := ha
  cases hx.symm.trans hx'
  obtain ⟨-, y', hy', hissuer⟩ := h.awaits i x j hx hj
  cases hy.symm.trans hy'
  obtain ⟨x', hx', hlt, -, hoperations, -⟩ := h.issuer j y i hy hissuer
  cases hx.symm.trans hx'
  refine ⟨hlt, ?_⟩
  rw [hoperations]
  simp [Item.scope, hkind]

/-- An operation with the token that a savepoint ahead of `b`, or `b`, waits for, or that such an
operation awaits through others of the token. -/
def Held (c : Gate) (τ : Token) (b i : Nat) : Prop :=
  ∃ x, c.items[i]? = some x ∧ x.kind = .operation ∧ x.token = τ ∧
    ∃ d y o, d ≤ b ∧ c.items[d]? = some y ∧ y.kind = .savepoint ∧ y.phase = .waiting ∧
      y.token = τ ∧ c.waitsForPrior d o = true ∧
        (i = o ∨ TransGen (Awaits c) o i ∧ o ∈ x.operations)

/-- A savepoint before `b`, or an operation that is held. -/
def Before (c : Gate) (τ : Token) (b i : Nat) : Prop :=
  (∃ x, c.items[i]? = some x ∧ x.kind = .savepoint ∧ i < b) ∨ Held c τ b i

/-- If no operation is overtaken, then what is before `b`, and `b`, leads only to what is before
it. -/
theorem Inv.before_of_link (h : Inv c) (hnot : ¬ Overtaken c) {τ : Token} (hi : Node c τ i)
    (hcase : (∃ x, c.items[i]? = some x ∧ x.kind = .savepoint ∧ i ≤ b) ∨ Held c τ b i)
    (hj : Node c τ j) (hl : Link c i j) : Before c τ b j := by
  obtain ⟨x, hx, htokenx, hphasex⟩ := hi
  obtain ⟨y, hy, htokeny, hphasey⟩ := hj
  cases hl with
  | prior hprior x' hx' hkind hphase =>
    cases hx.symm.trans hx'
    rcases hcase with ⟨x', hx', -, hle⟩ | ⟨x', hx', hop, -⟩
    · right
      obtain ⟨-, x'', y', hx'', hy', hop, -⟩ := waitsForPrior_iff.mp hprior
      cases hy.symm.trans hy'
      exact ⟨y, hy, hop, htokeny, i, x, j, hle, hx, hkind, hphase, htokenx, hprior, .inl rfl⟩
    · cases hx.symm.trans hx'
      rw [hop] at hkind
      cases hkind
  | ahead hahead =>
    obtain ⟨y', x', hy', hx', hlt, hkind, hphase, -⟩ := hahead
    cases hy.symm.trans hy'
    left
    refine ⟨y, hy, hkind, ?_⟩
    rcases hcase with ⟨x', hx', -, hib⟩ | ⟨x', hx', hop, -, d, z, o, hdb, hz, hkindz, hphasez,
      htokenz, hprior, hio⟩
    · exact Nat.lt_of_lt_of_le hlt hib
    · cases hx.symm.trans hx'
      have hod := (waitsForPrior_iff.mp hprior).1
      rcases hio with rfl | ⟨hawaits, -⟩
      · omega
      · -- The held operation is not behind the savepoint.
        rcases Nat.lt_trichotomy d i with hlt' | rfl | hlt'
        · exact absurd ⟨o, d, i, hawaits, ⟨z, x, hz, hx, hlt', hkindz, hphasez,
            htokenz.trans htokenx.symm⟩, hprior⟩ hnot
        · cases hz.symm.trans hx
          rw [hop] at hkindz
          cases hkindz
        · omega
  | await hawait x' hx' hop =>
    cases hx.symm.trans hx'
    obtain ⟨hij, hoperations⟩ := h.issued_of_awaits hawait hx hop hy
    rcases hcase with ⟨x', hx', hkind, -⟩ | ⟨x', hx', -, -, d, z, o, hdb, hz, hkindz, hphasez,
      htokenz, hprior, hio⟩
    · cases hx.symm.trans hx'
      rw [hop] at hkind
      cases hkind
    · cases hx.symm.trans hx'
      have hout : TransGen (Awaits c) o j ∧ o ∈ y.operations := by
        rw [hoperations]
        rcases hio with rfl | ⟨hawaits, ho⟩
        · exact ⟨.single hawait, List.mem_cons_self ..⟩
        · exact ⟨hawaits.tail hawait, List.mem_cons_of_mem _ ho⟩
      cases hkindy : y.kind with
      | operation =>
        exact .inr ⟨y, hy, hkindy, htokeny, d, z, o, hdb, hz, hkindz, hphasez, htokenz, hprior,
          .inr hout⟩
      | savepoint =>
        refine .inl ⟨y, hy, hkindy, Nat.lt_of_lt_of_le ?_ hdb⟩
        rcases Nat.lt_trichotomy d j with hlt | rfl | hlt
        · exact absurd ⟨o, d, j, hout.1, ⟨z, y, hz, hy, hlt, hkindz, hphasez,
            htokenz.trans htokeny.symm⟩, hprior⟩ hnot
        · -- The operation was issued before the savepoint and not around it.
          obtain ⟨-, z', -, hz', -, -, -, -, hnotin⟩ := waitsForPrior_iff.mp hprior
          cases hy.symm.trans hz'
          exact absurd hout.2 hnotin
        · exact hlt

/-- A path among operations only goes to later ones. -/
theorem Inv.later_or_savepoint (h : Inv c) {τ : Token} (hi : Node c τ i)
    (hpath : TransGen (Edge c) i j) :
    i < j ∨ ∃ b y, c.items[b]? = some y ∧ y.kind = .savepoint ∧ ReflTransGen (Edge c) i b ∧
      ReflTransGen (Edge c) b j := by
  have hstep : ∀ k l, Node c τ k → Edge c k l → k < l ∨
      ∃ b y, c.items[b]? = some y ∧ y.kind = .savepoint ∧ (b = k ∨ b = l) := by
    intro k l hk he
    obtain ⟨⟨y, hy, -⟩, hlink⟩ := h.link_of_edge hk he
    cases hlink with
    | await hawait x hx hop => exact .inl (h.issued_of_awaits hawait hx hop hy).1
    | ahead hahead =>
      obtain ⟨y', -, hy', -, -, hkind, -⟩ := hahead
      exact .inr ⟨l, y', hy', hkind, .inr rfl⟩
    | prior hprior x hx hkind => exact .inr ⟨k, x, hx, hkind, .inl rfl⟩
  have hnodes : ∀ k, TransGen (Edge c) i k → Node c τ k := fun k hk =>
    hk.invariant (P := Node c τ) (fun _ _ hp he => (h.link_of_edge hp he).1) hi
  induction hpath with
  | @single j he =>
    rcases hstep i j hi he with hlt | ⟨b, y, hy, hkind, rfl | rfl⟩
    · exact .inl hlt
    · exact .inr ⟨b, y, hy, hkind, .refl, .single he⟩
    · exact .inr ⟨b, y, hy, hkind, .single he, .refl⟩
  | @tail k j hik he ih =>
    rcases ih with hlt | ⟨b, y, hy, hkind, hib, hbk⟩
    · rcases hstep k j (hnodes k hik) he with hlt' | ⟨b, y, hy, hkind, rfl | rfl⟩
      · exact .inl (Nat.lt_trans hlt hlt')
      · exact .inr ⟨b, y, hy, hkind, hik.to_reflTransGen, .single he⟩
      · exact .inr ⟨b, y, hy, hkind, (hik.tail he).to_reflTransGen, .refl⟩
    · exact .inr ⟨b, y, hy, hkind, hib, hbk.tail he⟩

theorem Inv.overtaken_of_deadlocked (h : Inv c) (hd : Deadlocked c) : Overtaken c := by
  by_contra hnot
  obtain ⟨i, hcycle⟩ := hd
  have hedges : TransGen (Edge c) i i :=
    hcycle.level (level c) (fun _ _ => h.level_le) (Nat.le_refl _)
  obtain ⟨τ, hi⟩ : ∃ τ, Node c τ i := by
    cases hedges with
    | single he => exact h.node_of_edge he
    | tail _ he => exact h.node_of_edge he
  -- The cycle goes through a savepoint, and from there only through what is before it.
  rcases h.later_or_savepoint hi hedges with hlt | ⟨b, y, hy, hkind, hib, hbi⟩
  · exact Nat.lt_irrefl i hlt
  · have hbb : TransGen (Edge c) b b := (hedges.trans_right hbi).trans_left hib
    have hb : Node c τ b := by
      rcases Relation.reflTransGen_iff_eq_or_transGen.mp hib with rfl | hib
      · exact hi
      · exact hib.invariant (P := Node c τ) (fun _ _ hp he => (h.link_of_edge hp he).1) hi
    have hkeep : ∀ k l, Node c τ k ∧ Before c τ b k → Edge c k l → Node c τ l ∧ Before c τ b l := by
      rintro k l ⟨hk, hbefore⟩ he
      obtain ⟨hl, hlink⟩ := h.link_of_edge hk he
      refine ⟨hl, h.before_of_link hnot hk (hbefore.imp_left ?_) hl hlink⟩
      rintro ⟨x, hx, hkindx, hlt⟩
      exact ⟨x, hx, hkindx, Nat.le_of_lt hlt⟩
    have hback : Before c τ b b := by
      obtain ⟨k, he, hkb⟩ := Relation.TransGen.head'_iff.mp hbb
      obtain ⟨hk, hlink⟩ := h.link_of_edge hb he
      have hfirst := h.before_of_link hnot hb (.inl ⟨y, hy, hkind, Nat.le_refl b⟩) hk hlink
      rcases Relation.reflTransGen_iff_eq_or_transGen.mp hkb with heq | hkb
      · exact heq ▸ hfirst
      · exact (hkb.invariant hkeep ⟨hk, hfirst⟩).2
    rcases hback with ⟨-, -, -, hlt⟩ | ⟨y', hy', hop, -⟩
    · exact Nat.lt_irrefl b hlt
    · cases hy.symm.trans hy'
      rw [hop] at hkind
      cases hkind

theorem Inv.deadlocked_iff (h : Inv c) : Deadlocked c ↔ Overtaken c :=
  ⟨h.overtaken_of_deadlocked, h.deadlocked_of_overtaken⟩

/-! ## Steps -/

/-- The items after a step: those before it, at a later time, and a new one. -/
theorem at_step (hs : c.step e = some c') (hx : c'.items[i]? = some x) :
    (∃ y, c.items[i]? = some y ∧ y.Grows x ∧ ∀ j ∈ x.awaits, j ∈ y.awaits ∨ e = .await i j) ∨
    i = c.items.length ∧ x.awaits = [] := by
  rcases step_cases hs with ⟨z, hz, rfl⟩ | ⟨k, v, w, hv, hadv, hset, hawaits, -⟩ |
    ⟨k, v, -, -, -, rfl⟩
  · rcases at_append hx with hx | ⟨rfl, rfl⟩
    · exact .inl ⟨x, hx, .refl x, fun _ => .inl⟩
    · refine .inr ⟨rfl, ?_⟩
      cases hz with
      | operation => rfl
      | savepoint => rfl
  · obtain ⟨y, hy, hgrows, hcase⟩ := at_set hv hadv hset hx
    refine .inl ⟨y, hy, hgrows, fun j hj => ?_⟩
    rcases hcase with rfl | ⟨rfl, -⟩
    · exact .inl hj
    · cases hv.symm.trans hy
      rw [hset, List.getElem?_set_self (lt_length hv)] at hx
      cases hx
      exact hawaits j hj
  · exact .inl ⟨x, hx, .refl x, fun _ => .inl⟩

theorem Item.Grows.not_done (h : x.Grows y) (hy : y.phase ≠ .done) : x.phase ≠ .done :=
  fun hx => hy (h.done hx)

/-- A step other than an `await` makes nobody await. -/
theorem Inv.awaits_of_step (h : Inv c) (hs : c.step e = some c') (ha : Awaits c' i j) :
    Awaits c i j ∨ e = .await i j := by
  obtain ⟨x', y', hx', hphase, hj, hy', hdone⟩ := ha
  rcases at_step hs hx' with ⟨x, hx, hgrows, hawaits⟩ | ⟨-, hnone⟩
  · rcases hawaits j hj with hmem | rfl
    · left
      obtain ⟨-, y, hy, -⟩ := h.awaits i x j hx hmem
      refine ⟨x, y, hx, hgrows.not_done hphase, hmem, hy, ?_⟩
      rcases at_step hs hy' with ⟨z, hz, hgrowsy, -⟩ | ⟨rfl, -⟩
      · cases hy.symm.trans hz
        exact hgrowsy.not_done hdone
      · exact absurd (lt_length hy) (Nat.lt_irrefl _)
    · exact .inr rfl
  · rw [hnone] at hj
    cases hj

theorem ahead_of_step (hs : c.step e = some c') (hi : i < c.items.length) (ha : Ahead c' b i) :
    Ahead c b i := by
  obtain ⟨y', x', hy', hx', hlt, hkind, hphase, htoken⟩ := ha
  rcases at_step hs hy' with ⟨y, hy, hgrowsy, -⟩ | ⟨rfl, -⟩
  · rcases at_step hs hx' with ⟨x, hx, hgrowsx, -⟩ | ⟨rfl, -⟩
    · refine ⟨y, x, hy, hx, hlt, hgrowsy.kind.symm.trans hkind, hgrowsy.waiting hphase, ?_⟩
      rw [← hgrowsy.token, htoken, hgrowsx.token]
    · exact absurd hi (Nat.lt_irrefl _)
  · exact absurd hlt (Nat.not_lt_of_gt hi)

theorem waitsForPrior_of_step (hs : c.step e = some c') (hb : b < c.items.length)
    (hw : c'.waitsForPrior b o = true) : c.waitsForPrior b o = true := by
  obtain ⟨hlt, y', x', hy', hx', hkind, hphase, hparent, hnot⟩ := waitsForPrior_iff.mp hw
  rcases at_step hs hy' with ⟨y, hy, hgrowsy, -⟩ | ⟨rfl, -⟩
  · rcases at_step hs hx' with ⟨x, hx, hgrowsx, -⟩ | ⟨rfl, -⟩
    · rw [hgrowsx.token, hgrowsy.token] at hparent
      rw [hgrowsy.operations] at hnot
      exact waitsForPrior_iff.mpr ⟨hlt, y, x, hy, hx, hgrowsx.kind.symm.trans hkind,
        hgrowsx.not_done hphase, hparent, hnot⟩
    · exact absurd hlt (Nat.not_lt_of_gt hb)
  · exact absurd hb (Nat.lt_irrefl _)

theorem Inv.overtaken_step (h : Inv c) (hs : c.step e = some c') (hmeets : Meets c e)
    (ho : Overtaken c') : Overtaken c := by
  obtain ⟨o, b, i, hawaits, hahead, hprior⟩ := ho
  -- What is awaited was there before the step.
  have hold : ∀ k l, Awaits c' k l → l < c.items.length := by
    rintro k l ⟨x', y', hx', hphase, hj, hy', hdone⟩
    obtain ⟨-, z, hz, hissuer⟩ := (h.step hs).awaits k x' l hx' hj
    rcases at_step hs hx' with ⟨x, hx, -, hmem⟩ | ⟨-, hnone⟩
    · rcases hmem l hj with hmem | rfl
      · obtain ⟨-, y, hy, -⟩ := h.awaits k x l hx hmem
        exact lt_length hy
      · obtain ⟨y, hy, -⟩ := Option.map_eq_some_iff.mp hs
        obtain ⟨-, hguard⟩ := Option.filter_eq_some_iff.mp hy
        obtain ⟨v, hv, -⟩ := (Option.any_eq_true _ _).mp (Bool.and_eq_true_iff.mp hguard).2
        exact lt_length hv
    · rw [hnone] at hj
      cases hj
  have hi : i < c.items.length := by
    cases hawaits with
    | single ha => exact hold _ _ ha
    | tail _ ha => exact hold _ _ ha
  have hahead₀ := ahead_of_step hs hi hahead
  have hb : b < c.items.length := by
    obtain ⟨y, -, hy, -⟩ := hahead₀
    exact lt_length hy
  have hprior₀ := waitsForPrior_of_step hs hb hprior
  have hstep := fun k l ha => h.awaits_of_step hs (i := k) (j := l) ha
  cases e with
  | await k l =>
    rcases hawaits.of_insert (x := k) (y := l) fun a d ha => (hstep a d ha).imp_right fun heq => by
      cases heq
      exact ⟨rfl, rfl⟩ with hpath | ⟨hok, hli⟩
    · exact ⟨o, b, i, hpath, hahead₀, hprior₀⟩
    · exact absurd ⟨o, b, i, hok, hli, hahead₀, hprior₀⟩ hmeets
  | _ =>
    exact ⟨o, b, i, hawaits.lift id fun a d ha => (hstep a d ha).resolve_right nofun, hahead₀,
      hprior₀⟩

/-- An `await` changes nothing else. -/
theorem await_inv (hs : c.step (.await i j) = some c') :
    ∃ x y, c.items[i]? = some x ∧ x.phase = .running ∧ c.items[j]? = some y ∧
      c'.items = c.items.set i { x with awaits := j :: x.awaits } := by
  obtain ⟨x, hx, rfl⟩ := Option.map_eq_some_iff.mp hs
  obtain ⟨hx, hguard⟩ := Option.filter_eq_some_iff.mp hx
  obtain ⟨hphase, hj⟩ := Bool.and_eq_true_iff.mp hguard
  obtain ⟨y, hy, -⟩ := (Option.any_eq_true _ _).mp hj
  exact ⟨x, y, hx, of_decide_eq_true hphase, hy, rfl⟩

theorem Inv.overtaken_of_await (h : Inv c) (hs : c.step (.await i j) = some c')
    (hnot : ¬ Meets c (.await i j)) : Overtaken c' := by
  obtain ⟨o, b, k, hoi, hjk, hahead, hprior⟩ := not_not.mp hnot
  obtain ⟨x, y, hx, hphase, hy, hset⟩ := await_inv hs
  have hkeep : ∀ (l : Nat) (z : Item), c.items[l]? = some z → ∃ z', c'.items[l]? = some z' ∧
      z'.kind = z.kind ∧ z'.token = z.token ∧ z'.phase = z.phase ∧
        z'.operations = z.operations ∧ z.awaits ⊆ z'.awaits := by
    intro l z hz
    rw [hset, List.getElem?_set]
    split
    · next heq =>
      obtain rfl := heq
      cases hx.symm.trans hz
      refine ⟨_, if_pos (lt_length hx), rfl, rfl, rfl, rfl, ?_⟩
      exact List.subset_cons_self _ _
    · exact ⟨z, hz, rfl, rfl, rfl, rfl, List.Subset.refl _⟩
  have hawaits : ∀ k l, Awaits c k l → Awaits c' k l := by
    rintro k l ⟨v, w, hv, hphasev, hl, hw, hphasew⟩
    obtain ⟨v', hv', -, -, hv₁, -, hv₂⟩ := hkeep k v hv
    obtain ⟨w', hw', -, -, hw₁, -⟩ := hkeep l w hw
    exact ⟨v', w', hv', hv₁ ▸ hphasev, hv₂ hl, hw', hw₁ ▸ hphasew⟩
  have hunended : y.phase ≠ .done := by
    rcases Relation.reflTransGen_iff_eq_or_transGen.mp hjk with rfl | hjk
    · obtain ⟨y', hy', hwaiting⟩ := h.waiting_of_ahead hahead
      cases hy.symm.trans hy'
      rw [hwaiting]
      exact nofun
    · obtain ⟨l, ⟨y', -, hy', hphasey, -⟩, -⟩ := Relation.TransGen.head'_iff.mp hjk
      cases hy.symm.trans hy'
      exact hphasey
  have hnew : Awaits c' i j := by
    obtain ⟨y', hy', -, -, hy₁, -⟩ := hkeep j y hy
    refine ⟨{ x with awaits := j :: x.awaits }, y', ?_, ?_, List.mem_cons_self .., hy',
      hy₁ ▸ hunended⟩
    · rw [hset, List.getElem?_set_self (lt_length hx)]
    · simp [hphase]
  refine ⟨o, b, k, ?_, ?_, ?_⟩
  · have hout : ReflTransGen (Awaits c') o i := hoi.lift id hawaits
    have hin : ReflTransGen (Awaits c') j k := hjk.lift id hawaits
    exact (TransGen.tail' hout hnew).trans_left hin
  · obtain ⟨v, w, hv, hw, hlt, hkind, hwaiting, htoken⟩ := hahead
    obtain ⟨v', hv', hv₁, hv₂, hv₃, -⟩ := hkeep b v hv
    obtain ⟨w', hw', -, hw₂, -⟩ := hkeep k w hw
    exact ⟨v', w', hv', hw', hlt, hv₁.trans hkind, hv₃.trans hwaiting,
      hv₂.trans (htoken.trans hw₂.symm)⟩
  · obtain ⟨hlt, v, w, hv, hw, hkind, hphasew, hparent, hnotin⟩ := waitsForPrior_iff.mp hprior
    obtain ⟨v', hv', -, hv₂, -, hv₄, -⟩ := hkeep b v hv
    obtain ⟨w', hw', hw₁, hw₂, hw₃, -⟩ := hkeep o w hw
    exact waitsForPrior_iff.mpr ⟨hlt, v', w', hv', hw', hw₁.trans hkind, hw₃ ▸ hphasew,
      by rw [hw₂, hv₂]; exact hparent, hv₄ ▸ hnotin⟩

/-! ## Runs -/

theorem not_overtaken_init : ¬ Overtaken .init := by
  rintro ⟨o, b, i, -, ⟨y, -, hy, -⟩, -⟩
  cases hy

/-- In every run whose code awaits only what it has issued: no state has a cycle of waits if and
only if no step comes to await, in an operation, something that is behind a savepoint which waits for
the operation. -/
theorem deadlockFree_iff (es : List Event) (c : Gate) (hrun : Gate.Run .init es c) :
    (∀ es₁ es₂ c₁, es = es₁ ++ es₂ → Gate.Run .init es₁ c₁ → ¬ Deadlocked c₁) ↔
      ∀ es₁ e es₂ c₁, es = es₁ ++ e :: es₂ → Gate.Run .init es₁ c₁ → Meets c₁ e := by
  constructor
  · intro hfree es₁ e es₂ c₁ hes hrun₁
    cases e with
    | await i j =>
      by_contra hnot
      have hes : es = (es₁ ++ [.await i j]) ++ es₂ := by
        rw [hes, List.append_assoc]
        rfl
      rw [hes] at hrun
      obtain ⟨c₂, hrun₂, -⟩ := Steps.append_inv hrun
      obtain ⟨c₁', hrun₁', hstep⟩ := Steps.snoc_inv hrun₂
      obtain rfl : c₁ = c₁' :=
        Steps.det (fun h h' => Option.some.inj (h.symm.trans h')) hrun₁ hrun₁'
      have hovertaken := (Inv.run hrun₁).overtaken_of_await hstep hnot
      exact hfree _ es₂ c₂ hes hrun₂ ((Inv.run hrun₂).deadlocked_of_overtaken hovertaken)
    | _ => trivial
  · intro hmeets es₁ es₂ c₁ hes hrun₁
    rw [(Inv.run hrun₁).deadlocked_iff]
    clear hrun
    induction hrun₁ generalizing es₂ with
    | nil => exact not_overtaken_init
    | @snoc es₁ c₀ e c₁ hrun₀ hstep ih =>
      intro hovertaken
      have hes' : es = es₁ ++ e :: es₂ := by
        rw [hes, List.append_assoc]
        rfl
      exact ih (e :: es₂) hes' ((Inv.run hrun₀).overtaken_step hstep
        (hmeets es₁ e es₂ c₀ hes' hrun₀) hovertaken)

/-- A savepoint is issued while an operation runs, and then the operation issues and awaits another
one. -/
def reentrant : List Event := [.run none [], .savepoint none [], .run (some 0) [], .await 0 2]

theorem reentrant_deadlocked : ∃ c, Gate.Run .init reentrant c ∧ Deadlocked c := by
  obtain ⟨c, hexec, htest⟩ := (Option.any_eq_true _ _).mp (by decide :
    (Gate.init.exec reentrant).any fun c =>
      (c.any 0 fun x => x.phase ≠ .done && 2 ∈ x.awaits) && c.waitsForPrior 1 0 &&
        (c.any 1 fun y => y.kind = .savepoint && y.phase = .waiting) &&
        (c.any 2 fun z => z.phase = .waiting && 1 ∈ z.pending) && !c.isDone 1)
  simp only [Bool.and_eq_true, Bool.not_eq_true', Gate.any, Option.any_eq_true,
    decide_eq_true_eq] at htest
  obtain ⟨⟨⟨⟨⟨x, hx, hphasex, hmem⟩, hprior⟩, y, hy, hkind, hphasey⟩, z, hz, hphasez, hpending⟩,
    hdone⟩ := htest
  have hunended : z.phase ≠ .done := by simp [hphasez]
  have h₀ : WaitsFor c 0 2 := .await x z hx hphasex hmem hz hunended
  have h₂ : WaitsFor c 2 1 := .pending z hz hphasez hpending hdone
  have h₁ : WaitsFor c 1 0 := .prior y hy hkind hphasey hprior
  exact ⟨c, .of_exec hexec, 0, ((TransGen.single h₀).tail h₂).tail h₁⟩

/-- The operation waits for the inner one, that one for the savepoint, and the savepoint for the
operation. -/
theorem reentrant_deadlocks : ¬ ∀ (es : List Event) (c : Gate), Gate.Run .init es c →
    ¬ Deadlocked c := by
  intro h
  obtain ⟨c, hrun, hdeadlocked⟩ := reentrant_deadlocked
  exact h reentrant c hrun hdeadlocked

/-- So a step of this run does not meet the condition. -/
theorem deadlockFree_iff_reentrant : ∃ c, Gate.Run .init reentrant c ∧
    ¬ ∀ es₁ e es₂ c₁, reentrant = es₁ ++ e :: es₂ → Gate.Run .init es₁ c₁ → Meets c₁ e := by
  obtain ⟨c, hrun, hdeadlocked⟩ := reentrant_deadlocked
  refine ⟨c, hrun, fun hmeets => ?_⟩
  exact (deadlockFree_iff reentrant c hrun).mpr hmeets reentrant [] c
    (List.append_nil _).symm hrun hdeadlocked

end ActiveTs.Transactions.SavepointGate
