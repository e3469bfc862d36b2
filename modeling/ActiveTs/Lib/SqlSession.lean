import Mathlib.Data.List.Basic

/-! # Sessions of a transactional server

A session runs at most one transaction, which holds its work and a stack of savepoints. A statement
that fails leaves the transaction failed: then only a rollback of the whole transaction or to one of
the savepoints is accepted, and a commit rolls back. -/

namespace ActiveTs.SqlSession

/-- A savepoint: its name and the work when it was set. -/
abbrev Savepoints (E : Type) := List (Nat × List E)

inductive Phase (E : Type)
  | idle
  | active (work : List E) (savepoints : Savepoints E)
  | failed (savepoints : Savepoints E)

structure Server (E : Type) where
  connected : Bool
  /-- The effects that are durable, the oldest first. -/
  committed : List E
  phase : Phase E

inductive Command (E : Type)
  | beginTransaction
  /-- A statement that leaves the data as it is. -/
  | query
  | effect (e : E)
  | savepoint (name : Nat)
  | release (name : Nat)
  | rollbackTo (name : Nat)
  | rollback

/-- What becomes of a command that the server would accept. -/
inductive Reply
  | success
  | error
  /-- The connection ends. -/
  | lost

variable {E : Type}

/-- The newest savepoint of a name, with the ones that are older. -/
def unwind (name : Nat) : Savepoints E → Option (List E × Savepoints E)
  | [] => none
  | (n, work) :: outer => if n = name then some (work, outer) else unwind name outer

namespace Server

/-- A session as it is when no transaction is open. -/
def pooled (connected : Bool) (committed : List E) : Server E := ⟨connected, committed, .idle⟩

def fail (s : Server E) : Server E :=
  match s.phase with
  | .idle => s
  | .active _ savepoints => { s with phase := .failed savepoints }
  | .failed _ => s

/-- The server rolls an open transaction back when its connection is gone. -/
def disconnect (s : Server E) : Server E := { s with connected := false, phase := .idle }

/-- The effect of a command that is accepted, and nothing for one that is refused. -/
def perform (s : Server E) : Command E → Option (Server E)
  | .beginTransaction =>
    match s.phase with
    | .idle => some { s with phase := .active [] [] }
    | .active _ _ => some s
    | .failed _ => none
  | .query =>
    match s.phase with
    | .failed _ => none
    | _ => some s
  | .effect e =>
    match s.phase with
    -- Outside a transaction every statement commits by itself.
    | .idle => some { s with committed := s.committed ++ [e] }
    | .active work savepoints => some { s with phase := .active (work ++ [e]) savepoints }
    | .failed _ => none
  | .savepoint name =>
    match s.phase with
    | .active work savepoints => some { s with phase := .active work ((name, work) :: savepoints) }
    | _ => none
  | .release name =>
    match s.phase with
    | .active work savepoints =>
      (unwind name savepoints).map fun (_, outer) => { s with phase := .active work outer }
    | _ => none
  | .rollbackTo name =>
    match s.phase with
    | .idle => none
    | .active _ savepoints | .failed savepoints =>
      (unwind name savepoints).map fun (work, outer) =>
        { s with phase := .active work ((name, work) :: outer) }
  | .rollback => some { s with phase := .idle }

/-- One command, and whether it succeeds. -/
def execute (s : Server E) (command : Command E) (reply : Reply) : Server E × Bool :=
  if s.connected then
    match reply with
    | .success =>
      match s.perform command with
      | some s' => (s', true)
      | none => (s.fail, false)
    | .error => (s.fail, false)
    | .lost => (s.disconnect, false)
  else (s, false)

/-- A commit, and the command that the server answers with. -/
def commit (s : Server E) : Server E × String :=
  match s.phase with
  | .idle => (s, "COMMIT")
  | .active work _ => ({ s with committed := s.committed ++ work, phase := .idle }, "COMMIT")
  | .failed _ => ({ s with phase := .idle }, "ROLLBACK")

/-! ## What a session keeps -/

/-- A session in which nothing has failed: the work since the transaction began and its
savepoints. -/
def Clean (work : List E) (outer : Savepoints E) (s : Server E) : Prop :=
  s.connected = true ∧ s.phase = .active work outer

/-- A session that has the savepoints `outer`, with others of names above `k` over them, or that is
disconnected. -/
def Keeps (k : Nat) (outer : Savepoints E) (s : Server E) : Prop :=
  s.connected = false ∨
    ∃ inner, (∀ p ∈ inner, k < p.1) ∧
      ((∃ work, s.phase = .active work (inner ++ outer)) ∨ s.phase = .failed (inner ++ outer))

theorem Clean.keeps {s : Server E} (h : s.Clean work outer) : s.Keeps k outer :=
  .inr ⟨[], by simp, .inl ⟨work, h.2⟩⟩

theorem Keeps.weaken {s : Server E} {inner outer : Savepoints E} (h : s.Keeps n ((n, work) :: (inner ++ outer)))
    (hn : k < n) (hinner : ∀ p ∈ inner, k < p.1) : s.Keeps k outer := by
  obtain h | ⟨newer, hnewer, h⟩ := h
  · exact .inl h
  · refine .inr ⟨newer ++ (n, work) :: inner, ?_, by simpa using h⟩
    intro p hp
    simp only [List.mem_append, List.mem_cons] at hp
    obtain hp | rfl | hp := hp
    · exact Nat.lt_trans hn (hnewer p hp)
    · exact hn
    · exact hinner p hp

theorem Keeps.fail {s : Server E} (h : s.Keeps k outer) : s.fail.Keeps k outer := by
  obtain h | ⟨inner, hinner, ⟨work, h⟩ | h⟩ := h
  · left
    unfold Server.fail
    split <;> exact h
  · exact .inr ⟨inner, hinner, .inr (by simp [Server.fail, h])⟩
  · exact .inr ⟨inner, hinner, .inr (by simp [Server.fail, h])⟩

@[simp] theorem fail_committed (s : Server E) : s.fail.committed = s.committed := by
  unfold Server.fail
  split <;> rfl

theorem disconnect_keeps (s : Server E) : s.disconnect.Keeps k outer := .inl rfl

@[simp] theorem disconnect_committed (s : Server E) : s.disconnect.committed = s.committed := rfl

/-- A command that does not succeed leaves the session as it was, failed or disconnected. -/
theorem execute_refused {s : Server E} (h : (s.execute command reply).2 = false) :
    (s.execute command reply).1 = s ∧ s.connected = false ∨
      (s.execute command reply).1 = s.fail ∨ (s.execute command reply).1 = s.disconnect := by
  unfold execute at h ⊢
  split
  · next hs =>
    rw [if_pos hs] at h
    cases reply with
    | success =>
      cases hp : s.perform command with
      | none => simp
      | some s' => simp [hp] at h
    | error => simp
    | lost => simp
  · next hs => exact .inl ⟨rfl, by simpa using hs⟩

theorem execute_accepted {s : Server E} (h : (s.execute command reply).2 = true) :
    s.connected = true ∧ s.perform command = some (s.execute command reply).1 := by
  unfold execute at h ⊢
  split
  · next hs =>
    rw [if_pos hs] at h
    refine ⟨hs, ?_⟩
    cases reply with
    | success =>
      cases hp : s.perform command with
      | none => simp [hp] at h
      | some s' => rfl
    | error => simp at h
    | lost => simp at h
  · next hs => simp [hs] at h

theorem Keeps.refused {s : Server E} (h : s.Keeps k outer)
    (hr : (s.execute command reply).2 = false) : (s.execute command reply).1.Keeps k outer := by
  obtain ⟨he, _⟩ | he | he := execute_refused hr <;> rw [he]
  · exact h
  · exact h.fail
  · exact s.disconnect_keeps

theorem refused_committed {s : Server E} (hr : (s.execute command reply).2 = false) :
    (s.execute command reply).1.committed = s.committed := by
  obtain ⟨he, _⟩ | he | he := execute_refused hr <;> simp [he]

/-- The open transaction of a session that accepts a statement. -/
theorem Keeps.connected {s : Server E} (h : s.Keeps k outer) (hs : s.connected = true) :
    ∃ inner, (∀ p ∈ inner, k < p.1) ∧
      ((∃ work, s.phase = .active work (inner ++ outer)) ∨ s.phase = .failed (inner ++ outer)) := by
  obtain h | h := h
  · rw [hs] at h
    cases h
  · exact h

theorem unwind_append {inner outer : Savepoints E} (hinner : ∀ p ∈ inner, k < p.1) :
    unwind k (inner ++ (k, work) :: outer) = some (work, (outer : Savepoints E)) := by
  induction inner with
  | nil => simp [unwind]
  | cons p inner ih =>
    have hp : p.1 ≠ k := Nat.ne_of_gt (hinner p List.mem_cons_self)
    obtain ⟨n, saved⟩ := p
    simp only [List.cons_append, unwind, if_neg hp]
    exact ih fun q hq => hinner q (List.mem_cons_of_mem _ hq)

/-! ## The commands of a transaction -/

theorem Keeps.effect {s : Server E} (h : s.Keeps k outer) (e : E) (reply : Reply) :
    (s.execute (.effect e) reply).1.Keeps k outer ∧
      (s.execute (.effect e) reply).1.committed = s.committed := by
  cases hr : (s.execute (.effect e) reply).2 with
  | false => exact ⟨h.refused hr, refused_committed hr⟩
  | true =>
    obtain ⟨hs, hp⟩ := execute_accepted hr
    obtain ⟨inner, hinner, ⟨work, hw⟩ | hw⟩ := h.connected hs
    · simp only [perform, hw, Option.some.injEq] at hp
      rw [← hp]
      exact ⟨.inr ⟨inner, hinner, .inl ⟨work ++ [e], rfl⟩⟩, rfl⟩
    · simp [perform, hw] at hp

theorem Clean.query {s : Server E} (h : s.Clean work outer)
    (hr : (s.execute .query reply).2 = true) : (s.execute .query reply).1 = s := by
  have hp := (execute_accepted hr).2
  simp only [perform, h.2, Option.some.injEq] at hp
  exact hp.symm

theorem Clean.effect {s : Server E} (h : s.Clean work outer)
    (hr : (s.execute (.effect e) reply).2 = true) :
    (s.execute (.effect e) reply).1.Clean (work ++ [e]) outer := by
  obtain ⟨hs, hp⟩ := execute_accepted hr
  simp only [perform, h.2, Option.some.injEq] at hp
  rw [← hp]
  exact ⟨hs, rfl⟩

/-- A savepoint that is set is the newest one of a session in which nothing has failed. -/
theorem Keeps.savepoint {s : Server E} (h : s.Keeps k outer)
    (hr : (s.execute (.savepoint name) reply).2 = true) :
    ∃ inner work, (∀ p ∈ inner, k < p.1) ∧ s.phase = .active work (inner ++ outer) ∧
      (s.execute (.savepoint name) reply).1.Clean work ((name, work) :: (inner ++ outer)) ∧
      (s.execute (.savepoint name) reply).1.committed = s.committed := by
  obtain ⟨hs, hp⟩ := execute_accepted hr
  obtain ⟨inner, hinner, ⟨work, hw⟩ | hw⟩ := h.connected hs
  · simp only [perform, hw, Option.some.injEq] at hp
    rw [← hp]
    exact ⟨inner, work, hinner, hw, ⟨hs, rfl⟩, rfl⟩
  · simp [perform, hw] at hp

theorem Keeps.rollbackTo {s : Server E} (h : s.Keeps name ((name, work) :: outer))
    (hr : (s.execute (.rollbackTo name) reply).2 = true) :
    (s.execute (.rollbackTo name) reply).1.Clean work ((name, work) :: outer) ∧
      (s.execute (.rollbackTo name) reply).1.committed = s.committed := by
  obtain ⟨hs, hp⟩ := execute_accepted hr
  obtain ⟨inner, hinner, ⟨current, hw⟩ | hw⟩ := h.connected hs <;>
  · simp only [perform, hw, unwind_append hinner, Option.map_some, Option.some.injEq] at hp
    rw [← hp]
    exact ⟨⟨hs, rfl⟩, rfl⟩

theorem Clean.release {s : Server E} (h : s.Clean work ((name, saved) :: outer))
    (hr : (s.execute (.release name) reply).2 = true) :
    (s.execute (.release name) reply).1.Clean work outer ∧
      (s.execute (.release name) reply).1.committed = s.committed := by
  obtain ⟨hs, hp⟩ := execute_accepted hr
  simp only [perform, h.2, unwind, if_pos, Option.map_some, Option.some.injEq] at hp
  rw [← hp]
  exact ⟨⟨hs, rfl⟩, rfl⟩

theorem rollback_accepted {s : Server E} (hr : (s.execute .rollback reply).2 = true) :
    (s.execute .rollback reply).1 = { s with phase := .idle } := by
  have hp := (execute_accepted hr).2
  simp only [perform, Option.some.injEq] at hp
  exact hp.symm

/-- No command but a statement outside a transaction makes anything durable. -/
theorem rollback_committed (s : Server E) (reply : Reply) :
    (s.execute .rollback reply).1.committed = s.committed := by
  cases hr : (s.execute .rollback reply).2 with
  | false => exact refused_committed hr
  | true => rw [rollback_accepted hr]

theorem pooled_begin (connected : Bool) (committed : List E)
    (hr : ((pooled connected committed).execute .beginTransaction reply).2 = true) :
    ((pooled connected committed).execute .beginTransaction reply).1.Clean [] [] ∧
      ((pooled connected committed).execute .beginTransaction reply).1.committed = committed := by
  obtain ⟨hs, hp⟩ := execute_accepted hr
  have he : (pooled connected committed).perform .beginTransaction =
      some ⟨connected, committed, .active [] []⟩ := rfl
  rw [he, Option.some.injEq] at hp
  rw [← hp]
  exact ⟨⟨hs, rfl⟩, rfl⟩

end Server

end ActiveTs.SqlSession
