import ActiveTs.Lib.Interference
import ActiveTs.Outbox.StoreAdapter

/-! # Triples of store calls

What a store call, a transaction and an answered conflict ensure in an environment that moves
between their steps. -/

namespace ActiveTs.Outbox

open Prog

variable {T D : Type} {env : World T D → World T D → Prop} {α : Type} {P : World T D → Prop}
  {Q : α → World T D → Prop} {E : OutboxError → World T D → Prop}

/-- A call ends with its result, or it fails, with or without its effect. -/
theorem ensures_call (hP : Survives env P) (hadvance : ∀ s n, P s → P (s.advance n))
    {f : World T D → World T D × Except OutboxError α}
    (hok : ∀ s a, P s → (f s).2 = .ok a → Q a (f s).1)
    (herror : ∀ s e, P s → (f s).2 = .error e → E e (f s).1)
    (hstore : ∀ s, P s → E .store s ∧ E .store (f s).1) :
    Ensures env P (storeCall f) Q E := by
  refine .atomically hP fun c s h => ?_
  have hs : P (s.advance c.tick) := hadvance s _ h
  have hfailed : (∀ a, (.error .store : Except OutboxError α) = .ok a → Q a (s.advance c.tick)) ∧
      ∀ e, (.error .store : Except OutboxError α) = .error e → E e (s.advance c.tick) :=
    ⟨fun _ h => (by cases h), fun e h => (by cases h; exact (hstore _ hs).1)⟩
  cases c.outcome with
  | ok => exact ⟨fun a ha => hok _ a hs ha, fun e he => herror _ e hs he⟩
  | uncertain => exact ⟨fun _ h => (by cases h), fun e h => (by cases h; exact (hstore _ hs).2)⟩
  | failed => exact hfailed
  | late => exact hfailed

/-- A transaction takes the effect of its body, or none. -/
theorem ensures_inTransaction (hP : Survives env P) (hadvance : ∀ s n, P s → P (s.advance n))
    {body : OutboxTask T D α} {E' : OutboxError → World T D → Prop}
    (hbody : Ensures Eq P body Q E') (hnone : ∀ s e, P s → E e s)
    (hdoubt : ∀ a s, Q a s → E .store s) : Ensures env P (transaction body) Q E := by
  refine .atomically hP fun c s h => ?_
  have hs : P (s.advance c.tick) := hadvance s _ h
  have hfailed : ∀ e', (∀ a, (.error e' : Except OutboxError α) = .ok a → Q a (s.advance c.tick)) ∧
      ∀ e, (.error e' : Except OutboxError α) = .error e → E e (s.advance c.tick) :=
    fun e' => ⟨fun _ h => (by cases h), fun e h => hnone _ e hs⟩
  cases hrun : body.runAlone { c with outcome := .ok, tick := 0 } (s.advance c.tick) with
  | none => exact hfailed .store
  | some result =>
    obtain ⟨s', r⟩ := result
    have hresult := hbody _ _ _ hs (.of_runAlone hrun)
    cases r with
    | error e => exact hfailed e
    | ok a =>
      have hQ := hresult.1 a rfl
      cases c.outcome with
      | ok =>
        refine ⟨fun b hb => ?_, fun _ h => (by cases h)⟩
        obtain rfl := Except.ok.inj hb
        exact hQ
      | uncertain =>
        refine ⟨fun _ h => (by cases h), fun e h => ?_⟩
        obtain rfl := Except.error.inj h
        exact hdoubt a _ hQ
      | failed => exact hfailed _
      | late => exact hfailed _

/-- A conflict is answered where the task may end in one. -/
theorem ensures_orConflict {answer : α} {p : OutboxTask T D α} (hp : Ensures env P p Q E)
    (hanswer : ∀ e s, E e s → e.isConflict = true → Q answer s) :
    Ensures env P (orConflict answer p) Q E := by
  refine .bind hp.attempt fun r => ?_
  cases r with
  | ok a => exact .pure fun s h => h.1 a rfl
  | error e =>
    refine .ite (fun hconflict => .pure fun s h => hanswer e s (h.2 e rfl) hconflict) fun _ => ?_
    exact .throw fun s h => h.2 e rfl

end ActiveTs.Outbox
