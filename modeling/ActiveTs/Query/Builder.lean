import ActiveTs.Query.Plans
import Mathlib.Data.List.Forall2

/-! # From builder calls to the plan of the store

Every `where()` and `scope()` constraint, and the soft-delete constraint, must be in every
alternative of the plan that the store gets, in whatever order the builder was called and whatever
entries and branches the hooks added. -/

namespace ActiveTs.Query

variable {Row V : Type} [DecidableEq V] (ops : Operands Row V)

/-! ## The builder -/

/-- A call on a `QueryBuilder`; a shape is given by the entries that it stands for. -/
inductive Call (V : Type)
  | where (shape : List (WhereEntry V))
  /-- What the scope resolver returned, or the error of the lookup. -/
  | scope (resolved : Except QueryError (Option (List (WhereEntry V))))
  | orWhere (shape : List (WhereEntry V))
  | whereAny (branches : List (List (WhereEntry V)))

structure Builder (V : Type) where
  wheres : List (WhereEntry V)
  or : List (Plan V)
  constraints : List (WhereEntry V)

/-- The checks of `normalizeWhere` on the entries of a shape. -/
def normalizeWhere (shape : List (WhereEntry V)) : Except QueryError (List (WhereEntry V)) :=
  sanitizeWhereEntries ops shape

namespace Builder

def init : Builder V := ⟨[], [], []⟩

/-- One branch of `orWhere` or `whereAny`. -/
def pushBranch (b : Builder V) (shape : List (WhereEntry V)) :
    Except QueryError (Builder V) := do
  let entries ← normalizeWhere ops shape
  if entries.isEmpty then .error .emptyBranch
  else .ok { b with or := b.or ++ [.node entries []] }

/-- The loop of `whereAny`: branches before a rejected one stay. -/
def pushBranches (b : Builder V) : List (List (WhereEntry V)) → Builder V × Option QueryError
  | [] => (b, none)
  | shape :: rest =>
    match b.pushBranch ops shape with
    | .ok b => b.pushBranches rest
    | .error e => (b, some e)

def pushWhere (b : Builder V) (shape : List (WhereEntry V)) : Builder V × Option QueryError :=
  match normalizeWhere ops shape with
  | .ok entries => ({ b with wheres := b.wheres ++ entries }, none)
  | .error e => (b, some e)

def pushScope (b : Builder V) (shape : List (WhereEntry V)) : Builder V × Option QueryError :=
  match normalizeWhere ops shape with
  | .ok entries => ({ b with constraints := b.constraints ++ entries }, none)
  | .error e => (b, some e)

/-- The builder after a call, and the error that the call throws. -/
def call (b : Builder V) : Call V → Builder V × Option QueryError
  | .where shape => b.pushWhere ops shape
  | .scope (.ok (some shape)) => b.pushScope ops shape
  | .scope (.ok none) => (b, none)
  | .scope (.error e) => (b, some e)
  | .orWhere shape =>
    if b.wheres.isEmpty then b.pushBranches ops [shape] else (b, some .orAfterWhere)
  | .whereAny branches =>
    if branches.isEmpty then (b, some .emptyBranch) else b.pushBranches ops branches

/-- The builder after a sequence of calls, errors caught. -/
def run (calls : List (Call V)) : Builder V := calls.foldl (fun b c => (b.call ops c).1) init

def compileBaseConstraints (b : Builder V) : List (WhereEntry V) := b.constraints ++ b.wheres

def compilePlan (b : Builder V) : Plan V :=
  let baseWhere := b.compileBaseConstraints
  .node (if b.or.isEmpty then baseWhere else []) (b.or.map (constrainOrBranch baseWhere))

end Builder

def reapplyBaseConstraints (baseWhere : List (WhereEntry V)) : Plan V → Plan V
  | .node wheres or =>
    if or.isEmpty then .node wheres or
    else if baseWhere.isEmpty then .node wheres or
    else .node [] (or.map (constrainOrBranch baseWhere))

/-! ## Hooks -/

inductive HookName
  | beforeQuery
  | beforeAggregate

/-- The hooks of a model: those of its plugins and its own, and the soft-delete guards. -/
structure Hooks (V : Type) where
  plugins : HookName → List (Plan V → Except QueryError (Plan V))
  model : HookName → List (Plan V → Except QueryError (Plan V))
  guards : List SoftDelete

namespace Hooks

def listed (hooks : Hooks V) (name : HookName) : List (Plan V → Except QueryError (Plan V)) :=
  hooks.plugins name ++ hooks.model name

/-- `runHooks`: the guards come last. -/
def run (hooks : Hooks V) (name : HookName) (plan : Plan V) : Except QueryError (Plan V) := do
  let plan ← (hooks.listed name).foldlM (fun plan hook => hook plan) plan
  .ok (hooks.guards.foldl (fun plan guard => constrainPlan ops guard plan) plan)

end Hooks

/-! ## The plan of the store -/

section
-- `normalizeWhereFieldTypes` and `encodeWhereFieldCodecs` for one entry.
variable (encode : WhereEntry V → Except QueryError (WhereEntry V))

def encodeWhereEntries : List (WhereEntry V) → Except QueryError (List (WhereEntry V))
  | [] => .ok []
  | entry :: entries => do
    let entry ← encode entry
    let entries ← encodeWhereEntries entries
    .ok (entry :: entries)

mutual

def encodeQueryPlan : Plan V → Except QueryError (Plan V)
  | .node wheres or => do
    let wheres ← encodeWhereEntries encode wheres
    let or ← encodeQueryPlanBranches or
    .ok (.node wheres or)

def encodeQueryPlanBranches : List (Plan V) → Except QueryError (List (Plan V))
  | [] => .ok []
  | branch :: or => do
    let branch ← encodeQueryPlan branch
    let or ← encodeQueryPlanBranches or
    .ok (branch :: or)

end

/-- The plan that `loadPlan` (with `beforeQuery`) and `runAggregate` (with `beforeAggregate`) hand
to the store. -/
def storePlan (hooks : Hooks V) (name : HookName) (b : Builder V) :
    Except QueryError (Plan V) := do
  let initialPlan := b.compilePlan
  let baseWhere := if initialPlan.or.isEmpty then [] else b.compileBaseConstraints
  let before ← hooks.run ops name initialPlan
  let sanitizedPlan ← sanitizeQueryPlan ops before
  encodeQueryPlan encode (reapplyBaseConstraints baseWhere sanitizedPlan)

/-- The row passes the entry in the form that the store gets. -/
def passes (row : Row) (entry : WhereEntry V) : Bool :=
  match encode entry with
  | .ok encoded => compareWhere ops row encoded
  | .error _ => false

end

/-! ## What the calls ask for -/

namespace Call

/-- A shape without invalid entries. -/
def accepted (shape : List (WhereEntry V)) : List (WhereEntry V) :=
  if shape.all (·.valid ops) then shape else []

/-- The constraints of a `where()` or `scope()` that returns. -/
def constraints : Call V → List (WhereEntry V)
  | .where shape => accepted ops shape
  | .scope (.ok (some shape)) => accepted ops shape
  | _ => []

/-- A shape that can be a branch. -/
def isBranch (shape : List (WhereEntry V)) : Bool :=
  shape.all (·.valid ops) && !shape.isEmpty

/-- The branches of an `orWhere()` or `whereAny()`, up to a rejected one. -/
def branches (afterWhere : Bool) : Call V → List (List (WhereEntry V))
  | .orWhere shape => if afterWhere then [] else [shape].takeWhile (isBranch ops)
  | .whereAny shapes => shapes.takeWhile (isBranch ops)
  | _ => []

def isWhere : Call V → Bool
  | .where shape => !(accepted ops shape).isEmpty
  | _ => false

end Call

/-- The OR branches that a sequence of calls gives. -/
def givenBranches (afterWhere : Bool) : List (Call V) → List (List (WhereEntry V))
  | [] => []
  | c :: calls => c.branches ops afterWhere ++ givenBranches (afterWhere || c.isWhere ops) calls

/-- A hook result that has more entries and more non-empty branches, at any depth. -/
inductive Adds : Plan V → Plan V → Prop
  | node {wheres extraWheres : List (WhereEntry V)} {or or' extraOr : List (Plan V)} :
    List.Forall₂ Adds or or' → (∀ branch ∈ extraOr, branch.wheres ≠ [] ∨ branch.or ≠ []) →
      Adds (.node wheres or) (.node (wheres ++ extraWheres) (or' ++ extraOr))

/-! ## The builder keeps what it was given -/

section
variable {ops}

/-- The branch of a shape. -/
def leaf (shape : List (WhereEntry V)) : Plan V := .node shape []

variable (ops) in
theorem pushBranch_eq (b : Builder V) (shape : List (WhereEntry V)) :
    Call.isBranch ops shape = true ∧
        b.pushBranch ops shape = .ok { b with or := b.or ++ [leaf shape] } ∨
      ¬ Call.isBranch ops shape = true ∧ ∃ e, b.pushBranch ops shape = .error e := by
  unfold Call.isBranch
  by_cases hvalid : shape.all (·.valid ops) = true
  · have hnormal : normalizeWhere ops shape = .ok shape :=
      sanitizeWhereEntries_eq_ok.mpr ⟨List.all_eq_true.mp hvalid, rfl⟩
    by_cases hempty : shape.isEmpty = true
    · right
      refine ⟨by simp [hempty], .emptyBranch, ?_⟩
      rw [Builder.pushBranch, hnormal]
      exact if_pos hempty
    · left
      refine ⟨by simp [hvalid, hempty], ?_⟩
      rw [Builder.pushBranch, hnormal]
      exact if_neg hempty
  · right
    refine ⟨by simp [hvalid], .invalidEntry, ?_⟩
    rw [Builder.pushBranch, normalizeWhere, sanitizeWhereEntries, if_neg hvalid]
    rfl

theorem pushBranches_eq (b : Builder V) (shapes : List (List (WhereEntry V))) :
    (b.pushBranches ops shapes).1 =
      { b with or := b.or ++ (shapes.takeWhile (Call.isBranch ops)).map leaf } := by
  induction shapes generalizing b with
  | nil => simp [Builder.pushBranches]
  | cons shape shapes ih =>
    rw [Builder.pushBranches]
    rcases pushBranch_eq ops b shape with ⟨h, hpush⟩ | ⟨h, e, hpush⟩
    · rw [hpush, List.takeWhile_cons_of_pos h]
      simp [ih]
    · rw [hpush, List.takeWhile_cons_of_neg h]
      simp

/-- The entries of an accepted shape are recorded, and of a rejected one nothing. -/
theorem pushWhere_eq (b : Builder V) (shape : List (WhereEntry V)) :
    (b.pushWhere ops shape).1 = { b with wheres := b.wheres ++ Call.accepted ops shape } := by
  unfold Builder.pushWhere normalizeWhere sanitizeWhereEntries Call.accepted
  by_cases h : shape.all (·.valid ops) = true
  · rw [if_pos h, if_pos h]
  · rw [if_neg h, if_neg h, List.append_nil]

theorem pushScope_eq (b : Builder V) (shape : List (WhereEntry V)) :
    (b.pushScope ops shape).1 =
      { b with constraints := b.constraints ++ Call.accepted ops shape } := by
  unfold Builder.pushScope normalizeWhere sanitizeWhereEntries Call.accepted
  by_cases h : shape.all (·.valid ops) = true
  · rw [if_pos h, if_pos h]
  · rw [if_neg h, if_neg h, List.append_nil]

/-- What one call records. -/
structure Recorded (b b' : Builder V) (constraints : List (WhereEntry V))
    (branches : List (List (WhereEntry V))) : Prop where
  base : ∀ entry, entry ∈ b'.compileBaseConstraints ↔
    entry ∈ b.compileBaseConstraints ∨ entry ∈ constraints
  or : b'.or = b.or ++ branches.map leaf

variable (ops) in
theorem recorded_call (b : Builder V) (c : Call V) :
    Recorded b (b.call ops c).1 (c.constraints ops) (c.branches ops (!b.wheres.isEmpty)) ∧
      (!(b.call ops c).1.wheres.isEmpty) = (!b.wheres.isEmpty || c.isWhere ops) := by
  have hskip : ∀ afterWhere, afterWhere = (afterWhere || false) := fun afterWhere =>
    (Bool.or_false afterWhere).symm
  cases c with
  | «where» shape =>
    rw [Builder.call, pushWhere_eq]
    refine ⟨⟨fun entry => ?_, ?_⟩, ?_⟩
    · simp [Builder.compileBaseConstraints, Call.constraints, or_assoc]
    · simp [Call.branches]
    · cases b.wheres <;> simp [Call.isWhere]
  | scope resolved =>
    cases resolved with
    | error e => exact ⟨⟨fun entry => by simp [Builder.call, Call.constraints],
        by simp [Builder.call, Call.branches]⟩, hskip _⟩
    | ok resolved =>
      cases resolved with
      | none => exact ⟨⟨fun entry => by simp [Builder.call, Call.constraints],
          by simp [Builder.call, Call.branches]⟩, hskip _⟩
      | some shape =>
        rw [Builder.call, pushScope_eq]
        refine ⟨⟨fun entry => ?_, ?_⟩, hskip _⟩
        · simp only [Builder.compileBaseConstraints, Call.constraints, List.mem_append]
          tauto
        · simp [Call.branches]
  | orWhere shape =>
    rw [Builder.call]
    split <;> rename_i hempty
    · rw [pushBranches_eq]
      refine ⟨⟨fun entry => ?_, ?_⟩, hskip _⟩
      · simp [Builder.compileBaseConstraints, Call.constraints]
      · simp [Call.branches, hempty]
    · refine ⟨⟨fun entry => ?_, ?_⟩, hskip _⟩
      · simp [Call.constraints]
      · simp [Call.branches, hempty]
  | whereAny shapes =>
    rw [Builder.call]
    split <;> rename_i hempty
    · refine ⟨⟨fun entry => ?_, ?_⟩, hskip _⟩
      · simp [Call.constraints]
      · simp [Call.branches, List.isEmpty_iff.mp hempty]
    · rw [pushBranches_eq]
      refine ⟨⟨fun entry => ?_, ?_⟩, hskip _⟩
      · simp [Builder.compileBaseConstraints, Call.constraints]
      · simp [Call.branches]

variable (ops) in
/-- What a sequence of calls records. -/
theorem recorded_run (calls : List (Call V)) (b : Builder V) :
    Recorded b (calls.foldl (fun b c => (b.call ops c).1) b)
      (calls.flatMap (Call.constraints ops)) (givenBranches ops (!b.wheres.isEmpty) calls) := by
  induction calls generalizing b with
  | nil => exact ⟨fun entry => by simp, by simp [givenBranches]⟩
  | cons c calls ih =>
    obtain ⟨hcall, hwhere⟩ := recorded_call ops b c
    have hrest := ih (b.call ops c).1
    refine ⟨fun entry => ?_, ?_⟩
    · rw [List.foldl_cons, hrest.base, hcall.base, List.flatMap_cons, List.mem_append, or_assoc]
    · rw [List.foldl_cons, hrest.or, hcall.or, givenBranches, hwhere, List.map_append,
        List.append_assoc]

end

/-! ## The passes keep the meaning -/

section
variable {ops} {encode : WhereEntry V → Except QueryError (WhereEntry V)}

variable (ops) in
theorem encodeWhereEntries_ok (row : Row) {entries entries' : List (WhereEntry V)}
    (h : encodeWhereEntries encode entries = .ok entries') :
    (entries' = [] ↔ entries = []) ∧
      ((∀ entry ∈ entries', compareWhere ops row entry = true) ↔
        ∀ entry ∈ entries, passes ops encode row entry = true) := by
  induction entries generalizing entries' with
  | nil =>
    cases h
    simp
  | cons entry entries ih =>
    rw [encodeWhereEntries] at h
    obtain ⟨encoded, hencode, hrest⟩ := Except.bind_eq_ok.mp h
    obtain ⟨entries'', hentries, hresult⟩ := Except.bind_eq_ok.mp hrest
    cases hresult
    obtain ⟨-, hiff⟩ := ih hentries
    refine ⟨by simp, ?_⟩
    rw [List.forall_mem_cons, List.forall_mem_cons, hiff, passes, hencode]

theorem encodeQueryPlanBranches_ok (row : Row) {or or' : List (Plan V)}
    (ih : ∀ branch ∈ or, ∀ branch', encodeQueryPlan encode branch = .ok branch' →
      (matchesPlan (compareWhere ops row) branch' = true ↔
        matchesPlan (passes ops encode row) branch = true))
    (h : encodeQueryPlanBranches encode or = .ok or') :
    (or' = [] ↔ or = []) ∧
      ((∃ branch ∈ or', matchesPlan (compareWhere ops row) branch = true) ↔
        ∃ branch ∈ or, matchesPlan (passes ops encode row) branch = true) := by
  induction or generalizing or' with
  | nil =>
    cases h
    simp
  | cons branch or ihor =>
    rw [encodeQueryPlanBranches] at h
    obtain ⟨branch', hbranch, hrest⟩ := Except.bind_eq_ok.mp h
    obtain ⟨or'', hor, hresult⟩ := Except.bind_eq_ok.mp hrest
    cases hresult
    obtain ⟨-, hiff⟩ := ihor (fun b hb => ih b (List.mem_cons_of_mem _ hb)) hor
    refine ⟨by simp, ?_⟩
    rw [List.exists_mem_cons_iff, List.exists_mem_cons_iff, hiff,
      ih branch List.mem_cons_self branch' hbranch]

/-- The encoded plan matches the rows that pass the entries of the plan. -/
theorem matchesPlan_encodeQueryPlan (row : Row) {plan plan' : Plan V}
    (h : encodeQueryPlan encode plan = .ok plan') :
    matchesPlan (compareWhere ops row) plan' = true ↔
      matchesPlan (passes ops encode row) plan = true := by
  induction plan generalizing plan' with
  | node wheres or ih =>
    rw [encodeQueryPlan] at h
    obtain ⟨wheres', hwheres, hrest⟩ := Except.bind_eq_ok.mp h
    obtain ⟨or', hor, hresult⟩ := Except.bind_eq_ok.mp hrest
    cases hresult
    obtain ⟨hnil, hentries⟩ := encodeWhereEntries_ok ops row hwheres
    obtain ⟨hor, hbranches⟩ := encodeQueryPlanBranches_ok row (fun b hb b' => ih b hb) hor
    rw [matchesPlan_iff, matchesPlan_iff, hbranches, hentries, hor, ne_eq, hnil]

/-- Constraining the branches again adds the constraints when there are branches. -/
theorem matchesPlan_reapplyBaseConstraints (test : WhereEntry V → Bool)
    (baseWhere : List (WhereEntry V)) (plan : Plan V) :
    matchesPlan test (reapplyBaseConstraints baseWhere (normalizeMixedOrPlan plan)) = true ↔
      plan.Meets test ∧ (plan.or = [] ∨ ∀ entry ∈ baseWhere, test entry = true) := by
  obtain ⟨wheres, or⟩ := plan
  obtain ⟨hleaf, hmixed⟩ := normalizeMixedOrPlan_or wheres or
  by_cases hor : or = []
  · subst hor
    rw [hleaf rfl, reapplyBaseConstraints, if_pos List.isEmpty_nil, matchesPlan_iff]
    simp [Plan.Meets]
  · have hmatch := matchesPlan_normalizeMixedOrPlan test wheres or
    obtain ⟨hne, hnil⟩ := hmixed hor
    obtain ⟨wheres', or', hplan⟩ : ∃ wheres' or', normalizeMixedOrPlan (.node wheres or) =
        .node wheres' or' := by
      cases normalizeMixedOrPlan (.node wheres or) with
      | node wheres' or' => exact ⟨wheres', or', rfl⟩
    rw [hplan] at hmatch hne hnil ⊢
    obtain rfl : wheres' = [] := hnil
    have hne : or' ≠ [] := hne
    rw [reapplyBaseConstraints, if_neg (by simpa using hne)]
    split <;> rename_i hbase
    · rw [hmatch, List.isEmpty_iff.mp hbase]
      simp [Plan.Meets]
    · rw [matchesPlan_iff] at hmatch
      rw [matchesPlan_iff, exists_mem_map_matchesPlan test fun branch _ =>
        matchesPlan_constrainOrBranch test baseWhere branch]
      simp only [ne_eq, not_true_eq_false, hne, or_self, false_and, false_or] at hmatch
      simp only [ne_eq, not_true_eq_false, List.map_eq_nil_iff, hne, or_self, false_and, false_or,
        hmatch, Plan.Meets, Plan.wheres_node, Plan.or_node, hor]
      exact and_comm

theorem foldl_constrainPlan (guards : List SoftDelete) {plan : Plan V}
    (hvalid : (guards.foldl (fun plan guard => constrainPlan ops guard plan) plan).Valid ops)
    (test : WhereEntry V → Bool) :
    plan.Valid ops ∧
      ((guards.foldl (fun plan guard => constrainPlan ops guard plan) plan).Meets test ↔
        (∀ guard ∈ guards, test (guard.entry ops) = true) ∧ plan.Meets test) ∧
      ((guards.foldl (fun plan guard => constrainPlan ops guard plan) plan).or = [] ↔
        plan.or = []) := by
  induction guards generalizing plan with
  | nil => exact ⟨hvalid, by simp, Iff.rfl⟩
  | cons guard guards ih =>
    rw [List.foldl_cons] at hvalid ⊢
    obtain ⟨hguard, hmeets, hor⟩ := ih hvalid
    refine ⟨constrainPlan_valid hguard, ?_, ?_⟩
    · rw [hmeets, meets_constrainPlan hguard, List.forall_mem_cons]
      tauto
    · rw [hor]
      cases plan with
      | node wheres or =>
        rw [constrainPlan_node]
        exact List.map_eq_nil_iff

/-- The store plan means the plan after the hooks, with the guards and the base constraints. -/
theorem storePlan_ok {hooks : Hooks V} {name : HookName} {b : Builder V} {plan : Plan V}
    (h : storePlan ops encode hooks name b = .ok plan) :
    ∃ hooked, (hooks.listed name).foldlM (fun plan hook => hook plan) b.compilePlan = .ok hooked ∧
      ∀ row, matchesPlan (compareWhere ops row) plan = true ↔
        (∀ guard ∈ hooks.guards, passes ops encode row (guard.entry ops) = true) ∧
          hooked.Meets (passes ops encode row) ∧
          (hooked.or = [] ∨ b.compilePlan.or = [] ∨
            ∀ entry ∈ b.compileBaseConstraints, passes ops encode row entry = true) := by
  unfold storePlan at h
  obtain ⟨before, hbefore, hrest⟩ := Except.bind_eq_ok.mp h
  obtain ⟨sanitized, hsanitize, hencode⟩ := Except.bind_eq_ok.mp hrest
  obtain ⟨hooked, hhooked, hguards⟩ := Except.bind_eq_ok.mp hbefore
  obtain ⟨rfl, hvalid⟩ := sanitizeQueryPlan_ok hsanitize
  cases hguards
  refine ⟨hooked, hhooked, fun row => ?_⟩
  obtain ⟨-, hmeets, hor⟩ := foldl_constrainPlan hooks.guards hvalid (passes ops encode row)
  rw [matchesPlan_encodeQueryPlan row hencode, matchesPlan_reapplyBaseConstraints, hmeets, hor,
    and_assoc]
  refine and_congr_right fun _ => and_congr_right fun _ => or_congr_right ?_
  by_cases hinitial : b.compilePlan.or = []
  · simp [hinitial]
  · simp [hinitial]

/-- The plan before the hooks: the base constraints, and one of the branches if there are some. -/
theorem meets_compilePlan (b : Builder V) (test : WhereEntry V → Bool) :
    b.compilePlan.Meets test ↔
      (b.or = [] ∨ ∃ branch ∈ b.or, matchesPlan test branch = true) ∧
        ∀ entry ∈ b.compileBaseConstraints, test entry = true := by
  unfold Builder.compilePlan Plan.Meets
  rw [Plan.wheres_node, Plan.or_node, List.map_eq_nil_iff,
    exists_mem_map_matchesPlan test fun branch _ =>
      matchesPlan_constrainOrBranch test b.compileBaseConstraints branch]
  by_cases hor : b.or = []
  · simp [hor]
  · simp [hor, and_comm]

theorem compilePlan_or (b : Builder V) : b.compilePlan.or = [] ↔ b.or = [] :=
  List.map_eq_nil_iff

/-- Entries are kept, and branches do not vanish. -/
def Extends (plan plan' : Plan V) : Prop :=
  (∀ entry ∈ plan.wheres, entry ∈ plan'.wheres) ∧ (plan.or ≠ [] → plan'.or ≠ [])

omit [DecidableEq V] in
theorem Adds.extends {plan plan' : Plan V} (h : Adds plan plan') : Extends plan plan' := by
  cases h with
  | node hor hextra =>
    refine ⟨fun entry hentry => List.mem_append_left _ hentry, fun hne hnil => hne ?_⟩
    cases hor with
    | nil => rfl
    | cons _ _ => cases hnil

omit [DecidableEq V] in
theorem foldlM_extends {hooks : List (Plan V → Except QueryError (Plan V))} {plan plan' : Plan V}
    (hadds : ∀ hook ∈ hooks, ∀ p p', hook p = .ok p' → Adds p p')
    (h : hooks.foldlM (fun plan hook => hook plan) plan = .ok plan') : Extends plan plan' := by
  induction hooks generalizing plan with
  | nil =>
    cases h
    exact ⟨fun _ hentry => hentry, id⟩
  | cons hook hooks ih =>
    rw [List.foldlM_cons] at h
    obtain ⟨next, hnext, hrest⟩ := Except.bind_eq_ok.mp h
    obtain ⟨hwheres, hor⟩ := (hadds hook List.mem_cons_self plan next hnext).extends
    obtain ⟨hwheres', hor'⟩ := ih (fun k hk => hadds k (List.mem_cons_of_mem _ hk)) hrest
    exact ⟨fun entry hentry => hwheres' entry (hwheres entry hentry), fun hne => hor' (hor hne)⟩

omit [DecidableEq V] in
theorem foldlM_id {hooks : List (Plan V → Except QueryError (Plan V))} {plan plan' : Plan V}
    (hid : ∀ hook ∈ hooks, ∀ p, hook p = .ok p)
    (h : hooks.foldlM (fun plan hook => hook plan) plan = .ok plan') : plan' = plan := by
  induction hooks generalizing plan with
  | nil =>
    cases h
    rfl
  | cons hook hooks ih =>
    rw [List.foldlM_cons] at h
    obtain ⟨next, hnext, hrest⟩ := Except.bind_eq_ok.mp h
    rw [hid hook List.mem_cons_self plan] at hnext
    cases hnext
    exact ih (fun k hk => hid k (List.mem_cons_of_mem _ hk)) hrest

end

/-! ## The constraints of a query -/

/-- The soft-delete constraints and the constraints of the calls. -/
def queryConstraints (hooks : Hooks V) (calls : List (Call V)) : List (WhereEntry V) :=
  hooks.guards.map (·.entry ops) ++ calls.flatMap (Call.constraints ops)

variable {ops} in
theorem forall_queryConstraints {hooks : Hooks V} {calls : List (Call V)}
    (test : WhereEntry V → Bool) :
    (∀ entry ∈ queryConstraints ops hooks calls, test entry = true) ↔
      (∀ guard ∈ hooks.guards, test (guard.entry ops) = true) ∧
        ∀ entry ∈ (Builder.run ops calls).compileBaseConstraints, test entry = true := by
  have hbase := (recorded_run ops calls Builder.init).base
  unfold queryConstraints
  rw [List.forall_mem_append, List.forall_mem_map]
  refine and_congr_right fun _ => forall_congr' fun entry => imp_congr_left ?_
  rw [Builder.run, hbase]
  simp [Builder.init, Builder.compileBaseConstraints]

/-- Every row of the plan that the store gets passes every constraint, whatever additive hooks did;
and without a change by hooks the rows are exactly those that pass every constraint and one of the
branches, if there are branches. -/
theorem storePlan_constrained (encode : WhereEntry V → Except QueryError (WhereEntry V))
    (hooks : Hooks V) (name : HookName) (calls : List (Call V)) (plan : Plan V)
    (h : storePlan ops encode hooks name (Builder.run ops calls) = .ok plan) :
    ((∀ hook ∈ hooks.listed name, ∀ p p', hook p = .ok p' → Adds p p') →
      ∀ row, matchesPlan (compareWhere ops row) plan = true →
        ∀ entry ∈ queryConstraints ops hooks calls, passes ops encode row entry = true) ∧
    ((∀ hook ∈ hooks.listed name, ∀ p, hook p = .ok p) →
      ∀ row, matchesPlan (compareWhere ops row) plan = true ↔
        (∀ entry ∈ queryConstraints ops hooks calls, passes ops encode row entry = true) ∧
          (givenBranches ops false calls = [] ∨ ∃ branch ∈ givenBranches ops false calls,
            ∀ entry ∈ branch, passes ops encode row entry = true)) := by
  obtain ⟨hooked, hhooked, hmatch⟩ := storePlan_ok h
  have hor : (Builder.run ops calls).or = (givenBranches ops false calls).map leaf :=
    (recorded_run ops calls Builder.init).or
  constructor
  · intro hadds row hrow
    obtain ⟨hguards, hmeets, hbase⟩ := (hmatch row).mp hrow
    obtain ⟨hwheres, hbranches⟩ := foldlM_extends hadds hhooked
    refine (forall_queryConstraints _).mpr ⟨hguards, ?_⟩
    by_cases hnil : (Builder.run ops calls).or = []
    · intro entry hentry
      refine hmeets.1 entry (hwheres entry ?_)
      rw [Builder.compilePlan, Plan.wheres_node, if_pos (List.isEmpty_iff.mpr hnil)]
      exact hentry
    · have hinitial := (compilePlan_or (Builder.run ops calls)).not.mpr hnil
      rcases hbase with hbase | hbase | hbase
      · exact absurd hbase (hbranches hinitial)
      · exact absurd hbase hinitial
      · exact hbase
  · intro hid row
    obtain rfl := foldlM_id hid hhooked
    have hleaves : (∃ branch ∈ (Builder.run ops calls).or,
        matchesPlan (passes ops encode row) branch = true) ↔
          ∃ branch ∈ givenBranches ops false calls,
            ∀ entry ∈ branch, passes ops encode row entry = true := by
      rw [hor]
      constructor
      · rintro ⟨_, hmem, hbranch⟩
        obtain ⟨branch, hbranch', rfl⟩ := List.mem_map.mp hmem
        exact ⟨branch, hbranch', by simpa [leaf, matchesPlan_iff] using hbranch⟩
      · rintro ⟨branch, hbranch, hall⟩
        exact ⟨leaf branch, List.mem_map_of_mem hbranch, by simpa [leaf, matchesPlan_iff] using hall⟩
    have hnil : (Builder.run ops calls).or = [] ↔ givenBranches ops false calls = [] := by
      rw [hor]
      exact List.map_eq_nil_iff
    rw [hmatch row, meets_compilePlan, forall_queryConstraints, hleaves, hnil]
    tauto

theorem Adds.refl {V : Type} (plan : Plan V) : Adds plan plan := by
  induction plan with
  | node wheres or ih =>
    have hor : List.Forall₂ Adds or or := List.forall₂_same.mpr ih
    have h := @Adds.node V wheres [] or or [] hor fun _ hmem => absurd hmem List.not_mem_nil
    rwa [List.append_nil, List.append_nil] at h

/-- A hook that adds an entry at the top and a branch. -/
def appendHook {V : Type} (entry : WhereEntry V) :
    Plan V → Except QueryError (Plan V)
  | .node wheres or => .ok (.node (wheres ++ [entry]) (or ++ [.node [entry] []]))

theorem adds_appendHook {V : Type} (entry : WhereEntry V) {plan plan' : Plan V}
    (h : appendHook entry plan = .ok plan') : Adds plan plan' := by
  obtain ⟨wheres, or⟩ := plan
  cases h
  refine .node (List.forall₂_same.mpr fun branch _ => .refl branch) fun branch hmem => ?_
  cases List.mem_singleton.mp hmem
  exact .inl (List.cons_ne_nil _ _)

/-- Rows of numbers: `none` is `undefined` and `some none` is `null`. -/
def numberOperands : Operands (List (String × Option Nat)) (Option (Option Nat)) where
  undefined := none
  null := some none
  valueFor row field := row.lookup field
  strictEqual a b := a = b
  compareRangeValues
    | some (some a), some (some b) => some (compare a b)
    | _, _ => none
  arrayIncludesValue _ _ := false
  textContainsValue _ _ := false
  jsonContains _ _ := false
  startsWith _ _ := false
  portableScalar value := value.isSome
  inOperand _ := false
  rangeOperand value := value.any Option.isSome
  sameKind _ _ := true
  isString _ := false
  jsonOperand _ := false

def numberEntry (field : String) (n : Nat) : WhereEntry (Option (Option Nat)) :=
  ⟨field, .eq, some (some n), none⟩

def numberHooks : Hooks (Option (Option Nat)) where
  plugins _ := [appendHook (numberEntry "kind" 1)]
  model _ := []
  guards := [⟨"deletedAt", .isNull⟩]

def numberCalls : List (Call (Option (Option Nat))) :=
  [.whereAny [[numberEntry "state" 1], [numberEntry "state" 2]], .where [numberEntry "tenant" 7]]

def numberPlan : Plan (Option (Option Nat)) :=
  let guard : WhereEntry (Option (Option Nat)) := ⟨"deletedAt", .isNull, none, none⟩
  .node [] [
    .node [numberEntry "kind" 1, numberEntry "tenant" 7, numberEntry "state" 1, guard] [],
    .node [numberEntry "kind" 1, numberEntry "tenant" 7, numberEntry "state" 2, guard] [],
    .node [numberEntry "tenant" 7, numberEntry "kind" 1, guard] []]

/-- The branch that the hook appended has the constraints of the builder too. -/
theorem storePlan_constrained_appended :
    (queryConstraints numberOperands numberHooks numberCalls).all (passes numberOperands .ok
      [("tenant", some 7), ("kind", some 1), ("state", some 3)]) = true := by
  refine List.all_eq_true.mpr ((storePlan_constrained numberOperands .ok numberHooks .beforeQuery
    numberCalls numberPlan rfl).1 ?_ _ (by decide))
  intro hook hmem p p' hp
  cases List.mem_singleton.mp hmem
  exact adds_appendHook _ hp

end ActiveTs.Query
