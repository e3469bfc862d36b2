import ActiveTs.Lib.Except
import Mathlib.Data.List.Basic

/-! # Query plans

A plan is a tree: its own entries and its OR branches are alternatives of each other, so a
constraint that every row has to satisfy must stand in every alternative at every depth. The
rewrites below push constraints down; each is shown to add exactly its constraint to what the plan
matches. -/

namespace ActiveTs.Query

/-! ## Entries -/

inductive Operator
  | eq
  | ne
  | gt
  | ge
  | lt
  | le
  | in
  | between
  | isNull
  | isNotNull
  | contains
  | arrayContains
  | textContains
  | jsonContains
  | startsWith
  deriving DecidableEq

/-- An entry of `QueryPlan['where']`. Operands count as equal when `isDeepStrictEqual` says so. -/
structure WhereEntry (V : Type) where
  field : String
  op : Operator
  value : V
  value2 : Option V
  deriving DecidableEq

inductive QueryError
  | invalidEntry
  | emptyBranch
  | orAfterWhere
  | unknownScope
  | hook
  | codec

/-- Rows and operands: the comparisons of single values that `compareWhere` and
`assertValidWhereOperand` choose from. -/
structure Operands (Row V : Type) where
  undefined : V
  null : V
  valueFor : Row → String → V
  strictEqual : V → V → Bool
  /-- `none` is `NaN`. -/
  compareRangeValues : V → V → Option Ordering
  arrayIncludesValue : V → V → Bool
  textContainsValue : V → V → Bool
  jsonContains : V → V → Bool
  startsWith : V → V → Bool
  portableScalar : V → Bool
  /-- A dense array of one to thirty portable scalars. -/
  inOperand : V → Bool
  rangeOperand : V → Bool
  sameKind : V → V → Bool
  isString : V → Bool
  jsonOperand : V → Bool

section
variable {Row V : Type} [DecidableEq V] (ops : Operands Row V)

def compareWhere (row : Row) (entry : WhereEntry V) : Bool :=
  let value := ops.valueFor row entry.field
  match entry.op with
  | .eq => ops.strictEqual value entry.value
  | .ne => value ≠ ops.undefined && !ops.strictEqual value entry.value
  | .gt => ops.compareRangeValues value entry.value = some .gt
  | .ge => (ops.compareRangeValues value entry.value).any (· ≠ .lt)
  | .lt => ops.compareRangeValues value entry.value = some .lt
  | .le => (ops.compareRangeValues value entry.value).any (· ≠ .gt)
  | .in => ops.arrayIncludesValue entry.value value
  | .between => (ops.compareRangeValues value entry.value).any (· ≠ .lt) &&
      (ops.compareRangeValues value (entry.value2.getD ops.undefined)).any (· ≠ .gt)
  | .isNull => value = ops.null || value = ops.undefined
  | .isNotNull => value ≠ ops.null && value ≠ ops.undefined
  -- The source throws here; no valid entry has this operator.
  | .contains => false
  | .arrayContains => ops.arrayIncludesValue value entry.value
  | .textContains => ops.textContainsValue value entry.value
  | .jsonContains => ops.jsonContains value entry.value
  | .startsWith => ops.startsWith value entry.value

def assertValidWhereOperand (op : Operator) (value value2 : V) : Bool :=
  match op with
  | .contains => false
  | .in => ops.inOperand value
  | .eq | .ne | .arrayContains => ops.portableScalar value
  | .between => value ≠ ops.undefined && value2 ≠ ops.undefined && ops.rangeOperand value &&
      ops.rangeOperand value2 && ops.sameKind value value2
  | .gt | .ge | .lt | .le => value ≠ ops.undefined && ops.rangeOperand value
  | .isNull | .isNotNull => value = ops.undefined
  | .textContains | .startsWith => ops.isString value
  | .jsonContains => ops.jsonOperand value

/-- The checks of `sanitizeWhereEntries` on one entry. -/
def WhereEntry.valid (entry : WhereEntry V) : Bool :=
  assertValidWhereOperand ops entry.op entry.value (entry.value2.getD ops.undefined) &&
    (entry.op = .between || entry.value2.isNone)

def sanitizeWhereEntries (entries : List (WhereEntry V)) :
    Except QueryError (List (WhereEntry V)) :=
  if entries.all (·.valid ops) then .ok entries else .error .invalidEntry

end

/-! ## Plans -/

/-- `Pick<QueryPlan, 'where' | 'or'>`: branches carry nothing else (`sanitizeQueryBranch`). -/
inductive Plan (V : Type)
  | node (wheres : List (WhereEntry V)) (or : List (Plan V))

namespace Plan
variable {V : Type}

def wheres : Plan V → List (WhereEntry V)
  | node wheres _ => wheres

def or : Plan V → List (Plan V)
  | node _ or => or

@[simp] theorem wheres_node (wheres : List (WhereEntry V)) (or : List (Plan V)) :
    (node wheres or).wheres = wheres := rfl

@[simp] theorem or_node (wheres : List (WhereEntry V)) (or : List (Plan V)) :
    (node wheres or).or = or := rfl

/-- Induction with the hypothesis for every branch. -/
@[elab_as_elim, induction_eliminator]
theorem induction {motive : Plan V → Prop}
    (node : ∀ wheres or, (∀ branch ∈ or, motive branch) → motive (node wheres or)) :
    ∀ plan, motive plan := by
  intro plan
  refine @Plan.rec V motive (fun or => ∀ branch ∈ or, motive branch) node ?_ ?_ plan
  · intro branch hbranch
    cases hbranch
  · intro branch or hbranch hor branch' hmem
    rcases List.mem_cons.mp hmem with rfl | hmem
    · exact hbranch
    · exact hor branch' hmem

end Plan

section
variable {V : Type} (test : WhereEntry V → Bool)

mutual

/-- `matchesPlan` for the entries that a row passes. -/
def matchesPlan : Plan V → Bool
  | .node wheres or =>
    if or.isEmpty then wheres.all test
    else if !wheres.isEmpty && wheres.all test then true
    else matchesAnyPlan or

def matchesAnyPlan : List (Plan V) → Bool
  | [] => false
  | branch :: or => if matchesPlan branch then true else matchesAnyPlan or

end

theorem matchesAnyPlan_iff (or : List (Plan V)) :
    matchesAnyPlan test or = true ↔ ∃ branch ∈ or, matchesPlan test branch = true := by
  induction or with
  | nil => simp [matchesAnyPlan]
  | cons branch or ih =>
    rw [matchesAnyPlan]
    by_cases h : matchesPlan test branch = true
    · simp [h]
    · simp [h, ih]

/-- The alternatives of a plan: its own entries, unless only branches are there, and its branches. -/
theorem matchesPlan_iff (wheres : List (WhereEntry V)) (or : List (Plan V)) :
    matchesPlan test (.node wheres or) = true ↔
      ((wheres ≠ [] ∨ or = []) ∧ ∀ entry ∈ wheres, test entry = true) ∨
        ∃ branch ∈ or, matchesPlan test branch = true := by
  rw [matchesPlan, ← matchesAnyPlan_iff]
  by_cases hor : or = []
  · subst hor
    simp [matchesAnyPlan]
  · by_cases hwheres : wheres = []
    · subst hwheres
      simp [hor]
    · simp [hor, hwheres]

/-- A rewrite that adds a constraint to each branch adds it to the alternative of the branches. -/
theorem exists_mem_map_matchesPlan {or : List (Plan V)} {rewrite : Plan V → Plan V} {c : Prop}
    (h : ∀ branch ∈ or, (matchesPlan test (rewrite branch) = true ↔
      c ∧ matchesPlan test branch = true)) :
    (∃ branch ∈ or.map rewrite, matchesPlan test branch = true) ↔
      c ∧ ∃ branch ∈ or, matchesPlan test branch = true := by
  constructor
  · rintro ⟨_, hmem, hmatch⟩
    obtain ⟨branch, hbranch, rfl⟩ := List.mem_map.mp hmem
    obtain ⟨hc, hmatch⟩ := (h branch hbranch).mp hmatch
    exact ⟨hc, branch, hbranch, hmatch⟩
  · rintro ⟨hc, branch, hbranch, hmatch⟩
    exact ⟨_, List.mem_map_of_mem hbranch, (h branch hbranch).mpr ⟨hc, hmatch⟩⟩

end

/-! ## Adding constraints -/

section
variable {V : Type} [DecidableEq V]

/-- Constraints that the entries do not have yet go before them. -/
def mergeWhereConstraints (constraints wheres : List (WhereEntry V)) : List (WhereEntry V) :=
  let additions := constraints.foldl (fun additions constraint =>
    if constraint ∈ additions ∨ constraint ∈ wheres then additions
    else additions ++ [constraint]) []
  additions ++ wheres

mutual

def constrainOrBranch (constraints : List (WhereEntry V)) : Plan V → Plan V
  | .node wheres or =>
    let hasOwnAlternative := !wheres.isEmpty || or.isEmpty
    .node (if hasOwnAlternative then mergeWhereConstraints constraints wheres else [])
      (constrainOrBranches constraints or)

def constrainOrBranches (constraints : List (WhereEntry V)) : List (Plan V) → List (Plan V)
  | [] => []
  | branch :: or => constrainOrBranch constraints branch :: constrainOrBranches constraints or

end

def normalizeMixedOrPlan : Plan V → Plan V
  | .node wheres or =>
    if or.isEmpty || wheres.isEmpty then .node wheres or
    else .node [] (constrainOrBranches wheres or)

theorem mem_mergeWhereConstraints (constraints wheres : List (WhereEntry V))
    (entry : WhereEntry V) :
    entry ∈ mergeWhereConstraints constraints wheres ↔ entry ∈ constraints ∨ entry ∈ wheres := by
  have h : ∀ additions : List (WhereEntry V),
      entry ∈ constraints.foldl (fun additions constraint =>
        if constraint ∈ additions ∨ constraint ∈ wheres then additions
        else additions ++ [constraint]) additions ++ wheres ↔
      entry ∈ additions ∨ entry ∈ constraints ∨ entry ∈ wheres := by
    induction constraints with
    | nil => simp
    | cons constraint constraints ih =>
      intro additions
      rw [List.foldl_cons, ih]
      split <;> rename_i hin
      · constructor
        · rintro (h | h | h) <;> simp [h]
        · rintro (h | h | h)
          · exact .inl h
          · rcases List.mem_cons.mp h with rfl | h
            · exact hin.imp id .inr
            · exact .inr (.inl h)
          · exact .inr (.inr h)
      · simp only [List.mem_append, List.mem_cons]
        tauto
  exact (h []).trans (by simp)

theorem constrainOrBranches_eq_map (constraints : List (WhereEntry V)) (or : List (Plan V)) :
    constrainOrBranches constraints or = or.map (constrainOrBranch constraints) := by
  induction or with
  | nil => rfl
  | cons branch or ih => rw [constrainOrBranches, ih, List.map_cons]

variable (test : WhereEntry V → Bool)

/-- Constraining a branch adds the constraints to what it matches. -/
theorem matchesPlan_constrainOrBranch (constraints : List (WhereEntry V)) (branch : Plan V) :
    matchesPlan test (constrainOrBranch constraints branch) = true ↔
      (∀ entry ∈ constraints, test entry = true) ∧ matchesPlan test branch = true := by
  induction branch with
  | node wheres or ih =>
    rw [constrainOrBranch, constrainOrBranches_eq_map, matchesPlan_iff, matchesPlan_iff,
      exists_mem_map_matchesPlan test ih]
    by_cases hown : wheres ≠ [] ∨ or = []
    · have hif : (!wheres.isEmpty || or.isEmpty) = true := by
        rcases hown with h | h
        · simp [h]
        · simp [h]
      have hmerged : mergeWhereConstraints constraints wheres ≠ [] ∨
          or.map (constrainOrBranch constraints) = [] := by
        rcases hown with h | h
        · left
          exact List.append_ne_nil_of_right_ne_nil _ h
        · right
          rw [h, List.map_nil]
      simp only [hif, if_true, hmerged, hown, true_and, mem_mergeWhereConstraints]
      constructor
      · rintro (hall | ⟨hall, hbranch⟩)
        · exact ⟨fun entry h => hall entry (.inl h), .inl fun entry h => hall entry (.inr h)⟩
        · exact ⟨hall, .inr hbranch⟩
      · rintro ⟨hall, hwheres | hbranch⟩
        · exact .inl fun entry h => h.elim (hall entry) (hwheres entry)
        · exact .inr ⟨hall, hbranch⟩
    · obtain ⟨hwheres, hor⟩ := not_or.mp hown
      obtain rfl := not_not.mp hwheres
      simp [hor]

/-- The entries of a mixed plan become constraints on its branches. -/
theorem matchesPlan_normalizeMixedOrPlan (wheres : List (WhereEntry V)) (or : List (Plan V)) :
    matchesPlan test (normalizeMixedOrPlan (.node wheres or)) = true ↔
      (∀ entry ∈ wheres, test entry = true) ∧
        (or = [] ∨ ∃ branch ∈ or, matchesPlan test branch = true) := by
  rw [normalizeMixedOrPlan]
  by_cases hor : or = []
  · simp [hor, matchesPlan_iff]
  by_cases hwheres : wheres = []
  · simp [hor, hwheres, matchesPlan_iff]
  have hif : ¬ (or.isEmpty || wheres.isEmpty) = true := by simp [hor, hwheres]
  rw [if_neg hif, constrainOrBranches_eq_map, matchesPlan_iff]
  rw [exists_mem_map_matchesPlan test fun branch _ =>
    matchesPlan_constrainOrBranch test wheres branch]
  simp [hor]

/-- A normalized plan has entries or branches, not both. -/
theorem normalizeMixedOrPlan_or (wheres : List (WhereEntry V)) (or : List (Plan V)) :
    (or = [] → normalizeMixedOrPlan (.node wheres or) = .node wheres []) ∧
      (or ≠ [] → (normalizeMixedOrPlan (.node wheres or)).or ≠ [] ∧
        (normalizeMixedOrPlan (.node wheres or)).wheres = []) := by
  rw [normalizeMixedOrPlan]
  constructor
  · intro hor
    simp [hor]
  · intro hor
    by_cases hwheres : wheres = []
    · simp [hor, hwheres]
    · have hif : ¬ (or.isEmpty || wheres.isEmpty) = true := by simp [hor, hwheres]
      rw [if_neg hif, constrainOrBranches_eq_map]
      simp [hor]

end

/-! ## Sanitizing a hook result -/

section
variable {Row V : Type} [DecidableEq V] (ops : Operands Row V)

mutual

def sanitizeQueryBranch : Plan V → Except QueryError (Plan V)
  | .node wheres or => do
    let wheres ← sanitizeWhereEntries ops wheres
    let or ← sanitizeQueryBranches or
    if wheres.isEmpty && or.isEmpty then .error .emptyBranch else .ok (.node wheres or)

def sanitizeQueryBranches : List (Plan V) → Except QueryError (List (Plan V))
  | [] => .ok []
  | branch :: or => do
    let branch ← sanitizeQueryBranch branch
    let or ← sanitizeQueryBranches or
    .ok (branch :: or)

end

/-- `sanitizeQueryPlan`, and `sanitizeAggregatePlan` for the same parts. -/
def sanitizeQueryPlan : Plan V → Except QueryError (Plan V)
  | .node wheres or => do
    let wheres ← sanitizeWhereEntries ops wheres
    let or ← sanitizeQueryBranches ops or
    .ok (normalizeMixedOrPlan (.node wheres or))

/-- All entries of a plan are valid. -/
inductive Plan.Valid : Plan V → Prop
  | node {wheres : List (WhereEntry V)} {or : List (Plan V)} :
    (∀ entry ∈ wheres, entry.valid ops = true) → (∀ branch ∈ or, Plan.Valid branch) →
      Plan.Valid (.node wheres or)

variable {ops}

theorem sanitizeWhereEntries_eq_ok {entries entries' : List (WhereEntry V)} :
    sanitizeWhereEntries ops entries = .ok entries' ↔
      (∀ entry ∈ entries, entry.valid ops = true) ∧ entries' = entries := by
  unfold sanitizeWhereEntries
  split <;> rename_i h
  · rw [List.all_eq_true] at h
    constructor
    · intro hok
      exact ⟨h, (Except.ok.inj hok).symm⟩
    · rintro ⟨-, rfl⟩
      rfl
  · rw [List.all_eq_true] at h
    constructor
    · intro hok
      cases hok
    · rintro ⟨hall, -⟩
      exact absurd hall h

/-- Sanitizing leaves valid branches as they are. -/
theorem sanitizeQueryBranches_ok {or or' : List (Plan V)}
    (ih : ∀ branch ∈ or, ∀ branch', sanitizeQueryBranch ops branch = .ok branch' →
      branch' = branch ∧ branch.Valid ops)
    (h : sanitizeQueryBranches ops or = .ok or') :
    or' = or ∧ ∀ branch ∈ or, branch.Valid ops := by
  induction or generalizing or' with
  | nil =>
    cases h
    exact ⟨rfl, fun _ hmem => absurd hmem List.not_mem_nil⟩
  | cons branch or ihor =>
    rw [sanitizeQueryBranches] at h
    obtain ⟨branch', hbranch, hrest⟩ := Except.bind_eq_ok.mp h
    obtain ⟨or'', hor, hresult⟩ := Except.bind_eq_ok.mp hrest
    obtain ⟨rfl, hvalid⟩ := ih branch List.mem_cons_self branch' hbranch
    obtain ⟨rfl, hvalids⟩ := ihor (fun b hb => ih b (List.mem_cons_of_mem _ hb)) hor
    exact ⟨(Except.ok.inj hresult).symm, List.forall_mem_cons.mpr ⟨hvalid, hvalids⟩⟩

theorem sanitizeQueryBranch_ok {branch branch' : Plan V}
    (h : sanitizeQueryBranch ops branch = .ok branch') :
    branch' = branch ∧ branch.Valid ops := by
  induction branch generalizing branch' with
  | node wheres or ih =>
    rw [sanitizeQueryBranch] at h
    obtain ⟨wheres', hwheres, hrest⟩ := Except.bind_eq_ok.mp h
    obtain ⟨or', hor, hresult⟩ := Except.bind_eq_ok.mp hrest
    obtain ⟨hentries, rfl⟩ := sanitizeWhereEntries_eq_ok.mp hwheres
    obtain ⟨rfl, hvalid⟩ := sanitizeQueryBranches_ok (fun b hb b' => ih b hb) hor
    split at hresult
    · cases hresult
    · exact ⟨(Except.ok.inj hresult).symm, .node hentries hvalid⟩

theorem sanitizeQueryPlan_ok {plan plan' : Plan V} (h : sanitizeQueryPlan ops plan = .ok plan') :
    plan' = normalizeMixedOrPlan plan ∧ plan.Valid ops := by
  cases plan with
  | node wheres or =>
    rw [sanitizeQueryPlan] at h
    obtain ⟨wheres', hwheres, hrest⟩ := Except.bind_eq_ok.mp h
    obtain ⟨or', hor, hresult⟩ := Except.bind_eq_ok.mp hrest
    obtain ⟨hentries, rfl⟩ := sanitizeWhereEntries_eq_ok.mp hwheres
    obtain ⟨rfl, hvalid⟩ := sanitizeQueryBranches_ok (fun b _ b' => sanitizeQueryBranch_ok) hor
    exact ⟨(Except.ok.inj hresult).symm, .node hentries hvalid⟩

end

/-! ## The soft-delete guard -/

inductive SoftDeleteConstraint
  | eqNull
  | isNull
  | isNotNull
  deriving DecidableEq

/-- `createSoftDeletePlugin` for one model: its field and its constraint. -/
structure SoftDelete where
  field : String
  constraint : SoftDeleteConstraint

section
variable {Row V : Type} [DecidableEq V] (ops : Operands Row V)

def SoftDelete.entry (guard : SoftDelete) : WhereEntry V :=
  match guard.constraint with
  | .eqNull => ⟨guard.field, .eq, ops.null, none⟩
  | .isNull => ⟨guard.field, .isNull, ops.undefined, none⟩
  | .isNotNull => ⟨guard.field, .isNotNull, ops.undefined, none⟩

/-- An entry counts as the constraint by its field and operator, and by its value for `=`. -/
def SoftDelete.sameConstraint (guard : SoftDelete) (entry : WhereEntry V) : Bool :=
  entry.field = guard.field && entry.op = (guard.entry ops).op &&
    (guard.constraint ≠ .eqNull || entry.value = ops.null)

def constrainWhere (guard : SoftDelete) (wheres : List (WhereEntry V)) : List (WhereEntry V) :=
  if wheres.any (guard.sameConstraint ops) then wheres else wheres ++ [guard.entry ops]

mutual

def constrainPlan (guard : SoftDelete) : Plan V → Plan V
  | .node wheres or =>
    .node (if !wheres.isEmpty || or.isEmpty then constrainWhere ops guard wheres else wheres)
      (constrainPlans guard or)

def constrainPlans (guard : SoftDelete) : List (Plan V) → List (Plan V)
  | [] => []
  | branch :: or => constrainPlan guard branch :: constrainPlans guard or

end

variable {ops}

/-- A valid entry that counts as the constraint is the constraint. -/
theorem SoftDelete.eq_entry {guard : SoftDelete} {entry : WhereEntry V}
    (hvalid : entry.valid ops = true) (hsame : guard.sameConstraint ops entry = true) :
    entry = guard.entry ops := by
  obtain ⟨field, op, value, value2⟩ := entry
  obtain ⟨gfield, constraint⟩ := guard
  obtain ⟨hoperand, harity⟩ := Bool.and_eq_true _ _ ▸ hvalid
  have hvalue2 : op ≠ .between → value2 = none := fun hop => by simpa [hop] using harity
  obtain ⟨hkey, hnull⟩ := Bool.and_eq_true _ _ ▸ hsame
  obtain ⟨hfield, hop⟩ := Bool.and_eq_true _ _ ▸ hkey
  obtain rfl : field = gfield := of_decide_eq_true hfield
  cases constraint with
  | eqNull =>
    obtain rfl : op = .eq := of_decide_eq_true hop
    have hvalue : value = ops.null := by simpa using hnull
    rw [hvalue2 (by decide), SoftDelete.entry, hvalue]
  | isNull =>
    obtain rfl : op = .isNull := of_decide_eq_true hop
    have hvalue : value = ops.undefined := of_decide_eq_true hoperand
    rw [hvalue2 (by decide), SoftDelete.entry, hvalue]
  | isNotNull =>
    obtain rfl : op = .isNotNull := of_decide_eq_true hop
    have hvalue : value = ops.undefined := of_decide_eq_true hoperand
    rw [hvalue2 (by decide), SoftDelete.entry, hvalue]

theorem constrainPlans_eq_map (guard : SoftDelete) (or : List (Plan V)) :
    constrainPlans ops guard or = or.map (constrainPlan ops guard) := by
  induction or with
  | nil => rfl
  | cons branch or ih => rw [constrainPlans, ih, List.map_cons]

theorem forall_constrainWhere {guard : SoftDelete} {wheres : List (WhereEntry V)}
    (hvalid : ∀ entry ∈ constrainWhere ops guard wheres, entry.valid ops = true)
    (test : WhereEntry V → Bool) :
    (∀ entry ∈ constrainWhere ops guard wheres, test entry = true) ↔
      test (guard.entry ops) = true ∧ ∀ entry ∈ wheres, test entry = true := by
  unfold constrainWhere at hvalid ⊢
  split at hvalid <;> rename_i hany
  · rw [if_pos hany]
    obtain ⟨entry, hmem, hsame⟩ := List.any_eq_true.mp hany
    obtain rfl := SoftDelete.eq_entry (hvalid entry hmem) hsame
    exact ⟨fun h => ⟨h _ hmem, h⟩, fun h => h.2⟩
  · rw [if_neg hany, List.forall_mem_append, List.forall_mem_singleton, and_comm]

theorem constrainWhere_ne_nil (guard : SoftDelete) (wheres : List (WhereEntry V)) :
    constrainWhere ops guard wheres ≠ [] := by
  unfold constrainWhere
  split <;> rename_i hany
  · rintro rfl
    cases hany
  · simp

/-- What `constrainPlan` does to the entries and branches at the top. -/
theorem constrainPlan_node (guard : SoftDelete) (wheres : List (WhereEntry V))
    (or : List (Plan V)) :
    constrainPlan ops guard (.node wheres or) =
      .node (if wheres ≠ [] ∨ or = [] then constrainWhere ops guard wheres else wheres)
        (or.map (constrainPlan ops guard)) := by
  rw [constrainPlan, constrainPlans_eq_map]
  congr 1
  simp

/-- The guard adds its constraint to what a plan matches. -/
theorem matchesPlan_constrainPlan {guard : SoftDelete} {plan : Plan V}
    (hvalid : (constrainPlan ops guard plan).Valid ops) (test : WhereEntry V → Bool) :
    matchesPlan test (constrainPlan ops guard plan) = true ↔
      test (guard.entry ops) = true ∧ matchesPlan test plan = true := by
  induction plan with
  | node wheres or ih =>
    rw [constrainPlan_node] at hvalid ⊢
    cases hvalid with
    | node hentries hbranches =>
      rw [matchesPlan_iff, matchesPlan_iff, exists_mem_map_matchesPlan test fun branch h =>
        ih branch h (hbranches _ (List.mem_map_of_mem h))]
      by_cases hown : wheres ≠ [] ∨ or = []
      · rw [if_pos hown] at hentries ⊢
        simp only [constrainWhere_ne_nil, ne_eq, not_false_eq_true, true_or, true_and, hown,
          forall_constrainWhere hentries test, and_or_left]
      · obtain ⟨hwheres, hne⟩ := not_or.mp hown
        obtain rfl := not_not.mp hwheres
        simp [hne]

/-- What `normalizeMixedOrPlan` makes of a plan: the entries are constraints on the branches. -/
def Plan.Meets (test : WhereEntry V → Bool) (plan : Plan V) : Prop :=
  (∀ entry ∈ plan.wheres, test entry = true) ∧
    (plan.or = [] ∨ ∃ branch ∈ plan.or, matchesPlan test branch = true)

theorem meets_constrainPlan {guard : SoftDelete} {plan : Plan V}
    (hvalid : (constrainPlan ops guard plan).Valid ops) (test : WhereEntry V → Bool) :
    (constrainPlan ops guard plan).Meets test ↔
      test (guard.entry ops) = true ∧ plan.Meets test := by
  cases plan with
  | node wheres or =>
    rw [constrainPlan_node] at hvalid ⊢
    cases hvalid with
    | node hentries hbranches =>
      unfold Plan.Meets
      rw [Plan.or_node, Plan.or_node, Plan.wheres_node, Plan.wheres_node,
        exists_mem_map_matchesPlan test fun branch h =>
          matchesPlan_constrainPlan (hbranches _ (List.mem_map_of_mem h)) test,
        List.map_eq_nil_iff]
      by_cases hown : wheres ≠ [] ∨ or = []
      · rw [if_pos hown] at hentries ⊢
        rw [forall_constrainWhere hentries test]
        tauto
      · obtain ⟨hwheres, hne⟩ := not_or.mp hown
        rw [if_neg hown]
        tauto

/-- A guarded plan has the entries and branches of the plan, and with entries the constraint. -/
theorem constrainPlan_valid {guard : SoftDelete} {plan : Plan V}
    (hvalid : (constrainPlan ops guard plan).Valid ops) : plan.Valid ops := by
  induction plan with
  | node wheres or ih =>
    rw [constrainPlan_node] at hvalid
    cases hvalid with
    | node hentries hbranches =>
      refine .node (fun entry hmem => hentries entry ?_) fun branch hmem =>
        ih branch hmem (hbranches _ (List.mem_map_of_mem hmem))
      split
      · unfold constrainWhere
        split
        · exact hmem
        · exact List.mem_append_left _ hmem
      · exact hmem

end

end ActiveTs.Query
