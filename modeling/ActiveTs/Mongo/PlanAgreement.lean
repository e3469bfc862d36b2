import ActiveTs.Mongo.FilterAgreement

/-! # Plans of the MongoDB adapter

The filter of a plan agrees with `matchesPlan` on a document exactly if every field shows there what
`valueFor` reads. -/

namespace ActiveTs.Mongo

open ActiveTs.Query (Operator WhereEntry Plan)
open ActiveTs.Sql (Json JsString PortableError valueFor segments)

variable (containment : Option Value → WhereEntry Operand → Except PortableError Bool)

/-! ## Entries -/

/-- The condition of an entry and the answer for the document are the same. -/
structure Agrees (document : Document) (entry : WhereEntry Operand) (filter : Filter) (answer : Bool) :
    Prop where
  compiled : mongoWhereCondition entry = .ok filter
  read : compareWhere containment document entry = .ok answer
  same : filter.matchesDocument document = answer

theorem mongoWhereCondition_eq {entry : WhereEntry Operand}
    (hsafe : safeMongoField entry.field = true) :
    mongoWhereCondition entry = operatorCondition (segments entry.field) entry := by
  rw [mongoWhereCondition, assertSafeMongoField, if_pos hsafe]
  rfl

theorem compareWhere_eq {document : Document} {entry : WhereEntry Operand} {value : Option Value}
    (hvalue : valueFor (.object document : Value) entry.field = .ok value) :
    compareWhere containment document entry = compareValue containment value entry := by
  rw [compareWhere, hvalue]
  rfl

theorem safe_of_condition {entry : WhereEntry Operand} {filter : Filter}
    (h : mongoWhereCondition entry = .ok filter) : safeMongoField entry.field = true := by
  obtain ⟨path, hpath, -⟩ := Except.bind_eq_ok.mp h
  rw [assertSafeMongoField] at hpath
  split at hpath
  · assumption
  · cases hpath

/-- No condition is the empty filter. -/
theorem condition_ne_all {entry : WhereEntry Operand} {filter : Filter}
    (h : mongoWhereCondition entry = .ok filter) : filter ≠ .all := by
  have hsafe := safe_of_condition h
  obtain ⟨field, op, value, value2⟩ := entry
  rintro rfl
  rw [mongoWhereCondition_eq hsafe] at h
  cases op <;> cases h

/-- Where a path shows what is read, every accepted entry agrees. -/
theorem entry_agrees {document : Document} {entry : WhereEntry Operand} {value : Option Value}
    (hsafe : safeMongoField entry.field = true)
    (hvalue : valueFor (.object document : Value) entry.field = .ok value)
    (h : Shown (reach (segments entry.field) (.object document)) value)
    (haccepted : acceptedEntry entry = true) :
    ∃ filter answer, Agrees containment document entry filter answer := by
  obtain ⟨field, op, operand, operand2⟩ := entry
  have hcompile := mongoWhereCondition_eq hsafe
  have hread := compareWhere_eq containment hvalue
  rw [acceptedEntry, Bool.and_eq_true] at haccepted
  replace haccepted := haccepted.2
  cases op with
  | eq =>
    obtain ⟨o, rfl, ho⟩ := exists_constant haccepted
    refine ⟨_, _, hcompile, hread, ?_⟩
    rw [strictEqual_eq h.replacement]
    exact h.scalar_matches rfl (coarse_compare ho .eq)
  | ne =>
    obtain ⟨o, rfl, ho⟩ := exists_constant haccepted
    refine ⟨_, _, hcompile, hread, ?_⟩
    rw [strictEqual_eq h.replacement]
    exact h.excluding_matches rfl (coarse_compare ho .eq)
  | gt =>
    obtain ⟨o, rfl, ho, hkind⟩ := exists_range haccepted
    refine ⟨_, _, hcompile, hread, ?_⟩
    rw [any_gt, compareRangeValues_any h.text hkind]
    exact h.scalar_matches rfl (coarse_compare ho .gt)
  | ge =>
    obtain ⟨o, rfl, ho, hkind⟩ := exists_range haccepted
    refine ⟨_, _, hcompile, hread, ?_⟩
    exact (h.scalar_matches rfl (coarse_compare ho .gte)).trans
      (compareRangeValues_any h.text hkind .gte).symm
  | lt =>
    obtain ⟨o, rfl, ho, hkind⟩ := exists_range haccepted
    refine ⟨_, _, hcompile, hread, ?_⟩
    rw [any_lt, compareRangeValues_any h.text hkind]
    exact h.scalar_matches rfl (coarse_compare ho .lt)
  | le =>
    obtain ⟨o, rfl, ho, hkind⟩ := exists_range haccepted
    refine ⟨_, _, hcompile, hread, ?_⟩
    exact (h.scalar_matches rfl (coarse_compare ho .lte)).trans
      (compareRangeValues_any h.text hkind .lte).symm
  | «in» =>
    cases operand with
    | list values =>
      simp only [Bool.and_eq_true] at haccepted
      refine ⟨_, _, hcompile, hread, ?_⟩
      refine (h.scalar_matches rfl (coarse_in haccepted.2)).trans ?_
      rw [Shown.includedIn_eq h]
    | absent => cases haccepted
    | constant o => cases haccepted
  | between =>
    simp only [Bool.and_eq_true] at haccepted
    obtain ⟨o, rfl, ho, hkind⟩ := exists_range haccepted.1.1
    obtain ⟨o', ho2, ho', hkind'⟩ := exists_range haccepted.1.2
    refine ⟨_, _, hcompile, hread, ?_⟩
    simp only [ho2]
    refine (h.scalar_matches_both rfl (coarse_compare ho .gte) (coarse_compare ho' .lte)).trans ?_
    exact (congrArg₂ _ (compareRangeValues_any h.text hkind .gte)
      (compareRangeValues_any h.text hkind' .lte)).symm
  | isNull => exact ⟨_, _, hcompile, hread, h.null_matches rfl⟩
  | isNotNull => exact ⟨_, _, hcompile, hread, h.notNull_matches rfl⟩
  | arrayContains =>
    obtain ⟨o, rfl, ho⟩ := exists_constant haccepted
    exact ⟨_, _, hcompile, hread, h.elemMatch_matches rfl ho⟩
  | startsWith =>
    have hstring : ∃ units, operand = .constant (.scalar (.string units)) := by
      rcases operand with _ | (⟨_ | _ | _ | units⟩ | _) | _ <;>
        first | exact ⟨_, rfl⟩ | cases haccepted
    obtain ⟨units, rfl⟩ := hstring
    refine ⟨_, _, hcompile, hread, ?_⟩
    rw [startsWith_eq h.text]
    refine (h.scalar_matches_both rfl (coarse_of_number fun _ => rfl)
      (coarse_of_number fun _ => rfl)).trans ?_
    cases value.bind Json.scalar with
    | none => rfl
    | some c => cases c <;> rfl
  | contains => cases haccepted
  | textContains => cases haccepted
  | jsonContains => cases haccepted

/-! ## Plans -/

/-- Every entry of a plan at every depth. -/
inductive EachEntry (p : WhereEntry Operand → Prop) : Plan Operand → Prop
  | node {wheres : List (WhereEntry Operand)} {or : List (Plan Operand)} :
    (∀ entry ∈ wheres, p entry) → (∀ branch ∈ or, EachEntry p branch) → EachEntry p (.node wheres or)

theorem EachEntry.mono {p q : WhereEntry Operand → Prop} {plan : Plan Operand}
    (h : EachEntry p plan) (hpq : ∀ entry, p entry → q entry) : EachEntry q plan := by
  induction plan with
  | node wheres or ih =>
    cases h with
    | node hwheres hor =>
      exact .node (fun entry hmem => hpq entry (hwheres entry hmem)) fun branch hmem =>
        ih branch hmem (hor branch hmem)

theorem EachEntry.and {p q : WhereEntry Operand → Prop} {plan : Plan Operand}
    (hp : EachEntry p plan) (hq : EachEntry q plan) :
    EachEntry (fun entry => p entry ∧ q entry) plan := by
  induction plan with
  | node wheres or ih =>
    cases hp with
    | node hpw hpo =>
      cases hq with
      | node hqw hqo =>
        exact .node (fun entry hmem => ⟨hpw entry hmem, hqw entry hmem⟩) fun branch hmem =>
          ih branch hmem (hpo branch hmem) (hqo branch hmem)

section
variable {containment} {document : Document} {test : WhereEntry Operand → Bool}

theorem compareWheres_eq {wheres : List (WhereEntry Operand)}
    (h : ∀ entry ∈ wheres, compareWhere containment document entry = .ok (test entry)) :
    compareWheres containment document wheres = .ok (wheres.all test) := by
  induction wheres with
  | nil => rfl
  | cons entry wheres ih =>
    rw [List.forall_mem_cons] at h
    rw [compareWheres, h.1, List.all_cons]
    cases test entry with
    | false => rfl
    | true => exact ih h.2

theorem matchesBranch_eq {or : List (Plan Operand)}
    (h : ∀ branch ∈ or, matchesPlan containment document branch =
      .ok (Query.matchesPlan test branch)) :
    matchesBranch containment document or = .ok (Query.matchesAnyPlan test or) := by
  induction or with
  | nil => rfl
  | cons branch or ih =>
    rw [List.forall_mem_cons] at h
    rw [matchesBranch, h.1, Query.matchesAnyPlan]
    cases Query.matchesPlan test branch with
    | false => exact ih h.2
    | true => rfl

/-- Where every comparison returns, a plan is decided by the answers. -/
theorem matchesPlan_eq {plan : Plan Operand} (h : EachEntry (fun entry =>
      compareWhere containment document entry = .ok (test entry)) plan) :
    matchesPlan containment document plan = .ok (Query.matchesPlan test plan) := by
  induction plan with
  | node wheres or ih =>
    cases h with
    | node hwheres hor =>
      rw [matchesPlan, compareWheres_eq hwheres,
        matchesBranch_eq fun branch hmem => ih branch hmem (hor branch hmem), Query.matchesPlan]
      change (if _ then _ else _) = Except.ok (if _ then _ else _)
      split
      · rfl
      · split <;> rfl

/-- The conditions of the entries have the answers that a test gives. -/
def Compiles (document : Document) (test : WhereEntry Operand → Bool) (entry : WhereEntry Operand) :
    Prop :=
  ∀ filter, mongoWhereCondition entry = .ok filter → filter.matchesDocument document = test entry

theorem mongoWhereFilter_matches {wheres : List (WhereEntry Operand)} {base : Filter}
    (h : ∀ entry ∈ wheres, Compiles document test entry) (hbase : mongoWhereFilter wheres = .ok base) :
    base.matchesDocument document = wheres.all test ∧ (base = .all ↔ wheres = []) := by
  obtain ⟨conditions, hconditions, hresult⟩ := Except.bind_eq_ok.mp hbase
  have hall := Except.mapM_eq_ok.mp hconditions
  have hmatches : conditions.all (·.matchesDocument document) = wheres.all test := by
    clear hconditions hresult hbase
    induction hall with
    | nil => rfl
    | cons hentry _ ih =>
      rw [List.forall_mem_cons] at h
      rw [List.all_cons, List.all_cons, h.1 _ hentry, ih h.2]
  cases hall with
  | nil =>
    cases hresult
    exact ⟨by rw [matchesDocument_all]; rfl, by simp⟩
  | cons hentry hrest =>
    cases hrest with
    | nil =>
      cases hresult
      refine ⟨by simpa using hmatches, ?_⟩
      exact iff_of_false (condition_ne_all hentry) (List.cons_ne_nil _ _)
    | cons hentry' hrest =>
      cases hresult
      rw [matchesDocument_and]
      exact ⟨hmatches, iff_of_false Filter.noConfusion (List.cons_ne_nil _ _)⟩

theorem alternatives_matches (base : Filter) (or : List Filter) :
    (alternatives base or).matchesDocument document = true ↔
      ((base ≠ .all ∨ or = []) ∧ base.matchesDocument document = true) ∨
        ∃ filter ∈ or, filter.matchesDocument document = true := by
  cases or with
  | nil => cases base <;> simp [alternatives]
  | cons filter or => cases base <;> simp [alternatives]

theorem mongoFilters_eq_mapM (or : List (Plan Operand)) : mongoFilters or = or.mapM mongoFilter := by
  induction or with
  | nil => rfl
  | cons branch or ih =>
    rw [mongoFilters, List.mapM_cons, ih]
    rfl

theorem exists_branch_matches {or : List (Plan Operand)} {filters : List Filter}
    (h : ∀ branch ∈ or, ∀ filter, mongoFilter branch = .ok filter →
      filter.matchesDocument document = Query.matchesPlan test branch)
    (hall : List.Forall₂ (fun branch filter => mongoFilter branch = .ok filter) or filters) :
    (∃ filter ∈ filters, filter.matchesDocument document = true) ↔
      ∃ branch ∈ or, Query.matchesPlan test branch = true := by
  induction hall with
  | nil => simp
  | cons hbranch _ ih =>
    rw [List.forall_mem_cons] at h
    simp only [List.exists_mem_cons_iff]
    rw [h.1 _ hbranch, ih h.2]

/-- The filter of a plan is decided by the answers of its conditions. -/
theorem mongoFilter_matches {plan : Plan Operand} (h : EachEntry (Compiles document test) plan)
    {filter : Filter} (hfilter : mongoFilter plan = .ok filter) :
    filter.matchesDocument document = Query.matchesPlan test plan := by
  induction plan generalizing filter with
  | node wheres or ih =>
    cases h with
    | node hwheres hor =>
      rw [mongoFilter] at hfilter
      obtain ⟨base, hbase, hfilter⟩ := Except.bind_eq_ok.mp hfilter
      obtain ⟨filters, hfilters, hfilter⟩ := Except.bind_eq_ok.mp hfilter
      cases hfilter
      obtain ⟨hmatches, hempty⟩ := mongoWhereFilter_matches hwheres hbase
      rw [mongoFilters_eq_mapM] at hfilters
      have hall := Except.mapM_eq_ok.mp hfilters
      have hnil : filters = [] ↔ or = [] := by
        rw [← List.length_eq_zero_iff, ← List.length_eq_zero_iff, hall.length_eq]
      have hbranches := exists_branch_matches
        (fun branch hmem filter hfilter => ih branch hmem (hor branch hmem) hfilter) hall
      rw [Bool.eq_iff_iff, alternatives_matches, Query.matchesPlan_iff, hbranches, hmatches, hnil,
        ne_eq, hempty, List.all_eq_true]

theorem safe_of_mongoFilter {plan : Plan Operand} {filter : Filter}
    (hfilter : mongoFilter plan = .ok filter) :
    EachEntry (fun entry => safeMongoField entry.field = true) plan := by
  induction plan generalizing filter with
  | node wheres or ih =>
    rw [mongoFilter] at hfilter
    obtain ⟨base, hbase, hfilter⟩ := Except.bind_eq_ok.mp hfilter
    obtain ⟨filters, hfilters, -⟩ := Except.bind_eq_ok.mp hfilter
    obtain ⟨conditions, hconditions, -⟩ := Except.bind_eq_ok.mp hbase
    refine .node ?_ ?_
    · intro entry hmem
      obtain ⟨condition, -, hcondition⟩ := Except.mapM_mem hconditions hmem
      exact safe_of_condition hcondition
    · intro branch hmem
      rw [mongoFilters_eq_mapM] at hfilters
      obtain ⟨filter, -, hbranch⟩ := Except.mapM_mem hfilters hmem
      exact ih branch hmem hbranch

end

end ActiveTs.Mongo
