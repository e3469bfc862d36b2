import ActiveTs.Lib.Keyset
import ActiveTs.Lib.MergeSort
import ActiveTs.Query.CursorText

/-! # Pages of the in-memory store

`query` filters the rows of a collection, sorts them, leaves out those up to the cursor, and cuts off
at the limit. A client that follows the cursors sees every row once, as long as the store takes its
own cursors back. -/

namespace ActiveTs.MemoryStore.Pages

open Utf16 (Units ofString)
open KeyOrder (sign)
open Query.Cursors

/-! ## Queries -/

/-- What `assertSafeLimit` passes. -/
abbrev Limit := { n : Nat // 0 < n ∧ n ≤ 9007199254740991 }

structure QueryPlan where
  /-- Whether `where` and `or` match a row. -/
  accepts : Value → Except CursorError Bool
  sort : List CursorSort
  limit : Option Limit
  offset : Option Nat
  cursor : Option Units

structure QueryResult where
  list : List Value
  cursor : Option Units
  more : Bool
  count : Nat

def appendStableLimitSort (limit : Option Limit) (sort : List CursorSort) (idField : Units) :
    Except CursorError (List CursorSort) := do
  if limit.isNone || sort.isEmpty then .ok sort
  else if sort.any fun entry => entry.field = idField then .ok sort
  else
    let safeIdField ← assertSafeFieldPath idField
    .ok (sort ++ [⟨safeIdField, .asc⟩])

def checkCursor : Option Units → Except CursorError (Option Units)
  | none => .ok none
  | some cursor => (assertSafeCursor cursor).map some

/-- The part of `normalizeStoreQueryPlan` that depends on sort and pagination. -/
def normalizeStoreQueryPlan (plan : QueryPlan) (idField : Units) : Except CursorError QueryPlan := do
  let cursor ← checkCursor plan.cursor
  if plan.offset.isSome && cursor.isSome then .error .offsetAndCursor
  else
    let sort ← sanitizeCursorSortList plan.sort
    let sort ← appendStableLimitSort plan.limit sort idField
    .ok { plan with sort := sort, cursor := cursor }

/-- The loops over rows that keep some of them. -/
def selectRows (selects : Value → Except CursorError Bool) :
    List Value → Except CursorError (List Value)
  | [] => .ok []
  | row :: rows => do
    let selected ← selects row
    let rest ← selectRows selects rows
    .ok (if selected then row :: rest else rest)

def filterRows (plan : QueryPlan) (rows : List Value) : Except CursorError (List Value) :=
  selectRows plan.accepts rows

/-- The entries of `sortMemoryRows`: rows with their keys. -/
def sortEntries (prepared : PreparedSort) : List Value → Except CursorError (List (Value × List Comparable))
  | [] => .ok []
  | row :: rows => do
    let key ← prepared.keyFor row
    let entries ← sortEntries prepared rows
    .ok ((row, key) :: entries)

def sortMemoryRows (rows : List Value) (sort : List CursorSort) : Except CursorError (List Value) := do
  let prepared ← prepareRowSort sort
  let source ← sortEntries prepared rows
  .ok ((MergeSort.sort (fun a b => prepared.compareKeys a.2 b.2 ≤ 0) source).map Prod.fst)

def isAfter (cursor : KeysetCursor) (row : Value) : Except CursorError Bool := do
  let order ← compareRowToCursor row cursor
  .ok (0 < order)

def afterCursor (sort : List CursorSort) (list : List Value) :
    Option Units → Except CursorError (List Value)
  | none => .ok list
  | some text => do
    if text = [] then .ok list
    else
      let cursor ← decodeCursor text
      assertCursorMatchesSort cursor sort
      selectRows (isAfter cursor) list

def pageCursor (sort : List CursorSort) (last : Value) : Except CursorError Units := do
  let values ← cursorValues last sort
  encodeCursor (cursorOf sort values)

def limitRows (sort : List CursorSort) (list : List Value) :
    Option Limit → Except CursorError QueryResult
  | none => .ok ⟨list, none, false, list.length⟩
  | some limit =>
    let more : Bool := limit.1 < list.length
    let page := list.take limit.1
    match page.getLast? with
    | none => .ok ⟨page, none, more, page.length⟩
    | some last =>
      if more then do
        let cursor ← pageCursor sort last
        .ok ⟨page, some cursor, more, page.length⟩
      else .ok ⟨page, none, more, page.length⟩

/-- `MemoryStoreAdapter.query` over the rows of the collection. -/
def query (rows : List Value) (idField : Units) (plan : QueryPlan) :
    Except CursorError QueryResult := do
  let plan ← normalizeStoreQueryPlan plan idField
  let list ← filterRows plan rows
  let sort ← sortWithStableId plan.sort idField
  let list ← sortMemoryRows list sort
  let list ← afterCursor sort list plan.cursor
  limitRows sort (list.drop (plan.offset.getD 0)) plan.limit

/-! ## Collections and clients -/

/-- The rows of a collection, by id. -/
structure Collection (idField : Units) where
  entries : List (EntityIds.EntityId × Value)
  hasId : ∀ entry ∈ entries, HasId idField entry.2 entry.1
  nodup : (entries.map Prod.fst).Nodup

def Collection.rows {idField : Units} (collection : Collection idField) : List Value :=
  collection.entries.map Prod.snd

/-- A filter and a sort list, without limit and cursor. -/
def basePlan (accepts : Value → Except CursorError Bool) (sort : List CursorSort) : QueryPlan :=
  ⟨accepts, sort, none, none, none⟩

def pagePlan (plan : QueryPlan) (limit : Limit) (cursor : Option Units) : QueryPlan :=
  { plan with limit := some limit, cursor := cursor }

/-- What a client sees that follows the cursors until `more` is false, with a limit for each page. -/
inductive Follows (rows : List Value) (idField : Units) (plan : QueryPlan) :
    (Nat → Limit) → Option Units → List Value → Prop
  | last {limits : Nat → Limit} {cursor : Option Units} {page : QueryResult} :
    query rows idField (pagePlan plan (limits 0) cursor) = .ok page → page.more = false →
    Follows rows idField plan limits cursor page.list
  | next {limits : Nat → Limit} {cursor : Option Units} {page : QueryResult} {text : Units}
    {rest : List Value} :
    query rows idField (pagePlan plan (limits 0) cursor) = .ok page → page.more = true →
    page.cursor = some text → Follows rows idField plan (fun n => limits (n + 1)) (some text) rest →
    Follows rows idField plan limits cursor (page.list ++ rest)

/-- Following the cursors gives the rows of the query without limit, and these are all rows that
match, each once. -/
def Complete (rows : List Value) (idField : Units) (plan : QueryPlan) (limits : Nat → Limit) : Prop :=
  ∃ all matched, query rows idField plan = .ok ⟨all, none, false, all.length⟩ ∧
    filterRows plan rows = .ok matched ∧ all.Perm matched ∧
    Follows rows idField plan limits none all

/-! ## Which cursors fit -/

/-- Where the page ends that the limits make. -/
def pageEnd (limits : Nat → Limit) : Nat → Nat
  | 0 => (limits 0).1
  | n + 1 => (limits 0).1 + pageEnd (fun n => limits (n + 1)) n

/-- The cursor with the sort values of this row is taken back: its JSON has 3072 bytes at most. -/
def CursorFits (sort : List CursorSort) (row : Value) : Prop :=
  (cursorBytes (cursorOf sort (sort.map fun entry => keyAt entry.field row))).length ≤ 3072

/-- The cursors fit at every page end that more rows follow. -/
def PagesFit (sort : List CursorSort) (limits : Nat → Limit) (list : List Value) : Prop :=
  ∀ n row, pageEnd limits n < list.length → list[pageEnd limits n - 1]? = some row →
    CursorFits sort row

/-- The rows in the order of the sort. -/
def listing (sort : List CursorSort) (rows : List Value) : List Value :=
  Keyset.listing (rowOrder sort) id rows

/-- The filter decides every row, the matching rows have values to sort by, and the cursors fit. -/
def Pageable (rows : List Value) (idField : Units) (plan : QueryPlan) (limits : Nat → Limit) : Prop :=
  ∃ matched sort, filterRows plan rows = .ok matched ∧ sortWithStableId plan.sort idField = .ok sort ∧
    (∀ row ∈ matched, Sortable sort row) ∧ PagesFit sort limits (listing sort matched)

/-! ## Selecting and sorting -/

theorem selectRows_eq {selects : Value → Except CursorError Bool} {rows : List Value}
    {p : Value → Bool} (h : ∀ row ∈ rows, selects row = .ok (p row)) :
    selectRows selects rows = .ok (rows.filter p) := by
  induction rows with
  | nil => rfl
  | cons row rows ih =>
    obtain ⟨hrow, hrows⟩ := List.forall_mem_cons.mp h
    rw [selectRows, hrow, ih hrows, List.filter_cons]
    rfl

/-- A selection leaves rows out. -/
theorem selectRows_sublist {selects : Value → Except CursorError Bool} {rows result : List Value}
    (h : selectRows selects rows = .ok result) : result.Sublist rows := by
  induction rows generalizing result with
  | nil =>
    cases h
    exact .slnil
  | cons row rows ih =>
    rw [selectRows, Except.bind_eq_ok] at h
    obtain ⟨selected, -, h⟩ := h
    rw [Except.bind_eq_ok] at h
    obtain ⟨rest, hrest, h⟩ := h
    cases h
    cases selected with
    | false => exact (ih hrest).cons row
    | true => exact (ih hrest).cons_cons row

/-- The keys of a row that has all of them. -/
def keysAt (sort : List CursorSort) (row : Value) : List Comparable :=
  sort.map fun entry => keyAt entry.field row

theorem sortEntries_eq_ok {sort : List CursorSort} {prepared : PreparedSort}
    (hprepared : prepareRowSort sort = .ok prepared) {rows : List Value}
    {entries : List (Value × List Comparable)} :
    sortEntries prepared rows = .ok entries ↔
      (∀ row ∈ rows, Sortable sort row) ∧ entries = rows.map fun row => (row, keysAt sort row) := by
  have hkey : ∀ row key, prepared.keyFor row = .ok key ↔ Sortable sort row ∧ key = keysAt sort row := by
    intro row key
    rw [prepareRowSort, Except.bind_eq_ok] at hprepared
    obtain ⟨safeSort, hsort, hprepared⟩ := hprepared
    cases hprepared
    cases sanitize_eq_ok hsort
    exact keysOf_eq_ok
  induction rows generalizing entries with
  | nil =>
    constructor
    · intro h
      cases h
      exact ⟨fun row hrow => absurd hrow List.not_mem_nil, rfl⟩
    · rintro ⟨-, rfl⟩
      rfl
  | cons row rows ih =>
    rw [sortEntries, Except.bind_eq_ok]
    constructor
    · rintro ⟨key, hrow, h⟩
      rw [Except.bind_eq_ok] at h
      obtain ⟨rest, hrest, h⟩ := h
      cases h
      obtain ⟨hsortable, rfl⟩ := (hkey row key).mp hrow
      obtain ⟨hrows, rfl⟩ := ih.mp hrest
      exact ⟨List.forall_mem_cons.mpr ⟨hsortable, hrows⟩, rfl⟩
    · rintro ⟨hsortable, rfl⟩
      obtain ⟨hrow, hrows⟩ := List.forall_mem_cons.mp hsortable
      refine ⟨keysAt sort row, (hkey row _).mpr ⟨hrow, rfl⟩, ?_⟩
      rw [ih.mpr ⟨hrows, rfl⟩]
      rfl

theorem totalPreorder_rowOrder (sort : List CursorSort) :
    MergeSort.TotalPreorder fun a b => (rowOrder sort a b).isLE where
  trans := by
    intro a b c
    exact Std.TransCmp.isLE_trans
  total := by
    intro a b
    rw [@Std.OrientedCmp.eq_swap _ (rowOrder sort) _ b a]
    cases rowOrder sort a b <;> rfl

/-- Different rows are not equal in the order. -/
def Distinct (sort : List CursorSort) (rows : List Value) : Prop :=
  rows.Pairwise fun a b => rowOrder sort a b ≠ .eq

theorem Distinct.perm {sort : List CursorSort} {rows rows' : List Value} (h : Distinct sort rows)
    (hperm : rows'.Perm rows) : Distinct sort rows' := by
  refine (hperm.pairwise_iff ?_).mpr h
  intro a b hab hba
  apply hab
  rw [Std.OrientedCmp.eq_comm] at hba
  exact hba

/-- A list in the order of the sort. -/
def Increasing (sort : List CursorSort) (list : List Value) : Prop :=
  list.Pairwise fun a b => rowOrder sort a b = .lt

theorem increasing_of_isLE {sort : List CursorSort} {list : List Value}
    (hsorted : list.Pairwise fun a b => (rowOrder sort a b).isLE = true) (hdistinct : Distinct sort list) :
    Increasing sort list := by
  refine (hsorted.and hdistinct).imp fun {a b} h => ?_
  cases horder : rowOrder sort a b with
  | lt => rfl
  | eq => exact absurd horder h.2
  | gt =>
    rw [horder] at h
    cases h.1

/-- There is one such list. -/
theorem Increasing.eq {sort : List CursorSort} {list list' : List Value} (h : Increasing sort list)
    (h' : Increasing sort list') (hperm : list.Perm list') : list = list' := by
  apply hperm.eq_of_pairwise _ h h'
  intro a b _ _ hab hba
  rw [Std.OrientedCmp.gt_of_lt hab] at hba
  cases hba

theorem listing_perm (sort : List CursorSort) (rows : List Value) : (listing sort rows).Perm rows :=
  Keyset.listing_perm rows

theorem listing_increasing {sort : List CursorSort} {rows : List Value} (h : Distinct sort rows) :
    Increasing sort (listing sort rows) := by
  apply increasing_of_isLE _ (h.perm (listing_perm sort rows))
  have hle := totalPreorder_rowOrder sort
  exact List.pairwise_mergeSort hle.trans hle.total rows

/-- The store sorts by the order of rows. -/
theorem sortMemoryRows_sortable {sort : List CursorSort} {rows : List Value}
    (hsort : sanitizeCursorSortList sort = .ok sort) (hrows : ∀ row ∈ rows, Sortable sort row) :
    sortMemoryRows rows sort = .ok (MergeSort.sort (fun a b => (rowOrder sort a b).isLE) rows) := by
  obtain ⟨prepared, hprepared⟩ : ∃ prepared, prepareRowSort sort = .ok prepared := by
    rw [prepareRowSort, hsort]
    exact ⟨_, rfl⟩
  have hcompare : prepared.compareKeys = compareSortKeys sort := by
    rw [prepareRowSort, hsort] at hprepared
    cases hprepared
    rfl
  have hle : ∀ a b, (rowOrder sort a b).isLE =
      decide (prepared.compareKeys (keysAt sort a) (keysAt sort b) ≤ 0) := by
    intro a b
    rw [hcompare, ← sign_compareSortKeys, Bool.eq_iff_iff, KeyOrder.isLE_sign, decide_eq_true_iff]
    rfl
  have hentries : sortEntries prepared rows = .ok (rows.map fun row => (row, keysAt sort row)) :=
    (sortEntries_eq_ok hprepared).mpr ⟨hrows, rfl⟩
  rw [sortMemoryRows, hprepared, Except.bind_eq_ok]
  refine ⟨_, rfl, ?_⟩
  rw [hentries, Except.bind_eq_ok]
  refine ⟨_, rfl, ?_⟩
  rw [MergeSort.sort_map hle, List.map_map]
  exact congrArg Except.ok (List.map_id _)

/-- The merge sort of the store gives the listing. -/
theorem sortMemoryRows_eq {sort : List CursorSort} {rows : List Value}
    (hsort : sanitizeCursorSortList sort = .ok sort) (hrows : ∀ row ∈ rows, Sortable sort row)
    (hdistinct : Distinct sort rows) : sortMemoryRows rows sort = .ok (listing sort rows) := by
  have hsorted := MergeSort.sort_pairwise (totalPreorder_rowOrder sort) rows
  have hperm := @MergeSort.sort_perm _ (fun a b => (rowOrder sort a b).isLE) rows
  rw [sortMemoryRows_sortable hsort hrows]
  exact congrArg Except.ok ((increasing_of_isLE hsorted (hdistinct.perm hperm)).eq
    (listing_increasing hdistinct) (hperm.trans (listing_perm sort rows).symm))

/-! ## One page -/

section
variable {sort : List CursorSort} {rows : List Value}

theorem cursorValues_eq {row : Value} (hsort : sanitizeCursorSortList sort = .ok sort)
    (hrow : Sortable sort row) : cursorValues row sort = .ok (keysAt sort row) := by
  rw [cursorValues, hsort]
  exact keysOf_eq_ok.mpr ⟨hrow, rfl⟩

/-- The cursor of a row, as the client has it. -/
def cursorText (sort : List CursorSort) (row : Value) : Units :=
  Base64Url.encode (cursorBytes (cursorOf sort (keysAt sort row)))

theorem pageCursor_eq {row : Value} (hsort : sanitizeCursorSortList sort = .ok sort)
    (hrow : Sortable sort row) : pageCursor sort row = .ok (cursorText sort row) := by
  rw [pageCursor, cursorValues_eq hsort hrow]
  exact encodeCursor_cursorOf hsort (List.length_map _)

/-- The last page has the rest. -/
theorem limitRows_last {list : List Value} {limit : Limit} (h : list.length ≤ limit.1) :
    limitRows sort list (some limit) = .ok ⟨list, none, false, list.length⟩ := by
  rw [limitRows]
  simp only [List.take_of_length_le h, decide_eq_false (Nat.not_lt.mpr h)]
  cases list.getLast? <;> rfl

/-- A page before others ends with the row that its cursor is made of. -/
theorem limitRows_next {front rest : List Value} {last : Value} {limit : Limit}
    (hsort : sanitizeCursorSortList sort = .ok sort) (hlast : Sortable sort last)
    (hlength : (front ++ [last]).length = limit.1) (hrest : rest ≠ []) :
    limitRows sort (front ++ last :: rest) (some limit) =
      .ok ⟨front ++ [last], some (cursorText sort last), true, limit.1⟩ := by
  have hsplit : front ++ last :: rest = (front ++ [last]) ++ rest := by
    rw [List.append_assoc, List.singleton_append]
  have htake : (front ++ last :: rest).take limit.1 = front ++ [last] := by
    rw [hsplit, List.take_left' hlength]
  have hmore : limit.1 < (front ++ last :: rest).length := by
    rw [hsplit, List.length_append, hlength]
    have := List.length_pos_iff.mpr hrest
    omega
  rw [limitRows]
  simp only [htake, decide_eq_true hmore, List.getLast?_concat, if_true, pageCursor_eq hsort hlast,
    hlength]
  rfl

/-- A cursor that fits leaves the rows after its row. -/
theorem afterCursor_next {done rest : List Value} {last : Value}
    (hsort : sanitizeCursorSortList sort = .ok sort)
    (hrows : ∀ row ∈ done ++ last :: rest, Sortable sort row)
    (hincreasing : Increasing sort (done ++ last :: rest)) (hfits : CursorFits sort last) :
    afterCursor sort (done ++ last :: rest) (some (cursorText sort last)) = .ok rest := by
  have hdecode := decodeCursor_encode hsort (List.length_map _) hfits
  have hne : cursorText sort last ≠ [] := by
    intro hnil
    have hlength := Base64Url.length_encode (cursorBytes (cursorOf sort (keysAt sort last)))
    have hbytes := cursorBytes_pos (cursorOf sort (keysAt sort last))
    rw [cursorText] at hnil
    rw [hnil, List.length_nil] at hlength
    omega
  have hmatches : assertCursorMatchesSort
      (cursorOf sort ((keysAt sort last).map Comparable.plain)) sort = .ok () := by
    rw [assertCursorMatchesSort,
      sanitize_cursorOf hsort (by rw [List.length_map, keysAt, List.length_map]), hsort]
    exact if_pos rfl
  have hafter : ∀ row ∈ done ++ last :: rest,
      isAfter (cursorOf sort ((keysAt sort last).map Comparable.plain)) row =
        .ok (decide (rowOrder sort row last = .gt)) := by
    intro row hrow
    obtain ⟨order, horder, hsign⟩ := @compareRowToCursor_plain sort row last hsort (hrows row hrow)
    have hdecide : decide (0 < order) = decide (rowOrder sort row last = .gt) := by
      rw [decide_eq_decide, ← hsign, KeyOrder.sign_eq_gt]
    rw [isAfter, keysAt, horder, ← hdecide]
    rfl
  rw [afterCursor, if_neg hne, cursorText, keysAt, hdecode, Except.bind_eq_ok]
  refine ⟨_, rfl, ?_⟩
  rw [Except.bind_eq_ok]
  refine ⟨(), hmatches, ?_⟩
  rw [← keysAt, selectRows_eq hafter]
  exact congrArg Except.ok (@Keyset.afterCursor_append _ _ (rowOrder sort) id _ done rest last hincreasing)

/-- One that does not fit is not taken. -/
theorem checkCursor_unfit {row : Value} (h : ¬ CursorFits sort row) :
    checkCursor (some (cursorText sort row)) = .error .tooLong := by
  have hlength : MAX_CURSOR_LENGTH < (cursorText sort row).length := by
    rw [← Nat.not_le, cursorText, length_le_iff]
    exact h
  rw [checkCursor, assertSafeCursor, if_pos hlength]
  rfl

theorem checkCursor_fit {row : Value} (h : CursorFits sort row) :
    checkCursor (some (cursorText sort row)) = .ok (some (cursorText sort row)) := by
  have hlength : ¬ MAX_CURSOR_LENGTH < (cursorText sort row).length := by
    rw [Nat.not_lt, cursorText, length_le_iff]
    exact h
  rw [checkCursor, assertSafeCursor, if_neg hlength, if_neg]
  · rfl
  · rw [List.contains_iff_mem]
    exact Base64Url.zero_not_mem_encode _

end

/-! ## Queries over one collection -/

/-- Whether or not a limit brings the id into the sort, the sort of the rows has it once. -/
theorem appendStableLimitSort_eq {planSort sort : List CursorSort} {idField : Units}
    (h : sortWithStableId planSort idField = .ok sort) (limit : Option Limit) :
    ∃ normalized, appendStableLimitSort limit planSort idField = .ok normalized ∧
      sortWithStableId normalized idField = .ok sort := by
  obtain ⟨hid, hplanSort, hsort⟩ := sortWithStableId_eq_ok.mp h
  obtain ⟨hsafe, entry, hentry, hfield⟩ := stable_sort h
  rw [appendStableLimitSort]
  split
  · exact ⟨planSort, rfl, h⟩
  · split
    · exact ⟨planSort, rfl, h⟩
    · rename_i hany
      have happend : sort = planSort ++ [⟨idField, .asc⟩] := by
        rw [hsort, withId, if_neg hany]
      have hself : sort = withId sort idField := by
        rw [withId, if_pos]
        exact List.any_eq_true.mpr ⟨entry, hentry, decide_eq_true hfield⟩
      refine ⟨sort, ?_, sortWithStableId_eq_ok.mpr ⟨hid, hsafe, hself⟩⟩
      rw [hid, happend]
      rfl

/-- The filter and the sort of a plan go through on the rows of a collection. -/
structure Ready (rows : List Value) (idField : Units) (accepts : Value → Except CursorError Bool)
    (planSort sort : List CursorSort) (matched : List Value) : Prop where
  stable : sortWithStableId planSort idField = .ok sort
  filter : filterRows (basePlan accepts planSort) rows = .ok matched
  sortable : ∀ row ∈ matched, Sortable sort row
  distinct : Distinct sort matched

section
variable {rows matched : List Value} {idField : Units} {sort planSort : List CursorSort}
  {accepts : Value → Except CursorError Bool}

theorem Ready.query_eq (h : Ready rows idField accepts planSort sort matched) (limit : Option Limit)
    {cursor : Option Units} (hcursor : checkCursor cursor = .ok cursor) :
    query rows idField ⟨accepts, planSort, limit, none, cursor⟩ =
      (afterCursor sort (listing sort matched) cursor >>= fun list => limitRows sort list limit) := by
  obtain ⟨-, hplanSort, -⟩ := sortWithStableId_eq_ok.mp h.stable
  obtain ⟨hsort, -⟩ := stable_sort h.stable
  obtain ⟨normalized, happend, hnormalized⟩ := appendStableLimitSort_eq h.stable limit
  have hplan : normalizeStoreQueryPlan ⟨accepts, planSort, limit, none, cursor⟩ idField =
      .ok ⟨accepts, normalized, limit, none, cursor⟩ := by
    rw [normalizeStoreQueryPlan, hcursor, Except.bind_eq_ok]
    refine ⟨_, rfl, ?_⟩
    rw [Option.isSome_none, Bool.false_and, if_neg Bool.false_ne_true, hplanSort, Except.bind_eq_ok]
    refine ⟨_, rfl, ?_⟩
    rw [happend]
    rfl
  have hmatched : filterRows ⟨accepts, normalized, limit, none, cursor⟩ rows = .ok matched := h.filter
  rw [query, hplan]
  simp only [bind, Except.bind, hmatched, hnormalized,
    sortMemoryRows_eq hsort h.sortable h.distinct, Option.getD_none, List.drop_zero]

theorem Ready.increasing (h : Ready rows idField accepts planSort sort matched) :
    Increasing sort (listing sort matched) :=
  listing_increasing h.distinct

theorem Ready.sortable_listing (h : Ready rows idField accepts planSort sort matched) :
    ∀ row ∈ listing sort matched, Sortable sort row := by
  intro row hrow
  exact h.sortable row ((listing_perm sort matched).mem_iff.mp hrow)

/-- The query after a cursor that fits has the rows after its row. -/
theorem Ready.query_next (h : Ready rows idField accepts planSort sort matched)
    {done rest : List Value} {last : Value} (hlisting : listing sort matched = done ++ last :: rest)
    (hfits : CursorFits sort last) (limit : Limit) :
    query rows idField (pagePlan (basePlan accepts planSort) limit (some (cursorText sort last))) =
      limitRows sort rest (some limit) := by
  have hafter : afterCursor sort (listing sort matched) (some (cursorText sort last)) = .ok rest := by
    have hrows := h.sortable_listing
    have hincreasing := h.increasing
    rw [hlisting] at hrows hincreasing ⊢
    exact afterCursor_next (stable_sort h.stable).1 hrows hincreasing hfits
  exact (h.query_eq (some limit) (checkCursor_fit hfits)).trans (by rw [hafter]; rfl)

theorem query_unfit {last : Value} (hfits : ¬ CursorFits sort last) (limit : Limit) :
    query rows idField (pagePlan (basePlan accepts planSort) limit (some (cursorText sort last))) =
      .error .tooLong := by
  have hplan : normalizeStoreQueryPlan (pagePlan (basePlan accepts planSort) limit
      (some (cursorText sort last))) idField = .error .tooLong := by
    rw [normalizeStoreQueryPlan, pagePlan, checkCursor_unfit hfits]
    rfl
  rw [query, hplan]
  rfl

end

/-! ## Following the cursors -/

section
variable {rows : List Value} {idField : Units} {plan : QueryPlan} {limits : Nat → Limit}
  {cursor : Option Units} {page : QueryResult} {list : List Value}

theorem follows_last (h : query rows idField (pagePlan plan (limits 0) cursor) = .ok page)
    (hmore : page.more = false) :
    Follows rows idField plan limits cursor list ↔ list = page.list := by
  constructor
  · intro hfollows
    cases hfollows with
    | last h' _ =>
      cases h.symm.trans h'
      rfl
    | next h' hmore' _ _ =>
      cases h.symm.trans h'
      rw [hmore] at hmore'
      cases hmore'
  · rintro rfl
    exact .last h hmore

theorem follows_next {text : Units}
    (h : query rows idField (pagePlan plan (limits 0) cursor) = .ok page) (hmore : page.more = true)
    (htext : page.cursor = some text) :
    Follows rows idField plan limits cursor list ↔
      ∃ rest, list = page.list ++ rest ∧
        Follows rows idField plan (fun n => limits (n + 1)) (some text) rest := by
  constructor
  · intro hfollows
    cases hfollows with
    | last h' hmore' =>
      cases h.symm.trans h'
      rw [hmore] at hmore'
      cases hmore'
    | next h' _ htext' hrest =>
      cases h.symm.trans h'
      cases htext.symm.trans htext'
      exact ⟨_, rfl, hrest⟩
  · rintro ⟨rest, rfl, hrest⟩
    exact .next h hmore htext hrest

theorem not_follows {error : CursorError}
    (h : query rows idField (pagePlan plan (limits 0) cursor) = .error error) :
    ¬ Follows rows idField plan limits cursor list := by
  intro hfollows
  cases hfollows with
  | last h' _ => cases h.symm.trans h'
  | next h' _ _ _ => cases h.symm.trans h'

end

theorem pageEnd_pos (limits : Nat → Limit) (n : Nat) : (limits 0).1 ≤ pageEnd limits n := by
  cases n with
  | zero => exact Nat.le_refl _
  | succ n => exact Nat.le_add_right _ _

theorem pagesFit_last {sort : List CursorSort} {limits : Nat → Limit} {list : List Value}
    (h : list.length ≤ (limits 0).1) : PagesFit sort limits list := by
  intro n row hend
  have := pageEnd_pos limits n
  omega

/-- The first page end, and those of the rest. -/
theorem pagesFit_next {sort : List CursorSort} {limits : Nat → Limit} {front rest : List Value}
    {last : Value} (hlength : (front ++ [last]).length = (limits 0).1) (hrest : rest ≠ []) :
    PagesFit sort limits (front ++ last :: rest) ↔
      CursorFits sort last ∧ PagesFit sort (fun n => limits (n + 1)) rest := by
  have hpos := List.length_pos_iff.mpr hrest
  rw [List.length_append, List.length_singleton] at hlength
  have hindex (p : Nat) (hp : 0 < p) :
      (front ++ last :: rest)[(limits 0).1 + p - 1]? = rest[p - 1]? := by
    rw [← hlength, List.getElem?_append_right (by omega)]
    have hshift : front.length + 1 + p - 1 - front.length = p - 1 + 1 := by omega
    rw [hshift, List.getElem?_cons_succ]
  constructor
  · intro h
    refine ⟨h 0 last ?_ ?_, ?_⟩
    · rw [pageEnd, List.length_append, List.length_cons]
      omega
    · have hshift : (limits 0).1 - 1 = front.length := by omega
      rw [pageEnd, hshift, List.getElem?_append_right (Nat.le_refl _), Nat.sub_self]
      rfl
    · intro n row hend hrow
      have hp := Nat.lt_of_lt_of_le (limits 1).2.1 (pageEnd_pos (fun n => limits (n + 1)) n)
      apply h (n + 1) row
      · rw [pageEnd, List.length_append, List.length_cons]
        omega
      · rw [pageEnd, hindex _ hp]
        exact hrow
  · rintro ⟨hlast, h⟩ n row hend hrow
    cases n with
    | zero =>
      have hshift : (limits 0).1 - 1 = front.length := by omega
      rw [pageEnd, hshift, List.getElem?_append_right (Nat.le_refl _), Nat.sub_self] at hrow
      cases hrow
      exact hlast
    | succ n =>
      have hp := Nat.lt_of_lt_of_le (limits 1).2.1 (pageEnd_pos (fun n => limits (n + 1)) n)
      rw [pageEnd, hindex _ hp] at hrow
      rw [pageEnd, List.length_append, List.length_cons] at hend
      exact h n row (by omega) hrow

section
variable {rows matched : List Value} {idField : Units} {sort planSort : List CursorSort}
  {accepts : Value → Except CursorError Bool}

/-- From any cursor on, the pages are the rows that are left when all cursors fit, and end in an error
otherwise. The induction is on the rows that are left. -/
theorem Ready.follows_iff (h : Ready rows idField accepts planSort sort matched)
    {limits : Nat → Limit} {cursor : Option Units} {done rest list : List Value}
    (hlisting : listing sort matched = done ++ rest)
    (hquery : ∀ limit, query rows idField (pagePlan (basePlan accepts planSort) limit cursor) =
      limitRows sort rest (some limit)) :
    Follows rows idField (basePlan accepts planSort) limits cursor list ↔
      list = rest ∧ PagesFit sort limits rest := by
  generalize hn : rest.length = n
  induction n using Nat.strongRecOn generalizing limits cursor done rest list with
  | ind n ih =>
    by_cases hlast : rest.length ≤ (limits 0).1
    · rw [follows_last ((hquery (limits 0)).trans (limitRows_last hlast)) rfl]
      exact ⟨fun hlist => ⟨hlist, pagesFit_last hlast⟩, fun hlist => hlist.1⟩
    -- the page is cut off after `last`
    have hpos := (limits 0).2.1
    obtain ⟨front, last, left, hrest, hlength, hleft⟩ : ∃ front last left,
        rest = front ++ last :: left ∧ (front ++ [last]).length = (limits 0).1 ∧ left ≠ [] := by
      have hbound : (limits 0).1 - 1 < rest.length := by omega
      refine ⟨rest.take ((limits 0).1 - 1), rest[(limits 0).1 - 1], rest.drop ((limits 0).1 - 1 + 1),
        ?_, ?_, ?_⟩
      · rw [← List.drop_eq_getElem_cons hbound, List.take_append_drop]
      · rw [List.length_append, List.length_take, List.length_singleton]
        omega
      · apply List.ne_nil_of_length_pos
        rw [List.length_drop]
        omega
    subst hrest
    have hlastMem : last ∈ listing sort matched := by
      rw [hlisting]
      exact List.mem_append_right done (List.mem_append_right front List.mem_cons_self)
    have hpage := (hquery (limits 0)).trans (limitRows_next (stable_sort h.stable).1
      (h.sortable_listing last hlastMem) hlength hleft)
    rw [follows_next hpage rfl rfl, pagesFit_next hlength hleft]
    by_cases hfits : CursorFits sort last
    · have hsplit : listing sort matched = (done ++ front) ++ last :: left := by
        rw [hlisting, List.append_assoc]
      have hafter : listing sort matched = (done ++ front ++ [last]) ++ left := by
        rw [hsplit, List.append_assoc, List.append_assoc, List.append_assoc, List.singleton_append]
      have hsmaller : left.length < n := by
        rw [← hn, List.length_append, List.length_cons]
        omega
      have hnext (list' : List Value) : Follows rows idField (basePlan accepts planSort)
          (fun n => limits (n + 1)) (some (cursorText sort last)) list' ↔
            list' = left ∧ PagesFit sort (fun n => limits (n + 1)) left :=
        ih left.length hsmaller hafter (h.query_next hsplit hfits) rfl
      constructor
      · rintro ⟨list', rfl, hfollows⟩
        obtain ⟨rfl, hpages⟩ := (hnext list').mp hfollows
        exact ⟨List.append_assoc _ _ _, hfits, hpages⟩
      · rintro ⟨rfl, -, hpages⟩
        refine ⟨left, ?_, (hnext left).mpr ⟨rfl, hpages⟩⟩
        rw [List.append_assoc]
        rfl
    · constructor
      · rintro ⟨list', -, hfollows⟩
        exact absurd hfollows (not_follows (query_unfit hfits _))
      · rintro ⟨-, hfits', -⟩
        exact absurd hfits' hfits

theorem Ready.plain_query (h : Ready rows idField accepts planSort sort matched) :
    query rows idField (basePlan accepts planSort) =
      .ok ⟨listing sort matched, none, false, (listing sort matched).length⟩ :=
  h.query_eq none rfl

/-- The pages from the first on. -/
theorem Ready.follows_all (h : Ready rows idField accepts planSort sort matched)
    (limits : Nat → Limit) :
    Follows rows idField (basePlan accepts planSort) limits none (listing sort matched) ↔
      PagesFit sort limits (listing sort matched) := by
  have hfirst : ∀ limit, query rows idField (pagePlan (basePlan accepts planSort) limit none) =
      limitRows sort (listing sort matched) (some limit) :=
    fun limit => h.query_eq (some limit) rfl
  rw [h.follows_iff (List.nil_append _).symm hfirst]
  exact ⟨fun hpages => hpages.2, fun hpages => ⟨rfl, hpages⟩⟩

/-- What a plain query went through. -/
theorem query_eq_ok {result : QueryResult}
    (h : query rows idField (basePlan accepts planSort) = .ok result) :
    ∃ matched sort, filterRows (basePlan accepts planSort) rows = .ok matched ∧
      sortWithStableId planSort idField = .ok sort ∧ ∀ row ∈ matched, Sortable sort row := by
  rw [query, Except.bind_eq_ok] at h
  obtain ⟨plan, hplan, h⟩ := h
  have hparts : plan.sort = planSort ∧ plan.accepts = accepts := by
    rw [normalizeStoreQueryPlan, Except.bind_eq_ok] at hplan
    obtain ⟨cursor, hcursor, hplan⟩ := hplan
    cases hcursor
    rw [Option.isSome_none, Bool.and_false, if_neg Bool.false_ne_true, Except.bind_eq_ok] at hplan
    obtain ⟨safeSort, hsafe, hplan⟩ := hplan
    cases sanitize_eq_ok hsafe
    cases hplan
    exact ⟨rfl, rfl⟩
  rw [Except.bind_eq_ok] at h
  obtain ⟨matched, hmatched, h⟩ := h
  rw [Except.bind_eq_ok] at h
  obtain ⟨sort, hsort, h⟩ := h
  rw [Except.bind_eq_ok] at h
  obtain ⟨sorted, hsorted, -⟩ := h
  rw [sortMemoryRows, Except.bind_eq_ok] at hsorted
  obtain ⟨prepared, hprepared, hsorted⟩ := hsorted
  rw [Except.bind_eq_ok] at hsorted
  obtain ⟨source, hsource, -⟩ := hsorted
  rw [filterRows, hparts.2] at hmatched
  rw [hparts.1] at hsort
  exact ⟨matched, sort, hmatched, hsort, ((sortEntries_eq_ok hprepared).mp hsource).1⟩

end

/-! ## All pages together -/

theorem Collection.distinct {idField : Units} (collection : Collection idField)
    {sort : List CursorSort} (hid : ∃ entry ∈ sort, entry.field = idField) :
    Distinct sort collection.rows := by
  have hids := collection.nodup
  rw [List.Nodup, List.pairwise_map] at hids
  rw [Distinct, Collection.rows, List.pairwise_map]
  refine hids.imp_of_mem fun {a b} ha hb hne => ?_
  exact rowOrder_ne_eq hid (collection.hasId a ha) (collection.hasId b hb) hne

theorem Collection.ready {idField : Units} (collection : Collection idField)
    {accepts : Value → Except CursorError Bool} {planSort sort : List CursorSort}
    {matched : List Value} (hfilter : filterRows (basePlan accepts planSort) collection.rows = .ok matched)
    (hstable : sortWithStableId planSort idField = .ok sort)
    (hsortable : ∀ row ∈ matched, Sortable sort row) :
    Ready collection.rows idField accepts planSort sort matched where
  stable := hstable
  filter := hfilter
  sortable := hsortable
  distinct := (collection.distinct (stable_sort hstable).2).sublist (selectRows_sublist hfilter)

theorem pageable_of_complete {idField : Units} (collection : Collection idField)
    {accepts : Value → Except CursorError Bool} {planSort : List CursorSort} {limits : Nat → Limit}
    (h : Complete collection.rows idField (basePlan accepts planSort) limits) :
    Pageable collection.rows idField (basePlan accepts planSort) limits := by
  obtain ⟨all, _, hquery, -, -, hfollows⟩ := h
  obtain ⟨matched, sort, hfilter, hstable, hsortable⟩ := query_eq_ok hquery
  have hready := collection.ready hfilter hstable hsortable
  cases hready.plain_query.symm.trans hquery
  exact ⟨matched, sort, hfilter, hstable, hsortable, (hready.follows_all limits).mp hfollows⟩

/-- A client that follows the cursors sees every matching row once, in the order of the query without
limit, exactly when the cursors fit. -/
theorem complete_iff_pageable {idField : Units} (collection : Collection idField)
    (accepts : Value → Except CursorError Bool) (planSort : List CursorSort) (limits : Nat → Limit) :
    Complete collection.rows idField (basePlan accepts planSort) limits ↔
      Pageable collection.rows idField (basePlan accepts planSort) limits := by
  constructor
  · exact pageable_of_complete collection
  · rintro ⟨matched, sort, hfilter, hstable, hsortable, hpages⟩
    have hready := collection.ready hfilter hstable hsortable
    exact ⟨_, matched, hready.plain_query, hfilter, listing_perm sort matched,
      (hready.follows_all limits).mpr hpages⟩

/-- Two rows with titles of 7000 characters. -/
def longTitle : Units := List.replicate 7000 97

def longRow (id : JsNumber) : Value :=
  .object [(ofString "id", .data (.number id)), (ofString "title", .data (.string longTitle))]

def idOne : JsNumber := .finite one

def idTwo : JsNumber := .finite ⟨((2 : Int) : ℚ), Binary64.nearest_intCast (by decide)⟩

theorem longRow_hasId {id : JsNumber} (hid : EntityIds.assertSafeEntityId (.number id) = .ok ()) :
    HasId (ofString "id") (longRow id) (.number id) where
  field := rfl
  safe := hid

theorem longRow_title (id : JsNumber) : keyAt (ofString "title") (longRow id) = .string longTitle :=
  keyAt_string rfl

theorem idOne_ne_idTwo : idOne ≠ idTwo := by
  intro h
  have hvalue := congrArg toRat h
  exact absurd hvalue (by decide)

def longRows : Collection (ofString "id") where
  entries := [(.number idOne, longRow idOne), (.number idTwo, longRow idTwo)]
  hasId := by
    rw [List.forall_mem_cons, List.forall_mem_singleton]
    exact ⟨longRow_hasId rfl, longRow_hasId rfl⟩
  nodup := by
    rw [List.map_cons, List.map_cons, List.map_nil, List.nodup_cons, List.mem_singleton]
    exact ⟨fun h => idOne_ne_idTwo (EntityIds.EntityId.number.inj h), List.nodup_singleton _⟩

theorem longRow_unfit {id : JsNumber} {sort : List CursorSort} {direction : SortDirection}
    (h : ⟨ofString "title", direction⟩ ∈ sort) : ¬ CursorFits sort (longRow id) := by
  intro hfits
  have hkey : Comparable.string longTitle ∈ keysAt sort (longRow id) :=
    List.mem_map.mpr ⟨_, h, longRow_title id⟩
  have hlength := @length_cursorBytes_ge sort _ _ hkey
  rw [longTitle, List.length_replicate] at hlength
  rw [CursorFits, ← keysAt] at hfits
  omega

/-- The store does not take the cursor after the first title. -/
theorem long_titles_incomplete :
    ¬ Complete longRows.rows (ofString "id")
      (basePlan (fun _ => .ok true) [⟨ofString "title", .asc⟩]) fun _ => ⟨1, by decide⟩ := by
  intro h
  obtain ⟨matched, sort, hfilter, hstable, -, hpages⟩ := pageable_of_complete longRows h
  obtain ⟨-, -, hsort⟩ := sortWithStableId_eq_ok.mp hstable
  have htitle : ⟨ofString "title", .asc⟩ ∈ sort := by
    rw [hsort]
    exact List.mem_cons_self
  have hmatched : matched = longRows.rows := by
    rw [filterRows, @selectRows_eq _ _ fun _ => true] at hfilter
    · cases hfilter
      exact List.filter_true _
    · exact fun row _ => rfl
  have hlength : (listing sort matched).length = 2 := by
    rw [(listing_perm sort matched).length_eq, hmatched]
    rfl
  have hfirst : 0 < (listing sort matched).length := by omega
  obtain ⟨row, hrow⟩ : ∃ row, (listing sort matched)[0]? = some row :=
    ⟨_, List.getElem?_eq_getElem hfirst⟩
  have hmem := (listing_perm sort matched).mem_iff.mp (List.mem_of_getElem? hrow)
  have hfits := hpages 0 row (by rw [hlength]; exact Nat.one_lt_two) hrow
  rw [hmatched] at hmem
  rcases List.mem_cons.mp hmem with hrow | hmem
  · rw [hrow] at hfits
    exact longRow_unfit htitle hfits
  · rw [List.mem_singleton.mp hmem] at hfits
    exact longRow_unfit htitle hfits

end ActiveTs.MemoryStore.Pages
