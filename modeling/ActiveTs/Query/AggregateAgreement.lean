import ActiveTs.Query.AggregateOrder

/-! # The two ways to aggregate agree

The stored values are in an order that decoding keeps, weakly where two texts stand for one date, so the
decoded winner of the loop over stored rows and the winner of the loop over decoded rows are equal in the
order, in whatever order the rows come. -/

namespace ActiveTs.Query

open Utf16 (Units ofString encode)
open Cursors (isFinite toRat)
open KeyOrder (sign directed)
open ComparableAggregateValue

/-! ## Stored and decoded values -/

section
variable {dates : DateParser} {model : ResolvedModelMeta}

/-- A comparable value of a stored field, and of the field decoded. -/
inductive StoredComparable (dates : DateParser) :
    FieldType → ComparableAggregateValue → ComparableAggregateValue → Prop
  | number (value : JsNumber) (finite : isFinite value = true) :
      StoredComparable dates .number (.number value finite) (.number value finite)
  | string (value : Units) : StoredComparable dates .string (.string value) (.string value)
  | date {value : Units} {time : JsDate.Time} (hstored : StoredDate value time)
      (hread : normalizeDateRuntimeValue dates (.string value) = .ok time) :
      StoredComparable dates .date (.string value) (.date time)

def decodeComparable (dates : DateParser) (type : FieldType) (c : ComparableAggregateValue) :
    ComparableAggregateValue :=
  if type = .date then
    match normalizeDateRuntimeValue dates c.data with
    | .ok time => .date time
    | .error _ => c
  else c

theorem StoredComparable.decode {type : FieldType} {c c' : ComparableAggregateValue}
    (h : StoredComparable dates type c c') : decodeComparable dates type c = c' := by
  cases h with
  | number value finite => rfl
  | string value => rfl
  | date hstored hread =>
    rw [decodeComparable, if_pos rfl]
    change (match normalizeDateRuntimeValue dates (.string _) with
      | .ok time => ComparableAggregateValue.date time
      | .error _ => _) = _
    rw [hread]

def kindOf : FieldType → Nat
  | .number => 0
  | _ => 1

def decodedKindOf : FieldType → Nat
  | .number => 0
  | .date => 2
  | _ => 1

theorem StoredComparable.kinds {type : FieldType} {c c' : ComparableAggregateValue}
    (h : StoredComparable dates type c c') : c.kind = kindOf type ∧ c'.kind = decodedKindOf type := by
  cases h <;> exact ⟨rfl, rfl⟩

/-- Decoding keeps the order, where two texts are of one date only weakly. -/
theorem StoredComparable.mono {type : FieldType} {a a' b b' : ComparableAggregateValue}
    (ha : StoredComparable dates type a a') (hb : StoredComparable dates type b b')
    (h : (a.order b).isLE = true) : (a'.order b').isLE = true := by
  cases ha with
  | number value finite =>
    cases hb
    exact h
  | string value =>
    cases hb
    exact h
  | date hstored hread =>
    cases hb with
    | date hstored' hread' =>
      have hle := hstored.mono hstored' h
      rw [order_date, Ordering.isLE_iff_ne_gt]
      intro hgt
      have hlt := Int.cast_lt.mp (compare_gt_iff_gt.mp hgt)
      omega

/-- The result of a stored winner is the decoded one. -/
theorem StoredComparable.normalize {type : FieldType} {c c' : ComparableAggregateValue}
    (h : StoredComparable dates type c c') (as field : Units) :
    normalizeMinMaxResultValue dates as field type c = .ok c' ∧
      normalizeMinMaxResultValue dates as field type c' = .ok c' := by
  cases h with
  | number value finite => exact ⟨rfl, rfl⟩
  | string value => exact ⟨rfl, rfl⟩
  | @date value time hstored hread =>
    constructor
    · rw [normalizeMinMaxResultValue, if_pos rfl]
      change ((normalizeDateRuntimeValue dates (.string value)).mapError AggregateError.fieldType).map _ = _
      rw [hread]
      rfl
    · rw [normalizeMinMaxResultValue, if_pos rfl]
      change ((assertValidDate (some time)).mapError AggregateError.fieldType).map _ = _
      rw [assertValidDate_eq_ok.mpr ⟨rfl, hstored.portable⟩]
      rfl

/-- A field of a row and of what a read makes of the row. -/
def DecodesAt (dates : DateParser) (field : Units) (type : FieldType) (row row' : Data) : Prop :=
  ∃ value value', valueFor row field = .ok value ∧ valueFor row' field = .ok value' ∧
    Decodes dates type value value'

theorem DecodesAt.cases {as field : Units} {type : FieldType} {row row' : Data}
    (h : DecodesAt dates field type row row') (hboolean : type ≠ .boolean) :
    (∃ value, valueFor row field = .ok value ∧ valueFor row' field = .ok value ∧ value.missing = true) ∨
      ∃ value value' c c', valueFor row field = .ok value ∧ valueFor row' field = .ok value' ∧
        value.missing = false ∧ value'.missing = false ∧ comparableValue as field value = .ok c ∧
        comparableValue as field value' = .ok c' ∧ StoredComparable dates type c c' := by
  obtain ⟨value, value', hvalue, hvalue', hdecodes⟩ := h
  cases hdecodes with
  | missing hmissing => exact Or.inl ⟨value, hvalue, hvalue', hmissing⟩
  | string text =>
    exact Or.inr ⟨_, _, _, _, hvalue, hvalue', rfl, rfl, rfl, rfl, .string text⟩
  | boolean b => exact absurd rfl hboolean
  | number n hfinite =>
    exact Or.inr ⟨_, _, _, _, hvalue, hvalue', rfl, rfl, dif_pos hfinite, dif_pos hfinite,
      .number n hfinite⟩
  | date hdate hstored =>
    obtain ⟨time, hstored', hread⟩ := normalizeDateRuntimeValue_stored hdate
    have htime := hstored.unique hstored'
    subst htime
    exact Or.inr ⟨_, _, _, _, hvalue, hvalue', rfl, rfl, rfl, rfl, .date hstored hread⟩

theorem DecodesAt.comparable {as field : Units} {type : FieldType} {row row' : Data}
    (h : DecodesAt dates field type row row') (hboolean : type ≠ .boolean) :
    comparableAt as field row' = (comparableAt as field row).map (decodeComparable dates type) ∧
      ∀ c, comparableAt as field row = some c →
        StoredComparable dates type c (decodeComparable dates type c) := by
  rcases h.cases hboolean with ⟨value, hvalue, hvalue', hmissing⟩ |
    ⟨value, value', c, c', hvalue, hvalue', hpresent, hpresent', hc, hc', hstored⟩
  · have hnone : comparableAt as field row = none := by
      rw [comparableAt, hvalue]
      exact if_pos hmissing
    have hnone' : comparableAt as field row' = none := by
      rw [comparableAt, hvalue']
      exact if_pos hmissing
    rw [hnone, hnone']
    refine ⟨rfl, fun c h => ?_⟩
    cases h
  · have hsome : comparableAt as field row = some c := by
      rw [comparableAt, hvalue]
      change (if value.missing then none else (comparableValue as field value).toOption) = _
      rw [hpresent, hc]
      rfl
    have hsome' : comparableAt as field row' = some c' := by
      rw [comparableAt, hvalue']
      change (if value'.missing then none else (comparableValue as field value').toOption) = _
      rw [hpresent', hc']
      rfl
    rw [hsome, hsome', Option.map_some, hstored.decode]
    refine ⟨rfl, fun d hd => ?_⟩
    cases hd
    rwa [hstored.decode]

theorem comparables_decoded {as field : Units} {type : FieldType} {rows decoded : List Data}
    (h : List.Forall₂ (DecodesAt dates field type) rows decoded) (hboolean : type ≠ .boolean) :
    decoded.filterMap (comparableAt as field) =
        (rows.filterMap (comparableAt as field)).map (decodeComparable dates type) ∧
      ∀ c ∈ rows.filterMap (comparableAt as field),
        StoredComparable dates type c (decodeComparable dates type c) := by
  induction h with
  | nil =>
    refine ⟨rfl, fun c hc => ?_⟩
    cases hc
  | @cons row row' rows decoded hrow _ ih =>
    obtain ⟨heq, hstored⟩ := @DecodesAt.comparable dates as field type row row' hrow hboolean
    rw [List.filterMap_cons, List.filterMap_cons, heq]
    cases hcomparable : comparableAt as field row with
    | none => exact ih
    | some c =>
      refine ⟨?_, List.forall_mem_cons.mpr ⟨hstored c hcomparable, ih.2⟩⟩
      rw [List.map_cons, ← ih.1]
      rfl

/-- The rows that the loop of `extremeFrom` can go over. -/
theorem uniform_of_decodes {as field : Units} {type : FieldType} {rows decoded : List Data}
    (h : List.Forall₂ (DecodesAt dates field type) rows decoded) (hboolean : type ≠ .boolean) :
    (∀ row ∈ rows, ∃ value, valueFor row field = .ok value ∧ (value.missing = true ∨
      value.missing = false ∧ ∃ c, comparableValue as field value = .ok c ∧ c.kind = kindOf type)) ∧
    ∀ row ∈ decoded, ∃ value, valueFor row field = .ok value ∧ (value.missing = true ∨
      value.missing = false ∧
        ∃ c, comparableValue as field value = .ok c ∧ c.kind = decodedKindOf type) := by
  induction h with
  | nil =>
    constructor
    · intro row hrow
      cases hrow
    · intro row hrow
      cases hrow
  | @cons row row' rows decoded hrow _ ih =>
    rw [List.forall_mem_cons, List.forall_mem_cons]
    rcases @DecodesAt.cases dates as field type row row' hrow hboolean with
      ⟨value, hvalue, hvalue', hmissing⟩ |
      ⟨value, value', c, c', hvalue, hvalue', hpresent, hpresent', hc, hc', hstored⟩
    · exact ⟨⟨⟨value, hvalue, Or.inl hmissing⟩, ih.1⟩, ⟨value, hvalue', Or.inl hmissing⟩, ih.2⟩
    · exact ⟨⟨⟨value, hvalue, Or.inr ⟨hpresent, c, hc, hstored.kinds.1⟩⟩, ih.1⟩,
        ⟨value', hvalue', Or.inr ⟨hpresent', c', hc', hstored.kinds.2⟩⟩, ih.2⟩

/-! ## One spec -/

theorem mono_direction {descending : Bool} {type : FieldType} {a a' b b' : ComparableAggregateValue}
    (ha : StoredComparable dates type a a') (hb : StoredComparable dates type b b')
    (h : (direction descending a b).isLE = true) : (direction descending a' b').isLE = true := by
  cases descending with
  | false => exact ha.mono hb h
  | true =>
    have hswap (x y : ComparableAggregateValue) : direction true x y = y.order x :=
      Std.OrientedCmp.eq_swap.symm
    rw [hswap] at h ⊢
    exact hb.mono ha h

theorem normalizeValue_extreme {spec : AggregateSpec} {field : Units} {type : FieldType}
    (hspec : spec.field? = some field) (hdeclared : fieldTypeFor model field = some type)
    (value : ComparableAggregateValue) :
    normalizeValue dates model spec (.value value) =
      (normalizeMinMaxResultValue dates spec.as field type value).map .value := by
  simp only [normalizeValue, hspec, hdeclared]

/-- What both ways give for `min` or `max`, before and after the field types. -/
theorem extreme_agrees {spec : AggregateSpec} {field : Units} {type : FieldType}
    (hspec : spec.field? = some field) (hdeclared : fieldTypeFor model field = some type)
    (hboolean : type ≠ .boolean) {rows sorted decoded : List Data} (hperm : sorted.Perm rows)
    (hdecodes : List.Forall₂ (DecodesAt dates field type) sorted decoded) {better : Int → Bool}
    {descending : Bool} (hbetter : ∀ n, better n = true ↔ directed descending (sign n) = .lt) :
    ∃ raw raw', extremeFrom spec.as field better none rows = .ok raw ∧
      extremeFrom spec.as field better none decoded = .ok raw' ∧
      (normalizeValue dates model spec (resultValue raw)).map AggregateValue.withoutSign =
        (normalizeValue dates model spec (resultValue raw')).map AggregateValue.withoutSign := by
  obtain ⟨hrows, hdecoded⟩ := @uniform_of_decodes dates spec.as field type _ _ hdecodes hboolean
  obtain ⟨hmap, hstored⟩ := @comparables_decoded dates spec.as field type _ _ hdecodes hboolean
  refine ⟨_, _, extremeFrom_eq hbetter (fun best h => (by cases h))
      fun row hrow => hrows row (hperm.symm.subset hrow),
    extremeFrom_eq hbetter (fun best h => (by cases h)) hdecoded, ?_⟩
  have hcomparables : (decoded.filterMap (comparableAt spec.as field)).Perm
      ((rows.filterMap (comparableAt spec.as field)).map (decodeComparable dates type)) := by
    rw [hmap]
    exact (hperm.filterMap _).map _
  have hstored' : ∀ c ∈ rows.filterMap (comparableAt spec.as field),
      StoredComparable dates type c (decodeComparable dates type c) := by
    intro c hc
    exact hstored c ((hperm.filterMap _).symm.subset hc)
  rcases @Extremes.least_map_perm _ _ (direction descending) _ (direction descending) _ _ _ _ hcomparables
      fun a ha b hb hab => mono_direction (hstored' a ha) (hstored' b hb) hab with
    ⟨hnone, hnone'⟩ | ⟨m, hm, m', hm', hleast, hleast', heq⟩
  · rw [Extremes.least] at hnone hnone'
    rw [hnone, hnone']
  · rw [Extremes.least] at hleast hleast'
    rw [hleast, hleast', resultValue, resultValue, normalizeValue_extreme hspec hdeclared,
      normalizeValue_extreme hspec hdeclared, ((hstored' m hm).normalize spec.as field).1]
    obtain ⟨b, hb, rfl⟩ := List.mem_map.mp (hcomparables.subset hm')
    rw [((hstored' b hb).normalize spec.as field).2]
    exact congrArg Except.ok (withoutSign_of_order (KeyOrder.directed_eq_iff.mp heq))

/-- Both ways on one spec. -/
theorem spec_agrees {spec : AggregateSpec} (hcompatible : assertSpecCompatible model spec = .ok ())
    {rows sorted decoded : List Data} (hperm : sorted.Perm rows) (hlength : sorted.length = decoded.length)
    (hdecodes : ∀ field, spec.field? = some field → ∃ type, fieldTypeFor model field = some type ∧
      List.Forall₂ (DecodesAt dates field type) sorted decoded) :
    ∃ raw raw', aggregateSpec rows spec = .ok raw ∧ aggregateSpec decoded spec = .ok raw' ∧
      (normalizeValue dates model spec raw).map AggregateValue.withoutSign =
        (normalizeValue dates model spec raw').map AggregateValue.withoutSign := by
  have hboolean : ∀ field type, spec.field? = some field → fieldTypeFor model field = some type →
      type ≠ .boolean := by
    rintro field type hfield htype rfl
    rw [assertSpecCompatible, hfield, Option.bind_some, htype, if_pos rfl] at hcompatible
    cases hcompatible
  cases spec with
  | count as =>
    refine ⟨_, _, rfl, rfl, ?_⟩
    rw [← hlength, hperm.length_eq]
  | min as field =>
    obtain ⟨type, htype, hall⟩ := hdecodes field rfl
    obtain ⟨raw, raw', hraw, hraw', heq⟩ := @extreme_agrees dates model (.min as field) field type rfl
      htype (hboolean field type rfl htype) _ _ _ hperm hall _ _ better_min
    refine ⟨_, _, ?_, ?_, heq⟩
    · exact Except.map_eq_ok.mpr ⟨raw, hraw, rfl⟩
    · exact Except.map_eq_ok.mpr ⟨raw', hraw', rfl⟩
  | max as field =>
    obtain ⟨type, htype, hall⟩ := hdecodes field rfl
    obtain ⟨raw, raw', hraw, hraw', heq⟩ := @extreme_agrees dates model (.max as field) field type rfl
      htype (hboolean field type rfl htype) _ _ _ hperm hall _ _ better_max
    refine ⟨_, _, ?_, ?_, heq⟩
    · exact Except.map_eq_ok.mpr ⟨raw, hraw, rfl⟩
    · exact Except.map_eq_ok.mpr ⟨raw', hraw', rfl⟩

/-! ## All specs -/

theorem map_mapM_cons {as : Units} {x : Except AggregateError AggregateValue}
    {rest : Except AggregateError AggregateResult} :
    ((x.map (as, ·)) >>= fun entry => rest >>= fun entries => .ok (entry :: entries)).map withoutSigns =
      x.map AggregateValue.withoutSign >>= fun value => (rest.map withoutSigns).map ((as, value) :: ·) := by
  cases x with
  | error e => rfl
  | ok value => cases rest <;> rfl

theorem specs_agree {rows decoded : List Data} {specs : List AggregateSpec}
    (h : ∀ spec ∈ specs, ∃ raw raw', aggregateSpec rows spec = .ok raw ∧
      aggregateSpec decoded spec = .ok raw' ∧
      (normalizeValue dates model spec raw).map AggregateValue.withoutSign =
        (normalizeValue dates model spec raw').map AggregateValue.withoutSign) :
    ∃ result result',
      (specs.mapM fun spec => (aggregateSpec rows spec).map (spec.as, ·)) = .ok result ∧
      (specs.mapM fun spec => (aggregateSpec decoded spec).map (spec.as, ·)) = .ok result' ∧
      ((specs.zip result).mapM fun entry =>
        (normalizeValue dates model entry.1 entry.2.2).map (entry.2.1, ·)).map withoutSigns =
      ((specs.zip result').mapM fun entry =>
        (normalizeValue dates model entry.1 entry.2.2).map (entry.2.1, ·)).map withoutSigns := by
  induction specs with
  | nil => exact ⟨[], [], rfl, rfl, rfl⟩
  | cons spec specs ih =>
    rw [List.forall_mem_cons] at h
    obtain ⟨⟨raw, raw', hraw, hraw', heq⟩, hrest⟩ := h
    obtain ⟨result, result', hresult, hresult', hall⟩ := ih hrest
    refine ⟨(spec.as, raw) :: result, (spec.as, raw') :: result', ?_, ?_, ?_⟩
    · rw [List.mapM_cons, hraw, hresult]
      rfl
    · rw [List.mapM_cons, hraw', hresult']
      rfl
    · rw [List.zip_cons_cons, List.zip_cons_cons, List.mapM_cons, List.mapM_cons]
      refine map_mapM_cons.trans ?_
      rw [heq, hall]
      exact map_mapM_cons.symm

/-! ## Stored rows -/

/-- What `comparable` takes as an id. -/
inductive IsId : Data → Prop
  | string (value : Units) : IsId (.string value)
  | number (value : JsNumber) (h : isFinite value = true) : IsId (.number value)

/-- A row of the store: it has its id, and values of the declared types. -/
structure StoredRow (dates : DateParser) (model : ResolvedModelMeta) (row : Row) : Prop where
  id : ∃ id, valueFor (.object row) model.idField = .ok id ∧ IsId id
  values : ∀ entry ∈ model.fieldTypes, ∃ value, valueFor (.object row) entry.1 = .ok value ∧
    Stored dates entry.2 value

theorem StoredRow.idKey {row : Row} (h : StoredRow dates model row) :
    ∃ key, idKey model row = .ok key := by
  obtain ⟨id, hid, hcase⟩ := h.id
  rw [Query.idKey, hid]
  cases hcase with
  | string value => exact ⟨.string value, rfl⟩
  | number value hfinite =>
    refine ⟨.number value hfinite, ?_⟩
    change (Cursors.comparableNumber value).mapError AggregateError.sort = _
    rw [Cursors.comparableNumber, dif_pos hfinite]
    rfl

theorem sortMemoryRows_perm {rows : List Row} (h : ∀ row ∈ rows, StoredRow dates model row) :
    ∃ sorted, sortMemoryRows model rows = .ok sorted ∧ sorted.Perm rows := by
  have hkeys : ∀ row ∈ rows, ∃ entry, (idKey model row).map (row, ·) = .ok entry ∧ entry.1 = row := by
    intro row hrow
    obtain ⟨key, hkey⟩ := (h row hrow).idKey
    exact ⟨(row, key), Except.map_eq_ok.mpr ⟨key, hkey, rfl⟩, rfl⟩
  obtain ⟨keyed, hkeyed, hall⟩ := Except.mapM_of_forall hkeys
  have hfirst : keyed.map Prod.fst = rows := by
    clear hkeyed
    induction hall with
    | nil => rfl
    | @cons row entry rows keyed hentry _ ih =>
      rw [List.forall_mem_cons] at h hkeys
      rw [List.map_cons, hentry, ih h.2 hkeys.2]
  rw [sortMemoryRows, hkeyed]
  exact ⟨_, rfl, hfirst ▸ (MergeSort.sort_perm keyed).map Prod.fst⟩

theorem mem_fields {entry : Units × FieldType} (h : entry ∈ model.fieldTypes) :
    entry.1 ∈ model.fields :=
  List.mem_cons_of_mem _ (List.mem_map.mpr ⟨entry, h, rfl⟩)

theorem StoredRow.values_fields {row : Row} (h : StoredRow dates model row) :
    ∀ field ∈ model.fields, ∃ value, valueFor (.object row) field = .ok value := by
  intro field hfield
  rcases List.mem_cons.mp hfield with rfl | hfield
  · obtain ⟨id, hid, -⟩ := h.id
    exact ⟨id, hid⟩
  · obtain ⟨entry, hentry, rfl⟩ := List.mem_map.mp hfield
    obtain ⟨value, hvalue, -⟩ := h.values entry hentry
    exact ⟨value, hvalue⟩

theorem validateRead_eq {row row' : Row} (h : applyFieldTypeTransforms dates model.fieldTypes row = .ok row') :
    validateRead dates model row = .ok row' := by
  rw [validateRead, h]
  rfl

/-- A whole row is decoded. -/
theorem StoredRow.read {row : Row} (h : StoredRow dates model row) (hopens : Opens model.fieldTypes row) :
    ∃ row', validateRead dates model row = .ok row' ∧ ∀ entry ∈ model.fieldTypes,
      DecodesAt dates entry.1 entry.2 (.object row) (.object row') := by
  obtain ⟨row', hrow', hdecodes, -⟩ := @applyFieldTypeTransforms_decodes dates model model.fieldTypes row
    (fun entry => mem_fields) model.nodup h.values hopens
  exact ⟨row', validateRead_eq hrow', hdecodes⟩

/-- Some fields of a row are picked and decoded. -/
theorem StoredRow.read_picked {row : Row} (h : StoredRow dates model row) {fields : List Units}
    (hfields : ∀ field ∈ fields, field ∈ model.fields) :
    ∃ picked, pickFields (.object row) fields model.idField = .ok picked ∧
      ∃ row', validateRead dates model picked = .ok row' ∧ ∀ entry ∈ model.fieldTypes, entry.1 ∈ fields →
        DecodesAt dates entry.1 entry.2 (.object row) (.object row') := by
  obtain ⟨picked, done, hpick, hpicked, hdone, -⟩ := pickFields_picked hfields h.values_fields
  have hstored : ∀ entry ∈ model.fieldTypes, ∃ value, valueFor (.object picked) entry.1 = .ok value ∧
      Stored dates entry.2 value := by
    intro entry hentry
    by_cases hmem : entry.1 ∈ done
    · rw [hpicked.got entry.1 hmem]
      exact h.values entry hentry
    · exact ⟨.undefined, hpicked.rest entry.1 (mem_fields hentry) hmem, .missing rfl⟩
  obtain ⟨row', hrow', hdecodes, -⟩ := @applyFieldTypeTransforms_decodes dates model model.fieldTypes picked
    (fun entry => mem_fields) model.nodup hstored
    fun field hfield _ _ _ => hpicked.reach field (mem_fields hfield)
  refine ⟨picked, hpick, row', validateRead_eq hrow', fun entry hentry hmem => ?_⟩
  obtain ⟨value, value', hvalue, hvalue', hdecoded⟩ := hdecodes entry hentry
  rw [hpicked.got entry.1 (hdone entry.1 (List.mem_cons_of_mem _ hmem))] at hvalue
  exact ⟨value, value', hvalue, hvalue', hdecoded⟩

/-! ## The fallback reads every row -/

/-- The fields that the specs aggregate. -/
def specFields (specs : List AggregateSpec) : List Units :=
  (specs.filterMap AggregateSpec.field?).eraseDups

theorem mem_specFields {specs : List AggregateSpec} {field : Units} :
    field ∈ specFields specs ↔ ∃ spec ∈ specs, spec.field? = some field := by
  rw [specFields, List.mem_eraseDups, List.mem_filterMap]

variable {V : Type} [DecidableEq V] {ops : Operands Row V} {rows : List Row} {plan : Plan V}
  {specs : List AggregateSpec}

/-- What the fallback reads: a row for every row that the filter keeps, in some order. -/
theorem exists_decoded (hrows : ∀ row ∈ rows, StoredRow dates model row)
    (hspecs : ∀ field ∈ specFields specs, field ∈ model.fieldTypes.map Prod.fst)
    (hopens : specFields specs = [] → ∀ row ∈ rows, Opens model.fieldTypes row) :
    ∃ sorted list decoded, queryRows ops model rows plan (selectOf model specs) = .ok list ∧
      list.mapM (validateRead dates model) = .ok decoded ∧ sorted.Perm (filtered ops rows plan) ∧
      List.Forall₂ (fun row row' => ∀ entry ∈ model.fieldTypes, entry.1 ∈ specFields specs →
        DecodesAt dates entry.1 entry.2 (.object row) (.object row')) sorted decoded := by
  have hfiltered : ∀ row ∈ filtered ops rows plan, row ∈ rows :=
    fun row hrow => (List.mem_filter.mp hrow).1
  obtain ⟨sorted, hsorted, hperm⟩ := sortMemoryRows_perm
    fun row hrow => hrows row (hfiltered row hrow)
  have hstored : ∀ row ∈ sorted, StoredRow dates model row :=
    fun row hrow => hrows row (hfiltered row (hperm.subset hrow))
  rw [queryRows, hsorted]
  by_cases hnil : specFields specs = []
  · rw [show selectOf model specs = none from if_pos hnil]
    have hread : ∀ row ∈ sorted, ∃ row', validateRead dates model row = .ok row' ∧
        ∀ entry ∈ model.fieldTypes, entry.1 ∈ specFields specs →
          DecodesAt dates entry.1 entry.2 (.object row) (.object row') := by
      intro row hrow
      obtain ⟨row', hrow', hdecodes⟩ := (hstored row hrow).read
        (hopens hnil row (hfiltered row (hperm.subset hrow)))
      exact ⟨row', hrow', fun entry hentry _ => hdecodes entry hentry⟩
    obtain ⟨decoded, hdecoded, hall⟩ := Except.mapM_of_forall hread
    exact ⟨sorted, sorted, decoded, rfl, hdecoded, hperm, hall⟩
  · rw [show selectOf model specs = some (withIdField (specFields specs) model.idField) from if_neg hnil]
    have hfields : ∀ field ∈ withIdField (specFields specs) model.idField, field ∈ model.fields := by
      intro field hfield
      rw [withIdField, List.mem_eraseDups] at hfield
      rcases List.mem_cons.mp hfield with rfl | hfield
      · exact List.mem_cons_self
      · exact List.mem_cons_of_mem _ (hspecs field hfield)
    have hselected : ∀ field ∈ specFields specs, field ∈ withIdField (specFields specs) model.idField := by
      intro field hfield
      rw [withIdField, List.mem_eraseDups]
      exact List.mem_cons_of_mem _ hfield
    have hpick : ∀ row ∈ sorted, ∃ picked,
        (pickFields (.object row) (withIdField (specFields specs) model.idField)
          model.idField).mapError AggregateError.data = .ok picked ∧
        ∃ row', validateRead dates model picked = .ok row' ∧ ∀ entry ∈ model.fieldTypes,
          entry.1 ∈ specFields specs → DecodesAt dates entry.1 entry.2 (.object row) (.object row') := by
      intro row hrow
      obtain ⟨picked, hpicked, row', hrow', hdecodes⟩ := (hstored row hrow).read_picked hfields
      refine ⟨picked, ?_, row', hrow', fun entry hentry hmem => hdecodes entry hentry (hselected _ hmem)⟩
      rw [hpicked]
      rfl
    obtain ⟨list, hlist, hall⟩ := Except.mapM_of_forall hpick
    have hread : ∃ decoded, list.mapM (validateRead dates model) = .ok decoded ∧
        List.Forall₂ (fun row row' => ∀ entry ∈ model.fieldTypes, entry.1 ∈ specFields specs →
          DecodesAt dates entry.1 entry.2 (.object row) (.object row')) sorted decoded := by
      clear hlist hpick hstored hsorted hperm
      induction hall with
      | nil => exact ⟨[], rfl, .nil⟩
      | @cons row picked sorted list hrow _ ih =>
        obtain ⟨row', hrow', hdecodes⟩ := hrow
        obtain ⟨decoded, hdecoded, hall⟩ := ih
        refine ⟨row' :: decoded, ?_, .cons hdecodes hall⟩
        rw [List.mapM_cons, hrow', hdecoded]
        rfl
    obtain ⟨decoded, hdecoded, hall'⟩ := hread
    exact ⟨sorted, list, decoded, hlist, hdecoded, hperm, hall'⟩

/-! ## Both ways agree -/

theorem compatible_of_ok {specs safeSpecs : List AggregateSpec}
    (h : assertAggregateSpecsCompatibleWithModel model specs = .ok safeSpecs) :
    safeSpecs = specs ∧ validateAggregateSpecs specs = .ok specs ∧
      ∀ spec ∈ specs, assertSpecCompatible model spec = .ok () := by
  rw [assertAggregateSpecsCompatibleWithModel] at h
  obtain ⟨specs', hvalidate, hrest⟩ := Except.bind_eq_ok.mp h
  obtain ⟨⟨⟩, hforM, hok⟩ := Except.bind_eq_ok.mp hrest
  have hsame : specs' = specs := by
    rw [validateAggregateSpecs] at hvalidate
    obtain ⟨-, -, heq⟩ := Except.bind_eq_ok.mp hvalidate
    exact (Except.ok.inj heq).symm
  subst hsame
  exact ⟨(Except.ok.inj hok).symm, hvalidate, Except.forM_eq_ok.mp hforM⟩

theorem fallback_agrees_with_native (dates : DateParser) (model : ResolvedModelMeta)
    (ops : Operands Row V) (rows : List Row) (plan : Plan V) (specs : List AggregateSpec)
    (hrows : ∀ row ∈ rows, StoredRow dates model row)
    (hspecs : ∀ field ∈ specFields specs, field ∈ model.fieldTypes.map Prod.fst)
    (hopens : specFields specs = [] → ∀ row ∈ rows, Opens model.fieldTypes row) :
    (fallbackAggregate ops dates model rows plan specs).map withoutSigns =
      (nativeAggregate ops dates model rows plan specs).map withoutSigns := by
  rw [fallbackAggregate, nativeAggregate]
  cases hcompatible : assertAggregateSpecsCompatibleWithModel model specs with
  | error e => rfl
  | ok safeSpecs =>
    obtain ⟨rfl, hvalidate, hspec⟩ := compatible_of_ok hcompatible
    obtain ⟨sorted, list, decoded, hquery, hread, hperm, hall⟩ := @exists_decoded dates model V _ ops
      rows plan safeSpecs hrows hspecs hopens
    have hlength := hall.length_eq
    obtain ⟨raw, raw', hraw, hraw', heq⟩ := @specs_agree dates model
      ((filtered ops rows plan).map .object) (decoded.map .object) safeSpecs (by
        intro spec hmem
        refine spec_agrees (hspec spec hmem) (hperm.map Data.object)
          (by rw [List.length_map, List.length_map, hlength]) ?_
        intro field hfield
        have hfieldMem := mem_specFields.mpr ⟨spec, hmem, hfield⟩
        obtain ⟨⟨field', type⟩, hentry, rfl⟩ := List.mem_map.mp (hspecs field hfieldMem)
        refine ⟨type, JsMap.lookup_of_mem model.nodup hentry, ?_⟩
        rw [List.forall₂_map_left_iff, List.forall₂_map_right_iff]
        exact hall.imp fun row row' h => h (field', type) hentry hfieldMem)
    have hnative : storeAggregate ops model rows plan safeSpecs = .ok raw := by
      rw [storeAggregate, hcompatible]
      change aggregateRows _ _ = _
      rw [aggregateRows, hvalidate]
      exact hraw
    have hfallback : aggregateRows (decoded.map .object) safeSpecs = .ok raw' := by
      rw [aggregateRows, hvalidate]
      exact hraw'
    change ((queryRows ops model rows plan (selectOf model safeSpecs)) >>= fun list =>
      list.mapM (validateRead dates model) >>= fun rows => aggregateRows (rows.map .object) safeSpecs >>=
        fun result => normalizeAggregateFieldTypes dates model safeSpecs result).map withoutSigns =
      (storeAggregate ops model rows plan safeSpecs >>= fun result =>
        normalizeAggregateFieldTypes dates model safeSpecs result).map withoutSigns
    rw [hnative, hquery]
    change (list.mapM (validateRead dates model) >>= fun rows => aggregateRows (rows.map .object) safeSpecs >>=
        fun result => normalizeAggregateFieldTypes dates model safeSpecs result).map withoutSigns = _
    rw [hread]
    change (aggregateRows (decoded.map .object) safeSpecs >>=
        fun result => normalizeAggregateFieldTypes dates model safeSpecs result).map withoutSigns =
      (normalizeAggregateFieldTypes dates model safeSpecs raw).map withoutSigns
    rw [hfallback]
    change (normalizeAggregateFieldTypes dates model safeSpecs raw').map withoutSigns = _
    rw [normalizeAggregateFieldTypes, normalizeAggregateFieldTypes, hvalidate]
    exact heq.symm

end

/-! ## Where they differ -/

/-- A parser that reads canonical texts only. -/
def canonicalDates : DateParser where
  parse := fun text => JsDate.readCanonical (Utf16.decode text)
  parse_isoString := by
    intro time htime
    rw [Utf16.decode_encode, JsDate.readCanonical_isoString htime]

/-- For plans without entries. -/
def noOperands : Operands Row Units where
  undefined := []
  null := []
  valueFor := fun _ _ => []
  strictEqual := fun _ _ => false
  compareRangeValues := fun _ _ => none
  arrayIncludesValue := fun _ _ => false
  textContainsValue := fun _ _ => false
  jsonContains := fun _ _ => false
  startsWith := fun _ _ => false
  portableScalar := fun _ => false
  inOperand := fun _ => false
  rangeOperand := fun _ => false
  sameKind := fun _ _ => false
  isString := fun _ => false
  jsonOperand := fun _ => false

def scoreModel : ResolvedModelMeta where
  idField := ofString "id"
  fieldTypes := [(ofString "score", .number), (ofString "day", .date)]
  nodup := by decide
  safe := by decide
  noOverlap := by decide

def scoreRow (id : String) (score : JsNumber) : Row :=
  [(ofString "id", .string (ofString id)), (ofString "score", .number score)]

/-- A zero, and a negative zero with an id in front of it. -/
def zeroRows : List Row := [scoreRow "b" positiveZero, scoreRow "a" .negativeZero]

def leastScore : List AggregateSpec := [.min (ofString "least") (ofString "score")]

def dayModel : ResolvedModelMeta where
  idField := ofString "id"
  fieldTypes := [(ofString "days.0", .date)]
  nodup := by decide
  safe := by decide
  noOverlap := by decide

def dayRow : Row :=
  [(ofString "id", .string (ofString "a")), (ofString "days", .array [.string (ofString "2024-01-01")])]

def countRows : List AggregateSpec := [.count (ofString "rows")]

theorem zeroRows_stored : ∀ row ∈ zeroRows, StoredRow canonicalDates scoreModel row := by
  have hrow (id : String) (score : JsNumber) (hscore : isFinite score = true) :
      StoredRow canonicalDates scoreModel (scoreRow id score) := by
    refine { id := ⟨_, rfl, .string (ofString id)⟩, values := ?_ }
    refine List.forall_mem_cons.mpr ⟨⟨_, rfl, .number score hscore⟩, ?_⟩
    exact List.forall_mem_singleton.mpr ⟨_, rfl, .missing rfl⟩
  exact List.forall_mem_cons.mpr ⟨hrow "b" positiveZero rfl,
    List.forall_mem_singleton.mpr (hrow "a" .negativeZero rfl)⟩

theorem dayRow_stored : StoredRow canonicalDates dayModel dayRow where
  id := ⟨_, rfl, .string _⟩
  values := List.forall_mem_singleton.mpr ⟨_, rfl, .date rfl⟩

/-- Of two zeros each way keeps the one that it meets first; and only the fallback decodes rows that it
counts, which fails where a date lies in an array. -/
theorem zeros_and_arrays_differ :
    ((∀ row ∈ zeroRows, StoredRow canonicalDates scoreModel row) ∧
      nativeAggregate noOperands canonicalDates scoreModel zeroRows (.node [] []) leastScore =
        .ok [(ofString "least", .value (.number positiveZero rfl))] ∧
      fallbackAggregate noOperands canonicalDates scoreModel zeroRows (.node [] []) leastScore =
        .ok [(ofString "least", .value (.number .negativeZero rfl))]) ∧
    (StoredRow canonicalDates dayModel dayRow ∧
      nativeAggregate noOperands canonicalDates dayModel [dayRow] (.node [] []) countRows =
        .ok [(ofString "rows", .count 1)] ∧
      fallbackAggregate noOperands canonicalDates dayModel [dayRow] (.node [] []) countRows =
        .error (.fieldType (.data (.notPlainObject (ofString "days"))))) := by
  have hsort : sortMemoryRows scoreModel (filtered noOperands zeroRows (.node [] [])) =
      .ok zeroRows.reverse := by
    rw [sortMemoryRows]
    change Except.ok ((MergeSort.sort _ [(_, _), (_, _)]).map Prod.fst) = _
    rw [MergeSort.sort_pair]
    rfl
  refine ⟨⟨zeroRows_stored, rfl, ?_⟩, dayRow_stored, rfl, rfl⟩
  simp only [fallbackAggregate, queryRows, hsort]
  rfl

theorem fallback_agrees_with_native_zeros :
    (fallbackAggregate noOperands canonicalDates scoreModel zeroRows (.node [] []) leastScore).map
        withoutSigns =
      .ok [(ofString "least", .value (.number positiveZero rfl))] :=
  fallback_agrees_with_native canonicalDates scoreModel noOperands zeroRows (.node [] []) leastScore
    zeroRows_stored (by decide) (fun h => absurd h (by decide))

end ActiveTs.Query
