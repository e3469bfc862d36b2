import ActiveTs.Lib.MergeSort

/-! # Merging between two buffers

The merge sort as loops over positions: a pass merges the runs of one buffer into another one, and
then the buffers change their places. What the other buffer had before is overwritten, and no position
is read that has no item. -/

namespace MergeBuffers

/-- An array of JavaScript. A position that was skipped has no item. -/
abbrev Buffer (α : Type) := List (Option α)

variable {α : Type} (le : α → α → Bool)

def Buffer.read (buffer : Buffer α) (position : Nat) : Option α := (buffer[position]?).join

/-- Behind the end the array grows. -/
def Buffer.write (buffer : Buffer α) (position : Nat) (item : Option α) : Buffer α :=
  if position < buffer.length then buffer.set position item
  else buffer ++ List.replicate (position - buffer.length) none ++ [item]

/-- Whether the next item comes from the left run. A comparison without an item throws. -/
def takesLeft (source : Buffer α) (left middle right stop : Nat) : Option Bool :=
  if left < middle then
    if stop ≤ right then some true
    else do
      let a ← source.read left
      let b ← source.read right
      some (le a b)
  else some false

/-- The loop over the output positions, for so many turns. -/
def mergeLoop (source : Buffer α) (middle stop : Nat) :
    Nat → Nat → Nat → Nat → Buffer α → Option (Buffer α)
  | 0, _, _, _, target => some target
  | turns + 1, output, left, right, target => do
    if ← takesLeft le source left middle right stop then
      mergeLoop source middle stop turns (output + 1) (left + 1) right
        (target.write output (source.read left))
    else
      mergeLoop source middle stop turns (output + 1) left (right + 1)
        (target.write output (source.read right))

/-- The loop over the starts of the pairs of runs. Every turn goes further, so that the length bounds
the turns. -/
def passLoop (source : Buffer α) (width : Nat) : Nat → Nat → Buffer α → Option (Buffer α)
  | 0, _, target => some target
  | fuel + 1, start, target =>
    if start < source.length then do
      let middle := min (start + width) source.length
      let stop := min (start + width * 2) source.length
      let target ← mergeLoop le source middle stop (stop - start) start start middle target
      passLoop source width fuel (start + width * 2) target
    else some target

/-- The loop over the widths. -/
def widthLoop : Nat → Nat → Buffer α → Buffer α → Option (Buffer α)
  | 0, _, source, _ => some source
  | fuel + 1, width, source, target =>
    if width < source.length then do
      let merged ← passLoop le source width source.length 0 target
      widthLoop fuel (width * 2) merged source
    else some source

/-- The items of the last source. -/
def sort (list : List α) : Option (List α) := do
  let sorted ← widthLoop le list.length 1 (list.map some) []
  sorted.mapM id

variable {le}

/-! ## Buffers -/

theorem read_map {list : List α} {position : Nat} (h : position < list.length) :
    Buffer.read (list.map some) position = some (list.get ⟨position, h⟩) := by
  rw [Buffer.read, List.getElem?_map, List.getElem?_eq_getElem h]
  rfl

/-- Inside of the buffer and at its end only this position changes. -/
theorem write_eq {buffer : Buffer α} {position : Nat} (h : position ≤ buffer.length) (item : Option α) :
    buffer.write position item = buffer.take position ++ item :: buffer.drop (position + 1) := by
  rw [Buffer.write]
  split
  · next hlt => rw [List.set_eq_take_append_cons_drop, if_pos hlt]
  · next hge =>
    obtain rfl : position = buffer.length := Nat.le_antisymm h (Nat.not_lt.mp hge)
    rw [Nat.sub_self, List.replicate_zero, List.append_nil, List.take_length,
      List.drop_eq_nil_of_le (Nat.le_succ _)]

theorem length_write {buffer : Buffer α} {position : Nat} (h : position ≤ buffer.length)
    (item : Option α) : position + 1 ≤ (buffer.write position item).length := by
  rw [write_eq h, List.length_append, List.length_take, Nat.min_eq_left h, List.length_cons]
  omega

theorem take_write {buffer : Buffer α} {position : Nat} (h : position ≤ buffer.length)
    (item : Option α) : (buffer.write position item).take (position + 1) = buffer.take position ++ [item] := by
  rw [write_eq h, List.take_append, List.take_of_length_le, List.length_take, Nat.min_eq_left h,
    Nat.add_sub_cancel_left, List.take_succ_cons, List.take_zero]
  rw [List.length_take]
  omega

theorem drop_write {buffer : Buffer α} {position : Nat} (h : position ≤ buffer.length)
    (item : Option α) (n : Nat) :
    (buffer.write position item).drop (position + 1 + n) = buffer.drop (position + 1 + n) := by
  rw [write_eq h, List.drop_append, List.drop_eq_nil_of_le, List.nil_append, List.length_take,
    Nat.min_eq_left h, Nat.add_assoc, Nat.add_sub_cancel_left, Nat.add_comm 1 n, List.drop_succ_cons,
    List.drop_drop]
  · congr 1
    omega
  · rw [List.length_take]
    omega

/-! ## One merge -/

/-- The items from one position up to another. -/
def segment (list : List α) (start stop : Nat) : List α := (list.take stop).drop start

theorem segment_cons {list : List α} {start stop : Nat} (h : start < stop) (hstop : stop ≤ list.length) :
    segment list start stop = list.get ⟨start, Nat.lt_of_lt_of_le h hstop⟩ :: segment list (start + 1) stop := by
  rw [segment, List.drop_eq_getElem_cons (by rw [List.length_take]; omega), List.getElem_take]
  rfl

theorem segment_nil {list : List α} {start stop : Nat} (h : stop ≤ start) : segment list start stop = [] := by
  apply List.drop_eq_nil_of_le
  rw [List.length_take]
  omega

/-- What a merge leaves in the target: the items are put at the output, and the rest stays. -/
def placed (target : Buffer α) (output : Nat) (items : List α) : Buffer α :=
  target.take output ++ items.map some ++ target.drop (output + items.length)

theorem placed_nil (target : Buffer α) (output : Nat) : placed target output [] = target := by
  rw [placed, List.map_nil, List.append_nil]
  exact List.take_append_drop output target

theorem placed_write {target : Buffer α} {output : Nat} (h : output ≤ target.length) (item : α)
    (items : List α) :
    placed (target.write output (some item)) (output + 1) items = placed target output (item :: items) := by
  rw [placed, take_write h, drop_write h, placed, List.map_cons, List.length_cons,
    Nat.add_right_comm output 1, List.append_assoc (target.take output), List.singleton_append]
  rfl

/-- The induction is on the turns that are left: each moves one item from the runs to the target. -/
theorem mergeLoop_eq {list : List α} {turns output left right middle stop : Nat} {target : Buffer α}
    (hmiddle : middle ≤ list.length) (hstop : stop ≤ list.length)
    (hturns : turns = (middle - left) + (stop - right)) (houtput : output ≤ target.length) :
    mergeLoop le (list.map some) middle stop turns output left right target =
      some (placed target output
        (List.merge (segment list left middle) (segment list right stop) le)) := by
  induction turns generalizing output left right target with
  | zero =>
    rw [segment_nil (show middle ≤ left by omega), segment_nil (show stop ≤ right by omega),
      List.nil_merge, placed_nil]
    rfl
  | succ turns ih =>
    rw [mergeLoop, takesLeft]
    by_cases hleft : left < middle
    · have hread := read_map (Nat.lt_of_lt_of_le hleft hmiddle)
      have htake := @ih (output + 1) (left + 1) right _ (by omega)
        (length_write houtput (some (list.get ⟨left, Nat.lt_of_lt_of_le hleft hmiddle⟩)))
      rw [placed_write houtput] at htake
      rw [if_pos hleft, segment_cons hleft hmiddle]
      by_cases hright : right < stop
      · have hread' := read_map (Nat.lt_of_lt_of_le hright hstop)
        have htake' := @ih (output + 1) left (right + 1) _ (by omega)
          (length_write houtput (some (list.get ⟨right, Nat.lt_of_lt_of_le hright hstop⟩)))
        rw [placed_write houtput, segment_cons hleft hmiddle] at htake'
        rw [segment_cons hright hstop] at htake ⊢
        rw [if_neg (Nat.not_le.mpr hright), hread, hread', List.cons_merge_cons]
        simp only [Option.bind_eq_bind, Option.bind_some]
        split
        · exact htake
        · exact htake'
      · rw [segment_nil (Nat.not_lt.mp hright), List.merge_right] at htake ⊢
        rw [if_pos (Nat.not_lt.mp hright), hread]
        exact htake
    · have hright : right < stop := by omega
      have hread' := read_map (Nat.lt_of_lt_of_le hright hstop)
      have htake' := @ih (output + 1) left (right + 1) _ (by omega)
        (length_write houtput (some (list.get ⟨right, Nat.lt_of_lt_of_le hright hstop⟩)))
      rw [placed_write houtput, segment_nil (Nat.not_lt.mp hleft), List.nil_merge] at htake'
      rw [if_neg hleft, segment_nil (Nat.not_lt.mp hleft), segment_cons hright hstop, List.nil_merge,
        hread']
      exact htake'

/-! ## One pass -/

variable (le) in
/-- The pair of runs from a start, merged. -/
def mergedPair (list : List α) (start width : Nat) : List α :=
  List.merge (segment list start (min (start + width) list.length))
    (segment list (min (start + width) list.length) (min (start + width * 2) list.length)) le

theorem length_mergedPair {list : List α} {start width : Nat} (h : start < list.length) :
    start + (mergedPair le list start width).length = min (start + width * 2) list.length := by
  simp only [mergedPair, List.length_merge, segment, List.length_drop, List.length_take]
  omega

theorem pass_mergedPair {list : List α} {start width : Nat} (hwidth : 0 < width) (h : start < list.length) :
    MergeSort.pass le width (list.drop start) =
      mergedPair le list start width ++ MergeSort.pass le width (list.drop (start + width * 2)) := by
  have hfirst : segment list start (min (start + width) list.length) = (list.drop start).take width := by
    rw [segment, ← List.take_eq_take_min, List.drop_take, Nat.add_sub_cancel_left]
  have hsecond : segment list (min (start + width) list.length) (min (start + width * 2) list.length) =
      ((list.drop start).drop width).take width := by
    rw [List.drop_drop]
    by_cases hlong : start + width ≤ list.length
    · rw [Nat.min_eq_left hlong, segment, ← List.take_eq_take_min, List.drop_take]
      congr 1
      omega
    · rw [segment_nil (by omega), List.drop_eq_nil_of_le (by omega), List.take_nil]
  have hmore : ¬(width = 0 ∨ list.drop start = []) := by
    rintro (hzero | hnil)
    · omega
    · have hlength := congrArg List.length hnil
      rw [List.length_drop, List.length_nil] at hlength
      omega
  rw [MergeSort.pass, if_neg hmore, mergedPair, hfirst, hsecond, List.drop_drop, List.drop_drop,
    Nat.mul_comm width 2]

theorem length_placed {target : Buffer α} {output : Nat} (h : output ≤ target.length) (items : List α) :
    (placed target output items).length = max target.length (output + items.length) := by
  rw [placed, List.length_append, List.length_append, List.length_take, List.length_map,
    List.length_drop, Nat.min_eq_left h]
  omega

/-- Items that are put one after the other. -/
theorem placed_placed {target : Buffer α} {output : Nat} (h : output ≤ target.length)
    (items items' : List α) :
    placed (placed target output items) (output + items.length) items' =
      placed target output (items ++ items') := by
  have hlength : (target.take output ++ items.map some).length = output + items.length := by
    rw [List.length_append, List.length_take, List.length_map, Nat.min_eq_left h]
  rw [placed, placed, ← hlength, List.take_left', List.drop_append, List.drop_eq_nil_of_le, hlength,
    placed, List.map_append, List.length_append]
  · simp only [List.nil_append, List.append_assoc, List.drop_drop]
    congr 4
    omega
  · omega
  · rfl

theorem placed_done {list : List α} {width start : Nat} (h : list.length ≤ start) (target : Buffer α)
    (output : Nat) : placed target output (MergeSort.pass le width (list.drop start)) = target := by
  rw [List.drop_eq_nil_of_le h, MergeSort.pass, if_pos (Or.inr rfl), placed_nil]

/-- The induction is on the bound of the turns. What is left of the list goes to the target from the
start on. -/
theorem passLoop_eq {list : List α} {width : Nat} (hwidth : 0 < width) {fuel start : Nat}
    {target : Buffer α} (hfuel : list.length ≤ fuel + start) (hstart : min start list.length ≤ target.length) :
    passLoop le (list.map some) width fuel start target =
      some (placed target (min start list.length) (MergeSort.pass le width (list.drop start))) := by
  induction fuel generalizing start target with
  | zero =>
    rw [placed_done (by omega)]
    rfl
  | succ fuel ih =>
    simp only [passLoop, List.length_map]
    split
    · next hlt =>
      rw [Nat.min_eq_left (Nat.le_of_lt hlt)] at hstart ⊢
      have hmerge : mergeLoop le (list.map some) (min (start + width) list.length)
          (min (start + width * 2) list.length) (min (start + width * 2) list.length - start) start start
          (min (start + width) list.length) target =
          some (placed target start (mergedPair le list start width)) :=
        mergeLoop_eq (Nat.min_le_right ..) (Nat.min_le_right ..) (by omega) hstart
      have hlength := @length_mergedPair _ le list start width hlt
      have hrest := @ih (start + width * 2) (placed target start (mergedPair le list start width))
        (by omega) (by rw [length_placed hstart]; omega)
      rw [← hlength, placed_placed hstart, ← pass_mergedPair hwidth hlt] at hrest
      rw [hmerge]
      exact hrest
    · next hge => rw [placed_done (Nat.not_lt.mp hge)]

/-- A pass over the whole source fills the target, whatever it had before. -/
theorem passLoop_all {list : List α} {width : Nat} (hwidth : 0 < width) {target : Buffer α}
    (htarget : target.length ≤ list.length) :
    passLoop le (list.map some) width list.length 0 target =
      some ((MergeSort.pass le width list).map some) := by
  rw [passLoop_eq hwidth (Nat.le_refl _) (by omega), Nat.zero_min, placed, List.take_zero, List.drop_zero,
    List.drop_eq_nil_of_le, List.append_nil, List.nil_append]
  rw [(MergeSort.pass_perm width list).length_eq]
  omega

/-! ## The whole sort -/

theorem widthLoop_eq {fuel width : Nat} (hwidth : 0 < width) {list : List α} {target : Buffer α}
    (htarget : target.length ≤ list.length) :
    widthLoop le fuel width (list.map some) target =
      some ((MergeSort.loop le fuel width list).map some) := by
  induction fuel generalizing width list target with
  | zero => rfl
  | succ fuel ih =>
    simp only [widthLoop, MergeSort.loop, List.length_map]
    split
    · rw [passLoop_all hwidth htarget, Nat.mul_comm width 2]
      have hlength : (list.map some).length = (MergeSort.pass le width list).length := by
        rw [List.length_map, (MergeSort.pass_perm width list).length_eq]
      exact ih (by omega) (Nat.le_of_eq hlength)
    · rfl

theorem sort_eq (list : List α) : sort le list = some (MergeSort.sort le list) := by
  rw [sort, widthLoop_eq Nat.one_pos (Nat.zero_le _)]
  change ((MergeSort.sort le list).map some).mapM id = _
  induction MergeSort.sort le list with
  | nil => rfl
  | cons a list ih =>
    rw [List.map_cons, List.mapM_cons, ih]
    rfl

/-- More turns change nothing: the width passes the length before they run out. -/
theorem widthLoop_fuel {fuel width : Nat} (hwidth : 0 < width) {list : List α} {target : Buffer α}
    (htarget : target.length ≤ list.length) (hfuel : list.length ≤ fuel + width) (more : Nat) :
    widthLoop le (fuel + more) width (list.map some) target =
      widthLoop le fuel width (list.map some) target := by
  rw [widthLoop_eq hwidth htarget, widthLoop_eq hwidth htarget, MergeSort.loop_fuel hwidth hfuel]

end MergeBuffers
