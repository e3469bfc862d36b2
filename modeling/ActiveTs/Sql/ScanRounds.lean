import ActiveTs.Sql.PostgresLexer
import Mathlib.Data.List.TakeWhile

/-! # A scan passes the tokens of the server

A scan of the guard passes a token in one or more rounds, as long as it reads the backslashes of a literal
by the rule of the server. Words stay as they are, literals and comments turn into white space. -/

namespace ActiveTs.Sql.NativeSql

open Utf16 (Units ofString)
open PostgresLexer

/-! ## Bodies -/

theorem consumed_eq_some {front : Units} {body : Option (Units × Units)} {passed rest : Units} :
    consumed front body = some (passed, rest) ↔
      ∃ tail, body = some (tail, rest) ∧ passed = front ++ tail := by
  cases body with
  | none => simp [consumed]
  | some body =>
    obtain ⟨tail, others⟩ := body
    simp only [consumed, Option.map_some, Option.some.injEq, Prod.mk.injEq, eq_comm]
    constructor
    · rintro ⟨rfl, rfl⟩
      exact ⟨tail, ⟨rfl, rfl⟩, rfl⟩
    · rintro ⟨_, ⟨rfl, rfl⟩, rfl⟩
      exact ⟨rfl, rfl⟩

theorem blockComment_of_commentBody {depth : Nat} {text body rest : Units}
    (h : commentBody depth text = some (body, rest)) : blockComment depth text = (body, rest) := by
  fun_induction commentBody depth text generalizing body with
  | case1 text =>
    cases h
    rw [blockComment]
  | case2 => cases h
  | case3 => cases h
  | case4 depth first second others hopen ih =>
    obtain ⟨tail, htail, rfl⟩ := consumed_eq_some.mp h
    rw [blockComment, if_pos hopen, ih htail]
    rfl
  | case5 depth first second others hopen hclose ih =>
    obtain ⟨tail, htail, rfl⟩ := consumed_eq_some.mp h
    rw [blockComment, if_neg hopen, if_pos hclose, ih htail]
    rfl
  | case6 depth first second others hopen hclose ih =>
    obtain ⟨tail, htail, rfl⟩ := consumed_eq_some.mp h
    rw [blockComment, if_neg hopen, if_neg hclose, ih htail]
    rfl

theorem commentBody_append {depth : Nat} {text body rest : Units}
    (h : commentBody depth text = some (body, rest)) : text = body ++ rest := by
  fun_induction commentBody depth text generalizing body with
  | case1 text =>
    cases h
    rfl
  | case2 => cases h
  | case3 => cases h
  | case4 depth first second others hopen ih =>
    obtain ⟨tail, htail, rfl⟩ := consumed_eq_some.mp h
    rw [ih htail]
    rfl
  | case5 depth first second others hopen hclose ih =>
    obtain ⟨tail, htail, rfl⟩ := consumed_eq_some.mp h
    rw [ih htail]
    rfl
  | case6 depth first second others hopen hclose ih =>
    obtain ⟨tail, htail, rfl⟩ := consumed_eq_some.mp h
    rw [ih htail]
    rfl

theorem delimited_append {mark : Fin 65536} {escapes : Bool} {text body rest : Units}
    (h : delimited mark escapes text = some (body, rest)) : text = body ++ rest := by
  fun_induction delimited mark escapes text generalizing body with
  | case1 => cases h
  | case2 =>
    cases h
    rfl
  | case3 => cases h
  | case4 current next others hescape ih =>
    obtain ⟨tail, htail, rfl⟩ := consumed_eq_some.mp h
    rw [ih htail]
    rfl
  | case5 others hescape ih =>
    obtain ⟨tail, htail, rfl⟩ := consumed_eq_some.mp h
    rw [ih htail]
    rfl
  | case6 =>
    cases h
    rfl
  | case7 current next others hescape hmark ih =>
    obtain ⟨tail, htail, rfl⟩ := consumed_eq_some.mp h
    rw [ih htail]
    rfl

/-- Where no backslash stands, the rule of the backslash does not matter. -/
theorem quoted_of_delimited {mark : Fin 65536} {escapes rule : Bool} {text body rest : Units}
    (h : delimited mark escapes text = some (body, rest)) (hrule : rule = escapes ∨ backslash ∉ body)
    (hmark : mark ≠ backslash) : quoted mark rule text = (body, rest) := by
  fun_induction delimited mark escapes text generalizing body with
  | case1 => cases h
  | case2 =>
    cases h
    rfl
  | case3 => cases h
  | case4 current next others hescape ih =>
    obtain ⟨tail, htail, rfl⟩ := consumed_eq_some.mp h
    obtain ⟨hescapes, hbackslash⟩ := Bool.and_eq_true_iff.mp hescape
    rcases hrule with rfl | hfree
    · rw [quoted, if_pos (by simp [hescape]), ih htail (.inl rfl)]
      rfl
    · exact absurd (by simp [of_decide_eq_true hbackslash]) hfree
  | case5 others hescape ih =>
    obtain ⟨tail, htail, rfl⟩ := consumed_eq_some.mp h
    have hrest : rule = escapes ∨ backslash ∉ tail := hrule.imp_right fun hfree hmem =>
      hfree (List.mem_append_right _ hmem)
    rw [quoted, if_pos (by simp), ih htail hrest]
    rfl
  | case6 next others hnext hescape =>
    cases h
    rw [quoted, if_neg (by simp [hmark, hnext]), if_pos rfl]
  | case7 current next others hescape hclose ih =>
    obtain ⟨tail, htail, rfl⟩ := consumed_eq_some.mp h
    have hrest : rule = escapes ∨ backslash ∉ tail := hrule.imp_right fun hfree hmem =>
      hfree (List.mem_append_right _ hmem)
    have hplain : ¬((rule && current = backslash) || (current = mark && next = mark)) = true := by
      rcases hrule with rfl | hfree
      · simp [hescape, hclose]
      · have hcurrent : current ≠ backslash := fun heq => hfree (by simp [heq])
        simp [hcurrent, hclose]
    rw [quoted, if_neg hplain, if_neg hclose, ih htail hrest]
    rfl

theorem untilTag_of_dollarBody {tag text body rest : Units}
    (h : dollarBody tag text = some (body, rest)) : untilTag tag text = (body, rest) := by
  induction text generalizing body with
  | nil => cases h
  | cons unit others ih =>
    rw [dollarBody] at h
    by_cases htag : tag.isPrefixOf (unit :: others) = true
    · rw [if_pos htag] at h
      rw [untilTag, if_pos htag, ← Option.some.inj h]
    · rw [if_neg htag] at h
      obtain ⟨tail, htail, rfl⟩ := consumed_eq_some.mp h
      rw [untilTag, if_neg htag, ih htail]
      rfl

theorem dollarBody_append {tag text body rest : Units}
    (h : dollarBody tag text = some (body, rest)) : text = body ++ rest := by
  induction text generalizing body with
  | nil => cases h
  | cons unit others ih =>
    rw [dollarBody] at h
    split at h
    · next htag =>
      cases h
      exact (List.prefix_iff_eq_append.mp (List.isPrefixOf_iff_prefix.mp htag)).symm
    · obtain ⟨tail, htail, rfl⟩ := consumed_eq_some.mp h
      rw [ih htail]
      rfl

theorem dollarTag_eq (rest : Units) : dollarTag rest = dollarDelimiter rest := by
  unfold dollarTag dollarDelimiter
  by_cases hdollar : rest.head? = some dollar
  · rw [if_pos hdollar, if_pos hdollar]
  · rw [if_neg hdollar, if_neg hdollar]
    cases hstart : rest.head?.any tagStart with
    | false => 
      have : rest.head?.any identStart = false := hstart
      simp [this]
    | true =>
      have : rest.head?.any identStart = true := hstart
      simp [this]
      rfl

/-! ## Rounds -/

theorem blockComment_length (depth : Nat) (text : Units) :
    (blockComment depth text).2.length ≤ text.length := by
  fun_induction blockComment depth text with
  | case1 => exact Nat.le_refl _
  | case2 => exact Nat.le_refl _
  | case3 => exact Nat.zero_le _
  | case4 depth first second rest hopen passed ih => exact Nat.le_add_right_of_le (Nat.le_succ_of_le ih)
  | case5 depth first second rest hopen hclose passed ih =>
    exact Nat.le_add_right_of_le (Nat.le_succ_of_le ih)
  | case6 depth first second rest hopen hclose passed ih => exact Nat.le_succ_of_le ih

theorem quoted_length (mark : Fin 65536) (rule : Bool) (text : Units) :
    (quoted mark rule text).2.length ≤ text.length := by
  fun_induction quoted mark rule text with
  | case1 => exact Nat.le_refl _
  | case2 => exact Nat.zero_le _
  | case3 current next rest hpair passed ih => exact Nat.le_add_right_of_le (Nat.le_succ_of_le ih)
  | case4 => exact Nat.le_succ _
  | case5 current next rest hpair hmark passed ih => exact Nat.le_succ_of_le ih

theorem untilTag_length (tag text : Units) : (untilTag tag text).2.length ≤ text.length := by
  induction text with
  | nil => exact Nat.le_refl _
  | cons unit rest ih =>
    rw [untilTag]
    split
    · exact (List.drop_sublist _ _).length_le
    · exact Nat.le_succ_of_le ih

theorem scan_length (legacy : Bool) (done : Units) (unit : Fin 65536) (rest : Units) :
    (scan legacy done unit rest).2.2.length ≤ rest.length := by
  have htail : rest.tail.length ≤ rest.length := by simp
  unfold scan
  split
  · simp only [lineComment, List.span_eq_takeWhile_dropWhile]
    exact Nat.le_trans (List.dropWhile_sublist _).length_le htail
  · split
    · exact Nat.le_trans (blockComment_length 1 rest.tail) htail
    · split
      · exact quoted_length _ _ _
      · split
        · split
          · exact Nat.le_trans (untilTag_length _ _) (List.drop_sublist _ _).length_le
          · exact Nat.le_refl _
        · exact Nat.le_refl _

theorem stripFrom_fuel (legacy : Bool) {fuel other : Nat} (done : Units) {text : Units}
    (h : text.length ≤ fuel) (hother : text.length ≤ other) :
    stripFrom legacy fuel done text = stripFrom legacy other done text := by
  induction fuel generalizing other done text with
  | zero =>
    rw [List.length_eq_zero_iff.mp (Nat.le_zero.mp h)]
    cases other <;> rfl
  | succ fuel ih =>
    cases text with
    | nil => cases other <;> rfl
    | cons unit rest =>
      cases other with
      | zero => cases hother
      | succ other =>
        have hlength := scan_length legacy done unit rest
        rw [stripFrom, stripFrom, ih _ (Nat.le_trans hlength (Nat.le_of_succ_le_succ h))
          (Nat.le_trans hlength (Nat.le_of_succ_le_succ hother))]

/-- The main loop on the rest of a text. -/
def strip (legacy : Bool) (done text : Units) : Units := stripFrom legacy text.length done text

theorem strip_cons (legacy : Bool) (done : Units) (unit : Fin 65536) (rest : Units) :
    strip legacy done (unit :: rest) =
      (if (scan legacy done unit rest).2.1 then (scan legacy done unit rest).1.map blank
        else (scan legacy done unit rest).1) ++
        strip legacy ((scan legacy done unit rest).1.reverse ++ done)
          (scan legacy done unit rest).2.2 := by
  rw [strip, List.length_cons, stripFrom, strip,
    stripFrom_fuel legacy _ (scan_length legacy done unit rest) (Nat.le_refl _)]

/-- The rounds pass these units and write that text. -/
def Strips (legacy : Bool) (done passed written rest : Units) : Prop :=
  strip legacy done (passed ++ rest) = written ++ strip legacy (passed.reverse ++ done) rest

theorem Strips.nil (legacy : Bool) (done rest : Units) : Strips legacy done [] [] rest := rfl

theorem Strips.append {legacy : Bool} {done first second written written' rest : Units}
    (h : Strips legacy done first written (second ++ rest))
    (h' : Strips legacy (first.reverse ++ done) second written' rest) :
    Strips legacy done (first ++ second) (written ++ written') rest := by
  unfold Strips at *
  rw [List.append_assoc, h, h', List.reverse_append, List.append_assoc, List.append_assoc]

theorem Strips.of_scan {legacy blanked : Bool} {done text passed rest : Units} {unit : Fin 65536}
    (h : scan legacy done unit text = (passed, blanked, rest)) (htext : unit :: text = passed ++ rest) :
    Strips legacy done passed (if blanked then passed.map blank else passed) rest := by
  unfold Strips
  rw [← htext, strip_cons, h]

theorem Strips.copied {legacy : Bool} {done : Units} {unit : Fin 65536} {rest : Units}
    (h : scan legacy done unit rest = ([unit], false, rest)) :
    Strips legacy done [unit] [unit] rest :=
  .of_scan h rfl

theorem Strips.blanked {legacy : Bool} {done text passed rest : Units} {unit : Fin 65536}
    (h : scan legacy done unit text = (passed, true, rest)) (htext : unit :: text = passed ++ rest) :
    Strips legacy done passed (passed.map blank) rest :=
  .of_scan h htext

theorem Strips.cons {legacy : Bool} {done text written rest : Units} {unit : Fin 65536}
    (h : scan legacy done unit (text ++ rest) = ([unit], false, text ++ rest))
    (htext : Strips legacy (unit :: done) text written rest) :
    Strips legacy done (unit :: text) (unit :: written) rest :=
  (Strips.copied h).append htext

/-! ## Tokens -/

/-- A unit of one class is no unit that the class leaves out. -/
theorem ne_of_class {p : Fin 65536 → Bool} {unit other : Fin 65536} (h : p unit = true)
    (hother : p other = false) : unit ≠ other := by
  rintro rfl
  rw [h] at hother
  cases hother

theorem scan_copied {legacy : Bool} {done : Units} {unit : Fin 65536} {rest : Units}
    (hline : ¬(unit = dash && rest.head? = some dash) = true)
    (hblock : ¬(unit = slash && rest.head? = some star) = true) (hquote : unit ≠ quote)
    (hidentifier : unit ≠ doubleQuote)
    (hdollar : unit = dollar → postgresDollarQuoteTag done.head? rest = none) :
    scan legacy done unit rest = ([unit], false, rest) := by
  rw [scan, if_neg hline, if_neg hblock, if_neg (by simp [hquote, hidentifier])]
  split
  · next h => rw [hdollar h]
  · rfl

theorem scan_quoted {legacy escapes : Bool} {mark : Fin 65536} {done text body rest : Units}
    (hmark : mark = quote ∨ mark = doubleQuote) (hbody : delimited mark escapes text = some (body, rest))
    (hrule : (mark = quote && (legacy || escapeStringPrefix done)) = escapes ∨ backslash ∉ body) :
    scan legacy done mark text = (mark :: body, true, rest) := by
  have hdash : mark ≠ dash := by rcases hmark with rfl | rfl <;> decide
  have hslash : mark ≠ slash := by rcases hmark with rfl | rfl <;> decide
  have hbackslash : mark ≠ backslash := by rcases hmark with rfl | rfl <;> decide
  rw [scan, if_neg (by simp [hdash]), if_neg (by simp [hslash]), if_pos (by simpa using hmark),
    quoted_of_delimited hbody hrule hbackslash]

/-- Units of an identifier are copied, a dollar sign among them too. -/
theorem Strips.identifier {legacy : Bool} {done text rest : Units}
    (htext : ∀ unit ∈ text, identifierUnit unit = true)
    (hdone : text.head? = some dollar → done.head?.any identifierUnit = true) :
    Strips legacy done text text rest := by
  induction text generalizing done with
  | nil => exact .nil legacy done rest
  | cons unit text ih =>
    have hunit : identifierUnit unit = true := htext unit List.mem_cons_self
    have hne : ∀ other, identifierUnit other = false → unit ≠ other := by
      intro other hother heq
      rw [heq, hother] at hunit
      cases hunit
    have hscan : scan legacy done unit (text ++ rest) = ([unit], false, text ++ rest) := by
      apply scan_copied
      · simp [hne dash (by decide)]
      · simp [hne slash (by decide)]
      · exact hne quote (by decide)
      · exact hne doubleQuote (by decide)
      · rintro rfl
        exact if_pos (hdone rfl)
    apply Strips.cons hscan
    apply ih
    · exact fun other hother => htext other (List.mem_cons_of_mem unit hother)
    · exact fun _ => hunit

/-- What a scan in step writes for a token. -/
def stripped : Token → Units
  | .white unit => [unit]
  | .lineComment body => (Token.lineComment body).text.map blank
  | .blockComment body => (Token.blockComment body).text.map blank
  | .literal (.escape unit) body => unit :: (quote :: body).map blank
  | .literal kind body => (Token.literal kind body).text.map blank
  | .quotedIdentifier body => (Token.quotedIdentifier body).text.map blank
  | .dollarQuote tag body => (Token.dollarQuote tag body).text.map blank
  | .word text => text
  | .number text => text
  | .parameter digits => dollar :: digits
  | .other unit => [unit]

/-- The scan reads the token as the server does: the backslashes of a literal, and where a dollar quote or
the prefix of a literal begins. -/
def Reads (standardConformingStrings legacy : Bool) (done : Units) : Token → Prop
  | .literal (.escape _) _ => done.head?.any identifierUnit = false
  | .literal kind body => legacy = kind.escapes standardConformingStrings ∨ backslash ∉ body
  | .dollarQuote _ _ => done.head?.any identifierUnit = false
  | _ => True

/-- What stands in front of a quote is not taken for its prefix. -/
def Joint (done rest : Units) : Prop := rest.head? = some quote → escapeStringPrefix done = false

theorem head?_eq_some {unit : Fin 65536} {rest : Units} (h : rest.head? = some unit) :
    rest = unit :: rest.tail := by
  cases rest with
  | nil => cases h
  | cons other rest => rw [Option.some.inj h, List.tail_cons]

theorem dollarDelimiter_append {tag rest : Units} (h : dollarDelimiter rest = some tag) :
    dollar :: rest = tag ++ rest.drop (tag.length - 1) := by
  unfold dollarDelimiter at h
  split_ifs at h with hdollar htag
  · cases h
    rw [head?_eq_some hdollar]
    rfl
  · cases h
    have hdrop := head?_eq_some (of_decide_eq_true (Bool.and_eq_true_iff.mp htag).2)
    have hrest : rest = rest.takeWhile dollarCont ++ dollar :: (rest.dropWhile dollarCont).tail := by
      rw [← hdrop, List.takeWhile_append_dropWhile]
    have htail : rest.drop ((rest.takeWhile dollarCont).length + 1) =
        (rest.dropWhile dollarCont).tail := by
      have hdropped := congrArg (List.drop ((rest.takeWhile dollarCont).length + 1)) hrest
      rwa [List.drop_length_add_append, List.drop_one, List.tail_cons] at hdropped
    simp only [List.length_append, List.length_cons, List.length_nil, Nat.add_sub_cancel, htail]
    rw [List.append_assoc, List.cons_append, List.singleton_append, ← hrest]

theorem nextToken_dollar (scs : Bool) (pending : Pending) (rest : Units) :
    nextToken scs pending dollar rest =
      match dollarDelimiter rest with
      | some tag =>
        (dollarBody tag (rest.drop (tag.length - 1))).map fun body => (.dollarQuote tag body.1, body.2)
      | none =>
        if rest.head?.any digit then some (.parameter (rest.takeWhile digit), rest.dropWhile digit)
        else some (.other dollar, rest) := by
  have hdash : dollar ≠ dash := by decide
  have hslash : dollar ≠ slash := by decide
  have hquote : dollar ≠ quote := by decide
  have hescape : escapePrefix dollar = false := by decide
  have hdoubleQuote : dollar ≠ doubleQuote := by decide
  have hwhite : whiteUnit dollar = false := by decide
  cases htag : dollarDelimiter rest with
  | none =>
    simp only [nextToken, hwhite, hdash, hslash, hquote, hescape, hdoubleQuote, htag, decide_false,
      Bool.false_and, Bool.false_eq_true, if_false, if_true]
  | some tag =>
    simp only [nextToken, hwhite, hdash, hslash, hquote, hescape, hdoubleQuote, htag, decide_false,
      Bool.false_and, Bool.false_eq_true, if_false, if_true]

theorem strips_dollar {scs legacy : Bool} {done : Units} {rest rest' : Units} {token : Token}
    {pending : Pending} (h : nextToken scs pending dollar rest = some (token, rest'))
    (hreads : Reads scs legacy done token) :
    dollar :: rest = token.text ++ rest' ∧ Strips legacy done token.text (stripped token) rest' := by
  have hdash : dollar ≠ dash := by decide
  have hslash : dollar ≠ slash := by decide
  have hquote : dollar ≠ quote := by decide
  have hdoubleQuote : dollar ≠ doubleQuote := by decide
  rw [nextToken_dollar] at h
  have hcopied : dollarDelimiter rest = none →
      scan legacy done dollar rest = ([dollar], false, rest) := by
    intro hnone
    refine scan_copied (by simp [hdash]) (by simp [hslash]) hquote hdoubleQuote fun _ => ?_
    rw [postgresDollarQuoteTag, dollarTag_eq, hnone, ite_self]
  cases htag : dollarDelimiter rest with
  | some tag =>
    rw [htag] at h
    obtain ⟨⟨body, others⟩, hbody, heq⟩ := Option.map_eq_some_iff.mp h
    cases heq
    have hrest : dollar :: rest = (tag ++ body) ++ others := by
      rw [dollarDelimiter_append htag, dollarBody_append hbody, List.append_assoc]
    refine ⟨hrest, Strips.blanked ?_ hrest⟩
    have hgap : done.head?.any identifierUnit = false := hreads
    simp only [scan, hdash, hslash, hquote, hdoubleQuote, decide_false, Bool.false_and, Bool.or_self,
      Bool.false_eq_true, if_false, if_true, postgresDollarQuoteTag, hgap, dollarTag_eq, htag,
      untilTag_of_dollarBody hbody]
    rfl
  | none =>
    rw [htag] at h
    simp only at h
    split at h
    · cases h
      have hdigits : rest.takeWhile digit ++ rest.dropWhile digit = rest :=
        List.takeWhile_append_dropWhile
      refine ⟨?_, Strips.cons ?_ (Strips.identifier (fun unit hunit => ?_) fun _ => rfl)⟩
      · rw [Token.text, List.cons_append, hdigits]
      · rw [hdigits]
        exact hcopied htag
      · have hdigit : digit unit = true := List.mem_takeWhile_imp hunit
        rw [identifierUnit, tagUnit, hdigit, Bool.or_true, Bool.true_or]
    · cases h
      exact ⟨rfl, Strips.copied (hcopied htag)⟩

theorem Pending.kind_ne_escape (pending : Pending) (unit : Fin 65536) :
    Pending.kind pending ≠ .escape unit := by
  intro h
  cases pending with
  | none => cases h
  | some pending =>
    obtain ⟨escapes, ended⟩ := pending
    cases ended <;> cases h

/-- A scan that reads a token as the server does passes it. -/
theorem strips_token {scs legacy : Bool} {pending : Pending} {done : Units} {unit : Fin 65536}
    {rest rest' : Units} {token : Token} (h : nextToken scs pending unit rest = some (token, rest'))
    (hreads : Reads scs legacy done token) (hjoint : Joint done (unit :: rest)) :
    unit :: rest = token.text ++ rest' ∧ Strips legacy done token.text (stripped token) rest' := by
  by_cases hdollar : unit = dollar
  · subst hdollar
    exact strips_dollar h hreads
  unfold nextToken at h
  have hnot : ∀ {p : Fin 65536 → Bool}, p unit = true → ∀ other, p other = false → unit ≠ other :=
    fun hp _ hother => ne_of_class hp hother
  split_ifs at h with hwhite hline hblock hquote hescape hidentifier hword hnumber
  · -- White space.
    cases h
    refine ⟨rfl, Strips.copied (scan_copied ?_ ?_ ?_ ?_ ?_)⟩
    · simp [hnot hwhite dash (by decide)]
    · simp [hnot hwhite slash (by decide)]
    · exact hnot hwhite quote (by decide)
    · exact hnot hwhite doubleQuote (by decide)
    · exact fun heq => absurd heq hdollar
  · -- A line comment.
    cases h
    obtain ⟨hunit, hnext⟩ := Bool.and_eq_true_iff.mp hline
    have hrest := head?_eq_some (of_decide_eq_true hnext)
    obtain rfl := of_decide_eq_true hunit
    have htext : dash :: rest = dash :: dash :: (rest.tail.takeWhile fun unit => !lineEnd unit) ++
        rest.tail.dropWhile fun unit => !lineEnd unit := by
      rw [List.cons_append, List.cons_append, List.takeWhile_append_dropWhile, ← hrest]
    simp only [List.span_eq_takeWhile_dropWhile]
    refine ⟨htext, Strips.blanked ?_ htext⟩
    rw [scan, if_pos hline, lineComment, List.span_eq_takeWhile_dropWhile]
    rfl
  · -- A block comment.
    obtain ⟨⟨body, others⟩, hbody, heq⟩ := Option.map_eq_some_iff.mp h
    cases heq
    obtain ⟨hunit, hnext⟩ := Bool.and_eq_true_iff.mp hblock
    have hrest := head?_eq_some (of_decide_eq_true hnext)
    obtain rfl := of_decide_eq_true hunit
    have htext : slash :: rest = slash :: star :: body ++ others := by
      rw [List.cons_append, List.cons_append, ← commentBody_append hbody, ← hrest]
    refine ⟨htext, Strips.blanked ?_ htext⟩
    rw [scan, if_neg hline, if_pos hblock, blockComment_of_commentBody hbody]
    rfl
  · -- A literal by its own rule, or by that of the literal it goes on with.
    subst hquote
    obtain ⟨⟨body, others⟩, hbody, heq⟩ := Option.map_eq_some_iff.mp h
    have htext : quote :: rest = quote :: body ++ others := by
      rw [List.cons_append, ← delimited_append hbody]
    cases heq
    have hrule : ∀ {escapes : Bool}, legacy = escapes ∨ backslash ∉ body →
        (quote = quote && (legacy || escapeStringPrefix done)) = escapes ∨ backslash ∉ body := by
      intro escapes
      rw [hjoint rfl, Bool.or_false]
      exact id
    cases hkind : pending.kind with
    | plain =>
      rw [hkind] at hreads hbody
      exact ⟨htext, Strips.blanked (scan_quoted (.inl rfl) hbody (hrule hreads)) htext⟩
    | continued escapes =>
      rw [hkind] at hreads hbody
      exact ⟨htext, Strips.blanked (scan_quoted (.inl rfl) hbody (hrule hreads)) htext⟩
    | escape unit => exact absurd hkind (Pending.kind_ne_escape pending unit)
  · -- A literal with its prefix, which is copied.
    obtain ⟨⟨body, others⟩, hbody, heq⟩ := Option.map_eq_some_iff.mp h
    cases heq
    obtain ⟨hunit, hnext⟩ := Bool.and_eq_true_iff.mp hescape
    have hrest := head?_eq_some (of_decide_eq_true hnext)
    have htext : quote :: rest.tail = quote :: body ++ others := by
      rw [List.cons_append, ← delimited_append hbody]
    have hcopied : scan legacy done unit (quote :: body ++ others) =
        ([unit], false, quote :: body ++ others) := by
      rw [← htext, ← hrest]
      exact scan_copied hline hblock hquote (hnot hunit doubleQuote (by decide)) fun heq =>
        absurd heq hdollar
    have hbody' : scan legacy (unit :: done) quote rest.tail = (quote :: body, true, others) := by
      apply scan_quoted (.inl rfl) hbody
      have hgap : done.head?.any identifierUnit = false := hreads
      have hescapes : escapeStringPrefix (unit :: done) = true := by
        rw [escapeStringPrefix, List.head?_cons, Option.any_some, hunit, List.tail_cons, hgap]
        rfl
      rw [hescapes, Bool.or_true]
      exact .inl rfl
    refine ⟨?_, Strips.cons hcopied (Strips.blanked hbody' htext)⟩
    rw [hrest, htext]
    rfl
  · -- A quoted identifier.
    subst hidentifier
    obtain ⟨⟨body, others⟩, hbody, heq⟩ := Option.map_eq_some_iff.mp h
    cases heq
    have htext : doubleQuote :: rest = doubleQuote :: body ++ others := by
      rw [List.cons_append, ← delimited_append hbody]
    exact ⟨htext, Strips.blanked (scan_quoted (.inr rfl) hbody (.inl rfl)) htext⟩
  · -- A word.
    cases h
    have htext : unit :: rest = (unit :: rest.takeWhile identCont) ++ rest.dropWhile identCont := by
      rw [List.cons_append, List.takeWhile_append_dropWhile]
    refine ⟨htext, Strips.identifier (fun other hother => ?_) fun heq => ?_⟩
    · rcases List.mem_cons.mp hother with rfl | hother
      · have hstart : tagStart other = true := hword
        rw [identifierUnit, tagUnit, hstart, Bool.true_or, Bool.true_or]
      · exact List.mem_takeWhile_imp hother
    · exact absurd (Option.some.inj heq) hdollar
  · -- A number.
    cases h
    have htext : unit :: rest = (unit :: rest.takeWhile digit) ++ rest.dropWhile digit := by
      rw [List.cons_append, List.takeWhile_append_dropWhile]
    refine ⟨htext, Strips.identifier (fun other hother => ?_) fun heq => ?_⟩
    · have hdigit : digit other = true := by
        rcases List.mem_cons.mp hother with rfl | hother
        · exact hnumber
        · exact List.mem_takeWhile_imp hother
      rw [identifierUnit, tagUnit, hdigit, Bool.or_true, Bool.true_or]
    · exact absurd (Option.some.inj heq) hdollar
  · -- Anything else.
    cases h
    exact ⟨rfl, Strips.copied (scan_copied hline hblock hquote hidentifier fun heq =>
      absurd heq hdollar)⟩

/-! ## Joints -/

theorem delimited_last {mark : Fin 65536} {escapes : Bool} {text body rest : Units}
    (h : delimited mark escapes text = some (body, rest)) : ∃ front, body = front ++ [mark] := by
  fun_induction delimited mark escapes text generalizing body with
  | case1 => cases h
  | case2 =>
    cases h
    exact ⟨[], rfl⟩
  | case3 => cases h
  | case4 current next others hescape ih =>
    obtain ⟨tail, htail, rfl⟩ := consumed_eq_some.mp h
    obtain ⟨front, rfl⟩ := ih htail
    exact ⟨_, (List.append_assoc _ _ _).symm⟩
  | case5 others hescape ih =>
    obtain ⟨tail, htail, rfl⟩ := consumed_eq_some.mp h
    obtain ⟨front, rfl⟩ := ih htail
    exact ⟨_, (List.append_assoc _ _ _).symm⟩
  | case6 =>
    cases h
    exact ⟨[], rfl⟩
  | case7 current next others hescape hmark ih =>
    obtain ⟨tail, htail, rfl⟩ := consumed_eq_some.mp h
    obtain ⟨front, rfl⟩ := ih htail
    exact ⟨_, (List.append_assoc _ _ _).symm⟩

theorem commentBody_last {depth : Nat} {text body rest : Units}
    (h : commentBody (depth + 1) text = some (body, rest)) : ∃ front, body = front ++ [slash] := by
  generalize hdepth : depth + 1 = nested at h
  fun_induction commentBody nested text generalizing body depth with
  | case1 text => cases hdepth
  | case2 => cases h
  | case3 => cases h
  | case4 nested first second others hopen ih =>
    obtain ⟨tail, htail, rfl⟩ := consumed_eq_some.mp h
    obtain ⟨front, rfl⟩ := ih rfl htail
    exact ⟨_, (List.append_assoc _ _ _).symm⟩
  | case5 nested first second others hopen hclose ih =>
    obtain ⟨tail, htail, rfl⟩ := consumed_eq_some.mp h
    cases nested with
    | zero =>
      rw [commentBody] at htail
      cases htail
      exact ⟨[first], by rw [of_decide_eq_true (Bool.and_eq_true_iff.mp hclose).2]; rfl⟩
    | succ nested =>
      obtain ⟨front, rfl⟩ := ih rfl htail
      exact ⟨_, (List.append_assoc _ _ _).symm⟩
  | case6 nested first second others hopen hclose ih =>
    obtain ⟨tail, htail, rfl⟩ := consumed_eq_some.mp h
    obtain ⟨front, rfl⟩ := ih rfl htail
    exact ⟨_, (List.append_assoc _ _ _).symm⟩

theorem dollarBody_last {tag text body rest : Units}
    (h : dollarBody tag text = some (body, rest)) : ∃ front, body = front ++ tag := by
  induction text generalizing body with
  | nil => cases h
  | cons unit others ih =>
    rw [dollarBody] at h
    split at h
    · cases h
      exact ⟨[], rfl⟩
    · obtain ⟨tail, htail, rfl⟩ := consumed_eq_some.mp h
      obtain ⟨front, rfl⟩ := ih htail
      exact ⟨_, (List.append_assoc _ _ _).symm⟩

theorem dollarDelimiter_last {tag rest : Units} (h : dollarDelimiter rest = some tag) :
    ∃ front, tag = front ++ [dollar] := by
  unfold dollarDelimiter at h
  split_ifs at h
  · cases h
    exact ⟨[dollar], rfl⟩
  · cases h
    exact ⟨_, rfl⟩

theorem escapePrefix_eq_false {unit : Fin 65536} (h : letter unit = false) :
    escapePrefix unit = false := by
  rw [Bool.eq_false_iff]
  intro hprefix
  simp only [escapePrefix, Bool.or_eq_true, decide_eq_true_eq] at hprefix
  have hletter : letter unit = true := by
    simp only [letter, Bool.or_eq_true, Bool.and_eq_true, decide_eq_true_eq]
    omega
  rw [h] at hletter
  cases hletter

theorem letter_eq_false_of_digit {unit : Fin 65536} (h : digit unit = true) : letter unit = false := by
  simp only [digit, Bool.and_eq_true, decide_eq_true_eq] at h
  simp only [letter, Bool.or_eq_false_iff, Bool.and_eq_false_iff, decide_eq_false_iff_not]
  omega

theorem letter_eq_false_of_white {unit : Fin 65536} (h : whiteUnit unit = true) :
    letter unit = false := by
  simp only [whiteUnit, Bool.or_eq_true, Bool.and_eq_true, decide_eq_true_eq] at h
  simp only [letter, Bool.or_eq_false_iff, Bool.and_eq_false_iff, decide_eq_false_iff_not]
  omega

theorem Joint.of_last {text front done rest : Units} {unit : Fin 65536} (htext : text = front ++ [unit])
    (hunit : letter unit = false) : Joint (text.reverse ++ done) rest := by
  intro _
  rw [htext, List.reverse_append, List.reverse_singleton, List.cons_append]
  simp [escapeStringPrefix, escapePrefix_eq_false hunit]

theorem Joint.of_all {text done rest : Units} (hne : text ≠ [])
    (htext : ∀ unit ∈ text, letter unit = false) : Joint (text.reverse ++ done) rest :=
  .of_last (List.dropLast_append_getLast hne).symm (htext _ (List.getLast_mem hne))

/-- A word in front of a quote has two units, and the quote has no prefix. -/
theorem joint_word {done rest : Units} {unit : Fin 65536} (hword : identStart unit = true)
    (hescape : ¬(escapePrefix unit && rest.head? = some quote) = true) :
    Joint ((unit :: rest.takeWhile identCont).reverse ++ done) (rest.dropWhile identCont) := by
  intro hquote
  rcases List.eq_nil_or_concat (rest.takeWhile identCont) with hnil | ⟨front, last, hfront⟩
  · have hrest : rest.takeWhile identCont ++ rest.dropWhile identCont = rest :=
      List.takeWhile_append_dropWhile
    rw [hnil, List.nil_append] at hrest
    rw [hrest] at hquote
    have hprefix : escapePrefix unit = false := by
      simpa [hquote] using hescape
    rw [hnil]
    simp [escapeStringPrefix, hprefix]
  · have hcont : ∀ other ∈ (unit :: front).reverse, identifierUnit other = true := by
      intro other hother
      rcases List.mem_cons.mp (List.mem_reverse.mp hother) with rfl | hother
      · have hstart : tagStart other = true := hword
        rw [identifierUnit, tagUnit, hstart, Bool.true_or, Bool.true_or]
      · have hmem : other ∈ rest.takeWhile identCont := by
          rw [hfront, List.concat_eq_append]
          exact List.mem_append_left _ hother
        exact List.mem_takeWhile_imp hmem
    have hreverse : (unit :: rest.takeWhile identCont).reverse ++ done =
        last :: ((unit :: front).reverse ++ done) := by
      rw [hfront, List.concat_eq_append]
      simp
    rw [hreverse, escapeStringPrefix, List.tail_cons]
    cases hfirst : (unit :: front).reverse with
    | nil => simp at hfirst
    | cons other others =>
      rw [hfirst] at hcont
      simp [hcont other List.mem_cons_self]

theorem joint_dollar {scs : Bool} {pending : Pending} {done rest rest' : Units} {token : Token}
    (h : nextToken scs pending dollar rest = some (token, rest')) :
    Joint (token.text.reverse ++ done) rest' := by
  rw [nextToken_dollar] at h
  cases htag : dollarDelimiter rest with
  | some tag =>
    rw [htag] at h
    obtain ⟨⟨body, others⟩, hbody, heq⟩ := Option.map_eq_some_iff.mp h
    cases heq
    obtain ⟨front, rfl⟩ := dollarBody_last hbody
    obtain ⟨start, hstart⟩ := dollarDelimiter_last htag
    have htext : (Token.dollarQuote tag (front ++ tag)).text = tag ++ front ++ start ++ [dollar] := by
      rw [Token.text, List.append_assoc (tag ++ front), ← hstart, List.append_assoc]
    exact .of_last htext (by decide)
  | none =>
    rw [htag] at h
    simp only at h
    split at h
    · cases h
      apply Joint.of_all (List.cons_ne_nil _ _)
      intro unit hunit
      rcases List.mem_cons.mp hunit with rfl | hunit
      · decide
      · exact letter_eq_false_of_digit (List.mem_takeWhile_imp hunit)
    · cases h
      exact .of_last (List.nil_append _).symm (by decide)

/-- No token but a prefix ends in front of a quote with a unit that looks like a prefix. -/
theorem joint_token {scs : Bool} {pending : Pending} {done : Units} {unit : Fin 65536}
    {rest rest' : Units} {token : Token} (h : nextToken scs pending unit rest = some (token, rest')) :
    Joint (token.text.reverse ++ done) rest' := by
  by_cases hdollar : unit = dollar
  · subst hdollar
    exact joint_dollar h
  unfold nextToken at h
  split_ifs at h with hwhite hline hblock hquote hescape hidentifier hword hnumber
  · -- White space.
    cases h
    exact .of_last (List.nil_append _).symm (letter_eq_false_of_white hwhite)
  · -- A line comment ends in front of the end of the line.
    cases h
    intro hquote
    rw [List.span_eq_takeWhile_dropWhile] at hquote
    have hend := List.head?_dropWhile_not (fun unit => !lineEnd unit) rest.tail
    rw [hquote] at hend
    cases hend
  · -- A block comment.
    obtain ⟨⟨body, others⟩, hbody, heq⟩ := Option.map_eq_some_iff.mp h
    cases heq
    obtain ⟨front, rfl⟩ := commentBody_last hbody
    exact @Joint.of_last _ (slash :: star :: front) _ _ _ rfl (by decide)
  · -- A literal.
    obtain ⟨⟨body, others⟩, hbody, heq⟩ := Option.map_eq_some_iff.mp h
    cases heq
    obtain ⟨front, rfl⟩ := delimited_last hbody
    cases hkind : pending.kind with
    | plain => exact @Joint.of_last _ (quote :: front) _ _ _ rfl (by decide)
    | continued escapes => exact @Joint.of_last _ (quote :: front) _ _ _ rfl (by decide)
    | escape unit => exact absurd hkind (Pending.kind_ne_escape pending unit)
  · -- A literal with its prefix.
    obtain ⟨⟨body, others⟩, hbody, heq⟩ := Option.map_eq_some_iff.mp h
    cases heq
    obtain ⟨front, rfl⟩ := delimited_last hbody
    exact @Joint.of_last _ (unit :: quote :: front) _ _ _ rfl (by decide)
  · -- A quoted identifier.
    obtain ⟨⟨body, others⟩, hbody, heq⟩ := Option.map_eq_some_iff.mp h
    cases heq
    obtain ⟨front, rfl⟩ := delimited_last hbody
    exact @Joint.of_last _ (doubleQuote :: front) _ _ _ rfl (by decide)
  · -- A word.
    cases h
    exact joint_word hword hescape
  · -- A number.
    cases h
    apply Joint.of_all (List.cons_ne_nil _ _)
    intro other hother
    rcases List.mem_cons.mp hother with rfl | hother
    · exact letter_eq_false_of_digit hnumber
    · exact letter_eq_false_of_digit (List.mem_takeWhile_imp hother)
  · -- Anything else, a letter starts a word.
    cases h
    refine .of_last (List.nil_append _).symm ?_
    simp only [identStart, Bool.or_eq_true, not_or, Bool.not_eq_true] at hword
    exact hword.1.1

end ActiveTs.Sql.NativeSql
