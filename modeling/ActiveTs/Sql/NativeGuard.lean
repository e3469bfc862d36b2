import ActiveTs.Sql.ScanRounds

/-! # Control statements are found

A scan that is in step with the server up to a statement writes its keyword after white space alone, and
the expression finds it. -/

namespace ActiveTs.Sql.NativeSql

open Utf16 (Units ofString)
open PostgresLexer

/-! ## Runs -/

/-- A plain literal with a backslash: the legacy scan reads it otherwise. -/
def plainBackslash : Token → Bool
  | .literal .plain body => body.contains backslash
  | .literal (.continued false) body => body.contains backslash
  | _ => false

/-- A backslash in the continuation of an escape literal: the standard scan reads it otherwise. -/
def continuedBackslash : Token → Bool
  | .literal (.continued true) body => body.contains backslash
  | _ => false

/-- A token that the scan misses right after a unit of an identifier. -/
def needsGap : Token → Bool
  | .dollarQuote _ _ => true
  | .literal (.escape _) _ => true
  | _ => false

/-- Dollar quotes and prefixes of literals do not come right after a unit of an identifier, as they can
after a number, a parameter or a dollar quote. -/
def separated : Option (Fin 65536) → List Token → Bool
  | _, [] => true
  | last, token :: tokens =>
    !(needsGap token && last.any identifierUnit) && separated (token.text.getLast?.or last) tokens

/-- The scan has the backslash rule of the server for the token. -/
def InStep (standardConformingStrings legacy : Bool) : Token → Prop
  | .literal (.escape _) _ => True
  | .literal kind body => legacy = kind.escapes standardConformingStrings ∨ backslash ∉ body
  | _ => True

theorem reads_of_separated {scs legacy : Bool} {done : Units} {token : Token}
    (hstep : InStep scs legacy token) (hgap : (needsGap token && done.head?.any identifierUnit) = false) :
    Reads scs legacy done token := by
  cases token with
  | literal kind body =>
    cases kind with
    | escape unit => exact hgap
    | plain => exact hstep
    | continued escapes => exact hstep
  | dollarQuote tag body => exact hgap
  | _ => trivial

/-- The texts of tokens, in order. -/
def texts (tokens : List Token) : Units := tokens.flatMap Token.text

theorem lexFrom_cons {scs : Bool} {fuel : Nat} {pending : Pending} {text : Units} {token : Token}
    {tokens : List Token} (h : lexFrom scs fuel pending text = some (token :: tokens)) :
    ∃ fuel' unit rest rest', text = unit :: rest ∧
      nextToken scs pending unit rest = some (token, rest') ∧
        lexFrom scs fuel' (pending.after scs token) rest' = some tokens := by
  cases text with
  | nil => cases fuel <;> cases h
  | cons unit rest =>
    cases fuel with
    | zero => cases h
    | succ fuel =>
      obtain ⟨next, hnext, h⟩ := Option.bind_eq_some_iff.mp h
      obtain ⟨others, hothers, heq⟩ := Option.bind_eq_some_iff.mp h
      obtain ⟨first, rest'⟩ := next
      cases heq
      exact ⟨fuel, unit, rest, rest', rfl, hnext, hothers⟩

/-- A scan in step passes the tokens in front of a statement. -/
theorem strips_tokens {scs legacy : Bool} {before statement : List Token} {fuel : Nat}
    {pending : Pending} {done text : Units}
    (hlex : lexFrom scs fuel pending text = some (before ++ statement)) (hjoint : Joint done text)
    (hseparated : separated done.head? before = true) (hstep : ∀ token ∈ before, InStep scs legacy token) :
    ∃ fuel' pending' rest, text = texts before ++ rest ∧
      lexFrom scs fuel' pending' rest = some statement ∧ Joint ((texts before).reverse ++ done) rest ∧
        Strips legacy done (texts before) (before.flatMap stripped) rest := by
  induction before generalizing fuel pending done text with
  | nil => exact ⟨fuel, pending, text, rfl, hlex, hjoint, .nil legacy done text⟩
  | cons token before ih =>
    obtain ⟨fuel, unit, rest, rest', rfl, hnext, htokens⟩ := lexFrom_cons hlex
    obtain ⟨hgap, hseparated⟩ := Bool.and_eq_true_iff.mp hseparated
    have hreads : Reads scs legacy done token :=
      reads_of_separated (hstep token List.mem_cons_self) (by rwa [Bool.not_eq_true'] at hgap)
    obtain ⟨htext, hstrips⟩ := strips_token hnext hreads hjoint
    have hlast : separated ((token.text.reverse ++ done).head?) before = true := by
      rw [List.head?_append, List.head?_reverse]
      exact hseparated
    obtain ⟨fuel', pending', others, hothers, hlex', hjoint', hstrips'⟩ :=
      ih htokens (joint_token hnext) hlast fun other hother =>
        hstep other (List.mem_cons_of_mem token hother)
    refine ⟨fuel', pending', others, ?_, hlex', ?_, ?_⟩
    · rw [htext, hothers, ← List.append_assoc]
      rfl
    · rw [texts, List.flatMap_cons, List.reverse_append, List.append_assoc]
      exact hjoint'
    · rw [texts, List.flatMap_cons, List.flatMap_cons]
      rw [hothers] at hstrips
      exact hstrips.append hstrips'

/-- The first unit of a token, and what follows a word. -/
def Lexed (pending : Pending) (unit : Fin 65536) (rest : Units) : Token → Prop
  | .white other => other = unit ∧ whiteUnit unit = true
  | .lineComment _ => unit = dash
  | .blockComment _ => unit = slash
  | .literal (.escape other) _ => other = unit ∧ escapePrefix unit = true
  | .literal kind _ => unit = quote ∧ kind = pending.kind
  | .quotedIdentifier _ => unit = doubleQuote
  | .dollarQuote _ _ => unit = dollar
  | .word _ => identStart unit = true ∧ rest.head?.any identCont = false
  | .number _ => digit unit = true
  | .parameter _ => unit = dollar
  | .other other => other = unit

theorem lexed_of_nextToken {scs : Bool} {pending : Pending} {unit : Fin 65536} {rest rest' : Units}
    {token : Token} (h : nextToken scs pending unit rest = some (token, rest')) :
    Lexed pending unit rest' token := by
  by_cases hdollar : unit = dollar
  · subst hdollar
    rw [nextToken_dollar] at h
    split at h
    · obtain ⟨_, _, heq⟩ := Option.map_eq_some_iff.mp h
      cases heq
      rfl
    · split at h
      · cases h
        rfl
      · cases h
        rfl
  unfold nextToken at h
  split_ifs at h with hwhite hline hblock hquote hescape hidentifier hword hnumber
  · cases h
    exact ⟨rfl, hwhite⟩
  · have hunit : unit = dash := of_decide_eq_true (Bool.and_eq_true_iff.mp hline).1
    cases h
    exact hunit
  · obtain ⟨_, _, heq⟩ := Option.map_eq_some_iff.mp h
    have hunit : unit = slash := of_decide_eq_true (Bool.and_eq_true_iff.mp hblock).1
    cases heq
    exact hunit
  · obtain ⟨_, _, heq⟩ := Option.map_eq_some_iff.mp h
    cases heq
    cases hkind : pending.kind with
    | plain => exact ⟨hquote, hkind.symm⟩
    | continued escapes => exact ⟨hquote, hkind.symm⟩
    | escape unit => exact absurd hkind (Pending.kind_ne_escape pending unit)
  · obtain ⟨_, _, heq⟩ := Option.map_eq_some_iff.mp h
    cases heq
    exact ⟨rfl, (Bool.and_eq_true_iff.mp hescape).1⟩
  · obtain ⟨_, _, heq⟩ := Option.map_eq_some_iff.mp h
    cases heq
    exact hidentifier
  · cases h
    refine ⟨hword, ?_⟩
    have hend := List.head?_dropWhile_not identCont rest
    cases hhead : (rest.dropWhile identCont).head? with
    | none => rfl
    | some other =>
      rw [hhead] at hend
      simpa using hend
  · cases h
    exact hnumber
  · cases h
    rfl

/-- Without standard strings every literal has the rule of the legacy scan. -/
theorem inStep_legacy {fuel : Nat} {pending : Pending} {text : Units} {tokens : List Token}
    (hlex : lexFrom false fuel pending text = some tokens) (hpending : ∀ p, pending = some p → p.1 = true) :
    ∀ token ∈ tokens, InStep false true token := by
  induction tokens generalizing fuel pending text with
  | nil => exact fun token htoken => absurd htoken List.not_mem_nil
  | cons token tokens ih =>
    obtain ⟨fuel, unit, rest, rest', rfl, hnext, htokens⟩ := lexFrom_cons hlex
    have hkind : ∀ kind body, token = .literal kind body → kind.escapes false = true := by
      rintro kind body rfl
      have hlexed := lexed_of_nextToken hnext
      cases kind with
      | plain => rfl
      | escape unit => rfl
      | continued escapes =>
        obtain ⟨-, hkind⟩ := hlexed
        cases pending with
        | none => cases hkind
        | some p =>
          obtain ⟨mode, ended⟩ := p
          cases ended with
          | false => cases hkind
          | true =>
            cases hkind
            exact hpending _ rfl
    have hafter : ∀ p, pending.after false token = some p → p.1 = true := by
      intro p hp
      cases token with
      | white unit =>
        obtain ⟨q, hq, rfl⟩ := Option.map_eq_some_iff.mp hp
        exact hpending q hq
      | lineComment body => exact hpending p hp
      | literal kind body =>
        cases hp
        exact hkind kind body rfl
      | _ => cases hp
    intro other hother
    rcases List.mem_cons.mp hother with rfl | hother
    · cases other with
      | literal kind body =>
        have hescapes := hkind kind body rfl
        cases kind with
        | escape unit => trivial
        | plain => exact .inl hescapes.symm
        | continued escapes => exact .inl hescapes.symm
      | _ => trivial
    · exact ih htokens hafter other hother

theorem inStep_standard {token : Token} (h : continuedBackslash token = false) :
    InStep true false token := by
  cases token with
  | literal kind body =>
    cases kind with
    | escape unit => trivial
    | plain => exact .inl rfl
    | continued escapes =>
      cases escapes with
      | false => exact .inl rfl
      | true => exact .inr (by simpa [continuedBackslash] using h)
  | _ => trivial

theorem inStep_of_plain {token : Token} (h : plainBackslash token = false) : InStep true true token := by
  cases token with
  | literal kind body =>
    cases kind with
    | escape unit => trivial
    | plain => exact .inr (by simpa [plainBackslash] using h)
    | continued escapes =>
      cases escapes with
      | false => exact .inr (by simpa [plainBackslash] using h)
      | true => exact .inl rfl
  | _ => trivial

/-! ## The start of a statement -/

theorem whiteUnit_blank (unit : Fin 65536) : whiteUnit (blank unit) = true := by
  unfold blank
  split <;> decide

/-- What stands for white space and comments is white space. -/
theorem whiteUnit_of_stripped {pending : Pending} {unit : Fin 65536} {rest : Units} {token : Token}
    (hlexed : Lexed pending unit rest token) (h : token.insignificant = true) :
    stripped token ≠ [] ∧ ∀ other ∈ stripped token, whiteUnit other = true := by
  have hblank : ∀ (text : Units), ∀ other ∈ text.map blank, whiteUnit other = true := by
    intro text other hother
    obtain ⟨unit, -, rfl⟩ := List.mem_map.mp hother
    exact whiteUnit_blank unit
  cases token with
  | white other =>
    refine ⟨List.cons_ne_nil _ _, fun unit hunit => ?_⟩
    rw [List.mem_singleton.mp hunit, hlexed.1]
    exact hlexed.2
  | lineComment body => exact ⟨List.cons_ne_nil _ _, hblank _⟩
  | blockComment body => exact ⟨List.cons_ne_nil _ _, hblank _⟩
  | _ => cases h

/-- The state of a scan in step between two tokens. -/
structure At (scs : Bool) (done text : Units) (tokens : List Token) : Prop where
  lexed : ∃ fuel pending, lexFrom scs fuel pending text = some tokens
  joint : Joint done text

/-- A scan passes white space and comments, and writes white space. -/
theorem strip_blanks {scs legacy : Bool} {done text : Units} {blanks tokens : List Token}
    (h : At scs done text (blanks ++ tokens))
    (hblanks : ∀ token ∈ blanks, token.insignificant = true) :
    ∃ done' text' written, At scs done' text' tokens ∧
      strip legacy done text = written ++ strip legacy done' text' ∧
        (∀ unit ∈ written, whiteUnit unit = true) ∧ (blanks ≠ [] → written ≠ []) ∧
          (blanks = [] → text' = text) := by
  induction blanks generalizing done text with
  | nil =>
    exact ⟨done, text, [], h, rfl, fun _ hunit => absurd hunit List.not_mem_nil, fun h => absurd rfl h,
      fun _ => rfl⟩
  | cons token blanks ih =>
    obtain ⟨⟨fuel, pending, hlex⟩, hjoint⟩ := h
    obtain ⟨fuel, unit, rest, rest', rfl, hnext, htokens⟩ := lexFrom_cons hlex
    have hinsignificant := hblanks token List.mem_cons_self
    have hreads : Reads scs legacy done token := by
      cases token with
      | white unit => trivial
      | lineComment body => trivial
      | blockComment body => trivial
      | _ => cases hinsignificant
    obtain ⟨htext, hstrips⟩ := strips_token hnext hreads hjoint
    obtain ⟨hne, hwhite⟩ := whiteUnit_of_stripped (lexed_of_nextToken hnext) hinsignificant
    obtain ⟨done', text', written, hat, hstrip, hwritten, -, -⟩ := ih ⟨⟨_, _, htokens⟩, joint_token hnext⟩
      fun other hother => hblanks other (List.mem_cons_of_mem token hother)
    refine ⟨done', text', stripped token ++ written, hat, ?_, ?_, ?_, ?_⟩
    · rw [htext, hstrips, hstrip, List.append_assoc]
    · intro unit hunit
      rcases List.mem_append.mp hunit with hunit | hunit
      · exact hwhite unit hunit
      · exact hwritten unit hunit
    · exact fun _ => List.append_ne_nil_of_left_ne_nil hne written
    · exact fun h => absurd h (List.cons_ne_nil token blanks)

/-- A scan copies a word. -/
theorem strip_word {scs legacy : Bool} {done text word : Units} {tokens : List Token}
    (h : At scs done text (.word word :: tokens)) :
    ∃ done' text', At scs done' text' tokens ∧
      strip legacy done text = word ++ strip legacy done' text' ∧
        text.head?.any identStart = true ∧ text'.head?.any identCont = false := by
  obtain ⟨⟨fuel, pending, hlex⟩, hjoint⟩ := h
  obtain ⟨fuel, unit, rest, rest', rfl, hnext, htokens⟩ := lexFrom_cons hlex
  obtain ⟨htext, hstrips⟩ := @strips_token _ legacy _ done _ _ _ _ hnext trivial hjoint
  obtain ⟨hstart, hend⟩ := lexed_of_nextToken hnext
  refine ⟨word.reverse ++ done, rest', ⟨⟨_, _, htokens⟩, joint_token hnext⟩, ?_, hstart, hend⟩
  rw [htext]
  exact hstrips

/-- A statement goes on after its keyword with no operator. -/
def controlFollows : Token → Bool
  | .other unit => unit = semicolon || unit = openParen
  | _ => true

/-- A unit that may follow a keyword. -/
def keywordEnd (unit : Fin 65536) : Bool := unit = semicolon || whiteUnit unit || unit = openParen

/-- What a scan writes after a word, in front of which nothing else is. -/
theorem strip_end {scs legacy : Bool} {done text : Units} {tokens : List Token}
    (h : At scs done text tokens) (hword : text.head?.any identCont = false)
    (htokens : tokens.head?.all controlFollows = true) :
    (strip legacy done text).head?.all keywordEnd = true := by
  obtain ⟨⟨fuel, pending, hlex⟩, hjoint⟩ := h
  cases tokens with
  | nil =>
    cases text with
    | nil => rfl
    | cons unit rest =>
      cases fuel with
      | zero => cases hlex
      | succ fuel =>
        obtain ⟨next, hnext, hlex⟩ := Option.bind_eq_some_iff.mp hlex
        obtain ⟨others, hothers, heq⟩ := Option.bind_eq_some_iff.mp hlex
        cases heq
  | cons token tokens =>
    obtain ⟨fuel, unit, rest, rest', rfl, hnext, -⟩ := lexFrom_cons hlex
    have hlexed := lexed_of_nextToken hnext
    have hcont : identCont unit = false := hword
    have hpassed : Reads scs legacy done token →
        strip legacy done (unit :: rest) =
          stripped token ++ strip legacy (token.text.reverse ++ done) rest' := by
      intro hreads
      obtain ⟨htext, hstrips⟩ := strips_token hnext hreads hjoint
      rw [htext, hstrips]
    have hstart : identStart unit = false := by
      rw [identCont, dollarCont, Bool.or_eq_false_iff, Bool.or_eq_false_iff] at hcont
      exact hcont.1.1
    have hquote : unit = quote → (strip legacy done (unit :: rest)).head? = some space := by
      rintro rfl
      have hdash : quote ≠ dash := by decide
      have hslash : quote ≠ slash := by decide
      have hscan : ∃ passed others, scan legacy done quote rest = (quote :: passed, true, others) := by
        refine ⟨(quoted quote (quote = quote && (legacy || escapeStringPrefix done)) rest).1,
          (quoted quote (quote = quote && (legacy || escapeStringPrefix done)) rest).2, ?_⟩
        rw [scan, if_neg (by simp [hdash]), if_neg (by simp [hslash]), if_pos (by decide)]
      obtain ⟨passed, others, hscan⟩ := hscan
      rw [strip_cons, hscan]
      rfl
    cases token with
    | white other =>
      obtain ⟨rfl, hwhite⟩ := hlexed
      rw [hpassed trivial]
      simp [stripped, keywordEnd, hwhite]
    | lineComment body =>
      rw [hpassed trivial]
      rfl
    | blockComment body =>
      rw [hpassed trivial]
      rfl
    | literal kind body =>
      cases kind with
      | plain =>
        rw [hquote hlexed.1]
        rfl
      | continued escapes =>
        rw [hquote hlexed.1]
        rfl
      | escape other =>
        have hletter : letter unit = false := by
          rw [identStart, Bool.or_eq_false_iff, Bool.or_eq_false_iff] at hstart
          exact hstart.1.1
        cases (escapePrefix_eq_false hletter).symm.trans hlexed.2
    | quotedIdentifier body =>
      rw [hpassed trivial]
      rfl
    | dollarQuote tag body =>
      cases hlexed
      cases hcont
    | word text => cases hstart.symm.trans hlexed.1
    | number text =>
      have hdigit : digit unit = true := hlexed
      rw [identCont, dollarCont, hdigit, Bool.or_true, Bool.true_or] at hcont
      cases hcont
    | parameter digits =>
      cases hlexed
      cases hcont
    | other other =>
      cases hlexed
      rw [hpassed trivial]
      have hfollows : (decide (unit = semicolon) || decide (unit = openParen)) = true := htokens
      rcases Bool.or_eq_true_iff.mp hfollows with hunit | hunit
      · simp [stripped, keywordEnd, hunit]
      · simp [stripped, keywordEnd, hunit]

/-! ## The expression finds the keyword -/

theorem jsSpace_of_white {unit : Fin 65536} (h : whiteUnit unit = true) : jsSpace unit = true := by
  obtain ⟨n, hn⟩ := unit
  simp only [whiteUnit, Bool.or_eq_true, Bool.and_eq_true, decide_eq_true_eq] at h
  have hcases : n = 9 ∨ n = 10 ∨ n = 11 ∨ n = 12 ∨ n = 13 ∨ n = 32 := by omega
  rcases hcases with rfl | rfl | rfl | rfl | rfl | rfl <;> rfl

theorem lowerAscii_of_white {unit : Fin 65536} (h : whiteUnit unit = true) : lowerAscii unit = unit := by
  simp only [whiteUnit, Bool.or_eq_true, Bool.and_eq_true, decide_eq_true_eq] at h
  exact if_neg (by omega)

theorem lt_of_white {unit : Fin 65536} (h : whiteUnit unit = true) : unit.1 < 128 := by
  simp only [whiteUnit, Bool.or_eq_true, Bool.and_eq_true, decide_eq_true_eq] at h
  omega

/-- What is lowered to ASCII is ASCII. -/
theorem lt_of_lowerAscii {unit : Fin 65536} (h : (lowerAscii unit).1 < 128) : unit.1 < 128 := by
  unfold lowerAscii at h
  split at h
  · omega
  · exact h

theorem map_lowerAscii_of_white {text : Units} (h : ∀ unit ∈ text, whiteUnit unit = true) :
    text.map lowerAscii = text := by
  rw [List.map_congr_left fun unit hunit => lowerAscii_of_white (h unit hunit), List.map_id']

/-- Leading white space is skipped. -/
theorem controlAt_append {blanks text : Units} (hblanks : ∀ unit ∈ blanks, whiteUnit unit = true) :
    controlAt (blanks ++ text) = controlAt text := by
  have hskip : (blanks ++ text).dropWhile jsSpace = text.dropWhile jsSpace := by
    apply List.dropWhile_append_of_pos
    exact fun unit hunit => jsSpace_of_white (hblanks unit hunit)
  rw [controlAt, controlAt, hskip]

theorem controlAfterSemicolon_append (front text : Units) (h : controlAt text = true) :
    controlAfterSemicolon (front ++ semicolon :: text) = true := by
  induction front with
  | nil => simp [controlAfterSemicolon, h]
  | cons unit front ih =>
    rw [List.cons_append, controlAfterSemicolon, ih, Bool.or_true]

theorem controlAt_of_match {words : List Units} {text : Units} (hwords : words ∈ controlWords)
    (hhead : text.head?.any jsSpace = false) (hmatch : matchWords words text = true) :
    controlAt text = true := by
  have hskip : text.dropWhile jsSpace = text := by
    cases text with
    | nil => rfl
    | cons unit text => exact List.dropWhile_cons_of_neg (by simpa using hhead)
  rw [controlAt, hskip]
  exact List.any_eq_true.mpr ⟨words, hwords, hmatch⟩

theorem drop_append_self (front text : Units) : (front ++ text).drop front.length = text := by
  simp

theorem isPrefixOf_append_self (front text : Units) : front.isPrefixOf (front ++ text) = true := by
  simp

/-- `begin`, `commit` and the like. -/
theorem controlAt_verb {word tail : Units} (hword : controlVerbs.contains word = true)
    (htail : controlEnd tail = true) : controlAt (word ++ tail) = true := by
  have hverbs : ∀ word ∈ controlVerbs, [word] ∈ controlWords ∧ word ≠ [] ∧
      word.head?.any jsSpace = false := by decide
  obtain ⟨hmem, hne, hhead⟩ := hverbs word (List.contains_iff_mem.mp hword)
  apply controlAt_of_match hmem
  · rw [List.head?_append_of_ne_nil _ hne]
    exact hhead
  · rw [matchWords, isPrefixOf_append_self, drop_append_self, htail]
    rfl

/-- `start transaction` and `prepare transaction`. -/
theorem controlAt_pair {first second gap tail : Units} (hpair : controlPairs.contains (first, second) = true)
    (hgap : ∀ unit ∈ gap, whiteUnit unit = true) (hne : gap ≠ []) (htail : controlEnd tail = true) :
    controlAt (first ++ (gap ++ (second ++ tail))) = true := by
  have hpairs : ∀ pair ∈ controlPairs, [pair.1, pair.2] ∈ controlWords ∧ pair.1 ≠ [] ∧
      pair.2 ≠ [] ∧ pair.1.head?.any jsSpace = false ∧ pair.2.head?.any jsSpace = false := by decide
  obtain ⟨hmem, hfirst, hsecond, hhead, hhead'⟩ := hpairs _ (List.contains_iff_mem.mp hpair)
  apply controlAt_of_match hmem
  · rw [List.head?_append_of_ne_nil _ hfirst]
    exact hhead
  · have hspace : (gap ++ (second ++ tail)).head?.any jsSpace = true := by
      rw [List.head?_append_of_ne_nil _ hne]
      cases gap with
      | nil => exact absurd rfl hne
      | cons unit gap => exact jsSpace_of_white (hgap unit List.mem_cons_self)
    have hskip : (gap ++ (second ++ tail)).dropWhile jsSpace = second ++ tail := by
      rw [List.dropWhile_append_of_pos fun unit hunit => jsSpace_of_white (hgap unit hunit)]
      cases second with
      | nil => exact absurd rfl hsecond
      | cons unit second => exact List.dropWhile_cons_of_neg (by simpa using hhead')
    rw [matchWords, isPrefixOf_append_self, drop_append_self, hspace, hskip, matchWords,
      isPrefixOf_append_self, drop_append_self, htail]
    · rfl
    · simp

/-! ## Control statements are found -/

theorem dropWhile_eq {tokens : List Token} :
    ∃ blanks, tokens = blanks ++ tokens.dropWhile Token.insignificant ∧
      ∀ token ∈ blanks, token.insignificant = true :=
  ⟨tokens.takeWhile Token.insignificant, List.takeWhile_append_dropWhile.symm,
    fun _ htoken => List.mem_takeWhile_imp htoken⟩

theorem lt_of_lowered {word keyword : Units} (h : word.map lowerAscii = keyword)
    (hkeyword : ∀ unit ∈ keyword, unit.1 < 128) : ∀ unit ∈ word, unit.1 < 128 := by
  intro unit hunit
  apply lt_of_lowerAscii
  apply hkeyword
  rw [← h]
  exact List.mem_map_of_mem hunit

theorem ascii_verb {word : Units} (h : controlVerbs.contains word = true) :
    ∀ unit ∈ word, unit.1 < 128 := by
  have hall : (controlVerbs.all fun word => word.all fun unit => unit.1 < 128) = true := rfl
  intro unit hunit
  have hword := List.all_eq_true.mp hall word (List.contains_iff_mem.mp h)
  exact of_decide_eq_true (List.all_eq_true.mp hword unit hunit)

theorem ascii_pair {first second : Units} (h : controlPairs.contains (first, second) = true) :
    ∀ unit ∈ first ++ second, unit.1 < 128 := by
  have hall : (controlPairs.all fun pair => (pair.1 ++ pair.2).all fun unit => unit.1 < 128) = true := rfl
  intro unit hunit
  have hpair := List.all_eq_true.mp hall (first, second) (List.contains_iff_mem.mp h)
  exact of_decide_eq_true (List.all_eq_true.mp hpair unit hunit)

/-- The scan of a control statement: ASCII text that the expression finds, once lowered, whatever stands
after it. -/
theorem strip_control {scs legacy : Bool} {done text : Units} {statement after : List Token}
    (h : At scs done text statement) (hcontrol : afterControl statement = some after)
    (hafter : after.head?.all controlFollows = true) :
    ∃ front tail, strip legacy done text = front ++ tail ∧ (∀ unit ∈ front, unit.1 < 128) ∧
      tail.head?.all keywordEnd = true ∧
        ∀ tail', controlEnd tail' = true → controlAt (front.map lowerAscii ++ tail') = true := by
  obtain ⟨blanks, hblanks, hinsignificant⟩ := @dropWhile_eq statement
  unfold afterControl at hcontrol
  rw [hblanks] at h
  cases hrest : statement.dropWhile Token.insignificant with
  | nil =>
    rw [hrest] at hcontrol
    cases hcontrol
  | cons token rest =>
    rw [hrest] at hcontrol h
    cases token with
    | word first =>
      simp only at hcontrol
      obtain ⟨done₁, text₁, white, hat, hstrip, hwhite, -, -⟩ := @strip_blanks _ legacy _ _ _ _ h hinsignificant
      obtain ⟨done₂, text₂, hat, hstrip₂, -, hend⟩ := @strip_word _ legacy _ _ _ _ hat
      split at hcontrol
      · next hverb =>
        cases hcontrol
        refine ⟨white ++ first, strip legacy done₂ text₂, ?_, ?_, strip_end hat hend hafter, ?_⟩
        · rw [hstrip, hstrip₂, List.append_assoc]
        · intro unit hunit
          rcases List.mem_append.mp hunit with hunit | hunit
          · exact lt_of_white (hwhite unit hunit)
          · exact lt_of_lowered rfl (ascii_verb hverb) unit hunit
        · intro tail' htail'
          rw [List.map_append, map_lowerAscii_of_white hwhite, List.append_assoc, controlAt_append hwhite]
          exact controlAt_verb hverb htail'
      · obtain ⟨gap, hgap, hgapInsignificant⟩ := @dropWhile_eq rest
        rw [hgap] at hat
        cases hsecond : rest.dropWhile Token.insignificant with
        | nil =>
          rw [hsecond] at hcontrol
          cases hcontrol
        | cons token rest' =>
          rw [hsecond] at hcontrol hat
          cases token with
          | word second =>
            simp only at hcontrol
            split at hcontrol
            · next hpair =>
              cases hcontrol
              obtain ⟨done₃, text₃, white', hat, hstrip₃, hwhite', hne, hnil⟩ :=
                @strip_blanks _ legacy _ _ _ _ hat hgapInsignificant
              obtain ⟨done₄, text₄, hat, hstrip₄, hstart, hend'⟩ := @strip_word _ legacy _ _ _ _ hat
              have hgapNe : gap ≠ [] := by
                -- Two words have something between them.
                intro hgapNil
                rw [hnil hgapNil] at hstart
                cases hhead : text₂.head? with
                | none =>
                  rw [hhead] at hstart
                  cases hstart
                | some unit =>
                  rw [hhead] at hstart hend
                  have hunit : identStart unit = true := hstart
                  have hcont : identCont unit = true := by
                    rw [identCont, dollarCont, hunit, Bool.true_or, Bool.true_or]
                  cases hcont.symm.trans hend
              refine ⟨white ++ (first ++ (white' ++ second)), strip legacy done₄ text₄, ?_, ?_,
                strip_end hat hend' hafter, ?_⟩
              · rw [hstrip, hstrip₂, hstrip₃, hstrip₄]
                simp only [List.append_assoc]
              · have hascii := ascii_pair hpair
                intro unit hunit
                rcases List.mem_append.mp hunit with hunit | hunit
                · exact lt_of_white (hwhite unit hunit)
                · rcases List.mem_append.mp hunit with hunit | hunit
                  · exact lt_of_lowered rfl (fun other hother =>
                      hascii other (List.mem_append_left _ hother)) unit hunit
                  · rcases List.mem_append.mp hunit with hunit | hunit
                    · exact lt_of_white (hwhite' unit hunit)
                    · exact lt_of_lowered rfl (fun other hother =>
                        hascii other (List.mem_append_right _ hother)) unit hunit
              · intro tail' htail'
                rw [List.map_append, map_lowerAscii_of_white hwhite, List.append_assoc,
                  controlAt_append hwhite, List.map_append, List.map_append,
                  map_lowerAscii_of_white hwhite', List.append_assoc, List.append_assoc]
                exact controlAt_pair hpair hwhite' (hne hgapNe) htail'
            · cases hcontrol
          | _ => cases hcontrol
    | _ => cases hcontrol

theorem keywordEnd_lowered {unit : Fin 65536} (h : keywordEnd unit = true) :
    unit.1 < 128 ∧ lowerAscii unit = unit ∧ ∀ back, controlEnd (unit :: back) = true := by
  simp only [keywordEnd, Bool.or_eq_true, decide_eq_true_eq] at h
  rcases h with (rfl | hwhite) | rfl
  · exact ⟨by decide, by decide, fun back => rfl⟩
  · refine ⟨lt_of_white hwhite, lowerAscii_of_white hwhite, fun back => ?_⟩
    simp [controlEnd, jsSpace_of_white hwhite]
  · exact ⟨by decide, by decide, fun back => rfl⟩

/-- Lowered, the scan of a control statement at the start of a statement has a match. -/
theorem transactionControl_of_strip {lower : LowerCase} {front control tail : Units}
    (hfront : front = [] ∨ ∃ front', front = front' ++ [semicolon])
    (hcontrol : ∀ unit ∈ control, unit.1 < 128) (htail : tail.head?.all keywordEnd = true)
    (hmatch : ∀ tail', controlEnd tail' = true → controlAt (control.map lowerAscii ++ tail') = true) :
    transactionControl (lower.toLowerCase (front ++ (control ++ tail))) = true := by
  -- The keyword with the unit after it is ASCII, what stands around it is not known.
  have hlowered : ∀ separator front', (∀ unit ∈ separator, unit.1 < 128) → ∃ front'' tail',
      lower.toLowerCase (front' ++ separator ++ (control ++ tail)) =
        front'' ++ separator.map lowerAscii ++ (control.map lowerAscii ++ tail') ∧
          (front' = [] → front'' = []) ∧ controlEnd tail' = true := by
    intro separator front' hseparator
    cases tail with
    | nil =>
      obtain ⟨front'', back, hlower, hnil, hback⟩ := lower.ascii front' (separator ++ control) [] <| by
        intro unit hunit
        exact (List.mem_append.mp hunit).elim (hseparator unit) (hcontrol unit)
      refine ⟨front'', [], ?_, hnil, rfl⟩
      rw [hback rfl] at hlower
      simpa using hlower
    | cons unit tail =>
      obtain ⟨hunit, hsame, hend⟩ := keywordEnd_lowered (show keywordEnd unit = true from htail)
      obtain ⟨front'', back, hlower, hnil, -⟩ :=
        lower.ascii front' (separator ++ control ++ [unit]) tail <| by
          intro other hother
          rcases List.mem_append.mp hother with hother | hother
          · exact (List.mem_append.mp hother).elim (hseparator other) (hcontrol other)
          · rw [List.mem_singleton.mp hother]
            exact hunit
      refine ⟨front'', unit :: back, ?_, hnil, hend back⟩
      simpa [hsame] using hlower
  rcases hfront with rfl | ⟨front', rfl⟩
  · obtain ⟨front'', tail', hlower, hnil, hend⟩ := hlowered [] [] fun _ h => absurd h List.not_mem_nil
    have hat := hmatch tail' hend
    rw [hnil rfl] at hlower
    simp only [List.append_nil, List.nil_append, List.map_nil] at hlower
    rw [List.nil_append, hlower, transactionControl, hat, Bool.true_or]
  · obtain ⟨front'', tail', hlower, -, hend⟩ := hlowered [semicolon] front' <| by
      intro unit hunit
      rw [List.mem_singleton.mp hunit]
      decide
    rw [hlower, transactionControl, List.append_assoc]
    apply Bool.or_eq_true_iff.mpr
    exact .inr (controlAfterSemicolon_append front'' _ (hmatch tail' hend))

theorem asciiLowered (front text back : Units) (_ : ∀ unit ∈ text, unit.1 < 128) :
    ∃ front' back', (front ++ text ++ back).map lowerAscii = front' ++ text.map lowerAscii ++ back' ∧
      (front = [] → front' = []) ∧ (back = [] → back' = []) := by
  refine ⟨front.map lowerAscii, back.map lowerAscii, by simp, ?_, ?_⟩
  · rintro rfl
    rfl
  · rintro rfl
    rfl

/-- `toLowerCase` on ASCII text. -/
def asciiLowerCase : LowerCase := ⟨List.map lowerAscii, asciiLowered⟩

/-- An escape literal with a continuation that has a backslash, and a plain literal with a backslash. -/
def mixedLiterals : Units := ofString "SELECT E'a'\n'\\'', '\\'; COMMIT; SELECT 1"

/-- A continuation with a backslash and no plain literal with one. -/
def continuedLiteral : Units := ofString "SELECT E'a'\n'\\''; COMMIT"

end ActiveTs.Sql.NativeSql
