import ActiveTs.Lib.Framing
import ActiveTs.Lib.JsNumber
import ActiveTs.Lib.Utf16

/-! # JSON texts

`JSON.stringify` of data and `JSON.parse`. A string is quoted so that its text is well-formed Unicode:
surrogates outside a pair are escaped. -/

namespace JsonText

open Utf16 (Units units isHigh isLow)
open Framing (Ends joinTexts)

/-- Data as JSON has it; an object may name a member more than once. -/
inductive Value
  | null
  | bool (value : Bool)
  | number (value : JsNumber)
  | string (value : Units)
  | array (items : List Value)
  | object (members : List (Units × Value))

namespace Value

/-- Induction with the hypothesis for every item and every member. -/
@[elab_as_elim, induction_eliminator]
theorem induction {motive : Value → Prop} (null : motive null) (bool : ∀ value, motive (bool value))
    (number : ∀ value, motive (number value)) (string : ∀ value, motive (string value))
    (array : ∀ items, (∀ item ∈ items, motive item) → motive (array items))
    (object : ∀ members, (∀ member ∈ members, motive member.2) → motive (object members)) :
    ∀ value, motive value := by
  intro value
  refine @Value.rec motive (fun items => ∀ item ∈ items, motive item)
    (fun members => ∀ member ∈ members, motive member.2) (fun member => motive member.2) null bool
    number string array object ?_ ?_ ?_ ?_ ?_ value
  · exact fun item hitem => absurd hitem List.not_mem_nil
  · exact fun item items hitem hitems => List.forall_mem_cons.mpr ⟨hitem, hitems⟩
  · exact fun member hmember => absurd hmember List.not_mem_nil
  · exact fun member members hmember hmembers => List.forall_mem_cons.mpr ⟨hmember, hmembers⟩
  · exact fun name value hvalue => hvalue

/-- All numbers are ones that their texts are read as: finite, and not `-0`. -/
inductive Plain : Value → Prop
  | null : Plain null
  | bool (value : Bool) : Plain (bool value)
  | number (value : Binary64.Finite) : Plain (number (.finite value))
  | string (value : Units) : Plain (string value)
  | array {items : List Value} : (∀ item ∈ items, Plain item) → Plain (array items)
  | object {members : List (Units × Value)} : (∀ member ∈ members, Plain member.2) →
    Plain (object members)

end Value

/-! ## stringify -/

def hexDigit (n : Nat) : Char := if n < 10 then Char.ofNat (48 + n) else Char.ofNat (87 + n)

def hexEscape (unit : Fin 65536) : List Char :=
  ['\\', 'u', hexDigit (unit.1 / 4096), hexDigit (unit.1 / 256 % 16), hexDigit (unit.1 / 16 % 16),
    hexDigit (unit.1 % 16)]

def quoteUnit (unit : Fin 65536) : List Char :=
  if unit = 8 then ['\\', 'b']
  else if unit = 9 then ['\\', 't']
  else if unit = 10 then ['\\', 'n']
  else if unit = 12 then ['\\', 'f']
  else if unit = 13 then ['\\', 'r']
  else if unit = 34 then ['\\', '"']
  else if unit = 92 then ['\\', '\\']
  else if unit.1 < 32 || isHigh unit || isLow unit then hexEscape unit
  else [Char.ofNat unit.1]

def quote : Units → List Char
  | [] => []
  | [unit] => quoteUnit unit
  | high :: low :: rest =>
    if isHigh high && isLow low then
      Char.ofNat (0x10000 + (high.1 - 0xD800) * 0x400 + (low.1 - 0xDC00)) :: quote rest
    else quoteUnit high ++ quote (low :: rest)

def stringText (value : Units) : List Char := '"' :: (quote value ++ ['"'])

def numberText : JsNumber → List Char
  | .nan => "null".toList
  | .infinite _ => "null".toList
  | value => JsNumber.text value

mutual

def text : Value → List Char
  | .null => "null".toList
  | .bool value => if value then "true".toList else "false".toList
  | .number value => numberText value
  | .string value => stringText value
  | .array items => '[' :: (joinTexts ',' (itemTexts items) ++ [']'])
  | .object members => '\x7b' :: (joinTexts ',' (memberTexts members) ++ ['\x7d'])

def itemTexts : List Value → List (List Char)
  | [] => []
  | item :: items => text item :: itemTexts items

def memberTexts : List (Units × Value) → List (List Char)
  | [] => []
  | (name, value) :: members => (stringText name ++ ':' :: text value) :: memberTexts members

end

theorem text_number (value : JsNumber) : text (.number value) = numberText value := rfl

theorem text_string (value : Units) : text (.string value) = stringText value := rfl

theorem text_array (items : List Value) :
    text (.array items) = '[' :: (joinTexts ',' (itemTexts items) ++ [']']) := rfl

theorem text_object (members : List (Units × Value)) :
    text (.object members) = '\x7b' :: (joinTexts ',' (memberTexts members) ++ ['\x7d']) := rfl

/-! ## parse -/

def isSpace (c : Char) : Bool := c = ' ' || c = '\t' || c = '\n' || c = '\r'

def skipSpace (text : List Char) : List Char := text.dropWhile isSpace

def hexValue (c : Char) : Option Nat :=
  if c.isDigit then some (c.toNat - 48)
  else if 97 ≤ c.toNat ∧ c.toNat ≤ 102 then some (c.toNat - 87)
  else if 65 ≤ c.toNat ∧ c.toNat ≤ 70 then some (c.toNat - 55)
  else none

def hexUnit (a b c d : Char) : Option (Fin 65536) := do
  let a ← hexValue a
  let b ← hexValue b
  let c ← hexValue c
  let d ← hexValue d
  some (Fin.ofNat 65536 (a * 4096 + b * 256 + c * 16 + d))

/-- The unit of a letter after a backslash. -/
def escaped (c : Char) : Option (Fin 65536) :=
  if c = 'b' then some 8
  else if c = 't' then some 9
  else if c = 'n' then some 10
  else if c = 'f' then some 12
  else if c = 'r' then some 13
  else if c = '"' then some 34
  else if c = '\\' then some 92
  else if c = '/' then some 47
  else none

def prepend (front : Units) (result : Option (Units × List Char)) : Option (Units × List Char) :=
  result.map fun parsed => (front ++ parsed.1, parsed.2)

/-- What follows the opening quote of a string. -/
def parseString : List Char → Option (Units × List Char)
  | [] => none
  | c :: rest =>
    if c = '"' then some ([], rest)
    else if c = '\\' then
      match rest with
      | [] => none
      | e :: rest =>
        if e = 'u' then
          match rest with
          | h₁ :: h₂ :: h₃ :: h₄ :: rest => do
            let unit ← hexUnit h₁ h₂ h₃ h₄
            prepend [unit] (parseString rest)
          | _ => none
        else do
          let unit ← escaped e
          prepend [unit] (parseString rest)
    else if c.toNat < 32 then none
    else prepend (units c) (parseString rest)

def numberToken (c : Char) : Bool := JsNumber.numberChar c || c = 'E'

/-- A number starts with no zero in front, and has digits after a point. -/
def parseLiteral (token : List Char) : Option JsNumber.Literal :=
  let whole := token.takeWhile Char.isDigit
  let rest := token.dropWhile Char.isDigit
  if whole = [] ∨ 1 < whole.length ∧ whole.head? = some '0' then none
  else if rest.head? = some '.' ∧ (JsNumber.readFraction rest).1 = [] then none
  else JsNumber.readLiteral token

def parseUnsigned (negative : Bool) (token : List Char) : Option JsNumber :=
  (parseLiteral token).map fun l => JsNumber.ofRat negative (JsNumber.signed negative l.value)

def parseNumber : List Char → Option JsNumber
  | [] => none
  | c :: token => if c = '-' then parseUnsigned true token else parseUnsigned false (c :: token)

/-- A value of one character or more that is no container. -/
def parseScalar (text : List Char) : Option (Value × List Char) :=
  if "null".toList.isPrefixOf text then some (.null, text.drop 4)
  else if "true".toList.isPrefixOf text then some (.bool true, text.drop 4)
  else if "false".toList.isPrefixOf text then some (.bool false, text.drop 5)
  else (parseNumber (text.takeWhile numberToken)).map fun value =>
    (.number value, text.dropWhile numberToken)

/-- The name of a member and its colon. -/
def parseName (text : List Char) : Option (Units × List Char) :=
  match skipSpace text with
  | [] => none
  | c :: rest =>
    if c = '"' then
      match parseString rest with
      | none => none
      | some (name, rest) =>
        match skipSpace rest with
        | [] => none
        | c :: rest => if c = ':' then some (name, rest) else none
    else none

mutual

/-- `fuel` bounds the depth of the recursion. -/
def parseValue : Nat → List Char → Option (Value × List Char)
  | 0, _ => none
  | fuel + 1, text =>
    match skipSpace text with
    | [] => none
    | c :: rest =>
      if c = '"' then (parseString rest).map fun parsed => (.string parsed.1, parsed.2)
      else if c = '[' then
        if (skipSpace rest).head? = some ']' then some (.array [], (skipSpace rest).tail)
        else (parseItems fuel rest).map fun parsed => (.array parsed.1, parsed.2)
      else if c = '\x7b' then
        if (skipSpace rest).head? = some '\x7d' then some (.object [], (skipSpace rest).tail)
        else (parseMembers fuel rest).map fun parsed => (.object parsed.1, parsed.2)
      else parseScalar (c :: rest)

def parseItems : Nat → List Char → Option (List Value × List Char)
  | 0, _ => none
  | fuel + 1, text =>
    match parseValue fuel text with
    | none => none
    | some (item, rest) =>
      match skipSpace rest with
      | [] => none
      | c :: rest =>
        if c = ',' then (parseItems fuel rest).map fun parsed => (item :: parsed.1, parsed.2)
        else if c = ']' then some ([item], rest)
        else none

def parseMembers : Nat → List Char → Option (List (Units × Value) × List Char)
  | 0, _ => none
  | fuel + 1, text =>
    match parseName text with
    | none => none
    | some (name, rest) =>
      match parseValue fuel rest with
      | none => none
      | some (value, rest) =>
        match skipSpace rest with
        | [] => none
        | c :: rest =>
          if c = ',' then
            (parseMembers fuel rest).map fun parsed => ((name, value) :: parsed.1, parsed.2)
          else if c = '\x7d' then some ([(name, value)], rest)
          else none

end

/-- Every level of the recursion takes a character, or is one of a container. -/
def parse (text : List Char) : Option Value :=
  match parseValue (2 * text.length + 1) text with
  | none => none
  | some (value, rest) => if skipSpace rest = [] then some value else none

/-! ## Strings are read back -/

theorem prepend_prepend (a b : Units) (result : Option (Units × List Char)) :
    prepend a (prepend b result) = prepend (a ++ b) result := by
  cases result with
  | none => rfl
  | some parsed => simp only [prepend, Option.map_some, List.append_assoc]

theorem prepend_nil (result : Option (Units × List Char)) : prepend [] result = result := by
  cases result <;> rfl

theorem hexValue_hexDigit {n : Nat} (h : n < 16) : hexValue (hexDigit n) = some n := by
  revert n
  decide

theorem parseString_hexEscape (unit : Fin 65536) (text : List Char) :
    parseString (hexEscape unit ++ text) = prepend [unit] (parseString text) := by
  have hunit := unit.2
  have hhex : hexUnit (hexDigit (unit.1 / 4096)) (hexDigit (unit.1 / 256 % 16))
      (hexDigit (unit.1 / 16 % 16)) (hexDigit (unit.1 % 16)) = some unit := by
    rw [hexUnit, hexValue_hexDigit (by omega), hexValue_hexDigit (by omega),
      hexValue_hexDigit (by omega), hexValue_hexDigit (by omega)]
    apply congrArg some
    apply Fin.ext
    rw [Fin.val_ofNat, Nat.mod_eq_of_lt] <;> omega
  simp only [hexEscape, List.cons_append, List.nil_append]
  rw [parseString.eq_def]
  dsimp only
  rw [if_neg (by decide), if_pos rfl, if_pos rfl, hhex]
  rfl

theorem parseString_escaped {c : Char} {unit : Fin 65536} (h : escaped c = some unit) (hu : c ≠ 'u')
    (text : List Char) : parseString ('\\' :: c :: text) = prepend [unit] (parseString text) := by
  rw [parseString.eq_def]
  dsimp only
  rw [if_neg (by decide), if_pos rfl, if_neg hu, h]
  rfl

theorem parseString_raw {c : Char} (hquote : c ≠ '"') (hbackslash : c ≠ '\\') (h : 32 ≤ c.toNat)
    (text : List Char) : parseString (c :: text) = prepend (units c) (parseString text) := by
  rw [parseString.eq_def]
  dsimp only
  rw [if_neg hquote, if_neg hbackslash, if_neg (Nat.not_lt.mpr h)]

theorem parseString_quoteUnit (unit : Fin 65536) (text : List Char) :
    parseString (quoteUnit unit ++ text) = prepend [unit] (parseString text) := by
  unfold quoteUnit
  iterate 7
    split
    · rename_i h
      rw [h]
      exact parseString_escaped rfl (by decide) text
  split
  · exact parseString_hexEscape unit text
  · rename_i hquote hbackslash h
    simp only [Bool.or_eq_true, decide_eq_true_iff, not_or, Bool.not_eq_true, Nat.not_lt] at h
    obtain ⟨hnat, hunits⟩ := Utf16.units_single h.1.2 h.2
    have hne {c : Char} {u : Fin 65536} (hu : c.toNat = u.1) (hne : unit ≠ u) :
        Char.ofNat unit.1 ≠ c := by
      intro hc
      rw [hc, hu] at hnat
      exact hne (Fin.ext hnat.symm)
    rw [List.singleton_append, parseString_raw (hne (u := 34) rfl hquote) (hne (u := 92) rfl hbackslash)
      (by rw [hnat]; exact h.1.1), hunits]

theorem parseString_quote (value : Units) (text : List Char) :
    parseString (quote value ++ text) = prepend value (parseString text) := by
  fun_induction quote value with
  | case1 => exact (prepend_nil _).symm
  | case2 unit => exact parseString_quoteUnit unit text
  | case3 high low rest h ih =>
    have hunits := Utf16.units_pair h
    obtain ⟨c, hc⟩ : ∃ c,
        Char.ofNat (0x10000 + (high.1 - 0xD800) * 0x400 + (low.1 - 0xDC00)) = c := ⟨_, rfl⟩
    rw [hc] at hunits ⊢
    have hlarge : 0x10000 ≤ c.toNat := by
      apply Nat.not_lt.mp
      intro hsmall
      rw [Utf16.units_of_lt hsmall] at hunits
      cases hunits
    have hne {d : Char} (hd : d.toNat < 0x10000) : c ≠ d := by
      rintro rfl
      omega
    rw [List.cons_append, parseString_raw (hne (by decide)) (hne (by decide)) (by omega), hunits, ih,
      prepend_prepend]
    rfl
  | case4 high low rest h ih =>
    rw [List.append_assoc, parseString_quoteUnit, ih, prepend_prepend]
    rfl

theorem parseString_text (value : Units) (rest : List Char) :
    parseString (quote value ++ '"' :: rest) = some (value, rest) := by
  have hend : parseString ('"' :: rest) = some ([], rest) := by
    rw [parseString.eq_def]
    rfl
  rw [parseString_quote, hend, prepend, Option.map_some, List.append_nil]

/-! ## Numbers are read back -/

theorem digitChar_ne_zero {n : Nat} (h : n < 10) (hn : n ≠ 0) : [n.digitChar].head? ≠ some '0' := by
  revert n
  decide

theorem head_toDigits {n : Nat} (hn : n ≠ 0) : (Nat.toDigits 10 n).head? ≠ some '0' := by
  induction n using Nat.strongRecOn with
  | ind n ih =>
    by_cases h : n < 10
    · rw [Nat.toDigits_of_lt_base h]
      exact digitChar_ne_zero h hn
    · rw [Nat.toDigits_of_base_le (by decide) (Nat.not_lt.mp h), List.head?_append_of_ne_nil _ Nat.toDigits_ne_nil]
      exact ih (n / 10) (by omega) (by omega)

/-- The integer part of a number has no zero in front. -/
def Leading (whole : List Char) : Prop := 1 < whole.length → whole.head? ≠ some '0'

theorem leading_literalOf {s : Nat} (hs : s ≠ 0) (e : Int) : Leading (JsNumber.literalOf s e).whole := by
  have hhead := head_toDigits hs
  have htake (n : Nat) (hn : 0 < n) : ((Nat.toDigits 10 s).take n).head? ≠ some '0' := by
    rw [List.head?_take, if_neg (by omega)]
    exact hhead
  intro hlength
  simp only [JsNumber.literalOf] at hlength ⊢
  split
  · rw [List.head?_append_of_ne_nil _ Nat.toDigits_ne_nil]
    exact hhead
  · split
    · exact htake _ (by omega)
    · split
      · rename_i h1 h2 h3
        rw [if_neg h1, if_neg h2, if_pos h3] at hlength
        exact absurd hlength (Nat.lt_irrefl 1)
      · exact htake 1 Nat.one_pos

theorem leading_finiteLiteral (q : Binary64.Finite) :
    Leading (JsNumber.finiteLiteral q.1).whole := by
  have hrounds := JsNumber.finiteLiteral_rounds q
  rw [JsNumber.finiteLiteral] at hrounds ⊢
  split
  · rename_i h
    by_cases hzero : q.1.num.natAbs = 0
    · intro hlength
      rw [hzero] at hlength
      exact absurd hlength (by decide)
    · intro _
      exact head_toDigits hzero
  · rename_i h
    apply leading_literalOf
    intro hzero
    rw [if_neg h, JsNumber.literalOf_value, hzero, Nat.cast_zero, zero_mul, JsNumber.signed] at hrounds
    have hzero' : (Binary64.nearest ((0 : Int) : ℚ)) = some q.1 := by
      simpa using hrounds
    rw [Binary64.nearest_intCast (by decide)] at hzero'
    have hq : q.1 = 0 := by
      rw [← Option.some.inj hzero', Int.cast_zero]
    rw [hq] at h
    exact h (by decide)

theorem parseLiteral_text {l : JsNumber.Literal} (hl : l.WellFormed) (hleading : Leading l.whole) :
    parseLiteral l.text = some l := by
  obtain ⟨htake, hdrop⟩ := JsNumber.span_digits hl.whole (JsNumber.fractionText_head (l := l))
  have hwhole : ¬ (l.whole = [] ∨ 1 < l.whole.length ∧ l.whole.head? = some '0') := by
    rintro (h | ⟨hlength, hhead⟩)
    · exact hl.whole_ne_nil h
    · exact hleading hlength hhead
  have hpoint : ¬ ((JsNumber.Literal.fractionText l.fraction ++
      JsNumber.Literal.exponentText l.exponent).head? = some '.' ∧ l.fraction = []) := by
    rintro ⟨hhead, hfraction⟩
    rw [hfraction, JsNumber.Literal.fractionText, List.nil_append] at hhead
    cases hexponent : l.exponent with
    | none =>
      rw [hexponent] at hhead
      cases hhead
    | some e =>
      rw [hexponent] at hhead
      cases hhead
  rw [parseLiteral, ← JsNumber.readLiteral_text hl]
  rw [JsNumber.Literal.text, List.append_assoc, htake, hdrop, JsNumber.readFraction_text hl]
  exact (if_neg hwhole).trans (if_neg hpoint)

theorem parseNumber_text (q : Binary64.Finite) :
    parseNumber (JsNumber.text (.finite q)) = some (.finite q) := by
  have hl := JsNumber.finiteLiteral_wellFormed q.1
  have hsign : q.1 = 0 → decide (q.1 < 0) = false := by
    intro hzero
    rw [hzero]
    rfl
  have hunsigned : parseUnsigned (decide (q.1 < 0)) (JsNumber.finiteLiteral q.1).text =
      some (.finite q) := by
    rw [parseUnsigned, parseLiteral_text hl (leading_finiteLiteral q), Option.map_some,
      JsNumber.ofRat_of_nearest (JsNumber.finiteLiteral_rounds q) hsign]
  rw [JsNumber.text]
  by_cases hneg : q.1 < 0
  · rw [decide_eq_true hneg] at hunsigned
    rw [if_pos hneg, List.singleton_append, parseNumber, if_pos rfl, hunsigned]
  · rw [decide_eq_false hneg] at hunsigned
    obtain ⟨c, whole, hwhole⟩ := List.exists_cons_of_ne_nil hl.whole_ne_nil
    have hdigit : c.isDigit = true := hl.whole c (hwhole ▸ List.mem_cons_self)
    obtain ⟨rest, hrest⟩ : ∃ rest, (JsNumber.finiteLiteral q.1).text = c :: rest := by
      rw [JsNumber.Literal.text, hwhole]
      exact ⟨_, rfl⟩
    have hminus : c ≠ '-' := by
      rintro rfl
      cases hdigit
    rw [if_neg hneg, List.nil_append, hrest, parseNumber, if_neg hminus, ← hrest, hunsigned]

/-! ## Values are read back -/

theorem skipSpace_cons {c : Char} (h : isSpace c = false) (text : List Char) :
    skipSpace (c :: text) = c :: text :=
  List.dropWhile_cons_of_neg (by rw [h]; exact Bool.false_ne_true)

theorem numberToken_of_numberChar {c : Char} (h : JsNumber.numberChar c = true) :
    numberToken c = true := by
  rw [numberToken, h, Bool.true_or]

theorem isSpace_of_numberChar {c : Char} (h : JsNumber.numberChar c = true) : isSpace c = false := by
  have hspace := JsNumber.whitespace_of_numberChar h
  rw [Bool.eq_false_iff]
  intro hc
  simp only [isSpace, Bool.or_eq_true, decide_eq_true_iff] at hc
  rcases hc with ((rfl | rfl) | rfl) | rfl
  all_goals cases hspace

/-- What may follow a number. -/
def NumberEnd (c : Char) : Prop := numberToken c = false

theorem takeWhile_token {token rest : List Char} (htoken : ∀ c ∈ token, numberToken c = true)
    (hrest : Ends NumberEnd rest) :
    (token ++ rest).takeWhile numberToken = token ∧ (token ++ rest).dropWhile numberToken = rest := by
  have hend : rest.takeWhile numberToken = [] ∧ rest.dropWhile numberToken = rest := by
    cases rest with
    | nil => exact ⟨rfl, rfl⟩
    | cons c rest =>
      have hc : numberToken c = false := hrest c rfl
      exact ⟨List.takeWhile_cons_of_neg (by simp [hc]), List.dropWhile_cons_of_neg (by simp [hc])⟩
  exact ⟨by rw [List.takeWhile_append_of_pos htoken, hend.1, List.append_nil],
    by rw [List.dropWhile_append_of_pos htoken, hend.2]⟩

theorem number_cons (q : Binary64.Finite) :
    ∃ c token, JsNumber.text (.finite q) = c :: token ∧ JsNumber.numberChar c = true ∧
      (c = '-' ∨ c.isDigit = true) := by
  have hl := JsNumber.finiteLiteral_wellFormed q.1
  obtain ⟨c, whole, hwhole⟩ := List.exists_cons_of_ne_nil hl.whole_ne_nil
  have hdigit : c.isDigit = true := hl.whole c (hwhole ▸ List.mem_cons_self)
  have hchars := JsNumber.text_numberChars q
  rw [JsNumber.text] at hchars ⊢
  by_cases hneg : q.1 < 0
  · rw [if_pos hneg] at hchars ⊢
    exact ⟨'-', _, rfl, rfl, Or.inl rfl⟩
  · rw [if_neg hneg, List.nil_append, JsNumber.Literal.text, hwhole] at hchars ⊢
    exact ⟨c, _, rfl, hchars c List.mem_cons_self, Or.inr hdigit⟩

/-- The parser reads a text as the value, whatever follows. -/
def ReadsBack (value : Value) : Prop :=
  ∀ fuel rest, 2 * (text value).length ≤ fuel → Ends NumberEnd rest →
    parseValue fuel (text value ++ rest) = some (value, rest)

theorem parseValue_cons {c : Char} (h : isSpace c = false) (fuel : Nat) (rest : List Char) :
    parseValue (fuel + 1) (c :: rest) =
      if c = '"' then (parseString rest).map fun parsed => (.string parsed.1, parsed.2)
      else if c = '[' then
        if (skipSpace rest).head? = some ']' then some (.array [], (skipSpace rest).tail)
        else (parseItems fuel rest).map fun parsed => (.array parsed.1, parsed.2)
      else if c = '\x7b' then
        if (skipSpace rest).head? = some '\x7d' then some (.object [], (skipSpace rest).tail)
        else (parseMembers fuel rest).map fun parsed => (.object parsed.1, parsed.2)
      else parseScalar (c :: rest) := by
  rw [parseValue, skipSpace_cons h]

/-- A keyword or a number. -/
theorem readsBack_scalar {value : Value} {c : Char} {token : List Char}
    (htext : text value = c :: token) (hspace : isSpace c = false) (hquote : c ≠ '"')
    (hbracket : c ≠ '[') (hbrace : c ≠ '\x7b')
    (h : ∀ rest, Ends NumberEnd rest → parseScalar (c :: token ++ rest) = some (value, rest)) :
    ReadsBack value := by
  intro fuel rest hfuel hrest
  rw [htext, List.length_cons] at hfuel
  obtain ⟨fuel, rfl⟩ : ∃ n, fuel = n + 1 := ⟨fuel - 1, by omega⟩
  rw [htext, List.cons_append, parseValue_cons hspace, if_neg hquote, if_neg hbracket, if_neg hbrace]
  exact h rest hrest

theorem parseScalar_number {q : Binary64.Finite} {rest : List Char} (hrest : Ends NumberEnd rest) :
    parseScalar (JsNumber.text (.finite q) ++ rest) = some (.number (.finite q), rest) := by
  obtain ⟨htake, hdrop⟩ := takeWhile_token
    (fun c hc => numberToken_of_numberChar (JsNumber.text_numberChars q c hc)) hrest
  obtain ⟨c, token, htext, hchar, hfirst⟩ := number_cons q
  have hkeyword {d : Char} {word : List Char} (hd : JsNumber.numberChar d = false) :
      ¬ (d :: word).isPrefixOf (JsNumber.text (.finite q) ++ rest) = true := by
    rw [htext, List.cons_append, List.isPrefixOf]
    intro h
    rw [Bool.and_eq_true, beq_iff_eq] at h
    rw [h.1, hchar] at hd
    cases hd
  have hnull : ¬ "null".toList.isPrefixOf (JsNumber.text (.finite q) ++ rest) = true :=
    hkeyword rfl
  have htrue : ¬ "true".toList.isPrefixOf (JsNumber.text (.finite q) ++ rest) = true :=
    hkeyword rfl
  have hfalse : ¬ "false".toList.isPrefixOf (JsNumber.text (.finite q) ++ rest) = true :=
    hkeyword rfl
  rw [parseScalar, if_neg hnull, if_neg htrue, if_neg hfalse, htake, hdrop, parseNumber_text]
  rfl

theorem readsBack_number (q : Binary64.Finite) : ReadsBack (.number (.finite q)) := by
  obtain ⟨c, token, htext, hchar, hfirst⟩ := number_cons q
  have hvalue : text (.number (.finite q)) = c :: token := by
    rw [text_number]
    exact htext
  have hne {d : Char} (hd : JsNumber.numberChar d = false) : c ≠ d := by
    rintro rfl
    rw [hchar] at hd
    cases hd
  apply readsBack_scalar hvalue (isSpace_of_numberChar hchar) (hne rfl) (hne rfl) (hne rfl)
  intro rest hrest
  rw [← htext]
  exact parseScalar_number hrest

theorem readsBack_string (value : Units) : ReadsBack (.string value) := by
  intro fuel rest hfuel _
  obtain ⟨fuel, rfl⟩ : ∃ n, fuel = n + 1 := ⟨fuel - 1, by
    rw [text_string, stringText, List.length_cons] at hfuel
    omega⟩
  rw [text_string, stringText, List.cons_append, parseValue_cons rfl, if_pos rfl, List.append_assoc,
    List.singleton_append, parseString_text]
  rfl

/-- The items of an array, and its end. -/
theorem parseItems_texts {items : List Value} (hne : items ≠ [])
    (h : ∀ item ∈ items, ReadsBack item) (fuel : Nat) (rest : List Char)
    (hfuel : 2 * (joinTexts ',' (itemTexts items)).length + 1 ≤ fuel) :
    parseItems fuel (joinTexts ',' (itemTexts items) ++ ']' :: rest) = some (items, rest) := by
  induction items generalizing fuel with
  | nil => exact absurd rfl hne
  | cons item items ih =>
    obtain ⟨fuel, rfl⟩ : ∃ n, fuel = n + 1 := ⟨fuel - 1, by omega⟩
    obtain ⟨hitem, hitems⟩ := List.forall_mem_cons.mp h
    cases items with
    | nil =>
      have hjoin : joinTexts ',' (itemTexts [item]) = text item := rfl
      rw [hjoin] at hfuel ⊢
      rw [parseItems, hitem fuel _ (by omega) (@Framing.ends_cons _ NumberEnd ']' rfl rest)]
      dsimp only
      rw [skipSpace_cons rfl]
      rfl
    | cons next items =>
      have hjoin : joinTexts ',' (itemTexts (item :: next :: items)) =
          text item ++ ',' :: joinTexts ',' (itemTexts (next :: items)) := rfl
      rw [hjoin, List.length_append, List.length_cons] at hfuel
      rw [hjoin, List.append_assoc, List.cons_append, parseItems,
        hitem fuel _ (by omega) (@Framing.ends_cons _ NumberEnd ',' rfl _)]
      dsimp only
      rw [skipSpace_cons rfl]
      dsimp only
      rw [if_pos rfl, ih (List.cons_ne_nil _ _) hitems fuel (by omega)]
      rfl

theorem parseName_text (name : Units) (rest : List Char) :
    parseName (stringText name ++ ':' :: rest) = some (name, rest) := by
  rw [stringText, List.cons_append, List.append_assoc, List.singleton_append, parseName,
    skipSpace_cons rfl]
  dsimp only
  rw [if_pos rfl, parseString_text]
  dsimp only
  rw [skipSpace_cons rfl]
  rfl

/-- The members of an object, and its end. -/
theorem parseMembers_texts {members : List (Units × Value)} (hne : members ≠ [])
    (h : ∀ member ∈ members, ReadsBack member.2) (fuel : Nat) (rest : List Char)
    (hfuel : 2 * (joinTexts ',' (memberTexts members)).length + 1 ≤ fuel) :
    parseMembers fuel (joinTexts ',' (memberTexts members) ++ '\x7d' :: rest) =
      some (members, rest) := by
  induction members generalizing fuel with
  | nil => exact absurd rfl hne
  | cons member members ih =>
    obtain ⟨name, value⟩ := member
    obtain ⟨fuel, rfl⟩ : ∃ n, fuel = n + 1 := ⟨fuel - 1, by omega⟩
    obtain ⟨hvalue, hmembers⟩ := List.forall_mem_cons.mp h
    cases members with
    | nil =>
      have hjoin : joinTexts ',' (memberTexts [(name, value)]) = stringText name ++ ':' :: text value :=
        rfl
      rw [hjoin, List.length_append, List.length_cons] at hfuel
      rw [hjoin, List.append_assoc, List.cons_append, parseMembers, parseName_text]
      dsimp only
      rw [hvalue fuel _ (by simp only; omega) (@Framing.ends_cons _ NumberEnd '\x7d' rfl rest)]
      dsimp only
      rw [skipSpace_cons rfl]
      rfl
    | cons next members =>
      have hjoin : joinTexts ',' (memberTexts ((name, value) :: next :: members)) =
          stringText name ++ ':' :: (text value ++
            ',' :: joinTexts ',' (memberTexts (next :: members))) := by
        change (stringText name ++ ':' :: text value) ++ _ = _
        rw [List.append_assoc, List.cons_append]
        rfl
      rw [hjoin, List.length_append, List.length_cons, List.length_append, List.length_cons] at hfuel
      rw [hjoin, List.append_assoc, List.cons_append, List.append_assoc, List.cons_append,
        parseMembers, parseName_text]
      dsimp only
      rw [hvalue fuel _ (by simp only; omega) (@Framing.ends_cons _ NumberEnd ',' rfl _)]
      dsimp only
      rw [skipSpace_cons rfl]
      dsimp only
      rw [if_pos rfl, ih (List.cons_ne_nil _ _) hmembers fuel (by omega)]
      rfl

/-- The first character of a value closes nothing. -/
theorem text_cons {value : Value} (hvalue : value.Plain) :
    ∃ c rest, text value = c :: rest ∧ isSpace c = false ∧ c ≠ ']' := by
  cases hvalue with
  | null => exact ⟨'n', _, rfl, rfl, by decide⟩
  | bool value => cases value <;> exact ⟨_, _, rfl, rfl, by decide⟩
  | number q =>
    obtain ⟨c, token, htext, hchar, -⟩ := number_cons q
    refine ⟨c, token, by rw [text_number]; exact htext, isSpace_of_numberChar hchar, ?_⟩
    rintro rfl
    cases hchar
  | string value => exact ⟨'"', _, rfl, rfl, by decide⟩
  | array _ => exact ⟨'[', _, rfl, rfl, by decide⟩
  | object _ => exact ⟨'\x7b', _, rfl, rfl, by decide⟩

theorem readsBack_array {items : List Value} (hplain : ∀ item ∈ items, item.Plain)
    (h : ∀ item ∈ items, ReadsBack item) : ReadsBack (.array items) := by
  intro fuel rest hfuel _
  rw [text_array, List.length_cons, List.length_append, List.length_singleton] at hfuel
  obtain ⟨fuel, rfl⟩ : ∃ n, fuel = n + 1 := ⟨fuel - 1, by omega⟩
  rw [text_array, List.cons_append, List.append_assoc, List.singleton_append, parseValue_cons rfl,
    if_neg (by decide), if_pos rfl]
  cases items with
  | nil => rfl
  | cons item items =>
    obtain ⟨c, token, htext, hspace, hclose⟩ := text_cons (hplain item List.mem_cons_self)
    obtain ⟨front, hfront⟩ : ∃ front, joinTexts ',' (itemTexts (item :: items)) = c :: front := by
      cases items with
      | nil => exact ⟨token, htext⟩
      | cons next items =>
        refine ⟨token ++ ',' :: joinTexts ',' (itemTexts (next :: items)), ?_⟩
        change text item ++ _ = _
        rw [htext]
        rfl
    rw [if_neg, parseItems_texts (List.cons_ne_nil _ _) h fuel rest (by omega)]
    · rfl
    · rw [hfront, List.cons_append, skipSpace_cons hspace]
      intro hhead
      exact hclose (Option.some.inj hhead)

theorem readsBack_object {members : List (Units × Value)}
    (h : ∀ member ∈ members, ReadsBack member.2) : ReadsBack (.object members) := by
  intro fuel rest hfuel _
  rw [text_object, List.length_cons, List.length_append, List.length_singleton] at hfuel
  obtain ⟨fuel, rfl⟩ : ∃ n, fuel = n + 1 := ⟨fuel - 1, by omega⟩
  rw [text_object, List.cons_append, List.append_assoc, List.singleton_append, parseValue_cons rfl,
    if_neg (by decide), if_neg (by decide), if_pos rfl]
  cases members with
  | nil => rfl
  | cons member members =>
    obtain ⟨name, value⟩ := member
    obtain ⟨front, hfront⟩ : ∃ front,
        joinTexts ',' (memberTexts ((name, value) :: members)) = '"' :: front := by
      cases members with
      | nil => exact ⟨_, rfl⟩
      | cons next members => exact ⟨_, rfl⟩
    rw [if_neg, parseMembers_texts (List.cons_ne_nil _ _) h fuel rest (by omega)]
    · rfl
    · rw [hfront, List.cons_append, skipSpace_cons rfl]
      intro hhead
      cases hhead

theorem readsBack {value : Value} (hplain : value.Plain) : ReadsBack value := by
  induction value with
  | null => exact readsBack_scalar rfl rfl (by decide) (by decide) (by decide) fun rest _ => rfl
  | bool value =>
    cases value <;>
      exact readsBack_scalar rfl rfl (by decide) (by decide) (by decide) fun rest _ => rfl
  | number value =>
    cases hplain with
    | number q => exact readsBack_number q
  | string value => exact readsBack_string value
  | array items ih =>
    cases hplain with
    | array hitems => exact readsBack_array hitems fun item hitem => ih item hitem (hitems item hitem)
  | object members ih =>
    cases hplain with
    | object hmembers =>
      exact readsBack_object fun member hmember => ih member hmember (hmembers member hmember)

/-- `JSON.parse(JSON.stringify(value))` -/
theorem parse_text {value : Value} (hplain : value.Plain) : parse (text value) = some value := by
  have hread := readsBack hplain (2 * (text value).length + 1) [] (by omega)
    (fun c hc => by cases hc)
  rw [List.append_nil] at hread
  rw [parse, hread]
  rfl

end JsonText
