import ActiveTs.Lib.JsNumber
import ActiveTs.Lib.Utf16

/-! # The guard of native SQL

Inside a transaction the text of a native query is checked for transaction control statements. The check
blanks literals and comments twice, with each backslash rule, and looks for a control keyword at the start
of a statement. -/

namespace ActiveTs.Sql.NativeSql

open Utf16 (Units ofString)

/-! ## Units -/

def newline : Fin 65536 := 10
def carriageReturn : Fin 65536 := 13
def space : Fin 65536 := 32
def doubleQuote : Fin 65536 := 34
def dollar : Fin 65536 := 36
def quote : Fin 65536 := 39
def openParen : Fin 65536 := 40
def star : Fin 65536 := 42
def dash : Fin 65536 := 45
def slash : Fin 65536 := 47
def semicolon : Fin 65536 := 59
def backslash : Fin 65536 := 92

def letter (unit : Fin 65536) : Bool :=
  (65 ≤ unit.1 && unit.1 ≤ 90) || (97 ≤ unit.1 && unit.1 ≤ 122)

def digit (unit : Fin 65536) : Bool := 48 ≤ unit.1 && unit.1 ≤ 57

/-- `[A-Za-z_\u0080-\uFFFF]` -/
def tagStart (unit : Fin 65536) : Bool := letter unit || unit.1 = 95 || 128 ≤ unit.1

/-- `[A-Za-z0-9_\u0080-\uFFFF]` -/
def tagUnit (unit : Fin 65536) : Bool := tagStart unit || digit unit

/-- `[A-Za-z0-9_$\u0080-\uFFFF]` -/
def identifierUnit (unit : Fin 65536) : Bool := tagUnit unit || unit = dollar

/-- `E` or `e`. -/
def escapePrefix (unit : Fin 65536) : Bool := unit.1 = 69 || unit.1 = 101

def lineEnd (unit : Fin 65536) : Bool := unit = newline || unit = carriageReturn

/-- What the scan writes for a unit of a literal or a comment. -/
def blank (unit : Fin 65536) : Fin 65536 := if unit = newline then newline else space

/-! ## The loops of the scan

Each gives the units that it passes and those after them. -/

/-- To the end of the line. -/
def lineComment (text : Units) : Units × Units := text.span fun unit => !lineEnd unit

/-- To the end of a block comment of this depth. -/
def blockComment : Nat → Units → Units × Units
  | 0, text => ([], text)
  | _ + 1, [] => ([], [])
  | _ + 1, [unit] => ([unit], [])
  | depth + 1, first :: second :: rest =>
    if first = slash && second = star then
      let passed := blockComment (depth + 2) rest
      (first :: second :: passed.1, passed.2)
    else if first = star && second = slash then
      let passed := blockComment depth rest
      (first :: second :: passed.1, passed.2)
    else
      let passed := blockComment (depth + 1) (second :: rest)
      (first :: passed.1, passed.2)

/-- Past the closing quote; a doubled quote does not close. -/
def quoted (mark : Fin 65536) (escapeBackslashes : Bool) : Units → Units × Units
  | [] => ([], [])
  | [unit] => ([unit], [])
  | current :: next :: rest =>
    if (escapeBackslashes && current = backslash) || (current = mark && next = mark) then
      let passed := quoted mark escapeBackslashes rest
      (current :: next :: passed.1, passed.2)
    else if current = mark then ([current], next :: rest)
    else
      let passed := quoted mark escapeBackslashes (next :: rest)
      (current :: passed.1, passed.2)

/-- Past the next place of the tag, or to the end. -/
def untilTag (tag : Units) : Units → Units × Units
  | [] => ([], [])
  | unit :: rest =>
    if tag.isPrefixOf (unit :: rest) then (tag, (unit :: rest).drop tag.length)
    else
      let passed := untilTag tag rest
      (unit :: passed.1, passed.2)

/-- The tag at a dollar sign, by the text after it. -/
def dollarTag (rest : Units) : Option Units :=
  if rest.head? = some dollar then some [dollar, dollar]
  else if !rest.head?.any tagStart then none
  else if (rest.dropWhile tagUnit).head? = some dollar then
    some (dollar :: rest.takeWhile tagUnit ++ [dollar])
  else none

/-- `last` is `text[start - 1]`. -/
def postgresDollarQuoteTag (last : Option (Fin 65536)) (rest : Units) : Option Units :=
  if last.any identifierUnit then none else dollarTag rest

/-- `escapeStringPrefix`, with the units in front of the quote, the nearest first. -/
def escapeStringPrefix (done : Units) : Bool :=
  done.head?.any escapePrefix && !done.tail.head?.any identifierUnit

/-- One round of the main loop at `unit`: the units passed, whether they are blanked, and the rest. -/
def scan (legacyBackslashEscapes : Bool) (done : Units) (unit : Fin 65536) (rest : Units) :
    Units × Bool × Units :=
  if unit = dash && rest.head? = some dash then
    let passed := lineComment rest.tail
    (unit :: dash :: passed.1, true, passed.2)
  else if unit = slash && rest.head? = some star then
    let passed := blockComment 1 rest.tail
    (unit :: star :: passed.1, true, passed.2)
  else if unit = quote || unit = doubleQuote then
    let passed := quoted unit (unit = quote && (legacyBackslashEscapes || escapeStringPrefix done)) rest
    (unit :: passed.1, true, passed.2)
  else if unit = dollar then
    match postgresDollarQuoteTag done.head? rest with
    | some tag =>
      let passed := untilTag tag (rest.drop (tag.length - 1))
      (tag ++ passed.1, true, passed.2)
    | none => ([unit], false, rest)
  else ([unit], false, rest)

/-- The main loop; `done` has the units before the index, the nearest first. -/
def stripFrom (legacyBackslashEscapes : Bool) : Nat → Units → Units → Units
  | 0, _, _ => []
  | _ + 1, _, [] => []
  | fuel + 1, done, unit :: rest =>
    let round := scan legacyBackslashEscapes done unit rest
    (if round.2.1 then round.1.map blank else round.1) ++
      stripFrom legacyBackslashEscapes fuel (round.1.reverse ++ done) round.2.2

/-- Every round passes a unit, so as many rounds as units reach the end of the text. -/
def stripPostgresSqlLiteralsAndComments (text : Units) (legacyBackslashEscapes : Bool) : Units :=
  stripFrom legacyBackslashEscapes text.length [] text

/-! ## The expression -/

/-- `\s` -/
def jsSpace (unit : Fin 65536) : Bool := JsNumber.whitespace (Char.ofNat unit.1)

/-- The words of the alternatives; between two words stands `\s+`. -/
def controlWords : List (List Units) :=
  [["begin"], ["commit"], ["end"], ["rollback"], ["abort"], ["savepoint"], ["release"],
    ["release", "savepoint"], ["prepare", "transaction"], ["start", "transaction"],
    ["set", "transaction"], ["set", "session", "characteristics", "as", "transaction"]].map
      fun words => words.map ofString

/-- `(?=$|[;\s(])` -/
def controlEnd (rest : Units) : Bool :=
  rest.head?.all fun unit => unit = semicolon || jsSpace unit || unit = openParen

def matchWords : List Units → Units → Bool
  | [], rest => controlEnd rest
  | [word], rest => word.isPrefixOf rest && controlEnd (rest.drop word.length)
  | word :: words, rest =>
    word.isPrefixOf rest && (rest.drop word.length).head?.any jsSpace &&
      matchWords words ((rest.drop word.length).dropWhile jsSpace)

/-- A match that starts here, after `(^|;)`. -/
def controlAt (text : Units) : Bool :=
  controlWords.any fun words => matchWords words (text.dropWhile jsSpace)

def controlAfterSemicolon : Units → Bool
  | [] => false
  | unit :: rest => unit = semicolon && controlAt rest || controlAfterSemicolon rest

/-- `transactionControl.test(text)` -/
def transactionControl (text : Units) : Bool := controlAt text || controlAfterSemicolon text

def lowerAscii (unit : Fin 65536) : Fin 65536 :=
  if 65 ≤ unit.1 ∧ unit.1 ≤ 90 then unit + 32 else unit

/-- `String.prototype.toLowerCase`: ASCII text is lowered unit by unit wherever it stands. -/
structure LowerCase where
  toLowerCase : Units → Units
  ascii : ∀ front text back, (∀ unit ∈ text, unit.1 < 128) →
    ∃ front' back', toLowerCase (front ++ text ++ back) = front' ++ text.map lowerAscii ++ back' ∧
      (front = [] → front' = []) ∧ (back = [] → back' = [])

/-- The text is let through. -/
def assertPostgresNativeSqlTransactionSafe (lower : LowerCase) (text : Units) : Bool :=
  let standard := lower.toLowerCase (stripPostgresSqlLiteralsAndComments text false)
  let legacy := lower.toLowerCase (stripPostgresSqlLiteralsAndComments text true)
  !(transactionControl standard || transactionControl legacy)

end ActiveTs.Sql.NativeSql
