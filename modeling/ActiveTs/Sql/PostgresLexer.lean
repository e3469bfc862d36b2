import ActiveTs.Sql.NativeSql

/-! # The lexical rules of PostgreSQL

White space, comments, literals, quoted identifiers, dollar quotes and words, and the statements that
semicolons separate. A text that a rule leaves open has no tokens. -/

namespace ActiveTs.Sql.PostgresLexer

open Utf16 (Units ofString)
open NativeSql (newline doubleQuote dollar quote star dash slash semicolon backslash openParen letter digit
  escapePrefix lineEnd lowerAscii)

/-! ## Units -/

/-- `[ \t\n\r\f\v]` -/
def whiteUnit (unit : Fin 65536) : Bool := unit.1 = 32 || (9 ≤ unit.1 && unit.1 ≤ 13)

/-- `ident_start` and `dolq_start`: letters, the underscore and whatever is not ASCII. -/
def identStart (unit : Fin 65536) : Bool := letter unit || unit.1 = 95 || 128 ≤ unit.1

/-- `dolq_cont` -/
def dollarCont (unit : Fin 65536) : Bool := identStart unit || digit unit

/-- `ident_cont` -/
def identCont (unit : Fin 65536) : Bool := dollarCont unit || unit = dollar

/-! ## Tokens -/

inductive LiteralKind
  /-- The backslash rule of `standard_conforming_strings`. -/
  | plain
  /-- With the `E` in front. -/
  | escape (unit : Fin 65536)
  /-- Goes on with a literal of an earlier line, by the rule of that one. -/
  | continued (escapes : Bool)
  deriving DecidableEq

/-- A backslash escapes the next unit. -/
def LiteralKind.escapes (standardConformingStrings : Bool) : LiteralKind → Bool
  | plain => !standardConformingStrings
  | escape _ => true
  | continued escapes => escapes

/-- Bodies run up to the mark that closes them and have it. -/
inductive Token
  | white (unit : Fin 65536)
  | lineComment (body : Units)
  | blockComment (body : Units)
  | literal (kind : LiteralKind) (body : Units)
  | quotedIdentifier (body : Units)
  | dollarQuote (tag body : Units)
  | word (text : Units)
  | number (text : Units)
  | parameter (digits : Units)
  | other (unit : Fin 65536)
  deriving DecidableEq

namespace Token

def text : Token → Units
  | white unit => [unit]
  | lineComment body => dash :: dash :: body
  | blockComment body => slash :: star :: body
  | literal (.escape unit) body => unit :: quote :: body
  | literal _ body => quote :: body
  | quotedIdentifier body => doubleQuote :: body
  | dollarQuote tag body => tag ++ body
  | word text => text
  | number text => text
  | parameter digits => dollar :: digits
  | other unit => [unit]

def insignificant : Token → Bool
  | white _ => true
  | lineComment _ => true
  | blockComment _ => true
  | _ => false

end Token

/-! ## Bodies -/

def consumed (front : Units) (body : Option (Units × Units)) : Option (Units × Units) :=
  body.map fun body => (front ++ body.1, body.2)

/-- Block comments nest. -/
def commentBody : Nat → Units → Option (Units × Units)
  | 0, text => some ([], text)
  | _ + 1, [] => none
  | _ + 1, [_] => none
  | depth + 1, first :: second :: rest =>
    if first = slash && second = star then consumed [first, second] (commentBody (depth + 2) rest)
    else if first = star && second = slash then consumed [first, second] (commentBody depth rest)
    else consumed [first] (commentBody (depth + 1) (second :: rest))

/-- Up to the closing mark; a doubled mark stands for itself. -/
def delimited (mark : Fin 65536) (escapes : Bool) : Units → Option (Units × Units)
  | [] => none
  | [unit] => if unit = mark then some ([unit], []) else none
  | current :: next :: rest =>
    if escapes && current = backslash then consumed [current, next] (delimited mark escapes rest)
    else if current = mark then
      if next = mark then consumed [current, next] (delimited mark escapes rest)
      else some ([current], next :: rest)
    else consumed [current] (delimited mark escapes (next :: rest))

/-- `dolqdelim` at a dollar sign, by the text after it. -/
def dollarDelimiter (rest : Units) : Option Units :=
  if rest.head? = some dollar then some [dollar, dollar]
  else if rest.head?.any identStart && (rest.dropWhile dollarCont).head? = some dollar then
    some (dollar :: rest.takeWhile dollarCont ++ [dollar])
  else none

/-- Up to the next place of the delimiter. -/
def dollarBody (tag : Units) : Units → Option (Units × Units)
  | [] => none
  | unit :: rest =>
    if tag.isPrefixOf (unit :: rest) then some (tag, (unit :: rest).drop tag.length)
    else consumed [unit] (dollarBody tag rest)

/-! ## The lexer -/

/-- A literal that ended: its backslash rule, and whether a line ended since. -/
abbrev Pending := Option (Bool × Bool)

/-- White space and line comments alone may stand before the continuation of a literal. -/
def Pending.after (standardConformingStrings : Bool) (pending : Pending) : Token → Pending
  | .white unit => pending.map fun p => (p.1, p.2 || lineEnd unit)
  | .lineComment _ => pending
  | .literal kind _ => some (kind.escapes standardConformingStrings, false)
  | _ => none

/-- The kind of a literal without the `E`. -/
def Pending.kind : Pending → LiteralKind
  | some (escapes, true) => .continued escapes
  | _ => .plain

section
variable (standardConformingStrings : Bool)

def nextToken (pending : Pending) (unit : Fin 65536) (rest : Units) : Option (Token × Units) :=
  if whiteUnit unit then some (.white unit, rest)
  else if unit = dash && rest.head? = some dash then
    let body := rest.tail.span fun unit => !lineEnd unit
    some (.lineComment body.1, body.2)
  else if unit = slash && rest.head? = some star then
    (commentBody 1 rest.tail).map fun body => (.blockComment body.1, body.2)
  else if unit = quote then
    (delimited quote (pending.kind.escapes standardConformingStrings) rest).map fun body =>
      (.literal pending.kind body.1, body.2)
  else if escapePrefix unit && rest.head? = some quote then
    (delimited quote true rest.tail).map fun body => (.literal (.escape unit) body.1, body.2)
  else if unit = doubleQuote then
    (delimited doubleQuote false rest).map fun body => (.quotedIdentifier body.1, body.2)
  else if unit = dollar then
    match dollarDelimiter rest with
    | some tag =>
      (dollarBody tag (rest.drop (tag.length - 1))).map fun body => (.dollarQuote tag body.1, body.2)
    | none =>
      if rest.head?.any digit then some (.parameter (rest.takeWhile digit), rest.dropWhile digit)
      else some (.other unit, rest)
  else if identStart unit then
    some (.word (unit :: rest.takeWhile identCont), rest.dropWhile identCont)
  else if digit unit then some (.number (unit :: rest.takeWhile digit), rest.dropWhile digit)
  else some (.other unit, rest)

def lexFrom : Nat → Pending → Units → Option (List Token)
  | _, _, [] => some []
  | 0, _, _ :: _ => none
  | fuel + 1, pending, unit :: rest => do
    let next ← nextToken standardConformingStrings pending unit rest
    let tokens ← lexFrom fuel (pending.after standardConformingStrings next.1) next.2
    some (next.1 :: tokens)

/-- Every token has a unit, so as many tokens as units are enough. -/
def lex (text : Units) : Option (List Token) :=
  lexFrom standardConformingStrings text.length none text

end

/-! ## Statements -/

/-- A statement starts at the beginning or after a semicolon. -/
def startsStatement (before : List Token) : Bool :=
  before.isEmpty || before.getLast? = some (.other semicolon)

def controlVerbs : List Units :=
  ["begin", "commit", "end", "rollback", "abort", "savepoint", "release"].map ofString

def controlPairs : List (Units × Units) :=
  [("start", "transaction"), ("prepare", "transaction")].map fun words =>
    (ofString words.1, ofString words.2)

/-- The tokens after the control keywords that a statement starts with. -/
def afterControl (statement : List Token) : Option (List Token) :=
  match statement.dropWhile Token.insignificant with
  | .word first :: rest =>
    if controlVerbs.contains (first.map lowerAscii) then some rest
    else
      match rest.dropWhile Token.insignificant with
      | .word second :: rest =>
        if controlPairs.contains (first.map lowerAscii, second.map lowerAscii) then some rest else none
      | _ => none
  | _ => none

end ActiveTs.Sql.PostgresLexer
