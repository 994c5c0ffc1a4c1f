import StubWriter.Token
import StubWriter.Token.Escape
import StubWriter.Text.Identifier

/-!
# Cutting a text into tokens

The text is read from left to right. Blanks and comments separate tokens and count the lines; a
string may go over several lines, which are not counted. A text that cannot be cut gives a fault
with the line where it happens.

* `Lexer.step`: the next token, comment or run of blanks, and the text behind it.
* `Token.ofText`: all tokens of a text.
-/

namespace StubWriter

inductive LexicalCause where
  | badEscape (places : String)
  | stray (c : Char)
  | illegalEscape (c : Char)
  | openComment
  | openString
  | badHexFloat
  deriving DecidableEq, Repr

/-- Why a text cannot be cut into tokens: the character to show, the number of the line and the
line itself. -/
structure LexicalFault where
  cause : LexicalCause
  shown : String
  lineNumber : Nat
  line : String
  deriving DecidableEq, Repr

def LexicalCause.message : LexicalCause → String
  | .badEscape _ => "Invalid unicode escape"
  | .stray _ => "Could not process token"
  | .illegalEscape _ => "Illegal escape character"
  | .openComment => "Unterminated block comment"
  | .openString => "Unterminated character/string literal"
  | .badHexFloat => "Invalid hex float literal"

def LexicalFault.message (f : LexicalFault) : String :=
  s!"{f.cause.message} at \"{f.shown}\", line {f.lineNumber}: {f.line}"

namespace Lexer

/-- One step of the lexer: what was read, if it is a token, and what is left. -/
structure Step where
  token? : Option Token
  rest : List Char

/-- Why a step fails. The character to show stands in front of `rest`; without a `rest` it is the
one behind the last token. -/
structure Refusal where
  cause : LexicalCause
  rest? : Option (List Char)

/-- The part of `cs` in front of `rest`. -/
def taken (cs rest : List Char) : String :=
  String.ofList (cs.take (cs.length - rest.length))

/-! ## Numbers -/

/-- Reads digits, with underscores between them. `mark` is the text behind the last digit; an `l`
or `L` behind the digits takes one more character from there. -/
def afterDigits (isDigit : Char → Bool) (mark : List Char) : List Char → List Char
  | [] => mark
  | c :: rest =>
    if isDigit c then afterDigits isDigit rest rest
    else if c = '_' then afterDigits isDigit mark rest
    else if c = 'l' ∨ c = 'L' then mark.tail
    else mark

def isHexDigit (c : Char) : Bool :=
  c.isDigit || ('a' ≤ c && c ≤ 'f') || ('A' ≤ c && c ≤ 'F')

def isOctalDigit (c : Char) : Bool :=
  '0' ≤ c && c ≤ '7'

def isBinaryDigit (c : Char) : Bool :=
  c == '0' || c == '1'

/-- Drops the first character if it is one of those given. -/
def dropOne (choices : List Char) : List Char → List Char
  | c :: rest => if choices.contains c then rest else c :: rest
  | [] => []

def startsWithOne (choices : List Char) : List Char → Bool
  | c :: _ => choices.contains c
  | [] => false

/-- Decimal digits, a fraction, an exponent and a suffix, each where it is there. -/
def afterDecimal (cs : List Char) : List Char :=
  let whole := afterDigits Char.isDigit cs cs
  if !startsWithOne ['.', 'e', 'E', 'f', 'F', 'd', 'D'] whole then whole
  else
    let fraction :=
      match whole with
      | '.' :: rest => afterDigits Char.isDigit rest rest
      | rest => rest
    let exponent :=
      if startsWithOne ['e', 'E'] fraction then
        let digits := dropOne ['-', '+'] fraction.tail
        afterDigits Char.isDigit digits digits
      else fraction
    dropOne ['f', 'F', 'd', 'D'] exponent

/-- Hexadecimal digits behind `0x`; a point or an exponent makes a floating-point number, whose
exponent is required. -/
def afterHex (cs : List Char) : Except Refusal (List Char) :=
  let digits := cs.drop 2
  let whole := afterDigits isHexDigit digits digits
  if !startsWithOne ['.', 'p', 'P'] whole then .ok whole
  else
    let fraction :=
      match whole with
      | '.' :: rest => afterDigits isHexDigit rest rest
      | rest => rest
    if startsWithOne ['p', 'P'] fraction then
      let digits := dropOne ['-', '+'] fraction.tail
      .ok (dropOne ['f', 'F', 'd', 'D'] (afterDigits Char.isDigit digits digits))
    else .error ⟨.badHexFloat, some fraction⟩

/-- The text behind the number in front of `cs`. -/
def afterNumber (cs : List Char) : Except Refusal (List Char) :=
  match cs with
  | '0' :: c :: rest =>
    if c = 'x' ∨ c = 'X' then afterHex cs
    else if c = 'b' ∨ c = 'B' then .ok (afterDigits isBinaryDigit rest rest)
    else if isOctalDigit c then .ok (afterDigits isOctalDigit (c :: rest) (c :: rest))
    else .ok (afterDecimal cs)
  | _ => .ok (afterDecimal cs)

/-! ## Strings -/

/-- Where a string stands: outside an escape, behind the backslash, behind an octal digit that two
more may follow, behind one that one more may follow. -/
inductive StringState where
  | plain
  | escape
  | longOctal
  | shortOctal

/-- The text behind a string that `quote` ends. -/
def afterString (quote : Char) : StringState → List Char → Except Refusal (List Char)
  | _, [] => .error ⟨.openString, none⟩
  | .plain, c :: rest =>
    if c = '\\' then afterString quote .escape rest
    else if c = quote then .ok rest
    else afterString quote .plain rest
  | .escape, c :: rest =>
    if ['b', 't', 'n', 'f', 'r', 'u', '"', '\'', '\\'].contains c then
      afterString quote .plain rest
    else if '0' ≤ c ∧ c ≤ '3' then afterString quote .longOctal rest
    else if '4' ≤ c ∧ c ≤ '7' then afterString quote .shortOctal rest
    else .error ⟨.illegalEscape c, none⟩
  | .longOctal, c :: rest =>
    if isOctalDigit c then afterString quote .shortOctal rest
    else if c = '\\' then afterString quote .escape rest
    else if c = quote then .ok rest
    else afterString quote .longOctal rest
  | .shortOctal, c :: rest =>
    if c = '\\' then afterString quote .escape rest
    else if c = quote then .ok rest
    else afterString quote .plain rest

/-! ## Comments, words and signs -/

/-- The text behind the first `*/`. -/
def afterBlockComment? : List Char → Option (List Char)
  | '*' :: '/' :: rest => some rest
  | _ :: rest => afterBlockComment? rest
  | [] => none

/-- The text behind the newline that ends a line comment. -/
def afterLineComment (cs : List Char) : List Char :=
  (cs.dropWhile (· != '\n')).tail

/-- The longest operator in front of `cs`. -/
def operator? (cs : List Char) : Option String :=
  Token.operators.find? fun op => op.toList.isPrefixOf cs

def tokenStep (sort : TokenSort) (cs rest : List Char) : Step :=
  ⟨some ⟨sort, taken cs rest⟩, rest⟩

def wordStep (cs : List Char) : Step :=
  let rest := cs.dropWhile Text.isIdentifierPart
  let word := taken cs rest
  ⟨some ⟨Token.sortOfWord word, word⟩, rest⟩

/-- Reads what stands in front of a text that is not empty. -/
def step (c : Char) (more : List Char) : Except Refusal Step :=
  let cs := c :: more
  let next := more.head?
  if Text.isBlank c then .ok ⟨none, more.dropWhile Text.isBlank⟩
  else if c = '/' ∧ next = some '/' then .ok ⟨none, afterLineComment more.tail⟩
  else if c = '/' ∧ next = some '*' then
    match afterBlockComment? more.tail with
    | some rest => .ok ⟨none, rest⟩
    | none => .error ⟨.openComment, none⟩
  else if c = '.' ∧ next = some '.' ∧ more.tail.head? = some '.' then
    .ok (tokenStep .operator cs more.tail.tail)
  else if c = '@' then .ok (tokenStep .atSign cs more)
  else if c = '.' ∧ next.any Text.isDigit then .ok (tokenStep .literal cs (afterDecimal cs))
  else if Token.separators.contains c then .ok (tokenStep .separator cs more)
  else if c = '\'' ∨ c = '"' then (afterString c .plain more).map (tokenStep .literal cs)
  else if c.isDigit then (afterNumber cs).map (tokenStep .literal cs)
  else if Text.isIdentifierStart c then .ok (wordStep cs)
  else
    match operator? cs with
    | some op => .ok (tokenStep .operator cs (cs.drop op.length))
    | none => .error ⟨.stray c, none⟩

/-! ## Whole texts -/

/-- The line around an offset, without blanks at its ends. A last line without a newline loses its
last character first. -/
def lineAround (text : List Char) (offset : Nat) : String :=
  let before := ((text.take offset).reverse.takeWhile (· != '\n')).reverse
  let behind := text.drop offset
  let line :=
    if behind.contains '\n' then before ++ behind.takeWhile (· != '\n')
    else (before ++ behind).dropLast
  String.ofList (Text.stripChars line)

/-- How far a text has been read: the offset, the newlines passed, and the end of the last token. -/
structure Place where
  offset : Nat
  newlines : Nat
  lastEnd : Nat

def faultAt (text : List Char) (place : Place) (refusal : Refusal) : LexicalFault where
  cause := refusal.cause
  shown :=
    match refusal.cause with
    | .badEscape places => places
    | .stray c => c.toString
    | .illegalEscape c => c.toString
    | _ =>
      match refusal.rest? with
      | some rest => String.ofList (rest.take 1)
      | none => String.ofList ((text.drop place.lastEnd).take 1)
  lineNumber := place.newlines + 1
  line := lineAround text place.offset

/-- The place behind a step from `cs`: only blanks and comments count newlines. -/
def Place.advance (place : Place) (cs : List Char) (s : Step) : Place :=
  let n := cs.length - s.rest.length
  match s.token? with
  | some _ => ⟨place.offset + n, place.newlines, place.offset + n⟩
  | none =>
    ⟨place.offset + n, place.newlines + (cs.take n).countP (· == '\n'), place.lastEnd⟩

/-- Reads on from a place of `text`; every step takes at least one character. -/
def run (text : List Char) : Nat → Place → List Char → Except LexicalFault (List Token)
  | 0, _, _ => .ok []
  | _ + 1, _, [] => .ok []
  | fuel + 1, place, c :: more =>
    match step c more with
    | .error refusal => .error (faultAt text place refusal)
    | .ok s => do
      let tokens ← run text fuel (place.advance (c :: more) s) s.rest
      return s.token?.toList ++ tokens

end Lexer

/-- The tokens of a text. -/
def Token.ofText (text : String) : Except LexicalFault (List Token) :=
  match Token.unescape [] text.toList with
  | .error places =>
    .error (Lexer.faultAt text.toList ⟨0, 0, 0⟩ ⟨.badEscape (String.ofList places), none⟩)
  | .ok cs => Lexer.run cs cs.length ⟨0, 0, 0⟩ cs

end StubWriter
