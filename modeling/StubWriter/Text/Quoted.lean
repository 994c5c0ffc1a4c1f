import StubWriter.Text.Printable

/-!
# Quoted text

Messages show a raw text between single quotes, or between double quotes when it holds a single
quote and no double one. The backslash, the enclosing quote and what is not printable are escaped.
-/

namespace StubWriter.Text

/-- The digits of `n` in lower-case hexadecimal, filled up with zeros to `width` places. -/
def hexDigits (width n : Nat) : List Char :=
  let digits := Nat.toDigits 16 n
  List.replicate (width - digits.length) '0' ++ digits

/-- An unprintable character by its number, in the shortest of three forms. -/
def numberEscape (c : Char) : List Char :=
  let n := c.toNat
  if n < 0x100 then '\\' :: 'x' :: hexDigits 2 n
  else if n < 0x10000 then '\\' :: 'u' :: hexDigits 4 n
  else '\\' :: 'U' :: hexDigits 8 n

def escapeChar (quote c : Char) : List Char :=
  if c == quote || c == '\\' then ['\\', c]
  else if c == '\t' then ['\\', 't']
  else if c == '\n' then ['\\', 'n']
  else if c == '\r' then ['\\', 'r']
  else if isPrintable c then [c]
  else numberEscape c

def quoteFor (cs : List Char) : Char :=
  if cs.contains '\'' && !cs.contains '"' then '"' else '\''

def quoted (s : String) : String :=
  let cs := s.toList
  let quote := quoteFor cs
  String.ofList (quote :: cs.flatMap (escapeChar quote) ++ [quote])

/-- A list of texts, each quoted, between square brackets. -/
def quotedList (xs : List String) : String :=
  "[" ++ ", ".intercalate (xs.map quoted) ++ "]"

end StubWriter.Text
