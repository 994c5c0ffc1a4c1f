import StubWriter.Text.Blank
import StubWriter.Text.Digit

/-!
# Reading whole numbers

A numeral is an optional sign and digits, with single underscores allowed between two digits and
blanks around the whole; the four ASCII separators are no blanks here. Hexadecimal numerals may
start with `0x`, which one underscore may follow.
-/

namespace StubWriter.Text

/-- The blanks that may stand around a numeral: all but the file, group, record and unit
separators. -/
def isNumeralBlank (c : Char) : Bool :=
  isBlank c && !covers [(28, 31)] c

/-- Reads on after a digit: `acc` is the value so far. Each underscore needs a digit behind it. -/
def readDigits (radix : Nat) (value? : Char → Option Nat) (acc : Nat) : List Char → Option Nat
  | [] => some acc
  | '_' :: c :: rest =>
    match value? c with
    | some d => readDigits radix value? (acc * radix + d) rest
    | none => none
  | c :: rest =>
    match value? c with
    | some d => readDigits radix value? (acc * radix + d) rest
    | none => none

/-- Reads a natural number that starts with a digit. -/
def readNat? (radix : Nat) (value? : Char → Option Nat) : List Char → Option Nat
  | [] => none
  | c :: rest =>
    match value? c with
    | some d => readDigits radix value? d rest
    | none => none

/-- Applies the sign in front of a number. -/
def readSigned (read : List Char → Option Nat) : List Char → Option Int
  | '+' :: rest => (read rest).map Int.ofNat
  | '-' :: rest => (read rest).map fun n => -Int.ofNat n
  | cs => (read cs).map Int.ofNat

/-- The most digits that a decimal numeral may have. -/
def maxDecimalDigits : Nat := 4300

/-- A decimal numeral; more than `maxDecimalDigits` digits are refused. -/
def decimal? (cs : List Char) : Option Int :=
  if maxDecimalDigits < cs.countP fun c => (decimalValue? c).isSome then none
  else readSigned (readNat? 10 decimalValue?) (stripWhere isNumeralBlank cs)

/-- The digits of a hexadecimal numeral without its `0x`. -/
def dropHexMark : List Char → List Char
  | z :: x :: rest =>
    if decimalValue? z == some 0 && (x == 'x' || x == 'X') then
      match rest with
      | '_' :: digits => digits
      | digits => digits
    else z :: x :: rest
  | cs => cs

/-- A hexadecimal numeral. -/
def hexadecimal? (cs : List Char) : Option Int :=
  readSigned (fun ds => readNat? 16 hexValue? (dropHexMark ds)) (stripWhere isNumeralBlank cs)

end StubWriter.Text
