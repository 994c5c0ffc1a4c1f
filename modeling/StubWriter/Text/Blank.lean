import StubWriter.Text.CodeRange

/-!
# Blank characters

Blanks are the ASCII controls tab to carriage return and file separator to unit separator, the
space, the next-line control and the Unicode separators. Stripping takes blanks from both ends.
-/

namespace StubWriter.Text

def blankRanges : List CodeRange :=
  [(9, 13), (28, 32), (133, 133), (160, 160), (5760, 5760), (8192, 8202), (8232, 8233),
    (8239, 8239), (8287, 8287), (12288, 12288)]

def isBlank (c : Char) : Bool :=
  covers blankRanges c

/-- The characters without those of a class at both ends. -/
def stripWhere (drops : Char → Bool) (cs : List Char) : List Char :=
  ((cs.dropWhile drops).reverse.dropWhile drops).reverse

/-- The characters without the blanks at both ends. -/
def stripChars (cs : List Char) : List Char :=
  stripWhere isBlank cs

def strip (s : String) : String :=
  String.ofList (stripChars s.toList)

end StubWriter.Text
