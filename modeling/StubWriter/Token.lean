/-!
# Tokens

A token is a piece of a Java source and the sort that its spelling gives it. Modifiers and the
names of basic types are keywords of a sort of their own.
-/

namespace StubWriter

inductive TokenSort where
  | identifier
  | basicType
  | modifier
  | keyword
  | literal
  | operator
  | separator
  | atSign
  deriving DecidableEq, Repr

structure Token where
  sort : TokenSort
  text : String
  deriving DecidableEq, Repr

namespace Token

def basicTypes : List String :=
  ["boolean", "byte", "char", "double", "float", "int", "long", "short"]

def modifiers : List String :=
  ["abstract", "default", "final", "native", "private", "protected", "public", "static",
    "strictfp", "synchronized", "transient", "volatile"]

/-- The keywords that are neither modifiers nor basic types. -/
def otherKeywords : List String :=
  ["assert", "break", "case", "catch", "class", "const", "continue", "do", "else", "enum",
    "extends", "finally", "for", "goto", "if", "implements", "import", "instanceof", "interface",
    "native", "new", "package", "return", "super", "switch", "this", "throw", "throws", "try",
    "void", "while"]

def wordLiterals : List String :=
  ["true", "false", "null"]

/-- The sort of a word. -/
def sortOfWord (w : String) : TokenSort :=
  if basicTypes.contains w then .basicType
  else if modifiers.contains w then .modifier
  else if otherKeywords.contains w then .keyword
  else if wordLiterals.contains w then .literal
  else .identifier

/-- The operators, longer ones first. The shifts to the right are read as several `>`, so that
type arguments can close one another. -/
def operators : List String :=
  [">>>=",
    ">>=", "<<=", "...",
    "%=", "^=", "|=", "&=", "/=", "*=", "-=", "+=", "<<", "--", "++", "||", "&&", "!=", ">=",
    "<=", "==", "->", "::",
    "%", "^", "|", "&", "/", "*", "-", "+", ":", "?", "~", "!", "<", ">", "="]

def separators : List Char :=
  ['(', ')', '\x7b', '\x7d', '[', ']', ';', ',', '.']

def assignments : List String :=
  ["=", "+=", "-=", "*=", "/=", "&=", "|=", "^=", "%=", "<<=", ">>=", ">>>="]

def infixes : List String :=
  ["||", "&&", "|", "^", "&", "==", "!=", "<", ">", "<=", ">=", "<<", "+", "-", "*", "/", "%"]

def prefixes : List String :=
  ["++", "--", "!", "~", "+", "-"]

def postfixes : List String :=
  ["++", "--"]

end Token

/-- The name of a sort in complaints about another token. -/
def TokenSort.name : TokenSort → String
  | .identifier => "Identifier"
  | .basicType => "BasicType"
  | .modifier => "Modifier"
  | .keyword => "Keyword"
  | .literal => "Literal"
  | .operator => "Operator"
  | .separator => "Separator"
  | .atSign => "Annotation"

end StubWriter
