import StubWriter.Grammar.Cursor
import StubWriter.CompilationUnit

/-!
# The rules that refer to each other

Types, expressions, statements and declarations contain one another. Each rule of the grammar is
written over the rules it contains, which come to it in a `Rules`; the knot is tied once, in
`Grammar.rules`.
-/

namespace StubWriter.Grammar

/-- What a body declares. Fields and initializers leave nothing behind. -/
inductive Member where
  | method (m : MethodDecl)
  | constructor (c : ConstructorDecl)
  | type (d : TypeDecl)
  | nothing

def Member.method? : Member → Option MethodDecl
  | .method m => some m
  | _ => none

def Member.constructor? : Member → Option ConstructorDecl
  | .constructor c => some c
  | _ => none

def Member.type? : Member → Option TypeDecl
  | .type d => some d
  | _ => none

/-- Readers for the parts that a rule contains. -/
structure Rules where
  typeArguments : Reader Unit
  elementValue : Reader Unit
  variableInitializer : Reader Unit
  expression : Reader Unit
  conditional : Reader Unit
  unary : Reader Unit
  block : Reader Unit
  statement : Reader Unit
  classBody : Reader (List Member)
  /-- A declaration of a type, behind its modifiers. -/
  typeDecl : List String → Reader TypeDecl

/-- Rules that accept nothing. -/
def Rules.none : Rules :=
  { typeArguments := throw .endOfInput
    elementValue := throw .endOfInput
    variableInitializer := throw .endOfInput
    expression := throw .endOfInput
    conditional := throw .endOfInput
    unary := throw .endOfInput
    block := throw .endOfInput
    statement := throw .endOfInput
    classBody := throw .endOfInput
    typeDecl := fun _ => throw .endOfInput }

end StubWriter.Grammar
