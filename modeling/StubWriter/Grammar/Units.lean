import StubWriter.Grammar.Declarations
import StubWriter.Token.Lexer

/-!
# Reading compilation units

The rules of the grammar are tied together to any depth. Every token takes a bounded number of
rules within one another, so a depth in proportion to the number of tokens is enough.

* `CompilationUnit.ofText`: the unit that a text spells, or why it spells none.
-/

namespace StubWriter

namespace Grammar

open Reader

/-- The rules, applied within one another up to a depth. -/
def rules : Nat → Rules
  | 0 => .none
  | n + 1 =>
    { typeArguments := fun c => typeArguments (rules n) c
      elementValue := fun c => elementValue (rules n) c
      variableInitializer := fun c => variableInitializer (rules n) c
      expression := fun c => expression (rules n) c
      conditional := fun c => conditional (rules n) c
      unary := fun c => unary (rules n) c
      block := fun c => block (rules n) c
      statement := fun c => statement (rules n) c
      classBody := fun c => classBody (rules n) c
      typeDecl := fun mods c => typeDecl (rules n) mods c }

variable (r : Rules)

/-- The package that a unit names. Without one the unit is read again from its mark, so that
annotations belong to its first type; the mark is the start of the unit, unless an attempt that
succeeded in an annotation has moved it. -/
def optionalPackage : Reader (List String) := do
  setMark
  if ← seesAnnotationUse then annotations r
  if ← tryOne "package" then
    let name ← qualifiedName
    ignore (accept ";")
    return name
  else
    goBack
    return []

/-- The names of an import behind its first one, up to the semicolon. -/
def importRest (isStatic : Bool) (path : List String) : Nat → Reader Import
  | 0 => throw .endOfInput
  | n + 1 => do
    if ← tryOne "." then
      if ← tryOne "*" then
        ignore (accept ";")
        return ⟨path, isStatic, true⟩
      else importRest isStatic (path ++ [← identifier]) n
    else
      ignore (accept ";")
      return ⟨path, isStatic, false⟩

def importDecl : Reader Import := do
  ignore (accept "import")
  let isStatic ← tryOne "static"
  let first ← identifier
  importRest isStatic [first] ((← get).ahead.length + 1)

/-- A type of the unit, or a lone semicolon. -/
def unitType : Reader (Option TypeDecl) := do
  if ← tryOne ";" then return none
  else return some (← typeDecl r (← modifiers r))

/-- The package and the imports of a unit. -/
def unitHead : Reader (List String × List Import) := do
  let package ← optionalPackage r
  return (package, ← manyWhile (seesOne "import") importDecl)

def unitTypes : Reader (List TypeDecl) := do
  return (← manyWhile (return !(← get).ahead.isEmpty) (unitType r)).filterMap id

end Grammar

/-- Why a text is no compilation unit. -/
inductive UnitFault where
  | lexical (fault : LexicalFault)
  | grammar (stop : Grammar.Stop)
  | brokenHead
  deriving DecidableEq, Repr

namespace CompilationUnit

/-- The unit that tokens spell. That the tokens end too early is a fault of the types, or of what
stands in front of them. -/
def ofTokens (tokens : List Token) : Except UnitFault CompilationUnit :=
  let r := Grammar.rules (8 * tokens.length + 8)
  match Grammar.unitHead r { ahead := tokens, mark := [] } with
  | .error .endOfInput _ => .error .brokenHead
  | .error stop _ => .error (.grammar stop)
  | .ok (package, imports) cursor =>
    match Grammar.unitTypes r cursor with
    | .error stop _ => .error (.grammar stop)
    | .ok types _ => .ok ⟨package, imports, types⟩

def ofText (text : String) : Except UnitFault CompilationUnit :=
  match Token.ofText text with
  | .error fault => .error (.lexical fault)
  | .ok tokens => ofTokens tokens

end CompilationUnit

end StubWriter
