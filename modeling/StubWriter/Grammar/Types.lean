import StubWriter.Grammar.Rules

/-!
# Types in source texts

Reference types with their arguments, lists of types, and type parameters. Only in a list or as an
argument does a basic type need a pair of brackets.
-/

namespace StubWriter.Grammar

open Reader

variable (r : Rules)

/-- A dotted name, each part with its type arguments; the arguments are dropped. -/
def referenceType : Reader (List String) :=
  sepBy "." do
    let name ← identifier
    if ← seesOne "<" then r.typeArguments
    return name

def typeUse : Reader TypeUse := do
  match ← lookSort? with
  | some .basicType =>
    let name ← accept TokenSort.basicType
    return .basic name (← dimensions)
  | some .identifier =>
    let segments ← referenceType r
    return .named segments (← dimensions)
  | _ => fail "type"

/-- A reference type, or an array of a basic type. -/
def listedType : Reader TypeUse := do
  if ← seesOne TokenSort.basicType then
    let name ← accept TokenSort.basicType
    acceptAll ["[", "]"]
    return .basic name ((← dimensions) + 1)
  else
    let segments ← referenceType r
    return .named segments (← dimensions)

def typeList : Reader (List TypeUse) :=
  sepBy "," (listedType r)

def typeArgument : Reader Unit := do
  if ← tryOne "?" then
    if ← seesAny ["extends", "super"] then
      ignore take
      ignore (listedType r)
  else ignore (listedType r)

def typeArguments : Reader Unit := do
  ignore (accept "<")
  ignore (sepUntil ">" (typeArgument r))

/-- Type arguments without wildcards. -/
def plainTypeArguments : Reader Unit := do
  ignore (accept "<")
  ignore (typeList r)
  ignore (accept ">")

def typeParam : Reader TypeParam := do
  let name ← identifier
  if ← tryOne "extends" then return ⟨name, ← sepBy "&" (referenceType r)⟩
  else return ⟨name, []⟩

def typeParams : Reader (List TypeParam) := do
  ignore (accept "<")
  sepUntil ">" (typeParam r)

/-- The type parameters of a declaration, if it has any. -/
def optionalTypeParams : Reader (List TypeParam) := do
  if ← seesOne "<" then typeParams r else return []

/-- The types behind a keyword, if it is there. -/
def optionalTypes (keyword : String) : Reader (List TypeUse) := do
  if ← tryOne keyword then typeList r else return []

end StubWriter.Grammar
