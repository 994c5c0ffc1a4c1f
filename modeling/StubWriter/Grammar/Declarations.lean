import StubWriter.Grammar.Statements

/-!
# Declarations

The members of a body are told apart by their first tokens behind the modifiers. Dimensions behind
the parameters of a method belong to the type that it returns, except behind those of a generic
method of an interface, where they are dropped.
-/

namespace StubWriter.Grammar

open Reader

variable (r : Rules)

/-! ## Methods, constructors and fields -/

/-- A block, or a semicolon in its place; says which. -/
def blockOrSemicolon : Reader Bool := do
  if ← seesOne "\x7b" then
    r.block
    return true
  else
    ignore (accept ";")
    return false

/-- A method from its parameters on. `brackets` reads the dimensions behind the parameters that
belong to the returned type. -/
def methodRest (brackets : Reader Nat) (name : String) (mods : List String)
    (typeParams : List TypeParam) (returns : Option TypeUse) : Reader MethodDecl := do
  let ps ← params r
  let dims ← brackets
  let throws ← optionalThrows
  let hasBody ← blockOrSemicolon r
  return ⟨name, mods, typeParams, returns.map (·.addDims dims), ps, throws, hasBody⟩

def voidMethod (mods : List String) (typeParams : List TypeParam) : Reader Member := do
  return .method (← methodRest r (pure 0) (← identifier) mods typeParams none)

def typedMethod (name : String) (mods : List String) (typeParams : List TypeParam)
    (returns : TypeUse) : Reader Member :=
  return .method (← methodRest r dimensions name mods typeParams (some returns))

def constructorRest (mods : List String) (typeParams : List TypeParam) :
    Reader ConstructorDecl := do
  let ps ← params r
  let throws ← optionalThrows
  r.block
  return ⟨mods, typeParams, ps, throws⟩

/-- The rest of a field declaration, behind the name of its first variable. -/
def fieldRest : Reader Unit := do
  declaratorRest r
  ignore (manyWhile (tryOne ",") (declarator r))
  ignore (accept ";")

def constantRest : Reader Unit := do
  ignore dimensions
  ignore (accept "=")
  variableInitializer r

/-- Constants, behind the name of the first one. -/
def constantsRest : Reader Unit := do
  constantRest r
  ignore (manyWhile (tryOne ",") do
    ignore identifier
    constantRest r)

/-! ## Members of classes and enums -/

/-- Whether a type declaration is next. -/
def seesTypeDecl : Reader Bool :=
  return (← seesAny ["class", "enum", "interface"]) || (← seesAnnotationDecl)

def genericMember (mods : List String) : Reader Member := do
  let tps ← typeParams r
  if ← sees [TokenSort.identifier, "("] then
    ignore identifier
    return .constructor (← constructorRest r mods tps)
  else if ← tryOne "void" then voidMethod r mods tps
  else
    let type ← typeUse r
    typedMethod r (← identifier) mods tps type

def typedMember (mods : List String) : Reader Member := do
  let type ← typeUse r
  let name ← identifier
  if ← seesOne "(" then typedMethod r name mods [] type
  else
    fieldRest r
    return .nothing

def classMember : Reader Member := do
  if ← tryOne ";" then return .nothing
  else if ← sees ["static", "\x7b"] then
    ignore (accept "static")
    r.block
    return .nothing
  else if ← seesOne "\x7b" then
    r.block
    return .nothing
  else
    let mods ← modifiers r
    if ← tryOne "void" then voidMethod r mods []
    else if ← seesOne "<" then genericMember r mods
    else if ← seesTypeDecl then return .type (← r.typeDecl mods)
    else if ← sees [TokenSort.identifier, "("] then
      ignore identifier
      return .constructor (← constructorRest r mods [])
    else typedMember r mods

def classBody : Reader (List Member) := do
  ignore (accept "\x7b")
  let members ← manyUntil "\x7d" (classMember r)
  ignore (accept "\x7d")
  return members

/-! ## Members of interfaces -/

/-- A generic method; it keeps only the dimensions that its type is written with. -/
def genericInterfaceMember (mods : List String) : Reader Member := do
  let tps ← typeParams r
  let returns ← if ← tryOne "void" then pure none else some <$> typeUse r
  let name ← identifier
  return .method (← methodRest r (ignore dimensions *> pure 0) name mods tps returns)

def typedInterfaceMember (mods : List String) : Reader Member := do
  let type ← typeUse r
  let name ← identifier
  if ← seesOne "(" then typedMethod r name mods [] type
  else
    constantsRest r
    ignore (accept ";")
    return .nothing

def interfaceMember : Reader Member := do
  if ← tryOne ";" then return .nothing
  else
    let mods ← modifiers r
    if ← seesTypeDecl then return .type (← r.typeDecl mods)
    else if ← seesOne "<" then genericInterfaceMember r mods
    else if ← tryOne "void" then voidMethod r mods []
    else typedInterfaceMember r mods

def interfaceBody : Reader (List Member) := do
  ignore (accept "\x7b")
  let members ← manyUntil "\x7d" (interfaceMember r)
  ignore (accept "\x7d")
  return members

/-! ## Members of enums and annotations -/

def enumConstant : Reader Unit := do
  if ← seesAnnotationUse then annotations r
  ignore identifier
  if ← seesOne "(" then arguments r
  if ← seesOne "\x7b" then ignore (classBody r)

/-- Constants with a comma behind each, except that the last one needs none. -/
def enumConstants : Nat → Reader Unit
  | 0 => throw .endOfInput
  | n + 1 => do
    if !((← seesOne ";") || (← seesOne "\x7d")) then
      enumConstant r
      if ← tryOne "," then enumConstants n

def enumBody : Reader (List Member) := do
  ignore (accept "\x7b")
  if !(← tryOne ",") then enumConstants r ((← get).ahead.length + 1)
  let members ← if ← tryOne ";" then manyUntil "\x7d" (classMember r) else pure []
  ignore (accept "\x7d")
  return members

/-- An element of an annotation type, or constants in it. -/
def annotationElement : Reader Unit := do
  ignore (typeUse r)
  ignore identifier
  if ← tryOne "(" then
    ignore (accept ")")
    ignore dimensions
    if ← tryOne "default" then elementValue r
  else constantsRest r
  ignore (accept ";")

def annotationMember : Reader Member := do
  let mods ← modifiers r
  if ← seesTypeDecl then return .type (← r.typeDecl mods)
  else
    annotationElement r
    return .nothing

def annotationBody : Reader (List Member) := do
  ignore (accept "\x7b")
  let members ← manyUntil "\x7d" (annotationMember r)
  ignore (accept "\x7d")
  return members

/-! ## Types -/

/-- A declaration of its header and the members of its body. -/
def ofMembers (kind : DeclKind) (name : String) (mods : List String)
    (typeParams : List TypeParam) (extended implemented : List TypeUse) (members : List Member) :
    TypeDecl :=
  ⟨kind, name, mods, typeParams, extended, implemented, members.filterMap Member.method?,
    members.filterMap Member.constructor?, members.filterMap Member.type?⟩

def classDecl (mods : List String) : Reader TypeDecl := do
  ignore (accept "class")
  let name ← identifier
  let tps ← optionalTypeParams r
  let extended ← if ← tryOne "extends" then pure [← typeUse r] else pure []
  let implemented ← optionalTypes r "implements"
  return ofMembers .classDecl name mods tps extended implemented (← classBody r)

def interfaceDecl (mods : List String) : Reader TypeDecl := do
  ignore (accept "interface")
  let name ← identifier
  let tps ← optionalTypeParams r
  let extended ← optionalTypes r "extends"
  return ofMembers .interfaceDecl name mods tps extended [] (← interfaceBody r)

def enumDecl (mods : List String) : Reader TypeDecl := do
  ignore (accept "enum")
  let name ← identifier
  let implemented ← optionalTypes r "implements"
  return ofMembers .enumDecl name mods [] [] implemented (← enumBody r)

def annotationDecl (mods : List String) : Reader TypeDecl := do
  acceptAll ["@", "interface"]
  let name ← identifier
  return ofMembers .annotationDecl name mods [] [] [] (← annotationBody r)

/-- A type declaration behind its modifiers. -/
def typeDecl (mods : List String) : Reader TypeDecl := do
  if ← seesOne "class" then classDecl r mods
  else if ← seesOne "enum" then enumDecl r mods
  else if ← seesOne "interface" then interfaceDecl r mods
  else if ← seesAnnotationDecl then annotationDecl r mods
  else fail "type declaration"

end StubWriter.Grammar
