import StubWriter.Library.Scope

/-!
# From declarations to types

What a declaration says and what it leaves unsaid: members of interfaces are public and abstract
unless they say otherwise, types in interfaces are public and static, enums are final, and a class
without constructors has one with the access of the class.
-/

namespace StubWriter

namespace Visibility

/-- The access that modifiers give. -/
def ofModifiers (mods : List String) : Visibility :=
  if mods.contains "public" then .pub
  else if mods.contains "private" then .priv
  else if mods.contains "protected" then .prot
  else .pkg

end Visibility

namespace MethodDecl

/-- A method of an interface is abstract if it has no body and is not static, and public unless it
is private. -/
def visibility (m : MethodDecl) (inInterface : Bool) : Visibility :=
  if inInterface then if m.modifiers.contains "private" then .priv else .pub
  else Visibility.ofModifiers m.modifiers

def isAbstract (m : MethodDecl) (inInterface : Bool) : Bool :=
  if inInterface then !m.hasBody && !m.modifiers.contains "static"
  else m.modifiers.contains "abstract"

def describe (m : MethodDecl) (owner : String) (inInterface : Bool) (scope : Scope) :
    Lookup Method := do
  let inner ← scope.enter m.typeParams
  let returns ← inner.resolveReturn m.returns
  let params ← inner.resolveParams m.params
  let throws ← inner.resolveThrows m.throws
  return {
    declaringType := owner
    name := m.name
    returns
    params
    throws
    visibility := m.visibility inInterface
    isAbstract := m.isAbstract inInterface
    isStatic := m.modifiers.contains "static"
    isFinal := m.modifiers.contains "final" }

end MethodDecl

namespace ConstructorDecl

def describe (c : ConstructorDecl) (owner : String) (scope : Scope) : Lookup Constructor := do
  let inner ← scope.enter c.typeParams
  let params ← inner.resolveParams c.params
  let throws ← inner.resolveThrows c.throws
  return { declaringType := owner, params, throws, visibility := .ofModifiers c.modifiers }

end ConstructorDecl

def DeclKind.typeKind : DeclKind → TypeKind
  | .classDecl => .classType
  | .interfaceDecl => .interfaceType
  | .enumDecl => .enumType
  | .annotationDecl => .annotationType

namespace Declared

/-- The modifiers of a declaration with those that go without saying, in alphabetical order. -/
def modifiers (d : Declared) : List String :=
  let stated := d.decl.modifiers
  let nested := if d.inInterface then ["public", "static"] else []
  let closed := if d.decl.kind == .enumDecl then ["final"] else []
  (stated ++ nested ++ closed).eraseDups.mergeSort fun a b => decide (a < b) || a == b

def visibility (d : Declared) : Visibility :=
  .ofModifiers d.modifiers

def superclass (d : Declared) (scope : Scope) : Lookup (Option String) := do
  match d.decl.kind with
  | .classDecl =>
    match d.decl.extended with
    | [] => return some objectName
    | type :: _ => return some (← scope.resolveType type)
  | .enumDecl => return some "java.lang.Enum"
  | _ => return none

def interfaces (d : Declared) (scope : Scope) : Lookup (List String) :=
  match d.decl.kind with
  | .classDecl => scope.resolveTypes d.decl.implemented
  | .interfaceDecl => scope.resolveTypes d.decl.extended
  | .enumDecl => scope.resolveTypes d.decl.implemented
  | .annotationDecl => pure []

/-- The methods of a class or an interface; those of other types do not matter to a stub. -/
def methods (d : Declared) (scope : Scope) : Lookup (List Method) :=
  match d.decl.kind with
  | .classDecl => d.decl.methods.mapM (·.describe d.fullName false scope)
  | .interfaceDecl => d.decl.methods.mapM (·.describe d.fullName true scope)
  | _ => pure []

def constructors (d : Declared) (scope : Scope) : Lookup (List Constructor) := do
  match d.decl.kind with
  | .classDecl =>
    let stated ← d.decl.constructors.mapM (·.describe d.fullName scope)
    if stated.isEmpty then
      return [{ declaringType := d.fullName, params := [], throws := [],
                visibility := d.visibility }]
    else return stated
  | _ => return []

/-- The type that a declaration of a unit describes. -/
def describe (d : Declared) (package origin : String) (scope : Scope) : Lookup TypeInfo := do
  let inner ← scope.enter d.decl.typeParams
  let superclass ← d.superclass inner
  let interfaces ← d.interfaces inner
  let methods ← d.methods inner
  let constructors ← d.constructors inner
  return {
    name := d.fullName
    simpleName := d.decl.name
    kind := d.decl.kind.typeKind
    package
    visibility := d.visibility
    modifiers := d.modifiers
    superclass
    interfaces
    constructors
    methods
    sourceFile := some origin }

end Declared

end StubWriter
