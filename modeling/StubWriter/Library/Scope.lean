import StubWriter.Library.Basic

/-!
# The meaning of names in a unit

A simple name means, in this order: a type variable, a type that the unit declares, a single-type
import, a type of the same package, a type of exactly one package imported on demand, a type that
every unit imports. A name that means none of these is guessed, and the guess is reported.

* `Scope.resolveSimple?`: what a simple name means, if the sources tell.
* `Scope.resolveType`: the erased canonical name of a type as written.
-/

namespace StubWriter

/-- What the names of a unit may refer to. Where a name is bound twice, the first binding counts. -/
structure Scope where
  package : String
  singleImports : List (String × String)
  onDemand : List String
  localTypes : List (String × String)
  typeVars : List (String × String)
  deriving DecidableEq, Repr

namespace Scope

def addImport (s : Scope) (i : Import) : Scope :=
  let path := ".".intercalate i.path
  if i.isStatic then s
  else if i.onDemand then
    if s.onDemand.contains path then s else { s with onDemand := s.onDemand ++ [path] }
  else { s with singleImports := (i.path.getLast?.getD "", path) :: s.singleImports }

/-- The scope of a unit: the last single-type import of a simple name counts, and of the types that
the unit declares the first one of a simple name. -/
def ofUnit (u : CompilationUnit) : Scope :=
  u.imports.foldl addImport
    { package := u.packageName, singleImports := [], onDemand := [],
      localTypes := u.declared.map fun d => (d.decl.name, d.fullName), typeVars := [] }

/-- The scope with more type variables, which hide those of the same name. -/
def withTypeVars (s : Scope) (vars : List (String × String)) : Scope :=
  { s with typeVars := vars ++ s.typeVars }

/-- The names among the candidates that exist. -/
def existing : List String → Lookup (List String)
  | [] => return []
  | name :: rest => do
    let found ← Library.exists? name
    let others ← existing rest
    return if found then name :: others else others

/-- The canonical name that a simple name means, if the unit or the sources tell. -/
def resolveSimple? (s : Scope) (simple : String) : Lookup (Option String) := do
  match s.localTypes.lookup simple with
  | some name => return some name
  | none =>
  match s.singleImports.lookup simple with
  | some name => return some name
  | none =>
  let samePackage := qualify s.package simple
  if ← Library.exists? samePackage then return some samePackage
  match ← existing (s.onDemand.map fun package => package ++ "." ++ simple) with
  | [name] => return some name
  | a :: b :: more => throw (.ambiguousName simple (a :: b :: more))
  | [] =>
    let lang := "java.lang." ++ simple
    if Platform.langNames.contains simple then return some lang
    else if ← Library.exists? lang then return some lang
    else return none

/-- The canonical name that a dotted name means. Without a better reading, several segments are a
canonical name already, and a single one is taken to be in the one package imported on demand that
could hold it, or else in the package of the unit. -/
def resolveName (s : Scope) (segments : List String) : Lookup String := do
  let head := segments.headD ""
  let rest := segments.tail
  match ← s.resolveSimple? head with
  | some base => return ".".intercalate (base :: rest)
  | none =>
    if !rest.isEmpty then return ".".intercalate segments
    else
      let guesses := s.onDemand.filter fun package => !Platform.isListed package
      if 1 < guesses.length then throw (.severalGuesses head guesses)
      let full := qualify (guesses.headD s.package) head
      Library.report (.assumed head full)
      return full

def brackets (dims : Nat) : String :=
  String.join (List.replicate dims "[]")

/-- The erased canonical name of a type. Only a name of one segment can be a type variable. -/
def resolveType (s : Scope) : TypeUse → Lookup String
  | .basic name dims => return name ++ brackets dims
  | .named segments dims => do
    match segments with
    | [simple] =>
      match s.typeVars.lookup simple with
      | some erased => return erased ++ brackets dims
      | none => return (← s.resolveName segments) ++ brackets dims
    | _ => return (← s.resolveName segments) ++ brackets dims

/-- What a method returns; nothing is `void`. -/
def resolveReturn (s : Scope) : Option TypeUse → Lookup String
  | none => return "void"
  | some type => s.resolveType type

def resolveTypes (s : Scope) (types : List TypeUse) : Lookup (List String) :=
  types.mapM s.resolveType

/-- Type parameters with their erasures, the later ones first. A parameter is erased to its first
bound, which may refer to the parameters before it. -/
def eraseTypeParams (s : Scope) (erased : List (String × String)) :
    List TypeParam → Lookup (List (String × String))
  | [] => return erased
  | p :: ps => do
    let erasure ←
      match p.bounds with
      | [] => pure objectName
      | bound :: _ => (s.withTypeVars erased).resolveType (.named bound 0)
    s.eraseTypeParams ((p.name, erasure) :: erased) ps

/-- The scope inside a declaration with type parameters. -/
def enter (s : Scope) (params : List TypeParam) : Lookup Scope := do
  return s.withTypeVars (← s.eraseTypeParams [] params)

def resolveParams (s : Scope) (params : List Param) : Lookup (List String) :=
  params.mapM fun p => do
    let erased ← s.resolveType p.type
    return if p.varargs then erased ++ "[]" else erased

/-- The names of exceptions. A type variable is not looked for among them. -/
def resolveThrows (s : Scope) (throws : List (List String)) : Lookup (List String) :=
  throws.mapM s.resolveName

end Scope

end StubWriter
