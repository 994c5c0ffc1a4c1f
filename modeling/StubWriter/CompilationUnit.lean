/-!
# Compilation units

What a Java source declares: its package, its imports and its types with the headers of their
members. Type arguments, annotations, fields, initializers and bodies are not kept, since nothing
in a stub depends on them; of a body only its presence is.
-/

namespace StubWriter

/-- A type as a source text writes it, without type arguments: a basic type or a dotted name, with
a number of array dimensions. -/
inductive TypeUse where
  | basic (name : String) (dims : Nat)
  | named (segments : List String) (dims : Nat)
  deriving DecidableEq, Repr

def TypeUse.addDims : TypeUse → Nat → TypeUse
  | .basic name dims, n => .basic name (dims + n)
  | .named segments dims, n => .named segments (dims + n)

/-- A type parameter and its bounds, each a dotted name. -/
structure TypeParam where
  name : String
  bounds : List (List String)
  deriving DecidableEq, Repr

structure Param where
  type : TypeUse
  varargs : Bool
  deriving DecidableEq, Repr

/-- A method as written. It returns nothing when `returns` is missing. -/
structure MethodDecl where
  name : String
  modifiers : List String
  typeParams : List TypeParam
  returns : Option TypeUse
  params : List Param
  throws : List (List String)
  hasBody : Bool
  deriving DecidableEq, Repr

structure ConstructorDecl where
  modifiers : List String
  typeParams : List TypeParam
  params : List Param
  throws : List (List String)
  deriving DecidableEq, Repr

inductive DeclKind where
  | classDecl
  | interfaceDecl
  | enumDecl
  | annotationDecl
  deriving DecidableEq, Repr

/-- A type declaration. A class extends at most one type; `nested` are the types declared directly
in its body. -/
structure TypeDecl where
  kind : DeclKind
  name : String
  modifiers : List String
  typeParams : List TypeParam
  extended : List TypeUse
  implemented : List TypeUse
  methods : List MethodDecl
  constructors : List ConstructorDecl
  nested : List TypeDecl
  deriving Repr

mutual

def TypeDecl.decEq : (a b : TypeDecl) → Decidable (a = b)
  | ⟨kind, name, modifiers, params, extended, implemented, methods, constructors, nested⟩,
    ⟨kind', name', modifiers', params', extended', implemented', methods', constructors', nested'⟩ =>
    have := TypeDecl.decEqAll nested nested'
    decidable_of_iff (kind = kind' ∧ name = name' ∧ modifiers = modifiers' ∧ params = params' ∧
      extended = extended' ∧ implemented = implemented' ∧ methods = methods' ∧
      constructors = constructors' ∧ nested = nested') (by rw [TypeDecl.mk.injEq])

def TypeDecl.decEqAll : (as bs : List TypeDecl) → Decidable (as = bs)
  | [], [] => .isTrue rfl
  | [], _ :: _ => .isFalse nofun
  | _ :: _, [] => .isFalse nofun
  | a :: as, b :: bs =>
    have := TypeDecl.decEq a b
    have := TypeDecl.decEqAll as bs
    decidable_of_iff (a = b ∧ as = bs) (by rw [List.cons.injEq])

end

instance : DecidableEq TypeDecl := TypeDecl.decEq

structure Import where
  path : List String
  isStatic : Bool
  onDemand : Bool
  deriving DecidableEq, Repr

structure CompilationUnit where
  package : List String
  imports : List Import
  types : List TypeDecl
  deriving DecidableEq, Repr

/-- A declaration of a unit with the name it has from outside, and whether an interface declares
it as a member. -/
structure Declared where
  decl : TypeDecl
  fullName : String
  inInterface : Bool
  deriving DecidableEq, Repr

/-- `name` as a member of `owner`, which may be empty. -/
def qualify (owner name : String) : String :=
  if owner.isEmpty then name else owner ++ "." ++ name

mutual

/-- A declaration and those nested in it, the outer one first. -/
def TypeDecl.declared (fullName : String) (inInterface : Bool) : TypeDecl → List Declared
  | d@⟨kind, _, _, _, _, _, _, _, nested⟩ =>
    ⟨d, fullName, inInterface⟩ :: declaredAll (fullName ++ ".") (kind == .interfaceDecl) nested

/-- The declarations of a list whose names all start with `owner`. -/
def declaredAll (owner : String) (inInterface : Bool) : List TypeDecl → List Declared
  | [] => []
  | d :: ds => d.declared (owner ++ d.name) inInterface ++ declaredAll owner inInterface ds

end

namespace CompilationUnit

def packageName (u : CompilationUnit) : String :=
  ".".intercalate u.package

/-- All types that a unit declares, in the order of their declaration. -/
def declared (u : CompilationUnit) : List Declared :=
  declaredAll (if u.package.isEmpty then "" else u.packageName ++ ".") false u.types

end CompilationUnit

end StubWriter
