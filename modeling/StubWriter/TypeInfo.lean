/-!
# Types and their members

A Java type as a stub has to know it: its kind and supertypes, its constructors and its methods, all
names canonical and erased. An override slot is a name with parameter types; what a method returns
is not part of it.
-/

namespace StubWriter

inductive Visibility where
  | pub
  | prot
  | pkg
  | priv
  | other (word : String)
  deriving DecidableEq, Repr

def Visibility.word : Visibility → String
  | .pub => "public"
  | .prot => "protected"
  | .pkg => "package"
  | .priv => "private"
  | .other word => word

def Visibility.ofWord (word : String) : Visibility :=
  if word == "public" then .pub
  else if word == "protected" then .prot
  else if word == "package" then .pkg
  else if word == "private" then .priv
  else .other word

inductive TypeKind where
  | classType
  | interfaceType
  | enumType
  | annotationType
  | primitive
  | other (word : String)
  deriving DecidableEq, Repr

def TypeKind.word : TypeKind → String
  | .classType => "class"
  | .interfaceType => "interface"
  | .enumType => "enum"
  | .annotationType => "annotation"
  | .primitive => "primitive"
  | .other word => word

def TypeKind.ofWord (word : String) : TypeKind :=
  if word == "class" then .classType
  else if word == "interface" then .interfaceType
  else if word == "enum" then .enumType
  else if word == "annotation" then .annotationType
  else if word == "primitive" then .primitive
  else .other word

/-- The slot that a method fills and that an overriding method has to match. -/
structure Slot where
  name : String
  params : List String
  deriving DecidableEq, Repr

namespace Slot

def text (s : Slot) : String :=
  s.name ++ "(" ++ ", ".intercalate s.params ++ ")"

instance : ToString Slot := ⟨Slot.text⟩

/-- Slots by name, then by the number of parameters, then by the parameters. -/
def precedes (a b : Slot) : Bool :=
  if a.name != b.name then a.name < b.name
  else if a.params.length != b.params.length then a.params.length < b.params.length
  else decide (a.params < b.params) || a.params == b.params

end Slot

structure Constructor where
  declaringType : String
  params : List String
  throws : List String
  visibility : Visibility
  deriving DecidableEq, Repr

structure Method where
  declaringType : String
  name : String
  returns : String
  params : List String
  throws : List String
  visibility : Visibility
  isAbstract : Bool
  isStatic : Bool
  isFinal : Bool
  deriving DecidableEq, Repr

def Method.slot (m : Method) : Slot :=
  ⟨m.name, m.params⟩

/-- The canonical name of the class above all others. -/
def objectName : String := "java.lang.Object"

/-- The types that are no class or interface. -/
def primitiveNames : List String :=
  ["boolean", "byte", "char", "short", "int", "long", "float", "double", "void"]

def isPrimitiveName (name : String) : Bool :=
  primitiveNames.contains name

structure TypeInfo where
  name : String
  simpleName : String
  kind : TypeKind
  package : String
  visibility : Visibility
  modifiers : List String
  superclass : Option String
  interfaces : List String
  constructors : List Constructor
  methods : List Method
  sourceFile : Option String
  deriving DecidableEq, Repr

namespace TypeInfo

def isInterface (t : TypeInfo) : Bool :=
  t.kind == .interfaceType

def isPrimitive (t : TypeInfo) : Bool :=
  t.kind == .primitive

def isFinal (t : TypeInfo) : Bool :=
  t.modifiers.contains "final"

/-- The superclass, unless its name is empty. -/
def superclass? (t : TypeInfo) : Option String :=
  t.superclass.filter fun name => !name.isEmpty

/-- The superclass, then the interfaces. -/
def supertypes (t : TypeInfo) : List String :=
  t.superclass?.toList ++ t.interfaces

/-- A primitive type has a name and nothing else. -/
def ofPrimitive (name : String) : TypeInfo where
  name := name
  simpleName := name
  kind := .primitive
  package := ""
  visibility := .pub
  modifiers := []
  superclass := none
  interfaces := []
  constructors := []
  methods := []
  sourceFile := none

end TypeInfo

end StubWriter
