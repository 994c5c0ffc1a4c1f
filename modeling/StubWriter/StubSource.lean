import StubWriter.TypeInfo
import StubWriter.Path

/-!
# The text of a stub

A stub is a public Java class in the package of its target. Its constructors call those of the
target, and its methods return the default value of what they return.
-/

namespace StubWriter

namespace StubSource

/-- What the name of a stub ends in. -/
def nameEnding : String := "Impl"

def indent : String := "\t"

def className (t : TypeInfo) : String :=
  t.simpleName ++ nameEnding

/-- The file of a stub below a root: a directory for each part of the package. -/
def path (t : TypeInfo) (root : Path) : Path :=
  let parts := if t.package.isEmpty then [] else splitText '.' t.package
  parts.foldl Path.child root / (className t ++ ".java")

/-- What a method returns that returns nothing in particular; `none` if it returns nothing. -/
def defaultValue? (type : String) : Option String :=
  if type == "void" then none
  else if type == "boolean" then some "false"
  else if type == "byte" || type == "short" || type == "int" then some "0"
  else if type == "long" then some "0L"
  else if type == "float" then some "0.0f"
  else if type == "double" then some "0.0"
  else if type == "char" then some "'\\0'"
  else some "null"

/-- The access keyword, which package access has not, and `static`. -/
def modifiers (v : Visibility) (isStatic : Bool) : String :=
  let access :=
    match v with
    | .pub => "public "
    | .prot => "protected "
    | _ => ""
  access ++ if isStatic then "static " else ""

def paramName (i : Nat) : String :=
  "arg" ++ toString (i + 1)

def params (types : List String) : String :=
  ", ".intercalate (types.mapIdx fun i type => type ++ " " ++ paramName i)

def arguments (types : List String) : String :=
  ", ".intercalate (types.mapIdx fun i _ => paramName i)

def throws (types : List String) : String :=
  if types.isEmpty then "" else " throws " ++ ", ".intercalate types

def constructorText (c : Constructor) (className : String) : String :=
  indent ++ modifiers c.visibility false ++ className ++ "(" ++ params c.params ++ ")" ++
    throws c.throws ++ " \x7b\n" ++
    indent ++ indent ++ "super(" ++ arguments c.params ++ ");\n" ++
    indent ++ "\x7d"

def bodyText (type : String) : String :=
  match defaultValue? type with
  | some value => indent ++ indent ++ "return " ++ value ++ ";\n"
  | none => ""

def methodText (m : Method) : String :=
  indent ++ modifiers m.visibility m.isStatic ++ m.returns ++ " " ++ m.name ++
    "(" ++ params m.params ++ ")" ++ throws m.throws ++ " \x7b\n" ++
    bodyText m.returns ++
    indent ++ "\x7d"

def packageText (t : TypeInfo) : String :=
  if t.package.isEmpty then "" else "package " ++ t.package ++ ";\n\n"

def relation (t : TypeInfo) : String :=
  if t.isInterface then "implements" else "extends"

/-- Final and private methods cannot be overridden and are left out. -/
def isEmitted (m : Method) : Bool :=
  !m.isFinal && m.visibility != .priv

/-- The compilation unit of a stub. -/
def text (t : TypeInfo) (constructors : List Constructor) (methods : List Method) : String :=
  packageText t ++
    "public class " ++ className t ++ " " ++ relation t ++ " " ++ t.name ++ " \x7b" ++
    String.join (constructors.map fun c => "\n\n" ++ constructorText c (className t)) ++
    String.join ((methods.filter isEmitted).map fun m => "\n\n" ++ methodText m) ++
    "\n\n\x7d\n"

end StubSource

end StubWriter
