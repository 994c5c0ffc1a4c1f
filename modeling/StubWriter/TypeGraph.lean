import StubWriter.TypeInfo
import StubWriter.Keyed

/-!
# The graph of subtypes

A node for every type name that was met, with the type once it is loaded, and an edge from each
type to its supertypes. Nodes, and the edges of a node, keep the order in which they came.

* `ancestors`: the supertypes of a name, direct and indirect, without the name itself.
* `isAssignable`: whether a variable of one type can hold a value of another.
-/

namespace StubWriter

/-- How a type relates to a supertype. -/
abbrev EdgeLabel := String

def EdgeLabel.extends : EdgeLabel := "EXTENDS"

def EdgeLabel.implements : EdgeLabel := "IMPLEMENTS"

structure GraphNode where
  name : String
  kind : Option TypeKind
  type : Option TypeInfo
  edges : List (String × EdgeLabel)
  deriving DecidableEq, Repr

structure TypeGraph where
  nodes : List GraphNode
  deriving DecidableEq, Repr

namespace TypeGraph

def empty : TypeGraph := ⟨[]⟩

instance : Inhabited TypeGraph := ⟨empty⟩

def node? (g : TypeGraph) (name : String) : Option GraphNode :=
  g.nodes.find? (·.name == name)

/-- The loaded type of a name. -/
def get? (g : TypeGraph) (name : String) : Option TypeInfo :=
  (g.node? name).bind (·.type)

def contains (g : TypeGraph) (name : String) : Bool :=
  (g.get? name).isSome

def hasNode (g : TypeGraph) (name : String) : Bool :=
  (g.node? name).isSome

/-- Adds a bare node for a name that has none. -/
def touch (g : TypeGraph) (name : String) : TypeGraph :=
  if g.hasNode name then g else ⟨g.nodes ++ [⟨name, none, none, []⟩]⟩

def modify (g : TypeGraph) (name : String) (f : GraphNode → GraphNode) : TypeGraph :=
  ⟨g.nodes.map fun n => if n.name == name then f n else n⟩

/-- Adds an edge, and the nodes at its ends where they are missing, its target first. -/
def addEdge (g : TypeGraph) (source target : String) (label : EdgeLabel) : TypeGraph :=
  ((g.touch target).touch source).modify source fun n =>
    { n with edges := Keyed.set target label n.edges }

/-- Loads a type: its node holds it from now on, and edges lead to its supertypes. -/
def addType (g : TypeGraph) (t : TypeInfo) : TypeGraph :=
  let loaded := (g.touch t.name).modify t.name fun n =>
    { n with kind := some t.kind, type := some t }
  let extended := t.superclass?.toList.foldl
    (fun g name => g.addEdge t.name name EdgeLabel.extends) loaded
  t.interfaces.foldl (fun g name => g.addEdge t.name name EdgeLabel.implements) extended

/-- The direct supertypes of a name. -/
def targets (g : TypeGraph) (name : String) : List String :=
  ((g.node? name).map (·.edges.map Prod.fst)).getD []

/-- Visits names and what they lead to. `fuel` bounds the names that are newly visited. -/
def visit (g : TypeGraph) (fuel : Nat) (seen : List String) : List String → List String
  | [] => seen
  | name :: pending =>
    if seen.contains name then visit g fuel seen pending
    else
      match fuel with
      | 0 => seen
      | fuel + 1 => visit g fuel (seen ++ [name]) (g.targets name ++ pending)
termination_by pending => (fuel, pending.length)

/-- All supertypes of a name, direct and indirect, without the name itself. A name is visited once
and is the name itself or the target of an edge. -/
def ancestors (g : TypeGraph) (name : String) : List String :=
  (g.visit (g.nodes.length + 1) [] [name]).tail

/-- What an array is, apart from being an array. -/
def arraySupertypes : List String :=
  [objectName, "java.lang.Cloneable", "java.io.Serializable"]

/-- The element type of an array type, by the characters of its name. -/
def elementChars? (cs : List Char) : Option (List Char) :=
  if "[]".toList.isSuffixOf cs then some (cs.take (cs.length - 2)) else none

/-- The element type of an array type. -/
def element? (name : String) : Option String :=
  (elementChars? name.toList).map String.ofList

/-- Whether a variable of type `target` can hold a value of type `source`, as far as erased names
and the loaded types tell. Arrays of references vary with their elements. `depth` bounds the number
of array dimensions. -/
def isAssignableUpTo (g : TypeGraph) : Nat → String → String → Bool
  | 0, _, _ => false
  | depth + 1, target, source =>
    if target == source then true
    else if isPrimitiveName target || isPrimitiveName source then false
    else if target == objectName then true
    else
      match element? source, element? target with
      | some s, some t =>
        if isPrimitiveName s || isPrimitiveName t then false else isAssignableUpTo g depth t s
      | some _, none => arraySupertypes.contains target
      | none, some _ => false
      | none, none => (g.ancestors source).contains target

def isAssignable (g : TypeGraph) (target source : String) : Bool :=
  g.isAssignableUpTo (source.length + 1) target source

end TypeGraph

end StubWriter
