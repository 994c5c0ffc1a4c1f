import StubWriter.Library.Describe

/-!
# Loading types

A type is loaded with all types of its unit, in the order of their declaration. What a unit declares
replaces what was loaded under the same names.

* `Library.load`: the type of a canonical name.
* `Library.isAssignable`: assignability, after loading all supertypes of the assigned type.
* `Library.ofUnits`: a library with units of its own, which are known by name before any is loaded.
-/

namespace StubWriter

namespace Library

/-- Loads declarations of a unit, one after the other. -/
def registerAll (package origin : String) (scope : Scope) : List Declared → Lookup Unit
  | [] => return
  | d :: ds => do
    let type ← d.describe package origin scope
    modify fun l =>
      { l with graph := l.graph.addType type, missing := l.missing.filter (· != d.fullName) }
    registerAll package origin scope ds

def register (unit : CompilationUnit) (origin : String) : Lookup Unit :=
  registerAll unit.packageName origin (Scope.ofUnit unit) unit.declared

def registerSource (s : Source) : Lookup Unit :=
  match s.unit with
  | .ok unit => register unit s.origin
  | .error fault => throw (.badUnit s.origin fault)

/-- The type of a canonical name. A name that was looked for in vain is not looked for again. -/
def load (name : String) : Lookup TypeInfo := do
  if isPrimitiveName name then return .ofPrimitive name
  match (← get).graph.get? name with
  | some type => return type
  | none =>
    if (← get).missing.contains name then throw (.typeNotFound name)
    match ← findSource? name with
    | some source =>
      report (.loading name source.origin)
      registerSource source
    | none => pure ()
    match (← get).graph.get? name with
    | some type => return type
    | none =>
      modify fun l => { l with missing := l.missing ++ [name] }
      throw (.typeNotFound name)

/-- The type of a name, unless it is not found. -/
def loadIfFound (name : String) : Lookup (Option TypeInfo) := do
  try return some (← load name)
  catch f => if f.isNotFound then return none else throw f

/-- Loads the supertypes of the pending names, the first one first. `fuel` bounds the names that are
newly visited. -/
def loadAll (name : String) (fuel : Nat) (seen : List String) : List String → Lookup Unit
  | [] => return
  | current :: pending =>
    if seen.contains current || isPrimitiveName current || current == objectName then
      loadAll name fuel seen pending
    else
      match fuel with
      | 0 => throw (.endlessHierarchy name)
      | fuel + 1 => do
        match ← loadIfFound current with
        | some type => loadAll name fuel (current :: seen) (type.supertypes.reverse ++ pending)
        | none =>
          report (.ancestryEnds name current)
          loadAll name fuel (current :: seen) pending
termination_by pending => (fuel, pending.length)

/-- The name of an array type without its brackets. -/
def elementName (name : String) : String :=
  String.ofList (name.toList.reverse.dropWhile fun c => c == '[' || c == ']').reverse

/-- Loads a type and all its supertypes, as far as they are found. -/
def loadAncestry (name : String) : Lookup Unit := do
  loadAll name ((← get).extent) [] [elementName name]

def isAssignable (target source : String) : Lookup Bool := do
  loadAncestry source
  return (← get).graph.isAssignable target source

/-! ## Given units -/

/-- The units among texts with labels, and the failures of the others. -/
def readUnits (files : List (String × String)) :
    List (String × CompilationUnit) × List (String × Failure) :=
  files.foldr (fun (label, text) (units, failures) =>
      match CompilationUnit.ofText text with
      | .ok unit => ((label, unit) :: units, failures)
      | .error fault => (units, (label, .badUnit label fault) :: failures))
    ([], [])

def registerUnits : List (String × CompilationUnit) → Lookup Unit
  | [] => return
  | (label, unit) :: rest => do
    register unit label
    registerUnits rest

/-- The number of names in the header of a declaration: its own, those of its supertypes, and that
of the superclass which goes without saying. -/
def headerSize (d : Declared) : Nat :=
  d.decl.extended.length + d.decl.implemented.length + 2

/-- A library that knows all names of the given units. -/
def ofUnits (roots : List Path) (tree : FileTree) (units : List (String × CompilationUnit)) :
    Library :=
  let declared := units.flatMap fun u => u.2.declared
  let l := ofRoots roots tree
  { l with
    known := declared.map (·.fullName)
    extent := l.extent + declared.foldl (fun n d => n + headerSize d) 0 }

end Library

end StubWriter
