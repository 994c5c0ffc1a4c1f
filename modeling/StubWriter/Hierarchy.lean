import StubWriter.Failure

/-!
# The chain of superclasses and what it exposes

A type has a level for itself and for each of its superclasses below `java.lang.Object`; the chain
of an interface is the interface alone. A level knows the methods that its type declares and the
public methods that are visible on it. Types come from a `load` of any kind, so that the walk can be
studied over a fixed table of types as well as over a library.

* `exposed`: the public methods visible on a type. Nearer declarations hide those further away.
* `levels`: the chain of a type.
-/

namespace StubWriter

/-- A type of the chain with the methods visible on it. -/
structure Level where
  type : TypeInfo
  declared : List Method
  exposed : List Method
  deriving DecidableEq, Repr

/-- A walk over types that `σ` holds, with the views that were computed so far. -/
structure Walk (σ : Type) where
  types : σ
  views : List (String × List Method)

namespace Walk

variable {σ : Type}

abbrev Step (σ α : Type) := EStateM Failure (Walk σ) α

/-- A step that looks at the types only. -/
def lift {α : Type} (x : EStateM Failure σ α) : Step σ α := fun w =>
  match x w.types with
  | .ok a types => .ok a { w with types }
  | .error f types => .error f { w with types }

variable (load : String → EStateM Failure σ TypeInfo)

/-- A supertype. That it is not found is a failure of its own, since it may declare methods that a
stub has to implement. -/
def supertype (name : String) (sub : TypeInfo) (role : SupertypeRole) : Step σ TypeInfo := do
  try lift (load name)
  catch f => if f.isNotFound then throw (.supertypeNotFound role name sub.name) else throw f

/-- The name of the superclass that the chain goes on with. -/
def superclassName? (t : TypeInfo) : Option String :=
  if t.isInterface then none else t.superclass?.filter (· != objectName)

def superclass? (t : TypeInfo) : Step σ (Option TypeInfo) := do
  match superclassName? t with
  | none => return none
  | some name => return some (← supertype load name t .superclass)

def ownPublic (t : TypeInfo) : List Method :=
  t.methods.filter fun m => m.visibility == .pub

/-- The methods of a supertype whose slots are free. -/
def inherited (taken : List Slot) (methods : List Method) : List Method :=
  methods.filter fun m => !taken.contains m.slot

/-- The methods of an interface that a subtype inherits: its static methods are its own. -/
def inheritedFromInterface (taken : List Slot) (methods : List Method) : List Method :=
  methods.filter fun m => !m.isStatic && !taken.contains m.slot

/-- What a type inherits from its superclass, whose view `expose` computes. -/
def inheritedFromSuperclass (expose : TypeInfo → Step σ (List Method)) (t : TypeInfo) :
    Step σ (List Method) := do
  match ← superclass? load t with
  | none => return []
  | some s => return inherited (t.methods.map Method.slot) (← expose s)

/-- What a type inherits from its interfaces, whose views `expose` computes. -/
def inheritedFromInterfaces (expose : TypeInfo → Step σ (List Method)) (t : TypeInfo)
    (taken : List Slot) : Step σ (List Method) := do
  let parts ← t.interfaces.mapM fun name => do
    let i ← supertype load name t .interface
    return inheritedFromInterface taken (← expose i)
  return parts.flatten

/-- The public methods visible on a type: its own, those of its superclass, those of its interfaces.
A slot that the type declares hides all inherited methods, and a slot inherited from the superclass
hides those of interfaces; interfaces do not hide each other's methods. `depth` bounds the length of
a path of supertypes. -/
def exposed : Nat → TypeInfo → Step σ (List Method)
  | 0, t => throw (.endlessHierarchy t.name)
  | depth + 1, t => do
    match (← get).views.lookup t.name with
    | some methods => return methods
    | none =>
      let fromSuperclass ← inheritedFromSuperclass load (exposed depth) t
      let taken := t.methods.map Method.slot ++ fromSuperclass.map Method.slot
      let fromInterfaces ← inheritedFromInterfaces load (exposed depth) t taken
      let methods := ownPublic t ++ fromSuperclass ++ fromInterfaces
      modify fun w => { w with views := (t.name, methods) :: w.views }
      return methods

/-- The levels of a type and its superclasses. `depth` bounds the length of the chain. -/
def chain (depth : Nat) : Nat → TypeInfo → Step σ (List Level)
  | 0, t => throw (.endlessHierarchy t.name)
  | n + 1, t => do
    if t.name == objectName then return []
    let methods ← exposed load depth t
    let level : Level := ⟨t, t.methods, methods⟩
    match ← superclass? load t with
    | none => return [level]
    | some s => return level :: (← chain depth n s)

/-- The levels of a type. -/
def levels (depth : Nat) (t : TypeInfo) : Step σ (List Level) := do
  if t.isPrimitive then throw (.primitiveTarget t.name)
  chain load depth depth t

end Walk

end StubWriter
