import StubWriter.Hierarchy

/-!
# Which methods a stub has to declare

All abstract methods of a chain are collected by their slots, and all others as well. A slot is
dropped when one of the methods that are not abstract implements it, wherever in the chain either of
them stands, and kept otherwise.

* `collectAbstract`, `collectConcrete`: the methods of the levels by their slots.
* `decide`: what happens to each slot.
* `resolve`: the members and the constructors of the stub of a target.
-/

namespace StubWriter

inductive Decision where
  | keep
  | drop
  deriving DecidableEq, Repr

def Decision.word : Decision → String
  | .keep => "keep"
  | .drop => "drop"

/-- What the stub of a target consists of. -/
structure Resolution where
  target : TypeInfo
  constructors : List Constructor
  members : List (Slot × Method)
  decisions : List (Slot × Decision)
  deriving DecidableEq, Repr

namespace Resolution

/-- All methods of the levels: those that a type declares, then those visible on it. -/
def walked (levels : List Level) : List Method :=
  levels.flatMap fun l => l.declared ++ l.exposed

/-- The last abstract method of each slot, in the order in which the slots first occur. -/
def collectAbstract (levels : List Level) : List (Slot × Method) :=
  (walked levels).foldl
    (fun acc m => if m.isAbstract then Keyed.set m.slot m acc else acc) []

/-- The methods of each slot that are not abstract. -/
def collectConcrete (levels : List Level) : List (Slot × List Method) :=
  (walked levels).foldl
    (fun acc m =>
      if m.isAbstract then acc else Keyed.alter m.slot (fun ms => ms.getD [] ++ [m]) acc) []

def sameSlot (a b : Method) : Bool :=
  a.slot == b.slot

section Decide

variable {m : Type → Type} [Monad m] (assignable : String → String → m Bool)

/-- Whether a method that is not abstract implements an abstract one: what it returns can be stored
where the result of the abstract one is expected. -/
def suppresses (concrete required : Method) : m Bool :=
  if sameSlot concrete required then assignable required.returns concrete.returns
  else pure false

/-- Whether one of the methods implements an abstract one; later ones are not asked. -/
def anySuppresses (required : Method) : List Method → m Bool
  | [] => pure false
  | c :: cs => do
    if ← suppresses assignable c required then return true
    else anySuppresses required cs

def decide (concrete : List (Slot × List Method)) :
    List (Slot × Method) → m (List (Slot × Decision))
  | [] => pure []
  | (slot, required) :: rest => do
    let implemented ← anySuppresses assignable required ((Keyed.get? slot concrete).getD [])
    let others ← decide concrete rest
    return (slot, if implemented then .drop else .keep) :: others

end Decide

/-- The slots that are kept, with their methods. -/
def kept (decisions : List (Slot × Decision)) (methods : List (Slot × Method)) :
    List (Slot × Method) :=
  methods.filter fun p => Keyed.get? p.1 decisions == some .keep

/-! ## Targets -/

/-- The constructors that a stub has to call: all that are not private. A class needs one. -/
def selectConstructors (t : TypeInfo) : Except Failure (List Constructor) :=
  if t.isInterface then .ok []
  else
    let usable := t.constructors.filter fun c => c.visibility != .priv
    if usable.isEmpty then .error (.noConstructor t.name) else .ok usable

/-- Whether a type can be stubbed at all. -/
def checkTarget (t : TypeInfo) : Except Failure Unit :=
  if t.isPrimitive then .error (.primitiveTarget t.name)
  else if t.isFinal then .error (.finalTarget t.name)
  else if t.kind == .enumType || t.kind == .annotationType then
    .error (.closedTarget t.name t.kind)
  else .ok ()

/-- What the stub of a target consists of, given its levels. -/
def resolve {m : Type → Type} [Monad m] [MonadExcept Failure m] (t : TypeInfo)
    (levels : List Level) (assignable : String → String → m Bool) : m Resolution := do
  match checkTarget t with
  | .error f => throw f
  | .ok _ =>
  match selectConstructors t with
  | .error f => throw f
  | .ok constructors =>
    let methods := collectAbstract levels
    let decisions ← decide assignable (collectConcrete levels) methods
    return { target := t, constructors, members := kept decisions methods, decisions }

end Resolution

end StubWriter
