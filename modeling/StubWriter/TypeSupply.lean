import StubWriter.Resolution
import StubWriter.Event

/-!
# Stubs from a supply of types

The way from the name of a type to what its stub consists of: the type is loaded, checked, walked,
and its slots are decided. Whoever supplies the types also tells which of them can be assigned to
which, and takes the reports.

* `TypeSupply.levels`, `TypeSupply.resolve`: the levels of a type and what its stub consists of.
-/

namespace StubWriter

/-- What a resolution asks for. `depth` bounds the length of a path of supertypes. -/
structure TypeSupply (σ : Type) where
  load : String → EStateM Failure σ TypeInfo
  isAssignable : String → String → EStateM Failure σ Bool
  report : Event → EStateM Failure σ Unit
  depth : σ → Nat

namespace TypeSupply

variable {σ : Type} (supply : TypeSupply σ)

/-- The levels of a type, with a report of the chain. -/
def levels (t : TypeInfo) : Walk.Step σ (List Level) := do
  let depth := supply.depth (← get).types
  let found ← Walk.levels supply.load depth t
  Walk.lift (supply.report (.chain t.name (found.map (·.type.name))))
  return found

def reportSlots : List Slot → EStateM Failure σ Unit
  | [] => return
  | slot :: rest => do
    supply.report (.stubbing slot)
    reportSlots rest

/-- What the stub of a type consists of. -/
def resolve (name : String) : Walk.Step σ Resolution := do
  let t ← Walk.lift (supply.load name)
  match Resolution.checkTarget t with
  | .error f => throw f
  | .ok _ =>
    let found ← supply.levels t
    let resolution ← Resolution.resolve t found fun target source =>
      Walk.lift (supply.isAssignable target source)
    Walk.lift (supply.reportSlots (resolution.members.map Prod.fst))
    return resolution

end TypeSupply

end StubWriter
