import StubWriter.Library.Load
import StubWriter.TypeSupply

/-!
# Inspecting the types of a library

The walk over the chain of a type, and the resolution of its stub, with the types of a library.

* `Library.depth`: how long the paths of supertypes may get.
* `Inspection.levels`, `Inspection.resolve`: the levels of a type and what its stub consists of.
-/

namespace StubWriter

/-- A bound on the length of a path of supertypes. A path that is not endless meets a type again only
after another type was loaded, or all of its methods were found. -/
def Library.depth (l : Library) : Nat :=
  l.extent * (2 * l.extent + 1)

theorem Library.extent_le_depth (l : Library) : l.extent ≤ l.depth :=
  Nat.le_mul_of_pos_right _ (Nat.succ_pos _)

theorem Library.depth_mono {l l' : Library} (h : l.extent ≤ l'.extent) : l.depth ≤ l'.depth :=
  Nat.mul_le_mul h (by omega)

/-- A library as a supply of types. -/
def Library.supply : TypeSupply Library where
  load := Library.load
  isAssignable := Library.isAssignable
  report := Library.report
  depth := Library.depth

/-- A search in a library that keeps the views it computes. -/
abbrev Inspection := EStateM Failure (Walk Library)

namespace Inspection

def start (l : Library) : Walk Library :=
  ⟨l, []⟩

def lookup {α : Type} (x : Lookup α) : Inspection α :=
  Walk.lift x

def load (name : String) : Inspection TypeInfo :=
  lookup (Library.load name)

/-- The levels of a type of the library. -/
def levels (t : TypeInfo) : Inspection (List Level) :=
  Library.supply.levels t

/-- What the stub of a type of the library consists of. -/
def resolve (name : String) : Inspection Resolution :=
  Library.supply.resolve name

def isAssignable (target source : String) : Inspection Bool :=
  lookup (Library.isAssignable target source)

end Inspection

end StubWriter
