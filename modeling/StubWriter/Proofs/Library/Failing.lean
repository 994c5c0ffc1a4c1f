import StubWriter.Library.Load
import StubWriter.Proofs.Blames
import StubWriter.Proofs.Library.Growth

/-!
# What loading can fail for

A type is looked for, its unit is read, and the types of the unit are described. This fails for what
cannot be found or read, and for nothing else: never because a hierarchy has no end.

* `Failure.OfLoading`: the failures that loading can come to.
* `Loads`: a step that comes to no others.
-/

namespace StubWriter

open Run

/-- The kinds of failures to find or to read a type. -/
def FailureKind.isOfLoading : FailureKind → Bool
  | .typeNotFound | .sourceParse | .archiveRead | .missingKey | .system _ => true
  | _ => false

/-- A failure to find or to read a type. -/
def Failure.OfLoading (f : Failure) : Prop :=
  f.kind.isOfLoading = true

theorem Failure.OfLoading.ofNotFound {f : Failure} (h : f.isNotFound = true) : f.OfLoading := by
  have hkind : f.kind = .typeNotFound := eq_of_beq h
  unfold OfLoading
  rw [hkind]
  rfl

section Reasons

open Failure

instance (name : String) : Fact (OfLoading (.typeNotFound name)) := ⟨rfl⟩
instance (origin : String) (fault : UnitFault) : Fact (OfLoading (.badUnit origin fault)) := ⟨rfl⟩
instance (path : Path) (fault : ReadFault) : Fact (OfLoading (.unreadableSource path fault)) := ⟨rfl⟩
instance (root : Path) (fault : ReadFault) : Fact (OfLoading (.unreadableArchive root fault)) := ⟨rfl⟩
instance (entry : String) (root : Path) (fault : ReadFault) :
    Fact (OfLoading (.unreadableEntry entry root fault)) := ⟨rfl⟩
instance (entry : String) : Fact (OfLoading (.lostEntry entry)) := ⟨rfl⟩
instance (e : OsError) : Fact (OfLoading (.system e)) := ⟨rfl⟩

end Reasons

/-- A step that only fails as loading does. -/
abbrev Loads {σ α : Type} (x : EStateM Failure σ α) : Prop :=
  Blames Failure.OfLoading x

namespace Library

/-! ## Sources -/

instance (e : Event) : Loads (report e) :=
  inferInstanceAs (Loads (modify _))

instance {α : Type} (x : Disk α) : Loads (ask x) := by
  refine blames_bind inferInstance fun l => ?_
  split <;> infer_instance

instance (root : Path) : Loads (archiveEntries root) := by
  refine blames_bind inferInstance fun l => ?_
  split
  · infer_instance
  refine blames_bind inferInstance fun l => ?_
  split <;> infer_instance

instance (root : Path) (entry : String) : Loads (readEntry root entry) := by
  refine blames_bind inferInstance fun l => ?_
  split
  · infer_instance
  split
  · infer_instance
  split <;> infer_instance

instance (p : Path) : Loads (readFile p) := by
  refine blames_bind inferInstance fun l => ?_
  split
  · infer_instance
  split <;> infer_instance

instance (relative : String) (root : Path) : Loads (rootHas relative root) := by
  unfold rootHas
  infer_instance

instance (relative : String) (root : Path) : Loads (readFromRoot relative root) := by
  unfold readFromRoot
  infer_instance

instance (places : List (String × Path)) : Loads (firstSource? places) := by
  induction places with
  | nil => exact inferInstanceAs (Loads (pure _))
  | cons place places ih =>
    obtain ⟨relative, root⟩ := place
    unfold firstSource?
    infer_instance

instance (name : String) : Loads (findSource? name) := by
  refine blames_bind inferInstance fun l => blames_bind inferInstance fun source? => ?_
  cases source? <;> infer_instance

instance (relative : String) (roots : List Path) : Loads (anyRoot relative roots) := by
  induction roots with
  | nil => exact inferInstanceAs (Loads (pure _))
  | cons root roots ih =>
    unfold anyRoot
    infer_instance

instance (name : String) : Loads (exists? name) := by
  unfold exists?
  infer_instance

end Library

/-! ## Names and descriptions -/

instance (s : Scope) (segments : List String) : Loads (s.resolveName segments) :=
  Scope.resolveName_of (blames_compositional _) (fun _ hf => blames_throw (.ofNotFound hf))
    (fun _ => inferInstance) fun _ _ => inferInstance

instance (d : Declared) (package origin : String) (s : Scope) :
    Loads (d.describe package origin s) :=
  d.describe_of (blames_compositional _) fun _ _ => inferInstance

namespace Library

/-! ## Loading -/

instance (package origin : String) (s : Scope) (ds : List Declared) :
    Loads (registerAll package origin s ds) := by
  induction ds with
  | nil => exact inferInstanceAs (Loads (pure _))
  | cons d ds ih =>
    unfold registerAll
    infer_instance

instance (unit : CompilationUnit) (origin : String) : Loads (register unit origin) := by
  unfold register
  infer_instance

instance (s : Source) : Loads (registerSource s) := by
  unfold registerSource
  split <;> infer_instance

instance (units : List (String × CompilationUnit)) : Loads (registerUnits units) := by
  induction units with
  | nil => exact inferInstanceAs (Loads (pure _))
  | cons unit units ih =>
    unfold registerUnits
    infer_instance

instance (name : String) : Loads (fetch name) := by
  refine blames_bind inferInstance fun source? => ?_
  split <;> infer_instance

instance (name : String) : Loads (standing name) := by
  refine blames_bind inferInstance fun l => ?_
  split <;> infer_instance

instance (name : String) : Loads (load name) := by
  rw [load_eq]
  split
  · infer_instance
  refine blames_bind inferInstance fun l => ?_
  split <;> infer_instance

instance (name : String) : Loads (loadIfFound name) := by
  refine ⟨fun l e l' h => ?_⟩
  rw [loadIfFound_eq] at h
  cases hrun : load name l with
  | ok t l₁ =>
    rw [hrun] at h
    cases h
  | error f l₁ =>
    rw [hrun] at h
    dsimp only at h
    split at h
    · cases h
    · cases h
      exact Blames.blames l e l' hrun

end Library

end StubWriter
