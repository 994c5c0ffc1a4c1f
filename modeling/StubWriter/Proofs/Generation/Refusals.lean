import StubWriter.Library.Inspection
import StubWriter.Proofs.Library.Failing

/-!
# What an inspection can fail for

Types are looked for, read, described, walked and compared, and slots are decided. None of this ever
fails for a reason of the making of files: for what cannot be written, compiled or packed.

* `Failure.OfSearch`: the failures that a search can come to.
* `Inspection.blames_resolve`: resolutions of stubs come to no others.
-/

namespace StubWriter

open Run

/-- The kinds of failures in the making of a stub's files. -/
def FailureKind.isOfMaking : FailureKind → Bool
  | .emission | .compilation | .packaging | .invalidArgument => true
  | _ => false

/-- A failure that is none of the making of files. -/
def Failure.OfSearch (f : Failure) : Prop :=
  f.kind.isOfMaking = false

theorem Failure.OfLoading.ofSearch {f : Failure} (h : f.OfLoading) : f.OfSearch := by
  unfold OfLoading at h
  unfold OfSearch
  cases hkind : f.kind <;> rw [hkind] at h <;> first | rfl | cases h

section Reasons

open Failure

instance (name : String) : Fact (OfSearch (.primitiveTarget name)) := ⟨rfl⟩
instance (name : String) : Fact (OfSearch (.endlessHierarchy name)) := ⟨rfl⟩
instance (role : SupertypeRole) (name sub : String) :
    Fact (OfSearch (.supertypeNotFound role name sub)) := ⟨rfl⟩

end Reasons

/-- A step that only fails as a search does. -/
abbrev Searches {σ α : Type} (x : EStateM Failure σ α) : Prop :=
  Blames Failure.OfSearch x

instance {σ α : Type} (x : EStateM Failure σ α) [h : Loads x] : Searches x :=
  ⟨fun s f s' hrun => (h.blames s f s' hrun).ofSearch⟩

namespace Library

/-! ## Loading -/

instance (name : String) (fuel : Nat) (seen pending : List String) :
    Searches (loadAll name fuel seen pending) := by
  induction fuel, seen, pending using loadAll.induct with
  | case1 fuel seen =>
    unfold loadAll
    infer_instance
  | case2 fuel seen current pending hskip ih =>
    rw [loadAll.eq_def]
    dsimp only
    rw [if_pos hskip]
    exact ih
  | case3 seen current pending hskip =>
    rw [loadAll.eq_def]
    dsimp only
    rw [if_neg hskip]
    infer_instance
  | case4 seen current pending hskip fuel ih ih' =>
    rw [loadAll.eq_def]
    dsimp only
    rw [if_neg hskip]
    refine blames_bind inferInstance fun t? => ?_
    cases t? with
    | some t => exact ih t
    | none => infer_instance

instance (target source : String) : Searches (isAssignable target source) := by
  unfold isAssignable loadAncestry
  infer_instance

end Library

/-! ## Walks and decisions -/

section Walks

variable {σ : Type}

instance {α : Type} (x : EStateM Failure σ α) [Searches x] : Searches (Walk.lift x) := by
  refine ⟨fun w e w' h => ?_⟩
  unfold Walk.lift at h
  cases hx : x w.types with
  | ok a s =>
    rw [hx] at h
    cases h
  | error f s =>
    rw [hx] at h
    cases h
    exact Blames.blames w.types e s hx

namespace Walk

variable (load : String → EStateM Failure σ TypeInfo) [∀ name, Searches (load name)]

instance (name : String) (sub : TypeInfo) (role : SupertypeRole) :
    Searches (supertype load name sub role) := by
  refine blames_tryCatch inferInstance fun f hf => ?_
  have : Fact f.OfSearch := ⟨hf⟩
  infer_instance

instance (t : TypeInfo) : Searches (superclass? load t) := by
  unfold superclass?
  split <;> infer_instance

instance (expose : TypeInfo → Step σ (List Method)) [∀ t, Searches (expose t)] (t : TypeInfo) :
    Searches (inheritedFromSuperclass load expose t) := by
  refine blames_bind inferInstance fun s? => ?_
  cases s? <;> infer_instance

instance (expose : TypeInfo → Step σ (List Method)) [∀ t, Searches (expose t)] (t : TypeInfo)
    (taken : List Slot) : Searches (inheritedFromInterfaces load expose t taken) := by
  unfold inheritedFromInterfaces
  infer_instance

instance (depth : Nat) (t : TypeInfo) : Searches (exposed load depth t) := by
  induction depth generalizing t with
  | zero => exact inferInstanceAs (Searches (throw _))
  | succ depth ih =>
    refine blames_bind inferInstance fun w => ?_
    split <;> infer_instance

instance (depth n : Nat) (t : TypeInfo) : Searches (chain load depth n t) := by
  induction n generalizing t with
  | zero => exact inferInstanceAs (Searches (throw _))
  | succ n ih =>
    have hrest : ∀ level : Level, ∀ s? : Option TypeInfo, Searches (match s? with
        | none => pure [level]
        | some s => do return level :: (← chain load depth n s) : Step σ (List Level)) := by
      intro level s?
      cases s? <;> infer_instance
    unfold chain
    infer_instance

instance (depth : Nat) (t : TypeInfo) : Searches (levels load depth t) := by
  unfold levels
  infer_instance

end Walk

namespace Resolution

variable (assignable : String → String → EStateM Failure σ Bool) [∀ a b, Searches (assignable a b)]

instance (concrete required : Method) : Searches (suppresses assignable concrete required) := by
  unfold suppresses
  infer_instance

instance (required : Method) (cs : List Method) :
    Searches (anySuppresses assignable required cs) := by
  induction cs with
  | nil => exact inferInstanceAs (Searches (pure _))
  | cons c cs ih =>
    unfold anySuppresses
    infer_instance

instance (concrete : List (Slot × List Method)) (methods : List (Slot × Method)) :
    Searches (decide assignable concrete methods) := by
  induction methods with
  | nil => exact inferInstanceAs (Searches (pure _))
  | cons p ps ih =>
    unfold decide
    infer_instance

theorem checkTarget_ofSearch {t : TypeInfo} {f : Failure} (h : checkTarget t = .error f) :
    f.OfSearch := by
  unfold checkTarget at h
  split at h
  · cases h
    rfl
  split at h
  · cases h
    rfl
  split at h
  · cases h
    rfl
  · cases h

theorem selectConstructors_ofSearch {t : TypeInfo} {f : Failure}
    (h : selectConstructors t = .error f) : f.OfSearch := by
  unfold selectConstructors at h
  split at h
  · cases h
  dsimp only at h
  split at h
  · cases h
    rfl
  · cases h

instance (t : TypeInfo) (levels : List Level) : Searches (resolve t levels assignable) := by
  unfold resolve
  cases hcheck : checkTarget t with
  | error f => exact blames_throw (checkTarget_ofSearch hcheck)
  | ok =>
    cases hconstructors : selectConstructors t with
    | error f => exact blames_throw (selectConstructors_ofSearch hconstructors)
    | ok constructors => infer_instance

end Resolution

instance (supply : TypeSupply σ) (name : String) [∀ name, Searches (supply.load name)]
    [∀ a b, Searches (supply.isAssignable a b)] [∀ e, Searches (supply.report e)] :
    Searches (supply.resolve name) := by
  have hreports : ∀ slots, Searches (supply.reportSlots slots) := by
    intro slots
    induction slots with
    | nil => exact inferInstanceAs (Searches (pure _))
    | cons slot slots ih =>
      unfold TypeSupply.reportSlots
      infer_instance
  have hlevels : ∀ t, Searches (supply.levels t) := by
    intro t
    unfold TypeSupply.levels
    infer_instance
  refine blames_bind inferInstance fun t => ?_
  cases hcheck : Resolution.checkTarget t with
  | error f => exact blames_throw (Resolution.checkTarget_ofSearch hcheck)
  | ok => infer_instance

end Walks

namespace Inspection

/-- The resolution of a stub fails for nothing that the making of its files could fail for. -/
instance blames_resolve (name : String) : Searches (resolve name) := by
  have hload : ∀ name, Searches (Library.supply.load name) := fun name =>
    inferInstanceAs (Searches (Library.load name))
  have hassignable : ∀ a b, Searches (Library.supply.isAssignable a b) := fun a b =>
    inferInstanceAs (Searches (Library.isAssignable a b))
  have hreport : ∀ e, Searches (Library.supply.report e) := fun e =>
    inferInstanceAs (Searches (Library.report e))
  unfold resolve
  infer_instance

end Inspection

end StubWriter
