import StubWriter.Generation
import StubWriter.Proofs.Library.Stock
import StubWriter.Proofs.Resolution.Slots

/-!
# Inspections of a generator

A generator asks a fresh library, which is made of its roots and of its own units. The target of a
stub is a type that such a library loads.

* `Generator.inspect_eq`: an inspection is one of the library that is made.
* `Library.resolve_originates`: the target of a resolution is declared by a readable unit.
-/

namespace StubWriter

open Run

/-- The library that is made over roots and given texts. -/
def Library.ofFiles (roots : List Path) (tree : FileTree) (files : List (String × String)) :
    EStateM.Result Failure Library Unit :=
  registerUnits (readUnits files).1 (ofUnits roots tree (readUnits files).1)

/-- What an inspection leaves of a workshop: its reports. -/
def Workshop.noted (w : Workshop) (l : Library) : Workshop :=
  { w with log := w.log ++ l.log }

theorem Generator.inspect_run {α : Type} (g : Generator) (extraRoots : List Path)
    (x : Inspection α) (w : Workshop) :
    g.inspect extraRoots x w =
      match Library.ofFiles (g.roots ++ extraRoots) w.tree g.files with
      | .error f l => .error f (w.noted l)
      | .ok _ l =>
        match x (Inspection.start l) with
        | .ok a walk => .ok a (w.noted walk.types)
        | .error f walk => .error f (w.noted walk.types) := by
  have hlookup : (Inspection.lookup (Library.registerUnits (Library.readUnits g.files).1) *> x)
      (Inspection.start (Library.ofUnits (g.roots ++ extraRoots) w.tree
        (Library.readUnits g.files).1)) =
        match Library.ofFiles (g.roots ++ extraRoots) w.tree g.files with
        | .ok _ l => x (Inspection.start l)
        | .error f l => .error f (Inspection.start l) := by
    change EStateM.seqRight _ _ (Inspection.start _) = _
    simp only [EStateM.seqRight, Inspection.lookup, Walk.lift, Inspection.start, Library.ofFiles]
    cases Library.registerUnits (Library.readUnits g.files).1
      (Library.ofUnits (g.roots ++ extraRoots) w.tree (Library.readUnits g.files).1) <;> rfl
  unfold Generator.inspect
  dsimp only
  rw [hlookup]
  cases Library.ofFiles (g.roots ++ extraRoots) w.tree g.files with
  | error f l => rfl
  | ok _ l =>
    dsimp only
    cases x (Inspection.start l) <;> rfl

namespace TypeSupply

variable {σ : Type} (supply : TypeSupply σ)

/-- The target of a resolution is a type that was loaded and can be stubbed. -/
theorem resolve_ok (name : String) (walk : Walk σ) :
    Ok (supply.resolve name) walk fun r _ => Resolution.checkTarget r.target = .ok () ∧
      ∃ s, supply.load name walk.types = .ok r.target s := by
  have hload : Ok (Walk.lift (supply.load name)) walk fun t _ =>
      ∃ s, supply.load name walk.types = .ok t s := by
    intro t walk' hrun
    unfold Walk.lift at hrun
    cases hload : supply.load name walk.types with
    | error f s =>
      rw [hload] at hrun
      cases hrun
    | ok t' s =>
      rw [hload] at hrun
      cases hrun
      exact ⟨s, rfl⟩
  unfold resolve
  refine ok_bind hload fun t walk' ht => ?_
  split
  · exact ok_throw _
  · rename_i hcheck
    refine ok_bind (ok_self _ _) fun found walk₁ _ => ?_
    refine ok_bind (ok_self _ _) fun r walk₂ hrun => ?_
    have htarget : r.target = t := (Resolution.resolved_of_run hrun).target
    refine ok_bind (ok_self _ _) fun _ walk₃ _ => ok_pure ?_
    rw [htarget]
    exact ⟨hcheck, ht⟩

end TypeSupply

namespace Library

variable {roots : List Path} {tree : FileTree} {files : List (String × String)} {l : Library}

theorem ofFiles_stocked (h : ofFiles roots tree files = .ok () l) :
    Stocked (readUnits files).1 roots tree l := by
  have hregister : Moves (Stocks (readUnits files).1 roots tree)
      (registerUnits (readUnits files).1) := moves_registerUnits (List.Subset.refl _)
  have hmoves := hregister.moves (ofUnits roots tree (readUnits files).1)
  change registerUnits _ _ = _ at h
  rw [h] at hmoves
  exact hmoves.stocked (ofUnits_stocked _ _ _ _)

/-- The target of a stub is declared by a unit that the library reads. -/
theorem resolve_originates (h : ofFiles roots tree files = .ok () l) {name : String}
    {r : Resolution} {walk : Walk Library}
    (hrun : Inspection.resolve name (Inspection.start l) = .ok r walk) :
    Originates (readUnits files).1 roots tree name r.target := by
  obtain ⟨hcheck, l', hload⟩ := supply.resolve_ok name (Inspection.start l) r walk hrun
  have hprimitive : isPrimitiveName name = false := by
    by_contra hprimitive
    rw [Bool.not_eq_false] at hprimitive
    rw [show r.target = .ofPrimitive name from
      (EStateM.Result.ok.inj (hload.symm.trans (load_primitive hprimitive l))).1] at hcheck
    cases hcheck
  have hstocks := Moves.moves (R := Stocks (readUnits files).1 roots tree) (x := load name) l
  change load name l = _ at hload
  rw [hload] at hstocks
  exact (hstocks.stocked (ofFiles_stocked h)).types name _ (load_ok name l _ _ hload hprimitive)

end Library

end StubWriter
