import StubWriter.Proofs.Library.Given

/-!
# The same types in other places

A type knows the place that it comes from, and nothing else in it depends on that place. So units
that are labelled in another way have the same types but for their places, with the same levels and
the same stubs.

* `LoadTable.Places`: tables that agree but for the places of their types.
* `LoadTable.Places.chain`, `Resolution.resolve_placed`: the levels and the stub of a type.
* `Tells.places`: the tables of the same units under different labels.
-/

namespace StubWriter

open Run Walk

/-- A type that comes from another place. -/
def TypeInfo.placed (t : TypeInfo) (place : Option String) : TypeInfo :=
  { t with sourceFile := place }

/-! ## Tables -/

namespace LoadTable

/-- All types of the first table are in the second one, too, but for the places that they come
from. -/
def Places (T T' : LoadTable) : Prop :=
  ∀ {name t}, T name = .ok t → ∃ place, T' name = .ok (t.placed place)

variable {T T' : LoadTable} (h : T.Places T')
include h

theorem Places.view {name : String} {ms : List Method} (hview : T.types.View name ms) :
    T'.types.View name ms := by
  induction hview with
  | @intro name t views hfound _ ih =>
    obtain ⟨place, ht'⟩ := h (types_eq_some.mp hfound)
    have hplaced : T'.types.View name (viewFrom (t.placed place) views) :=
      .intro views (types_eq_some.mpr ht') ih
    exact hplaced

/-- The levels of a type have the same methods. -/
theorem Places.chain {name : String} {found : List Level} (hchain : T.types.Chain name found) :
    ∃ found', T'.types.Chain name found' ∧ Resolution.walked found' = Resolution.walked found := by
  induction hchain with
  | object hfound hobject =>
    obtain ⟨place, ht'⟩ := h (types_eq_some.mp hfound)
    exact ⟨[], .object (types_eq_some.mpr ht') hobject, rfl⟩
  | top hfound hbelow hview hlast =>
    obtain ⟨place, ht'⟩ := h (types_eq_some.mp hfound)
    exact ⟨_, .top (types_eq_some.mpr ht') hbelow (h.view hview) hlast, rfl⟩
  | step hfound hbelow hview hnext _ ih =>
    obtain ⟨place, ht'⟩ := h (types_eq_some.mp hfound)
    obtain ⟨found', hchain', hwalked⟩ := ih
    refine ⟨_, .step (types_eq_some.mpr ht') hbelow (h.view hview) hnext hchain', ?_⟩
    unfold Resolution.walked at *
    rw [List.flatMap_cons, List.flatMap_cons, hwalked]
    rfl

theorem Places.lineage_eq (h' : T'.Places T) : T'.lineage = T.lineage := by
  funext name
  cases hT : T name with
  | ok t =>
    obtain ⟨place, ht'⟩ := h hT
    rw [lineage_eq_some.mpr ⟨t, hT, rfl⟩, lineage_eq_some.mpr ⟨_, ht', rfl⟩]
    rfl
  | error f =>
    cases hT' : T' name with
    | ok t' =>
      obtain ⟨place, ht⟩ := h' hT'
      cases ht.symm.trans hT
    | error f' => rw [lineage, lineage, hT, hT']; rfl

end LoadTable

/-! ## Stubs -/

/-- The stub of a type is the same but for the place of its target. -/
theorem Resolution.resolve_placed (t : TypeInfo) (place : Option String) {found found' : List Level}
    (hwalked : walked found' = walked found) (rel : String → String → Except Failure Bool) :
    resolve (t.placed place) found' rel =
      (resolve t found rel).map fun r => { r with target := t.placed place } := by
  have habstract : collectAbstract found' = collectAbstract found := by
    rw [collectAbstract, hwalked]
    rfl
  have hconcrete : collectConcrete found' = collectConcrete found := by
    rw [collectConcrete, hwalked]
    rfl
  have hsame : checkTarget (t.placed place) = checkTarget t ∧
      selectConstructors (t.placed place) = selectConstructors t := ⟨rfl, rfl⟩
  unfold resolve
  rw [hsame.1, hsame.2, habstract, hconcrete]
  cases checkTarget t with
  | error f => rfl
  | ok _ =>
    cases selectConstructors t with
    | error f => rfl
    | ok constructors =>
      change (decide rel _ _ >>= _) = Except.map _ (decide rel _ _ >>= _)
      cases decide rel (collectConcrete found) (collectAbstract found) <;> rfl

/-! ## Units -/

/-- A declaration describes the same type wherever it stands. -/
theorem Declared.describe_placed (d : Declared) (package origin place : String) (s : Scope) :
    d.describe package place s = (·.placed (some place)) <$> d.describe package origin s := by
  simp only [describe, map_bind, map_pure]
  rfl

namespace Library

variable {T T' : LoadTable} {units : List (String × CompilationUnit)} {label : String → String}

/-- Units under other labels. -/
def relabeled (label : String → String) (units : List (String × CompilationUnit)) :
    List (String × CompilationUnit) :=
  units.map fun p => (label p.1, p.2)

theorem declaredBy_relabeled : declaredBy (relabeled label units) = declaredBy units :=
  List.flatMap_map _ _ _

theorem namesOf_relabeled : namesOf (relabeled label units) = namesOf units := by
  rw [namesOf, declaredBy_relabeled, ← namesOf]

theorem room_relabeled : room (relabeled label units) = room units := by
  rw [room, declaredBy_relabeled, ← room]

/-- The tables of the same units under different labels. -/
theorem Tells.places (hT : Tells T units) (hT' : Tells T' (relabeled label units)) :
    T.Places T' ∧ T'.Places T := by
  let fresh : TypeGraph → List String → Prop := fun _ m => m = []
  have hstart : (memory (namesOf units) (room units) fresh).inv (ofUnits [] .empty units) :=
    start_fresh units
  have hruns : ∀ {x : Lookup TypeInfo} {v : Except Failure TypeInfo},
      (memory (namesOf units) (room units) fresh).Gives x v →
        outcome (x (ofUnits [] .empty units)) = v :=
    fun h => (World.ends_of_gives (fun _ h => h) h _ hstart).2
  have hdescribed : ∀ p ∈ units, ∀ d ∈ p.2.declared,
      T' d.fullName = (T d.fullName).map (·.placed (some (label p.1))) := by
    intro p hp d hd
    have hrun := hruns (hT.declared p hp d hd fresh fun _ _ h => h)
    have hmem : (label p.1, p.2) ∈ relabeled label units := List.mem_map_of_mem hp
    have hrun' := hT'.declared _ hmem d hd fresh fun _ _ h => h
    rw [namesOf_relabeled, room_relabeled] at hrun'
    have hrun' := hruns hrun'
    rw [d.describe_placed p.2.packageName p.1] at hrun'
    rw [← hrun', ← hrun]
    change outcome (EStateM.map _ _ _) = _
    unfold EStateM.map
    cases d.describe p.2.packageName p.1 (Scope.ofUnit p.2) (ofUnits [] .empty units) <;> rfl
  have hother : ∀ name, name ∉ namesOf units → T' name = T name := by
    intro name hname
    have hname' : name ∉ namesOf (relabeled label units) := by rwa [namesOf_relabeled]
    cases hprimitive : isPrimitiveName name with
    | true => rw [hT.primitive hprimitive, hT'.primitive hprimitive]
    | false =>
      cases hu : Platform.unit? name with
      | none =>
        have hnot : isPlatform name = false := by rw [isPlatform, hu]; rfl
        rw [hT.other hprimitive hname hnot, hT'.other hprimitive hname' hnot]
      | some u =>
        obtain ⟨t, ht, hgives⟩ := hT.platform hu hname
        obtain ⟨t', ht', hgives'⟩ := hT'.platform hu hname'
        obtain ⟨d, hdeclared, -⟩ := List.map_eq_singleton_iff.mp
          ((Platform.checked_of_mem (Platform.mem_units hu)).declared)
        have hd : d ∈ u.declared := by simp [hdeclared]
        have hrun' := hgives' d hd fresh (firm_fresh _)
        rw [namesOf_relabeled, room_relabeled] at hrun'
        rw [ht, ht', ← hruns (hgives d hd fresh (firm_fresh _)), hruns hrun']
  constructor
  · intro name t ht
    by_cases hname : name ∈ namesOf units
    · obtain ⟨p, hp, d, hd, rfl⟩ := mem_namesOf.mp hname
      exact ⟨_, by rw [hdescribed p hp d hd, ht]; rfl⟩
    · exact ⟨t.sourceFile, by rw [hother name hname, ht]; rfl⟩
  · intro name t' ht'
    by_cases hname : name ∈ namesOf units
    · obtain ⟨p, hp, d, hd, rfl⟩ := mem_namesOf.mp hname
      rw [hdescribed p hp d hd] at ht'
      cases ht : T d.fullName with
      | error f =>
        rw [ht] at ht'
        cases ht'
      | ok t =>
        rw [ht] at ht'
        obtain rfl := Except.ok.inj ht'
        exact ⟨t.sourceFile, rfl⟩
    · exact ⟨t'.sourceFile, by rw [← hother name hname, ht']; rfl⟩

end Library

end StubWriter
