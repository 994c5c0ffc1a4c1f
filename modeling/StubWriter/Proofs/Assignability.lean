import StubWriter.Proofs.TypeGraph

/-!
# The order of assignability

Assignability by rules. Names of classes and interfaces are compared along the edges of the graph,
arrays by their elements, and a primitive type with itself only. The four kinds of names can meet in
the middle of two assignments, and the types above all arrays only where nothing is above them.

* `Assignable`: the rules, and `isAssignable_iff`: the search decides them.
* `Built`: the graphs that come about by adding types and edges.
* `isAssignable_preorder`: assignability is reflexive and transitive.
-/

namespace StubWriter.TypeGraph

variable {g : TypeGraph} {target source : String}

/-- When a variable of type `target` can hold a value of type `source`. -/
inductive Assignable (g : TypeGraph) : String → String → Prop
  | same (name : String) : Assignable g name name
  | object {source : String} (hsource : isPrimitiveName source = false) :
    Assignable g objectName source
  | elements {target source t s : String} (ht : element? target = some t)
      (hs : element? source = some s) (htp : isPrimitiveName t = false)
      (hsp : isPrimitiveName s = false) (h : Assignable g t s) : Assignable g target source
  | array {target source s : String} (hs : element? source = some s)
      (htarget : target ∈ arraySupertypes) : Assignable g target source
  | above {target source : String} (ht : isPrimitiveName target = false ∧ element? target = none)
      (hs : isPrimitiveName source = false ∧ element? source = none)
      (h : Relation.ReflTransGen g.Edge source target) : Assignable g target source

/-! ## Kinds of names -/

theorem not_primitive_of_element {name inner : String} (h : element? name = some inner) :
    isPrimitiveName name = false := by
  have hprimitive : ∀ p ∈ primitiveNames, element? p = none := by decide
  rw [isPrimitiveName, ← Bool.not_eq_true, List.contains_iff_mem]
  intro hmem
  rw [hprimitive name hmem] at h
  cases h

theorem arraySupertype_plain {name : String} (h : name ∈ arraySupertypes) :
    isPrimitiveName name = false ∧ element? name = none := by
  have hall : ∀ n ∈ arraySupertypes, isPrimitiveName n = false ∧ element? n = none := by decide
  exact hall name h

theorem object_mem_arraySupertypes : objectName ∈ arraySupertypes :=
  List.mem_cons_self

/-- An array type has a longer name than its element type. -/
theorem length_element {name inner : String} (h : element? name = some inner) :
    inner.length < name.length := by
  obtain ⟨cs, hcs, rfl⟩ := Option.map_eq_some_iff.mp h
  unfold elementChars? at hcs
  split at hcs
  · rename_i hsuffix
    obtain rfl := Option.some.inj hcs
    have hle := (List.isSuffixOf_iff_suffix.mp hsuffix).length_le
    have htwo : "[]".toList.length = 2 := by decide
    rw [String.length_ofList, List.length_take, ← String.length_toList]
    omega
  · cases hcs

/-- What a variable of a reference type holds is no primitive. -/
theorem Assignable.not_primitive (h : g.Assignable target source)
    (htarget : isPrimitiveName target = false) : isPrimitiveName source = false := by
  cases h with
  | same => exact htarget
  | object hsource => exact hsource
  | elements _ hs => exact not_primitive_of_element hs
  | array hs => exact not_primitive_of_element hs
  | above _ hs => exact hs.1

/-! ## The search decides the rules -/

theorem assignable_of_upTo (hg : g.Closed) {depth : Nat}
    (h : g.isAssignableUpTo depth target source = true) : g.Assignable target source := by
  induction depth generalizing target source with
  | zero => cases h
  | succ depth ih =>
    unfold isAssignableUpTo at h
    split at h
    · rename_i hsame
      exact (beq_iff_eq.mp hsame) ▸ .same target
    split at h
    · cases h
    rename_i hprimitive
    rw [Bool.not_eq_true, Bool.or_eq_false_iff] at hprimitive
    split at h
    · rename_i hobject
      exact (beq_iff_eq.mp hobject) ▸ .object hprimitive.2
    cases hs : element? source with
    | none =>
      cases ht : element? target with
      | none =>
        rw [hs, ht] at h
        have hmem := (mem_ancestors hg source target).mp (List.contains_iff_mem.mp h)
        exact .above ⟨hprimitive.1, ht⟩ ⟨hprimitive.2, hs⟩ hmem.2
      | some t =>
        rw [hs, ht] at h
        cases h
    | some s =>
      cases ht : element? target with
      | none =>
        rw [hs, ht] at h
        exact .array hs (List.contains_iff_mem.mp h)
      | some t =>
        rw [hs, ht] at h
        dsimp only at h
        split at h
        · cases h
        · rename_i helements
          rw [Bool.not_eq_true, Bool.or_eq_false_iff] at helements
          exact .elements ht hs helements.2 helements.1 (ih h)

theorem Assignable.upTo (hg : g.Closed) (h : g.Assignable target source) {depth : Nat}
    (hdepth : source.length < depth) : g.isAssignableUpTo depth target source = true := by
  induction h generalizing depth with
  | same name =>
    obtain ⟨depth, rfl⟩ : ∃ d, depth = d + 1 := ⟨depth - 1, by omega⟩
    rw [isAssignableUpTo, if_pos (beq_self_eq_true name)]
  | @object source hsource =>
    obtain ⟨depth, rfl⟩ : ∃ d, depth = d + 1 := ⟨depth - 1, by omega⟩
    have hobject := (arraySupertype_plain object_mem_arraySupertypes).1
    rw [isAssignableUpTo, hobject, hsource]
    split
    · rfl
    · rfl
  | @elements target source t s ht hs htp hsp _ ih =>
    obtain ⟨depth, rfl⟩ : ∃ d, depth = d + 1 := ⟨depth - 1, by omega⟩
    have hshorter := length_element hs
    rw [isAssignableUpTo, not_primitive_of_element ht, not_primitive_of_element hs, hs, ht]
    split
    · rfl
    split
    · rename_i hfalse
      cases hfalse
    split
    · rfl
    dsimp only
    rw [hsp, htp, ih (by omega)]
    rfl
  | @array target source s hs htarget =>
    obtain ⟨depth, rfl⟩ : ∃ d, depth = d + 1 := ⟨depth - 1, by omega⟩
    obtain ⟨hplain, helement⟩ := arraySupertype_plain htarget
    rw [isAssignableUpTo, hplain, not_primitive_of_element hs, hs, helement]
    split
    · rfl
    split
    · rename_i hfalse
      cases hfalse
    split
    · rfl
    · exact List.contains_iff_mem.mpr htarget
  | @above target source ht hs h =>
    obtain ⟨depth, rfl⟩ : ∃ d, depth = d + 1 := ⟨depth - 1, by omega⟩
    rw [isAssignableUpTo, ht.1, hs.1, ht.2, hs.2]
    split
    · rfl
    rename_i hne
    split
    · rename_i hfalse
      cases hfalse
    split
    · rfl
    · have hne : target ≠ source := by simpa using hne
      exact List.contains_iff_mem.mpr ((mem_ancestors hg source target).mpr ⟨hne, h⟩)

/-- Assignability is what the rules say. -/
theorem isAssignable_iff (hg : g.Closed) (target source : String) :
    g.isAssignable target source = true ↔ g.Assignable target source :=
  ⟨assignable_of_upTo hg, fun h => h.upTo hg (Nat.lt_succ_self _)⟩

/-! ## Two assignments in a row -/

/-- Where nothing is above the types that are above all arrays, assignments can be joined: an
induction on the first of them, in which the second one has to be of a kind that fits the middle. -/
theorem Assignable.trans (htop : ∀ name ∈ arraySupertypes, g.targets name = []) {a b c : String}
    (hab : g.Assignable a b) (hbc : g.Assignable b c) : g.Assignable a c := by
  have hnothing : ∀ name ∈ arraySupertypes, ∀ n, ¬ g.Edge name n := by
    intro name hname n hedge
    rw [Edge, htop name hname] at hedge
    cases hedge
  have hno_element : ∀ {name inner}, element? name = some inner → name ∉ arraySupertypes := by
    intro name inner helement hname
    rw [(arraySupertype_plain hname).2] at helement
    cases helement
  induction hab generalizing c with
  | same => exact hbc
  | object hb => exact .object (hbc.not_primitive hb)
  | @elements a b t s ht hs htp hsp hts ih =>
    cases hbc with
    | same => exact .elements ht hs htp hsp hts
    | object => exact absurd object_mem_arraySupertypes (hno_element hs)
    | @elements _ _ s' u hs' hu _ hup hsu =>
      obtain rfl := Option.some.inj (hs.symm.trans hs')
      exact .elements ht hu htp hup (ih hsu)
    | array _ hb => exact absurd hb (hno_element hs)
    | above hb =>
      rw [hb.2] at hs
      cases hs
  | @array a b s hs ha =>
    cases hbc with
    | same => exact .array hs ha
    | object => exact absurd object_mem_arraySupertypes (hno_element hs)
    | elements _ hc => exact .array hc ha
    | array _ hb => exact absurd hb (hno_element hs)
    | above hb =>
      rw [hb.2] at hs
      cases hs
  | @above a b ha hb hreach =>
    -- Only the type itself is reached from a type with nothing above it.
    have hself : b ∈ arraySupertypes → a = b := by
      intro hmem
      rcases Relation.ReflTransGen.cases_head hreach with heq | ⟨n, hedge, -⟩
      · exact heq.symm
      · exact absurd hedge (hnothing b hmem n)
    cases hbc with
    | same => exact .above ha hb hreach
    | object hc => exact hself object_mem_arraySupertypes ▸ .object hc
    | elements hs =>
      rw [hb.2] at hs
      cases hs
    | array hc hmem => exact hself hmem ▸ .array hc hmem
    | above _ hc hreach' => exact .above ha hc (hreach'.trans hreach)

/-! ## Graphs that come about -/

/-- Graphs that come about by adding types and edges, in any order and any number of times. -/
inductive Built : TypeGraph → Prop
  | empty : Built empty
  | addType {g : TypeGraph} (h : Built g) (t : TypeInfo) : Built (g.addType t)
  | addEdge {g : TypeGraph} (h : Built g) (source target : String) (label : EdgeLabel) :
    Built (g.addEdge source target label)

theorem Closed.addEdge (h : g.Closed) (source target : String) (label : EdgeLabel) :
    (g.addEdge source target label).Closed := by
  intro a b hb
  rw [hasNode_addEdge]
  rcases (mem_targets_addEdge g source target a b label).mp hb with hb | ⟨-, rfl⟩
  · exact .inr (.inr (h a b hb))
  · exact .inr (.inl rfl)

theorem Built.closed (h : Built g) : g.Closed := by
  induction h with
  | empty => exact closed_empty
  | addType _ t ih => exact ih.addType t
  | addEdge _ source target label ih => exact ih.addEdge source target label

/-- Assignability is a preorder, as long as nothing is above the types that are above all arrays. -/
theorem isAssignable_preorder (h : Built g)
    (htop : ∀ name ∈ [objectName, "java.lang.Cloneable", "java.io.Serializable"],
      g.targets name = []) :
    (∀ a, g.isAssignable a a = true) ∧
      ∀ a b c, g.isAssignable a b = true → g.isAssignable b c = true →
        g.isAssignable a c = true := by
  refine ⟨fun a => (isAssignable_iff h.closed a a).mpr (.same a), fun a b c hab hbc => ?_⟩
  rw [isAssignable_iff h.closed] at hab hbc ⊢
  exact hab.trans htop hbc

/-! ### A cycle below an interface -/

/-- Two types that extend each other, and one of them a further type that was not loaded. -/
def entwined : TypeGraph :=
  ((empty.addEdge "B" "A" .extends).addEdge "A" "B" .extends).addEdge "B"
    "java.io.Serializable" .implements

theorem isAssignable_preorder_entwined :
    entwined.isAssignable "java.io.Serializable[]" "A[]" = true ∧
    entwined.isAssignable "A[]" "B[]" = true ∧
    entwined.isAssignable "java.io.Serializable[]" "B[]" = true := by
  have hbuilt : Built entwined := .addEdge (.addEdge (.addEdge .empty _ _ _) _ _ _) _ _ _
  have htop : ∀ name ∈ [objectName, "java.lang.Cloneable", "java.io.Serializable"],
      entwined.targets name = [] := by decide +kernel
  have hfirst : entwined.isAssignable "java.io.Serializable[]" "A[]" = true := by
    have hedges : "B" ∈ entwined.targets "A" ∧
        "java.io.Serializable" ∈ entwined.targets "B" := by decide +kernel
    refine (isAssignable_iff hbuilt.closed _ _).mpr (.elements (t := "java.io.Serializable")
      (s := "A") (by decide) (by decide) (by decide) (by decide) ?_)
    exact .above (by decide) (by decide) ((Relation.ReflTransGen.single hedges.1).tail hedges.2)
  have hsecond : entwined.isAssignable "A[]" "B[]" = true := by
    have hedge : "A" ∈ entwined.targets "B" := by decide +kernel
    refine (isAssignable_iff hbuilt.closed _ _).mpr (.elements (t := "A") (s := "B")
      (by decide) (by decide) (by decide) (by decide) ?_)
    exact .above (by decide) (by decide) (Relation.ReflTransGen.single hedge)
  exact ⟨hfirst, hsecond, (isAssignable_preorder hbuilt htop).2 _ _ _ hfirst hsecond⟩

end StubWriter.TypeGraph
