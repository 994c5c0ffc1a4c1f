import StubWriter.Proofs.Hierarchy.Depth
import StubWriter.Proofs.Library.Extent
import StubWriter.Proofs.Library.Failing
import StubWriter.Proofs.Library.Lockstep
import StubWriter.Proofs.Library.Searches

/-!
# The bounds of a library

The extent of a library bounds its searches for supertypes, and the depth of its walks. Neither makes
a difference to a resolution that would succeed with greater bounds: the search comes to its end in
time, and the walk is deep enough.

* `Library.lore`: what there is to learn from a library.
* `Library.isAssignable_within`: a comparison never comes to its bound.
* `Library.resolve_widened`: a resolution that succeeds in a library of greater extent.
-/

namespace StubWriter

open Run Run.Link

namespace Library

variable {given : List (String × CompilationUnit)} {roots : List Path} {tree : FileTree}

/-! ## What there is to learn -/

/-- The names that a type of a library may have. -/
def typeNames (given : List (String × CompilationUnit)) (tree : FileTree) : Finset String :=
  ((declarations given tree).map (·.fullName) ++ primitiveNames).toFinset

theorem Originates.mem_typeNames {name : String} {t : TypeInfo}
    (h : Originates given roots tree name t) : name ∈ typeNames given tree := by
  obtain ⟨unit, origin, hunit, d, hd, rfl, -⟩ := h
  exact List.mem_toFinset.mpr (List.mem_append_left _
    (List.mem_map_of_mem (hunit.mem_declarations hd)))

theorem Originates.name {name : String} {t : TypeInfo} (h : Originates given roots tree name t) :
    t.name = name := by
  obtain ⟨unit, origin, hunit, d, hd, rfl, hshapes⟩ := h
  exact hshapes.name

/-- The names of the types that a library holds. -/
def heldNames (given : List (String × CompilationUnit)) (tree : FileTree) (l : Library) :
    Finset String :=
  (typeNames given tree).filter fun name => l.graph.contains name

variable (given roots tree) in
theorem load_stocks {l l' : Library} {name : String} {t : TypeInfo}
    (h : load name l = .ok t l') : Stocks given roots tree l l' := by
  have hmoves := Moves.moves (R := Stocks given roots tree) (x := load name) l
  rwa [h] at hmoves

/-- A type that was loaded is held, and if loading it changed anything, it was not before. -/
theorem load_learns {l : Library} (hl : Stocked given roots tree l) (name : String) :
    Ok (load name) l fun t l' =>
      (l' = l ∨ heldNames given tree l ⊂ heldNames given tree l') ∧ load t.name l' = .ok t l' := by
  intro t l' hrun
  have hstocks := load_stocks given roots tree hrun
  cases hprimitive : isPrimitiveName name with
  | true =>
    rw [load_primitive hprimitive] at hrun
    cases hrun
    exact ⟨.inl rfl, load_primitive hprimitive l⟩
  | false =>
    have ht := load_ok name l t l' hrun hprimitive
    have horigin := (hstocks.stocked hl).types name t ht
    refine ⟨?_, horigin.name.symm ▸ load_held hprimitive ht⟩
    cases hheld : l.graph.get? name with
    | some t' =>
      rw [load_held hprimitive hheld] at hrun
      cases hrun
      exact .inl rfl
    | none =>
      have hsubset : heldNames given tree l ⊆ heldNames given tree l' :=
        Finset.monotone_filter_right _ fun a _ ha => hstocks.grows.graph a ha
      refine .inr ((Finset.ssubset_iff_of_subset hsubset).mpr ⟨name, ?_, fun hmem => ?_⟩)
      · exact Finset.mem_filter.mpr ⟨horigin.mem_typeNames, by rw [TypeGraph.contains, ht]; rfl⟩
      · have hcontains := (Finset.mem_filter.mp hmem).2
        rw [TypeGraph.contains, hheld] at hcontains
        cases hcontains

theorem mem_typeNames_of_load {l l' : Library} (hl : Stocked given roots tree l') {name : String}
    {t : TypeInfo} (h : load name l = .ok t l') : name ∈ typeNames given tree := by
  cases hprimitive : isPrimitiveName name with
  | true =>
    have hmem : name ∈ primitiveNames := by simpa [isPrimitiveName] using hprimitive
    exact List.mem_toFinset.mpr (List.mem_append_right _ hmem)
  | false => exact (hl.types name t (load_ok name l t l' h hprimitive)).mem_typeNames

/-- An extent with room for all that a library can come across. -/
def Roomy (given : List (String × CompilationUnit)) (tree : FileTree) (extent : Nat) : Prop :=
  ((declarations given tree).map headerSize).sum + primitiveNames.length < extent

theorem ofUnits_roomy (roots : List Path) (tree : FileTree)
    (units : List (String × CompilationUnit)) :
    Roomy units tree (ofUnits roots tree units).extent := by
  have hheaders := headers_declarations units tree
  have hsum : (declaredBy units).foldl (fun n d => n + headerSize d) 0 =
      ((declaredBy units).map headerSize).sum := by
    rw [List.sum_eq_foldl, List.foldl_map]
  have hprimitives : primitiveNames.length < 64 := by decide
  change _ < 2 * tree.size + 128 + (declaredBy units).foldl (fun n d => n + headerSize d) 0
  omega

theorem Roomy.card_typeNames {extent : Nat} (h : Roomy given tree extent) :
    (typeNames given tree).card ≤ extent := by
  have hcard := List.toFinset_card_le ((declarations given tree).map (·.fullName) ++ primitiveNames)
  have hsizes : (declarations given tree).length ≤ ((declarations given tree).map headerSize).sum := by
    have hone : ∀ n ∈ (declarations given tree).map headerSize, 1 ≤ n := by
      intro n hn
      obtain ⟨d, -, rfl⟩ := List.mem_map.mp hn
      exact Nat.le_add_left 1 _
    have hsum := List.card_nsmul_le_sum _ 1 hone
    simpa using hsum
  rw [List.length_append, List.length_map] at hcard
  unfold Roomy at h
  unfold typeNames
  omega

/-- The depth is enough for all types that there are. -/
theorem Roomy.depth {l : Library} (h : Roomy given tree l.extent) :
    (typeNames given tree).card * (2 * (typeNames given tree).card + 1) ≤ l.depth :=
  Nat.mul_le_mul h.card_typeNames (by have := h.card_typeNames; omega)

/-- What there is to learn from a library with room for it. -/
def lore (given : List (String × CompilationUnit)) (roots : List Path) (tree : FileTree) :
    Walk.Lore load where
  inv l := Stocked given roots tree l ∧ Roomy given tree l.extent
  names := typeNames given tree
  held := heldNames given tree
  held_subset _ _ := Finset.filter_subset _ _
  load_ok name l hl := by
    intro t l' hrun
    have hstocks := load_stocks given roots tree hrun
    exact ⟨⟨hstocks.stocked hl.1, hstocks.grows.extent ▸ hl.2⟩, load_learns hl.1 name t l' hrun⟩
  named _ _ hl hrun := mem_typeNames_of_load hl.1 hrun

/-! ## Searches for supertypes -/

/-- The types that a search has found, with the numbers of their supertypes. They account for all
names that it has seen or still has to look at. -/
structure Accounts (ds : List Declared) (seen pending : List String)
    (found : List (String × Nat)) : Prop where
  distinct : (found.map Prod.fst).Nodup
  names : found.map Prod.fst ⊆ seen
  declared : ∀ e ∈ found, ∃ d ∈ ds, d.fullName = e.1 ∧ e.2 ≤ headerSize d
  total : seen.length + pending.length ≤ 1 + (found.map Prod.snd).sum

/-- A search in which there is room for all that it may come across does not come to its bound. -/
theorem loadAll_within {name : String} {fuel : Nat} {seen pending : List String} {l l' : Library}
    (hl : Stocked given roots tree l) {found : List (String × Nat)}
    (hfound : Accounts (declarations given tree) seen pending found)
    (hfuel : ((declarations given tree).map headerSize).sum < fuel + seen.length) {f : Failure}
    (h : loadAll name fuel seen pending l = .error f l') : f.OfLoading := by
  induction fuel, seen, pending using loadAll.induct generalizing l found with
  | case1 fuel seen =>
    unfold loadAll at h
    cases h
  | case2 fuel seen current pending hskip ih =>
    rw [loadAll.eq_def] at h
    dsimp only at h
    rw [if_pos hskip] at h
    refine ih hl ⟨hfound.distinct, hfound.names, hfound.declared, ?_⟩ hfuel h
    have htotal := hfound.total
    rw [List.length_cons] at htotal
    omega
  | case3 seen current pending hvisit =>
    have hsum := sum_le_headers hfound.distinct hfound.declared
    have htotal := hfound.total
    rw [List.length_cons] at htotal
    omega
  | case4 seen current pending hvisit fuel ihsome ihnone =>
    have hnew := fun hskip => hvisit ((skips_iff seen current).mpr hskip)
    have hprimitive : isPrimitiveName current = false :=
      Bool.eq_false_iff.mpr fun hprimitive => hnew (.inr (.inr hprimitive))
    have htotal := hfound.total
    rw [List.length_cons] at htotal
    rw [loadAll, if_neg hvisit] at h
    change EStateM.bind (loadIfFound current) _ l = _ at h
    unfold EStateM.bind at h
    rw [loadIfFound_eq] at h
    cases hload : load current l with
    | ok t l₁ =>
      rw [hload] at h
      have hl₁ := (load_stocks given roots tree hload).stocked hl
      obtain ⟨unit, origin, hunit, d, hd, hname, hshapes⟩ :=
        hl₁.types current t (load_ok current l t l₁ hload hprimitive)
      have hfound' : Accounts (declarations given tree) (current :: seen)
          (t.supertypes.reverse ++ pending) ((current, t.supertypes.length) :: found) := {
        distinct := List.nodup_cons.mpr ⟨fun hmem => hnew (.inl (hfound.names hmem)), hfound.distinct⟩
        names := List.cons_subset_cons _ hfound.names
        declared := List.forall_mem_cons.mpr
          ⟨⟨d, hunit.mem_declarations hd, hname, hshapes.supertypes.le⟩, hfound.declared⟩
        total := by
          rw [List.length_append, List.length_reverse, List.map_cons, List.sum_cons, List.length_cons]
          omega }
      exact ihsome t hl₁ hfound' (by rw [List.length_cons]; omega) h
    | error e l₁ =>
      rw [hload] at h
      dsimp only at h
      cases he : e.isNotFound with
      | true =>
        rw [he, if_pos rfl] at h
        have hmoves := Moves.moves (R := Stocks given roots tree) (x := load current) l
        rw [hload] at hmoves
        have hl₂ : Stocked given roots tree { l₁ with log := l₁.log ++ [.ancestryEnds name current] } :=
          ((inferInstance : Moves (Stocks given roots tree) (report _)).moves l₁).stocked
            (hmoves.stocked hl)
        have hfound' : Accounts (declarations given tree) (current :: seen) pending found := {
          hfound with
          names := List.subset_cons_of_subset _ hfound.names
          total := by
            rw [List.length_cons]
            omega }
        exact ihnone hl₂ hfound' (by rw [List.length_cons]; omega) h
      | false =>
        rw [he, if_neg Bool.false_ne_true] at h
        cases h
        exact Blames.blames l _ _ hload

theorem isAssignable_within {l l' : Library} (hl : Stocked given roots tree l)
    (hroom : Roomy given tree l.extent) {target source : String} {f : Failure}
    (h : isAssignable target source l = .error f l') : f.OfLoading := by
  rw [isAssignable_eq] at h
  cases hsearch : loadAll source l.extent [] [elementName source] l with
  | ok _ l₁ =>
    rw [hsearch] at h
    cases h
  | error e l₁ =>
    rw [hsearch] at h
    cases h
    unfold Roomy at hroom
    have hfound : Accounts (declarations given tree) [] [elementName source] [] :=
      ⟨List.nodup_nil, List.nil_subset _, fun e he => absurd he List.not_mem_nil, le_rfl⟩
    exact loadAll_within hl hfound (by rw [List.length_nil]; omega) hsearch

/-! ## Greater bounds -/

/-- A library beside itself. The first one may come to its bounds. -/
def itself (roots : List Path) (tree : FileTree) : Comparison where
  roots := roots
  tree := tree
  roots' := roots
  tree' := tree
  naming := ⟨Eq, fun _ => True⟩
  excused f := ¬ f.OfLoading

theorem itself_agrees (roots : List Path) (tree : FileTree) : (itself roots tree).Agrees where
  closed _ _ _ _ _ _ := ⟨fun _ _ _ _ => trivial, fun _ _ _ _ _ _ _ =>
    ⟨fun _ _ => trivial, fun _ _ => trivial⟩⟩
  element _ _ := trivial
  places _ := rfl
  excused f hf := Bool.eq_false_iff.mpr fun h => hf (.ofNotFound h)
  files n _ relative _ := by
    have hfair : (itself roots tree).link.Fair :=
      Comparison.fair fun f hf => Bool.eq_false_iff.mpr fun h => hf (.ofNotFound h)
    exact List.forall₂_same.mpr fun root _ => ⟨hfair.meets_self _, fun _ => hfair.meets_self _, rfl⟩

/-- A library beside itself with another extent. -/
def widened (given : List (String × CompilationUnit)) (roots : List Path) (tree : FileTree)
    (extent extent' : Nat) : Link Library Library where
  states l l' := (itself roots tree).Linked l l' ∧ Stocked given roots tree l ∧
    l.extent = extent ∧ l'.extent = extent'
  failures := (itself roots tree).Fails
  excused _ := False

variable {extent extent' : Nat}

/-- Searches that do not come to their bounds are in step without exception. -/
theorem widened_inStep {α β : Type} {x : Lookup α} {y : Lookup β} {V : α → β → Prop}
    [Moves (Stocks given roots tree) x] [Steady y] (h : (itself roots tree).link.InStep x y V)
    (hx : ∀ l, Stocked given roots tree l → l.extent = extent →
      ∀ f l', x l = .error f l' → f.OfLoading) :
    (widened given roots tree extent extent').InStep x y V := by
  rintro l l' ⟨hlinked, hstocked, hextent, hextent'⟩
  obtain ⟨f, hf, ho⟩ | ⟨hmeets, hstates⟩ := h l l' hlinked
  · exact absurd (hx l hstocked hextent f _ (eq_error_of_outcome ho)) hf
  · have hmoves := Moves.moves (R := Stocks given roots tree) (x := x) l
    have hmoves' := Moves.moves (R := Grows) (x := y) l'
    exact .inr ⟨hmeets, hstates, hmoves.stocked hstocked, hmoves.grows.extent.trans hextent,
      hmoves'.extent.trans hextent'⟩

theorem widened_fair : (widened given roots tree extent extent').Fair where
  refl := .same
  isNotFound f g hfg := by cases hfg <;> rfl
  excused _ := False.elim

theorem load_widened (name : String) : (widened given roots tree extent extent').InStep
    (load name) (load name) (Twin ⟨Eq, fun _ => True⟩) :=
  widened_inStep (load_inStep (itself_agrees roots tree) trivial)
    fun l _ _ f l' hrun => Blames.blames l f l' hrun

theorem isAssignable_widened (hroom : Roomy given tree extent) (target source : String) :
    (widened given roots tree extent extent').InStep
      (isAssignable target source) (isAssignable target source) Eq :=
  widened_inStep (isAssignable_inStep (itself_agrees roots tree) target trivial)
    fun _ hl hextent _ _ hrun => isAssignable_within hl (hextent ▸ hroom) hrun

theorem report_widened (e : Event) :
    (widened given roots tree extent extent').InStep (report e) (report e) Eq :=
  widened_inStep (report_inStep e e) fun l _ _ f l' hrun => Blames.blames l f l' hrun

theorem widened_supplies (hroom : Roomy given tree extent) :
    TypeSupply.InStep (widened given roots tree extent extent') ⟨Eq, fun _ => True⟩
      (supply.withDepth (extent' * (2 * extent' + 1))) supply where
  load name _ := load_widened name
  isAssignable target source _ := isAssignable_widened hroom target source
  report e := report_widened e
  depth l l' hl := by
    refine .inl ?_
    change l'.depth = extent' * (2 * extent' + 1)
    rw [depth, hl.2.2.2]

/-- A resolution that succeeds in a library of greater extent succeeds as well. -/
theorem resolve_widened {units : List (String × CompilationUnit)}
    (hextent : (ofUnits roots tree units).extent ≤ extent) {name : String} {r : Resolution}
    {walk : Walk Library} (hrun : Inspection.resolve name
      (Inspection.start { ofUnits roots tree units with extent }) = .ok r walk) :
    ∃ walk', Inspection.resolve name (Inspection.start (ofUnits roots tree units)) =
      .ok r walk' := by
  let l := ofUnits roots tree units
  let depth := extent * (2 * extent + 1)
  have hroom : Roomy units tree l.extent := ofUnits_roomy roots tree units
  have hstocked : Stocked units roots tree l := ofUnits_stocked units roots tree units
  have hlinked : (itself roots tree).Linked l { l with extent } :=
    Comparison.ofUnits_linked_extent units (.inr ⟨hextent, fun name => nofun⟩)
  have hsteps : ((widened units roots tree l.extent extent).walk ⟨Eq, fun _ => True⟩).InStep
      ((supply.withDepth depth).resolve name) (supply.resolve name)
      (Resolution.Twin ⟨Eq, fun _ => True⟩) :=
    TypeSupply.resolve_inStep (widened_supplies hroom) widened_fair trivial
  have hstarts : ((widened units roots tree l.extent extent).walk ⟨Eq, fun _ => True⟩).states
      (Inspection.start l) (Inspection.start { l with extent }) :=
    ⟨⟨hlinked, hstocked, rfl, rfl⟩, rfl, fun v hv => absurd hv List.not_mem_nil⟩
  obtain ⟨_, _, _, hf⟩ | ⟨r', walk', _, _, hdeep, hwide, htwin, -⟩ |
    ⟨_, _, _, _, -, hwide, -⟩ := hsteps.cases hstarts
  · exact hf.elim
  · cases hrun.symm.trans hwide
    rw [← htwin.eq] at hdeep
    let known : Walk.Lore supply.load := lore units roots tree
    have hknown : known.inv (Inspection.start l).types := ⟨hstocked, hroom⟩
    have henough := TypeSupply.resolve_enough known (fun _ h => h.2.depth) depth name hknown
    exact ⟨walk', (henough r walk' hdeep).1⟩
  · cases hrun.symm.trans hwide

end Library

end StubWriter
