import StubWriter.Library.Load
import StubWriter.Proofs.Library.Describing
import StubWriter.Proofs.Library.Sources
import StubWriter.Proofs.TypeGraph

/-!
# Libraries only grow

Whatever is looked up, found or not, a library keeps its roots, its files, the names of its units
and its bound, the types it has loaded stay loaded, and its log gets longer.

* `Library.Grows`: how a library may change.
* `Library.Steady`: a step that changes a library only so. Descriptions change even less, nothing but
  what `Library.Recalls` allows.
-/

namespace StubWriter

open Run

namespace Library

/-- A library and what it may become. -/
structure Grows (l l' : Library) : Prop where
  roots : l'.roots = l.roots
  tree : l'.tree = l.tree
  known : l'.known = l.known
  extent : l'.extent = l.extent
  graph : ∀ name, l.graph.contains name = true → l'.graph.contains name = true
  log : l.log <+: l'.log

theorem Grows.refl (l : Library) : l.Grows l :=
  ⟨rfl, rfl, rfl, rfl, fun _ h => h, List.prefix_rfl⟩

instance : Std.Refl Grows :=
  ⟨Grows.refl⟩

theorem Grows.trans {l l' l'' : Library} (h : l.Grows l') (h' : l'.Grows l'') : l.Grows l'' :=
  ⟨h'.roots.trans h.roots, h'.tree.trans h.tree, h'.known.trans h.known,
    h'.extent.trans h.extent, fun name hname => h'.graph name (h.graph name hname),
    h.log.trans h'.log⟩

instance : IsTrans Library Grows :=
  ⟨fun _ _ _ => Grows.trans⟩

theorem Recalls.grows {l l' : Library} (h : l.Recalls l') : l.Grows l' :=
  ⟨h.roots, h.tree, h.known, h.extent, fun _ hname => h.graph ▸ hname, h.log⟩

/-- A step after which a library has grown, whether it fails or not. -/
abbrev Steady {α : Type} (x : Lookup α) : Prop :=
  Moves Grows x

theorem Steady.grows {α : Type} {x : Lookup α} [Steady x] (l : Library) :
    l.Grows (stateAfter (x l)) :=
  Moves.moves l

/-! ## Names and descriptions -/

theorem recalls_compositional : Compositional fun α (x : Lookup α) => Moves Recalls x :=
  ⟨fun _ => inferInstance, moves_bind⟩

instance (s : Scope) (segments : List String) : Moves Recalls (s.resolveName segments) :=
  Scope.resolveName_of recalls_compositional (fun _ _ => inferInstance) (fun _ => inferInstance)
    fun _ _ => inferInstance

instance (d : Declared) (package origin : String) (s : Scope) :
    Moves Recalls (d.describe package origin s) :=
  d.describe_of recalls_compositional fun _ _ => inferInstance

/-! ## Loading -/

/-- A search, and whatever else only remembers, leaves a library grown. -/
theorem steady_of_recalls {α : Type} {x : Lookup α} (h : Moves Recalls x) : Steady x :=
  h.mono fun _ _ => Recalls.grows

instance (name : String) : Steady (findSource? name) :=
  steady_of_recalls inferInstance

instance (d : Declared) (package origin : String) (s : Scope) :
    Steady (d.describe package origin s) :=
  steady_of_recalls inferInstance

instance (e : Event) : Steady (report e) :=
  steady_of_recalls inferInstance

theorem contains_addType {g : TypeGraph} {name : String} (h : g.contains name = true)
    (t : TypeInfo) : (g.addType t).contains name = true := by
  unfold TypeGraph.contains at *
  rw [TypeGraph.get?_addType]
  split
  · rfl
  · exact h

instance (package origin : String) (s : Scope) (ds : List Declared) :
    Steady (registerAll package origin s ds) := by
  induction ds with
  | nil => exact inferInstanceAs (Steady (pure _))
  | cons d ds ih =>
    have hadd : ∀ t : TypeInfo, Steady (modify fun l =>
        { l with graph := l.graph.addType t, missing := l.missing.filter (· != d.fullName) } :
          Lookup Unit) :=
      fun t => moves_modify fun _ =>
        ⟨rfl, rfl, rfl, rfl, fun _ h => contains_addType h t, List.prefix_rfl⟩
    unfold registerAll
    infer_instance

instance (unit : CompilationUnit) (origin : String) : Steady (register unit origin) := by
  unfold register
  infer_instance

instance (s : Source) : Steady (registerSource s) := by
  unfold registerSource
  split <;> infer_instance

/-- Loads the unit that should declare a name, if there is one. -/
def fetch (name : String) : Lookup Unit := do
  match ← findSource? name with
  | some source =>
    report (.loading name source.origin)
    registerSource source
  | none => pure ()

/-- The loaded type of a name; a name without one is noted to be missing. -/
def standing (name : String) : Lookup TypeInfo := do
  match (← get).graph.get? name with
  | some type => return type
  | none =>
    modify fun l => { l with missing := l.missing ++ [name] }
    throw (.typeNotFound name)

/-- Loading a type: it stands in the graph, or it does after its unit was loaded. -/
theorem load_eq (name : String) : load name =
    (do
      if isPrimitiveName name then return .ofPrimitive name
      match (← get).graph.get? name with
      | some type => return type
      | none =>
        if (← get).missing.contains name then throw (.typeNotFound name)
        fetch name
        standing name) := by
  have hfetch : (do
      match ← findSource? name with
      | some source =>
        report (.loading name source.origin)
        registerSource source
      | none => pure ()
      standing name : Lookup TypeInfo) = fetch name >>= fun _ => standing name := by
    unfold fetch
    rw [bind_assoc]
    congr 1
    funext source?
    cases source? with
    | none => rfl
    | some source =>
      dsimp only
      rw [bind_assoc]
  rw [← hfetch]
  unfold load
  cases isPrimitiveName name <;> rfl

instance (name : String) : Steady (fetch name) := by
  refine moves_bind inferInstance fun source? => ?_
  split <;> infer_instance

instance (name : String) : Steady (standing name) := by
  have hmissing : Steady (modify fun l =>
      { l with missing := l.missing ++ [name] } : Lookup Unit) :=
    moves_modify fun _ => ⟨rfl, rfl, rfl, rfl, fun _ h => h, List.prefix_rfl⟩
  refine moves_bind inferInstance fun l => ?_
  split <;> infer_instance

/-- Loading goes no other way than the search for a unit and the note of a name without one. -/
instance {R : Library → Library → Prop} [Std.Refl R] [IsTrans Library R] (name : String)
    [Moves R (fetch name)] [Moves R (standing name)] : Moves R (load name) := by
  rw [load_eq]
  split
  · infer_instance
  refine moves_bind inferInstance fun l => ?_
  split <;> infer_instance

theorem standing_ok (name : String) (l : Library) :
    Ok (standing name) l fun t l' => l'.graph.get? name = some t := by
  refine ok_get_bind ?_
  split
  · rename_i t ht
    exact ok_pure ht
  · exact ok_modify_bind (ok_throw _)

/-- A type that was loaded stands in the graph. -/
theorem load_ok (name : String) (l : Library) :
    Ok (load name) l fun t l' => isPrimitiveName name = false → l'.graph.get? name = some t := by
  rw [load_eq]
  split
  · rename_i hprimitive
    exact ok_pure fun h => by rw [hprimitive] at h; cases h
  refine ok_get_bind ?_
  split
  · rename_i t ht
    exact ok_pure fun _ => ht
  refine ok_get_bind ?_
  split
  · exact ok_throw _
  · exact ok_bind (ok_self _ _) fun _ l' _ => ok_mono (standing_ok name l') fun _ _ h _ => h

theorem load_primitive {name : String} (h : isPrimitiveName name = true) (l : Library) :
    load name l = .ok (.ofPrimitive name) l := by
  rw [load_eq, h]
  rfl

theorem load_held {l : Library} {name : String} {t : TypeInfo}
    (hprimitive : isPrimitiveName name = false) (ht : l.graph.get? name = some t) :
    load name l = .ok t l := by
  rw [load_eq, hprimitive]
  change (match l.graph.get? name with
    | some type => pure type
    | none => _ : Lookup TypeInfo) l = _
  rw [ht]
  rfl

/-- Loading a type that need not be there. -/
theorem loadIfFound_eq (name : String) (l : Library) :
    loadIfFound name l = match load name l with
      | .ok t l' => .ok (some t) l'
      | .error f l' => if f.isNotFound then .ok none l' else .error f l' := by
  unfold loadIfFound
  simp only [tryCatch, tryCatchThe, MonadExceptOf.tryCatch, EStateM.tryCatch, bind, EStateM.bind]
  cases load name l with
  | ok t l' => rfl
  | error f l' =>
    dsimp only
    cases f.isNotFound <;> rfl

instance {R : Library → Library → Prop} (name : String) [Moves R (load name)] :
    Moves R (loadIfFound name) := by
  refine ⟨fun l => ?_⟩
  have hload := Moves.moves (R := R) (x := load name) l
  rw [loadIfFound_eq]
  cases hrun : load name l with
  | ok t l' =>
    rw [hrun] at hload
    exact hload
  | error f l' =>
    rw [hrun] at hload
    dsimp only
    split <;> exact hload

instance (units : List (String × CompilationUnit)) : Steady (registerUnits units) := by
  induction units with
  | nil => exact inferInstanceAs (Steady (pure _))
  | cons unit units ih =>
    unfold registerUnits
    infer_instance

/-! ## Comparing -/

section Moves

variable {R : Library → Library → Prop} [Std.Refl R] [IsTrans Library R]
  [∀ name, Moves R (load name)] [∀ e, Moves R (report e)]

instance (name : String) (fuel : Nat) (seen pending : List String) :
    Moves R (loadAll name fuel seen pending) := by
  induction fuel, seen, pending using loadAll.induct with
  | case1 fuel seen =>
    unfold loadAll
    infer_instance
  | case2 fuel seen current pending hskip ih =>
    rw [loadAll.eq_def]
    dsimp only
    rw [if_pos hskip]
    exact ih
  | case3 seen current pending hskip =>
    rw [loadAll.eq_def]
    dsimp only
    rw [if_neg hskip]
    infer_instance
  | case4 seen current pending hskip fuel ih ih' =>
    rw [loadAll.eq_def]
    dsimp only
    rw [if_neg hskip]
    refine moves_bind inferInstance fun t? => ?_
    cases t? with
    | some t => exact ih t
    | none => infer_instance

instance (name : String) : Moves R (loadAncestry name) := by
  unfold loadAncestry
  infer_instance

instance (target source : String) : Moves R (isAssignable target source) := by
  unfold isAssignable
  infer_instance

end Moves

end Library

end StubWriter
