import StubWriter.Proofs.Grammar.Names
import StubWriter.Proofs.Library.Loading
import StubWriter.Proofs.Library.Platform

/-!
# Where loaded types come from

Every type that a library holds was described from a declaration of a unit that the library may read:
one of those given to it, or the source of some name.

* `moves_registerAll`: what registering a unit does, from what describing and adding its types does.
* `Library.Stocked`: the types of a library have such origins.
-/

namespace StubWriter

open Run

namespace Library

/-! ## Registering -/

section Moves

variable {R : Library → Library → Prop} [Std.Refl R] [IsTrans Library R]

/-- Registering a unit does nothing but what describing and adding its types does. -/
theorem moves_registerAll (hrecalls : ∀ l l', l.Recalls l' → R l l') {package origin : String}
    {s : Scope} {ds : List Declared}
    (hadd : ∀ d ∈ ds, ∀ l t, d.Shapes package origin t → R l (l.takeIn d t)) :
    Moves R (registerAll package origin s ds) := by
  induction ds with
  | nil => exact inferInstanceAs (Moves R (pure _))
  | cons d ds ih =>
    obtain ⟨hd, hds⟩ := List.forall_mem_cons.mp hadd
    have hrest := ih hds
    have hdescribe : Moves R (d.describe package origin s) :=
      Moves.mono (R := Recalls) inferInstance hrecalls
    unfold registerAll
    refine moves_bind_of hdescribe fun l t l' hrun => ?_
    have hshapes := d.describe_shapes package origin s l t l' hrun
    exact Trans.trans (hd l' t hshapes) (hrest.moves (l'.takeIn d t))

end Moves

/-! ## Origins -/

/-- A unit that a library may read, and the place to name it by. -/
def Readable (given : List (String × CompilationUnit)) (roots : List Path) (tree : FileTree)
    (unit : CompilationUnit) (origin : String) : Prop :=
  (origin, unit) ∈ given ∨ ∃ name, sourceIn roots tree name = .ok (some ⟨.ok unit, origin⟩)

/-- A type that a readable unit declares under a name. -/
def Originates (given : List (String × CompilationUnit)) (roots : List Path) (tree : FileTree)
    (name : String) (t : TypeInfo) : Prop :=
  ∃ unit origin, Readable given roots tree unit origin ∧
    ∃ d ∈ unit.declared, d.fullName = name ∧ d.Shapes unit.packageName origin t

variable {given : List (String × CompilationUnit)} {roots : List Path} {tree : FileTree}

/-- A library over given roots and files that remembers nothing wrong, and whose types have
origins. -/
structure Stocked (given : List (String × CompilationUnit)) (roots : List Path) (tree : FileTree)
    (l : Library) : Prop where
  based : (basedOn roots tree).inv l
  types : ∀ name t, l.graph.get? name = some t → Originates given roots tree name t

/-- A library grows, and its types keep having origins. -/
structure Stocks (given : List (String × CompilationUnit)) (roots : List Path) (tree : FileTree)
    (l l' : Library) : Prop where
  grows : l.Grows l'
  stocked : Stocked given roots tree l → Stocked given roots tree l'

instance : Std.Refl (Stocks given roots tree) :=
  ⟨fun l => ⟨.refl l, id⟩⟩

instance : IsTrans Library (Stocks given roots tree) :=
  ⟨fun _ _ _ h h' => ⟨h.grows.trans h'.grows, h'.stocked ∘ h.stocked⟩⟩

theorem Recalls.stocks {l l' : Library} (h : l.Recalls l') : Stocks given roots tree l l' :=
  ⟨h.grows, fun hl => ⟨h.based hl.based, h.graph ▸ hl.types⟩⟩

theorem stocks_takeIn {unit : CompilationUnit} {origin : String}
    (hunit : Readable given roots tree unit origin) {d : Declared} (hd : d ∈ unit.declared)
    (l : Library) {t : TypeInfo} (ht : d.Shapes unit.packageName origin t) :
    Stocks given roots tree l (l.takeIn d t) := by
  refine ⟨grows_takeIn l d t, fun hl => ⟨basedOn_learned hl.based _ _, fun name t' h => ?_⟩⟩
  rw [takeIn, TypeGraph.get?_addType] at h
  split at h
  · rename_i hname
    cases h
    exact ⟨unit, origin, hunit, d, hd, hname ▸ ht.name.symm, ht⟩
  · exact hl.types name t' h

theorem moves_register {unit : CompilationUnit} {origin : String}
    (hunit : Readable given roots tree unit origin) :
    Moves (Stocks given roots tree) (register unit origin) :=
  moves_registerAll (fun _ _ => Recalls.stocks) fun _ hd l _ ht => stocks_takeIn hunit hd l ht

theorem findSource?_ok {l l' : Library} {name : String} {source? : Option Source}
    (hl : (basedOn roots tree).inv l) (h : findSource? name l = .ok source? l') :
    sourceIn roots tree name = .ok source? := by
  have hrun := (findSource?_gives name l hl).2.resolve_right fun ⟨_, hf, _⟩ => hf
  rw [← hrun, h]
  rfl

instance (name : String) : Moves (Stocks given roots tree) (fetch name) := by
  have hfind : Moves (Stocks given roots tree) (findSource? name) :=
    Moves.mono (R := Recalls) inferInstance fun _ _ => Recalls.stocks
  have hreport : ∀ e, Moves (Stocks given roots tree) (report e) := fun e =>
    Moves.mono (R := Recalls) inferInstance fun _ _ => Recalls.stocks
  refine moves_bind_from hfind fun l source? l' hrun hmoved => ?_
  cases source? with
  | none => exact hmoved
  | some source =>
    have hregister : ∀ unit, source.unit = .ok unit → Stocked given roots tree l →
        Moves (Stocks given roots tree) (register unit source.origin) := by
      intro unit hunit hl
      refine moves_register (.inr ⟨name, ?_⟩)
      rw [findSource?_ok hl.based hrun, ← hunit]
    have hsteady : Steady (do
        report (.loading name source.origin)
        registerSource source) := inferInstance
    refine ⟨hmoved.grows.trans (hsteady.moves l'), fun hl => ?_⟩
    have hrest : Moves (Stocks given roots tree) (do
        report (.loading name source.origin)
        registerSource source) := by
      refine moves_bind (hreport _) fun _ => ?_
      unfold registerSource
      split
      · rename_i unit hunit
        exact hregister unit hunit hl
      · infer_instance
    exact (hrest.moves l').stocked (hmoved.stocked hl)

instance (name : String) : Moves (Stocks given roots tree) (standing name) := by
  have hmiss : Moves (Stocks given roots tree) (modify (miss name) : Lookup Unit) :=
    moves_modify fun l => ⟨⟨rfl, rfl, rfl, rfl, fun _ h => h, List.prefix_rfl⟩, fun hl =>
      ⟨basedOn_learned hl.based l.graph _, hl.types⟩⟩
  refine moves_bind inferInstance fun l => ?_
  split
  · infer_instance
  · exact moves_bind hmiss fun _ => inferInstance

instance (e : Event) : Moves (Stocks given roots tree) (report e) :=
  Moves.mono (R := Recalls) inferInstance fun _ _ => Recalls.stocks

instance (name : String) : Moves (Stocks given roots tree) (exists? name) :=
  Moves.mono (R := Recalls) inferInstance fun _ _ => Recalls.stocks

theorem moves_registerUnits {units : List (String × CompilationUnit)} (hunits : units ⊆ given) :
    Moves (Stocks given roots tree) (registerUnits units) := by
  induction units with
  | nil => exact inferInstanceAs (Moves _ (pure _))
  | cons p ps ih =>
    obtain ⟨hp, hps⟩ := List.cons_subset.mp hunits
    exact moves_bind (moves_register (.inl hp)) fun _ => ih hps

theorem ofUnits_stocked (given : List (String × CompilationUnit)) (roots : List Path)
    (tree : FileTree) (units : List (String × CompilationUnit)) :
    Stocked given roots tree (ofUnits roots tree units) where
  based := ofUnits_basedOn roots tree units
  types := nofun

/-! ## Segments -/

theorem Readable.written (hgiven : ∀ p ∈ given, p.2.Written IsSegment) {unit : CompilationUnit}
    {origin : String} (h : Readable given roots tree unit origin) : unit.Written IsSegment := by
  obtain h | ⟨name, h⟩ := h
  · exact hgiven _ h
  obtain hfirst | ⟨-, platform, hplatform, hsource⟩ := sourceIn_some h
  · obtain ⟨_, -, text, -, -, hsource⟩ := firstIn_some hfirst
    have hunit : CompilationUnit.ofText text = .ok unit := (congrArg Source.unit hsource).symm
    exact (CompilationUnit.ofText_written hunit).mono fun _ => Token.IsName.isSegment
  · have hunit : unit = platform := Except.ok.inj (congrArg Source.unit hsource)
    exact hunit ▸ (Platform.checked_of_mem (Platform.mem_units hplatform)).written

theorem Readable.typed (hgiven : ∀ p ∈ given, p.2.Typed) {unit : CompilationUnit} {origin : String}
    (h : Readable given roots tree unit origin) : unit.Typed := by
  obtain h | ⟨name, h⟩ := h
  · exact hgiven _ h
  obtain hfirst | ⟨-, platform, hplatform, hsource⟩ := sourceIn_some h
  · obtain ⟨_, -, text, -, -, hsource⟩ := firstIn_some hfirst
    exact CompilationUnit.ofText_typed (congrArg Source.unit hsource).symm
  · have hunit : unit = platform := Except.ok.inj (congrArg Source.unit hsource)
    exact hunit ▸ (Platform.checked_of_mem (Platform.mem_units hplatform)).typed

theorem readUnits_eq (files : List (String × String)) : (readUnits files).1 =
    files.filterMap fun p => (CompilationUnit.ofText p.2).toOption.map (p.1, ·) := by
  unfold readUnits
  induction files with
  | nil => rfl
  | cons p ps ih =>
    obtain ⟨label, text⟩ := p
    rw [List.foldr_cons, List.filterMap_cons, ← ih]
    cases hu : CompilationUnit.ofText text <;> simp [hu, Except.toOption]

theorem mem_readUnits {files : List (String × String)} {p : String × CompilationUnit} :
    p ∈ (readUnits files).1 ↔
      ∃ text, (p.1, text) ∈ files ∧ CompilationUnit.ofText text = .ok p.2 := by
  rw [readUnits_eq, List.mem_filterMap]
  constructor
  · rintro ⟨⟨label, text⟩, hmem, hp⟩
    dsimp only at hp
    cases hu : CompilationUnit.ofText text with
    | error fault =>
      rw [hu] at hp
      cases hp
    | ok u =>
      rw [hu] at hp
      cases hp
      exact ⟨text, hmem, hu⟩
  · rintro ⟨text, hmem, hu⟩
    exact ⟨_, hmem, by simp [hu, Except.toOption]⟩

theorem readUnits_written {files : List (String × String)} {p : String × CompilationUnit}
    (hp : p ∈ (readUnits files).1) : p.2.Written IsSegment := by
  obtain ⟨text, -, hu⟩ := mem_readUnits.mp hp
  exact (CompilationUnit.ofText_written hu).mono fun _ => Token.IsName.isSegment

theorem readUnits_typed {files : List (String × String)} {p : String × CompilationUnit}
    (hp : p ∈ (readUnits files).1) : p.2.Typed := by
  obtain ⟨text, -, hu⟩ := mem_readUnits.mp hp
  exact CompilationUnit.ofText_typed hu

end Library

end StubWriter
