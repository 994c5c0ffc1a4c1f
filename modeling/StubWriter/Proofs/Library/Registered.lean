import StubWriter.Proofs.Library.Reading
import StubWriter.Proofs.Library.Retries

/-!
# What registering a unit reads

A library finds the same meaning for a name as long as it does nothing but search. While a unit is
registered, types come to stand, but none that a name of the unit asks for. So all declarations of
a unit are read with the meanings that its names had at the start.

* `Scope.means`: what a name means in a library.
* `Library.register_reads`: the types that come to stand are the readings of the declarations.
-/

namespace StubWriter

open Run

/-- What a dotted name means in a library, if anything. -/
def Scope.means (s : Scope) (l : Library) (segments : List String) : Option String :=
  (outcome (s.resolveName segments l)).toOption

/-- Where the answers to the questions of a name are fixed, so is its meaning. -/
theorem Scope.resolveName_reads {I : Library → Prop} {l : Library} (hl : I l) (s : Scope)
    {segments : List String} (hreport : ∀ e l, I l → I { l with log := l.log ++ [e] })
    (hexists : ∀ a ∈ s.asks (segments.headD ""), ∃ v, Ends I (Library.exists? a) (· = v)) :
    Reads I (s.resolveName segments) (s.means l segments) := by
  let W : World Library := { inv := I, excused := fun _ => False }
  have hfixed : Fixed (fun _ : Unit => W) fun _ => s.resolveName segments := by
    refine Scope.resolveName_of (fixed_compositional _) (fun f _ => alike_throw f)
      (fun e => fixed_of_gives (.ok ()) fun _ => World.gives_modify (hreport e)) fun a ha => ?_
    obtain ⟨v, hv⟩ := hexists a ha
    exact fixed_of_gives v fun _ => World.gives_of_ends hv
  obtain ⟨v, -, hv⟩ := hfixed
  have hgives := World.ends_of_gives (W := W) (fun _ h => h) (hv ())
  refine ends_mono hgives fun o ho => ?_
  rw [ho, Scope.means, (hgives l hl).2]

namespace Library

variable {l₀ l : Library} {u : CompilationUnit}

/-! ## Searches -/

/-- What a name means in a sound library, it means as long as nothing is loaded. -/
theorem means_reads (hl : l.Sound) (s : Scope) (segments : List String) :
    Reads l.Recalls (s.resolveName segments) (s.means l segments) := by
  refine s.resolveName_reads (Std.Refl.refl l) (fun e l' h => ?_) fun a _ => ⟨existsAt l a, ?_⟩
  · exact h.trans (Moves.moves (R := Recalls) (x := report e) l')
  · intro l' h
    refine ⟨h.trans (Moves.moves (R := Recalls) (x := exists? a) l'), ?_⟩
    rw [exists?_outcome (h.sound hl), existsAt_recalls h]

/-- What a declaration describes in a sound library is read with what its names mean there. -/
theorem describe_means (hl : l.Sound) (d : Declared) (package origin : String) (s : Scope) :
    (outcome (d.describe package origin s l)).toOption =
      d.read (s.means l) package origin s.typeVars :=
  (d.describe_reads (fun n _ => means_reads hl s n) package origin l (Std.Refl.refl l)).2

/-! ## Registering -/

/-- The type of a declaration of a unit, read with what the names of the unit mean in a library. -/
def readIn (l : Library) (u : CompilationUnit) (origin : String) (d : Declared) : Option TypeInfo :=
  d.read ((Scope.ofUnit u).means l) u.packageName origin []

/-- What can be read of a list, up to the first element that cannot. -/
def readable {α β : Type} (read : α → Option β) : List α → List β
  | [] => []
  | a :: as =>
    match read a with
    | none => []
    | some b => b :: readable read as

theorem readable_all {α β : Type} {read : α → Option β} {as : List α}
    (h : ∀ a ∈ as, (read a).isSome = true) : readable read as = as.filterMap read := by
  induction as with
  | nil => rfl
  | cons a as ih =>
    obtain ⟨ha, has⟩ := List.forall_mem_cons.mp h
    obtain ⟨b, hb⟩ := Option.isSome_iff_exists.mp ha
    rw [readable, hb, List.filterMap_cons_some hb, ih has]

theorem describe_readIn (hl₀ : l₀.Sound) {d : Declared} (hd : d ∈ u.declared) (origin : String) :
    Reads (Agreeing u l₀) (d.describe u.packageName origin (Scope.ofUnit u))
      (l₀.readIn u origin d) := by
  have hnames : ∀ n ∈ d.decl.names, Reads (Agreeing u l₀) ((Scope.ofUnit u).resolveName n)
      ((Scope.ofUnit u).means l₀ n) := by
    intro n hn
    refine Scope.resolveName_reads (agreeing_self hl₀) _ (fun e l hl => ?_)
      fun a ha => ⟨existsAt l₀ a, fun l hl => ⟨?_, ?_⟩⟩
    · exact (Moves.moves (R := Recalls) (x := report e) l).agreeing hl
    · exact (Moves.moves (R := Recalls) (x := exists? a) l).agreeing hl
    · exact (exists?_outcome hl.based.2.2 a).trans
        (hl.answers n (Declared.names_subset hd hn) a ha)
  have hread := d.describe_reads hnames u.packageName origin
  rwa [Scope.typeVars_ofUnit] at hread

theorem registerAll_reads (hu : u.Written IsSegment) (hl₀ : l₀.Sound) (origin : String)
    {ds : List Declared} (hds : ds ⊆ u.declared) (hl : Agreeing u l₀ l) :
    Comes (registerAll u.packageName origin (Scope.ofUnit u) ds) l fun o l' =>
      l'.graph = l.graph.addTypes (readable (l₀.readIn u origin) ds) ∧
        (o = .ok () ↔ ∀ d ∈ ds, (l₀.readIn u origin d).isSome = true) := by
  induction ds generalizing l with
  | nil => exact ⟨rfl, fun _ d hd => absurd hd List.not_mem_nil, fun _ => rfl⟩
  | cons d ds ih =>
    obtain ⟨hd, hds⟩ := List.cons_subset.mp hds
    have hdescribe : Comes (d.describe u.packageName origin (Scope.ofUnit u)) l fun o l' =>
        Agreeing u l₀ l' ∧ o.toOption = l₀.readIn u origin d ∧ l'.graph = l.graph ∧
          ∀ t, o = .ok t → t.name = d.fullName := by
      obtain ⟨hagreeing, ho⟩ := describe_readIn hl₀ hd origin l hl
      refine ⟨hagreeing, ho, (Moves.moves (R := Recalls) l).graph, fun t ht => ?_⟩
      exact (d.describe_shapes _ _ _ l t _ (eq_ok_of_outcome ht)).name
    unfold registerAll
    refine comes_bind hdescribe ?_ ?_
    · rintro t l₁ ⟨hl₁, ht, hgraph, hname⟩
      have ht : l₀.readIn u origin d = some t := ht.symm
      obtain ⟨hgraph', ho⟩ := ih hds (hl₁.takeIn hu hd (hname t rfl))
      refine ⟨?_, ho.trans ?_⟩
      · rw [readable, ht]
        refine hgraph'.trans ?_
        rw [takeIn, hgraph]
        rfl
      · rw [List.forall_mem_cons, ht]
        exact (and_iff_right rfl).symm
    · rintro f l₁ ⟨-, ht, hgraph, -⟩
      have ht : l₀.readIn u origin d = none := ht.symm
      refine ⟨?_, fun hok => ?_, fun h => ?_⟩
      · rw [readable, ht]
        exact hgraph
      · cases hok
      · have := h d List.mem_cons_self
        rw [ht] at this
        cases this

/-- Registering a unit adds the types that are read of its declarations, up to one that cannot be
read, and fails if there is one. -/
theorem register_reads (hu : u.Written IsSegment) (hl : l.Sound) (origin : String) :
    Comes (register u origin) l fun o l' =>
      l'.graph = l.graph.addTypes (readable (l.readIn u origin) u.declared) ∧
        (o = .ok () ↔ ∀ d ∈ u.declared, (l.readIn u origin d).isSome = true) :=
  registerAll_reads hu hl origin (List.Subset.refl _) (agreeing_self hl)

end Library

end StubWriter
