import StubWriter.Proofs.CompilationUnit
import StubWriter.Proofs.Disk
import StubWriter.Proofs.Library.Existence
import StubWriter.Proofs.Supertypes

/-!
# Units that are loaded in part

A unit is loaded type by type, and any name in it may turn out to have no meaning. The types that
were described before stay in the library. They make no difference to what the names in the unit
mean, since a unit binds the names of its own types and never asks whether they exist. So the unit
fails in the same way when it is read again, if it is read again: a type that came to stand before
the failure is found at once.

* `CompilationUnit.not_asked`: no unit asks for the types that it declares.
* `registerAll_agreeing`: the types that come to stand, and the failure, are always the same.
* `load_fails`: what a failure to load a type leaves, and what another attempt comes to.
-/

namespace StubWriter

open Run

/-! ## What a unit asks for -/

namespace CompilationUnit

variable {u : CompilationUnit}

/-- The last piece of the canonical name of a type is its own name. -/
theorem getLast?_fullName (hu : u.Written IsSegment) {d : Declared} (hd : d ∈ u.declared) :
    (splitText '.' d.fullName).getLast? = some d.decl.name := by
  have hown : splitText '.' d.decl.name = [d.decl.name] :=
    splitText_of_not_mem (hu.declared d hd).dot
  obtain ⟨owner, rfl | ⟨outer, rfl⟩, hname⟩ := fullName_eq hd
  · rw [hname, String.empty_append, hown]
    rfl
  · rw [hname, splitText_append, hown, List.getLast?_append_of_ne_nil _ (List.cons_ne_nil _ _)]
    rfl

/-- The simple name of a declared type is bound in its unit, so no name in the unit asks for it. -/
theorem not_asked (hu : u.Written IsSegment) {d : Declared} (hd : d ∈ u.declared)
    {n : List String} (hn : n ∈ u.names) : d.fullName ∉ (Scope.ofUnit u).asks (n.headD "") := by
  intro hasked
  obtain ⟨hfree, hlast⟩ := Scope.getLast?_asks hasked
  have hhead : '.' ∉ (n.headD "").toList := by
    cases n with
    | nil => exact List.not_mem_nil
    | cons s rest => exact ((hu.names _ hn).segment s List.mem_cons_self).dot
  rw [getLast?_fullName hu hd, splitText_of_not_mem hhead] at hlast
  have hname : d.decl.name = n.headD "" := Option.some.inj hlast
  rw [Scope.binds, Bool.or_eq_false_iff, Option.isSome_eq_false_iff, Option.isNone_iff_eq_none,
    Scope.localTypes_ofUnit, List.lookup_eq_none_iff] at hfree
  have hne := hfree.1 _ (List.mem_map_of_mem hd)
  exact (bne_iff_ne.mp hne) hname.symm

end CompilationUnit

namespace Library

variable {roots : List Path} {tree : FileTree} {l₀ l : Library} {u : CompilationUnit}
  {name origin : String}

/-! ## Libraries in which a unit means the same -/

/-- A library that remembers nothing wrong and answers like `l₀` whatever a unit asks for. -/
structure Agreeing (u : CompilationUnit) (l₀ l : Library) : Prop where
  based : (basedOn l₀.roots l₀.tree).inv l
  answers : ∀ n ∈ u.names, ∀ a ∈ (Scope.ofUnit u).asks (n.headD ""), existsAt l a = existsAt l₀ a

def agreeing (u : CompilationUnit) (l₀ : Library) : World Library where
  inv := Agreeing u l₀
  excused _ := False

theorem Recalls.agreeing {l' : Library} (h : l.Recalls l') (hl : Agreeing u l₀ l) :
    Agreeing u l₀ l' :=
  ⟨h.based hl.based, fun n hn a ha => (existsAt_recalls h a).trans (hl.answers n hn a ha)⟩

/-- What a library holds of a type makes no difference to other names. -/
theorem existsAt_takeIn (l : Library) {d : Declared} {t : TypeInfo} (hname : t.name = d.fullName)
    {a : String} (ha : a ≠ d.fullName) : existsAt (l.takeIn d t) a = existsAt l a := by
  have hcontains : (l.graph.addType t).contains a = l.graph.contains a := by
    rw [TypeGraph.contains, TypeGraph.get?_addType, if_neg (hname ▸ ha)]
    rfl
  have hmissing : (l.missing.filter (· != d.fullName)).contains a = l.missing.contains a := by
    rw [Bool.eq_iff_iff, List.contains_iff_mem, List.contains_iff_mem, List.mem_filter]
    exact and_iff_left (by simpa using ha)
  rw [existsAt, existsAt]
  simp only [takeIn, hcontains, hmissing]

theorem Agreeing.takeIn (hu : u.Written IsSegment) (hl : Agreeing u l₀ l) {d : Declared}
    (hd : d ∈ u.declared) {t : TypeInfo} (hname : t.name = d.fullName) :
    Agreeing u l₀ (l.takeIn d t) :=
  ⟨basedOn_learned hl.based _ _, fun n hn a ha =>
    (existsAt_takeIn l hname fun h => CompilationUnit.not_asked hu hd hn (h ▸ ha)).trans
      (hl.answers n hn a ha)⟩

theorem agreeing_self (hl₀ : l₀.Sound) : Agreeing u l₀ l₀ :=
  ⟨⟨rfl, rfl, hl₀⟩, fun _ _ _ _ => rfl⟩

/-- What a declaration describes, or why it cannot be described, is always the same. -/
theorem describe_agreeing (hl₀ : l₀.Sound) {d : Declared} (hd : d ∈ u.declared)
    (package origin : String) :
    ∃ v, (∀ t, v = .ok t → d.Shapes package origin t) ∧ ∀ l, Agreeing u l₀ l →
      Comes (d.describe package origin (Scope.ofUnit u)) l fun o l' => o = v ∧
        Agreeing u l₀ l' ∧ l'.graph = l.graph ∧ l'.missing = l.missing := by
  have hreport : ∀ e, Fixed (fun _ : Unit => agreeing u l₀) fun _ => report e :=
    fun e => fixed_of_gives (.ok ()) fun _ =>
      World.gives_modify fun l hl => (Moves.moves (R := Recalls) (x := report e) l).agreeing hl
  have hexists : ∀ n ∈ u.names, ∀ a ∈ (Scope.ofUnit u).asks (n.headD ""),
      Fixed (fun _ : Unit => agreeing u l₀) fun _ => exists? a := by
    refine fun n hn a ha => fixed_of_gives (existsAt l₀ a) fun _ l hl => ?_
    refine ⟨(Moves.moves (R := Recalls) (x := exists? a) l).agreeing hl, .inl ?_⟩
    exact (exists?_outcome hl.based.2.2 a).trans (hl.answers n hn a ha)
  obtain ⟨v, -, hv⟩ : Fixed (fun _ : Unit => agreeing u l₀) fun _ =>
      d.describe package origin (Scope.ofUnit u) :=
    d.describe_of (fixed_compositional _) fun n hn =>
      Scope.resolveName_of (fixed_compositional _) (fun f _ => alike_throw f) hreport
        (hexists n (Declared.names_subset hd hn))
  have hgives : ∀ l, Agreeing u l₀ l →
      outcome (d.describe package origin (Scope.ofUnit u) l) = v :=
    fun l hl => (hv () l hl).2.resolve_right fun ⟨_, hf, _⟩ => hf
  refine ⟨v, ?_, fun l hl => ?_⟩
  · rintro t rfl
    exact d.describe_shapes package origin _ l₀ t _
      (eq_ok_of_outcome (hgives l₀ (agreeing_self hl₀)))
  · have hrecalls : l.Recalls (stateAfter (d.describe package origin (Scope.ofUnit u) l)) :=
      Moves.moves l
    exact ⟨hgives l hl, hrecalls.agreeing hl, hrecalls.graph, hrecalls.missing⟩

/-! ## What comes to stand -/

/-- The types of the first declarations: of all, or of those before one that fails. -/
def Begins (package origin : String) (ds : List Declared) (types : List TypeInfo)
    (o : Except Failure Unit) : Prop :=
  (o = .ok () ∧ List.Forall₂ (fun d t => d.Shapes package origin t) ds types) ∨
    ∃ f before d after, o = .error f ∧ ds = before ++ d :: after ∧
      List.Forall₂ (fun d t => d.Shapes package origin t) before types

theorem Begins.cons {package : String} {d : Declared} {ds : List Declared} {t : TypeInfo}
    {types : List TypeInfo} {o : Except Failure Unit} (ht : d.Shapes package origin t)
    (h : Begins package origin ds types o) : Begins package origin (d :: ds) (t :: types) o := by
  rcases h with ⟨ho, htypes⟩ | ⟨f, before, d', after, ho, rfl, htypes⟩
  · exact .inl ⟨ho, .cons ht htypes⟩
  · exact .inr ⟨f, d :: before, d', after, ho, rfl, .cons ht htypes⟩

/-- Registering a unit adds the same types in all libraries in which it means the same, and ends in
the same way. -/
theorem registerAll_agreeing (hu : u.Written IsSegment) (hl₀ : l₀.Sound)
    (package origin : String) {ds : List Declared} (hds : ds ⊆ u.declared) :
    ∃ types o, Begins package origin ds types o ∧ ∀ l, Agreeing u l₀ l →
      Comes (registerAll package origin (Scope.ofUnit u) ds) l fun o' l' => o' = o ∧
        Agreeing u l₀ l' ∧ l'.graph = l.graph.addTypes types ∧ l'.missing ⊆ l.missing := by
  induction ds with
  | nil =>
    exact ⟨[], .ok (), .inl ⟨rfl, .nil⟩, fun l hl => ⟨rfl, hl, rfl, List.Subset.refl _⟩⟩
  | cons d ds ih =>
    obtain ⟨hd, hds⟩ := List.cons_subset.mp hds
    obtain ⟨v, hshapes, hdescribe⟩ := describe_agreeing hl₀ hd package origin
    cases v with
    | error f =>
      refine ⟨[], .error f, .inr ⟨f, [], d, ds, rfl, rfl, .nil⟩, fun l hl => ?_⟩
      unfold registerAll
      refine comes_bind (hdescribe l hl) ?_ ?_
      · rintro t l' ⟨ht, -⟩
        cases ht
      · rintro _ l' ⟨⟨⟩, hl', hgraph, hmissing⟩
        exact ⟨rfl, hl', hgraph, hmissing ▸ List.Subset.refl _⟩
    | ok t =>
      obtain ⟨types, o, hbegins, hrest⟩ := ih hds
      have ht := hshapes t rfl
      refine ⟨t :: types, o, hbegins.cons ht, fun l hl => ?_⟩
      unfold registerAll
      refine comes_bind (hdescribe l hl) ?_ ?_
      · rintro _ l₁ ⟨⟨⟩, hl₁, hgraph, hmissing⟩
        obtain ⟨ho, hl', hgraph', hmissing'⟩ := hrest (l₁.takeIn d t) (hl₁.takeIn hu hd ht.name)
        refine ⟨ho, hl', hgraph'.trans ?_, fun a ha => ?_⟩
        · rw [takeIn, hgraph]
          rfl
        · exact hmissing ▸ (List.mem_filter.mp (hmissing' ha)).1
      · rintro f l₁ ⟨ho, -⟩
        cases ho

/-! ## Loading -/

/-- Types of the unit that is found for a name: those of the declarations before one of them. -/
def Partly (roots : List Path) (tree : FileTree) (name : String) (types : List TypeInfo) : Prop :=
  ∃ unit origin before d after, sourceIn roots tree name = .ok (some ⟨.ok unit, origin⟩) ∧
    unit.declared = before ++ d :: after ∧
    List.Forall₂ (fun d t => d.Shapes unit.packageName origin t) before types

/-- What is left of a library when fetching a type has failed. -/
structure Halted (roots : List Path) (tree : FileTree) (name : String) (l : Library) (f : Failure)
    (l' : Library) : Prop where
  based : (basedOn roots tree).inv l'
  missing : l'.missing ⊆ l.missing
  again : outcome (fetch name l') = .error f
  added : ∃ types, (types = [] ∨ Partly roots tree name types) ∧ l'.graph = l.graph.addTypes types

/-- What could not be fetched cannot be fetched again, for the same reason. -/
theorem fetch_halts (hl : (basedOn roots tree).inv l) (name : String) :
    Comes (fetch name) l fun o l' => ∀ f, o = .error f → Halted roots tree name l f l' := by
  refine fetch_comes hl fun l₁ hl₁ _ => ?_
  have hbased := hl₁.based hl
  -- Where nothing is registered, the search leaves what it found.
  have hsearch : ∀ f, (∀ l₂, Comes (registerFound (sourceIn roots tree name)) l₂
      fun o l' => o = .error f ∧ l' = l₂) →
      Comes (registerFound (sourceIn roots tree name)) l₁ fun o l' =>
        ∀ f, o = .error f → Halted roots tree name l f l' := by
    intro f hfails
    refine comes_mono (hfails l₁) ?_
    rintro _ _ ⟨rfl, rfl⟩ _ ⟨⟩
    refine ⟨hbased, hl₁.missing ▸ List.Subset.refl _, ?_, [], .inl rfl, hl₁.graph⟩
    exact fetch_comes (P := fun o _ => o = .error f) hbased fun l₂ _ _ => (hfails l₂).1
  cases hsource : sourceIn roots tree name with
  | error f => exact hsource ▸ hsearch f fun l₂ => by rw [hsource]; exact ⟨rfl, rfl⟩
  | ok source? =>
    obtain _ | ⟨fault | unit, origin⟩ := source?
    case none => exact nofun
    case some.error =>
      exact hsource ▸ hsearch (.badUnit origin fault) fun l₂ => by rw [hsource]; exact ⟨rfl, rfl⟩
    case some.ok =>
      have hreadable : Readable [] roots tree unit origin := .inr ⟨name, hsource⟩
      have hunit : unit.Written IsSegment := hreadable.written fun _ h => absurd h List.not_mem_nil
      obtain ⟨hroots, htree, hsound⟩ := hbased
      obtain ⟨types, o, hbegins, hregister⟩ := registerAll_agreeing hunit hsound
        unit.packageName origin (List.Subset.refl unit.declared)
      refine comes_mono (hregister l₁ (agreeing_self hsound)) ?_
      rintro _ l' ⟨rfl, hagreeing, hgraph, hmissing⟩ f rfl
      have hbased' : (basedOn roots tree).inv l' := hroots ▸ htree ▸ hagreeing.based
      refine ⟨hbased', hl₁.missing ▸ hmissing, ?_, types, .inr ?_, hl₁.graph ▸ hgraph⟩
      · refine fetch_comes (P := fun o _ => o = .error f) hbased' fun l₂ hl₂ _ => ?_
        rw [hsource]
        exact (hregister l₂ (hl₂.agreeing hagreeing)).1
      · obtain ⟨ho, -⟩ | ⟨_, before, d, after, -, hdeclared, htypes⟩ := hbegins
        · cases ho
        · exact ⟨unit, origin, before, d, after, hsource, hdeclared, htypes⟩

/-- Where loading a type fails, but not because there is none, fetching its unit has failed. -/
theorem load_halts (hl : (basedOn roots tree).inv l) {f : Failure} {l' : Library}
    (h : load name l = .error f l') (hf : f ≠ .typeNotFound name) :
    isPrimitiveName name = false ∧ l.graph.get? name = none ∧ name ∉ l.missing ∧
      Halted roots tree name l f l' := by
  refine Comes.of_error (P := fun o l' => ∀ f, o = .error f → f ≠ .typeNotFound name →
    isPrimitiveName name = false ∧ l.graph.get? name = none ∧ name ∉ l.missing ∧
      Halted roots tree name l f l') ?_ h f rfl hf
  refine load_comes (Q := fun o l' => isPrimitiveName name = false ∧ l.graph.get? name = none ∧
    name ∉ l.missing ∧ ∀ f, o = .error f → Halted roots tree name l f l')
    (fun _ => nofun) (fun _ _ => nofun) ?_ ?_ (fun _ _ _ _ => nofun) ?_ ?_
  · rintro - - - _ ⟨⟩ hne
    exact absurd rfl hne
  · exact fun hprimitive hgone hmissing => ⟨hprimitive, hgone, hmissing, fetch_halts hl name⟩
  · rintro l₁ - - _ ⟨⟩ hne
    exact absurd rfl hne
  · rintro f l₁ ⟨hprimitive, hgone, hmissing, hhalted⟩ _ ⟨⟩ -
    exact ⟨hprimitive, hgone, hmissing, hhalted f rfl⟩

/-- A name that is neither loaded nor missing is fetched, so it fails if that fails. -/
theorem load_error (hprimitive : isPrimitiveName name = false) (hgone : l.graph.get? name = none)
    (hmissing : name ∉ l.missing) {f : Failure} (h : outcome (fetch name l) = .error f) :
    outcome (load name l) = .error f := by
  refine load_comes (P := fun o _ => o = .error f) (Q := fun o _ => o = .error f) ?_ ?_ ?_
    (fun _ _ _ => h) nofun nofun fun _ _ hf => congrArg _ (Except.error.inj hf)
  · intro h
    cases hprimitive.symm.trans h
  · intro t ht
    cases hgone.symm.trans ht
  · exact fun _ _ hmem => absurd hmem hmissing

/-- A failure to load a type leaves the first types of its unit, if it was found. They change nothing
if and only if they stood there before with all their edges. The type itself fails to load again in
the same way, unless it is one of them. -/
theorem load_fails {files : List (String × String)} (hmade : ofFiles roots tree files = .ok () l₀)
    (history : List Query) {name : String} {f : Failure} {l' : Library} :
    let l := ((Inspection.start l₀).follow history).types
    load name l = .error f l' → f ≠ .typeNotFound name →
    ∃ types, (types = [] ∨ Partly roots tree name types) ∧
      (((∀ a, l'.graph.get? a = l.graph.get? a) ∧ ∀ a b, l'.graph.Edge a b ↔ l.graph.Edge a b) ↔
        ∀ t ∈ types, TypeGraph.lastOf types t.name = l.graph.get? t.name ∧
          ∀ b ∈ t.supertypes, l.graph.Edge t.name b) ∧
      (outcome (load name l') = .error f ↔ ∀ t ∈ types, t.name ≠ name) := by
  intro l hload hf
  have hl : (basedOn roots tree).inv l := (follow_candid hmade history).1.based
  obtain ⟨hprimitive, hgone, hmissing, hhalted⟩ := load_halts hl hload hf
  obtain ⟨types, hpartly, hgraph⟩ := hhalted.added
  refine ⟨types, hpartly, hgraph ▸ TypeGraph.addTypes_same_iff l.graph types, ?_, fun hother => ?_⟩
  · -- A type that came to stand is found at once.
    rintro hagain t ht rfl
    obtain ⟨u, hu⟩ := TypeGraph.lastOf_name ht
    have hstands : l'.graph.get? t.name = some u := by
      rw [hgraph, TypeGraph.get?_addTypes, hu]
      rfl
    rw [load_held hprimitive hstands] at hagain
    cases hagain
  · have hgone' : l'.graph.get? name = none := by
      rw [hgraph, TypeGraph.get?_addTypes, hgone, Option.or_none, Option.eq_none_iff_forall_ne_some]
      intro t ht
      obtain ⟨hmem, hname⟩ := TypeGraph.lastOf_mem ht
      exact hother t hmem hname
    exact load_error hprimitive hgone' (fun h => hmissing (hhalted.missing h)) hhalted.again

/-! ## A type before one that fails -/

/-- A unit of two classes, the second of which extends a class that may come from two packages. -/
def halfway : FileTree :=
  .ofTexts [(["s", "p", "A.java"],
    "package p; import q.*; import r.*; class A { } class B extends X { }")]

def halfwayLibrary : Library :=
  ofUnits [⟨0, ["s"]⟩] halfway []

theorem halfway_made : ofFiles [⟨0, ["s"]⟩] halfway [] = .ok () halfwayLibrary :=
  rfl

def halfwayFailure : Failure :=
  .severalGuesses "X" ["q", "r"]

def halfwayLeft : Library :=
  stateAfter (load "p.A" halfwayLibrary)

theorem halfway_facts : outcome (load "p.A" halfwayLibrary) = .error halfwayFailure ∧
    halfwayLibrary.graph.contains "p.A" = false ∧ halfwayLeft.graph.contains "p.A" = true := by
  decide +kernel

theorem load_fails_halfway : outcome (load "p.A" halfwayLibrary) = .error halfwayFailure ∧
    ∃ types, (types = [] ∨ Partly [⟨0, ["s"]⟩] halfway "p.A" types) ∧
      (((∀ a, halfwayLeft.graph.get? a = halfwayLibrary.graph.get? a) ∧
          ∀ a b, halfwayLeft.graph.Edge a b ↔ halfwayLibrary.graph.Edge a b) ↔
        ∀ t ∈ types, TypeGraph.lastOf types t.name = halfwayLibrary.graph.get? t.name ∧
          ∀ b ∈ t.supertypes, halfwayLibrary.graph.Edge t.name b) ∧
      (outcome (load "p.A" halfwayLeft) = .error halfwayFailure ↔ ∀ t ∈ types, t.name ≠ "p.A") :=
  ⟨halfway_facts.1, load_fails halfway_made [] (eq_error_of_outcome halfway_facts.1) nofun⟩

/-- The first class of the unit is loaded by the attempt that fails, and found by the next one. -/
theorem not_load_fails : ¬ ∀ (files : List (String × String)) (roots : List Path) (tree : FileTree)
    (l₀ : Library), ofFiles roots tree files = .ok () l₀ → ∀ (history : List Query) (name : String)
    (f : Failure) (l' : Library), load name ((Inspection.start l₀).follow history).types =
      .error f l' → f ≠ .typeNotFound name →
    (∀ a, l'.graph.get? a = ((Inspection.start l₀).follow history).types.graph.get? a) ∧
      (∀ a b, l'.graph.Edge a b ↔ ((Inspection.start l₀).follow history).types.graph.Edge a b) ∧
      outcome (load name l') = .error f := by
  intro h
  obtain ⟨hfails, hbefore, hafter⟩ := halfway_facts
  have hsame := (h [] _ _ _ halfway_made [] "p.A" _ _ (eq_error_of_outcome hfails) nofun).1 "p.A"
  change halfwayLeft.graph.get? "p.A" = halfwayLibrary.graph.get? "p.A" at hsame
  rw [TypeGraph.contains, hsame] at hafter
  exact Bool.false_ne_true (hbefore.symm.trans hafter)

end Library

end StubWriter
