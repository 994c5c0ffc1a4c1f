import StubWriter.Proofs.Disk
import StubWriter.Proofs.Generation.Inspecting
import StubWriter.Proofs.Library.Sessions

/-!
# How long a type stays the same

A type that was loaded stays loaded. It is only replaced when a unit that declares it is read once
more, which happens when another name is looked for in that unit, or when two units declare it.

* `Library.Keeps`: what every step of a session does to a loaded type.
* `load_again`: what loading a type again comes to.
-/

namespace StubWriter

open Run

namespace Library

variable {given : List (String × CompilationUnit)} {roots : List Path} {tree : FileTree}
  {name : String}

/-- A type that a unit declares under a name. -/
def Declares (unit : CompilationUnit) (origin name : String) (t : TypeInfo) : Prop :=
  ∃ d ∈ unit.declared, d.fullName = name ∧ d.Shapes unit.packageName origin t

/-- A type of a unit that was read according to some events. -/
def Reread (roots : List Path) (tree : FileTree) (name : String) (t : TypeInfo)
    (events : List Event) : Prop :=
  ∃ asked origin unit, Event.loading asked origin ∈ events ∧
    sourceIn roots tree asked = .ok (some ⟨.ok unit, origin⟩) ∧ Declares unit origin name t

/-- What was reported from one library to another one. -/
def since (l l' : Library) : List Event :=
  l'.log.drop l.log.length

theorem since_trans {l l' l'' : Library} (h : l.log <+: l'.log) (h' : l'.log <+: l''.log) :
    since l l'' = since l l' ++ since l' l'' := by
  obtain ⟨events, h⟩ := h
  obtain ⟨events', h'⟩ := h'
  simp [since, ← h', ← h]

theorem Reread.mono {t : TypeInfo} {events events' : List Event} (h : Reread roots tree name t events)
    (hevents : events ⊆ events') : Reread roots tree name t events' := by
  obtain ⟨asked, origin, unit, hevent, hsource⟩ := h
  exact ⟨asked, origin, unit, hevents hevent, hsource⟩

/-- A loaded type stays loaded, and is the same or was read again. -/
structure Keeps (given : List (String × CompilationUnit)) (roots : List Path) (tree : FileTree)
    (name : String) (l l' : Library) : Prop where
  stocks : Stocks given roots tree l l'
  type : Stocked given roots tree l → ∀ t, l.graph.get? name = some t →
    ∃ t', l'.graph.get? name = some t' ∧ (t' = t ∨ Reread roots tree name t' (since l l'))

instance : Std.Refl (Keeps given roots tree name) :=
  ⟨fun l => ⟨Std.Refl.refl l, fun _ t ht => ⟨t, ht, .inl rfl⟩⟩⟩

instance : IsTrans Library (Keeps given roots tree name) := by
  refine ⟨fun l l' l'' h h' => ⟨IsTrans.trans _ _ _ h.stocks h'.stocks, fun hl t ht => ?_⟩⟩
  have hsince := since_trans h.stocks.grows.log h'.stocks.grows.log
  obtain ⟨t', ht', hkept⟩ := h.type hl t ht
  obtain ⟨t'', ht'', hkept'⟩ := h'.type (h.stocks.stocked hl) t' ht'
  refine ⟨t'', ht'', ?_⟩
  rw [hsince]
  obtain rfl | hreread := hkept'
  · exact hkept.imp_right fun hreread => hreread.mono (List.subset_append_left _ _)
  · exact .inr (hreread.mono (List.subset_append_right _ _))

theorem Recalls.keeps {l l' : Library} (h : l.Recalls l') : Keeps given roots tree name l l' :=
  ⟨h.stocks, fun _ t ht => ⟨t, h.graph ▸ ht, .inl rfl⟩⟩

/-! ## Loading -/

/-- What registering a unit does to a loaded type. -/
structure Replaces (unit : CompilationUnit) (origin name : String) (l l' : Library) : Prop where
  log : l.log <+: l'.log
  type : ∀ t, l.graph.get? name = some t →
    ∃ t', l'.graph.get? name = some t' ∧ (t' = t ∨ Declares unit origin name t')

variable {unit : CompilationUnit} {origin : String}

instance : Std.Refl (Replaces unit origin name) :=
  ⟨fun _ => ⟨List.prefix_rfl, fun t ht => ⟨t, ht, .inl rfl⟩⟩⟩

instance : IsTrans Library (Replaces unit origin name) := by
  refine ⟨fun l l' l'' h h' => ⟨h.log.trans h'.log, fun t ht => ?_⟩⟩
  obtain ⟨t', ht', hkept⟩ := h.type t ht
  obtain ⟨t'', ht'', rfl | hnew⟩ := h'.type t' ht'
  · exact ⟨t'', ht'', hkept⟩
  · exact ⟨t'', ht'', .inr hnew⟩

theorem replaces_takeIn {d : Declared} (hd : d ∈ unit.declared) (l : Library) {t : TypeInfo}
    (ht : d.Shapes unit.packageName origin t) : Replaces unit origin name l (l.takeIn d t) := by
  refine ⟨List.prefix_rfl, fun t' ht' => ?_⟩
  rw [takeIn, TypeGraph.get?_addType]
  split
  · rename_i hname
    exact ⟨t, rfl, .inr ⟨d, hd, hname ▸ ht.name.symm, ht⟩⟩
  · exact ⟨t', ht', .inl rfl⟩

theorem moves_replaces (unit : CompilationUnit) (origin name : String) :
    Moves (Replaces unit origin name) (register unit origin) :=
  moves_registerAll (fun _ _ h => ⟨h.log, fun t ht => ⟨t, h.graph ▸ ht, .inl rfl⟩⟩)
    fun _ hd l _ ht => replaces_takeIn hd l ht

instance (asked : String) : Moves (Keeps given roots tree name) (fetch asked) := by
  have hstocks : Moves (Stocks given roots tree) (fetch asked) := inferInstance
  have hrecalls : Moves Recalls (findSource? asked) := inferInstance
  suffices htype : Moves (fun l l' => Stocked given roots tree l →
      ∀ t, l.graph.get? name = some t → ∃ t', l'.graph.get? name = some t' ∧
        (t' = t ∨ Reread roots tree name t' (since l l'))) (fetch asked) from
    ⟨fun l => ⟨hstocks.moves l, htype.moves l⟩⟩
  have hfind : Moves (Keeps given roots tree name) (findSource? asked) :=
    hrecalls.mono fun _ _ => Recalls.keeps
  refine moves_bind_from (hfind.mono fun _ _ h => h.type) fun l source? l' hrun hkept hl t ht => ?_
  have hlog : l.log <+: l'.log := by
    have := (hrecalls.moves l).log
    rwa [hrun] at this
  cases source? with
  | none => exact hkept hl t ht
  | some source =>
    obtain ⟨t', ht', hkept⟩ := hkept hl t ht
    -- The library in which the source is registered.
    let told : Library := { l' with log := l'.log ++ [.loading asked source.origin] }
    change ∃ t', (stateAfter (registerSource source told)).graph.get? name = some t' ∧
      (t' = t ∨ Reread roots tree name t' (since l (stateAfter (registerSource source told))))
    have hloading : .loading asked source.origin ∈ since l told := by
      obtain ⟨events, hlog⟩ := hlog
      simp [since, told, ← hlog]
    have htold : l'.log <+: told.log := List.prefix_append _ _
    have hearlier := since_trans hlog htold
    unfold registerSource
    cases hunit : source.unit with
    | error fault =>
      refine ⟨t', ht', hkept.imp_right fun hreread => hreread.mono ?_⟩
      exact hearlier ▸ List.subset_append_left _ _
    | ok unit =>
      have hreplaces := (moves_replaces unit source.origin name).moves told
      obtain ⟨t'', ht'', hnew⟩ := hreplaces.type t' ht'
      have hsince := since_trans (hlog.trans htold) hreplaces.log
      refine ⟨t'', ht'', ?_⟩
      dsimp only
      rw [hsince]
      obtain rfl | hdeclares := hnew
      · refine hkept.imp_right fun hreread => hreread.mono fun e he => ?_
        exact List.mem_append_left _ (hearlier ▸ List.mem_append_left _ he)
      · refine .inr ⟨asked, source.origin, unit, List.mem_append_left _ hloading, ?_, hdeclares⟩
        rw [findSource?_ok hl.based hrun, ← hunit]

instance (asked : String) : Moves (Keeps given roots tree name) (standing asked) := by
  have hstocks : Moves (Stocks given roots tree) (standing asked) := inferInstance
  refine ⟨fun l => ⟨hstocks.moves l, fun _ t ht => ?_⟩⟩
  suffices h : (stateAfter (standing asked l)).graph = l.graph from ⟨t, h ▸ ht, .inl rfl⟩
  change (stateAfter ((match l.graph.get? asked with
    | some type => pure type
    | none => _ : Lookup TypeInfo) l)).graph = l.graph
  cases l.graph.get? asked <;> rfl

instance (e : Event) : Moves (Keeps given roots tree name) (report e) :=
  Moves.mono (R := Recalls) inferInstance fun _ _ => Recalls.keeps

instance (asked : String) : Moves (Keeps given roots tree name) (exists? asked) :=
  Moves.mono (R := Recalls) inferInstance fun _ _ => Recalls.keeps

end Library

/-! ## Sessions -/

theorem Query.perform_load (name : String) (w : Walk Library) :
    outcome ((about (.load name)).perform w) =
      (outcome (Library.load name w.types)).map Answer.type ∧
      (stateAfter ((about (.load name)).perform w)).types =
        stateAfter (Library.load name w.types) := by
  change outcome (EStateM.bind (Walk.lift (Library.load name)) _ w) = _ ∧
    (stateAfter (EStateM.bind (Walk.lift (Library.load name)) _ w)).types = _
  unfold EStateM.bind Walk.lift
  cases Library.load name w.types <;> exact ⟨rfl, rfl⟩

namespace Library

variable {files : List (String × String)} {roots : List Path} {tree : FileTree} {l : Library}

/-- A type that was loaded is found again however long the session goes on. It is the same one,
unless a unit that declares its name was read in between. -/
theorem load_again (hmade : ofFiles roots tree files = .ok () l) {before : List Query}
    {name : String} {t : TypeInfo}
    (hload : outcome ((Query.about (.load name)).perform ((Inspection.start l).follow before)) =
      .ok (.type t)) (later : List Query) :
    let w := (Inspection.start l).follow (before ++ [.about (.load name)])
    ∃ t', outcome ((Query.about (.load name)).perform (w.follow later)) = .ok (.type t') ∧
      (t' = t ∨ Reread roots tree name t' (w.types.since (w.follow later).types)) := by
  intro w
  let w₀ := (Inspection.start l).follow before
  have hw : w.types = stateAfter (load name w₀.types) := by
    have hfollow : w = stateAfter ((Query.about (.load name)).perform w₀) := by
      simp [w, w₀, Walk.follow]
    rw [hfollow, (Query.perform_load name w₀).2]
  obtain ⟨l', hrun⟩ : ∃ l', load name w₀.types = .ok t l' := by
    rw [(Query.perform_load name w₀).1] at hload
    cases hrun : load name w₀.types with
    | error f l' =>
      rw [hrun] at hload
      cases hload
    | ok t' l' =>
      rw [hrun] at hload
      cases hload
      exact ⟨l', rfl⟩
  rw [hrun] at hw
  change w.types = l' at hw
  cases hprimitive : isPrimitiveName name with
  | true =>
    have hload : ∀ l, load name l = .ok (.ofPrimitive name) l := by
      intro l
      unfold load
      rw [hprimitive]
      rfl
    have ht : t = .ofPrimitive name :=
      (EStateM.Result.ok.inj (hrun.symm.trans (hload w₀.types))).1
    refine ⟨t, ?_, .inl rfl⟩
    rw [(Query.perform_load name _).1, hload, ht]
    rfl
  | false =>
    have hstocked : Stocked (readUnits files).1 roots tree w.types :=
      (Walk.follow_moves (R := Stocks (readUnits files).1 roots tree) _
        (Inspection.start l)).stocked (ofFiles_stocked hmade)
    have ht : w.types.graph.get? name = some t := hw ▸ load_ok name _ _ _ hrun hprimitive
    obtain ⟨t', ht', hkept⟩ :=
      (Walk.follow_moves (R := Keeps (readUnits files).1 roots tree name) later w).type hstocked t ht
    refine ⟨t', ?_, hkept⟩
    rw [(Query.perform_load name _).1, load_held hprimitive ht']
    rfl

/-- An interface that names a type of an imported package, and a unit that declares a type of that
name in the package of the interface. -/
def shadowed : FileTree :=
  .ofTexts [(["s", "p", "A.java"], "package p; import java.util.*; interface A { List f(); }"),
    (["s", "p", "C.java"], "package p; class C { } class List { }")]

def shadowedLibrary : Library :=
  ofUnits [⟨0, ["s"]⟩] shadowed []

/-- The method of the interface. -/
def shadowedMethod (returns : String) : Method where
  declaringType := "p.A"
  name := "f"
  returns
  params := []
  throws := []
  visibility := .pub
  isAbstract := true
  isStatic := false
  isFinal := false

def shadowedType (returns : String) : TypeInfo where
  name := "p.A"
  simpleName := "A"
  kind := .interfaceType
  package := "p"
  visibility := .pkg
  modifiers := []
  superclass := none
  interfaces := []
  constructors := []
  methods := [shadowedMethod returns]
  sourceFile := some "s/p/A.java"

def shadowing : List Query :=
  [.about (.load "p.C"), .about (.load "p.A.X")]

theorem shadowed_made : ofFiles [⟨0, ["s"]⟩] shadowed [] = .ok () shadowedLibrary :=
  rfl

theorem shadowed_facts :
    outcome ((Query.about (.load "p.A")).perform ((Inspection.start shadowedLibrary).follow [])) =
      .ok (.type (shadowedType "java.util.List")) ∧
    outcome ((Query.about (.load "p.A")).perform
      (((Inspection.start shadowedLibrary).follow ([] ++ [.about (.load "p.A")])).follow
        shadowing)) = .ok (.type (shadowedType "p.List")) := by
  decide +kernel

theorem load_again_shadowed :
    let w := (Inspection.start shadowedLibrary).follow ([] ++ [.about (.load "p.A")])
    ∃ t', outcome ((Query.about (.load "p.A")).perform (w.follow shadowing)) = .ok (.type t') ∧
      (t' = shadowedType "java.util.List" ∨
        Reread [⟨0, ["s"]⟩] shadowed "p.A" t' (w.types.since (w.follow shadowing).types)) :=
  load_again shadowed_made shadowed_facts.1 shadowing

/-- The search for a type in a unit that is loaded already changes the types of that unit, if a name
in it means another type by then. -/
theorem not_load_again : ¬ ∀ (files : List (String × String)) (roots : List Path) (tree : FileTree)
    (l : Library), ofFiles roots tree files = .ok () l →
    ∀ (before : List Query) (name : String) (t : TypeInfo),
      outcome ((Query.about (.load name)).perform ((Inspection.start l).follow before)) =
        .ok (.type t) → ∀ later : List Query,
      outcome ((Query.about (.load name)).perform
        (((Inspection.start l).follow (before ++ [.about (.load name)])).follow later)) =
          .ok (.type t) := by
  intro h
  have hsame := h _ _ _ _ shadowed_made [] _ _ shadowed_facts.1 shadowing
  have hchanged := shadowed_facts.2.symm.trans hsame
  exact absurd hchanged (by decide)

end Library

end StubWriter
