import StubWriter.Generation
import StubWriter.Proofs.Library.Given
import StubWriter.Proofs.Library.Stock

/-!
# Answers that depend on neither order nor history

A library that is made of texts alone answers the same questions the same way, in whatever order the
texts are given and whatever was asked before, as long as no name is declared twice and no type is
above itself. Three things stand in the way of more: nothing but itself may be above
`java.lang.Object`, since the search for supertypes stops there; which unit is at fault may change
when several are; and a name that is listed but has no unit does not exist any longer once it was
looked for.

* `Question`, `Walk.after`: sessions with a library.
* `ask_invariant`: the answer to a question.
-/

namespace StubWriter

open Run

/-! ## Sessions -/

inductive Question where
  | load (name : String)
  | levels (name : String)
  | resolve (name : String)
  | isAssignable (target source : String)
  deriving DecidableEq, Repr

inductive Answer where
  | type (t : TypeInfo)
  | levels (found : List Level)
  | resolution (r : Resolution)
  | verdict (assignable : Bool)
  deriving DecidableEq, Repr

def Question.ask : Question → Inspection Answer
  | .load name => do return .type (← Inspection.load name)
  | .levels name => do return .levels (← Inspection.levels (← Inspection.load name))
  | .resolve name => do return .resolution (← Inspection.resolve name)
  | .isAssignable target source => do return .verdict (← Inspection.isAssignable target source)

/-- A session after some more questions, whatever they came to. -/
def Walk.after (w : Walk Library) (history : List Question) : Walk Library :=
  history.foldl (fun w q => stateAfter (q.ask w)) w

namespace Library

/-- Makes a library of texts. -/
def ofTexts (tree : FileTree) (files : List (String × String)) :
    EStateM.Result Failure Library Unit :=
  registerUnits (readUnits files).1 (ofUnits [] tree (readUnits files).1)

/-- `b` is a type of which the view of `a` is made. -/
def Leads (l : Library) (a b : String) : Prop :=
  ∃ t, outcome (load a l) = .ok t ∧ b ∈ Walk.parents t

/-- No type is above itself, and nothing but itself is above `java.lang.Object`. -/
structure Orderly (l : Library) : Prop where
  acyclic : ∀ name, ¬ Relation.TransGen l.Leads name name
  object : ∀ t, outcome (load objectName l) = .ok t → ∀ name ∈ t.supertypes, name = objectName

/-! ## Texts and their units -/

theorem readUnits_perm {files files' : List (String × String)} (h : files.Perm files') :
    (readUnits files).1.Perm (readUnits files').1 := by
  rw [readUnits_eq, readUnits_eq]
  exact h.filterMap _

theorem readUnits_proper {files : List (String × String)} {p : String × CompilationUnit}
    (hp : p ∈ (readUnits files).1) : ∃ n, p.2.Proper n := by
  obtain ⟨text, -, hu⟩ := mem_readUnits.mp hp
  exact ⟨_, CompilationUnit.ofText_proper hu⟩

theorem names_of_texts {files : List (String × String)} {name : String}
    (hname : name ∈ namesOf (readUnits files).1) :
    isPrimitiveName name = false ∧ elementName name = name := by
  obtain ⟨p, hp, d, hd, rfl⟩ := mem_namesOf.mp hname
  obtain ⟨n, hproper⟩ := readUnits_proper hp
  exact ⟨hproper.not_primitive hd, hproper.element hd⟩

end Library

/-! ## Answers -/

open Library

section Supplied

variable {W : World Library} {T : LoadTable} {rel : String → String → Except Failure Bool}
  {rank : String → Nat}

/-- Every question has one answer in all sessions with libraries of a world. -/
theorem Question.ask_fixed (h : W.Supplies T rel rank Library.supply) (hrank : T.Ranked rank)
    (q : Question) : ∃ v, (W.walk T).Gives q.ask v := by
  have hfixed : Fixed (fun _ : Unit => W.walk T) fun _ => q.ask := by
    have hsupplies : ∀ _ : Unit, W.Supplies T rel rank Library.supply := fun _ => h
    have hload : ∀ name, Alike (fun _ : Unit => W.walk T) (fun _ => Inspection.load name)
        fun t => T name = .ok t :=
      fun name => ⟨T name, fun _ ht => ht, fun _ => Walk.lift_gives (h.serves.gives name)⟩
    cases q with
    | load name => exact alike_bind (hload name) fun t _ => fixed_pure _
    | levels name =>
      refine alike_bind (hload name) fun t ht => ?_
      exact alike_bind (TypeSupply.levels_fixed hsupplies hrank ht) fun found _ => fixed_pure _
    | resolve name =>
      exact fixed_bind (TypeSupply.resolve_fixed hsupplies hrank name) fun r => fixed_pure _
    | isAssignable target source =>
      have hcompared : Fixed (fun _ : Unit => W.walk T) fun _ =>
          Inspection.isAssignable target source :=
        fixed_of_gives _ fun _ => Walk.lift_gives (h.compared target source)
      exact fixed_bind hcompared fun _ => fixed_pure _
  obtain ⟨v, -, hv⟩ := hfixed
  exact ⟨v, hv ()⟩

/-- Sessions stay in their world. -/
theorem Walk.after_inv (h : W.Supplies T rel rank Library.supply) (hrank : T.Ranked rank)
    {w : Walk Library} (hw : (W.walk T).inv w) (history : List Question) :
    (W.walk T).inv (w.after history) := by
  induction history generalizing w with
  | nil => exact hw
  | cons q qs ih =>
    obtain ⟨v, hv⟩ := q.ask_fixed h hrank
    exact ih (hv w hw).1

end Supplied

/-- An inspection of given texts alone is one of the library that is made of them. -/
theorem inspect_eq {α : Type} (files : List (String × String)) (compiler : Compiler)
    (w : Workshop) (x : Inspection α) :
    outcome ((Generator.mk [] files compiler).inspect [] x w) =
      match ofTexts w.tree files with
      | .ok _ l => outcome (x (Inspection.start l))
      | .error f _ => .error f := by
  have hlookup : (Inspection.lookup (registerUnits (readUnits files).1) *> x)
      (Inspection.start (ofUnits ([] ++ []) w.tree (readUnits files).1)) =
        match ofTexts w.tree files with
        | .ok _ l => x (Inspection.start l)
        | .error f l => .error f (Inspection.start l) := by
    change EStateM.seqRight _ _ (Inspection.start (ofUnits [] w.tree _)) = _
    simp only [EStateM.seqRight, Inspection.lookup, Walk.lift, Inspection.start]
    change _ = (match registerUnits (readUnits files).1 (ofUnits [] w.tree (readUnits files).1) with
      | .ok _ l => x ⟨l, []⟩
      | .error f l => .error f ⟨l, []⟩)
    cases registerUnits (readUnits files).1 (ofUnits [] w.tree (readUnits files).1) <;> rfl
  unfold Generator.inspect
  dsimp only
  rw [hlookup]
  cases ofTexts w.tree files with
  | ok _ l =>
    dsimp only
    cases x (Inspection.start l) <;> rfl
  | error f l => rfl

theorem render_eq (files : List (String × String)) (compiler : Compiler) (w : Workshop)
    (name : String) :
    outcome ((Generator.mk [] files compiler).render name w) =
      (outcome ((Generator.mk [] files compiler).inspect [] (Inspection.resolve name) w)).map
        fun r => (r, Generator.textOf r) := by
  unfold Generator.render
  change outcome (EStateM.bind _ _ _) = _
  unfold EStateM.bind Generator.resolve
  cases (Generator.mk [] files compiler).inspect [] (Inspection.resolve name) w <;> rfl

/-- A stub of given texts alone is what the resolution in the library of the texts makes of it. -/
theorem render_ofTexts {files : List (String × String)} {w : Workshop} {l : Library}
    (hmade : ofTexts w.tree files = .ok () l) (compiler : Compiler) (name : String) :
    outcome ((Generator.mk [] files compiler).render name w) =
      (outcome (Inspection.resolve name (Inspection.start l))).map
        fun r => (r, Generator.textOf r) := by
  rw [render_eq, inspect_eq, hmade]

/-- There is no stub without the library. -/
theorem render_ok {files : List (String × String)} {compiler : Compiler} {w : Workshop}
    {name text : String} {r : Resolution}
    (hrun : outcome ((Generator.mk [] files compiler).render name w) = .ok (r, text)) :
    ∃ l, ofTexts w.tree files = .ok () l ∧
      outcome (Inspection.resolve name (Inspection.start l)) = .ok r ∧
        text = Generator.textOf r := by
  rw [render_eq, inspect_eq] at hrun
  cases hmade : ofTexts w.tree files with
  | error f l =>
    rw [hmade] at hrun
    cases hrun
  | ok _ l =>
    rw [hmade] at hrun
    dsimp only at hrun
    cases hr : outcome (Inspection.resolve name (Inspection.start l)) with
    | error f =>
      rw [hr] at hrun
      cases hrun
    | ok r' =>
      rw [hr] at hrun
      cases hrun
      exact ⟨l, rfl, hr, rfl⟩

/-- The answer to a question depends neither on the order of the texts nor on what was asked before,
and neither does the text of a stub. -/
theorem ask_invariant {files files' : List (String × String)} (hfiles : files.Perm files')
    (tree tree' : FileTree) (hnodup : (namesOf (readUnits files).1).Nodup)
    (horderly : ∀ l, ofTexts tree files = .ok () l → l.Orderly)
    (hexceptions : "java.lang.IOException" ∈ namesOf (readUnits files).1 →
      "java.io.IOException" ∈ namesOf (readUnits files).1 ∨
        "java.io.Closeable" ∈ namesOf (readUnits files).1) :
    ((∃ f, outcome (ofTexts tree files) = .error f) ↔
        ∃ f, outcome (ofTexts tree' files') = .error f) ∧
      ∀ l l', ofTexts tree files = .ok () l → ofTexts tree' files' = .ok () l' →
        (∀ history history' (q : Question),
          outcome (q.ask ((Inspection.start l).after history)) =
            outcome (q.ask ((Inspection.start l').after history'))) ∧
        ∀ compiler compiler' log log' calls calls' name,
          outcome ((Generator.mk [] files compiler).render name ⟨tree, log, calls⟩) =
            outcome ((Generator.mk [] files' compiler').render name ⟨tree', log', calls'⟩) := by
  let units := (readUnits files).1
  have hunits : (readUnits files').1.Perm units := (readUnits_perm hfiles).symm
  obtain ⟨T, hT⟩ := exists_tells units hnodup fun name hname => (names_of_texts hname).1
  have hfirm : Firm (namesOf units) fun _ _ => True :=
    fun h h' => .inl ((hexceptions h).resolve_right h')
  refine ⟨(registerUnits_fails_iff hT (.refl units) tree).trans
    (registerUnits_fails_iff hT hunits tree').symm, fun l l' hl hl' => ?_⟩
  -- Both libraries belong to the world of the table.
  have hkept : ∀ {l : Library}, (kept T units (· = [])).inv l →
      (kept T units fun _ => True).inv l := fun h => ⟨h.1, trivial, h.2.2⟩
  have hstart := hkept (registerUnits_kept hT (.refl units) hl)
  have hstart' := hkept (registerUnits_kept hT hunits hl')
  have hgives : ∀ name, outcome (load name l) = T name := fun name =>
    (World.ends_of_gives (fun _ h => h) (load_kept hT hfirm (fun _ _ _ => trivial)
      fun _ _ _ _ => trivial) l hstart).2
  have horderly := horderly l hl
  have hacyclic : ∀ name, ¬ Relation.TransGen T.Leads name name := by
    intro name h
    have hleads : ∀ a b, T.Leads a b → l.Leads a b :=
      fun a b ⟨t, ht, hb⟩ => ⟨t, (hgives a).trans ht, hb⟩
    exact horderly.acyclic name (Relation.TransGen.mono hleads _ _ h)
  have htame := hT.tame (fun name hname => (names_of_texts hname).2)
    fun t ht => horderly.object t ((hgives objectName).trans ht)
  obtain ⟨rank, hrank, hbound⟩ := hT.exists_ranked hacyclic
  have hsupplies := kept_supplies hT hfirm htame hbound
  have hwalk : ∀ {l : Library}, (kept T units fun _ => True).inv l →
      ((kept T units fun _ => True).walk T).inv (Inspection.start l) :=
    fun h => TypeTable.remembers_start h
  refine ⟨fun history history' q => ?_, fun compiler compiler' log log' calls calls' name => ?_⟩
  · obtain ⟨v, hv⟩ := q.ask_fixed hsupplies hrank
    have hv := World.ends_of_gives (fun _ h => h) hv
    have hafter := Walk.after_inv hsupplies hrank (hwalk hstart) history
    have hafter' := Walk.after_inv hsupplies hrank (hwalk hstart') history'
    exact (hv _ hafter).2.trans (hv _ hafter').2.symm
  · obtain ⟨v, -, hv⟩ := TypeSupply.resolve_fixed (fun _ : Unit => hsupplies) hrank name
    have hv := World.ends_of_gives (fun _ h => h) (hv ())
    have hresolve : outcome (Inspection.resolve name (Inspection.start l)) =
        outcome (Inspection.resolve name (Inspection.start l')) :=
      (hv _ (hwalk hstart)).2.trans (hv _ (hwalk hstart')).2.symm
    have hrender := render_ofTexts (w := ⟨tree, log, calls⟩) hl compiler name
    have hrender' := render_ofTexts (w := ⟨tree', log', calls'⟩) hl' compiler' name
    rw [hrender, hrender', hresolve]

/-! ## Checking that no type is above itself -/

namespace Library

/-- `b` is a direct supertype of `a`. -/
def Above (l : Library) (a b : String) : Prop :=
  ∃ t, outcome (load a l) = .ok t ∧ b ∈ t.supertypes

theorem Leads.above {l : Library} {a b : String} (h : l.Leads a b) : l.Above a b := by
  obtain ⟨t, ht, hb⟩ := h
  exact ⟨t, ht, Walk.parents_subset t hb⟩

/-- Whether a rank of each of the names exceeds those of its supertypes. -/
def ranks (l : Library) (rank : String → Nat) (names : List String) : Bool :=
  names.all fun name =>
    match outcome (load name l) with
    | .ok t => t.supertypes.all fun b => rank b < rank name
    | .error _ => true

theorem Above.rank_lt {l : Library} {rank : String → Nat} {names : List String}
    (h : l.ranks rank names = true) {a b : String} (ha : a ∈ names) (hab : l.Above a b) :
    rank b < rank a := by
  obtain ⟨t, ht, hb⟩ := hab
  have hname := List.all_eq_true.mp h a ha
  rw [ht] at hname
  simpa using List.all_eq_true.mp hname b hb

/-- In a library of texts, only the types of the texts and of the platform need a rank. -/
theorem acyclic_of_ranks {tree : FileTree} {files : List (String × String)} {l : Library}
    (hmade : ofTexts tree files = .ok () l) (hnodup : (namesOf (readUnits files).1).Nodup)
    (rank : String → Nat)
    (hranks : l.ranks rank (namesOf (readUnits files).1 ++ Platform.units.map Prod.fst) = true)
    (name : String) : ¬ Relation.TransGen l.Above name name := by
  obtain ⟨T, hT⟩ := exists_tells _ hnodup fun name hname => (names_of_texts hname).1
  have hkept := registerUnits_kept hT (.refl _) hmade
  have hstep : ∀ a b, l.Above a b → rank b < rank a := by
    intro a b hab
    refine hab.rank_lt hranks ?_
    obtain ⟨t, ht, hb⟩ := hab
    by_contra hunknown
    obtain ⟨hname, hplatform⟩ := not_or.mp fun h => hunknown (List.mem_append.mpr h)
    have hnot : isPlatform a = false := by
      by_contra h
      obtain ⟨u, hu⟩ := Option.isSome_iff_exists.mp (Bool.eq_true_of_not_eq_false h)
      exact hplatform (List.mem_map_of_mem (Platform.mem_units hu))
    cases hprimitive : isPrimitiveName a with
    | true =>
      have hload : load a l = .ok (.ofPrimitive a) l := by
        unfold load
        rw [hprimitive]
        rfl
      rw [hload] at ht
      cases ht
      cases hb
    | false => exact nomatch (load_unknown hkept.1 hprimitive hname hnot).symm.trans ht
  have hless : ∀ a b, Relation.TransGen l.Above a b → rank b < rank a := by
    intro a b h
    induction h with
    | single h => exact hstep _ _ h
    | tail _ h ih => exact (hstep _ _ h).trans ih
  exact fun h => Nat.lt_irrefl _ (hless name name h)

/-- An interface and a class that implements it along with one of the platform. -/
def pair : List (String × String) :=
  [("p/A.java", "package p; public interface A { void f(); }"),
    ("p/B.java", "package p; public abstract class B implements A, java.io.Closeable { }")]

def pairLibrary : Library :=
  stateAfter (ofTexts .empty pair)

/-- All supertypes of a name come before it. -/
def pairRank (name : String) : Nat :=
  if name = "p.B" then 2 else if name ∈ ["java.io.Closeable", "java.lang.Enum"] then 1 else 0

theorem pair_facts : outcome (ofTexts .empty pair) = .ok () ∧
    (namesOf (readUnits pair).1).Nodup ∧
    "java.lang.IOException" ∉ namesOf (readUnits pair).1 ∧
    pairLibrary.ranks pairRank
      (namesOf (readUnits pair).1 ++ Platform.units.map Prod.fst) = true ∧
    outcome (load objectName pairLibrary) = .error (.typeNotFound objectName) ∧
    outcome (ofTexts .empty pair.reverse) = .ok () := by
  decide +kernel

theorem pair_made : ofTexts .empty pair = .ok () pairLibrary :=
  eq_ok_of_outcome pair_facts.1

theorem pair_orderly : pairLibrary.Orderly := by
  obtain ⟨-, hnodup, -, hranks, hobject, -⟩ := pair_facts
  refine ⟨fun name h => ?_, fun t ht => nomatch hobject.symm.trans ht⟩
  exact acyclic_of_ranks pair_made hnodup pairRank hranks name
    (Relation.TransGen.mono (fun a b => Leads.above) _ _ h)

theorem ask_invariant_pair : ∃ l', ofTexts .empty pair.reverse = .ok () l' ∧
    outcome (Question.ask (.resolve "p.B") ((Inspection.start pairLibrary).after [])) =
      outcome (Question.ask (.resolve "p.B")
        ((Inspection.start l').after [.load "q.C", .isAssignable "p.A" "p.B"])) := by
  obtain ⟨-, hnodup, hexceptions, -, -, hmade'⟩ := pair_facts
  have hmade' := eq_ok_of_outcome hmade'
  have horderly : ∀ l, ofTexts .empty pair = .ok () l → l.Orderly := by
    intro l hl
    cases pair_made.symm.trans hl
    exact pair_orderly
  exact ⟨_, hmade', ((ask_invariant (List.reverse_perm pair).symm .empty .empty hnodup horderly
    fun h => absurd h hexceptions).2 _ _ pair_made hmade').1 _ _ _⟩

/-- Texts that put a type above `java.lang.Object`. -/
def raised : List (String × String) :=
  [("java/lang/Object.java", "package java.lang; public interface Object extends java.io.Closeable { }"),
    ("A.java", "class A { }")]

def raisedLibrary : Library :=
  stateAfter (ofTexts .empty raised)

def raisedLater : Library :=
  stateAfter (load "java.io.Closeable" raisedLibrary)

/-- All supertypes of a name come before it. -/
def raisedRank (name : String) : Nat :=
  ["java.lang.AutoCloseable", "java.lang.Comparable", "java.io.Serializable", "java.io.Closeable",
    "java.lang.Object", "java.lang.Enum", "A"].idxOf name

/-- The edges of the library of these texts, and those after the type above `java.lang.Object` was
loaded. -/
theorem raised_facts : outcome (ofTexts .empty raised) = .ok () ∧
    (namesOf (readUnits raised).1).Nodup ∧
    raisedLibrary.ranks raisedRank
      (namesOf (readUnits raised).1 ++ Platform.units.map Prod.fst) = true ∧
    0 < raisedLibrary.extent ∧ (raisedLibrary.graph.get? "A").map TypeInfo.supertypes = some [objectName] ∧
    raisedLibrary.graph.nodes.length = 3 ∧ raisedLibrary.graph.targets "A" = ["java.lang.Object"] ∧
    raisedLibrary.graph.targets "java.lang.Object" = ["java.io.Closeable"] ∧
    raisedLibrary.graph.targets "java.io.Closeable" = [] ∧
    0 < raisedLater.extent ∧ (raisedLater.graph.get? "A").map TypeInfo.supertypes = some [objectName] ∧
    raisedLater.graph.nodes.length = 4 ∧ raisedLater.graph.targets "A" = ["java.lang.Object"] ∧
    raisedLater.graph.targets "java.lang.Object" = ["java.io.Closeable"] ∧
    raisedLater.graph.targets "java.io.Closeable" = ["java.lang.AutoCloseable"] ∧
    raisedLater.graph.targets "java.lang.AutoCloseable" = [] := by
  decide +kernel

theorem ask_assignable_top {l : Library}
    (habove : (l.graph.get? "A").map TypeInfo.supertypes = some [objectName])
    (hextent : 0 < l.extent) :
    outcome (Question.ask (.isAssignable "java.lang.AutoCloseable" "A") (Inspection.start l)) =
      .ok (.verdict ((l.graph.ancestors "A").contains "java.lang.AutoCloseable")) := by
  obtain ⟨t, ht, habove⟩ := Option.map_eq_some_iff.mp habove
  have hrun := isAssignable_top (by decide) (by decide) (by decide) ht habove hextent
    "java.lang.AutoCloseable"
  rw [TypeGraph.isAssignable_name _ (by decide) (by decide) (by decide) (by decide)] at hrun
  change outcome (EStateM.bind (Walk.lift (isAssignable "java.lang.AutoCloseable" "A")) _
    (Inspection.start l)) = _
  unfold EStateM.bind Walk.lift Inspection.start
  rw [hrun]
  rfl

/-- What was loaded before matters where a type stands above `java.lang.Object`: its supertypes are
not loaded for a comparison, but they count once they are loaded. -/
theorem not_ask_invariant : ¬ ∀ (files files' : List (String × String)) (tree tree' : FileTree),
    files.Perm files' → (namesOf (readUnits files).1).Nodup →
    (∀ l, ofTexts tree files = .ok () l → ∀ name, ¬ Relation.TransGen l.Above name name) →
    ∀ l l', ofTexts tree files = .ok () l → ofTexts tree' files' = .ok () l' →
      ∀ history history' (q : Question),
        outcome (q.ask ((Inspection.start l).after history)) =
          outcome (q.ask ((Inspection.start l').after history')) := by
  intro h
  obtain ⟨hmade, hnodup, hranks, hextent, hsource, hlength, hA, hobject, hcloseable, hextent',
    hsource', hedges'⟩ := raised_facts
  have hmade : ofTexts .empty raised = .ok () raisedLibrary := eq_ok_of_outcome hmade
  have hacyclic : ∀ l, ofTexts .empty raised = .ok () l →
      ∀ name, ¬ Relation.TransGen l.Above name name := by
    intro l hl
    cases hmade.symm.trans hl
    exact acyclic_of_ranks hmade hnodup raisedRank hranks
  have hanswers := h raised raised .empty .empty (.refl _) hnodup hacyclic _ _ hmade hmade []
    [.load "java.io.Closeable"] (.isAssignable "java.lang.AutoCloseable" "A")
  have hafter : (Inspection.start raisedLibrary).after [.load "java.io.Closeable"] =
      Inspection.start raisedLater := by
    change stateAfter (EStateM.bind (Walk.lift (load "java.io.Closeable")) _
      (Inspection.start raisedLibrary)) = _
    unfold raisedLater EStateM.bind Walk.lift Inspection.start
    cases load "java.io.Closeable" raisedLibrary <;> rfl
  rw [hafter, Walk.after, List.foldl_nil, ask_assignable_top hsource hextent,
    ask_assignable_top hsource' hextent'] at hanswers
  simp [TypeGraph.ancestors, TypeGraph.visit, hlength, hA, hobject, hcloseable, hedges']
    at hanswers

end Library

end StubWriter
