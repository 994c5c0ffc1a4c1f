import StubWriter.Proofs.Library.ShelfStages

/-!
# Stubs of units in memory and in a directory

A generator finds the same units in memory and in a directory. In memory it knows all that they
declare, in the directory it reads them one by one, by the names of their files. What it makes of them
is the same, as long as the units are found in their files.

* `render_shelved`: a stub that is made of units in memory is made of their directory as well.
* `not_render_shelved`: a nested type that is asked for by its simple name has no file of its own.
-/

namespace StubWriter

open Run Library

/-- A generator without units of its own asks a fresh library over its roots. -/
theorem Generator.render_comes {roots : List Path} {compiler : Compiler} {tree : FileTree}
    {name : String} {P : Except Failure Resolution → Walk Library → Prop}
    {Q : Except Failure (Resolution × String) → Workshop → Prop}
    (h : Comes (Inspection.resolve name) (Inspection.start (ofUnits roots tree [])) P)
    (hPQ : ∀ o walk, P o walk →
      Q (o.map fun r => (r, textOf r)) ⟨tree, walk.types.log, []⟩) :
    Comes ((Generator.mk roots [] compiler).render name) ⟨tree, [], []⟩ Q := by
  have hmade : ofFiles (roots ++ []) tree [] = .ok () (ofUnits roots tree []) := by
    rw [List.append_nil]
    rfl
  have hresolve : Comes ((Generator.mk roots [] compiler).resolve name []) ⟨tree, [], []⟩
      fun o w => Q (o.map fun r => (r, textOf r)) w := by
    unfold Comes Generator.resolve
    rw [inspect_run, hmade]
    unfold Comes at h
    cases hrun : Inspection.resolve name (Inspection.start (ofUnits roots tree [])) with
    | ok r walk =>
      rw [hrun] at h
      dsimp only
      rw [hrun]
      exact hPQ _ _ h
    | error f walk =>
      rw [hrun] at h
      dsimp only
      rw [hrun]
      exact hPQ _ _ h
  exact comes_bind hresolve (fun r w h => h) fun f w h => h

/-- A stub that is made of units in memory is made of a directory that holds them as well, with the
same text, members and constructors, unless the directory refuses a path that is too long, or a unit
is read that asks for a listed name after a search for supertypes has ended at that name. -/
theorem render_shelved {files : List (String × String)} {tree : FileTree} {directory : Path}
    (hshelf : Shelf tree directory files) (hfindable : Findable (readUnits files).1)
    {compiler : Compiler} (compiler' : Compiler) {w : Workshop} {name text : String} {r : Resolution}
    (hobject : ∀ l, ofTexts w.tree files = .ok () l → ∀ t, outcome (load objectName l) = .ok t →
      ∀ n ∈ t.supertypes, n = objectName)
    (hrun : outcome ((Generator.mk [] files compiler).render name w) = .ok (r, text)) :
    Comes ((Generator.mk [directory] [] compiler').render name) ⟨tree, [], []⟩ fun o w' =>
      (∃ r', o = .ok (r', text) ∧ r'.members = r.members ∧ r'.constructors = r.constructors) ∨
        (∃ f, TooLong directory f ∧ o = .error f) ∨ Overlooks tree directory w'.log := by
  let units := (readUnits files).1
  have hnames : namesOf (filed directory units) = namesOf units := namesOf_relabeled
  have hproper : ∀ a ∈ namesOf units, isPrimitiveName a = false := fun a ha => (names_of_texts ha).1
  -- In memory, the resolution was made of a chain of the table.
  obtain ⟨l, hmade, hresolve, rfl⟩ := render_ok hrun
  obtain ⟨T, hT⟩ := exists_tells units hfindable.distinct hproper
  have hl := registerUnits_kept hT (.refl units) hmade
  have htop : ∀ t, T objectName = .ok t → ∀ n ∈ t.supertypes, n = objectName := fun t ht =>
    hobject l hmade t (World.ends_of_gives (fun _ h => h) ((kept_offers hT).gives ht) l hl).2
  have htame := hT.tame (fun a ha => (names_of_texts ha).2) htop
  obtain ⟨htarget, found, hchain, hr⟩ := kept_made hT htame hl hresolve
  -- The table of the directory differs from it in places only.
  obtain ⟨T', hT'⟩ := exists_tells (filed directory units) (hnames ▸ hfindable.distinct)
    (hnames ▸ hproper)
  obtain ⟨hplaces, hplaces'⟩ := hT.places hT'
  have hlineage : T'.lineage = T.lineage := hplaces.lineage_eq hplaces'
  obtain ⟨place, htarget'⟩ := hplaces htarget
  obtain ⟨found', hchain', hwalked⟩ := hplaces.chain hchain
  have hcatalogue : Catalogue T' tree directory files := by
    refine ⟨hshelf, hfindable, hT', fun a ha => ?_⟩
    obtain ⟨t, ht⟩ := kept_declared hl ha
    obtain ⟨place, ht'⟩ := hplaces ht
    exact ⟨_, ht'⟩
  have htame' : T'.lineage.Tame (supertypesOf T' (filed directory units)) := by
    refine hT'.tame (fun a ha => (names_of_texts (hnames ▸ ha)).2) fun t' ht' => ?_
    obtain ⟨place, ht⟩ := hplaces' ht'
    have habove := htop _ ht
    exact habove
  have hstub := Resolution.resolve_placed r.target place hwalked
    fun a b => .ok (T'.lineage.verdict a b)
  rw [hlineage, hr] at hstub
  refine Generator.render_comes
    (hcatalogue.resolve htame' htarget' hchain' (Catalogue.start hshelf)) ?_
  rintro o walk (hoverlooks | ⟨f, hf, rfl⟩ | rfl)
  · exact .inr (.inr hoverlooks)
  · exact .inr (.inl ⟨f, hf, rfl⟩)
  · rw [hlineage, hstub]
    exact .inl ⟨_, rfl, rfl, rfl⟩

/-! ### Units in a directory of their own -/

namespace Shelving

/-- A compiler that does nothing. -/
def idle : Compiler := fun c => ⟨.ok 0, c.tree, []⟩

/-- A directory with some texts. -/
def shelf (files : List (String × String)) : FileTree :=
  .ofTexts (files.map fun f => ("d" :: splitText '/' f.1, f.2))

/-- The type that the interface names is in one of two packages, and in its own file. -/
def files : List (String × String) :=
  [("p/A.java", "package p; import q.*; import r.*; public interface A { Inner f(); }"),
    ("q/Inner.java", "package q; public class Inner { }")]

/-- The type that the interface names is nested in a class. -/
def nested : List (String × String) :=
  [("p/A.java", "package p; import q.Outer.*; import r.*; public interface A { Inner f(); }"),
    ("q/Outer.java", "package q; public class Outer { public static class Inner { } }")]

def stubText : String :=
  "package p;\n\npublic class AImpl implements p.A \x7b\n\n\tpublic q.Inner f() \x7b\n" ++
    "\t\treturn null;\n\t\x7d\n\n\x7d\n"

/-- A generator of given units, asked for the interface. -/
def fromTexts (files : List (String × String)) :
    EStateM.Result Failure Workshop (Resolution × String) :=
  (Generator.mk [] files idle).render "p.A" ⟨.empty, [], []⟩

/-- A generator of their directory, asked for the same. -/
def fromShelf (files : List (String × String)) :
    EStateM.Result Failure Workshop (Resolution × String) :=
  (Generator.mk [⟨0, ["d"]⟩] [] idle).render "p.A" ⟨shelf files, [], []⟩

theorem made_of_text {made : Except Failure (Resolution × String)} {text : String}
    (h : made.map Prod.snd = .ok text) : ∃ r, made = .ok (r, text) := by
  cases made with
  | error f => cases h
  | ok stub =>
    cases h
    exact ⟨stub.1, rfl⟩

theorem shelf_files : Shelf (shelf files) ⟨0, ["d"]⟩ files := by
  refine .of_entries (l := ["d"]) ?_ ?_ ?_ ?_ ?_ ?_ <;> decide +kernel

theorem shelf_nested : Shelf (shelf nested) ⟨0, ["d"]⟩ nested := by
  refine .of_entries (l := ["d"]) ?_ ?_ ?_ ?_ ?_ ?_ <;> decide +kernel

theorem facts : outcome (ofTexts .empty files) = .ok () ∧
    outcome (load objectName (stateAfter (ofTexts .empty files))) =
      .error (.typeNotFound objectName) ∧
    (outcome (fromTexts files)).map Prod.snd = .ok stubText ∧
    (outcome (fromShelf files)).map Prod.snd = .ok stubText ∧
    (stateAfter (fromShelf files)).log.all (fun e => !e matches .ancestryEnds _ _) = true := by
  decide +kernel

/-- No name is overlooked where no search for supertypes ends at a name. -/
theorem render_shelved_files : Shelf (shelf files) ⟨0, ["d"]⟩ files ∧
    Findable (readUnits files).1 ∧ ∃ r r',
    outcome (fromTexts files) = .ok (r, stubText) ∧ outcome (fromShelf files) = .ok (r', stubText) ∧
      r'.members = r.members ∧ r'.constructors = r.constructors := by
  obtain ⟨hmade, hobject, htexts, hshelf, hlog⟩ := facts
  obtain ⟨r, hrun⟩ := made_of_text htexts
  obtain ⟨r', hrun'⟩ := made_of_text hshelf
  have hfindable : Findable (readUnits files).1 := by decide +kernel
  refine ⟨shelf_files, hfindable, r, r', hrun, hrun', ?_⟩
  obtain ⟨r₁, ho, hsame⟩ | ⟨f, -, ho⟩ | ⟨start, a, name, u, origin, -, -, -, hsublist⟩ :=
    render_shelved shelf_files hfindable idle (fun l hl t ht => by
      cases (eq_ok_of_outcome hmade).symm.trans hl
      cases hobject.symm.trans ht) hrun
  · cases hrun'.symm.trans ho
    exact hsame
  · cases hrun'.symm.trans ho
  · have hends := List.all_eq_true.mp hlog _ (hsublist.subset List.mem_cons_self)
    cases hends

theorem nested_facts : (outcome (fromTexts nested)).toOption.isSome = true ∧
    (outcome (fromShelf nested)).map Prod.snd =
      .error (.severalGuesses "Inner" ["q.Outer", "r"]) := by
  decide +kernel

/-- A nested type that is imported on demand with all others of its class is not found in the
directory. -/
theorem not_render_shelved : ¬ ∀ (files : List (String × String)) (tree : FileTree)
    (directory : Path) (compiler compiler' : Compiler) (w : Workshop) (name text : String)
    (r : Resolution), Shelf tree directory files →
      outcome ((Generator.mk [] files compiler).render name w) = .ok (r, text) →
        ∃ r', outcome ((Generator.mk [directory] [] compiler').render name ⟨tree, [], []⟩) =
          .ok (r', text) ∧ r'.members = r.members ∧ r'.constructors = r.constructors := by
  intro h
  obtain ⟨hfound, hmissed⟩ := nested_facts
  cases hrun : outcome (fromTexts nested) with
  | error f =>
    rw [hrun] at hfound
    cases hfound
  | ok made =>
    obtain ⟨r', hrun', -⟩ := h nested (shelf nested) ⟨0, ["d"]⟩ idle idle _ "p.A" made.2 made.1
      shelf_nested hrun
    rw [show outcome (fromShelf nested) = _ from hrun'] at hmissed
    cases hmissed

end Shelving

end StubWriter
