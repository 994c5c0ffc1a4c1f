import StubWriter.Proofs.Generation.Again
import StubWriter.Proofs.Library.ArchiveRoot
import StubWriter.Proofs.Library.Filed
import StubWriter.Proofs.StubReading

/-!
# Finding a stub

A stub is written to the file in which a library looks for a type of its name first: below the
directories of its package stands the file of the class. So a library over the root of the stub finds
it there and loads what can be read from it. The search for what the names in it mean never comes to
an end without a meaning, unless it leads to a path that the system refuses.

* `StubSource.div_ownFile`: the place of a stub is where it is looked for.
* `Library.load_own`: a library over a directory loads the only type of a unit from its own file.
* `Generator.load_stub`: a stub that was written is found, unless a path is too long.
* `Generator.not_load_stub`: a stub of which a path is too long.
-/

namespace StubWriter

open Run

/-! ## The place of a stub -/

namespace StubSource

variable {t : TypeInfo}

theorem splitText_name (ht : Generator.IsNamed t) :
    splitText '.' (name t) = directories t ++ [className t] := by
  have hdot : '.' ∉ (className t).toList := by
    rw [className, String.toList_append, List.mem_append, not_or]
    exact ⟨ht.simpleName.dot, by decide⟩
  unfold name qualify directories
  split
  · exact splitText_of_not_mem hdot
  · rw [splitText_append, splitText_of_not_mem hdot]

/-- A stub stands in the file that its name leads to. -/
theorem div_ownFile (ht : Generator.IsNamed t) (root : Path) :
    root / Library.ownFile (name t) = path t root := by
  have hnames : ∀ s ∈ directories t ++ [className t ++ ".java"], IsFileName s :=
    List.forall_mem_append.mpr
      ⟨isFileName_directories ht, List.forall_mem_singleton.mpr (isFileName_file ht)⟩
  calc root / Library.ownFile (name t)
      = root / "/".intercalate (directories t ++ [className t ++ ".java"]) := by
        rw [Library.ownFile, Library.relativeSource, splitText_name ht, intercalate_append_end]
    _ = ⟨root.slashes, root.segments ++ (directories t ++ [className t ++ ".java"])⟩ :=
        Path.div_segments (by simp)
          (fun s hs => ⟨(hnames s hs).nonempty, (hnames s hs).here, (hnames s hs).slash⟩) root
    _ = path t root := by rw [path_directories ht, List.append_assoc]

end StubSource

/-! ## Directories as roots -/

namespace Library

variable {tree : FileTree} {root : Path} {name : String}

theorem fileIn_plain {p : Path} {l : Location} {text : String} (hl : tree.locate p = .ok l)
    (hfile : tree.get? l = some (.file (.plain text.toUTF8))) (hplain : '\r' ∉ text.toList) :
    fileIn tree p = .ok text := by
  have hcontent : contentAt tree p = .ok (.plain text.toUTF8) := by
    rw [contentAt, Disk.read_eq hl hfile]
  have hdecoded : Text.decodeUtf8 (Content.plain text.toUTF8).bytes = .ok text :=
    decodeUtf8_toUTF8 text
  rw [fileIn, hcontent]
  dsimp only
  rw [hdecoded]
  dsimp only
  rw [unifyLineEnds_eq hplain, String.ofList_toList]

/-- A name is looked for in its own file first. -/
theorem places_own (root : Path) (name : String) :
    ∃ rest, places [root] name = (ownFile name, root) :: rest := by
  obtain ⟨n, hn⟩ := Nat.exists_eq_add_one.mpr (List.length_pos_iff.mpr (splitText_ne_nil '.' name))
  unfold places candidates
  dsimp only
  rw [hn, List.range_succ_eq_map, List.map_cons, List.flatMap_cons, Nat.sub_zero, ← hn,
    List.take_length]
  exact ⟨_, rfl⟩

theorem sourceIn_own {text : String} (hhas : hasIn tree (ownFile name) root = .ok true)
    (htext : textIn tree (ownFile name) root = .ok text) : sourceIn [root] tree name =
      .ok (some ⟨CompilationUnit.ofText text, toString (root / ownFile name)⟩) := by
  obtain ⟨rest, hplaces⟩ := places_own root name
  have hfirst : firstIn tree (places [root] name) =
      .ok (some ⟨CompilationUnit.ofText text, toString (root / ownFile name)⟩) := by
    rw [hplaces, firstIn, hhas]
    change (textIn tree (ownFile name) root >>= _) = _
    rw [htext]
    rfl
  rw [sourceIn, hfirst]
  rfl

section Directory

variable (hroot : askIn tree (isArchive root) = .ok false)
include hroot

/-- A directory answers for every file, unless the path to it is too long. -/
theorem hasIn_answers (relative : String) : (∃ has, hasIn tree relative root = .ok has) ∨
    ∃ f, TooLong root f ∧ hasIn tree relative root = .error f := by
  have hfind : (∃ e?, Disk.find? (root / relative) tree = .ok e? tree) ∨
      Disk.find? (root / relative) tree =
        .error { errno := .nameTooLong, path := root / relative } tree := by
    rw [Disk.find?_eq]
    cases tree.locate (root / relative) with
    | ok l => exact .inl ⟨_, rfl⟩
    | error errno =>
      cases errno with
      | nameTooLong => exact .inr rfl
      | _ => exact .inl ⟨_, rfl⟩
  rw [hasIn_directory hroot, askIn]
  obtain ⟨e?, hfind⟩ | hlong := hfind
  · by_cases hfile : ∃ content, e? = some (.file content)
    · obtain ⟨content, rfl⟩ := hfile
      rw [Disk.isFile_true hfind]
      exact .inl ⟨true, rfl⟩
    · rw [Disk.isFile_false hfind (not_exists.mp hfile)]
      exact .inl ⟨false, rfl⟩
  · rw [Disk.isFile_error hlong]
    exact .inr ⟨_, ⟨relative, rfl⟩, rfl⟩

theorem anyIn_answers (relative : String) : (∃ found, anyIn tree relative [root] = .ok found) ∨
    ∃ f, TooLong root f ∧ anyIn tree relative [root] = .error f := by
  unfold anyIn
  obtain ⟨has, hhas⟩ | ⟨f, hf, hhas⟩ := hasIn_answers hroot relative
  · rw [hhas]
    cases has <;> exact .inl ⟨_, rfl⟩
  · rw [hhas]
    exact .inr ⟨f, hf, rfl⟩

end Directory

/-- Libraries over a directory alone, which may refuse a path that is too long. -/
def overDirectory (root : Path) (tree : FileTree) : World Library where
  inv := (basedOn [root] tree).inv
  excused := TooLong root

theorem overDirectory_quiet : (overDirectory root tree).Quiet :=
  fun _ _ ⟨hroots, htree, hsound⟩ => ⟨hroots, htree, ⟨hsound.archives, hsound.absent⟩⟩

section Directory

variable (hroot : askIn tree (isArchive root) = .ok false)
include hroot

theorem exists?_succeeds (a : String) : (overDirectory root tree).Succeeds (exists? a) := by
  intro l hl
  refine ⟨(Moves.moves (R := Recalls) (x := exists? a) l).based hl, ?_⟩
  obtain ⟨hroots, htree, hsound⟩ := hl
  rw [exists?_outcome hsound, existsAt, hroots, htree]
  split
  · exact .inl ⟨_, rfl⟩
  split
  · exact .inl ⟨_, rfl⟩
  split
  · exact .inl ⟨_, rfl⟩
  · exact anyIn_answers hroot (ownFile a)

/-- Without imports on demand, no name in a declaration is ambiguous. -/
theorem describe_succeeds (d : Declared) {s : Scope} (hdemand : s.onDemand = [])
    (package origin : String) :
    (overDirectory root tree).Succeeds (d.describe package origin s) :=
  d.describe_of (succeeds_compositional _) fun _ _ =>
    Scope.resolveName_succeeds overDirectory_quiet hdemand fun a _ => exists?_succeeds hroot a

end Directory

/-- A library over a directory loads the only type of a unit from the file of its own. It describes
the declaration when it has searched for it and learned nothing else. -/
theorem load_own {text : String} {unit : CompilationUnit} {d : Declared}
    (hhas : hasIn tree (ownFile d.fullName) root = .ok true)
    (htext : textIn tree (ownFile d.fullName) root = .ok text)
    (hunit : CompilationUnit.ofText text = .ok unit) (hdeclared : unit.declared = [d])
    (hprimitive : isPrimitiveName d.fullName = false) :
    ∃ l, (ofUnits [root] tree []).Recalls l ∧
      outcome (load d.fullName (ofUnits [root] tree [])) = outcome (d.describe unit.packageName
        (toString (root / ownFile d.fullName)) (Scope.ofUnit unit) l) := by
  let start := ofUnits [root] tree []
  let described (l : Library) : Except Failure TypeInfo := outcome (d.describe unit.packageName
    (toString (root / ownFile d.fullName)) (Scope.ofUnit unit) l)
  let Q : Except Failure Unit → Library → Prop := fun o l' => ∃ l, start.Recalls l ∧
    ((∃ t, described l = .ok t ∧ o = .ok () ∧ l'.graph.get? d.fullName = some t) ∨
      ∃ f, described l = .error f ∧ o = .error f)
  have hfetch : Comes (fetch d.fullName) start Q := by
    refine fetch_comes (ofUnits_basedOn [root] tree []) fun l hrecalls _ => ?_
    rw [sourceIn_own hhas htext, hunit]
    change Comes (registerAll unit.packageName (toString (root / ownFile d.fullName))
      (Scope.ofUnit unit) unit.declared) l Q
    rw [hdeclared]
    unfold registerAll
    refine comes_bind (Q := fun o _ => described l = o) rfl (fun t l₁ ht => ?_) fun f _ hf =>
      ⟨l, hrecalls, .inr ⟨f, hf, rfl⟩⟩
    have hname := (d.describe_shapes _ _ _ l t _ (eq_ok_of_outcome ht)).name
    have hadded : (l₁.takeIn d t).graph.get? d.fullName = some t := by
      rw [takeIn, TypeGraph.get?_addType, if_pos hname.symm]
    exact ⟨l, hrecalls, .inl ⟨t, ht, rfl, hadded⟩⟩
  change Comes (load d.fullName) start fun o _ => ∃ l, start.Recalls l ∧ o = described l
  refine load_comes (fun h => Bool.noConfusion (h.symm.trans hprimitive)) (fun _ h => ?_)
    (fun _ _ h => absurd h List.not_mem_nil) (fun _ _ _ => hfetch) ?_ ?_ ?_
  · cases h
  · rintro l' t ⟨l, hrecalls, ⟨t', ht', -, hget⟩ | ⟨f, -, hf⟩⟩ ht
    · rw [hget, Option.some.injEq] at ht
      exact ⟨l, hrecalls, ht ▸ ht'.symm⟩
    · cases hf
  · rintro l' ⟨l, -, ⟨t, -, -, hget⟩ | ⟨f, -, hf⟩⟩ hgone
    · cases hget.symm.trans hgone
    · cases hf
  · rintro f l' ⟨l, hrecalls, ⟨t, -, ho, -⟩ | ⟨f', hf', ho⟩⟩
    · cases ho
    · cases ho
      exact ⟨l, hrecalls, hf'.symm⟩

end Library

/-! ## Stubs that were written -/

/-- A stub that stands where a library over its root looks for it. -/
structure Stub.Stands (stub : Stub) (root : Path) (tree : FileTree) : Prop where
  directory : ∃ k, tree.locate root = .ok k ∧ tree.get? k = some .dir
  place : stub.sourcePath = root / Library.ownFile (StubSource.name stub.resolution.target)
  file : ∃ l, tree.locate stub.sourcePath = .ok l ∧
    tree.get? l = some (.file (.plain (Generator.textOf stub.resolution).toUTF8))

namespace Stub.Stands

variable {stub : Stub} {root : Path} {tree : FileTree} (h : stub.Stands root tree)
include h

theorem isArchive : Library.askIn tree (Library.isArchive root) = .ok false := by
  obtain ⟨k, hk, hdir⟩ := h.directory
  exact Library.isArchive_directory hk hdir

/-- To load a stub that stands below a root means to describe its declaration. -/
theorem load_eq (hparse : CompilationUnit.ofText (Generator.textOf stub.resolution) =
      .ok stub.resolution.unit) :
    ∃ l, (Library.ofUnits [root] tree []).Recalls l ∧
      outcome (Library.load (StubSource.name stub.resolution.target)
        (Library.ofUnits [root] tree [])) =
      outcome (stub.resolution.declared.describe stub.resolution.unit.packageName
        (toString stub.sourcePath) (Scope.ofUnit stub.resolution.unit) l) := by
  obtain ⟨l, hl, hfile⟩ := h.file
  rw [h.place] at hl ⊢
  have hfind : Disk.find? (root / Library.ownFile (StubSource.name stub.resolution.target)) tree =
      .ok (some (.file (.plain (Generator.textOf stub.resolution).toUTF8))) tree := by
    rw [Disk.find?_eq, hl, ← hfile]
  have hhas : Library.hasIn tree (Library.ownFile (StubSource.name stub.resolution.target)) root =
      .ok true := by
    rw [Library.hasIn_directory h.isArchive, Library.askIn, Disk.isFile_true hfind]
  have htext : Library.textIn tree (Library.ownFile (StubSource.name stub.resolution.target)) root =
      .ok (Generator.textOf stub.resolution) := by
    rw [Library.textIn_directory h.isArchive]
    exact Library.fileIn_plain hl hfile (StubSource.isPlain_text hparse)
  exact Library.load_own (d := stub.resolution.declared) hhas htext hparse StubSource.declared_unit
    (StubSource.name_not_primitive _)

end Stub.Stands

namespace Generator

variable {g : Generator} {typeName : String} {w w' : Workshop} {root : Path}
  {extraRoots : List Path} {stub : Stub}

theorem implement_stands (hrun : g.implement typeName root extraRoots w = .ok stub w') :
    (∃ w₁, g.resolve typeName extraRoots w = .ok stub.resolution w₁) ∧ stub.Stands root w'.tree := by
  have hcomes : Comes (g.implement typeName root extraRoots) w _ := implement_comes
  unfold Comes at hcomes
  rw [hrun] at hcomes
  obtain ⟨-, -, hstub⟩ := hcomes
  obtain ⟨⟨w₁, hresolve⟩, hsource, l, hl, hfile, -⟩ := hstub stub rfl
  have hnamed := (resolve_named _ _ hresolve).1
  refine ⟨⟨w₁, hresolve⟩, ?_, hsource.trans (StubSource.div_ownFile hnamed root).symm, l, hl, hfile⟩
  rw [hsource, StubSource.path_directories hnamed, List.append_assoc] at hl
  obtain ⟨k, hk, hfollow⟩ := FileTree.locate_append hl
  exact ⟨k, hk, FileTree.isDir_of_follow (by simp) hfollow⟩

/-- A fresh library over the root of a stub loads the stub from where it was written, if its text
spells its unit. Nothing keeps it from that but a path that the system refuses as too long. -/
theorem load_stub (hrun : g.implement typeName root extraRoots w = .ok stub w')
    (hparse : CompilationUnit.ofText (textOf stub.resolution) = .ok stub.resolution.unit) :
    let found := outcome (Library.load (StubSource.name stub.resolution.target)
      (Library.ofUnits [root] w'.tree []))
    (∃ t, found = .ok t ∧ stub.resolution.ReadBack stub.sourcePath t) ∨
      ∃ f, found = .error f ∧ TooLong root f := by
  obtain ⟨⟨w₁, hresolve⟩, hstands⟩ := implement_stands hrun
  obtain ⟨hmembers, hconstructors⟩ := resolve_access _ _ hresolve
  obtain ⟨l, hrecalls, hload⟩ := hstands.load_eq hparse
  dsimp only
  rw [hload]
  obtain ⟨-, ⟨t, ht⟩ | ⟨f, hf, ho⟩⟩ := Library.describe_succeeds hstands.isArchive
    stub.resolution.declared (s := Scope.ofUnit stub.resolution.unit) rfl
    stub.resolution.unit.packageName (toString stub.sourcePath) l
    (hrecalls.based (Library.ofUnits_basedOn [root] w'.tree []))
  · refine .inl ⟨t, ht, ?_⟩
    exact Resolution.describe_readBack hmembers hconstructors _ _ l t _ (eq_ok_of_outcome ht)
  · exact .inr ⟨f, ho, hf⟩

/-- A nested class with a constructor that is not public. -/
def nesting : Generator :=
  ⟨[], [("O.java",
    "package a; class O { abstract class I { protected I(int n) { } abstract O f(); } }")],
    fun call => ⟨.ok 0, call.tree, []⟩⟩

theorem nesting_facts :
    (match nesting.implement "a.O.I" ⟨0, ["out"]⟩ [] ⟨.empty, [], []⟩ with
      | .ok stub w' => decide (CompilationUnit.ofText (textOf stub.resolution) =
          .ok stub.resolution.unit ∧ stub.sourcePath = ⟨0, ["out", "a", "IImpl.java"]⟩) &&
          (outcome (Library.load (StubSource.name stub.resolution.target)
            (Library.ofUnits [⟨0, ["out"]⟩] w'.tree []))).isOk
      | .error _ _ => false) = true := by
  decide +kernel

theorem load_stub_nesting : ∃ stub w',
    nesting.implement "a.O.I" ⟨0, ["out"]⟩ [] ⟨.empty, [], []⟩ = .ok stub w' ∧
    CompilationUnit.ofText (textOf stub.resolution) = .ok stub.resolution.unit ∧
    stub.sourcePath = ⟨0, ["out", "a", "IImpl.java"]⟩ ∧
    ∃ t, outcome (Library.load (StubSource.name stub.resolution.target)
      (Library.ofUnits [⟨0, ["out"]⟩] w'.tree [])) = .ok t ∧
        stub.resolution.ReadBack stub.sourcePath t := by
  have hfacts := nesting_facts
  split at hfacts
  · rename_i stub w' hrun
    obtain ⟨hstub, hok⟩ := Bool.and_eq_true_iff.mp hfacts
    obtain ⟨hparse, hplace⟩ := of_decide_eq_true hstub
    refine ⟨stub, w', hrun, hparse, hplace, ?_⟩
    obtain hfound | ⟨f, hf, -⟩ := load_stub hrun hparse
    · exact hfound
    · rw [hf] at hok
      cases hok
  · cases hfacts

/-! ### A name for which there is no file -/

end Generator

/-- A name has no meaning if the question for it in the package of the unit is not answered. -/
theorem Scope.resolveName_refused {W : World Library} {s : Scope} {segments : List String}
    {f : Failure} (hbinds : s.binds (segments.headD "") = false)
    (hask : W.Gives (Library.exists? (qualify s.package (segments.headD ""))) (.error f)) :
    W.Gives (s.resolveName segments) (.error f) := by
  obtain ⟨hlocal, himport⟩ : s.localTypes.lookup (segments.headD "") = none ∧
      s.singleImports.lookup (segments.headD "") = none := by
    simpa [binds] using hbinds
  unfold resolveName
  refine World.gives_bind_error ?_
  unfold resolveSimple?
  rw [hlocal, himport]
  exact World.gives_bind_error hask

/-- A stub is not described if its target is an interface whose name has no meaning. -/
theorem Resolution.describe_refused {W : World Library} {r : Resolution} {s : Scope}
    {first second : String} {f : Failure} (hinterface : r.target.isInterface = true)
    (huse : TypeUse.ofName r.target.name = .named [first, second] 0)
    (hbinds : s.binds first = false)
    (hask : W.Gives (Library.exists? (qualify s.package first)) (.error f))
    (package origin : String) : W.Gives (r.declared.describe package origin s) (.error f) := by
  have hsuperclass : W.Gives (r.declared.superclass s) (.ok (some objectName)) := by
    unfold Declared.superclass
    simp only [declared, StubSource.decl, hinterface, if_true]
    exact World.gives_pure
  have hinterfaces : W.Gives (r.declared.interfaces s) (.error f) := by
    have htype : W.Gives (s.resolveType (.named [first, second] 0)) (.error f) :=
      World.gives_bind_error (Scope.resolveName_refused hbinds hask)
    unfold Declared.interfaces Scope.resolveTypes
    simp only [declared, StubSource.decl, hinterface, if_true, huse, List.mapM_cons]
    exact World.gives_bind_error htype
  unfold Declared.describe
  rw [show r.declared.decl.typeParams = [] from rfl, Scope.enter_nil, pure_bind]
  exact World.gives_bind hsuperclass (World.gives_bind_error hinterfaces)

namespace Generator

@[irreducible]
def longName : String :=
  String.ofList (List.replicate 251 'X')

theorem not_mem_longName {c : Char} (hc : c ≠ 'X') : c ∉ longName.toList := by
  unfold longName
  rw [String.toList_ofList, List.mem_replicate]
  exact fun h => hc h.2

/-- No directory can be asked for the file of the long name. -/
theorem exists?_longName {root : Path} {tree : FileTree}
    (hroot : ∃ k, tree.locate root = .ok k ∧ tree.get? k = some .dir) :
    ∃ f, ∀ l, (Library.ofUnits [root] tree []).Recalls l →
      outcome (Library.exists? longName l) = .error f := by
  obtain ⟨k, hk, hdir⟩ := hroot
  have hsplit : splitText '.' longName = [longName] :=
    splitText_of_not_mem (not_mem_longName (by decide))
  have hlisted : Library.isListed longName = false := by
    rw [Library.isListed, Library.splitName, hsplit]
    rfl
  have hown : Library.ownFile longName = "/".intercalate ([] ++ [longName ++ ".java"]) := by
    rw [Library.ownFile, Library.relativeSource, hsplit]
    exact intercalate_append_end "/" [] longName ".java"
  have hnot : ∀ c : Char, c ≠ 'X' → c ∉ ".java".toList → c ∉ (longName ++ ".java").toList := by
    intro c hc hjava
    rw [String.toList_append, List.mem_append, not_or]
    exact ⟨not_mem_longName hc, hjava⟩
  have hbytes : FileTree.maxNameBytes < (longName ++ ".java").utf8ByteSize := by
    unfold longName
    rw [String.utf8ByteSize_append, String.utf8ByteSize_ofList]
    decide +kernel
  have hsegments : ∀ s ∈ [longName ++ ".java"], s ≠ "" ∧ s ≠ "." ∧ '/' ∉ s.toList :=
    List.forall_mem_singleton.mpr ⟨LeadsDown.java_ne longName (by decide),
      LeadsDown.java_ne longName (by decide), hnot '/' (by decide) (by decide)⟩
  have hlocate : tree.locate ⟨root.slashes, root.segments ++ []⟩ = .ok k := by
    rw [List.append_nil]
    exact hk
  have hlong := Library.hasIn_long [] (Library.isArchive_directory hk hdir) hlocate hdir hsegments
    (hnot '\x00' (by decide) (by decide)) hbytes
  rw [← hown] at hlong
  exact ⟨_, fun l hl => (Library.exists?_fresh hl (by decide +kernel) hlisted).trans hlong⟩

theorem ofName_longName : TypeUse.ofName (longName ++ ".I") = .named [longName, "I"] 0 := by
  have hsplit : splitText '.' (longName ++ ".I") = [longName, "I"] := by
    have hdot : ".I" = "." ++ "I" := by decide
    rw [hdot, ← String.append_assoc, splitText_append,
      splitText_of_not_mem (not_mem_longName (by decide)), splitText_of_not_mem (by decide)]
    rfl
  have helement : Library.elementName (longName ++ ".I") = longName ++ ".I" := by
    have hlast : ".I".toList.reverse = ['I', '.'] := by decide
    rw [Library.elementName, String.toList_append, List.reverse_append, hlast]
    apply String.toList_injective
    rw [String.toList_ofList, String.toList_append]
    simp
  have hprimitive : isPrimitiveName (longName ++ ".I") = false := by
    have hdot : ∀ w ∈ primitiveNames, '.' ∉ w.toList := by decide
    rw [isPrimitiveName, ← Bool.not_eq_true, List.contains_iff_mem]
    exact fun h => hdot _ h (by simp)
  unfold TypeUse.ofName
  dsimp only
  rw [helement, hprimitive, hsplit, Nat.sub_self]
  rfl

/-- An interface within a class whose name is too long for that of a file. -/
def enclosed : Generator :=
  ⟨[], [("S.java", "class " ++ longName ++ " { interface I { } }")],
    fun call => ⟨.ok 0, call.tree, []⟩⟩

/-- The unit of its stub. -/
def enclosedUnit : CompilationUnit where
  package := []
  imports := []
  types := [⟨.classDecl, "IImpl", ["public"], [], [], [.named [longName, "I"] 0], [], [], []⟩]

theorem enclosed_facts :
    (match enclosed.implement (longName ++ ".I") ⟨0, ["out"]⟩ [] ⟨.empty, [], []⟩ with
      | .ok stub _ =>
        let r := stub.resolution
        decide (CompilationUnit.ofText (textOf r) = .ok enclosedUnit ∧
          r.target.name = longName ++ ".I" ∧ r.target.simpleName = "I" ∧ r.target.package = "" ∧
          r.target.isInterface = true ∧ r.constructors = [] ∧ r.members = [])
      | .error _ _ => false) = true := by
  decide +kernel

/-- A stub that mentions a type whose name is too long for that of a file is written, but not
loaded. -/
theorem not_load_stub : ¬ ∀ (g : Generator) (typeName : String) (root : Path)
    (extraRoots : List Path) (w w' : Workshop) (stub : Stub),
    g.implement typeName root extraRoots w = .ok stub w' →
    CompilationUnit.ofText (textOf stub.resolution) = .ok stub.resolution.unit →
    ∃ t, outcome (Library.load (StubSource.name stub.resolution.target)
      (Library.ofUnits [root] w'.tree [])) = .ok t ∧
        stub.resolution.ReadBack stub.sourcePath t := by
  intro h
  have hfacts := enclosed_facts
  split at hfacts
  · rename_i stub w' hrun
    obtain ⟨hparse, hname, hsimple, hpackage, hinterface, hconstructors, hmembers⟩ :=
      of_decide_eq_true hfacts
    have huse : TypeUse.ofName stub.resolution.target.name = .named [longName, "I"] 0 := by
      rw [hname, ofName_longName]
    have hunit : stub.resolution.unit = enclosedUnit := by
      rw [Resolution.unit, StubSource.unit, StubSource.decl, StubSource.className, huse, hsimple,
        hpackage, hinterface, hconstructors, hmembers]
      rfl
    rw [← hunit] at hparse
    have hbinds : (Scope.ofUnit stub.resolution.unit).binds longName = false := by
      rw [hunit]
      decide +kernel
    obtain ⟨t, ht, -⟩ := h _ _ _ _ _ _ _ hrun hparse
    have hstands := (implement_stands hrun).2
    obtain ⟨l, hrecalls, hload⟩ := hstands.load_eq hparse
    obtain ⟨f, hlong⟩ := exists?_longName hstands.directory
    let W : World Library := ⟨(Library.ofUnits [⟨0, ["out"]⟩] w'.tree []).Recalls, fun _ => False⟩
    have hask : W.Gives (Library.exists? (qualify (Scope.ofUnit stub.resolution.unit).package
        longName)) (.error f) := by
      rw [hunit]
      exact fun l hl => ⟨hl.trans (Moves.moves (R := Library.Recalls) l), .inl (hlong l hl)⟩
    obtain ⟨-, hfails | ⟨f, hf, -⟩⟩ := Resolution.describe_refused hinterface huse hbinds hask
      stub.resolution.unit.packageName (toString stub.sourcePath) l hrecalls
    · rw [ht, hfails] at hload
      cases hload
    · exact hf
  · cases hfacts

end Generator

end StubWriter
