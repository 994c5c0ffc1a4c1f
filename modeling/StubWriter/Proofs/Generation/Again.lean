import StubWriter.CommandLine.Run
import StubWriter.Proofs.Generation.Stages
import StubWriter.Proofs.Library.Matters

/-!
# Making a stub again

A stub stands among the files that a second run searches. It is made again as it is, and nothing
changes, as long as it does not come in the way: as long as no name that matters to its target is
looked for in its own file, or on a way through the directories that were made for it.

* `Library.Spares`: a stub that does not come in the way.
* `Generator.implement_again`: making it again.
* `CommandLine.run_again`: running the command line again.
* `CommandLine.not_run_again`: a stub whose name another type of the target's unit has.
-/

namespace StubWriter

open Run

/-! ## The place of a stub -/

/-- The directories of the package of a type. -/
def StubSource.directories (t : TypeInfo) : List String :=
  if t.package.isEmpty then [] else splitText '.' t.package

theorem StubSource.isFileName_directories {t : TypeInfo} (ht : Generator.IsNamed t) :
    ∀ s ∈ directories t, IsFileName s := by
  obtain ⟨segments, hpackage, hsegments⟩ := ht.package
  unfold directories
  split
  · exact fun s hs => absurd hs List.not_mem_nil
  · rename_i hne
    have hne : segments ≠ [] := by
      rintro rfl
      exact hne (by rw [hpackage]; rfl)
    rw [hpackage, splitText_intercalate (by decide) hne fun s hs => (hsegments s hs).dot]
    exact fun s hs => (hsegments s hs).isFileName

theorem StubSource.isFileName_file {t : TypeInfo} (ht : Generator.IsNamed t) :
    IsFileName (className t ++ ".java") :=
  (ht.simpleName.isFileName.append (by decide) (by decide)).append (by decide) (by decide)

/-- A stub stands in the directories of its package, below the root. -/
theorem StubSource.path_directories {t : TypeInfo} (ht : Generator.IsNamed t) (root : Path) :
    path t root = ⟨root.slashes, root.segments ++ directories t ++ [className t ++ ".java"]⟩ := by
  have hfold : ∀ (parts : List String) (p : Path), (∀ s ∈ parts, IsFileName s) →
      parts.foldl Path.child p = ⟨p.slashes, p.segments ++ parts⟩ := by
    intro parts
    induction parts with
    | nil => exact fun p _ => by rw [List.append_nil]; rfl
    | cons s rest ih =>
      intro p hparts
      obtain ⟨hs, hrest⟩ := List.forall_mem_cons.mp hparts
      have hchild : p.child s = ⟨p.slashes, p.segments ++ [s]⟩ := Path.div_fileName hs p
      rw [List.foldl_cons, ih _ hrest, hchild]
      simp
  have hdirectories := hfold _ root (isFileName_directories ht)
  unfold directories at hdirectories
  unfold path directories
  dsimp only
  rw [Path.div_fileName (isFileName_file ht), hdirectories]

/-- The segments of the path of a stub. -/
theorem StubSource.path_eq {t : TypeInfo} (ht : Generator.IsNamed t) (root : Path) :
    ∃ parts, (∀ s ∈ parts, IsFileName s) ∧ IsFileName (className t ++ ".java") ∧
      path t root = ⟨root.slashes, root.segments ++ parts ++ [className t ++ ".java"]⟩ :=
  ⟨directories t, isFileName_directories ht, isFileName_file ht, path_directories ht root⟩

/-- The place of a stub is that of no archive. -/
theorem Library.not_isArchiveName_stub {t : TypeInfo} (ht : Generator.IsNamed t) {root p : Path}
    (h : p.place = (StubSource.path t root).place) : isArchiveName p = false := by
  obtain ⟨parts, -, hjava, hpath⟩ := StubSource.path_eq ht root
  have hlast : (StubSource.path t root).place.getLast? = some (StubSource.className t ++ ".java") :=
    Path.getLast?_place (by rw [hpath, List.getLast?_concat]) hjava.up
  have hname : ∀ s : String, p.segments.getLast? = some s → p.name = s := by
    intro s hs
    rw [Path.name, hs]
    rfl
  cases hsegments : p.segments.getLast? with
  | none =>
    have hempty : p.name = "" := by
      rw [Path.name, hsegments]
      rfl
    rw [isArchiveName, Path.suffix, hempty]
    decide +kernel
  | some s =>
    rw [isArchiveName, Path.suffix, hname s hsegments]
    by_cases hup : s = ".."
    · rw [hup]
      decide +kernel
    · rw [← h, Path.getLast?_place hsegments hup] at hlast
      have hclass : StubSource.className t ≠ "" :=
        (ht.simpleName.isFileName.append (by decide) (by decide)).nonempty
      have hdot : StubSource.className t ++ ".java" = StubSource.className t ++ "." ++ "java" := by
        rw [String.append_assoc]
        rfl
      have hsuffix : Path.splitSuffix (StubSource.className t ++ "." ++ "java") = _ :=
        Path.splitSuffix_dot hclass (by decide) (by decide)
      rw [Option.some.inj hlast, hdot, hsuffix]
      have hjava : [".jar", ".zip"].contains ("." ++ "java").toLower = false := by decide +kernel
      exact hjava

/-- The searches for a type that come across nothing that its stub adds: they look for files in
other places, on ways that make no use of the directories that are made for the stub. -/
structure Library.Spares (roots : List Path) (tree : FileTree) (name : String) (stub : Path) :
    Prop where
  direct : ∀ root ∈ roots, root.Direct
  apart : ∀ n, Matters roots tree name n → ∀ p ∈ places roots n,
    (p.2 / p.1).Direct ∧ (p.2 / p.1).place ≠ stub.place

theorem Library.Spares.answers {roots : List Path} {tree tree' : FileTree} {name : String}
    {t : TypeInfo} (ht : Generator.IsNamed t) {root : Path}
    (h : Spares roots tree name (StubSource.path t root))
    (hsame : FileTree.SameFiles (StubSource.path t root).place tree tree') {n : String}
    (hn : Matters roots tree name n) {p : String × Path} (hp : p ∈ places roots n) :
    Answers tree tree' p.1 p.2 := by
  have hroot : p.2 ∈ roots := by
    obtain ⟨relative, -, hp⟩ := List.mem_flatMap.mp hp
    obtain ⟨root, hroot, rfl⟩ := List.mem_map.mp hp
    exact hroot
  obtain ⟨hdirect, hplace⟩ := h.apart n hn p hp
  refine answers_of_stays (fun harchive => ?_) (stays_direct hdirect hsame hplace)
  refine stays_direct (h.direct p.2 hroot) hsame fun hstub => ?_
  rw [not_isArchiveName_stub ht hstub] at harchive
  cases harchive

/-! ## Writing -/

namespace Disk

/-- Placing a file changes no other one. -/
theorem Places.sameFiles {p : Path} {content : Content} {t t' : FileTree}
    (h : Places p content t t') (hp : p.Direct) : FileTree.SameFiles p.place t t' := by
  obtain ⟨l, hl, -, hrest⟩ := h
  obtain rfl := hp.locate_eq hl
  intro m hm c
  rcases hrest m hm with hsame | ⟨hnone, hdir, -⟩
  · rw [hsame]
  · rw [hnone, hdir]
    exact ⟨nofun, nofun⟩

/-- To put a file in its place again changes nothing. -/
theorem place_again {p : Path} {s : String} {front : List String}
    (hp : p.segments = front ++ [s]) {content : Content} {t t' : FileTree}
    (h : Places p content t t') :
    (do makeDirs p.parent; write p content : Disk Unit) t' = .ok () t' := by
  obtain ⟨l, hl, hfile, -⟩ := h
  have hparent : p.parent = ⟨p.slashes, front⟩ := by
    rw [Path.parent, hp, List.dropLast_concat]
  have hpath : p = ⟨p.slashes, front ++ [s]⟩ := by rw [← hp]
  obtain ⟨k, hk, hstep⟩ := FileTree.locate_append (hpath ▸ hl)
  have hdir : t'.get? k = some .dir := FileTree.isDir_of_follow (List.cons_ne_nil s []) hstep
  change EStateM.bind (makeDirs p.parent) _ t' = _
  unfold EStateM.bind
  rw [hparent, makeDirs_isDir hk hdir]
  exact write_same hl hfile

end Disk

theorem Job.onDisk_eq {α : Type} {failure : OsError → Failure} {x : Disk α} {w : Workshop} {a : α}
    {tree : FileTree} (h : x w.tree = .ok a tree) : onDisk failure x w = .ok a { w with tree } := by
  unfold onDisk onTree
  dsimp only
  rw [h]

namespace Generator

variable {g : Generator} {typeName : String} {w w' : Workshop} {root : Path} {stub : Stub}

theorem writeSource_ok {t : TypeInfo} {constructors : List Constructor} {methods : List Method}
    {tree : FileTree} (h : (do
      Disk.makeDirs (StubSource.path t root).parent
      Disk.write (StubSource.path t root)
        (.plain (StubSource.text t constructors methods).toUTF8) : Disk Unit) w.tree = .ok () tree) :
    ∃ w', writeSource root t constructors methods w = .ok (StubSource.path t root) w' ∧
      w'.tree = tree := by
  refine ⟨⟨tree, w.log ++ [.wroteSource (StubSource.path t root)], w.calls⟩, ?_, rfl⟩
  change EStateM.bind (Job.onDisk _ _) _ w = _
  unfold EStateM.bind
  rw [Job.onDisk_eq h]
  rfl

/-- What a generator without units of its own finds. -/
theorem resolve_eq (hfiles : g.files = []) (w : Workshop) : g.resolve typeName [] w =
    match Inspection.resolve typeName (Inspection.start (Library.ofUnits g.roots w.tree [])) with
    | .ok r walk => .ok r (w.noted walk.types)
    | .error f walk => .error f (w.noted walk.types) := by
  have hmade : Library.ofFiles g.roots w.tree [] = .ok () (Library.ofUnits g.roots w.tree []) :=
    rfl
  rw [resolve, inspect_run, hfiles, List.append_nil, hmade]
  dsimp only
  cases Inspection.resolve typeName (Inspection.start (Library.ofUnits g.roots w.tree [])) <;> rfl

/-- A stub that is made again when it is there already changes no file. -/
theorem implement_again (hfiles : g.files = []) (hroot : root.Direct)
    (hrun : g.implement typeName root [] w = .ok stub w')
    (h : Library.Spares g.roots w.tree typeName stub.sourcePath) {w₂ : Workshop}
    (hw₂ : w₂.tree = w'.tree) :
    ∃ stub' w₃, g.implement typeName root [] w₂ = .ok stub' w₃ ∧
      stub'.sourcePath = stub.sourcePath ∧ w₃.tree = w'.tree := by
  have hcomes : Comes (g.implement typeName root []) w _ := implement_comes
  unfold Comes at hcomes
  rw [hrun] at hcomes
  obtain ⟨-, -, hstub⟩ := hcomes
  obtain ⟨⟨w₁, hresolve⟩, hsource, hplaces⟩ := hstub stub rfl
  change Disk.Places _ _ _ w'.tree at hplaces
  have hnamed := (resolve_named _ _ hresolve).1
  rw [hsource] at h hplaces
  obtain ⟨parts, hparts, hjava, hpath⟩ := StubSource.path_eq hnamed root
  have hdirect : (StubSource.path stub.resolution.target root).Direct := by
    obtain ⟨l, hl, -⟩ := hplaces
    have hnames : ∀ s ∈ parts ++ [StubSource.className stub.resolution.target ++ ".java"],
        IsFileName s := List.forall_mem_append.mpr ⟨hparts, List.forall_mem_singleton.mpr hjava⟩
    rw [hpath, List.append_assoc] at hl ⊢
    exact hroot.append hnames hl
  obtain ⟨walk, hfound⟩ : ∃ walk, Inspection.resolve typeName
      (Inspection.start (Library.ofUnits g.roots w.tree [])) = .ok stub.resolution walk := by
    rw [resolve_eq hfiles] at hresolve
    split at hresolve
    · rename_i r walk hfound
      cases hresolve
      exact ⟨walk, hfound⟩
    · cases hresolve
  have hanswers : ∀ n, Library.Matters g.roots w.tree typeName n → ∀ p ∈ Library.places g.roots n,
      Library.Answers w.tree w'.tree p.1 p.2 :=
    fun n hn p hp => h.answers hnamed (hplaces.sameFiles hdirect) hn hp
  have hfound₂ : g.resolve typeName [] w₂ = _ := resolve_eq hfiles w₂
  rw [hw₂] at hfound₂
  obtain ⟨walk', hagain⟩ := Library.resolve_again hanswers hfound
  rw [hagain] at hfound₂
  dsimp only at hfound₂
  have hplace := Disk.place_again (by rw [hpath]) hplaces
  obtain ⟨w₃, hwrite, htree⟩ := writeSource_ok (w := w₂.noted walk'.types) (hw₂ ▸ hplace)
  refine ⟨⟨stub.resolution, _, none⟩, w₃, ?_, hsource.symm, htree.trans hw₂⟩
  change EStateM.bind (g.resolve typeName []) _ w₂ = _
  unfold EStateM.bind
  rw [hfound₂]
  change EStateM.bind (writeSource _ _ _ _) _ _ = _
  unfold EStateM.bind
  rw [hwrite]
  rfl

end Generator

/-! ## Command lines -/

namespace CommandLine

variable {roots : List Path} {compiler : Compiler} {typeName : String} {settings : Settings}
  {tree : FileTree} {w : Workshop} {stub : Path}

theorem writeJob_again (hrun : writeJob roots compiler typeName ⟨tree, [], []⟩ = .ok stub w)
    (h : Library.Spares roots tree typeName stub) :
    ∃ w', writeJob roots compiler typeName ⟨w.tree, [], []⟩ = .ok stub w' ∧ w'.tree = w.tree := by
  have hroot : (Path.ofString ".").Direct := ⟨0, [], by decide, fun s hs => absurd hs List.not_mem_nil⟩
  let g : Generator := ⟨roots, [], compiler⟩
  have hjob : ∀ w₀, writeJob roots compiler typeName w₀ =
      EStateM.bind (g.implement typeName (Path.ofString ".") []) (fun s => pure s.sourcePath) w₀ :=
    fun _ => rfl
  unfold EStateM.bind at hjob
  rw [hjob] at hrun
  cases himplement : g.implement typeName (Path.ofString ".") [] ⟨tree, [], []⟩ with
  | error f w' =>
    rw [himplement] at hrun
    cases hrun
  | ok s w' =>
    rw [himplement] at hrun
    cases hrun
    have hstart : (⟨w.tree, [], []⟩ : Workshop).tree = w.tree := rfl
    obtain ⟨s', w₃, hagain, hsource, htree⟩ :=
      Generator.implement_again rfl hroot himplement h hstart
    refine ⟨w₃, ?_, htree⟩
    rw [hjob, hagain, ← hsource]
    rfl

/-- What a run comes to that asks for no archive: help, or the writing of a stub. -/
theorem run_eq (settings : Settings) (compiler : Compiler) {words : List String} {r : Request}
    (hwords : Request.ofWords words = .ok r) (hjar : r.jar = none) :
    (∀ tree, (run words settings compiler tree).status = 0 ∧
        (run words settings compiler tree).workshop.tree = tree) ∨
      (∀ tree, (run words settings compiler tree).status = 1) ∨
      ∀ tree, match writeJob (rootsOf r settings) compiler (r.typeName.getD "") ⟨tree, [], []⟩ with
        | .ok _ w => (run words settings compiler tree).status = 0 ∧
            (run words settings compiler tree).workshop = w
        | .error _ _ => (run words settings compiler tree).status = 1 := by
  unfold run jobOf?
  rw [hwords]
  dsimp only
  rw [hjar]
  cases r.help with
  | true => exact .inl fun _ => ⟨rfl, rfl⟩
  | false =>
    right
    cases hname : r.typeName.filter fun name => !name.isEmpty with
    | none => exact .inl fun _ => rfl
    | some name =>
      right
      intro tree
      rw [Option.eq_some_of_filter_eq_some hname]
      dsimp only [Option.map, Option.getD, Bool.false_eq_true, if_false]
      rw [if_neg Bool.false_ne_true]
      cases writeJob (rootsOf r settings) compiler name ⟨tree, [], []⟩ with
      | ok _ w => exact ⟨rfl, rfl⟩
      | error f w =>
        dsimp only
        cases f.isExpected <;> rfl

/-- A run that wrote a stub, and is run again on the files that it left, succeeds again and leaves
these files as they are, if the stub does not come in the way of the names that matter to its
target. -/
theorem run_again {words : List String} {r : Request}
    (hwords : Request.ofWords words = .ok r) (hjar : r.jar = none)
    (hstatus : (run words settings compiler tree).status = 0)
    (hspares : ∀ stub w, writeJob (rootsOf r settings) compiler (r.typeName.getD "")
      ⟨tree, [], []⟩ = .ok stub w →
        Library.Spares (rootsOf r settings) tree (r.typeName.getD "") stub) :
    let first := run words settings compiler tree
    let second := run words settings compiler first.workshop.tree
    second.status = 0 ∧ second.workshop.tree = first.workshop.tree := by
  obtain hhelp | hnone | hjob := run_eq settings compiler hwords hjar
  · exact hhelp _
  · rw [hnone] at hstatus
    cases hstatus
  · have hfirst := hjob tree
    have hsecond := hjob (run words settings compiler tree).workshop.tree
    split at hfirst
    · rename_i stub w hrun
      dsimp only
      rw [hfirst.2] at hsecond ⊢
      obtain ⟨w', hagain, htree⟩ := writeJob_again hrun (hspares stub w hrun)
      rw [hagain] at hsecond
      exact ⟨hsecond.1, hsecond.2 ▸ htree⟩
    · rw [hfirst] at hstatus
      cases hstatus

/-! ### An interface below one of another package -/

def heir : FileTree :=
  .ofTexts [(["p", "T.java"], "package p; import q.*; public interface T extends U { T self(); }"),
    (["q", "U.java"], "package q; public interface U { U other(); }")]

def heirDecl : TypeDecl :=
  ⟨.interfaceDecl, "T", ["public"], [], [.named ["U"] 0], [],
    [⟨"self", [], [], some (.named ["T"] 0), [], [], false⟩], [], []⟩

def heirUnit : CompilationUnit :=
  ⟨["p"], [⟨["q"], false, true⟩], [heirDecl]⟩

def parentDecl : TypeDecl :=
  ⟨.interfaceDecl, "U", ["public"], [], [], [],
    [⟨"other", [], [], some (.named ["U"] 0), [], [], false⟩], [], []⟩

def parentUnit : CompilationUnit :=
  ⟨["q"], [], [parentDecl]⟩

/-- The type, and those that its supertype may be. -/
def heirNames : List String :=
  ["p.T", "p.U", "q.U", "java.lang.U"]

/-- A compiler that makes nothing. -/
def idle : Compiler :=
  fun call => ⟨.ok 0, call.tree, []⟩

/-- The unit that is read for a name. -/
def unitFor? (name : String) : Option CompilationUnit :=
  match Library.sourceIn [⟨0, []⟩] heir name with
  | .ok (some ⟨.ok u, _⟩) => some u
  | _ => none

theorem heir_facts :
    (run ["p.T"] Settings.default idle heir).status = 0 ∧
    (match writeJob [⟨0, []⟩] idle "p.T" ⟨heir, [], []⟩ with
      | .ok stub _ => stub == ⟨0, ["p", "TImpl.java"]⟩
      | .error _ _ => false) = true ∧
    heirNames.map unitFor? = [some heirUnit, none, some parentUnit, none] ∧
    (∀ n ∈ heirNames, Library.elementName n = n) ∧
    (heirNames.flatMap (Library.places [⟨0, []⟩])).map (fun p => p.2 / p.1) =
      [⟨0, ["p", "T.java"]⟩, ⟨0, ["p.java"]⟩, ⟨0, ["p", "U.java"]⟩, ⟨0, ["p.java"]⟩,
        ⟨0, ["q", "U.java"]⟩, ⟨0, ["q.java"]⟩, ⟨0, ["java", "lang", "U.java"]⟩,
        ⟨0, ["java", "lang.java"]⟩, ⟨0, ["java.java"]⟩] := by
  decide +kernel

theorem heirUnit_facts :
    heirUnit.declared = [⟨heirDecl, "p.T", false⟩] ∧
    (∀ n ∈ heirUnit.names, ∀ a ∈ (Scope.ofUnit heirUnit).asks (n.headD ""), a ∈ heirNames) ∧
    (Scope.ofUnit heirUnit).localTypes = [("T", "p.T")] ∧
    (Scope.ofUnit heirUnit).singleImports = [] ∧
    (Scope.ofUnit heirUnit).asks "U" = ["p.U", "q.U", "java.lang.U"] := by
  decide +kernel

theorem parentUnit_facts :
    parentUnit.declared = [⟨parentDecl, "q.U", false⟩] ∧
    ∀ n ∈ parentUnit.names, (Scope.ofUnit parentUnit).asks (n.headD "") = [] := by
  decide +kernel

/-- Whatever a library knows, it takes the supertype for one of these. -/
theorem heir_supertype (l : Library) :
    Ok ((Scope.ofUnit heirUnit).resolveName ["U"]) l fun a _ => a ∈ heirNames := by
  obtain ⟨-, -, hlocal, himports, hasks⟩ := heirUnit_facts
  refine ok_bind (Scope.resolveSimple?_mem _ _ l) fun base? l₁ hbase => ?_
  cases base? with
  | some base =>
    rw [hlocal, himports] at hbase
    obtain hbase | hbase | hbase := hbase base rfl
    · cases hbase
    · cases hbase
    · change base ∈ (Scope.ofUnit heirUnit).asks "U" at hbase
      rw [hasks] at hbase
      exact ok_pure (List.mem_cons_of_mem "p.T" hbase)
  | none =>
    have hguess : ∀ l, Ok (do Library.report (.assumed "U" "q.U"); return "q.U") l
        fun a _ => a ∈ heirNames := fun l => ok_modify_bind (ok_pure (by decide))
    exact hguess l₁

theorem heir_closed : heirUnit.Closed (· ∈ heirNames) where
  asks := heirUnit_facts.2.1
  describes d hd origin l := by
    rw [heirUnit_facts.1] at hd
    obtain rfl := List.mem_singleton.mp hd
    have hclass : Declared.superclass ⟨heirDecl, "p.T", false⟩ (Scope.ofUnit heirUnit) = pure none :=
      rfl
    unfold Declared.describe
    dsimp only
    rw [show heirDecl.typeParams = [] from rfl, Scope.enter_nil, pure_bind, hclass, pure_bind]
    refine ok_bind (ok_mapM_forall (· ∈ heirNames) fun t ht l => ?_) fun interfaces l₁ hsuper => ?_
    · obtain rfl := List.mem_singleton.mp ht
      refine ok_bind (heir_supertype l) fun a _ ha => ok_pure ?_
      change a ++ "" ∈ heirNames
      rwa [String.append_empty]
    have hmethods : Ok (Declared.methods ⟨heirDecl, "p.T", false⟩ (Scope.ofUnit heirUnit)) l₁
        fun ms _ => ∀ m ∈ ms, m.returns ∈ heirNames := by
      intro ms l' hrun
      obtain ⟨rfl, -⟩ := EStateM.Result.ok.inj hrun
      decide
    exact ok_bind hmethods fun methods l₂ hreturns => ok_pure ⟨hsuper, hreturns⟩

theorem parent_closed : parentUnit.Closed (· ∈ heirNames) where
  asks n hn a ha := by
    rw [parentUnit_facts.2 n hn] at ha
    exact absurd ha List.not_mem_nil
  describes d hd origin l := by
    rw [parentUnit_facts.1] at hd
    obtain rfl := List.mem_singleton.mp hd
    have hdescribe : ∃ t, Declared.describe ⟨parentDecl, "q.U", false⟩ parentUnit.packageName origin
        (Scope.ofUnit parentUnit) l = .ok t l ∧ t.supertypes = [] ∧
          t.methods.map Method.returns = ["q.U"] := ⟨_, rfl, rfl, rfl⟩
    obtain ⟨t, ht, hsuper, hreturns⟩ := hdescribe
    intro t' l' hrun
    obtain ⟨rfl, -⟩ := EStateM.Result.ok.inj (ht.symm.trans hrun)
    rw [hsuper]
    refine ⟨nofun, fun m hm => ?_⟩
    have hm : m.returns ∈ t.methods.map Method.returns := List.mem_map_of_mem hm
    rw [hreturns] at hm
    rw [List.mem_singleton.mp hm]
    decide

theorem sourceIn_heir {name : String} {u : CompilationUnit} (h : unitFor? name = some u) :
    ∃ origin, Library.sourceIn [⟨0, []⟩] heir name = .ok (some ⟨.ok u, origin⟩) := by
  unfold unitFor? at h
  split at h
  · rename_i u' origin hsource
    exact ⟨origin, Option.some.inj h ▸ hsource⟩
  · cases h

/-- These names matter to the type, and no others. -/
theorem heir_matters_iff (name : String) :
    Library.Matters [⟨0, []⟩] heir "p.T" name ↔ name ∈ heirNames := by
  obtain ⟨-, -, hunits, helement, -⟩ := heir_facts
  constructor
  · refine fun h => h.of_closed (by decide) (fun n hn => (helement n hn).symm ▸ hn) ?_
    intro n hn s hs u hu
    obtain ⟨_, origin⟩ := s
    cases hu
    have hunit : unitFor? n = some u := by
      rw [unitFor?, hs]
    have hmem : some u ∈ heirNames.map unitFor? := hunit ▸ List.mem_map_of_mem hn
    rw [hunits] at hmem
    rcases List.mem_cons.mp hmem with hu | hmem
    · rw [Option.some.inj hu]
      exact heir_closed
    · have hmem : some u = some parentUnit := by simpa using hmem
      rw [Option.some.inj hmem]
      exact parent_closed
  · intro h
    obtain ⟨-, -, -, -, hasks⟩ := heirUnit_facts
    obtain ⟨origin, hsource⟩ := sourceIn_heir (List.cons.inj hunits).1
    have hname : ["U"] ∈ heirUnit.names := by decide +kernel
    rcases List.mem_cons.mp h with rfl | h
    · exact .start
    · refine .asked .start hsource hname ?_
      change name ∈ (Scope.ofUnit heirUnit).asks "U"
      rw [hasks]
      exact h

theorem heir_spares : Library.Spares [⟨0, []⟩] heir "p.T" ⟨0, ["p", "TImpl.java"]⟩ where
  direct root hroot := by
    obtain rfl := List.mem_singleton.mp hroot
    exact ⟨0, [], rfl, by decide⟩
  apart n hn p hp := by
    obtain ⟨-, -, -, -, hplaces⟩ := heir_facts
    have hall : ∀ q ∈ (heirNames.flatMap (Library.places [⟨0, []⟩])).map (fun p => p.2 / p.1),
        (∀ s ∈ q.segments, IsFileName s ∧ s.utf8ByteSize ≤ FileTree.maxNameBytes) ∧
          q.place ≠ (⟨0, ["p", "TImpl.java"]⟩ : Path).place := by
      rw [hplaces]
      decide +kernel
    obtain ⟨hnames, hplace⟩ :=
      hall _ (List.mem_map_of_mem (List.mem_flatMap.mpr ⟨n, (heir_matters_iff n).mp hn, hp⟩))
    exact ⟨⟨0, _, rfl, hnames⟩, hplace⟩

/-- What the words ask for that name a type and nothing else. -/
def typeRequest (name : String) : Request :=
  { Request.empty with typeName := some name }

theorem heir_ofWords : Request.ofWords ["p.T"] = .ok (typeRequest "p.T") ∧
    rootsOf (typeRequest "p.T") Settings.default = [⟨0, []⟩] := by
  decide +kernel

theorem heir_spared (stub : Path) (w : Workshop)
    (h : writeJob (rootsOf (typeRequest "p.T") Settings.default) idle "p.T" ⟨heir, [], []⟩ =
      .ok stub w) :
    Library.Spares (rootsOf (typeRequest "p.T") Settings.default) heir "p.T" stub := by
  have hstub := heir_facts.2.1
  rw [heir_ofWords.2] at h ⊢
  rw [h] at hstub
  rw [beq_iff_eq.mp hstub]
  exact heir_spares

theorem run_again_heir :
    Request.ofWords ["p.T"] = .ok (typeRequest "p.T") ∧ (typeRequest "p.T").jar = none ∧
    (run ["p.T"] Settings.default idle heir).status = 0 ∧
    (∀ name ∈ heirNames, Library.Matters (rootsOf (typeRequest "p.T") Settings.default) heir
      ((typeRequest "p.T").typeName.getD "") name) ∧
    (∀ stub w, writeJob (rootsOf (typeRequest "p.T") Settings.default) idle
      ((typeRequest "p.T").typeName.getD "") ⟨heir, [], []⟩ = .ok stub w →
        Library.Spares (rootsOf (typeRequest "p.T") Settings.default) heir
          ((typeRequest "p.T").typeName.getD "") stub) ∧
    let first := run ["p.T"] Settings.default idle heir
    let second := run ["p.T"] Settings.default idle first.workshop.tree
    second.status = 0 ∧ second.workshop.tree = first.workshop.tree :=
  ⟨heir_ofWords.1, rfl, heir_facts.1,
    fun name hname => heir_ofWords.2.symm ▸ (heir_matters_iff name).mpr hname, heir_spared,
    run_again heir_ofWords.1 rfl heir_facts.1 heir_spared⟩

/-! ### A stub with the name of another type -/

/-- An interface that mentions a type of another package which has the name of its stub. -/
def namesake : FileTree :=
  .ofTexts [(["p", "T.java"], "package p; import q.*; public interface T { TImpl f(); }"),
    (["q", "TImpl.java"], "package q; public class TImpl { }")]

/-- The first run finds the type that is mentioned in the other package, the second one finds the stub
of the first one: types of the same package come first. -/
theorem not_run_again : ¬ ∀ (typeName : String) (settings : Settings) (compiler : Compiler)
    (tree : FileTree), Path.ofString "." ∈ settings.sourcePath →
      (run [typeName] settings compiler tree).status = 0 →
      let first := run [typeName] settings compiler tree
      let second := run [typeName] settings compiler first.workshop.tree
      second.status = 0 ∧ second.workshop.tree = first.workshop.tree := by
  intro h
  have hdiffer : Path.ofString "." ∈ Settings.default.sourcePath ∧
      (run ["p.T"] Settings.default idle namesake).status = 0 ∧
      (run ["p.T"] Settings.default idle
          (run ["p.T"] Settings.default idle namesake).workshop.tree).workshop.tree.get?
            ["p", "TImpl.java"] ≠
        (run ["p.T"] Settings.default idle namesake).workshop.tree.get? ["p", "TImpl.java"] := by
    decide +kernel
  obtain ⟨hroot, hstatus, hother⟩ := hdiffer
  exact hother (by rw [(h "p.T" Settings.default idle namesake hroot hstatus).2])

end CommandLine

end StubWriter
