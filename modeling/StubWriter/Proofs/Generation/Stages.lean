import StubWriter.Proofs.Generation.Archive
import StubWriter.Proofs.Generation.Refusals

/-!
# The stages of a generation

A stub is found first, then written, compiled and packed. Each stage has failures of its own, and
nothing is written before the stub is found, so the kind of a failure tells what has been done.

* `Disk.Places`: what the writing of a stub leaves.
* `Generator.resolve_comes`, `implement_comes`, `compile_comes`, `packStub_blames`: the stages.
* `Generator.fails_in_stages`: what failures of a whole run leave.
-/

namespace StubWriter

open Run

/-- The kinds of failures to find a stub. -/
def FailureKind.isOfFinding : FailureKind → Bool
  | .unsupportedTarget | .noAccessibleConstructor | .typeNotFound | .sourceParse
  | .archiveRead => true
  | _ => false

/-! ## Writing -/

namespace Disk

variable {t t' : FileTree} {p : Path} {content : Content}

/-- A file was put at a path, and the directories on the way to it that were missing. -/
def Places (p : Path) (content : Content) (t t' : FileTree) : Prop :=
  ∃ l, t'.locate p = .ok l ∧ t'.get? l = some (.file content) ∧
    ∀ m, m ≠ l → t'.get? m = t.get? m ∨ t.get? m = none ∧ t'.get? m = some .dir ∧
      ∃ xs, xs <+: p.parent.segments ∧ t'.locate ⟨p.slashes, xs⟩ = .ok m

theorem place_ok : Ok (do makeDirs p.parent; write p content) t fun _ t' => Places p content t t' := by
  refine ok_bind (ok_self _ _) fun _ t₁ hmade => ?_
  have hadds : AddsAlong p.parent t t₁ := by
    have := (moves_makeDirs_along p.parent).moves t
    rwa [hmade] at this
  refine ok_mono write_ok fun _ t₂ ⟨l, hl, _, _, hnot, hwritten⟩ => ?_
  have hkeeps : t₁.KeepsDirs t₂ := by
    intro m hm
    rw [hwritten, if_neg]
    · exact hm
    · rintro rfl
      exact hnot hm
  refine ⟨l, FileTree.locate_mono hkeeps hl, by rw [hwritten, if_pos rfl], fun m hm => ?_⟩
  rw [hwritten, if_neg hm]
  refine (hadds m).imp_right fun ⟨hnone, hdir, xs, hxs, hlocate⟩ => ?_
  exact ⟨hnone, hdir, xs, hxs, FileTree.locate_mono hkeeps hlocate⟩

/-- What stands under another name stays when a file is placed. -/
theorem Places.get?_other {root dir : Path} {name file : String} {l : Location} {e : Entry}
    (h : Places ⟨root.slashes, root.segments ++ [name]⟩ content t t') (hname : IsFileName name)
    (hfile : IsFileName file) (hne : name ≠ file)
    (hl : t.locate ⟨dir.slashes, dir.segments ++ [file]⟩ = .ok l) (he : t.get? l = some e) :
    t'.get? l = some e := by
  obtain ⟨l', hl', -, hrest⟩ := h
  obtain ⟨k, -, hk⟩ := FileTree.locate_append hl
  obtain ⟨k', -, hk'⟩ := FileTree.locate_append hl'
  obtain rfl := FileTree.follow_eq_append (List.forall_mem_singleton.mpr hfile.up) hk
  obtain rfl := FileTree.follow_eq_append (List.forall_mem_singleton.mpr hname.up) hk'
  have hother : k ++ [file] ≠ k' ++ [name] := by
    intro h
    exact hne (List.singleton_inj.mp (List.append_inj' h rfl).2).symm
  rcases hrest _ hother with hsame | ⟨hnone, -⟩
  · exact hsame.trans he
  · rw [hnone] at he
    cases he

end Disk

/-! ## The stages -/

namespace Job

variable {w : Workshop}

theorem onTree_comes {α : Type} {x : EStateM Failure FileTree α}
    {P : Except Failure α → FileTree → Prop} (h : Comes x w.tree P) :
    Comes (onTree x) w fun o w' => P o w'.tree ∧ w'.calls = w.calls := by
  unfold Comes at *
  unfold onTree
  cases hx : x w.tree with
  | ok a t =>
    rw [hx] at h
    exact ⟨h, rfl⟩
  | error f t =>
    rw [hx] at h
    exact ⟨h, rfl⟩

/-- What an operation on files comes to; its refusal becomes a failure of the job. -/
theorem onDisk_comes {α : Type} {failure : OsError → Failure} {x : Disk α}
    {P : α → FileTree → Prop} (h : Ok x w.tree P) :
    Comes (onDisk failure x) w fun o w' => ((∀ a, o = .ok a → P a w'.tree) ∧
      ∀ f, o = .error f → ∃ e, f = failure e) ∧ w'.calls = w.calls := by
  refine onTree_comes (P := fun o t => (∀ a, o = .ok a → P a t) ∧
    ∀ f, o = .error f → ∃ e, f = failure e) ?_
  unfold Comes
  dsimp only
  cases hx : x w.tree with
  | ok a t =>
    refine ⟨fun b hb => ?_, nofun⟩
    cases hb
    exact h _ _ hx
  | error e t =>
    refine ⟨nofun, fun f hf => ?_⟩
    cases hf
    exact ⟨e, rfl⟩

end Job

namespace Generator

variable {g : Generator} {typeName : String} {w : Workshop} {extraRoots : List Path}

/-- An inspection leaves all files alone, and calls no compiler, whether it fails or not. -/
theorem inspect_comes {α : Type} (x : Inspection α) [Searches x] :
    Comes (g.inspect extraRoots x) w fun o w' => (w'.tree = w.tree ∧ w'.calls = w.calls) ∧
      ∀ f, o = .error f → f.OfSearch := by
  have hmake : Searches (Library.registerUnits (Library.readUnits g.files).1) := inferInstance
  unfold Comes
  rw [inspect_run]
  cases hmade : Library.ofFiles (g.roots ++ extraRoots) w.tree g.files with
  | error f l =>
    refine ⟨⟨rfl, rfl⟩, fun f' hf => ?_⟩
    cases hf
    exact hmake.blames _ _ _ hmade
  | ok _ l =>
    dsimp only
    cases hx : x (Inspection.start l) with
    | error f walk =>
      refine ⟨⟨rfl, rfl⟩, fun f' hf => ?_⟩
      cases hf
      exact Blames.blames _ _ _ hx
    | ok a walk => exact ⟨⟨rfl, rfl⟩, nofun⟩

theorem resolve_comes : Comes (g.resolve typeName extraRoots) w fun o w' =>
    (w'.tree = w.tree ∧ w'.calls = w.calls) ∧ ∀ f, o = .error f → f.OfSearch :=
  inspect_comes _

theorem ofWriting_kind (path : Path) (e : OsError) :
    (Failure.ofWriting path e).kind.isOfFinding = false ∧
      (Failure.ofWriting path e).kind ≠ .compilation := by
  unfold Failure.ofWriting
  split <;> exact ⟨rfl, nofun⟩

/-- A stub is written if it is found. -/
theorem implement_comes {root : Path} :
    Comes (g.implement typeName root extraRoots) w fun o w' => w'.calls = w.calls ∧
      (∀ f, o = .error f → f.kind ≠ .compilation ∧ (f.kind.isOfFinding = true → w'.tree = w.tree)) ∧
      ∀ stub, o = .ok stub → (∃ w₁, g.resolve typeName extraRoots w = .ok stub.resolution w₁) ∧
        stub.sourcePath = StubSource.path stub.resolution.target root ∧
        Disk.Places stub.sourcePath (.plain (textOf stub.resolution).toUTF8) w.tree w'.tree := by
  unfold implement
  have hresolve : Comes (g.resolve typeName extraRoots) w fun o w' =>
      ((w'.tree = w.tree ∧ w'.calls = w.calls) ∧ ∀ f, o = .error f → f.OfSearch) ∧
        ∀ r, o = .ok r → ∃ w₁, g.resolve typeName extraRoots w = .ok r w₁ :=
    ⟨resolve_comes, fun r hr => ⟨_, eq_ok_of_outcome hr⟩⟩
  refine comes_bind hresolve (fun r w₁ ⟨⟨⟨htree, hcalls⟩, _⟩, hr⟩ => ?_)
    fun f w₁ ⟨⟨⟨htree, hcalls⟩, hf⟩, _⟩ => ?_
  · unfold writeSource
    simp only [bind_assoc, pure_bind]
    refine comes_bind (Job.onDisk_comes Disk.place_ok) (fun _ w₂ ⟨⟨hok, _⟩, hcalls₂⟩ => ?_)
      fun f w₂ ⟨⟨_, herror⟩, hcalls₂⟩ => ?_
    · refine ⟨hcalls₂.trans hcalls, nofun, fun stub hstub => ?_⟩
      cases hstub
      exact ⟨hr r rfl, rfl, htree ▸ hok _ rfl⟩
    · obtain ⟨e, rfl⟩ := herror f rfl
      refine ⟨hcalls₂.trans hcalls, fun f' hf' => ?_, nofun⟩
      cases hf'
      obtain ⟨hfinding, hcompilation⟩ := ofWriting_kind (StubSource.path r.target root) e
      exact ⟨hcompilation, fun h => absurd (hfinding.symm.trans h) Bool.false_ne_true⟩
  · refine ⟨hcalls, fun f' hf' => ?_, nofun⟩
    cases hf'
    refine ⟨fun h => ?_, fun _ => htree⟩
    have hsearch : f.kind.isOfMaking = false := hf f rfl
    rw [h] at hsearch
    cases hsearch

/-- A compiler is called once. What it leaves is left, and if it answers with a status other than
zero, the failure tells it. -/
theorem compile_comes {classpath : List String} {source : Path} :
    Comes (g.compile classpath source) w fun o w' => ∃ call, call.sources = [source] ∧
      call.tree = w.tree ∧ w'.calls = w.calls ++ [call] ∧ w'.tree = (g.compiler call).tree ∧
      ∀ f, o = .error f → (g.compiler call).status = .error f ∨
        ∃ status, status ≠ 0 ∧ (g.compiler call).status = .ok status ∧
          f = .compileStatus source status := by
  unfold Comes compile
  refine ⟨⟨classpath, [source], w.tree⟩, rfl, rfl, ?_⟩
  dsimp only
  split
  · rename_i f hf
    refine ⟨rfl, rfl, fun f' hf' => ?_⟩
    cases hf'
    exact .inl hf
  · rename_i status hstatus
    split
    · exact ⟨rfl, rfl, nofun⟩
    · rename_i hnonzero
      refine ⟨rfl, rfl, fun f' hf' => ?_⟩
      cases hf'
      exact .inr ⟨status, by simpa using hnonzero, hstatus, rfl⟩

/-- The failures of packing are none of finding and none of compiling. -/
def OfPacking (f : Failure) : Prop :=
  f.kind.isOfFinding = false ∧ f.kind ≠ .compilation

theorem pack_blames (base? : Option Path) (selection : Jar.Selection) (root out : Path) :
    Blames OfPacking (Jar.pack base? selection root out) := by
  refine ⟨fun t f t' h => ?_⟩
  unfold Jar.pack at h
  split at h
  · cases h
    exact ⟨rfl, nofun⟩
  · split at h
    · cases h
    · split at h
      · cases h
        exact ⟨rfl, nofun⟩
      · cases h
        exact ⟨rfl, nofun⟩

instance blames_onTree {α : Type} {P : Failure → Prop} (x : EStateM Failure FileTree α) [Blames P x] :
    Blames P (Job.onTree x) := by
  refine ⟨fun w f w' h => ?_⟩
  unfold Job.onTree at h
  cases hx : x w.tree with
  | ok a t =>
    rw [hx] at h
    cases h
  | error f' t =>
    rw [hx] at h
    cases h
    exact Blames.blames _ _ _ hx

theorem packStub_blames (t : TypeInfo) (directory archive : Path) :
    Blames OfPacking (packStub t directory archive) := by
  have hpack := pack_blames
  have hreport : Blames OfPacking (Job.report (.wroteArchive archive)) :=
    inferInstanceAs (Blames OfPacking (modify _))
  unfold packStub
  infer_instance

/-! ## Whole runs -/

/-- Whether the directory is there is asked of the files as they are. -/
theorem exists_comes {directory : Path} :
    Comes (Job.onDisk .system (Disk.exists? directory)) w fun o w' =>
      (∀ found, o = .ok found → w' = w ∧ Disk.exists? directory w.tree = .ok found w.tree) ∧
        ∀ f, o = .error f → ∃ e, f = .system e := by
  have hsame : Ok (Disk.exists? directory) w.tree fun _ t => t = w.tree :=
    ok_bind Disk.find?_ok fun _ _ h => ok_pure h.1
  unfold Comes Job.onDisk Job.onTree
  dsimp only
  cases hx : Disk.exists? directory w.tree with
  | ok found t =>
    obtain rfl := hsame found t hx
    refine ⟨fun found' hfound => ?_, nofun⟩
    cases hfound
    exact ⟨rfl, rfl⟩
  | error e t =>
    refine ⟨nofun, fun f hf => ?_⟩
    cases hf
    exact ⟨e, rfl⟩

/-- The file of an earlier archive stays when a stub is written. -/
theorem places_archive {t : TypeInfo} (ht : IsNamed t) {root directory : Path} {content : Content}
    {tree tree' : FileTree} (h : Disk.Places (StubSource.path t root) content tree tree')
    {l : Location} (hl : tree.locate (directory / (StubSource.className t ++ ".jar")) = .ok l)
    {e : Entry} (he : tree.get? l = some e) : tree'.get? l = some e := by
  have hclass : IsFileName (StubSource.className t) :=
    ht.simpleName.isFileName.append (by decide) (by decide)
  have hjava : IsFileName (StubSource.className t ++ ".java") :=
    hclass.append (by decide) (by decide)
  have hjar : IsFileName (StubSource.className t ++ ".jar") :=
    hclass.append (by decide) (by decide)
  have hne : StubSource.className t ++ ".java" ≠ StubSource.className t ++ ".jar" := by
    intro heq
    have hends := List.append_cancel_left
      ((String.toList_append.symm.trans (congrArg String.toList heq)).trans String.toList_append)
    exact absurd hends (by decide)
  have hpath := Path.div_fileName hjava
    ((if t.package.isEmpty then [] else splitText '.' t.package).foldl Path.child root)
  rw [Path.div_fileName hjar] at hl
  rw [StubSource.path, hpath] at h
  exact h.get?_other hjava hjar hne hl he

theorem implementJar_comes {directory : Path} :
    Comes (g.implementJar typeName directory) w fun o w' => ∀ f, o = .error f →
      (∀ call, w'.calls = w.calls ++ [call] → (g.compiler call).status ≠ .error f) →
      (f.kind.isOfFinding = true → w'.tree = w.tree ∧ w'.calls = w.calls) ∧
      ∀ source status, f = .compileStatus source status → ∃ found r w₁ call,
        Disk.exists? directory w.tree = .ok found w.tree ∧
        g.resolve typeName (if found then [directory] else []) w = .ok r w₁ ∧
        source = StubSource.path r.target directory ∧
        w'.calls = w.calls ++ [call] ∧ call.sources = [source] ∧
        Disk.Places source (.plain (textOf r).toUTF8) w.tree call.tree ∧
        (g.compiler call).status = .ok status ∧ status ≠ 0 ∧ w'.tree = (g.compiler call).tree := by
  unfold implementJar
  refine comes_bind exists_comes (fun found w₀ hfound => ?_) fun f w₀ hf => ?_
  · obtain ⟨rfl, hexists⟩ := hfound.1 found rfl
    refine comes_bind implement_comes (fun stub w₁ ⟨hcalls, _, hstub⟩ => ?_)
      fun f w₁ ⟨hcalls, hf, _⟩ => ?_
    · obtain ⟨⟨w₂, hr⟩, hsource, hplaces⟩ := hstub stub rfl
      refine comes_bind compile_comes (fun _ w₃ _ => ?_)
        fun f w₃ ⟨call, hsources, htree, hcalls', hafter, hf⟩ => ?_
      · have hrest : ∀ (t : TypeInfo) (archive : Path) (packed : Stub), Blames OfPacking (do
            packStub t directory archive
            return packed) := by
          intro t archive packed
          have hpack := packStub_blames t directory archive
          infer_instance
        refine comes_mono ((hrest _ _ _).comes w₃) fun o w' h f hf _ => ?_
        obtain ⟨hfinding, hcompilation⟩ := h f hf
        refine ⟨fun h => absurd (hfinding.symm.trans h) Bool.false_ne_true, fun _ _ h => ?_⟩
        rw [h] at hcompilation
        exact absurd rfl hcompilation
      · intro f' hf' hcompiler
        cases hf'
        rw [hcalls] at hcalls'
        obtain hstatus | ⟨status, hnonzero, hstatus, rfl⟩ := hf f rfl
        · exact absurd hstatus (hcompiler call hcalls')
        · refine ⟨nofun, fun source' status' h => ?_⟩
          cases h
          refine ⟨found, stub.resolution, w₂, call, hexists, hr, hsource, hcalls', hsources, ?_,
            hstatus, hnonzero, hafter⟩
          rw [htree]
          exact hplaces
    · intro f' hf' _
      cases hf'
      obtain ⟨hcompilation, hfinding⟩ := hf f rfl
      refine ⟨fun h => ⟨hfinding h, hcalls⟩, fun source status h => ?_⟩
      rw [h] at hcompilation
      exact absurd rfl hcompilation
  · obtain ⟨e, rfl⟩ := hf.2 f rfl
    intro f' hf' _
    cases hf'
    exact ⟨nofun, nofun⟩

/-- What a failing run leaves, unless the failure is what the compiler itself answered. If no stub was
found, all files are as they were and no compiler was called. If the compiler answered with a status
other than zero, it was called once, with the stub, on files to which nothing was added but the stub
and the directories on the way to it, and since then nothing has changed but what the compiler did; so
an earlier archive was still there. -/
theorem fails_in_stages (g : Generator) (typeName : String) (w w' : Workshop) (f : Failure) :
    (∀ root extraRoots, g.implement typeName root extraRoots w = .error f w' →
      f.kind.isOfFinding = true → w'.tree = w.tree ∧ w'.calls = w.calls) ∧
    ∀ directory, g.implementJar typeName directory w = .error f w' →
      (∀ call, w'.calls = w.calls ++ [call] → (g.compiler call).status ≠ .error f) →
      (f.kind.isOfFinding = true → w'.tree = w.tree ∧ w'.calls = w.calls) ∧
      ∀ source status, f = .compileStatus source status → ∃ found r w₁ call,
        Disk.exists? directory w.tree = .ok found w.tree ∧
        g.resolve typeName (if found then [directory] else []) w = .ok r w₁ ∧
        source = StubSource.path r.target directory ∧
        w'.calls = w.calls ++ [call] ∧ call.sources = [source] ∧
        Disk.Places source (.plain (textOf r).toUTF8) w.tree call.tree ∧
        (g.compiler call).status = .ok status ∧ status ≠ 0 ∧ w'.tree = (g.compiler call).tree ∧
        ∀ l e, w.tree.locate (directory / (StubSource.className r.target ++ ".jar")) = .ok l →
          w.tree.get? l = some e → call.tree.get? l = some e := by
  refine ⟨fun root extraRoots hrun hfinding => ?_, fun directory hrun hcompiler => ?_⟩
  · obtain ⟨hcalls, hfailure, -⟩ := implement_comes.of_error hrun
    exact ⟨(hfailure f rfl).2 hfinding, hcalls⟩
  · obtain ⟨hfinding, hstatus⟩ := implementJar_comes.of_error hrun f rfl hcompiler
    refine ⟨hfinding, fun source status hf => ?_⟩
    obtain ⟨found, r, w₁, call, hexists, hr, rfl, hcalls, hsources, hplaces, hanswer, hnonzero,
      hafter⟩ := hstatus source status hf
    refine ⟨found, r, w₁, call, hexists, hr, rfl, hcalls, hsources, hplaces, hanswer, hnonzero, hafter,
      fun l e hl he => ?_⟩
    exact places_archive (resolve_named r w₁ hr).1 hplaces hl he

/-- A compiler that runs a program fails for reasons of its own, whatever else it comes to. -/
theorem run_status_ne (c : CompilerProgram) {call : CompilerCall} {ending : ProgramEnd}
    {tree : FileTree} {f : Failure} (hf : f.kind.isOfFinding = true ∨
      ∃ source status, f = .compileStatus source status) :
    (c.run call ending tree).status ≠ .error f := by
  intro h
  cases ending with
  | exited status output errors => cases h
  | notFound =>
    cases h
    obtain hf | ⟨_, _, hf⟩ := hf <;> cases hf
  | timedOut =>
    cases h
    obtain hf | ⟨_, _, hf⟩ := hf <;> cases hf

/-- A generator whose compiler accepts nothing. -/
def refused : Generator :=
  ⟨[], [("p/q/A.java", "package p.q; public interface A { }")],
    fun call => (⟨"javac", 60, []⟩ : CompilerProgram).run call (.exited 1 "" "") call.tree⟩

theorem refused_facts :
    (match refused.implement "p.q.B" ⟨0, []⟩ [] ⟨.empty, [], []⟩ with
      | .ok _ _ => false
      | .error f _ => f == .typeNotFound "p.q.B") = true ∧
    (match refused.implementJar "p.q.A" ⟨0, []⟩ ⟨.empty, [], []⟩ with
      | .ok _ _ => false
      | .error f _ => f == .compileStatus ⟨0, ["p", "q", "AImpl.java"]⟩ 1) = true := by
  decide +kernel

theorem fails_in_stages_refused :
    (∃ w', refused.implement "p.q.B" ⟨0, []⟩ [] ⟨.empty, [], []⟩ =
        .error (.typeNotFound "p.q.B") w' ∧ w'.tree = .empty ∧ w'.calls = []) ∧
    ∃ w' call, refused.implementJar "p.q.A" ⟨0, []⟩ ⟨.empty, [], []⟩ =
        .error (.compileStatus ⟨0, ["p", "q", "AImpl.java"]⟩ 1) w' ∧
      w'.calls = [call] ∧ call.sources = [⟨0, ["p", "q", "AImpl.java"]⟩] ∧
      w'.tree = (refused.compiler call).tree := by
  obtain ⟨hfind, hcompile⟩ := refused_facts
  constructor
  · split at hfind
    · cases hfind
    · rename_i f w' hrun
      obtain rfl := beq_iff_eq.mp hfind
      exact ⟨w', hrun, (fails_in_stages refused "p.q.B" _ w' _).1 _ _ hrun rfl⟩
  · split at hcompile
    · cases hcompile
    · rename_i f w' hrun
      obtain rfl := beq_iff_eq.mp hcompile
      obtain ⟨-, hstatus⟩ := (fails_in_stages refused "p.q.A" _ w' _).2 _ hrun
        fun call _ => run_status_ne _ (.inr ⟨_, _, rfl⟩)
      obtain ⟨_, _, _, call, -, -, -, hcalls, hsources, -, -, -, hafter, -⟩ := hstatus _ _ rfl
      exact ⟨w', call, hrun, hcalls, hsources, hafter⟩

end Generator

end StubWriter
