import StubWriter.Proofs.Generation.Inspecting
import StubWriter.Proofs.Jar.Packing

/-!
# The archive of a stub

The archive of a stub is made of what the compiler left: of the whole directory of the first part of
its package, or of its class files if it has no package.

* `Generator.implementJar_packs`: what a successful run packs.
-/

namespace StubWriter

open Run

variable {g : Generator} {typeName : String} {w : Workshop}

namespace Job

theorem onTree_ok {α : Type} {x : EStateM Failure FileTree α} {P : α → FileTree → Prop}
    (h : Ok x w.tree P) : Ok (onTree x) w fun a w' => P a w'.tree ∧ w'.calls = w.calls := by
  intro a w' hrun
  unfold onTree at hrun
  cases hx : x w.tree with
  | error f t =>
    rw [hx] at hrun
    cases hrun
  | ok b t =>
    rw [hx] at hrun
    cases hrun
    exact ⟨h _ _ hx, rfl⟩

theorem onDisk_ok {α : Type} {failure : OsError → Failure} {x : Disk α} :
    Ok (onDisk failure x) w fun _ w' => w'.calls = w.calls :=
  ok_mono (onTree_ok (ok_self _ _)) fun _ _ h => h.2

theorem report_ok {e : Event} :
    Ok (report e) w fun _ w' => w'.tree = w.tree ∧ w'.calls = w.calls := by
  intro _ w' hrun
  cases hrun
  exact ⟨rfl, rfl⟩

end Job

namespace Generator

/-- A target with its names: its package is made of identifiers, and its simple name is one. -/
structure IsNamed (t : TypeInfo) : Prop where
  package : ∃ segments, t.package = ".".intercalate segments ∧ ∀ s ∈ segments, IsSegment s
  simpleName : IsSegment t.simpleName

theorem inspect_ok {α : Type} {extraRoots : List Path} {x : Inspection α} :
    Ok (g.inspect extraRoots x) w fun a w' => w'.tree = w.tree ∧ w'.calls = w.calls ∧
      ∃ l walk, Library.ofFiles (g.roots ++ extraRoots) w.tree g.files = .ok () l ∧
        x (Inspection.start l) = .ok a walk := by
  intro a w' hrun
  rw [inspect_run] at hrun
  cases hmade : Library.ofFiles (g.roots ++ extraRoots) w.tree g.files with
  | error f l =>
    rw [hmade] at hrun
    cases hrun
  | ok _ l =>
    rw [hmade] at hrun
    dsimp only at hrun
    cases hx : x (Inspection.start l) with
    | error f walk =>
      rw [hx] at hrun
      cases hrun
    | ok b walk =>
      rw [hx] at hrun
      cases hrun
      exact ⟨rfl, rfl, l, walk, rfl, hx⟩

theorem resolve_named {extraRoots : List Path} : Ok (g.resolve typeName extraRoots) w fun r w' =>
    IsNamed r.target ∧ w'.calls = w.calls := by
  refine ok_mono inspect_ok fun r w' ⟨_, hcalls, l, walk, hmade, hrun⟩ => ⟨?_, hcalls⟩
  obtain ⟨unit, origin, hreadable, d, hd, -, hshapes⟩ := Library.resolve_originates hmade hrun
  have hwritten := hreadable.written fun p hp => Library.readUnits_written hp
  exact ⟨⟨unit.package, hshapes.package, hwritten.package⟩,
    hshapes.simpleName ▸ hwritten.declared d hd⟩

theorem implement_ok {root : Path} {extraRoots : List Path} :
    Ok (g.implement typeName root extraRoots) w fun stub w' =>
      IsNamed stub.resolution.target ∧ w'.calls = w.calls := by
  unfold implement writeSource
  refine ok_bind resolve_named fun r w₁ ⟨hnamed, h₁⟩ => ?_
  refine ok_bind (Q := fun _ w' => w'.calls = w₁.calls) ?_ fun path w₂ h₂ =>
    ok_pure ⟨hnamed, h₂.trans h₁⟩
  refine ok_bind Job.onDisk_ok fun _ w₂ h₂ => ?_
  exact ok_bind Job.report_ok fun _ w₃ h₃ => ok_pure (h₃.2.trans h₂)

/-- A successful compilation leaves what the compiler made. -/
theorem compile_ok {classpath : List String} {source : Path} :
    Ok (g.compile classpath source) w fun _ w' => ∃ call, w'.calls = w.calls ++ [call] ∧
      call.tree = w.tree ∧ (g.compiler call).status = .ok 0 ∧ w'.tree = (g.compiler call).tree := by
  intro _ w' hrun
  unfold compile at hrun
  dsimp only at hrun
  refine ⟨⟨classpath, [source], w.tree⟩, ?_⟩
  split at hrun
  · cases hrun
  · rename_i status hstatus
    split at hrun
    · rename_i hzero
      cases hrun
      exact ⟨rfl, rfl, by rw [hstatus, beq_iff_eq.mp hzero], rfl⟩
    · cases hrun

/-- What the archive of a stub holds. -/
structure Packs (t : TypeInfo) (tree : FileTree) (L : Location)
    (entries : List (String × ByteArray)) : Prop where
  /-- Of a stub in a package, all that is in the directory of the first part of the package. -/
  listing : t.package ≠ "" → ∃ top rest, splitText '.' t.package = top :: rest ∧
    entries = Jar.listing tree L top ∧ (entries.map Prod.fst).Nodup ∧
    ∀ l, Keyed.get? l (Jar.unpack entries) =
      if l.head? = some top then (tree.get? (L ++ l)).map Jar.plain else none
  /-- Of a stub in no package, its class files. -/
  units : t.package = "" → Jar.ListsUnits tree L (StubSource.className t) entries

theorem packStub_ok {t : TypeInfo} {directory : Path} (ht : IsNamed t) :
    Ok (packStub t directory (directory / (StubSource.className t ++ ".jar"))) w fun _ w' =>
      w'.calls = w.calls ∧ (w'.tree.Proper → ∃ L entries, w'.tree.locate directory = .ok L ∧
        Jar.Packed w.tree w'.tree L (StubSource.className t ++ ".jar") entries ∧
        Packs t w'.tree L entries) := by
  have hclass : IsFileName (StubSource.className t) :=
    ht.simpleName.isFileName.append (by decide) (by decide)
  have hfile : IsFileName (StubSource.className t ++ ".jar") :=
    hclass.append (by decide) (by decide)
  rw [Path.div_fileName hfile]
  unfold packStub
  split
  · rename_i hpackage
    have hpackage : t.package = "" := String.isEmpty_iff.mp hpackage
    refine ok_bind (Job.onTree_ok (Jar.pack_files_ok hclass.nonempty hfile ?_ ?_))
      fun _ w₁ ⟨hpacked, hcalls⟩ => ok_mono Job.report_ok fun _ w₂ ⟨htree, hcalls'⟩ =>
        ⟨hcalls'.trans hcalls, fun hproper => ?_⟩
    · exact Jar.not_isUnitName_append (by decide) (by decide)
    · exact Jar.not_isUnitName_append (by decide) (by decide)
    · rw [htree] at hproper ⊢
      obtain ⟨L, entries, hL, hunits, hpacked⟩ := hpacked hproper
      exact ⟨L, entries, hL, hpacked, fun h => absurd hpackage h, fun _ => hunits⟩
  · rename_i hpackage
    have hpackage : t.package ≠ "" := fun h => hpackage (String.isEmpty_iff.mpr h)
    obtain ⟨segments, hsegments, hall⟩ := ht.package
    obtain ⟨top, rest, rfl⟩ : ∃ top rest, segments = top :: rest := by
      cases segments with
      | nil => exact absurd hsegments hpackage
      | cons top rest => exact ⟨top, rest, rfl⟩
    have hsplit : splitText '.' t.package = top :: rest := by
      rw [hsegments]
      exact splitText_intercalate (by decide) (List.cons_ne_nil _ _) fun s hs => (hall s hs).dot
    have htop := hall top List.mem_cons_self
    have hdot : ∀ s : String, '.' ∈ s.toList → top ≠ s := by
      rintro s hs rfl
      exact htop.dot hs
    dsimp only
    rw [hsplit, List.headD_cons, Path.div_fileName htop.isFileName]
    refine ok_bind (Job.onTree_ok (Jar.pack_all_ok htop.isFileName hfile (hdot _ ?_) (hdot _ ?_)))
      fun _ w₁ ⟨hpacked, hcalls⟩ => ok_mono Job.report_ok fun _ w₂ ⟨htree, hcalls'⟩ =>
        ⟨hcalls'.trans hcalls, fun hproper => ?_⟩
    · simp
    · simp [Jar.unfinishedName]
    · rw [htree] at hproper ⊢
      obtain ⟨L, hL, hstands, hpacked⟩ := hpacked hproper
      exact ⟨L, _, hL, hpacked, fun _ => ⟨top, rest, hsplit, rfl,
        Jar.listing_nodup hproper htop.isFileName hstands,
        Jar.unpack_listing hproper htop.isFileName hstands⟩, fun h => absurd h hpackage⟩

/-- The archive of a stub stands in the directory that the stub was made below. Behind the manifest
it holds what stands in that directory: all that is in the first part of the package, in the order of
a walk through it, or else the class files of the stub. Packing has changed nothing else of what the
compiler left, except that it may have made directories. -/
theorem implementJar_packs {directory : Path} {stub : Stub} {w' : Workshop}
    (hrun : g.implementJar typeName directory w = .ok stub w') (hproper : w'.tree.Proper) :
    ∃ L call entries, w'.tree.locate directory = .ok L ∧
      w'.calls = w.calls ++ [call] ∧ (g.compiler call).status = .ok 0 ∧
      stub.archivePath =
        some (directory / (StubSource.className stub.resolution.target ++ ".jar")) ∧
      Jar.Packed (g.compiler call).tree w'.tree L
        (StubSource.className stub.resolution.target ++ ".jar") entries ∧
      Packs stub.resolution.target w'.tree L entries := by
  revert stub w'
  change Ok (g.implementJar typeName directory) w fun stub w' => w'.tree.Proper → _
  unfold implementJar
  refine ok_bind Job.onDisk_ok fun found w₁ h₁ => ?_
  refine ok_bind implement_ok fun stub w₂ ⟨hnamed, h₂⟩ => ?_
  refine ok_bind compile_ok fun _ w₃ ⟨call, h₃, _, hstatus, htree⟩ => ?_
  refine ok_bind (packStub_ok hnamed) fun _ w₄ ⟨h₄, hpacks⟩ => ok_pure fun hproper => ?_
  obtain ⟨L, entries, hL, hpacked, hpacks⟩ := hpacks hproper
  refine ⟨L, call, entries, hL, ?_, hstatus, rfl, htree ▸ hpacked, hpacks⟩
  rw [h₄, h₃, h₂, h₁]

/-- A compiler that makes one class file. -/
def classWriter (source : Path) : Compiler := fun call =>
  match Disk.write source (.plain "class".toUTF8) call.tree with
  | .ok _ tree => ⟨.ok 0, tree, []⟩
  | .error e tree => ⟨.error (.system e), tree, []⟩

def packing : Generator :=
  ⟨[], [("p/q/A.java", "package p.q; public interface A { }")],
    classWriter ⟨0, ["p", "q", "AImpl.class"]⟩⟩

theorem packing_facts :
    (match packing.implementJar "p.q.A" ⟨0, []⟩ ⟨.empty, [], []⟩ with
      | .ok _ w' => decide w'.tree.Proper
      | .error _ _ => false) = true := by
  decide +kernel

theorem implementJar_packs_interface : ∃ stub w',
    packing.implementJar "p.q.A" ⟨0, []⟩ ⟨.empty, [], []⟩ = .ok stub w' ∧ w'.tree.Proper ∧
    ∃ L call entries, w'.tree.locate ⟨0, []⟩ = .ok L ∧ w'.calls = [] ++ [call] ∧
      (packing.compiler call).status = .ok 0 ∧
      stub.archivePath =
        some ((⟨0, []⟩ : Path) / (StubSource.className stub.resolution.target ++ ".jar")) ∧
      Jar.Packed (packing.compiler call).tree w'.tree L
        (StubSource.className stub.resolution.target ++ ".jar") entries ∧
      Packs stub.resolution.target w'.tree L entries := by
  have hfacts := packing_facts
  split at hfacts
  · rename_i stub w' hrun
    have hproper : w'.tree.Proper := of_decide_eq_true hfacts
    exact ⟨stub, w', hrun, hproper, implementJar_packs hrun hproper⟩
  · cases hfacts

end Generator

end StubWriter
