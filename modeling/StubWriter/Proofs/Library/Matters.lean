import StubWriter.Proofs.DirectPath
import StubWriter.Proofs.Library.Bounds

/-!
# What matters to a search

A search for a type asks for files by names: its own, and those that the sources of such names bring
up. If the files at all these places stay as they are, the search comes to the same, whatever else
changes.

* `Library.Stays`, `Library.Answers`: what is found at a path, and in a root, stays the same.
* `Library.Matters`: the names that matter to a type.
* `Library.resolve_again`: a stub is found again as long as the files at places of such names stay.
-/

namespace StubWriter

open Run Run.Link

namespace Library

/-! ## Files that stay -/

/-- What is found at a path stays the same. -/
def Stays (t t' : FileTree) (p : Path) : Prop :=
  askIn t' (Disk.isFile p) = askIn t (Disk.isFile p) ∧
    (askIn t (Disk.isFile p) = .ok true → contentAt t' p = contentAt t p)

variable {t t' : FileTree}

/-- What is found at a direct path depends on the file at its place. -/
theorem stays_direct {p : Path} (hp : p.Direct) {l : Location} (h : FileTree.SameFiles l t t')
    (hl : p.place ≠ l) : Stays t t' p := by
  have hfind := Disk.find?_direct hp
  have hread : ∀ (t : FileTree) (content : Content),
      Disk.find? p t = .ok (some (.file content)) t → contentAt t p = .ok content := by
    intro t content hfile
    obtain ⟨-, hfound⟩ := Disk.find?_ok _ _ hfile
    obtain ⟨m, hm, hget⟩ := hfound _ rfl
    rw [contentAt, Disk.read_eq hm hget]
  by_cases hlong : FileTree.maxPathBytes < p.toString.utf8ByteSize
  · simp only [if_pos hlong] at hfind
    have hask : ∀ t, askIn t (Disk.isFile p) =
        .error (.system { errno := .nameTooLong, path := p }) := by
      intro t
      rw [askIn, Disk.isFile_error (hfind t)]
    refine ⟨(hask t').trans (hask t).symm, fun hfile => ?_⟩
    rw [hask] at hfile
    cases hfile
  · simp only [if_neg hlong] at hfind
    by_cases hfile : ∃ content, t.get? p.place = some (.file content)
    · obtain ⟨content, hget⟩ := hfile
      have hfound := hget ▸ hfind t
      have hfound' := (h _ hl content).mpr hget ▸ hfind t'
      refine ⟨?_, fun _ => (hread t' content hfound').trans (hread t content hfound).symm⟩
      rw [askIn, askIn, Disk.isFile_true hfound, Disk.isFile_true hfound']
    · have hnone : ∀ content, t.get? p.place ≠ some (.file content) := not_exists.mp hfile
      have hnone' : ∀ content, t'.get? p.place ≠ some (.file content) :=
        fun content hget => hnone content ((h _ hl content).mp hget)
      have hask : askIn t (Disk.isFile p) = .ok false := by
        rw [askIn, Disk.isFile_false (hfind t) hnone]
      refine ⟨?_, fun hfile => ?_⟩
      · rw [hask, askIn, Disk.isFile_false (hfind t') hnone']
      · rw [hask] at hfile
        cases hfile

/-- A root that answers the same when it is asked for a file. -/
structure Answers (t t' : FileTree) (relative : String) (root : Path) : Prop where
  has : hasIn t' relative root = hasIn t relative root
  text : hasIn t relative root = .ok true → textIn t' relative root = textIn t relative root

theorem answers_of_stays {relative : String} {root : Path}
    (hroot : isArchiveName root = true → Stays t t' root) (hfile : Stays t t' (root / relative)) :
    Answers t t' relative root := by
  have harchive : askIn t' (isArchive root) = askIn t (isArchive root) := by
    unfold isArchive
    split
    · rename_i hname
      exact (hroot hname).1
    · rfl
  have hcontent : askIn t (isArchive root) = .ok true → contentAt t' root = contentAt t root := by
    unfold isArchive
    intro h
    split at h
    · rename_i hname
      exact (hroot hname).2 h
    · cases h
  cases hasked : askIn t (isArchive root) with
  | error f =>
    refine ⟨?_, fun h => ?_⟩
    · rw [hasIn_error hasked, hasIn_error (harchive.trans hasked)]
    · rw [hasIn_error hasked] at h
      cases h
  | ok archive =>
    have hasked' := harchive.trans hasked
    cases archive with
    | true =>
      refine ⟨?_, fun _ => ?_⟩
      · rw [hasIn_archive hasked, hasIn_archive hasked', entriesIn, hcontent hasked, ← entriesIn]
      · rw [textIn_archive hasked, textIn_archive hasked', entryIn, hcontent hasked, ← entryIn]
    | false =>
      refine ⟨?_, fun h => ?_⟩
      · rw [hasIn_directory hasked, hasIn_directory hasked', hfile.1]
      · rw [hasIn_directory hasked] at h
        rw [textIn_directory hasked, textIn_directory hasked', fileIn, hfile.2 h, ← fileIn]

/-! ## Names that matter -/

/-- The names that matter to a type: its own, and with a name those that decide what the names in
its source mean, the supertypes of the types there and what their methods return. -/
inductive Matters (roots : List Path) (tree : FileTree) (start : String) : String → Prop
  | start : Matters roots tree start start
  | element {name : String} (h : Matters roots tree start name) :
    Matters roots tree start (elementName name)
  | asked {name : String} (h : Matters roots tree start name) {u : CompilationUnit}
    {origin : String} (hsource : sourceIn roots tree name = .ok (some ⟨.ok u, origin⟩))
    {n : List String} (hn : n ∈ u.names) {a : String}
    (ha : a ∈ (Scope.ofUnit u).asks (n.headD "")) : Matters roots tree start a
  | described {name : String} (h : Matters roots tree start name) {u : CompilationUnit}
    {origin : String} (hsource : sourceIn roots tree name = .ok (some ⟨.ok u, origin⟩))
    {d : Declared} (hd : d ∈ u.declared) {place : String} {l l' : Library} {t : TypeInfo}
    (ht : d.describe u.packageName place (Scope.ofUnit u) l = .ok t l') {n : String}
    (hn : n ∈ t.supertypes ++ t.methods.map Method.returns) : Matters roots tree start n

theorem Matters.closed {roots : List Path} {tree : FileTree} {start name : String}
    (h : Matters roots tree start name) {s : Source}
    (hsource : sourceIn roots tree name = .ok (some s)) {u : CompilationUnit}
    (hu : s.unit = .ok u) : u.Closed (Matters roots tree start) := by
  obtain ⟨_, origin⟩ := s
  cases hu
  refine ⟨fun n hn a ha => h.asked hsource hn ha, fun d hd place l t l' hrun => ?_⟩
  refine ⟨fun n hn => h.described hsource hd hrun (List.mem_append_left _ hn), fun m hm => ?_⟩
  exact h.described hsource hd hrun (List.mem_append_right _ (List.mem_map_of_mem hm))

/-- Nothing matters but names among which is the start, with all that the sources of such names bring
up. -/
theorem Matters.of_closed {roots : List Path} {tree : FileTree} {start : String}
    {good : String → Prop} (hstart : good start) (helement : ∀ n, good n → good (elementName n))
    (hclosed : ∀ n, good n → ∀ s, sourceIn roots tree n = .ok (some s) → ∀ u, s.unit = .ok u →
      u.Closed good) {name : String} (h : Matters roots tree start name) : good name := by
  induction h with
  | start => exact hstart
  | element _ ih => exact helement _ ih
  | asked _ hsource hn ha ih => exact (hclosed _ ih _ hsource _ rfl).asks _ hn _ ha
  | described _ hsource hd ht hn ih =>
    obtain ⟨hsuper, hreturns⟩ := (hclosed _ ih _ hsource _ rfl).describes _ hd _ _ _ _ ht
    rcases List.mem_append.mp hn with hn | hn
    · exact hsuper _ hn
    · obtain ⟨m, hm, rfl⟩ := List.mem_map.mp hn
      exact hreturns m hm

/-- A library over one tree and another one. The search in the first one may come to its bound. -/
def retold (roots : List Path) (t t' : FileTree) (good : String → Prop) : Comparison where
  roots := roots
  tree := t
  roots' := roots
  tree' := t'
  naming := ⟨Eq, good⟩
  excused f := ∃ name, f = .endlessHierarchy name

section Retold

variable {roots : List Path} {good : String → Prop}
  (hclosed : ∀ n, good n → ∀ s, sourceIn roots t n = .ok (some s) → ∀ u, s.unit = .ok u →
    u.Closed good)
  (helement : ∀ n, good n → good (elementName n))
  (hplaces : ∀ n, good n → ∀ p ∈ places roots n, Answers t t' p.1 p.2)
include hclosed helement hplaces

theorem retold_agrees : (retold roots t t' good).Agrees where
  closed := hclosed
  element := helement
  places _ := rfl
  excused := by
    rintro _ ⟨name, rfl⟩
    rfl
  files n hn relative hrelative := by
    have hfair : (retold roots t t' good).link.Fair := Comparison.fair (by rintro _ ⟨name, rfl⟩; rfl)
    refine List.forall₂_same.mpr fun root hroot => ?_
    have hanswers : Answers t t' relative root :=
      hplaces n hn (relative, root) (List.mem_flatMap.mpr ⟨relative, hrelative,
        List.mem_map_of_mem hroot⟩)
    refine ⟨?_, fun hfound => ?_, rfl⟩
    · change (retold roots t t' good).link.Meets Eq (hasIn t relative root) (hasIn t' relative root)
      rw [hanswers.has]
      exact hfair.meets_self _
    · change (retold roots t t' good).link.Meets Eq (textIn t relative root) (textIn t' relative root)
      rw [hanswers.text hfound]
      exact hfair.meets_self _

/-- A search in the second tree that may go as far as the one in the first tree comes to the same. -/
theorem retold_resolve {name : String} (hname : good name) {extent : Nat}
    (hextent : (ofUnits roots t []).extent ≤ extent) {r : Resolution} {walk : Walk Library}
    (hrun : Inspection.resolve name (Inspection.start (ofUnits roots t [])) = .ok r walk) :
    ∃ walk', Inspection.resolve name
      (Inspection.start { ofUnits roots t' [] with extent }) = .ok r walk' := by
  have hagrees := retold_agrees hclosed helement hplaces
  have hlinked : (retold roots t t' good).Linked (ofUnits roots t [])
      { ofUnits roots t' [] with extent } :=
    Comparison.ofUnits_linked_extent [] (.inr ⟨hextent, fun n => ⟨n, rfl⟩⟩)
  have hresolve := TypeSupply.resolve_inStep hagrees.supply_inStep hagrees.fair hname
  have hstarts : ((retold roots t t' good).link.walk ⟨Eq, good⟩).states
      (Inspection.start (ofUnits roots t [])) (Inspection.start { ofUnits roots t' [] with extent }) :=
    ⟨hlinked, rfl, fun v hv => absurd hv List.not_mem_nil⟩
  obtain ⟨_, _, hrun', -⟩ | ⟨r', _, _, walk', hrun', hagain, htwin, -⟩ | ⟨_, _, _, _, hrun', -⟩ :=
    hresolve.cases hstarts
  · cases hrun.symm.trans hrun'
  · cases hrun.symm.trans hrun'
    rw [htwin.eq] at hagain
    exact ⟨walk', hagain⟩
  · cases hrun.symm.trans hrun'

end Retold

/-- What the stub of a type consists of, found again when other files have changed. -/
theorem resolve_again {roots : List Path} {tree tree' : FileTree} {name : String}
    (hanswers : ∀ n, Matters roots tree name n → ∀ p ∈ places roots n,
      Answers tree tree' p.1 p.2) {r : Resolution} {walk : Walk Library}
    (hrun : Inspection.resolve name (Inspection.start (ofUnits roots tree [])) = .ok r walk) :
    ∃ walk', Inspection.resolve name (Inspection.start (ofUnits roots tree' [])) = .ok r walk' := by
  have hclosed : ∀ n, Matters roots tree name n → ∀ s, sourceIn roots tree n = .ok (some s) →
      ∀ u, s.unit = .ok u → u.Closed (Matters roots tree name) :=
    fun n hn s hs u hu => hn.closed hs hu
  -- The second tree may be smaller, and then so is the extent of a library over it.
  obtain ⟨walk₁, hwide⟩ := retold_resolve hclosed (fun n hn => hn.element) hanswers .start
    (Nat.le_max_left _ (ofUnits roots tree' []).extent) hrun
  exact resolve_widened (Nat.le_max_right _ _) hwide

end Library

end StubWriter
