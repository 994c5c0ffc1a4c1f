import StubWriter.Proofs.Disk
import StubWriter.Proofs.Library.Spelling

/-!
# Files below a directory

The file that may declare a type is looked for below a root, by the segments of the name. If the root
is a directory, the search leads down from it and nowhere else, as long as the segments are names.

* `LeadsDown`: the names that lead down. All names that a unit brings up do.
* `HoldsBelow`: a directory with all files below it. `HoldsBelow.answers` is what it says of a file.
-/

namespace StubWriter

open Run Library

/-- A name whose segments lead down from a directory: no slash is in them, and none but the last one
is empty. -/
structure LeadsDown (name : String) : Prop where
  slash : ∀ s ∈ splitText '.' name, '/' ∉ s.toList
  nonempty : ∀ s ∈ (splitText '.' name).dropLast, s ≠ ""

instance (name : String) : Decidable (LeadsDown name) :=
  decidable_of_iff ((∀ s ∈ splitText '.' name, '/' ∉ s.toList) ∧
    ∀ s ∈ (splitText '.' name).dropLast, s ≠ "") ⟨fun h => ⟨h.1, h.2⟩, fun h => ⟨h.1, h.2⟩⟩

/-! ## Names -/

theorem isKind_segment : IsKind IsSegment :=
  ⟨fun _ hs => hs.dot, by decide⟩

namespace LeadsDown

variable {name base : String}

theorem of_pieces {front : List String} {last last' : String}
    (h : splitText '.' name = front ++ [last]) (hbase : splitText '.' base = front ++ [last'])
    (hlast : '/' ∉ last.toList → '/' ∉ last'.toList) (hname : LeadsDown name) :
    LeadsDown base := by
  obtain ⟨hslash, hnonempty⟩ := hname
  rw [h] at hslash hnonempty
  rw [List.dropLast_concat] at hnonempty
  refine ⟨fun s hs => ?_, fun s hs => ?_⟩
  · rw [hbase] at hs
    rcases List.mem_append.mp hs with hs | hs
    · exact hslash s (List.mem_append_left _ hs)
    · obtain rfl := List.mem_singleton.mp hs
      exact hlast (hslash last (by simp))
  · rw [hbase, List.dropLast_concat] at hs
    exact hnonempty s hs

theorem bracketed (h : Bracketed base name) : LeadsDown name ↔ LeadsDown base := by
  obtain ⟨front, last, b, hb, hbase, hname⟩ := h.pieces
  have hslash : '/' ∉ b.toList := fun h => absurd (hb _ h) (by decide)
  constructor
  · refine of_pieces hname hbase fun h => ?_
    rw [String.toList_append, List.mem_append, not_or] at h
    exact h.1
  · refine of_pieces hbase hname fun h => ?_
    rw [String.toList_append, List.mem_append, not_or]
    exact ⟨h, hslash⟩

theorem of_named (h : Named IsSegment name) : LeadsDown name :=
  ⟨fun s hs => (h s hs).not_mem (by decide), fun s hs => (h s (List.dropLast_subset _ hs)).nonempty⟩

theorem of_erased (h : Erased IsSegment name) : LeadsDown name := by
  have hprimitive : ∀ b ∈ primitiveNames, LeadsDown b := by decide
  obtain ⟨base, hbrackets, hbase⟩ := h.bracketed
  exact (bracketed hbrackets).mpr (hbase.elim (hprimitive base) of_named)

theorem closed {u : CompilationUnit} (hu : u.Written IsSegment) (ht : u.Typed) :
    u.Closed LeadsDown :=
  hu.closed isKind_segment ht fun _ => of_erased

theorem java_ne (s : String) {w : String} (hw : w.toList.length < 5) : s ++ ".java" ≠ w := by
  rintro rfl
  rw [String.toList_append, List.length_append] at hw
  have hjava : ".java".toList.length = 5 := by decide
  omega

/-- The files that may declare a name lie below a root. -/
theorem candidate (h : LeadsDown name) {relative : String} (hrelative : relative ∈ candidates name) :
    ∃ names, names ≠ [] ∧ relative = "/".intercalate names ∧
      ∀ s ∈ names, s ≠ "" ∧ s ≠ "." ∧ s ≠ ".." ∧ '/' ∉ s.toList := by
  obtain ⟨i, hi, rfl⟩ := List.mem_map.mp hrelative
  have hpos : 0 < (splitText '.' name).length - i := by
    have := List.mem_range.mp hi
    omega
  generalize hk : (splitText '.' name).length - i = k at hpos
  have hne : (splitText '.' name).take k ≠ [] := by
    rw [Ne, List.take_eq_nil_iff, not_or]
    exact ⟨by omega, splitText_ne_nil '.' name⟩
  obtain ⟨front, last, hpieces⟩ : ∃ front last, (splitText '.' name).take k = front ++ [last] :=
    ⟨_, _, (List.dropLast_append_getLast hne).symm⟩
  have hmem : ∀ s ∈ front ++ [last], s ∈ splitText '.' name :=
    fun s hs => List.mem_of_mem_take (hpieces ▸ hs)
  have hfront : ∀ s ∈ front, s ∈ (splitText '.' name).dropLast := by
    intro s hs
    have hprefix : front <+: (splitText '.' name).dropLast := by
      have htake : front ++ [last] <+: splitText '.' name := hpieces ▸ List.take_prefix _ _
      obtain ⟨rest, hrest⟩ := htake
      rw [← hrest, List.append_assoc, List.dropLast_append_of_ne_nil (by simp)]
      exact List.prefix_append _ _
    exact hprefix.subset hs
  refine ⟨front ++ [last ++ ".java"], by simp, ?_, fun s hs => ?_⟩
  · rw [relativeSource, hpieces, intercalate_append_end]
  rcases List.mem_append.mp hs with hs | hs
  · have hdot : '.' ∉ s.toList := not_mem_of_mem_splitText (hmem s (List.mem_append_left _ hs))
    refine ⟨h.nonempty s (hfront s hs), ?_, ?_, h.slash s (hmem s (List.mem_append_left _ hs))⟩
    · rintro rfl
      exact hdot (by decide)
    · rintro rfl
      exact hdot (by decide)
  · obtain rfl := List.mem_singleton.mp hs
    refine ⟨java_ne last (by decide), java_ne last (by decide), java_ne last (by decide), ?_⟩
    rw [String.toList_append, List.mem_append, not_or]
    exact ⟨h.slash last (hmem last (by simp)), by decide⟩

end LeadsDown

/-! ## Files -/

theorem unifyLineEnds_eq {cs : List Char} (h : '\r' ∉ cs) : Text.unifyLineEnds cs = cs := by
  induction cs using Text.unifyLineEnds.induct with
  | case1 rest ih => exact absurd List.mem_cons_self h
  | case2 rest _ ih => exact absurd List.mem_cons_self h
  | case3 c rest hc hc' ih =>
    rw [Text.unifyLineEnds.eq_3 c rest hc hc', ih fun hrest => h (List.mem_cons_of_mem _ hrest)]
  | case4 => rfl

/-- What is found of a file below a directory. -/
theorem fileBelow {tree : FileTree} {slashes : Nat} {segments names : List String} {l : Location}
    (h : tree.locate ⟨slashes, segments⟩ = .ok l) (hl : tree.get? l = some .dir)
    (hnames : ∀ s ∈ names, IsFileName s) {p : Path} (hp : p = ⟨slashes, segments ++ names⟩) :
    askIn tree (Disk.isFile p) = .error (.system { errno := .nameTooLong, path := p }) ∨
      (askIn tree (Disk.isFile p) = .ok false ∧
        ∀ content, tree.get? (l ++ names) ≠ some (.file content)) ∨
      ∃ content, tree.get? (l ++ names) = some (.file content) ∧
        askIn tree (Disk.isFile p) = .ok true ∧ contentAt tree p = .ok content := by
  subst hp
  obtain hlong | hfind := Disk.find?_names h hl hnames
  · exact .inl (by rw [askIn, Disk.isFile_error hlong])
  right
  by_cases hfile : ∃ content, tree.get? (l ++ names) = some (.file content)
  · obtain ⟨content, hget⟩ := hfile
    rw [hget] at hfind
    refine .inr ⟨content, hget, by rw [askIn, Disk.isFile_true hfind], ?_⟩
    obtain hlong | hlocate | ⟨-, hnone⟩ := FileTree.locate_names h hl hnames
    · rw [Disk.find?_eq, hlong] at hfind
      cases hfind
    · rw [contentAt, Disk.read_eq hlocate hget]
    · rw [hget] at hnone
      cases hnone
  · have hnone := not_exists.mp hfile
    exact .inl ⟨by rw [askIn, Disk.isFile_false hfind hnone], hnone⟩

/-- A directory is no archive, whatever it is called. -/
theorem Library.isArchive_directory {tree : FileTree} {directory : Path} {l : Location}
    (h : tree.locate directory = .ok l) (hl : tree.get? l = some .dir) :
    askIn tree (isArchive directory) = .ok false := by
  have hfind : Disk.find? directory tree = .ok (some .dir) tree := by
    rw [Disk.find?_eq, h, ← hl]
  unfold isArchive
  split
  · rw [askIn, Disk.isFile_false hfind nofun]
  · rfl

/-- A directory cannot be asked for a file in one of its directories whose name is too long. -/
theorem Library.hasIn_long {tree : FileTree} {root : Path} {s : String} {l : Location}
    (directories : List String) (hroot : askIn tree (isArchive root) = .ok false)
    (h : tree.locate ⟨root.slashes, root.segments ++ directories⟩ = .ok l)
    (hl : tree.get? l = some .dir)
    (hsegments : ∀ x ∈ directories ++ [s], x ≠ "" ∧ x ≠ "." ∧ '/' ∉ x.toList)
    (hnul : '\x00' ∉ s.toList) (hlong : FileTree.maxNameBytes < s.utf8ByteSize) :
    hasIn tree ("/".intercalate (directories ++ [s])) root = .error (.system
      { errno := .nameTooLong, path := ⟨root.slashes, root.segments ++ (directories ++ [s])⟩ }) := by
  have hlocate : tree.locate ⟨root.slashes, root.segments ++ (directories ++ [s])⟩ =
      .error .nameTooLong := by
    rw [← List.append_assoc]
    exact FileTree.locate_long h hl hlong hnul
  have hfind : Disk.find? ⟨root.slashes, root.segments ++ (directories ++ [s])⟩ tree = .error
      { errno := .nameTooLong, path := ⟨root.slashes, root.segments ++ (directories ++ [s])⟩ }
      tree := by
    rw [Disk.find?_eq, hlocate]
    rfl
  rw [hasIn_directory hroot, Path.div_segments (by simp) hsegments, askIn, Disk.isFile_error hfind]

/-- A directory and all files below it, by the names that lead down to them. -/
structure HoldsBelow (tree : FileTree) (directory : Path) (l : Location)
    (members : List (String × ByteArray)) : Prop where
  located : tree.locate directory = .ok l
  isDir : tree.get? l = some .dir
  same : ∀ entry bytes, (entry, bytes) ∈ members ↔ ∃ names content, names ≠ [] ∧
    (∀ s ∈ names, IsFileName s) ∧ entry = "/".intercalate names ∧
      tree.get? (l ++ names) = some (.file content) ∧ content.bytes = bytes

namespace HoldsBelow

variable {tree : FileTree} {directory : Path} {l : Location} {members : List (String × ByteArray)}
  (h : HoldsBelow tree directory l members)
include h

theorem isArchive : askIn tree (isArchive directory) = .ok false :=
  isArchive_directory h.located h.isDir

/-- The file of a name, if the name leads to one below the directory. -/
theorem member {names : List String} (hne : names ≠ [])
    (hnames : ∀ s ∈ names, s ≠ "" ∧ s ≠ "." ∧ s ≠ ".." ∧ '/' ∉ s.toList) (bytes : ByteArray) :
    ("/".intercalate names, bytes) ∈ members ↔ (∀ s ∈ names, IsFileName s) ∧
      ∃ content, tree.get? (l ++ names) = some (.file content) ∧ content.bytes = bytes := by
  rw [h.same]
  constructor
  · rintro ⟨names', content, hne', hnames', hentry, hget, hbytes⟩
    have hslash : "/".toList = ['/'] := by decide
    have hpieces : names = names' := by
      rw [← splitText_intercalate hslash hne fun s hs => (hnames s hs).2.2.2,
        hentry, splitText_intercalate hslash hne' fun s hs => (hnames' s hs).slash]
    exact hpieces ▸ ⟨hnames', content, hget, hbytes⟩
  · rintro ⟨hfiles, content, hget, hbytes⟩
    exact ⟨names, content, hne, hfiles, rfl, hget, hbytes⟩

/-- What the directory says of a file: nothing if the system refuses the path, or else whether it is
there, and what it holds. -/
theorem answers {relative : String} {names : List String} (hne : names ≠ [])
    (hrelative : relative = "/".intercalate names)
    (hnames : ∀ s ∈ names, s ≠ "" ∧ s ≠ "." ∧ s ≠ ".." ∧ '/' ∉ s.toList) :
    askIn tree (Disk.isFile (directory / relative)) =
        .error (.system { errno := .nameTooLong, path := directory / relative }) ∨
      (askIn tree (Disk.isFile (directory / relative)) = .ok false ∧
        ∀ bytes, (relative, bytes) ∉ members) ∨
      ∃ content, (relative, content.bytes) ∈ members ∧
        askIn tree (Disk.isFile (directory / relative)) = .ok true ∧
          contentAt tree (directory / relative) = .ok content := by
  have hpath : directory / relative = ⟨directory.slashes, directory.segments ++ names⟩ := by
    rw [hrelative]
    exact Path.div_segments hne
      (fun s hs => ⟨(hnames s hs).1, (hnames s hs).2.1, (hnames s hs).2.2.2⟩) directory
  have hmember := fun bytes => hrelative ▸ h.member hne hnames bytes
  by_cases hfiles : ∀ s ∈ names, IsFileName s
  · obtain hlong | ⟨hfile, hnone⟩ | ⟨content, hget, hfile, hcontent⟩ :=
      fileBelow h.located h.isDir hfiles hpath
    · exact .inl hlong
    · refine .inr (.inl ⟨hfile, fun bytes hmem => ?_⟩)
      obtain ⟨-, content, hget, -⟩ := (hmember bytes).mp hmem
      exact hnone content hget
    · exact .inr (.inr ⟨content, (hmember content.bytes).mpr ⟨hfiles, content, hget, rfl⟩, hfile,
        hcontent⟩)
  · -- What is no file name though it has no slash in it has a NUL.
    push Not at hfiles
    obtain ⟨s, hs, hfile⟩ := hfiles
    obtain ⟨hnonempty, hhere, hup, hslash⟩ := hnames s hs
    have hnul : '\x00' ∈ s.toList := by
      by_contra hnul
      exact hfile ⟨hnonempty, hhere, hup, hslash, hnul⟩
    have hfind : Disk.find? (directory / relative) tree = .ok none tree :=
      Disk.find?_nul ⟨s, hpath ▸ List.mem_append_right _ hs, hnul⟩
    refine .inr (.inl ⟨by rw [askIn, Disk.isFile_false hfind nofun], fun bytes hmem => ?_⟩)
    exact (((hmember bytes).mp hmem).1 s hs).nul hnul

end HoldsBelow

end StubWriter
