import StubWriter.Proofs.Library.Below
import StubWriter.Proofs.Library.Given
import StubWriter.Proofs.Library.Stock

/-!
# Units in files of their own

A source directory holds each unit in the file that its top-level type has by its name. A type is
looked for in the files of the types it may be nested in, the longest name first. So the first file
there is declares the type, if any unit does.

* `FiledUnder`: a unit in the file of its type.
* `Shelf`: a directory that holds some texts, each in such a file.
* `Shelf.anyIn_own`, `Shelf.firstIn_cases`: whether a type has a file of its own there, and what is
  found in the place of its source.
* `Shelf.room_lt`: a tree with such a directory is not smaller than what the units declare.
-/

namespace StubWriter

open Run Library

/-! ## Nested types -/

/-- Between a type and one that it contains, all types are declared along with them. -/
theorem declared_between :
    (∀ (fullName : String) (inInterface : Bool) (d : TypeDecl),
      (∀ x ∈ d.declared fullName inInterface, '.' ∉ x.decl.name.toList) →
        ∀ x ∈ d.declared fullName inInterface, ∃ rest,
          splitText '.' x.fullName = splitText '.' fullName ++ rest ∧
            ∀ k, ∃ y ∈ d.declared fullName inInterface,
              splitText '.' y.fullName = splitText '.' fullName ++ rest.take k) ∧
      ∀ (owner : String) (inInterface : Bool) (ds : List TypeDecl),
        (∀ x ∈ declaredAll owner inInterface ds, '.' ∉ x.decl.name.toList) →
          ∀ outer, owner = outer ++ "." → ∀ x ∈ declaredAll owner inInterface ds, ∃ rest,
            splitText '.' x.fullName = splitText '.' outer ++ rest ∧
              ∀ k, ∃ y ∈ declaredAll owner inInterface ds,
                splitText '.' y.fullName = splitText '.' outer ++ rest.take (k + 1) := by
  refine TypeDecl.declared.mutual_induct _ _ ?_ ?_ ?_
  · intro fullName inInterface kind name _ _ _ _ _ _ nested ih hnames x hx
    rw [TypeDecl.declared] at hx hnames ⊢
    obtain ⟨-, hnested⟩ := List.forall_mem_cons.mp hnames
    rcases List.mem_cons.mp hx with rfl | hx
    · exact ⟨[], by simp, fun k => ⟨_, List.mem_cons_self, by simp⟩⟩
    · obtain ⟨rest, hrest, hbetween⟩ := ih hnested fullName rfl x hx
      refine ⟨rest, hrest, fun k => ?_⟩
      cases k with
      | zero => exact ⟨_, List.mem_cons_self, by simp⟩
      | succ k =>
        obtain ⟨y, hy, hsplit⟩ := hbetween k
        exact ⟨y, List.mem_cons_of_mem _ hy, hsplit⟩
  · intro owner inInterface _ outer _ x hx
    cases hx
  · intro owner inInterface d ds ihd ihds hnames outer howner x hx
    rw [declaredAll] at hx hnames ⊢
    obtain ⟨hd, hds⟩ := List.forall_mem_append.mp hnames
    have hname : splitText '.' (owner ++ d.name) = splitText '.' outer ++ [d.name] := by
      obtain ⟨kind, own, mods, tps, extended, implemented, methods, constructors, nested⟩ := d
      rw [TypeDecl.declared] at hd
      rw [howner, splitText_append, splitText_of_not_mem (List.forall_mem_cons.mp hd).1]
    rcases List.mem_append.mp hx with hx | hx
    · obtain ⟨rest, hrest, hbetween⟩ := ihd hd x hx
      refine ⟨d.name :: rest, by rw [hrest, hname, List.append_assoc]; rfl, fun k => ?_⟩
      obtain ⟨y, hy, hsplit⟩ := hbetween k
      refine ⟨y, List.mem_append_left _ hy, ?_⟩
      rw [hsplit, hname, List.append_assoc]
      rfl
    · obtain ⟨rest, hrest, hbetween⟩ := ihds hds outer howner x hx
      refine ⟨rest, hrest, fun k => ?_⟩
      obtain ⟨y, hy, hsplit⟩ := hbetween k
      exact ⟨y, List.mem_append_right _ hy, hsplit⟩

/-! ## Files by names -/

/-- A unit of one top-level type, under the name of the file that this type has. -/
def FiledUnder (label : String) (u : CompilationUnit) : Prop :=
  ∃ d, u.types = [d] ∧ label = ownFile (qualify u.packageName d.name)

instance (label : String) (u : CompilationUnit) : Decidable (FiledUnder label u) :=
  decidable_of_iff (u.types.length = 1 ∧
    ∀ d ∈ u.types, label = ownFile (qualify u.packageName d.name)) (by
      rw [List.length_eq_one_iff]
      constructor
      · rintro ⟨⟨d, htypes⟩, hlabel⟩
        exact ⟨d, htypes, hlabel d (htypes ▸ List.mem_singleton_self d)⟩
      · rintro ⟨d, htypes, hlabel⟩
        exact ⟨⟨d, htypes⟩, htypes ▸ List.forall_mem_singleton.mpr hlabel⟩)

namespace Library

/-- Segments without slashes are told by the file that they lead to. -/
theorem relativeSource_injective {xs ys : List String} (hxs : xs ≠ []) (hys : ys ≠ [])
    (hx : ∀ s ∈ xs, '/' ∉ s.toList) (hy : ∀ s ∈ ys, '/' ∉ s.toList)
    (h : relativeSource xs = relativeSource ys) : xs = ys := by
  have hslash : "/".toList = ['/'] := by decide
  have hjoined : "/".intercalate xs = "/".intercalate ys := by
    apply String.toList_injective
    have hlists := congrArg String.toList h
    rwa [relativeSource, relativeSource, String.toList_append, String.toList_append,
      List.append_cancel_right_eq] at hlists
  rw [← splitText_intercalate hslash hxs hx, hjoined, splitText_intercalate hslash hys hy]

theorem ownFile_injective {a b : String} (ha : LeadsDown a) (hb : LeadsDown b)
    (h : ownFile a = ownFile b) : a = b := by
  rw [← intercalate_splitText a, ← intercalate_splitText b,
    relativeSource_injective (splitText_ne_nil '.' a) (splitText_ne_nil '.' b) ha.slash hb.slash h]

end Library

/-- The name of a type of a unit that stands alone in it. -/
theorem CompilationUnit.declared_single {u : CompilationUnit} (hu : u.Written IsSegment)
    {d : TypeDecl} (htypes : u.types = [d]) :
    u.declared = d.declared (qualify u.packageName d.name) false := by
  have howner : (if u.package.isEmpty then "" else u.packageName ++ ".") ++ d.name =
      qualify u.packageName d.name := by
    unfold qualify
    cases hpackage : u.package with
    | nil => simp [CompilationUnit.packageName, hpackage]
    | cons s rest =>
      have hne : u.packageName ≠ "" := by
        intro hempty
        have hsplit : splitText '.' u.packageName = s :: rest := by
          rw [CompilationUnit.packageName, hpackage]
          exact splitText_intercalate (by decide) (List.cons_ne_nil _ _)
            fun x hx => (hu.package x (hpackage ▸ hx)).dot
        rw [hempty, splitText_of_not_mem (by decide)] at hsplit
        obtain ⟨rfl, -⟩ := List.cons.inj hsplit
        exact (hu.package "" (by simp [hpackage])).nonempty rfl
      simp [hne]
  rw [CompilationUnit.declared, htypes, declaredAll, howner, declaredAll, List.append_nil]

theorem TypeDecl.mem_declared (d : TypeDecl) (fullName : String) (inInterface : Bool) :
    ∃ x ∈ d.declared fullName inInterface, x.fullName = fullName := by
  obtain ⟨kind, own, mods, tps, extended, implemented, methods, constructors, nested⟩ := d
  rw [TypeDecl.declared]
  exact ⟨_, List.mem_cons_self, rfl⟩

/-- The top-level type of a unit gives its file the name, and all types between it and one that it
contains are declared along with them. -/
theorem FiledUnder.top {label : String} {u : CompilationUnit} (h : FiledUnder label u)
    (hu : u.Written IsSegment) : ∃ top, label = ownFile top ∧ LeadsDown top ∧
      (∃ d ∈ u.declared, d.fullName = top) ∧ ∀ x ∈ u.declared, ∃ rest,
        splitText '.' x.fullName = splitText '.' top ++ rest ∧
          ∀ k, ∃ y ∈ u.declared, splitText '.' y.fullName = splitText '.' top ++ rest.take k := by
  obtain ⟨d, htypes, hlabel⟩ := h
  have hdeclared := CompilationUnit.declared_single hu htypes
  obtain ⟨x, hx, hname⟩ := d.mem_declared (qualify u.packageName d.name) false
  have hmem : x ∈ u.declared := hdeclared ▸ hx
  have hnamed : Named IsSegment x.fullName := CompilationUnit.fullName_named isKind_segment hu hmem
  refine ⟨x.fullName, hname ▸ hlabel, .of_named hnamed, ⟨x, hmem, rfl⟩, fun y hy => ?_⟩
  rw [hname]
  rw [hdeclared] at hy ⊢
  exact declared_between.1 _ _ _ (fun z hz => (hu.declared z (hdeclared ▸ hz)).dot) y hy

/-- Where a type is looked for, the file of its unit comes after nothing but files that other types of
the unit would have. -/
theorem FiledUnder.place {label : String} {u : CompilationUnit} (h : FiledUnder label u)
    (hu : u.Written IsSegment) {d : Declared} (hd : d ∈ u.declared) :
    ∃ k : Nat, (candidates d.fullName)[k]? = some label ∧
      ∀ i ≤ k, ∃ y ∈ u.declared, (candidates d.fullName)[i]? = some (ownFile y.fullName) := by
  obtain ⟨top, rfl, -, -, hbetween⟩ := h.top hu
  obtain ⟨rest, hsplit, hall⟩ := hbetween d hd
  have hpos := List.length_pos_iff.mpr (splitText_ne_nil '.' top)
  have hcandidate : ∀ i ≤ rest.length, (candidates d.fullName)[i]? =
      some (relativeSource (splitText '.' top ++ rest.take (rest.length - i))) := by
    intro i hi
    have hlength : (splitText '.' d.fullName).length - i =
        (splitText '.' top).length + (rest.length - i) := by
      rw [hsplit, List.length_append]
      omega
    have htake : (splitText '.' d.fullName).take ((splitText '.' top).length + (rest.length - i)) =
        splitText '.' top ++ rest.take (rest.length - i) := by
      rw [hsplit, List.take_length_add_append]
    unfold candidates
    dsimp only
    rw [List.getElem?_map, List.getElem?_range (by omega), Option.map_some, hlength, htake]
  refine ⟨rest.length, ?_, fun i hi => ?_⟩
  · rw [hcandidate _ le_rfl, Nat.sub_self, List.take_zero, List.append_nil]
    rfl
  · obtain ⟨y, hy, hname⟩ := hall (rest.length - i)
    exact ⟨y, hy, by rw [hcandidate i hi, ← hname]; rfl⟩

/-! ## Directories of units -/

/-- The system refuses a path below a directory that is too long. -/
def TooLong (directory : Path) (f : Failure) : Prop :=
  ∃ relative : String, f = .system { errno := .nameTooLong, path := directory / relative }

/-- A directory that holds some texts and nothing else. Each is that of a unit, in the file of its
type, and ends its lines without carriage returns. -/
structure Shelf (tree : FileTree) (directory : Path) (files : List (String × String)) : Prop where
  holds : ∃ l, HoldsBelow tree directory l (files.map fun f => (f.1, f.2.toUTF8))
  distinct : (files.map Prod.fst).Nodup
  plain : ∀ f ∈ files, '\r' ∉ f.2.toList
  filed : ∀ f ∈ files, ∃ u, CompilationUnit.ofText f.2 = .ok u ∧ FiledUnder f.1 u

/-- A directory with some texts below it and no other files. -/
theorem Shelf.of_entries {tree : FileTree} {directory : Path} {l : Location}
    {files : List (String × String)} (hlocated : tree.locate directory = .ok l)
    (hdir : tree.get? l = some .dir)
    (hheld : ∀ f ∈ files, (∀ s ∈ splitText '/' f.1, IsFileName s) ∧
      (l ++ splitText '/' f.1, Entry.file (.plain f.2.toUTF8)) ∈ tree.entries)
    (hall : ∀ e ∈ tree.entries, e.2 = .dir ∨ ∃ f ∈ files,
      e = (l ++ splitText '/' f.1, Entry.file (.plain f.2.toUTF8)))
    (hdistinct : (files.map Prod.fst).Nodup)
    (htexts : ∀ f ∈ files, '\r' ∉ f.2.toList ∧
      (CompilationUnit.ofText f.2).toOption.any (FiledUnder f.1 ·) = true) :
    Shelf tree directory files := by
  have hslash : "/".toList = ['/'] := by decide
  refine ⟨⟨l, hlocated, hdir, fun entry bytes => ⟨fun hmem => ?_, ?_⟩⟩, hdistinct,
    fun f hf => (htexts f hf).1, fun f hf => ?_⟩
  · obtain ⟨f, hf, heq⟩ := List.mem_map.mp hmem
    obtain ⟨rfl, rfl⟩ := Prod.mk.inj heq
    obtain ⟨hnames, hentry⟩ := hheld f hf
    exact ⟨splitText '/' f.1, _, splitText_ne_nil _ _, hnames, (intercalate_pieces hslash f.1).symm,
      FileTree.get?_of_mem hentry, rfl⟩
  · rintro ⟨names, content, hne, hnames, rfl, hget, rfl⟩
    have hgiven : ¬ Location.isGiven (l ++ names) := by
      obtain ⟨s, rest, rfl⟩ := List.exists_cons_of_ne_nil hne
      exact Location.not_isGiven_append (Location.not_isGiven_fileName (hnames s (by simp))) rest
    obtain hfile | ⟨f, hf, heq⟩ := hall _ (FileTree.mem_of_get? hgiven hget)
    · cases hfile
    · obtain ⟨hlocation, hcontent⟩ := Prod.mk.inj heq
      obtain rfl := List.append_cancel_left hlocation
      cases hcontent
      exact List.mem_map.mpr ⟨f, hf, Prod.ext (intercalate_pieces hslash f.1).symm rfl⟩
  · have hfiled := (htexts f hf).2
    cases hu : CompilationUnit.ofText f.2 with
    | error fault =>
      rw [hu] at hfiled
      cases hfiled
    | ok u =>
      rw [hu] at hfiled
      exact ⟨u, rfl, of_decide_eq_true hfiled⟩

theorem decodeUtf8_toUTF8 (text : String) : Text.decodeUtf8 text.toUTF8 = .ok text := by
  have hdecode : String.fromUTF8? text.toUTF8 = some text := by
    unfold String.fromUTF8?
    split
    · rfl
    · rename_i h
      exact absurd text.isValidUTF8 h
  rw [Text.decodeUtf8, hdecode]

namespace Shelf

variable {tree : FileTree} {directory : Path} {files : List (String × String)}
  (h : Shelf tree directory files)
include h

/-- What the directory says of a file in which a type is looked for. -/
theorem answers {name : String} (hname : LeadsDown name) {relative : String}
    (hrelative : relative ∈ candidates name) :
    (∃ f, TooLong directory f ∧ hasIn tree relative directory = .error f) ∨
      (hasIn tree relative directory = .ok false ∧ relative ∉ files.map Prod.fst) ∨
        ∃ text, (relative, text) ∈ files ∧ hasIn tree relative directory = .ok true ∧
          textIn tree relative directory = .ok text := by
  obtain ⟨l, hholds⟩ := h.holds
  obtain ⟨names, hne, hspelling, hnames⟩ := hname.candidate hrelative
  rw [hasIn_directory hholds.isArchive, textIn_directory hholds.isArchive]
  obtain hlong | ⟨hfile, hnot⟩ | ⟨content, hmem, hfile, hcontent⟩ :=
    hholds.answers hne hspelling hnames
  · exact .inl ⟨_, ⟨relative, rfl⟩, hlong⟩
  · refine .inr (.inl ⟨hfile, fun hmem => ?_⟩)
    obtain ⟨f, hf, rfl⟩ := List.mem_map.mp hmem
    exact hnot _ (List.mem_map_of_mem (f := fun f : String × String => (f.1, f.2.toUTF8)) hf)
  · obtain ⟨⟨_, text⟩, hf, heq⟩ := List.mem_map.mp hmem
    obtain ⟨rfl, hbytes⟩ := Prod.mk.inj heq
    refine .inr (.inr ⟨text, hf, hfile, ?_⟩)
    rw [fileIn, hcontent]
    dsimp only
    rw [← hbytes, decodeUtf8_toUTF8]
    change Except.ok (String.ofList (Text.unifyLineEnds text.toList)) = _
    rw [unifyLineEnds_eq (h.plain _ hf), String.ofList_toList]

/-- Whether a type has a file of its own. -/
theorem anyIn_own {a : String} (ha : LeadsDown a) :
    (∃ f, TooLong directory f ∧ anyIn tree (ownFile a) [directory] = .error f) ∨
      anyIn tree (ownFile a) [directory] =
        .ok ((files.map Prod.fst).contains (ownFile a)) := by
  have hown : ownFile a ∈ candidates a := by
    have hpos := List.length_pos_iff.mpr (splitText_ne_nil '.' a)
    exact List.mem_map.mpr ⟨0, List.mem_range.mpr hpos, by simp [ownFile]⟩
  unfold anyIn
  obtain ⟨f, hf, hhas⟩ | ⟨hhas, hnot⟩ | ⟨text, hmem, hhas, -⟩ := h.answers ha hown
  · exact .inl ⟨f, hf, by rw [hhas]; rfl⟩
  · refine .inr ?_
    have hcontains : (files.map Prod.fst).contains (ownFile a) = false := by
      simpa using hnot
    rw [hhas, hcontains]
    rfl
  · refine .inr ?_
    have hcontains : (files.map Prod.fst).contains (ownFile a) = true :=
      List.contains_iff_mem.mpr (List.mem_map_of_mem (f := Prod.fst) hmem)
    rw [hhas, hcontains]
    rfl

/-- The first of some files that is there, if the directory is asked for all of them. -/
theorem firstIn_cases {relatives : List String} {name : String} (hname : LeadsDown name)
    (hrelatives : relatives ⊆ candidates name) :
    (∃ f, TooLong directory f ∧ firstIn tree (relatives.map (·, directory)) = .error f) ∨
      (∃ (i : Nat) (hi : i < relatives.length) (text : String), (relatives[i], text) ∈ files ∧
        (∀ (j : Nat) (hj : j < i), relatives[j] ∉ files.map Prod.fst) ∧
          firstIn tree (relatives.map (·, directory)) =
            .ok (some ⟨CompilationUnit.ofText text, toString (directory / relatives[i])⟩)) ∨
      (∀ relative ∈ relatives, relative ∉ files.map Prod.fst) ∧
        firstIn tree (relatives.map (·, directory)) = .ok none := by
  induction relatives with
  | nil => exact .inr (.inr ⟨nofun, rfl⟩)
  | cons relative rest ih =>
    obtain ⟨hrelative, hrest⟩ := List.cons_subset.mp hrelatives
    rw [List.map_cons, firstIn]
    obtain ⟨f, hf, hhas⟩ | ⟨hhas, hnot⟩ | ⟨text, hmem, hhas, htext⟩ := h.answers hname hrelative
    · exact .inl ⟨f, hf, by rw [hhas]; rfl⟩
    · rw [hhas]
      obtain ⟨f, hf, hfirst⟩ | ⟨i, hi, text, hmem, hbefore, hfirst⟩ | ⟨hnone, hfirst⟩ := ih hrest
      · exact .inl ⟨f, hf, hfirst⟩
      · refine .inr (.inl ⟨i + 1, Nat.succ_lt_succ hi, text, hmem, fun j hj => ?_, hfirst⟩)
        cases j with
        | zero => exact hnot
        | succ j => exact hbefore j (Nat.lt_of_succ_lt_succ hj)
      · exact .inr (.inr ⟨List.forall_mem_cons.mpr ⟨hnot, hnone⟩, hfirst⟩)
    · refine .inr (.inl ⟨0, Nat.succ_pos _, text, hmem, fun j hj => absurd hj (Nat.not_lt_zero j), ?_⟩)
      rw [hhas]
      change (textIn tree relative directory >>= _) = _
      rw [htext]
      rfl

end Shelf

/-! ## Sizes -/

/-- A text has no more characters than bytes. -/
theorem length_le_utf8ByteSize (s : String) : s.length ≤ s.utf8ByteSize := by
  have hlist : ∀ cs : List Char, cs.length ≤ (String.ofList cs).utf8ByteSize := by
    intro cs
    induction cs with
    | nil => exact Nat.zero_le _
    | cons c cs ih =>
      have hsize : (String.ofList (c :: cs)).utf8ByteSize =
          c.utf8Size + (String.ofList cs).utf8ByteSize := by
        rw [← List.singleton_append, String.ofList_append, String.utf8ByteSize_append]
        congr 1
        exact String.utf8ByteSize_singleton
      have hpos := c.utf8Size_pos
      rw [List.length_cons, hsize]
      omega
  rw [← String.length_toList]
  simpa using hlist s.toList

namespace FileTree

/-- Different files of a tree have room in it together. -/
theorem sum_size_le (t : FileTree) {files : List (Location × Nat)}
    (hdistinct : (files.map Prod.fst).Nodup)
    (hfiles : ∀ f ∈ files, ∃ content, t.get? f.1 = some (.file content) ∧ content.bytes.size = f.2) :
    (files.map Prod.snd).sum ≤ t.size := by
  have hsub : files ⊆ t.entries.map fun x => (x.1, x.2.size) := by
    rintro ⟨l, n⟩ hf
    obtain ⟨content, hget, rfl⟩ := hfiles _ hf
    refine List.mem_map.mpr ⟨(l, .file content), mem_of_get? (fun hgiven => ?_) hget, rfl⟩
    rw [get?, if_pos hgiven] at hget
    cases hget
  obtain ⟨among, hperm, hsublist⟩ := (List.Nodup.of_map Prod.fst hdistinct).subperm hsub
  calc (files.map Prod.snd).sum
      = (among.map Prod.snd).sum := ((hperm.map _).sum_eq).symm
    _ ≤ ((t.entries.map fun x => (x.1, x.2.size)).map Prod.snd).sum :=
        (hsublist.map _).sum_le_sum fun _ _ => Nat.zero_le _
    _ = t.size := by rw [List.map_map, List.sum_eq_foldl, List.foldl_map]; rfl

end FileTree

/-- The headers of all declared types take less room than the texts. -/
theorem Library.headers_le (files : List (String × String)) :
    ((declaredBy (readUnits files).1).map headerSize).sum ≤ (files.map fun f => f.2.length).sum := by
  rw [readUnits_eq]
  induction files with
  | nil => exact Nat.zero_le _
  | cons f files ih =>
    rw [List.filterMap_cons, List.map_cons, List.sum_cons]
    cases hu : CompilationUnit.ofText f.2 with
    | error fault =>
      simp only [Except.toOption, Option.map_none]
      exact ih.trans (Nat.le_add_left _ _)
    | ok u =>
      have hproper : 2 * (u.declared.map headerSize).sum ≤ 2 * f.2.length :=
        (CompilationUnit.ofText_proper hu).size
      rw [declaredBy] at ih
      simp only [Except.toOption, Option.map_some, declaredBy, List.flatMap_cons, List.map_append,
        List.sum_append] at ih ⊢
      omega

/-- A directory of units has room for the headers of all of them. -/
theorem Shelf.room_lt {tree : FileTree} {directory : Path} {files : List (String × String)}
    (h : Shelf tree directory files) : room (readUnits files).1 < 2 * tree.size + 128 := by
  obtain ⟨l, hholds⟩ := h.holds
  have hfile : ∀ f ∈ files, f.1 = "/".intercalate (splitText '/' f.1) ∧ ∃ content,
      tree.get? (l ++ splitText '/' f.1) = some (.file content) ∧ content.bytes = f.2.toUTF8 := by
    intro f hf
    obtain ⟨names, content, hne, hnames, hentry, hget, hbytes⟩ := (hholds.same f.1 f.2.toUTF8).mp
      (List.mem_map_of_mem (f := fun f : String × String => (f.1, f.2.toUTF8)) hf)
    have hsplit : splitText '/' f.1 = names := by
      rw [hentry, splitText_intercalate (by decide) hne fun s hs => (hnames s hs).slash]
    rw [hsplit]
    exact ⟨hentry, content, hget, hbytes⟩
  let stored := files.map fun f => (l ++ splitText '/' f.1, f.2.toUTF8.size)
  have hdistinct : (stored.map Prod.fst).Nodup := by
    have hlabels : stored.map Prod.fst =
        (files.map Prod.fst).map fun label => l ++ splitText '/' label := by
      rw [List.map_map, List.map_map]
      rfl
    rw [hlabels]
    refine h.distinct.map_on fun a ha b hb hsame => ?_
    obtain ⟨f, hf, rfl⟩ := List.mem_map.mp ha
    obtain ⟨g, hg, rfl⟩ := List.mem_map.mp hb
    rw [(hfile f hf).1, (hfile g hg).1, List.append_cancel_left hsame]
  have hsizes : (stored.map Prod.snd).sum ≤ tree.size := by
    refine tree.sum_size_le hdistinct fun x hx => ?_
    obtain ⟨f, hf, rfl⟩ := List.mem_map.mp hx
    obtain ⟨-, content, hget, hbytes⟩ := hfile f hf
    exact ⟨content, hget, congrArg ByteArray.size hbytes⟩
  have hlengths : (files.map fun f => f.2.length).sum ≤ (stored.map Prod.snd).sum := by
    rw [List.map_map]
    exact List.sum_le_sum fun f _ => length_le_utf8ByteSize f.2
  have hheaders := headers_le files
  rw [room]
  omega

end StubWriter
