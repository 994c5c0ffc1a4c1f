import StubWriter.Proofs.Library.Below
import StubWriter.Proofs.Library.Transcripts

/-!
# Archives in the place of directories

An archive that holds the files below a directory answers for it in every session. The directory is
asked through the system, which refuses paths that are too long; to the archive no name is too long.
So the two agree up to the first refusal.

* `Packs`: an archive that holds the files below a directory.
* `Library.transcript_archive`: sessions with the one and the other among the roots.
-/

namespace StubWriter

open Run Run.Link Library

/-- An archive that holds all files below a directory, each once. They are texts without carriage
returns: in an archive these would stay, but not in a file. -/
structure Packs (tree : FileTree) (directory archive : Path) (l : Location)
    (members : List (String × ByteArray)) : Prop where
  located : tree.locate directory = .ok l
  isDir : tree.get? l = some .dir
  isArchiveName : isArchiveName archive = true
  readable : contentAt tree archive >>= membersOf = .ok members
  distinct : (members.map Prod.fst).Nodup
  same : ∀ entry bytes, (entry, bytes) ∈ members ↔ ∃ names content, names ≠ [] ∧
    (∀ s ∈ names, IsFileName s) ∧ entry = "/".intercalate names ∧
      tree.get? (l ++ names) = some (.file content) ∧ content.bytes = bytes
  texts : ∀ m ∈ members, ∃ text, Text.decodeUtf8 m.2 = .ok text ∧ '\r' ∉ text.toList

/-- A library with an archive in the place of a directory. Types are named by other places, and the
directory may refuse a path that is too long. -/
def archiving (before after : List Path) (tree : FileTree) (directory archive : Path) :
    Comparison where
  roots := before ++ directory :: after
  tree := tree
  roots' := before ++ archive :: after
  tree' := tree
  naming := {
    places := fun p p' => p = p' ∨ ∃ relative : String,
      p = toString (directory / relative) ∧ p' = toString (archive / relative)
    good := LeadsDown }
  excused := fun f => ∃ relative : String,
    f = .system { errno := .nameTooLong, path := directory / relative }

namespace Packs

variable {tree : FileTree} {directory archive : Path} {l : Location}
  {members : List (String × ByteArray)} (h : Packs tree directory archive l members)
include h

theorem holds : HoldsBelow tree directory l members :=
  ⟨h.located, h.isDir, h.same⟩

theorem isArchive_archive : askIn tree (isArchive archive) = .ok true := by
  have hread := h.readable
  cases hcontent : contentAt tree archive with
  | error fault =>
    rw [hcontent] at hread
    cases hread
  | ok content =>
    have hrun : Disk.read archive tree = .ok content tree := by
      unfold contentAt at hcontent
      cases hrun : Disk.read archive tree with
      | error e t =>
        rw [hrun] at hcontent
        cases hcontent
      | ok found t =>
        rw [hrun] at hcontent
        obtain ⟨rfl, -⟩ := Disk.read_ok _ _ hrun
        rw [Except.ok.inj hcontent]
    obtain ⟨-, m, hm, hget⟩ := Disk.read_ok _ _ hrun
    have hfind : Disk.find? archive tree = .ok (some (.file content)) tree := by
      rw [Disk.find?_eq, hm, ← hget]
    rw [askIn, isArchive, h.isArchiveName, if_pos rfl, Disk.isFile_true hfind]

theorem hasIn_archive (relative : String) :
    hasIn tree relative archive = .ok ((members.map Prod.fst).contains relative) := by
  rw [hasIn, h.isArchive_archive, entriesIn, h.readable]
  rfl

/-- The text of a file, from the directory and from the archive. -/
theorem text {relative : String} {content : Content} (hmem : (relative, content.bytes) ∈ members)
    (hcontent : contentAt tree (directory / relative) = .ok content) :
    ∃ text, fileIn tree (directory / relative) = .ok text ∧
      entryIn tree archive relative = .ok text := by
  obtain ⟨text, htext, hreturn⟩ := h.texts _ hmem
  have hlookup : members.reverse.lookup relative = some content.bytes := by
    obtain ⟨before, after, hsplit⟩ := List.append_of_mem (List.mem_reverse.mpr hmem)
    refine List.lookup_eq_some_iff.mpr ⟨before, after, hsplit, fun p hp => ?_⟩
    have hnodup := h.distinct
    rw [← List.nodup_reverse, ← List.map_reverse, hsplit, List.map_append, List.map_cons,
      List.nodup_middle, List.nodup_cons] at hnodup
    rw [bne_iff_ne]
    rintro rfl
    have hkey : p.1 ∈ before.map Prod.fst := List.mem_map_of_mem hp
    exact hnodup.1 (List.mem_append_left _ hkey)
  refine ⟨text, ?_, ?_⟩
  · rw [fileIn, hcontent]
    dsimp only
    rw [htext]
    dsimp only
    rw [unifyLineEnds_eq hreturn, String.ofList_toList]
  · rw [entryIn, h.readable]
    dsimp only
    rw [hlookup]
    dsimp only
    rw [htext]

/-- What the directory and the archive say of a file. -/
theorem answers {relative : String} {names : List String} (hne : names ≠ [])
    (hrelative : relative = "/".intercalate names)
    (hnames : ∀ s ∈ names, s ≠ "" ∧ s ≠ "." ∧ s ≠ ".." ∧ '/' ∉ s.toList) :
    askIn tree (Disk.isFile (directory / relative)) =
        .error (.system { errno := .nameTooLong, path := directory / relative }) ∨
      (askIn tree (Disk.isFile (directory / relative)) = .ok false ∧
        hasIn tree relative archive = .ok false) ∨
      ∃ text, askIn tree (Disk.isFile (directory / relative)) = .ok true ∧
        hasIn tree relative archive = .ok true ∧
          fileIn tree (directory / relative) = .ok text ∧
            entryIn tree archive relative = .ok text := by
  obtain hlong | ⟨hfile, hnot⟩ | ⟨content, hmem, hfile, hcontent⟩ :=
    h.holds.answers hne hrelative hnames
  · exact .inl hlong
  · refine .inr (.inl ⟨hfile, ?_⟩)
    rw [h.hasIn_archive, Except.ok.injEq, ← Bool.not_eq_true, List.contains_iff_mem, List.mem_map]
    rintro ⟨⟨_, bytes⟩, hmem, rfl⟩
    exact hnot bytes hmem
  · obtain ⟨text, htext, htext'⟩ := h.text hmem hcontent
    refine .inr (.inr ⟨text, hfile, ?_, htext, htext'⟩)
    rw [h.hasIn_archive, Except.ok.injEq, List.contains_iff_mem]
    exact List.mem_map_of_mem (f := Prod.fst) hmem

theorem alike (before after : List Path) {name : String} (hname : LeadsDown name)
    {relative : String} (hrelative : relative ∈ candidates name) :
    (archiving before after tree directory archive).Alike relative directory archive := by
  obtain ⟨names, hne, hspelling, hnames⟩ := hname.candidate hrelative
  have hhas : hasIn tree relative directory = askIn tree (Disk.isFile (directory / relative)) := by
    rw [hasIn, h.holds.isArchive]
    rfl
  have htext : textIn tree relative directory = fileIn tree (directory / relative) := by
    rw [textIn, h.holds.isArchive]
    rfl
  have htext' : textIn tree relative archive = entryIn tree archive relative := by
    rw [textIn, h.isArchive_archive]
    rfl
  have hanswers := h.answers hne hspelling hnames
  rw [← hhas, ← htext, ← htext'] at hanswers
  refine ⟨?_, fun hfound => ?_, .inr ⟨relative, rfl, rfl⟩⟩
  · change (archiving before after tree directory archive).link.Meets Eq
      (hasIn tree relative directory) (hasIn tree relative archive)
    obtain hlong | ⟨hfalse, hfalse'⟩ | ⟨text, htrue, htrue', -⟩ := hanswers
    · exact .inl ⟨_, ⟨relative, rfl⟩, hlong⟩
    · rw [hfalse, hfalse']
      exact meets_ok rfl
    · rw [htrue, htrue']
      exact meets_ok rfl
  · change (archiving before after tree directory archive).link.Meets Eq
      (textIn tree relative directory) (textIn tree relative archive)
    obtain hlong | ⟨hfalse, -⟩ | ⟨text, -, -, hsame, hsame'⟩ := hanswers
    · cases hfound.symm.trans hlong
    · cases hfound.symm.trans hfalse
    · rw [hsame, hsame']
      exact meets_ok rfl

theorem agrees (before after : List Path) :
    (archiving before after tree directory archive).Agrees where
  closed n _ s hs u hu := by
    have hreadable : Readable [] (before ++ directory :: after) tree u s.origin :=
      .inr ⟨n, hs.trans (by rw [← hu])⟩
    exact LeadsDown.closed (hreadable.written fun _ hp => absurd hp List.not_mem_nil)
      (hreadable.typed fun _ hp => absurd hp List.not_mem_nil)
  element n hn := (LeadsDown.bracketed (elementName_bracketed n)).mp hn
  places _ := .inl rfl
  excused := by
    rintro _ ⟨relative, rfl⟩
    rfl
  files name hname relative hrelative := by
    have hfair : (archiving before after tree directory archive).link.Fair :=
      Comparison.fair (by rintro _ ⟨relative, rfl⟩; rfl)
    have hself : ∀ root, (archiving before after tree directory archive).Alike relative
        root root := fun root =>
      ⟨hfair.meets_self _, fun _ => hfair.meets_self _, .inl rfl⟩
    exact List.rel_append (List.forall₂_same.mpr fun root _ => hself root)
      (.cons (h.alike before after hname hrelative) (List.forall₂_same.mpr fun root _ => hself root))

end Packs

/-- A directory and an archive that holds the same files answer alike in every session, step for
step, but for the places by which types and failures are named, until the directory refuses a path
that is too long. -/
theorem Library.transcript_archive {tree : FileTree} {directory archive : Path} {l : Location}
    {members : List (String × ByteArray)} (h : Packs tree directory archive l members)
    (before after : List Path) (files : List (String × String)) {queries : List Query}
    (hqueries : ∀ q ∈ queries, LeadsDown q.name) :
    (archiving before after tree directory archive).link.Meets
      (archiving before after tree directory archive).Agreement
      (transcript (before ++ directory :: after) tree files queries)
      (transcript (before ++ archive :: after) tree files queries) :=
  (h.agrees before after).transcript rfl (fun _ hp => LeadsDown.closed (readUnits_written hp)
    (readUnits_typed hp)) hqueries

/-! ### A directory with one file -/

def packedText : String :=
  "package p; interface A { A f(); }"

def packedMembers : List (String × ByteArray) :=
  [("p/A.java", packedText.toUTF8)]

/-- A directory, and an archive that holds its file. -/
def packed : FileTree :=
  stateAfter (Disk.write ⟨0, ["a.jar"]⟩ (.archive .stored packedMembers)
    (.ofTexts [(["d", "p", "A.java"], packedText)]))

theorem packed_entries : packed.entries =
    [(["d"], .dir), (["d", "p"], .dir), (["d", "p", "A.java"], .file (.plain packedText.toUTF8)),
      (["a.jar"], .file (.archive .stored packedMembers))] := by
  decide +kernel

theorem packs_packed : Packs packed ⟨0, ["d"]⟩ ⟨0, ["a.jar"]⟩ ["d"] packedMembers where
  located := by decide +kernel
  isDir := by decide +kernel
  isArchiveName := by decide +kernel
  readable := by rfl
  distinct := by decide
  same entry bytes := by
    constructor
    · intro hmem
      obtain ⟨rfl, rfl⟩ := Prod.ext_iff.mp (List.mem_singleton.mp hmem)
      exact ⟨["p", "A.java"], .plain packedText.toUTF8, by decide, by decide, by decide,
        by decide +kernel, rfl⟩
    · rintro ⟨names, content, -, -, rfl, hget, rfl⟩
      have hgiven : ¬ Location.isGiven (["d"] ++ names) := by
        simp [Location.isGiven]
      have hmem := FileTree.mem_of_get? hgiven hget
      rw [packed_entries] at hmem
      simp only [List.singleton_append, List.mem_cons, Prod.mk.injEq, List.cons.injEq, reduceCtorEq,
        and_false, false_or, List.not_mem_nil, or_false, Entry.file.injEq, true_and] at hmem
      obtain ⟨rfl, rfl⟩ | ⟨⟨h, -⟩, -⟩ := hmem
      · exact List.mem_singleton.mpr (by decide)
      · exact absurd h (by decide)
  texts m hm := by
    obtain rfl := List.mem_singleton.mp hm
    exact ⟨packedText, by decide +kernel, by decide⟩

def packedQueries : List Query :=
  [.existence "p.A", .about (.load "p.B"), .existence "p.B"]

theorem transcript_archive_packed :
    (∀ q ∈ packedQueries, LeadsDown q.name) ∧
    transcript [⟨0, ["d"]⟩] packed [] packedQueries =
      .ok [.ok (.verdict true), .error (.typeNotFound "p.B"), .ok (.verdict false)] ∧
    (archiving [] [] packed ⟨0, ["d"]⟩ ⟨0, ["a.jar"]⟩).link.Meets
      (archiving [] [] packed ⟨0, ["d"]⟩ ⟨0, ["a.jar"]⟩).Agreement
      (transcript [⟨0, ["d"]⟩] packed [] packedQueries)
      (transcript [⟨0, ["a.jar"]⟩] packed [] packedQueries) :=
  ⟨by decide, by decide +kernel, Library.transcript_archive packs_packed [] [] [] (by decide)⟩

/-! ### A name that is too long for a directory -/

/-- The answer to the question for a name that the platform does not know. -/
theorem transcript_existence (root : Path) (tree : FileTree) {name : String}
    (hplatform : isPlatform name = false) (hlisted : isListed name = false) :
    transcript [root] tree [] [.existence name] =
      .ok [(hasIn tree (ownFile name) root).map .verdict] := by
  rw [← exists?_fresh (Std.Refl.refl (ofUnits [root] tree [])) hplatform hlisted]
  change Except.ok [outcome ((Query.existence name).perform _)] = _
  rw [Query.perform_existence]
  rfl

section Long

variable {long : String} (hchars : ∀ c ∈ long.toList, c = 'x')
include hchars

theorem splitText_long : splitText '.' ("p" ++ "." ++ long) = ["p", long] := by
  have hdot : '.' ∉ long.toList := fun h => absurd (hchars _ h) (by decide)
  rw [splitText_append, splitText_of_not_mem hdot]
  rfl

theorem transcript_long (root : Path) (tree : FileTree) :
    transcript [root] tree [] [.existence ("p" ++ "." ++ long)] =
      .ok [(hasIn tree ("/".intercalate ["p", long ++ ".java"]) root).map .verdict] := by
  have hplatform : isPlatform ("p" ++ "." ++ long) = false := by
    have hnames : ∀ p ∈ Platform.units, (splitText '.' p.1).head? ≠ some "p" := by
      decide +kernel
    rw [isPlatform, Option.isSome_eq_false_iff, Option.isNone_iff_eq_none, Platform.unit?,
      List.lookup_eq_none_iff]
    intro p hp
    rw [bne_iff_ne]
    intro h
    exact hnames p hp (by rw [← h, splitText_long hchars]; rfl)
  have hlisted : isListed ("p" ++ "." ++ long) = false := by
    rw [isListed, splitName, splitText_long hchars]
    rfl
  have hfile : ownFile ("p" ++ "." ++ long) = "/".intercalate ["p", long ++ ".java"] := by
    rw [ownFile, relativeSource, splitText_long hchars]
    exact intercalate_append_end "/" ["p"] long ".java"
  rw [transcript_existence root tree hplatform hlisted, hfile]

theorem hasIn_long_directory (hlong : FileTree.maxNameBytes < (long ++ ".java").utf8ByteSize) :
    hasIn packed ("/".intercalate ["p", long ++ ".java"]) ⟨0, ["d"]⟩ =
      .error (.system { errno := .nameTooLong, path := ⟨0, ["d", "p", long ++ ".java"]⟩ }) := by
  have hnot : ∀ c : Char, c ≠ 'x' → c ∉ ".java".toList → c ∉ (long ++ ".java").toList := by
    intro c hc hjava
    rw [String.toList_append, List.mem_append, not_or]
    exact ⟨fun h => hc (hchars c h), hjava⟩
  have hsegments : ∀ s ∈ ["p", long ++ ".java"], s ≠ "" ∧ s ≠ "." ∧ '/' ∉ s.toList := by
    refine List.forall_mem_cons.mpr ⟨by decide, List.forall_mem_singleton.mpr ?_⟩
    exact ⟨LeadsDown.java_ne long (by decide), LeadsDown.java_ne long (by decide),
      hnot '/' (by decide) (by decide)⟩
  exact hasIn_long (l := ["d", "p"]) ["p"] packs_packed.holds.isArchive (by decide +kernel)
    (by decide +kernel) hsegments (hnot '\x00' (by decide) (by decide)) hlong

omit hchars in
theorem hasIn_long_archive (hlong : 1 < long.length) :
    hasIn packed ("/".intercalate ["p", long ++ ".java"]) ⟨0, ["a.jar"]⟩ = .ok false := by
  have hne : "/".intercalate ["p", long ++ ".java"] ≠ "p/A.java" := by
    intro h
    have hlength := congrArg String.length h
    rw [String.intercalate_cons_cons, String.intercalate_singleton, String.length_append,
      String.length_append, String.length_append] at hlength
    have hparts : "p".length = 1 ∧ "/".length = 1 ∧ ".java".length = 5 ∧ "p/A.java".length = 8 := by
      decide
    omega
  rw [packs_packed.hasIn_archive, Except.ok.injEq, ← Bool.not_eq_true, List.contains_iff_mem]
  exact fun hmem => hne (List.mem_singleton.mp hmem)

end Long

/-- Whether there is a type of a long name cannot be told from a directory, but from an archive. -/
theorem Library.not_transcript_archive : ¬ ∀ (tree : FileTree) (directory archive : Path)
    (l : Location) (members : List (String × ByteArray)),
    Packs tree directory archive l members →
    ∀ (before after : List Path) (files : List (String × String)) (queries : List Query),
      (∀ q ∈ queries, ∀ s ∈ splitText '.' q.name, s ≠ "" ∧ '/' ∉ s.toList) →
      let same := { archiving before after tree directory archive with excused := fun _ => False }
      same.link.Meets same.Agreement (transcript (before ++ directory :: after) tree files queries)
        (transcript (before ++ archive :: after) tree files queries) := by
  intro h
  have hchars : ∀ c ∈ (String.ofList (List.replicate 300 'x')).toList, c = 'x' := by
    rw [String.toList_ofList]
    exact fun c hc => List.eq_of_mem_replicate hc
  have hbytes : FileTree.maxNameBytes <
      (String.ofList (List.replicate 300 'x') ++ ".java").utf8ByteSize := by
    rw [String.utf8ByteSize_append, String.utf8ByteSize_ofList]
    decide +kernel
  have hlength : 1 < (String.ofList (List.replicate 300 'x')).length := by
    rw [String.length_ofList, List.length_replicate]
    decide
  generalize String.ofList (List.replicate 300 'x') = long at hchars hbytes hlength
  have hlong : long ≠ "" := by
    rintro rfl
    exact absurd hlength (by decide)
  have hname : ∀ s ∈ splitText '.' ("p" ++ "." ++ long), s ≠ "" ∧ '/' ∉ s.toList := by
    have hslash : '/' ∉ long.toList := fun h => absurd (hchars _ h) (by decide)
    rw [splitText_long hchars]
    exact List.forall_mem_cons.mpr ⟨by decide, List.forall_mem_singleton.mpr ⟨hlong, hslash⟩⟩
  have hmeets := h _ _ _ _ _ packs_packed [] [] [] [.existence ("p" ++ "." ++ long)]
    (List.forall_mem_singleton.mpr hname)
  dsimp only [List.nil_append] at hmeets
  rw [transcript_long hchars, transcript_long hchars, hasIn_long_directory hchars hbytes,
    hasIn_long_archive hlength] at hmeets
  obtain ⟨_, hexcused, -⟩ | hmeets := hmeets
  · exact hexcused
  cases hmeets with
  | ok hagree =>
    cases hagree with
    | excused hexcused => exact hexcused
    | cons hfirst _ => cases hfirst

end StubWriter
