import StubWriter.Proofs.Library.Filed

/-!
# What a library can come across

A library reads units that were given to it, those in its files and those of the platform. So there
are only so many declarations that its types may come from, and its extent has room for all of them
and for the supertypes that they name.

* `Library.declarations`: the declarations that types may come from.
* `Library.headers_declarations`: how much room they take.
* `Library.sum_le_headers`: what different types take together.
-/

namespace StubWriter

namespace Library

/-! ## The texts in files -/

/-- The texts that a file may be read as: its own, and those of the members of an archive. -/
def textsIn (content : Content) : List String :=
  ((Text.decodeUtf8 content.bytes).toOption.map fun text =>
      String.ofList (Text.unifyLineEnds text.toList)).toList ++
    (content.members?.getD []).filterMap fun m => (Text.decodeUtf8 m.2).toOption

/-- The texts in the files of a tree. No labels are needed to tell what they declare. -/
def textsOf (tree : FileTree) : List (String × String) :=
  tree.entries.flatMap fun e =>
    match e.2 with
    | .dir => []
    | .file content => (textsIn content).map ("", ·)

theorem mem_textsOf {tree : FileTree} {l : Location} {content : Content}
    (hfile : tree.get? l = some (.file content)) {text : String} (htext : text ∈ textsIn content) :
    ("", text) ∈ textsOf tree := by
  have hgiven : ¬ l.isGiven := by
    intro hgiven
    rw [FileTree.get?, if_pos hgiven] at hfile
    cases hfile
  exact List.mem_flatMap.mpr ⟨_, FileTree.mem_of_get? hgiven hfile, List.mem_map_of_mem htext⟩

theorem contentAt_ok {tree : FileTree} {p : Path} {content : Content}
    (h : contentAt tree p = .ok content) : ∃ l, tree.get? l = some (.file content) := by
  unfold contentAt at h
  cases hread : Disk.read p tree with
  | error e t =>
    rw [hread] at h
    cases h
  | ok c t =>
    rw [hread] at h
    cases h
    obtain ⟨-, l, -, hfile⟩ := Disk.read_ok content t hread
    exact ⟨l, hfile⟩

theorem fileIn_mem {tree : FileTree} {p : Path} {text : String} (h : fileIn tree p = .ok text) :
    ("", text) ∈ textsOf tree := by
  unfold fileIn at h
  split at h
  · cases h
  rename_i content hcontent
  obtain ⟨l, hfile⟩ := contentAt_ok hcontent
  refine mem_textsOf hfile (List.mem_append_left _ ?_)
  split at h
  · rename_i text' hdecode
    cases h
    simp [hdecode, Except.toOption]
  · cases h

theorem entryIn_mem {tree : FileTree} {root : Path} {entry text : String}
    (h : entryIn tree root entry = .ok text) : ("", text) ∈ textsOf tree := by
  unfold entryIn at h
  split at h
  · cases h
  rename_i members hmembers
  cases hcontent : contentAt tree root with
  | error fault =>
    rw [hcontent] at hmembers
    cases hmembers
  | ok content =>
    obtain ⟨l, hfile⟩ := contentAt_ok hcontent
    have hsome : content.members? = some members := by
      rw [hcontent] at hmembers
      change membersOf content = _ at hmembers
      unfold membersOf at hmembers
      split at hmembers <;> cases hmembers
      assumption
    refine mem_textsOf hfile (List.mem_append_right _ (List.mem_filterMap.mpr ?_))
    split at h
    · cases h
    rename_i bytes hentry
    obtain ⟨before, after, hsplit, -⟩ := List.lookup_eq_some_iff.mp hentry
    refine ⟨(entry, bytes), hsome ▸ List.mem_reverse.mp (by simp [hsplit]), ?_⟩
    split at h
    · rename_i text' hdecode
      cases h
      simp [hdecode, Except.toOption]
    · cases h

/-- A text that is read is one of those in the files. -/
theorem textIn_mem {tree : FileTree} {relative : String} {root : Path} {text : String}
    (h : textIn tree relative root = .ok text) : ("", text) ∈ textsOf tree := by
  cases hasked : askIn tree (isArchive root) with
  | error f =>
    rw [textIn, hasked] at h
    cases h
  | ok archive =>
    cases archive with
    | true => exact entryIn_mem (textIn_archive hasked ▸ h)
    | false => exact fileIn_mem (textIn_directory hasked ▸ h)

/-! ## Their sizes -/

theorem length_decodeUtf8 {bytes : ByteArray} {text : String}
    (h : Text.decodeUtf8 bytes = .ok text) : text.length ≤ bytes.size := by
  unfold Text.decodeUtf8 String.fromUTF8? at h
  split at h
  · rename_i text' hdecode
    cases h
    split at hdecode
    · rename_i hvalid
      cases hdecode
      exact length_le_utf8ByteSize (String.fromUTF8 bytes hvalid)
    · cases hdecode
  · cases h

theorem length_unifyLineEnds (cs : List Char) : (Text.unifyLineEnds cs).length ≤ cs.length := by
  induction cs using Text.unifyLineEnds.induct with
  | case1 rest ih =>
    rw [Text.unifyLineEnds.eq_1, List.length_cons, List.length_cons, List.length_cons]
    omega
  | case2 rest hnext ih =>
    rw [Text.unifyLineEnds.eq_2 _ hnext, List.length_cons, List.length_cons]
    omega
  | case3 c rest hreturn hpair ih =>
    rw [Text.unifyLineEnds.eq_3 c rest hreturn hpair, List.length_cons, List.length_cons]
    omega
  | case4 => exact Nat.zero_le _

/-- The members of an archive have room in the bytes that it counts as. -/
theorem members_le (content : Content) :
    ((content.members?.getD []).map fun m => m.2.size).sum ≤ content.bytes.size := by
  have hfold : ∀ (members : List (String × ByteArray)) (bytes : ByteArray),
      (members.foldl (fun acc m => acc ++ m.2) bytes).size =
        bytes.size + (members.map fun m => m.2.size).sum := by
    intro members
    induction members with
    | nil => exact fun _ => rfl
    | cons m ms ih =>
      intro bytes
      rw [List.foldl_cons, ih, ByteArray.size_append, List.map_cons, List.sum_cons, Nat.add_assoc]
  obtain bytes | ⟨compression, _ | ⟨m, ms⟩⟩ := content
  · change (((if bytes = Content.emptyArchiveBytes then some [] else none).getD []).map
      fun m : String × ByteArray => m.2.size).sum ≤ _
    split <;> exact Nat.zero_le _
  · exact Nat.zero_le _
  · have hbytes : (Content.archive compression (m :: ms)).bytes =
        (m :: ms).foldl (fun acc m => acc ++ m.2) "PK".toUTF8 := rfl
    rw [hbytes, hfold]
    exact Nat.le_add_left _ _

/-- A file may be read twice: as it is, and as an archive. -/
theorem texts_le (content : Content) :
    ((textsIn content).map String.length).sum ≤ 2 * content.bytes.size := by
  have hown : (((Text.decodeUtf8 content.bytes).toOption.map fun text =>
      String.ofList (Text.unifyLineEnds text.toList)).toList.map String.length).sum ≤
        content.bytes.size := by
    cases hdecode : Text.decodeUtf8 content.bytes with
    | error fault => exact Nat.zero_le _
    | ok text =>
      have hunified := length_unifyLineEnds text.toList
      have hlength := length_decodeUtf8 hdecode
      simp only [Except.toOption, Option.map_some, Option.toList_some, List.map_cons, List.map_nil,
        List.sum_singleton, String.length_ofList]
      rw [String.length_toList] at hunified
      exact hunified.trans hlength
  have hmembers : ∀ members : List (String × ByteArray),
      ((members.filterMap fun m => (Text.decodeUtf8 m.2).toOption).map String.length).sum ≤
        (members.map fun m => m.2.size).sum := by
    intro members
    induction members with
    | nil => exact Nat.zero_le _
    | cons m ms ih =>
      rw [List.filterMap_cons, List.map_cons, List.sum_cons]
      cases hdecode : Text.decodeUtf8 m.2 with
      | error fault => exact ih.trans (Nat.le_add_left _ _)
      | ok text =>
        have hlength := length_decodeUtf8 hdecode
        simp only [Except.toOption, List.map_cons, List.sum_cons]
        exact Nat.add_le_add hlength ih
  have hall := (hmembers (content.members?.getD [])).trans (members_le content)
  rw [textsIn, List.map_append, List.sum_append]
  omega

theorem textsOf_le (tree : FileTree) :
    ((textsOf tree).map fun f => f.2.length).sum ≤ 2 * tree.size := by
  have hsize : tree.size = (tree.entries.map fun e => e.2.size).sum := by
    rw [List.sum_eq_foldl, List.foldl_map]
    rfl
  rw [hsize, textsOf]
  generalize tree.entries = es
  induction es with
  | nil => exact Nat.zero_le _
  | cons e es ih =>
    obtain ⟨l, _ | content⟩ := e
    · exact ih.trans (Nat.mul_le_mul_left 2 (Nat.le_add_left _ _))
    · have htexts := texts_le content
      rw [List.flatMap_cons, List.map_append, List.sum_append, List.map_cons, List.sum_cons,
        Nat.mul_add, List.map_map]
      exact Nat.add_le_add htexts ih

/-! ## Declarations -/

/-- The declarations that the types of a library may come from. -/
def declarations (given : List (String × CompilationUnit)) (tree : FileTree) : List Declared :=
  declaredBy (given ++ (readUnits (textsOf tree)).1 ++ Platform.units)

variable {given : List (String × CompilationUnit)} {roots : List Path} {tree : FileTree}

theorem Readable.mem_declarations {unit : CompilationUnit} {origin : String}
    (h : Readable given roots tree unit origin) {d : Declared} (hd : d ∈ unit.declared) :
    d ∈ declarations given tree := by
  obtain ⟨label, hmem⟩ : ∃ label,
      (label, unit) ∈ given ++ (readUnits (textsOf tree)).1 ++ Platform.units := by
    obtain hgiven | ⟨name, hsource⟩ := h
    · exact ⟨origin, List.mem_append_left _ (List.mem_append_left _ hgiven)⟩
    obtain hfirst | ⟨-, platform, hplatform, hsource⟩ := sourceIn_some hsource
    · obtain ⟨p, -, text, -, htext, hsource⟩ := firstIn_some hfirst
      have hunit : CompilationUnit.ofText text = .ok unit := (congrArg Source.unit hsource).symm
      exact ⟨"", List.mem_append_left _ (List.mem_append_right _
        (mem_readUnits.mpr ⟨text, textIn_mem htext, hunit⟩))⟩
    · have hunit : unit = platform := Except.ok.inj (congrArg Source.unit hsource)
      exact ⟨name, List.mem_append_right _ (hunit ▸ Platform.mem_units hplatform)⟩
  exact List.mem_flatMap.mpr ⟨_, hmem, hd⟩

/-- How much room the headers of all declarations take. -/
theorem headers_declarations (given : List (String × CompilationUnit)) (tree : FileTree) :
    ((declarations given tree).map headerSize).sum ≤
      2 * tree.size + 64 + ((declaredBy given).map headerSize).sum := by
  have hfiles := (headers_le (textsOf tree)).trans (textsOf_le tree)
  have hplatform : ((declaredBy Platform.units).map headerSize).sum ≤ 64 := by
    refine le_trans (le_of_eq ?_) Platform.headers_units
    rw [declaredBy, List.map_flatMap, List.flatMap_def, List.sum_flatten, List.map_map]
    rfl
  unfold declarations declaredBy at *
  rw [List.flatMap_append, List.flatMap_append, List.map_append, List.map_append, List.sum_append,
    List.sum_append]
  omega

/-- Different names take no more together than the headers of the declarations that they stand for. -/
theorem sum_le_headers {ds : List Declared} {entries : List (String × Nat)}
    (hdistinct : (entries.map Prod.fst).Nodup)
    (hdeclared : ∀ e ∈ entries, ∃ d ∈ ds, d.fullName = e.1 ∧ e.2 ≤ headerSize d) :
    (entries.map Prod.snd).sum ≤ (ds.map headerSize).sum := by
  induction entries generalizing ds with
  | nil => exact Nat.zero_le _
  | cons e es ih =>
    obtain ⟨hnew, hdistinct⟩ := List.nodup_cons.mp hdistinct
    obtain ⟨⟨d, hd, hname, hsize⟩, hrest⟩ := List.forall_mem_cons.mp hdeclared
    obtain ⟨before, after, rfl⟩ := List.append_of_mem hd
    have hothers : ∀ e' ∈ es, ∃ d' ∈ before ++ after, d'.fullName = e'.1 ∧ e'.2 ≤ headerSize d' := by
      intro e' he'
      obtain ⟨d', hd', hname', hsize'⟩ := hrest e' he'
      refine ⟨d', ?_, hname', hsize'⟩
      have hne : d' ≠ d := by
        rintro rfl
        exact hnew (hname.symm.trans hname' ▸ List.mem_map_of_mem he')
      simpa [hne] using hd'
    have hsum := ih hdistinct hothers
    simp only [List.map_append, List.map_cons, List.sum_append, List.sum_cons] at hsum ⊢
    omega

end Library

end StubWriter
