import Mathlib.Data.List.Nodup
import StubWriter.Proofs.Jar.Members

/-!
# Packing and unpacking

An archive that was packed holds the entries of the tree in which it stands, and unpacked they are
that tree again.

* `unpack_listing`: what unpacking the entries of a tree leaves.
* `Packed`: what packing leaves.
* `pack_all_ok`, `pack_files_ok`: the archives of a tree and of the class files of a class.
-/

namespace StubWriter

namespace Jar

open FileTree Location Run

variable {tree tree' : FileTree} {base : Path} {L : Location} {entries : List (String × ByteArray)}

/-! ## Unpacking -/

/-- A file with nothing but its bytes. -/
def plain : Entry → Entry
  | .dir => .dir
  | .file content => .file (.plain content.bytes)

/-- Where an entry of an archive is put, and what is put there. A directory has a slash at its end. -/
def place (x : String × ByteArray) : Location × Entry :=
  ((Path.ofString x.1).segments, if x.1.endsWith "/" then .dir else .file (.plain x.2))

/-- What stands where after an archive was unpacked, one entry after the other. -/
def unpack (entries : List (String × ByteArray)) : List (Location × Entry) :=
  entries.foldl (fun found x => Keyed.set (place x).1 (place x).2 found) []

theorem endsWith_slash {s : String} : s.endsWith "/" = true ↔ ∃ front, s = front ++ "/" := by
  rw [String.endsWith, String.Slice.endsWith_string_iff, String.copy_toSlice]
  constructor
  · rintro ⟨front, hfront⟩
    refine ⟨String.ofList front, String.toList_injective ?_⟩
    rw [String.toList_append, String.toList_ofList, hfront]
  · rintro ⟨front, rfl⟩
    exact ⟨front.toList, String.toList_append.symm⟩

theorem splitText_slash (front : String) :
    splitText '/' (front ++ "/") = splitText '/' front ++ [""] := by
  have hslash : "/".toList = ['/'] := by decide
  have happend := splitText_append_sep hslash front ""
  rwa [String.append_empty] at happend

/-- An entry is put where it was taken from. -/
theorem place_entryOf {rel : List String} (hne : rel ≠ []) (hrel : ∀ s ∈ rel, IsFileName s)
    (e : Entry) : place (entryOf ("/".intercalate rel) e) = (rel, plain e) := by
  have hsplit : splitText '/' ("/".intercalate rel) = rel :=
    splitText_intercalate (by decide) hne fun s hs => (hrel s hs).slash
  cases e with
  | dir =>
    have hsegments : (Path.ofString ("/".intercalate rel ++ "/")).segments = rel := by
      rw [Path.ofString, splitText_slash, hsplit, List.filter_append, List.filter_eq_self.mpr]
      · exact List.append_nil rel
      · intro s hs
        simp [(hrel s hs).nonempty, (hrel s hs).here]
    rw [entryOf, place, hsegments, endsWith_slash.mpr ⟨_, rfl⟩]
    rfl
  | file content =>
    have hends : ("/".intercalate rel).endsWith "/" = false := by
      rw [← Bool.not_eq_true, endsWith_slash]
      rintro ⟨front, hfront⟩
      rw [hfront, splitText_slash] at hsplit
      exact (hrel "" (hsplit ▸ by simp)).nonempty rfl
    rw [entryOf, place, hends, Path.ofString_intercalate hne hrel]
    rfl

/-- Entries that are put in different places stand in these places, and nothing else does. -/
theorem get?_unpack {entries : List (String × ByteArray)}
    (hdistinct : (Keyed.keys (entries.map place)).Nodup) (l : Location) :
    Keyed.get? l (unpack entries) = Keyed.get? l (entries.map place) := by
  have hfrom : ∀ (xs : List (Location × Entry)) (found : List (Location × Entry)),
      (Keyed.keys xs).Nodup →
      Keyed.get? l (xs.foldl (fun found x => Keyed.set x.1 x.2 found) found) =
        (Keyed.get? l xs).or (Keyed.get? l found) := by
    intro xs
    induction xs with
    | nil => exact fun found _ => rfl
    | cons x xs ih =>
      intro found hnodup
      obtain ⟨hx, hxs⟩ := List.nodup_cons.mp hnodup
      rw [List.foldl_cons, ih _ hxs, Keyed.get?_set, Keyed.get?]
      by_cases hl : l = x.1
      · subst hl
        have hnone : Keyed.get? x.1 xs = none := by
          rw [Option.eq_none_iff_forall_ne_some]
          exact fun e he => hx (Keyed.mem_keys_iff.mpr ⟨e, he⟩)
        simp [hnone]
      · rw [if_neg hl, if_neg (Ne.symm hl)]
  have hall := hfrom (entries.map place) [] hdistinct
  rw [List.foldl_map] at hall
  rw [unpack, hall]
  exact Option.or_none

section Listing

variable (ht : tree.Proper) {top : String} (htop : IsFileName top)
  (hstands : ∃ e, tree.get? (L ++ [top]) = some e)
include ht htop hstands

theorem names_of_mem_walk {m : Location} (hm : m ∈ tree.walk (L ++ [top])) :
    ∃ rest e, m = L ++ top :: rest ∧ tree.get? m = some e ∧ ∀ s ∈ top :: rest, IsFileName s := by
  obtain rfl | ⟨hbelow, e, he⟩ := mem_walk.mp hm
  · obtain ⟨e, he⟩ := hstands
    exact ⟨[], e, rfl, he, List.forall_mem_singleton.mpr htop⟩
  · obtain ⟨s, rest, rfl, -⟩ := isBelow_iff.mp hbelow
    rw [List.append_assoc] at he ⊢
    exact ⟨s :: rest, e, rfl, he, ht.names (not_isGiven_fileName htop) he⟩

theorem place_listing : (listing tree L top).map place =
    (tree.walk (L ++ [top])).map fun m =>
      (m.drop L.length, plain ((tree.get? m).getD .dir)) := by
  rw [listing, List.map_map]
  refine List.map_congr_left fun m hm => ?_
  obtain ⟨rest, e, rfl, he, hnames⟩ := names_of_mem_walk ht htop hstands hm
  rw [Function.comp_apply, entryAt, he, List.drop_left]
  exact place_entryOf (List.cons_ne_nil _ _) hnames _

/-- No two entries of a listing are put in one place. -/
theorem listing_distinct : (Keyed.keys ((listing tree L top).map place)).Nodup := by
  rw [place_listing ht htop hstands, Keyed.keys, List.map_map]
  refine List.Nodup.map_on (fun m hm m' hm' h => ?_)
    ((walk_sorted tree _).imp fun h => ne_of_lt h)
  obtain ⟨rest, -, rfl, -⟩ := names_of_mem_walk ht htop hstands hm
  obtain ⟨rest', -, rfl, -⟩ := names_of_mem_walk ht htop hstands hm'
  simpa [List.drop_left] using h

theorem listing_nodup : ((listing tree L top).map Prod.fst).Nodup := by
  have hdistinct := listing_distinct ht htop hstands
  rw [Keyed.keys, List.map_map] at hdistinct
  refine List.Nodup.of_map (fun name => (Path.ofString name).segments) ?_
  rw [List.map_map]
  exact hdistinct

/-- The entries of a tree, unpacked, are that tree. -/
theorem unpack_listing (l : Location) :
    Keyed.get? l (unpack (listing tree L top)) =
      if l.head? = some top then (tree.get? (L ++ l)).map plain else none := by
  have hdistinct := listing_distinct ht htop hstands
  rw [get?_unpack hdistinct, place_listing ht htop hstands]
  rw [place_listing ht htop hstands] at hdistinct
  refine Option.ext fun e => ?_
  have hmem : ∀ {xs : List (Location × Entry)}, (Keyed.keys xs).Nodup →
      (Keyed.get? l xs = some e ↔ (l, e) ∈ xs) := fun h =>
    ⟨Keyed.mem_of_get?, Keyed.get?_of_mem h⟩
  rw [hmem hdistinct, List.mem_map]
  constructor
  · rintro ⟨m, hm, heq⟩
    obtain ⟨rest, e', rfl, he', -⟩ := names_of_mem_walk ht htop hstands hm
    rw [List.drop_left, he', Prod.mk.injEq] at heq
    obtain ⟨rfl, rfl⟩ := heq
    rw [List.head?_cons, if_pos rfl, he']
    rfl
  · intro h
    split_ifs at h with hhead
    obtain ⟨e', he', rfl⟩ := Option.map_eq_some_iff.mp h
    obtain ⟨rest, rfl⟩ : ∃ rest, l = top :: rest := by
      cases l with
      | nil => cases hhead
      | cons s rest => exact ⟨rest, by rw [Option.some.inj hhead]⟩
    refine ⟨L ++ top :: rest, mem_walk.mpr ?_, by rw [List.drop_left, he']; rfl⟩
    cases rest with
    | nil => exact .inl rfl
    | cons s rest =>
      refine .inr ⟨isBelow_iff.mpr ⟨s, rest, by simp, ?_⟩, e', he'⟩
      rw [List.append_assoc]
      exact not_isGiven_append (not_isGiven_fileName htop) [s]

end Listing

/-! ## Class files -/

/-- The names of the class files of a class: its own and those of the classes in it. -/
def IsUnitName (className name : String) : Prop :=
  name = className ++ ".class" ∨ ∃ inner, name = className ++ "$" ++ inner ++ ".class"

theorem isCompiledUnitOf_iff {className : String} (hne : className ≠ "") {p : Path} :
    isCompiledUnitOf className p = true ↔ IsUnitName className p.name := by
  have hsplit : ∀ stem : String, stem ≠ "" →
      Path.splitSuffix (stem ++ ".class") = (stem, ".class") := by
    intro stem hstem
    have hdot : '.' ∉ "class".toList := by decide
    have h := Path.splitSuffix_dot hstem (by decide) hdot
    rwa [String.append_assoc] at h
  unfold isCompiledUnitOf IsUnitName Path.stem Path.suffix
  rw [Bool.and_eq_true, Bool.or_eq_true, beq_iff_eq, beq_iff_eq, String.startsWith_string_iff]
  constructor
  · rintro ⟨hsuffix, hstem⟩
    have hname := Path.splitSuffix_append p.name
    rw [hsuffix] at hname
    obtain hstem | ⟨inner, hstem⟩ := hstem
    · exact .inl (hstem ▸ hname.symm)
    · refine .inr ⟨String.ofList inner, ?_⟩
      rw [← hname]
      congr 1
      apply String.toList_injective
      rw [← hstem, String.toList_append (t := String.ofList inner), String.toList_ofList]
  · rintro (hname | ⟨inner, hname⟩)
    · rw [hname, hsplit className hne]
      exact ⟨rfl, .inl rfl⟩
    · have hlong : className ++ "$" ++ inner ≠ "" := by
        intro h
        have := congrArg String.toList h
        simp at this
      rw [hname, hsplit _ hlong]
      refine ⟨rfl, .inr ?_⟩
      rw [String.toList_append (t := inner)]
      exact List.prefix_append _ _

theorem not_isUnitName_append {className front ending : String} (hne : ending.toList ≠ [])
    (hlast : ending.toList.getLast? ≠ some 's') : ¬ IsUnitName className (front ++ ending) := by
  intro h
  have hname : (front ++ ending).toList.getLast? = some 's' := by
    obtain h | ⟨inner, h⟩ := h
    all_goals
      rw [h, String.toList_append, List.getLast?_append_of_ne_nil _ (by decide)]
      decide
  rw [String.toList_append, List.getLast?_append_of_ne_nil _ hne] at hname
  exact hlast hname

/-! ## Packing -/

/-- A packed archive stands in its place, and its unfinished form is gone. Nothing else has changed,
except that directories were made. -/
structure Packed (t t' : FileTree) (L : Location) (file : String)
    (entries : List (String × ByteArray)) : Prop where
  archive : t'.get? (L ++ [file]) =
    some (.file (.archive .deflated ((manifestName, manifestText.toUTF8) :: entries)))
  unfinished : t'.get? (L ++ [unfinishedName file]) = none
  others : ∀ m, m ≠ L ++ [file] → m ≠ L ++ [unfinishedName file] →
    t'.get? m = t.get? m ∨ t.get? m = none ∧ t'.get? m = some .dir

theorem unfinishedName_ne (file : String) : unfinishedName file ≠ file := by
  intro h
  have := congrArg (List.length ∘ String.toList) h
  simp [unfinishedName] at this

theorem onDisk_ok {α : Type} {x : Disk α} {P : α → FileTree → Prop} (h : Ok x tree P) :
    Ok (onDisk x) tree P := by
  intro a t ha
  unfold onDisk at ha
  cases hrun : x tree with
  | error e t' =>
    rw [hrun] at ha
    cases ha
  | ok b t' =>
    rw [hrun] at ha
    cases ha
    exact h _ _ hrun

/-- A finished archive holds the entries of the tree in which it was still unfinished. -/
theorem write_ok {base root dir : Path} {selection : Selection} {file : String}
    (hfile : IsFileName file) :
    Ok (write base root ⟨dir.slashes, dir.segments ++ [file]⟩ selection) tree fun _ t' =>
      ∃ L t entries, t.locate dir = .ok L ∧ t'.locate dir = .ok L ∧
        members t base root selection = .ok entries ∧ Packed tree t' L file entries ∧
        ∀ m, m ≠ L ++ [file] → m ≠ L ++ [unfinishedName file] → t.get? m = t'.get? m := by
  have hpart : IsFileName (unfinishedName file) := hfile.append (by decide) (by decide)
  have hwithName : Path.withName ⟨dir.slashes, dir.segments ++ [file]⟩
      (unfinishedName (Path.name ⟨dir.slashes, dir.segments ++ [file]⟩)) =
      ⟨dir.slashes, dir.segments ++ [unfinishedName file]⟩ := by
    simp [Path.withName, Path.name]
  have hparent : Path.parent ⟨dir.slashes, dir.segments ++ [file]⟩ = dir := by
    simp [Path.parent]
  unfold write
  rw [hwithName, hparent]
  refine ok_bind (onDisk_ok (ok_self _ _)) fun _ t₁ hmade => ?_
  have hadds : Disk.AddsDirs tree t₁ := by
    have := (Disk.moves_makeDirs dir).moves tree
    rwa [hmade] at this
  refine ok_bind (onDisk_ok Disk.write_ok) fun _ t₂ ⟨a, ha, hagiven, hadir, hanot, ht₂⟩ => ?_
  obtain ⟨L, hL, hLa⟩ := locate_append ha
  obtain rfl : a = L ++ [unfinishedName file] :=
    follow_eq_append (List.forall_mem_singleton.mpr hpart.up) hLa
  have hdirs₂ : t₁.KeepsDirs t₂ := by
    intro m hm
    rw [ht₂, if_neg]
    · exact hm
    · rintro rfl
      exact hanot hm
  refine ok_get_bind ?_
  split
  · exact ok_throw _
  rename_i entries hentries
  refine ok_bind (onDisk_ok Disk.write_ok) fun _ t₃ ⟨a, ha', _, _, hanot₂, ht₃⟩ => ?_
  obtain rfl : a = L ++ [unfinishedName file] :=
    Except.ok.inj (ha'.symm.trans (locate_mono hdirs₂ ha))
  have hdirs₃ : t₂.KeepsDirs t₃ := by
    intro m hm
    rw [ht₃, if_neg]
    · exact hm
    · rintro rfl
      exact hanot₂ hm
  refine ok_mono (onDisk_ok Disk.move_ok) fun _ t₄ ⟨a, b, content, ha₃, hb, hcontent, hbnot, ht₄⟩ => ?_
  obtain rfl : a = L ++ [unfinishedName file] :=
    Except.ok.inj (ha₃.symm.trans (locate_mono hdirs₃ ha'))
  obtain rfl : b = L ++ [file] := by
    obtain ⟨k, hk, hkb⟩ := locate_append hb
    obtain rfl : k = L :=
      Except.ok.inj (hk.symm.trans (locate_mono hdirs₃ (locate_mono hdirs₂ hL)))
    exact follow_eq_append (List.forall_mem_singleton.mpr hfile.up) hkb
  have hne : L ++ [unfinishedName file] ≠ L ++ [file] := by
    simpa using unfinishedName_ne file
  rw [ht₃, if_pos rfl] at hcontent
  cases hcontent
  have hafter : ∀ m, m ≠ L ++ [file] → m ≠ L ++ [unfinishedName file] →
      t₄.get? m = t₁.get? m := by
    intro m hm hm'
    rw [ht₄ hne, if_neg hm, if_neg hm', ht₃, if_neg hm', ht₂, if_neg hm']
  have hdirs₄ : t₃.KeepsDirs t₄ := by
    intro m hm
    rw [ht₄ hne, if_neg, if_neg]
    · exact hm
    · rintro rfl
      rw [ht₃, if_pos rfl] at hm
      cases hm
    · rintro rfl
      exact hbnot hm
  refine ⟨L, t₂, entries, locate_mono hdirs₂ hL,
    locate_mono hdirs₄ (locate_mono hdirs₃ (locate_mono hdirs₂ hL)), hentries, ⟨?_, ?_, ?_⟩, ?_⟩
  · rw [ht₄ hne, if_pos rfl]
  · rw [ht₄ hne, if_neg hne, if_pos rfl]
  · intro m hm hm'
    rw [hafter m hm hm']
    exact hadds m
  · intro m hm hm'
    rw [hafter m hm hm', ht₂, if_neg hm']

theorem pack_ok {base? : Option Path} {selection : Selection} {root out : Path}
    {P : Unit → FileTree → Prop} (h : Ok (write (base?.getD root.parent) root out selection) tree P) :
    Ok (pack base? selection root out) tree P := by
  intro u t hrun
  unfold pack at hrun
  split at hrun
  · cases hrun
  · split at hrun
    · rename_i hwrite
      cases hrun
      exact h _ _ hwrite
    · split at hrun <;> cases hrun

/-- The names in a tree are proper if they are in one that differs in an archive alone. -/
theorem proper_of_eq (ht : tree'.Proper) {file : String} (hfile : IsFileName file)
    (h : ∀ m, m ≠ L ++ [file] → m ≠ L ++ [unfinishedName file] → tree.get? m = tree'.get? m) :
    tree.Proper := by
  rintro ⟨m, e⟩ hm s hs
  obtain ⟨hgiven, he⟩ := mem_entries_iff.mp hm
  by_cases hplace : m = L ++ [file] ∨ m = L ++ [unfinishedName file]
  · obtain rfl | rfl := hplace
    · obtain rfl : file = s := by simpa using hs
      exact hfile
    · obtain rfl : unfinishedName file = s := by simpa using hs
      exact hfile.append (by decide) (by decide)
  · rw [not_or] at hplace
    exact ht _ (mem_of_get? hgiven ((h m hplace.1 hplace.2).symm.trans he)) s hs

/-- A listing depends on what stands at the places that it lists. -/
theorem listing_eq {top : String} (h : ∀ rest, tree.get? (L ++ top :: rest) =
    tree'.get? (L ++ top :: rest)) : listing tree L top = listing tree' L top := by
  have hbelow : tree.below (L ++ [top]) = tree'.below (L ++ [top]) := by
    refine below_eq_of_get? fun m hm => ?_
    obtain ⟨s, rest, rfl, -⟩ := isBelow_iff.mp hm
    rw [List.append_assoc]
    exact h _
  rw [listing, listing, walk_eq_below, walk_eq_below, hbelow]
  refine List.map_congr_left fun m hm => ?_
  obtain ⟨rest, rfl⟩ : ∃ rest, m = L ++ top :: rest := by
    obtain rfl | hm := List.mem_cons.mp hm
    · exact ⟨[], rfl⟩
    · obtain ⟨x, hx, rfl⟩ := List.mem_map.mp hm
      obtain ⟨s, rest, hx, -⟩ := isBelow_iff.mp (mem_below.mp hx).1
      exact ⟨s :: rest, by rw [hx, List.append_assoc]; rfl⟩
  rw [entryAt, entryAt, h]

/-- The archive of a tree holds its listing. -/
theorem pack_all_ok {dir : Path} {top file : String} (htop : IsFileName top)
    (hfile : IsFileName file) (hne : top ≠ file) (hne' : top ≠ unfinishedName file) :
    Ok (pack none .all ⟨dir.slashes, dir.segments ++ [top]⟩ ⟨dir.slashes, dir.segments ++ [file]⟩)
      tree fun _ t' => t'.Proper → ∃ L, t'.locate dir = .ok L ∧
        (∃ e, t'.get? (L ++ [top]) = some e) ∧ Packed tree t' L file (listing t' L top) := by
  have hparent : Path.parent ⟨dir.slashes, dir.segments ++ [top]⟩ = dir := by
    simp [Path.parent]
  refine pack_ok (ok_mono (write_ok hfile) fun _ t' ⟨L, t, entries, hL, hL', hentries, hpacked, hsame⟩
    ht' => ⟨L, hL', ?_⟩)
  rw [Option.getD_none, hparent] at hentries
  have ht : t.Proper := proper_of_eq ht' hfile hsame
  have hat : ∀ rest, t.get? (L ++ top :: rest) = t'.get? (L ++ top :: rest) := by
    intro rest
    refine hsame _ (fun h => ?_) fun h => ?_
    · exact hne (List.cons.inj (List.append_cancel_left h)).1
    · exact hne' (List.cons.inj (List.append_cancel_left h)).1
  obtain ⟨⟨e, he⟩, rfl⟩ := members_all ht hL htop hentries
  exact ⟨⟨e, (hat []).symm.trans he⟩, listing_eq hat ▸ hpacked⟩

/-- The entries of the class files of a class among the files in a directory, in their order. -/
structure ListsUnits (t : FileTree) (L : Location) (className : String)
    (entries : List (String × ByteArray)) : Prop where
  sorted : (entries.map Prod.fst).Pairwise (· < ·)
  mem_iff : ∀ name bytes, (name, bytes) ∈ entries ↔ IsUnitName className name ∧
    ∃ content, t.get? (L ++ [name]) = some (.file content) ∧ bytes = content.bytes

theorem entryAt_file {s : String} {content : Content}
    (h : tree.get? (L ++ [s]) = some (.file content)) :
    entryAt tree L (L ++ [s]) = (s, content.bytes) := by
  rw [entryAt, h, List.drop_left, String.intercalate_singleton]
  rfl

theorem isAccepted_iff {accepts : Path → Bool} {s : String} :
    isAccepted tree base L accepts s = true ↔
      (∃ content, tree.get? (L ++ [s]) = some (.file content)) ∧
        accepts ⟨base.slashes, base.segments ++ [s]⟩ = true := by
  rw [isAccepted, Bool.and_eq_true]
  refine and_congr_left fun _ => ?_
  split
  · rename_i content hcontent
    simp [hcontent]
  · rename_i hnot
    simpa using hnot

/-- The archive of a class holds its class files. -/
theorem pack_files_ok {dir : Path} {className file : String} (hclass : className ≠ "")
    (hfile : IsFileName file) (hnot : ¬ IsUnitName className file)
    (hnot' : ¬ IsUnitName className (unfinishedName file)) :
    Ok (pack (some dir) (.files (isCompiledUnitOf className)) dir
        ⟨dir.slashes, dir.segments ++ [file]⟩)
      tree fun _ t' => t'.Proper → ∃ L entries, t'.locate dir = .ok L ∧
        ListsUnits t' L className entries ∧ Packed tree t' L file entries := by
  refine pack_ok (ok_mono (write_ok hfile) fun _ t' ⟨L, t, entries, hL, hL', hentries, hpacked, hsame⟩
    ht' => ⟨L, entries, hL', ?_, hpacked⟩)
  have ht : t.Proper := proper_of_eq ht' hfile hsame
  obtain ⟨L', hL'', rfl⟩ := members_files ht hentries
  obtain rfl : L = L' := Except.ok.inj (hL.symm.trans hL'')
  have hat : ∀ s, IsUnitName className s → t.get? (L ++ [s]) = t'.get? (L ++ [s]) := by
    intro s hs
    refine hsame _ (fun h => hnot ?_) fun h => hnot' ?_
    · exact (List.singleton_inj.mp (List.append_cancel_left h)) ▸ hs
    · exact (List.singleton_inj.mp (List.append_cancel_left h)) ▸ hs
  have haccepted : ∀ s, isAccepted t dir L (isCompiledUnitOf className) s = true ↔
      (∃ content, t.get? (L ++ [s]) = some (.file content)) ∧ IsUnitName className s := by
    intro s
    rw [isAccepted_iff, isCompiledUnitOf_iff hclass]
    simp [Path.name]
  constructor
  · rw [List.map_map, List.map_congr_left (g := id), List.map_id]
    · exact (names_sorted t L).filter _
    · intro s hs
      obtain ⟨⟨content, hcontent⟩, -⟩ := (haccepted s).mp (List.mem_filter.mp hs).2
      rw [Function.comp_apply, entryAt_file hcontent]
      rfl
  · intro name bytes
    rw [List.mem_map]
    constructor
    · rintro ⟨s, hs, heq⟩
      obtain ⟨⟨content, hcontent⟩, hunit⟩ := (haccepted s).mp (List.mem_filter.mp hs).2
      rw [entryAt_file hcontent] at heq
      cases heq
      exact ⟨hunit, content, (hat _ hunit).symm.trans hcontent, rfl⟩
    · rintro ⟨hunit, content, hcontent, rfl⟩
      have hcontent := (hat _ hunit).trans hcontent
      have hgiven : ¬ isGiven (L ++ [name]) := by
        intro h
        rw [get?, if_pos h] at hcontent
        cases hcontent
      exact ⟨name, List.mem_filter.mpr ⟨mem_names.mpr ⟨hgiven, _, hcontent⟩,
        (haccepted name).mpr ⟨⟨content, hcontent⟩, hunit⟩⟩, entryAt_file hcontent⟩

end Jar

end StubWriter
