import StubWriter.Jar
import StubWriter.Proofs.Disk

/-!
# The entries of an archive

The entries of an archive are those of the walk through its root, or of the files in it that pass a
test, each named by its place below the base, with the bytes of the file.

* `listing`: the entries of a name in a directory and of all below it.
* `members_all`, `members_files`: the entries of both kinds of archives.
-/

namespace StubWriter

namespace Jar

open FileTree Location Run

variable {tree tree' : FileTree} {base : Path} {L : Location} {entries : List (String × ByteArray)}

/-- The entry of a file or a directory of the given name. -/
def entryOf (name : String) : Entry → String × ByteArray
  | .dir => (name ++ "/", ByteArray.empty)
  | .file content => (name, content.bytes)

/-- The entry of what stands somewhere below a location, named by its place there. -/
def entryAt (tree : FileTree) (L : Location) (l : Location) : String × ByteArray :=
  entryOf ("/".intercalate (l.drop L.length)) ((tree.get? l).getD .dir)

/-- The entries of a name in a directory and of all that is below it, each directory before what it
holds, the names of a directory in their order. -/
def listing (tree : FileTree) (L : Location) (top : String) : List (String × ByteArray) :=
  (tree.walk (L ++ [top])).map (entryAt tree L)

/-! ## Lists of steps -/

section Lists

variable {ε α β : Type}

theorem mapM_eq_map {f : α → Except ε β} {g : α → β} {xs : List α} {ys : List β}
    (h : xs.mapM f = .ok ys) (hf : ∀ x ∈ xs, ∀ y, f x = .ok y → y = g x) : ys = xs.map g := by
  induction xs generalizing ys with
  | nil =>
    cases h
    rfl
  | cons x xs ih =>
    obtain ⟨hx, hxs⟩ := List.forall_mem_cons.mp hf
    rw [List.mapM_cons] at h
    cases hfx : f x with
    | error e => exact nomatch (congrArg (· >>= _) hfx).symm.trans h
    | ok y =>
      rw [hfx] at h
      cases hrest : xs.mapM f with
      | error e =>
        rw [hrest] at h
        cases h
      | ok rest =>
        rw [hrest] at h
        cases h
        rw [List.map_cons, hx y hfx, ih hrest hxs]

theorem ok_of_mapM {f : α → Except ε β} {xs : List α} {ys : List β} (h : xs.mapM f = .ok ys)
    {x : α} (hx : x ∈ xs) : ∃ y, f x = .ok y := by
  induction xs generalizing ys with
  | nil => cases hx
  | cons x' xs ih =>
    rw [List.mapM_cons] at h
    cases hfx : f x' with
    | error e => exact nomatch (congrArg (· >>= _) hfx).symm.trans h
    | ok y =>
      rw [hfx] at h
      cases hrest : xs.mapM f with
      | error e =>
        rw [hrest] at h
        cases h
      | ok rest =>
        obtain rfl | hx := List.mem_cons.mp hx
        · exact ⟨y, hfx⟩
        · exact ih hrest hx

theorem filterM_map_eq {g : β → α} {f : α → Except ε Bool} {p : β → Bool} {xs : List β}
    {ys : List α} (h : (xs.map g).filterM f = .ok ys)
    (hf : ∀ x ∈ xs, ∀ b, f (g x) = .ok b → b = p x) : ys = (xs.filter p).map g := by
  have haux : ∀ acc zs, List.filterAuxM f (xs.map g) acc = .ok zs →
      zs = ((xs.filter p).map g).reverse ++ acc := by
    clear h
    induction xs with
    | nil =>
      intro acc zs h
      cases h
      rfl
    | cons x xs ih =>
      intro acc zs h
      obtain ⟨hx, hxs⟩ := List.forall_mem_cons.mp hf
      rw [List.map_cons, List.filterAuxM] at h
      cases hfx : f (g x) with
      | error e => exact nomatch (congrArg (· >>= _) hfx).symm.trans h
      | ok b =>
        rw [hfx] at h
        rw [ih hxs _ zs h, List.filter_cons, ← hx b hfx]
        cases b <;> simp
  unfold List.filterM at h
  cases hrest : List.filterAuxM f (xs.map g) [] with
  | error e =>
    rw [hrest] at h
    cases h
  | ok zs =>
    rw [hrest] at h
    cases h
    simp [haux [] zs hrest]

theorem filterM_eq_ok {g : β → α} {f : α → Except ε Bool} {p : β → Bool} {xs : List β}
    (hf : ∀ x ∈ xs, f (g x) = .ok (p x)) : (xs.map g).filterM f = .ok ((xs.filter p).map g) := by
  have haux : ∀ acc, List.filterAuxM f (xs.map g) acc =
      .ok (((xs.filter p).map g).reverse ++ acc) := by
    induction xs with
    | nil => exact fun acc => rfl
    | cons x xs ih =>
      intro acc
      obtain ⟨hx, hxs⟩ := List.forall_mem_cons.mp hf
      rw [List.map_cons, List.filterAuxM, hx, List.filter_cons]
      change List.filterAuxM f (xs.map g) (cond (p x) (g x :: acc) acc) = _
      rw [ih hxs]
      cases p x <;> simp
  unfold List.filterM
  rw [haux]
  simp

theorem ok_of_filterM {f : α → Except ε Bool} {xs ys : List α} (h : xs.filterM f = .ok ys)
    {x : α} (hx : x ∈ xs) : ∃ b, f x = .ok b := by
  have haux : ∀ acc zs, List.filterAuxM f xs acc = .ok zs → ∃ b, f x = .ok b := by
    clear h
    induction xs with
    | nil => cases hx
    | cons x' xs ih =>
      intro acc zs h
      rw [List.filterAuxM] at h
      cases hfx : f x' with
      | error e => exact nomatch (congrArg (· >>= _) hfx).symm.trans h
      | ok b =>
        rw [hfx] at h
        rcases List.mem_cons.mp hx with rfl | hx
        · exact ⟨b, hfx⟩
        · exact ih hx _ zs h
  unfold List.filterM at h
  cases hrest : List.filterAuxM f xs [] with
  | error e =>
    rw [hrest] at h
    cases h
  | ok zs => exact haux [] zs hrest
theorem mapM_ok_of {f g : α → Except ε β} {xs : List α} {ys : List β} (h : xs.mapM f = .ok ys)
    (hfg : ∀ x ∈ xs, ∀ y, f x = .ok y → g x = .ok y) : xs.mapM g = .ok ys := by
  induction xs generalizing ys with
  | nil => exact h
  | cons x xs ih =>
    obtain ⟨hx, hxs⟩ := List.forall_mem_cons.mp hfg
    rw [List.mapM_cons] at h ⊢
    cases hfx : f x with
    | error e => exact nomatch (congrArg (· >>= _) hfx).symm.trans h
    | ok y =>
      rw [hfx] at h
      rw [hx y hfx]
      cases hrest : xs.mapM f with
      | error e =>
        rw [hrest] at h
        cases h
      | ok rest =>
        rw [hrest] at h
        change (xs.mapM g >>= _) = _
        rw [ih hrest hxs]
        exact h
end Lists

/-! ## Steps of packing -/

theorem ask_ok {α : Type} {x : Disk α} {P : α → FileTree → Prop} (hx : Ok x tree P) {a : α}
    (h : ask tree x = .ok a) : ∃ t, P a t := by
  unfold ask at h
  cases hrun : x tree with
  | ok b t =>
    rw [hrun] at h
    cases h
    exact ⟨t, hx _ _ hrun⟩
  | error e t =>
    rw [hrun] at h
    cases h

/-- Where a path below a base leads. -/
theorem locate_below (hL : tree.locate base = .ok L) {rel : List String}
    (hrel : ∀ s ∈ rel, s ≠ "..") {l : Location}
    (h : tree.locate ⟨base.slashes, base.segments ++ rel⟩ = .ok l) : l = L ++ rel := by
  obtain ⟨k, hk, hl⟩ := locate_append h
  obtain rfl : L = k := Except.ok.inj (hL.symm.trans hk)
  exact follow_eq_append hrel hl

/-- The entry of a path below the base. The path leads somewhere. -/
theorem member_ok (hL : tree.locate base = .ok L) {rel : List String} (hne : rel ≠ [])
    (hrel : ∀ s ∈ rel, IsFileName s) {x : String × ByteArray}
    (h : member tree base ⟨base.slashes, base.segments ++ rel⟩ = .ok x) :
    tree.locate ⟨base.slashes, base.segments ++ rel⟩ = .ok (L ++ rel) ∧
      (∃ e, tree.get? (L ++ rel) = some e) ∧ x = entryAt tree L (L ++ rel) := by
  have hrelative : Path.relativeTo? ⟨base.slashes, base.segments ++ rel⟩ base = some ⟨0, rel⟩ := by
    simp [Path.relativeTo?, List.isPrefixOf_iff_prefix]
  have hname : Path.toString ⟨0, rel⟩ = "/".intercalate rel := by
    have hempty : rel.isEmpty = false := by simpa using hne
    rw [Path.toString, hempty]
    exact String.empty_append
  have hentry : ∀ e, tree.get? (L ++ rel) = some e →
      entryAt tree L (L ++ rel) = entryOf ("/".intercalate rel) e := by
    intro e he
    rw [entryAt, he, List.drop_left]
    rfl
  unfold member at h
  rw [hrelative] at h
  dsimp only at h
  rw [hname] at h
  cases hdir : ask tree (Disk.isDir ⟨base.slashes, base.segments ++ rel⟩) with
  | error fault =>
    rw [hdir] at h
    cases h
  | ok found =>
    rw [hdir] at h
    obtain ⟨-, -, hfound⟩ := ask_ok Disk.isDir_ok hdir
    cases found with
    | true =>
      cases h
      obtain ⟨l, hl, hget⟩ := hfound rfl
      obtain rfl := locate_below hL (fun s hs => (hrel s hs).up) hl
      exact ⟨hl, ⟨_, hget⟩, (hentry _ hget).symm⟩
    | false =>
      cases hread : ask tree (Disk.read ⟨base.slashes, base.segments ++ rel⟩) with
      | error fault =>
        change (ask tree _ >>= _) = _ at h
        rw [hread] at h
        cases h
      | ok content =>
        change (ask tree _ >>= _) = _ at h
        rw [hread] at h
        cases h
        obtain ⟨-, -, l, hl, hget⟩ := ask_ok Disk.read_ok hread
        obtain rfl := locate_below hL (fun s hs => (hrel s hs).up) hl
        exact ⟨hl, ⟨_, hget⟩, (hentry _ hget).symm⟩

/-- The path to a location, seen from the base. -/
def pathTo (base : Path) (L l : Location) : Path :=
  ⟨base.slashes, base.segments ++ l.drop L.length⟩

theorem selected_all {top : String} {paths : List Path}
    (h : selected tree ⟨base.slashes, base.segments ++ [top]⟩ .all = .ok paths)
    (hroot : tree.locate ⟨base.slashes, base.segments ++ [top]⟩ = .ok (L ++ [top])) :
    paths = (tree.walk (L ++ [top])).map (pathTo base L) := by
  have hpath : ∀ rest, pathBelow ⟨base.slashes, base.segments ++ [top]⟩ (L ++ [top])
      (L ++ [top] ++ rest) = pathTo base L (L ++ [top] ++ rest) := by
    intro rest
    rw [pathBelow, pathTo, List.drop_left, List.append_assoc L, List.drop_left, List.append_assoc]
  rw [walk_eq_below, List.map_cons, List.map_map]
  unfold selected at h
  rw [hroot] at h
  dsimp only at h
  have hhead : (⟨base.slashes, base.segments ++ [top]⟩ : Path) = pathTo base L (L ++ [top]) := by
    rw [pathTo, List.drop_left]
  split at h
  · cases h
    rw [← hhead]
    refine congrArg _ (List.map_congr_left fun x hx => ?_)
    obtain ⟨s, rest, hx, -⟩ := isBelow_iff.mp (mem_below.mp hx).1
    rw [Function.comp_apply, hx]
    exact hpath _
  · rename_i hdir
    cases h
    have hnone : tree.below (L ++ [top]) = [] := by
      refine List.eq_nil_iff_forall_not_mem.mpr fun x hx => hdir ?_
      obtain ⟨hbelow, hget⟩ := mem_below.mp hx
      simp [get?_of_below hbelow hget]
    rw [hnone, ← hhead]
    rfl

/-- The entries of a root and of what is below it. -/
theorem members_all (ht : tree.Proper) (hL : tree.locate base = .ok L) {top : String}
    (htop : IsFileName top)
    (h : members tree base ⟨base.slashes, base.segments ++ [top]⟩ .all = .ok entries) :
    (∃ e, tree.get? (L ++ [top]) = some e) ∧ entries = listing tree L top := by
  unfold members at h
  cases hselected : selected tree ⟨base.slashes, base.segments ++ [top]⟩ .all with
  | error fault =>
    rw [hselected] at h
    cases h
  | ok paths =>
  rw [hselected] at h
  change paths.mapM (member tree base) = _ at h
  have hroot : ⟨base.slashes, base.segments ++ [top]⟩ ∈ paths := by
    dsimp only [selected] at hselected
    split at hselected
    · split at hselected
      all_goals
        cases hselected
        exact List.mem_cons_self
    · cases hselected
      exact List.mem_cons_self
  obtain ⟨x, hx⟩ := ok_of_mapM h hroot
  obtain ⟨hlocated, hstands, -⟩ :=
    member_ok hL (List.cons_ne_nil _ _) (List.forall_mem_singleton.mpr htop) hx
  have hgiven : ¬ isGiven (L ++ [top]) := not_isGiven_fileName htop
  refine ⟨hstands, ?_⟩
  rw [selected_all hselected hlocated, List.mapM_map] at h
  refine mapM_eq_map h fun l hl y hy => ?_
  obtain ⟨rest, rfl, hrest⟩ : ∃ rest, l = L ++ top :: rest ∧ ∀ s ∈ top :: rest, IsFileName s := by
    obtain rfl | ⟨hbelow, e, he⟩ := mem_walk.mp hl
    · exact ⟨[], rfl, List.forall_mem_singleton.mpr htop⟩
    · obtain ⟨s, rest, rfl, -⟩ := isBelow_iff.mp hbelow
      rw [List.append_assoc] at he ⊢
      exact ⟨s :: rest, rfl, ht.names hgiven he⟩
  rw [Function.comp_apply, pathTo, List.drop_left] at hy
  exact (member_ok hL (List.cons_ne_nil _ _) hrest hy).2.2

/-! ## Files of a directory -/

theorem isFile_ok {p : Path} {l : Location} {e : Entry}
    (hl : tree.locate p = .ok l ∨ tree.locate p = .error .nameTooLong) (he : tree.get? l = some e) :
    Ok (Disk.isFile p) tree fun found _ => found = true ↔ ∃ content, e = .file content := by
  have hfind : Ok (Disk.find? p) tree fun e? t => e? = some e := by
    refine ok_get_bind ?_
    rcases hl with hl | hl
    · rw [hl]
      exact ok_pure he
    · rw [hl]
      exact ok_throw _
  refine ok_bind hfind fun e? t he? => ?_
  subst he?
  cases e with
  | dir => exact ok_pure (by simp)
  | file content => exact ok_pure (by simp)

/-- Whether a name in a directory is that of a file which passes a test. -/
def isAccepted (tree : FileTree) (base : Path) (L : Location) (accepts : Path → Bool)
    (s : String) : Bool :=
  (match tree.get? (L ++ [s]) with
    | some (.file _) => true
    | _ => false) && accepts ⟨base.slashes, base.segments ++ [s]⟩

theorem selected_files (ht : tree.Proper) {accepts : Path → Bool} {paths : List Path}
    (h : selected tree base (.files accepts) = .ok paths) :
    ∃ L, tree.locate base = .ok L ∧ paths =
      ((tree.names L).filter (isAccepted tree base L accepts)).map fun s =>
        ⟨base.slashes, base.segments ++ [s]⟩ := by
  unfold selected at h
  cases hlist : ask tree (Disk.list base) with
  | error fault =>
    rw [hlist] at h
    cases h
  | ok found =>
  rw [hlist] at h
  obtain ⟨-, -, L, hL, hdir, rfl⟩ := ask_ok Disk.list_ok hlist
  refine ⟨L, hL, ?_⟩
  have hpaths : (tree.children L).map (fun x => base.join ⟨0, [x.1.getLast?.getD ""]⟩) =
      (tree.names L).map fun s => ⟨base.slashes, base.segments ++ [s]⟩ := by
    rw [names, List.map_map]
    rfl
  dsimp only [bind, Except.bind] at h
  rw [hpaths] at h
  refine filterM_map_eq h fun s hs b hb => ?_
  obtain ⟨hgiven, e, he⟩ := mem_names.mp hs
  have hname : IsFileName s := List.forall_mem_singleton.mp (ht.names hgiven he)
  cases hfile : ask tree (Disk.isFile ⟨base.slashes, base.segments ++ [s]⟩) with
  | error fault =>
    rw [hfile] at hb
    cases hb
  | ok found =>
    rw [hfile] at hb
    cases hb
    obtain ⟨-, hfound⟩ := ask_ok (isFile_ok (locate_concat hL hdir hname) he) hfile
    unfold isAccepted
    rw [he]
    cases e with
    | dir =>
      have : found = false := by simpa using hfound
      rw [this]
    | file content =>
      have : found = true := by simpa using hfound
      rw [this]

/-- The entries of the files in a directory that pass a test. -/
theorem members_files (ht : tree.Proper) {accepts : Path → Bool}
    (h : members tree base base (.files accepts) = .ok entries) :
    ∃ L, tree.locate base = .ok L ∧
      entries = ((tree.names L).filter (isAccepted tree base L accepts)).map fun s =>
        entryAt tree L (L ++ [s]) := by
  unfold members at h
  cases hselected : selected tree base (.files accepts) with
  | error fault =>
    rw [hselected] at h
    cases h
  | ok paths =>
  rw [hselected] at h
  change paths.mapM (member tree base) = _ at h
  obtain ⟨L, hL, rfl⟩ := selected_files ht hselected
  refine ⟨L, hL, ?_⟩
  rw [List.mapM_map] at h
  refine mapM_eq_map h fun s hs y hy => ?_
  obtain ⟨hgiven, e, he⟩ := mem_names.mp (List.mem_of_mem_filter hs)
  exact (member_ok hL (List.cons_ne_nil _ _) (ht.names hgiven he) hy).2.2

end Jar

end StubWriter
