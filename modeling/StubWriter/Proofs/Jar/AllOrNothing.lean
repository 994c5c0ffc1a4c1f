import StubWriter.Proofs.Jar.Touching

/-!
# All or nothing

A packing leaves a complete archive in its place, or it is refused and leaves what stood there, and
in both cases nothing unfinished stays behind. This is so exactly if the archive has a name, if what
is left of it can be removed, and if the making of its directories has not made a directory in its
own place, as it does for a path that goes up again.

* `made`: the tree once the directories for the archive are made.
* `Ending`: the ways in which a packing ends, and `pack_ends`.
* `members_of_unfinished`: the entries are the same with and without the unfinished archive.
* `pack_allOrNothing_iff`: the packings that are all or nothing.
-/

namespace StubWriter

open Run

namespace Jar

open FileTree Location

variable {t t' tree : FileTree} {p q base root out : Path} {selection : Selection}

/-! ## Packings -/

/-- A tree once the directories for an archive are made, as far as they can be. -/
def made (out : Path) (tree : FileTree) : FileTree :=
  stateAfter (Disk.makeDirs out.parent tree)

/-- A complete archive has come to its place, and its unfinished form is gone. -/
structure Replaced (out : Path) (t t' : FileTree) (content : Content) : Prop where
  places : ∃ a b, t.locate (unfinished out) = .ok a ∧ t.locate out = .ok b ∧ t.get? b ≠ some .dir ∧
    ∀ m, t'.get? m = if m = b then some (.file content) else if m = a then none else t.get? m

/-- How the writing of an archive ends, from the tree in which its directories are made. -/
inductive Written (base root out : Path) (selection : Selection) (t : FileTree) :
    Except PackFault Unit → FileTree → Prop
  | refused (fault : PackFault) {t' : FileTree} (h : TouchesOnly (unfinished out) t t') :
    Written base root out selection t (.error fault) t'
  | complete {t₂ t' : FileTree} {entries : List (String × ByteArray)}
    (htouches : TouchesOnly (unfinished out) t t₂) {content : Content}
    (hstands : ask t₂ (Disk.find? (unfinished out)) = .ok (some (.file content)))
    (hentries : members t₂ base root selection = .ok entries)
    (hreplaced : Replaced out t t' (.archive .deflated ((manifestName, manifestText.toUTF8) :: entries))) :
    Written base root out selection t (.ok ()) t'

theorem comes_onDisk {α : Type} {x : Disk α} {P : Except PackFault α → FileTree → Prop}
    (h : Comes x t fun o s => P (o.mapError .system) s) : Comes (onDisk x) t P := by
  unfold Comes at h ⊢
  unfold onDisk
  cases hrun : x t with
  | ok a s =>
    rw [hrun] at h
    exact h
  | error e s =>
    rw [hrun] at h
    exact h

/-- A step of writing an unfinished archive. -/
theorem onDisk_write_comes {content : Content} :
    Comes (onDisk (Disk.write p content)) t fun o s => (∃ fault, o = .error fault) ∧ s = t ∨
      o = .ok () ∧ TouchesOnly p t s ∧ ask s (Disk.find? p) = .ok (some (.file content)) := by
  refine comes_onDisk (comes_mono write_comes ?_)
  rintro o s (⟨⟨e, rfl⟩, rfl⟩ | ⟨rfl, htouches, hstands⟩)
  · exact .inl ⟨⟨_, rfl⟩, rfl⟩
  · exact .inr ⟨rfl, htouches, hstands⟩

theorem onDisk_move_comes {content : Content} (hout : ask t (Disk.find? (unfinished out)) =
      .ok (some (.file content))) :
    Comes (onDisk (Disk.move (unfinished out) out)) t fun o s =>
      (∃ fault, o = .error fault) ∧ s = t ∨ o = .ok () ∧ Replaced out t s content := by
  refine comes_onDisk ?_
  have hrefused : Comes (Disk.move (unfinished out) out) t fun o s => ∀ e, o = .error e → s = t :=
    move_refused
  unfold Comes at hrefused ⊢
  cases hrun : Disk.move (unfinished out) out t with
  | error e s =>
    rw [hrun] at hrefused
    exact .inl ⟨⟨_, rfl⟩, hrefused e rfl⟩
  | ok u s =>
    obtain ⟨a, b, content', ha, hb, hfile, hdir, hget⟩ := Disk.move_ok u s hrun
    have hcontent : content' = content := by
      rw [ask_find?, ha] at hout
      dsimp only at hout
      rw [hfile] at hout
      cases hout
      rfl
    subst hcontent
    exact .inr ⟨rfl, a, b, ha, hb, hdir, hget (unfinished_ne_out ha hb)⟩

theorem write_ends (base root out : Path) (selection : Selection) (tree : FileTree) :
    Comes (write base root out selection) tree (Written base root out selection (made out tree)) := by
  have hmade : Comes (onDisk (Disk.makeDirs out.parent)) tree fun o s => s = made out tree :=
    comes_onDisk rfl
  unfold write
  refine comes_bind hmade (fun _ t₁ ht₁ => ?_) fun fault t₁ ht₁ => ht₁ ▸ .refused fault (.refl _ _)
  subst ht₁
  refine comes_bind onDisk_write_comes (fun _ t₂ h₂ => ?_) fun fault t₂ h₂ => ?_
  rotate_left
  · obtain ⟨-, rfl⟩ := h₂.resolve_right (fun h => nomatch h.1)
    exact .refused fault (.refl _ _)
  obtain ⟨-, htouches₂, hstands₂⟩ := h₂.resolve_left (fun h => nomatch h.1.choose_spec)
  refine comes_get_bind ?_
  split
  · exact .refused _ htouches₂
  rename_i entries hentries
  refine comes_bind onDisk_write_comes (fun _ t₃ h₃ => ?_) fun fault t₃ h₃ => ?_
  rotate_left
  · obtain ⟨-, rfl⟩ := h₃.resolve_right (fun h => nomatch h.1)
    exact .refused fault htouches₂
  obtain ⟨-, htouches₃, hstands₃⟩ := h₃.resolve_left (fun h => nomatch h.1.choose_spec)
  have htouches := htouches₂.trans htouches₃
  refine comes_mono (onDisk_move_comes hstands₃) ?_
  rintro o t₄ (⟨⟨fault, rfl⟩, rfl⟩ | ⟨rfl, a, b, ha, hb, hdir, hget⟩)
  · exact .refused fault htouches
  have ha := htouches.locate_iff.mp ha
  have hb := htouches.locate_iff.mp hb
  have hab := unfinished_ne_out ha hb
  have hout : ∀ m, m ≠ a → t₃.get? m = (made out tree).get? m := fun m hm =>
    htouches.get?_eq fun h => hm (Except.ok.inj (h.symm.trans ha))
  refine .complete htouches₂ hstands₂ hentries ⟨a, b, ha, hb, ?_, fun m => ?_⟩
  · rwa [← hout b (Ne.symm hab)]
  · rw [hget]
    split_ifs with hmb hma
    · rfl
    · rfl
    · exact hout m hma

/-- How a packing ends. -/
inductive Ending (base root out : Path) (selection : Selection) (tree : FileTree) :
    Except Failure Unit → FileTree → Prop
  | nameless (hname : out.name = "") :
    Ending base root out selection tree (.error (.namelessArchive out)) tree
  | packed {t₂ t' : FileTree} {entries : List (String × ByteArray)} (hname : out.name ≠ "")
    (htouches : TouchesOnly (unfinished out) (made out tree) t₂)
    (hclear : Clear (made out tree) (unfinished out)) {content : Content}
    (hstands : ask t₂ (Disk.find? (unfinished out)) = .ok (some (.file content)))
    (hentries : members t₂ base root selection = .ok entries)
    (hreplaced : Replaced out (made out tree) t'
      (.archive .deflated ((manifestName, manifestText.toUTF8) :: entries))) :
    Ending base root out selection tree (.ok ()) t'
  | refused (fault : PackFault) {t' : FileTree} (hname : out.name ≠ "")
    (hclear : Clear (made out tree) (unfinished out))
    (htouches : TouchesOnly (unfinished out) (made out tree) t')
    (hgone : ask t' (Disk.find? (unfinished out)) = .ok none) :
    Ending base root out selection tree (.error (.cannotPack out fault)) t'
  | stuck (e : OsError) {t' : FileTree} (hname : out.name ≠ "")
    (hclear : ¬ Clear (made out tree) (unfinished out)) :
    Ending base root out selection tree (.error (.system e)) t'

theorem pack_ends (base? : Option Path) (selection : Selection) (root out : Path)
    (tree : FileTree) :
    Comes (pack base? selection root out) tree
      (Ending (base?.getD root.parent) root out selection tree) := by
  have hwritten := write_ends (base?.getD root.parent) root out selection tree
  unfold Comes at hwritten ⊢
  unfold pack
  split
  · rename_i hname
    exact .nameless (String.isEmpty_iff.mp hname)
  rename_i hname
  have hname : out.name ≠ "" := fun h => hname (String.isEmpty_iff.mpr h)
  cases hrun : write (base?.getD root.parent) root out selection tree with
  | ok u t' =>
    rw [hrun] at hwritten
    cases hwritten with
    | complete htouches hstands hentries hreplaced =>
      have hclear := (clear_iff htouches).mp ⟨_, hstands, nofun⟩
      exact .packed hname htouches hclear hstands hentries hreplaced
  | error fault t' =>
    rw [hrun] at hwritten
    cases hwritten with
    | refused _ htouches =>
    have hunfinished : out.withName (unfinishedName out.name) = unfinished out := rfl
    rw [hunfinished]
    dsimp only
    by_cases hclear : Clear t' (unfinished out)
    · have hdiscard := discard_clear hclear
      unfold Comes at hdiscard
      cases hrun' : discard (unfinished out) t' with
      | ok u s =>
        rw [hrun'] at hdiscard
        obtain ⟨-, htouches', hgone⟩ := hdiscard
        exact .refused fault hname ((clear_iff htouches).mp hclear) (htouches.trans htouches') hgone
      | error e s =>
        rw [hrun'] at hdiscard
        cases hdiscard.1
    · have hdiscard := discard_not_clear hclear
      unfold Comes at hdiscard
      cases hrun' : discard (unfinished out) t' with
      | ok u s =>
        rw [hrun'] at hdiscard
        cases hdiscard.1.choose_spec
      | error e s => exact .stuck e hname fun h => hclear ((clear_iff htouches).mpr h)

/-! ## All or nothing -/

/-- Wherever the path of an archive leads, there and below stands what stood there before, the
unfinished archive apart. -/
def Untouched (out : Path) (t t' : FileTree) : Prop :=
  ∀ b, t'.locate out = .ok b → ∀ rest, t'.locate (unfinished out) ≠ .ok (b ++ rest) →
    t'.get? (b ++ rest) = t.get? (b ++ rest)

/-- A packing leaves a complete archive in its place, or it is refused and what stood there is as it
was. In both cases nothing unfinished is left. -/
def AllOrNothing (base? : Option Path) (selection : Selection) (root out : Path)
    (tree : FileTree) : Prop :=
  Comes (pack base? selection root out) tree fun o t' =>
    ask t' (Disk.find? (unfinished out)) = .ok none ∧
      ((o = .ok () ∧ ∃ entries,
          members (made out tree) (base?.getD root.parent) root selection = .ok entries ∧
          ask t' (Disk.find? out) =
            .ok (some (.file (.archive .deflated ((manifestName, manifestText.toUTF8) :: entries))))) ∨
        (∃ fault, o = .error (.cannotPack out fault)) ∧ Untouched out tree t')

theorem untouched_iff (h : TouchesOnly (unfinished out) t t') :
    Untouched out tree t' ↔ Untouched out tree t := by
  refine forall_congr' fun b => ?_
  rw [h.locate_iff]
  refine imp_congr_right fun _ => forall_congr' fun rest => ?_
  rw [Ne, h.locate_iff]
  refine imp_congr_right fun hne => ?_
  rw [h.get?_eq hne]

theorem isGiven_of_append {l : Location} {s : String} (h : isGiven (l ++ [s]) = true) :
    isGiven l = true := by
  rw [isGiven, Bool.or_eq_true, beq_iff_eq, List.append_eq_singleton_iff, List.all_append,
    Bool.and_eq_true] at h
  rcases h with (⟨rfl, -⟩ | ⟨-, h⟩) | ⟨hall, -⟩
  · rfl
  · cases h
  · rw [isGiven, hall, Bool.or_true]

theorem get?_append_none {b : Location} (hb : t.get? b ≠ some .dir) (s : String)
    (rest : List String) : t.get? (b ++ s :: rest) = none := by
  by_contra hsome
  obtain ⟨e, he⟩ := Option.ne_none_iff_exists'.mp hsome
  by_cases hs : isGiven (b ++ [s]) = true
  · rw [get?, if_pos (isGiven_of_append hs)] at hb
    exact hb rfl
  · exact hb (get?_of_below (isBelow_iff.mpr ⟨s, rest, rfl, hs⟩) he)

/-- Where no directory came to be, nothing has. -/
theorem untouched_of_not_dir (hadds : Disk.AddsDirs tree t) {b : Location}
    (hb : t.locate out = .ok b) (hdir : t.get? b ≠ some .dir) : Untouched out tree t := by
  intro b' hb' rest _
  obtain rfl : b = b' := Except.ok.inj (hb.symm.trans hb')
  rcases hadds (b ++ rest) with h | ⟨hnone, hmade⟩
  · exact h
  cases rest with
  | nil =>
    rw [List.append_nil] at hmade
    exact absurd hmade hdir
  | cons s rest =>
    rw [get?_append_none hdir s rest] at hmade
    cases hmade

theorem made_adds (out : Path) (tree : FileTree) : Disk.AddsAlong out.parent tree (made out tree) :=
  (Disk.moves_makeDirs_along out.parent).moves tree

theorem Replaced.stands {content : Content} (h : Replaced out t t' content)
    (hclear : Clear t (unfinished out)) :
    ask t' (Disk.find? (unfinished out)) = .ok none ∧
      ask t' (Disk.find? out) = .ok (some (.file content)) := by
  obtain ⟨a, b, ha, hb, hdir, hget⟩ := h
  have hne : a ≠ b := unfinished_ne_out ha hb
  have hkeeps : t.KeepsDirs t' := by
    intro m hm
    rw [hget, if_neg, if_neg]
    · exact hm
    · rintro rfl
      exact (clear_iff_locate.mp hclear).1 m ha hm
    · rintro rfl
      exact hdir hm
  rw [ask_find?, ask_find?, locate_mono hkeeps ha, locate_mono hkeeps hb]
  dsimp only
  rw [hget, hget, if_neg hne, if_pos rfl, if_pos rfl]
  exact ⟨rfl, rfl⟩

/-! ## The entries while the archive is unfinished -/

/-- The unfinished archive is not among what is packed. It stands beside the place of the archive, so
it is not below the root if that place lies outside; or a test on the files of the root turns it
down. -/
def Apart (t : FileTree) (root out : Path) : Selection → Prop
  | .all => ∀ r a, t.locate root = .ok r → t.locate (unfinished out) = .ok a →
      a ≠ r ∧ isBelow r a = false
  | .files accepts => ∀ r, t.locate root = .ok r →
      t.locate (unfinished out) = .ok (r ++ [unfinishedName out.name]) →
        accepts (root.join ⟨0, [unfinishedName out.name]⟩) = false

/-- A location to which names lead down from a directory that is always there. -/
def IsDown (l : Location) : Prop :=
  ∃ g names, l = g ++ names ∧ isGiven g = true ∧ ∀ s ∈ names, s ≠ ".."

theorem IsDown.outer {l : Location} (h : IsDown l) : IsDown (outer l) := by
  unfold FileTree.outer
  split_ifs with hroot hgiven
  · exact h
  · refine ⟨l ++ [".."], [], (List.append_nil _).symm, ?_, nofun⟩
    have hall : l.all (· == "..") = true := by
      rw [isGiven, Bool.or_eq_true] at hgiven
      exact hgiven.resolve_left hroot
    simp [isGiven, List.all_append, hall]
  · obtain ⟨g, names, rfl, hg, hnames⟩ := h
    have hne : names ≠ [] := by
      rintro rfl
      rw [List.append_nil] at hgiven
      exact hgiven hg
    refine ⟨g, names.dropLast, List.dropLast_append_of_ne_nil hne, hg, fun s hs => ?_⟩
    exact hnames s (List.mem_of_mem_dropLast hs)

theorem follow_isDown {segments : List String} {l m : Location} (hl : IsDown l)
    (h : t.follow l segments = .ok m) : IsDown m := by
  induction segments generalizing l with
  | nil =>
    cases h
    exact hl
  | cons s rest ih =>
    unfold follow at h
    split at h
    · cases h
    · cases h
    · split_ifs at h with hlong hup
      · exact ih hl.outer h
      · obtain ⟨g, names, rfl, hg, hnames⟩ := hl
        refine ih ⟨g, names ++ [s], List.append_assoc _ _ _, hg, fun x hx => ?_⟩ h
        rcases List.mem_append.mp hx with hx | hx
        · exact hnames x hx
        · rw [List.mem_singleton.mp hx]
          exact fun hs => hup (beq_iff_eq.mpr hs)

/-- Directories that are made are not called `..`. -/
theorem made_names (htree : tree.Proper) :
    ∀ x ∈ (made out tree).entries, ∀ s ∈ x.1.getLast?, s ≠ ".." := by
  rintro ⟨m, e⟩ hx s hs
  obtain ⟨hgiven, he⟩ := mem_entries_iff.mp hx
  rcases made_adds out tree m with h | ⟨-, -, xs, -, hm⟩
  · rw [h] at he
    exact (htree _ (mem_of_get? hgiven he) s hs).up
  · have hdown : IsDown m := by
      unfold locate at hm
      split_ifs at hm
      all_goals exact follow_isDown ⟨_, [], (List.append_nil _).symm, by decide, nofun⟩ hm
    obtain ⟨g, names, rfl, hg, hnames⟩ := hdown
    rcases List.eq_nil_or_concat names with rfl | ⟨front, last, rfl⟩
    · rw [List.append_nil] at hgiven
      exact absurd hg hgiven
    · obtain rfl : last = s := by simpa using hs
      exact hnames _ (by simp)

/-- The entry of a path is the same if nothing but another file was touched. -/
theorem member_of_touched (h : TouchesOnly p t t')
    (hq : ∀ l, t.locate q = .ok l → t.locate p ≠ .ok l) {x : String × ByteArray}
    (hx : member t' base q = .ok x) : member t base q = .ok x := by
  have hfind := ask_find?_eq h hq
  unfold member at hx ⊢
  cases hrelative : q.relativeTo? base with
  | none =>
    rw [hrelative] at hx
    cases hx
  | some relative =>
    rw [hrelative] at hx
    dsimp only at hx ⊢
    rw [ask_isDir, hfind, ← ask_isDir] at hx
    cases hdir : ask t (Disk.isDir q) with
    | error fault =>
      rw [hdir] at hx
      cases hx
    | ok found =>
      rw [hdir] at hx
      cases found with
      | true => exact hx
      | false =>
        change (ask t' (Disk.read q) >>= _) = _ at hx
        change (ask t (Disk.read q) >>= _) = _
        cases hread : ask t' (Disk.read q) with
        | error fault =>
          rw [hread] at hx
          cases hx
        | ok content =>
          rw [hread] at hx
          rw [ask_read.mpr (hfind.symm.trans (ask_read.mp hread))]
          exact hx

section Unfinished

variable {entries : List (String × ByteArray)} (htree : tree.Proper)
  (htouches : TouchesOnly (unfinished out) (made out tree) t)
include htree htouches

theorem members_all_of_unfinished
    (hapart : ∀ r a, (made out tree).locate root = .ok r →
      (made out tree).locate (unfinished out) = .ok a → a ≠ r ∧ isBelow r a = false)
    (h : members t base root .all = .ok entries) :
    members (made out tree) base root .all = .ok entries := by
  have hroot : ∀ l, (made out tree).locate root = .ok l →
      (made out tree).locate (unfinished out) ≠ .ok l :=
    fun l hl hl' => (hapart l l hl hl').1 rfl
  have hselected : selected (made out tree) root .all = selected t root .all := by
    unfold selected
    dsimp only
    cases hr : (made out tree).locate root with
    | ok r =>
      rw [htouches.locate_iff.mpr hr]
      dsimp only
      have hbelow : t.below r = (made out tree).below r := by
        refine below_eq_of_get? fun m hm => htouches.get?_eq fun hm' => ?_
        rw [(hapart r m hr hm').2] at hm
        cases hm
      rw [htouches.get?_eq (hroot r hr), hbelow]
    | error errno =>
      cases hr' : t.locate root with
      | ok r => exact nomatch hr.symm.trans (htouches.locate_iff.mp hr')
      | error errno' => rfl
  unfold members at h ⊢
  rw [hselected]
  cases hpaths : selected t root .all with
  | error fault =>
    rw [hpaths] at h
    cases h
  | ok paths =>
    rw [hpaths] at h
    refine mapM_ok_of h fun q hq x hx => member_of_touched htouches (fun l hl => ?_) hx
    rw [← hselected] at hpaths
    unfold selected at hpaths
    dsimp only at hpaths
    split at hpaths
    · rename_i r hr
      split at hpaths
      · cases hpaths
        rcases List.mem_cons.mp hq with rfl | hq
        · exact hroot l hl
        · obtain ⟨y, hy, rfl⟩ := List.mem_map.mp hq
          obtain ⟨hbelow, he⟩ := mem_below.mp hy
          obtain ⟨s, rest, hy, hgiven⟩ := isBelow_iff.mp hbelow
          have hnames := names_of_last (made_names htree) hgiven (hy ▸ he)
          rw [pathBelow, hy, List.drop_left] at hl
          have hl : l = r ++ s :: rest := locate_below hr hnames hl
          intro hl'
          rw [← hy] at hl
          rw [← hl, (hapart r l hr hl').2] at hbelow
          cases hbelow
      · cases hpaths
        rw [List.mem_singleton.mp hq] at hl
        exact hroot l hl
    · cases hpaths
      rw [List.mem_singleton.mp hq] at hl
      exact hroot l hl

/-- Whether a path is that of a file which passes a test. -/
def passes (t : FileTree) (accepts : Path → Bool) (q : Path) : Except PackFault Bool := do
  return (← ask t (Disk.isFile q)) && accepts q

omit htree htouches in
theorem passes_eq (accepts : Path → Bool) (q : Path) : passes t accepts q =
    (ask t (Disk.find? q)).map fun e? => isFileEntry e? && accepts q := by
  unfold passes
  rw [ask_isFile]
  cases ask t (Disk.find? q) <;> rfl

omit htree htouches in
theorem list_eq {l : Location} (hl : t.locate p = .ok l) (hdir : t.get? l = some .dir) :
    ask t (Disk.list p) = .ok (t.children l) := by
  have hget : ∀ {α : Type} (f : FileTree → Disk α), (get >>= f) t = f t t := fun _ => rfl
  have hlist : Disk.list p t = .ok (t.children l) t := by
    change EStateM.bind (Disk.locate p) _ t = _
    unfold EStateM.bind
    rw [Disk.locate_eq hl]
    dsimp only
    rw [hget, hdir]
    rfl
  rw [ask, hlist]

omit htree htouches in
/-- The files of a directory that pass a test. -/
theorem selected_of_passes {accepts : Path → Bool} {L : Location} (hL : t.locate root = .ok L)
    (hdir : t.get? L = some .dir) {p : String → Bool}
    (hp : ∀ s ∈ t.names L, passes t accepts (root.join ⟨0, [s]⟩) = .ok (p s)) :
    selected t root (.files accepts) =
      .ok (((t.names L).filter p).map fun s => root.join ⟨0, [s]⟩) := by
  unfold selected
  rw [list_eq hL hdir]
  change ((t.children L).map fun x => root.join ⟨0, [x.1.getLast?.getD ""]⟩).filterM
    (passes t accepts) = _
  rw [← filterM_eq_ok hp, names, List.map_map]
  rfl

/-- A test that turns down the unfinished archive passes the same files with and without it. -/
theorem selected_files_of_unfinished {accepts : Path → Bool} {content : Content}
    {paths : List Path}
    (hstands : ask t (Disk.find? (unfinished out)) = .ok (some (.file content)))
    (hapart : ∀ r, (made out tree).locate root = .ok r →
      (made out tree).locate (unfinished out) = .ok (r ++ [unfinishedName out.name]) →
        accepts (root.join ⟨0, [unfinishedName out.name]⟩) = false)
    (h : selected t root (.files accepts) = .ok paths) :
    selected (made out tree) root (.files accepts) = .ok paths ∧
      ∀ q ∈ paths, ∀ l, (made out tree).locate q = .ok l →
        (made out tree).locate (unfinished out) ≠ .ok l := by
  obtain ⟨L, hL, hdir⟩ : ∃ L, t.locate root = .ok L ∧ t.get? L = some .dir := by
    cases hlist : ask t (Disk.list root) with
    | error fault =>
      unfold selected at h
      rw [hlist] at h
      cases h
    | ok found =>
      obtain ⟨-, -, L, hL, hdir, -⟩ := ask_ok Disk.list_ok hlist
      exact ⟨L, hL, hdir⟩
  have hL' := htouches.locate_iff.mp hL
  have hdir' := htouches.keepsDirs_back L hdir
  have hok : ∀ s ∈ t.names L, ∃ b, passes t accepts (root.join ⟨0, [s]⟩) = .ok b := by
    intro s hs
    unfold selected at h
    rw [list_eq hL hdir] at h
    refine ok_of_filterM h (x := root.join ⟨0, [s]⟩) ?_
    obtain ⟨x, hx, rfl⟩ := List.mem_map.mp hs
    exact List.mem_map.mpr ⟨x, hx, rfl⟩
  let p : String → Bool := fun s => decide (passes t accepts (root.join ⟨0, [s]⟩) = .ok true)
  have hp : ∀ s ∈ t.names L, passes t accepts (root.join ⟨0, [s]⟩) = .ok (p s) := by
    intro s hs
    obtain ⟨b, hb⟩ := hok s hs
    cases b <;> simp [p, hb]
  -- The name of the unfinished archive is turned down, so all other names are passed alike.
  have hskip : ∀ s, (made out tree).locate (unfinished out) = .ok (L ++ [s]) →
      accepts (root.join ⟨0, [s]⟩) = false := by
    intro s hs
    obtain ⟨k, -, -, hk⟩ := locate_unfinished hs
    obtain ⟨-, hname⟩ := List.append_inj' hk rfl
    obtain rfl := List.singleton_inj.mp hname
    exact hapart L hL' hs
  have hnot : ∀ s, (made out tree).locate (unfinished out) = .ok (L ++ [s]) → p s = false := by
    intro s hs
    simp only [p, passes_eq, hskip s hs, Bool.and_false, decide_eq_false_iff_not]
    cases ask t (Disk.find? (root.join ⟨0, [s]⟩)) <;> simp [Except.map]
  have hsub : ∀ s ∈ (made out tree).names L, s ∈ t.names L := by
    intro s hs
    obtain ⟨hgiven, e, he⟩ := mem_names.mp hs
    by_cases hplace : (made out tree).locate (unfinished out) = .ok (L ++ [s])
    · rw [ask_find?, htouches.locate_iff.mpr hplace] at hstands
      exact mem_names.mpr ⟨hgiven, _, Except.ok.inj hstands⟩
    · exact mem_names.mpr ⟨hgiven, e, (htouches.get?_eq hplace).trans he⟩
  have hback : ∀ s ∈ t.names L, p s = true → s ∈ (made out tree).names L := by
    intro s hs hps
    obtain ⟨hgiven, e, he⟩ := mem_names.mp hs
    refine mem_names.mpr ⟨hgiven, e, (htouches.get?_eq fun hplace => ?_).symm.trans he⟩
    rw [hnot s hplace] at hps
    cases hps
  have hleads : ∀ s ∈ (made out tree).names L, ∀ l,
      (made out tree).locate (root.join ⟨0, [s]⟩) = .ok l → l = L ++ [s] := by
    intro s hs l hl
    obtain ⟨hgiven, e, he⟩ := mem_names.mp hs
    exact locate_below hL' (names_of_last (made_names htree) hgiven he) hl
  have hp' : ∀ s ∈ (made out tree).names L,
      passes (made out tree) accepts (root.join ⟨0, [s]⟩) = .ok (p s) := by
    intro s hs
    have hps := hp s (hsub s hs)
    by_cases hplace : (made out tree).locate (unfinished out) = .ok (L ++ [s])
    · have htold : ∃ e?, ask t (Disk.find? (root.join ⟨0, [s]⟩)) = .ok e? := by
        rw [passes_eq] at hps
        cases hfind : ask t (Disk.find? (root.join ⟨0, [s]⟩)) with
        | error fault =>
          rw [hfind] at hps
          cases hps
        | ok e? => exact ⟨e?, rfl⟩
      rw [told_iff, Ne, htouches.locate_long_iff, ← Ne, ← told_iff] at htold
      obtain ⟨e?, he?⟩ := htold
      rw [passes_eq, he?, hskip s hplace, hnot s hplace, Except.map, Bool.and_false]
    · rw [← hps, passes_eq, passes_eq, ask_find?_eq htouches]
      intro l hl
      rw [hleads s hs l hl]
      exact hplace
  have hnames : ((made out tree).names L).filter p = (t.names L).filter p := by
    refine ((names_sorted _ L).filter p).eq_of_mem_iff ((names_sorted t L).filter p) fun s => ?_
    rw [List.mem_filter, List.mem_filter]
    exact ⟨fun ⟨hs, hps⟩ => ⟨hsub s hs, hps⟩, fun ⟨hs, hps⟩ => ⟨hback s hs hps, hps⟩⟩
  have hselected := selected_of_passes hL hdir hp
  rw [h] at hselected
  cases hselected
  refine ⟨?_, fun q hq l hl => ?_⟩
  · rw [selected_of_passes hL' hdir' hp', hnames]
  · obtain ⟨s, hs, rfl⟩ := List.mem_map.mp hq
    obtain ⟨hs, hps⟩ := List.mem_filter.mp hs
    rw [hleads s (hback s hs hps) l hl]
    intro hplace
    rw [hnot s hplace] at hps
    cases hps

end Unfinished

theorem members_of_unfinished {entries : List (String × ByteArray)} {content : Content}
    (htree : tree.Proper) (hapart : Apart (made out tree) root out selection)
    (htouches : TouchesOnly (unfinished out) (made out tree) t)
    (hstands : ask t (Disk.find? (unfinished out)) = .ok (some (.file content)))
    (h : members t base root selection = .ok entries) :
    members (made out tree) base root selection = .ok entries := by
  cases selection with
  | all => exact members_all_of_unfinished htree htouches hapart h
  | files accepts =>
    unfold members at h ⊢
    cases hpaths : selected t root (.files accepts) with
    | error fault =>
      rw [hpaths] at h
      cases h
    | ok paths =>
      rw [hpaths] at h
      obtain ⟨hselected, havoid⟩ :=
        selected_files_of_unfinished htree htouches hstands hapart hpaths
      rw [hselected]
      exact mapM_ok_of h fun q hq x hx => member_of_touched htouches (havoid q hq) hx

/-- The packings that are all or nothing, whichever of their steps fails. -/
theorem pack_allOrNothing_iff {base? : Option Path} (htree : tree.Proper)
    (hapart : Apart (made out tree) root out selection) :
    AllOrNothing base? selection root out tree ↔
      out.name ≠ "" ∧ Clear (made out tree) (unfinished out) ∧
        Untouched out tree (made out tree) := by
  have hends := pack_ends base? selection root out tree
  unfold AllOrNothing
  unfold Comes at hends ⊢
  generalize outcome (pack base? selection root out tree) = o at hends ⊢
  generalize stateAfter (pack base? selection root out tree) = t' at hends ⊢
  cases hends with
  | nameless hname =>
    refine ⟨fun ⟨_, h⟩ => ?_, fun h => absurd hname h.1⟩
    rcases h with ⟨ho, -⟩ | ⟨⟨fault, ho⟩, -⟩ <;> cases ho
  | packed hname htouches hclear hstands' hentries hreplaced =>
    refine ⟨fun _ => ⟨hname, hclear, ?_⟩, fun _ => ?_⟩
    · obtain ⟨a, b, -, hb, hdir, -⟩ := hreplaced
      exact untouched_of_not_dir (made_adds out tree).addsDirs hb hdir
    · obtain ⟨hgone, hstands⟩ := hreplaced.stands hclear
      exact ⟨hgone, .inl ⟨rfl, _, members_of_unfinished htree hapart htouches hstands' hentries, hstands⟩⟩
  | refused fault hname hclear htouches hgone =>
    rw [← untouched_iff htouches]
    refine ⟨fun ⟨_, h⟩ => ⟨hname, hclear, ?_⟩, fun h => ⟨hgone, .inr ⟨⟨fault, rfl⟩, h.2.2⟩⟩⟩
    rcases h with ⟨ho, -⟩ | ⟨-, huntouched⟩
    · cases ho
    · exact huntouched
  | stuck e hname hclear =>
    refine ⟨fun ⟨_, h⟩ => ?_, fun h => absurd h.2.1 hclear⟩
    rcases h with ⟨ho, -⟩ | ⟨⟨fault, ho⟩, -⟩ <;> cases ho

/-! ### Remains of earlier packings -/

theorem made_here (name : String) (t : FileTree) : made ⟨0, [name]⟩ t = t := by
  have hhere : t.locate ⟨0, []⟩ = .ok [] := rfl
  have hdir : t.get? [] = some .dir := rfl
  rw [made, Path.parent, List.dropLast_singleton, Disk.makeDirs_isDir hhere hdir]
  rfl

/-- A directory to pack and an archive beside it. -/
theorem apart_beside (hroot : t.locate ⟨0, ["d"]⟩ = .ok ["d"])
    (hunfinished : t.locate (unfinished ⟨0, ["x.jar"]⟩) = .ok ["x.jar.part"]) :
    Apart (made ⟨0, ["x.jar"]⟩ t) ⟨0, ["d"]⟩ ⟨0, ["x.jar"]⟩ .all := by
  rw [made_here]
  intro r a hr ha
  obtain rfl : r = ["d"] := Except.ok.inj (hr.symm.trans hroot)
  obtain rfl : a = ["x.jar.part"] := Except.ok.inj (ha.symm.trans hunfinished)
  decide

/-- A directory to pack, an archive, and what was left of another one. -/
def remaining : FileTree :=
  .ofTexts [(["d", "A"], "a"), (["x.jar"], "old"), (["x.jar.part"], "left")]

theorem remaining_facts : remaining.Proper ∧
    remaining.locate ⟨0, ["d"]⟩ = .ok ["d"] ∧
    remaining.locate (unfinished ⟨0, ["x.jar"]⟩) = .ok ["x.jar.part"] ∧
    remaining.get? ["x.jar.part"] ≠ some .dir := by
  decide +kernel

theorem pack_allOrNothing_iff_remaining :
    remaining.Proper ∧ Apart (made ⟨0, ["x.jar"]⟩ remaining) ⟨0, ["d"]⟩ ⟨0, ["x.jar"]⟩ .all ∧
      AllOrNothing none .all ⟨0, ["d"]⟩ ⟨0, ["x.jar"]⟩ remaining := by
  obtain ⟨hproper, hroot, hunfinished, hfile⟩ := remaining_facts
  have hapart := apart_beside hroot hunfinished
  refine ⟨hproper, hapart, (pack_allOrNothing_iff hproper hapart).mpr ⟨by decide, ?_, ?_⟩⟩
  · rw [made_here, clear_iff_locate]
    refine ⟨fun l hl => ?_, by rw [hunfinished]; nofun⟩
    obtain rfl : l = ["x.jar.part"] := Except.ok.inj (hl.symm.trans hunfinished)
    exact hfile
  · rw [made_here]
    exact fun _ _ _ _ => rfl

/-! ### A directory in the place of an unfinished archive -/

/-- A directory to pack, and another one under the name of the unfinished archive. -/
def blocked : FileTree :=
  .ofTexts [(["d", "A"], "a"), (["x.jar.part", "B"], "b")]

theorem blocked_facts : blocked.Proper ∧
    blocked.locate ⟨0, ["d"]⟩ = .ok ["d"] ∧
    blocked.locate (unfinished ⟨0, ["x.jar"]⟩) = .ok ["x.jar.part"] ∧
    outcome (pack none .all ⟨0, ["d"]⟩ ⟨0, ["x.jar"]⟩ blocked) =
      .error (.system { errno := .isDirectory, path := ⟨0, ["x.jar.part"]⟩ }) := by
  decide +kernel

theorem not_pack_allOrNothing :
    ¬ ∀ (base? : Option Path) (selection : Selection) (root out : Path) (tree : FileTree),
      tree.Proper → Apart (made out tree) root out selection →
        AllOrNothing base? selection root out tree := by
  intro h
  obtain ⟨hproper, hroot, hunfinished, hrun⟩ := blocked_facts
  obtain ⟨-, ⟨ho, -⟩ | ⟨⟨fault, ho⟩, -⟩⟩ :=
    h none .all ⟨0, ["d"]⟩ ⟨0, ["x.jar"]⟩ blocked hproper (apart_beside hroot hunfinished)
  · cases hrun.symm.trans ho
  · cases hrun.symm.trans ho

end Jar

end StubWriter
