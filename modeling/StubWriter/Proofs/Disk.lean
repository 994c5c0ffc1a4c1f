import StubWriter.Proofs.FileTree
import StubWriter.Proofs.Moves

/-!
# What operations on files leave

Paths lead through directories, so they lead to the same place as long as no directory is removed.

* `locate_mono`: a path in a tree with more directories.
* `write_ok`, `move_ok`: what a successful operation leaves.
* `moves_makeDirs_along`: what the making of directories leaves, even if it fails.
-/

namespace StubWriter

open Run

namespace FileTree

variable {t t' : FileTree} {l m : Location} {p : Path}

/-- A tree and what it may become without losing a directory. -/
def KeepsDirs (t t' : FileTree) : Prop :=
  ∀ m, t.get? m = some .dir → t'.get? m = some .dir

theorem follow_mono (hdirs : t.KeepsDirs t') {segments : List String} {l m : Location}
    (h : t.follow l segments = .ok m) : t'.follow l segments = .ok m := by
  induction segments generalizing l with
  | nil => exact h
  | cons s rest ih =>
    unfold follow at h ⊢
    cases hl : t.get? l with
    | none =>
      rw [hl] at h
      cases h
    | some e =>
      rw [hl] at h
      cases e with
      | file content => cases h
      | dir =>
        rw [hdirs l hl]
        dsimp only at h ⊢
        split at h
        · cases h
        · rename_i hlong
          rw [if_neg hlong]
          split at h
          · rename_i hup
            rw [if_pos hup]
            exact ih h
          · rename_i hup
            rw [if_neg hup]
            exact ih h

theorem locate_mono (hdirs : t.KeepsDirs t') (h : t.locate p = .ok m) : t'.locate p = .ok m := by
  unfold locate at h ⊢
  split at h
  · cases h
  · rename_i hnul
    rw [if_neg hnul]
    split at h
    · cases h
    · rename_i hlong
      rw [if_neg hlong]
      exact follow_mono hdirs h

/-- A path that is too long stays so. -/
theorem follow_long (hdirs : t.KeepsDirs t') {segments : List String} {l : Location}
    (h : t.follow l segments = .error .nameTooLong) :
    t'.follow l segments = .error .nameTooLong := by
  induction segments generalizing l with
  | nil => cases h
  | cons s rest ih =>
    unfold follow at h ⊢
    cases hl : t.get? l with
    | none =>
      rw [hl] at h
      cases h
    | some e =>
      rw [hl] at h
      cases e with
      | file content => cases h
      | dir =>
        rw [hdirs l hl]
        dsimp only at h ⊢
        split_ifs at h ⊢
        · rfl
        · exact ih h
        · exact ih h

theorem locate_long_mono (hdirs : t.KeepsDirs t') (h : t.locate p = .error .nameTooLong) :
    t'.locate p = .error .nameTooLong := by
  unfold locate at h ⊢
  split at h
  · cases h
  · rename_i hnul
    rw [if_neg hnul]
    split at h
    · rename_i hlong
      rw [if_pos hlong]
    · rename_i hlong
      rw [if_neg hlong]
      exact follow_long hdirs h

theorem follow_append (t : FileTree) (l : Location) (xs ys : List String) :
    t.follow l (xs ++ ys) = t.follow l xs >>= fun k => t.follow k ys := by
  induction xs generalizing l with
  | nil => rfl
  | cons s rest ih =>
    rw [List.cons_append, follow, follow]
    cases t.get? l with
    | none => rfl
    | some e =>
      cases e with
      | file content => rfl
      | dir =>
        dsimp only
        rw [ih, ih]
        split_ifs <;> rfl

theorem intercalate_byteSize_le (xs ys : List String) :
    ("/".intercalate xs).utf8ByteSize ≤ ("/".intercalate (xs ++ ys)).utf8ByteSize := by
  induction xs with
  | nil => simp
  | cons x xs ih =>
    cases xs with
    | nil =>
      cases ys with
      | nil => simp
      | cons y ys =>
        rw [List.singleton_append, String.intercalate_cons_cons, String.utf8ByteSize_append,
          String.utf8ByteSize_append, String.intercalate_singleton]
        omega
    | cons x' xs =>
      simp only [List.cons_append, String.intercalate_cons_cons, String.utf8ByteSize_append] at ih ⊢
      omega

/-- A path is no longer than one that goes on from it. -/
theorem byteSize_le (slashes : Nat) (xs ys : List String) :
    (Path.toString ⟨slashes, xs⟩).utf8ByteSize ≤
      max 1 (Path.toString ⟨slashes, xs ++ ys⟩).utf8ByteSize := by
  have hspelling := intercalate_byteSize_le xs ys
  by_cases hempty : slashes = 0 ∧ xs = []
  · obtain ⟨rfl, rfl⟩ := hempty
    exact le_max_left 1 _
  · have hmore : ¬ (slashes = 0 ∧ xs ++ ys = []) := by
      rintro ⟨h, hxs⟩
      exact hempty ⟨h, (List.append_eq_nil_iff.mp hxs).1⟩
    have hspell : ∀ segments : List String, ¬ (slashes = 0 ∧ segments = []) →
        Path.toString ⟨slashes, segments⟩ = Path.spelling ⟨slashes, segments⟩ := by
      intro segments h
      simp [Path.toString, h]
    rw [hspell xs hempty, hspell _ hmore, Path.spelling, Path.spelling,
      String.utf8ByteSize_append, String.utf8ByteSize_append]
    exact (Nat.add_le_add_left hspelling _).trans (le_max_right _ _)

/-- Names lead on from directories only. -/
theorem isDir_of_follow {names : List String} (hne : names ≠ []) (h : t.follow l names = .ok m) :
    t.get? l = some .dir := by
  obtain ⟨s, rest, rfl⟩ := List.exists_cons_of_ne_nil hne
  unfold follow at h
  split at h
  · cases h
  · cases h
  · assumption

/-- A path that goes on from another one leads on from where that one leads. -/
theorem locate_append {slashes : Nat} {xs ys : List String}
    (h : t.locate ⟨slashes, xs ++ ys⟩ = .ok m) :
    ∃ k, t.locate ⟨slashes, xs⟩ = .ok k ∧ t.follow k ys = .ok m := by
  unfold locate at h ⊢
  split at h
  · cases h
  rename_i hnul
  split at h
  · cases h
  rename_i hlong
  rw [follow_append] at h
  cases hk : t.follow (if slashes != 0 then ["/"] else []) xs with
  | error errno => exact nomatch (congrArg (· >>= _) hk).symm.trans h
  | ok k =>
  refine ⟨k, ?_, (congrArg (· >>= _) hk).symm.trans h⟩
  rw [if_neg, if_neg]
  · exact hk
  · have := byteSize_le slashes xs ys
    have hmax : 1 ≤ maxPathBytes := by decide
    omega
  · simp only [List.any_append, Bool.or_eq_true, not_or] at hnul
    exact hnul.1

/-- The path to a name in a directory leads there, unless it is too long. -/
theorem locate_concat {slashes : Nat} {segments : List String} {s : String}
    (h : t.locate ⟨slashes, segments⟩ = .ok l) (hl : t.get? l = some .dir) (hs : IsFileName s) :
    t.locate ⟨slashes, segments ++ [s]⟩ = .ok (l ++ [s]) ∨
      t.locate ⟨slashes, segments ++ [s]⟩ = .error .nameTooLong := by
  have hstep : t.follow l [s] = .ok (l ++ [s]) ∨ t.follow l [s] = .error .nameTooLong := by
    rw [follow, hl]
    dsimp only
    split_ifs with hlong hup
    · exact .inr rfl
    · exact absurd (by simpa using hup) hs.up
    · exact .inl rfl
  have hnul : ('\x00' ∈ s.toList) = False := eq_false hs.nul
  unfold locate Path.isAbsolute at h ⊢
  dsimp only at h ⊢
  generalize (if slashes != 0 then ["/"] else [] : Location) = start at h ⊢
  split at h
  · cases h
  rename_i hsegments
  split at h
  · cases h
  rw [if_neg (by simpa [hnul] using hsegments), follow_append, h]
  split_ifs
  · exact .inr rfl
  · exact hstep

/-- Names lead down from a directory to what stands below it, if anything, unless one is too long. -/
theorem follow_names {names : List String} (hl : t.get? l = some .dir)
    (hnames : ∀ s ∈ names, IsFileName s) :
    t.follow l names = .error .nameTooLong ∨ t.follow l names = .ok (l ++ names) ∨
      (∃ errno, t.follow l names = .error errno) ∧ t.get? (l ++ names) = none := by
  induction names generalizing l with
  | nil => exact .inr (.inl (by rw [List.append_nil]; rfl))
  | cons s rest ih =>
    obtain ⟨hs, hrest⟩ := List.forall_mem_cons.mp hnames
    rw [follow, hl]
    dsimp only
    split_ifs with hlong hup
    · exact .inl rfl
    · exact absurd (by simpa using hup) hs.up
    have happend : l ++ s :: rest = l ++ [s] ++ rest := by simp
    cases rest with
    | nil => exact .inr (.inl rfl)
    | cons s' rest =>
      have hbelow : t.get? (l ++ [s]) ≠ some .dir → t.get? (l ++ s :: s' :: rest) = none := by
        intro hdir
        by_contra hsome
        obtain ⟨e, he⟩ := Option.ne_none_iff_exists'.mp hsome
        rcases get?_child_of_below (Location.not_isGiven_fileName hs) he with h | h
        · cases h
        · exact hdir h
      cases hchild : t.get? (l ++ [s]) with
      | none =>
        refine .inr (.inr ⟨⟨.noEntry, ?_⟩, hbelow (by rw [hchild]; nofun)⟩)
        rw [follow, hchild]
      | some e =>
        cases e with
        | file content =>
          refine .inr (.inr ⟨⟨.notDirectory, ?_⟩, hbelow (by rw [hchild]; nofun)⟩)
          rw [follow, hchild]
        | dir =>
          rw [happend]
          exact ih hchild hrest

/-- A path that goes on from a directory by names leads to what stands below it, unless it is too
long. -/
theorem locate_names {slashes : Nat} {segments names : List String}
    (h : t.locate ⟨slashes, segments⟩ = .ok l) (hl : t.get? l = some .dir)
    (hnames : ∀ s ∈ names, IsFileName s) :
    t.locate ⟨slashes, segments ++ names⟩ = .error .nameTooLong ∨
      t.locate ⟨slashes, segments ++ names⟩ = .ok (l ++ names) ∨
        (∃ errno, t.locate ⟨slashes, segments ++ names⟩ = .error errno) ∧
          t.get? (l ++ names) = none := by
  have hnul : (names.any fun s => s.toList.contains '\x00') = false := by
    rw [List.any_eq_false]
    exact fun s hs => by simpa using (hnames s hs).nul
  unfold locate Path.isAbsolute at h ⊢
  dsimp only at h ⊢
  generalize (if slashes != 0 then ["/"] else [] : Location) = start at h ⊢
  split at h
  · cases h
  rename_i hsegments
  split at h
  · cases h
  rw [if_neg (by rwa [List.any_append, hnul, Bool.or_false]), follow_append, h]
  split_ifs
  · exact .inl rfl
  · exact follow_names hl hnames

/-- No path leads to a name in a directory that is too long. -/
theorem locate_long {slashes : Nat} {segments : List String} {s : String}
    (h : t.locate ⟨slashes, segments⟩ = .ok l) (hl : t.get? l = some .dir)
    (hs : maxNameBytes < s.utf8ByteSize) (hnul : '\x00' ∉ s.toList) :
    t.locate ⟨slashes, segments ++ [s]⟩ = .error .nameTooLong := by
  have hnul : (List.any [s] fun s => s.toList.contains '\x00') = false := by simpa using hnul
  unfold locate Path.isAbsolute at h ⊢
  dsimp only at h ⊢
  generalize (if slashes != 0 then ["/"] else [] : Location) = start at h ⊢
  split at h
  · cases h
  rename_i hsegments
  split at h
  · cases h
  rw [if_neg (by rwa [List.any_append, hnul, Bool.or_false]), follow_append, h]
  split_ifs
  · rfl
  · change t.follow l [s] = _
    rw [follow, hl]
    dsimp only
    rw [if_pos hs]

/-- Names lead down, one after the other. -/
theorem follow_eq_append {xs : List String} {l m : Location} (hxs : ∀ s ∈ xs, s ≠ "..")
    (h : t.follow l xs = .ok m) : m = l ++ xs := by
  induction xs generalizing l with
  | nil =>
    cases h
    exact (List.append_nil _).symm
  | cons s rest ih =>
    unfold follow at h
    split at h
    · cases h
    · cases h
    · split at h
      · cases h
      · rw [if_neg (by simpa using hxs s List.mem_cons_self)] at h
        rw [ih (fun s hs => hxs s (List.mem_cons_of_mem _ hs)) h]
        simp

end FileTree

namespace Disk

open FileTree

variable {t t' : FileTree} {l m : Location} {p : Path} {content : Content}

theorem locate_ok : Ok (locate p) t fun l t' => t' = t ∧ t.locate p = .ok l := by
  unfold locate
  refine ok_get_bind ?_
  split
  · rename_i l hl
    exact ok_pure ⟨rfl, hl⟩
  · exact ok_throw _

theorem find?_ok : Ok (find? p) t fun e? t' => t' = t ∧
    ∀ e, e? = some e → ∃ l, t.locate p = .ok l ∧ t.get? l = some e := by
  unfold find?
  refine ok_get_bind ?_
  split
  · rename_i l hl
    exact ok_pure ⟨rfl, fun e he => ⟨l, hl, he⟩⟩
  · split
    · exact ok_throw _
    · exact ok_pure ⟨rfl, nofun⟩

theorem find?_eq (p : Path) (t : FileTree) :
    find? p t = match t.locate p with
      | .ok l => .ok (t.get? l) t
      | .error errno =>
        if errno == .nameTooLong then .error { errno, path := p } t else .ok none t := by
  unfold find?
  change (match t.locate p with
    | .ok l => pure (t.get? l)
    | .error errno => if errno == .nameTooLong then refuse errno p else pure none :
      Disk (Option Entry)) t = _
  cases t.locate p with
  | ok l => rfl
  | error errno => cases errno <;> rfl

/-- What a path below a directory is found to lead to. -/
theorem find?_names {slashes : Nat} {segments names : List String}
    (h : t.locate ⟨slashes, segments⟩ = .ok l) (hl : t.get? l = some .dir)
    (hnames : ∀ s ∈ names, IsFileName s) :
    find? ⟨slashes, segments ++ names⟩ t =
        .error { errno := .nameTooLong, path := ⟨slashes, segments ++ names⟩ } t ∨
      find? ⟨slashes, segments ++ names⟩ t = .ok (t.get? (l ++ names)) t := by
  rw [find?_eq]
  obtain hlong | hok | ⟨⟨errno, herror⟩, hnone⟩ := locate_names h hl hnames
  · rw [hlong]
    exact .inl rfl
  · rw [hok]
    exact .inr rfl
  · rw [herror, hnone]
    cases errno with
    | nameTooLong => exact .inl rfl
    | _ => exact .inr rfl

theorem isFile_true (h : find? p t = .ok (some (.file content)) t) : isFile p t = .ok true t := by
  change EStateM.bind (find? p) _ t = _
  unfold EStateM.bind
  rw [h]
  rfl

theorem isFile_false {e? : Option Entry} (h : find? p t = .ok e? t)
    (he? : ∀ content, e? ≠ some (.file content)) : isFile p t = .ok false t := by
  change EStateM.bind (find? p) _ t = _
  unfold EStateM.bind
  rw [h]
  rcases e? with _ | (_ | content)
  · rfl
  · rfl
  · exact absurd rfl (he? content)

theorem isFile_error {e : OsError} (h : find? p t = .error e t) : isFile p t = .error e t := by
  change EStateM.bind (find? p) _ t = _
  unfold EStateM.bind
  rw [h]

theorem locate_eq (hl : t.locate p = .ok l) : locate p t = .ok l t := by
  change (match t.locate p with
    | .ok l => pure l
    | .error errno => refuse errno p : Disk Location) t = _
  rw [hl]
  rfl

theorem read_eq (hl : t.locate p = .ok l) (h : t.get? l = some (.file content)) :
    read p t = .ok content t := by
  have hget : ∀ {α : Type} (f : FileTree → Disk α), (get >>= f) t = f t t := fun _ => rfl
  change EStateM.bind (locate p) _ t = _
  unfold EStateM.bind
  rw [locate_eq hl]
  dsimp only
  rw [hget, h]
  rfl

/-- To write what a file holds already changes nothing. -/
theorem write_same (hl : t.locate p = .ok l) (hfile : t.get? l = some (.file content)) :
    write p content t = .ok () t := by
  have hgiven : ¬ l.isGiven := by
    intro hgiven
    rw [get?, if_pos hgiven] at hfile
    cases hfile
  have hd : t.get? l ≠ some .dir := by
    intro hdir
    cases hfile.symm.trans hdir
  have h : ¬ l.isGiven ∧ t.get? l.dropLast = some .dir := ⟨hgiven, get?_dropLast hgiven hfile⟩
  have hput : t.put l (.file content) h.1 h.2 hd = t := by
    have hentries : Keyed.set l (Entry.file content) t.entries = t.entries := by
      rw [get?, if_neg hgiven] at hfile
      exact Keyed.set_of_get? hfile
    unfold put
    congr
  change EStateM.bind (locate p) _ t = _
  unfold EStateM.bind
  rw [locate_eq hl]
  change (if hd : t.get? l = some .dir then refuse .isDirectory p
    else if h : ¬ l.isGiven ∧ t.get? l.dropLast = some .dir then
      set (t.put l (.file content) h.1 h.2 hd) else refuse .noEntry p : Disk Unit) t = _
  rw [dif_neg hd, dif_pos h, hput]
  rfl

/-- No path with a NUL in it leads anywhere. -/
theorem find?_nul (hnul : ∃ s ∈ p.segments, '\x00' ∈ s.toList) : find? p t = .ok none t := by
  obtain ⟨s, hs, hnul⟩ := hnul
  have hany : (p.segments.any fun seg => seg.toList.contains '\x00') = true :=
    List.any_eq_true.mpr ⟨s, hs, by simpa using hnul⟩
  have hlocate : t.locate p = .error .nulInPath := by
    unfold FileTree.locate
    rw [hany]
    rfl
  rw [find?_eq, hlocate]
  rfl

theorem isDir_ok : Ok (isDir p) t fun found t' => t' = t ∧
    (found = true → ∃ l, t.locate p = .ok l ∧ t.get? l = some .dir) := by
  refine ok_bind find?_ok fun e? t' ⟨ht, he?⟩ => ok_pure ⟨ht, fun hfound => ?_⟩
  exact he? _ (beq_iff_eq.mp hfound)

theorem read_ok : Ok (read p) t fun content t' => t' = t ∧
    ∃ l, t.locate p = .ok l ∧ t.get? l = some (.file content) := by
  unfold read
  refine ok_bind locate_ok fun l t' ⟨ht, hl⟩ => ?_
  subst ht
  refine ok_get_bind ?_
  split
  · rename_i content hcontent
    exact ok_pure ⟨rfl, l, hl, hcontent⟩
  · exact ok_throw _
  · exact ok_throw _

theorem list_ok : Ok (list p) t fun found t' => t' = t ∧
    ∃ l, t.locate p = .ok l ∧ t.get? l = some .dir ∧ found = t.children l := by
  unfold list
  refine ok_bind locate_ok fun l t' ⟨ht, hl⟩ => ?_
  subst ht
  refine ok_get_bind ?_
  split
  · rename_i hdir
    exact ok_get_bind (ok_pure ⟨rfl, l, hl, hdir, rfl⟩)
  · exact ok_throw _
  · exact ok_throw _

/-- A file that was written stands in its place, and nothing else has changed. -/
theorem write_ok : Ok (write p content) t fun _ t' => ∃ l, t.locate p = .ok l ∧
    ¬ l.isGiven ∧ t.get? l.dropLast = some .dir ∧ t.get? l ≠ some .dir ∧
    ∀ m, t'.get? m = if m = l then some (.file content) else t.get? m := by
  unfold write
  refine ok_bind locate_ok fun l t' ⟨ht, hl⟩ => ?_
  subst ht
  refine ok_get_bind ?_
  split
  · exact ok_throw _
  · rename_i hd
    split
    · rename_i h
      intro _ t' ht
      cases ht
      exact ⟨l, hl, h.1, h.2, hd, fun m => get?_put m⟩
    · exact ok_throw _

theorem remove_ok : Ok (remove p) t fun _ t' => ∃ l, t.locate p = .ok l ∧
    t.get? l ≠ some .dir ∧ ∀ m, t'.get? m = if m = l then none else t.get? m := by
  unfold remove
  refine ok_bind locate_ok fun l t' ⟨ht, hl⟩ => ?_
  subst ht
  refine ok_get_bind ?_
  split
  · exact ok_throw _
  · rename_i hd
    split
    · intro _ t' ht
      cases ht
      exact ⟨l, hl, hd, fun m => get?_erase m⟩
    · exact ok_throw _

/-- A moved file stands in its new place and not in the old one, and nothing else has changed. -/
theorem move_ok {source destination : Path} :
    Ok (move source destination) t fun _ t' => ∃ a b content,
      t.locate source = .ok a ∧ t.locate destination = .ok b ∧
      t.get? a = some (.file content) ∧ t.get? b ≠ some .dir ∧
      (a ≠ b → ∀ m, t'.get? m =
        if m = b then some (.file content) else if m = a then none else t.get? m) := by
  unfold move
  refine ok_bind read_ok fun content t' ⟨ht, a, ha, hcontent⟩ => ?_
  subst ht
  refine ok_bind locate_ok fun b t' ⟨ht, hb⟩ => ?_
  subst ht
  have hthrow : ∀ {P : Unit → FileTree → Prop} (e : OsError) (rest : Unit → Disk Unit),
      Ok (throw e >>= rest) t' P := fun e rest =>
    ok_bind (Q := fun _ _ => False) (ok_throw e) fun _ _ h => h.elim
  split
  · exact hthrow _ _
  refine ok_get_bind ?_
  dsimp only
  split
  · exact hthrow _ _
  rename_i hdir
  have hdir : t'.get? b ≠ some .dir := by simpa using hdir
  refine ok_bind locate_ok fun a' t'' ⟨ht, ha'⟩ => ?_
  subst ht
  obtain rfl : a = a' := Except.ok.inj (ha.symm.trans ha')
  split
  · refine ok_bind remove_ok fun _ t₁ ⟨a', ha', _, hremoved⟩ => ?_
    obtain rfl : a = a' := Except.ok.inj (ha.symm.trans ha')
    refine ok_mono write_ok fun _ t₂ ⟨b', hb', _, _, _, hwritten⟩ => ?_
    have hb' : b' = b := by
      refine Except.ok.inj (hb'.symm.trans (locate_mono (fun m hm => ?_) hb))
      rw [hremoved, if_neg]
      · exact hm
      · rintro rfl
        rw [hcontent] at hm
        cases hm
    subst hb'
    refine ⟨a, b', content, ha, hb, hcontent, hdir, fun _ m => ?_⟩
    rw [hwritten, hremoved]
  · rename_i hne
    have hne : a = b := by simpa using hne
    exact ok_pure ⟨a, b, content, ha, hb, hcontent, hdir, fun h => absurd hne h⟩

/-- Making directories adds nothing but directories, and removes nothing. -/
def AddsDirs (t t' : FileTree) : Prop :=
  ∀ m, t'.get? m = t.get? m ∨ t.get? m = none ∧ t'.get? m = some .dir

theorem AddsDirs.keepsDirs (h : AddsDirs t t') : t.KeepsDirs t' := by
  intro m hm
  rcases h m with h | ⟨hnone, hdir⟩
  · exact h.trans hm
  · exact hdir

/-- Making the directories of a path adds nothing but directories on the way to it. -/
def AddsAlong (p : Path) (t t' : FileTree) : Prop :=
  ∀ m, t'.get? m = t.get? m ∨ t.get? m = none ∧ t'.get? m = some .dir ∧
    ∃ xs, xs <+: p.segments ∧ t'.locate ⟨p.slashes, xs⟩ = .ok m

theorem AddsAlong.addsDirs (h : AddsAlong p t t') : AddsDirs t t' :=
  fun m => (h m).imp_right fun h => ⟨h.1, h.2.1⟩

theorem AddsAlong.trans {t₁ t₂ t₃ : FileTree} (h : AddsAlong p t₁ t₂) (h' : AddsAlong p t₂ t₃) :
    AddsAlong p t₁ t₃ := by
  intro m
  rcases h m with h | ⟨hnone, hdir, xs, hxs, hm⟩
  · rw [← h]
    exact h' m
  · have hkeeps := h'.addsDirs.keepsDirs
    exact .inr ⟨hnone, hkeeps m hdir, xs, hxs, locate_mono hkeeps hm⟩

instance (p : Path) : Std.Refl (AddsAlong p) :=
  ⟨fun _ _ => .inl rfl⟩

instance (p : Path) : IsTrans FileTree (AddsAlong p) :=
  ⟨fun _ _ _ => AddsAlong.trans⟩

section Along

variable {R : FileTree → FileTree → Prop} [Std.Refl R] [IsTrans FileTree R]

instance (errno : Errno) (p : Path) {α : Type} : Moves R (refuse errno p : Disk α) :=
  inferInstanceAs (Moves R (throw _))

theorem moves_locate (p : Path) : Moves R (locate p) := by
  refine moves_bind inferInstance fun t => ?_
  split <;> infer_instance

theorem moves_isDir (p : Path) : Moves R (isDir p) := by
  have hfind : Moves R (find? p) := by
    refine moves_bind inferInstance fun t => ?_
    split <;> infer_instance
  exact moves_bind hfind fun _ => inferInstance

end Along

theorem moves_makeDir {xs : List String} (hxs : xs <+: p.segments) :
    Moves (AddsAlong p) (makeDir ⟨p.slashes, xs⟩) := by
  refine moves_bind_from (moves_locate _) fun t l t' hrun _ => ?_
  obtain ⟨rfl, hl⟩ := locate_ok l t' hrun
  change AddsAlong p t' (stateAfter ((if (t'.get? l).isSome then refuse .exists _ else _ : Disk Unit) t'))
  split
  · exact fun _ => .inl rfl
  · rename_i hsome
    split
    · rename_i h
      have hput : ∀ m, (t'.put l .dir h.1 h.2.1 h.2.2).get? m =
          if m = l then some .dir else t'.get? m :=
        fun m => get?_put m
      change AddsAlong p t' (t'.put l .dir h.1 h.2.1 h.2.2)
      intro m
      rw [hput]
      split
      · rename_i hm
        subst hm
        refine .inr ⟨by simpa using hsome, rfl, xs, hxs, locate_mono (fun m' hm' => ?_) hl⟩
        rw [hput]
        split
        · rfl
        · exact hm'
      · exact .inl rfl
    · exact fun _ => .inl rfl

theorem ensureDir_eq (p : Path) : ensureDir p =
    tryCatch (makeDir p) fun e => isDir p >>= fun found => if found then pure () else throw e := by
  funext t
  unfold ensureDir
  delta EarlyReturn.runK
  simp only [tryCatch, tryCatchThe, MonadExceptOf.tryCatch, EStateM.tryCatch, bind, EStateM.bind,
    pure]
  cases makeDir p t with
  | ok _ s => rfl
  | error e s =>
    dsimp only
    cases isDir p (EStateM.Backtrackable.restore s (EStateM.Backtrackable.save t)) with
    | ok found s' => cases found <;> rfl
    | error e' s' => rfl

theorem moves_ensureDir {xs : List String} (hxs : xs <+: p.segments) :
    Moves (AddsAlong p) (ensureDir ⟨p.slashes, xs⟩) := by
  have hmake := moves_makeDir hxs
  have hfound := moves_isDir (R := AddsAlong p) ⟨p.slashes, xs⟩
  rw [ensureDir_eq]
  infer_instance

/-- Making directories only adds directories on the way, even if it fails. -/
theorem moves_makeDirs_along (p : Path) : Moves (AddsAlong p) (makeDirs p) := by
  have hall : ∀ revSegments : List String, revSegments.reverse <+: p.segments →
      Moves (AddsAlong p) (ensureDirs p.slashes revSegments) := by
    intro revSegments hprefix
    induction revSegments with
    | nil => exact moves_ensureDir hprefix
    | cons s above ih =>
      have hensure := moves_ensureDir hprefix
      have habove := ih ((List.prefix_append _ _).trans (List.reverse_cons ▸ hprefix))
      unfold ensureDirs
      infer_instance
  exact hall _ (by simp)

theorem moves_makeDirs (p : Path) : Moves AddsDirs (makeDirs p) :=
  (moves_makeDirs_along p).mono fun _ _ => AddsAlong.addsDirs

/-- A directory that is there does not have to be made. -/
theorem makeDirs_isDir (hl : t.locate p = .ok l) (hdir : t.get? l = some .dir) :
    makeDirs p t = .ok () t := by
  have hfound : isDir p t = .ok true t := by
    have hfind : find? p t = .ok (some .dir) t := by rw [find?_eq, hl, ← hdir]
    change EStateM.bind (find? p) _ t = _
    unfold EStateM.bind
    rw [hfind]
    rfl
  have hrefused : makeDir p t = .error { errno := .exists, path := p } t := by
    change EStateM.bind (locate p) _ t = _
    unfold EStateM.bind
    rw [locate_eq hl]
    change (if (t.get? l).isSome = true then refuse .exists p else _ : Disk Unit) t = _
    rw [if_pos (by rw [hdir]; rfl)]
    rfl
  have hensure : ensureDir p t = .ok () t := by
    rw [ensureDir_eq]
    change EStateM.tryCatch (makeDir p) _ t = _
    unfold EStateM.tryCatch
    rw [hrefused]
    change EStateM.bind (isDir p) _ t = _
    unfold EStateM.bind
    rw [hfound]
    rfl
  unfold makeDirs
  cases hsegments : p.segments.reverse with
  | nil =>
    have hp : (⟨p.slashes, []⟩ : Path) = p := by
      rw [← List.reverse_eq_nil_iff.mp hsegments]
    rw [ensureDirs, hp, hensure]
  | cons s above =>
    have hp : (⟨p.slashes, (s :: above).reverse⟩ : Path) = p := by
      rw [← hsegments, List.reverse_reverse]
    rw [ensureDirs, hp]
    change EStateM.tryCatch (ensureDir p) _ t = _
    unfold EStateM.tryCatch
    rw [hensure]

end Disk

/-- A tree of text files. -/
def FileTree.ofTexts (files : List (List String × String)) : FileTree :=
  files.foldl (fun t f =>
      let written : Disk Unit := do
        Disk.makeDirs ⟨0, f.1.dropLast⟩
        Disk.write ⟨0, f.1⟩ (.plain f.2.toUTF8)
      stateAfter (written t))
    .empty

end StubWriter
