import StubWriter.Proofs.Jar.Packing

/-!
# The steps of a packing and what they touch

An archive is written under a name of its own beside its place. The steps that write it there and
remove it again touch one file and no directory, so every path leads where it led before, and one
that leads elsewhere finds what it found before. Steps that are refused touch nothing.

* `TouchesOnly`: trees that differ in a file, and `Jar.ask_find?_eq`.
* `Jar.locate_unfinished`: where an unfinished archive stands.
* `Jar.write_comes`, `Jar.move_refused`: steps that may be refused.
* `Jar.Clear`: where what is left of an archive can be removed.
-/

namespace StubWriter

open Run

namespace FileTree

variable {t t' t'' : FileTree} {p q : Path} {l m : Location}

/-! ## Trees that differ in a file -/

/-- A tree and what becomes of it if nothing but a file at a path is written or removed. -/
def TouchesOnly (p : Path) (t t' : FileTree) : Prop :=
  ∀ m, t'.get? m = t.get? m ∨
    t.locate p = .ok m ∧ t.get? m ≠ some .dir ∧ t'.get? m ≠ some .dir

namespace TouchesOnly

theorem refl (p : Path) (t : FileTree) : TouchesOnly p t t :=
  fun _ => .inl rfl

theorem keepsDirs (h : TouchesOnly p t t') : t.KeepsDirs t' := by
  intro m hm
  rcases h m with h | ⟨-, hnot, -⟩
  · exact h.trans hm
  · exact absurd hm hnot

theorem keepsDirs_back (h : TouchesOnly p t t') : t'.KeepsDirs t := by
  intro m hm
  rcases h m with h | ⟨-, -, hnot⟩
  · exact h.symm.trans hm
  · exact absurd hm hnot

theorem locate_iff (h : TouchesOnly p t t') : t'.locate q = .ok l ↔ t.locate q = .ok l :=
  ⟨locate_mono h.keepsDirs_back, locate_mono h.keepsDirs⟩

theorem locate_long_iff (h : TouchesOnly p t t') :
    t'.locate q = .error .nameTooLong ↔ t.locate q = .error .nameTooLong :=
  ⟨locate_long_mono h.keepsDirs_back, locate_long_mono h.keepsDirs⟩

theorem trans (h : TouchesOnly p t t') (h' : TouchesOnly p t' t'') : TouchesOnly p t t'' := by
  intro m
  rcases h' m with h' | ⟨hm, hnot, hnot'⟩
  · rw [h']
    exact h m
  · refine .inr ⟨h.locate_iff.mp hm, fun hdir => hnot ?_, hnot'⟩
    exact h.keepsDirs m hdir

theorem get?_eq (h : TouchesOnly p t t') (hm : t.locate p ≠ .ok m) : t'.get? m = t.get? m :=
  (h m).resolve_right fun hp => hm hp.1

end TouchesOnly

end FileTree

namespace Jar

open FileTree Location

variable {t t' tree : FileTree} {p q base root out : Path} {selection : Selection}

theorem ask_find? (t : FileTree) (p : Path) : ask t (Disk.find? p) =
    match t.locate p with
    | .ok l => .ok (t.get? l)
    | .error errno =>
      if errno == .nameTooLong then .error (.system { errno, path := p }) else .ok none := by
  unfold ask
  rw [Disk.find?_eq]
  cases t.locate p with
  | ok l => rfl
  | error errno => cases errno <;> rfl

/-- What a path leads to can be told unless it is too long. -/
theorem told_iff :
    (∃ e?, ask t (Disk.find? p) = .ok e?) ↔ t.locate p ≠ .error .nameTooLong := by
  rw [ask_find?]
  cases t.locate p with
  | ok l => simp
  | error errno => cases errno <;> simp

theorem ask_map {α β : Type} (t : FileTree) (x : Disk α) (f : α → β) :
    ask t (x >>= fun a => pure (f a)) = (ask t x).map f := by
  have hbind : (x >>= fun a => pure (f a)) t = EStateM.bind x (fun a => pure (f a)) t := rfl
  unfold ask
  rw [hbind, EStateM.bind]
  cases x t <;> rfl

theorem ask_isDir (t : FileTree) (p : Path) :
    ask t (Disk.isDir p) = (ask t (Disk.find? p)).map (· == some .dir) :=
  ask_map t (Disk.find? p) _

/-- Whether something is a file. -/
def isFileEntry : Option Entry → Bool
  | some (.file _) => true
  | _ => false

theorem ask_isFile (t : FileTree) (p : Path) :
    ask t (Disk.isFile p) = (ask t (Disk.find? p)).map isFileEntry := by
  have hisFile : Disk.isFile p = Disk.find? p >>= fun e? => pure (isFileEntry e?) := by
    unfold Disk.isFile
    congr 1
    funext e?
    rcases e? with _ | (_ | content) <;> rfl
  rw [hisFile, ask_map]

theorem ask_read {content : Content} :
    ask t (Disk.read p) = .ok content ↔ ask t (Disk.find? p) = .ok (some (.file content)) := by
  rw [ask_find?]
  constructor
  · intro h
    obtain ⟨-, -, l, hl, hcontent⟩ := ask_ok Disk.read_ok h
    rw [hl]
    exact congrArg _ hcontent
  · intro h
    split at h
    · rename_i l hl
      rw [ask, Disk.read_eq hl (Except.ok.inj h)]
    · split at h <;> cases h

/-- What a path leads to is the same if nothing but another file was touched. -/
theorem ask_find?_eq (h : TouchesOnly p t t') (hq : ∀ l, t.locate q = .ok l → t.locate p ≠ .ok l) :
    ask t' (Disk.find? q) = ask t (Disk.find? q) := by
  rw [ask_find?, ask_find?]
  cases hl : t.locate q with
  | ok l =>
    rw [h.locate_iff.mpr hl]
    dsimp only
    rw [h.get?_eq (hq l hl)]
  | error errno =>
    cases hl' : t'.locate q with
    | ok l => exact nomatch hl.symm.trans (h.locate_iff.mp hl')
    | error errno' =>
      by_cases hlong : errno = .nameTooLong
      · subst hlong
        rw [h.locate_long_iff.mpr hl] at hl'
        cases hl'
        rfl
      · have hlong' : errno' ≠ .nameTooLong := by
          rintro rfl
          exact hlong (Except.error.inj (hl.symm.trans (h.locate_long_iff.mp hl')))
        simp [hlong, hlong']

/-! ## The place of an unfinished archive -/

/-- The path of an archive until it is complete. -/
def unfinished (out : Path) : Path :=
  out.withName (unfinishedName out.name)

theorem unfinishedName_up (name : String) : unfinishedName name ≠ ".." := by
  intro h
  have hlast : (unfinishedName name).toList.getLast? = some 't' := by
    rw [unfinishedName, String.toList_append, List.getLast?_append]
    rfl
  rw [h] at hlast
  cases hlast

theorem locate_unfinished {a : Location} (h : t.locate (unfinished out) = .ok a) :
    ∃ k, t.locate out.parent = .ok k ∧ t.get? k = some .dir ∧
      a = k ++ [unfinishedName out.name] := by
  obtain ⟨k, hk, ha⟩ := locate_append h
  exact ⟨k, hk, isDir_of_follow (List.cons_ne_nil _ []) ha,
    follow_eq_append (List.forall_mem_singleton.mpr (unfinishedName_up _)) ha⟩

theorem outer_ne (k : Location) {s : String} (hs : s ≠ "..") : outer k ≠ k ++ [s] := by
  unfold outer
  split_ifs with hroot hgiven
  · simp
  · simpa using Ne.symm hs
  · intro h
    have hlength := congrArg List.length h
    rw [List.length_dropLast, List.length_append, List.length_singleton] at hlength
    omega

/-- Where a path leads, seen from the directory of its last segment. -/
theorem locate_out {b : Location} (h : t.locate out = .ok b) :
    out.segments = [] ∧ b.isGiven = true ∨ out.segments ≠ [] ∧
      ∃ k, t.locate out.parent = .ok k ∧ t.get? k = some .dir ∧
        b = if out.name = ".." then outer k else k ++ [out.name] := by
  obtain ⟨slashes, segments⟩ := out
  rcases List.eq_nil_or_concat segments with rfl | ⟨front, last, rfl⟩
  · refine .inl ⟨rfl, ?_⟩
    unfold locate at h
    split_ifs at h
    all_goals
      cases h
      rfl
  · refine .inr ⟨by simp, ?_⟩
    rw [List.concat_eq_append] at h ⊢
    obtain ⟨k, hk, hb⟩ := locate_append h
    have hparent : Path.parent ⟨slashes, front ++ [last]⟩ = ⟨slashes, front⟩ := by
      simp [Path.parent]
    have hname : Path.name ⟨slashes, front ++ [last]⟩ = last := by simp [Path.name]
    rw [hparent, hname]
    refine ⟨k, hk, ?_⟩
    unfold follow at hb
    split at hb
    · cases hb
    · cases hb
    · rename_i hdir
      refine ⟨hdir, ?_⟩
      split_ifs at hb with hlong hup
      · cases hb
        rw [if_pos (beq_iff_eq.mp hup)]
      · cases hb
        rw [if_neg (fun hname => hup (beq_iff_eq.mpr hname))]

theorem unfinished_ne_out {a b : Location} (ha : t.locate (unfinished out) = .ok a)
    (hb : t.locate out = .ok b) : a ≠ b := by
  obtain ⟨k, hk, -, rfl⟩ := locate_unfinished ha
  rcases locate_out hb with ⟨hnil, -⟩ | ⟨-, k', hk', -, rfl⟩
  · have hparent : out.parent = out := by rw [Path.parent, hnil, List.dropLast_nil, ← hnil]
    rw [hparent] at hk
    obtain rfl : k = b := Except.ok.inj (hk.symm.trans hb)
    simp
  · obtain rfl : k = k' := Except.ok.inj (hk.symm.trans hk')
    split_ifs with hup
    · exact (outer_ne k (unfinishedName_up _)).symm
    · intro h
      exact unfinishedName_ne _ (List.singleton_inj.mp (List.append_cancel_left h))

/-! ## Steps that are refused -/

theorem locate_comes : Comes (Disk.locate p) t fun o s =>
    s = t ∧ ∀ l, o = .ok l → t.locate p = .ok l := by
  unfold Disk.locate
  refine comes_get_bind ?_
  split
  · rename_i l hl
    exact ⟨rfl, fun _ h => by cases h; exact hl⟩
  · exact ⟨rfl, nofun⟩

/-- A file that could not be written leaves all as it was. -/
theorem write_comes {content : Content} :
    Comes (Disk.write p content) t fun o s => (∃ e, o = .error e) ∧ s = t ∨
      o = .ok () ∧ TouchesOnly p t s ∧ ask s (Disk.find? p) = .ok (some (.file content)) := by
  have hrefused : Comes (Disk.write p content) t fun o s => ∀ e, o = .error e → s = t := by
    refine comes_bind locate_comes (fun l s hl => ?_) fun e s hs _ _ => hs.1
    obtain ⟨rfl, -⟩ := hl
    refine comes_get_bind ?_
    split
    · exact fun _ _ => rfl
    · split
      · intro e he
        cases he
      · exact fun _ _ => rfl
  unfold Comes at hrefused ⊢
  cases hrun : Disk.write p content t with
  | error e s =>
    rw [hrun] at hrefused
    exact .inl ⟨⟨e, rfl⟩, hrefused e rfl⟩
  | ok u s =>
    obtain ⟨l, hl, -, -, hnot, hget⟩ := Disk.write_ok u s hrun
    have htouches : TouchesOnly p t s := by
      intro m
      rw [hget]
      split
      · rename_i hm
        subst hm
        refine .inr ⟨hl, hnot, fun h => ?_⟩
        cases h
      · exact .inl rfl
    have hstands : ask s (Disk.find? p) = .ok (some (.file content)) := by
      rw [ask_find?, htouches.locate_iff.mpr hl]
      dsimp only
      rw [hget, if_pos rfl]
    exact .inr ⟨rfl, htouches, hstands⟩

theorem write_runs (content : Content) {l : Location} (hl : t.locate p = .ok l)
    (hgiven : ¬ l.isGiven) (hdir : t.get? l.dropLast = some .dir) (hnot : t.get? l ≠ some .dir) :
    ∃ s, Disk.write p content t = .ok () s := by
  have hwrite : Disk.write p content t = (if hd : t.get? l = some .dir then Disk.refuse .isDirectory p
      else if h : ¬ l.isGiven ∧ t.get? l.dropLast = some .dir then
        set (t.put l (.file content) h.1 h.2 hd) else Disk.refuse .noEntry p : Disk Unit) t := by
    change EStateM.bind (Disk.locate p) _ t = _
    unfold EStateM.bind
    rw [Disk.locate_eq hl]
    rfl
  rw [hwrite, dif_neg hnot, dif_pos ⟨hgiven, hdir⟩]
  exact ⟨_, rfl⟩

theorem remove_runs {content : Content} {l : Location} (hl : t.locate p = .ok l)
    (hfile : t.get? l = some (.file content)) : ∃ s, Disk.remove p t = .ok () s := by
  have hnot : t.get? l ≠ some .dir := by
    rw [hfile]
    nofun
  have hremove : Disk.remove p t = (if hd : t.get? l = some .dir then Disk.refuse .isDirectory p
      else if (t.get? l).isSome then set (t.erase l hd) else Disk.refuse .noEntry p : Disk Unit) t := by
    change EStateM.bind (Disk.locate p) _ t = _
    unfold EStateM.bind
    rw [Disk.locate_eq hl]
    rfl
  rw [hremove, dif_neg hnot, if_pos (by rw [hfile]; rfl)]
  exact ⟨_, rfl⟩

theorem read_comes : Comes (Disk.read p) t fun o s => s = t ∧
    ∀ content, o = .ok content → ∃ l, t.locate p = .ok l ∧ t.get? l = some (.file content) := by
  unfold Disk.read
  refine comes_bind locate_comes (fun l s hl => ?_) fun e s hs => ⟨hs.1, nofun⟩
  obtain ⟨rfl, hl⟩ := hl
  refine comes_get_bind ?_
  split
  · rename_i content hcontent
    exact ⟨rfl, fun _ h => by cases h; exact ⟨l, hl l rfl, hcontent⟩⟩
  · exact ⟨rfl, nofun⟩
  · exact ⟨rfl, nofun⟩

/-- A move that is refused leaves all as it was: once the file is taken away, it can be put where it
is to go. -/
theorem move_refused {source destination : Path} :
    Comes (Disk.move source destination) t fun o s => ∀ e, o = .error e → s = t := by
  unfold Disk.move
  refine comes_bind read_comes (fun content s hs => ?_) fun e s hs _ _ => hs.1
  obtain ⟨rfl, hcontent⟩ := hs
  obtain ⟨a, ha, hfile⟩ := hcontent content rfl
  refine comes_bind locate_comes (fun b s' hs' => ?_) fun e s' hs' _ _ => hs'.1
  obtain ⟨rfl, hb⟩ := hs'
  have hb := hb b rfl
  have hthrow : ∀ (e : OsError) (rest : Unit → Disk Unit),
      Comes (throw e >>= rest) s' fun o s'' => ∀ e, o = .error e → s'' = s' :=
    fun e rest _ _ => rfl
  split
  · exact hthrow _ _
  rename_i hup
  refine comes_get_bind ?_
  dsimp only
  split
  · exact hthrow _ _
  rename_i hdir
  have hdir : s'.get? b ≠ some .dir := by simpa using hdir
  refine comes_bind locate_comes (fun a' s'' hs'' => ?_) fun e s'' hs'' _ _ => hs''.1
  obtain ⟨rfl, ha'⟩ := hs''
  obtain rfl : a = a' := Except.ok.inj (ha.symm.trans (ha' a' rfl))
  split
  · rename_i hne
    obtain ⟨s₁, hremove⟩ := remove_runs ha hfile
    obtain ⟨a', ha', -, hremoved⟩ := Disk.remove_ok () s₁ hremove
    obtain rfl : a = a' := Except.ok.inj (ha.symm.trans ha')
    have hbgiven : ¬ b.isGiven := by
      intro hgiven
      rw [get?, if_pos hgiven] at hdir
      exact hdir rfl
    have hparent : s''.get? b.dropLast = some .dir := by
      rcases locate_out hb with ⟨-, hgiven⟩ | ⟨-, k, -, hk, rfl⟩
      · exact absurd hgiven hbgiven
      · rw [if_neg (fun hname => hup (beq_iff_eq.mpr hname)), List.dropLast_concat]
        exact hk
    have hkeeps : s''.KeepsDirs s₁ := by
      intro m hm
      rw [hremoved, if_neg]
      · exact hm
      · rintro rfl
        rw [hfile] at hm
        cases hm
    have hnot : s₁.get? b ≠ some .dir := by
      rw [hremoved]
      split
      · intro h
        cases h
      · exact hdir
    obtain ⟨s₂, hwrite⟩ :=
      write_runs content (locate_mono hkeeps hb) hbgiven (hkeeps _ hparent) hnot
    have hboth : (Disk.remove source >>= fun _ => Disk.write destination content) s'' =
        .ok () s₂ := by
      change EStateM.bind _ _ _ = _
      unfold EStateM.bind
      rw [hremove]
      exact hwrite
    unfold Comes
    rw [hboth]
    intro e he
    cases he
  · intro e he
    cases he

/-- Whether it can be told what stands at the place of an unfinished archive, and it is no directory:
otherwise it cannot be removed. -/
def Clear (t : FileTree) (p : Path) : Prop :=
  ∃ e?, ask t (Disk.find? p) = .ok e? ∧ e? ≠ some .dir

theorem clear_iff_locate : Clear t p ↔
    (∀ l, t.locate p = .ok l → t.get? l ≠ some .dir) ∧ t.locate p ≠ .error .nameTooLong := by
  unfold Clear
  rw [ask_find?]
  cases hl : t.locate p with
  | ok l => simp
  | error errno => cases errno <;> simp

theorem clear_iff (h : TouchesOnly p t t') : Clear t' p ↔ Clear t p := by
  rw [clear_iff_locate, clear_iff_locate, Ne, h.locate_long_iff]
  refine and_congr_left fun _ => forall_congr' fun l => ?_
  rw [h.locate_iff]
  exact imp_congr_right fun hl => not_congr ⟨h.keepsDirs_back l, h.keepsDirs l⟩

theorem discard_eq (p : Path) (t : FileTree) : discard p t =
    match ask t (Disk.find? p) with
    | .ok none => .ok () t
    | .ok (some _) => Disk.remove p t
    | .error _ => .error { errno := .nameTooLong, path := p } t := by
  have hexists : Disk.exists? p t =
      match Disk.find? p t with
      | .ok e? t' => .ok e?.isSome t'
      | .error e t' => .error e t' := by
    change EStateM.bind (Disk.find? p) _ t = _
    unfold EStateM.bind
    cases Disk.find? p t <;> rfl
  unfold discard
  change EStateM.bind (Disk.exists? p) _ t = _
  unfold EStateM.bind
  rw [hexists, ask_find?, Disk.find?_eq]
  cases t.locate p with
  | ok l =>
    dsimp only
    cases t.get? l <;> rfl
  | error errno => cases errno <;> rfl

theorem discard_clear (h : Clear t p) :
    Comes (discard p) t fun o s =>
      o = .ok () ∧ TouchesOnly p t s ∧ ask s (Disk.find? p) = .ok none := by
  obtain ⟨e?, he?, hnot⟩ := h
  unfold Comes
  rw [discard_eq, he?]
  rcases e? with _ | (_ | content)
  · exact ⟨rfl, .refl p t, he?⟩
  · exact absurd rfl hnot
  · obtain ⟨l, hl, hfile⟩ : ∃ l, t.locate p = .ok l ∧ t.get? l = some (.file content) := by
      rw [ask_find?] at he?
      split at he?
      · rename_i l hl
        exact ⟨l, hl, Except.ok.inj he?⟩
      · split at he? <;> cases he?
    obtain ⟨s, hs⟩ := remove_runs hl hfile
    obtain ⟨l', hl', hdir, hget⟩ := Disk.remove_ok () s hs
    obtain rfl : l = l' := Except.ok.inj (hl.symm.trans hl')
    have htouches : TouchesOnly p t s := by
      intro m
      rw [hget]
      split
      · rename_i hm
        subst hm
        exact .inr ⟨hl, hdir, nofun⟩
      · exact .inl rfl
    dsimp only
    rw [hs]
    refine ⟨rfl, htouches, ?_⟩
    change ask s (Disk.find? p) = _
    rw [ask_find?, htouches.locate_iff.mpr hl]
    dsimp only
    rw [hget, if_pos rfl]

theorem discard_not_clear (h : ¬ Clear t p) :
    Comes (discard p) t fun o s => (∃ e, o = .error e) ∧ s = t := by
  unfold Comes
  rw [discard_eq]
  split
  · rename_i he?
    exact absurd ⟨none, he?, nofun⟩ h
  · rename_i e he?
    have hdir : e = .dir := by
      by_contra hne
      exact h ⟨some e, he?, fun he => hne (Option.some.inj he)⟩
    rw [hdir, ask_find?] at he?
    split at he?
    · rename_i l hl
      have hremove : Disk.remove p t = .error { errno := .isDirectory, path := p } t := by
        change EStateM.bind (Disk.locate p) _ t = _
        unfold EStateM.bind
        rw [Disk.locate_eq hl]
        change (if hd : t.get? l = some .dir then Disk.refuse .isDirectory p else _ : Disk Unit) t = _
        rw [dif_pos (Except.ok.inj he?)]
        rfl
      rw [hremove]
      exact ⟨⟨_, rfl⟩, rfl⟩
    · split at he? <;> cases he?
  · exact ⟨⟨_, rfl⟩, rfl⟩

end Jar

end StubWriter
