import StubWriter.Proofs.Disk

/-!
# Paths that lead straight down

A path that goes up at its start only, and then down by names that are not too long, leads to one and
the same place whatever a tree holds. So what is found at such a path is what stands at its place.

* `Path.Direct`, `Path.place`: these paths and their places.
* `Disk.find?_direct`: what is found at a direct path.
* `FileTree.SameFiles`: trees with the same files but for one place.
-/

namespace StubWriter

open Run

/-- A path that goes up at its start only, and down by names that are not too long. -/
def Path.Direct (p : Path) : Prop :=
  ∃ n names, p.segments = List.replicate n ".." ++ names ∧
    ∀ s ∈ names, IsFileName s ∧ s.utf8ByteSize ≤ FileTree.maxNameBytes

/-- Where a path leads that goes up at its start only. Above the root is the root. -/
def Path.place (p : Path) : Location :=
  if p.isAbsolute then "/" :: p.segments.dropWhile (· == "..") else p.segments

namespace FileTree

variable {t : FileTree} {l m : Location}

/-- Going up leads on to what is always there. -/
theorem follow_up (n : Nat) : t.follow ["/"] (List.replicate n "..") = .ok ["/"] ∧
    ∀ k, t.follow (List.replicate k "..") (List.replicate n "..") =
      .ok (List.replicate (k + n) "..") := by
  have hshort : ¬ maxNameBytes < "..".utf8ByteSize := by decide
  have hgiven : ∀ k, Location.isGiven (List.replicate k "..") = true := by
    simp [Location.isGiven]
  induction n with
  | zero => exact ⟨rfl, fun _ => rfl⟩
  | succ n ih =>
    refine ⟨?_, fun k => ?_⟩
    · rw [List.replicate_succ, follow]
      change (if maxNameBytes < "..".utf8ByteSize then _ else _) = _
      rw [if_neg hshort]
      exact ih.1
    · have hroot : (List.replicate k ".." == ["/"]) = false := by
        rcases k with _ | _ | k <;> rfl
      rw [List.replicate_succ, follow, get?, if_pos (hgiven k)]
      dsimp only
      rw [if_neg hshort, if_pos (by decide), outer, hroot, hgiven, if_neg Bool.false_ne_true,
        if_pos rfl, ← List.replicate_succ', ih.2]
      congr 2
      omega

/-- If a name is said to be too long, one is. -/
theorem long_of_follow {segments : List String}
    (h : t.follow l segments = .error .nameTooLong) :
    ∃ s ∈ segments, maxNameBytes < s.utf8ByteSize := by
  induction segments generalizing l with
  | nil => cases h
  | cons s rest ih =>
    unfold follow at h
    split at h
    · cases h
    · cases h
    · split at h
      · rename_i hlong
        exact ⟨s, List.mem_cons_self, hlong⟩
      · have hrest : ∃ s ∈ rest, maxNameBytes < s.utf8ByteSize := by
          split at h
          · exact ih h
          · exact ih h
        obtain ⟨s', hs', hlong⟩ := hrest
        exact ⟨s', List.mem_cons_of_mem _ hs', hlong⟩

/-- A path that leads somewhere has no name that is too long. -/
theorem short_of_follow {segments : List String} (h : t.follow l segments = .ok m) :
    ∀ s ∈ segments, s.utf8ByteSize ≤ maxNameBytes := by
  induction segments generalizing l with
  | nil => exact fun s hs => absurd hs List.not_mem_nil
  | cons s rest ih =>
    unfold follow at h
    split at h
    · cases h
    · cases h
    · split at h
      · cases h
      · rename_i hshort
        refine List.forall_mem_cons.mpr ⟨by omega, ?_⟩
        split at h
        · exact ih h
        · exact ih h

/-- Trees with the same files but for the one at a location. -/
def SameFiles (l : Location) (t t' : FileTree) : Prop :=
  ∀ m ≠ l, ∀ content, t'.get? m = some (.file content) ↔ t.get? m = some (.file content)

end FileTree

namespace Path

theorem Direct.no_nul {p : Path} (h : p.Direct) :
    (p.segments.any fun seg => seg.toList.contains '\x00') = false := by
  obtain ⟨n, names, hsegments, hnames⟩ := h
  rw [List.any_eq_false, hsegments]
  intro s hs
  rcases List.mem_append.mp hs with hs | hs
  · obtain rfl := List.eq_of_mem_replicate hs
    decide
  · simpa using (hnames s hs).1.nul

/-- A direct path leads from what is always there down to its place. -/
theorem Direct.leads {p : Path} (h : p.Direct) (t : FileTree) : ∃ base names,
    p.place = base ++ names ∧ t.get? base = some .dir ∧
      (∀ s ∈ names, IsFileName s ∧ s.utf8ByteSize ≤ FileTree.maxNameBytes) ∧
      t.follow (if p.isAbsolute then ["/"] else []) p.segments = t.follow base names := by
  obtain ⟨n, names, hsegments, hnames⟩ := h
  have hdrop : p.segments.dropWhile (· == "..") = names := by
    rw [hsegments, List.dropWhile_append_of_pos fun s hs => by simp [List.eq_of_mem_replicate hs]]
    cases names with
    | nil => rfl
    | cons s rest =>
      exact List.dropWhile_cons_of_neg (by simpa using (hnames s List.mem_cons_self).1.up)
  refine ⟨if p.isAbsolute then ["/"] else List.replicate n "..", names, ?_, ?_, hnames, ?_⟩
  · unfold place
    split
    · rw [hdrop]
      rfl
    · exact hsegments
  · have hgiven : Location.isGiven (List.replicate n "..") = true := by simp [Location.isGiven]
    split
    · rfl
    · rw [FileTree.get?, if_pos hgiven]
  · rw [hsegments, FileTree.follow_append]
    split
    · rw [(FileTree.follow_up n).1]
      rfl
    · have hup := (FileTree.follow_up (t := t) n).2 0
      rw [Nat.zero_add] at hup
      change (t.follow [] (List.replicate n "..") >>= _) = _
      rw [show ([] : Location) = List.replicate 0 ".." from rfl, hup]
      rfl

/-- Where a direct path leads, if it leads anywhere. -/
theorem Direct.locate_eq {p : Path} (h : p.Direct) {t : FileTree} {l : Location}
    (hl : t.locate p = .ok l) : l = p.place := by
  obtain ⟨base, names, hplace, -, hnames, hfollow⟩ := h.leads t
  unfold FileTree.locate at hl
  split at hl
  · cases hl
  split at hl
  · cases hl
  rw [hfollow] at hl
  rw [hplace]
  exact FileTree.follow_eq_append (fun s hs => (hnames s hs).1.up) hl

/-- A path that goes down from a direct one is direct if it leads somewhere. -/
theorem Direct.append {p : Path} (h : p.Direct) {names : List String}
    (hnames : ∀ s ∈ names, IsFileName s) {t : FileTree} {l : Location}
    (hl : t.locate ⟨p.slashes, p.segments ++ names⟩ = .ok l) :
    Path.Direct ⟨p.slashes, p.segments ++ names⟩ := by
  obtain ⟨k, -, hk⟩ := FileTree.locate_append hl
  obtain ⟨n, front, hsegments, hfront⟩ := h
  refine ⟨n, front ++ names, by rw [hsegments, List.append_assoc], fun s hs => ?_⟩
  rcases List.mem_append.mp hs with hs | hs
  · exact hfront s hs
  · exact ⟨hnames s hs, FileTree.short_of_follow hk s hs⟩

/-- The last name of a path is the last one of its place. -/
theorem getLast?_place {p : Path} {s : String} (hs : p.segments.getLast? = some s) (hup : s ≠ "..") :
    p.place.getLast? = some s := by
  unfold place
  split
  · obtain ⟨front, hfront⟩ := List.getLast?_eq_some_iff.mp hs
    have hlast : [s].dropWhile (· == "..") = [s] := List.dropWhile_cons_of_neg (by simpa using hup)
    rw [hfront, List.dropWhile_append, hlast]
    split
    · rfl
    · rw [← List.cons_append, List.getLast?_append]
      rfl
  · exact hs

end Path

/-- What is found at a direct path: what stands at its place. -/
theorem Disk.find?_direct {p : Path} (h : p.Direct) (t : FileTree) : find? p t =
    if FileTree.maxPathBytes < p.toString.utf8ByteSize then .error { errno := .nameTooLong, path := p } t
    else .ok (t.get? p.place) t := by
  obtain ⟨base, names, hplace, hbase, hnames, hfollow⟩ := h.leads t
  have hlocate : t.locate p = if FileTree.maxPathBytes < p.toString.utf8ByteSize then
      .error .nameTooLong else t.follow base names := by
    rw [FileTree.locate, h.no_nul, if_neg Bool.false_ne_true, hfollow]
  have hshort : t.follow base names ≠ .error .nameTooLong := by
    intro hlong
    obtain ⟨s, hs, hlong⟩ := FileTree.long_of_follow hlong
    exact absurd (hnames s hs).2 (by omega)
  rw [find?_eq, hlocate, hplace]
  split_ifs
  · rfl
  obtain hlong | hok | ⟨⟨errno, herror⟩, hnone⟩ :=
    FileTree.follow_names hbase fun s hs => (hnames s hs).1
  · exact absurd hlong hshort
  · rw [hok]
  · rw [herror, hnone]
    cases errno with
    | nameTooLong => exact absurd herror hshort
    | _ => rfl

end StubWriter
