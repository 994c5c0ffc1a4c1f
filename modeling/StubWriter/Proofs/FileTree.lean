import Mathlib.Data.String.Basic
import Mathlib.Data.List.Induction
import Mathlib.Data.List.Sort
import StubWriter.FileTree
import StubWriter.Proofs.Path

/-!
# What lies in a tree of files

A tree is kept as a list of entries, but what it means is what stands at each location. The entries
below a location, which are found by sorting, come in the order of a walk that takes each directory
before what it holds, and the names in a directory in their order.

* `below_eq_of_get?`: what lies below a location depends on what stands there alone.
* `walk_eq_below`: the walk through a directory.
-/

namespace StubWriter

namespace Location

variable {l : Location} {s : String}

theorem not_isGiven_append (h : ¬ isGiven (l ++ [s])) (rest : List String) :
    ¬ isGiven (l ++ s :: rest) := by
  intro hgiven
  refine h ?_
  rw [isGiven, Bool.or_eq_true, beq_iff_eq, List.append_eq_singleton_iff, List.all_append,
    List.all_cons] at hgiven
  rcases hgiven with (⟨rfl, hs⟩ | ⟨-, hs⟩) | hall
  · cases hs
    rfl
  · cases hs
  · simp only [Bool.and_eq_true] at hall
    simp [isGiven, hall]

theorem not_isGiven_fileName (hs : IsFileName s) : ¬ isGiven (l ++ [s]) := by
  rw [isGiven, Bool.or_eq_true, beq_iff_eq, List.append_eq_singleton_iff, List.all_append]
  rintro ((⟨-, h⟩ | ⟨-, h⟩) | h)
  · refine hs.slash ?_
    rw [List.singleton_inj.mp h]
    decide
  · cases h
  · simp [hs.up] at h

end Location

namespace FileTree

open Location

variable {t t' : FileTree} {l m : Location} {e : Entry} {s : String}

theorem isBelow_iff :
    isBelow l m = true ↔ ∃ s rest, m = l ++ s :: rest ∧ ¬ isGiven (l ++ [s]) := by
  constructor
  · intro h
    simp only [isBelow, Bool.and_eq_true, List.isPrefixOf_iff_prefix, bne_iff_ne, ne_eq,
      Bool.not_eq_true'] at h
    obtain ⟨⟨⟨rest, rfl⟩, hne⟩, hgiven⟩ := h
    cases rest with
    | nil => exact absurd (List.append_nil l) hne
    | cons s rest =>
      refine ⟨s, rest, rfl, ?_⟩
      rw [List.take_length_add_append] at hgiven
      simpa using hgiven
  · rintro ⟨s, rest, rfl, hgiven⟩
    simp only [isBelow, Bool.and_eq_true, List.isPrefixOf_iff_prefix, bne_iff_ne, ne_eq,
      Bool.not_eq_true']
    refine ⟨⟨List.prefix_append _ _, fun h => ?_⟩, ?_⟩
    · have := congrArg List.length h
      simp at this
    · rw [List.take_length_add_append]
      simpa using hgiven

theorem isBelow_child (h : ¬ isGiven (l ++ [s])) : isBelow l (l ++ [s]) = true :=
  isBelow_iff.mpr ⟨s, [], rfl, h⟩

theorem not_isGiven_of_isBelow (h : isBelow l m = true) : ¬ isGiven m := by
  obtain ⟨s, rest, rfl, hgiven⟩ := isBelow_iff.mp h
  exact not_isGiven_append hgiven rest

theorem isBelow_trans {k : Location} (hlm : isBelow l m = true) (hmk : isBelow m k = true) :
    isBelow l k = true := by
  obtain ⟨s, rest, rfl, hgiven⟩ := isBelow_iff.mp hlm
  obtain ⟨s', rest', rfl, -⟩ := isBelow_iff.mp hmk
  exact isBelow_iff.mpr ⟨s, rest ++ s' :: rest', by simp, hgiven⟩

/-- What is below a location is one of its children or below one of them. -/
theorem isBelow_cases (h : isBelow l m = true) :
    ∃ s, ¬ isGiven (l ++ [s]) ∧ (m = l ++ [s] ∨ isBelow (l ++ [s]) m = true) := by
  obtain ⟨s, rest, rfl, hgiven⟩ := isBelow_iff.mp h
  refine ⟨s, hgiven, ?_⟩
  cases rest with
  | nil => exact .inl rfl
  | cons s' rest =>
    refine .inr (isBelow_iff.mpr ⟨s', rest, by simp, ?_⟩)
    rw [List.append_assoc]
    exact not_isGiven_append hgiven [s']

theorem mem_entries_iff : (m, e) ∈ t.entries ↔ ¬ m.isGiven ∧ t.get? m = some e :=
  ⟨fun h => ⟨(t.rooted _ h).1, get?_of_mem h⟩, fun h => mem_of_get? h.1 h.2⟩

/-- Whatever stands in a tree stands in a directory. -/
theorem get?_dropLast (hm : ¬ m.isGiven) (h : t.get? m = some e) :
    t.get? m.dropLast = some .dir := by
  rcases (t.rooted _ (mem_of_get? hm h)).2 with hgiven | hdir
  · rw [get?, if_pos hgiven]
  · exact get?_of_mem hdir

/-- What lies below a location stands in a directory on the way there. -/
theorem get?_child_of_below (hgiven : ¬ isGiven (l ++ [s])) {rest : List String}
    (h : t.get? (l ++ s :: rest) = some e) : rest = [] ∨ t.get? (l ++ [s]) = some .dir := by
  induction rest using List.reverseRecOn generalizing e with
  | nil => exact .inl rfl
  | append_singleton rest x ih =>
    refine .inr ?_
    have hdir := get?_dropLast (not_isGiven_append hgiven _) h
    rw [show (l ++ s :: (rest ++ [x])).dropLast = l ++ s :: rest by
      rw [← List.cons_append, ← List.append_assoc, List.dropLast_concat]] at hdir
    rcases ih hdir with rfl | hchild
    · exact hdir
    · exact hchild

theorem get?_of_below (hl : isBelow l m = true) (h : t.get? m = some e) :
    t.get? l = some .dir := by
  obtain ⟨s, rest, rfl, hgiven⟩ := isBelow_iff.mp hl
  have hchild : ∃ e', t.get? (l ++ [s]) = some e' := by
    rcases get?_child_of_below hgiven h with rfl | hdir
    · exact ⟨e, h⟩
    · exact ⟨_, hdir⟩
  obtain ⟨e', he'⟩ := hchild
  simpa using get?_dropLast hgiven he'

/-- All names on the way down to an entry are like the names of entries. -/
theorem names_of_last {P : String → Prop} (ht : ∀ x ∈ t.entries, ∀ s ∈ x.1.getLast?, P s)
    (hgiven : ¬ isGiven (l ++ [s])) {rest : List String}
    (h : t.get? (l ++ s :: rest) = some e) : ∀ name ∈ s :: rest, P name := by
  have hlast : ∀ {m : Location} {name : String} {e : Entry}, ¬ isGiven (m ++ [name]) →
      t.get? (m ++ [name]) = some e → P name :=
    fun hm he => ht _ (mem_of_get? hm he) _ (by simp)
  induction rest using List.reverseRecOn generalizing e with
  | nil => exact List.forall_mem_singleton.mpr (hlast hgiven h)
  | append_singleton rest x ih =>
    have hassoc : l ++ s :: (rest ++ [x]) = l ++ s :: rest ++ [x] := by simp
    rw [hassoc] at h
    have hx : ¬ isGiven (l ++ s :: rest ++ [x]) := hassoc ▸ not_isGiven_append hgiven _
    have hdir := get?_dropLast hx h
    rw [List.dropLast_concat] at hdir
    rw [← List.cons_append]
    exact List.forall_mem_append.mpr ⟨ih hdir, List.forall_mem_singleton.mpr (hlast hx h)⟩

/-- A tree whose entries have the names that files have. -/
def Proper (t : FileTree) : Prop :=
  ∀ x ∈ t.entries, ∀ s ∈ x.1.getLast?, IsFileName s

instance (t : FileTree) : Decidable t.Proper :=
  inferInstanceAs (Decidable (∀ x ∈ t.entries, ∀ s ∈ x.1.getLast?, IsFileName s))

theorem Proper.names (ht : t.Proper) (hgiven : ¬ isGiven (l ++ [s])) {rest : List String}
    (h : t.get? (l ++ s :: rest) = some e) : ∀ name ∈ s :: rest, IsFileName name :=
  names_of_last ht hgiven h

/-! ## The order of what lies below a location -/

theorem insertEntry_perm (x : Location × Entry) (ys : List (Location × Entry)) :
    (insertEntry x ys).Perm (x :: ys) := by
  induction ys with
  | nil => exact .refl _
  | cons y ys ih =>
    rw [insertEntry]
    split
    · exact (ih.cons y).trans (.swap x y ys)
    · exact .refl _

theorem insertEntry_sorted {x : Location × Entry} {ys : List (Location × Entry)}
    (hx : ∀ y ∈ ys, x.1 ≠ y.1) (hys : ys.Pairwise fun x y => x.1 < y.1) :
    (insertEntry x ys).Pairwise fun x y => x.1 < y.1 := by
  induction ys with
  | nil => exact List.pairwise_singleton _ _
  | cons y ys ih =>
    obtain ⟨hy, hrest⟩ := List.pairwise_cons.mp hys
    obtain ⟨hxy, hxrest⟩ := List.forall_mem_cons.mp hx
    rw [insertEntry]
    split
    · rename_i hlt
      refine List.pairwise_cons.mpr ⟨fun z hz => ?_, ih hxrest hrest⟩
      obtain rfl | hz := List.mem_cons.mp ((insertEntry_perm x ys).mem_iff.mp hz)
      · exact hlt
      · exact hy z hz
    · rename_i hnot
      have hlt : x.1 < y.1 := lt_of_le_of_ne (not_lt.mp hnot) hxy
      refine List.pairwise_cons.mpr ⟨fun z hz => ?_, hys⟩
      obtain rfl | hz := List.mem_cons.mp hz
      · exact hlt
      · exact hlt.trans (hy z hz)

theorem foldr_insertEntry_perm (xs : List (Location × Entry)) :
    (xs.foldr insertEntry []).Perm xs := by
  induction xs with
  | nil => exact .refl _
  | cons x xs ih => exact (insertEntry_perm x _).trans (ih.cons x)

theorem mem_below {x : Location × Entry} :
    x ∈ t.below l ↔ isBelow l x.1 = true ∧ t.get? x.1 = some x.2 := by
  rw [below, (foldr_insertEntry_perm _).mem_iff, List.mem_filter, mem_entries_iff]
  exact ⟨fun h => ⟨h.2, h.1.2⟩, fun h => ⟨⟨not_isGiven_of_isBelow h.1, h.2⟩, h.1⟩⟩

theorem below_sorted (t : FileTree) (l : Location) : (t.below l).Pairwise fun x y => x.1 < y.1 := by
  have hnodup : ((t.entries.filter fun x => isBelow l x.1).map Prod.fst).Nodup :=
    (List.filter_sublist.map Prod.fst).nodup t.distinct
  unfold below
  generalize (t.entries.filter fun x => isBelow l x.1) = xs at hnodup ⊢
  induction xs with
  | nil => exact .nil
  | cons x xs ih =>
    obtain ⟨hx, hxs⟩ := List.nodup_cons.mp hnodup
    refine insertEntry_sorted (fun y hy hxy => hx ?_) (ih hxs)
    exact List.mem_map.mpr ⟨y, (foldr_insertEntry_perm xs).mem_iff.mp hy, hxy.symm⟩

/-- What lies below a location depends on what stands there alone. -/
theorem below_eq_of_get? (h : ∀ m, isBelow l m = true → t.get? m = t'.get? m) :
    t.below l = t'.below l := by
  have hirrefl : Std.Irrefl fun x y : Location × Entry => x.1 < y.1 := ⟨fun x => lt_irrefl x.1⟩
  have hantisymm : Std.Antisymm fun x y : Location × Entry => x.1 < y.1 :=
    ⟨fun _ _ hab hba => absurd hba (lt_asymm hab)⟩
  refine (below_sorted t l).eq_of_mem_iff (below_sorted t' l) fun x => ?_
  rw [mem_below, mem_below]
  refine and_congr_right fun hx => ?_
  rw [h _ hx]

/-! ## Walks -/

/-- The names in a directory, in their order. -/
def names (t : FileTree) (l : Location) : List String :=
  (t.children l).map fun x => x.1.getLast?.getD ""

theorem mem_children {x : Location × Entry} :
    x ∈ t.children l ↔ ∃ s, x.1 = l ++ [s] ∧ ¬ isGiven (l ++ [s]) ∧ t.get? x.1 = some x.2 := by
  rw [children, List.mem_filter, mem_below, isBelow_iff, beq_iff_eq]
  constructor
  · rintro ⟨⟨⟨s, rest, hx, hgiven⟩, hget⟩, hlength⟩
    rw [hx, List.length_append, List.length_cons] at hlength
    obtain rfl : rest = [] := List.eq_nil_of_length_eq_zero (by omega)
    exact ⟨s, hx, hgiven, hget⟩
  · rintro ⟨s, hx, hgiven, hget⟩
    exact ⟨⟨⟨s, [], hx, hgiven⟩, hget⟩, by simp [hx]⟩

theorem mem_names :
    s ∈ t.names l ↔ ¬ isGiven (l ++ [s]) ∧ ∃ e, t.get? (l ++ [s]) = some e := by
  rw [names, List.mem_map]
  constructor
  · rintro ⟨⟨m, e⟩, hx, hs⟩
    obtain ⟨s', rfl, hgiven, hget⟩ := mem_children.mp hx
    obtain rfl : s' = s := by simpa using hs
    exact ⟨hgiven, e, hget⟩
  · rintro ⟨hgiven, e, hget⟩
    exact ⟨(l ++ [s], e), mem_children.mpr ⟨s, rfl, hgiven, hget⟩, by simp⟩

theorem append_lt_append_iff {a b : List String} : l ++ a < l ++ b ↔ a < b := by
  induction l with
  | nil => rfl
  | cons x xs ih =>
    rw [List.cons_append, List.cons_append, List.cons_lt_cons_iff]
    exact ⟨fun h => ih.mp (h.resolve_left (lt_irrefl x)).2, fun h => .inr ⟨rfl, ih.mpr h⟩⟩

theorem names_sorted (t : FileTree) (l : Location) : (t.names l).Pairwise (· < ·) := by
  rw [names, List.pairwise_map]
  have hsorted : (t.children l).Pairwise fun x y => x.1 < y.1 := (below_sorted t l).filter _
  refine hsorted.imp_of_mem fun {x y} hx hy hxy => ?_
  obtain ⟨a, ha, -, -⟩ := mem_children.mp hx
  obtain ⟨b, hb, -, -⟩ := mem_children.mp hy
  rw [ha, hb, append_lt_append_iff, List.cons_lt_cons_iff] at hxy
  have hab : a < b := hxy.resolve_right fun h => lt_irrefl _ h.2
  simpa [ha, hb] using hab

/-- The length of the longest location. -/
def depth (t : FileTree) : Nat :=
  t.entries.foldr (fun x n => max x.1.length n) 0

theorem length_le_depth (hm : ¬ m.isGiven) (h : t.get? m = some e) : m.length ≤ t.depth := by
  have hmem : (m, e) ∈ t.entries := mem_of_get? hm h
  unfold depth
  generalize t.entries = entries at hmem
  induction entries with
  | nil => cases hmem
  | cons x xs ih =>
    rcases List.mem_cons.mp hmem with rfl | hmem
    · exact le_max_left _ _
    · exact (ih hmem).trans (le_max_right _ _)

/-- The locations that are met by taking a location, then walking from each of the names in it. -/
def walk (t : FileTree) (l : Location) : List Location :=
  l :: (t.names l).attach.flatMap fun s => walk t (l ++ [s.1])
termination_by t.depth - l.length
decreasing_by
  obtain ⟨hgiven, e, he⟩ := mem_names.mp s.2
  have := length_le_depth hgiven he
  simp only [List.length_append, List.length_cons, List.length_nil] at this ⊢
  omega

theorem walk_eq (t : FileTree) (l : Location) :
    t.walk l = l :: (t.names l).flatMap fun s => t.walk (l ++ [s]) := by
  rw [walk]
  simp

theorem mem_walk :
    m ∈ t.walk l ↔ m = l ∨ isBelow l m = true ∧ ∃ e, t.get? m = some e := by
  induction l using walk.induct t with
  | case1 l ih =>
    rw [walk_eq, List.mem_cons, List.mem_flatMap]
    refine or_congr_right ⟨?_, ?_⟩
    · rintro ⟨s, hs, hm⟩
      obtain ⟨hgiven, e, he⟩ := mem_names.mp hs
      rcases (ih ⟨s, hs⟩).mp hm with rfl | ⟨hbelow, hstands⟩
      · exact ⟨isBelow_child hgiven, e, he⟩
      · exact ⟨isBelow_trans (isBelow_child hgiven) hbelow, hstands⟩
    · rintro ⟨hbelow, e, he⟩
      obtain ⟨s, hgiven, hm⟩ := isBelow_cases hbelow
      have hchild : ∃ e', t.get? (l ++ [s]) = some e' := by
        rcases hm with rfl | hm
        · exact ⟨e, he⟩
        · exact ⟨_, get?_of_below hm he⟩
      have hs : s ∈ t.names l := mem_names.mpr ⟨hgiven, hchild⟩
      exact ⟨s, hs, (ih ⟨s, hs⟩).mpr (hm.imp_right fun hm => ⟨hm, e, he⟩)⟩

/-- A walk meets the locations in their order, so none of them twice. -/
theorem walk_sorted (t : FileTree) (l : Location) : (t.walk l).Pairwise (· < ·) := by
  induction l using walk.induct t with
  | case1 l ih =>
    have hstart : ∀ s, ∀ m ∈ t.walk (l ++ [s]), ∃ rest, m = l ++ s :: rest := by
      intro s m hm
      rcases mem_walk.mp hm with rfl | ⟨hbelow, -⟩
      · exact ⟨[], rfl⟩
      · obtain ⟨s', rest, rfl, -⟩ := isBelow_iff.mp hbelow
        exact ⟨s' :: rest, by simp⟩
    rw [walk_eq, List.pairwise_cons, List.pairwise_flatMap]
    refine ⟨fun m hm => ?_, fun s hs => ih ⟨s, hs⟩, ?_⟩
    · obtain ⟨s, -, hm⟩ := List.mem_flatMap.mp hm
      obtain ⟨rest, rfl⟩ := hstart s m hm
      simpa using append_lt_append_iff (l := l) (a := []) (b := s :: rest)
    · refine (names_sorted t l).imp fun {a b} hab m hm m' hm' => ?_
      obtain ⟨rest, rfl⟩ := hstart a m hm
      obtain ⟨rest', rfl⟩ := hstart b m' hm'
      exact append_lt_append_iff.mpr (List.cons_lt_cons_iff.mpr (.inl hab))

/-- What is found below a location by sorting comes in the order of the walk. -/
theorem walk_eq_below (t : FileTree) (l : Location) :
    t.walk l = l :: (t.below l).map Prod.fst := by
  have hsorted : (l :: (t.below l).map Prod.fst).Pairwise (· < ·) := by
    rw [List.pairwise_cons, List.pairwise_map]
    refine ⟨fun m hm => ?_, below_sorted t l⟩
    obtain ⟨x, hx, rfl⟩ := List.mem_map.mp hm
    obtain ⟨s, rest, hx, -⟩ := isBelow_iff.mp (mem_below.mp hx).1
    rw [hx]
    simpa using append_lt_append_iff (l := l) (a := []) (b := s :: rest)
  refine (walk_sorted t l).eq_of_mem_iff hsorted fun m => ?_
  rw [mem_walk, List.mem_cons, List.mem_map]
  refine or_congr_right ⟨fun ⟨hbelow, e, he⟩ => ⟨(m, e), mem_below.mpr ⟨hbelow, he⟩, rfl⟩, ?_⟩
  rintro ⟨x, hx, rfl⟩
  exact ⟨(mem_below.mp hx).1, x.2, (mem_below.mp hx).2⟩

end FileTree

end StubWriter
