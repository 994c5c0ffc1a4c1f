import Mathlib.Data.List.Basic
import Mathlib.Data.List.TakeDrop
import Mathlib.Data.List.Infix
import StubWriter.CompilationUnit
import StubWriter.Path

/-!
# Splitting texts

* `intercalate_splitText`: the pieces of a text make up the text.
* `getLast?_qualify`: the last piece of a name is that of its simple name.
-/

namespace StubWriter

theorem splitChars_ne_nil (sep : Char) (cs : List Char) : splitChars sep cs ≠ [] := by
  cases cs with
  | nil => simp [splitChars]
  | cons c cs =>
    unfold splitChars
    split
    · simp
    · split <;> simp

theorem splitChars_append (sep : Char) (xs ys : List Char) :
    splitChars sep (xs ++ sep :: ys) = splitChars sep xs ++ splitChars sep ys := by
  induction xs with
  | nil => simp [splitChars]
  | cons x xs ih =>
    rw [List.cons_append, splitChars, splitChars, ih]
    split
    · rfl
    · obtain ⟨piece, pieces, hpieces⟩ := List.exists_cons_of_ne_nil (splitChars_ne_nil sep xs)
      rw [hpieces]
      rfl

theorem splitChars_of_not_mem {sep : Char} {cs : List Char} (h : sep ∉ cs) :
    splitChars sep cs = [cs] := by
  induction cs with
  | nil => rfl
  | cons c cs ih =>
    rw [List.mem_cons, not_or] at h
    have hc : (c == sep) = false := by simpa using Ne.symm h.1
    rw [splitChars, hc, ih h.2]
    rfl

theorem not_mem_of_mem_splitChars {sep : Char} {cs piece : List Char}
    (h : piece ∈ splitChars sep cs) : sep ∉ piece := by
  induction cs generalizing piece with
  | nil =>
    obtain rfl := List.mem_singleton.mp h
    exact List.not_mem_nil
  | cons c cs ih =>
    rw [splitChars] at h
    split at h
    · rcases List.mem_cons.mp h with rfl | h
      · exact List.not_mem_nil
      · exact ih h
    · rename_i hc
      obtain ⟨first, rest, hpieces⟩ := List.exists_cons_of_ne_nil (splitChars_ne_nil sep cs)
      rw [hpieces] at h ih
      rcases List.mem_cons.mp h with rfl | h
      · rw [List.mem_cons, not_or]
        exact ⟨fun heq => hc (beq_iff_eq.mpr heq.symm), ih List.mem_cons_self⟩
      · exact ih (List.mem_cons_of_mem _ h)

theorem intercalate_splitChars (sep : Char) (cs : List Char) :
    [sep].intercalate (splitChars sep cs) = cs := by
  induction cs with
  | nil => rfl
  | cons c cs ih =>
    obtain ⟨piece, pieces, hpieces⟩ := List.exists_cons_of_ne_nil (splitChars_ne_nil sep cs)
    rw [hpieces] at ih
    rw [splitChars, hpieces]
    split
    · rename_i hc
      rw [beq_iff_eq.mp hc, List.intercalate_cons_cons, ih]
      rfl
    · cases pieces with
      | nil => simpa using ih
      | cons next pieces =>
        rw [List.intercalate_cons_cons] at ih ⊢
        rw [← ih]
        rfl

theorem splitText_ne_nil (sep : Char) (s : String) : splitText sep s ≠ [] := by
  simpa [splitText] using splitChars_ne_nil sep s.toList

theorem splitText_of_not_mem {sep : Char} {s : String} (h : sep ∉ s.toList) :
    splitText sep s = [s] := by
  rw [splitText, splitChars_of_not_mem h, List.map_singleton, String.ofList_toList]

theorem not_mem_of_mem_splitText {sep : Char} {s piece : String} (h : piece ∈ splitText sep s) :
    sep ∉ piece.toList := by
  obtain ⟨cs, hcs, rfl⟩ := List.mem_map.mp h
  rw [String.toList_ofList]
  exact not_mem_of_mem_splitChars hcs

section Separator

variable {sep : Char} {sepText : String} (hsep : sepText.toList = [sep])
include hsep

theorem splitText_append_sep (a b : String) :
    splitText sep (a ++ sepText ++ b) = splitText sep a ++ splitText sep b := by
  unfold splitText
  rw [String.toList_append, String.toList_append, hsep, List.append_assoc, List.singleton_append,
    splitChars_append, List.map_append]

/-- Pieces without separators in them, put together and split again. -/
theorem splitText_intercalate {pieces : List String} (hne : pieces ≠ [])
    (h : ∀ s ∈ pieces, sep ∉ s.toList) :
    splitText sep (sepText.intercalate pieces) = pieces := by
  induction pieces with
  | nil => exact absurd rfl hne
  | cons s rest ih =>
    obtain ⟨hs, hrest⟩ := List.forall_mem_cons.mp h
    have hsplit := splitText_of_not_mem hs
    cases rest with
    | nil => simpa using hsplit
    | cons next rest =>
      rw [String.intercalate_cons_cons, splitText_append_sep hsep, hsplit,
        ih (List.cons_ne_nil _ _) hrest]
      rfl

/-- The pieces of a text, put together again. -/
theorem intercalate_pieces (s : String) : sepText.intercalate (splitText sep s) = s := by
  apply String.toList_injective
  rw [String.toList_intercalate, hsep, splitText, List.map_map]
  have hid : String.toList ∘ String.ofList = id := funext fun _ => String.toList_ofList
  rw [hid, List.map_id, intercalate_splitChars]

end Separator

theorem splitText_append (a b : String) :
    splitText '.' (a ++ "." ++ b) = splitText '.' a ++ splitText '.' b :=
  splitText_append_sep (by decide) a b

theorem intercalate_splitText (s : String) : ".".intercalate (splitText '.' s) = s :=
  intercalate_pieces (by decide) s

/-- What is put to the end of the last of some texts is put to the end of them together. -/
theorem intercalate_append_end (sep : String) (front : List String) (last b : String) :
    sep.intercalate (front ++ [last]) ++ b = sep.intercalate (front ++ [last ++ b]) := by
  by_cases hfront : front = []
  · simp [hfront]
  · rw [String.intercalate_append_of_ne_nil hfront (List.cons_ne_nil _ _),
      String.intercalate_append_of_ne_nil hfront (List.cons_ne_nil _ _)]
    simp [String.append_assoc]

/-- What is put to the end of a text goes to its last piece. -/
theorem splitText_append_end (a : String) {b : String} (hb : '.' ∉ b.toList) :
    ∃ front last, splitText '.' a = front ++ [last] ∧
      splitText '.' (a ++ b) = front ++ [last ++ b] := by
  obtain ⟨front, last, hpieces⟩ : ∃ front last, splitText '.' a = front ++ [last] :=
    ⟨_, _, (List.dropLast_append_getLast (splitText_ne_nil '.' a)).symm⟩
  have hmem : ∀ s ∈ front ++ [last], '.' ∉ s.toList :=
    fun s hs => not_mem_of_mem_splitText (hpieces ▸ hs)
  refine ⟨front, last, hpieces, ?_⟩
  calc splitText '.' (a ++ b)
      = splitText '.' (".".intercalate (front ++ [last]) ++ b) := by
        rw [← hpieces, intercalate_splitText]
    _ = splitText '.' (".".intercalate (front ++ [last ++ b])) := by rw [intercalate_append_end]
    _ = front ++ [last ++ b] := by
        refine splitText_intercalate (by decide) (by simp) fun s hs => ?_
        rcases List.mem_append.mp hs with hs | hs
        · exact hmem s (List.mem_append_left _ hs)
        · obtain rfl := List.mem_singleton.mp hs
          rw [String.toList_append, List.mem_append, not_or]
          exact ⟨hmem last (by simp), hb⟩

/-- The last piece of a name is that of its simple name. -/
theorem getLast?_qualify (owner name : String) :
    (splitText '.' (qualify owner name)).getLast? = (splitText '.' name).getLast? := by
  unfold qualify
  split
  · rfl
  · rw [splitText_append, List.getLast?_append_of_ne_nil _ (splitText_ne_nil '.' name)]

/-! ## Paths -/

/-- A name that an entry of a directory may have. -/
structure IsFileName (s : String) : Prop where
  nonempty : s ≠ ""
  here : s ≠ "."
  up : s ≠ ".."
  slash : '/' ∉ s.toList
  nul : '\x00' ∉ s.toList

instance (s : String) : Decidable (IsFileName s) :=
  decidable_of_iff (s ≠ "" ∧ s ≠ "." ∧ s ≠ ".." ∧ '/' ∉ s.toList ∧ '\x00' ∉ s.toList)
    ⟨fun ⟨a, b, c, d, e⟩ => ⟨a, b, c, d, e⟩, fun ⟨a, b, c, d, e⟩ => ⟨a, b, c, d, e⟩⟩

theorem IsFileName.append {s x : String} (h : IsFileName s) (hslash : '/' ∉ x.toList)
    (hnul : '\x00' ∉ x.toList) : IsFileName (s ++ x) := by
  -- No name begins what is no name.
  have hnot : ∀ w : String, w.toList ∈ [[], ['.'], ['.', '.']] → s ++ x ≠ w := by
    rintro w hw rfl
    have hs : s.toList ∈ [[], ['.'], ['.', '.']] := by
      have hprefix : s.toList <+: (s ++ x).toList := by simp
      generalize s.toList = cs, (s ++ x).toList = all at hw hprefix
      have hinits : ∀ ds ∈ [[], ['.'], ['.', '.']], ∀ cs ∈ ds.inits,
          cs ∈ [[], ['.'], ['.', '.']] := by decide
      exact hinits all hw cs ((List.mem_inits cs all).mpr hprefix)
    have htext : ∀ w : String, s.toList = w.toList → s = w := fun w h =>
      String.toList_injective h
    simp only [List.mem_cons, List.not_mem_nil, or_false] at hs
    rcases hs with hs | hs | hs
    · exact h.nonempty (htext "" hs)
    · exact h.here (htext "." hs)
    · exact h.up (htext ".." hs)
  exact ⟨hnot "" (by decide), hnot "." (by decide), hnot ".." (by decide),
    by simpa using ⟨h.slash, hslash⟩, by simpa using ⟨h.nul, hnul⟩⟩

namespace Path

/-- A path that is spelled by the segments it has. -/
theorem ofString_segments {names : List String} (hne : names ≠ [])
    (h : ∀ s ∈ names, s ≠ "" ∧ s ≠ "." ∧ '/' ∉ s.toList) :
    ofString ("/".intercalate names) = ⟨0, names⟩ := by
  have hsplit : splitText '/' ("/".intercalate names) = names :=
    splitText_intercalate (by decide) hne fun s hs => (h s hs).2.2
  have hslashes : ("/".intercalate names).toList.takeWhile (· == '/') = [] := by
    obtain ⟨s, rest, rfl⟩ := List.exists_cons_of_ne_nil hne
    have hs := h s List.mem_cons_self
    obtain ⟨c, cs, hcs⟩ := List.exists_cons_of_ne_nil fun hnil =>
      hs.1 (String.toList_injective (hnil.trans rfl))
    have hc : (c == '/') = false := by
      have hslash := hs.2.2
      rw [hcs, List.mem_cons, not_or] at hslash
      simpa using Ne.symm hslash.1
    cases rest with
    | nil => simp [hcs, hc]
    | cons next rest => simp [String.intercalate_cons_cons, hcs, hc]
  unfold ofString
  rw [hslashes, hsplit]
  refine congrArg _ (List.filter_eq_self.mpr fun s hs => ?_)
  simp [(h s hs).1, (h s hs).2.1]

theorem ofString_intercalate {names : List String} (hne : names ≠ [])
    (h : ∀ s ∈ names, IsFileName s) : ofString ("/".intercalate names) = ⟨0, names⟩ :=
  ofString_segments hne fun s hs => ⟨(h s hs).nonempty, (h s hs).here, (h s hs).slash⟩

/-- A path goes on by the segments that spell another one. -/
theorem div_segments {names : List String} (hne : names ≠ [])
    (h : ∀ s ∈ names, s ≠ "" ∧ s ≠ "." ∧ '/' ∉ s.toList) (p : Path) :
    p / "/".intercalate names = ⟨p.slashes, p.segments ++ names⟩ := by
  change p.join (ofString _) = _
  rw [ofString_segments hne h]
  rfl

theorem div_fileName {s : String} (h : IsFileName s) (p : Path) :
    p / s = ⟨p.slashes, p.segments ++ [s]⟩ := by
  have hs := div_segments (List.cons_ne_nil s [])
    (List.forall_mem_singleton.mpr ⟨h.nonempty, h.here, h.slash⟩) p
  rwa [String.intercalate_singleton] at hs

/-! ## Suffixes -/

/-- A name is its stem and its suffix. -/
theorem splitSuffix_append (name : String) :
    (splitSuffix name).1 ++ (splitSuffix name).2 = name := by
  unfold splitSuffix
  rw [List.span_eq_takeWhile_dropWhile]
  dsimp only
  split
  · rename_i c rest hrest
    split
    · exact String.append_empty
    · apply String.toList_injective
      have hname := congrArg List.reverse
        (List.takeWhile_append_dropWhile (p := (· != '.')) (l := name.toList.reverse))
      rw [hrest] at hname
      simpa using hname
  · exact String.append_empty

theorem splitSuffix_dot {stem ext : String} (hstem : stem ≠ "") (hext : ext ≠ "")
    (hdot : '.' ∉ ext.toList) : splitSuffix (stem ++ "." ++ ext) = (stem, "." ++ ext) := by
  have hrev : (stem ++ "." ++ ext).toList.reverse =
      ext.toList.reverse ++ '.' :: stem.toList.reverse := by simp
  have hall : ∀ c ∈ ext.toList.reverse, (c != '.') = true := by
    intro c hc
    rw [bne_iff_ne]
    rintro rfl
    exact hdot (List.mem_reverse.mp hc)
  obtain ⟨c, cs, hcs⟩ : ∃ c cs, stem.toList.reverse = c :: cs :=
    List.exists_cons_of_ne_nil (by simpa using hstem)
  have hext : ext.toList.reverse.isEmpty = false := by simpa using hext
  unfold splitSuffix
  rw [List.span_eq_takeWhile_dropWhile, hrev, List.takeWhile_append_of_pos hall,
    List.dropWhile_append_of_pos hall, hcs, List.takeWhile_cons_of_neg (by simp),
    List.dropWhile_cons_of_neg (by simp), List.append_nil]
  have hstem : (c :: cs).reverse = stem.toList := by rw [← hcs, List.reverse_reverse]
  simp only [hext, hstem, Bool.false_eq_true, if_false]
  simp

end Path

end StubWriter
