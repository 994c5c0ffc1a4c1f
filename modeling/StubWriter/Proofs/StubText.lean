import StubWriter.Proofs.StubSource
import StubWriter.Proofs.Library.Spelling

/-!
# What the text of a stub tells

A stub can be read in one way only: its package, its name and its target, and of every constructor
and method the line it begins with, can be told from the text.

* `IsWord`: a word that no sign of the text is part of.
* `head_inj`: the line that a member begins with, with anything behind it.
* `members_inj`: the constructors and the methods.
* `text_eq_iff`: the stubs with the same text.
-/

namespace StubWriter

namespace StubSource

/-! ## Texts with marks -/

theorem cut_chars {c : Char} {xs ys r s : List Char} (hx : c ∉ xs) (hy : c ∉ ys)
    (h : xs ++ c :: r = ys ++ c :: s) : xs = ys ∧ r = s := by
  induction xs generalizing ys with
  | nil =>
    cases ys with
    | nil => exact ⟨rfl, List.cons_inj_right c |>.mp h⟩
    | cons y ys =>
      rw [List.nil_append, List.cons_append, List.cons.injEq] at h
      exact absurd (h.1 ▸ List.mem_cons_self) hy
  | cons x xs ih =>
    cases ys with
    | nil =>
      rw [List.nil_append, List.cons_append, List.cons.injEq] at h
      exact absurd (h.1 ▸ List.mem_cons_self) hx
    | cons y ys =>
      rw [List.cons_append, List.cons_append, List.cons.injEq] at h
      obtain ⟨hxs, hr⟩ := ih (List.not_mem_of_not_mem_cons hx) (List.not_mem_of_not_mem_cons hy) h.2
      exact ⟨by rw [h.1, hxs], hr⟩

section Marks

variable {c : Char} {more : List Char} (mark : String) (hmark : mark.toList = c :: more)
include hmark

/-- What stands before the first mark can be told from what stands behind it. -/
theorem cut {a b r s : String} (ha : c ∉ a.toList) (hb : c ∉ b.toList)
    (h : a ++ (mark ++ r) = b ++ (mark ++ s)) : a = b ∧ r = s := by
  have hchars := congrArg String.toList h
  simp only [String.toList_append, hmark, List.cons_append] at hchars
  obtain ⟨hfront, hback⟩ := cut_chars ha hb hchars
  exact ⟨String.toList_injective hfront, String.toList_injective (List.append_cancel_left hback)⟩

theorem not_mem_of_cut {a b r : String} (h : a = b ++ (mark ++ r)) : c ∈ a.toList := by
  rw [h, String.toList_append, String.toList_append, hmark]
  simp

theorem intercalate_inj {xs ys : List String} (hx : ∀ x ∈ xs, x ≠ "" ∧ c ∉ x.toList)
    (hy : ∀ y ∈ ys, y ≠ "" ∧ c ∉ y.toList) (h : mark.intercalate xs = mark.intercalate ys) :
    xs = ys := by
  have hne : ∀ {z : String} {zs : List String}, z ≠ "" → "" ≠ mark.intercalate (z :: zs) := by
    intro z zs hz hempty
    cases zs with
    | nil => exact hz (by simpa using hempty.symm)
    | cons z' zs =>
      rw [String.intercalate_cons_cons, eq_comm, String.append_assoc, String.append_eq_empty_iff] at hempty
      exact hz hempty.1
  induction xs generalizing ys with
  | nil =>
    cases ys with
    | nil => rfl
    | cons y ys => exact absurd h (hne (hy y List.mem_cons_self).1)
  | cons x xs ih =>
    have hfree := (hx x List.mem_cons_self).2
    cases ys with
    | nil => exact absurd h.symm (hne (hx x List.mem_cons_self).1)
    | cons y ys =>
      have hfree' := (hy y List.mem_cons_self).2
      cases xs with
      | nil =>
        cases ys with
        | nil => simpa using h
        | cons y' ys =>
          rw [String.intercalate_singleton, String.intercalate_cons_cons, String.append_assoc] at h
          exact absurd (not_mem_of_cut mark hmark h) hfree
      | cons x' xs =>
        cases ys with
        | nil =>
          rw [String.intercalate_singleton, String.intercalate_cons_cons, String.append_assoc] at h
          exact absurd (not_mem_of_cut mark hmark h.symm) hfree'
        | cons y' ys =>
          rw [String.intercalate_cons_cons, String.intercalate_cons_cons, String.append_assoc,
            String.append_assoc] at h
          obtain ⟨hxy, hrest⟩ := cut mark hmark hfree hfree' h
          rw [hxy, ih (fun z hz => hx z (List.mem_cons_of_mem _ hz))
            (fun z hz => hy z (List.mem_cons_of_mem _ hz)) hrest]

end Marks

theorem mem_intercalate {c : Char} {sep : String} {pieces : List String}
    (h : c ∈ (sep.intercalate pieces).toList) : c ∈ sep.toList ∨ ∃ s ∈ pieces, c ∈ s.toList := by
  induction pieces with
  | nil => simp at h
  | cons s rest ih =>
    cases rest with
    | nil => exact .inr ⟨s, List.mem_singleton_self s, by simpa using h⟩
    | cons next rest =>
      rw [String.intercalate_cons_cons, String.toList_append, String.toList_append, List.mem_append,
        List.mem_append] at h
      rcases h with (h | h) | h
      · exact .inr ⟨s, List.mem_cons_self, h⟩
      · exact .inl h
      · rcases ih h with hsep | ⟨piece, hpiece, hc⟩
        · exact .inl hsep
        · exact .inr ⟨piece, List.mem_cons_of_mem _ hpiece, hc⟩

/-! ## Words -/

/-- The signs that stand between the words of a stub. -/
def signs : List Char :=
  [' ', '(', ')', ',', ';', '\x7b']

-- Whether something holds of the characters of a text is decided along the text, not by a run
-- over all characters there are.
local instance (priority := high) decidableForallChars (cs : List Char) (p : Char → Prop)
    [DecidablePred p] : Decidable (∀ c ∈ cs, p c) :=
  List.decidableBAll p cs

/-- A text without signs. -/
def IsFree (s : String) : Prop :=
  ∀ c ∈ s.toList, c ∉ signs

instance (s : String) : Decidable (IsFree s) :=
  inferInstanceAs (Decidable (∀ c ∈ s.toList, c ∉ signs))

/-- A word is not empty, no sign is part of it, and it gives no access. -/
structure IsWord (w : String) : Prop where
  nonempty : w ≠ ""
  free : IsFree w
  plain : w ≠ "public" ∧ w ≠ "protected"

/-- What may stand between the dots of a name. An identifier of Java that is no keyword holds no
blank and no separator and is no modifier. -/
structure IsLabel (s : String) : Prop where
  nonempty : s ≠ ""
  parts : ∀ c ∈ s.toList, c ≠ ' ' ∧ c ∉ Token.separators
  word : Token.sortOfWord s ≠ .modifier

instance (s : String) : Decidable (IsLabel s) :=
  decidable_of_iff (s ≠ "" ∧ (∀ c ∈ s.toList, c ≠ ' ' ∧ c ∉ Token.separators) ∧
      Token.sortOfWord s ≠ .modifier)
    ⟨fun ⟨a, b, c⟩ => ⟨a, b, c⟩, fun ⟨a, b, c⟩ => ⟨a, b, c⟩⟩

theorem IsFree.not_mem {s : String} (h : IsFree s) {c : Char} (hc : c ∈ signs) : c ∉ s.toList :=
  fun hmem => h c hmem hc

theorem IsFree.append {a b : String} (ha : IsFree a) (hb : IsFree b) : IsFree (a ++ b) := by
  unfold IsFree
  rw [String.toList_append, List.forall_mem_append]
  exact ⟨ha, hb⟩

theorem IsLabel.isFree {s : String} (h : IsLabel s) : IsFree s := by
  intro c hc hsign
  have hsigns : ∀ c ∈ signs, c = ' ' ∨ c ∈ Token.separators := by decide
  rcases hsigns c hsign with hblank | hsep
  · exact (h.parts c hc).1 hblank
  · exact (h.parts c hc).2 hsep

theorem isFree_pieces {s : String} (h : ∀ piece ∈ splitText '.' s, IsFree piece) : IsFree s := by
  rw [← intercalate_splitText s]
  intro c hc
  rcases mem_intercalate hc with hdot | ⟨piece, hpiece, hmem⟩
  · exact (by decide : IsFree ".") c hdot
  · exact h piece hpiece c hmem

theorem isWord_of_named {w : String} (h : Named IsLabel w) : IsWord w := by
  have hnot : ∀ u ∈ ["", "public", "protected"], ¬ ∀ s ∈ splitText '.' u, IsLabel s := by decide
  have hne : ∀ u ∈ ["", "public", "protected"], w ≠ u := fun u hu hw => hnot u hu (hw ▸ h)
  exact ⟨hne "" (by decide), isFree_pieces fun s hs => (h s hs).isFree, hne "public" (by decide),
    hne "protected" (by decide)⟩

theorem isWord_primitive : ∀ w ∈ primitiveNames, IsWord w := by
  have hfree : ∀ w ∈ primitiveNames, w ≠ "" ∧ (∀ c ∈ w.toList, c ∉ signs) ∧
      w ≠ "public" ∧ w ≠ "protected" := by
    decide
  intro w hw
  obtain ⟨hne, hsigns, hplain⟩ := hfree w hw
  exact ⟨hne, hsigns, hplain⟩

theorem IsWord.brackets {w : String} (h : IsWord w) (dims : Nat) :
    IsWord (w ++ Scope.brackets dims) := by
  cases dims with
  | zero => simpa [Scope.brackets] using h
  | succ dims =>
    have hbrackets : Scope.brackets (dims + 1) = "[]" ++ Scope.brackets dims := by
      rw [Scope.brackets, List.replicate_succ, String.join_cons, Scope.brackets]
    have hfree : ∀ n, IsFree (Scope.brackets n) := by
      intro n
      induction n with
      | zero => decide
      | succ n ih =>
        rw [Scope.brackets, List.replicate_succ, String.join_cons]
        exact IsFree.append (by decide) ih
    have hopen : '[' ∈ (w ++ Scope.brackets (dims + 1)).toList := by
      rw [hbrackets]
      simp
    have hne : ∀ u : String, '[' ∉ u.toList → w ++ Scope.brackets (dims + 1) ≠ u :=
      fun u hu hw => hu (hw ▸ hopen)
    exact ⟨hne "" (by decide), h.free.append (hfree _), hne "public" (by decide),
      hne "protected" (by decide)⟩

theorem isWord_of_erased {w : String} (h : Erased IsLabel w) : IsWord w := by
  obtain ⟨base, dims, rfl, hprimitive | hnamed⟩ := h
  · exact (isWord_primitive base hprimitive).brackets dims
  · exact (isWord_of_named hnamed).brackets dims

/-! ## The line that a member begins with -/

section Head

variable {words words' types types' exceptions exceptions' : List String} {r s : String}

/-- The line that begins a member: its modifiers and names, its parameters, and what it throws. -/
def head (words types exceptions : List String) : String :=
  " ".intercalate words ++ ("(" ++ (params types ++ (")" ++ (throws exceptions ++ (" " ++ "\x7b\n")))))

theorem isDigit_of_mem_index {i : Nat} {c : Char} (hc : c ∈ (toString (i + 1)).toList) :
    c.isDigit = true := by
  rw [show toString (i + 1) = (i + 1).repr from rfl, Nat.toList_repr] at hc
  exact Nat.isDigit_of_mem_toDigits (by decide) (by decide) hc

theorem isFree_paramName (i : Nat) : IsFree (paramName i) := by
  have hsigns : ∀ c ∈ signs, c.isDigit = false := by decide
  refine IsFree.append (by decide) fun c hc hsign => ?_
  have hdigit := isDigit_of_mem_index hc
  rw [hsigns c hsign] at hdigit
  cases hdigit

/-- A parameter as it stands between two commas. -/
theorem isFree_param {c : Char} (hc : c ∈ signs) (hblank : c ≠ ' ') {type : String} (h : IsWord type)
    (i : Nat) : c ∉ (type ++ " " ++ paramName i).toList := by
  rw [String.toList_append, String.toList_append, List.mem_append, List.mem_append]
  rintro ((hmem | hmem) | hmem)
  · exact h.free.not_mem hc hmem
  · exact hblank (by simpa using hmem)
  · exact (isFree_paramName i).not_mem hc hmem

theorem not_mem_intercalate {c : Char} {sep : String} (hsep : c ∉ sep.toList) {pieces : List String}
    (h : ∀ s ∈ pieces, c ∉ s.toList) : c ∉ (sep.intercalate pieces).toList := by
  intro hc
  rcases mem_intercalate hc with hmem | ⟨s, hs, hmem⟩
  · exact hsep hmem
  · exact h s hs hmem

theorem forall_mem_params (h : ∀ type ∈ types, IsWord type) {Q : String → Prop}
    (hQ : ∀ type, IsWord type → ∀ i, Q (type ++ " " ++ paramName i)) :
    ∀ p ∈ types.mapIdx fun i type => type ++ " " ++ paramName i, Q p := by
  intro p hp
  obtain ⟨i, hi, rfl⟩ := List.mem_mapIdx.mp hp
  exact hQ _ (h _ (List.getElem_mem hi)) i

theorem not_mem_params {c : Char} (hc : c ∈ signs) (hblank : c ≠ ' ') (hcomma : c ≠ ',')
    (h : ∀ type ∈ types, IsWord type) : c ∉ (params types).toList := by
  refine not_mem_intercalate ?_ (forall_mem_params h fun type htype => isFree_param hc hblank htype)
  simp [hblank, hcomma]

theorem params_inj (h : ∀ type ∈ types, IsWord type) (h' : ∀ type ∈ types', IsWord type)
    (heq : params types = params types') : types = types' := by
  have hitems : ∀ type, IsWord type → ∀ i,
      type ++ " " ++ paramName i ≠ "" ∧ ',' ∉ (type ++ " " ++ paramName i).toList := by
    intro type htype i
    refine ⟨fun hempty => ?_, isFree_param (by decide) (by decide) htype i⟩
    rw [String.append_eq_empty_iff, String.append_eq_empty_iff] at hempty
    exact htype.nonempty hempty.1.1
  have hmapped := intercalate_inj ", " rfl (forall_mem_params h hitems)
    (forall_mem_params h' hitems) heq
  have hlength : types.length = types'.length := by simpa using congrArg List.length hmapped
  refine List.ext_getElem hlength fun i hi hi' => ?_
  have hget := List.getElem_of_eq hmapped (by simpa using hi)
  rw [List.getElem_mapIdx, List.getElem_mapIdx, String.append_left_inj, String.append_left_inj] at hget
  exact hget

theorem not_mem_throws {c : Char} (hc : c ∈ signs) (hblank : c ≠ ' ') (hcomma : c ≠ ',')
    (h : ∀ e ∈ exceptions, IsWord e) : c ∉ (throws exceptions).toList := by
  unfold throws
  split
  · simp
  · have hnames : c ∉ (", ".intercalate exceptions).toList :=
      not_mem_intercalate (by simp [hblank, hcomma]) fun e he => (h e he).free.not_mem hc
    have hword : ∀ d ∈ signs, d ≠ ' ' → d ∉ " throws ".toList := by decide
    rw [String.toList_append, List.mem_append]
    exact not_or.mpr ⟨hword c hc hblank, hnames⟩

theorem throws_inj (h : ∀ e ∈ exceptions, IsWord e) (h' : ∀ e ∈ exceptions', IsWord e)
    (heq : throws exceptions = throws exceptions') : exceptions = exceptions' := by
  have hitems : ∀ e, IsWord e → e ≠ "" ∧ ',' ∉ e.toList :=
    fun e he => ⟨he.nonempty, he.free.not_mem (by decide)⟩
  have hlong : ∀ names : String, " throws " ++ names ≠ "" := by
    intro names hempty
    rw [String.append_eq_empty_iff] at hempty
    exact absurd hempty.1 (by decide)
  unfold throws at heq
  cases exceptions with
  | nil =>
    cases exceptions' with
    | nil => rfl
    | cons e' es' => exact absurd heq.symm (hlong _)
  | cons e es =>
    cases exceptions' with
    | nil => exact absurd heq (hlong _)
    | cons e' es' =>
      refine intercalate_inj ", " rfl (fun x hx => hitems x (h x hx))
        (fun x hx => hitems x (h' x hx)) ?_
      exact String.append_right_inj _ |>.mp heq

/-- The words in a line that begins a member. -/
structure HeadWords (words types exceptions : List String) : Prop where
  words : ∀ w ∈ words, w ≠ "" ∧ IsFree w
  types : ∀ type ∈ types, IsWord type
  exceptions : ∀ e ∈ exceptions, IsWord e

theorem head_inj (h : HeadWords words types exceptions) (h' : HeadWords words' types' exceptions')
    (heq : head words types exceptions ++ r = head words' types' exceptions' ++ s) :
    words = words' ∧ types = types' ∧ exceptions = exceptions' ∧ r = s := by
  unfold head at heq
  simp only [String.append_assoc] at heq
  have hopen : ∀ {ws ts es}, HeadWords ws ts es → '(' ∉ (" ".intercalate ws).toList :=
    fun h => not_mem_intercalate (by decide) fun w hw => (h.words w hw).2.not_mem (by decide)
  obtain ⟨hwords, heq⟩ := cut "(" rfl (hopen h) (hopen h') heq
  have hclose : ∀ {ws ts es}, HeadWords ws ts es → ')' ∉ (params ts).toList :=
    fun h => not_mem_params (by decide) (by decide) (by decide) h.types
  obtain ⟨htypes, heq⟩ := cut ")" rfl (hclose h) (hclose h') heq
  have hbrace : ∀ {ws ts es}, HeadWords ws ts es → '\x7b' ∉ (throws es ++ " ").toList := by
    intro ws ts es h
    rw [String.toList_append, List.mem_append]
    exact not_or.mpr ⟨not_mem_throws (by decide) (by decide) (by decide) h.exceptions, by decide⟩
  rw [← String.append_assoc, ← @String.append_assoc (throws exceptions')] at heq
  obtain ⟨hthrows, hrest⟩ := cut "\x7b\n" rfl (hbrace h) (hbrace h') heq
  have hblank : ∀ {ws ts es}, HeadWords ws ts es → ∀ w ∈ ws, w ≠ "" ∧ ' ' ∉ w.toList :=
    fun h w hw => ⟨(h.words w hw).1, (h.words w hw).2.not_mem (by decide)⟩
  exact ⟨intercalate_inj " " rfl (hblank h) (hblank h') hwords,
    params_inj h.types h'.types htypes,
    throws_inj h.exceptions h'.exceptions (String.append_left_inj _ |>.mp hthrows), hrest⟩

end Head

/-! ## Members -/

/-- A constructor or a method as it stands in the text. -/
structure Member where
  words : List String
  types : List String
  exceptions : List String
  body : String

def Member.text (a : Member) : String :=
  indent ++ (head a.words a.types a.exceptions ++ a.body)

/-- The constructor of a class with a given name. -/
def constructorMember (className : String) (c : Constructor) : Member where
  words := accessWords c.visibility ++ [className]
  types := c.params
  exceptions := c.throws
  body := indent ++ indent ++ "super(" ++ arguments c.params ++ ");\n" ++ indent ++ "\x7d"

def methodMember (m : Method) : Member where
  words := methodWords m.visibility m.isStatic ++ [m.returns, m.name]
  types := m.params
  exceptions := m.throws
  body := bodyText m.returns ++ indent ++ "\x7d"

theorem modifiers_append (v : Visibility) (isStatic : Bool) (w : String) (ws : List String) :
    modifiers v isStatic ++ " ".intercalate (w :: ws) =
      " ".intercalate (methodWords v isStatic ++ w :: ws) := by
  cases v <;> cases isStatic <;>
    simp [modifiers, methodWords, accessWords, String.intercalate_cons_cons, ← String.append_assoc]

theorem constructorText_eq (c : Constructor) (className : String) :
    constructorText c className = (constructorMember className c).text := by
  have hwords : modifiers c.visibility false ++ className =
      " ".intercalate (accessWords c.visibility ++ [className]) := by
    have hmodifiers := modifiers_append c.visibility false className []
    rwa [String.intercalate_singleton, methodWords, if_neg (by decide), List.append_nil] at hmodifiers
  have hbrace : " " ++ "\x7b\n" = " \x7b\n" := by decide
  simp only [constructorText, Member.text, constructorMember, head, ← hwords, String.append_assoc,
    ← hbrace]

theorem methodText_eq (m : Method) : methodText m = (methodMember m).text := by
  have hwords : modifiers m.visibility m.isStatic ++ (m.returns ++ (" " ++ m.name)) =
      " ".intercalate (methodWords m.visibility m.isStatic ++ [m.returns, m.name]) := by
    have hmodifiers := modifiers_append m.visibility m.isStatic m.returns [m.name]
    rwa [String.intercalate_cons_cons, String.intercalate_singleton, String.append_assoc] at hmodifiers
  have hbrace : " " ++ "\x7b\n" = " \x7b\n" := by decide
  simp only [methodText, Member.text, methodMember, head, ← hwords, String.append_assoc, ← hbrace]

section Spelled

/-- Constructors that a stub spells in the same way: the same access, the same parameter types, and
the same exceptions. -/
structure SameConstructor (c c' : Constructor) : Prop where
  access : accessWords c.visibility = accessWords c'.visibility
  params : c.params = c'.params
  throws : c.throws = c'.throws

/-- Methods that a stub spells in the same way. -/
structure SameMethod (m m' : Method) : Prop where
  access : accessWords m.visibility = accessWords m'.visibility
  isStatic : m.isStatic = m'.isStatic
  returns : m.returns = m'.returns
  name : m.name = m'.name
  params : m.params = m'.params
  throws : m.throws = m'.throws

theorem mem_accessWords {v : Visibility} {w : String} (h : w ∈ accessWords v) :
    w = "public" ∨ w = "protected" := by
  cases v <;> simp_all [accessWords]

theorem methodWords_inj {v v' : Visibility} {isStatic isStatic' : Bool}
    (h : methodWords v isStatic = methodWords v' isStatic') :
    accessWords v = accessWords v' ∧ isStatic = isStatic' := by
  cases v <;> cases v' <;> cases isStatic <;> cases isStatic' <;> simp_all [methodWords, accessWords]

theorem constructorMember_eq_iff {className : String} {c c' : Constructor} :
    constructorMember className c = constructorMember className c' ↔ SameConstructor c c' := by
  constructor
  · intro h
    have hwords := congrArg Member.words h
    exact ⟨(List.append_inj' hwords rfl).1, congrArg Member.types h, congrArg Member.exceptions h⟩
  · rintro ⟨haccess, hparams, hthrows⟩
    rw [constructorMember, constructorMember, haccess, hparams, hthrows]

theorem methodMember_words {m m' : Method} (h : (methodMember m).words = (methodMember m').words) :
    accessWords m.visibility = accessWords m'.visibility ∧ m.isStatic = m'.isStatic ∧
      m.returns = m'.returns ∧ m.name = m'.name := by
  obtain ⟨hmodifiers, hnames⟩ := List.append_inj' h rfl
  obtain ⟨haccess, hstatic⟩ := methodWords_inj hmodifiers
  rw [List.cons.injEq, List.cons.injEq] at hnames
  exact ⟨haccess, hstatic, hnames.1, hnames.2.1⟩

theorem methodMember_eq_iff {m m' : Method} :
    methodMember m = methodMember m' ↔ SameMethod m m' := by
  constructor
  · intro h
    obtain ⟨haccess, hstatic, hreturns, hname⟩ := methodMember_words (congrArg Member.words h)
    exact ⟨haccess, hstatic, hreturns, hname, congrArg Member.types h, congrArg Member.exceptions h⟩
  · rintro ⟨haccess, hstatic, hreturns, hname, hparams, hthrows⟩
    rw [methodMember, methodMember, methodWords, methodWords, haccess, hstatic, hreturns, hname, hparams,
      hthrows]

/-- A method says what it returns where a constructor has no word but for access. -/
theorem constructorMember_words_ne {className : String} {c : Constructor} {m : Method}
    (hreturns : IsWord m.returns) :
    (constructorMember className c).words ≠ (methodMember m).words := by
  intro h
  have hsplit : (methodMember m).words =
      (methodWords m.visibility m.isStatic ++ [m.returns]) ++ [m.name] := by
    rw [methodMember, List.append_assoc]
    rfl
  have haccess : accessWords c.visibility = methodWords m.visibility m.isStatic ++ [m.returns] :=
    (List.append_inj' (h.trans hsplit) rfl).1
  have hmem : m.returns ∈ accessWords c.visibility := haccess ▸ List.mem_append_right _ (by simp)
  rcases mem_accessWords hmem with hpub | hprot
  · exact hreturns.plain.1 hpub
  · exact hreturns.plain.2 hprot

end Spelled

section Members

variable {className : String} {a b : Member} {as bs : List Member}

/-- A member that a stub of a class with a given name may have. -/
inductive IsMember (className : String) : Member → Prop
  | constructor (c : Constructor) (hparams : ∀ type ∈ c.params, IsWord type)
      (hthrows : ∀ e ∈ c.throws, IsWord e) : IsMember className (constructorMember className c)
  | method (m : Method) (hname : IsWord m.name) (htypes : ∀ type ∈ m.returns :: m.params, IsWord type)
      (hthrows : ∀ e ∈ m.throws, IsWord e) : IsMember className (methodMember m)

theorem IsMember.headWords (hclass : IsWord className) (h : IsMember className a) :
    HeadWords a.words a.types a.exceptions := by
  have haccess : ∀ v, ∀ w ∈ accessWords v, w ≠ "" ∧ IsFree w := by
    intro v w hw
    rcases mem_accessWords hw with rfl | rfl <;> decide
  have hmethod : ∀ v isStatic, ∀ w ∈ methodWords v isStatic, w ≠ "" ∧ IsFree w := by
    intro v isStatic w hw
    rcases List.mem_append.mp hw with hw | hw
    · exact haccess v w hw
    · have hstatic : w = "static" := by cases isStatic <;> simp_all
      rw [hstatic]
      decide
  cases h with
  | constructor c hparams hthrows =>
    refine ⟨fun w hw => ?_, hparams, hthrows⟩
    rcases List.mem_append.mp hw with hw | hw
    · exact haccess _ w hw
    · rw [List.mem_singleton.mp hw]
      exact ⟨hclass.nonempty, hclass.free⟩
  | method m hname htypes hthrows =>
    obtain ⟨hreturns, hparams⟩ := List.forall_mem_cons.mp htypes
    refine ⟨fun w hw => ?_, hparams, hthrows⟩
    rcases List.mem_append.mp hw with hw | hw
    · exact hmethod _ _ w hw
    · rcases List.mem_pair.mp hw with rfl | rfl
      · exact ⟨hreturns.nonempty, hreturns.free⟩
      · exact ⟨hname.nonempty, hname.free⟩

/-- The line that a member begins with determines the rest of it. -/
theorem IsMember.body_eq (ha : IsMember className a) (hb : IsMember className b)
    (hwords : a.words = b.words) (htypes : a.types = b.types) : a.body = b.body := by
  cases ha with
  | constructor c =>
    cases hb with
    | constructor c' =>
      have hparams : c.params = c'.params := htypes
      rw [constructorMember, constructorMember, hparams]
    | method m' _ htypes' =>
      exact absurd hwords (constructorMember_words_ne (htypes' _ List.mem_cons_self))
  | method m _ htypes' =>
    cases hb with
    | constructor c' =>
      exact absurd hwords.symm (constructorMember_words_ne (htypes' _ List.mem_cons_self))
    | method m' =>
      rw [methodMember, methodMember, (methodMember_words hwords).2.2.1]

def Member.paragraph (a : Member) : String :=
  "\n\n" ++ a.text

theorem paragraph_ne_end (r : String) : a.paragraph ++ r ≠ "\n\n\x7d\n" := by
  intro h
  have hchars := congrArg String.toList h
  simp [Member.paragraph, Member.text, indent] at hchars

theorem members_inj (hclass : IsWord className) (ha : ∀ a ∈ as, IsMember className a)
    (hb : ∀ b ∈ bs, IsMember className b)
    (h : String.join (as.map Member.paragraph) ++ "\n\n\x7d\n" =
      String.join (bs.map Member.paragraph) ++ "\n\n\x7d\n") : as = bs := by
  induction as generalizing bs with
  | nil =>
    cases bs with
    | nil => rfl
    | cons b bs =>
      rw [List.map_cons, String.join_cons, String.append_assoc] at h
      exact absurd h.symm (paragraph_ne_end _)
  | cons a as ih =>
    obtain ⟨ha, has⟩ := List.forall_mem_cons.mp ha
    cases bs with
    | nil =>
      rw [List.map_cons, String.join_cons, String.append_assoc] at h
      exact absurd h (paragraph_ne_end _)
    | cons b bs =>
      obtain ⟨hb, hbs⟩ := List.forall_mem_cons.mp hb
      simp only [List.map_cons, String.join_cons, Member.paragraph, Member.text,
        String.append_assoc] at h
      have hheads := String.append_right_inj _ |>.mp (String.append_right_inj _ |>.mp h)
      obtain ⟨hwords, htypes, hexceptions, hrest⟩ :=
        head_inj (ha.headWords hclass) (hb.headWords hclass) hheads
      have hbody := ha.body_eq hb hwords htypes
      rw [hbody] at hrest
      rw [ih has hbs (String.append_right_inj _ |>.mp hrest)]
      cases a
      cases b
      simp_all

end Members

/-! ## Stubs with the same text -/

section Same

/-- The constructors and the methods of a stub, in their order. -/
def members (className : String) (constructors : List Constructor) (methods : List Method) :
    List Member :=
  constructors.map (constructorMember className) ++ (methods.filter isEmitted).map methodMember

variable {t t' : TypeInfo} {constructors constructors' : List Constructor}
  {methods methods' : List Method}

theorem append_map_inj {α β γ : Type} {f : α → γ} {g : β → γ} {xs xs' : List α} {ys ys' : List β}
    (h : ∀ x, ∀ y ∈ ys, f x ≠ g y) (h' : ∀ x, ∀ y ∈ ys', f x ≠ g y)
    (heq : xs.map f ++ ys.map g = xs'.map f ++ ys'.map g) :
    xs.map f = xs'.map f ∧ ys.map g = ys'.map g := by
  have hapart : ∀ {x : α} {zs : List β} {rest : List γ}, (∀ y ∈ zs, f x ≠ g y) →
      zs.map g ≠ f x :: rest := by
    intro x zs rest hzs hmap
    obtain ⟨y, hy, hxy⟩ := List.mem_map.mp (hmap ▸ List.mem_cons_self)
    exact hzs y hy hxy.symm
  induction xs generalizing xs' with
  | nil =>
    cases xs' with
    | nil => exact ⟨rfl, heq⟩
    | cons x' xs' => exact absurd heq (hapart (h x'))
  | cons x xs ih =>
    cases xs' with
    | nil => exact absurd heq.symm (hapart (h' x))
    | cons x' xs' =>
      rw [List.map_cons, List.map_cons, List.cons_append, List.cons_append, List.cons.injEq] at heq
      obtain ⟨hxs, hys⟩ := ih heq.2
      exact ⟨by rw [List.map_cons, List.map_cons, heq.1, hxs], hys⟩

theorem members_eq_iff (className : String)
    (h : ∀ m ∈ methods.filter isEmitted, IsWord m.returns)
    (h' : ∀ m ∈ methods'.filter isEmitted, IsWord m.returns) :
    members className constructors methods = members className constructors' methods' ↔
      List.Forall₂ SameConstructor constructors constructors' ∧
        List.Forall₂ SameMethod (methods.filter isEmitted) (methods'.filter isEmitted) := by
  have hmap {α : Type} (f : α → Member) (xs ys : List α) :
      xs.map f = ys.map f ↔ List.Forall₂ (fun x y => f x = f y) xs ys := by
    rw [← List.forall₂_eq_eq_eq, List.forall₂_map_left_iff, List.forall₂_map_right_iff]
  have hparts : members className constructors methods = members className constructors' methods' ↔
      constructors.map (constructorMember className) =
          constructors'.map (constructorMember className) ∧
        (methods.filter isEmitted).map methodMember = (methods'.filter isEmitted).map methodMember := by
    refine ⟨append_map_inj (fun c m hm heq => ?_) (fun c m hm heq => ?_), fun hboth => ?_⟩
    · exact constructorMember_words_ne (h m hm) (congrArg Member.words heq)
    · exact constructorMember_words_ne (h' m hm) (congrArg Member.words heq)
    · rw [members, members, hboth.1, hboth.2]
  rw [hparts, hmap, hmap]
  simp only [constructorMember_eq_iff, methodMember_eq_iff]

/-- All names in a stub are dotted names, and types may be primitive types and have brackets. -/
structure Legible (t : TypeInfo) (constructors : List Constructor) (methods : List Method) : Prop where
  package : t.package = "" ∨ Named IsLabel t.package
  simpleName : Named IsLabel t.simpleName
  methodNames : ∀ m ∈ methods.filter isEmitted, Named IsLabel m.name
  types : ∀ type ∈ typesIn t constructors methods, Erased IsLabel type
  exceptions : ∀ e ∈ exceptionsIn constructors methods, Erased IsLabel e

/-- Two stubs that show the same. -/
structure SameStub (t t' : TypeInfo) (constructors constructors' : List Constructor)
    (methods methods' : List Method) : Prop where
  package : t.package = t'.package
  simpleName : t.simpleName = t'.simpleName
  target : t.name = t'.name
  relation : relation t = relation t'
  constructors : List.Forall₂ SameConstructor constructors constructors'
  methods : List.Forall₂ SameMethod (methods.filter isEmitted) (methods'.filter isEmitted)

theorem text_members (t : TypeInfo) (constructors : List Constructor) (methods : List Method) :
    text t constructors methods = packageText t ++ ("public class " ++ (className t ++ (" " ++
      (relation t ++ (" " ++ (t.name ++ (" \x7b" ++
        (String.join ((members (className t) constructors methods).map Member.paragraph) ++
          "\n\n\x7d\n")))))))) := by
  have hconstructor : (fun c => "\n\n" ++ constructorText c (className t)) =
      Member.paragraph ∘ constructorMember (className t) :=
    funext fun c => by rw [constructorText_eq]; rfl
  have hmethod : (fun m => "\n\n" ++ methodText m) = Member.paragraph ∘ methodMember :=
    funext fun m => by rw [methodText_eq]; rfl
  rw [text, members, List.map_append, String.join_append, List.map_map, List.map_map, hconstructor, hmethod]
  simp only [String.append_assoc]

theorem packageText_inj {r s : String} (h : t.package = "" ∨ IsWord t.package)
    (h' : t'.package = "" ∨ IsWord t'.package)
    (heq : packageText t ++ ("public class " ++ r) = packageText t' ++ ("public class " ++ s)) :
    t.package = t'.package ∧ r = s := by
  have hstart : ∀ a b : String, "public class " ++ a ≠ "package " ++ b := by
    intro a b hab
    have hchars := congrArg String.toList hab
    simp at hchars
  have hsemicolon : ";\n\n" = ";" ++ "\n\n" := by decide
  unfold packageText at heq
  simp only [String.isEmpty_iff] at heq
  by_cases hp : t.package = "" <;> by_cases hp' : t'.package = ""
  · rw [if_pos hp, if_pos hp', String.empty_append, String.empty_append] at heq
    exact ⟨hp.trans hp'.symm, String.append_right_inj _ |>.mp heq⟩
  · rw [if_pos hp, if_neg hp', String.empty_append] at heq
    simp only [String.append_assoc] at heq
    exact absurd heq (hstart _ _)
  · rw [if_neg hp, if_pos hp', String.empty_append] at heq
    simp only [String.append_assoc] at heq
    exact absurd heq.symm (hstart _ _)
  · rw [if_neg hp, if_neg hp'] at heq
    simp only [String.append_assoc] at heq
    have hfree := (h.resolve_left hp).free.not_mem (c := ';') (by decide)
    have hfree' := (h'.resolve_left hp').free.not_mem (c := ';') (by decide)
    obtain ⟨hpackage, hrest⟩ := cut ";\n\n" rfl hfree hfree' (String.append_right_inj _ |>.mp heq)
    exact ⟨hpackage, String.append_right_inj _ |>.mp hrest⟩

theorem Legible.isWord_className (h : Legible t constructors methods) : IsWord (className t) := by
  have hsimple := isWord_of_named h.simpleName
  have hlast : (className t).toList.getLast? = some 'l' := by
    rw [className, String.toList_append, List.getLast?_append]
    rfl
  have hne : ∀ u : String, u.toList.getLast? ≠ some 'l' → className t ≠ u :=
    fun u hu hclass => hu (hclass ▸ hlast)
  exact ⟨hne "" (by decide), hsimple.free.append (by decide), hne "public" (by decide),
    hne "protected" (by decide)⟩

theorem Legible.isMember (h : Legible t constructors methods) (className : String) :
    ∀ a ∈ members className constructors methods, IsMember className a := by
  intro a ha
  rcases List.mem_append.mp ha with ha | ha
  · obtain ⟨c, hc, rfl⟩ := List.mem_map.mp ha
    refine .constructor c (fun type htype => ?_) fun e he => ?_
    · refine isWord_of_erased (h.types type (List.mem_append_left _ (List.mem_cons_of_mem _ ?_)))
      exact List.mem_flatMap.mpr ⟨c, hc, htype⟩
    · refine isWord_of_erased (h.exceptions e (List.mem_append_left _ ?_))
      exact List.mem_flatMap.mpr ⟨c, hc, he⟩
  · obtain ⟨m, hm, rfl⟩ := List.mem_map.mp ha
    refine .method m (isWord_of_named (h.methodNames m hm)) (fun type htype => ?_) fun e he => ?_
    · refine isWord_of_erased (h.types type (List.mem_append_right _ ?_))
      exact List.mem_flatMap.mpr ⟨m, hm, htype⟩
    · refine isWord_of_erased (h.exceptions e (List.mem_append_right _ ?_))
      exact List.mem_flatMap.mpr ⟨m, hm, he⟩

theorem Legible.isWord_returns (h : Legible t constructors methods) :
    ∀ m ∈ methods.filter isEmitted, IsWord m.returns := by
  intro m hm
  refine isWord_of_erased (h.types _ (List.mem_append_right _ ?_))
  exact List.mem_flatMap.mpr ⟨m, hm, List.mem_cons_self⟩

/-- The text of a stub tells its package, its name, its target, and what its members begin with. -/
theorem text_eq_iff (h : Legible t constructors methods) (h' : Legible t' constructors' methods') :
    text t constructors methods = text t' constructors' methods' ↔
      SameStub t t' constructors constructors' methods methods' := by
  constructor
  · intro heq
    rw [text_members, text_members] at heq
    obtain ⟨hpackage, heq⟩ :=
      packageText_inj (h.package.imp_right isWord_of_named) (h'.package.imp_right isWord_of_named) heq
    have hblank : ∀ {w}, IsWord w → ' ' ∉ w.toList := fun hw => hw.free.not_mem (by decide)
    obtain ⟨hclass, heq⟩ := cut " " rfl (hblank h.isWord_className) (hblank h'.isWord_className) heq
    have hrelation : ∀ t, ' ' ∉ (relation t).toList := by
      intro t
      unfold relation
      cases t.isInterface <;> decide
    obtain ⟨hrelated, heq⟩ := cut " " rfl (hrelation t) (hrelation t') heq
    have htarget : ∀ {t constructors methods}, Legible t constructors methods → IsWord t.name :=
      fun h => isWord_of_erased (h.types _ (List.mem_append_left _ List.mem_cons_self))
    obtain ⟨hname, heq⟩ := cut " \x7b" rfl (hblank (htarget h)) (hblank (htarget h')) heq
    rw [← hclass] at heq
    have hmembers := members_inj h.isWord_className (h.isMember _) (h'.isMember _) heq
    obtain ⟨hconstructors, hmethods⟩ := (members_eq_iff _ h.isWord_returns h'.isWord_returns).mp hmembers
    exact ⟨hpackage, String.append_left_inj _ |>.mp hclass, hname, hrelated, hconstructors, hmethods⟩
  · rintro ⟨hpackage, hsimple, hname, hrelation, hconstructors, hmethods⟩
    have hclass : className t = className t' := by rw [className, className, hsimple]
    have hmembers := (members_eq_iff (className t) h.isWord_returns h'.isWord_returns).mpr
      ⟨hconstructors, hmethods⟩
    rw [text_members, text_members, packageText, packageText, hpackage, hname, hrelation, hmembers, hclass]

/-! ### Two targets that differ in what a stub leaves out -/

def queue : TypeInfo where
  name := "a.b.Queue"
  simpleName := "Queue"
  kind := .classType
  package := "a.b"
  visibility := .pub
  modifiers := ["public", "abstract"]
  superclass := some objectName
  interfaces := []
  constructors := []
  methods := []
  sourceFile := none

def queueConstructor (v : Visibility) : Constructor :=
  ⟨"a.b.Queue", ["int", "java.lang.String[]"], ["java.io.IOException"], v⟩

def takeMethod (declaringType : String) (isAbstract : Bool) : Method :=
  ⟨declaringType, "take", "long[][]", ["char"], [], .prot, isAbstract, false, false⟩

def sealedMethod : Method :=
  ⟨"a.b.Queue", "close", "void", [], [], .pub, false, false, true⟩

theorem queue_legible (v : Visibility) (declaringType : String) (isAbstract : Bool)
    (hidden : List Method) (hhidden : hidden.filter isEmitted = []) :
    Legible queue [queueConstructor v] (takeMethod declaringType isAbstract :: hidden) := by
  have hfilter : (takeMethod declaringType isAbstract :: hidden).filter isEmitted =
      [takeMethod declaringType isAbstract] := by
    have hshown : isEmitted (takeMethod declaringType isAbstract) = true := rfl
    rw [List.filter_cons, if_pos hshown, hhidden]
  have hqueue : Named IsLabel "a.b.Queue" := (by decide : ∀ s ∈ splitText '.' "a.b.Queue", IsLabel s)
  have hstring : Named IsLabel "java.lang.String" :=
    (by decide : ∀ s ∈ splitText '.' "java.lang.String", IsLabel s)
  have hexception : Named IsLabel "java.io.IOException" :=
    (by decide : ∀ s ∈ splitText '.' "java.io.IOException", IsLabel s)
  refine ⟨.inr (by decide : ∀ s ∈ splitText '.' "a.b", IsLabel s),
    (by decide : ∀ s ∈ splitText '.' "Queue", IsLabel s), ?_, ?_, ?_⟩
  · rw [hfilter, List.forall_mem_singleton]
    exact (by decide : ∀ s ∈ splitText '.' "take", IsLabel s)
  · rw [typesIn, hfilter]
    have htypes : ∀ type ∈ ["a.b.Queue", "int", "java.lang.String[]", "long[][]", "char"],
        Erased IsLabel type := by
      simp only [List.forall_mem_cons]
      exact ⟨hqueue.erased, ⟨"int", 0, by decide, .inl (by decide)⟩,
        ⟨"java.lang.String", 1, by decide, .inr hstring⟩, ⟨"long", 2, by decide, .inl (by decide)⟩,
        ⟨"char", 0, by decide, .inl (by decide)⟩, List.forall_mem_nil _⟩
    exact htypes
  · rw [exceptionsIn, hfilter]
    have hexceptions : ∀ e ∈ ["java.io.IOException"], Erased IsLabel e :=
      List.forall_mem_singleton.mpr hexception.erased
    exact hexceptions

theorem text_eq_iff_hidden :
    Legible queue [queueConstructor .pkg] [takeMethod "a.b.Queue" true, sealedMethod] ∧
      Legible queue [queueConstructor .priv] [takeMethod "a.b.Base" false] ∧
      text queue [queueConstructor .pkg] [takeMethod "a.b.Queue" true, sealedMethod] =
        text queue [queueConstructor .priv] [takeMethod "a.b.Base" false] ∧
      SameStub queue queue [queueConstructor .pkg] [queueConstructor .priv]
        [takeMethod "a.b.Queue" true, sealedMethod] [takeMethod "a.b.Base" false] := by
  have hsealed := queue_legible .pkg "a.b.Queue" true [sealedMethod] rfl
  have hplain := queue_legible .priv "a.b.Base" false [] rfl
  have htext : text queue [queueConstructor .pkg] [takeMethod "a.b.Queue" true, sealedMethod] =
      text queue [queueConstructor .priv] [takeMethod "a.b.Base" false] := by
    decide +kernel
  exact ⟨hsealed, hplain, htext, (text_eq_iff hsealed hplain).mp htext⟩

end Same

end StubSource

end StubWriter
