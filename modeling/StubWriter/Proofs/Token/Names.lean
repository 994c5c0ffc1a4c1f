import Mathlib.Data.List.TakeWhile
import StubWriter.Token.Lexer
import StubWriter.TypeInfo

/-!
# The tokens of a text

An identifier is a run of identifier characters that is no keyword and no literal, and a basic type
is one of a few keywords. A text has at most twice as many tokens as characters; it is not less
because an escape that breaks off makes a part of the text count twice.

* `Token.IsName`: how the names that a text introduces are spelled.
* `Token.ofText_sound`, `Token.ofText_length`: what is known of the tokens of a text.
-/

namespace StubWriter

namespace Token

/-- The spelling of an identifier. -/
structure IsName (w : String) : Prop where
  nonempty : w.toList ≠ []
  parts : ∀ c ∈ w.toList, Text.isIdentifierPart c = true
  sort : sortOfWord w = .identifier

/-- A token whose spelling fits its sort, as far as identifiers and basic types go. -/
structure Sound (t : Token) : Prop where
  name : t.sort = .identifier → IsName t.text
  basicType : t.sort = .basicType → t.text ∈ basicTypes

theorem mem_basicTypes {w : String} (h : sortOfWord w = .basicType) : w ∈ basicTypes := by
  unfold sortOfWord at h
  split at h
  · rename_i hw
    exact List.contains_iff_mem.mp hw
  split at h
  · cases h
  split at h
  · cases h
  split at h <;> cases h

theorem IsName.not_primitive {w : String} (h : IsName w) : isPrimitiveName w = false := by
  by_contra hprimitive
  have hw : w ∈ primitiveNames := by simpa [isPrimitiveName] using hprimitive
  have hall : ∀ v ∈ primitiveNames, sortOfWord v ≠ .identifier := by decide
  exact hall w hw h.sort

/-- Signs that are no part of an identifier do not stand in a name. -/
theorem IsName.not_mem {w : String} (h : IsName w) {c : Char}
    (hc : Text.isIdentifierPart c = false) : c ∉ w.toList := by
  intro hmem
  rw [h.parts c hmem] at hc
  cases hc

end Token

namespace Lexer

theorem toList_taken_dropWhile (p : Char → Bool) (cs : List Char) :
    (taken cs (cs.dropWhile p)).toList = cs.takeWhile p := by
  have happend : cs.takeWhile p ++ cs.dropWhile p = cs := List.takeWhile_append_dropWhile
  have hlength : cs.length - (cs.dropWhile p).length = (cs.takeWhile p).length := by
    have := congrArg List.length happend
    rw [List.length_append] at this
    omega
  rw [taken, String.toList_ofList, hlength]
  calc cs.take (cs.takeWhile p).length
      = (cs.takeWhile p ++ cs.dropWhile p).take (cs.takeWhile p).length := by rw [happend]
    _ = cs.takeWhile p := List.take_left

theorem wordStep_sound {c : Char} (hc : Text.isIdentifierStart c = true) (more : List Char) :
    ∀ t ∈ (wordStep (c :: more)).token?, t.Sound := by
  intro t ht
  simp only [wordStep, Option.mem_def, Option.some.injEq] at ht
  subst ht
  refine ⟨fun hsort => ⟨?_, ?_, hsort⟩, Token.mem_basicTypes⟩
  · rw [toList_taken_dropWhile, List.takeWhile_cons,
      if_pos (Text.isIdentifierPart_of_start hc)]
    exact List.cons_ne_nil _ _
  · rw [toList_taken_dropWhile]
    exact fun d hd => List.mem_takeWhile_imp hd

theorem tokenStep_sound {sort : TokenSort} (hsort : sort ≠ .identifier ∧ sort ≠ .basicType)
    (cs rest : List Char) : ∀ t ∈ (tokenStep sort cs rest).token?, t.Sound := by
  intro t ht
  simp only [tokenStep, Option.mem_def, Option.some.injEq] at ht
  subst ht
  exact ⟨fun h => absurd h hsort.1, fun h => absurd h hsort.2⟩

theorem step_sound {c : Char} {more : List Char} {s : Step} (h : step c more = .ok s) :
    ∀ t ∈ s.token?, t.Sound := by
  have hmap : ∀ (r : Except Refusal (List Char)),
      r.map (tokenStep .literal (c :: more)) = .ok s → ∀ t ∈ s.token?, t.Sound := by
    intro r hr
    cases r with
    | error refusal => cases hr
    | ok rest =>
      cases hr
      exact tokenStep_sound (by decide) _ _
  have hnone : ∀ {rest : List Char}, (⟨none, rest⟩ : Step) = s → ∀ t ∈ s.token?, t.Sound := by
    rintro rest rfl t ht
    cases ht
  have htoken : ∀ {sort : TokenSort} {rest : List Char},
      sort ≠ .identifier ∧ sort ≠ .basicType → tokenStep sort (c :: more) rest = s →
        ∀ t ∈ s.token?, t.Sound := by
    rintro sort rest hsort rfl
    exact tokenStep_sound hsort _ _
  unfold step at h
  dsimp only at h
  split at h
  · exact hnone (Except.ok.inj h)
  split at h
  · exact hnone (Except.ok.inj h)
  split at h
  · split at h
    · exact hnone (Except.ok.inj h)
    · cases h
  split at h
  · exact htoken (by decide) (Except.ok.inj h)
  split at h
  · exact htoken (by decide) (Except.ok.inj h)
  split at h
  · exact htoken (by decide) (Except.ok.inj h)
  split at h
  · exact htoken (by decide) (Except.ok.inj h)
  split at h
  · exact hmap _ h
  split at h
  · exact hmap _ h
  split at h
  · rename_i hstart
    cases h
    exact wordStep_sound hstart more
  split at h
  · exact htoken (by decide) (Except.ok.inj h)
  · cases h

/-- Every step of a run makes one token at most. -/
theorem run_sound {text : List Char} {fuel : Nat} {place : Place} {cs : List Char}
    {tokens : List Token} (h : run text fuel place cs = .ok tokens) :
    (∀ t ∈ tokens, t.Sound) ∧ tokens.length ≤ fuel := by
  induction fuel generalizing place cs tokens with
  | zero =>
    cases h
    exact ⟨fun t ht => absurd ht List.not_mem_nil, le_rfl⟩
  | succ fuel ih =>
    cases cs with
    | nil =>
      cases h
      exact ⟨fun t ht => absurd ht List.not_mem_nil, Nat.zero_le _⟩
    | cons c more =>
      unfold run at h
      cases hs : step c more with
      | error refusal =>
        rw [hs] at h
        cases h
      | ok s =>
        rw [hs] at h
        dsimp only at h
        cases hr : run text fuel (place.advance (c :: more) s) s.rest with
        | error fault =>
          rw [hr] at h
          cases h
        | ok rest =>
          rw [hr] at h
          cases h
          obtain ⟨hsound, hlength⟩ := ih hr
          constructor
          · intro t ht
            rcases List.mem_append.mp ht with ht | ht
            · exact step_sound hs t (Option.mem_toList.mp ht)
            · exact hsound t ht
          · have hone : s.token?.toList.length ≤ 1 := by cases s.token? <;> simp
            rw [List.length_append]
            omega

end Lexer

namespace Token

/-- An escape that breaks off doubles what was read since the last one. -/
theorem unescape_length {seen cs out : List Char} (h : unescape seen cs = .ok out) :
    out.length ≤ 2 * (seen.length + cs.length) := by
  fun_induction unescape seen cs generalizing out with
  | case1 seen =>
    cases h
    rw [List.length_reverse, List.length_nil]
    omega
  | case2 seen =>
    cases h
    rw [List.length_reverse, List.length_cons, List.length_singleton]
    omega
  | case3 seen rest places =>
    cases h
    simp only [List.length_append, List.length_reverse, List.length_cons]
    omega
  | case4 seen rest places hplaces =>
    cases h
  | case5 seen rest places hplaces n hn =>
    rename_i ih
    cases htail : unescape [] (places.drop 4) with
    | error fault =>
      rw [htail] at h
      cases h
    | ok tail =>
      rw [htail] at h
      cases h
      have htail' := ih htail
      have hrest : places.length ≤ rest.length :=
        (List.dropWhile_sublist (· == 'u')).length_le
      simp at htail' ⊢
      omega
  | case6 seen c rest hc ih =>
    have := ih h
    simp at this ⊢
    omega
  | case7 seen c rest hne hne' ih =>
    have := ih h
    simp at this ⊢
    omega

theorem ofText_sound {text : String} {tokens : List Token} (h : ofText text = .ok tokens) :
    ∀ t ∈ tokens, t.Sound := by
  unfold ofText at h
  cases hcs : unescape [] text.toList with
  | error places =>
    rw [hcs] at h
    cases h
  | ok cs =>
    rw [hcs] at h
    exact (Lexer.run_sound h).1

theorem ofText_length {text : String} {tokens : List Token} (h : ofText text = .ok tokens) :
    tokens.length ≤ 2 * text.length := by
  unfold ofText at h
  cases hcs : unescape [] text.toList with
  | error places =>
    rw [hcs] at h
    cases h
  | ok cs =>
    rw [hcs] at h
    have hcs := unescape_length hcs
    have htokens := (Lexer.run_sound h).2
    rw [← String.length_toList]
    simp at hcs
    omega

end Token

end StubWriter
