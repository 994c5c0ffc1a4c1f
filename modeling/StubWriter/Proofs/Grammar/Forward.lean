import Mathlib.Data.List.Infix
import StubWriter.Grammar.Cursor
import StubWriter.Proofs.Outcome

/-!
# Readers move forward

Whatever a reader comes to, it leaves the cursor on some of the tokens that were ahead of it, and
the place to go back to is the old one or such a place as well. So the tokens that a reader meets
are tokens of the text, and it never meets more of them than there were.

* `Cursor.Leads`: from where to where a cursor may move.
* `Reader.Forward`: a reader that only moves so. It is a class, and there is an instance for each
  way of putting readers together, so that a reader has the property by the way it is written.
-/

namespace StubWriter.Grammar

open Run

namespace Cursor

/-- From `c` a cursor may move to `c'`. -/
structure Leads (c c' : Cursor) : Prop where
  ahead : c'.ahead <:+ c.ahead
  mark : c'.mark = c.mark ∨ c'.mark <:+ c.ahead

theorem Leads.refl (c : Cursor) : c.Leads c :=
  ⟨List.suffix_refl _, .inl rfl⟩

theorem Leads.trans {c c' c'' : Cursor} (h : c.Leads c') (h' : c'.Leads c'') : c.Leads c'' := by
  refine ⟨h'.ahead.trans h.ahead, ?_⟩
  rcases h'.mark with hmark | hmark
  · rw [hmark]
    exact h.mark
  · exact .inr (hmark.trans h.ahead)

theorem leads_drop (c : Cursor) (n : Nat) : c.Leads { c with ahead := c.ahead.drop n } :=
  ⟨List.drop_suffix n _, .inl rfl⟩

end Cursor

namespace Reader

variable {α β : Type}

/-- A reader that moves forward, whether it succeeds or not. -/
class Forward (x : Reader α) : Prop where
  leads : ∀ c : Cursor, c.Leads (stateAfter (x c))

instance (a : α) : Forward (pure a : Reader α) :=
  ⟨Cursor.Leads.refl⟩

instance (e : Stop) : Forward (throw e : Reader α) :=
  ⟨Cursor.Leads.refl⟩

instance : Forward (get : Reader Cursor) :=
  ⟨Cursor.Leads.refl⟩

instance (x : Reader α) (f : α → Reader β) [Forward x] [∀ a, Forward (f a)] :
    Forward (x >>= f) := by
  refine ⟨fun c => ?_⟩
  have hx := Forward.leads (x := x) c
  change c.Leads (stateAfter (EStateM.bind x f c))
  unfold EStateM.bind
  cases hrun : x c with
  | ok a c' =>
    rw [hrun] at hx
    exact hx.trans (Forward.leads c')
  | error e c' =>
    rw [hrun] at hx
    exact hx

instance (p : Prop) [Decidable p] (x y : Reader α) [Forward x] [Forward y] :
    Forward (if p then x else y) := by
  split
  · infer_instance
  · infer_instance

instance (x : Reader α) (f : α → β) [Forward x] : Forward (f <$> x) := by
  rw [map_eq_pure_bind]
  infer_instance

instance (x : Reader α) (y : Reader β) [Forward x] [Forward y] : Forward (x *> y) := by
  rw [seqRight_eq_bind]
  infer_instance

instance (x : Reader α) [Forward x] : Forward (ignore x) := by
  unfold ignore
  infer_instance

/-! ## Single tokens -/

instance (i : Nat) : Forward (look? i) := by
  unfold look?
  infer_instance

instance : Forward lookText? := by
  unfold lookText?
  infer_instance

instance : Forward lookSort? := by
  unfold lookSort?
  infer_instance

instance (ps : List Pattern) : Forward (sees ps) := by
  unfold sees
  infer_instance

instance (p : Pattern) : Forward (seesOne p) := by
  unfold seesOne
  infer_instance

instance (texts : List String) : Forward (seesAny texts) := by
  unfold seesAny
  infer_instance

/-- Taking a token leaves those behind it. -/
theorem take_eq (c : Cursor) :
    take c = match c.ahead with
      | t :: rest => .ok t { c with ahead := rest }
      | [] => .error .endOfInput c := by
  obtain ⟨ahead, mark⟩ := c
  cases ahead <;> rfl

instance : Forward take := by
  refine ⟨fun c => ?_⟩
  rw [take_eq]
  split
  · rename_i t rest hahead
    exact ⟨hahead ▸ List.suffix_cons t rest, .inl rfl⟩
  · exact Cursor.Leads.refl c

instance (p : Pattern) : Forward (accept p) := by
  unfold accept
  infer_instance

instance (ps : List Pattern) : Forward (acceptAll ps) := by
  induction ps with
  | nil => exact inferInstanceAs (Forward (pure ()))
  | cons p ps ih =>
    unfold acceptAll
    infer_instance

instance (n : Nat) : Forward (modify fun c => { c with ahead := c.ahead.drop n } : Reader Unit) :=
  ⟨fun c => c.leads_drop n⟩

instance (ps : List Pattern) : Forward (tryAll ps) := by
  unfold tryAll
  infer_instance

instance (p : Pattern) : Forward (tryOne p) := by
  unfold tryOne
  infer_instance

instance (what : String) : Forward (fail what : Reader α) := by
  unfold fail
  infer_instance

/-! ## Repetitions -/

instance (x : Reader (Option α)) [Forward x] (n : Nat) : Forward (repeatFor x n) := by
  induction n with
  | zero => exact inferInstanceAs (Forward (throw _))
  | succ n ih =>
    unfold repeatFor
    have hround : ∀ a? : Option α, Forward (match a? with
        | some a => return a :: (← repeatFor x n)
        | none => return []) := by
      rintro (_ | a)
      · infer_instance
      · infer_instance
    infer_instance

instance (x : Reader (Option α)) [Forward x] : Forward (many x) := by
  unfold many
  infer_instance

instance (go : Reader Bool) (x : Reader α) [Forward go] [Forward x] :
    Forward (manyWhile go x) := by
  unfold manyWhile
  infer_instance

instance (closing : String) (x : Reader α) [Forward x] : Forward (manyUntil closing x) := by
  unfold manyUntil
  infer_instance

instance (separator : String) (x : Reader α) [Forward x] : Forward (sepBy separator x) := by
  unfold sepBy
  infer_instance

instance (closing : String) (x : Reader α) [Forward x] : Forward (sepUntil closing x) := by
  unfold sepUntil
  infer_instance

/-! ## Attempts -/

/-- A failed attempt goes back to a place at or behind its own start. -/
instance (x : Reader α) [Forward x] : Forward (attempt x) := by
  refine ⟨fun c => ?_⟩
  have hx := Forward.leads (x := x) { c with mark := c.ahead }
  have hmark : (stateAfter (x { c with mark := c.ahead })).mark <:+ c.ahead := by
    rcases hx.mark with h | h
    · exact h ▸ List.suffix_refl _
    · exact h
  unfold attempt
  cases hrun : x { c with mark := c.ahead } with
  | ok a c' =>
    rw [hrun] at hx hmark
    exact ⟨hx.ahead, .inr hmark⟩
  | error e c' =>
    rw [hrun] at hmark
    cases e <;> exact ⟨hmark, .inl rfl⟩

end Reader

/-! ## Names -/

open Reader

instance : Forward identifier := by
  unfold identifier
  infer_instance

instance : Forward qualifiedName := by
  unfold qualifiedName
  infer_instance

instance : Forward qualifiedNames := by
  unfold qualifiedNames
  infer_instance

instance : Forward dimensions := by
  unfold dimensions
  infer_instance

end StubWriter.Grammar
