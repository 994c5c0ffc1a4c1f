import StubWriter.Proofs.Outcome

/-!
# What steps do to states

A step moves along a relation if the relation holds between the state before and the state after,
whether the step fails or not. For a relation that is reflexive and transitive, a program moves along
it if its steps do, so the property is a class, and programs have it by the way they are written.

* `World.GivesUnless`: a step that gives a value in a world, unless it leaves a state that is lost.
-/

namespace StubWriter.Run

variable {ε σ α β : Type}

/-- A step after which `R` holds between the states. -/
class Moves (R : σ → σ → Prop) (x : EStateM ε σ α) : Prop where
  moves : ∀ s, R s (stateAfter (x s))

variable {R : σ → σ → Prop}

theorem Moves.mono {R' : σ → σ → Prop} {x : EStateM ε σ α} (h : Moves R x)
    (hR : ∀ s s', R s s' → R' s s') : Moves R' x :=
  ⟨fun s => hR _ _ (h.moves s)⟩

theorem moves_modify {f : σ → σ} (hf : ∀ s, R s (f s)) : Moves R (modify f : EStateM ε σ Unit) :=
  ⟨hf⟩

section Refl

variable [Std.Refl R]

instance (a : α) : Moves R (pure a : EStateM ε σ α) :=
  ⟨Std.Refl.refl⟩

instance (e : ε) : Moves R (throw e : EStateM ε σ α) :=
  ⟨Std.Refl.refl⟩

instance : Moves R (get : EStateM ε σ σ) :=
  ⟨Std.Refl.refl⟩

end Refl

instance (p : Prop) [Decidable p] (x y : EStateM ε σ α) [Moves R x] [Moves R y] :
    Moves R (if p then x else y) := by
  split
  · infer_instance
  · infer_instance

/-- What a sequence does, from where it started. -/
theorem moves_bind_from {x : EStateM ε σ α} {f : α → EStateM ε σ β} (hx : Moves R x)
    (hf : ∀ s a s', x s = .ok a s' → R s s' → R s (stateAfter (f a s'))) : Moves R (x >>= f) := by
  refine ⟨fun s => ?_⟩
  have hx := hx.moves s
  change R s (stateAfter (EStateM.bind x f s))
  unfold EStateM.bind
  cases hrun : x s with
  | ok a s' =>
    rw [hrun] at hx
    exact hf s a s' hrun hx
  | error e s' =>
    rw [hrun] at hx
    exact hx

section Trans

variable [IsTrans σ R]

theorem moves_bind_of {x : EStateM ε σ α} {f : α → EStateM ε σ β} (hx : Moves R x)
    (hf : ∀ s a s', x s = .ok a s' → R s' (stateAfter (f a s'))) : Moves R (x >>= f) :=
  moves_bind_from hx fun s a s' hrun h => Trans.trans h (hf s a s' hrun)

theorem moves_bind {x : EStateM ε σ α} {f : α → EStateM ε σ β} (hx : Moves R x)
    (hf : ∀ a, Moves R (f a)) : Moves R (x >>= f) :=
  moves_bind_of hx fun _ a s' _ => (hf a).moves s'

instance (x : EStateM ε σ α) (f : α → EStateM ε σ β) [Moves R x] [∀ a, Moves R (f a)] :
    Moves R (x >>= f) :=
  moves_bind inferInstance inferInstance

instance (x : EStateM ε σ α) (handle : ε → EStateM ε σ α) [Moves R x] [∀ e, Moves R (handle e)] :
    Moves R (tryCatch x handle) := by
  refine ⟨fun s => ?_⟩
  have hx := Moves.moves (R := R) (x := x) s
  change R s (stateAfter (EStateM.tryCatch x handle s))
  unfold EStateM.tryCatch
  cases hrun : x s with
  | ok a s' =>
    rw [hrun] at hx
    exact hx
  | error e s' =>
    rw [hrun] at hx
    exact Trans.trans hx (Moves.moves (R := R) (x := handle e) s')

instance (f : α → EStateM ε σ β) [Std.Refl R] [∀ a, Moves R (f a)] (as : List α) :
    Moves R (as.mapM f) := by
  induction as with
  | nil => exact inferInstanceAs (Moves R (pure _))
  | cons a as ih =>
    rw [List.mapM_cons]
    infer_instance

end Trans

/-! ## Lost states -/

/-- A state that comes after a lost one is lost. -/
def Stays (lost : σ → Prop) (s s' : σ) : Prop :=
  lost s → lost s'

instance (lost : σ → Prop) : Std.Refl (Stays lost) :=
  ⟨fun _ => id⟩

instance (lost : σ → Prop) : IsTrans σ (Stays lost) :=
  ⟨fun _ _ _ h h' => h' ∘ h⟩

instance (x : EStateM ε σ α) : Moves (Stays fun _ => False) x :=
  ⟨fun _ => False.elim⟩

namespace World

variable {W : World σ} {lost : σ → Prop} {x : EStateM Failure σ α}

/-- The value `v` or an excused failure, unless the state that is left is lost. -/
def GivesUnless (W : World σ) (lost : σ → Prop) (x : EStateM Failure σ α) (v : Except Failure α) :
    Prop :=
  ∀ s, W.inv s → Comes x s fun o s' => lost s' ∨ W.inv s' ∧ W.Near v o

theorem Gives.unless {v : Except Failure α} (h : W.Gives x v) (lost : σ → Prop) :
    W.GivesUnless lost x v :=
  fun s hs => .inr (h s hs)

/-- Where no state is lost, a step gives its value in any case. -/
theorem gives_of_unless {v : Except Failure α} (h : W.GivesUnless (fun _ => False) x v) :
    W.Gives x v :=
  fun s hs => (h s hs).resolve_left id

/-- What a sequence gives, as long as what follows its first step does not find back from a lost
state. -/
theorem givesUnless_bind_of {f : α → EStateM Failure σ β} {u : Except Failure α}
    {g : α → Except Failure β} [hstays : ∀ a, Moves (Stays lost) (f a)]
    (hx : W.GivesUnless lost x u) (hf : ∀ a, u = .ok a → W.GivesUnless lost (f a) (g a)) :
    W.GivesUnless lost (x >>= f) (u >>= g) := by
  intro s hs
  refine comes_bind (hx s hs) ?_ ?_
  · rintro a s' (hlost | ⟨hinv, rfl | ⟨e, -, ho⟩⟩)
    · exact .inl ((hstays a).moves s' hlost)
    · exact hf a rfl s' hinv
    · cases ho
  · rintro e s' (hlost | ⟨hinv, rfl | ⟨_, he, ho⟩⟩)
    · exact .inl hlost
    · exact .inr ⟨hinv, .inl rfl⟩
    · cases ho
      exact .inr ⟨hinv, .inr ⟨e, he, rfl⟩⟩

end World

end StubWriter.Run
