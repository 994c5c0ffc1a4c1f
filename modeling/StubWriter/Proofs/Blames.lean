import StubWriter.Proofs.Outcome

/-!
# What steps can fail for

A step blames `P` if all its failures, from whatever state, satisfy `P`. A program does so if its
steps do, so the property is a class, and programs have it by the way they are written.

* `Blames.blames`: a failure of a step.
* `blames_compositional`: a sequence of steps.
-/

namespace StubWriter.Run

variable {ε σ α β : Type}

/-- A step all of whose failures satisfy `P`. -/
class Blames (P : ε → Prop) (x : EStateM ε σ α) : Prop where
  blames : ∀ s e s', x s = .error e s' → P e

variable {P : ε → Prop}

theorem Blames.comes {x : EStateM ε σ α} (h : Blames P x) (s : σ) :
    Comes x s fun o _ => ∀ e, o = .error e → P e := by
  intro e he
  exact h.blames s e _ (eq_error_of_outcome he)

instance (a : α) : Blames P (pure a : EStateM ε σ α) :=
  ⟨nofun⟩

instance : Blames P (get : EStateM ε σ σ) :=
  ⟨nofun⟩

instance (f : σ → σ) : Blames P (modify f : EStateM ε σ Unit) :=
  ⟨nofun⟩

theorem blames_throw {e : ε} (he : P e) : Blames P (throw e : EStateM ε σ α) := by
  refine ⟨fun s e' s' h => ?_⟩
  cases h
  exact he

instance (e : ε) [he : Fact (P e)] : Blames P (throw e : EStateM ε σ α) :=
  blames_throw he.out

theorem blames_bind {x : EStateM ε σ α} {f : α → EStateM ε σ β} (hx : Blames P x)
    (hf : ∀ a, Blames P (f a)) : Blames P (x >>= f) := by
  refine ⟨fun s e s' h => ?_⟩
  change EStateM.bind x f s = _ at h
  unfold EStateM.bind at h
  cases hrun : x s with
  | ok a s₁ =>
    rw [hrun] at h
    exact (hf a).blames s₁ e s' h
  | error e' s₁ =>
    rw [hrun] at h
    cases h
    exact hx.blames s e s' hrun

instance (x : EStateM ε σ α) (f : α → EStateM ε σ β) [Blames P x] [∀ a, Blames P (f a)] :
    Blames P (x >>= f) :=
  blames_bind inferInstance inferInstance

instance (p : Prop) [Decidable p] (x y : EStateM ε σ α) [Blames P x] [Blames P y] :
    Blames P (if p then x else y) := by
  split <;> infer_instance

/-- What a handler lets through is a failure of its own, or one of the step. -/
theorem blames_tryCatch {x : EStateM ε σ α} {handle : ε → EStateM ε σ α} (hx : Blames P x)
    (hh : ∀ e, P e → Blames P (handle e)) : Blames P (tryCatch x handle) := by
  refine ⟨fun s e s' h => ?_⟩
  change EStateM.tryCatch x handle s = _ at h
  unfold EStateM.tryCatch at h
  cases hrun : x s with
  | ok a s₁ =>
    rw [hrun] at h
    cases h
  | error e' s₁ =>
    rw [hrun] at h
    exact (hh e' (hx.blames s e' s₁ hrun)).blames s₁ e s' h

theorem blames_compositional (P : ε → Prop) :
    Compositional fun α (x : EStateM ε σ α) => Blames P x :=
  ⟨fun _ => inferInstance, blames_bind⟩

instance (f : α → EStateM ε σ β) [∀ a, Blames P (f a)] (as : List α) : Blames P (as.mapM f) :=
  (blames_compositional P).mapM fun _ _ => inferInstance

end StubWriter.Run
