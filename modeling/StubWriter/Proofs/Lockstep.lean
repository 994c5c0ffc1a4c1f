import StubWriter.Proofs.Outcome

/-!
# Runs in step

Two programs are in step if, from states that belong together, they come to results or to failures
that belong together and leave states that do. The first program may also come to a failure that is
excused; then nothing is said of the second one.

* `Link`: what belongs together.
* `InStep`: programs in step, with a lemma for each way of putting programs together.
-/

namespace StubWriter.Run

/-- What belongs together in two runs, and the failures of the first one that are excused. -/
structure Link (σ σ' : Type) where
  states : σ → σ' → Prop
  failures : Failure → Failure → Prop
  excused : Failure → Prop

/-- Outcomes that belong together. -/
inductive Meets {α β : Type} (F : Failure → Failure → Prop) (V : α → β → Prop) :
    Except Failure α → Except Failure β → Prop
  | ok {a : α} {b : β} : V a b → Meets F V (.ok a) (.ok b)
  | error {f g : Failure} : F f g → Meets F V (.error f) (.error g)

theorem Meets.mono {α β : Type} {F : Failure → Failure → Prop} {V V' : α → β → Prop}
    {o : Except Failure α} {o' : Except Failure β} (h : Meets F V o o')
    (hV : ∀ a b, o = .ok a → V a b → V' a b) : Meets F V' o o' := by
  cases h with
  | ok h => exact .ok (hV _ _ rfl h)
  | error h => exact .error h

namespace Link

variable {σ σ' : Type} (L : Link σ σ')

/-- Outcomes that belong together, or an excused failure in the place of the first one. -/
def Meets {α β : Type} (V : α → β → Prop) (o : Except Failure α) (o' : Except Failure β) : Prop :=
  (∃ f, L.excused f ∧ o = .error f) ∨ Run.Meets L.failures V o o'

/-- From states that belong together the programs come to outcomes that do and leave such states, or
the first one comes to an excused failure. -/
def InStep {α β : Type} (x : EStateM Failure σ α) (y : EStateM Failure σ' β) (V : α → β → Prop) :
    Prop :=
  ∀ s s', L.states s s' → (∃ f, L.excused f ∧ outcome (x s) = .error f) ∨
    Run.Meets L.failures V (outcome (x s)) (outcome (y s')) ∧
      L.states (stateAfter (x s)) (stateAfter (y s'))

/-- Failures belong together with themselves, and no handler of failures to find a type takes over
after one that is excused. -/
structure Fair : Prop where
  refl : ∀ f, L.failures f f
  isNotFound : ∀ f g, L.failures f g → g.isNotFound = f.isNotFound
  excused : ∀ f, L.excused f → f.isNotFound = false

variable {L} {α β γ δ : Type} {x : EStateM Failure σ α} {y : EStateM Failure σ' β}
  {V : α → β → Prop}

theorem meets_ok {a : α} {b : β} (h : V a b) : L.Meets V (.ok a) (.ok b) :=
  .inr (.ok h)

theorem meets_excused {f : Failure} (h : L.excused f) (o : Except Failure β) :
    L.Meets V (.error f) o :=
  .inl ⟨f, h, rfl⟩

theorem Fair.meets_self (hL : L.Fair) (o : Except Failure α) : L.Meets Eq o o := by
  cases o with
  | ok a => exact meets_ok rfl
  | error f => exact .inr (.error (hL.refl f))

theorem meets_bind {o : Except Failure α} {o' : Except Failure β} {f : α → Except Failure γ}
    {g : β → Except Failure δ} {R : γ → δ → Prop} (h : L.Meets V o o')
    (hf : ∀ a b, o = .ok a → V a b → L.Meets R (f a) (g b)) : L.Meets R (o >>= f) (o' >>= g) := by
  obtain ⟨e, he, rfl⟩ | hmeets := h
  · exact meets_excused he _
  · cases hmeets with
    | ok hV => exact hf _ _ rfl hV
    | error hF => exact .inr (.error hF)

/-- Whatever is known of the results of the first program may be used. -/
theorem InStep.and_ok {P : α → Prop} (h : L.InStep x y V) (hx : ∀ s a s', x s = .ok a s' → P a) :
    L.InStep x y fun a b => V a b ∧ P a :=
  fun s s' hs => (h s s' hs).imp_right fun ⟨ho, hstates⟩ =>
    ⟨ho.mono fun a _ ha hV => ⟨hV, hx s a _ (eq_ok_of_outcome ha)⟩, hstates⟩

theorem inStep_pure {a : α} {b : β} (h : V a b) : L.InStep (pure a) (pure b) V :=
  fun _ _ hs => .inr ⟨.ok h, hs⟩

theorem inStep_throw {f g : Failure} (h : L.failures f g) :
    L.InStep (throw f : EStateM Failure σ α) (throw g : EStateM Failure σ' β) V :=
  fun _ _ hs => .inr ⟨.error h, hs⟩

theorem inStep_excused {f : Failure} (h : L.excused f) :
    L.InStep (throw f : EStateM Failure σ α) y V :=
  fun _ _ _ => .inl ⟨f, h, rfl⟩

/-- What the two runs come to. -/
theorem InStep.cases (h : L.InStep x y V) {s : σ} {s' : σ'} (hs : L.states s s') :
    (∃ f t, x s = .error f t ∧ L.excused f) ∨
      (∃ a t b t', x s = .ok a t ∧ y s' = .ok b t' ∧ V a b ∧ L.states t t') ∨
        ∃ f t g t', x s = .error f t ∧ y s' = .error g t' ∧ L.failures f g ∧ L.states t t' := by
  obtain ⟨f, hf, ho⟩ | ⟨hmeets, hstates⟩ := h s s' hs
  · exact .inl ⟨f, _, eq_error_of_outcome ho, hf⟩
  · generalize ho : outcome (x s) = o at hmeets
    generalize ho' : outcome (y s') = o' at hmeets
    cases hmeets with
    | ok hV =>
      exact .inr (.inl ⟨_, _, _, _, eq_ok_of_outcome ho, eq_ok_of_outcome ho', hV, hstates⟩)
    | error hF =>
      exact .inr (.inr ⟨_, _, _, _, eq_error_of_outcome ho, eq_error_of_outcome ho', hF, hstates⟩)

theorem inStep_bind {f : α → EStateM Failure σ γ} {g : β → EStateM Failure σ' δ}
    {R : γ → δ → Prop} (h : L.InStep x y V) (hf : ∀ a b, V a b → L.InStep (f a) (g b) R) :
    L.InStep (x >>= f) (y >>= g) R := by
  intro s s' hs
  change (∃ e, L.excused e ∧ outcome (EStateM.bind x f s) = .error e) ∨
    Run.Meets L.failures R (outcome (EStateM.bind x f s)) (outcome (EStateM.bind y g s')) ∧
      L.states (stateAfter (EStateM.bind x f s)) (stateAfter (EStateM.bind y g s'))
  unfold EStateM.bind
  obtain ⟨e, t, hx, he⟩ | ⟨a, t, b, t', hx, hy, hV, ht⟩ | ⟨e, t, e', t', hx, hy, hF, ht⟩ :=
    h.cases hs
  · rw [hx]
    exact .inl ⟨e, he, rfl⟩
  · rw [hx, hy]
    exact hf a b hV t t' ht
  · rw [hx, hy]
    exact .inr ⟨.error hF, ht⟩

/-- What follows a look at the states may use that they belong together. -/
theorem inStep_get_bind {f : σ → EStateM Failure σ α} {g : σ' → EStateM Failure σ' β}
    (h : ∀ s s', L.states s s' → L.InStep (f s) (g s') V) : L.InStep (get >>= f) (get >>= g) V :=
  fun s s' hs => h s s' hs s s' hs

theorem inStep_modify {f : σ → σ} {g : σ' → σ'} (h : ∀ s s', L.states s s' → L.states (f s) (g s')) :
    L.InStep (modify f) (modify g) fun _ _ => True :=
  fun s s' hs => .inr ⟨.ok trivial, h s s' hs⟩

/-- Handlers that let excused failures pass. -/
theorem inStep_tryCatch {handle : Failure → EStateM Failure σ α}
    {handle' : Failure → EStateM Failure σ' β} (h : L.InStep x y V)
    (hh : ∀ f g, L.failures f g → L.InStep (handle f) (handle' g) V)
    (hexcused : ∀ f, L.excused f → handle f = throw f) :
    L.InStep (tryCatch x handle) (tryCatch y handle') V := by
  intro s s' hs
  change (∃ e, L.excused e ∧ outcome (EStateM.tryCatch x handle s) = .error e) ∨
    Run.Meets L.failures V (outcome (EStateM.tryCatch x handle s))
        (outcome (EStateM.tryCatch y handle' s')) ∧
      L.states (stateAfter (EStateM.tryCatch x handle s))
        (stateAfter (EStateM.tryCatch y handle' s'))
  unfold EStateM.tryCatch
  obtain ⟨e, t, hx, he⟩ | ⟨a, t, b, t', hx, hy, hV, ht⟩ | ⟨e, t, e', t', hx, hy, hF, ht⟩ :=
    h.cases hs
  · rw [hx]
    dsimp only
    rw [hexcused e he]
    exact .inl ⟨e, he, rfl⟩
  · rw [hx, hy]
    exact .inr ⟨.ok hV, ht⟩
  · rw [hx, hy]
    exact hh e e' hF t t' ht

theorem inStep_mapM {as : List α} {bs : List β} {f : α → EStateM Failure σ γ}
    {g : β → EStateM Failure σ' δ} {R : γ → δ → Prop}
    (h : List.Forall₂ (fun a b => L.InStep (f a) (g b) R) as bs) :
    L.InStep (as.mapM f) (bs.mapM g) (List.Forall₂ R) := by
  induction h with
  | nil => exact inStep_pure .nil
  | cons hab _ ih =>
    rw [List.mapM_cons, List.mapM_cons]
    refine inStep_bind hab fun c d hcd => ?_
    exact inStep_bind ih fun cs ds hcds => inStep_pure (.cons hcd hcds)

theorem inStep_compositional (L : Link σ σ) : Compositional fun _ x => L.InStep x x Eq :=
  ⟨fun _ => inStep_pure rfl, fun hx hf => inStep_bind hx fun a _ hab => hab ▸ hf a⟩

end Link

end StubWriter.Run
