import Mathlib.Data.List.Forall2
import StubWriter.Proofs.Run
import StubWriter.Failure

/-!
# Outcomes of runs

What a run comes to, result or failure, without the state that it leaves. `Run.Ends I x P` says that
every run of `x` from a state of `I` leaves a state of `I` and comes to an outcome of `P`. Unlike
`Run.Ok` it also says that a run succeeds, if `P` does.

A world is a set of states together with the failures that are excused in it. A step gives a value
in a world if, from each of its states, it comes to that value or to an excused failure.

* `ends_bind`, `World.gives_bind`: sequences of steps.
* `Alike`, `Fixed`: steps that give one and the same value, each in a world of its own. What they
  give depends on nothing but what the worlds have in common.
* `Compositional`: properties that sequences of steps inherit from the steps.
-/

namespace StubWriter.Run

variable {ε σ α β : Type}

def outcome : EStateM.Result ε σ α → Except ε α
  | .ok a _ => .ok a
  | .error e _ => .error e

def stateAfter : EStateM.Result ε σ α → σ
  | .ok _ s => s
  | .error _ s => s

theorem eq_ok_of_outcome {r : EStateM.Result ε σ α} {a : α} (h : outcome r = .ok a) :
    r = .ok a (stateAfter r) := by
  cases r <;> cases h
  rfl

theorem eq_error_of_outcome {r : EStateM.Result ε σ α} {e : ε} (h : outcome r = .error e) :
    r = .error e (stateAfter r) := by
  cases r <;> cases h
  rfl

/-- What the run of `x` from `s` comes to and what it leaves satisfy `P`. -/
def Comes (x : EStateM ε σ α) (s : σ) (P : Except ε α → σ → Prop) : Prop :=
  P (outcome (x s)) (stateAfter (x s))

theorem Comes.of_error {x : EStateM ε σ α} {s s' : σ} {e : ε} {P : Except ε α → σ → Prop}
    (h : Comes x s P) (hx : x s = .error e s') : P (.error e) s' := by
  unfold Comes at h
  rwa [hx] at h

theorem comes_bind {x : EStateM ε σ α} {f : α → EStateM ε σ β} {s : σ}
    {Q : Except ε α → σ → Prop} {P : Except ε β → σ → Prop} (hx : Comes x s Q)
    (hf : ∀ a s', Q (.ok a) s' → Comes (f a) s' P)
    (herror : ∀ e s', Q (.error e) s' → P (.error e) s') : Comes (x >>= f) s P := by
  unfold Comes at hx
  change P (outcome (EStateM.bind x f s)) (stateAfter (EStateM.bind x f s))
  unfold EStateM.bind
  cases hrun : x s with
  | ok a s' =>
    rw [hrun] at hx
    exact hf a s' hx
  | error e s' =>
    rw [hrun] at hx
    exact herror e s' hx

theorem comes_mono {x : EStateM ε σ α} {s : σ} {P Q : Except ε α → σ → Prop} (h : Comes x s P)
    (hPQ : ∀ o s', P o s' → Q o s') : Comes x s Q :=
  hPQ _ _ h

theorem comes_and {x : EStateM ε σ α} {s : σ} {P Q : Except ε α → σ → Prop} (hP : Comes x s P)
    (hQ : Comes x s Q) : Comes x s fun o s' => P o s' ∧ Q o s' :=
  ⟨hP, hQ⟩

theorem comes_get_bind {f : σ → EStateM ε σ α} {s : σ} {P : Except ε α → σ → Prop}
    (h : Comes (f s) s P) : Comes (get >>= f) s P :=
  h

/-- Every run of `x` from a state of `I` leaves a state of `I` and comes to an outcome of `P`. -/
def Ends (I : σ → Prop) (x : EStateM ε σ α) (P : Except ε α → Prop) : Prop :=
  ∀ s, I s → I (stateAfter (x s)) ∧ P (outcome (x s))

section Ends

variable {I : σ → Prop} {x : EStateM ε σ α} {P Q : Except ε α → Prop}

theorem ends_mono (h : Ends I x P) (hPQ : ∀ o, P o → Q o) : Ends I x Q :=
  fun s hs => ⟨(h s hs).1, hPQ _ (h s hs).2⟩

theorem ends_pure {a : α} (h : P (.ok a)) : Ends I (pure a : EStateM ε σ α) P :=
  fun _ hs => ⟨hs, h⟩

theorem ends_throw {e : ε} (h : P (.error e)) : Ends I (throw e : EStateM ε σ α) P :=
  fun _ hs => ⟨hs, h⟩

theorem ends_bind {f : α → EStateM ε σ β} {R : Except ε β → Prop} (hx : Ends I x Q)
    (hf : ∀ a, Q (.ok a) → Ends I (f a) R) (herror : ∀ e, Q (.error e) → R (.error e)) :
    Ends I (x >>= f) R := by
  intro s hs
  obtain ⟨hI, hQ⟩ := hx s hs
  change I (stateAfter (EStateM.bind x f s)) ∧ R (outcome (EStateM.bind x f s))
  unfold EStateM.bind
  cases hrun : x s with
  | ok a s' =>
    rw [hrun] at hI hQ
    exact hf a hQ s' hI
  | error e s' =>
    rw [hrun] at hI hQ
    exact ⟨hI, herror e hQ⟩

/-- What follows a look at the state may use all that is known of it. -/
theorem ends_get_bind {f : σ → EStateM ε σ α}
    (h : ∀ s, I s → I (stateAfter (f s s)) ∧ P (outcome (f s s))) : Ends I (get >>= f) P :=
  h

theorem ends_modify {f : σ → σ} {P : Except ε Unit → Prop} (hf : ∀ s, I s → I (f s))
    (h : P (.ok ())) : Ends I (modify f : EStateM ε σ Unit) P :=
  fun s hs => ⟨hf s hs, h⟩

/-- A handler takes over what failures leave. -/
theorem ends_tryCatch {handle : ε → EStateM ε σ α} (hx : Ends I x Q)
    (hok : ∀ a, Q (.ok a) → P (.ok a)) (hh : ∀ e, Q (.error e) → Ends I (handle e) P) :
    Ends I (tryCatch x handle) P := by
  intro s hs
  obtain ⟨hI, hQ⟩ := hx s hs
  change I (stateAfter (EStateM.tryCatch x handle s)) ∧
    P (outcome (EStateM.tryCatch x handle s))
  unfold EStateM.tryCatch
  cases hrun : x s with
  | ok a s' =>
    rw [hrun] at hI hQ
    exact ⟨hI, hok a hQ⟩
  | error e s' =>
    rw [hrun] at hI hQ
    exact hh e hQ s' hI

end Ends

/-! ## Worlds -/

/-- States that belong together, and failures that say nothing about the step that meets them. -/
structure World (σ : Type) where
  inv : σ → Prop
  excused : Failure → Prop

namespace World

variable {W : World σ} {x : EStateM Failure σ α}

/-- The value `v`, or an excused failure in its place. -/
def Near (W : World σ) (v o : Except Failure α) : Prop :=
  o = v ∨ ∃ f, W.excused f ∧ o = .error f

def Gives (W : World σ) (x : EStateM Failure σ α) (v : Except Failure α) : Prop :=
  Ends W.inv x (W.Near v)

theorem gives_of_ends {v : Except Failure α} (h : Ends W.inv x (· = v)) : W.Gives x v :=
  ends_mono h fun _ => .inl

/-- Where nothing is excused, what a step gives is what it comes to. -/
theorem ends_of_gives {v : Except Failure α} (hW : ∀ f, ¬ W.excused f) (h : W.Gives x v) :
    Ends W.inv x (· = v) :=
  ends_mono h fun _ ho => ho.resolve_right fun ⟨f, hf, _⟩ => hW f hf

/-- Where nothing is excused, a step gives one value. -/
theorem Gives.unique {v v' : Except Failure α} (hW : ∀ f, ¬ W.excused f) {s : σ} (hs : W.inv s)
    (h : W.Gives x v) (h' : W.Gives x v') : v = v' :=
  ((ends_of_gives hW h s hs).2).symm.trans (ends_of_gives hW h' s hs).2

theorem gives_pure {a : α} : W.Gives (pure a) (.ok a) :=
  ends_pure (.inl rfl)

theorem gives_throw {f : Failure} : W.Gives (throw f : EStateM Failure σ α) (.error f) :=
  ends_throw (.inl rfl)

theorem gives_bind {f : α → EStateM Failure σ β} {a : α} {v : Except Failure β}
    (hx : W.Gives x (.ok a)) (hf : W.Gives (f a) v) : W.Gives (x >>= f) v := by
  refine ends_bind hx (fun b hb => ?_) fun e he => ?_
  · obtain h | ⟨f, -, h⟩ := hb
    · cases h
      exact hf
    · cases h
  · obtain h | ⟨f, hf, h⟩ := he
    · cases h
    · cases h
      exact .inr ⟨e, hf, rfl⟩

theorem gives_bind_error {f : α → EStateM Failure σ β} {e : Failure}
    (hx : W.Gives x (.error e)) : W.Gives (x >>= f) (.error e) := by
  refine ends_bind hx (fun b hb => ?_) fun d hd => ?_
  · obtain h | ⟨f, -, h⟩ := hb <;> cases h
  · obtain h | ⟨f, hf, h⟩ := hd
    · cases h
      exact .inl rfl
    · cases h
      exact .inr ⟨d, hf, rfl⟩

/-- A sequence gives what its first step and, if that succeeds, its second one give. -/
theorem gives_bind_of {f : α → EStateM Failure σ β} {u : Except Failure α}
    {g : α → Except Failure β} (hx : W.Gives x u) (hf : ∀ a, u = .ok a → W.Gives (f a) (g a)) :
    W.Gives (x >>= f) (u >>= g) := by
  cases u with
  | error e => exact gives_bind_error hx
  | ok a => exact gives_bind hx (hf a rfl)

/-- What follows a step that gives a result may end in anything that excused failures satisfy. -/
theorem ends_bind_of_gives {f : α → EStateM Failure σ β} {a : α} {P : Except Failure β → Prop}
    (hx : W.Gives x (.ok a)) (hf : Ends W.inv (f a) P)
    (hexcused : ∀ e, W.excused e → P (.error e)) : Ends W.inv (x >>= f) P := by
  refine ends_bind hx (fun b hb => ?_) fun e he => ?_
  · obtain h | ⟨f, -, h⟩ := hb
    · cases h
      exact hf
    · cases h
  · obtain h | ⟨f, hf, h⟩ := he
    · cases h
    · cases h
      exact hexcused e hf

theorem gives_modify {f : σ → σ} (hf : ∀ s, W.inv s → W.inv (f s)) :
    W.Gives (modify f : EStateM Failure σ Unit) (.ok ()) :=
  ends_modify hf (.inl rfl)

/-- What follows a look at the state may differ from state to state. -/
theorem gives_get_bind {f : σ → EStateM Failure σ α} {v : Except Failure α}
    (h : ∀ s, W.inv s → W.Gives (f s) v) : W.Gives (get >>= f) v :=
  ends_get_bind fun s hs => h s hs s hs

theorem gives_mapM {xs : List α} {f : α → EStateM Failure σ β} {g : α → β}
    (h : ∀ a ∈ xs, W.Gives (f a) (.ok (g a))) : W.Gives (xs.mapM f) (.ok (xs.map g)) := by
  induction xs with
  | nil => exact gives_pure
  | cons a as ih =>
    rw [List.mapM_cons]
    refine gives_bind (h a List.mem_cons_self) ?_
    exact gives_bind (ih fun b hb => h b (List.mem_cons_of_mem _ hb)) gives_pure

theorem gives_mapM_map {γ : Type} {xs : List γ} {g : γ → α} {f : α → EStateM Failure σ β}
    {h : γ → β} (hf : ∀ c ∈ xs, W.Gives (f (g c)) (.ok (h c))) :
    W.Gives ((xs.map g).mapM f) (.ok (xs.map h)) := by
  rw [List.mapM_map]
  exact gives_mapM hf

/-- A step that succeeds, with whatever result, or is excused. -/
def Succeeds (W : World σ) (x : EStateM Failure σ α) : Prop :=
  Ends W.inv x fun o => (∃ a, o = .ok a) ∨ ∃ f, W.excused f ∧ o = .error f

theorem Gives.succeeds {a : α} (h : W.Gives x (.ok a)) : W.Succeeds x :=
  ends_mono h fun _ ho => ho.imp_left fun ho => ⟨a, ho⟩

/-- A handler that lets excused failures pass. -/
theorem gives_tryCatch {handle : Failure → EStateM Failure σ α} {u v : Except Failure α}
    (hx : W.Gives x u) (hok : ∀ a, u = .ok a → v = .ok a)
    (herror : ∀ f, u = .error f → W.Gives (handle f) v)
    (hexcused : ∀ f, W.excused f → handle f = throw f) : W.Gives (tryCatch x handle) v := by
  refine ends_tryCatch hx (fun a ha => ?_) fun f hf => ?_
  · obtain h | ⟨e, -, h⟩ := ha
    · exact .inl (hok a h.symm).symm
    · cases h
  · obtain h | ⟨e, he, h⟩ := hf
    · exact herror f h.symm
    · cases h
      rw [hexcused f he]
      exact ends_throw (.inr ⟨f, he, rfl⟩)

end World

/-! ## Steps that come to the same -/

section Alike

variable {ι : Type} {σ : ι → Type} {W : (i : ι) → World (σ i)}

/-- Steps, one in each of some worlds, that give one and the same value, a failure or a result that
satisfies `P`. -/
def Alike (W : (i : ι) → World (σ i)) (x : (i : ι) → EStateM Failure (σ i) α) (P : α → Prop) :
    Prop :=
  ∃ v, (∀ a, v = .ok a → P a) ∧ ∀ i, (W i).Gives (x i) v

/-- Steps that give one and the same value, whatever it is. -/
def Fixed (W : (i : ι) → World (σ i)) (x : (i : ι) → EStateM Failure (σ i) α) : Prop :=
  Alike W x fun _ => True

theorem fixed_of_gives {x : (i : ι) → EStateM Failure (σ i) α} (v : Except Failure α)
    (h : ∀ i, (W i).Gives (x i) v) : Fixed W x :=
  ⟨v, fun _ _ => trivial, h⟩

theorem alike_pure {P : α → Prop} {a : α} (h : P a) : Alike W (fun _ => pure a) P :=
  ⟨.ok a, fun _ hb => Except.ok.inj hb ▸ h, fun _ => World.gives_pure⟩

theorem alike_throw {P : α → Prop} (f : Failure) :
    Alike W (fun _ => (throw f : EStateM Failure _ α)) P :=
  ⟨.error f, fun _ hb => (nomatch hb), fun _ => World.gives_throw⟩

theorem alike_bind {x : (i : ι) → EStateM Failure (σ i) α}
    {f : (i : ι) → α → EStateM Failure (σ i) β} {P : α → Prop} {Q : β → Prop} (hx : Alike W x P)
    (hf : ∀ a, P a → Alike W (fun i => f i a) Q) : Alike W (fun i => x i >>= f i) Q := by
  obtain ⟨u, hP, hu⟩ := hx
  cases u with
  | error e => exact ⟨.error e, fun _ hb => (nomatch hb), fun i => World.gives_bind_error (hu i)⟩
  | ok a =>
    obtain ⟨v, hQ, hv⟩ := hf a (hP a rfl)
    exact ⟨v, hQ, fun i => World.gives_bind (hu i) (hv i)⟩

/-- A walk through a list; `R` relates each element to what is made of it. -/
theorem alike_mapM {R : α → β → Prop} {xs : List α} {f : (i : ι) → α → EStateM Failure (σ i) β}
    (hf : ∀ a ∈ xs, Alike W (fun i => f i a) (R a)) :
    Alike W (fun i => xs.mapM (f i)) (List.Forall₂ R xs) := by
  induction xs with
  | nil => exact alike_pure .nil
  | cons a as ih =>
    simp only [List.mapM_cons]
    refine alike_bind (hf a List.mem_cons_self) fun b hb => ?_
    refine alike_bind (ih fun c hc => hf c (List.mem_cons_of_mem _ hc)) fun bs hbs => ?_
    exact alike_pure (.cons hb hbs)

theorem fixed_pure (a : α) : Fixed W fun _ => pure a :=
  alike_pure trivial

theorem fixed_bind {x : (i : ι) → EStateM Failure (σ i) α}
    {f : (i : ι) → α → EStateM Failure (σ i) β} (hx : Fixed W x)
    (hf : ∀ a, Fixed W fun i => f i a) : Fixed W fun i => x i >>= f i :=
  alike_bind hx fun a _ => hf a

/-- Steps that succeed in all worlds, with one and the same result. -/
def Settled (W : (i : ι) → World (σ i)) (x : (i : ι) → EStateM Failure (σ i) α) : Prop :=
  ∃ a, ∀ i, (W i).Gives (x i) (.ok a)

end Alike

/-! ## Properties of sequences -/

/-- A property of steps that holds of a sequence of steps as soon as it holds of each of them. -/
structure Compositional (C : (α : Type) → EStateM ε σ α → Prop) : Prop where
  pure : ∀ {α : Type} (a : α), C α (pure a)
  bind : ∀ {α β : Type} {x : EStateM ε σ α} {f : α → EStateM ε σ β}, C α x → (∀ a, C β (f a)) →
    C β (x >>= f)

theorem Compositional.mapM {C : (α : Type) → EStateM ε σ α → Prop} (hC : Compositional C)
    {xs : List α} {f : α → EStateM ε σ β} (hf : ∀ a ∈ xs, C β (f a)) :
    C (List β) (xs.mapM f) := by
  induction xs with
  | nil => exact hC.pure []
  | cons a as ih =>
    rw [List.mapM_cons]
    refine hC.bind (hf a List.mem_cons_self) fun b => ?_
    exact hC.bind (ih fun c hc => hf c (List.mem_cons_of_mem _ hc)) fun bs => hC.pure _

theorem fixed_compositional {ι : Type} (W : ι → World σ) :
    Compositional fun _ x => Fixed W fun _ => x :=
  ⟨fixed_pure, fixed_bind⟩

theorem succeeds_compositional (W : World σ) : Compositional fun _ x => W.Succeeds x := by
  refine ⟨fun a => ends_pure (.inl ⟨a, rfl⟩), fun {α β x f} hx hf => ?_⟩
  refine ends_bind hx (fun a _ => hf a) fun e he => ?_
  rcases he with ⟨a, he⟩ | ⟨f, hf, he⟩
  · cases he
  · cases he
    exact .inr ⟨e, hf, rfl⟩

theorem settled_compositional {ι : Type} (W : ι → World σ) :
    Compositional fun _ x => Settled W fun _ => x := by
  refine ⟨fun a => ⟨a, fun _ => World.gives_pure⟩, fun ⟨a, ha⟩ hf => ?_⟩
  obtain ⟨b, hb⟩ := hf a
  exact ⟨b, fun i => World.gives_bind (ha i) (hb i)⟩

end StubWriter.Run
