import Mathlib.Data.List.Forall2

/-!
# Successful runs

A run of a step starts in a state and ends with a result or a failure. `Run.Ok x s P` says of the
run of `x` from `s` that its result and the state it leaves satisfy `P` if it succeeds. Nothing is
said of a run that fails.

* `ok_bind`, `ok_mapM`: what a sequence of steps leaves, from what each of them leaves.
-/

namespace StubWriter.Run

variable {ε σ α β : Type}

/-- Every successful run of `x` from `s` ends in a result and a state that satisfy `P`. -/
def Ok (x : EStateM ε σ α) (s : σ) (P : α → σ → Prop) : Prop :=
  ∀ a s', x s = .ok a s' → P a s'

/-- A successful run as the strongest thing known of itself. -/
theorem ok_self (x : EStateM ε σ α) (s : σ) : Ok x s fun a s' => x s = .ok a s' :=
  fun _ _ h => h

theorem ok_mono {x : EStateM ε σ α} {s : σ} {P Q : α → σ → Prop} (h : Ok x s P)
    (hPQ : ∀ a s', P a s' → Q a s') : Ok x s Q :=
  fun a s' ha => hPQ a s' (h a s' ha)

theorem ok_pure {s : σ} {P : α → σ → Prop} {a : α} (h : P a s) :
    Ok (pure a : EStateM ε σ α) s P := by
  intro b s' hb
  cases hb
  exact h

theorem ok_throw {s : σ} {P : α → σ → Prop} (e : ε) : Ok (throw e : EStateM ε σ α) s P := by
  intro b s' hb
  cases hb

theorem ok_bind {x : EStateM ε σ α} {f : α → EStateM ε σ β} {s : σ} {Q : α → σ → Prop}
    {P : β → σ → Prop} (hx : Ok x s Q) (hf : ∀ a s', Q a s' → Ok (f a) s' P) :
    Ok (x >>= f) s P := by
  intro b s'' hb
  change EStateM.bind x f s = _ at hb
  unfold EStateM.bind at hb
  cases h : x s with
  | error e s' => rw [h] at hb; cases hb
  | ok a s' => rw [h] at hb; exact hf a s' (hx a s' h) b s'' hb

theorem ok_get_bind {f : σ → EStateM ε σ β} {s : σ} {P : β → σ → Prop} (h : Ok (f s) s P) :
    Ok (get >>= f) s P :=
  h

theorem ok_modify_bind {f : σ → σ} {g : Unit → EStateM ε σ β} {s : σ} {P : β → σ → Prop}
    (h : Ok (g ()) (f s) P) : Ok (modify f >>= g) s P :=
  h

/-- A handler takes over with its own runs. -/
theorem ok_tryCatch {x : EStateM ε σ α} {handle : ε → EStateM ε σ α} {s : σ} {P : α → σ → Prop}
    (hx : Ok x s P) (hh : ∀ e s', Ok (handle e) s' P) : Ok (tryCatch x handle) s P := by
  intro a s'' ha
  change EStateM.tryCatch x handle s = _ at ha
  unfold EStateM.tryCatch at ha
  cases h : x s with
  | error e s' => rw [h] at ha; exact hh e _ a s'' ha
  | ok b s' => rw [h] at ha; cases ha; exact hx _ _ h

/-- A walk through a list: `I` holds between the elements, and `R` relates each element to what was
made of it. -/
theorem ok_mapM (I : σ → Prop) (R : α → β → Prop) {xs : List α} {f : α → EStateM ε σ β} {s : σ}
    (hs : I s) (hf : ∀ a ∈ xs, ∀ s, I s → Ok (f a) s fun b s' => R a b ∧ I s') :
    Ok (xs.mapM f) s fun ys s' => List.Forall₂ R xs ys ∧ I s' := by
  induction xs generalizing s with
  | nil => exact ok_pure ⟨.nil, hs⟩
  | cons a as ih =>
    rw [List.mapM_cons]
    refine ok_bind (hf a List.mem_cons_self s hs) fun b s₁ ⟨hab, h₁⟩ => ?_
    refine ok_bind (ih h₁ fun c hc => hf c (List.mem_cons_of_mem _ hc)) fun bs s₂ ⟨hbs, h₂⟩ => ?_
    exact ok_pure ⟨.cons hab hbs, h₂⟩

theorem ok_mapM_length {xs : List α} {f : α → EStateM ε σ β} {s : σ} :
    Ok (xs.mapM f) s fun ys _ => ys.length = xs.length := by
  have hall : Ok (xs.mapM f) s fun ys _ => List.Forall₂ (fun _ _ => True) xs ys ∧ True :=
    ok_mapM (fun _ => True) (fun _ _ => True) trivial fun _ _ _ _ =>
      ok_mono (ok_self _ _) fun _ _ _ => ⟨trivial, trivial⟩
  exact ok_mono hall fun _ _ h => h.1.length_eq.symm

theorem forall_of_forall₂ {P : β → Prop} {xs : List α} {ys : List β}
    (h : List.Forall₂ (fun _ b => P b) xs ys) : ∀ y ∈ ys, P y := by
  induction h with
  | nil => exact fun y hy => absurd hy List.not_mem_nil
  | cons hb _ ih => exact List.forall_mem_cons.mpr ⟨hb, ih⟩

/-- A walk through a list all of whose results satisfy `P`. -/
theorem ok_mapM_forall (P : β → Prop) {xs : List α} {f : α → EStateM ε σ β} {s : σ}
    (hf : ∀ a ∈ xs, ∀ s, Ok (f a) s fun b _ => P b) :
    Ok (xs.mapM f) s fun ys _ => ∀ y ∈ ys, P y := by
  have hall : Ok (xs.mapM f) s fun ys _ => List.Forall₂ (fun _ b => P b) xs ys ∧ True :=
    ok_mapM (fun _ => True) (fun _ b => P b) trivial fun a ha s₁ _ =>
      ok_mono (hf a ha s₁) fun _ _ hb => ⟨hb, trivial⟩
  exact ok_mono hall fun _ _ h => forall_of_forall₂ h.1

end StubWriter.Run
