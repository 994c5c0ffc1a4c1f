import Mathlib.Data.Finset.Card
import StubWriter.TypeSupply
import StubWriter.Proofs.Run

/-!
# How deep a walk goes

A walk over a hierarchy is bounded by a depth. Suppose that there are types of finitely many names,
and that whatever changes the types that are held adds a name to them. Then there is a depth that is
enough: a walk that succeeds at any depth at all succeeds at this one, and comes to the same.

A path that does not end cannot be told from one that does by the names on it, since a type may be
replaced while the path goes on. But as long as nothing is learned on the way, a type that comes up
again is the same type, and leads on the same way.

* `Run.Redone`: a step that comes to what another one comes to, if that succeeds.
* `Walk.Lore`: what there is to learn from a supply of types.
* `Walk.Lore.Descent.enough`: a depth that is enough for a recursion along a hierarchy.
* `Walk.Lore.levels_enough`, `TypeSupply.resolve_enough`: and for the levels and the stub of a type.
-/

namespace StubWriter

namespace Run

variable {ε σ α β : Type}

/-- Every successful run of `x` from `s` ends in a result and a state that satisfy `P`, and `y` ends
in the same ones. -/
def Redone (x y : EStateM ε σ α) (s : σ) (P : α → σ → Prop) : Prop :=
  Ok x s fun a s' => y s = .ok a s' ∧ P a s'

variable {x y : EStateM ε σ α} {s : σ} {P Q : α → σ → Prop}

theorem redone_self (h : Ok x s P) : Redone x x s P :=
  fun a s' hrun => ⟨hrun, h a s' hrun⟩

theorem Redone.trans {z : EStateM ε σ α} (h : Redone x y s P) (h' : Redone y z s Q) :
    Redone x z s Q :=
  fun a s' hrun => h' a s' (h a s' hrun).1

theorem Redone.mono (h : Redone x y s P) (hPQ : ∀ a s', P a s' → Q a s') : Redone x y s Q :=
  ok_mono h fun a s' => And.imp_right (hPQ a s')

theorem redone_bind {f g : α → EStateM ε σ β} {R : β → σ → Prop} (h : Redone x y s P)
    (hf : ∀ a s', P a s' → Redone (f a) (g a) s' R) : Redone (x >>= f) (y >>= g) s R := by
  intro b s'' hrun
  change EStateM.bind x f s = _ at hrun
  change EStateM.bind y g s = _ ∧ _
  unfold EStateM.bind at hrun ⊢
  cases hx : x s with
  | error e s' =>
    rw [hx] at hrun
    cases hrun
  | ok a s' =>
    obtain ⟨hy, ha⟩ := h a s' hx
    rw [hx] at hrun
    rw [hy]
    exact hf a s' ha b s'' hrun

theorem redone_get_bind {f g : σ → EStateM ε σ β} {R : β → σ → Prop}
    (h : Redone (f s) (g s) s R) : Redone (get >>= f) (get >>= g) s R :=
  h

/-- A walk through a list, with `I` between the elements. -/
theorem redone_mapM (I : σ → Prop) {as : List α} {f g : α → EStateM ε σ β} (hs : I s)
    (hf : ∀ a ∈ as, ∀ s, I s → Redone (f a) (g a) s fun _ => I) :
    Redone (as.mapM f) (as.mapM g) s fun _ => I := by
  induction as generalizing s with
  | nil => exact redone_self (ok_pure hs)
  | cons a as ih =>
    rw [List.mapM_cons, List.mapM_cons]
    refine redone_bind (hf a List.mem_cons_self s hs) fun b s₁ h₁ => ?_
    refine redone_bind (ih h₁ fun c hc => hf c (List.mem_cons_of_mem _ hc)) fun bs s₂ h₂ => ?_
    exact redone_self (ok_pure h₂)

end Run

open Run

namespace Walk

variable {σ : Type}

/-- A type that is what its name stands for, and known to be. -/
def Holds (load : String → EStateM Failure σ TypeInfo) (w : Walk σ) (t : TypeInfo) : Prop :=
  load t.name w.types = .ok t w.types

/-- What there is to learn from a supply of types: the names of all types, and of those that are
held. Where `inv` holds, the types that are held change only when a name is added to them, and a
type that was loaded is held. -/
structure Lore (load : String → EStateM Failure σ TypeInfo) where
  inv : σ → Prop
  names : Finset String
  held : σ → Finset String
  held_subset : ∀ s, inv s → held s ⊆ names
  load_ok : ∀ name s, inv s → Ok (load name) s fun t s' =>
    inv s' ∧ (s' = s ∨ held s ⊂ held s') ∧ load t.name s' = .ok t s'
  named : ∀ t s, inv s → load t.name s = .ok t s → t.name ∈ names

namespace Lore

variable {load : String → EStateM Failure σ TypeInfo} (L : Lore load)

/-- The names of types whose methods were found. -/
def viewed (w : Walk σ) : Finset String :=
  L.names.filter fun name => (w.views.lookup name).isSome

/-- How much was learned. -/
def learned (w : Walk σ) : Nat :=
  (L.held w.types).card + (L.viewed w).card

/-- A walk that is left as it was, or has learned something. -/
structure Reaches (w w' : Walk σ) : Prop where
  inv : L.inv w'.types
  held : L.held w.types ⊆ L.held w'.types
  viewed : L.viewed w ⊆ L.viewed w'
  learns : w' = w ∨ L.learned w < L.learned w'

variable {L} {w w₁ w₂ : Walk σ}

theorem Reaches.refl (hw : L.inv w.types) : L.Reaches w w :=
  ⟨hw, Finset.Subset.refl _, Finset.Subset.refl _, .inl rfl⟩

theorem Reaches.trans (h : L.Reaches w w₁) (h' : L.Reaches w₁ w₂) : L.Reaches w w₂ where
  inv := h'.inv
  held := h.held.trans h'.held
  viewed := h.viewed.trans h'.viewed
  learns := by
    obtain rfl | hless := h.learns
    · exact h'.learns
    · exact .inr (h'.learns.elim (fun heq => heq ▸ hless) hless.trans)

/-- There is only so much to learn. -/
theorem learned_le (hw : L.inv w.types) : L.learned w ≤ 2 * L.names.card := by
  have hheld := Finset.card_le_card (L.held_subset _ hw)
  have hviewed : (L.viewed w).card ≤ L.names.card := Finset.card_filter_le _ _
  unfold learned
  omega

/-- To find the methods of a type for the first time is to learn something. -/
theorem Reaches.view (h : L.Reaches w w₁) {t : TypeInfo} (ht : t.name ∈ L.names)
    (hnew : w.views.lookup t.name = none) (methods : List Method) :
    L.Reaches w { w₁ with views := (t.name, methods) :: w₁.views } := by
  have hviewed : L.viewed w ⊂ L.viewed { w₁ with views := (t.name, methods) :: w₁.views } := by
    refine Finset.ssubset_iff_subset_ne.mpr ⟨fun name hname => ?_, fun heq => ?_⟩
    · obtain ⟨hmem, hsome⟩ := Finset.mem_filter.mp (h.viewed hname)
      refine Finset.mem_filter.mpr ⟨hmem, ?_⟩
      rw [List.lookup_cons]
      split
      · rfl
      · exact hsome
    · have hmem : t.name ∈ L.viewed w :=
        heq ▸ Finset.mem_filter.mpr ⟨ht, by rw [List.lookup_cons_self]; rfl⟩
      have hsome := (Finset.mem_filter.mp hmem).2
      rw [hnew] at hsome
      cases hsome
  have hless := Finset.card_lt_card hviewed
  have hle := Finset.card_le_card h.held
  exact ⟨h.inv, h.held, hviewed.subset, .inr (Nat.add_lt_add_of_le_of_lt hle hless)⟩

/-! ## Recursion along a hierarchy -/

variable {α : Type}

/-- A recursion from a type to others, each time one step less deep. Where the runs that it goes on
with are redone, so is the whole. -/
structure Descent (L : Lore load) (run : Nat → TypeInfo → Step σ α) : Prop where
  zero : ∀ t w, Ok (run 0 t) w fun _ _ => False
  succ : ∀ m n t w, L.inv w.types → Holds load w t →
    (∀ s w₁, L.Reaches w w₁ → Holds load w₁ s →
      Redone (run m s) (run n s) w₁ fun _ => L.Reaches w) →
    Redone (run (m + 1) t) (run (n + 1) t) w fun _ => L.Reaches w

/-- How deep a run has to go at most, if it is on its way from the types of some names, and has
learned nothing since it came to the first of them. -/
def room (L : Lore load) (w : Walk σ) (path : Finset String) : Nat :=
  L.names.card - path.card + L.names.card * (2 * L.names.card - L.learned w)

theorem room_insert {path : Finset String} {name : String} (hname : name ∉ path)
    (hnames : insert name path ⊆ L.names) : L.room w path = L.room w (insert name path) + 1 := by
  have hcard := Finset.card_le_card hnames
  rw [Finset.card_insert_of_notMem hname] at hcard
  rw [room, room, Finset.card_insert_of_notMem hname]
  omega

theorem room_learns (hw : L.inv w₁.types) (hlearns : L.learned w < L.learned w₁)
    (path : Finset String) : L.room w₁ ∅ ≤ L.room w path := by
  have hle := learned_le hw
  calc L.room w₁ ∅
      = L.names.card * (2 * L.names.card - L.learned w₁ + 1) := by
        rw [room, Finset.card_empty, Nat.mul_succ, Nat.sub_zero, Nat.add_comm]
    _ ≤ L.names.card * (2 * L.names.card - L.learned w) := Nat.mul_le_mul_left _ (by omega)
    _ ≤ L.room w path := Nat.le_add_left _ _

namespace Descent

variable {run : Nat → TypeInfo → Step σ α} (h : Descent L run)
include h

/-- What succeeds at some depth comes to the same at any greater depth. -/
theorem mono {m n : Nat} (hmn : m ≤ n) {t : TypeInfo} (hw : L.inv w.types) (ht : Holds load w t) :
    Redone (run m t) (run n t) w fun _ => L.Reaches w := by
  induction m generalizing n t w with
  | zero => exact ok_mono (h.zero t w) fun _ _ => False.elim
  | succ m ih =>
    obtain ⟨n, rfl⟩ : ∃ k, n = k + 1 := ⟨n - 1, by omega⟩
    refine h.succ m n t w hw ht fun s w₁ hw₁ hs => ?_
    exact (ih (Nat.le_of_succ_le_succ hmn) hw₁.inv hs).mono fun _ _ => hw₁.trans

/-- What succeeds at some depth needs no more than there is room for. The types on the way to `t`
need a greater depth than the run from `t`, so `t` is none of them. -/
theorem redone_room {n : Nat} {path : Finset String} {t : TypeInfo} (hw : L.inv w.types)
    (ht : Holds load w t) (hpath : path ⊆ L.names)
    (hdeeper : ∀ s, s.name ∈ path → Holds load w s → Ok (run n s) w fun _ _ => False) :
    Redone (run n t) (run (L.room w path) t) w fun _ => L.Reaches w := by
  induction n generalizing path t w with
  | zero => exact ok_mono (h.zero t w) fun _ _ => False.elim
  | succ n ih =>
    have hdeeper' : ∀ s, s.name ∈ path → Holds load w s → Ok (run n s) w fun _ _ => False :=
      fun s hs hheld a w' hrun =>
        hdeeper s hs hheld a w' (h.mono (Nat.le_succ n) hw hheld a w' hrun).1
    by_cases hless : Ok (run n t) w fun _ _ => False
    · by_cases hmem : t.name ∈ path
      · exact ok_mono (hdeeper t hmem ht) fun _ _ => False.elim
      have hpath' : insert t.name path ⊆ L.names :=
        Finset.insert_subset (L.named t w.types hw ht) hpath
      rw [room_insert hmem hpath']
      refine h.succ n _ t w hw ht fun s w₁ hw₁ hs => Redone.mono ?_ fun _ _ => hw₁.trans
      obtain rfl | hlearns := hw₁.learns
      · refine ih hw hs hpath' fun s' hs' hheld => ?_
        obtain hname | hs' := Finset.mem_insert.mp hs'
        · have hsame : load t.name w₁.types = .ok s' w₁.types := hname ▸ hheld
          cases ht.symm.trans hsame
          exact hless
        · exact hdeeper' s' hs' hheld
      · have hroom := ih hw₁.inv hs (Finset.empty_subset L.names) nofun
        exact hroom.trans (h.mono (room_learns hw₁.inv hlearns _) hw₁.inv hs)
    · intro a w' hrun
      obtain ⟨b, w'', hb⟩ : ∃ b w'', run n t w = .ok b w'' := by
        simpa [Ok] using hless
      have hsame := (h.mono (Nat.le_succ n) hw ht b w'' hb).1
      cases hrun.symm.trans hsame
      exact ih hw ht hpath hdeeper' a w' hb

/-- A depth that is enough. -/
theorem enough {d : Nat} (hd : L.names.card * (2 * L.names.card + 1) ≤ d) (n : Nat) {t : TypeInfo}
    (hw : L.inv w.types) (ht : Holds load w t) :
    Redone (run n t) (run d t) w fun _ => L.Reaches w := by
  refine (h.redone_room hw ht (Finset.empty_subset _) nofun).trans (h.mono ?_ hw ht)
  calc L.room w ∅
      ≤ L.names.card + L.names.card * (2 * L.names.card) :=
        Nat.add_le_add (Nat.sub_le _ _) (Nat.mul_le_mul_left _ (Nat.sub_le _ _))
    _ = L.names.card * (2 * L.names.card + 1) := by rw [Nat.mul_succ, Nat.add_comm]
    _ ≤ d := hd

end Descent

/-! ## Loading -/

theorem lift_ok (h : L.Reaches w w₁) (name : String) :
    Ok (lift (load name)) w₁ fun t w' => L.Reaches w w' ∧ Holds load w' t := by
  intro t w' hrun
  unfold lift at hrun
  cases hload : load name w₁.types with
  | error f s =>
    rw [hload] at hrun
    cases hrun
  | ok t' s =>
    rw [hload] at hrun
    cases hrun
    obtain ⟨hinv, hlearns, hholds⟩ := L.load_ok name w₁.types h.inv t s hload
    refine ⟨h.trans ?_, hholds⟩
    obtain rfl | hheld := hlearns
    · exact .refl h.inv
    · have hless := Finset.card_lt_card hheld
      exact ⟨hinv, hheld.subset, Finset.Subset.refl _, .inr (Nat.add_lt_add_right hless _)⟩

theorem supertype_ok (h : L.Reaches w w₁) (name : String) (sub : TypeInfo) (role : SupertypeRole) :
    Ok (supertype load name sub role) w₁ fun t w' => L.Reaches w w' ∧ Holds load w' t := by
  refine ok_tryCatch (lift_ok h name) fun f w' => ?_
  split <;> exact ok_throw _

theorem superclass?_ok (h : L.Reaches w w₁) (t : TypeInfo) :
    Ok (superclass? load t) w₁ fun s? w' => L.Reaches w w' ∧ ∀ s ∈ s?, Holds load w' s := by
  unfold superclass?
  split
  · exact ok_pure ⟨h, fun s hs => absurd hs (Option.not_mem_none s)⟩
  · refine ok_bind (supertype_ok h _ t .superclass) fun s w' hfound => ok_pure ⟨hfound.1, ?_⟩
    intro s' hs'
    cases hs'
    exact hfound.2

/-! ## Walks -/

section

variable {expose expose' : TypeInfo → Step σ (List Method)}
  (hexpose : ∀ s w₁, L.Reaches w w₁ → Holds load w₁ s →
    Redone (expose s) (expose' s) w₁ fun _ => L.Reaches w)
include hexpose

theorem inheritedFromSuperclass_redone (h : L.Reaches w w₁) (t : TypeInfo) :
    Redone (inheritedFromSuperclass load expose t) (inheritedFromSuperclass load expose' t) w₁
      fun _ => L.Reaches w := by
  refine redone_bind (redone_self (superclass?_ok h t)) fun s? w₂ ⟨hw₂, hs⟩ => ?_
  cases s? with
  | none => exact redone_self (ok_pure hw₂)
  | some s =>
    refine redone_bind (hexpose s w₂ hw₂ (hs s rfl)) fun ms w₃ hw₃ => ?_
    exact redone_self (ok_pure hw₃)

theorem inheritedFromInterfaces_redone (h : L.Reaches w w₁) (t : TypeInfo) (taken : List Slot) :
    Redone (inheritedFromInterfaces load expose t taken)
      (inheritedFromInterfaces load expose' t taken) w₁ fun _ => L.Reaches w := by
  refine redone_bind (redone_mapM (L.Reaches w) h fun name _ w₂ hw₂ => ?_) fun parts w₂ hw₂ =>
    redone_self (ok_pure hw₂)
  refine redone_bind (redone_self (supertype_ok hw₂ name t .interface)) fun i w₃ ⟨hw₃, hi⟩ => ?_
  refine redone_bind (hexpose i w₃ hw₃ hi) fun ms w₄ hw₄ => ?_
  exact redone_self (ok_pure hw₄)

end

theorem exposed_descent (L : Lore load) : L.Descent (exposed load) where
  zero _ _ := ok_throw _
  succ m n t w hw ht hexpose := by
    refine redone_get_bind ?_
    cases hview : w.views.lookup t.name with
    | some methods => exact redone_self (ok_pure (.refl hw))
    | none =>
      refine redone_bind (inheritedFromSuperclass_redone hexpose (.refl hw) t) fun above w₁ h₁ => ?_
      refine redone_bind (inheritedFromInterfaces_redone hexpose h₁ t _) fun beside w₂ h₂ => ?_
      have hname := L.named t w.types hw ht
      exact redone_self (ok_modify_bind (ok_pure (h₂.view hname hview _)))

/-- One step of a chain, with the methods of its type and with the rest of the chain redone. -/
theorem chain_redone {d d' m n : Nat} {t : TypeInfo} (hw : L.inv w.types)
    (hexposed : Redone (exposed load d t) (exposed load d' t) w fun _ => L.Reaches w)
    (hchain : ∀ s w₁, L.Reaches w w₁ → Holds load w₁ s →
      Redone (chain load d m s) (chain load d' n s) w₁ fun _ => L.Reaches w) :
    Redone (chain load d (m + 1) t) (chain load d' (n + 1) t) w fun _ => L.Reaches w := by
  unfold chain
  split
  · exact redone_self (ok_pure (.refl hw))
  refine redone_bind hexposed fun methods w₁ h₁ => ?_
  refine redone_bind (redone_self (superclass?_ok h₁ t)) fun s? w₂ habove => ?_
  cases s? with
  | none => exact redone_self (ok_pure habove.1)
  | some s =>
    refine redone_bind (hchain s w₂ habove.1 (habove.2 s rfl)) fun levels w₃ h₃ => ?_
    exact redone_self (ok_pure h₃)

theorem chain_descent (L : Lore load) (depth : Nat) : L.Descent (chain load depth) where
  zero _ _ := ok_throw _
  succ _ _ _ _ hw ht hchain := chain_redone hw (L.exposed_descent.mono le_rfl hw ht) hchain

/-- The levels of a type need no greater depth than one that is enough for all names. -/
theorem levels_enough (L : Lore load) {d : Nat} (hd : L.names.card * (2 * L.names.card + 1) ≤ d)
    (n : Nat) {t : TypeInfo} (hw : L.inv w.types) (ht : Holds load w t) :
    Redone (levels load n t) (levels load d t) w fun _ => L.Reaches w := by
  have hexposed : ∀ (k : Nat) (t : TypeInfo) (w : Walk σ), L.inv w.types → Holds load w t →
      Redone (chain load n k t) (chain load d k t) w fun _ => L.Reaches w := by
    intro k
    induction k with
    | zero => exact fun t w _ _ => ok_mono ((L.chain_descent n).zero t w) fun _ _ => False.elim
    | succ k ih =>
      intro t w hw ht
      refine chain_redone hw (L.exposed_descent.enough hd n hw ht) fun s w₁ hw₁ hs => ?_
      exact (ih s w₁ hw₁.inv hs).mono fun _ _ => hw₁.trans
  unfold levels
  split
  · exact ok_throw _
  · exact (hexposed n t w hw ht).trans ((L.chain_descent d).enough hd n hw ht)

end Lore

end Walk

/-! ## Resolutions -/

namespace TypeSupply

variable {σ : Type} {supply : TypeSupply σ}

/-- A supply with another depth. -/
def withDepth (supply : TypeSupply σ) (depth : Nat) : TypeSupply σ :=
  { supply with depth := fun _ => depth }

/-- A supply whose depth is enough resolves what it would resolve with any other depth. -/
theorem resolve_enough (L : Walk.Lore supply.load)
    (hdepth : ∀ s, L.inv s → L.names.card * (2 * L.names.card + 1) ≤ supply.depth s) (n : Nat)
    (name : String) {w : Walk σ} (hw : L.inv w.types) :
    Redone ((supply.withDepth n).resolve name) (supply.resolve name) w fun _ _ => True := by
  have hsame : ∀ {α : Type} (x : Walk.Step σ α) w, Redone x x w fun _ _ => True :=
    fun x w => redone_self (ok_mono (ok_self x w) fun _ _ _ => trivial)
  have hreports : ∀ slots, (supply.withDepth n).reportSlots slots = supply.reportSlots slots := by
    intro slots
    induction slots with
    | nil => rfl
    | cons slot slots ih => exact congrArg _ (funext fun _ => ih)
  refine redone_bind (redone_self (Walk.Lore.lift_ok (.refl hw) name)) fun t w₁ ⟨hw₁, ht⟩ => ?_
  split
  · exact hsame _ _
  have hlevels : Redone ((supply.withDepth n).levels t) (supply.levels t) w₁ fun _ _ => True := by
    refine redone_get_bind ?_
    exact redone_bind (L.levels_enough (hdepth _ hw₁.inv) n hw₁.inv ht) fun _ _ _ => hsame _ _
  refine redone_bind hlevels fun found w₂ _ => redone_bind (hsame _ w₂) fun r w₃ _ => ?_
  rw [hreports]
  exact hsame _ w₃

end TypeSupply

end StubWriter
