import StubWriter.Proofs.Hierarchy.Determined
import StubWriter.Proofs.Hierarchy.Supply

/-!
# Resolutions in two stages

A resolution loads the types of a chain first and compares types of results afterwards. All that the
first stage looks for is there, or it fails; a comparison may look for types that there are not. So
the states of the second stage need not be as good as those of the first one.

* `TypeSupply.Compares`: a world in which comparisons follow a relation, and
  `TypeSupply.ComparesUnless`: one in which they do unless it is left for good.
* `TypeSupply.resolve_splits`, `TypeSupply.resolve_made`: a successful resolution has walked a chain,
  and it is made of that.
* `TypeSupply.resolve_comes`, `TypeSupply.resolve_near`: a resolution that has walked a chain comes to
  what the comparisons make of it.
* `TypeSupply.Staged`: a supply with a world for each stage.
-/

namespace StubWriter

open Run Walk

namespace TypeSupply

variable {σ : Type} {supply : TypeSupply σ} {T : LoadTable} {rel : String → String → Bool}
  {good : String → Prop} {rank : String → Nat} {W W' : World σ}

/-! ## The second stage -/

/-- What follows the walk through the chain: comparisons and reports. -/
def rest (supply : TypeSupply σ) (t : TypeInfo) (found : List Level) : Walk.Step σ Resolution := do
  let resolution ← Resolution.resolve t found fun target source =>
    lift (supply.isAssignable target source)
  lift (supply.reportSlots (resolution.members.map Prod.fst))
  return resolution

/-- Comparing follows a relation, as far as good names are compared with others, unless it leaves a
state that is lost. -/
structure ComparesUnless (supply : TypeSupply σ) (lost : σ → Prop) (rel : String → String → Bool)
    (good : String → Prop) (W : World σ) : Prop where
  compared : ∀ target source, good source →
    W.GivesUnless lost (supply.isAssignable target source) (.ok (rel target source))
  reported : ∀ e, W.Gives (supply.report e) (.ok ())

/-- Comparing follows a relation, as far as good names are compared with others. -/
structure Compares (supply : TypeSupply σ) (rel : String → String → Bool) (good : String → Prop)
    (W : World σ) : Prop where
  compared : ∀ target source, good source →
    W.Gives (supply.isAssignable target source) (.ok (rel target source))
  reported : ∀ e, W.Gives (supply.report e) (.ok ())

theorem Compares.unless (h : supply.Compares rel good W) (lost : σ → Prop) :
    supply.ComparesUnless lost rel good W :=
  ⟨fun a b hb => (h.compared a b hb).unless lost, h.reported⟩

/-- Walks whose types are lost. -/
def LostTypes (lost : σ → Prop) (w : Walk σ) : Prop :=
  lost w.types

instance {α : Type} {lost : σ → Prop} (x : EStateM Failure σ α) [h : Moves (Stays lost) x] :
    Moves (Stays (LostTypes lost)) (lift x) := by
  refine ⟨fun w hw => ?_⟩
  have hmoves := h.moves w.types hw
  unfold lift
  cases hx : x w.types <;> rwa [hx] at hmoves

theorem lift_unless {α : Type} {lost : σ → Prop} {x : EStateM Failure σ α} {v : Except Failure α}
    (h : W.GivesUnless lost x v) : (W.walk T).GivesUnless (LostTypes lost) (lift x) v := by
  intro w hw
  have hcomes := h w.types hw.types
  unfold Comes at *
  unfold lift
  cases hx : x w.types with
  | ok a s =>
    rw [hx] at hcomes
    exact hcomes.imp_right fun h => ⟨⟨h.1, hw.views⟩, h.2⟩
  | error f s =>
    rw [hx] at hcomes
    exact hcomes.imp_right fun h => ⟨⟨h.1, hw.views⟩, h.2⟩

theorem ComparesUnless.rest_unless {lost : σ → Prop}
    [∀ a b, Moves (Stays lost) (supply.isAssignable a b)] [∀ e, Moves (Stays lost) (supply.report e)]
    (h : supply.ComparesUnless lost rel good W') (t : TypeInfo) {found : List Level}
    (hgood : ∀ m ∈ Resolution.walked found, good m.returns) :
    (W'.walk T).GivesUnless (LostTypes lost) (supply.rest t found)
      (Resolution.resolve t found fun a b => .ok (rel a b)) := by
  have hresolve : (W'.walk T).GivesUnless (LostTypes lost)
      (Resolution.resolve t found fun a b => lift (supply.isAssignable a b))
      (Resolution.resolve t found fun a b => .ok (rel a b)) :=
    Resolution.resolve_unless (fun a b hb => lift_unless (h.compared a b hb)) t hgood
  have hreports : ∀ slots, W'.Gives (supply.reportSlots slots) (.ok ()) := by
    intro slots
    induction slots with
    | nil => exact World.gives_pure
    | cons slot slots ih => exact World.gives_bind (h.reported _) ih
  have hafter : ∀ r : Resolution, (W'.walk T).Gives (do
      lift (supply.reportSlots (r.members.map Prod.fst))
      return r) (.ok r) :=
    fun r => World.gives_bind (lift_gives (hreports _)) World.gives_pure
  have hrest := World.givesUnless_bind_of hresolve fun r _ => (hafter r).unless _
  rwa [show (Except.ok : Resolution → Except Failure Resolution) = pure from rfl, bind_pure] at hrest

theorem Compares.rest_gives (h : supply.Compares rel good W') (t : TypeInfo) {found : List Level}
    (hgood : ∀ m ∈ Resolution.walked found, good m.returns) :
    (W'.walk T).Gives (supply.rest t found) (Resolution.resolve t found fun a b => .ok (rel a b)) :=
  World.gives_of_unless ((h.unless fun _ => False).rest_unless t hgood)

/-! ## Successful resolutions -/

section Serves

variable {inv : σ → Prop} (hload : T.types.Serves supply.load inv)
  (hreport : ∀ e s, inv s → Ok (supply.report e) s fun _ s' => inv s')
  (hnames : ∀ {name t}, T.types name = some t → t.name = name)
include hload hreport hnames

/-- A resolution that succeeds has walked the chain of its target before the second stage. -/
theorem resolve_splits {name : String} {w w' : Walk σ} (hw : T.types.Remembers inv w)
    {r : Resolution} (hrun : supply.resolve name w = .ok r w') :
    T name = .ok r.target ∧ ∃ found w₁, T.types.Chain name found ∧ T.types.Remembers inv w₁ ∧
      supply.rest r.target found w₁ = .ok r w' := by
  have hresolve : Ok (supply.resolve name) w fun r w' => T.types name = some r.target ∧
      ∃ found w₁, T.types.Chain name found ∧ T.types.Remembers inv w₁ ∧
        supply.rest r.target found w₁ = .ok r w' := by
    unfold resolve
    refine ok_bind (TypeTable.lift_load_ok hload hw name) ?_
    rintro t w₁ ⟨ht, hw₁⟩
    split
    · exact ok_throw _
    have hlevels : Ok (supply.levels t) w₁ fun found w₂ =>
        T.types.Chain name found ∧ T.types.Remembers inv w₂ := by
      unfold levels
      refine ok_get_bind (ok_bind (TypeTable.levels_ok hload hnames _ ht hw₁) ?_)
      rintro found w₂ ⟨hfound, hw₂⟩
      refine ok_bind (TypeTable.lift_keeps hw₂ (hreport _ _ hw₂.types)) fun _ w₃ hw₃ => ?_
      exact ok_pure ⟨hfound, hw₃⟩
    refine ok_bind hlevels ?_
    rintro found w₂ ⟨hfound, hw₂⟩
    have htarget : Ok (supply.rest t found) w₂ fun r _ => r.target = t := by
      unfold rest
      have hmade : Ok (Resolution.resolve t found fun target source =>
          lift (supply.isAssignable target source)) w₂ fun r _ => r.target = t :=
        fun r w₃ hr => (Resolution.resolved_of_run hr).target
      exact ok_bind hmade fun r w₃ hr => ok_bind (ok_self _ _) fun _ _ _ => ok_pure hr
    intro r w' hrest
    obtain rfl := htarget r w' hrest
    exact ⟨ht, found, w₂, hfound, hw₂, hrest⟩
  obtain ⟨ht, hrest⟩ := hresolve r w' hrun
  exact ⟨LoadTable.types_eq_some.mp ht, hrest⟩

/-- A resolution that succeeds is made of the chain of its target, by the comparisons of the second
stage. -/
theorem resolve_made (hlater : ∀ s, inv s → W'.inv s) (hcompares : supply.Compares rel good W')
    {name : String} (hgood : ∀ found, T.types.Chain name found →
      ∀ m ∈ Resolution.walked found, good m.returns)
    {w w' : Walk σ} (hw : T.types.Remembers inv w) {r : Resolution}
    (hrun : supply.resolve name w = .ok r w') :
    T name = .ok r.target ∧ ∃ found, T.types.Chain name found ∧
      (Resolution.resolve r.target found fun a b => .ok (rel a b) : Except Failure Resolution) =
        .ok r := by
  obtain ⟨ht, found, w₁, hfound, hw₁, hrest⟩ := resolve_splits hload hreport hnames hw hrun
  have hw₁ : (W'.walk T).inv w₁ := ⟨hlater _ hw₁.types, hw₁.views⟩
  refine ⟨ht, found, hfound, ?_⟩
  have hmade := (hcompares.rest_gives (T := T) r.target (hgood found hfound) w₁ hw₁).2
  rw [hrest] at hmade
  rcases hmade with hmade | ⟨f, -, hmade⟩
  · exact hmade.symm
  · cases hmade

end Serves

/-! ## Both stages -/

/-- A resolution whose first stage loads `t` and ends in `found`, or is excused, comes to what the
second stage makes of that. -/
theorem resolve_comes {name : String} {t : TypeInfo} {found : List Level} {I I' : Walk σ → Prop}
    {excused : Failure → Prop} {P : Except Failure Resolution → Walk σ → Prop} {w : Walk σ}
    (hload : Comes (lift (supply.load name)) w fun o w₁ =>
      (o = .ok t ∧ I w₁) ∨ ∃ f, excused f ∧ o = .error f)
    (hcheck : ∀ f, Resolution.checkTarget t = .error f → ∀ w₁, I w₁ → P (.error f) w₁)
    (hlevels : t.isPrimitive = false → ∀ w₁, I w₁ → Comes (supply.levels t) w₁ fun o w₂ =>
      (o = .ok found ∧ I' w₂) ∨ ∃ f, excused f ∧ o = .error f)
    (hrest : ∀ w₂, I' w₂ → Comes (supply.rest t found) w₂ P)
    (hexcused : ∀ f w', excused f → P (.error f) w') : Comes (supply.resolve name) w P := by
  unfold resolve
  refine comes_bind hload ?_ ?_
  · rintro t' w₁ (⟨ht, hw₁⟩ | ⟨f, -, ht⟩)
    · cases ht
      cases hchecked : Resolution.checkTarget t with
      | error f => exact hcheck f hchecked w₁ hw₁
      | ok _ =>
        have hprimitive : t.isPrimitive = false := by
          by_contra hp
          rw [Resolution.checkTarget, if_pos (by simpa using hp)] at hchecked
          cases hchecked
        refine comes_bind (hlevels hprimitive w₁ hw₁) ?_ ?_
        · rintro found' w₂ (⟨hfound, hw₂⟩ | ⟨f, -, hfound⟩)
          · cases hfound
            exact hrest w₂ hw₂
          · cases hfound
        · rintro e w₂ (⟨he, -⟩ | ⟨f, hf, he⟩)
          · cases he
          · cases he
            exact hexcused e w₂ hf
    · cases ht
  · rintro e w₁ (⟨he, -⟩ | ⟨f, hf, he⟩)
    · cases he
    · cases he
      exact hexcused e w₁ hf

theorem resolve_of_check {t : TypeInfo} {f : Failure} (h : Resolution.checkTarget t = .error f)
    (found : List Level) (rel : String → String → Except Failure Bool) :
    Resolution.resolve t found rel = .error f := by
  unfold Resolution.resolve
  rw [h]
  rfl

/-- The same for comparisons that follow a relation. -/
theorem resolve_near {name : String} {t : TypeInfo} {found : List Level} {I : Walk σ → Prop}
    {w : Walk σ}
    (hload : Comes (lift (supply.load name)) w fun o w₁ =>
      (o = .ok t ∧ I w₁) ∨ ∃ f, W'.excused f ∧ o = .error f)
    (hlevels : t.isPrimitive = false → ∀ w₁, I w₁ → Comes (supply.levels t) w₁ fun o w₂ =>
      (o = .ok found ∧ (W'.walk T).inv w₂) ∨ ∃ f, W'.excused f ∧ o = .error f)
    (hcompares : supply.Compares rel good W')
    (hgood : ∀ m ∈ Resolution.walked found, good m.returns) :
    (W'.walk T).Near (Resolution.resolve t found fun a b => .ok (rel a b))
      (outcome (supply.resolve name w)) := by
  have hresolve : Comes (supply.resolve name) w fun o _ =>
      (W'.walk T).Near (Resolution.resolve t found fun a b => .ok (rel a b)) o :=
    resolve_comes hload (fun _ hcheck _ _ => .inl (resolve_of_check hcheck _ _).symm) hlevels
      (fun w₂ hw₂ => (hcompares.rest_gives t hgood w₂ hw₂).2) fun f _ hf => .inr ⟨f, hf, rfl⟩
  exact hresolve

/-- A supply in two worlds. In the first one loading gives the types of a table, in the second one
comparing follows a relation; all states of the first one belong to the second one as well. -/
structure Staged (supply : TypeSupply σ) (T : LoadTable) (rel : String → String → Bool)
    (rank : String → Nat) (W W' : World σ) : Prop where
  offers : W.Offers T supply.load
  deep : ∀ s, W.inv s → ∀ name, rank name < supply.depth s
  reported : ∀ e, W.Gives (supply.report e) (.ok ())
  later : ∀ s, W.inv s → W'.inv s
  excused : W'.excused = W.excused
  compares : supply.Compares rel (fun _ => True) W'

/-- Where there is a chain, the first stage comes to it. -/
theorem levels_near (hoffers : W.Offers T supply.load)
    (hdeep : ∀ s, W.inv s → ∀ name, rank name < supply.depth s)
    (hreported : ∀ e, W.Gives (supply.report e) (.ok ())) (hrank : T.RanksViews rank)
    {name : String} {t : TypeInfo} (ht : T name = .ok t) (hprimitive : t.isPrimitive = false)
    {found : List Level} (hchain : T.types.Chain name found) :
    (W.walk T).Gives (supply.levels t) (.ok found) := by
  unfold levels Walk.levels
  rw [hprimitive]
  refine World.gives_get_bind fun w hw => ?_
  have hdepth := hdeep _ hw.types
  refine World.gives_bind (hchain.chain_gives hoffers hrank ht hdepth (hdepth _)) ?_
  exact World.gives_bind (lift_gives (hreported _)) World.gives_pure

/-- A resolution whose target has a chain comes to what the comparisons make of the chain. -/
theorem Staged.resolve_near (h : supply.Staged T rel rank W W') (hrank : T.Ranked rank)
    {name : String} {t : TypeInfo} (ht : T name = .ok t) {found : List Level}
    (hchain : T.types.Chain name found) {w : Walk σ} (hw : (W.walk T).inv w) :
    (W'.walk T).Near (Resolution.resolve t found fun a b => .ok (rel a b))
      (outcome (supply.resolve name w)) := by
  have hnear : ∀ {α : Type} {a : α} {x : Step σ α} {w : Walk σ}, (W.walk T).Gives x (.ok a) →
      (W.walk T).inv w → Comes x w fun o w₁ =>
        (o = .ok a ∧ (W.walk T).inv w₁) ∨ ∃ f, W'.excused f ∧ o = .error f := by
    intro α a x w hx hw
    obtain ⟨hinv, ho⟩ := hx w hw
    refine ho.imp (fun ho => ⟨ho, hinv⟩) ?_
    rintro ⟨f, hf, ho⟩
    exact ⟨f, h.excused ▸ hf, ho⟩
  refine TypeSupply.resolve_near (hnear (lift_gives (h.offers.gives ht)) hw)
    (fun hprimitive w₁ hw₁ => ?_) h.compares fun _ _ => trivial
  have hlevels := levels_near h.offers h.deep h.reported hrank.ranksViews ht hprimitive hchain
  refine comes_mono (hnear hlevels hw₁) fun o w₂ ho => ho.imp_left ?_
  rintro ⟨ho, hw₂⟩
  exact ⟨ho, h.later _ hw₂.types, hw₂.views⟩

end TypeSupply

end StubWriter
