import StubWriter.TypeSupply
import StubWriter.Proofs.Lockstep
import StubWriter.Proofs.Resolution.Slots

/-!
# Resolutions in step

Two supplies of types that are in step make resolutions that are. What they supply may differ in the
places that types come from; and they need to agree on good names only, as long as all names that
the types bring up are good.

* `Twin`: types that differ in nothing but their places.
* `TypeSupply.InStep`: supplies in step.
* `TypeSupply.levels_inStep`, `TypeSupply.resolve_inStep`: the levels and the stub of a type.
-/

namespace StubWriter

open Run

/-- The places that belong together, and the names on which two supplies agree. -/
structure Naming where
  places : String → String → Prop
  good : String → Prop

/-- Types that say the same but for their places, and bring up good names only. -/
structure Twin (N : Naming) (t t' : TypeInfo) : Prop where
  same : ∃ place, t' = { t with sourceFile := place } ∧ Option.Rel N.places t.sourceFile place
  supertypes : ∀ n ∈ t.supertypes, N.good n
  returns : ∀ m ∈ t.methods, N.good m.returns

/-- Levels that say the same but for the places of their types. -/
structure Level.Twin (N : Naming) (l l' : Level) : Prop where
  type : StubWriter.Twin N l.type l'.type
  declared : l'.declared = l.declared
  exposed : l'.exposed = l.exposed
  returns : ∀ m ∈ l.declared ++ l.exposed, N.good m.returns

/-- Stubs that say the same but for the places of their targets. -/
structure Resolution.Twin (N : Naming) (r r' : Resolution) : Prop where
  target : StubWriter.Twin N r.target r'.target
  constructors : r'.constructors = r.constructors
  members : r'.members = r.members
  decisions : r'.decisions = r.decisions

/-- Stubs that come from the same places are the same. -/
theorem Resolution.Twin.eq {good : String → Prop} {r r' : Resolution}
    (h : Resolution.Twin ⟨Eq, good⟩ r r') : r' = r := by
  obtain ⟨⟨⟨place, htarget, hplace⟩, -, -⟩, hconstructors, hmembers, hdecisions⟩ := h
  obtain ⟨target, constructors, members, decisions⟩ := r
  obtain ⟨target', constructors', members', decisions'⟩ := r'
  have hsame : place = target.sourceFile := by
    dsimp only at hplace
    generalize target.sourceFile = origin at hplace
    cases hplace with
    | none => rfl
    | some h => rw [h]
  dsimp only at htarget hconstructors hmembers hdecisions
  rw [htarget, hsame, hconstructors, hmembers, hdecisions]

namespace Run.Link

variable {σ σ' : Type}

/-- Bounds on the length of a path: equal ones, or a greater one for the second run, if the first
one is excused when it comes to its bound. -/
def Bounds (L : Link σ σ') (d d' : Nat) : Prop :=
  d' = d ∨ d ≤ d' ∧ ∀ name, L.excused (.endlessHierarchy name)

variable {L : Link σ σ'}

theorem Bounds.zero {d' : Nat} (h : L.Bounds 0 d') :
    d' = 0 ∨ ∀ name, L.excused (.endlessHierarchy name) :=
  h.imp_right And.right

theorem Bounds.succ {d d' : Nat} (h : L.Bounds (d + 1) d') : ∃ e, d' = e + 1 ∧ L.Bounds d e := by
  obtain rfl | ⟨hle, hexcused⟩ := h
  · exact ⟨d, rfl, .inl rfl⟩
  · obtain ⟨e, rfl⟩ : ∃ e, d' = e + 1 := ⟨d' - 1, by omega⟩
    exact ⟨e, rfl, .inr ⟨by omega, hexcused⟩⟩

/-- The walks over types that belong together. They have seen the same methods. -/
def walk (L : Link σ σ') (N : Naming) : Link (Walk σ) (Walk σ') where
  states w w' := L.states w.types w'.types ∧ w'.views = w.views ∧
    ∀ v ∈ w.views, ∀ m ∈ v.2, N.good m.returns
  failures := L.failures
  excused := L.excused

theorem Fair.walk (h : L.Fair) (N : Naming) : (L.walk N).Fair :=
  ⟨h.refl, h.isNotFound, h.excused⟩

theorem lift_inStep {N : Naming} {α β : Type} {x : EStateM Failure σ α} {y : EStateM Failure σ' β}
    {V : α → β → Prop} (h : L.InStep x y V) : (L.walk N).InStep (Walk.lift x) (Walk.lift y) V := by
  rintro ⟨s, views⟩ ⟨s', views'⟩ ⟨hs, rfl, hviews⟩
  unfold Walk.lift
  dsimp only
  obtain ⟨e, t, hx, he⟩ | ⟨a, t, b, t', hx, hy, hV, ht⟩ | ⟨e, t, e', t', hx, hy, hF, ht⟩ :=
    h.cases hs
  · rw [hx]
    exact .inl ⟨e, he, rfl⟩
  · rw [hx, hy]
    exact .inr ⟨.ok hV, ht, rfl, hviews⟩
  · rw [hx, hy]
    exact .inr ⟨.error hF, ht, rfl, hviews⟩

end Run.Link

open Run.Link

/-! ## Walks -/

namespace Walk

variable {σ σ' : Type} {L : Link σ σ'} {N : Naming} (hL : L.Fair)
  {load : String → EStateM Failure σ TypeInfo} {load' : String → EStateM Failure σ' TypeInfo}
  (hload : ∀ name, N.good name → L.InStep (load name) (load' name) (Twin N))

section

include hL hload

theorem supertype_inStep {name : String} (hname : N.good name) {t t' : TypeInfo} (ht : Twin N t t')
    (role : SupertypeRole) :
    (L.walk N).InStep (supertype load name t role) (supertype load' name t' role) (Twin N) := by
  obtain ⟨⟨place, rfl, -⟩, -, -⟩ := ht
  refine inStep_tryCatch (lift_inStep (hload name hname)) (fun f g hfg => ?_) fun f hf => ?_
  · rw [hL.isNotFound f g hfg]
    cases f.isNotFound with
    | true => exact inStep_throw (hL.refl _)
    | false => exact inStep_throw hfg
  · rw [hL.excused f hf]
    rfl

theorem superclass?_inStep {t t' : TypeInfo} (ht : Twin N t t') :
    (L.walk N).InStep (superclass? load t) (superclass? load' t') (Option.Rel (Twin N)) := by
  have hsupertype : ∀ name, N.good name →
      (L.walk N).InStep (supertype load name t .superclass) (supertype load' name t' .superclass)
        (Twin N) := fun name hname => supertype_inStep hL hload hname ht .superclass
  have hname : superclassName? t' = superclassName? t := by
    obtain ⟨place, rfl, -⟩ := ht.same
    rfl
  unfold superclass?
  rw [hname]
  cases hs : superclassName? t with
  | none => exact inStep_pure .none
  | some name =>
    have habove : t.superclass? = some name := by
      unfold superclassName? at hs
      split at hs
      · cases hs
      · exact Option.eq_some_of_filter_eq_some hs
    have hgood : N.good name := ht.supertypes name (by simp [TypeInfo.supertypes, habove])
    exact inStep_bind (hsupertype name hgood) fun s s' hs => inStep_pure (.some hs)

/-- Views on a type, computed in step, whose methods return good names. -/
abbrev SameView (N : Naming) (ms ms' : List Method) : Prop :=
  ms = ms' ∧ ∀ m ∈ ms, N.good m.returns

variable {expose : TypeInfo → Step σ (List Method)} {expose' : TypeInfo → Step σ' (List Method)}
  (hexpose : ∀ t t', Twin N t t' → (L.walk N).InStep (expose t) (expose' t') (SameView N))
include hexpose

theorem inheritedFromSuperclass_inStep {t t' : TypeInfo} (ht : Twin N t t') :
    (L.walk N).InStep (inheritedFromSuperclass load expose t)
      (inheritedFromSuperclass load' expose' t') (SameView N) := by
  refine inStep_bind (superclass?_inStep hL hload ht) fun s? s?' hs => ?_
  cases hs with
  | none => exact inStep_pure ⟨rfl, fun m hm => absurd hm List.not_mem_nil⟩
  | some hs =>
    refine inStep_bind (hexpose _ _ hs) ?_
    rintro ms _ ⟨rfl, hms⟩
    obtain ⟨place, rfl, -⟩ := ht.same
    exact inStep_pure ⟨rfl, fun m hm => hms m (List.mem_filter.mp hm).1⟩

theorem inheritedFromInterfaces_inStep {t t' : TypeInfo} (ht : Twin N t t') (taken : List Slot) :
    (L.walk N).InStep (inheritedFromInterfaces load expose t taken)
      (inheritedFromInterfaces load' expose' t' taken) (SameView N) := by
  have hpart : ∀ name ∈ t.interfaces, (L.walk N).InStep
      (do
        let i ← supertype load name t .interface
        return inheritedFromInterface taken (← expose i))
      (do
        let i ← supertype load' name t' .interface
        return inheritedFromInterface taken (← expose' i)) (SameView N) := by
    intro name hname
    have hgood := ht.supertypes name (List.mem_append_right _ hname)
    refine inStep_bind (supertype_inStep hL hload hgood ht .interface) fun i i' hi => ?_
    refine inStep_bind (hexpose i i' hi) ?_
    rintro ms _ ⟨rfl, hms⟩
    exact inStep_pure ⟨rfl, fun m hm => hms m (List.mem_filter.mp hm).1⟩
  have hinterfaces : t'.interfaces = t.interfaces := by
    obtain ⟨place, rfl, -⟩ := ht.same
    rfl
  unfold inheritedFromInterfaces
  rw [hinterfaces]
  refine inStep_bind (inStep_mapM (List.forall₂_same.mpr hpart)) fun parts parts' hparts => ?_
  refine inStep_pure ?_
  induction hparts with
  | nil => exact ⟨rfl, fun m hm => absurd hm List.not_mem_nil⟩
  | cons hms _ ih =>
    obtain ⟨rfl, hms⟩ := hms
    rw [List.flatten_cons, List.flatten_cons, ← ih.1]
    exact ⟨rfl, fun m hm => (List.mem_append.mp hm).elim (hms m) (ih.2 m)⟩

omit hexpose

theorem exposed_inStep {depth depth' : Nat} (hdepth : L.Bounds depth depth') {t t' : TypeInfo}
    (ht : Twin N t t') :
    (L.walk N).InStep (exposed load depth t) (exposed load' depth' t') (SameView N) := by
  induction depth generalizing depth' t t' with
  | zero =>
    obtain rfl | hexcused := hdepth.zero
    · obtain ⟨place, rfl, -⟩ := ht.same
      exact inStep_throw (hL.refl _)
    · exact inStep_excused (hexcused _)
  | succ depth ih =>
    obtain ⟨depth', rfl, hbound⟩ := hdepth.succ
    have hexpose : ∀ t t', Twin N t t' →
        (L.walk N).InStep (exposed load depth t) (exposed load' depth' t') (SameView N) :=
      fun t t' ht => ih hbound ht
    have hsuper := inheritedFromSuperclass_inStep hL hload hexpose ht
    have hinterfaces := inheritedFromInterfaces_inStep hL hload hexpose ht
    have hreturns := ht.returns
    obtain ⟨place, rfl, -⟩ := ht.same
    refine inStep_get_bind ?_
    rintro ⟨s, views⟩ ⟨s', views'⟩ ⟨hs, hviews, hgood⟩
    dsimp only at hviews hgood ⊢
    rw [hviews]
    cases hlookup : views.lookup t.name with
    | some methods =>
      obtain ⟨before, after, hsplit, -⟩ := List.lookup_eq_some_iff.mp hlookup
      exact inStep_pure ⟨rfl, hgood (t.name, methods) (by simp [hsplit])⟩
    | none =>
      refine inStep_bind hsuper ?_
      rintro above _ ⟨rfl, habove⟩
      refine inStep_bind (hinterfaces _) ?_
      rintro beside _ ⟨rfl, hbeside⟩
      have hall : ∀ m ∈ ownPublic t ++ above ++ beside, N.good m.returns := by
        intro m hm
        rcases List.mem_append.mp hm with hm | hm
        · exact (List.mem_append.mp hm).elim (fun h => hreturns m (List.mem_filter.mp h).1)
            (habove m)
        · exact hbeside m hm
      refine inStep_bind (inStep_modify ?_) fun _ _ _ => inStep_pure ⟨rfl, hall⟩
      rintro w w' ⟨hw, hviews, hgood⟩
      exact ⟨hw, congrArg _ hviews, List.forall_mem_cons.mpr ⟨hall, hgood⟩⟩

theorem chain_inStep {depth depth' n n' : Nat} (hdepth : L.Bounds depth depth')
    (hn : L.Bounds n n') {t t' : TypeInfo} (ht : Twin N t t') :
    (L.walk N).InStep (chain load depth n t) (chain load' depth' n' t')
      (List.Forall₂ (Level.Twin N)) := by
  induction n generalizing n' t t' with
  | zero =>
    obtain rfl | hexcused := hn.zero
    · obtain ⟨place, rfl, -⟩ := ht.same
      exact inStep_throw (hL.refl _)
    · exact inStep_excused (hexcused _)
  | succ n ih =>
    obtain ⟨n', rfl, hbound⟩ := hn.succ
    have hsame : t'.name = t.name ∧ t'.methods = t.methods := by
      obtain ⟨place, rfl, -⟩ := ht.same
      exact ⟨rfl, rfl⟩
    unfold chain
    rw [hsame.1, hsame.2]
    cases t.name == objectName with
    | true => exact inStep_pure .nil
    | false =>
      refine inStep_bind (exposed_inStep hL hload hdepth ht) ?_
      rintro methods _ ⟨rfl, hmethods⟩
      have hlevel : Level.Twin N ⟨t, t.methods, methods⟩ ⟨t', t.methods, methods⟩ :=
        ⟨ht, rfl, rfl, fun m hm => (List.mem_append.mp hm).elim (ht.returns m) (hmethods m)⟩
      refine inStep_bind (superclass?_inStep hL hload ht) fun s? s?' hs => ?_
      cases hs with
      | none => exact inStep_pure (.cons hlevel .nil)
      | some hs =>
        exact inStep_bind (ih hbound hs) fun ls ls' hls => inStep_pure (.cons hlevel hls)

theorem levels_inStep {depth depth' : Nat} (hdepth : L.Bounds depth depth') {t t' : TypeInfo}
    (ht : Twin N t t') : (L.walk N).InStep (levels load depth t) (levels load' depth' t')
      (List.Forall₂ (Level.Twin N)) := by
  have hchain := chain_inStep hL hload hdepth hdepth ht
  obtain ⟨place, rfl, -⟩ := ht.same
  unfold levels
  change (L.walk N).InStep
    (if t.isPrimitive then throw (.primitiveTarget t.name) else chain load depth depth t)
    (if t.isPrimitive then throw (.primitiveTarget t.name)
      else chain load' depth' depth' { t with sourceFile := place }) _
  cases t.isPrimitive with
  | true => exact inStep_throw (hL.refl _)
  | false => exact hchain

end

end Walk

/-! ## Decisions -/

namespace Resolution

variable {σ σ' : Type} {L : Link σ σ'} {N : Naming}
  {assignable : String → String → EStateM Failure σ Bool}
  {assignable' : String → String → EStateM Failure σ' Bool}
  (hassignable : ∀ target source, N.good source →
    L.InStep (assignable target source) (assignable' target source) Eq)
include hassignable

theorem anySuppresses_inStep (required : Method) {cs : List Method}
    (hcs : ∀ c ∈ cs, N.good c.returns) :
    L.InStep (anySuppresses assignable required cs) (anySuppresses assignable' required cs) Eq := by
  induction cs with
  | nil => exact inStep_pure rfl
  | cons c cs ih =>
    obtain ⟨hc, hcs⟩ := List.forall_mem_cons.mp hcs
    have hsuppresses : L.InStep (suppresses assignable c required)
        (suppresses assignable' c required) Eq := by
      unfold suppresses
      cases sameSlot c required with
      | true => exact hassignable _ _ hc
      | false => exact inStep_pure rfl
    refine inStep_bind hsuppresses ?_
    rintro found _ rfl
    cases found with
    | true => exact inStep_pure rfl
    | false => exact ih hcs

theorem decide_inStep {concrete : List (Slot × List Method)}
    (hconcrete : ∀ slot, ∀ c ∈ (Keyed.get? slot concrete).getD [], N.good c.returns)
    (methods : List (Slot × Method)) :
    L.InStep (decide assignable concrete methods) (decide assignable' concrete methods) Eq := by
  induction methods with
  | nil => exact inStep_pure rfl
  | cons p rest ih =>
    obtain ⟨slot, required⟩ := p
    refine inStep_bind (anySuppresses_inStep hassignable required (hconcrete slot)) ?_
    rintro implemented _ rfl
    refine inStep_bind ih ?_
    rintro others _ rfl
    exact inStep_pure rfl

omit hassignable in
theorem walked_twin {ls ls' : List Level} (h : List.Forall₂ (Level.Twin N) ls ls') :
    walked ls' = walked ls ∧ ∀ m ∈ walked ls, N.good m.returns := by
  induction h with
  | nil => exact ⟨rfl, fun m hm => absurd hm List.not_mem_nil⟩
  | cons hl _ ih =>
    unfold walked at *
    rw [List.flatMap_cons, List.flatMap_cons, hl.declared, hl.exposed, ih.1]
    exact ⟨rfl, fun m hm => (List.mem_append.mp hm).elim (hl.returns m) (ih.2 m)⟩

theorem resolve_inStep (hL : L.Fair) {t t' : TypeInfo} (ht : StubWriter.Twin N t t')
    {ls ls' : List Level} (hls : List.Forall₂ (Level.Twin N) ls ls') :
    L.InStep (resolve t ls assignable) (resolve t' ls' assignable') (Twin N) := by
  obtain ⟨hwalked, hgood⟩ := walked_twin hls
  have habstract : collectAbstract ls' = collectAbstract ls := by
    rw [collectAbstract, hwalked]
    rfl
  have hconcrete : collectConcrete ls' = collectConcrete ls := by
    rw [collectConcrete, hwalked]
    rfl
  have hreturns : ∀ slot, ∀ c ∈ (Keyed.get? slot (collectConcrete ls)).getD [],
      N.good c.returns := by
    intro slot c hc
    rw [get?_collectConcrete] at hc
    exact hgood c (mem_concreteOf.mp hc).1
  have hdecide := decide_inStep hassignable hreturns (collectAbstract ls)
  have hsame : checkTarget t' = checkTarget t ∧ selectConstructors t' = selectConstructors t := by
    obtain ⟨place, rfl, -⟩ := ht.same
    exact ⟨rfl, rfl⟩
  unfold resolve
  rw [hsame.1, hsame.2, habstract, hconcrete]
  cases checkTarget t with
  | error f => exact inStep_throw (hL.refl f)
  | ok _ =>
    cases selectConstructors t with
    | error f => exact inStep_throw (hL.refl f)
    | ok constructors =>
      refine inStep_bind hdecide ?_
      rintro decisions _ rfl
      exact inStep_pure ⟨ht, rfl, rfl, rfl⟩

end Resolution

/-! ## Supplies -/

namespace TypeSupply

variable {σ σ' : Type}

/-- Supplies that agree on good names. -/
structure InStep (L : Link σ σ') (N : Naming) (supply : TypeSupply σ) (supply' : TypeSupply σ') :
    Prop where
  load : ∀ name, N.good name → L.InStep (supply.load name) (supply'.load name) (Twin N)
  isAssignable : ∀ target source, N.good source →
    L.InStep (supply.isAssignable target source) (supply'.isAssignable target source) Eq
  report : ∀ e, L.InStep (supply.report e) (supply'.report e) Eq
  depth : ∀ s s', L.states s s' → L.Bounds (supply.depth s) (supply'.depth s')

variable {L : Link σ σ'} {N : Naming} {supply : TypeSupply σ} {supply' : TypeSupply σ'}
  (h : InStep L N supply supply') (hL : L.Fair)
include h hL

theorem levels_inStep {t t' : TypeInfo} (ht : Twin N t t') :
    (L.walk N).InStep (supply.levels t) (supply'.levels t') (List.Forall₂ (Level.Twin N)) := by
  have hname : t'.name = t.name := by
    obtain ⟨place, rfl, -⟩ := ht.same
    rfl
  refine inStep_get_bind fun w w' hw => ?_
  have hdepth := h.depth _ _ hw.1
  refine inStep_bind (Walk.levels_inStep hL h.load hdepth ht) fun found found' hfound => ?_
  have hnames : found'.map (·.type.name) = found.map (·.type.name) := by
    clear hdepth hw
    induction hfound with
    | nil => rfl
    | cons hl _ ih =>
      obtain ⟨place, hplace, -⟩ := hl.type.same
      rw [List.map_cons, List.map_cons, ih, hplace]
  rw [hname, hnames]
  exact inStep_bind (lift_inStep (h.report _)) fun _ _ _ => inStep_pure hfound

omit hL in
theorem reportSlots_inStep (slots : List Slot) :
    L.InStep (supply.reportSlots slots) (supply'.reportSlots slots) Eq := by
  induction slots with
  | nil => exact inStep_pure rfl
  | cons slot rest ih => exact inStep_bind (h.report _) fun _ _ _ => ih

theorem resolve_inStep {name : String} (hname : N.good name) :
    (L.walk N).InStep (supply.resolve name) (supply'.resolve name) (Resolution.Twin N) := by
  refine inStep_bind (lift_inStep (h.load name hname)) fun t t' ht => ?_
  have hcheck : Resolution.checkTarget t' = Resolution.checkTarget t := by
    obtain ⟨place, rfl, -⟩ := ht.same
    rfl
  rw [hcheck]
  cases Resolution.checkTarget t with
  | error f => exact inStep_throw (hL.refl f)
  | ok _ =>
    refine inStep_bind (levels_inStep h hL ht) fun found found' hfound => ?_
    refine inStep_bind (Resolution.resolve_inStep
      (fun target source hsource => lift_inStep (h.isAssignable target source hsource))
      (hL.walk N) ht hfound) fun r r' hr => ?_
    rw [hr.members]
    exact inStep_bind (lift_inStep (reportSlots_inStep h _)) fun _ _ _ => inStep_pure hr

end TypeSupply

end StubWriter
