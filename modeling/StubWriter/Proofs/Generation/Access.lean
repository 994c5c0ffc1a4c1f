import StubWriter.Proofs.Generation.Archive
import StubWriter.Proofs.Hierarchy.View
import StubWriter.Proofs.Library.Existence
import StubWriter.Proofs.Resolution.Decisions

/-!
# The access of what a stub declares

Java has four kinds of access, and modifiers give nothing else. So all members of the types that a
library loads have one of them, and whatever a stub declares comes from such a type.

* `Visibility.IsJava`: the kinds of access.
* `Walk.levels_of_loaded`: what holds of the methods of all loaded types holds of what a walk finds.
* `Generator.resolve_access`: the access of the members and the constructors of a stub.
-/

namespace StubWriter

open Run

/-- One of the four kinds of access. -/
def Visibility.IsJava (v : Visibility) : Prop :=
  v ∈ [.pub, .prot, .pkg, .priv]

instance (v : Visibility) : Decidable v.IsJava :=
  inferInstanceAs (Decidable (v ∈ [.pub, .prot, .pkg, .priv]))

theorem Visibility.isJava_ofModifiers (mods : List String) : (ofModifiers mods).IsJava := by
  unfold ofModifiers IsJava
  split
  · decide
  split
  · decide
  split <;> decide

/-- A type all of whose members have one of the kinds of access. -/
structure TypeInfo.HasAccess (t : TypeInfo) : Prop where
  methods : ∀ m ∈ t.methods, m.visibility.IsJava
  constructors : ∀ c ∈ t.constructors, c.visibility.IsJava

theorem TypeInfo.hasAccess_primitive (name : String) : (ofPrimitive name).HasAccess :=
  ⟨fun _ hm => absurd hm List.not_mem_nil, fun _ hc => absurd hc List.not_mem_nil⟩

/-! ## Descriptions -/

theorem MethodDecl.describe_access (m : MethodDecl) (owner : String) (inInterface : Bool)
    (s : Scope) (l : Library) :
    Ok (m.describe owner inInterface s) l fun r _ => r.visibility.IsJava := by
  have hvisibility : (m.visibility inInterface).IsJava := by
    unfold visibility
    split
    · split
      · decide
      · decide
    · exact Visibility.isJava_ofModifiers _
  unfold describe
  refine ok_bind (ok_self _ _) fun inner _ _ => ?_
  refine ok_bind (ok_self _ _) fun returns _ _ => ?_
  refine ok_bind (ok_self _ _) fun params _ _ => ?_
  exact ok_bind (ok_self _ _) fun throws _ _ => ok_pure hvisibility

theorem ConstructorDecl.describe_access (c : ConstructorDecl) (owner : String) (s : Scope)
    (l : Library) : Ok (c.describe owner s) l fun r _ => r.visibility.IsJava := by
  unfold describe
  refine ok_bind (ok_self _ _) fun inner _ _ => ?_
  refine ok_bind (ok_self _ _) fun params _ _ => ?_
  exact ok_bind (ok_self _ _) fun throws _ _ => ok_pure (Visibility.isJava_ofModifiers _)

namespace Declared

theorem methods_access (d : Declared) (s : Scope) (l : Library) :
    Ok (d.methods s) l fun ms _ => ∀ m ∈ ms, m.visibility.IsJava := by
  have hmethods : ∀ inInterface, Ok (d.decl.methods.mapM (·.describe d.fullName inInterface s)) l
      fun ms _ => ∀ m ∈ ms, m.visibility.IsJava := fun inInterface =>
    ok_mapM_forall (fun m : Method => m.visibility.IsJava) fun m _ l =>
      m.describe_access d.fullName inInterface s l
  unfold methods
  split
  · exact hmethods false
  · exact hmethods true
  · exact ok_pure fun _ hm => absurd hm List.not_mem_nil

theorem constructors_access (d : Declared) (s : Scope) (l : Library) :
    Ok (d.constructors s) l fun cs _ => ∀ c ∈ cs, c.visibility.IsJava := by
  unfold constructors
  split
  · have hstated : Ok (d.decl.constructors.mapM (·.describe d.fullName s)) l
        fun cs _ => ∀ c ∈ cs, c.visibility.IsJava :=
      ok_mapM_forall (fun c : Constructor => c.visibility.IsJava) fun c _ l =>
        c.describe_access d.fullName s l
    refine ok_bind hstated fun stated _ hall => ?_
    split
    · exact ok_pure (List.forall_mem_singleton.mpr (Visibility.isJava_ofModifiers _))
    · exact ok_pure hall
  · exact ok_pure fun _ hc => absurd hc List.not_mem_nil

theorem describe_access (d : Declared) (package origin : String) (s : Scope) (l : Library) :
    Ok (d.describe package origin s) l fun t _ => t.HasAccess := by
  unfold describe
  refine ok_bind (ok_self _ _) fun inner l₁ _ => ?_
  refine ok_bind (ok_self _ _) fun superclass l₂ _ => ?_
  refine ok_bind (ok_self _ _) fun interfaces l₃ _ => ?_
  refine ok_bind (d.methods_access inner l₃) fun methods l₄ hmethods => ?_
  refine ok_bind (d.constructors_access inner l₄) fun constructors l₅ hconstructors => ?_
  exact ok_pure ⟨hmethods, hconstructors⟩

end Declared

/-! ## Libraries -/

namespace Library

/-- All types of the library have members with access. -/
def Accessible (l : Library) : Prop :=
  ∀ name t, l.graph.get? name = some t → t.HasAccess

theorem Recalls.accessible {l l' : Library} (h : l.Recalls l') : Leaves Accessible l l' := by
  intro hl
  unfold Accessible
  rwa [h.graph]

theorem accessible_takeIn {l : Library} (hl : l.Accessible) (d : Declared) {t : TypeInfo}
    (ht : t.HasAccess) : (l.takeIn d t).Accessible := by
  intro name t' h
  rw [takeIn, TypeGraph.get?_addType] at h
  split at h
  · cases h
    exact ht
  · exact hl name t' h

theorem describe_accessible (d : Declared) (package origin : String) (s : Scope) :
    Ends Accessible (d.describe package origin s) fun o => ∀ t, o = .ok t → t.HasAccess :=
  fun l hl => ⟨(Moves.moves (R := Recalls) l).accessible hl, fun t ht =>
    d.describe_access package origin s l t _ (eq_ok_of_outcome ht)⟩

instance (units : List (String × CompilationUnit)) :
    Moves (Leaves Accessible) (registerUnits units) :=
  ⟨fun _ hl => (registerUnits_comes (fun _ _ d _ => describe_accessible d _ _ _)
    (fun _ _ d _ t ht _ _ hl => accessible_takeIn hl d (ht t rfl)) hl).1⟩

instance (unit : CompilationUnit) (origin : String) :
    Moves (Leaves Accessible) (register unit origin) :=
  ⟨fun _ hl => (registerAll_comes (fun d _ => describe_accessible d _ _ _)
    (fun d _ t ht _ _ hl => accessible_takeIn hl d (ht t rfl)) hl).1⟩

instance (e : Event) : Moves (Leaves Accessible) (report e) :=
  Moves.mono (R := Recalls) inferInstance fun _ _ => Recalls.accessible

instance (name : String) : Moves (Leaves Accessible) (fetch name) := by
  have hfind : Moves (Leaves Accessible) (findSource? name) :=
    Moves.mono (R := Recalls) inferInstance fun _ _ => Recalls.accessible
  refine moves_bind hfind fun source? => ?_
  split
  · unfold registerSource
    refine moves_bind inferInstance fun _ => ?_
    split <;> infer_instance
  · infer_instance

instance (name : String) : Moves (Leaves Accessible) (standing name) := by
  have hmiss : Moves (Leaves Accessible) (modify (miss name) : Lookup Unit) :=
    moves_modify fun _ => id
  refine moves_bind inferInstance fun l => ?_
  split
  · infer_instance
  · exact moves_bind hmiss fun _ => inferInstance

theorem load_access (name : String) (l : Library) (hl : l.Accessible) :
    Ok (load name) l fun t l' => t.HasAccess ∧ l'.Accessible := by
  intro t l' hrun
  have hl' := Moves.moves (R := Leaves Accessible) (x := load name) l hl
  rw [hrun] at hl'
  cases hprimitive : isPrimitiveName name with
  | true =>
    rw [load_primitive hprimitive] at hrun
    cases hrun
    exact ⟨TypeInfo.hasAccess_primitive name, hl⟩
  | false => exact ⟨hl' name t (load_ok name l t l' hrun hprimitive), hl'⟩

end Library

/-! ## Walks -/

namespace Walk

variable {σ : Type} {load : String → EStateM Failure σ TypeInfo} {I : σ → Prop}
  {A : Method → Prop}

/-- A walk whose types are in a good state and whose views hold good methods only. -/
structure Keeps (I : σ → Prop) (A : Method → Prop) (w : Walk σ) : Prop where
  types : I w.types
  views : ∀ p ∈ w.views, ∀ m ∈ p.2, A m

/-- Loading leaves good states, and the types it gives have good methods only. -/
def Loads (load : String → EStateM Failure σ TypeInfo) (I : σ → Prop) (A : Method → Prop) : Prop :=
  ∀ name s, I s → Ok (load name) s fun t s' => (∀ m ∈ t.methods, A m) ∧ I s'

/-- A computation of views that finds good methods on types with good methods. -/
def Finds (expose : TypeInfo → Step σ (List Method)) (I : σ → Prop) (A : Method → Prop) : Prop :=
  ∀ t w, (∀ m ∈ t.methods, A m) → Keeps I A w →
    Ok (expose t) w fun ms w' => (∀ m ∈ ms, A m) ∧ Keeps I A w'

variable (hload : Loads load I A)
include hload

theorem supertype_of_loaded {w : Walk σ} (hw : Keeps I A w) (name : String) (sub : TypeInfo)
    (role : SupertypeRole) : Ok (supertype load name sub role) w fun t w' =>
      (∀ m ∈ t.methods, A m) ∧ Keeps I A w' := by
  have hlift : Ok (lift (load name)) w fun t w' => (∀ m ∈ t.methods, A m) ∧ Keeps I A w' :=
    ok_mono (lift_ok (hload name w.types hw.types)) fun t w' ⟨⟨ht, htypes⟩, hviews⟩ =>
      ⟨ht, htypes, hviews ▸ hw.views⟩
  refine ok_tryCatch hlift fun f w' => ?_
  split
  · exact ok_throw _
  · exact ok_throw _

theorem superclass?_of_loaded {w : Walk σ} (hw : Keeps I A w) (t : TypeInfo) :
    Ok (superclass? load t) w fun s? w' =>
      (∀ s ∈ s?, ∀ m ∈ s.methods, A m) ∧ Keeps I A w' := by
  unfold superclass?
  split
  · exact ok_pure ⟨fun _ h => absurd h (Option.not_mem_none _), hw⟩
  · refine ok_bind (supertype_of_loaded hload hw _ t .superclass) fun s w' hs => ok_pure ?_
    exact ⟨fun _ h => Option.some.inj h ▸ hs.1, hs.2⟩

theorem inheritedFromSuperclass_of_loaded {expose : TypeInfo → Step σ (List Method)}
    (hexpose : Finds expose I A) {w : Walk σ} (hw : Keeps I A w) (t : TypeInfo) :
    Ok (inheritedFromSuperclass load expose t) w fun ms w' => (∀ m ∈ ms, A m) ∧ Keeps I A w' := by
  unfold inheritedFromSuperclass
  refine ok_bind (superclass?_of_loaded hload hw t) fun s? w₁ ⟨hs, hw₁⟩ => ?_
  cases s? with
  | none => exact ok_pure ⟨fun _ hm => absurd hm List.not_mem_nil, hw₁⟩
  | some s =>
    refine ok_bind (hexpose s w₁ (hs s rfl) hw₁) fun ms w₂ ⟨hms, hw₂⟩ => ok_pure ⟨fun m hm => ?_, hw₂⟩
    exact hms m (List.mem_filter.mp hm).1

theorem inheritedFromInterfaces_of_loaded {expose : TypeInfo → Step σ (List Method)}
    (hexpose : Finds expose I A) {w : Walk σ} (hw : Keeps I A w) (t : TypeInfo)
    (taken : List Slot) : Ok (inheritedFromInterfaces load expose t taken) w fun ms w' =>
      (∀ m ∈ ms, A m) ∧ Keeps I A w' := by
  unfold inheritedFromInterfaces
  refine ok_bind (ok_mapM (Keeps I A) (fun _ part => ∀ m ∈ part, A m) hw fun name _ w₁ hw₁ => ?_)
    fun parts w₂ ⟨hparts, hw₂⟩ => ok_pure ⟨fun m hm => ?_, hw₂⟩
  · refine ok_bind (supertype_of_loaded hload hw₁ name t .interface) fun i w₂ ⟨hi, hw₂⟩ => ?_
    refine ok_bind (hexpose i w₂ hi hw₂) fun ms w₃ ⟨hms, hw₃⟩ => ok_pure ⟨fun m hm => ?_, hw₃⟩
    exact hms m (List.mem_filter.mp hm).1
  · obtain ⟨part, hpart, hm⟩ := List.mem_flatten.mp hm
    exact forall_of_forall₂ hparts part hpart m hm

/-- The view of a type is made of methods of loaded types. -/
theorem exposed_of_loaded (depth : Nat) : Finds (exposed load depth) I A := by
  induction depth with
  | zero => exact fun _ _ _ _ => ok_throw _
  | succ depth ih =>
    intro t w ht hw
    unfold exposed
    refine ok_get_bind ?_
    split
    · rename_i ms hms
      obtain ⟨l₁, l₂, hviews, -⟩ := List.lookup_eq_some_iff.mp hms
      exact ok_pure ⟨hw.views (t.name, ms) (by simp [hviews]), hw⟩
    · refine ok_bind (inheritedFromSuperclass_of_loaded hload ih hw t) fun fs w₁ hsuper => ?_
      obtain ⟨hfs, hw₁⟩ := hsuper
      refine ok_bind (inheritedFromInterfaces_of_loaded hload ih hw₁ t _) fun fi w₂ hinterfaces => ?_
      obtain ⟨hfi, hw₂⟩ := hinterfaces
      have hown : ∀ m ∈ ownPublic t, A m := fun m hm => ht m (List.mem_filter.mp hm).1
      have hall : ∀ m ∈ ownPublic t ++ fs ++ fi, A m :=
        List.forall_mem_append.mpr ⟨List.forall_mem_append.mpr ⟨hown, hfs⟩, hfi⟩
      exact ok_modify_bind (ok_pure ⟨hall, hw₂.types, List.forall_mem_cons.mpr ⟨hall, hw₂.views⟩⟩)

theorem chain_of_loaded (depth n : Nat) {t : TypeInfo} (ht : ∀ m ∈ t.methods, A m) {w : Walk σ}
    (hw : Keeps I A w) : Ok (chain load depth n t) w fun found w' =>
      (∀ m ∈ Resolution.walked found, A m) ∧ Keeps I A w' := by
  induction n generalizing t w with
  | zero => exact ok_throw _
  | succ n ih =>
    unfold chain
    split
    · exact ok_pure ⟨fun _ hm => absurd hm List.not_mem_nil, hw⟩
    refine ok_bind (exposed_of_loaded hload depth t w ht hw) fun ms w₁ ⟨hms, hw₁⟩ => ?_
    have hlevel : ∀ m ∈ t.methods ++ ms, A m := List.forall_mem_append.mpr ⟨ht, hms⟩
    refine ok_bind (superclass?_of_loaded hload hw₁ t) fun s? w₂ ⟨hs, hw₂⟩ => ?_
    have hcons : ∀ rest, (∀ m ∈ Resolution.walked rest, A m) →
        ∀ m ∈ Resolution.walked (⟨t, t.methods, ms⟩ :: rest), A m := fun rest hrest m hm =>
      (Resolution.mem_walked_cons.mp hm).elim (hlevel m) (hrest m)
    cases s? with
    | none => exact ok_pure ⟨hcons [] fun _ hm => absurd hm List.not_mem_nil, hw₂⟩
    | some s =>
      refine ok_bind (ih (hs s rfl) hw₂) fun rest w₃ ⟨hrest, hw₃⟩ => ?_
      exact ok_pure ⟨hcons rest hrest, hw₃⟩

/-- Whatever holds of all methods of the types that are loaded holds of all methods in the levels
that a walk finds. -/
theorem levels_of_loaded (depth : Nat) {t : TypeInfo} (ht : ∀ m ∈ t.methods, A m) {w : Walk σ}
    (hw : Keeps I A w) : Ok (levels load depth t) w fun found _ =>
      ∀ m ∈ Resolution.walked found, A m := by
  unfold levels
  split
  · exact ok_throw _
  · exact ok_mono (chain_of_loaded hload depth depth ht hw) fun _ _ h => h.1

end Walk

/-! ## Stubs -/

namespace TypeSupply

variable {σ : Type} {supply : TypeSupply σ} {I : σ → Prop} {A : Method → Prop}

/-- The members of a stub are methods that the walk found, and its constructors are those of its
target. -/
theorem resolve_of_loaded (hload : Walk.Loads supply.load I A) {name : String} {s : σ} (hs : I s) :
    Ok (supply.resolve name) ⟨s, []⟩ fun r _ => (∀ p ∈ r.members, A p.2) ∧
      Resolution.selectConstructors r.target = .ok r.constructors := by
  have hstart : Walk.Keeps I A ⟨s, []⟩ := ⟨hs, fun _ hp => absurd hp List.not_mem_nil⟩
  have htarget : Ok (Walk.lift (supply.load name)) ⟨s, []⟩ fun t w =>
      (∀ m ∈ t.methods, A m) ∧ Walk.Keeps I A w :=
    ok_mono (Walk.lift_ok (hload name s hs)) fun t w ⟨⟨ht, htypes⟩, hviews⟩ =>
      ⟨ht, htypes, hviews ▸ hstart.views⟩
  unfold resolve
  refine ok_bind htarget fun t w₁ ⟨ht, hw₁⟩ => ?_
  split
  · exact ok_throw _
  have hlevels : Ok (supply.levels t) w₁ fun found _ => ∀ m ∈ Resolution.walked found, A m := by
    unfold levels
    refine ok_get_bind (ok_bind (Walk.levels_of_loaded hload _ ht hw₁) fun found w₂ hfound => ?_)
    exact ok_bind (ok_self _ _) fun _ _ _ => ok_pure hfound
  refine ok_bind hlevels fun found w₂ hfound => ?_
  refine ok_bind (ok_self _ _) fun r w₃ hrun => ok_bind (ok_self _ _) fun _ _ _ => ok_pure ?_
  have hr := Resolution.resolved_of_run hrun
  refine ⟨fun p hp => ?_, hr.target ▸ hr.constructors⟩
  rw [hr.members] at hp
  have hlast := Resolution.get?_collectAbstract found p.1
  rw [Keyed.get?_of_mem (Resolution.nodup_keys_collectAbstract found) (List.mem_filter.mp hp).1]
    at hlast
  exact hfound p.2 (Resolution.mem_abstractOf.mp (List.mem_of_getLast? hlast.symm)).1

end TypeSupply

/-- All members of a stub and all its constructors have one of the kinds of access, and no constructor
is private. -/
theorem Generator.resolve_access {g : Generator} {typeName : String} {w : Workshop}
    {extraRoots : List Path} : Ok (g.resolve typeName extraRoots) w fun r _ =>
      (∀ p ∈ r.members, p.2.visibility.IsJava) ∧
        ∀ c ∈ r.constructors, c.visibility.IsJava ∧ c.visibility ≠ .priv := by
  refine ok_mono inspect_ok fun r _ ⟨_, _, l, walk, hmade, hrun⟩ => ?_
  have hl : l.Accessible := by
    have hmoves := Moves.moves (R := Library.Leaves Library.Accessible)
      (x := Library.registerUnits (Library.readUnits g.files).1)
      (Library.ofUnits (g.roots ++ extraRoots) w.tree (Library.readUnits g.files).1) nofun
    change Library.registerUnits _ _ = _ at hmade
    rwa [hmade] at hmoves
  have hload : Walk.Loads Library.supply.load Library.Accessible fun m => m.visibility.IsJava :=
    fun name s hs => ok_mono (Library.load_access name s hs) fun _ _ h => ⟨h.1.methods, h.2⟩
  obtain ⟨hmembers, hconstructors⟩ := TypeSupply.resolve_of_loaded hload hl r walk hrun
  obtain ⟨-, l', htarget⟩ := Library.supply.resolve_ok typeName (Inspection.start l) r walk hrun
  refine ⟨hmembers, fun c hc => ?_⟩
  rw [Resolution.eq_of_selectConstructors hconstructors] at hc
  split at hc
  · exact absurd hc List.not_mem_nil
  · obtain ⟨hc, hprivate⟩ := List.mem_filter.mp hc
    have hall := (Library.load_access typeName l hl r.target l' htarget).1.constructors
    exact ⟨hall c hc, by simpa using hprivate⟩

end StubWriter
