import Mathlib.Logic.Relation
import StubWriter.Proofs.Run
import StubWriter.Library.Describe

/-!
# Tables of types

A table holds a type for some names, and stays what it is while types are loaded. The types that
matter are those that declarations describe, and how one of them stands above another is a matter of
the names that they give.

* `TypeTable.Serves`: whatever loading finds is what the table holds.
* `TypeInfo.Described`: the type of some declaration. `TypeInfo.Described.interface` is what
  `describe` guarantees of an interface.
* `TypeTable.Reaches`: the supertypes of a type, direct and indirect, below `java.lang.Object`.
-/

namespace StubWriter

open Run

/-! ## Described types -/

/-- A type that some declaration describes. -/
def TypeInfo.Described (t : TypeInfo) : Prop :=
  ∃ (d : Declared) (package origin : String) (scope : Scope) (l l' : Library),
    d.describe package origin scope l = .ok t l'

theorem MethodDecl.describe_ok (m : MethodDecl) (owner : String) (inInterface : Bool)
    (scope : Scope) (l : Library) :
    Ok (m.describe owner inInterface scope) l fun r _ =>
      r.visibility = m.visibility inInterface ∧ r.isAbstract = m.isAbstract inInterface ∧
        r.isStatic = m.modifiers.contains "static" := by
  unfold MethodDecl.describe
  refine ok_bind (ok_self _ _) fun inner _ _ => ?_
  refine ok_bind (ok_self _ _) fun returns _ _ => ?_
  refine ok_bind (ok_self _ _) fun params _ _ => ?_
  refine ok_bind (ok_self _ _) fun throws _ _ => ?_
  exact ok_pure ⟨rfl, rfl, rfl⟩

/-- What goes without saying for a method of an interface. -/
def Method.OfInterface (m : Method) : Prop :=
  (m.visibility = .pub ∨ m.visibility = .priv) ∧ (m.isAbstract = true → m.isStatic = false)

theorem MethodDecl.describe_ofInterface (m : MethodDecl) (owner : String) (scope : Scope)
    (l : Library) : Ok (m.describe owner true scope) l fun r _ => r.OfInterface := by
  refine ok_mono (m.describe_ok owner true scope l) fun r _ ⟨hv, ha, hs⟩ => ⟨?_, fun habs => ?_⟩
  · rw [hv, MethodDecl.visibility, if_pos rfl]
    split
    · exact .inr rfl
    · exact .inl rfl
  · rw [ha, MethodDecl.isAbstract, if_pos rfl, Bool.and_eq_true] at habs
    rw [hs]
    simpa using habs.2

theorem Declared.superclass_ok (d : Declared) (scope : Scope) (l : Library) :
    Ok (d.superclass scope) l fun name _ => d.decl.kind = .interfaceDecl → name = none := by
  unfold Declared.superclass
  cases hk : d.decl.kind with
  | interfaceDecl => exact ok_pure fun _ => rfl
  | _ => exact ok_mono (ok_self _ _) fun _ _ _ h => nomatch h

theorem Declared.methods_ok (d : Declared) (scope : Scope) (l : Library) :
    Ok (d.methods scope) l fun ms _ =>
      d.decl.kind = .interfaceDecl → ∀ m ∈ ms, m.OfInterface := by
  unfold Declared.methods
  cases hk : d.decl.kind with
  | interfaceDecl =>
    refine ok_mono (ok_mapM_forall Method.OfInterface fun m _ l₁ => ?_) fun _ _ h _ => h
    exact m.describe_ofInterface d.fullName scope l₁
  | _ => exact ok_mono (ok_self _ _) fun _ _ _ h => nomatch h

theorem Declared.describe_ok (d : Declared) (package origin : String) (scope : Scope)
    (l : Library) :
    Ok (d.describe package origin scope) l fun t _ =>
      t.isInterface = true → t.superclass = none ∧ ∀ m ∈ t.methods, m.OfInterface := by
  unfold Declared.describe
  refine ok_bind (ok_self _ _) fun inner l₁ _ => ?_
  refine ok_bind (d.superclass_ok inner l₁) fun superclass l₂ hsuper => ?_
  refine ok_bind (ok_self _ _) fun interfaces l₃ _ => ?_
  refine ok_bind (d.methods_ok inner l₃) fun methods l₄ hmethods => ?_
  refine ok_bind (ok_self _ _) fun constructors l₅ _ => ?_
  refine ok_pure fun hinterface => ?_
  have hk : d.decl.kind = .interfaceDecl := by
    revert hinterface
    cases hk : d.decl.kind <;> simp [TypeInfo.isInterface, DeclKind.typeKind]
  exact ⟨hsuper hk, hmethods hk⟩

/-- An interface has no superclass, its methods are public or private, and its abstract methods are
not static. -/
theorem TypeInfo.Described.interface {t : TypeInfo} (h : t.Described) (hi : t.isInterface = true) :
    t.superclass = none ∧ ∀ m ∈ t.methods, m.OfInterface := by
  obtain ⟨d, package, origin, scope, l, l', hrun⟩ := h
  exact d.describe_ok package origin scope l t l' hrun hi

/-- An interface with a private or static method of a slot. -/
def TypeInfo.Withdraws (i : TypeInfo) (k : Slot) : Prop :=
  i.isInterface = true ∧
    ∃ m ∈ i.methods, m.slot = k ∧ (m.visibility = .priv ∨ m.isStatic = true)

/-- A method that an interface declares without withdrawing its slot goes on to subtypes. -/
theorem Method.OfInterface.inherited {i : TypeInfo} {m : Method} (h : m.OfInterface)
    (hi : i.isInterface = true) (hm : m ∈ i.methods) (hfree : ¬ i.Withdraws m.slot) :
    m.visibility = .pub ∧ m.isStatic = false := by
  constructor
  · exact h.1.resolve_right fun hpriv => hfree ⟨hi, m, hm, rfl, .inl hpriv⟩
  · by_contra hstatic
    exact hfree ⟨hi, m, hm, rfl, .inr (by simpa using hstatic)⟩

/-! ## Tables -/

/-- A fixed choice of types by their names. -/
abbrev TypeTable := String → Option TypeInfo

namespace TypeTable

/-- In all states of `inv`, which loading keeps, whatever is loaded is what the table holds. -/
structure Serves {σ : Type} (table : TypeTable) (load : String → EStateM Failure σ TypeInfo)
    (inv : σ → Prop) : Prop where
  found : ∀ {name s t s'}, inv s → load name s = .ok t s' → table name = some t
  kept : ∀ {name s t s'}, inv s → load name s = .ok t s' → inv s'

/-- The types of the table are described by declarations and stand under their own names. -/
structure Described (table : TypeTable) : Prop where
  name_eq : ∀ {name t}, table name = some t → t.name = name
  described : ∀ {name t}, table name = some t → t.Described

/-- `s` is the superclass or an interface of `t`, below `java.lang.Object`. -/
def Above (table : TypeTable) (t s : TypeInfo) : Prop :=
  ∃ name ∈ t.supertypes, name ≠ objectName ∧ table name = some s

/-- `s` is `t` or one of its supertypes, direct or indirect, with nothing behind
`java.lang.Object`. -/
def Reaches (table : TypeTable) : TypeInfo → TypeInfo → Prop :=
  Relation.ReflTransGen table.Above

/-- The names in the list of interfaces of every type that `t` reaches are those of interfaces. -/
def InterfacesAbove (table : TypeTable) (t : TypeInfo) : Prop :=
  ∀ s, table.Reaches t s → ∀ name ∈ s.interfaces, ∀ i, table name = some i → i.isInterface = true

theorem InterfacesAbove.mono {table : TypeTable} {t s : TypeInfo} (h : table.InterfacesAbove t)
    (hts : table.Above t s) : table.InterfacesAbove s :=
  fun u hu => h u (hu.head hts)

end TypeTable

end StubWriter
