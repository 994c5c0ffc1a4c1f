import StubWriter.Library.Describe
import StubWriter.TypeSupply
import StubWriter.Proofs.Hierarchy.View
import StubWriter.Proofs.Resolution.Slots

/-!
# Resolutions over a table

A supply of types that never leaves its table: what a successful resolution was made of, and what it
leaves for the next one.

* `TypeSupply.LevelsFrom`: the levels over which a resolution of a name is made.
* `TypeTable.Backs`: all that a supply does stays with the table.
* `resolve_ok`: the levels of a resolution are the chain of its target, and the walk after it is as
  good as the one before it.
* `TypeTable.supply`, `TypeTable.ofList`: a supply from a table, and a table from a list of types.
* `diamond`: three interfaces, one of which is reached on two paths.
-/

namespace StubWriter

open Run

/-- The levels over which a resolution of `name` from `w` is made. -/
def TypeSupply.LevelsFrom {σ : Type} (supply : TypeSupply σ) (name : String) (w : Walk σ)
    (levels : List Level) : Prop :=
  ∃ t w₁ w₂, Walk.lift (supply.load name) w = .ok t w₁ ∧
    Walk.levels supply.load (supply.depth w₁.types) t w₁ = .ok levels w₂

/-- Assignability as a resolution asks for it. -/
abbrev TypeSupply.assignable {σ : Type} (supply : TypeSupply σ) (target source : String) :
    Walk.Step σ Bool :=
  Walk.lift (supply.isAssignable target source)

namespace TypeTable

section Runs

variable {σ : Type} {table : TypeTable} {supply : TypeSupply σ} {inv : σ → Prop}

/-- A supply that serves what the table holds, whatever else it is asked. -/
structure Backs (table : TypeTable) (supply : TypeSupply σ) (inv : σ → Prop) : Prop where
  serves : table.Serves supply.load inv
  compared : ∀ {a b s}, inv s → Ok (supply.isAssignable a b) s fun _ s' => inv s'
  reported : ∀ {e s}, inv s → Ok (supply.report e) s fun _ s' => inv s'

namespace Backs

variable (h : table.Backs supply inv)
include h

theorem assignable_keeps (a b : String) (w : Walk σ) (hw : table.Remembers inv w) :
    Ok (supply.assignable a b) w fun _ w' => table.Remembers inv w' :=
  lift_keeps hw (h.compared hw.types)

theorem reportSlots_keeps (slots : List Slot) {s : σ} (hs : inv s) :
    Ok (supply.reportSlots slots) s fun _ s' => inv s' := by
  induction slots generalizing s with
  | nil => exact ok_pure hs
  | cons slot slots ih =>
    unfold TypeSupply.reportSlots
    exact ok_bind (h.reported hs) fun _ s₁ h₁ => ih h₁

theorem levels_ok (htable : table.Described) {name : String} {t : TypeInfo}
    (ht : table name = some t) {w : Walk σ} (hw : table.Remembers inv w) :
    Ok (supply.levels t) w fun levels w' =>
      ((∃ w₁, Walk.levels supply.load (supply.depth w.types) t w = .ok levels w₁) ∧
        table.Chain name levels) ∧ table.Remembers inv w' := by
  unfold TypeSupply.levels
  refine ok_get_bind (ok_bind (ok_self _ _) fun levels w₁ hrun => ?_)
  obtain ⟨hchain, hw₁⟩ := TypeTable.levels_ok h.serves htable.name_eq _ ht hw levels w₁ hrun
  refine ok_bind (lift_keeps hw₁ (h.reported hw₁.types)) fun _ w₂ hw₂ => ?_
  exact ok_pure ⟨⟨⟨w₁, hrun⟩, hchain⟩, hw₂⟩

/-- A successful resolution is made over the chain of its target. -/
theorem resolve_ok (htable : table.Described) (name : String) {w : Walk σ}
    (hw : table.Remembers inv w) :
    Ok (supply.resolve name) w fun r w' =>
      (∃ levels, supply.LevelsFrom name w levels ∧ table name = some r.target ∧
        table.Chain name levels ∧
          Resolution.Resolved supply.assignable (table.Remembers inv) r.target levels r) ∧
        table.Remembers inv w' := by
  unfold TypeSupply.resolve
  refine ok_bind (ok_self _ _) fun t w₁ hload => ?_
  obtain ⟨ht, hw₁⟩ := lift_load_ok h.serves hw name t w₁ hload
  split
  · exact ok_throw _
  refine ok_bind (h.levels_ok htable ht hw₁) ?_
  rintro levels w₂ ⟨⟨⟨w₃, hrun⟩, hchain⟩, hw₂⟩
  refine ok_bind (Resolution.resolve_ok h.assignable_keeps t levels hw₂) ?_
  rintro r w₄ ⟨hr, hw₄⟩
  refine ok_bind (lift_keeps hw₄ (h.reportSlots_keeps _ hw₄.types)) fun _ w₅ hw₅ => ?_
  refine ok_pure ⟨?_, hw₅⟩
  obtain rfl := hr.target
  exact ⟨levels, ⟨r.target, w₁, w₃, hload, hrun⟩, ht, hchain, hr⟩

end Backs

end Runs

/-! ## Supplies from tables -/

/-- The types of a table by an assignability that is known beforehand. -/
def supply (table : TypeTable) (rel : String → String → Bool) (depth : Nat) : TypeSupply Unit where
  load := fun name =>
    match table name with
    | some t => pure t
    | none => throw (.typeNotFound name)
  isAssignable := fun target source => pure (rel target source)
  report := fun _ => pure ()
  depth := fun _ => depth

theorem backs_supply (table : TypeTable) (rel : String → String → Bool) (depth : Nat) :
    table.Backs (table.supply rel depth) fun _ => True where
  serves := {
    found := by
      intro name s t s' _ hrun
      simp only [supply] at hrun
      cases h : table name with
      | none => rw [h] at hrun; cases hrun
      | some u => rw [h] at hrun; cases hrun; rfl
    kept := fun _ _ => trivial }
  compared := fun _ _ _ _ => trivial
  reported := fun _ _ _ _ => trivial

/-- The types of a list by their names; of types with one name the first one counts. -/
def ofList (ts : List TypeInfo) : TypeTable := fun name =>
  ts.find? fun t => t.name == name

theorem described_ofList {ts : List TypeInfo} (h : ∀ t ∈ ts, t.Described) :
    (ofList ts).Described where
  name_eq := fun hfound => by simpa using List.find?_some hfound
  described := fun hfound => h _ (List.mem_of_find?_eq_some hfound)

theorem interfacesAbove_ofList {ts : List TypeInfo} (h : ∀ t ∈ ts, t.isInterface = true)
    (t : TypeInfo) : (ofList ts).InterfacesAbove t :=
  fun _ _ _ _ i hi => h i (List.mem_of_find?_eq_some hi)

end TypeTable

/-! ### Interfaces with one method -/

/-- A method `f` without parameters. -/
def plainMethod (hasBody : Bool) : MethodDecl where
  name := "f"
  modifiers := []
  typeParams := []
  returns := none
  params := []
  throws := []
  hasBody := hasBody

/-- An interface of the unnamed package that declares `f` as often as there are bodies. -/
def plainDeclared (name : String) (extended : List String) (bodies : List Bool) : Declared where
  decl := {
    kind := .interfaceDecl
    name := name
    modifiers := []
    typeParams := []
    extended := extended.map fun n => .named [n] 0
    implemented := []
    methods := bodies.map plainMethod
    constructors := []
    nested := [] }
  fullName := name
  inInterface := false

/-- A scope in which the extended interfaces have their own names. -/
def plainScope (extended : List String) : Scope where
  package := ""
  singleImports := []
  onDemand := []
  localTypes := extended.map fun n => (n, n)
  typeVars := []

def plainInterface (name : String) (extended : List String) (bodies : List Bool) : TypeInfo where
  name := name
  simpleName := name
  kind := .interfaceType
  package := ""
  visibility := .pkg
  modifiers := []
  superclass := none
  interfaces := extended
  constructors := []
  methods := bodies.map fun hasBody =>
    ⟨name, "f", "void", [], [], .pub, !hasBody, false, false⟩
  sourceFile := some ""

section Plain

variable {name : String} {extended : List String} {bodies : List Bool} {l : Library}

theorem modifiers_plain : (plainDeclared name extended bodies).modifiers = [] := by
  simp [Declared.modifiers, plainDeclared, List.eraseDups]

/-- The header and the members of a declaration make up the type that it describes. -/
theorem plainInterface_described
    (hinterfaces : (plainDeclared name extended bodies).interfaces (plainScope extended) l =
      .ok extended l)
    (hmethods : (plainDeclared name extended bodies).methods (plainScope extended) l =
      .ok (plainInterface name extended bodies).methods l) :
    (plainInterface name extended bodies).Described := by
  refine ⟨plainDeclared name extended bodies, "", "", plainScope extended, l, l, ?_⟩
  have hscope : (plainScope extended).enter (plainDeclared name extended bodies).decl.typeParams l =
      .ok (plainScope extended) l := rfl
  have hsuper : (plainDeclared name extended bodies).superclass (plainScope extended) l =
      .ok none l := rfl
  unfold Declared.describe Declared.visibility
  rw [modifiers_plain]
  simp only [bind, EStateM.bind, hscope, hsuper, hinterfaces, hmethods]
  rfl

end Plain

/-- `K` makes the default method of `I` abstract again, and `J` extends both of them. -/
def diamond : List TypeInfo :=
  [plainInterface "I" [] [true], plainInterface "K" ["I"] [false], plainInterface "J" ["I", "K"] []]

theorem diamond_described : (TypeTable.ofList diamond).Described := by
  refine TypeTable.described_ofList fun t ht => ?_
  simp only [diamond, List.mem_cons, List.not_mem_nil, or_false] at ht
  rcases ht with rfl | rfl | rfl
  · exact plainInterface_described (l := .ofRoots [] default) rfl rfl
  · exact plainInterface_described (l := .ofRoots [] default) rfl rfl
  · exact plainInterface_described (l := .ofRoots [] default) rfl rfl

theorem diamond_run :
    ∃ r w', ((TypeTable.ofList diamond).supply (· == ·) 3).resolve "J" ⟨(), []⟩ = .ok r w' ∧
      r.target = plainInterface "J" ["I", "K"] [] ∧ r.members = [] ∧
      r.decisions = [(⟨"f", []⟩, .drop)] :=
  ⟨_, _, rfl, rfl, rfl, rfl⟩

theorem diamond_interfaces (t : TypeInfo) : (TypeTable.ofList diamond).InterfacesAbove t :=
  TypeTable.interfacesAbove_ofList (by decide) t

end StubWriter
