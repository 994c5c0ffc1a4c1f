import StubWriter.Proofs.TypeGraph

/-!
# Edges and the types that stand

Adding a type puts it in the place of the type of its name, but its edges join the ones that are
there. So the edges of a name lead to the supertypes of every type that ever had the name, and the
type that stands has to have them all for its edges to say what it says.

* `get?_addTypes`, `mem_targets_addTypes`: the types that stand, and the edges, after a sequence of
  types.
* `addTypes_same_iff`: when adding types changes nothing.
* `mirrors_iff`: when the edges of a name lead to the supertypes of its type, and when its ancestors
  are what the types that stand lead to.
-/

namespace StubWriter.TypeGraph

open Relation

/-- Adds types one after the other. -/
def addTypes (g : TypeGraph) (types : List TypeInfo) : TypeGraph :=
  types.foldl addType g

@[simp]
theorem addTypes_nil (g : TypeGraph) : g.addTypes [] = g :=
  rfl

@[simp]
theorem addTypes_cons (g : TypeGraph) (t : TypeInfo) (types : List TypeInfo) :
    g.addTypes (t :: types) = (g.addType t).addTypes types :=
  rfl

/-- The last type of a name. -/
def lastOf (types : List TypeInfo) (name : String) : Option TypeInfo :=
  (types.filter (·.name == name)).getLast?

theorem lastOf_cons (t : TypeInfo) (types : List TypeInfo) (name : String) :
    lastOf (t :: types) name =
      (lastOf types name).or (if name = t.name then some t else none) := by
  unfold lastOf
  by_cases hname : t.name = name
  · rw [List.filter_cons_of_pos (by simpa using hname), List.getLast?_cons, if_pos hname.symm]
    cases (types.filter (·.name == name)).getLast? <;> rfl
  · rw [List.filter_cons_of_neg (by simpa using hname), if_neg (Ne.symm hname), Option.or_none]

/-- The last type that was added under a name is the one that stands. -/
theorem get?_addTypes (g : TypeGraph) (types : List TypeInfo) (name : String) :
    (g.addTypes types).get? name = (lastOf types name).or (g.get? name) := by
  induction types generalizing g with
  | nil => rfl
  | cons t types ih =>
    rw [addTypes_cons, ih, get?_addType, lastOf_cons, Option.or_assoc]
    split <;> rfl

/-- No type takes its edges away when another one comes in its place. -/
theorem mem_targets_addTypes (g : TypeGraph) (types : List TypeInfo) (a b : String) :
    b ∈ (g.addTypes types).targets a ↔
      b ∈ g.targets a ∨ ∃ t ∈ types, t.name = a ∧ b ∈ t.supertypes := by
  induction types generalizing g with
  | nil => simp
  | cons t types ih =>
    rw [addTypes_cons, ih, mem_targets_addType]
    simp only [List.mem_cons, exists_eq_or_imp, eq_comm (a := a)]
    tauto

theorem Closed.addTypes {g : TypeGraph} (h : g.Closed) (types : List TypeInfo) :
    (g.addTypes types).Closed := by
  induction types generalizing g with
  | nil => exact h
  | cons t types ih => exact ih (h.addType t)

theorem lastOf_name {types : List TypeInfo} {t : TypeInfo} (ht : t ∈ types) :
    ∃ u, lastOf types t.name = some u := by
  have hne : types.filter (·.name == t.name) ≠ [] :=
    List.ne_nil_of_mem (List.mem_filter.mpr ⟨ht, by simp⟩)
  exact ⟨_, List.getLast?_eq_some_getLast hne⟩

theorem lastOf_mem {types : List TypeInfo} {name : String} {t : TypeInfo}
    (h : lastOf types name = some t) : t ∈ types ∧ t.name = name := by
  have hmem := List.mem_of_getLast? h
  rw [List.mem_filter] at hmem
  exact ⟨hmem.1, by simpa using hmem.2⟩

/-- Adding types changes nothing if and only if they stand there with all their edges already. -/
theorem addTypes_same_iff (g : TypeGraph) (types : List TypeInfo) :
    ((∀ name, (g.addTypes types).get? name = g.get? name) ∧
        ∀ a b, (g.addTypes types).Edge a b ↔ g.Edge a b) ↔
      ∀ t ∈ types, lastOf types t.name = g.get? t.name ∧ ∀ b ∈ t.supertypes, g.Edge t.name b := by
  constructor
  · rintro ⟨hget, hedge⟩ t ht
    refine ⟨?_, fun b hb => ?_⟩
    · obtain ⟨u, hu⟩ := lastOf_name ht
      have hstands := hget t.name
      rw [get?_addTypes, hu] at hstands
      exact hu.trans hstands
    · exact (hedge t.name b).mp ((mem_targets_addTypes g types _ b).mpr (.inr ⟨t, ht, rfl, hb⟩))
  · intro h
    refine ⟨fun name => ?_, fun a b => (mem_targets_addTypes g types a b).trans ?_⟩
    · rw [get?_addTypes]
      cases hlast : lastOf types name with
      | none => rfl
      | some t =>
        obtain ⟨ht, rfl⟩ := lastOf_mem hlast
        exact hlast.symm.trans (h t ht).1
    · refine or_iff_left_of_imp ?_
      rintro ⟨t, ht, rfl, hb⟩
      exact (h t ht).2 b hb

/-! ## Types and their edges -/

/-- The step from a type that stands to a supertype of it. -/
def Extends (g : TypeGraph) (a b : String) : Prop :=
  ∃ t, g.get? a = some t ∧ b ∈ t.supertypes

section

variable {types : List TypeInfo}

theorem edge_ofTypes (a b : String) :
    (empty.addTypes types).Edge a b ↔ ∃ t ∈ types, t.name = a ∧ b ∈ t.supertypes := by
  rw [Edge, mem_targets_addTypes]
  exact or_iff_right List.not_mem_nil

/-- A type that stands was added, so its own edges are there. -/
theorem Extends.edge {a b : String} (h : (empty.addTypes types).Extends a b) :
    (empty.addTypes types).Edge a b := by
  obtain ⟨t, ht, hb⟩ := h
  rw [get?_addTypes, show empty.get? a = none from rfl, Option.or_none] at ht
  obtain ⟨hmem, hname⟩ := lastOf_mem ht
  exact (edge_ofTypes a b).mpr ⟨t, hmem, hname, hb⟩

/-- The edges of a name lead to the supertypes of its type and nowhere else if no earlier type of the
name had another supertype. The ancestors of a name are what the types that stand lead to if this
holds of all that it reaches, or what is left of another supertype leads nowhere new. -/
theorem mirrors_iff (types : List TypeInfo) :
    let g := empty.addTypes types
    (∀ name t, g.get? name = some t →
      ((∀ b, b ∈ g.targets name ↔ b ∈ t.supertypes) ↔
        ∀ s ∈ types, s.name = name → s.supertypes ⊆ t.supertypes)) ∧
      ∀ a, (∀ b, b ∈ g.ancestors a ↔ b ≠ a ∧ ReflTransGen g.Extends a b) ↔
        ∀ s ∈ types, ReflTransGen g.Extends a s.name →
          ∀ b ∈ s.supertypes, ReflTransGen g.Extends a b := by
  intro g
  have hreaches : ∀ a b, ReflTransGen g.Extends a b → ReflTransGen g.Edge a b :=
    ReflTransGen.mono fun _ _ => Extends.edge
  refine ⟨fun name t ht => ⟨fun h s hs hname b hb => ?_, fun h b => ⟨fun hb => ?_, fun hb => ?_⟩⟩,
    fun a => ⟨fun h s hs hreach b hb => ?_, fun h b => ?_⟩⟩
  · exact (h b).mp ((edge_ofTypes name b).mpr ⟨s, hs, hname, hb⟩)
  · obtain ⟨s, hs, hname, hb⟩ := (edge_ofTypes name b).mp hb
    exact h s hs hname hb
  · exact Extends.edge ⟨t, ht, hb⟩
  · by_cases hne : b = a
    · exact hne ▸ .refl
    · have hedges := hreaches a s.name hreach
      have hedge : g.Edge s.name b := (edge_ofTypes s.name b).mpr ⟨s, hs, rfl, hb⟩
      have hancestor := (mem_ancestors (closed_empty.addTypes types) a b).mpr
        ⟨hne, hedges.tail hedge⟩
      exact ((h b).mp hancestor).2
  · rw [mem_ancestors (closed_empty.addTypes types)]
    refine and_congr_right' ⟨fun hedges => ?_, hreaches a b⟩
    -- Each edge on the way is of a type that was added, and what it leads to is reached.
    induction hedges with
    | refl => exact .refl
    | tail _ hedge ih =>
      obtain ⟨s, hs, hname, hb⟩ := (edge_ofTypes _ _).mp hedge
      exact h s hs (hname ▸ ih) _ hb

end

/-! ## A class that changes its superclass -/

def classBelow (name superclass : String) : TypeInfo where
  name := name
  simpleName := name
  kind := .classType
  package := ""
  visibility := .pub
  modifiers := []
  superclass := some superclass
  interfaces := []
  constructors := []
  methods := []
  sourceFile := none

def changedSuperclass : List TypeInfo :=
  [classBelow "A" "B", classBelow "A" "C"]

theorem mirrors_changed :
    (empty.addTypes changedSuperclass).get? "A" = some (classBelow "A" "C") ∧
      ((∀ b, b ∈ (empty.addTypes changedSuperclass).targets "A" ↔ b ∈ (classBelow "A" "C").supertypes) ↔
        ∀ s ∈ changedSuperclass, s.name = "A" → s.supertypes ⊆ (classBelow "A" "C").supertypes) :=
  have hstands : (empty.addTypes changedSuperclass).get? "A" = some (classBelow "A" "C") := by decide
  ⟨hstands, (mirrors_iff changedSuperclass).1 _ _ hstands⟩

/-- The edge to the superclass that a class had before is still there. -/
theorem not_mirrors : ¬ ∀ types : List TypeInfo,
    (∀ name t, (empty.addTypes types).get? name = some t →
      ∀ b, b ∈ (empty.addTypes types).targets name ↔ b ∈ t.supertypes) ∧
    ∀ a b, b ∈ (empty.addTypes types).ancestors a ↔
      b ≠ a ∧ ReflTransGen (empty.addTypes types).Extends a b := by
  intro h
  have hstands : (empty.addTypes changedSuperclass).get? "A" = some (classBelow "A" "C") := by decide
  have hstale : "B" ∈ (classBelow "A" "C").supertypes :=
    ((h changedSuperclass).1 "A" _ hstands "B").mp (by decide)
  exact absurd hstale (by decide)

end StubWriter.TypeGraph
