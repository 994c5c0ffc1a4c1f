import StubWriter.Proofs.Library.Growth

/-!
# What loading leaves

A property of libraries that descriptions keep and that allows the described types to be added is
kept by loading.

* `registerAll_comes`, `registerUnits_comes`: all declarations of a unit, or of some units, come to
  stand in the graph, or one of them cannot be described.
* `load_comes`: what loading comes to, from what the search for a source comes to.
-/

namespace StubWriter

open Run

namespace Library

/-- The library after a declaration was described. -/
def takeIn (l : Library) (d : Declared) (t : TypeInfo) : Library :=
  { l with graph := l.graph.addType t, missing := l.missing.filter (· != d.fullName) }

theorem grows_takeIn (l : Library) (d : Declared) (t : TypeInfo) : l.Grows (l.takeIn d t) :=
  ⟨rfl, rfl, rfl, rfl, fun _ h => contains_addType h t, List.prefix_rfl⟩

variable {I : Library → Prop}

theorem registerAll_comes {R : Declared → Except Failure TypeInfo → Prop}
    {package origin : String} {s : Scope} {ds : List Declared}
    (hdescribe : ∀ d ∈ ds, Ends I (d.describe package origin s) (R d))
    (hadd : ∀ d ∈ ds, ∀ t, R d (.ok t) → t.name = d.fullName → ∀ l, I l → I (l.takeIn d t))
    {l : Library} (hl : I l) :
    Comes (registerAll package origin s ds) l fun o l' => I l' ∧ l.Grows l' ∧
      ((o = .ok () ∧ ∀ d ∈ ds, l'.graph.contains d.fullName = true) ∨
        ∃ f, o = .error f ∧ ∃ d ∈ ds, R d (.error f)) := by
  induction ds generalizing l with
  | nil => exact ⟨hl, .refl l, .inl ⟨rfl, fun d hd => absurd hd List.not_mem_nil⟩⟩
  | cons d ds ih =>
    have hdescribed : Comes (d.describe package origin s) l fun o l' => I l' ∧ l.Grows l' ∧
        R d o ∧ ∀ t, o = .ok t → t.name = d.fullName := by
      obtain ⟨hinv, ho⟩ := hdescribe d List.mem_cons_self l hl
      refine ⟨hinv, Steady.grows l, ho, fun t ht => ?_⟩
      exact (d.describe_shapes package origin s l t _ (eq_ok_of_outcome ht)).name
    unfold registerAll
    refine comes_bind hdescribed ?_ ?_
    · rintro t l₁ ⟨hl₁, hgrows, ho, hname⟩
      have hname := hname t rfl
      have hgrows₁ := hgrows.trans (grows_takeIn l₁ d t)
      have hcontains : (l₁.takeIn d t).graph.contains d.fullName = true := by
        unfold takeIn TypeGraph.contains
        rw [TypeGraph.get?_addType, if_pos hname.symm]
        rfl
      obtain ⟨hl₂, hgrows₂, hrest⟩ := ih (fun e he => hdescribe e (List.mem_cons_of_mem _ he))
        (fun e he => hadd e (List.mem_cons_of_mem _ he))
        (hadd d List.mem_cons_self t ho hname l₁ hl₁)
      refine ⟨hl₂, hgrows₁.trans hgrows₂, hrest.imp ?_ ?_⟩
      · rintro ⟨hok, hall⟩
        exact ⟨hok, List.forall_mem_cons.mpr ⟨hgrows₂.graph _ hcontains, hall⟩⟩
      · rintro ⟨f, hf, e, he, hfails⟩
        exact ⟨f, hf, e, List.mem_cons_of_mem _ he, hfails⟩
    · rintro f l₁ ⟨hl₁, hgrows, ho, -⟩
      exact ⟨hl₁, hgrows, .inr ⟨f, rfl, d, List.mem_cons_self, ho⟩⟩

theorem registerUnits_comes {R : Declared → Except Failure TypeInfo → Prop}
    {units : List (String × CompilationUnit)}
    (hdescribe : ∀ p ∈ units, ∀ d ∈ p.2.declared,
      Ends I (d.describe p.2.packageName p.1 (Scope.ofUnit p.2)) (R d))
    (hadd : ∀ p ∈ units, ∀ d ∈ p.2.declared, ∀ t, R d (.ok t) → t.name = d.fullName →
      ∀ l, I l → I (l.takeIn d t)) {l : Library} (hl : I l) :
    Comes (registerUnits units) l fun o l' => I l' ∧ l.Grows l' ∧
      ((o = .ok () ∧ ∀ p ∈ units, ∀ d ∈ p.2.declared, l'.graph.contains d.fullName = true) ∨
        ∃ f, o = .error f ∧ ∃ p ∈ units, ∃ d ∈ p.2.declared, R d (.error f)) := by
  induction units generalizing l with
  | nil => exact ⟨hl, .refl l, .inl ⟨rfl, fun p hp => absurd hp List.not_mem_nil⟩⟩
  | cons p ps ih =>
    refine comes_bind (registerAll_comes (hdescribe p List.mem_cons_self)
      (hadd p List.mem_cons_self) hl) ?_ ?_
    · rintro _ l₁ ⟨hl₁, hgrows₁, ⟨-, hp⟩ | ⟨f, hf, -⟩⟩
      · obtain ⟨hl₂, hgrows₂, hrest⟩ := ih (fun q hq => hdescribe q (List.mem_cons_of_mem _ hq))
          (fun q hq => hadd q (List.mem_cons_of_mem _ hq)) hl₁
        refine ⟨hl₂, hgrows₁.trans hgrows₂, hrest.imp ?_ ?_⟩
        · rintro ⟨hok, hall⟩
          exact ⟨hok, List.forall_mem_cons.mpr ⟨fun d hd => hgrows₂.graph _ (hp d hd), hall⟩⟩
        · rintro ⟨f, hf, q, hq, hfails⟩
          exact ⟨f, hf, q, List.mem_cons_of_mem _ hq, hfails⟩
      · cases hf
    · rintro f l₁ ⟨hl₁, hgrows, ⟨ho, -⟩ | ⟨f', ho, d, hd, hfails⟩⟩
      · cases ho
      · cases ho
        exact ⟨hl₁, hgrows, .inr ⟨f, rfl, p, List.mem_cons_self, d, hd, hfails⟩⟩

/-! ## Loading a type -/

/-- Takes note that a name was looked for in vain. -/
def miss (name : String) (l : Library) : Library :=
  { l with missing := l.missing ++ [name] }

/-- A type is in the graph already, or it is there after its unit was loaded. -/
theorem load_comes {name : String} {l : Library} {Q : Except Failure Unit → Library → Prop}
    {P : Except Failure TypeInfo → Library → Prop}
    (hprimitive : isPrimitiveName name = true → P (.ok (.ofPrimitive name)) l)
    (hheld : ∀ t, l.graph.get? name = some t → P (.ok t) l)
    (hgone : isPrimitiveName name = false → l.graph.get? name = none → name ∈ l.missing →
      P (.error (.typeNotFound name)) l)
    (hfetch : isPrimitiveName name = false → l.graph.get? name = none → name ∉ l.missing →
      Comes (fetch name) l Q)
    (hfound : ∀ l' t, Q (.ok ()) l' → l'.graph.get? name = some t → P (.ok t) l')
    (hlost : ∀ l', Q (.ok ()) l' → l'.graph.get? name = none →
      P (.error (.typeNotFound name)) (miss name l'))
    (herror : ∀ f l', Q (.error f) l' → P (.error f) l') : Comes (load name) l P := by
  have hstanding : ∀ l', Q (.ok ()) l' → Comes (standing name) l' P := by
    intro l' hl'
    refine comes_get_bind ?_
    cases ht : l'.graph.get? name with
    | some t => exact hfound l' t hl' ht
    | none => exact hlost l' hl' ht
  rw [load_eq]
  split
  · rename_i hp
    exact hprimitive hp
  rename_i hp
  refine comes_get_bind ?_
  split
  · rename_i t ht
    exact hheld t ht
  rename_i ht
  refine comes_get_bind ?_
  split
  · rename_i hm
    exact hgone (Bool.eq_false_iff.mpr hp) ht (List.contains_iff_mem.mp hm)
  · rename_i hm
    have hmissing : name ∉ l.missing := fun h => hm (List.contains_iff_mem.mpr h)
    exact comes_bind (hfetch (Bool.eq_false_iff.mpr hp) ht hmissing) (fun _ => hstanding) herror

end Library

end StubWriter
