import StubWriter.Proofs.Library.Given
import StubWriter.Proofs.Path

/-!
# A unit that nobody mentions

A unit with one type changes no other type as long as nobody mentions it: no name of another unit
asks for the new one, and so all names keep their meanings.

* `Scope.not_mem_asks`: a name is asked for only where its last piece is written.
* `LoadTable.acyclic_of_ne`: with the new type, too, no type is above itself.
* `Tells.eq_of_ne`: the tables before and after the unit was added differ in the new name only.
-/

namespace StubWriter

open Run

theorem Scope.not_mem_asks {s : Scope} {owner name simple : String} (hname : '.' ∉ name.toList)
    (h : name ∉ splitText '.' simple) : qualify owner name ∉ s.asks simple := by
  intro hasked
  have hlast := (getLast?_asks hasked).2
  rw [getLast?_qualify, splitText_of_not_mem hname] at hlast
  exact h (List.mem_of_getLast? hlast.symm)

/-- A type that is added on top of types with views makes no circle. -/
theorem LoadTable.acyclic_of_ne {T T' : LoadTable} {new : String} {s : TypeInfo}
    (hs : T' new = .ok s) (hnew : ∀ t, T new ≠ .ok t) (hother : ∀ a, a ≠ new → T' a = T a)
    (hviews : ∀ b ∈ Walk.parents s, ∃ ms, T.types.View b ms)
    (hacyclic : ∀ a, ¬ Relation.TransGen T.Leads a a) (a : String) :
    ¬ Relation.TransGen T'.Leads a a := by
  have hold : ∀ {a b}, T'.Leads a b → a ≠ new → T.Leads a b :=
    fun ⟨t, ht, hb⟩ ha => ⟨t, hother _ ha ▸ ht, hb⟩
  have hfound : ¬ ∃ ms, T.types.View new ms := by
    rintro ⟨ms, hview⟩
    obtain ⟨t, ht⟩ := hview.found
    exact hnew t (types_eq_some.mp ht)
  -- All that is above the new type has a view without it.
  have habove : ∀ b ∈ Walk.parents s, ∀ c, Relation.ReflTransGen T'.Leads b c →
      ∃ ms, T.types.View c ms := by
    intro b hb c hbc
    induction hbc with
    | refl => exact hviews b hb
    | tail _ hstep ih =>
      obtain ⟨ms, hview⟩ := ih
      have hne : _ ≠ new := fun h => hfound ⟨ms, h ▸ hview⟩
      obtain ⟨t, ht, hc⟩ := hold hstep hne
      cases hview with
      | intro views ht' above =>
        obtain rfl := Option.some.inj (ht'.symm.trans (types_eq_some.mpr ht))
        exact ⟨_, above _ hc⟩
  have hself : ¬ Relation.TransGen T'.Leads new new := by
    intro h
    obtain ⟨b, ⟨t, ht, hb⟩, hbnew⟩ := Relation.TransGen.head'_iff.mp h
    obtain rfl := Except.ok.inj (hs.symm.trans ht)
    exact hfound (habove b hb new hbnew)
  have hsplit : ∀ c, Relation.TransGen T'.Leads a c → Relation.TransGen T.Leads a c ∨
      Relation.ReflTransGen T'.Leads a new ∧ Relation.TransGen T'.Leads new c := by
    intro c hac
    induction hac with
    | single h =>
      by_cases ha : a = new
      · exact .inr ⟨ha ▸ .refl, .single (ha ▸ h)⟩
      · exact .inl (.single (hold h ha))
    | @tail b c hab hbc ih =>
      rcases ih with ih | ⟨hanew, hnewb⟩
      · by_cases hb : b = new
        · exact .inr ⟨hb ▸ hab.to_reflTransGen, .single (hb ▸ hbc)⟩
        · exact .inl (ih.tail (hold hbc hb))
      · exact .inr ⟨hanew, hnewb.tail hbc⟩
  intro hcycle
  rcases hsplit a hcycle with h | ⟨hanew, hnewa⟩
  · exact hacyclic a h
  · exact hself (hnewa.trans_left hanew)

namespace Library

theorem existsIn_cons_of_ne {names : List String} {new name : String} (h : name ≠ new) :
    existsIn (new :: names) name = existsIn names name := by
  have hne : (name == new) = false := by simpa using h
  rw [existsIn, existsIn, List.contains_cons, hne, Bool.false_or]

theorem namesOf_cons {p : String × CompilationUnit} {units : List (String × CompilationUnit)}
    {new : String} (hp : p.2.declared.map (·.fullName) = [new]) :
    namesOf (p :: units) = new :: namesOf units := by
  unfold namesOf declaredBy
  rw [List.flatMap_cons, List.map_append, hp, List.singleton_append]

variable {T T' : LoadTable} {units : List (String × CompilationUnit)}
  {p : String × CompilationUnit} {new : String}

/-- A unit that nobody mentions changes no type but its own. -/
theorem Tells.eq_of_ne (hT : Tells T units) (hT' : Tells T' (p :: units))
    (hp : p.2.declared.map (·.fullName) = [new])
    (hunits : ∀ q ∈ units, ∀ n ∈ q.2.names, new ∉ (Scope.ofUnit q.2).asks (n.headD ""))
    (hplatform : ∀ q ∈ Platform.units, ∀ n ∈ q.2.names,
      new ∉ (Scope.ofUnit q.2).asks (n.headD ""))
    {name : String} (hname : name ≠ new) : T' name = T name := by
  have hnames : namesOf (p :: units) = new :: namesOf units := namesOf_cons hp
  -- The libraries with the unit and those without it, as long as nothing was looked for in vain.
  let names : Bool → List String := fun added =>
    if added then namesOf (p :: units) else namesOf units
  let size : Bool → Nat := fun added => if added then room (p :: units) else room units
  let fresh : TypeGraph → List String → Prop := fun _ m => m = []
  have hmean : ∀ q : String × CompilationUnit,
      (∀ n ∈ q.2.names, new ∉ (Scope.ofUnit q.2).asks (n.headD "")) → ∀ d ∈ q.2.declared,
        ∀ n ∈ d.decl.names, ∀ added, (Scope.ofUnit q.2).meaning (existsIn (names added)) n =
          (Scope.ofUnit q.2).meaning (existsIn (namesOf units)) n := by
    intro q hq d hd n hn added
    cases added with
    | false => rfl
    | true =>
      refine Scope.meaning_congr fun a ha => ?_
      have hne : a ≠ new := by
        rintro rfl
        exact hq n (Declared.names_subset hd hn) ha
      change existsIn (namesOf (p :: units)) a = _
      rw [hnames, existsIn_cons_of_ne hne]
  have hunique : ∀ {x : Lookup TypeInfo}, Fixed (fun added => memory (names added) (size added) fresh)
      (fun _ => x) → ∀ {v v'}, (memory (namesOf units) (room units) fresh).Gives x v →
        (memory (namesOf (p :: units)) (room (p :: units)) fresh).Gives x v' → v' = v := by
    intro x ⟨u, _, hu⟩ v v' hv hv'
    have hstart : ∀ units, (memory (namesOf units) (room units) fresh).inv
        (ofUnits [] .empty units) := fun units => ⟨start_inMemory (.refl units) .empty, rfl⟩
    have hold : v = u := hv.unique (fun _ h => h) (hstart units) (hu false)
    have hnew : v' = u := hv'.unique (fun _ h => h) (hstart (p :: units)) (hu true)
    exact hnew.trans hold.symm
  cases hprimitive : isPrimitiveName name with
  | true => rw [hT.primitive hprimitive, hT'.primitive hprimitive]
  | false =>
  by_cases hdeclared : name ∈ namesOf units
  · obtain ⟨q, hq, d, hd, rfl⟩ := mem_namesOf.mp hdeclared
    have hfixed : Fixed (fun added => memory (names added) (size added) fresh)
        fun _ => d.describe q.2.packageName q.1 (Scope.ofUnit q.2) :=
      describe_fresh (hmean q (hunits q hq) d hd) (fun _ _ _ h => h) _ _
    exact hunique hfixed (hT.declared q hq d hd fresh fun _ _ h => h)
      (hT'.declared q (List.mem_cons_of_mem _ hq) d hd fresh fun _ _ h => h)
  · have hdeclared' : name ∉ namesOf (p :: units) := by
      rw [hnames, List.mem_cons]
      exact not_or.mpr ⟨hname, hdeclared⟩
    cases hu : Platform.unit? name with
    | none =>
      have hnot : isPlatform name = false := by rw [isPlatform, hu]; rfl
      rw [hT.other hprimitive hdeclared hnot, hT'.other hprimitive hdeclared' hnot]
    | some u =>
      have hmem := Platform.mem_units hu
      obtain ⟨d, hd, -⟩ := List.map_eq_singleton_iff.mp ((Platform.checked_of_mem hmem).declared)
      have hd : d ∈ u.declared := by simp [hd]
      obtain ⟨t, ht, hgives⟩ := hT.platform hu hdeclared
      obtain ⟨t', ht', hgives'⟩ := hT'.platform hu hdeclared'
      have hsettled : Settled (fun added => memory (names added) (size added) fresh)
          fun _ => d.describe u.packageName (platformOrigin name) (Scope.ofUnit u) :=
        describe_platform hmem hd (hmean _ (hplatform _ hmem) d hd)
          (fun _ => .inr fun _ => .inr fun _ m (hm : m = []) => by simp [hm]) _ _
      obtain ⟨v, hv⟩ := hsettled
      rw [ht, ht']
      exact hunique ⟨_, fun _ _ => trivial, hv⟩ (hgives d hd fresh (firm_fresh _))
        (hgives' d hd fresh (firm_fresh _))

end Library

end StubWriter
