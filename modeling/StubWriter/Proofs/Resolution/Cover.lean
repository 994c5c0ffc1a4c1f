import Mathlib.Data.List.Nodup
import StubWriter.Proofs.Hierarchy.View
import StubWriter.Proofs.Resolution.Slots

/-!
# Levels that leave nothing to implement

A class that implements all members of a resolution, and that stands below the target of it, has no
members of its own. What it inherits keeps the last abstract method of each slot that the class
leaves open, and all methods that may implement it.

* `Covers`: levels in which a class has come in front of others.
* `Covers.members_eq_nil`: nothing is left to implement.
* `covers_class`, `covers_interface`: a class below another one, and one below an interface.
-/

namespace StubWriter.Resolution

open Walk

/-- Levels in front of which a class implements some members: a slot that is still open has the same
last abstract method and no fewer methods that are not abstract. -/
structure Covers (levels levels' : List Level) (members : List (Slot × Method)) : Prop where
  stubbed : ∀ {k a}, (k, a) ∈ members → ∃ c ∈ concreteOf levels' k, c.returns = a.returns
  last : ∀ {k a}, (abstractOf levels' k).getLast? = some a → (abstractOf levels k).getLast? = some a
  concrete : ∀ {k a}, (abstractOf levels' k).getLast? = some a →
    concreteOf levels k ⊆ concreteOf levels' k

/-- A class that implements the members of a resolution has none, if what could be assigned to what
there can be here as well. -/
theorem Covers.members_eq_nil {rel rel' : String → String → Bool} (hrefl : ∀ x, rel' x x = true)
    (hmono : ∀ x y, rel x y = true → rel' x y = true) {t t' : TypeInfo} {levels levels' : List Level}
    {cs cs' : List Constructor} (hcheck : checkTarget t = .ok ())
    (hconstructors : selectConstructors t = .ok cs) (hcheck' : checkTarget t' = .ok ())
    (hconstructors' : selectConstructors t' = .ok cs')
    (h : Covers levels levels' (ofRel rel t levels cs).members) :
    (ofRel rel' t' levels' cs').members = [] := by
  rw [List.eq_nil_iff_forall_not_mem]
  rintro ⟨k, a⟩ hmember
  obtain ⟨hlast, hnone⟩ := (mem_members_ofRel rel' hcheck' hconstructors' levels' k a).mp hmember
  have hfits : ∃ c ∈ concreteOf levels' k, rel' a.returns c.returns = true := by
    by_cases hkept : (k, a) ∈ (ofRel rel t levels cs).members
    · obtain ⟨c, hc, hreturns⟩ := h.stubbed hkept
      exact ⟨c, hc, hreturns ▸ hrefl _⟩
    · rw [mem_members_ofRel rel hcheck hconstructors] at hkept
      have hdropped : ∃ c ∈ concreteOf levels k, rel a.returns c.returns = true := by
        by_contra hall
        refine hkept ⟨h.last hlast, fun c hc => ?_⟩
        exact Bool.eq_false_iff.mpr fun hfit => hall ⟨c, hc, hfit⟩
      obtain ⟨c, hc, hfit⟩ := hdropped
      exact ⟨c, h.concrete hlast hc, hmono _ _ hfit⟩
  obtain ⟨c, hc, hfit⟩ := hfits
  rw [hnone c hc] at hfit
  cases hfit

/-! ## A class below others -/

theorem abstractOf_cons (l : Level) (levels : List Level) (k : Slot) :
    abstractOf (l :: levels) k =
      (l.declared ++ l.exposed).filter (fun m => m.isAbstract && m.slot == k) ++
        abstractOf levels k := by
  rw [abstractOf, walked, List.flatMap_cons, List.filter_append]
  rfl

variable {s t : TypeInfo} {vs : List Method} {levels : List Level}
  {members : List (Slot × Method)}

/-- A class whose methods are not abstract, in front of levels that hold what is visible on it. -/
theorem covers_class (hown : ∀ m ∈ s.methods, m.isAbstract = false)
    (hview : ∀ m ∈ vs, m.isAbstract = true → m ∈ walked levels)
    (hmembers : ∀ p ∈ members, ∃ c ∈ s.methods, c.slot = p.1 ∧ c.returns = p.2.returns) :
    Covers levels (⟨s, s.methods, vs⟩ :: levels) members := by
  have hwalked : walked levels ⊆ walked (⟨s, s.methods, vs⟩ :: levels) :=
    fun m hm => mem_walked_cons.mpr (.inr hm)
  refine ⟨fun {k a} hka => ?_, fun {k a} hlast => ?_, fun {k a} _ c hc => ?_⟩
  · obtain ⟨c, hc, hslot, hreturns⟩ := hmembers _ hka
    refine ⟨c, mem_concreteOf.mpr ⟨?_, hown c hc, hslot⟩, hreturns⟩
    exact mem_walked_cons.mpr (.inl (List.mem_append_left _ hc))
  · rw [abstractOf_cons] at hlast
    by_cases hnone : abstractOf levels k = []
    · -- The class itself adds no abstract method, and what it inherits comes from the levels.
      rw [hnone, List.append_nil] at hlast
      obtain ⟨ha, hfilter⟩ := List.mem_filter.mp (List.mem_of_getLast? hlast)
      simp only [Bool.and_eq_true, beq_iff_eq] at hfilter
      rcases List.mem_append.mp ha with ha | ha
      · rw [hown a ha] at hfilter
        exact absurd hfilter.1 Bool.false_ne_true
      · have hmem := mem_abstractOf.mpr ⟨hview a ha hfilter.1, hfilter.1, hfilter.2⟩
        rw [hnone] at hmem
        exact absurd hmem List.not_mem_nil
    · rwa [List.getLast?_append_of_ne_nil _ hnone] at hlast
  · obtain ⟨hc, hconcrete, hslot⟩ := mem_concreteOf.mp hc
    exact mem_concreteOf.mpr ⟨hwalked hc, hconcrete, hslot⟩

/-! ## A class below an interface -/

theorem abstract_not_static {views : String → List Method} (hi : t.isInterface = true)
    (ht : t.Described) {m : Method} (hm : m ∈ viewFrom t views) (ha : m.isAbstract = true) :
    m.isStatic = false := by
  rcases (mem_viewFrom_interface hi).mp hm with ⟨hm, -⟩ | ⟨_, _, _, hstatic, _⟩
  · exact ((ht.interface hi).2 m hm).2 ha
  · exact hstatic

/-- A class whose methods are not abstract below an interface that declares no slot twice. -/
theorem covers_interface {views : String → List Method} (hi : t.isInterface = true)
    (ht : t.Described) (hslots : (t.methods.map Method.slot).Nodup)
    (hown : ∀ m ∈ s.methods, m.isAbstract = false)
    (hmembers : ∀ p ∈ members, ∃ c ∈ s.methods, c.slot = p.1 ∧ c.returns = p.2.returns) :
    Covers [⟨t, t.methods, viewFrom t views⟩]
      [⟨s, s.methods, ownPublic s ++
        inheritedFromInterface (s.methods.map Method.slot) (viewFrom t views)⟩] members := by
  have hwalked : ∀ m, m ∈ walked [⟨s, s.methods, ownPublic s ++
      inheritedFromInterface (s.methods.map Method.slot) (viewFrom t views)⟩] ↔
        m ∈ s.methods ∨ m ∈ viewFrom t views ∧ m.isStatic = false ∧
          m.slot ∉ s.methods.map Method.slot := by
    intro m
    simp only [walked, List.flatMap_cons, List.flatMap_nil, List.append_nil, List.mem_append,
      ownPublic, inheritedFromInterface, List.mem_filter, Bool.and_eq_true, Bool.not_eq_true',
      List.contains_eq_mem, decide_eq_false_iff_not]
    tauto
  have hwalkedT : ∀ m, m ∈ walked [⟨t, t.methods, viewFrom t views⟩] ↔
      m ∈ t.methods ∨ m ∈ viewFrom t views := by
    intro m
    simp [walked]
  -- An abstract method of an open slot is visible on the interface.
  have hopen : ∀ {k a}, (abstractOf [⟨s, s.methods, ownPublic s ++
      inheritedFromInterface (s.methods.map Method.slot) (viewFrom t views)⟩] k).getLast? = some a →
        a ∈ viewFrom t views ∧ a.isAbstract = true ∧ a.slot = k ∧
          k ∉ s.methods.map Method.slot := by
    intro k a hlast
    obtain ⟨ha, habs, hslot⟩ := mem_abstractOf.mp (List.mem_of_getLast? hlast)
    rcases (hwalked a).mp ha with ha | ⟨ha, -, hfree⟩
    · rw [hown a ha] at habs
      cases habs
    · exact ⟨ha, habs, hslot, hslot ▸ hfree⟩
  refine ⟨fun {k a} hka => ?_, fun {k a} hlast => ?_, fun {k a} hlast c hc => ?_⟩
  · obtain ⟨c, hc, hslot, hreturns⟩ := hmembers _ hka
    exact ⟨c, mem_concreteOf.mpr ⟨(hwalked c).mpr (.inl hc), hown c hc, hslot⟩, hreturns⟩
  · obtain ⟨ha, habs, hslot, hfree⟩ := hopen hlast
    have hsame : abstractOf [⟨s, s.methods, ownPublic s ++
        inheritedFromInterface (s.methods.map Method.slot) (viewFrom t views)⟩] k =
          (viewFrom t views).filter fun m => m.isAbstract && m.slot == k := by
      have hnone : (s.methods ++ ownPublic s).filter (fun m => m.isAbstract && m.slot == k) = [] := by
        rw [List.filter_eq_nil_iff]
        intro m hm
        have hm : m ∈ s.methods :=
          (List.mem_append.mp hm).elim id fun hm => List.mem_of_mem_filter hm
        simp [hown m hm]
      rw [abstractOf_cons]
      simp only [abstractOf, walked, List.flatMap_nil, List.filter_nil, List.append_nil]
      rw [← List.append_assoc, List.filter_append, hnone, List.nil_append, inheritedFromInterface,
        List.filter_filter]
      refine List.filter_congr fun m hm => ?_
      by_cases hk : m.isAbstract = true ∧ m.slot = k
      · have hstatic := abstract_not_static hi ht hm hk.1
        have hfree' : m.slot ∉ s.methods.map Method.slot := hk.2 ▸ hfree
        simp [hk.1, hk.2, hstatic, hk.2 ▸ hfree']
      · have hno : (m.isAbstract && m.slot == k) = false := by
          rw [Bool.eq_false_iff]
          simpa using hk
        rw [hno, Bool.false_and]
    have hne : (viewFrom t views).filter (fun m => m.isAbstract && m.slot == k) ≠ [] :=
      List.ne_nil_of_mem (List.mem_filter.mpr ⟨ha, by simp [habs, hslot]⟩)
    rw [hsame] at hlast
    rw [abstractOf_cons]
    simp only [abstractOf, walked, List.flatMap_nil, List.filter_nil, List.append_nil]
    rwa [List.filter_append, List.getLast?_append_of_ne_nil _ hne]
  · obtain ⟨ha, habs, hslot, hfree⟩ := hopen hlast
    obtain ⟨hc, hconcrete, hcslot⟩ := mem_concreteOf.mp hc
    -- The interface itself declares nothing else of a slot of its own.
    have hforeign : c ∉ t.methods := by
      intro hct
      rcases (mem_viewFrom_interface hi).mp ha with ⟨hat, -⟩ | ⟨_, _, _, _, hhidden⟩
      · have hsame : a = c := List.inj_on_of_nodup_map hslots hat hct (hslot.trans hcslot.symm)
        rw [hsame, hconcrete] at habs
        cases habs
      · exact hhidden (List.mem_map.mpr ⟨c, hct, hcslot.trans hslot.symm⟩)
    have hvisible : c ∈ viewFrom t views := ((hwalkedT c).mp hc).resolve_left hforeign
    have hstatic : c.isStatic = false := by
      rcases (mem_viewFrom_interface hi).mp hvisible with ⟨hct, -⟩ | ⟨_, _, _, hstatic, _⟩
      · exact absurd hct hforeign
      · exact hstatic
    refine mem_concreteOf.mpr ⟨(hwalked c).mpr (.inr ⟨hvisible, hstatic, ?_⟩), hconcrete, hcslot⟩
    exact hcslot ▸ hfree

end StubWriter.Resolution
