import StubWriter.Proofs.Hierarchy.Supply

/-!
# Obligations of a hierarchy

An abstract method of a type, or of one above it, is an obligation of the type. A resolution misses
none: it decides on the slot of the method, or it has met another method of the slot. The rules by
which nearer declarations hide those further away put a method of the same slot in the place of a
hidden one, unless an interface withdraws the slot by a private or static method.

* `TypeTable.Withdrawn`: an interface on the way to a type withdraws a slot.
* `View.obligation`, `Chain.obligation`: what becomes of an obligation in views and in levels.
* `obligation_decided`: what becomes of it in a resolution.
-/

namespace StubWriter

open Run Walk

namespace TypeTable

variable {table : TypeTable} {t s d : TypeInfo} {k : Slot}

/-- Between `t` and `d` there is an interface that withdraws the slot. It may be one of them. -/
def Withdrawn (table : TypeTable) (t d : TypeInfo) (k : Slot) : Prop :=
  ∃ i, table.Reaches t i ∧ table.Reaches i d ∧ i.Withdraws k

theorem Withdrawn.head (hts : table.Above t s) (h : table.Withdrawn s d k) :
    table.Withdrawn t d k := by
  obtain ⟨i, hsi, hid, hi⟩ := h
  exact ⟨i, hsi.head hts, hid, hi⟩

theorem not_withdrawn_self (h : ¬ table.Withdrawn t d k) (htd : table.Reaches t d) :
    ¬ t.Withdraws k :=
  fun ht => h ⟨t, .refl, htd, ht⟩

/-- The view of an interface has a method for every obligation that is not withdrawn, and one that
goes on to subtypes. -/
theorem View.obligation (htable : table.Described) {name : String} {ms : List Method}
    (h : table.View name ms) (ht : table name = some t) (hi : t.isInterface = true)
    (habove : table.InterfacesAbove t) (htd : table.Reaches t d) {n : Method}
    (hn : n ∈ d.methods) (hfree : ¬ table.Withdrawn t d n.slot) :
    ∃ m ∈ ms, m.slot = n.slot ∧ m.isStatic = false := by
  induction h generalizing t with
  | @intro name u views hfound _ ih =>
    obtain rfl := Option.some.inj (ht.symm.trans hfound)
    have hdeclared := ((htable.described ht).interface hi).2
    -- Whatever the interface declares of the slot takes the place of what it hides.
    have hown : ∀ m ∈ t.methods, m.slot = n.slot →
        ∃ m ∈ viewFrom t views, m.slot = n.slot ∧ m.isStatic = false := by
      intro m hm hslot
      have hfree := not_withdrawn_self hfree htd
      rw [← hslot] at hfree
      obtain ⟨hpublic, hstatic⟩ := (hdeclared m hm).inherited hi hm hfree
      exact ⟨m, mem_viewFrom.mpr (.inl ⟨hm, hpublic⟩), hslot, hstatic⟩
    rcases htd.cases_head with rfl | ⟨s, hts, hsd⟩
    · exact hown n hn rfl
    · obtain ⟨p, hp, -⟩ | ⟨p, hp, hs⟩ := above_cases (htable.described ht) hts
      · rw [superclassName?_interface hi] at hp
        cases hp
      · have hsi := habove t .refl p hp s hs
        obtain ⟨m, hm, hslot, hstatic⟩ := ih p (List.mem_append_right _ hp) hs hsi
          (habove.mono hts) hsd fun hw => hfree (hw.head hts)
        by_cases htaken : m.slot ∈ t.methods.map Method.slot
        · obtain ⟨m', hm', hslot'⟩ := List.mem_map.mp htaken
          exact hown m' hm' (hslot'.trans hslot)
        · have hview := (mem_viewFrom_interface hi).mpr (.inr ⟨p, hp, hm, hstatic, htaken⟩)
          exact ⟨m, hview, hslot, hstatic⟩

/-- The level of a type has a method for every obligation that is not withdrawn, or else the
obligation comes from its superclass. -/
theorem View.obligation_level (htable : table.Described) {name : String} {ms : List Method}
    (h : table.View name ms) (ht : table name = some t) (habove : table.InterfacesAbove t)
    (htd : table.Reaches t d) {n : Method} (hn : n ∈ d.methods)
    (hfree : ¬ table.Withdrawn t d n.slot) :
    (∃ m ∈ t.methods ++ ms, m.slot = n.slot) ∨
      ∃ p s, superclassName? t = some p ∧ table p = some s ∧ table.Above t s ∧
        table.Reaches s d := by
  cases h with
  | @intro name u views hfound hviews =>
    obtain rfl := Option.some.inj (ht.symm.trans hfound)
    rcases htd.cases_head with rfl | ⟨s, hts, hsd⟩
    · exact .inl ⟨n, List.mem_append_left _ hn, rfl⟩
    obtain ⟨p, hp, hs⟩ | ⟨p, hp, hs⟩ := above_cases (htable.described ht) hts
    · exact .inr ⟨p, s, hp, hs, hts, hsd⟩
    have hsi := habove t .refl p hp s hs
    obtain ⟨m, hm, hslot, hstatic⟩ := (hviews p (List.mem_append_right _ hp)).obligation htable hs
      hsi (habove.mono hts) hsd hn fun hw => hfree (hw.head hts)
    -- What hides the method of the interface is of the type itself or of its superclass's view.
    left
    by_cases htaken : m.slot ∈ taken t views
    · rcases List.mem_append.mp htaken with hown | hsuper
      · obtain ⟨m', hm', hslot'⟩ := List.mem_map.mp hown
        exact ⟨m', List.mem_append_left _ hm', hslot'.trans hslot⟩
      · obtain ⟨m', hm', hslot'⟩ := List.mem_map.mp hsuper
        have hview := mem_viewFrom.mpr (.inr (.inl hm'))
        exact ⟨m', List.mem_append_right _ hview, hslot'.trans hslot⟩
    · have hview := mem_viewFrom.mpr (.inr (.inr ⟨p, hp, hm, hstatic, htaken⟩))
      exact ⟨m, List.mem_append_right _ hview, hslot⟩

/-- The levels of a chain have a method for every obligation that is not withdrawn. -/
theorem Chain.obligation (htable : table.Described) {name : String} {levels : List Level}
    (h : table.Chain name levels) (ht : table name = some t) (hbelow : t.name ≠ objectName)
    (habove : table.InterfacesAbove t) (htd : table.Reaches t d) {n : Method}
    (hn : n ∈ d.methods) (hfree : ¬ table.Withdrawn t d n.slot) :
    ∃ m ∈ Resolution.walked levels, m.slot = n.slot := by
  induction h generalizing t with
  | object hfound hobject =>
    obtain rfl := Option.some.inj (ht.symm.trans hfound)
    exact absurd hobject hbelow
  | top hfound _ hview hlast =>
    obtain rfl := Option.some.inj (ht.symm.trans hfound)
    obtain ⟨m, hm, hslot⟩ | ⟨p, s, hp, -⟩ :=
      hview.obligation_level htable ht habove htd hn hfree
    · exact ⟨m, Resolution.mem_walked_cons.mpr (.inl hm), hslot⟩
    · rw [hlast] at hp
      cases hp
  | step hfound _ hview hnext _ ih =>
    obtain rfl := Option.some.inj (ht.symm.trans hfound)
    obtain ⟨m, hm, hslot⟩ | ⟨p, s, hp, hs, hts, hsd⟩ :=
      hview.obligation_level htable ht habove htd hn hfree
    · exact ⟨m, Resolution.mem_walked_cons.mpr (.inl hm), hslot⟩
    · obtain rfl := Option.some.inj (hnext.symm.trans hp)
      obtain ⟨m, hm, hslot⟩ := ih hs (superclass_name_ne htable hp hs) (habove.mono hts) hsd
        fun hw => hfree (hw.head hts)
      exact ⟨m, Resolution.mem_walked_cons.mpr (.inr hm), hslot⟩

/-- No abstract method of a hierarchy is lost. The slot of an abstract method of the target, or of
a type above it, is decided, or there is another method of the slot that is not abstract, or an
interface on the way withdraws the slot. -/
theorem obligation_decided {σ : Type} {supply : TypeSupply σ} {inv : σ → Prop}
    (hsupply : table.Backs supply inv) (htable : table.Described) {name : String} {w w' : Walk σ}
    (hw : table.Remembers inv w) {r : Resolution} (hrun : supply.resolve name w = .ok r w')
    (hbelow : r.target.name ≠ objectName) (habove : table.InterfacesAbove r.target) :
    ∃ levels, supply.LevelsFrom name w levels ∧
      ∀ d, table.Reaches r.target d → ∀ n ∈ d.methods, n.isAbstract = true →
        n.slot ∈ Keyed.keys r.decisions ∨
        (∃ c ∈ Resolution.walked levels, c.isAbstract = false ∧ c.slot = n.slot) ∨
        table.Withdrawn r.target d n.slot := by
  obtain ⟨⟨levels, hlevels, htarget, hchain, hresolved⟩, -⟩ :=
    hsupply.resolve_ok htable name hw r w' hrun
  refine ⟨levels, hlevels, fun d hd n hn _ => ?_⟩
  by_cases hfree : table.Withdrawn r.target d n.slot
  · exact .inr (.inr hfree)
  obtain ⟨m, hm, hslot⟩ := hchain.obligation htable htarget hbelow habove hd hn hfree
  cases habs : m.isAbstract with
  | true => exact .inl (hslot ▸ hresolved.mem_keys_decisions hm habs)
  | false => exact .inr (.inl ⟨m, hm, habs, hslot⟩)

theorem obligation_decided_diamond :
    ∃ r w', ((ofList diamond).supply (· == ·) 3).resolve "J" ⟨(), []⟩ = .ok r w' ∧
      r.target.name ≠ objectName ∧
      ∃ levels, ((ofList diamond).supply (· == ·) 3).LevelsFrom "J" ⟨(), []⟩ levels ∧
        ∀ d, (ofList diamond).Reaches r.target d → ∀ n ∈ d.methods, n.isAbstract = true →
          n.slot ∈ Keyed.keys r.decisions ∨
          (∃ c ∈ Resolution.walked levels, c.isAbstract = false ∧ c.slot = n.slot) ∨
          (ofList diamond).Withdrawn r.target d n.slot := by
  obtain ⟨r, w', hrun, htarget, -⟩ := diamond_run
  have hbelow : r.target.name ≠ objectName := by
    rw [htarget]
    decide
  exact ⟨r, w', hrun, hbelow, obligation_decided (backs_supply _ _ _) diamond_described
    (remembers_start trivial) hrun hbelow (diamond_interfaces _)⟩

end TypeTable

end StubWriter
