import StubWriter.Proofs.Hierarchy.Supply

/-!
# Default methods that are made abstract again

Every default method of a slot stands above an interface that makes the slot abstract again. Then a
stub of an interface below has to implement the slot. Yet the interface that makes it abstract hides
the default method only on paths that go through it: on another path the default method is visible
still, and the slot is dropped.

* `TypeTable.ClearPath`: a path of interfaces that do not declare a slot.
* `TypeTable.Visible`: the methods that are met on the single level of an interface
  (`Chain.mem_walked_iff`).
* `TypeTable.Reabstracted`: whatever is a default method has been made abstract again.
* `reabstracted_mem_members_iff`: the slot is a member exactly when no visible default method fits.
* `not_reabstracted_mem_members`: it need not be one.
-/

namespace StubWriter

open Run Walk

namespace TypeInfo

def Requires (t : TypeInfo) (k : Slot) : Prop :=
  ∃ m ∈ t.methods, m.slot = k ∧ m.isAbstract = true

/-- The type has a method of a slot that its subtypes may inherit instead of implementing one. -/
def Provides (t : TypeInfo) (k : Slot) : Prop :=
  ∃ m ∈ t.methods, m.slot = k ∧ m.isAbstract = false ∧ m.isStatic = false ∧ m.visibility ≠ .priv

instance (t : TypeInfo) (k : Slot) : Decidable (t.Requires k) :=
  inferInstanceAs (Decidable (∃ m ∈ t.methods, m.slot = k ∧ m.isAbstract = true))

instance (t : TypeInfo) (k : Slot) : Decidable (t.Provides k) :=
  inferInstanceAs (Decidable (∃ m ∈ t.methods,
    m.slot = k ∧ m.isAbstract = false ∧ m.isStatic = false ∧ m.visibility ≠ .priv))

end TypeInfo

namespace TypeTable

variable {table : TypeTable} {t s d : TypeInfo} {k : Slot}

/-! ## Hierarchies of interfaces -/

def Extends (table : TypeTable) (t s : TypeInfo) : Prop :=
  ∃ p ∈ t.interfaces, table p = some s

/-- `s` is `t` or one of its superinterfaces, direct or indirect. -/
def Hierarchy (table : TypeTable) : TypeInfo → TypeInfo → Prop :=
  Relation.ReflTransGen table.Extends

theorem Extends.parent (h : table.Extends t s) : table.Parent t s := by
  obtain ⟨p, hp, hs⟩ := h
  exact ⟨p, List.mem_append_right _ hp, hs⟩

/-- The slot is abstract in the hierarchy, and whatever it inherits a method of the slot from stands
strictly above an interface that makes the slot abstract again. -/
structure Reabstracted (table : TypeTable) (t : TypeInfo) (k : Slot) : Prop where
  required : ∃ d, table.Hierarchy t d ∧ d.Requires k
  again : ∀ d, table.Hierarchy t d → d.Provides k →
    ∃ e, table.Hierarchy t e ∧ e.Requires k ∧ Relation.TransGen table.Extends e d

/-! ## What is visible on an interface -/

/-- A path from `t` to `d` on which neither `t` nor any type before `d` declares the slot. -/
inductive ClearPath (table : TypeTable) (k : Slot) : TypeInfo → TypeInfo → Prop
  | here {t : TypeInfo} : ClearPath table k t t
  | up {t s d : TypeInfo} (free : k ∉ t.methods.map Method.slot) (ext : table.Extends t s)
      (rest : ClearPath table k s d) : ClearPath table k t d

/-- A public method that goes on to subtypes, at the end of a clear path. -/
def HandedDown (table : TypeTable) (t : TypeInfo) (m : Method) : Prop :=
  ∃ d, table.ClearPath m.slot t d ∧ m ∈ d.methods ∧ m.visibility = .pub ∧ m.isStatic = false

theorem HandedDown.not_static {m : Method} (h : table.HandedDown t m) : m.isStatic = false := by
  obtain ⟨d, -, -, -, hstatic⟩ := h
  exact hstatic

/-- A method of the interface itself, or one that is handed down to it. -/
def Visible (table : TypeTable) (t : TypeInfo) (m : Method) : Prop :=
  m ∈ t.methods ∨ table.HandedDown t m

/-- What is handed down is an inheritable method of the type itself, or was handed down to one of
the interfaces that it extends. -/
theorem handedDown_iff {m : Method} :
    table.HandedDown t m ↔
      (m ∈ t.methods ∧ m.visibility = .pub ∧ m.isStatic = false) ∨
      (m.slot ∉ t.methods.map Method.slot ∧ ∃ s, table.Extends t s ∧ table.HandedDown s m) := by
  constructor
  · rintro ⟨d, hpath, hm⟩
    cases hpath with
    | here => exact .inl hm
    | up hfree hext hrest => exact .inr ⟨hfree, _, hext, d, hrest, hm⟩
  · rintro (hm | ⟨hfree, s, hext, d, hrest, hm⟩)
    · exact ⟨t, .here, hm⟩
    · exact ⟨d, .up hfree hext hrest, hm⟩

/-- The view of an interface consists of its public methods and those that are handed down. -/
theorem View.mem_iff {name : String} {ms : List Method} (h : table.View name ms)
    (ht : table name = some t) (hi : ∀ s, table.Hierarchy t s → s.isInterface = true)
    {m : Method} :
    m ∈ ms ↔ (m ∈ t.methods ∧ m.visibility = .pub) ∨ table.HandedDown t m := by
  induction h generalizing t with
  | intro views hfound hviews ih =>
    obtain rfl := Option.some.inj (ht.symm.trans hfound)
    have hup : ∀ p ∈ t.interfaces, ∀ s, table p = some s →
        (m ∈ views p ↔ (m ∈ s.methods ∧ m.visibility = .pub) ∨ table.HandedDown s m) :=
      fun p hp s hs => ih p (List.mem_append_right _ hp) hs fun u hsu =>
        hi u (.head ⟨p, hp, hs⟩ hsu)
    rw [mem_viewFrom_interface (hi t .refl)]
    refine or_congr_right' fun hown => ?_
    rw [handedDown_iff]
    constructor
    · rintro ⟨p, hp, hm, hstatic, hfree⟩
      obtain ⟨s, hs⟩ := (hviews p (List.mem_append_right _ hp)).found
      refine .inr ⟨hfree, s, ⟨p, hp, hs⟩, ?_⟩
      rcases (hup p hp s hs).mp hm with ⟨hm, hpublic⟩ | hdown
      · exact handedDown_iff.mpr (.inl ⟨hm, hpublic, hstatic⟩)
      · exact hdown
    · rintro (⟨hm, hpublic, -⟩ | ⟨hfree, s, ⟨p, hp, hs⟩, hdown⟩)
      · exact absurd ⟨hm, hpublic⟩ hown
      · exact ⟨p, hp, (hup p hp s hs).mpr (.inr hdown), hdown.not_static, hfree⟩

/-- The methods of the only level of an interface are the visible ones. -/
theorem Chain.mem_walked_iff {name : String} {levels : List Level} (h : table.Chain name levels)
    (ht : table name = some t) (hbelow : t.name ≠ objectName)
    (hi : ∀ s, table.Hierarchy t s → s.isInterface = true) {m : Method} :
    m ∈ Resolution.walked levels ↔ table.Visible t m := by
  cases h with
  | object hfound hobject =>
    obtain rfl := Option.some.inj (ht.symm.trans hfound)
    exact absurd hobject hbelow
  | step hfound _ _ hnext =>
    obtain rfl := Option.some.inj (ht.symm.trans hfound)
    rw [superclassName?_interface (hi t .refl)] at hnext
    cases hnext
  | top hfound _ hview =>
    obtain rfl := Option.some.inj (ht.symm.trans hfound)
    have hlast : m ∉ Resolution.walked [] := List.not_mem_nil
    rw [Resolution.mem_walked_cons, List.mem_append, hview.mem_iff ht hi, or_iff_left hlast,
      Visible]
    constructor
    · rintro (hm | ⟨hm, -⟩ | hdown)
      · exact .inl hm
      · exact .inl hm
      · exact .inr hdown
    · rintro (hm | hdown)
      · exact .inl hm
      · exact .inr (.inr hdown)

/-! ## The lowest abstract methods -/

theorem ClearPath.of_hierarchy (h : table.Hierarchy t d)
    (hfree : ∀ s, table.Hierarchy t s → Relation.TransGen table.Extends s d →
      k ∉ s.methods.map Method.slot) : table.ClearPath k t d := by
  induction h using Relation.ReflTransGen.head_induction_on with
  | refl => exact .here
  | @head t s hts hsd ih =>
    have ht := hfree t .refl (.head' hts hsd)
    exact .up ht hts (ih fun u hsu => hfree u (hsu.head hts))

theorem provides_of_not_abstract (hi : s.isInterface = true) (hfree : ¬ s.Withdraws k) {m : Method}
    (hm : m ∈ s.methods) (hslot : m.slot = k) (habs : m.isAbstract = false) : s.Provides k := by
  refine ⟨m, hm, hslot, habs, ?_, fun hpriv => hfree ⟨hi, m, hm, hslot, .inl hpriv⟩⟩
  by_contra hstatic
  exact hfree ⟨hi, m, hm, hslot, .inr (by simpa using hstatic)⟩

/-- If nothing withdraws the slot, then a lowest interface that requires it is reached on a clear
path: what is declared below it would be abstract, or above yet another interface that requires
the slot. -/
theorem Reabstracted.visible (h : table.Reabstracted t k) (htable : table.Described)
    {name : String} {ms : List Method} (hview : table.View name ms) (ht : table name = some t)
    (hi : ∀ s, table.Hierarchy t s → s.isInterface = true)
    (hfree : ∀ s, table.Hierarchy t s → ¬ s.Withdraws k) :
    ∃ m, table.Visible t m ∧ m.isAbstract = true ∧ m.slot = k := by
  have hparents : ∀ s, table.Hierarchy t s → Relation.ReflTransGen table.Parent t s :=
    fun _ hs => Relation.ReflTransGen.mono (fun _ _ => Extends.parent) _ _ hs
  obtain ⟨d, htd, hd⟩ := h.required
  obtain ⟨e, -, ⟨hte, m, hm, hslot, habs⟩, hlowest⟩ := hview.exists_lowest ht
    (P := fun s => table.Hierarchy t s ∧ s.Requires k) ⟨d, hparents d htd, htd, hd⟩
  have hnone : ∀ s, table.Hierarchy t s → s.Requires k →
      ¬ Relation.TransGen table.Extends s e := fun s hts hs hse =>
    hlowest s (hparents s hts) ⟨hts, hs⟩
      (Relation.TransGen.mono (fun _ _ => Extends.parent) _ _ hse)
  have hpath : table.ClearPath k t e := by
    refine .of_hierarchy hte fun s hts hse hmem => ?_
    obtain ⟨m', hm', hslot'⟩ := List.mem_map.mp hmem
    -- Abstract, it would be lower than the lowest; otherwise a yet lower one covers it.
    cases habs' : m'.isAbstract with
    | true => exact hnone s hts ⟨m', hm', hslot', habs'⟩ hse
    | false =>
      have hprovides := provides_of_not_abstract (hi s hts) (hfree s hts) hm' hslot' habs'
      obtain ⟨u, htu, hu, hus⟩ := h.again s hts hprovides
      exact hnone u htu hu (hus.trans hse)
  obtain ⟨p, vs, hp, -⟩ := hview.of_parents ht (hparents e hte)
  have hinterface := ((htable.described hp).interface (hi e hte)).2 m hm
  obtain ⟨hpublic, hstatic⟩ := hinterface.inherited (hi e hte) hm (hslot ▸ hfree e hte)
  exact ⟨m, .inr ⟨e, hslot ▸ hpath, hm, hpublic, hstatic⟩, habs, hslot⟩

/-! ## Members -/

/-- Under the hypothesis that whatever is a default method of a slot has been made abstract again:
the slot is a member exactly when some abstract method of it is met and no visible method that is
not abstract returns what the last one accepts. An abstract method is met unless an interface of
the hierarchy withdraws the slot. -/
theorem reabstracted_mem_members_iff {σ : Type} {supply : TypeSupply σ} {inv : σ → Prop}
    (hsupply : table.Backs supply inv) (htable : table.Described) {rel : String → String → Bool}
    (hrel : ∀ {x y s v s'}, inv s → supply.isAssignable x y s = .ok v s' → v = rel x y)
    {name : String} {w w' : Walk σ} (hw : table.Remembers inv w) {r : Resolution}
    (hrun : supply.resolve name w = .ok r w') (hbelow : r.target.name ≠ objectName)
    (hi : ∀ s, table.Hierarchy r.target s → s.isInterface = true) {k : Slot}
    (hagain : table.Reabstracted r.target k) :
    ∃ levels, supply.LevelsFrom name w levels ∧
      (k ∈ Keyed.keys r.members ↔
        ∃ a, (Resolution.abstractOf levels k).getLast? = some a ∧
          ∀ c, table.Visible r.target c → c.isAbstract = false → c.slot = k →
            rel a.returns c.returns = false) ∧
      ((∀ s, table.Hierarchy r.target s → ¬ s.Withdraws k) →
        ∃ a, (Resolution.abstractOf levels k).getLast? = some a) := by
  obtain ⟨⟨levels, hlevels, htarget, hchain, hresolved⟩, -⟩ :=
    hsupply.resolve_ok htable name hw r w' hrun
  have hwalked : ∀ m, m ∈ Resolution.walked levels ↔ table.Visible r.target m :=
    fun m => hchain.mem_walked_iff htarget hbelow hi
  have hfollows : ∀ {x y s v s'}, table.Remembers inv s →
      supply.assignable x y s = .ok v s' → v = rel x y := by
    intro x y s v s' hs hcompare
    exact (lift_ok (P := fun v _ => v = rel x y) (fun _ _ => hrel hs.types) v s' hcompare).1
  refine ⟨levels, hlevels, ?_, fun hfree => ?_⟩
  · have hkeys : k ∈ Keyed.keys r.members ↔ ∃ a, (k, a) ∈ r.members := by simp [Keyed.keys]
    rw [hkeys]
    refine exists_congr fun a => ?_
    rw [hresolved.mem_members_iff_rel hfollows]
    refine and_congr_right fun _ => forall_congr' fun c => ?_
    rw [Resolution.mem_concreteOf, hwalked]
    tauto
  · obtain ⟨ms, hview⟩ := hchain.view htarget hbelow
    obtain ⟨m, hvisible, habs, hslot⟩ := hagain.visible htable hview htarget hi hfree
    have hmem := Resolution.mem_abstractOf.mpr ⟨(hwalked m).mpr hvisible, habs, hslot⟩
    exact ⟨_, List.getLast?_eq_some_getLast (List.ne_nil_of_mem hmem)⟩

/-! ### A default method on a second path -/

theorem hierarchy_ofList {ts : List TypeInfo} (ht : t ∈ ts) (h : (ofList ts).Hierarchy t s) :
    s ∈ ts := by
  induction h with
  | refl => exact ht
  | tail _ hext _ =>
    obtain ⟨p, -, hp⟩ := hext
    exact List.mem_of_find?_eq_some hp

theorem diamond_again :
    (ofList diamond).Extends (plainInterface "K" ["I"] [false]) (plainInterface "I" [] [true]) :=
  ⟨"I", by decide, rfl⟩

theorem diamond_side :
    (ofList diamond).Extends (plainInterface "J" ["I", "K"] [])
      (plainInterface "K" ["I"] [false]) :=
  ⟨"K", by decide, rfl⟩

theorem diamond_reabstracted :
    (ofList diamond).Reabstracted (plainInterface "J" ["I", "K"] []) ⟨"f", []⟩ where
  required := ⟨_, .single diamond_side, by decide⟩
  again := by
    intro d hd hprovides
    refine ⟨_, .single diamond_side, by decide, ?_⟩
    have hmem : d ∈ diamond := hierarchy_ofList (by decide) hd
    simp only [diamond, List.mem_cons, List.not_mem_nil, or_false] at hmem
    rcases hmem with rfl | rfl | rfl
    · exact .single diamond_again
    · exact absurd hprovides (by decide)
    · exact absurd hprovides (by decide)

theorem diamond_hierarchy :
    ∀ s, (ofList diamond).Hierarchy (plainInterface "J" ["I", "K"] []) s →
      s.isInterface = true := by
  intro s hs
  have hall : ∀ t ∈ diamond, t.isInterface = true := by decide
  exact hall s (hierarchy_ofList (by decide) hs)

theorem reabstracted_mem_members_iff_diamond :
    ∃ r w', ((ofList diamond).supply (· == ·) 3).resolve "J" ⟨(), []⟩ = .ok r w' ∧
      r.target.name ≠ objectName ∧
      (∀ s, (ofList diamond).Hierarchy r.target s → s.isInterface = true) ∧
      (ofList diamond).Reabstracted r.target ⟨"f", []⟩ ∧
      ∃ levels, ((ofList diamond).supply (· == ·) 3).LevelsFrom "J" ⟨(), []⟩ levels ∧
        (⟨"f", []⟩ ∈ Keyed.keys r.members ↔
          ∃ a, (Resolution.abstractOf levels ⟨"f", []⟩).getLast? = some a ∧
            ∀ c, (ofList diamond).Visible r.target c → c.isAbstract = false →
              c.slot = ⟨"f", []⟩ → (a.returns == c.returns) = false) := by
  obtain ⟨r, w', hrun, htarget, -⟩ := diamond_run
  have hbelow : r.target.name ≠ objectName := by
    rw [htarget]
    decide
  have hi := htarget ▸ diamond_hierarchy
  have hagain := htarget ▸ diamond_reabstracted
  obtain ⟨levels, hlevels, hiff, -⟩ := reabstracted_mem_members_iff (backs_supply _ _ _)
    diamond_described (fun _ hcompare => by cases hcompare; rfl) (remembers_start trivial) hrun
    hbelow hi hagain
  exact ⟨r, w', hrun, hbelow, hi, hagain, levels, hlevels, hiff⟩

/-- A slot all of whose default methods have been made abstract again need not be a member. -/
theorem not_reabstracted_mem_members :
    ¬ ∀ (table : TypeTable) (rel : String → String → Bool) (depth : Nat) (name : String)
      (r : Resolution) (w' : Walk Unit), table.Described →
      (table.supply rel depth).resolve name ⟨(), []⟩ = .ok r w' →
      (∀ s, table.Hierarchy r.target s → s.isInterface = true) →
      ∀ k, table.Reabstracted r.target k → k ∈ Keyed.keys r.members := by
  intro h
  obtain ⟨r, w', hrun, htarget, hmembers, -⟩ := diamond_run
  have hmem := h _ _ _ _ r w' diamond_described hrun (htarget ▸ diamond_hierarchy) _
    (htarget ▸ diamond_reabstracted)
  rw [hmembers] at hmem
  cases hmem

end TypeTable

end StubWriter
