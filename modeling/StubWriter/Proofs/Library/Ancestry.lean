import StubWriter.Proofs.Library.Growth
import StubWriter.Proofs.Library.Meaning

/-!
# What can be assigned to what

Before types are compared, the supertypes of the assigned one are loaded. So what a library has
loaded already makes no difference to the answer, as long as nothing stands above
`java.lang.Object`, where the search for supertypes stops. Nothing of a type but its supertypes
makes a difference either.

* `Lineage`: the supertypes of each name.
* `Lineage.Tame`: what is needed of a lineage.
* `Lineage.verdict`: assignability by a lineage.
* `Run.World.Holds`: libraries whose types have the supertypes of a lineage, and `Run.World.Follows`:
  such libraries that reports of missing types may change, and that may be lost on the way.
* `isAssignable_unless`, `isAssignable_gives`: such a library answers by the lineage.
-/

namespace StubWriter

open Run

/-- The supertypes of each name that stands for a type. -/
abbrev Lineage := String → Option (List String)

namespace Lineage

/-- A type with the supertypes of its name. -/
def Fits (A : Lineage) (name : String) (t : TypeInfo) : Prop :=
  A name = some t.supertypes

/-- All supertypes are among `names`, primitive types and arrays have none, and nothing but itself
is above `java.lang.Object`. -/
structure Tame (A : Lineage) (names : List String) : Prop where
  supertypes : ∀ {name above}, A name = some above → above ⊆ names
  primitive : ∀ {name}, isPrimitiveName name = true → A name = some []
  element : ∀ {name above}, A name = some above → Library.elementName name = name
  object : ∀ {above}, A objectName = some above → ∀ name ∈ above, name = objectName

/-- `b` is a direct supertype of `a`. -/
def Up (A : Lineage) (a b : String) : Prop :=
  ∃ above, A a = some above ∧ b ∈ above

open Classical in
/-- Assignability by the supertypes of names. -/
noncomputable def verdict (A : Lineage) (target source : String) : Bool :=
  TypeGraph.isAssignableBy (fun s t => decide (t ≠ s ∧ Relation.ReflTransGen A.Up s t))
    (source.length + 1) target source

theorem verdict_refl (A : Lineage) (name : String) : A.verdict name name = true := by
  simp [verdict, TypeGraph.isAssignableBy]

theorem verdict_mono {A A' : Lineage} (h : ∀ a b, A.Up a b → A'.Up a b) {target source : String}
    (hassignable : A.verdict target source = true) : A'.verdict target source = true := by
  classical
  refine TypeGraph.isAssignableBy_mono (fun s t hst => ?_) hassignable
  obtain ⟨hne, hreaches⟩ := of_decide_eq_true hst
  exact decide_eq_true ⟨hne, Relation.ReflTransGen.mono h _ _ hreaches⟩

end Lineage

/-- A world of libraries whose types have the supertypes of a lineage. Of names that are not `good`
nothing is known; no good name leads to one of them. -/
structure Run.World.Holds (W : World Library) (A : Lineage) (good : String → Prop) : Prop where
  gives : ∀ name, good name → Ends W.inv (Library.load name) fun o =>
    (∃ t, o = .ok t ∧ A name = some t.supertypes) ∨
      ∃ f, o = .error f ∧ (f.isNotFound = true ∧ A name = none ∨ W.excused f)
  closed : ∀ {name above}, good name → A name = some above → ∀ b ∈ above, good b
  firm : ∀ f, W.excused f → f.isNotFound = false
  quiet : W.Quiet
  bears : ∀ l, W.inv l → l.graph.Bears A.Fits

/-- A library after a report. -/
def Library.told (l : Library) (e : Event) : Library :=
  { l with log := l.log ++ [e] }

/-- A world of libraries whose types have the supertypes of a lineage, as far as they are not lost.
What is missing may leave the world until it is reported. -/
structure Run.World.Follows (W : World Library) (lost : Library → Prop) (A : Lineage)
    (good : String → Prop) : Prop where
  met : ∀ (start name : String) (l : Library), good name → W.inv l →
    Comes (Library.loadIfFound name) l fun o l' => lost l' ∨
      (∃ t, A name = some t.supertypes ∧ o = .ok (some t) ∧ W.inv l') ∨
      (A name = none ∧ o = .ok none ∧ W.inv (l'.told (.ancestryEnds start name))) ∨
      ∃ f, W.excused f ∧ o = .error f ∧ W.inv l'
  closed : ∀ {name above}, good name → A name = some above → ∀ b ∈ above, good b
  stays : ∀ l l', l.Grows l' → lost l → lost l'
  bears : ∀ l, W.inv l → l.graph.Bears A.Fits

namespace Library

variable {W : World Library} {lost : Library → Prop} {A : Lineage} {good : String → Prop}
  {names : List String}

/-- The names at which a search for supertypes stops. -/
def EndsAt (name : String) : Prop :=
  name = objectName ∨ isPrimitiveName name = true

instance : DecidablePred EndsAt :=
  fun name => inferInstanceAs (Decidable (name = objectName ∨ isPrimitiveName name = true))

/-- The types of `seen` are loaded, and their supertypes are in `seen` as well, or in `pending`. -/
def Visited (A : Lineage) (l : Library) (seen pending : List String) : Prop :=
  ∀ a ∈ seen, ∀ above, A a = some above → l.graph.contains a = true ∧
    ∀ b ∈ above, b ∈ seen ∨ b ∈ pending ∨ EndsAt b

theorem grows_told (l : Library) (e : Event) : l.Grows (l.told e) :=
  ⟨rfl, rfl, rfl, rfl, fun _ h => h, List.prefix_append _ _⟩

theorem loadIfFound_comes (h : W.Holds A good) {l : Library} (hl : W.inv l) {name : String}
    (hname : good name) : Comes (loadIfFound name) l fun o l' => W.inv l' ∧
      ((∃ t, A name = some t.supertypes ∧ o = .ok (some t)) ∨ (A name = none ∧ o = .ok none) ∨
        ∃ f, W.excused f ∧ o = .error f) := by
  obtain ⟨hinv, hload⟩ := h.gives name hname l hl
  rw [Comes, loadIfFound_eq]
  cases hrun : load name l with
  | ok t l' =>
    rw [hrun] at hinv hload
    refine ⟨hinv, .inl ⟨t, ?_, rfl⟩⟩
    rcases hload with ⟨_, ht, habove⟩ | ⟨f, hf, -⟩
    · cases ht
      exact habove
    · cases hf
  | error f l' =>
    rw [hrun] at hinv hload
    dsimp only
    rcases hload with ⟨t, ht, -⟩ | ⟨_, hf, ⟨hnotFound, hnone⟩ | hexcused⟩
    · cases ht
    · cases hf
      rw [hnotFound, if_pos rfl]
      exact ⟨hinv, .inr (.inl ⟨hnone, rfl⟩)⟩
    · cases hf
      rw [h.firm f hexcused, if_neg Bool.false_ne_true]
      exact ⟨hinv, .inr (.inr ⟨f, hexcused, rfl⟩)⟩

/-- Where reports make no difference, and nothing is ever lost, a world that holds a lineage follows
it. -/
theorem holds_follows (h : W.Holds A good) : W.Follows (fun _ => False) A good := by
  refine ⟨fun start name l hname hl => ?_, h.closed, fun _ _ _ => id, h.bears⟩
  refine comes_mono (loadIfFound_comes h hl hname) ?_
  rintro o l' ⟨hl', ⟨t, ht, ho⟩ | ⟨hnone, ho⟩ | ⟨f, hf, ho⟩⟩
  · exact .inr (.inl ⟨t, ht, ho, hl'⟩)
  · exact .inr (.inr (.inl ⟨hnone, ho, h.quiet l' _ hl'⟩))
  · exact .inr (.inr (.inr ⟨f, hf, ho, hl'⟩))

/-- A type that was found is loaded, and its name stays looked up. -/
theorem loadIfFound_grows (name : String) (l : Library) :
    Comes (loadIfFound name) l fun o l' => l.Grows l' ∧
      ∀ t, o = .ok (some t) → isPrimitiveName name = false → l'.graph.contains name = true := by
  refine ⟨Steady.grows l, fun t ht hprimitive => ?_⟩
  have hok := load_ok name l
  rw [loadIfFound_eq] at ht ⊢
  cases hrun : load name l with
  | ok t' l' =>
    dsimp only [stateAfter]
    rw [TypeGraph.contains, hok t' l' hrun hprimitive]
    rfl
  | error f l' =>
    rw [hrun] at ht
    dsimp only at ht
    split at ht <;> cases ht

/-- A name that is visited next: its type is loaded, and its supertypes are pending. -/
theorem Visited.step {l l' : Library} {seen pending more : List String} {current : String}
    (h : Visited A l seen (current :: pending)) (hgrows : l.Grows l')
    (hcurrent : ∀ above, A current = some above → l'.graph.contains current = true ∧
      ∀ b ∈ above, b ∈ more) :
    Visited A l' (current :: seen) (more ++ pending) := by
  intro a ha above habove
  rcases List.mem_cons.mp ha with rfl | ha
  · obtain ⟨hcontains, hmore⟩ := hcurrent above habove
    exact ⟨hcontains, fun b hb => .inr (.inl (List.mem_append_left _ (hmore b hb)))⟩
  · obtain ⟨hcontains, hfurther⟩ := h a ha above habove
    refine ⟨hgrows.graph a hcontains, fun b hb => ?_⟩
    rcases hfurther b hb with hb | hb | hb
    · exact .inl (List.mem_cons_of_mem _ hb)
    · rcases List.mem_cons.mp hb with rfl | hb
      · exact .inl List.mem_cons_self
      · exact .inr (.inl (List.mem_append_right _ hb))
    · exact .inr (.inr hb)

/-- The search for supertypes ends, with all of them loaded that there are, unless the library is
lost. -/
theorem loadAll_comes (h : W.Follows lost A good) (hA : A.Tame names) (name : String) (fuel : Nat)
    (seen pending : List String) {l : Library} (hl : W.inv l) (hseen : seen.Nodup)
    (hgood : ∀ b ∈ pending, good b)
    {all : List String} (hall : names ⊆ all) (hseenAll : seen ⊆ all) (hpendingAll : pending ⊆ all)
    (hfuel : all.length ≤ fuel + seen.length) (hvisited : Visited A l seen pending) :
    Comes (loadAll name fuel seen pending) l fun o l' => lost l' ∨ W.inv l' ∧
      ((o = .ok () ∧ ∃ seen', seen ⊆ seen' ∧ (∀ b ∈ pending, b ∈ seen' ∨ EndsAt b) ∧
          Visited A l' seen' []) ∨ ∃ f, W.excused f ∧ o = .error f) := by
  induction fuel, seen, pending using loadAll.induct generalizing l with
  | case1 fuel seen =>
    unfold loadAll
    exact .inr ⟨hl, .inl ⟨rfl, seen, List.Subset.refl _, fun b hb => absurd hb List.not_mem_nil,
      hvisited⟩⟩
  | case2 fuel seen current pending hskip ih =>
    have hdone : current ∈ seen ∨ EndsAt current := by
      simp only [Bool.or_eq_true, List.contains_iff_mem, beq_iff_eq] at hskip
      unfold EndsAt
      tauto
    rw [loadAll.eq_def]
    dsimp only
    rw [if_pos hskip]
    have hvisited' : Visited A l seen pending := by
      intro a ha above habove
      refine ⟨(hvisited a ha above habove).1, fun b hb => ?_⟩
      rcases (hvisited a ha above habove).2 b hb with hb | hb | hb
      · exact .inl hb
      · rcases List.mem_cons.mp hb with rfl | hb
        · exact hdone.imp_right .inr
        · exact .inr (.inl hb)
      · exact .inr (.inr hb)
    refine comes_mono (ih hl hseen (fun b hb => hgood b (List.mem_cons_of_mem _ hb)) hseenAll
      (fun b hb => hpendingAll (List.mem_cons_of_mem _ hb)) hfuel hvisited') ?_
    rintro o l' (hlost | ⟨hinv, hrun⟩)
    · exact .inl hlost
    refine .inr ⟨hinv, hrun.imp_left ?_⟩
    rintro ⟨ho, seen', hsub, hpending, hv⟩
    refine ⟨ho, seen', hsub, fun b hb => ?_, hv⟩
    rcases List.mem_cons.mp hb with rfl | hb
    · exact hdone.imp_left fun hb => hsub hb
    · exact hpending b hb
  | case3 seen current pending hvisit =>
    -- A name that was not seen yet leaves room for itself.
    have hcurrent : current ∉ seen := by
      simp only [Bool.or_eq_true, List.contains_iff_mem, not_or] at hvisit
      exact hvisit.1.1
    have hsub : current :: seen ⊆ all :=
      List.cons_subset.mpr ⟨hpendingAll List.mem_cons_self, hseenAll⟩
    have hlength := ((List.nodup_cons.mpr ⟨hcurrent, hseen⟩).subperm hsub).length_le
    rw [List.length_cons] at hlength
    omega
  | case4 seen current pending hvisit fuel ihsome ihnone =>
    have hcurrent : current ∉ seen ∧ isPrimitiveName current = false := by
      simp only [Bool.or_eq_true, List.contains_iff_mem, not_or] at hvisit
      exact ⟨hvisit.1.1, by simpa using hvisit.1.2⟩
    have hseen' : (current :: seen).Nodup := List.nodup_cons.mpr ⟨hcurrent.1, hseen⟩
    have hseenAll' : current :: seen ⊆ all :=
      List.cons_subset.mpr ⟨hpendingAll List.mem_cons_self, hseenAll⟩
    have hpendingAll' : pending ⊆ all := fun b hb => hpendingAll (List.mem_cons_of_mem _ hb)
    have hfuel' : all.length ≤ fuel + (current :: seen).length := by
      rw [List.length_cons]
      omega
    obtain ⟨hgoodCurrent, hgood'⟩ := List.forall_mem_cons.mp hgood
    -- The rest of the search, with the supertypes of `current` pending as well.
    have hafter : ∀ (more : List String) {x : Lookup Unit} {l' : Library},
        Comes x l' (fun o l'' => lost l'' ∨ W.inv l'' ∧ ((o = .ok () ∧
          ∃ seen', current :: seen ⊆ seen' ∧ (∀ b ∈ more ++ pending, b ∈ seen' ∨ EndsAt b) ∧
            Visited A l'' seen' []) ∨ ∃ f, W.excused f ∧ o = .error f)) →
        Comes x l' fun o l'' => lost l'' ∨ W.inv l'' ∧ ((o = .ok () ∧ ∃ seen', seen ⊆ seen' ∧
          (∀ b ∈ current :: pending, b ∈ seen' ∨ EndsAt b) ∧ Visited A l'' seen' []) ∨
            ∃ f, W.excused f ∧ o = .error f) := by
      intro more x l' hcomes
      refine comes_mono hcomes ?_
      rintro o l'' (hlost | ⟨hinv, hrun⟩)
      · exact .inl hlost
      refine .inr ⟨hinv, hrun.imp_left ?_⟩
      rintro ⟨ho, seen', hsub, hpending, hv⟩
      refine ⟨ho, seen', fun b hb => hsub (List.mem_cons_of_mem _ hb), fun b hb => ?_, hv⟩
      rcases List.mem_cons.mp hb with rfl | hb
      · exact .inl (hsub List.mem_cons_self)
      · exact hpending b (List.mem_append_right _ hb)
    have hlost : ∀ {x : Lookup Unit} [Steady x] {l' : Library}
        {P : Except Failure Unit → Library → Prop}, lost l' →
          Comes x l' fun o l'' => lost l'' ∨ P o l'' :=
      fun {x _ l' _} hl' => .inl (h.stays _ _ (Steady.grows (x := x) l') hl')
    rw [loadAll, if_neg hvisit]
    refine comes_bind (comes_and (h.met name current l hgoodCurrent hl)
      (loadIfFound_grows current l)) ?_ ?_
    · rintro type? l' ⟨hmet, hgrows, hloaded⟩
      rcases hmet with hl' | ⟨t, ht, ho, hl'⟩ | ⟨hnone, ho, hl'⟩ | ⟨f, -, ho, -⟩
      · cases type? <;> exact hlost hl'
      · cases ho
        have hsupers := hA.supertypes ht
        refine hafter _ (ihsome t hl' hseen' ?_ hseenAll' ?_ hfuel' (hvisited.step hgrows ?_))
        · intro b hb
          rcases List.mem_append.mp hb with hb | hb
          · exact h.closed hgoodCurrent ht b (List.mem_reverse.mp hb)
          · exact hgood' b hb
        · intro b hb
          rcases List.mem_append.mp hb with hb | hb
          · exact hall (hsupers (List.mem_reverse.mp hb))
          · exact hpendingAll' hb
        · intro above habove
          obtain rfl := Option.some.inj (ht.symm.trans habove)
          exact ⟨hloaded t rfl hcurrent.2, fun b hb => List.mem_reverse.mpr hb⟩
      · cases ho
        refine comes_bind (Q := fun o l'' => o = .ok () ∧ l'' = l'.told _) ⟨rfl, rfl⟩ ?_ ?_
        · rintro _ _ ⟨-, rfl⟩
          have hvisited' : Visited A (l'.told (.ancestryEnds name current)) (current :: seen)
              ([] ++ pending) := by
            refine hvisited.step (hgrows.trans (grows_told l' _)) fun above habove => ?_
            rw [hnone] at habove
            cases habove
          exact hafter [] (ihnone hl' hseen' hgood' hseenAll' hpendingAll' hfuel' hvisited')
        · rintro _ _ ⟨ho, -⟩
          cases ho
      · cases ho
    · rintro e l' ⟨hmet, -⟩
      rcases hmet with hl' | ⟨t, -, ho, -⟩ | ⟨-, ho, -⟩ | ⟨f, hf, ho, hl'⟩
      · exact .inl hl'
      · cases ho
      · cases ho
      · cases ho
        exact .inr ⟨hl', .inr ⟨e, hf, rfl⟩⟩

/-! ## Assignability -/

theorem elementName_element {array inner : String} (h : TypeGraph.element? array = some inner) :
    elementName inner = elementName array := by
  unfold TypeGraph.element? TypeGraph.elementChars? at h
  split at h
  · rename_i hsuffix
    rw [List.isSuffixOf_iff_suffix] at hsuffix
    obtain ⟨front, hfront⟩ := hsuffix
    have hbrackets : "[]".toList = ['[', ']'] := by decide
    rw [hbrackets] at hfront
    have hinner : inner.toList = front := by
      have := Option.some.inj h
      rw [← this, String.toList_ofList, ← hfront]
      simp
    unfold elementName
    rw [hinner, ← hfront]
    simp
  · cases h

theorem elementName_elementOf {source s : String} (h : TypeGraph.ElementOf source s) :
    elementName s = elementName source := by
  induction h with
  | self => rfl
  | element he _ ih => rw [ih, elementName_element he]

/-- In a library that has loaded all supertypes of a name, the graph knows what is above it. -/
theorem reaches_iff (hA : A.Tame names) {l : Library} (hl : l.graph.Bears A.Fits) {seen : List String}
    (hseen : Visited A l seen []) {source : String}
    (hsource : elementName source ∈ seen ∨ EndsAt (elementName source)) {s : String}
    (hs : TypeGraph.ElementOf source s) (t : String) :
    Relation.ReflTransGen l.graph.Edge s t ↔ Relation.ReflTransGen A.Up s t := by
  have hup : ∀ a b, l.graph.Edge a b → A.Up a b := by
    intro a b hab
    obtain ⟨t, ht, hb⟩ := (hl.edges a b).mp hab
    exact ⟨t.supertypes, hl.held ht, hb⟩
  refine ⟨fun h => Relation.ReflTransGen.mono hup _ _ h, fun h => ?_⟩
  suffices hall : Relation.ReflTransGen l.graph.Edge s t ∧ (s = t ∨ t ∈ seen ∨ EndsAt t) from hall.1
  induction h with
  | refl => exact ⟨.refl, .inl rfl⟩
  | @tail a b _ hab ih =>
    obtain ⟨hsa, ha⟩ := ih
    obtain ⟨above, habove, hb⟩ := hab
    have ha : a ∈ seen ∨ EndsAt a := by
      rcases ha with rfl | ha
      · -- Only the element type itself can have supertypes.
        have hname := hA.element habove
        rw [elementName_elementOf hs] at hname
        exact hname ▸ hsource
      · exact ha
    rcases ha with ha | rfl | ha
    · obtain ⟨hcontains, hfurther⟩ := hseen a ha above habove
      obtain ⟨t, ht⟩ := Option.isSome_iff_exists.mp hcontains
      obtain rfl := Option.some.inj (habove.symm.trans (hl.held ht))
      refine ⟨hsa.tail ((hl.edges a b).mpr ⟨t, ht, hb⟩), .inr ?_⟩
      exact (hfurther b hb).imp_right fun h => h.resolve_left List.not_mem_nil
    · obtain rfl := hA.object habove b hb
      exact ⟨hsa, .inr (.inr (.inl rfl))⟩
    · rw [hA.primitive ha] at habove
      cases habove
      cases hb

/-- A library answers by the supertypes of its types, unless it is lost. -/
theorem isAssignable_unless (h : W.Follows lost A good) (hA : A.Tame names)
    (hextent : ∀ l, W.inv l → names.length < l.extent) (target : String) {source : String}
    (hsource : good (elementName source)) :
    W.GivesUnless lost (isAssignable target source) (.ok (A.verdict target source)) := by
  intro l hl
  have hfuel : (elementName source :: names).length ≤ l.extent + ([] : List String).length := by
    have := hextent l hl
    simp
    omega
  have hsearch := loadAll_comes h hA source l.extent [] [elementName source] hl List.nodup_nil
    (List.forall_mem_singleton.mpr hsource)
    (List.subset_cons_self _ _) (List.nil_subset _) (by simp) hfuel
    fun a ha => absurd ha List.not_mem_nil
  change Comes (loadAncestry source >>= fun _ => do
    return (← get).graph.isAssignable target source) l fun o l' =>
      lost l' ∨ W.inv l' ∧ W.Near (.ok (A.verdict target source)) o
  refine comes_bind (x := loadAncestry source) (comes_get_bind hsearch) ?_ ?_
  · rintro _ l' (hl' | ⟨hl', ⟨-, seen, -, hpending, hseen⟩ | ⟨f, -, ho⟩⟩)
    · exact .inl hl'
    · have hgraph := h.bears l' hl'
      refine .inr ⟨hl', .inl (congrArg Except.ok ?_)⟩
      rw [TypeGraph.isAssignable, TypeGraph.isAssignableUpTo_eq]
      refine TypeGraph.isAssignableBy_congr fun s hs t => ?_
      have hreaches := reaches_iff hA hgraph hseen (hpending _ List.mem_cons_self) hs t
      have hancestors := TypeGraph.mem_ancestors hgraph.closed s t
      rw [Bool.eq_iff_iff, List.contains_iff_mem, hancestors, hreaches]
      classical exact decide_eq_true_iff.symm
    · cases ho
  · rintro f l' (hl' | ⟨hl', ⟨ho, -⟩ | ⟨f', hf', ho⟩⟩)
    · exact .inl hl'
    · cases ho
    · cases ho
      exact .inr ⟨hl', .inr ⟨f, hf', rfl⟩⟩

/-- A library answers by the supertypes of its types. -/
theorem isAssignable_gives (h : W.Holds A good) (hA : A.Tame names)
    (hextent : ∀ l, W.inv l → names.length < l.extent) (target : String) {source : String}
    (hsource : good (elementName source)) :
    W.Gives (isAssignable target source) (.ok (A.verdict target source)) :=
  World.gives_of_unless (isAssignable_unless (holds_follows h) hA hextent target hsource)

/-- A type with nothing above but `java.lang.Object` is compared by what the graph holds already. -/
theorem isAssignable_top {l : Library} {source : String} {t : TypeInfo}
    (hprimitive : isPrimitiveName source = false) (hsource : source ≠ objectName)
    (helement : elementName source = source) (ht : l.graph.get? source = some t)
    (habove : t.supertypes = [objectName]) (hextent : 0 < l.extent) (target : String) :
    isAssignable target source l = .ok (l.graph.isAssignable target source) l := by
  obtain ⟨fuel, hfuel⟩ : ∃ n, l.extent = n + 1 := ⟨l.extent - 1, by omega⟩
  have hfound : loadIfFound source l = .ok (some t) l := by
    rw [loadIfFound_eq, load_held hprimitive ht]
  have hrest : loadAll source fuel [source] [objectName] l = .ok () l := by
    rw [loadAll.eq_def]
    dsimp only
    rw [if_pos (by simp)]
    unfold loadAll
    rfl
  have hall : loadAll source (fuel + 1) [] [source] l = .ok () l := by
    rw [loadAll, if_neg (by simp [hprimitive, hsource])]
    change EStateM.bind (loadIfFound source) _ l = _
    unfold EStateM.bind
    rw [hfound]
    simp only [habove, List.reverse_singleton, List.append_nil]
    exact hrest
  have hancestry : loadAncestry source l = .ok () l := by
    change loadAll source l.extent [] [elementName source] l = _
    rw [hfuel, helement, hall]
  change EStateM.bind (loadAncestry source) _ l = _
  unfold EStateM.bind
  rw [hancestry]
  rfl

end Library

end StubWriter
