import StubWriter.Proofs.Hierarchy.Exposed

/-!
# The ways on which methods come down

A method comes down to a type step by step, through superclasses and interfaces, and may be stopped
on one way while it is let through on another one. The view of a type lists a method as often as
there are ways for it, since interfaces do not hide each other's methods, not even where they pass
on the same one.

* `Way`: the ways of a method to a type, and `View.ways`: a view lists the methods by their ways.
* `exposed_nodup_iff`: a view names no method twice exactly when none has two ways.
* `OpenWay`, `exposed_mem_iff`: a method that is declared by no type between its own and the one
  below is visible exactly when there is a way to it that no superclass stops.
* `not_exposed_nodup`, `not_exposed_specific`: there may be two ways, and there may be none.
-/

namespace StubWriter

open Run Walk

namespace TypeTable

variable {table : TypeTable} {name : String} {ms : List Method} {t : TypeInfo} {m : Method}
  {k : Slot}

/-! ## Ways -/

/-- The superclass of `t` has something visible in the slot. -/
def Handed (table : TypeTable) (t : TypeInfo) (k : Slot) : Prop :=
  ∃ p vs, superclassName? t = some p ∧ table.View p vs ∧ k ∈ vs.map Method.slot

/-- A way of a public method from the type that declares it to the type at the head: a step is the
one to the superclass, or to the interface at a position. Slots of the type below stop a method, and
on a way through an interface those of its superclass do. -/
inductive Way (table : TypeTable) (m : Method) : TypeInfo → List (Option Nat) → Prop
  | own {t : TypeInfo} (declared : m ∈ t.methods) (visible : m.visibility = .pub) : Way table m t []
  | superclass {t s : TypeInfo} {p : String} {way : List (Option Nat)}
      (next : superclassName? t = some p) (found : table p = some s)
      (free : m.slot ∉ t.methods.map Method.slot) (rest : Way table m s way) :
      Way table m t (none :: way)
  | interface {t s : TypeInfo} {p : String} {n : Nat} {way : List (Option Nat)}
      (listed : t.interfaces[n]? = some p) (found : table p = some s) (bound : m.isStatic = false)
      (free : m.slot ∉ t.methods.map Method.slot) (left : ¬ table.Handed t m.slot)
      (rest : Way table m s way) : Way table m t (some n :: way)

/-- A method and a way. -/
abbrev Passage := Method × List (Option Nat)

/-- The methods that pass, each with one more step on its way. -/
def passOn (step : Option Nat) (passes : Method → Bool) (ws : List Passage) : List Passage :=
  (ws.filter fun q => passes q.1).map fun q => (q.1, step :: q.2)

theorem map_fst_passOn (step : Option Nat) (passes : Method → Bool) (ws : List Passage) :
    (passOn step passes ws).map Prod.fst = (ws.map Prod.fst).filter passes := by
  rw [passOn, List.map_map, List.filter_map]
  rfl

theorem mem_passOn {step : Option Nat} {passes : Method → Bool} {ws : List Passage}
    {way : List (Option Nat)} :
    (m, way) ∈ passOn step passes ws ↔
      passes m = true ∧ ∃ rest, way = step :: rest ∧ (m, rest) ∈ ws := by
  simp only [passOn, List.mem_map, List.mem_filter, Prod.exists, Prod.mk.injEq]
  constructor
  · rintro ⟨_, rest, ⟨hmem, hpasses⟩, rfl, rfl⟩
    exact ⟨hpasses, rest, rfl, hmem⟩
  · rintro ⟨hpasses, rest, rfl, hmem⟩
    exact ⟨m, rest, ⟨hmem, hpasses⟩, rfl, rfl⟩

theorem nodup_passOn {step : Option Nat} {passes : Method → Bool} {ws : List Passage}
    (h : ws.Nodup) : (passOn step passes ws).Nodup := by
  refine (h.filter _).map fun q q' hsame => ?_
  simp only [Prod.mk.injEq, List.cons.injEq, true_and] at hsame
  exact Prod.ext hsame.1 hsame.2

/-- The passages to a type, given the views of its parents and the passages to them. -/
def waysFrom (t : TypeInfo) (views : String → List Method) (ways : String → List Passage) :
    List Passage :=
  (ownPublic t).map (fun m => (m, [])) ++
    ((superclassName? t).toList.flatMap fun p =>
      passOn none (fun m => !(t.methods.map Method.slot).contains m.slot) (ways p)) ++
    t.interfaces.zipIdx.flatMap fun q =>
      passOn (some q.2) (fun m => !m.isStatic && !(taken t views).contains m.slot) (ways q.1)

section Step

variable {views : String → List Method} {ways : String → List Passage}

theorem map_fst_waysFrom (h : ∀ p ∈ parents t, (ways p).map Prod.fst = views p) :
    (waysFrom t views ways).map Prod.fst = viewFrom t views := by
  have hsuper : ∀ p ∈ (superclassName? t).toList, (ways p).map Prod.fst = views p :=
    fun p hp => h p (List.mem_append_left _ hp)
  have hinterfaces : ∀ p ∈ t.interfaces, (ways p).map Prod.fst = views p :=
    fun p hp => h p (List.mem_append_right _ hp)
  have hpositions : (t.interfaces.zipIdx.flatMap fun q =>
      inheritedFromInterface (taken t views) (views q.1)) =
        t.interfaces.flatMap fun p => inheritedFromInterface (taken t views) (views p) := by
    conv_rhs => rw [← List.zipIdx_map_fst 0 t.interfaces, List.flatMap_map]
  rw [waysFrom, viewFrom, fromSuperclass, List.map_append, List.map_append, List.map_map,
    List.map_flatMap, List.map_flatMap, ← hpositions]
  congr 1
  · congr 1
    · exact List.map_id _
    · refine List.flatMap_congr fun p hp => ?_
      rw [map_fst_passOn, hsuper p hp]
      rfl
  · refine List.flatMap_congr fun q hq => ?_
    rw [map_fst_passOn, hinterfaces q.1 (List.fst_mem_of_mem_zipIdx hq)]
    rfl

theorem mem_taken_iff (h : ∀ p ∈ parents t, table.View p (views p)) :
    k ∈ taken t views ↔ k ∈ t.methods.map Method.slot ∨ table.Handed t k := by
  rw [taken, List.mem_append]
  refine or_congr_right' fun hfree => ?_
  constructor
  · intro hk
    obtain ⟨m, hm, rfl⟩ := List.mem_map.mp hk
    obtain ⟨p, hp, hm, -⟩ := mem_fromSuperclass.mp hm
    exact ⟨p, views p, hp, h p (List.mem_append_left _ (by simp [hp])), List.mem_map_of_mem hm⟩
  · rintro ⟨p, vs, hp, hvs, hk⟩
    obtain rfl := hvs.unique (h p (List.mem_append_left _ (by simp [hp])))
    obtain ⟨m, hm, rfl⟩ := List.mem_map.mp hk
    exact List.mem_map_of_mem (mem_fromSuperclass.mpr ⟨p, hp, hm, hfree⟩)

theorem mem_waysFrom (hviews : ∀ p ∈ parents t, table.View p (views p))
    (hways : ∀ p ∈ parents t, ∀ s, table p = some s →
      ∀ m way, (m, way) ∈ ways p ↔ table.Way m s way) {way : List (Option Nat)} :
    (m, way) ∈ waysFrom t views ways ↔ table.Way m t way := by
  rw [waysFrom, List.mem_append, List.mem_append]
  constructor
  · rintro ((hown | hsuper) | hinterface)
    · obtain ⟨_, hm, hsame⟩ := List.mem_map.mp hown
      obtain ⟨rfl, rfl⟩ := Prod.mk.inj hsame
      obtain ⟨hm, hpublic⟩ := List.mem_filter.mp hm
      exact .own hm (by simpa using hpublic)
    · obtain ⟨p, hp, hm⟩ := List.mem_flatMap.mp hsuper
      obtain ⟨hfree, rest, rfl, hrest⟩ := mem_passOn.mp hm
      have hparent : p ∈ parents t := List.mem_append_left _ hp
      obtain ⟨s, hs⟩ := (hviews p hparent).found
      exact .superclass (Option.mem_toList.mp hp) hs (by simpa using hfree)
        ((hways p hparent s hs m rest).mp hrest)
    · obtain ⟨⟨p, n⟩, hlisted, hm⟩ := List.mem_flatMap.mp hinterface
      obtain ⟨hpasses, rest, rfl, hrest⟩ := mem_passOn.mp hm
      have hparent : p ∈ parents t := List.mem_append_right _ (List.fst_mem_of_mem_zipIdx hlisted)
      obtain ⟨s, hs⟩ := (hviews p hparent).found
      obtain ⟨hbound, hfree⟩ : m.isStatic = false ∧ m.slot ∉ taken t views := by
        simpa using hpasses
      obtain ⟨hfree, hleft⟩ := not_or.mp (mt (mem_taken_iff hviews).mpr hfree)
      exact .interface (List.mem_zipIdx_iff_getElem?.mp hlisted) hs hbound hfree hleft
        ((hways p hparent s hs m rest).mp hrest)
  · intro hway
    cases hway with
    | own hm hpublic =>
      refine .inl (.inl (List.mem_map_of_mem (f := fun m => (m, [])) ?_))
      exact List.mem_filter.mpr ⟨hm, by simpa using hpublic⟩
    | @superclass _ s p way hnext hs hfree hrest =>
      have hparent := mem_parents_of_superclass hnext
      refine .inl (.inr (List.mem_flatMap.mpr
        ⟨p, Option.mem_toList.mpr hnext, mem_passOn.mpr ⟨?_, way, rfl, ?_⟩⟩))
      · simpa using hfree
      · exact (hways p hparent _ hs m way).mpr hrest
    | @interface _ s p n way hlisted hs hbound hfree hleft hrest =>
      have hparent : p ∈ parents t := List.mem_append_right _ (List.mem_of_getElem? hlisted)
      have htaken : m.slot ∉ taken t views :=
        mt (mem_taken_iff hviews).mp (not_or.mpr ⟨hfree, hleft⟩)
      refine .inr (List.mem_flatMap.mpr ⟨(p, n), List.mem_zipIdx_iff_getElem?.mpr hlisted,
        mem_passOn.mpr ⟨?_, way, rfl, ?_⟩⟩)
      · simpa [hbound] using htaken
      · exact (hways p hparent _ hs m way).mpr hrest

theorem head?_passOn {step : Option Nat} {passes : Method → Bool} {ws : List Passage} {q : Passage}
    (hq : q ∈ passOn step passes ws) : q.2.head? = some step := by
  obtain ⟨-, rest, hway, -⟩ := mem_passOn.mp hq
  rw [hway, List.head?_cons]

/-- Passages that come from different sides differ in their first steps. -/
theorem nodup_waysFrom (hown : (ownPublic t).Nodup) (hways : ∀ p ∈ parents t, (ways p).Nodup) :
    (waysFrom t views ways).Nodup := by
  have hpositions : t.interfaces.zipIdx.Pairwise fun a b => a.2 ≠ b.2 := by
    have hnodup : (t.interfaces.zipIdx.map Prod.snd).Nodup := by
      rw [List.zipIdx_map_snd]
      exact List.nodup_range'
    exact List.pairwise_map.mp hnodup
  rw [waysFrom, List.nodup_append, List.nodup_append]
  refine ⟨⟨?_, ?_, fun a ha b hb hab => ?_⟩, ?_, fun a ha b hb hab => ?_⟩
  · exact hown.map fun m m' hsame => (Prod.mk.inj hsame).1
  · cases hn : superclassName? t with
    | none => exact List.nodup_nil
    | some p => simpa using nodup_passOn (hways p (mem_parents_of_superclass hn))
  · obtain ⟨m, -, rfl⟩ := List.mem_map.mp ha
    obtain ⟨p, -, hb⟩ := List.mem_flatMap.mp hb
    have hhead := head?_passOn hb
    rw [← hab] at hhead
    cases hhead
  · refine List.nodup_flatMap.mpr ⟨fun q hq => ?_, hpositions.imp fun {a b} hne => ?_⟩
    · exact nodup_passOn (hways q.1 (List.mem_append_right _ (List.fst_mem_of_mem_zipIdx hq)))
    · intro q ha hb
      have hheads := (head?_passOn ha).symm.trans (head?_passOn hb)
      simp only [Option.some.injEq] at hheads
      exact hne hheads
  · obtain ⟨q, -, hb⟩ := List.mem_flatMap.mp hb
    have hhead := head?_passOn hb
    rcases List.mem_append.mp ha with ha | ha
    · obtain ⟨m, -, rfl⟩ := List.mem_map.mp ha
      rw [← hab] at hhead
      cases hhead
    · obtain ⟨p, -, ha⟩ := List.mem_flatMap.mp ha
      rw [← hab, head?_passOn ha] at hhead
      cases hhead

end Step

/-- A view lists the methods by the ways on which they come down. If no type of the hierarchy
declares a method twice, no passage stands in it twice. -/
theorem View.ways (h : table.View name ms) (ht : table name = some t) :
    ∃ ws : List Passage, ws.map Prod.fst = ms ∧ (∀ m way, (m, way) ∈ ws ↔ table.Way m t way) ∧
      ((∀ s, table.Lineage t s → s.methods.Nodup) → ws.Nodup) := by
  induction h generalizing t with
  | intro views hfound habove ih =>
    obtain rfl := Option.some.inj (ht.symm.trans hfound)
    have hparents : ∀ p, ∃ ws : List Passage, p ∈ parents t → ws.map Prod.fst = views p ∧
        (∀ s, table p = some s → ∀ m way, (m, way) ∈ ws ↔ table.Way m s way) ∧
        ((∀ s, table.Lineage t s → s.methods.Nodup) → ws.Nodup) := by
      intro p
      by_cases hp : p ∈ parents t
      · obtain ⟨s, hs⟩ := (habove p hp).found
        obtain ⟨ws, hfst, hmem, hnodup⟩ := ih p hp hs
        refine ⟨ws, fun _ => ⟨hfst, fun u hu => ?_, fun hdistinct => hnodup fun u hu => ?_⟩⟩
        · obtain rfl := Option.some.inj (hs.symm.trans hu)
          exact hmem
        · exact hdistinct u (lineage_of_parent hp hs hu)
      · exact ⟨[], fun h => absurd h hp⟩
    choose ways hways using hparents
    refine ⟨waysFrom t views ways, map_fst_waysFrom fun p hp => (hways p hp).1, fun m way => ?_,
      fun hdistinct => ?_⟩
    · exact mem_waysFrom habove fun p hp s hs => (hways p hp).2.1 s hs
    · exact nodup_waysFrom ((hdistinct t .refl).filter _) fun p hp => (hways p hp).2.2 hdistinct

theorem View.mem_iff_way (h : table.View name ms) (ht : table name = some t) :
    m ∈ ms ↔ ∃ way, table.Way m t way := by
  obtain ⟨ws, rfl, hmem, -⟩ := h.ways ht
  simp [hmem]

/-! ## Methods that are listed once -/

theorem View.nodup_iff (h : table.View name ms) (ht : table name = some t)
    (hdistinct : ∀ s, table.Lineage t s → s.methods.Nodup) :
    ms.Nodup ↔ ∀ m way way', table.Way m t way → table.Way m t way' → way = way' := by
  obtain ⟨ws, rfl, hmem, hnodup⟩ := h.ways ht
  rw [List.nodup_map_iff_inj_on (hnodup hdistinct)]
  constructor
  · intro hinj m way way' hway hway'
    exact (Prod.mk.inj (hinj _ ((hmem m way).mpr hway) _ ((hmem m way').mpr hway') rfl)).2
  · rintro hunique ⟨m, way⟩ hq ⟨_, way'⟩ hq' rfl
    rw [hunique m way way' ((hmem m way).mp hq) ((hmem m way').mp hq')]

/-- The slot and the type that declares it tell a method from all others. -/
theorem View.owners_nodup_iff (h : table.View name ms) (ht : table name = some t)
    (howned : table.Owned)
    (hdistinct : ∀ s, table.Lineage t s → (s.methods.map Method.slot).Nodup) :
    (ms.map fun m => (m.declaringType, m.slot)).Nodup ↔
      ∀ m way way', table.Way m t way → table.Way m t way' → way = way' := by
  rw [← h.nodup_iff ht fun s hs => (hdistinct s hs).of_map]
  refine ⟨List.Nodup.of_map _, fun hnodup => hnodup.map_on fun m hm m' hm' hsame => ?_⟩
  obtain ⟨-, s, hs, hms⟩ := h.public_declared ht hm
  obtain ⟨-, s', hs', hms'⟩ := h.public_declared ht hm'
  obtain ⟨p, hp⟩ := hs.found ht
  obtain ⟨p', hp'⟩ := hs'.found ht
  obtain ⟨howner, hslot⟩ := Prod.mk.inj hsame
  rw [howned hp m hms, howned hp' m' hms'] at howner
  subst howner
  obtain rfl := Option.some.inj (hp.symm.trans hp')
  exact List.inj_on_of_nodup_map (hdistinct s hs) hms hms' hslot

/-! ## Methods that are declared by no type between -/

/-- A way up from `t` to `i`. It leaves a type for one of its interfaces only if the superclass of
that type has nothing visible in the slot. -/
inductive OpenWay (table : TypeTable) (k : Slot) : TypeInfo → TypeInfo → Prop
  | here {t : TypeInfo} : OpenWay table k t t
  | superclass {t s i : TypeInfo} {p : String} (next : superclassName? t = some p)
      (found : table p = some s) (rest : OpenWay table k s i) : OpenWay table k t i
  | interface {t s i : TypeInfo} {p : String} (listed : p ∈ t.interfaces)
      (found : table p = some s) (left : ¬ table.Handed t k) (rest : OpenWay table k s i) :
      OpenWay table k t i

theorem OpenWay.lineage {i : TypeInfo} (h : table.OpenWay k t i) : table.Lineage t i := by
  induction h with
  | here => exact .refl
  | superclass hnext hs _ ih => exact lineage_of_parent (mem_parents_of_superclass hnext) hs ih
  | interface hlisted hs _ _ ih => exact lineage_of_parent (List.mem_append_right _ hlisted) hs ih

theorem Way.openWay (howned : table.Owned) {i : TypeInfo} {q : String} (hi : table q = some i)
    (hm : m ∈ i.methods) {way : List (Option Nat)} (h : table.Way m t way)
    (ht : table name = some t) : table.OpenWay m.slot t i := by
  induction h generalizing name with
  | own hown =>
    obtain rfl := howned.unique ht hi hown hm
    exact .here
  | superclass hnext hs _ _ ih => exact .superclass hnext hs (ih hs)
  | interface hlisted hs _ _ hleft _ ih =>
    exact .interface (List.mem_of_getElem? hlisted) hs hleft (ih hs)

/-- The types on an open way do not stop the method if none of them declares its slot. -/
theorem OpenWay.exists_way {i : TypeInfo} (hm : m ∈ i.methods) (hpublic : m.visibility = .pub)
    (hbound : m.isStatic = false) (h : table.OpenWay m.slot t i)
    (hspecific : ∀ s, table.Lineage t s → Relation.TransGen table.Parent s i →
      m.slot ∉ s.methods.map Method.slot) : ∃ way, table.Way m t way := by
  induction h with
  | here => exact ⟨[], .own hm hpublic⟩
  | @superclass t s i p hnext hs hrest ih =>
    have hp := mem_parents_of_superclass hnext
    obtain ⟨way, hway⟩ := ih hm fun u hu => hspecific u (lineage_of_parent hp hs hu)
    exact ⟨none :: way, .superclass hnext hs (hspecific t .refl (.head' ⟨p, hp, hs⟩ hrest.lineage))
      hway⟩
  | @interface t s i p hlisted hs hleft hrest ih =>
    have hp : p ∈ parents t := List.mem_append_right _ hlisted
    obtain ⟨way, hway⟩ := ih hm fun u hu => hspecific u (lineage_of_parent hp hs hu)
    obtain ⟨n, hn⟩ := List.mem_iff_getElem?.mp hlisted
    exact ⟨some n :: way, .interface hn hs hbound
      (hspecific t .refl (.head' ⟨p, hp, hs⟩ hrest.lineage)) hleft hway⟩

theorem View.mem_iff_openWay (h : table.View name ms) (ht : table name = some t)
    (howned : table.Owned) {i : TypeInfo} (hi : table.Lineage t i) (hm : m ∈ i.methods)
    (hpublic : m.visibility = .pub) (hbound : m.isStatic = false)
    (hspecific : ∀ s, table.Lineage t s → Relation.TransGen table.Parent s i →
      m.slot ∉ s.methods.map Method.slot) : m ∈ ms ↔ table.OpenWay m.slot t i := by
  obtain ⟨q, hq⟩ := hi.found ht
  rw [h.mem_iff_way ht]
  exact ⟨fun ⟨way, hway⟩ => hway.openWay howned hq hm ht,
    fun hopen => hopen.exists_way hm hpublic hbound hspecific⟩

end TypeTable

/-! ## Walks -/

section Walks

open TypeTable Resolution

variable {T : LoadTable} {name : String} {t : TypeInfo} {σ : Type} {W : World σ}
  {load : String → EStateM Failure σ TypeInfo} {names : List String} {depth : Nat}

theorem exposed_comes_to_view (hW : ∀ f, ¬ W.excused f) (hload : W.Offers T load)
    (hname : ∀ {name t}, T name = .ok t → t.name = name)
    (hnames : ∀ {a b}, T.Leads a b → b ∈ names)
    (hacyclic : ∀ name, ¬ Relation.TransGen T.Leads name name) (ht : T name = .ok t)
    (hanswers : T.Answers t) (hdepth : names.length < depth) :
    ∃ ms, T.types.View name ms ∧ Ends (W.walk T).inv (exposed load depth t) (· = .ok ms) := by
  obtain ⟨rank, hrank, hbound⟩ := LoadTable.exists_ranked hname hnames hacyclic
  obtain ⟨ms, hview⟩ := LoadTable.exists_view hrank ht hanswers
  have hrun := hview.exposed_gives hload hrank.ranksViews ht (Nat.lt_of_le_of_lt (hbound name) hdepth)
  exact ⟨ms, hview, World.ends_of_gives (W := W.walk T) hW hrun⟩

/-- In the view of a type of an acyclic hierarchy in which no type declares a slot twice, each slot
stands at most once for each type that declares it, exactly when no method comes down to the type in
two ways. -/
theorem exposed_nodup_iff (hW : ∀ f, ¬ W.excused f) (hload : W.Offers T load)
    (hname : ∀ {name t}, T name = .ok t → t.name = name)
    (hnames : ∀ {a b}, T.Leads a b → b ∈ names)
    (hacyclic : ∀ name, ¬ Relation.TransGen T.Leads name name) (ht : T name = .ok t)
    (hanswers : T.Answers t) (hdepth : names.length < depth) (howned : T.types.Owned)
    (hdistinct : ∀ s, T.types.Lineage t s → (s.methods.map Method.slot).Nodup) :
    ∃ ms, Ends (W.walk T).inv (exposed load depth t) (· = .ok ms) ∧
      ((ms.map fun m => (m.declaringType, m.slot)).Nodup ↔
        ∀ m way way', T.types.Way m t way → T.types.Way m t way' → way = way') := by
  obtain ⟨ms, hview, hrun⟩ :=
    exposed_comes_to_view hW hload hname hnames hacyclic ht hanswers hdepth
  exact ⟨ms, hrun, hview.owners_nodup_iff (LoadTable.types_eq_some.mpr ht) howned hdistinct⟩

/-! ### An interface that is reached on two ways -/

/-- `D` extends two interfaces that both extend the one which declares `f`. -/
def forked : List TypeInfo :=
  [plainInterface "A" [] [false], plainInterface "B" ["A"] [], plainInterface "C" ["A"] [],
    plainInterface "D" ["B", "C"] []]

def forkedTip : TypeInfo := plainInterface "D" ["B", "C"] []

theorem acyclic_forked (name : String) :
    ¬ Relation.TransGen (ofList forked).loads.Leads name name :=
  acyclic_ofList (["A", "B", "C", "D"].idxOf ·) (by decide) name

theorem distinct_forked {s : TypeInfo} (hs : (ofList forked).Lineage forkedTip s) :
    (s.methods.map Method.slot).Nodup := by
  have hall : ∀ s ∈ forked, (s.methods.map Method.slot).Nodup := by decide
  have htip : ofList forked "D" = some forkedTip := rfl
  obtain ⟨p, hp⟩ := hs.found htip
  exact hall s (ofList_eq_some hp).2

theorem exposed_nodup_iff_forked :
    ∃ ms, Ends (anywhere.walk (ofList forked).loads).inv
        (exposed ((ofList forked).supply (· == ·) 4).load 4 forkedTip) (· = .ok ms) ∧
      ¬ (ms.map fun m => (m.declaringType, m.slot)).Nodup := by
  have hnames : ∀ {a b}, (ofList forked).loads.Leads a b → b ∈ ["A", "B", "C"] := by
    intro a b h
    have hparents : ∀ t ∈ forked, ∀ p ∈ parents t, p ∈ ["A", "B", "C"] := by decide
    obtain ⟨t, ht, -, hb⟩ := leads_ofList h
    exact hparents t ht b hb
  have htip : (ofList forked).loads "D" = .ok forkedTip := rfl
  have hdepth : ["A", "B", "C"].length < 4 := by decide
  have howned : (ofList forked).loads.types.Owned := by
    rw [types_loads]
    exact owned_ofList (by decide)
  have hdistinct : ∀ s, (ofList forked).loads.types.Lineage forkedTip s →
      (s.methods.map Method.slot).Nodup := by
    rw [types_loads]
    exact fun s => distinct_forked
  obtain ⟨ms, hrun, hiff⟩ := exposed_nodup_iff (fun _ h => h) (offers_supply _ (· == ·) 4)
    (fun h => (ofList_eq_some (loads_eq_ok.mp h)).1) hnames acyclic_forked htip
    (answers_ofList (by decide) (by decide)) hdepth howned hdistinct
  refine ⟨ms, hrun, fun hnodup => ?_⟩
  rw [types_loads] at hiff
  -- One way leads through `B`, the other one through `C`.
  have htop : (ofList forked).Way ⟨"A", "f", "void", [], [], .pub, true, false, false⟩
      (plainInterface "A" [] [false]) [] := .own (by decide) rfl
  have hside : ∀ b ∈ ["B", "C"], (ofList forked).Way
      ⟨"A", "f", "void", [], [], .pub, true, false, false⟩ (plainInterface b ["A"] []) [some 0] :=
    fun b _ => .interface rfl rfl rfl List.not_mem_nil (fun ⟨_, _, h, _⟩ => nomatch h) htop
  have hways := hiff.mp hnodup _ _ _
    (.interface (n := 0) rfl rfl rfl (by decide) (fun ⟨_, _, h, _⟩ => nomatch h)
      (hside "B" (by decide)))
    (.interface (n := 1) rfl rfl rfl (by decide) (fun ⟨_, _, h, _⟩ => nomatch h)
      (hside "C" (by decide)))
  cases hways

theorem described_forked : (ofList forked).Described := by
  refine described_ofList fun t ht => ?_
  simp only [forked, List.mem_cons, List.not_mem_nil, or_false] at ht
  rcases ht with rfl | rfl | rfl | rfl
  · exact plainInterface_described (l := .ofRoots [] default) rfl rfl
  · exact plainInterface_described (l := .ofRoots [] default) rfl rfl
  · exact plainInterface_described (l := .ofRoots [] default) rfl rfl
  · exact plainInterface_described (l := .ofRoots [] default) rfl rfl

/-- A slot may stand twice in a view for one type that declares it. -/
theorem not_exposed_nodup :
    ¬ ∀ (table : TypeTable) (rel : String → String → Bool) (depth : Nat) (name : String)
      (t : TypeInfo) (ms : List Method) (w : Walk Unit), table.Described →
      (∀ name, ¬ Relation.TransGen table.loads.Leads name name) →
      (∀ s, table.Lineage t s → (s.methods.map Method.slot).Nodup) → table name = some t →
      exposed (table.supply rel depth).load depth t ⟨(), []⟩ = .ok ms w →
      (ms.map fun m => (m.declaringType, m.slot)).Nodup := by
  intro h
  have hrun : ∃ w, exposed ((ofList forked).supply (· == ·) 4).load 4 forkedTip ⟨(), []⟩ =
      .ok [⟨"A", "f", "void", [], [], .pub, true, false, false⟩,
        ⟨"A", "f", "void", [], [], .pub, true, false, false⟩] w := ⟨_, rfl⟩
  obtain ⟨w, hrun⟩ := hrun
  have hnodup := h _ _ _ "D" forkedTip _ w described_forked acyclic_forked
    (fun s => distinct_forked) rfl hrun
  exact absurd hnodup (by decide)

/-- Let no type in the acyclic hierarchy of `t` that stands strictly below `i` declare the slot of a
public method of `i` that is not static. Then the method is visible on `t` exactly when a way leads
up to `i` that leaves a type for an interface only where the superclass has nothing in the slot. -/
theorem exposed_mem_iff (hW : ∀ f, ¬ W.excused f) (hload : W.Offers T load)
    (hname : ∀ {name t}, T name = .ok t → t.name = name)
    (hnames : ∀ {a b}, T.Leads a b → b ∈ names)
    (hacyclic : ∀ name, ¬ Relation.TransGen T.Leads name name) (ht : T name = .ok t)
    (hanswers : T.Answers t) (hdepth : names.length < depth) (howned : T.types.Owned)
    {i : TypeInfo} (hi : T.types.Lineage t i) {m : Method} (hm : m ∈ i.methods)
    (hpublic : m.visibility = .pub) (hbound : m.isStatic = false)
    (hspecific : ∀ s, T.types.Lineage t s → Relation.TransGen T.types.Parent s i →
      m.slot ∉ s.methods.map Method.slot) :
    ∃ ms, Ends (W.walk T).inv (exposed load depth t) (· = .ok ms) ∧
      (m ∈ ms ↔ T.types.OpenWay m.slot t i) := by
  obtain ⟨ms, hview, hrun⟩ :=
    exposed_comes_to_view hW hload hname hnames hacyclic ht hanswers hdepth
  exact ⟨ms, hrun, hview.mem_iff_openWay (LoadTable.types_eq_some.mpr ht) howned hi hm hpublic
    hbound hspecific⟩

/-! ### A class whose superclass implements another interface -/

/-- The method of the superclass's interface. -/
def wideMethod : Method := sampleMethod "I" objectName .pub true

/-- The method of the interface of the class itself. -/
def narrowMethod : Method := sampleMethod "J" "java.lang.String" .pub true

def wideInterface : TypeInfo :=
  { sampleClass "I" [wideMethod] with kind := .interfaceType, constructors := [] }

def narrowInterface : TypeInfo :=
  { sampleClass "J" [narrowMethod] with kind := .interfaceType, constructors := [] }

def crossedBase : TypeInfo := { sampleClass "B" [] with interfaces := ["I"] }

/-- A class that gets the slot from its interface and, through its superclass, from another one. -/
def crossedClass : TypeInfo :=
  { sampleClass "C" [] with superclass := some "B", interfaces := ["J"] }

def crossed : List TypeInfo := [wideInterface, narrowInterface, crossedBase, crossedClass]

theorem acyclic_crossed (name : String) :
    ¬ Relation.TransGen (ofList crossed).loads.Leads name name :=
  acyclic_ofList (["I", "J", "B", "C"].idxOf ·) (by decide) name

theorem narrow_of_crossed : (ofList crossed).Lineage crossedClass narrowInterface :=
  .single ⟨"J", by decide, rfl⟩

/-- Nothing in the hierarchy but the two interfaces declares the slot. -/
theorem declares_crossed {s : TypeInfo} (hs : (ofList crossed).Lineage crossedClass s)
    (hslot : narrowMethod.slot ∈ s.methods.map Method.slot) :
    s.isInterface = true ∧ parents s = [] := by
  have hall : ∀ s ∈ crossed, narrowMethod.slot ∈ s.methods.map Method.slot →
      s.isInterface = true ∧ parents s = [] := by decide
  have hclass : ofList crossed "C" = some crossedClass := rfl
  obtain ⟨p, hp⟩ := hs.found hclass
  exact hall s (ofList_eq_some hp).2 hslot

theorem specific_crossed {s : TypeInfo} (hs : (ofList crossed).Lineage crossedClass s)
    (hbelow : Relation.TransGen (ofList crossed).Parent s narrowInterface) :
    narrowMethod.slot ∉ s.methods.map Method.slot := by
  intro hslot
  obtain ⟨u, ⟨p, hp, -⟩, -⟩ := Relation.TransGen.head'_iff.mp hbelow
  rw [(declares_crossed hs hslot).2] at hp
  cases hp

theorem exposed_mem_iff_crossed :
    ∃ ms, Ends (anywhere.walk (ofList crossed).loads).inv
        (exposed ((ofList crossed).supply (· == ·) 4).load 4 crossedClass) (· = .ok ms) ∧
      narrowMethod ∉ ms := by
  have hnames : ∀ {a b}, (ofList crossed).loads.Leads a b → b ∈ ["I", "B", "J"] := by
    intro a b h
    have hparents : ∀ t ∈ crossed, ∀ p ∈ parents t, p ∈ ["I", "B", "J"] := by decide
    obtain ⟨t, ht, -, hb⟩ := leads_ofList h
    exact hparents t ht b hb
  have hclass : (ofList crossed).loads "C" = .ok crossedClass := rfl
  have hdepth : ["I", "B", "J"].length < 4 := by decide
  have howned : (ofList crossed).loads.types.Owned := by
    rw [types_loads]
    exact owned_ofList (by decide)
  obtain ⟨ms, hrun, hiff⟩ := exposed_mem_iff (fun _ h => h) (offers_supply _ (· == ·) 4)
    (fun h => (ofList_eq_some (loads_eq_ok.mp h)).1) hnames acyclic_crossed hclass
    (answers_ofList (by decide) (by decide)) hdepth howned
    (i := narrowInterface) (by rw [types_loads]; exact narrow_of_crossed) (m := narrowMethod)
    (by decide) rfl rfl (by rw [types_loads]; exact fun s => specific_crossed)
  refine ⟨ms, hrun, fun hvisible => ?_⟩
  rw [types_loads] at hiff
  have hparents : parents wideInterface = [] ∧ parents crossedBase = ["I"] := by decide
  have hwide : (ofList crossed).View "I" (viewFrom wideInterface fun _ => []) :=
    .intro _ rfl fun p hp => absurd (hparents.1 ▸ hp) List.not_mem_nil
  have hbase : (ofList crossed).View "B"
      (viewFrom crossedBase fun _ => viewFrom wideInterface fun _ => []) := by
    refine .intro _ rfl fun p hp => ?_
    rw [hparents.2, List.mem_singleton] at hp
    exact hp ▸ hwide
  -- The superclass does not lead to the interface, and stops the way to it.
  have habove : ∀ s, (ofList crossed).Lineage crossedBase s → s ≠ narrowInterface := by
    rintro s hs rfl
    rcases Relation.ReflTransGen.cases_head hs with h | ⟨u, ⟨p, hp, hu⟩, hlast⟩
    · exact absurd h (by decide)
    rw [hparents.2, List.mem_singleton] at hp
    subst hp
    obtain rfl : wideInterface = u := Option.some.inj hu
    rcases Relation.ReflTransGen.cases_head hlast with h | ⟨u, ⟨p, hp, -⟩, -⟩
    · exact absurd h (by decide)
    · rw [hparents.1] at hp
      cases hp
  have hclosed : ∀ t i, (ofList crossed).OpenWay narrowMethod.slot t i → t = crossedClass →
      i ≠ narrowInterface := by
    rintro t i (_ | ⟨hnext, hs, hrest⟩ | ⟨_, _, hleft, _⟩) rfl hi
    · exact absurd hi (by decide)
    · obtain rfl := Option.some.inj (hnext.symm.trans (rfl : _ = some "B"))
      obtain rfl := Option.some.inj (hs.symm.trans (rfl : _ = some crossedBase))
      exact habove i hrest.lineage hi
    · exact hleft ⟨"B", _, rfl, hbase, by decide⟩
  exact hclosed _ _ (hiff.mp hvisible) rfl rfl

/-- A method may be hidden although no class of the chain declares its slot and no type below its
interface does. -/
theorem not_exposed_specific :
    ¬ ∀ (table : TypeTable) (rel : String → String → Bool) (depth : Nat) (name : String)
      (t : TypeInfo) (ms : List Method) (w : Walk Unit), table.Owned →
      (∀ name, ¬ Relation.TransGen table.loads.Leads name name) → table name = some t →
      exposed (table.supply rel depth).load depth t ⟨(), []⟩ = .ok ms w →
      ∀ i, table.Lineage t i → i.isInterface = true → ∀ m ∈ i.methods, m.visibility = .pub →
        m.isStatic = false →
        (∀ c, table.Lineage t c → c.isInterface = false → m.slot ∉ c.methods.map Method.slot) →
        (∀ s, table.Lineage t s → Relation.TransGen table.Parent s i →
          m.slot ∉ s.methods.map Method.slot) → m ∈ ms := by
  intro h
  have hrun : ∃ w, exposed ((ofList crossed).supply (· == ·) 4).load 4 crossedClass ⟨(), []⟩ =
      .ok [wideMethod] w := ⟨_, rfl⟩
  obtain ⟨w, hrun⟩ := hrun
  have hclass : ofList crossed "C" = some crossedClass := rfl
  have hvisible := h _ _ _ "C" crossedClass _ w (owned_ofList (by decide)) acyclic_crossed hclass
    hrun narrowInterface narrow_of_crossed rfl narrowMethod (by decide) rfl rfl
    (fun c hc hkind hslot => by
      rw [(declares_crossed hc hslot).1] at hkind
      cases hkind)
    fun s => specific_crossed
  exact absurd hvisible (by decide)

end Walks

end StubWriter
