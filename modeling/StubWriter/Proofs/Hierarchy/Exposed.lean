import StubWriter.Proofs.Hierarchy.Determined
import StubWriter.Proofs.Hierarchy.Supply
import StubWriter.Proofs.Resolution.Members

/-!
# Where visible methods come from

The view of a type holds public methods of the type and of those above it, no static methods of
interfaces other than the type itself, and of a slot that a class of its chain declares publicly
what the nearest such class declares.

* `View.public_declared`: a visible method is public and declared by the type or above it.
* `View.static_declared`: a visible static method is declared by the type or by a class above it.
* `View.filter_slot`: what the nearest class declares of a slot is all that is visible of it.
* `LoadTable.exists_view`: types of an acyclic hierarchy have views if all supertypes are found.
* `exposed_meets`: all this of what a walk comes to.
-/

namespace StubWriter

open Run Walk

namespace TypeTable

variable {table : TypeTable} {name : String} {ms : List Method} {t c : TypeInfo} {k : Slot}

/-- `s` is `t` or one of the types of whose views the view of `t` is made, directly or not. -/
def Lineage (table : TypeTable) : TypeInfo → TypeInfo → Prop :=
  Relation.ReflTransGen table.Parent

theorem lineage_of_parent {p : String} {u s : TypeInfo} (hp : p ∈ parents t)
    (hu : table p = some u) (hus : table.Lineage u s) : table.Lineage t s :=
  .head ⟨p, hp, hu⟩ hus

theorem mem_parents_of_superclass {p : String} (hp : superclassName? t = some p) :
    p ∈ parents t :=
  List.mem_append_left _ (by simp [hp])

theorem View.public_declared (h : table.View name ms) (ht : table name = some t) {m : Method}
    (hm : m ∈ ms) : m.visibility = .pub ∧ ∃ s, table.Lineage t s ∧ m ∈ s.methods := by
  induction h generalizing t with
  | @intro name u views hfound habove ih =>
    obtain rfl := Option.some.inj (ht.symm.trans hfound)
    have hinherited : ∀ p ∈ parents t, m ∈ views p →
        m.visibility = .pub ∧ ∃ s, table.Lineage t s ∧ m ∈ s.methods := by
      intro p hp hmp
      obtain ⟨u, hu⟩ := (habove p hp).found
      obtain ⟨hpublic, s, hs, hms⟩ := ih p hp hu hmp
      exact ⟨hpublic, s, lineage_of_parent hp hu hs, hms⟩
    rcases mem_viewFrom.mp hm with ⟨hown, hpublic⟩ | hsuper | ⟨p, hp, hmp, -⟩
    · exact ⟨hpublic, t, .refl, hown⟩
    · obtain ⟨p, hp, hmp, -⟩ := mem_fromSuperclass.mp hsuper
      exact hinherited p (mem_parents_of_superclass hp) hmp
    · exact hinherited p (List.mem_append_right _ hp) hmp

/-! ## Static methods -/

/-- No superclass in the hierarchy of `t` is an interface. -/
def ClassesAbove (table : TypeTable) (t : TypeInfo) : Prop :=
  ∀ s, table.Lineage t s → ∀ p, superclassName? s = some p → ∀ u, table p = some u →
    u.isInterface = false

/-- Methods tell the types that declare them. -/
def Owned (table : TypeTable) : Prop :=
  ∀ {name t}, table name = some t → ∀ m ∈ t.methods, m.declaringType = name

theorem View.static_declared (h : table.View name ms) (ht : table name = some t)
    (hclasses : table.ClassesAbove t) {m : Method} (hm : m ∈ ms) (hstatic : m.isStatic = true) :
    m ∈ t.methods ∨ ∃ s, table.Lineage t s ∧ s.isInterface = false ∧ m ∈ s.methods := by
  induction h generalizing t with
  | @intro name u views hfound habove ih =>
    obtain rfl := Option.some.inj (ht.symm.trans hfound)
    rcases mem_viewFrom.mp hm with ⟨hown, -⟩ | hsuper | ⟨p, hp, hmp, hinstance, -⟩
    · exact .inl hown
    · obtain ⟨p, hp, hmp, -⟩ := mem_fromSuperclass.mp hsuper
      have hparent := mem_parents_of_superclass hp
      obtain ⟨u, hu⟩ := (habove p hparent).found
      have hclasses' : table.ClassesAbove u := fun s hs =>
        hclasses s (lineage_of_parent hparent hu hs)
      rcases ih p hparent hu hclasses' hmp with hown | ⟨s, hs, hclass, hms⟩
      · exact .inr ⟨u, lineage_of_parent hparent hu .refl, hclasses t .refl p hp u hu, hown⟩
      · exact .inr ⟨s, lineage_of_parent hparent hu hs, hclass, hms⟩
    · rw [hinstance] at hstatic
      cases hstatic

theorem Lineage.found {s : TypeInfo} (hs : table.Lineage t s) (ht : table name = some t) :
    ∃ p, table p = some s := by
  rcases Relation.ReflTransGen.cases_tail hs with rfl | ⟨_, _, p, _, hp⟩
  · exact ⟨name, ht⟩
  · exact ⟨p, hp⟩

/-- Every method on the levels of a type is declared by a type of the table. -/
theorem Chain.walked_declared {levels : List Level} (h : table.Chain name levels) {m : Method}
    (hm : m ∈ Resolution.walked levels) : ∃ p s, table p = some s ∧ m ∈ s.methods := by
  have hlevel : ∀ {name : String} {t : TypeInfo} {ms : List Method}, table name = some t →
      table.View name ms → m ∈ t.methods ++ ms → ∃ p s, table p = some s ∧ m ∈ s.methods := by
    intro name t ms ht hview hm
    rcases List.mem_append.mp hm with hm | hm
    · exact ⟨name, t, ht, hm⟩
    · obtain ⟨-, s, hs, hms⟩ := hview.public_declared ht hm
      obtain ⟨p, hp⟩ := hs.found ht
      exact ⟨p, s, hp, hms⟩
  induction h with
  | object => cases hm
  | top found _ view _ =>
    rw [Resolution.walked, List.flatMap_singleton] at hm
    exact hlevel found view hm
  | step found _ view _ _ ih =>
    rw [Resolution.walked, List.flatMap_cons] at hm
    rcases List.mem_append.mp hm with hm | hm
    · exact hlevel found view hm
    · exact ih hm

/-- One method is declared by one type. -/
theorem Owned.unique (h : table.Owned) {a b : String} {s u : TypeInfo} (hs : table a = some s)
    (hu : table b = some u) {m : Method} (hms : m ∈ s.methods) (hmu : m ∈ u.methods) : s = u := by
  obtain rfl := (h hs m hms).symm.trans (h hu m hmu)
  exact Option.some.inj (hs.symm.trans hu)

theorem View.not_mem_static (h : table.View name ms) (ht : table name = some t)
    (hclasses : table.ClassesAbove t) (howned : table.Owned) {i : TypeInfo}
    (hi : table.Lineage t i) (hinterface : i.isInterface = true) (hne : i ≠ t) {m : Method}
    (hm : m ∈ i.methods) (hstatic : m.isStatic = true) : m ∉ ms := by
  intro hvisible
  obtain ⟨p, hp⟩ := hi.found ht
  rcases h.static_declared ht hclasses hvisible hstatic with hown | ⟨s, hs, hclass, hms⟩
  · exact hne (howned.unique hp ht hm hown)
  · obtain ⟨q, hq⟩ := hs.found ht
    obtain rfl := howned.unique hp hq hm hms
    rw [hinterface] at hclass
    cases hclass

/-! ## The nearest class -/

/-- `c` is the first type with a method of the slot on the way up through superclasses. -/
inductive Nearest (table : TypeTable) (k : Slot) : TypeInfo → TypeInfo → Prop
  | here {t : TypeInfo} (declared : k ∈ t.methods.map Method.slot) : Nearest table k t t
  | up {t u c : TypeInfo} {p : String} (free : k ∉ t.methods.map Method.slot)
      (next : superclassName? t = some p) (found : table p = some u) (rest : Nearest table k u c) :
      Nearest table k t c

/-- The public methods of a slot that a type declares. -/
def publicOf (c : TypeInfo) (k : Slot) : List Method :=
  (ownPublic c).filter fun m => m.slot == k

/-- Interfaces add nothing to a slot that the type or its superclass has. -/
theorem filter_slot_viewFrom {views : String → List Method} (hk : k ∈ taken t views) :
    (viewFrom t views).filter (fun m => m.slot == k) =
      publicOf t k ++ (fromSuperclass t views).filter fun m => m.slot == k := by
  have hinterfaces : (t.interfaces.flatMap fun name =>
      inheritedFromInterface (taken t views) (views name)).filter (fun m => m.slot == k) = [] := by
    rw [List.filter_eq_nil_iff]
    intro m hm hslot
    obtain ⟨p, -, hmp⟩ := List.mem_flatMap.mp hm
    rw [inheritedFromInterface, List.mem_filter] at hmp
    simp [beq_iff_eq.mp hslot, hk] at hmp
  rw [viewFrom, List.filter_append, List.filter_append, hinterfaces, List.append_nil, publicOf]

/-- A type hides what its superclass has of its own slots, and nothing else. -/
theorem filter_slot_fromSuperclass {views : String → List Method} :
    (fromSuperclass t views).filter (fun m => m.slot == k) =
      if k ∈ t.methods.map Method.slot then []
      else (superclassName? t).toList.flatMap fun p => (views p).filter fun m => m.slot == k := by
  rw [fromSuperclass, List.filter_flatMap]
  split
  · rename_i hk
    rw [List.flatMap_eq_nil_iff]
    intro p _
    rw [List.filter_eq_nil_iff]
    intro m hm hslot
    rw [inherited, List.mem_filter, beq_iff_eq.mp hslot] at hm
    simp [hk] at hm
  · rename_i hk
    refine List.flatMap_congr fun p _ => ?_
    rw [inherited, List.filter_filter]
    refine List.filter_congr fun m _ => ?_
    by_cases hslot : m.slot = k
    · simp [hslot, hk]
    · simp [hslot]

theorem View.filter_slot (hc : table.Nearest k t c)
    (hpublic : ∃ m ∈ c.methods, m.slot = k ∧ m.visibility = .pub) (h : table.View name ms)
    (ht : table name = some t) : ms.filter (fun m => m.slot == k) = publicOf c k := by
  induction hc generalizing name ms with
  | here hk =>
    cases h with
    | intro views hfound habove =>
      obtain rfl := Option.some.inj (ht.symm.trans hfound)
      rw [filter_slot_viewFrom (List.mem_append_left _ hk), filter_slot_fromSuperclass, if_pos hk,
        List.append_nil]
  | @up t u c p hfree hnext hp _ ih =>
    cases h with
    | intro views hfound habove =>
      obtain rfl := Option.some.inj (ht.symm.trans hfound)
      have hview := ih hpublic (habove p (mem_parents_of_superclass hnext)) hp
      have hsuper : (fromSuperclass t views).filter (fun m => m.slot == k) = publicOf c k := by
        rw [filter_slot_fromSuperclass, if_neg hfree, hnext]
        simpa using hview
      -- The public method of `c` comes down, so that interfaces find its slot taken.
      have htaken : k ∈ taken t views := by
        obtain ⟨m, hm, hslot, hpub⟩ := hpublic
        have hmem : m ∈ publicOf c k := by simp [publicOf, ownPublic, hm, hslot, hpub]
        rw [← hsuper] at hmem
        exact List.mem_append_right _ (List.mem_map.mpr ⟨m, (List.mem_filter.mp hmem).1, hslot⟩)
      have hown : publicOf t k = [] := by
        rw [publicOf, List.filter_eq_nil_iff]
        intro m hm hslot
        refine hfree (List.mem_map.mpr ⟨m, List.mem_of_mem_filter hm, beq_iff_eq.mp hslot⟩)
      rw [filter_slot_viewFrom htaken, hown, List.nil_append, hsuper]

end TypeTable

/-! ## Walks -/

section Walks

open TypeTable

variable {T : LoadTable} {rank : String → Nat} {name : String} {t : TypeInfo}

/-- Every supertype in the hierarchy of `t` can be loaded. -/
def LoadTable.Answers (T : LoadTable) (t : TypeInfo) : Prop :=
  ∀ s, T.types.Lineage t s → ∀ p ∈ parents s, ∃ u, T p = .ok u

theorem LoadTable.exists_view (hrank : T.Ranked rank) (ht : T name = .ok t)
    (hanswers : T.Answers t) : ∃ ms, T.types.View name ms := by
  induction hr : rank name using Nat.strong_induction_on generalizing name t with
  | _ r ih =>
    subst hr
    refine ⟨_, .intro T.types.viewOf (types_eq_some.mpr ht) fun p hp => ?_⟩
    obtain ⟨u, hu⟩ := hanswers t .refl p hp
    have hfound := types_eq_some.mpr hu
    obtain ⟨ms, hms⟩ := ih (rank p) (hrank.above ht p hp) hu
      (fun s hs => hanswers s (lineage_of_parent hp hfound hs)) rfl
    rwa [hms.viewOf_eq]

/-- The view of a type of an acyclic hierarchy. A walk comes to it, whatever views it remembers. All
its methods are public and come from the type or from those above it. If no superclass is an
interface, it has no static method of an interface other than the type. Where the nearest class of
the chain with a slot declares it publicly, the view has of this slot what that class declares. -/
theorem exposed_meets {σ : Type} {W : World σ} (hW : ∀ f, ¬ W.excused f)
    {load : String → EStateM Failure σ TypeInfo} (hload : W.Offers T load)
    (hname : ∀ {name t}, T name = .ok t → t.name = name) {names : List String}
    (hnames : ∀ {a b}, T.Leads a b → b ∈ names)
    (hacyclic : ∀ name, ¬ Relation.TransGen T.Leads name name) (ht : T name = .ok t)
    (hanswers : T.Answers t) {depth : Nat} (hdepth : names.length < depth) :
    ∃ ms, Ends (W.walk T).inv (exposed load depth t) (· = .ok ms) ∧
      (∀ m ∈ ms, m.visibility = .pub ∧ ∃ s, T.types.Lineage t s ∧ m ∈ s.methods) ∧
      (T.types.ClassesAbove t → T.types.Owned →
        ∀ i, T.types.Lineage t i → i.isInterface = true → i ≠ t →
          ∀ m ∈ i.methods, m.isStatic = true → m ∉ ms) ∧
      ∀ k c, T.types.Nearest k t c → (∃ m ∈ c.methods, m.slot = k ∧ m.visibility = .pub) →
        ms.filter (fun m => m.slot == k) =
          c.methods.filter fun m => m.slot == k && m.visibility == .pub := by
  obtain ⟨rank, hrank, hbound⟩ := LoadTable.exists_ranked hname hnames hacyclic
  obtain ⟨ms, hview⟩ := LoadTable.exists_view hrank ht hanswers
  have hfound := LoadTable.types_eq_some.mpr ht
  refine ⟨ms, ?_, fun m hm => hview.public_declared hfound hm, ?_, fun k c hc hpublic => ?_⟩
  · exact World.ends_of_gives hW
      (hview.exposed_gives hload hrank.ranksViews ht (Nat.lt_of_le_of_lt (hbound name) hdepth))
  · intro hclasses howned i hi hinterface hne m hm hstatic
    exact hview.not_mem_static hfound hclasses howned hi hinterface hne hm hstatic
  · rw [View.filter_slot hc hpublic hview hfound, publicOf, ownPublic, List.filter_filter]

end Walks

/-! ## Tables of listed types -/

namespace TypeTable

/-- What loading from a table gives. -/
def loads (table : TypeTable) : LoadTable := fun name =>
  match table name with
  | some t => .ok t
  | none => .error (.typeNotFound name)

theorem loads_eq_ok {table : TypeTable} {name : String} {t : TypeInfo} :
    table.loads name = .ok t ↔ table name = some t := by
  unfold loads
  cases table name <;> simp

theorem types_loads (table : TypeTable) : table.loads.types = table := by
  funext name
  unfold LoadTable.types loads
  cases table name <;> rfl

/-- States about which nothing is known, and in which nothing is excused. -/
def anywhere : World Unit :=
  ⟨fun _ => True, fun _ => False⟩

theorem serves_supply (table : TypeTable) (rel : String → String → Bool) (depth : Nat) :
    anywhere.Serves table.loads (table.supply rel depth).load := by
  refine ⟨fun name => ?_, fun f hf => hf.elim⟩
  simp only [supply, loads]
  cases table name with
  | some t => exact World.gives_pure
  | none => exact World.gives_throw

theorem offers_supply (table : TypeTable) (rel : String → String → Bool) (depth : Nat) :
    anywhere.Offers table.loads (table.supply rel depth).load :=
  (serves_supply table rel depth).offers

section Listed

variable {ts : List TypeInfo}

theorem ofList_eq_some {name : String} {t : TypeInfo} (h : ofList ts name = some t) :
    t.name = name ∧ t ∈ ts :=
  ⟨by simpa using List.find?_some h, List.mem_of_find?_eq_some h⟩

theorem leads_ofList {a b : String} (h : (ofList ts).loads.Leads a b) :
    ∃ t ∈ ts, t.name = a ∧ b ∈ parents t := by
  obtain ⟨t, ht, hb⟩ := h
  obtain ⟨hname, hmem⟩ := ofList_eq_some (loads_eq_ok.mp ht)
  exact ⟨t, hmem, hname, hb⟩

/-- No type is above itself if all types come after those of which their views are made. -/
theorem acyclic_ofList (rank : String → Nat)
    (h : ∀ t ∈ ts, ∀ p ∈ parents t, rank p < rank t.name) (name : String) :
    ¬ Relation.TransGen (ofList ts).loads.Leads name name := by
  have hstep : ∀ {a b}, (ofList ts).loads.Leads a b → rank b < rank a := by
    intro a b hab
    obtain ⟨t, ht, rfl, hb⟩ := leads_ofList hab
    exact h t ht b hb
  have hrank : ∀ {b}, Relation.TransGen (ofList ts).loads.Leads name b → rank b < rank name := by
    intro b hb
    induction hb with
    | single hstart => exact hstep hstart
    | tail _ hnext ih => exact (hstep hnext).trans ih
  exact fun hcycle => Nat.lt_irrefl _ (hrank hcycle)

theorem answers_ofList (h : ∀ t ∈ ts, ∀ p ∈ parents t, (ofList ts p).isSome = true)
    {t : TypeInfo} (ht : t ∈ ts) : (ofList ts).loads.Answers t := by
  intro s hs p hp
  rw [types_loads] at hs
  have hmem : s ∈ ts := by
    rcases Relation.ReflTransGen.cases_tail hs with rfl | ⟨_, _, q, _, hq⟩
    · exact ht
    · exact (ofList_eq_some hq).2
  obtain ⟨u, hu⟩ := Option.isSome_iff_exists.mp (h s hmem p hp)
  exact ⟨u, loads_eq_ok.mpr hu⟩

theorem owned_ofList (h : ∀ t ∈ ts, ∀ m ∈ t.methods, m.declaringType = t.name) :
    (ofList ts).Owned := by
  intro name t ht m hm
  obtain ⟨rfl, hmem⟩ := ofList_eq_some ht
  exact h t hmem m hm

end Listed

end TypeTable

/-! ### A class between a class and an interface -/

section Joined

open TypeTable Resolution

/-- A method of the class. -/
def firm : Method := sampleMethod "B" "void" .pub false

/-- A default method of the interface, in the slot of the class's one. -/
def loose : Method := sampleMethod "I" "int" .pub false

/-- A static method of the interface. -/
def factory : Method := { sampleMethod "I" "void" .pub false with name := "g", isStatic := true }

def joinedBase : TypeInfo := sampleClass "B" [firm]

def joinedInterface : TypeInfo :=
  { sampleClass "I" [loose, factory] with kind := .interfaceType, constructors := [] }

/-- A class that inherits all it has, from a class and from an interface. -/
def joinedClass : TypeInfo :=
  { sampleClass "C" [] with superclass := some "B", interfaces := ["I"] }

def joined : TypeTable := ofList [joinedClass, joinedBase, joinedInterface]

theorem joined_eq_some {name : String} {t : TypeInfo} (h : joined name = some t) :
    t.name = name ∧ (t = joinedClass ∨ t = joinedBase ∨ t = joinedInterface) := by
  obtain ⟨hname, hmem⟩ := ofList_eq_some h
  exact ⟨hname, by simpa using hmem⟩

theorem leads_joined {a b : String} (h : joined.loads.Leads a b) :
    a = "C" ∧ (b = "B" ∨ b = "I") := by
  have hparents : ∀ t ∈ [joinedClass, joinedBase, joinedInterface], ∀ p ∈ parents t,
      t.name = "C" ∧ (p = "B" ∨ p = "I") := by decide
  obtain ⟨t, ht, rfl, hb⟩ := leads_ofList h
  exact hparents t ht b hb

theorem acyclic_joined (name : String) : ¬ Relation.TransGen joined.loads.Leads name name :=
  acyclic_ofList (["B", "I", "C"].idxOf ·) (by decide) name

theorem answers_joined : joined.loads.Answers joinedClass :=
  answers_ofList (by decide) List.mem_cons_self

theorem classesAbove_joined : joined.ClassesAbove joinedClass := by
  intro s hs p hp u hu
  have hclass : joined "C" = some joinedClass := rfl
  obtain ⟨q, hq⟩ := hs.found hclass
  obtain ⟨-, rfl | rfl | rfl⟩ := joined_eq_some hq
  · obtain rfl : "B" = p := Option.some.inj hp
    exact (Option.some.inj hu) ▸ rfl
  · exact nomatch hp
  · exact nomatch hp

theorem owned_joined : joined.Owned :=
  owned_ofList (by decide)

theorem exposed_meets_joined :
    joined.loads "C" = .ok joinedClass ∧ joined.loads.Answers joinedClass ∧
    (∀ name, ¬ Relation.TransGen joined.loads.Leads name name) ∧
    ∃ ms, Ends (anywhere.walk joined.loads).inv
        (exposed (joined.supply (· == ·) 3).load 3 joinedClass) (· = .ok ms) ∧
      factory ∉ ms ∧ ms.filter (fun m => m.slot == firm.slot) = [firm] := by
  have habove : ∀ {a b}, joined.loads.Leads a b → b ∈ ["B", "I"] := fun h => by
    simpa using (leads_joined h).2
  have hclass : joined.loads "C" = .ok joinedClass := rfl
  have hdepth : ["B", "I"].length < 3 := by decide
  obtain ⟨ms, hrun, -, hstatic, hnearest⟩ := exposed_meets (fun _ h => h)
    (offers_supply joined (· == ·) 3) (fun h => (joined_eq_some (loads_eq_ok.mp h)).1)
    habove acyclic_joined hclass answers_joined hdepth
  rw [types_loads] at hstatic hnearest
  refine ⟨rfl, answers_joined, acyclic_joined, ms, hrun, ?_, ?_⟩
  · have hinterface : joined.Lineage joinedClass joinedInterface := .single ⟨"I", by decide, rfl⟩
    exact hstatic classesAbove_joined owned_joined joinedInterface hinterface rfl (by decide) factory
      (by decide) rfl
  · have hbase : joined.Nearest firm.slot joinedClass joinedBase :=
      .up (by decide) rfl rfl (.here (by decide))
    exact (hnearest firm.slot joinedBase hbase ⟨firm, by decide, rfl, rfl⟩).trans (by decide)

end Joined

end StubWriter
