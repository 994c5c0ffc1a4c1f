import Mathlib.Data.Fintype.Card
import Mathlib.Data.Set.Finite.Lattice
import Mathlib.Data.Set.Finite.List
import StubWriter.Hierarchy
import StubWriter.Proofs.Hierarchy.TypeTable

/-!
# Views and chains over a table

What a walk finds when whatever is loaded comes from a table: the view of a type is made of the
views of its supertypes, and neither the order of the walk nor the views that it remembers have a
part in it.

* `TypeTable.View`: the view of a name. There is at most one (`View.unique`).
* `exposed_ok`: a successful walk ends in the view.
* `View.exists_lowest`: of the types from which a view is made, some are lowest.
* `TypeTable.Chain`, `levels_ok`: the same for the levels of a type.
* `mem_viewFrom`: one step of a view, by membership.
-/

namespace StubWriter

open Run

namespace Walk

/-- A step that looks at the types only leaves the views as they are. -/
theorem lift_ok {σ α : Type} {x : EStateM Failure σ α} {w : Walk σ} {P : α → σ → Prop}
    (h : Ok x w.types P) : Ok (lift x) w fun a w' => P a w'.types ∧ w'.views = w.views := by
  intro a w' hrun
  unfold lift at hrun
  cases hx : x w.types with
  | error f s => rw [hx] at hrun; cases hrun
  | ok b s =>
    rw [hx] at hrun
    cases hrun
    exact ⟨h a s hx, rfl⟩

/-! ## One step of a view -/

/-- The names of the types whose views the view of `t` is made of. -/
def parents (t : TypeInfo) : List String :=
  (superclassName? t).toList ++ t.interfaces

/-- What a type inherits from its superclass. -/
def fromSuperclass (t : TypeInfo) (views : String → List Method) : List Method :=
  (superclassName? t).toList.flatMap fun name => inherited (t.methods.map Method.slot) (views name)

/-- The slots of which a type inherits nothing from its interfaces. -/
def taken (t : TypeInfo) (views : String → List Method) : List Slot :=
  t.methods.map Method.slot ++ (fromSuperclass t views).map Method.slot

/-- The view of a type, given the views of its parents. -/
def viewFrom (t : TypeInfo) (views : String → List Method) : List Method :=
  ownPublic t ++ fromSuperclass t views ++
    t.interfaces.flatMap fun name => inheritedFromInterface (taken t views) (views name)

theorem viewFrom_congr {t : TypeInfo} {views views' : String → List Method}
    (h : ∀ name ∈ parents t, views name = views' name) : viewFrom t views = viewFrom t views' := by
  have hsuper : fromSuperclass t views = fromSuperclass t views' := by
    unfold fromSuperclass
    refine List.flatMap_congr fun name hname => ?_
    rw [h name (List.mem_append_left _ hname)]
  unfold viewFrom taken
  rw [hsuper]
  refine congrArg _ (List.flatMap_congr fun name hname => ?_)
  rw [h name (List.mem_append_right _ hname)]

theorem mem_fromSuperclass {t : TypeInfo} {views : String → List Method} {m : Method} :
    m ∈ fromSuperclass t views ↔ ∃ name, superclassName? t = some name ∧ m ∈ views name ∧
      m.slot ∉ t.methods.map Method.slot := by
  simp [fromSuperclass, inherited]

/-- A method is visible on a type if it is public and its own, if its superclass hands it down, or
if an interface does and neither the type nor its superclass has its slot. -/
theorem mem_viewFrom {t : TypeInfo} {views : String → List Method} {m : Method} :
    m ∈ viewFrom t views ↔ (m ∈ t.methods ∧ m.visibility = .pub) ∨ m ∈ fromSuperclass t views ∨
      ∃ name ∈ t.interfaces, m ∈ views name ∧ m.isStatic = false ∧ m.slot ∉ taken t views := by
  simp [viewFrom, ownPublic, inheritedFromInterface]

theorem superclassName?_interface {t : TypeInfo} (hi : t.isInterface = true) :
    superclassName? t = none :=
  if_pos hi

theorem superclassName?_ne {t : TypeInfo} {p : String} (hp : superclassName? t = some p) :
    p ≠ objectName := by
  unfold superclassName? at hp
  split at hp
  · cases hp
  · simpa using (Option.filter_eq_some_iff.mp hp).2

/-- An interface inherits from its interfaces only. -/
theorem mem_viewFrom_interface {t : TypeInfo} {views : String → List Method} {m : Method}
    (hi : t.isInterface = true) :
    m ∈ viewFrom t views ↔ (m ∈ t.methods ∧ m.visibility = .pub) ∨
      ∃ name ∈ t.interfaces, m ∈ views name ∧ m.isStatic = false ∧
        m.slot ∉ t.methods.map Method.slot := by
  have htaken : taken t views = t.methods.map Method.slot := by
    simp [taken, fromSuperclass, superclassName?_interface hi]
  rw [mem_viewFrom, htaken]
  simp [mem_fromSuperclass, superclassName?_interface hi]

end Walk

namespace TypeTable

open Walk

/-! ## Types above -/

theorem superclass_name_ne {table : TypeTable} (htable : table.Described) {t s : TypeInfo}
    {p : String} (hp : superclassName? t = some p) (hs : table p = some s) :
    s.name ≠ objectName := by
  rw [htable.name_eq hs]
  exact superclassName?_ne hp

/-- A type above another is its superclass, with which the chain goes on, or one of its
interfaces. -/
theorem above_cases {table : TypeTable} {t s : TypeInfo} (ht : t.Described)
    (h : table.Above t s) : (∃ p, superclassName? t = some p ∧ table p = some s) ∨
      ∃ p ∈ t.interfaces, table p = some s := by
  obtain ⟨p, hp, hne, hs⟩ := h
  rcases List.mem_append.mp hp with hp | hp
  · refine .inl ⟨p, ?_, hs⟩
    have hsuper : t.superclass? = some p := Option.mem_toList.mp hp
    have hclass : t.isInterface = false := by
      by_contra hi
      rw [TypeInfo.superclass?, (ht.interface (by simpa using hi)).1] at hsuper
      cases hsuper
    rw [superclassName?, hclass, if_neg Bool.false_ne_true, hsuper]
    simpa using hne
  · exact .inr ⟨p, hp, hs⟩

/-! ## Views -/

/-- The view of a name. -/
inductive View (table : TypeTable) : String → List Method → Prop
  | intro {name : String} {t : TypeInfo} (views : String → List Method)
      (found : table name = some t) (above : ∀ n ∈ parents t, View table n (views n)) :
      View table name (viewFrom t views)

theorem View.found {table : TypeTable} {name : String} {ms : List Method}
    (h : table.View name ms) : ∃ t, table name = some t := by
  cases h with
  | intro _ hfound => exact ⟨_, hfound⟩

/-- A table that holds more has the same views. -/
theorem View.mono {table table' : TypeTable}
    (h : ∀ {name t}, table name = some t → table' name = some t) {name : String}
    {ms : List Method} (hview : table.View name ms) : table'.View name ms := by
  induction hview with
  | intro views hfound _ ih => exact .intro views (h hfound) ih

theorem View.unique {table : TypeTable} {name : String} {ms ms' : List Method}
    (h : table.View name ms) (h' : table.View name ms') : ms = ms' := by
  induction h generalizing ms' with
  | intro views hfound _ ih =>
    cases h' with
    | intro views' hfound' habove' =>
      obtain rfl := Option.some.inj (hfound.symm.trans hfound')
      exact viewFrom_congr fun n hn => ih n hn (habove' n hn)

/-! ### Types with views -/

/-- The view of `t` is made of that of `s`, among others. -/
def Parent (table : TypeTable) (t s : TypeInfo) : Prop :=
  ∃ p ∈ parents t, table p = some s

theorem View.not_cyclic {table : TypeTable} {name : String} {ms : List Method}
    (h : table.View name ms) {t : TypeInfo} (ht : table name = some t) :
    ¬ Relation.TransGen table.Parent t t := by
  induction h generalizing t with
  | intro views hfound _ ih =>
    obtain rfl := Option.some.inj (ht.symm.trans hfound)
    intro hcycle
    obtain ⟨s, hts, hst⟩ := Relation.TransGen.head'_iff.mp hcycle
    have hcycle' : Relation.TransGen table.Parent s s := Relation.TransGen.tail' hst hts
    obtain ⟨p, hp, hs⟩ := hts
    exact ih p hp hs hcycle'

/-- All types from which a view is made have views. -/
theorem View.of_parents {table : TypeTable} {name : String} {ms : List Method}
    (h : table.View name ms) {t s : TypeInfo} (ht : table name = some t)
    (hts : Relation.ReflTransGen table.Parent t s) :
    ∃ p vs, table p = some s ∧ table.View p vs := by
  induction hts with
  | refl => exact ⟨name, ms, ht, h⟩
  | tail _ hsu ih =>
    obtain ⟨p, vs, hp, hview⟩ := ih
    cases hview with
    | intro views hfound habove =>
      obtain rfl := Option.some.inj (hp.symm.trans hfound)
      obtain ⟨q, hq, hu⟩ := hsu
      exact ⟨q, views q, hu, habove q hq⟩

theorem View.finite_parents {table : TypeTable} {name : String} {ms : List Method}
    (h : table.View name ms) {t : TypeInfo} (ht : table name = some t) :
    {s | Relation.ReflTransGen table.Parent t s}.Finite := by
  induction h generalizing t with
  | intro views hfound _ ih =>
    obtain rfl := Option.some.inj (ht.symm.trans hfound)
    have hparents : (⋃ p ∈ {p | p ∈ parents t},
        {s | ∃ u, table p = some u ∧ Relation.ReflTransGen table.Parent u s}).Finite := by
      refine (List.finite_toSet (parents t)).biUnion fun p hp => ?_
      cases hu : table p with
      | none => simp
      | some u => simpa using ih p hp hu
    refine (hparents.insert t).subset fun s hts => ?_
    rcases Relation.ReflTransGen.cases_head hts with rfl | ⟨u, ⟨p, hp, hu⟩, hus⟩
    · exact Set.mem_insert _ _
    · exact Set.mem_insert_of_mem _ (Set.mem_biUnion hp ⟨u, hu, hus⟩)

/-- Where a view is made of the views of types with some property, there is a lowest one among
them: it is above no other one. -/
theorem View.exists_lowest {table : TypeTable} {name : String} {ms : List Method}
    (h : table.View name ms) {t : TypeInfo} (ht : table name = some t) {P : TypeInfo → Prop}
    (hP : ∃ s, Relation.ReflTransGen table.Parent t s ∧ P s) :
    ∃ s, Relation.ReflTransGen table.Parent t s ∧ P s ∧
      ∀ u, Relation.ReflTransGen table.Parent t u → P u →
        ¬ Relation.TransGen table.Parent u s := by
  let Below := {s // Relation.ReflTransGen table.Parent t s}
  let r : Below → Below → Prop := fun u s => Relation.TransGen table.Parent u.1 s.1
  have : Finite Below := (h.finite_parents ht).to_subtype
  have : IsTrans Below r := ⟨fun _ _ _ => Relation.TransGen.trans⟩
  have : Std.Irrefl r := ⟨fun s hcycle => by
    obtain ⟨p, vs, hp, hview⟩ := h.of_parents ht s.2
    exact hview.not_cyclic hp hcycle⟩
  obtain ⟨s, hs, hPs⟩ := hP
  obtain ⟨low, hlow, hmin⟩ :=
    (Finite.wellFounded_of_trans_of_irrefl r).has_min {s | P s.1} ⟨⟨s, hs⟩, hPs⟩
  exact ⟨low.1, low.2, hlow, fun u hu hPu => hmin ⟨u, hu⟩ hPu⟩

open Classical in
/-- The view of a name, if it has one. -/
noncomputable def viewOf (table : TypeTable) (name : String) : List Method :=
  if h : ∃ ms, table.View name ms then h.choose else []

theorem View.viewOf_eq {table : TypeTable} {name : String} {ms : List Method}
    (h : table.View name ms) : table.viewOf name = ms := by
  have hex : ∃ ms, table.View name ms := ⟨ms, h⟩
  rw [viewOf, dif_pos hex]
  exact hex.choose_spec.unique h

/-- A walk that may go on: it is in a good state and remembers views only. -/
structure Remembers {σ : Type} (table : TypeTable) (inv : σ → Prop) (w : Walk σ) : Prop where
  types : inv w.types
  views : ∀ p ∈ w.views, table.View p.1 p.2

/-- A walk that has just started remembers nothing. -/
theorem remembers_start {σ : Type} {table : TypeTable} {inv : σ → Prop} {s : σ} (hs : inv s) :
    table.Remembers inv ⟨s, []⟩ where
  types := hs
  views := fun _ hp => absurd hp List.not_mem_nil

section Walks

variable {σ : Type} {table : TypeTable} {load : String → EStateM Failure σ TypeInfo}
  {inv : σ → Prop}

theorem lift_remembers {α : Type} {x : EStateM Failure σ α} {P : α → Prop} {w : Walk σ}
    (hw : table.Remembers inv w) (hx : Ok x w.types fun a s => P a ∧ inv s) :
    Ok (lift x) w fun a w' => P a ∧ table.Remembers inv w' := by
  refine ok_mono (lift_ok hx) fun a w' ⟨⟨ha, hinv⟩, hviews⟩ => ⟨ha, hinv, ?_⟩
  rw [hviews]
  exact hw.views

theorem lift_load_ok (hload : table.Serves load inv) {w : Walk σ} (hw : table.Remembers inv w)
    (name : String) :
    Ok (lift (load name)) w fun t w' => table name = some t ∧ table.Remembers inv w' :=
  lift_remembers hw fun _ _ hrun => ⟨hload.found hw.types hrun, hload.kept hw.types hrun⟩

theorem lift_keeps {α : Type} {x : EStateM Failure σ α} {w : Walk σ} (hw : table.Remembers inv w)
    (hx : Ok x w.types fun _ s => inv s) : Ok (lift x) w fun _ w' => table.Remembers inv w' := by
  have hrun : Ok x w.types fun _ s => True ∧ inv s := ok_mono hx fun _ _ hs => ⟨trivial, hs⟩
  exact ok_mono (lift_remembers hw hrun) fun _ _ hw' => hw'.2

theorem supertype_ok (hload : table.Serves load inv) {w : Walk σ} (hw : table.Remembers inv w)
    (name : String) (sub : TypeInfo) (role : SupertypeRole) :
    Ok (supertype load name sub role) w fun t w' =>
      table name = some t ∧ table.Remembers inv w' := by
  refine ok_tryCatch (lift_load_ok hload hw name) fun f w' => ?_
  split
  · exact ok_throw _
  · exact ok_throw _

theorem superclass?_ok (hload : table.Serves load inv) {w : Walk σ} (hw : table.Remembers inv w)
    (t : TypeInfo) :
    Ok (superclass? load t) w fun s? w' =>
      Option.Rel (fun name s => table name = some s) (superclassName? t) s? ∧
        table.Remembers inv w' := by
  unfold superclass?
  cases superclassName? t with
  | none => exact ok_pure ⟨.none, hw⟩
  | some name =>
    refine ok_bind (supertype_ok hload hw name t .superclass) fun s w' ⟨hs, hw'⟩ => ?_
    exact ok_pure ⟨.some hs, hw'⟩

/-- Runs of `expose` end in views. -/
def Exposes (table : TypeTable) (inv : σ → Prop) (expose : TypeInfo → Step σ (List Method)) :
    Prop :=
  ∀ name s w, table name = some s → table.Remembers inv w →
    Ok (expose s) w fun ms w' => table.View name ms ∧ table.Remembers inv w'

theorem inheritedFromSuperclass_ok (hload : table.Serves load inv)
    {expose : TypeInfo → Step σ (List Method)} (hexpose : table.Exposes inv expose)
    (t : TypeInfo) {w : Walk σ} (hw : table.Remembers inv w) :
    Ok (inheritedFromSuperclass load expose t) w fun ms w' =>
      (ms = fromSuperclass t table.viewOf ∧
        ∀ name, superclassName? t = some name → table.View name (table.viewOf name)) ∧
        table.Remembers inv w' := by
  unfold inheritedFromSuperclass
  refine ok_bind (superclass?_ok hload hw t) fun s? w₁ ⟨hs, hw₁⟩ => ?_
  generalize hn : superclassName? t = n? at hs
  cases hs with
  | none =>
    refine ok_pure ⟨⟨by simp [fromSuperclass, hn], fun name h => ?_⟩, hw₁⟩
    cases h
  | @some name s hs =>
    refine ok_bind (hexpose name s w₁ hs hw₁) fun vs w₂ ⟨hvs, hw₂⟩ => ok_pure ⟨⟨?_, ?_⟩, hw₂⟩
    · simp [fromSuperclass, hn, hvs.viewOf_eq]
    · rintro _ ⟨⟩
      rwa [hvs.viewOf_eq]

theorem flatten_of_forall₂ {α β : Type} {f : α → List β} {P : α → Prop} {xs : List α}
    {parts : List (List β)} (h : List.Forall₂ (fun x part => part = f x ∧ P x) xs parts) :
    parts.flatten = xs.flatMap f ∧ ∀ x ∈ xs, P x := by
  induction h with
  | nil => exact ⟨rfl, fun _ hx => absurd hx List.not_mem_nil⟩
  | cons hp _ ih =>
    rw [List.flatten_cons, List.flatMap_cons, hp.1, ih.1]
    exact ⟨rfl, List.forall_mem_cons.mpr ⟨hp.2, ih.2⟩⟩

theorem inheritedFromInterfaces_ok (hload : table.Serves load inv)
    {expose : TypeInfo → Step σ (List Method)} (hexpose : table.Exposes inv expose)
    (t : TypeInfo) (taken : List Slot) {w : Walk σ} (hw : table.Remembers inv w) :
    Ok (inheritedFromInterfaces load expose t taken) w fun ms w' =>
      (ms = (t.interfaces.flatMap fun name =>
        inheritedFromInterface taken (table.viewOf name)) ∧
        ∀ name ∈ t.interfaces, table.View name (table.viewOf name)) ∧
        table.Remembers inv w' := by
  unfold inheritedFromInterfaces
  let R : String → List Method → Prop := fun name part =>
    part = inheritedFromInterface taken (table.viewOf name) ∧
      table.View name (table.viewOf name)
  refine ok_bind (ok_mapM (table.Remembers inv) R hw fun name _ w₁ hw₁ => ?_)
    fun parts w₂ ⟨hparts, hw₂⟩ => ok_pure ⟨flatten_of_forall₂ hparts, hw₂⟩
  refine ok_bind (supertype_ok hload hw₁ name t .interface) fun i w₂ ⟨hi, hw₂⟩ => ?_
  refine ok_bind (hexpose name i w₂ hi hw₂) fun vs w₃ ⟨hvs, hw₃⟩ => ok_pure ⟨⟨?_, ?_⟩, hw₃⟩
  · rw [hvs.viewOf_eq]
  · rwa [hvs.viewOf_eq]

/-- A walk that succeeds ends in the view of its type, whatever it remembers. -/
theorem exposed_ok (hload : table.Serves load inv)
    (hnames : ∀ {name t}, table name = some t → t.name = name) (depth : Nat) :
    table.Exposes inv (exposed load depth) := by
  induction depth with
  | zero => exact fun name t w ht hw => ok_throw _
  | succ depth ih =>
    intro name t w ht hw
    have hname := hnames ht
    unfold exposed
    refine ok_get_bind ?_
    split
    · rename_i ms hms
      obtain ⟨l₁, l₂, hviews, -⟩ := List.lookup_eq_some_iff.mp hms
      have hmem : (t.name, ms) ∈ w.views := by simp [hviews]
      exact ok_pure ⟨hname ▸ hw.views _ hmem, hw⟩
    · refine ok_bind (inheritedFromSuperclass_ok hload ih t hw) fun fs w₁ ⟨⟨hfs, hs⟩, hw₁⟩ => ?_
      refine ok_bind (inheritedFromInterfaces_ok hload ih t _ hw₁)
        fun fi w₂ ⟨⟨hfi, hi⟩, hw₂⟩ => ?_
      have hview : table.View name (viewFrom t table.viewOf) := by
        refine .intro table.viewOf ht fun n hn => ?_
        rcases List.mem_append.mp hn with hn | hn
        · exact hs n (Option.mem_toList.mp hn)
        · exact hi n hn
      have hmethods : ownPublic t ++ fs ++ fi = viewFrom t table.viewOf := by
        rw [hfi, hfs]
        rfl
      refine ok_modify_bind (ok_pure ?_)
      rw [hmethods]
      refine ⟨hview, hw₂.types, fun p hp => ?_⟩
      rcases List.mem_cons.mp hp with rfl | hp
      · exact hname ▸ hview
      · exact hw₂.views p hp

/-! ## Levels -/

/-- The levels of a name: its own, and those of its superclass below `java.lang.Object`. -/
inductive Chain (table : TypeTable) : String → List Level → Prop
  | object {name : String} {t : TypeInfo} (found : table name = some t)
      (object : t.name = objectName) : Chain table name []
  | top {name : String} {t : TypeInfo} {ms : List Method} (found : table name = some t)
      (below : t.name ≠ objectName) (view : table.View name ms) (last : superclassName? t = none) :
      Chain table name [⟨t, t.methods, ms⟩]
  | step {name above : String} {t : TypeInfo} {ms : List Method} {levels : List Level}
      (found : table name = some t) (below : t.name ≠ objectName) (view : table.View name ms)
      (next : superclassName? t = some above) (rest : Chain table above levels) :
      Chain table name (⟨t, t.methods, ms⟩ :: levels)

theorem Chain.found {name : String} {levels : List Level} (h : table.Chain name levels) :
    ∃ t, table name = some t := by
  cases h with
  | object hfound => exact ⟨_, hfound⟩
  | top hfound => exact ⟨_, hfound⟩
  | step hfound => exact ⟨_, hfound⟩

theorem Chain.eq_nil {name : String} {levels : List Level} (h : table.Chain name levels)
    {t : TypeInfo} (ht : table name = some t) (hobject : t.name = objectName) : levels = [] := by
  cases h with
  | object => rfl
  | top hfound hbelow =>
    obtain rfl := Option.some.inj (ht.symm.trans hfound)
    exact absurd hobject hbelow
  | step hfound hbelow =>
    obtain rfl := Option.some.inj (ht.symm.trans hfound)
    exact absurd hobject hbelow

/-- The chain of a type starts with its own level, and ends there if the type has no superclass to go
on with. -/
theorem Chain.eq_cons {name : String} {levels : List Level} (h : table.Chain name levels)
    {t : TypeInfo} (ht : table name = some t) (hbelow : t.name ≠ objectName) :
    ∃ ms rest, table.View name ms ∧ levels = ⟨t, t.methods, ms⟩ :: rest ∧
      (superclassName? t = none → rest = []) := by
  cases h with
  | object hfound hobject =>
    obtain rfl := Option.some.inj (ht.symm.trans hfound)
    exact absurd hobject hbelow
  | top hfound _ hview =>
    obtain rfl := Option.some.inj (ht.symm.trans hfound)
    exact ⟨_, [], hview, rfl, fun _ => rfl⟩
  | step hfound _ hview hnext =>
    obtain rfl := Option.some.inj (ht.symm.trans hfound)
    refine ⟨_, _, hview, rfl, fun hnone => ?_⟩
    rw [hnone] at hnext
    cases hnext

theorem Chain.view {name : String} {levels : List Level} (h : table.Chain name levels)
    {t : TypeInfo} (ht : table name = some t) (hbelow : t.name ≠ objectName) :
    ∃ ms, table.View name ms := by
  obtain ⟨ms, _, hview, _⟩ := h.eq_cons ht hbelow
  exact ⟨ms, hview⟩

/-- A table that holds more has the same chains. -/
theorem Chain.mono {table' : TypeTable}
    (h : ∀ {name t}, table name = some t → table' name = some t) {name : String}
    {levels : List Level} (hchain : table.Chain name levels) : table'.Chain name levels := by
  induction hchain with
  | object hfound hobject => exact .object (h hfound) hobject
  | top hfound hbelow hview hlast => exact .top (h hfound) hbelow (hview.mono h) hlast
  | step hfound hbelow hview hnext _ ih => exact .step (h hfound) hbelow (hview.mono h) hnext ih

theorem chain_ok (hload : table.Serves load inv)
    (hnames : ∀ {name t}, table name = some t → t.name = name) (depth n : Nat)
    {name : String} {t : TypeInfo} (ht : table name = some t) {w : Walk σ}
    (hw : table.Remembers inv w) :
    Ok (chain load depth n t) w fun levels w' =>
      table.Chain name levels ∧ table.Remembers inv w' := by
  induction n generalizing name t w with
  | zero => exact ok_throw _
  | succ n ih =>
    unfold chain
    split
    · rename_i hobject
      exact ok_pure ⟨.object ht (by simpa using hobject), hw⟩
    · rename_i hbelow
      have hbelow : t.name ≠ objectName := by simpa using hbelow
      refine ok_bind (exposed_ok hload hnames depth name t w ht hw) fun ms w₁ ⟨hms, hw₁⟩ => ?_
      refine ok_bind (superclass?_ok hload hw₁ t) fun s? w₂ ⟨hs, hw₂⟩ => ?_
      generalize hn : superclassName? t = n? at hs
      cases hs with
      | none => exact ok_pure ⟨.top ht hbelow hms hn, hw₂⟩
      | some hs =>
        refine ok_bind (ih hs hw₂) fun levels w₃ ⟨hlevels, hw₃⟩ => ?_
        exact ok_pure ⟨.step ht hbelow hms hn hlevels, hw₃⟩

theorem levels_ok (hload : table.Serves load inv)
    (hnames : ∀ {name t}, table name = some t → t.name = name) (depth : Nat)
    {name : String} {t : TypeInfo} (ht : table name = some t) {w : Walk σ}
    (hw : table.Remembers inv w) :
    Ok (levels load depth t) w fun levels w' =>
      table.Chain name levels ∧ table.Remembers inv w' := by
  unfold levels
  split
  · exact ok_throw _
  · exact chain_ok hload hnames depth depth ht hw

end Walks

end TypeTable

end StubWriter
