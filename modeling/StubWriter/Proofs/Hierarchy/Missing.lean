import StubWriter.Proofs.Hierarchy.Exposed

/-!
# Walks over hierarchies with gaps

Types come from a table, and a name without a type is not found. A walk through the hierarchy of a
type then ends in the levels of the type or in a failure that tells of a supertype without a type of
its own, and whatever came before it makes no difference.

* `Misses`: the failures that tell of a gap in a hierarchy.
* `exposed_ends`, `levels_ends`: what walks come to, failed ones included, and what they leave.
* `Call`: earlier walks, and `Call.leaves_remembers`: what they leave behind.
* `Superclasses`: a type and those on the way up from it, and `Chain.superclasses`.
* `levels_answered`: all this of the levels of a type.
-/

namespace StubWriter

open Run Walk

/-! ## Steps of walks -/

/-- Results of `P` and failures of `Q`. -/
def Run.Splits {α : Type} (P : α → Prop) (Q : Failure → Prop) : Except Failure α → Prop
  | .ok a => P a
  | .error f => Q f

section Steps

variable {σ α β : Type} {I : σ → Prop} {Q : Failure → Prop}

theorem Run.ends_bind_splits {x : EStateM Failure σ α} {f : α → EStateM Failure σ β}
    {P : α → Prop} {R : β → Prop} (hx : Ends I x (Splits P Q))
    (hf : ∀ a, P a → Ends I (f a) (Splits R Q)) : Ends I (x >>= f) (Splits R Q) :=
  ends_bind hx hf fun _ he => he

/-- A walk through a list; `R` relates each element to what is made of it. -/
theorem Run.ends_mapM_splits {R : α → β → Prop} {xs : List α} {f : α → EStateM Failure σ β}
    (hf : ∀ a ∈ xs, Ends I (f a) (Splits (R a) Q)) :
    Ends I (xs.mapM f) (Splits (List.Forall₂ R xs) Q) := by
  induction xs with
  | nil => exact ends_pure (.nil : List.Forall₂ R [] [])
  | cons a as ih =>
    rw [List.mapM_cons]
    refine ends_bind_splits (hf a List.mem_cons_self) fun b hb => ?_
    refine ends_bind_splits (ih fun c hc => hf c (List.mem_cons_of_mem _ hc)) fun bs hbs => ?_
    exact ends_pure (List.Forall₂.cons hb hbs)

end Steps

/-- The names that stand in a role in the header of a type, as far as its view is made of them. -/
def SupertypeRole.namesIn (t : TypeInfo) : SupertypeRole → List String
  | .superclass => (superclassName? t).toList
  | .interface => t.interfaces

theorem SupertypeRole.mem_parents {t : TypeInfo} {p : String} {role : SupertypeRole}
    (hp : p ∈ role.namesIn t) : p ∈ parents t := by
  cases role with
  | superclass => exact List.mem_append_left _ hp
  | interface => exact List.mem_append_right _ hp

namespace TypeTable

variable {table : TypeTable} {name : String} {t : TypeInfo} {rank : String → Nat}

/-- The failure tells of a supertype in the hierarchy of `t` that is not in the table. -/
def Misses (table : TypeTable) (t : TypeInfo) (f : Failure) : Prop :=
  ∃ s role p, table.Lineage t s ∧ p ∈ SupertypeRole.namesIn s role ∧ table p = none ∧
    f = .supertypeNotFound role p s.name

theorem Misses.of_parent {p : String} {u : TypeInfo} {f : Failure} (hp : p ∈ parents t)
    (hu : table p = some u) (h : table.Misses u f) : table.Misses t f := by
  obtain ⟨s, role, q, hs, hq⟩ := h
  exact ⟨s, role, q, lineage_of_parent hp hu hs, hq⟩

/-- Nothing is missing where every supertype can be loaded. -/
theorem Misses.not_answers {f : Failure} (h : table.Misses t f) : ¬ table.loads.Answers t := by
  intro hanswers
  obtain ⟨s, role, p, hs, hp, hnone, -⟩ := h
  rw [← types_loads table] at hs
  obtain ⟨u, hu⟩ := hanswers s hs p (SupertypeRole.mem_parents hp)
  rw [loads_eq_ok, hnone] at hu
  cases hu

/-- A type with a view has all that the view is made of. -/
theorem View.answers {ms : List Method} (h : table.View name ms) (ht : table name = some t) :
    table.loads.Answers t := by
  intro s hs p hp
  rw [types_loads] at hs
  obtain ⟨q, vs, hq, hview⟩ := h.of_parents ht hs
  cases hview with
  | intro views hfound habove =>
    obtain rfl := Option.some.inj (hq.symm.trans hfound)
    obtain ⟨u, hu⟩ := (habove p hp).found
    exact ⟨u, loads_eq_ok.mpr hu⟩

/-! ## Views -/

section Walks

variable {σ : Type} {W : World σ} {load : String → EStateM Failure σ TypeInfo}
  {Q : Failure → Prop}

section

variable (hW : ∀ f, ¬ W.excused f) (hload : W.Serves table.loads load)
include hW hload

theorem supertype_ends (hQ : ∀ f, table.Misses t f → Q f) {p : String} {role : SupertypeRole}
    (hp : p ∈ role.namesIn t) :
    Ends (table.Remembers W.inv) (supertype load p t role)
      (Splits (fun s => table p = some s) Q) := by
  have hgives : Ends (table.Remembers W.inv) (supertype load p t role)
      (· = table.loads.supertype p t role) := by
    have hwalk := World.ends_of_gives (W := W.walk table.loads) hW (supertype_gives hload p t role)
    unfold World.walk at hwalk
    rwa [types_loads] at hwalk
  refine ends_mono hgives fun o ho => ?_
  subst ho
  unfold LoadTable.supertype loads
  cases hs : table p with
  | some s => exact (rfl : some s = some s)
  | none => exact hQ _ ⟨t, role, p, .refl, hp, hs, rfl⟩

theorem superclass?_ends (hQ : ∀ f, table.Misses t f → Q f) :
    Ends (table.Remembers W.inv) (superclass? load t)
      (Splits (Option.Rel (fun p s => table p = some s) (superclassName? t)) Q) := by
  unfold superclass?
  cases hn : superclassName? t with
  | none => exact ends_pure Option.Rel.none
  | some p =>
    have hp : p ∈ SupertypeRole.superclass.namesIn t := by simp [SupertypeRole.namesIn, hn]
    exact ends_bind_splits (supertype_ends hW hload hQ hp) fun s hs =>
      ends_pure (Option.Rel.some hs)

variable {expose : TypeInfo → Step σ (List Method)}
  (hexpose : ∀ p ∈ parents t, ∀ s, table p = some s →
    Ends (table.Remembers W.inv) (expose s) (Splits (table.View p) Q))
include hexpose

theorem inheritedFromSuperclass_ends (hQ : ∀ f, table.Misses t f → Q f) :
    Ends (table.Remembers W.inv) (inheritedFromSuperclass load expose t)
      (Splits (fun ms => ms = fromSuperclass t table.viewOf ∧
        ∀ p, superclassName? t = some p → table.View p (table.viewOf p)) Q) := by
  unfold inheritedFromSuperclass
  refine ends_bind_splits (superclass?_ends hW hload hQ) fun s? hs => ?_
  generalize hn : superclassName? t = n? at hs
  cases hs with
  | none =>
    refine ends_pure ⟨by simp [fromSuperclass, hn], fun p h => ?_⟩
    cases h
  | @some p s hs =>
    refine ends_bind_splits (hexpose p (mem_parents_of_superclass hn) s hs) fun vs hvs => ?_
    refine ends_pure ⟨?_, ?_⟩
    · simp [fromSuperclass, hn, hvs.viewOf_eq]
    · rintro _ ⟨⟩
      rwa [hvs.viewOf_eq]

theorem inheritedFromInterfaces_ends (hQ : ∀ f, table.Misses t f → Q f) (taken : List Slot) :
    Ends (table.Remembers W.inv) (inheritedFromInterfaces load expose t taken)
      (Splits (fun ms => ms = (t.interfaces.flatMap fun p =>
        inheritedFromInterface taken (table.viewOf p)) ∧
        ∀ p ∈ t.interfaces, table.View p (table.viewOf p)) Q) := by
  unfold inheritedFromInterfaces
  let R : String → List Method → Prop := fun p part =>
    part = inheritedFromInterface taken (table.viewOf p) ∧ table.View p (table.viewOf p)
  refine ends_bind_splits (ends_mapM_splits (R := R) fun p hp => ?_) fun parts hparts =>
    ends_pure (flatten_of_forall₂ hparts)
  have hlisted : p ∈ SupertypeRole.interface.namesIn t := hp
  refine ends_bind_splits (supertype_ends hW hload hQ hlisted) fun s hs => ?_
  refine ends_bind_splits (hexpose p (List.mem_append_right _ hp) s hs) fun vs hvs => ?_
  refine ends_pure ⟨?_, ?_⟩
  · rw [hvs.viewOf_eq]
  · rwa [hvs.viewOf_eq]

end

variable (hW : ∀ f, ¬ W.excused f) (hload : W.Serves table.loads load)
  (hrank : table.loads.Ranked rank)
include hW hload hrank

/-- A walk ends in the view of its type. If it may go deep enough, nothing but a gap in the
hierarchy makes it fail. -/
theorem exposed_ends (depth : Nat) (ht : table name = some t) :
    Ends (table.Remembers W.inv) (exposed load depth t)
      (Splits (table.View name) fun f => rank name < depth → table.Misses t f) := by
  induction depth generalizing name t with
  | zero => exact ends_throw fun h => absurd h (Nat.not_lt_zero _)
  | succ depth ih =>
    have hname := hrank.name_eq (loads_eq_ok.mpr ht)
    let Q : Failure → Prop := fun f => rank name < depth + 1 → table.Misses t f
    have hQ : ∀ f, table.Misses t f → Q f := fun f h _ => h
    have hexpose : ∀ p ∈ parents t, ∀ s, table p = some s →
        Ends (table.Remembers W.inv) (exposed load depth s) (Splits (table.View p) Q) := by
      intro p hp s hs
      have hless := hrank.above (loads_eq_ok.mpr ht) p hp
      refine ends_mono (ih hs) fun o ho => ?_
      cases o with
      | ok ms => exact ho
      | error f => exact fun hdepth => (ho (by omega)).of_parent hp hs
    unfold exposed
    refine ends_get_bind fun w hw => (?_ : Ends (table.Remembers W.inv) _ _) w hw
    split
    · rename_i methods hmethods
      obtain ⟨l₁, l₂, hviews, -⟩ := List.lookup_eq_some_iff.mp hmethods
      have hmem : (t.name, methods) ∈ w.views := by simp [hviews]
      have hview : table.View t.name methods := hw.views _ hmem
      exact ends_pure (hname ▸ hview)
    · refine ends_bind_splits (inheritedFromSuperclass_ends hW hload hexpose hQ)
        fun fs ⟨hfs, hs⟩ => ?_
      refine ends_bind_splits (inheritedFromInterfaces_ends hW hload hexpose hQ _)
        fun fi ⟨hfi, hi⟩ => ?_
      have hview : table.View name (viewFrom t table.viewOf) := by
        refine .intro table.viewOf ht fun p hp => ?_
        rcases List.mem_append.mp hp with hp | hp
        · exact hs p (Option.mem_toList.mp hp)
        · exact hi p hp
      have hmethods : ownPublic t ++ fs ++ fi = viewFrom t table.viewOf := by
        rw [hfi, hfs]
        rfl
      dsimp only
      rw [hmethods]
      refine ends_bind_splits (P := fun _ => True)
        (ends_modify (fun w hw => ⟨hw.types, fun q hq => ?_⟩) trivial) fun _ _ => ends_pure hview
      rcases List.mem_cons.mp hq with rfl | hq
      · exact hname ▸ hview
      · exact hw.views q hq

/-! ## Levels -/

theorem chain_ends (depth length : Nat) (ht : table name = some t) :
    Ends (table.Remembers W.inv) (chain load depth length t)
      (Splits (table.Chain name) fun f =>
        (∀ n, rank n < depth) → rank name < length → table.Misses t f) := by
  induction length generalizing name t with
  | zero => exact ends_throw fun _ h => absurd h (Nat.not_lt_zero _)
  | succ length ih =>
    let Q : Failure → Prop := fun f =>
      (∀ n, rank n < depth) → rank name < length + 1 → table.Misses t f
    have hQ : ∀ f, table.Misses t f → Q f := fun f h _ _ => h
    unfold chain
    split
    · rename_i hobject
      exact ends_pure (Chain.object ht (by simpa using hobject))
    · rename_i hbelow
      have hbelow : t.name ≠ objectName := by simpa using hbelow
      have hexposed : Ends (table.Remembers W.inv) (exposed load depth t)
          (Splits (table.View name) Q) := by
        refine ends_mono (exposed_ends hW hload hrank depth ht) fun o ho => ?_
        cases o with
        | ok ms => exact ho
        | error f => exact fun hdepth _ => ho (hdepth name)
      refine ends_bind_splits hexposed fun ms hms => ?_
      refine ends_bind_splits (superclass?_ends hW hload hQ) fun s? hs => ?_
      generalize hn : superclassName? t = n? at hs
      cases hs with
      | none => exact ends_pure (Chain.top ht hbelow hms hn)
      | @some p s hs =>
        have hp := mem_parents_of_superclass hn
        have hless := hrank.above (loads_eq_ok.mpr ht) p hp
        have hrest : Ends (table.Remembers W.inv) (chain load depth length s)
            (Splits (table.Chain p) Q) := by
          refine ends_mono (ih hs) fun o ho => ?_
          cases o with
          | ok found => exact ho
          | error f => exact fun hdepth hlength => (ho hdepth (by omega)).of_parent hp hs
        exact ends_bind_splits hrest fun found hfound =>
          ends_pure (Chain.step ht hbelow hms hn hfound)

theorem levels_ends (depth : Nat) (ht : table name = some t) :
    Ends (table.Remembers W.inv) (levels load depth t)
      (Splits (table.Chain name) fun f =>
        (∀ n, rank n < depth) → t.isPrimitive = false → table.Misses t f) := by
  unfold levels
  split
  · rename_i hprimitive
    refine ends_throw fun _ h => ?_
    rw [hprimitive] at h
    cases h
  · refine ends_mono (chain_ends hW hload hrank depth depth ht) fun o ho => ?_
    cases o with
    | ok found => exact ho
    | error f => exact fun hdepth _ => ho hdepth (hdepth name)

end Walks

/-! ## Superclasses -/

/-- A type and those on the way up from it through superclasses, in this order. -/
inductive Superclasses (table : TypeTable) : TypeInfo → List TypeInfo → Prop
  | last {t : TypeInfo} (last : superclassName? t = none) : Superclasses table t [t]
  | next {t s : TypeInfo} {p : String} {types : List TypeInfo} (next : superclassName? t = some p)
      (found : table p = some s) (rest : Superclasses table s types) :
      Superclasses table t (t :: types)

theorem Superclasses.lineage {types : List TypeInfo} (h : table.Superclasses t types)
    {s : TypeInfo} (hs : s ∈ types) : table.Lineage t s := by
  induction h with
  | last => exact List.mem_singleton.mp hs ▸ .refl
  | next hnext hfound _ ih =>
    rcases List.mem_cons.mp hs with rfl | hs
    · exact .refl
    · exact lineage_of_parent (mem_parents_of_superclass hnext) hfound (ih hs)

section Chains

variable (hname : ∀ {name t}, table name = some t → t.name = name)
include hname

/-- No name stands twice on the way up from a type with a view. -/
theorem Superclasses.nodup {types : List TypeInfo} (h : table.Superclasses t types)
    (ht : table name = some t) {ms : List Method} (hview : table.View name ms) :
    (types.map TypeInfo.name).Nodup := by
  induction h generalizing name ms with
  | last => exact List.nodup_singleton _
  | @next t s p types hnext hfound hrest ih =>
    have hp := mem_parents_of_superclass hnext
    obtain ⟨vs, habove⟩ : ∃ vs, table.View p vs := by
      cases hview with
      | intro views hfound' habove =>
        obtain rfl := Option.some.inj (ht.symm.trans hfound')
        exact ⟨_, habove p hp⟩
    refine List.nodup_cons.mpr ⟨fun hmem => ?_, ih hfound habove⟩
    obtain ⟨u, hu, hsame⟩ := List.mem_map.mp hmem
    have hsu := hrest.lineage hu
    obtain ⟨q, hq⟩ := hsu.found hfound
    obtain rfl : u = t := by
      rw [hname hq, hname ht] at hsame
      exact Option.some.inj (hq.symm.trans (hsame ▸ ht))
    exact hview.not_cyclic ht (.head' ⟨p, hp, hfound⟩ hsu)

/-- The types of the levels of a type are those on the way up from it, below `java.lang.Object`. -/
theorem Chain.superclasses {found : List Level} (h : table.Chain name found)
    (ht : table name = some t) (hbelow : t.name ≠ objectName) :
    table.Superclasses t (found.map Level.type) ∧ ∀ l ∈ found, l.type.name ≠ objectName := by
  induction h generalizing t with
  | object hfound hobject =>
    obtain rfl := Option.some.inj (ht.symm.trans hfound)
    exact absurd hobject hbelow
  | top hfound _ _ hlast =>
    obtain rfl := Option.some.inj (ht.symm.trans hfound)
    exact ⟨.last hlast, fun l hl => List.mem_singleton.mp hl ▸ hbelow⟩
  | @step name above s ms rest hfound _ _ hnext hrest ih =>
    obtain rfl := Option.some.inj (ht.symm.trans hfound)
    obtain ⟨u, hu⟩ := hrest.found
    have hbelow' : u.name ≠ objectName := by
      rw [hname hu]
      exact superclassName?_ne hnext
    obtain ⟨hsuperclasses, hnames⟩ := ih hu hbelow'
    exact ⟨.next hnext hu hsuperclasses, List.forall_mem_cons.mpr ⟨hbelow, hnames⟩⟩

end Chains

end TypeTable

/-! ## Walks after other walks -/

namespace Walk

/-- A walk that begins with a type. -/
inductive Call where
  | exposed (depth : Nat) (t : TypeInfo)
  | levels (depth : Nat) (t : TypeInfo)

def Call.type : Call → TypeInfo
  | .exposed _ t => t
  | .levels _ t => t

variable {σ : Type} (load : String → EStateM Failure σ TypeInfo)

/-- What a call leaves, whatever it comes to. -/
def Call.leaves (w : Walk σ) : Call → Walk σ
  | .exposed depth t => stateAfter (Walk.exposed load depth t w)
  | .levels depth t => stateAfter (Walk.levels load depth t w)

def afterCalls (w : Walk σ) (calls : List Call) : Walk σ :=
  calls.foldl (Call.leaves load) w

end Walk

section Calls

open TypeTable

variable {σ : Type} {W : World σ} {table : TypeTable}
  {load : String → EStateM Failure σ TypeInfo} {rank : String → Nat}

theorem Walk.Call.leaves_remembers (hW : ∀ f, ¬ W.excused f) (hload : W.Serves table.loads load)
    (hrank : table.loads.Ranked rank) {w : Walk σ} (hw : table.Remembers W.inv w) (c : Call)
    (hc : table c.type.name = some c.type) : table.Remembers W.inv (c.leaves load w) := by
  cases c with
  | exposed depth t => exact (exposed_ends hW hload hrank depth hc w hw).1
  | levels depth t => exact (levels_ends hW hload hrank depth hc w hw).1

theorem Walk.afterCalls_remembers (hW : ∀ f, ¬ W.excused f) (hload : W.Serves table.loads load)
    (hrank : table.loads.Ranked rank) {w : Walk σ} (hw : table.Remembers W.inv w)
    {calls : List Call} (hcalls : ∀ c ∈ calls, table c.type.name = some c.type) :
    table.Remembers W.inv (afterCalls load w calls) := by
  induction calls generalizing w with
  | nil => exact hw
  | cons c cs ih =>
    obtain ⟨hc, hcs⟩ := List.forall_mem_cons.mp hcalls
    exact ih (c.leaves_remembers hW hload hrank hw hc) hcs

/-- The levels of a type of an acyclic hierarchy, asked for after any other walks. There are levels
if every supertype in the hierarchy has a type, and otherwise the walk fails with one that has none.
The levels are those of the type and its superclasses, each of them once, and `java.lang.Object` is
not among them. -/
theorem levels_answered (hW : ∀ f, ¬ W.excused f) (hload : W.Serves table.loads load)
    (hname : ∀ {name t}, table name = some t → t.name = name) {names : List String}
    (hnames : ∀ {a b}, table.loads.Leads a b → b ∈ names)
    (hacyclic : ∀ name, ¬ Relation.TransGen table.loads.Leads name name) {s : σ} (hs : W.inv s)
    {calls : List Call} (hcalls : ∀ c ∈ calls, table c.type.name = some c.type) {name : String}
    {t : TypeInfo} (ht : table name = some t) (hprimitive : t.isPrimitive = false)
    (hbelow : t.name ≠ objectName) {depth : Nat} (hdepth : names.length < depth) :
    let o := outcome (levels load depth t (afterCalls load ⟨s, []⟩ calls))
    ((∃ found, o = .ok found) ↔ table.loads.Answers t) ∧
      (∀ f, o = .error f → table.Misses t f) ∧
      ∀ found, o = .ok found → table.Superclasses t (found.map Level.type) ∧
        (∀ l ∈ found, l.type.name ≠ objectName) ∧ (found.map fun l => l.type.name).Nodup := by
  obtain ⟨rank, hrank, hbound⟩ :=
    LoadTable.exists_ranked (fun ht => hname (loads_eq_ok.mp ht)) hnames hacyclic
  have hwalk := afterCalls_remembers hW hload hrank (remembers_start hs) hcalls
  obtain ⟨-, hends⟩ := levels_ends hW hload hrank depth ht _ hwalk
  intro o
  have hmisses : ∀ f, o = .error f → table.Misses t f := by
    intro f hf
    change Splits _ _ o at hends
    rw [hf] at hends
    exact hends (fun n => Nat.lt_of_le_of_lt (hbound n) hdepth) hprimitive
  have hchain : ∀ found, o = .ok found → table.Chain name found := by
    intro found hfound
    change Splits _ _ o at hends
    rwa [hfound] at hends
  refine ⟨⟨fun ⟨found, hfound⟩ => ?_, fun hanswers => ?_⟩, hmisses, fun found hfound => ?_⟩
  · obtain ⟨ms, hview⟩ := (hchain found hfound).view ht hbelow
    exact hview.answers ht
  · cases ho : o with
    | ok found => exact ⟨found, rfl⟩
    | error f => exact absurd hanswers (hmisses f ho).not_answers
  · have hlevels := hchain found hfound
    obtain ⟨ms, hview⟩ := hlevels.view ht hbelow
    obtain ⟨hsuperclasses, hobject⟩ := hlevels.superclasses hname ht hbelow
    have hnodup := hsuperclasses.nodup hname ht hview
    rw [List.map_map] at hnodup
    exact ⟨hsuperclasses, hobject, hnodup⟩

/-! ### A class without its interface -/

/-- The class and its superclass, but not the interface. -/
def gapped : TypeTable := ofList [joinedClass, joinedBase]

theorem levels_answered_gapped :
    let load := (gapped.supply (· == ·) 3).load
    let w := afterCalls load ⟨(), []⟩ [.levels 3 joinedClass, .exposed 1 joinedClass]
    ¬ gapped.loads.Answers joinedClass ∧
    (∃ f, outcome (levels load 3 joinedClass w) = .error f ∧ gapped.Misses joinedClass f) ∧
    ∃ found, outcome (levels load 3 joinedBase w) = .ok found ∧
      gapped.Superclasses joinedBase (found.map Level.type) := by
  intro load w
  have hnames : ∀ {a b}, gapped.loads.Leads a b → b ∈ ["B", "I"] := by
    intro a b h
    have hparents : ∀ t ∈ [joinedClass, joinedBase], ∀ p ∈ parents t, p ∈ ["B", "I"] := by decide
    obtain ⟨t, ht, -, hb⟩ := leads_ofList h
    exact hparents t ht b hb
  have hacyclic : ∀ name, ¬ Relation.TransGen gapped.loads.Leads name name :=
    acyclic_ofList (["B", "I", "C"].idxOf ·) (by decide)
  have hcalls : ∀ c ∈ [Call.levels 3 joinedClass, .exposed 1 joinedClass],
      gapped c.type.name = some c.type := by
    intro c hc
    simp only [List.mem_cons, List.not_mem_nil, or_false] at hc
    obtain rfl | rfl := hc <;> rfl
  have hdepth : ["B", "I"].length < 3 := by decide
  have hname : ∀ {name t}, gapped name = some t → t.name = name := fun h => (ofList_eq_some h).1
  have hserves := serves_supply gapped (· == ·) 3
  have hgapped : gapped "C" = some joinedClass := rfl
  have hwhole : gapped "B" = some joinedBase := rfl
  have hgap : ¬ gapped.loads.Answers joinedClass := by
    intro hanswers
    obtain ⟨u, hu⟩ := hanswers joinedClass .refl "I" (by decide)
    have hnone : gapped "I" = none := rfl
    rw [loads_eq_ok, hnone] at hu
    cases hu
  have hbase : gapped.loads.Answers joinedBase := by
    have hparents : parents joinedBase = [] := by decide
    have hview : gapped.View "B" (viewFrom joinedBase fun _ => []) :=
      .intro _ hwhole fun p hp => absurd (hparents ▸ hp) List.not_mem_nil
    exact hview.answers rfl
  refine ⟨hgap, ?_, ?_⟩
  · obtain ⟨hfound, hmisses, -⟩ := levels_answered (fun _ h => h) hserves hname hnames hacyclic
      trivial hcalls hgapped rfl (by decide) hdepth
    cases ho : outcome (levels load 3 joinedClass w) with
    | ok found => exact absurd (hfound.mp ⟨found, ho⟩) hgap
    | error f => exact ⟨f, rfl, hmisses f ho⟩
  · obtain ⟨hfound, -, hsuperclasses⟩ := levels_answered (fun _ h => h) hserves hname hnames
      hacyclic trivial hcalls hwhole rfl (by decide) hdepth
    obtain ⟨found, ho⟩ := hfound.mpr hbase
    exact ⟨found, ho, (hsuperclasses found ho).1⟩

end Calls

end StubWriter
