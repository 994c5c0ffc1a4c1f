import Mathlib.Data.Finset.Card
import Mathlib.Data.Finset.Dedup
import StubWriter.TypeSupply
import StubWriter.Proofs.Moves
import StubWriter.Proofs.Hierarchy.View
import StubWriter.Proofs.Resolution.Slots

/-!
# Walks that depend on nothing but what loading gives

Where loading gives the same for each name, whatever was loaded before, the views and the levels of
a type come out the same, and so does the resolution of its stub if assignability does. What a walk
remembers makes no difference, and neither does the depth that bounds it, once it exceeds the rank
of the name.

* `LoadTable`: what loading gives for each name, and `LoadTable.Ranked`: an order of the names in
  which supertypes come first. There is one if no type is above itself.
* `World.Serves`: the worlds in which loading gives what a table says.
* `exposed_fixed`, `levels_fixed`, `resolve_fixed`: walks in such worlds come to the same.
-/

namespace StubWriter

open Run Walk

/-- What loading gives for each name. -/
abbrev LoadTable := String → Except Failure TypeInfo

theorem Walk.parents_subset (t : TypeInfo) : parents t ⊆ t.supertypes := by
  intro b hb
  unfold parents superclassName? at hb
  rcases List.mem_append.mp hb with hb | hb
  · split at hb
    · cases hb
    · exact List.mem_append_left _ (Option.mem_toList.mpr
        (Option.mem_filter_iff.mp (Option.mem_toList.mp hb)).1)
  · exact List.mem_append_right _ hb

namespace LoadTable

/-- The types that can be loaded. -/
def types (T : LoadTable) : TypeTable :=
  fun name => (T name).toOption

theorem types_eq_some {T : LoadTable} {name : String} {t : TypeInfo} :
    T.types name = some t ↔ T name = .ok t := by
  unfold types
  cases T name <;> simp [Except.toOption]

/-- Types stand under their own names, and behind the types of which their views are made. -/
structure Ranked (T : LoadTable) (rank : String → Nat) : Prop where
  name_eq : ∀ {name t}, T name = .ok t → t.name = name
  above : ∀ {name t}, T name = .ok t → ∀ p ∈ parents t, rank p < rank name

/-- `b` is a type of which the view of `a` is made. -/
def Leads (T : LoadTable) (a b : String) : Prop :=
  ∃ t, T a = .ok t ∧ b ∈ parents t

/-- Types stand under their own names, and those that have views behind the types of which these are
made. -/
structure RanksViews (T : LoadTable) (rank : String → Nat) : Prop where
  name_eq : ∀ {name t}, T name = .ok t → t.name = name
  above : ∀ {name t ms}, T.types.View name ms → T name = .ok t → ∀ p ∈ parents t,
    rank p < rank name

theorem Ranked.ranksViews {T : LoadTable} {rank : String → Nat} (h : T.Ranked rank) :
    T.RanksViews rank :=
  ⟨h.name_eq, fun _ => h.above⟩

/-- A type that has a view is not above itself. -/
theorem acyclic_of_view {T : LoadTable} {name : String} {ms : List Method}
    (h : T.types.View name ms) : ¬ Relation.TransGen T.Leads name name := by
  induction h with
  | intro views hfound _ ih =>
    intro hcycle
    obtain ⟨b, ⟨t, ht, hb⟩, hback⟩ := Relation.TransGen.head'_iff.mp hcycle
    obtain rfl := Except.ok.inj (ht.symm.trans (types_eq_some.mp hfound))
    exact ih b hb (Relation.TransGen.tail' hback ⟨t, ht, hb⟩)

/-- The number of names above a name is a rank, as long as no type is above itself. -/
theorem exists_rank {T : LoadTable} {names : List String}
    (habove : ∀ {a b}, T.Leads a b → b ∈ names) :
    ∃ rank : String → Nat, (∀ name, rank name ≤ names.length) ∧
      ∀ a b, T.Leads a b → ¬ Relation.TransGen T.Leads b b → rank b < rank a := by
  classical
  let higher : String → Finset String := fun name =>
    names.toFinset.filter fun b => Relation.TransGen T.Leads name b
  refine ⟨fun name => (higher name).card, fun name => ?_, fun a b hleads hacyclic => ?_⟩
  · exact (Finset.card_filter_le _ _).trans (List.toFinset_card_le names)
  · have hsubset : higher b ⊆ higher a := by
      intro c hc
      obtain ⟨hc, hbc⟩ := Finset.mem_filter.mp hc
      exact Finset.mem_filter.mpr ⟨hc, .head hleads hbc⟩
    refine Finset.card_lt_card ((Finset.ssubset_iff_of_subset hsubset).mpr ⟨b, ?_, fun h => ?_⟩)
    · exact Finset.mem_filter.mpr ⟨List.mem_toFinset.mpr (habove hleads), .single hleads⟩
    · exact hacyclic (Finset.mem_filter.mp h).2

/-- Where no type is above itself, all types are ranked. -/
theorem exists_ranked {T : LoadTable} {names : List String}
    (hname : ∀ {name t}, T name = .ok t → t.name = name)
    (habove : ∀ {a b}, T.Leads a b → b ∈ names)
    (hacyclic : ∀ name, ¬ Relation.TransGen T.Leads name name) :
    ∃ rank, T.Ranked rank ∧ ∀ name, rank name ≤ names.length := by
  obtain ⟨rank, hle, hlower⟩ := exists_rank habove
  exact ⟨rank, ⟨hname, fun ht b hb => hlower _ b ⟨_, ht, hb⟩ (hacyclic b)⟩, hle⟩

/-- The types that have views are ranked in any case. -/
theorem exists_ranksViews {T : LoadTable} {names : List String}
    (hname : ∀ {name t}, T name = .ok t → t.name = name)
    (habove : ∀ {a b}, T.Leads a b → b ∈ names) :
    ∃ rank, T.RanksViews rank ∧ ∀ name, rank name ≤ names.length := by
  obtain ⟨rank, hle, hlower⟩ := exists_rank habove
  refine ⟨rank, ⟨hname, fun {name t ms} hview ht b hb => hlower _ b ⟨_, ht, hb⟩ ?_⟩, hle⟩
  cases hview with
  | intro views hfound hviews =>
    obtain rfl := Except.ok.inj (ht.symm.trans (types_eq_some.mp hfound))
    exact acyclic_of_view (hviews b hb)

/-- What asking for a supertype gives. -/
def supertype (T : LoadTable) (name : String) (sub : TypeInfo) (role : SupertypeRole) :
    Except Failure TypeInfo :=
  match T name with
  | .ok t => .ok t
  | .error f => if f.isNotFound then .error (.supertypeNotFound role name sub.name) else .error f

end LoadTable

/-! ## Worlds of walks -/

section

variable {σ : Type}

/-- Loading gives what the table says, and a type is never excused for not being found. -/
structure Run.World.Serves (W : World σ) (T : LoadTable)
    (load : String → EStateM Failure σ TypeInfo) : Prop where
  gives : ∀ name, W.Gives (load name) (T name)
  firm : ∀ f, W.excused f → f.isNotFound = false

/-- Loading gives the types of the table. Nothing is said of names without one. -/
structure Run.World.Offers (W : World σ) (T : LoadTable)
    (load : String → EStateM Failure σ TypeInfo) : Prop where
  gives : ∀ {name t}, T name = .ok t → W.Gives (load name) (.ok t)
  firm : ∀ f, W.excused f → f.isNotFound = false

theorem Run.World.Serves.offers {W : World σ} {T : LoadTable}
    {load : String → EStateM Failure σ TypeInfo} (h : W.Serves T load) : W.Offers T load :=
  ⟨fun ht => ht ▸ h.gives _, h.firm⟩

/-- Walks that remember views only. -/
def Run.World.walk (W : World σ) (T : LoadTable) : World (Walk σ) :=
  ⟨T.types.Remembers W.inv, W.excused⟩

variable {W : World σ} {T : LoadTable} {load : String → EStateM Failure σ TypeInfo}

theorem Walk.lift_gives {α : Type} {x : EStateM Failure σ α} {v : Except Failure α}
    (h : W.Gives x v) : (W.walk T).Gives (lift x) v := by
  intro w hw
  obtain ⟨hinv, hv⟩ := h w.types hw.types
  unfold lift
  cases hx : x w.types with
  | ok a s =>
    rw [hx] at hinv hv
    exact ⟨⟨hinv, hw.views⟩, hv⟩
  | error f s =>
    rw [hx] at hinv hv
    exact ⟨⟨hinv, hw.views⟩, hv⟩

theorem Walk.supertype_gives (h : W.Serves T load) (name : String) (sub : TypeInfo)
    (role : SupertypeRole) :
    (W.walk T).Gives (supertype load name sub role) (T.supertype name sub role) := by
  unfold supertype LoadTable.supertype
  refine World.gives_tryCatch (lift_gives (h.gives name)) (fun t ht => ?_) (fun f hf => ?_)
    fun f hf => ?_
  · rw [ht]
  · rw [hf]
    dsimp only
    split
    · exact World.gives_throw
    · exact World.gives_throw
  · rw [h.firm f hf]
    rfl

theorem Walk.supertype_found (h : W.Offers T load) {name : String} {t : TypeInfo}
    (ht : T name = .ok t) (sub : TypeInfo) (role : SupertypeRole) :
    (W.walk T).Gives (supertype load name sub role) (.ok t) := by
  unfold supertype
  refine World.gives_tryCatch (lift_gives (h.gives ht)) (fun _ h => h) (fun _ h => nomatch h)
    fun f hf => ?_
  rw [h.firm f hf]
  rfl

end

/-! ## Views -/

section Gives

variable {σ : Type} {W : World σ} {T : LoadTable} {load : String → EStateM Failure σ TypeInfo}
  {rank : String → Nat}

theorem Walk.inheritedFromSuperclass_gives (h : W.Offers T load) {t : TypeInfo}
    {views : String → List Method} {expose : TypeInfo → Step σ (List Method)}
    (habove : ∀ n ∈ parents t, ∃ s, T n = .ok s ∧
      (W.walk T).Gives (expose s) (.ok (views n))) :
    (W.walk T).Gives (inheritedFromSuperclass load expose t) (.ok (fromSuperclass t views)) := by
  unfold inheritedFromSuperclass superclass? fromSuperclass
  cases hn : superclassName? t with
  | none => exact World.gives_bind World.gives_pure World.gives_pure
  | some name =>
    obtain ⟨s, hs, hexpose⟩ := habove name (List.mem_append_left _ (by simp [hn]))
    refine World.gives_bind
      (World.gives_bind (supertype_found h hs t .superclass) World.gives_pure) ?_
    refine World.gives_bind hexpose ?_
    simp only [Option.toList_some, List.flatMap_cons, List.flatMap_nil, List.append_nil]
    exact World.gives_pure

theorem Walk.inheritedFromInterfaces_gives (h : W.Offers T load) {t : TypeInfo}
    {views : String → List Method} {expose : TypeInfo → Step σ (List Method)} (taken : List Slot)
    (habove : ∀ n ∈ parents t, ∃ s, T n = .ok s ∧
      (W.walk T).Gives (expose s) (.ok (views n))) :
    (W.walk T).Gives (inheritedFromInterfaces load expose t taken)
      (.ok (t.interfaces.flatMap fun name => inheritedFromInterface taken (views name))) := by
  unfold inheritedFromInterfaces
  rw [List.flatMap_def]
  refine World.gives_bind (World.gives_mapM fun name hname => ?_) World.gives_pure
  obtain ⟨i, hi, hexpose⟩ := habove name (List.mem_append_right _ hname)
  exact World.gives_bind (supertype_found h hi t .interface)
    (World.gives_bind hexpose World.gives_pure)

/-- Where there is a view, a walk comes to it. -/
theorem TypeTable.View.exposed_gives (h : W.Offers T load) (hrank : T.RanksViews rank)
    {name : String} {ms : List Method} (hview : T.types.View name ms) {t : TypeInfo}
    (ht : T name = .ok t) {depth : Nat} (hdepth : rank name < depth) :
    (W.walk T).Gives (exposed load depth t) (.ok ms) := by
  induction hview generalizing t depth with
  | @intro name s views hfound habove ih =>
    have hs := LoadTable.types_eq_some.mp hfound
    obtain rfl := Except.ok.inj (ht.symm.trans hs)
    have hname := hrank.name_eq ht
    obtain ⟨depth, rfl⟩ : ∃ d, depth = d + 1 := ⟨depth - 1, by omega⟩
    have hexpose : ∀ n ∈ parents t, ∃ s, T n = .ok s ∧
        (W.walk T).Gives (exposed load depth s) (.ok (views n)) := by
      intro n hn
      obtain ⟨s, hs⟩ := (habove n hn).found
      have hs := LoadTable.types_eq_some.mp hs
      have hlower := hrank.above (.intro views hfound habove) ht n hn
      exact ⟨s, hs, ih n hn hs (by omega)⟩
    have hview : T.types.View name (viewFrom t views) := .intro views hfound habove
    unfold exposed
    refine World.gives_get_bind fun w hw => ?_
    split
    · rename_i methods hmethods
      obtain ⟨l₁, l₂, hviews, -⟩ := List.lookup_eq_some_iff.mp hmethods
      have hmem : (t.name, methods) ∈ w.views := by simp [hviews]
      have hcached := hw.views _ hmem
      rw [hname] at hcached
      obtain rfl := hview.unique hcached
      exact World.gives_pure
    · refine World.gives_bind (inheritedFromSuperclass_gives h hexpose) ?_
      refine World.gives_bind (inheritedFromInterfaces_gives h _ hexpose) ?_
      refine World.gives_bind (World.gives_modify fun w hw => ⟨hw.types, fun p hp => ?_⟩)
        World.gives_pure
      rcases List.mem_cons.mp hp with rfl | hp
      · exact hname ▸ hview
      · exact hw.views p hp

/-- Where there is a chain, a walk comes to it. -/
theorem TypeTable.Chain.chain_gives (h : W.Offers T load) (hrank : T.RanksViews rank)
    {name : String} {found : List Level} (hchain : T.types.Chain name found) {t : TypeInfo}
    (ht : T name = .ok t) {depth length : Nat} (hdepth : ∀ n, rank n < depth)
    (hlength : rank name < length) : (W.walk T).Gives (chain load depth length t) (.ok found) := by
  induction hchain generalizing t length with
  | object hfound hobject =>
    obtain rfl := Except.ok.inj (ht.symm.trans (LoadTable.types_eq_some.mp hfound))
    obtain ⟨length, rfl⟩ : ∃ n, length = n + 1 := ⟨length - 1, by omega⟩
    rw [chain, if_pos (by simpa using hobject)]
    exact World.gives_pure
  | top hfound hbelow hview hlast =>
    obtain rfl := Except.ok.inj (ht.symm.trans (LoadTable.types_eq_some.mp hfound))
    obtain ⟨length, rfl⟩ : ∃ n, length = n + 1 := ⟨length - 1, by omega⟩
    rw [chain, if_neg (by simpa using hbelow)]
    refine World.gives_bind (hview.exposed_gives h hrank ht (hdepth _)) ?_
    rw [superclass?, hlast]
    exact World.gives_bind World.gives_pure World.gives_pure
  | @step name above t' ms rest hfound hbelow hview hnext _ ih =>
    obtain rfl := Except.ok.inj (ht.symm.trans (LoadTable.types_eq_some.mp hfound))
    obtain ⟨length, rfl⟩ : ∃ n, length = n + 1 := ⟨length - 1, by omega⟩
    obtain ⟨s, hs⟩ : ∃ s, T above = .ok s := by
      rename_i hrest
      obtain ⟨s, hs⟩ := hrest.found
      exact ⟨s, LoadTable.types_eq_some.mp hs⟩
    have hless := hrank.above hview ht above (List.mem_append_left _ (by simp [hnext]))
    rw [chain, if_neg (by simpa using hbelow)]
    refine World.gives_bind (hview.exposed_gives h hrank ht (hdepth _)) ?_
    rw [superclass?, hnext]
    refine World.gives_bind (World.gives_bind (supertype_found h hs _ .superclass)
      World.gives_pure) ?_
    exact World.gives_bind (ih hs (by omega)) World.gives_pure

end Gives

section Alike

variable {ι : Type} {σ : ι → Type} {W : (i : ι) → World (σ i)} {T : LoadTable}
  {load : (i : ι) → String → EStateM Failure (σ i) TypeInfo} {rank : String → Nat}

theorem Walk.supertype_alike (h : ∀ i, (W i).Serves T (load i)) (name : String) (sub : TypeInfo)
    (role : SupertypeRole) :
    Alike (fun i => (W i).walk T) (fun i => supertype (load i) name sub role)
      fun t => T name = .ok t := by
  refine ⟨T.supertype name sub role, fun t ht => ?_, fun i => supertype_gives (h i) name sub role⟩
  unfold LoadTable.supertype at ht
  split at ht
  · rename_i hT
    rw [hT, ht]
  · split at ht <;> cases ht

theorem Walk.superclass?_alike (h : ∀ i, (W i).Serves T (load i)) (t : TypeInfo) :
    Alike (fun i => (W i).walk T) (fun i => superclass? (load i) t)
      (Option.Rel (fun name s => T name = .ok s) (superclassName? t)) := by
  unfold superclass?
  cases superclassName? t with
  | none => exact alike_pure .none
  | some name =>
    exact alike_bind (supertype_alike h name t .superclass) fun s hs => alike_pure (.some hs)

theorem Walk.inheritedFromSuperclass_alike (h : ∀ i, (W i).Serves T (load i)) {t : TypeInfo}
    {expose : (i : ι) → TypeInfo → Step (σ i) (List Method)}
    (habove : ∀ n ∈ parents t, ∀ s, T n = .ok s →
      Alike (fun i => (W i).walk T) (fun i => expose i s) (T.types.View n)) :
    Alike (fun i => (W i).walk T) (fun i => inheritedFromSuperclass (load i) (expose i) t)
      fun ms => ms = fromSuperclass t T.types.viewOf ∧
        ∀ name, superclassName? t = some name → T.types.View name (T.types.viewOf name) := by
  unfold inheritedFromSuperclass
  refine alike_bind (superclass?_alike h t) fun s? hs => ?_
  generalize hn : superclassName? t = n? at hs
  cases hs with
  | none =>
    refine alike_pure ⟨by simp [fromSuperclass, hn], fun name h => ?_⟩
    cases h
  | @some name s hs =>
    refine alike_bind (habove name (List.mem_append_left _ (by simp [hn])) s hs) fun vs hvs => ?_
    refine alike_pure ⟨?_, ?_⟩
    · simp [fromSuperclass, hn, hvs.viewOf_eq]
    · rintro _ ⟨⟩
      rwa [hvs.viewOf_eq]

theorem Walk.inheritedFromInterfaces_alike (h : ∀ i, (W i).Serves T (load i)) {t : TypeInfo}
    {expose : (i : ι) → TypeInfo → Step (σ i) (List Method)} (taken : List Slot)
    (habove : ∀ n ∈ parents t, ∀ s, T n = .ok s →
      Alike (fun i => (W i).walk T) (fun i => expose i s) (T.types.View n)) :
    Alike (fun i => (W i).walk T) (fun i => inheritedFromInterfaces (load i) (expose i) t taken)
      fun ms => ms = (t.interfaces.flatMap fun name =>
        inheritedFromInterface taken (T.types.viewOf name)) ∧
        ∀ name ∈ t.interfaces, T.types.View name (T.types.viewOf name) := by
  unfold inheritedFromInterfaces
  let R : String → List Method → Prop := fun name part =>
    part = inheritedFromInterface taken (T.types.viewOf name) ∧
      T.types.View name (T.types.viewOf name)
  refine alike_bind (alike_mapM (R := R) fun name hname => ?_) fun parts hparts =>
    alike_pure (TypeTable.flatten_of_forall₂ hparts)
  refine alike_bind (supertype_alike h name t .interface) fun s hs => ?_
  refine alike_bind (habove name (List.mem_append_right _ hname) s hs) fun vs hvs => ?_
  refine alike_pure ⟨?_, ?_⟩
  · rw [hvs.viewOf_eq]
  · rwa [hvs.viewOf_eq]

/-- The view of a type comes out the same in all worlds, at every depth beyond its rank. -/
theorem Walk.exposed_alike (h : ∀ i, (W i).Serves T (load i)) (hrank : T.Ranked rank)
    {name : String} {t : TypeInfo} (ht : T name = .ok t) {depth : ι → Nat}
    (hdepth : ∀ i, rank name < depth i) :
    Alike (fun i => (W i).walk T) (fun i => exposed (load i) (depth i) t)
      (T.types.View name) := by
  induction hr : rank name using Nat.strong_induction_on generalizing name t depth with
  | _ r ih =>
    subst hr
    by_cases hview : ∃ ms, T.types.View name ms
    · obtain ⟨ms, hms⟩ := hview
      exact ⟨.ok ms, fun _ hb => Except.ok.inj hb ▸ hms,
        fun i => hms.exposed_gives (h i).offers hrank.ranksViews ht (hdepth i)⟩
    obtain ⟨lower, rfl⟩ : ∃ lower : ι → Nat, depth = fun i => lower i + 1 :=
      ⟨fun i => depth i - 1, funext fun i => (Nat.sub_add_cancel (Nat.zero_lt_of_lt (hdepth i))).symm⟩
    have hexpose : ∀ n ∈ parents t, ∀ s, T n = .ok s →
        Alike (fun i => (W i).walk T) (fun i => exposed (load i) (lower i) s)
          (T.types.View n) := by
      intro n hn s hs
      have hless := hrank.above ht n hn
      exact ih (rank n) hless hs (fun i => by have : rank name < lower i + 1 := hdepth i; omega) rfl
    have hrest : Alike (fun i => (W i).walk T) (fun i => do
        let fromSuperclass ← inheritedFromSuperclass (load i) (exposed (load i) (lower i)) t
        let taken := t.methods.map Method.slot ++ fromSuperclass.map Method.slot
        let fromInterfaces ← inheritedFromInterfaces (load i) (exposed (load i) (lower i)) t taken
        let methods := ownPublic t ++ fromSuperclass ++ fromInterfaces
        modify fun w => { w with views := (t.name, methods) :: w.views }
        return methods) (T.types.View name) := by
      refine alike_bind (inheritedFromSuperclass_alike h hexpose) fun fs ⟨hfs, hs⟩ => ?_
      refine alike_bind (inheritedFromInterfaces_alike h _ hexpose) fun fi ⟨hfi, hi⟩ => ?_
      -- With all its parents, the type would have a view as well.
      refine absurd ⟨_, TypeTable.View.intro T.types.viewOf (LoadTable.types_eq_some.mpr ht) ?_⟩
        hview
      intro n hn
      rcases List.mem_append.mp hn with hn | hn
      · exact hs n (Option.mem_toList.mp hn)
      · exact hi n hn
    obtain ⟨v, hv, hgives⟩ := hrest
    refine ⟨v, hv, fun i => ?_⟩
    dsimp only
    unfold exposed
    refine World.gives_get_bind fun w hw => ?_
    split
    · rename_i methods hmethods
      obtain ⟨l₁, l₂, hviews, -⟩ := List.lookup_eq_some_iff.mp hmethods
      have hmem : (t.name, methods) ∈ w.views := by simp [hviews]
      exact absurd ⟨methods, hrank.name_eq ht ▸ hw.views _ hmem⟩ hview
    · exact hgives i

/-! ## Levels -/

theorem Walk.chain_alike (h : ∀ i, (W i).Serves T (load i)) (hrank : T.Ranked rank)
    {name : String} {t : TypeInfo} (ht : T name = .ok t) {depth length : ι → Nat}
    (hdepth : ∀ i n, rank n < depth i) (hlength : ∀ i, rank name < length i) :
    Alike (fun i => (W i).walk T) (fun i => chain (load i) (depth i) (length i) t)
      (T.types.Chain name) := by
  induction hr : rank name using Nat.strong_induction_on generalizing name t length with
  | _ r ih =>
    subst hr
    obtain ⟨lower, rfl⟩ : ∃ lower : ι → Nat, length = fun i => lower i + 1 :=
      ⟨fun i => length i - 1,
        funext fun i => (Nat.sub_add_cancel (Nat.zero_lt_of_lt (hlength i))).symm⟩
    have hfound := LoadTable.types_eq_some.mpr ht
    unfold chain
    by_cases hobject : t.name = objectName
    · have : (t.name == objectName) = true := by simpa using hobject
      simp only [this, if_true]
      exact alike_pure (.object hfound hobject)
    · have : (t.name == objectName) = false := by simpa using hobject
      simp only [this, Bool.false_eq_true, if_false]
      refine alike_bind (exposed_alike h hrank ht fun i => hdepth i name) fun ms hms => ?_
      refine alike_bind (superclass?_alike h t) fun s? hs => ?_
      generalize hn : superclassName? t = n? at hs
      cases hs with
      | none => exact alike_pure (.top hfound hobject hms hn)
      | @some above s hs =>
        have hless := hrank.above ht above (List.mem_append_left _ (by simp [hn]))
        have hrest : Alike (fun i => (W i).walk T)
            (fun i => chain (load i) (depth i) (lower i) s) (T.types.Chain above) :=
          ih (rank above) hless hs
            (fun i => by have : rank name < lower i + 1 := hlength i; omega) rfl
        exact alike_bind hrest fun levels hlevels =>
          alike_pure (.step hfound hobject hms hn hlevels)

theorem Walk.levels_alike (h : ∀ i, (W i).Serves T (load i)) (hrank : T.Ranked rank)
    {name : String} {t : TypeInfo} (ht : T name = .ok t) {depth : ι → Nat}
    (hdepth : ∀ i n, rank n < depth i) :
    Alike (fun i => (W i).walk T) (fun i => levels (load i) (depth i) t)
      (T.types.Chain name) := by
  unfold levels
  cases t.isPrimitive with
  | true => exact alike_throw _
  | false => exact chain_alike h hrank ht hdepth fun i => hdepth i name

end Alike

/-! ## Resolutions -/

/-- A supply in a world: loading and comparing give what `T` and `rel` say, reports pass, and the
depth of a search exceeds every rank. -/
structure Run.World.Supplies {σ : Type} (W : World σ) (T : LoadTable)
    (rel : String → String → Except Failure Bool) (rank : String → Nat)
    (supply : TypeSupply σ) : Prop where
  serves : W.Serves T supply.load
  compared : ∀ target source, W.Gives (supply.isAssignable target source) (rel target source)
  reported : ∀ e, W.Gives (supply.report e) (.ok ())
  deep : ∀ s, W.inv s → ∀ name, rank name < supply.depth s

section Resolutions

variable {ι σ : Type} {T : LoadTable} {rel : String → String → Except Failure Bool}
  {rank : String → Nat}

namespace Resolution

section Moves

variable {R : σ → σ → Prop} [Std.Refl R] [IsTrans σ R]
  (assignable : String → String → EStateM Failure σ Bool) [∀ a b, Moves R (assignable a b)]

instance (concrete required : Method) : Moves R (suppresses assignable concrete required) := by
  unfold suppresses
  infer_instance

instance (required : Method) (cs : List Method) : Moves R (anySuppresses assignable required cs) := by
  induction cs with
  | nil => exact inferInstanceAs (Moves R (pure _))
  | cons c cs ih =>
    unfold anySuppresses
    infer_instance

instance (concrete : List (Slot × List Method)) (methods : List (Slot × Method)) :
    Moves R (decide assignable concrete methods) := by
  induction methods with
  | nil => exact inferInstanceAs (Moves R (pure _))
  | cons p ps ih =>
    unfold decide
    infer_instance

instance (t : TypeInfo) (levels : List Level) : Moves R (resolve t levels assignable) := by
  unfold resolve
  split
  · infer_instance
  · split <;> infer_instance

end Moves

variable {W : World σ} {assignable : String → String → EStateM Failure σ Bool}
  {good : String → Prop}

section Unless

variable {lost : σ → Prop} [∀ a b, Moves (Stays lost) (assignable a b)]
  (h : ∀ a b, good b → W.GivesUnless lost (assignable a b) (rel a b))
include h

theorem decide_unless {concrete : List (Slot × List Method)}
    (hconcrete : ∀ slot, ∀ c ∈ (Keyed.get? slot concrete).getD [], good c.returns)
    (methods : List (Slot × Method)) :
    W.GivesUnless lost (decide assignable concrete methods) (decide rel concrete methods) := by
  have hpure : ∀ {α : Type} (a : α), W.GivesUnless lost (pure a) (.ok a) :=
    fun _ => World.gives_pure.unless lost
  have hsuppresses : ∀ c required, good c.returns →
      W.GivesUnless lost (suppresses assignable c required) (suppresses rel c required) := by
    intro c required hc
    unfold suppresses
    split
    · exact h _ _ hc
    · exact hpure _
  have hany : ∀ required cs, (∀ c ∈ cs, good c.returns) →
      W.GivesUnless lost (anySuppresses assignable required cs) (anySuppresses rel required cs) := by
    intro required cs hcs
    induction cs with
    | nil => exact hpure _
    | cons c cs ih =>
      obtain ⟨hc, hcs⟩ := List.forall_mem_cons.mp hcs
      unfold anySuppresses
      refine World.givesUnless_bind_of (hsuppresses c required hc) fun found _ => ?_
      cases found with
      | true => exact hpure _
      | false => exact ih hcs
  induction methods with
  | nil => exact hpure _
  | cons p ps ih =>
    unfold decide
    refine World.givesUnless_bind_of (hany p.2 _ (hconcrete p.1)) fun implemented _ => ?_
    exact World.givesUnless_bind_of ih fun others _ => hpure _

/-- A resolution over given levels comes to what the comparisons make of it. Only results of their
methods are compared with others. -/
theorem resolve_unless (t : TypeInfo) {levels : List Level}
    (hlevels : ∀ m ∈ walked levels, good m.returns) :
    W.GivesUnless lost (resolve t levels assignable) (resolve t levels rel) := by
  have hconcrete : ∀ slot, ∀ c ∈ (Keyed.get? slot (collectConcrete levels)).getD [],
      good c.returns := by
    intro slot c hc
    rw [get?_collectConcrete] at hc
    exact hlevels c (mem_concreteOf.mp hc).1
  unfold resolve
  split
  · exact World.gives_throw.unless lost
  split
  · exact World.gives_throw.unless lost
  exact World.givesUnless_bind_of (decide_unless h hconcrete _) fun decisions _ =>
    World.gives_pure.unless lost

end Unless

theorem resolve_gives (h : ∀ a b, good b → W.Gives (assignable a b) (rel a b)) (t : TypeInfo)
    {levels : List Level} (hlevels : ∀ m ∈ walked levels, good m.returns) :
    W.Gives (resolve t levels assignable) (resolve t levels rel) :=
  World.gives_of_unless (resolve_unless (fun a b hb => (h a b hb).unless _) t hlevels)

end Resolution

variable {W : ι → World σ} {supply : TypeSupply σ}

namespace TypeSupply

instance {R : σ → σ → Prop} [Std.Refl R] [IsTrans σ R] [∀ e, Moves R (supply.report e)]
    (slots : List Slot) : Moves R (supply.reportSlots slots) := by
  induction slots with
  | nil => exact inferInstanceAs (Moves R (pure _))
  | cons slot slots ih =>
    unfold reportSlots
    infer_instance

theorem levels_fixed (h : ∀ i, (W i).Supplies T rel rank supply) (hrank : T.Ranked rank)
    {name : String} {t : TypeInfo} (ht : T name = .ok t) :
    Alike (fun i => (W i).walk T) (fun _ => supply.levels t) (T.types.Chain name) := by
  -- The depth may differ from state to state, so each state is a world of its own here.
  let State := (i : ι) × {w : Walk σ // ((W i).walk T).inv w}
  have hwalk : Alike (fun s : State => (W s.1).walk T)
      (fun s => Walk.levels supply.load (supply.depth s.2.1.types) t)
      (T.types.Chain name) :=
    Walk.levels_alike (fun s : State => (h s.1).serves) hrank ht
      fun s n => (h s.1).deep _ s.2.2.types n
  obtain ⟨v, hv, hgives⟩ := hwalk
  refine ⟨v, hv, fun i => ?_⟩
  unfold levels
  refine World.gives_get_bind fun w hw => ?_
  have hlevels := hgives ⟨i, w, hw⟩
  cases v with
  | error f => exact World.gives_bind_error hlevels
  | ok found =>
    refine World.gives_bind hlevels ?_
    exact World.gives_bind (Walk.lift_gives ((h i).reported _)) World.gives_pure

/-- The resolution of a stub comes out the same in all worlds. -/
theorem resolve_fixed (h : ∀ i, (W i).Supplies T rel rank supply) (hrank : T.Ranked rank)
    (name : String) : Fixed (fun i => (W i).walk T) fun _ => supply.resolve name := by
  have hload : Alike (fun i => (W i).walk T) (fun _ => Walk.lift (supply.load name))
      fun t => T name = .ok t :=
    ⟨T name, fun _ ht => ht, fun i => Walk.lift_gives ((h i).serves.gives name)⟩
  have hreports : ∀ slots, Fixed (fun i => (W i).walk T)
      fun _ => Walk.lift (supply.reportSlots slots) := by
    intro slots
    refine fixed_of_gives (.ok ()) fun i => Walk.lift_gives ?_
    induction slots with
    | nil => exact World.gives_pure
    | cons slot slots ih => exact World.gives_bind ((h i).reported _) ih
  unfold resolve
  refine alike_bind hload fun t ht => ?_
  split
  · exact alike_throw _
  refine alike_bind (levels_fixed h hrank ht) fun found _ => ?_
  have hresolved : Fixed (fun i => (W i).walk T) fun _ =>
      Resolution.resolve t found fun a b => Walk.lift (supply.isAssignable a b) :=
    fixed_of_gives _ fun i => by
      have hcompared : ∀ a b, True → ((W i).walk T).Gives (Walk.lift (supply.isAssignable a b))
          (rel a b) := fun a b _ => Walk.lift_gives ((h i).compared a b)
      exact Resolution.resolve_gives hcompared t fun _ _ => trivial
  refine fixed_bind hresolved fun r => ?_
  exact fixed_bind (hreports _) fun _ => fixed_pure _

end TypeSupply

end Resolutions

end StubWriter
