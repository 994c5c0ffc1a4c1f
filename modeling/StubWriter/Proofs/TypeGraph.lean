import Mathlib.Data.List.Infix
import Mathlib.Data.List.Nodup
import Mathlib.Data.List.Perm.Subperm
import Mathlib.Logic.Relation
import StubWriter.TypeGraph

/-!
# The graph of subtypes as a relation

What a graph says of a name are its type and the targets of its edges. Adding a type changes nothing
but these two of its name, and the search along edges finds what the edges lead to.

* `get?_addType`, `mem_targets_addType`: what adding a type does to these views.
* `Bears`: graphs all of whose types have a property, and `Bears.addType`.
* `mem_ancestors`: the ancestors of a name are the other names that its edges lead to.
* `isAssignableUpTo_eq`: assignability is a matter of the ancestors of names that are no arrays.
-/

namespace StubWriter.TypeGraph

variable {g : TypeGraph}

/-! ## Adding types -/

theorem node?_touch (g : TypeGraph) (n m : String) :
    (g.touch n).node? m =
      if g.hasNode n = false ∧ m = n then some ⟨n, none, none, []⟩ else g.node? m := by
  unfold touch
  split
  · rename_i h
    simp [h]
  · rename_i h
    have hn : g.node? n = none := by simpa [hasNode] using h
    by_cases hm : m = n
    · subst hm
      have hnil : List.find? (fun x => x.name == m) g.nodes = none := hn
      simp [node?, hasNode, hnil]
    · have hne : (n == m) = false := by simpa using Ne.symm hm
      simp [node?, hm, hne]

theorem node?_modify (g : TypeGraph) (n m : String) (f : GraphNode → GraphNode)
    (hf : ∀ x, (f x).name = x.name) :
    (g.modify n f).node? m = (g.node? m).map fun x => if m = n then f x else x := by
  unfold modify node?
  dsimp only
  induction g.nodes with
  | nil => rfl
  | cons x xs ih =>
    have hname : (if x.name == n then f x else x).name = x.name := by
      split
      · exact hf x
      · rfl
    rw [List.map_cons, List.find?_cons, List.find?_cons, hname]
    by_cases hx : x.name = m
    · have : (x.name == m) = true := by simpa using hx
      rw [this]
      simp [hx]
    · have : (x.name == m) = false := by simpa using hx
      rw [this]
      exact ih

theorem get?_touch (g : TypeGraph) (n m : String) : (g.touch n).get? m = g.get? m := by
  unfold get?
  rw [node?_touch]
  split
  · rename_i h
    obtain ⟨hnode, rfl⟩ := h
    have : g.node? m = none := by simpa [hasNode] using hnode
    rw [this]
    rfl
  · rfl

theorem targets_touch (g : TypeGraph) (n m : String) : (g.touch n).targets m = g.targets m := by
  unfold targets
  rw [node?_touch]
  split
  · rename_i h
    obtain ⟨hnode, rfl⟩ := h
    have : g.node? m = none := by simpa [hasNode] using hnode
    rw [this]
    rfl
  · rfl

theorem hasNode_touch (g : TypeGraph) (n m : String) :
    (g.touch n).hasNode m = true ↔ m = n ∨ g.hasNode m = true := by
  unfold hasNode
  rw [node?_touch]
  by_cases hm : m = n
  · subst hm
    cases h : g.node? m <;> simp [hasNode, h]
  · simp [hm]

theorem node?_addEdge (g : TypeGraph) (s t m : String) (label : EdgeLabel) :
    (g.addEdge s t label).node? m = (((g.touch t).touch s).node? m).map fun x =>
      if m = s then { x with edges := Keyed.set t label x.edges } else x :=
  node?_modify _ s m (fun x => { x with edges := Keyed.set t label x.edges }) fun _ => rfl

theorem get?_addEdge (g : TypeGraph) (s t m : String) (label : EdgeLabel) :
    (g.addEdge s t label).get? m = g.get? m := by
  rw [get?, node?_addEdge, ← get?_touch g t, ← get?_touch (g.touch t) s, get?]
  cases ((g.touch t).touch s).node? m with
  | none => rfl
  | some x => by_cases hm : m = s <;> simp [hm]

theorem mem_targets_addEdge (g : TypeGraph) (s t m b : String) (label : EdgeLabel) :
    b ∈ (g.addEdge s t label).targets m ↔ b ∈ g.targets m ∨ m = s ∧ b = t := by
  have hset : ∀ edges : List (String × EdgeLabel),
      b ∈ (Keyed.set t label edges).map Prod.fst ↔ b ∈ edges.map Prod.fst ∨ b = t := by
    intro edges
    have hkeys := Keyed.keys_alter t (fun _ => label) edges
    change Keyed.keys (Keyed.set t label edges) = _ at hkeys
    change b ∈ Keyed.keys (Keyed.set t label edges) ↔ b ∈ Keyed.keys edges ∨ b = t
    rw [hkeys]
    split
    · rename_i ht
      exact ⟨Or.inl, fun h => h.elim id fun hb => hb ▸ ht⟩
    · simp
  have hsome : ∀ m, m = s → ∃ x, ((g.touch t).touch s).node? m = some x := by
    rintro m rfl
    have := (hasNode_touch (g.touch t) m m).mpr (.inl rfl)
    exact Option.isSome_iff_exists.mp this
  rw [← targets_touch g t m, ← targets_touch (g.touch t) s m]
  rw [targets, node?_addEdge, targets]
  by_cases hm : m = s
  · obtain ⟨x, hx⟩ := hsome m hm
    subst hm
    simp only [hx, Option.map_some, if_true, Option.getD_some, hset, true_and]
  · cases ((g.touch t).touch s).node? m <;> simp [hm]

theorem hasNode_addEdge (g : TypeGraph) (s t m : String) (label : EdgeLabel) :
    (g.addEdge s t label).hasNode m = true ↔ m = s ∨ m = t ∨ g.hasNode m = true := by
  have hmodify : (g.addEdge s t label).hasNode m = ((g.touch t).touch s).hasNode m := by
    rw [hasNode, node?_addEdge, hasNode, Option.isSome_map]
  rw [hmodify, hasNode_touch, hasNode_touch]

/-- The edges to the supertypes of one role. -/
theorem addEdges_views (s : String) (label : EdgeLabel) (names : List String) (g : TypeGraph) :
    let g' := names.foldl (fun g name => g.addEdge s name label) g
    (∀ m, g'.get? m = g.get? m) ∧
      (∀ m b, b ∈ g'.targets m ↔ b ∈ g.targets m ∨ m = s ∧ b ∈ names) ∧
      ∀ m, g.hasNode m = true ∨ m ∈ names → g'.hasNode m = true := by
  induction names generalizing g with
  | nil => simp
  | cons name names ih =>
    obtain ⟨hget, htargets, hnode⟩ := ih (g.addEdge s name label)
    refine ⟨fun m => ?_, fun m b => ?_, fun m hm => ?_⟩
    · exact (hget m).trans (get?_addEdge g s name m label)
    · rw [List.foldl_cons, htargets, mem_targets_addEdge, List.mem_cons]
      tauto
    · refine hnode m ?_
      rw [hasNode_addEdge]
      rw [List.mem_cons] at hm
      tauto

/-- All that adding a type does. -/
theorem addType_views (g : TypeGraph) (t : TypeInfo) :
    (∀ m, (g.addType t).get? m = if m = t.name then some t else g.get? m) ∧
      (∀ m b, b ∈ (g.addType t).targets m ↔
        b ∈ g.targets m ∨ m = t.name ∧ b ∈ t.supertypes) ∧
      ∀ m, g.hasNode m = true ∨ m ∈ t.supertypes → (g.addType t).hasNode m = true := by
  let loaded := (g.touch t.name).modify t.name fun n =>
    { n with kind := some t.kind, type := some t }
  have hloaded : ∀ m, loaded.node? m = ((g.touch t.name).node? m).map fun x =>
      if m = t.name then { x with kind := some t.kind, type := some t } else x :=
    fun m => node?_modify _ t.name m (fun x => { x with kind := some t.kind, type := some t })
      fun _ => rfl
  have hget : ∀ m, loaded.get? m = if m = t.name then some t else g.get? m := by
    intro m
    rw [← get?_touch g t.name m, get?, hloaded, get?]
    by_cases hm : m = t.name
    · obtain ⟨x, hx⟩ := Option.isSome_iff_exists.mp
        ((hasNode_touch g t.name m).mpr (.inl hm))
      rw [hx, Option.map_some, Option.bind_some, if_pos hm, if_pos hm]
    · cases (g.touch t.name).node? m <;> simp [hm]
  have htargets : ∀ m, loaded.targets m = g.targets m := by
    intro m
    rw [← targets_touch g t.name m, targets, hloaded, targets]
    cases (g.touch t.name).node? m with
    | none => rfl
    | some x => by_cases hm : m = t.name <;> simp [hm]
  have hnode : ∀ m, g.hasNode m = true → loaded.hasNode m = true := by
    intro m hm
    rw [hasNode, hloaded, Option.isSome_map]
    exact (hasNode_touch g t.name m).mpr (.inr hm)
  obtain ⟨hget₁, htargets₁, hnode₁⟩ :=
    addEdges_views t.name EdgeLabel.extends t.superclass?.toList loaded
  obtain ⟨hget₂, htargets₂, hnode₂⟩ := addEdges_views t.name EdgeLabel.implements t.interfaces
    (t.superclass?.toList.foldl (fun g name => g.addEdge t.name name EdgeLabel.extends) loaded)
  refine ⟨fun m => ?_, fun m b => ?_, fun m hm => ?_⟩
  · exact (hget₂ m).trans ((hget₁ m).trans (hget m))
  · refine (htargets₂ m b).trans ?_
    rw [htargets₁, htargets, TypeInfo.supertypes, List.mem_append]
    tauto
  · rw [TypeInfo.supertypes, List.mem_append] at hm
    refine hnode₂ m (hm.elim (fun h => .inl (hnode₁ m (.inl (hnode m h)))) fun h => ?_)
    exact h.elim (fun h => .inl (hnode₁ m (.inr h))) .inr

theorem get?_addType (g : TypeGraph) (t : TypeInfo) (m : String) :
    (g.addType t).get? m = if m = t.name then some t else g.get? m :=
  (addType_views g t).1 m

theorem mem_targets_addType (g : TypeGraph) (t : TypeInfo) (m b : String) :
    b ∈ (g.addType t).targets m ↔ b ∈ g.targets m ∨ m = t.name ∧ b ∈ t.supertypes :=
  (addType_views g t).2.1 m b

/-- A graph with a node for the target of each edge. -/
def Closed (g : TypeGraph) : Prop :=
  ∀ a b, b ∈ g.targets a → g.hasNode b = true

theorem closed_empty : empty.Closed :=
  fun _ _ hb => nomatch hb

theorem Closed.addType (h : g.Closed) (t : TypeInfo) : (g.addType t).Closed := by
  intro a b hb
  refine (addType_views g t).2.2 b ?_
  rcases (mem_targets_addType g t a b).mp hb with hb | ⟨-, hb⟩
  · exact .inl (h a b hb)
  · exact .inr hb

def Edge (g : TypeGraph) (a b : String) : Prop :=
  b ∈ g.targets a

/-- A graph all of whose types satisfy `R`, with edges to their supertypes and no others. -/
structure Bears (g : TypeGraph) (R : String → TypeInfo → Prop) : Prop where
  closed : g.Closed
  held : ∀ {name t}, g.get? name = some t → R name t
  edges : ∀ a b, g.Edge a b ↔ ∃ t, g.get? a = some t ∧ b ∈ t.supertypes

theorem bears_empty (R : String → TypeInfo → Prop) : empty.Bears R :=
  ⟨closed_empty, fun h => (nomatch h), fun _ _ => ⟨fun h => (nomatch h), fun ⟨_, h, _⟩ => nomatch h⟩⟩

theorem Bears.mono {R Q : String → TypeInfo → Prop} (h : g.Bears R)
    (hRQ : ∀ name t, R name t → Q name t) : g.Bears Q :=
  ⟨h.closed, fun ht => hRQ _ _ (h.held ht), h.edges⟩

/-- A type may be added more than once if its supertypes stay what they are. -/
theorem Bears.addType {R : String → TypeInfo → Prop} (h : g.Bears R)
    (hR : ∀ {name t t'}, R name t → R name t' → t.supertypes = t'.supertypes) {t : TypeInfo}
    (ht : R t.name t) : (g.addType t).Bears R := by
  refine ⟨h.closed.addType t, fun {name s} hs => ?_, fun a b => ?_⟩
  · rw [get?_addType] at hs
    split at hs
    · rename_i hname
      cases hs
      exact hname ▸ ht
    · exact h.held hs
  · rw [Edge, mem_targets_addType, get?_addType]
    change g.Edge a b ∨ _ ↔ _
    rw [h.edges]
    constructor
    · rintro (⟨s, hs, hb⟩ | ⟨rfl, hb⟩)
      · split
        · rename_i hname
          subst hname
          exact ⟨t, rfl, hR (h.held hs) ht ▸ hb⟩
        · exact ⟨s, hs, hb⟩
      · exact ⟨t, by rw [if_pos rfl], hb⟩
    · rintro ⟨s, hs, hb⟩
      split at hs
      · rename_i hname
        cases hs
        exact .inr ⟨hname, hb⟩
      · exact .inl ⟨s, hs, hb⟩

/-! ## Searching along edges -/

/-- What a search has found when it ends: all that was pending and what edges lead to from there,
behind what had been seen before. -/
structure Found (g : TypeGraph) (seen start found : List String) : Prop where
  before : seen <+: found
  nodup : found.Nodup
  pending : ∀ a ∈ start, a ∈ found
  closed : ∀ a ∈ found, ∀ b, g.Edge a b → b ∈ found
  reached : ∀ b ∈ found, b ∈ seen ∨ ∃ a ∈ start, Relation.ReflTransGen g.Edge a b

theorem visit_found (hg : g.Closed) {names : List String}
    (hnames : ∀ b, g.hasNode b = true → b ∈ names) (fuel : Nat) (seen pending : List String)
    (hseen : seen.Nodup) (hseenNames : seen ⊆ names) (hpending : pending ⊆ names)
    (hedges : ∀ a ∈ seen, ∀ b, g.Edge a b → b ∈ seen ∨ b ∈ pending)
    (hfuel : names.length ≤ fuel + seen.length) :
    g.Found seen pending (g.visit fuel seen pending) := by
  fun_induction visit g fuel seen pending with
  | case1 fuel seen =>
    refine ⟨List.prefix_refl _, hseen, fun a ha => absurd ha List.not_mem_nil, ?_, ?_⟩
    · exact fun a ha b hab => (hedges a ha b hab).resolve_right List.not_mem_nil
    · exact fun b hb => .inl hb
  | case2 fuel seen name pending hname ih =>
    have hname : name ∈ seen := by simpa using hname
    have hfound := ih hseen hseenNames (fun a ha => hpending (List.mem_cons_of_mem _ ha))
      (fun a ha b hab => (hedges a ha b hab).elim .inl fun hb =>
        (List.mem_cons.mp hb).elim (fun h => .inl (h ▸ hname)) .inr) hfuel
    refine ⟨hfound.before, hfound.nodup, fun a ha => ?_, hfound.closed, fun b hb => ?_⟩
    · rcases List.mem_cons.mp ha with rfl | ha
      · exact hfound.before.subset hname
      · exact hfound.pending a ha
    · exact (hfound.reached b hb).imp_right fun ⟨a, ha, hab⟩ =>
        ⟨a, List.mem_cons_of_mem _ ha, hab⟩
  | case3 seen name pending hname =>
    -- A name that was not seen yet leaves room for itself.
    have hname : name ∉ seen := by simpa using hname
    have hsub : name :: seen ⊆ names :=
      List.cons_subset.mpr ⟨hpending List.mem_cons_self, hseenNames⟩
    have := (List.nodup_cons.mpr ⟨hname, hseen⟩).subperm hsub |>.length_le
    simp at this hfuel
    omega
  | case4 seen name pending hname fuel ih =>
    have hname : name ∉ seen := by simpa using hname
    have hnameNames : name ∈ names := hpending List.mem_cons_self
    have hfound := ih
      (List.nodup_append.mpr ⟨hseen, List.nodup_singleton _, fun a ha b hb => by
        rw [List.mem_singleton.mp hb]
        rintro rfl
        exact hname ha⟩)
      (List.append_subset.mpr ⟨hseenNames, by simpa using hnameNames⟩)
      (List.append_subset.mpr ⟨fun b hb => hnames b (hg name b hb),
        fun a ha => hpending (List.mem_cons_of_mem _ ha)⟩)
      (by
        intro a ha b hab
        rcases List.mem_append.mp ha with ha | ha
        · rcases hedges a ha b hab with hb | hb
          · exact .inl (List.mem_append_left _ hb)
          · rcases List.mem_cons.mp hb with rfl | hb
            · exact .inl (by simp)
            · exact .inr (List.mem_append_right _ hb)
        · rw [List.mem_singleton.mp ha] at hab
          exact .inr (List.mem_append_left _ hab))
      (by simp; omega)
    refine ⟨(List.prefix_append _ _).trans hfound.before, hfound.nodup, fun a ha => ?_,
      hfound.closed, fun b hb => ?_⟩
    · rcases List.mem_cons.mp ha with rfl | ha
      · exact hfound.before.subset (by simp)
      · exact hfound.pending a (List.mem_append_right _ ha)
    · rcases hfound.reached b hb with hb | ⟨a, ha, hab⟩
      · rcases List.mem_append.mp hb with hb | hb
        · exact .inl hb
        · rw [List.mem_singleton.mp hb]
          exact .inr ⟨name, List.mem_cons_self, .refl⟩
      · rcases List.mem_append.mp ha with ha | ha
        · exact .inr ⟨name, List.mem_cons_self, .head ha hab⟩
        · exact .inr ⟨a, List.mem_cons_of_mem _ ha, hab⟩

/-- The ancestors of a name are the other names that its edges lead to. -/
theorem mem_ancestors (hg : g.Closed) (a b : String) :
    b ∈ g.ancestors a ↔ b ≠ a ∧ Relation.ReflTransGen g.Edge a b := by
  have hnames : ∀ b, g.hasNode b = true → b ∈ a :: g.nodes.map (·.name) := by
    intro b hb
    obtain ⟨x, hx⟩ := Option.isSome_iff_exists.mp hb
    have hname : x.name = b := by simpa using List.find?_some hx
    exact List.mem_cons_of_mem _ (List.mem_map.mpr ⟨x, List.mem_of_find?_eq_some hx, hname⟩)
  have hfound : g.Found [a] (g.targets a) (g.visit g.nodes.length [a] (g.targets a)) :=
    visit_found hg hnames _ [a] (g.targets a) (List.nodup_singleton a) (by simp)
      (fun b hb => hnames b (hg a b hb))
      (fun c hc b hcb => .inr (by rwa [List.mem_singleton.mp hc] at hcb)) (by simp)
  have hvisit : g.visit (g.nodes.length + 1) [] [a] =
      g.visit g.nodes.length [a] (g.targets a) := by
    rw [visit]
    simp
  obtain ⟨rest, hrest⟩ := hfound.before
  rw [ancestors, hvisit, ← hrest, List.singleton_append, List.tail_cons]
  have hnodup := hfound.nodup
  rw [← hrest, List.singleton_append, List.nodup_cons] at hnodup
  have hmem : ∀ b, b ∈ g.visit g.nodes.length [a] (g.targets a) ↔ b = a ∨ b ∈ rest := by
    intro b
    rw [← hrest, List.singleton_append, List.mem_cons]
  constructor
  · intro hb
    refine ⟨fun h => hnodup.1 (h ▸ hb), ?_⟩
    rcases hfound.reached b ((hmem b).mpr (.inr hb)) with hb | ⟨c, hac, hcb⟩
    · rw [List.mem_singleton.mp hb]
    · exact .head hac hcb
  · rintro ⟨hne, hab⟩
    have hall : b = a ∨ b ∈ rest := by
      induction hab with
      | refl => exact .inl rfl
      | @tail c b hac hcb ih =>
        by_cases hca : c = a
        · subst hca
          exact (hmem b).mp (hfound.pending b hcb)
        · exact (hmem b).mp (hfound.closed c ((hmem c).mpr (ih hca)) b hcb)
    exact hall.resolve_left hne

/-! ## Assignability -/

/-- Assignability by any relation between the names of types that are no arrays. -/
def isAssignableBy (above : String → String → Bool) : Nat → String → String → Bool
  | 0, _, _ => false
  | depth + 1, target, source =>
    if target == source then true
    else if isPrimitiveName target || isPrimitiveName source then false
    else if target == objectName then true
    else
      match element? source, element? target with
      | some s, some t =>
        if isPrimitiveName s || isPrimitiveName t then false
        else isAssignableBy above depth t s
      | some _, none => arraySupertypes.contains target
      | none, some _ => false
      | none, none => above source target

theorem isAssignableUpTo_eq (g : TypeGraph) (depth : Nat) (target source : String) :
    g.isAssignableUpTo depth target source =
      isAssignableBy (fun s t => (g.ancestors s).contains t) depth target source := by
  induction depth generalizing target source with
  | zero => rfl
  | succ depth ih =>
    unfold isAssignableUpTo isAssignableBy
    have hbelow : g.isAssignableUpTo depth =
        isAssignableBy (fun s t => (g.ancestors s).contains t) depth :=
      funext fun t => funext fun s => ih t s
    cases element? source with
    | none => cases element? target <;> rfl
    | some s =>
      cases element? target with
      | none => rfl
      | some t => exact hbelow ▸ rfl

/-- A name, and with an array type the type of its elements, down to those that are no arrays. -/
inductive ElementOf : String → String → Prop
  | self (name : String) : ElementOf name name
  | element {array inner name : String} (he : element? array = some inner)
      (h : ElementOf inner name) : ElementOf array name

/-- Only what stands above the elements of the assigned type matters. -/
theorem isAssignableBy_congr {above above' : String → String → Bool} {depth : Nat}
    {target source : String} (h : ∀ s, ElementOf source s → ∀ t, above s t = above' s t) :
    isAssignableBy above depth target source = isAssignableBy above' depth target source := by
  induction depth generalizing target source with
  | zero => rfl
  | succ depth ih =>
    unfold isAssignableBy
    rw [h source (.self source)]
    cases hs : element? source with
    | none => cases element? target <;> rfl
    | some s =>
      cases element? target with
      | none => rfl
      | some t =>
        dsimp only
        rw [ih fun u hu => h u (.element hs hu)]

/-- The more stands above others, the more can be assigned. -/
theorem isAssignableBy_mono {above above' : String → String → Bool}
    (h : ∀ s t, above s t = true → above' s t = true) {depth : Nat} {target source : String}
    (hassignable : isAssignableBy above depth target source = true) :
    isAssignableBy above' depth target source = true := by
  induction depth generalizing target source with
  | zero => cases hassignable
  | succ depth ih =>
    unfold isAssignableBy at hassignable ⊢
    split
    · rfl
    rename_i hne
    rw [if_neg hne] at hassignable
    split
    · rename_i hprimitive
      rw [if_pos hprimitive] at hassignable
      cases hassignable
    rename_i hprimitive
    rw [if_neg hprimitive] at hassignable
    split
    · rfl
    rename_i hobject
    rw [if_neg hobject] at hassignable
    cases hs : element? source with
    | none =>
      cases ht : element? target with
      | none =>
        rw [hs, ht] at hassignable
        exact h _ _ hassignable
      | some t =>
        rw [hs, ht] at hassignable
        cases hassignable
    | some s =>
      cases ht : element? target with
      | none =>
        rw [hs, ht] at hassignable
        exact hassignable
      | some t =>
        rw [hs, ht] at hassignable
        dsimp only at hassignable ⊢
        split
        · rename_i helement
          rw [if_pos helement] at hassignable
          cases hassignable
        · rename_i helement
          rw [if_neg helement] at hassignable
          exact ih hassignable

/-- Names of classes and interfaces are compared by the ancestors. -/
theorem isAssignable_name (g : TypeGraph) {target source : String} (hne : target ≠ source)
    (htarget : isPrimitiveName target = false ∧ element? target = none) (hobject : target ≠ objectName)
    (hsource : isPrimitiveName source = false ∧ element? source = none) :
    g.isAssignable target source = (g.ancestors source).contains target := by
  unfold isAssignable isAssignableUpTo
  simp [hne, hobject, htarget, hsource]

end StubWriter.TypeGraph
