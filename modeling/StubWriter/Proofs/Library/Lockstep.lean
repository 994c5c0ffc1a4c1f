import StubWriter.Library.Inspection
import StubWriter.Proofs.Hierarchy.Lockstep
import StubWriter.Proofs.Library.Growth
import StubWriter.Proofs.Library.Spelling

/-!
# Libraries in step

Two libraries, each with its roots and its files. If the files answer alike wherever they are asked
for good names, then loading, assignability and resolutions are in step, whatever was loaded before.

* `Comparison`: two libraries to compare, and `Comparison.Agrees`: their files answer alike.
* `Library.load_inStep`, `Library.isAssignable_inStep`: loading and assignability.
* `Comparison.Agrees.supply_inStep`: so the libraries supply types in step.
-/

namespace StubWriter

open Run Run.Link

/-! ## Graphs -/

/-- Nodes that say the same but for the places of their types. -/
structure GraphNode.Twin (N : Naming) (n n' : GraphNode) : Prop where
  name : n'.name = n.name
  edges : n'.edges = n.edges
  type : Option.Rel (StubWriter.Twin N) n.type n'.type

namespace TypeGraph

/-- Graphs that say the same but for the places of their types. -/
def Twin (N : Naming) (g g' : TypeGraph) : Prop :=
  List.Forall₂ (GraphNode.Twin N) g.nodes g'.nodes

variable {N : Naming} {g g' : TypeGraph}

theorem Twin.node? (h : Twin N g g') (name : String) :
    Option.Rel (GraphNode.Twin N) (g.node? name) (g'.node? name) := by
  obtain ⟨nodes⟩ := g
  obtain ⟨nodes'⟩ := g'
  change List.Forall₂ (GraphNode.Twin N) nodes nodes' at h
  change Option.Rel _ (nodes.find? (·.name == name)) (nodes'.find? (·.name == name))
  induction h with
  | nil => exact .none
  | @cons n n' _ _ hn _ ih =>
    rw [List.find?_cons, List.find?_cons, hn.name]
    cases n.name == name with
    | true => exact .some hn
    | false => exact ih

theorem Twin.get? (h : Twin N g g') (name : String) :
    Option.Rel (StubWriter.Twin N) (g.get? name) (g'.get? name) := by
  have hnode := h.node? name
  unfold TypeGraph.get?
  generalize g.node? name = n?, g'.node? name = n?' at hnode
  cases hnode with
  | none => exact .none
  | some hn => exact hn.type

theorem Twin.contains (h : Twin N g g') (name : String) : g'.contains name = g.contains name := by
  have hget := h.get? name
  unfold TypeGraph.contains
  generalize g.get? name = t?, g'.get? name = t?' at hget
  cases hget <;> rfl

theorem Twin.hasNode (h : Twin N g g') (name : String) : g'.hasNode name = g.hasNode name := by
  have hnode := h.node? name
  unfold TypeGraph.hasNode
  generalize g.node? name = n?, g'.node? name = n?' at hnode
  cases hnode <;> rfl

theorem Twin.targets (h : Twin N g g') (name : String) : g'.targets name = g.targets name := by
  have hnode := h.node? name
  unfold TypeGraph.targets
  generalize g.node? name = n?, g'.node? name = n?' at hnode
  cases hnode with
  | none => rfl
  | some hn => simp only [Option.map_some, hn.edges]

theorem Twin.touch (h : Twin N g g') (name : String) : Twin N (g.touch name) (g'.touch name) := by
  unfold TypeGraph.touch
  rw [h.hasNode]
  split
  · exact h
  · exact List.rel_append h (.cons ⟨rfl, rfl, .none⟩ .nil)

theorem Twin.modify (h : Twin N g g') (name : String) {f f' : GraphNode → GraphNode}
    (hf : ∀ n n', GraphNode.Twin N n n' → GraphNode.Twin N (f n) (f' n')) :
    Twin N (g.modify name f) (g'.modify name f') := by
  refine List.rel_map (fun n n' hn => ?_) h
  rw [hn.name]
  split
  · exact hf n n' hn
  · exact hn

theorem Twin.addEdge (h : Twin N g g') (source target : String) (label : EdgeLabel) :
    Twin N (g.addEdge source target label) (g'.addEdge source target label) := by
  refine ((h.touch target).touch source).modify source fun n n' hn => ?_
  exact ⟨hn.name, congrArg (Keyed.set target label) hn.edges, hn.type⟩

theorem Twin.addEdges (names : List String) (source : String) (label : EdgeLabel) :
    ∀ {g g' : TypeGraph}, Twin N g g' →
      Twin N (names.foldl (fun g name => g.addEdge source name label) g)
        (names.foldl (fun g name => g.addEdge source name label) g') := by
  induction names with
  | nil => exact fun h => h
  | cons name names ih => exact fun h => ih (h.addEdge source name label)

theorem Twin.addType (h : Twin N g g') {t t' : TypeInfo} (ht : StubWriter.Twin N t t') :
    Twin N (g.addType t) (g'.addType t') := by
  have hloaded : Twin N
      ((g.touch t.name).modify t.name fun n => { n with kind := some t.kind, type := some t })
      ((g'.touch t.name).modify t.name fun n => { n with kind := some t.kind, type := some t' }) :=
    (h.touch t.name).modify t.name fun n n' hn => ⟨hn.name, hn.edges, .some ht⟩
  obtain ⟨place, rfl, -⟩ := ht.same
  exact Twin.addEdges _ _ _ (Twin.addEdges _ _ _ hloaded)

theorem Twin.visit (h : Twin N g g') (fuel : Nat) (seen pending : List String) :
    g'.visit fuel seen pending = g.visit fuel seen pending := by
  induction fuel, seen, pending using visit.induct g with
  | case1 fuel seen => rw [TypeGraph.visit, TypeGraph.visit]
  | case2 fuel seen name pending hseen ih =>
    rw [TypeGraph.visit.eq_def, TypeGraph.visit.eq_def g]
    dsimp only
    rw [if_pos hseen, if_pos hseen, ih]
  | case3 seen name pending hseen =>
    rw [TypeGraph.visit.eq_def, TypeGraph.visit.eq_def g]
    dsimp only
    rw [if_neg hseen, if_neg hseen]
  | case4 seen name pending hseen fuel ih =>
    rw [TypeGraph.visit.eq_def, TypeGraph.visit.eq_def g]
    dsimp only
    rw [if_neg hseen, if_neg hseen, h.targets, ih]

theorem Twin.isAssignable (h : Twin N g g') (target source : String) :
    g'.isAssignable target source = g.isAssignable target source := by
  have hancestors : ∀ name, g'.ancestors name = g.ancestors name := by
    intro name
    unfold ancestors
    rw [← List.Forall₂.length_eq h, h.visit]
  unfold TypeGraph.isAssignable
  rw [isAssignableUpTo_eq, isAssignableUpTo_eq]
  exact isAssignableBy_congr fun s _ t => by rw [hancestors]

end TypeGraph

/-! ## Comparisons -/

/-- Two libraries to compare: their roots and files, what belongs together in them, and the failures
of the first one that end the comparison. -/
structure Comparison where
  roots : List Path
  tree : FileTree
  roots' : List Path
  tree' : FileTree
  naming : Naming
  excused : Failure → Prop

/-- Sources of one unit that brings up good names only. -/
structure Source.Twin (N : Naming) (s s' : Source) : Prop where
  unit : s'.unit = s.unit
  origin : N.places s.origin s'.origin
  closed : ∀ u, s.unit = .ok u → u.Closed N.good

namespace Comparison

/-- Libraries that know the same but for the places of their types, and remember nothing wrong. -/
structure Linked (c : Comparison) (l l' : Library) : Prop where
  based : (Library.basedOn c.roots c.tree).inv l
  based' : (Library.basedOn c.roots' c.tree').inv l'
  graph : TypeGraph.Twin c.naming l.graph l'.graph
  missing : l'.missing = l.missing
  known : l'.known = l.known
  extent : l'.extent = l.extent ∨
    l.extent ≤ l'.extent ∧ ∀ name, c.excused (.endlessHierarchy name)

/-- Failures that are the same but for the place of a unit that cannot be read. -/
inductive Fails (c : Comparison) : Failure → Failure → Prop
  | same (f : Failure) : c.Fails f f
  | badUnit {place place' : String} (h : c.naming.places place place') (fault : UnitFault) :
    c.Fails (.badUnit place fault) (.badUnit place' fault)

def link (c : Comparison) : Link Library Library where
  states := c.Linked
  failures := c.Fails
  excused := c.excused

/-- Roots that have a file of a name alike. -/
structure Alike (c : Comparison) (relative : String) (root root' : Path) : Prop where
  has : c.link.Meets Eq (Library.hasIn c.tree relative root) (Library.hasIn c.tree' relative root')
  text : Library.hasIn c.tree relative root = .ok true → c.link.Meets Eq
    (Library.textIn c.tree relative root) (Library.textIn c.tree' relative root')
  place : c.naming.places (toString (root / relative)) (toString (root' / relative))

/-- The roots answer alike when they are asked for good names, and the names that sources of good
names bring up are good. -/
structure Agrees (c : Comparison) : Prop where
  closed : ∀ n, c.naming.good n → ∀ s, Library.sourceIn c.roots c.tree n = .ok (some s) →
    ∀ u, s.unit = .ok u → u.Closed c.naming.good
  element : ∀ n, c.naming.good n → c.naming.good (Library.elementName n)
  places : ∀ place, c.naming.places place place
  excused : ∀ f, c.excused f → f.isNotFound = false
  files : ∀ n, c.naming.good n → ∀ relative ∈ Library.candidates n,
    List.Forall₂ (c.Alike relative) c.roots c.roots'

variable {c : Comparison}

theorem fair (h : ∀ f, c.excused f → f.isNotFound = false) : c.link.Fair where
  refl := .same
  isNotFound f g hfg := by cases hfg <;> rfl
  excused := h

theorem Agrees.fair (h : c.Agrees) : c.link.Fair :=
  Comparison.fair h.excused

/-! ## Files -/

theorem anyIn_meets {relative : String} {roots roots' : List Path}
    (h : List.Forall₂ (c.Alike relative) roots roots') : c.link.Meets Eq
      (Library.anyIn c.tree relative roots) (Library.anyIn c.tree' relative roots') := by
  induction h with
  | nil => exact meets_ok rfl
  | cons hroot _ ih =>
    refine meets_bind hroot.has ?_
    rintro has _ - rfl
    cases has with
    | true => exact meets_ok rfl
    | false => exact ih

theorem firstIn_meets {places places' : List (String × Path)}
    (h : List.Forall₂ (fun p p' => p.1 = p'.1 ∧ c.Alike p.1 p.2 p'.2) places places') :
    c.link.Meets (Option.Rel fun s s' : Source => s'.unit = s.unit ∧ c.naming.places s.origin s'.origin)
      (Library.firstIn c.tree places) (Library.firstIn c.tree' places') := by
  induction h with
  | nil => exact meets_ok .none
  | @cons p p' _ _ hp _ ih =>
    obtain ⟨relative, root⟩ := p
    obtain ⟨_, root'⟩ := p'
    obtain ⟨rfl, hroot⟩ := hp
    refine meets_bind hroot.has ?_
    rintro has _ hhas rfl
    cases has with
    | false => exact ih
    | true =>
      refine meets_bind (hroot.text hhas) ?_
      rintro text _ - rfl
      exact meets_ok (.some ⟨rfl, hroot.place⟩)

section Agrees

variable (h : c.Agrees) {name : String} (hname : c.naming.good name)
include h hname

theorem Agrees.own : c.link.Meets Eq (Library.anyIn c.tree (Library.ownFile name) c.roots)
    (Library.anyIn c.tree' (Library.ownFile name) c.roots') := by
  refine anyIn_meets (h.files name hname _ (List.mem_map.mpr ⟨0, ?_, ?_⟩))
  · exact List.mem_range.mpr (List.length_pos_iff.mpr (splitText_ne_nil '.' name))
  · rw [Nat.sub_zero, List.take_length]
    rfl

theorem Agrees.source : c.link.Meets (Option.Rel (Source.Twin c.naming))
    (Library.sourceIn c.roots c.tree name) (Library.sourceIn c.roots' c.tree' name) := by
  have hplaces : ∀ relatives ⊆ Library.candidates name,
      List.Forall₂ (fun p p' => p.1 = p'.1 ∧ c.Alike p.1 p.2 p'.2)
        (relatives.flatMap fun relative => c.roots.map (relative, ·))
        (relatives.flatMap fun relative => c.roots'.map (relative, ·)) := by
    intro relatives hrelatives
    induction relatives with
    | nil => exact .nil
    | cons relative rest ih =>
      obtain ⟨hrelative, hrest⟩ := List.cons_subset.mp hrelatives
      have hroots := h.files name hname relative hrelative
      exact List.rel_append (List.rel_map (fun _ _ hroot => ⟨rfl, hroot⟩) hroots) (ih hrest)
  have hsame : c.link.Meets
      (Option.Rel fun s s' : Source => s'.unit = s.unit ∧ c.naming.places s.origin s'.origin)
      (Library.sourceIn c.roots c.tree name) (Library.sourceIn c.roots' c.tree' name) := by
    refine meets_bind (firstIn_meets (hplaces _ (List.Subset.refl _))) ?_
    rintro source? source?' - hsource
    cases hsource with
    | some hs => exact meets_ok (.some hs)
    | none =>
      cases Platform.unit? name with
      | none => exact meets_ok .none
      | some u => exact meets_ok (.some ⟨rfl, h.places _⟩)
  refine hsame.imp_right fun hmeets => hmeets.mono fun s? s?' hfound hs => ?_
  cases hs with
  | none => exact .none
  | some hs => exact .some ⟨hs.1, hs.2, h.closed name hname _ hfound⟩

end Agrees

theorem Linked.recalls {l l' m m' : Library} (h : c.Linked l l') (hl : l.Recalls m)
    (hl' : l'.Recalls m') : c.Linked m m' where
  based := hl.based h.based
  based' := hl'.based h.based'
  graph := hl.graph.symm ▸ hl'.graph.symm ▸ h.graph
  missing := hl'.missing.trans (h.missing.trans hl.missing.symm)
  known := hl'.known.trans (h.known.trans hl.known.symm)
  extent := by
    rw [hl.extent, hl'.extent]
    exact h.extent

end Comparison

namespace Library

variable {c : Comparison}

/-- Searches are in step if they come to outcomes that belong together. -/
theorem inStep_of_recalls {α β : Type} {x : Lookup α} {y : Lookup β} [Moves Recalls x]
    [Moves Recalls y] {V : α → β → Prop}
    (h : ∀ l l', c.Linked l l' → c.link.Meets V (outcome (x l)) (outcome (y l'))) :
    c.link.InStep x y V := by
  intro l l' hl
  refine (h l l' hl).imp_right fun hmeets => ⟨hmeets, ?_⟩
  exact Comparison.Linked.recalls hl (Moves.moves l) (Moves.moves l')

theorem report_inStep (e e' : Event) : c.link.InStep (report e) (report e') Eq :=
  inStep_of_recalls fun _ _ _ => meets_ok rfl

variable (h : c.Agrees)
include h

theorem exists?_inStep {name : String} (hname : c.naming.good name) :
    c.link.InStep (exists? name) (exists? name) Eq := by
  refine inStep_of_recalls fun l l' hl => ?_
  rw [exists?_outcome hl.based.2.2, exists?_outcome hl.based'.2.2]
  unfold existsAt
  rw [hl.graph.contains, hl.known, hl.missing, hl.based.1, hl.based.2.1, hl.based'.1, hl.based'.2.1]
  split
  · exact meets_ok rfl
  split
  · exact meets_ok rfl
  split
  · exact meets_ok rfl
  · exact h.own hname

theorem findSource?_inStep {name : String} (hname : c.naming.good name) :
    c.link.InStep (findSource? name) (findSource? name) (Option.Rel (Source.Twin c.naming)) := by
  have houtcome : ∀ {roots tree l}, (basedOn roots tree).inv l →
      outcome (findSource? name l) = sourceIn roots tree name :=
    fun hl => (findSource?_gives name _ hl).2.resolve_right fun ⟨_, hf, _⟩ => hf
  refine inStep_of_recalls fun l l' hl => ?_
  rw [houtcome hl.based, houtcome hl.based']
  exact h.source hname

/-! ## Descriptions -/

theorem resolveName_inStep {u : CompilationUnit} (hu : u.Closed c.naming.good) {n : List String}
    (hn : n ∈ u.names) : c.link.InStep ((Scope.ofUnit u).resolveName n)
      ((Scope.ofUnit u).resolveName n) Eq :=
  Scope.resolveName_of (inStep_compositional c.link) (fun f _ => inStep_throw (.same f))
    (fun e => report_inStep e e) fun a ha => exists?_inStep h (hu.asks n hn a ha)

theorem describe_inStep {u : CompilationUnit} (hu : u.Closed c.naming.good) {d : Declared}
    (hd : d ∈ u.declared) {place place' : String} (hplace : c.naming.places place place') :
    c.link.InStep (d.describe u.packageName place (Scope.ofUnit u))
      (d.describe u.packageName place' (Scope.ofUnit u)) (Twin c.naming) := by
  have hplaceless : ∀ place, d.describe u.packageName place (Scope.ofUnit u) =
      d.describe u.packageName "" (Scope.ofUnit u) >>= fun t =>
        pure { t with sourceFile := some place } := by
    intro place
    unfold Declared.describe
    simp only [bind_assoc, pure_bind]
  have hsame : c.link.InStep (d.describe u.packageName "" (Scope.ofUnit u))
      (d.describe u.packageName "" (Scope.ofUnit u)) Eq :=
    Declared.describe_of (inStep_compositional c.link) fun n hn =>
      resolveName_inStep h hu (Declared.names_subset hd hn)
  rw [hplaceless place, hplaceless place']
  refine inStep_bind (hsame.and_ok (hu.describes d hd "")) ?_
  rintro t _ ⟨rfl, hsuper, hreturns⟩
  exact inStep_pure ⟨⟨some place', rfl, .some hplace⟩, hsuper, hreturns⟩

/-! ## Loading -/

theorem registerAll_inStep {u : CompilationUnit} (hu : u.Closed c.naming.good) {place place' : String}
    (hplace : c.naming.places place place') {ds : List Declared} (hds : ds ⊆ u.declared) :
    c.link.InStep (registerAll u.packageName place (Scope.ofUnit u) ds)
      (registerAll u.packageName place' (Scope.ofUnit u) ds) Eq := by
  induction ds with
  | nil => exact inStep_pure rfl
  | cons d ds ih =>
    obtain ⟨hd, hds⟩ := List.cons_subset.mp hds
    refine inStep_bind (describe_inStep h hu hd hplace) fun t t' ht => ?_
    refine inStep_bind (inStep_modify fun l l' hl => ?_) fun _ _ _ => ih hds
    exact {
      based := basedOn_learned hl.based _ _
      based' := basedOn_learned hl.based' _ _
      graph := hl.graph.addType ht
      missing := congrArg (List.filter (· != d.fullName)) hl.missing
      known := hl.known
      extent := hl.extent }

theorem registerUnits_inStep {units : List (String × CompilationUnit)}
    (hunits : ∀ p ∈ units, p.2.Closed c.naming.good) :
    c.link.InStep (registerUnits units) (registerUnits units) Eq := by
  induction units with
  | nil => exact inStep_pure rfl
  | cons p ps ih =>
    obtain ⟨hp, hps⟩ := List.forall_mem_cons.mp hunits
    have hregister := registerAll_inStep h hp (h.places p.1) (List.Subset.refl p.2.declared)
    exact inStep_bind hregister fun _ _ _ => ih hps

theorem fetch_inStep {name : String} (hname : c.naming.good name) :
    c.link.InStep (fetch name) (fetch name) Eq := by
  refine inStep_bind (findSource?_inStep h hname) fun source? source?' hsource => ?_
  cases hsource with
  | none => exact inStep_pure rfl
  | @some s s' hs =>
    refine inStep_bind (report_inStep _ _) fun _ _ _ => ?_
    unfold registerSource
    rw [hs.unit]
    cases hunit : s.unit with
    | ok u => exact registerAll_inStep h (hs.closed u hunit) hs.origin (List.Subset.refl _)
    | error fault => exact inStep_throw (.badUnit hs.origin fault)

omit h in
theorem standing_inStep (name : String) :
    c.link.InStep (standing name) (standing name) (Twin c.naming) := by
  refine inStep_get_bind fun l l' hl => ?_
  have hget := hl.graph.get? name
  generalize l.graph.get? name = t?, l'.graph.get? name = t?' at hget
  cases hget with
  | some ht => exact inStep_pure ht
  | none =>
    refine inStep_bind (inStep_modify fun m m' hm => ?_) fun _ _ _ => inStep_throw (.same _)
    exact {
      based := basedOn_learned hm.based m.graph _
      based' := basedOn_learned hm.based' m'.graph _
      graph := hm.graph
      missing := congrArg (· ++ [name]) hm.missing
      known := hm.known
      extent := hm.extent }

theorem load_inStep {name : String} (hname : c.naming.good name) :
    c.link.InStep (load name) (load name) (Twin c.naming) := by
  rw [load_eq]
  cases isPrimitiveName name with
  | true =>
    refine inStep_pure ⟨⟨none, rfl, .none⟩, fun n hn => ?_, fun m hm => ?_⟩
    · exact absurd hn List.not_mem_nil
    · exact absurd hm List.not_mem_nil
  | false =>
    refine inStep_get_bind fun l l' hl => ?_
    have hget := hl.graph.get? name
    generalize l.graph.get? name = t?, l'.graph.get? name = t?' at hget
    cases hget with
    | some ht => exact inStep_pure ht
    | none =>
      refine inStep_get_bind fun m m' hm => ?_
      rw [hm.missing]
      cases m.missing.contains name with
      | true => exact inStep_throw (.same _)
      | false => exact inStep_bind (fetch_inStep h hname) fun _ _ _ => standing_inStep name

theorem loadIfFound_inStep {name : String} (hname : c.naming.good name) :
    c.link.InStep (loadIfFound name) (loadIfFound name) (Option.Rel (Twin c.naming)) := by
  intro l l' hl
  rw [loadIfFound_eq, loadIfFound_eq]
  obtain ⟨f, m, hx, hf⟩ | ⟨t, m, t', m', hx, hy, ht, hm⟩ | ⟨f, m, g, m', hx, hy, hfg, hm⟩ :=
    (load_inStep h hname).cases hl
  · rw [hx]
    dsimp only
    rw [h.excused f hf]
    exact .inl ⟨f, hf, rfl⟩
  · rw [hx, hy]
    exact .inr ⟨.ok (.some ht), hm⟩
  · rw [hx, hy]
    dsimp only
    rw [h.fair.isNotFound f g hfg]
    cases f.isNotFound with
    | true => exact .inr ⟨.ok .none, hm⟩
    | false => exact .inr ⟨.error hfg, hm⟩

/-! ## Assignability -/

theorem loadAll_inStep (name : String) {fuel fuel' : Nat} (hfuel : c.link.Bounds fuel fuel')
    (seen : List String) {pending : List String} (hpending : ∀ n ∈ pending, c.naming.good n) :
    c.link.InStep (loadAll name fuel seen pending) (loadAll name fuel' seen pending) Eq := by
  induction fuel, seen, pending using loadAll.induct generalizing fuel' with
  | case1 fuel seen =>
    unfold loadAll
    exact inStep_pure rfl
  | case2 fuel seen current pending hskip ih =>
    rw [loadAll.eq_def, loadAll.eq_def name fuel']
    dsimp only
    rw [if_pos hskip, if_pos hskip]
    exact ih hfuel (List.forall_mem_cons.mp hpending).2
  | case3 seen current pending hskip =>
    rw [loadAll.eq_def, loadAll.eq_def name fuel']
    dsimp only
    rw [if_neg hskip, if_neg hskip]
    obtain rfl | hexcused := hfuel.zero
    · exact inStep_throw (.same _)
    · exact inStep_excused (hexcused name)
  | case4 seen current pending hskip fuel ih ih' =>
    obtain ⟨fuel', rfl, hbound⟩ := hfuel.succ
    obtain ⟨hcurrent, hrest⟩ := List.forall_mem_cons.mp hpending
    rw [loadAll.eq_def, loadAll.eq_def name (fuel' + 1)]
    dsimp only
    rw [if_neg hskip, if_neg hskip]
    refine inStep_bind (loadIfFound_inStep h hcurrent) fun t? t?' ht => ?_
    cases ht with
    | none =>
      exact inStep_bind (report_inStep _ _) fun _ _ _ => ih' hbound hrest
    | @some t t' ht =>
      dsimp only
      have hsupertypes : t'.supertypes = t.supertypes := by
        obtain ⟨place, rfl, -⟩ := ht.same
        rfl
      rw [hsupertypes]
      refine ih t hbound (List.forall_mem_append.mpr ⟨fun n hn => ?_, hrest⟩)
      exact ht.supertypes n (List.mem_reverse.mp hn)

theorem isAssignable_inStep (target : String) {source : String} (hsource : c.naming.good source) :
    c.link.InStep (isAssignable target source) (isAssignable target source) Eq := by
  have hancestry : c.link.InStep (loadAncestry source) (loadAncestry source) Eq := by
    refine inStep_get_bind fun l l' hl => loadAll_inStep h source hl.extent [] ?_
    exact List.forall_mem_singleton.mpr (h.element source hsource)
  refine inStep_bind hancestry fun _ _ _ => inStep_get_bind fun l l' hl => ?_
  exact inStep_pure (hl.graph.isAssignable target source).symm

end Library

namespace Comparison

variable {c : Comparison} (h : c.Agrees)
include h

theorem Agrees.supply_inStep :
    TypeSupply.InStep c.link c.naming Library.supply Library.supply where
  load _ hname := Library.load_inStep h hname
  isAssignable target _ hsource := Library.isAssignable_inStep h target hsource
  report e := Library.report_inStep e e
  depth l l' hl := by
    refine hl.extent.imp (fun hextent => ?_) (And.imp_left Library.depth_mono)
    change l'.depth = l.depth
    rw [Library.depth, hextent, Library.depth]

omit h in
/-- Libraries that know the names of the same units to start with. -/
theorem ofUnits_linked_extent (units : List (String × CompilationUnit)) {extent : Nat}
    (hextent : extent = (Library.ofUnits c.roots c.tree units).extent ∨
      (Library.ofUnits c.roots c.tree units).extent ≤ extent ∧
        ∀ name, c.excused (.endlessHierarchy name)) :
    c.Linked (Library.ofUnits c.roots c.tree units)
      { Library.ofUnits c.roots' c.tree' units with extent } where
  based := Library.ofUnits_basedOn c.roots c.tree units
  based' := ⟨rfl, rfl, ⟨fun _ h => absurd h List.not_mem_nil, fun _ h => absurd h List.not_mem_nil⟩⟩
  graph := .nil
  missing := rfl
  known := rfl
  extent := hextent

omit h in
/-- The extents of libraries over files of the same size are the same. -/
theorem ofUnits_linked (units : List (String × CompilationUnit))
    (hsize : c.tree'.size = c.tree.size) :
    c.Linked (Library.ofUnits c.roots c.tree units) (Library.ofUnits c.roots' c.tree' units) := by
  refine ofUnits_linked_extent units (.inl ?_)
  simp only [Library.ofUnits, Library.ofRoots, hsize]

end Comparison

end StubWriter
