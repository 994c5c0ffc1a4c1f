import StubWriter.Proofs.Library.Registered
import StubWriter.Proofs.Lockstep

/-!
# The order of imports

Imports tell in three places what a name means: a single-type import binds its simple name, the
packages imported on demand are searched for it, and one of them is guessed when nothing was found.
A search in several packages comes to a name only if exactly one of them has it, and so does a
guess. So nothing depends on the order of the imports, unless two of them bind the same name.

* `Scope.Shuffled`: scopes that differ in the order of their imports.
* `Library.Twins`: libraries that differ in what they remember of their searches.
* `Library.register_imports_perm`: what a unit registers, whatever the order of its imports.
-/

namespace StubWriter

open Run Run.Link

/-! ## Lists in another order -/

/-- A list of at most one element has no other order. -/
theorem perm_short {α : Type} {xs ys : List α} (h : xs.Perm ys) (hxs : xs.length ≤ 1) :
    ys = xs := by
  match xs, hxs with
  | [], _ => exact h.symm.eq_nil
  | [x], _ => exact h.symm.eq_singleton

/-- Where all keys are distinct, their order makes no difference to a lookup. -/
theorem lookup_perm {κ α : Type} [BEq κ] [LawfulBEq κ] {ps qs : List (κ × α)} (h : ps.Perm qs)
    (hkeys : (ps.map Prod.fst).Nodup) (k : κ) : qs.lookup k = ps.lookup k := by
  induction h with
  | nil => rfl
  | cons p _ ih => rw [List.lookup_cons, List.lookup_cons, ih (List.nodup_cons.mp hkeys).2]
  | swap p q ps =>
    obtain ⟨⟨a, x⟩, b, y⟩ := p, q
    have hne : b ≠ a := fun heq => (List.nodup_cons.mp hkeys).1 (heq ▸ List.mem_cons_self)
    simp only [List.lookup_cons]
    by_cases hb : k = b
    · rw [beq_false_of_ne (hb ▸ hne)]
    · rw [beq_false_of_ne hb]
  | trans h₁ _ ih₁ ih₂ => exact (ih₂ ((h₁.map _).nodup_iff.mp hkeys)).trans (ih₁ hkeys)

/-! ## Scopes -/

namespace Import

/-- No two single-type imports end in the same simple name. -/
def Distinct (imports : List Import) : Prop :=
  ((imports.filter isSingle).map simpleName).Nodup

instance (imports : List Import) : Decidable (Distinct imports) :=
  inferInstanceAs (Decidable (List.Nodup _))

end Import

namespace Scope

/-- Scopes whose imports bind the same names and reach the same packages. -/
structure Shuffled (s s' : Scope) : Prop where
  package : s'.package = s.package
  localTypes : s'.localTypes = s.localTypes
  single : ∀ simple, s'.singleImports.lookup simple = s.singleImports.lookup simple
  onDemand : s.onDemand.Perm s'.onDemand

theorem ofUnit_shuffled {u : CompilationUnit} {imports : List Import}
    (hperm : u.imports.Perm imports) (hdistinct : Import.Distinct u.imports) :
    (ofUnit u).Shuffled (ofUnit { u with imports }) := by
  unfold ofUnit
  rw [foldl_addImport, foldl_addImport]
  refine ⟨rfl, rfl, fun simple => ?_, ?_⟩
  · have hsingles : (u.imports.filter Import.isSingle).Perm (imports.filter Import.isSingle) :=
      hperm.filter _
    refine lookup_perm (List.Perm.append_right _ ?_) ?_ simple
    · exact (List.reverse_perm _).trans ((hsingles.map _).trans (List.reverse_perm _).symm)
    · rw [List.append_nil, List.map_reverse, List.map_map, List.nodup_reverse]
      exact hdistinct
  · refine (List.perm_ext_iff_of_nodup (nodup_addNew .nil) (nodup_addNew .nil)).mpr fun a => ?_
    rw [mem_addNew, mem_addNew]
    exact or_congr Iff.rfl (((hperm.filter _).map _).mem_iff)

end Scope

/-! ## Searches -/

namespace Library

/-- Libraries over the same files that have loaded the same types and remember nothing wrong. -/
structure Twins (l l' : Library) : Prop where
  roots : l'.roots = l.roots
  tree : l'.tree = l.tree
  graph : l'.graph = l.graph
  missing : l'.missing = l.missing
  known : l'.known = l.known
  sound : l.Sound
  sound' : l'.Sound

variable {l l' : Library}

theorem Twins.refl (hl : l.Sound) : l.Twins l :=
  ⟨rfl, rfl, rfl, rfl, rfl, hl, hl⟩

theorem Twins.existsAt_eq (h : l.Twins l') (a : String) : existsAt l' a = existsAt l a := by
  rw [existsAt, existsAt, h.graph, h.known, h.missing, h.tree, h.roots]

theorem Twins.recalls (h : l.Twins l') {k k' : Library} (hk : l.Recalls k) (hk' : l'.Recalls k') :
    k.Twins k' where
  roots := hk'.roots.trans (h.roots.trans hk.roots.symm)
  tree := hk'.tree.trans (h.tree.trans hk.tree.symm)
  graph := hk'.graph.trans (h.graph.trans hk.graph.symm)
  missing := hk'.missing.trans (h.missing.trans hk.missing.symm)
  known := hk'.known.trans (h.known.trans hk.known.symm)
  sound := hk.sound h.sound
  sound' := hk'.sound h.sound'

/-- Runs on libraries that find the same. All failures are taken to be alike. -/
def twins : Link Library Library where
  states := Twins
  failures _ _ := True
  excused _ := False

/-- Searches that come to results that belong together, or to none, are in step. -/
theorem twins_of_results {α β : Type} {x : Lookup α} {y : Lookup β} {V : α → β → Prop}
    [Moves Recalls x] [Moves Recalls y]
    (h : ∀ l l', Twins l l' → Option.Rel V (outcome (x l)).toOption (outcome (y l')).toOption) :
    twins.InStep x y V := by
  intro l l' hl
  refine .inr ⟨?_, hl.recalls (Moves.moves l) (Moves.moves l')⟩
  have hresults := h l l' hl
  generalize outcome (x l) = o at hresults
  generalize outcome (y l') = o' at hresults
  cases o <;> cases o' <;> cases hresults
  · exact .error trivial
  · exact .ok ‹_›

theorem exists?_twins (a : String) : twins.InStep (exists? a) (exists? a) Eq := by
  refine twins_of_results fun l l' h => ?_
  rw [exists?_outcome h.sound, exists?_outcome h.sound', h.existsAt_eq]
  cases (existsAt l a).toOption with
  | none => exact .none
  | some found => exact .some rfl

end Library

namespace Scope

/-- The names among some that exist, if all of them can be looked for. -/
def present (there : String → Option Bool) (names : List String) : Option (List String) :=
  if names.all fun a => (there a).isSome then some (names.filter fun a => there a == some true)
  else none

theorem existing_reads {I : Library → Prop} {there : String → Option Bool} {names : List String}
    (h : ∀ a ∈ names, Reads I (Library.exists? a) (there a)) :
    Reads I (existing names) (present there names) := by
  induction names with
  | nil => exact reads_pure _
  | cons a as ih =>
    have hstep : present there (a :: as) = (do
        let found ← there a
        let others ← present there as
        return if found then a :: others else others) := by
      unfold present
      rw [List.all_cons, List.filter_cons]
      cases there a with
      | none => rfl
      | some found =>
        cases as.all fun a => (there a).isSome
        · rfl
        · cases found <;> rfl
    rw [hstep]
    unfold existing
    refine reads_bind (h a List.mem_cons_self) fun found _ => ?_
    refine reads_bind (ih fun b hb => h b (List.mem_cons_of_mem _ hb)) fun others _ => ?_
    exact reads_pure _

open Library

instance (names : List String) : Moves Recalls (existing names) :=
  existing_of recalls_compositional fun _ _ => inferInstance

theorem existing_twins {names names' : List String} (h : names.Perm names') :
    twins.InStep (existing names) (existing names') List.Perm := by
  have hpresent : ∀ {l l'}, Twins l l' → ∀ names, (outcome (existing names l')).toOption =
      present (fun a => (existsAt l a).toOption) names := by
    intro l l' hl names
    refine (existing_reads (I := l'.Recalls) (fun a _ k hk => ?_) l' (Std.Refl.refl l')).2
    refine ⟨hk.trans (Moves.moves (R := Recalls) (x := exists? a) k), ?_⟩
    rw [exists?_outcome (hk.sound hl.sound'), existsAt_recalls hk, hl.existsAt_eq]
  refine twins_of_results fun l l' hl => ?_
  rw [hpresent (.refl hl.sound) names, hpresent hl names']
  unfold present
  rw [← h.all_eq]
  split
  · exact .some (h.filter _)
  · exact .none

/-- Where exactly one of several names exists, their order makes no difference. -/
theorem resolveSimple?_twins {s s' : Scope} (h : s.Shuffled s') (simple : String) :
    twins.InStep (s.resolveSimple? simple) (s'.resolveSimple? simple) Eq := by
  unfold resolveSimple?
  rw [h.localTypes, h.single, h.package]
  cases s.localTypes.lookup simple with
  | some name => exact inStep_pure rfl
  | none =>
  cases s.singleImports.lookup simple with
  | some name => exact inStep_pure rfl
  | none =>
  refine inStep_bind (exists?_twins _) ?_
  rintro found _ rfl
  cases found with
  | true => exact inStep_pure rfl
  | false =>
  refine inStep_bind (existing_twins (h.onDemand.map _)) fun names names' hnames => ?_
  -- Several candidates are a failure in any order, and one or none have no other order.
  match names, names' with
  | [], names' =>
    obtain rfl := perm_short hnames (Nat.zero_le _)
    dsimp only
    split
    · exact inStep_pure rfl
    · refine inStep_bind (exists?_twins _) ?_
      rintro found _ rfl
      cases found <;> exact inStep_pure rfl
  | [name], names' =>
    obtain rfl := perm_short hnames (Nat.le_refl _)
    exact inStep_pure rfl
  | a :: b :: more, a' :: b' :: more' => exact inStep_throw trivial
  | a :: b :: more, [] => cases hnames.eq_nil
  | a :: b :: more, [name] => cases hnames.eq_singleton

theorem resolveName_twins {s s' : Scope} (h : s.Shuffled s') (segments : List String) :
    twins.InStep (s.resolveName segments) (s'.resolveName segments) Eq := by
  unfold resolveName
  refine inStep_bind (resolveSimple?_twins h _) ?_
  rintro base? _ rfl
  cases base? with
  | some base => exact inStep_pure rfl
  | none =>
  dsimp only
  split
  · exact inStep_pure rfl
  have hguesses : (s.onDemand.filter fun package => !Platform.isListed package).Perm
      (s'.onDemand.filter fun package => !Platform.isListed package) := h.onDemand.filter _
  rw [← hguesses.length_eq]
  split
  · exact inStep_throw trivial
  · rename_i hshort
    rw [perm_short hguesses (Nat.not_lt.mp hshort), h.package]
    refine inStep_bind (twins_of_results fun l l' _ => .some rfl) fun _ _ _ => inStep_pure rfl

/-- A name means the same in scopes that differ in the order of their imports. -/
theorem Shuffled.means_eq {s s' : Scope} (h : s.Shuffled s') {l l' : Library} (hl : l.Twins l') :
    s'.means l' = s.means l := by
  funext segments
  unfold means
  rcases (resolveName_twins h segments).cases hl with
    ⟨_, _, _, hexcused⟩ | ⟨a, t, _, t', hx, hy, rfl, -⟩ | ⟨f, t, g, t', hx, hy, -⟩
  · exact hexcused.elim
  · rw [hx, hy]
    rfl
  · rw [hx, hy]
    rfl

end Scope

/-! ## Registering -/

namespace Library

theorem describe_twins {s s' : Scope} (h : s.Shuffled s') (hvars : s'.typeVars = s.typeVars)
    (d : Declared) (package origin : String) :
    twins.InStep (d.describe package origin s) (d.describe package origin s') Eq := by
  refine twins_of_results fun l l' hl => ?_
  rw [describe_means hl.sound, describe_means hl.sound', h.means_eq hl, hvars]
  cases d.read (s.means l) package origin s.typeVars with
  | none => exact .none
  | some t => exact .some rfl

theorem registerAll_twins {s s' : Scope} (h : s.Shuffled s') (hvars : s'.typeVars = s.typeVars)
    (package origin : String) (ds : List Declared) :
    twins.InStep (registerAll package origin s ds) (registerAll package origin s' ds) Eq := by
  induction ds with
  | nil => exact inStep_pure rfl
  | cons d ds ih =>
    refine inStep_bind (describe_twins h hvars d package origin) ?_
    rintro t _ rfl
    refine inStep_bind (inStep_modify fun l l' hl => ?_) fun _ _ _ => ih
    exact {
      roots := hl.roots
      tree := hl.tree
      graph := congrArg (·.addType t) hl.graph
      missing := congrArg (List.filter (· != d.fullName)) hl.missing
      known := hl.known
      sound := ⟨hl.sound.archives, hl.sound.absent⟩
      sound' := ⟨hl.sound'.archives, hl.sound'.absent⟩ }

theorem register_contains {u : CompilationUnit} {origin : String}
    (h : outcome (register u origin l) = .ok ()) {d : Declared} (hd : d ∈ u.declared) :
    (stateAfter (register u origin l)).graph.contains d.fullName = true := by
  have hall : Comes (registerAll u.packageName origin (Scope.ofUnit u) u.declared) l _ :=
    registerAll_comes (I := fun _ => True) (R := fun _ _ => True)
      (fun _ _ _ _ => ⟨trivial, trivial⟩) (fun _ _ _ _ _ _ _ => trivial) trivial
  obtain ⟨-, -, ⟨-, hstands⟩ | ⟨f, hf, -⟩⟩ := hall
  · exact hstands d hd
  · exact nomatch hf.symm.trans h

/-- The order of the imports of a unit makes no difference to whether it can be registered, nor to
the types that come to stand. -/
theorem register_imports_perm {u : CompilationUnit} {imports : List Import}
    (hperm : u.imports.Perm imports) (hdistinct : Import.Distinct u.imports) (hl : l.Sound)
    (origin : String) :
    let r := register u origin l
    let r' := register { u with imports } origin l
    ((∃ f, outcome r = .error f) ↔ ∃ f, outcome r' = .error f) ∧
      (outcome r = .ok () → ∀ d ∈ u.declared, ∃ t,
        (stateAfter r).graph.get? d.fullName = some t ∧
          (stateAfter r').graph.get? d.fullName = some t) ∧
      (stateAfter r').graph = (stateAfter r).graph := by
  intro r r'
  have hscope := Scope.ofUnit_shuffled hperm hdistinct
  have hvars := (Scope.typeVars_ofUnit { u with imports }).trans (Scope.typeVars_ofUnit u).symm
  have hstep := registerAll_twins hscope hvars u.packageName origin u.declared
  obtain ⟨hfails, hgraph⟩ : ((∃ f, outcome r = .error f) ↔ ∃ f, outcome r' = .error f) ∧
      (stateAfter r').graph = (stateAfter r).graph := by
    rcases hstep.cases (.refl hl) with
      ⟨_, _, _, hexcused⟩ | ⟨_, t, _, t', hr, hr', -, ht⟩ | ⟨f, t, g, t', hr, hr', -, ht⟩
    · exact hexcused.elim
    · have hr : r = .ok _ t := hr
      have hr' : r' = .ok _ t' := hr'
      rw [hr, hr']
      exact ⟨⟨nofun, nofun⟩, ht.graph⟩
    · have hr : r = .error f t := hr
      have hr' : r' = .error g t' := hr'
      rw [hr, hr']
      exact ⟨⟨fun _ => ⟨g, rfl⟩, fun _ => ⟨f, rfl⟩⟩, ht.graph⟩
  refine ⟨hfails, fun hok d hd => ?_, hgraph⟩
  obtain ⟨t, ht⟩ := Option.isSome_iff_exists.mp (register_contains hok hd)
  exact ⟨t, ht, hgraph ▸ ht⟩

/-! ## A unit with imports of both kinds -/

/-- A class whose superclass is imported by name. What its method returns is in one of two packages
that are imported on demand. -/
def importing : CompilationUnit where
  package := ["p"]
  imports := [⟨["q"], false, true⟩, ⟨["s", "B"], false, false⟩, ⟨["r"], false, true⟩]
  types := [{
    kind := .classDecl, name := "A", modifiers := [], typeParams := []
    extended := [.named ["B"] 0], implemented := []
    methods := [{ name := "f", modifiers := ["abstract"], typeParams := [],
                  returns := some (.named ["C"] 0), params := [], throws := [], hasBody := false }]
    constructors := [], nested := [] }]

def importingLibrary : Library :=
  ofUnits [⟨0, ["d"]⟩] (.ofTexts [(["d", "r", "C.java"], "package r; public class C { }")]) []

theorem register_imports_perm_reverse :
    importing.imports.Perm importing.imports.reverse ∧ Import.Distinct importing.imports ∧
      importingLibrary.Sound ∧
      outcome (register importing "p/A.java" importingLibrary) = .ok () ∧
      (stateAfter (register { importing with imports := importing.imports.reverse } "p/A.java"
        importingLibrary)).graph =
        (stateAfter (register importing "p/A.java" importingLibrary)).graph := by
  have hperm : importing.imports.Perm importing.imports.reverse := by decide
  have hdistinct : Import.Distinct importing.imports := by decide
  have hsound : importingLibrary.Sound := (ofUnits_basedOn _ _ _).2.2
  refine ⟨hperm, hdistinct, hsound, by decide +kernel, ?_⟩
  exact (register_imports_perm hperm hdistinct hsound "p/A.java").2.2

end Library

end StubWriter
