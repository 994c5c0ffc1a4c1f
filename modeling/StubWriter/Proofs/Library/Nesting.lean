import StubWriter.Proofs.Library.Imports
import StubWriter.Proofs.Library.Spelling

/-!
# Nested types and their names

A unit binds the simple names of all its types, however deep they are nested, in one table. Of two
types with the same simple name the first one counts, an outer type before those nested in it. So a
simple name means the same wherever it stands in the unit.

* `CompilationUnit.Nest`: a declaration of a unit together with those around it.
* `memberNamed?`: the member type that a simple name means by the rules of the language.
* `CompilationUnit.nested_names`: the two agree exactly where the member type comes first.
-/

namespace StubWriter

open Run

/-! ## Declarations around declarations -/

namespace Declared

/-- The types that are declared directly in the body of a declaration. -/
def members (d : Declared) : List Declared :=
  d.decl.nested.map fun t => ⟨t, d.fullName ++ "." ++ t.name, d.decl.kind == .interfaceDecl⟩

end Declared

namespace CompilationUnit

/-- The types that a unit declares outside of other types. -/
def tops (u : CompilationUnit) : List Declared :=
  let owner := if u.package.isEmpty then "" else u.packageName ++ "."
  u.types.map fun t => ⟨t, owner ++ t.name, false⟩

/-- A declaration of a unit, followed by those around it from the inside to the outside. -/
inductive Nest (u : CompilationUnit) : List Declared → Prop
  | top {d : Declared} (h : d ∈ u.tops) : u.Nest [d]
  | member {d owner : Declared} {outer : List Declared} (h : u.Nest (owner :: outer))
      (hd : d ∈ owner.members) : u.Nest (d :: owner :: outer)

end CompilationUnit

theorem TypeDecl.self_mem_declared (t : TypeDecl) (fullName : String) (inInterface : Bool) :
    ⟨t, fullName, inInterface⟩ ∈ t.declared fullName inInterface := by
  cases t
  rw [TypeDecl.declared]
  exact List.mem_cons_self

theorem mem_declaredAll {owner : String} {inInterface : Bool} {ts : List TypeDecl} {d : Declared} :
    d ∈ declaredAll owner inInterface ts ↔
      ∃ t ∈ ts, d ∈ t.declared (owner ++ t.name) inInterface := by
  induction ts with
  | nil => simp [declaredAll]
  | cons t ts ih => rw [declaredAll, List.mem_append, ih, List.exists_mem_cons_iff]

theorem Declared.members_subset :
    (∀ (fullName : String) (inInterface : Bool) (t : TypeDecl),
      ∀ x ∈ t.declared fullName inInterface, x.members ⊆ t.declared fullName inInterface) ∧
      ∀ (owner : String) (inInterface : Bool) (ts : List TypeDecl),
        ∀ x ∈ declaredAll owner inInterface ts, x.members ⊆ declaredAll owner inInterface ts := by
  refine TypeDecl.declared.mutual_induct _ _ ?_ ?_ ?_
  · intro fullName inInterface kind name _ _ _ _ _ _ nested ih x hx
    rw [TypeDecl.declared] at hx ⊢
    rcases List.mem_cons.mp hx with rfl | hx
    · intro m hm
      obtain ⟨t, ht, rfl⟩ := List.mem_map.mp hm
      exact List.mem_cons_of_mem _ (mem_declaredAll.mpr ⟨t, ht, t.self_mem_declared _ _⟩)
    · exact fun m hm => List.mem_cons_of_mem _ (ih x hx hm)
  · intro owner inInterface x hx
    cases hx
  · intro owner inInterface t ts iht ihts x hx
    rw [declaredAll] at hx ⊢
    rcases List.mem_append.mp hx with hx | hx
    · exact fun m hm => List.mem_append_left _ (iht x hx hm)
    · exact fun m hm => List.mem_append_right _ (ihts x hx hm)

namespace CompilationUnit

variable {u : CompilationUnit}

theorem Nest.mem_declared {d : Declared} {outer : List Declared} (h : u.Nest (d :: outer)) :
    d ∈ u.declared := by
  generalize hchain : d :: outer = chain at h
  induction h generalizing d outer with
  | top hd =>
    cases hchain
    obtain ⟨t, ht, rfl⟩ := List.mem_map.mp hd
    exact mem_declaredAll.mpr ⟨t, ht, t.self_mem_declared _ _⟩
  | member _ hd ih =>
    cases hchain
    exact Declared.members_subset.2 _ _ _ _ (ih rfl) hd

theorem declared_nest :
    (∀ (fullName : String) (inInterface : Bool) (t : TypeDecl), ∀ outer,
      u.Nest (⟨t, fullName, inInterface⟩ :: outer) →
        ∀ x ∈ t.declared fullName inInterface, ∃ outer, u.Nest (x :: outer)) ∧
      ∀ (owner : String) (inInterface : Bool) (ts : List TypeDecl),
        (∀ t ∈ ts, ∃ outer, u.Nest (⟨t, owner ++ t.name, inInterface⟩ :: outer)) →
          ∀ x ∈ declaredAll owner inInterface ts, ∃ outer, u.Nest (x :: outer) := by
  refine TypeDecl.declared.mutual_induct _ _ ?_ ?_ ?_
  · intro fullName inInterface kind name _ _ _ _ _ _ nested ih outer h x hx
    rw [TypeDecl.declared] at hx
    rcases List.mem_cons.mp hx with rfl | hx
    · exact ⟨outer, h⟩
    · exact ih (fun t ht => ⟨_, h.member (List.mem_map_of_mem ht)⟩) x hx
  · intro owner inInterface _ x hx
    cases hx
  · intro owner inInterface t ts iht ihts h x hx
    obtain ⟨⟨outer, ht⟩, hts⟩ := List.forall_mem_cons.mp h
    rw [declaredAll] at hx
    rcases List.mem_append.mp hx with hx | hx
    · exact iht outer ht x hx
    · exact ihts hts x hx

/-- The declarations of a unit are those that stand somewhere in it. -/
theorem mem_declared_iff {d : Declared} : d ∈ u.declared ↔ ∃ outer, u.Nest (d :: outer) :=
  ⟨fun hd => declared_nest.2 _ _ _ (fun _ ht => ⟨[], .top (List.mem_map_of_mem ht)⟩) d hd,
    fun ⟨_, h⟩ => h.mem_declared⟩

/-! ## Simple names -/

/-- The first type of a unit that has a simple name. -/
def first? (u : CompilationUnit) (simple : String) : Option Declared :=
  u.declared.find? fun d => d.decl.name == simple

theorem first?_name {simple : String} {d : Declared} (h : u.first? simple = some d) :
    d ∈ u.declared ∧ d.decl.name = simple := by
  have hname := List.find?_some h
  exact ⟨List.mem_of_find?_eq_some h, beq_iff_eq.mp hname⟩

theorem lookup_localTypes (simple : String) : (Scope.ofUnit u).localTypes.lookup simple =
    (u.first? simple).map (·.fullName) := by
  rw [Scope.localTypes_ofUnit, first?]
  induction u.declared with
  | nil => rfl
  | cons d ds ih =>
    rw [List.map_cons, List.lookup_cons, List.find?_cons, ih, BEq.comm]
    cases d.decl.name == simple <;> rfl

/-- A type of the unit hides whatever is imported under its simple name. -/
theorem means_first {simple : String} {d : Declared} (h : u.first? simple = some d) (l : Library) :
    (Scope.ofUnit u).means l [simple] = some d.fullName := by
  have hlocal : (Scope.ofUnit u).localTypes.lookup simple = some d.fullName := by
    rw [lookup_localTypes, h]
    rfl
  unfold Scope.means Scope.resolveName Scope.resolveSimple?
  simp only [List.headD_cons, List.tail_cons, hlocal]
  rfl

end CompilationUnit

namespace Scope

/-- A single-type import ends in the name that it binds. -/
theorem lookup_singleImports {u : CompilationUnit} (hu : u.Written IsSegment) {simple name : String}
    (h : (ofUnit u).singleImports.lookup simple = some name) :
    (splitText '.' name).getLast? = some simple := by
  obtain ⟨before, after, hsplit, -⟩ := List.lookup_eq_some_iff.mp h
  have hmem : (simple, name) ∈ (ofUnit u).singleImports := by simp [hsplit]
  rw [ofUnit, foldl_addImport, List.append_nil, List.mem_reverse] at hmem
  obtain ⟨i, hi, heq⟩ := List.mem_map.mp hmem
  cases heq
  have hpath := hu.imports i (List.mem_filter.mp hi).1
  rw [Import.fullName, splitText_intercalate (by decide) hpath.nonempty fun s hs =>
    (hpath.segment s hs).dot, Import.simpleName]
  cases hlast : i.path.getLast? with
  | none => exact absurd (List.getLast?_eq_none_iff.mp hlast) hpath.nonempty
  | some last => rfl

/-- What a simple name means has that name as its last piece. -/
theorem means_last {u : CompilationUnit} (hu : u.Written IsSegment) {l : Library}
    {simple name : String} (hsimple : IsSegment simple)
    (h : (ofUnit u).means l [simple] = some name) :
    (splitText '.' name).getLast? = some simple := by
  have hown : splitText '.' simple = [simple] := splitText_of_not_mem hsimple.dot
  have hrun : Ok ((ofUnit u).resolveName [simple]) l fun name _ =>
      (splitText '.' name).getLast? = some simple := by
    unfold resolveName
    refine ok_bind (resolveSimple?_mem _ _ l) fun base? l₁ hbase => ?_
    cases base? with
    | some base =>
      refine ok_pure ?_
      change (splitText '.' base).getLast? = some simple
      rcases hbase base rfl with hlocal | hsingle | hasked
      · rw [CompilationUnit.lookup_localTypes] at hlocal
        obtain ⟨d, hd, rfl⟩ := Option.map_eq_some_iff.mp hlocal
        obtain ⟨hmem, hname⟩ := CompilationUnit.first?_name hd
        rw [CompilationUnit.getLast?_fullName hu hmem, hname]
        rfl
      · exact lookup_singleImports hu hsingle
      · rw [(getLast?_asks hasked).2]
        exact congrArg List.getLast? hown
    | none =>
      dsimp only
      split
      · rename_i hrest
        cases hrest
      split
      · exact ok_throw _
      · refine ok_bind (ok_self _ _) fun _ _ _ => ok_pure ?_
        rw [getLast?_qualify]
        exact congrArg List.getLast? hown
  unfold means at h
  cases hresult : (ofUnit u).resolveName [simple] l with
  | ok found l' =>
    rw [hresult] at h
    cases h
    exact hrun _ _ hresult
  | error f l' =>
    rw [hresult] at h
    cases h

end Scope

namespace CompilationUnit

/-- A simple name means a type of the unit if and only if that is the first one of its name. -/
theorem means_declared_iff (hu : u.Written IsSegment) {simple : String} (hsimple : IsSegment simple)
    {d : Declared} (hd : d ∈ u.declared) (l : Library) :
    (Scope.ofUnit u).means l [simple] = some d.fullName ↔
      (u.first? simple).map (·.fullName) = some d.fullName := by
  cases hfirst : u.first? simple with
  | some first => rw [means_first hfirst l, Option.map_some]
  | none =>
    -- No import or guess leads to the type, since that has another simple name.
    refine iff_of_false (fun hmeans => ?_) nofun
    have hlast := Scope.means_last hu hsimple hmeans
    rw [getLast?_fullName hu hd] at hlast
    have hname : ¬ (d.decl.name == simple) = true := List.find?_eq_none.mp hfirst d hd
    exact hname (beq_iff_eq.mpr (Option.some.inj hlast))

end CompilationUnit

/-! ## The rules of the language -/

/-- The member type of a simple name in the innermost of some declarations that has one. -/
def memberNamed? (simple : String) (chain : List Declared) : Option Declared :=
  chain.findSome? fun d => d.members.find? fun m => m.decl.name == simple

namespace CompilationUnit

variable {u : CompilationUnit}

/-- What stands around a declaration stands in the unit itself. -/
theorem Nest.of_mem {chain : List Declared} (h : u.Nest chain) {d : Declared} (hd : d ∈ chain) :
    ∃ outer, u.Nest (d :: outer) := by
  induction h with
  | top htop => exact ⟨[], List.mem_singleton.mp hd ▸ .top htop⟩
  | member h hmember ih =>
    rcases List.mem_cons.mp hd with rfl | hd
    · exact ⟨_, h.member hmember⟩
    · exact ih hd

theorem Nest.memberNamed_mem {chain : List Declared} (h : u.Nest chain) {simple : String}
    {m : Declared} (hm : memberNamed? simple chain = some m) : m ∈ u.declared := by
  obtain ⟨owner, howner, hfind⟩ := List.exists_of_findSome?_eq_some hm
  obtain ⟨outer, houter⟩ := h.of_mem howner
  exact (houter.member (List.mem_of_find?_eq_some hfind)).mem_declared

/-- Every declaration of a unit is described with the same meanings of names, wherever it stands. A
simple name means the first type of the unit that has it, if there is one. So it means the member
type that the rules of the language say, or one that they exclude, if and only if that comes first. -/
theorem nested_names (hu : u.Written IsSegment) {l : Library} (hl : l.Sound) {d : Declared}
    (hd : d ∈ u.declared) (origin : String) :
    let mean := (Scope.ofUnit u).means l
    (outcome (d.describe u.packageName origin (Scope.ofUnit u) l)).toOption =
        d.read mean u.packageName origin [] ∧
      (∃ outer, u.Nest (d :: outer)) ∧ ∀ outer, u.Nest (d :: outer) → ∀ simple, IsSegment simple →
        (∀ x, u.first? simple = some x → mean [simple] = some x.fullName) ∧
        (∀ m, memberNamed? simple (d :: outer) = some m →
          (mean [simple] = some m.fullName ↔
            (u.first? simple).map (·.fullName) = some m.fullName)) ∧
        ∀ owner ∈ u.declared, owner ∉ d :: outer → ∀ x ∈ owner.members,
          (mean [simple] = some x.fullName ↔
            (u.first? simple).map (·.fullName) = some x.fullName) := by
  intro mean
  refine ⟨?_, mem_declared_iff.mp hd, fun outer hnest simple hsimple =>
    ⟨?_, fun m hm => ?_, fun owner howner _ x hx => ?_⟩⟩
  · rw [Library.describe_means hl, Scope.typeVars_ofUnit]
  · exact fun x hx => means_first hx l
  · exact means_declared_iff hu hsimple (hnest.memberNamed_mem hm) l
  · obtain ⟨around, howner⟩ := mem_declared_iff.mp howner
    exact means_declared_iff hu hsimple (howner.member hx).mem_declared l

/-! ## Two types of one name -/

/-- Three classes. The first two have a member type `X` each, and the last two name it. -/
def twoNamed : String :=
  "package p; class A { class X { } } abstract class B { class X { } abstract X f(); } " ++
    "abstract class C { abstract X g(); }"

def twoNamedUnit : CompilationUnit where
  package := ["p"]
  imports := []
  types := [
    plainClass "A" [] [] [plainClass "X" [] [] []],
    plainClass "B" ["abstract"] [returnsX "f"] [plainClass "X" [] [] []],
    plainClass "C" ["abstract"] [returnsX "g"] []]
where
  plainClass (name : String) (modifiers : List String) (methods : List MethodDecl)
      (nested : List TypeDecl) : TypeDecl :=
    { kind := .classDecl, name, modifiers, typeParams := [], extended := [], implemented := [],
      methods, constructors := [], nested }
  returnsX (name : String) : MethodDecl :=
    { name, modifiers := ["abstract"], typeParams := [], returns := some (.named ["X"] 0),
      params := [], throws := [], hasBody := false }

theorem twoNamed_facts : ofText twoNamed = .ok twoNamedUnit ∧ twoNamedUnit.Written IsSegment ∧
    twoNamedUnit.declared.map (·.fullName) = ["p.A", "p.A.X", "p.B", "p.B.X", "p.C"] ∧
    (twoNamedUnit.first? "X").map (·.fullName) = some "p.A.X" := by
  decide +kernel

def twoNamedB : Declared :=
  ⟨twoNamedUnit.types[1], "p.B", false⟩

theorem nested_names_twoNamed : twoNamedUnit.Written IsSegment ∧ Library.emptyLibrary.Sound ∧
    twoNamedB ∈ twoNamedUnit.declared ∧ ∃ outer, twoNamedUnit.Nest (twoNamedB :: outer) ∧
      (Scope.ofUnit twoNamedUnit).means Library.emptyLibrary ["X"] = some "p.A.X" := by
  obtain ⟨-, hwritten, -, hfirst⟩ := twoNamed_facts
  obtain ⟨x, hx, hname⟩ := Option.map_eq_some_iff.mp hfirst
  have hsound : Library.emptyLibrary.Sound := (Library.ofUnits_basedOn _ _ _).2.2
  have hB : twoNamedB ∈ twoNamedUnit.declared := by decide +kernel
  obtain ⟨-, ⟨outer, hnest⟩, hnames⟩ := nested_names hwritten hsound hB "p/B.java"
  exact ⟨hwritten, hsound, hB, outer, hnest,
    hname ▸ (hnames outer hnest "X" (by decide)).1 x hx⟩

/-- What `X` means in `B` is not the member type of `B`, and in `C` it is a member type of `A`. -/
theorem not_nested_names :
    (¬ ∀ (text : String) (u : CompilationUnit) (l : Library), ofText text = .ok u → l.Sound →
      ∀ (d : Declared) (outer : List Declared), u.Nest (d :: outer) →
      ∀ simple, [simple] ∈ d.decl.names → ∀ m, memberNamed? simple (d :: outer) = some m →
        (Scope.ofUnit u).means l [simple] = some m.fullName) ∧
    ¬ ∀ (text : String) (u : CompilationUnit) (l : Library), ofText text = .ok u → l.Sound →
      ∀ (d : Declared) (outer : List Declared), u.Nest (d :: outer) →
      ∀ simple, [simple] ∈ d.decl.names → ∀ owner ∈ u.declared, owner ∉ d :: outer →
      ∀ x ∈ owner.members, (∀ i ∈ u.imports, i.fullName ≠ x.fullName) →
        (Scope.ofUnit u).means l [simple] ≠ some x.fullName := by
  obtain ⟨htext, -, -, hfirst⟩ := twoNamed_facts
  have hsound : Library.emptyLibrary.Sound := (Library.ofUnits_basedOn _ _ _).2.2
  have hmeans : (Scope.ofUnit twoNamedUnit).means Library.emptyLibrary ["X"] = some "p.A.X" := by
    obtain ⟨x, hx, hname⟩ := Option.map_eq_some_iff.mp hfirst
    exact hname ▸ means_first hx _
  constructor
  · intro h
    have hB : twoNamedUnit.Nest [twoNamedB] := .top (by decide +kernel)
    have hX := h _ _ _ htext hsound _ _ hB "X" (by decide +kernel)
      ⟨twoNamedUnit.types[1].nested[0], "p.B.X", false⟩ (by decide +kernel)
    exact absurd (hmeans.symm.trans hX) (by decide)
  · intro h
    have hC : twoNamedUnit.Nest [⟨twoNamedUnit.types[2], "p.C", false⟩] := .top (by decide +kernel)
    exact h _ _ _ htext hsound _ _ hC "X" (by decide +kernel)
      ⟨twoNamedUnit.types[0], "p.A", false⟩ (by decide +kernel) (by decide +kernel)
      ⟨twoNamedUnit.types[0].nested[0], "p.A.X", false⟩ (by decide +kernel) nofun hmeans

end CompilationUnit

end StubWriter
