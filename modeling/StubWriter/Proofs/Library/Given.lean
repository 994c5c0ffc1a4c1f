import Mathlib.Algebra.BigOperators.Group.List.Basic
import Mathlib.Algebra.Order.Group.Nat
import Mathlib.Algebra.Order.BigOperators.Group.List
import StubWriter.Library.Inspection
import StubWriter.Proofs.CompilationUnit
import StubWriter.Proofs.Hierarchy.Determined
import StubWriter.Proofs.Library.Ancestry
import StubWriter.Proofs.Library.Memory

/-!
# Libraries of given units

What loading gives in a library of given units without roots: a type of its units as it was
described when the library was made, or a type of the platform. So there is one table for all
libraries of the same units, in whatever order they are given and whatever was loaded before.

* `Tells`: the table of some units, and `exists_tells`: there is one.
* `registerUnits_given`: the library is made unless one of its units cannot be described.
* `load_kept`: loading gives what the table says.
* `Tells.tame`: what is above what by the table.
-/

namespace StubWriter

open Run

namespace LoadTable

/-- A type that the table gives. -/
def Fits (T : LoadTable) (name : String) (t : TypeInfo) : Prop :=
  T name = .ok t

theorem Fits.supertypes_eq {T : LoadTable} {name : String} {t t' : TypeInfo} (h : T.Fits name t)
    (h' : T.Fits name t') : t.supertypes = t'.supertypes :=
  congrArg TypeInfo.supertypes (Except.ok.inj (h.symm.trans h'))

/-- The supertypes that a table gives. -/
def lineage (T : LoadTable) : Lineage :=
  fun name => (T name).toOption.map TypeInfo.supertypes

theorem lineage_eq_some {T : LoadTable} {name : String} {above : List String} :
    T.lineage name = some above ↔ ∃ t, T name = .ok t ∧ t.supertypes = above := by
  unfold lineage
  cases T name <;> simp [Except.toOption]

end LoadTable

namespace Library

/-- All declarations of some units. -/
def declaredBy (units : List (String × CompilationUnit)) : List Declared :=
  units.flatMap fun p => p.2.declared

/-- The names that some units declare. -/
def namesOf (units : List (String × CompilationUnit)) : List String :=
  (declaredBy units).map (·.fullName)

/-- Room for the supertypes of all types of some units and of the platform. -/
def room (units : List (String × CompilationUnit)) : Nat :=
  ((declaredBy units).map headerSize).sum + 64

theorem mem_namesOf {units : List (String × CompilationUnit)} {name : String} :
    name ∈ namesOf units ↔ ∃ p ∈ units, ∃ d ∈ p.2.declared, d.fullName = name := by
  unfold namesOf declaredBy
  simp only [List.mem_map, List.mem_flatMap]
  constructor
  · rintro ⟨d, ⟨p, hp, hd⟩, hname⟩
    exact ⟨p, hp, d, hd, hname⟩
  · rintro ⟨p, hp, d, hd, hname⟩
    exact ⟨d, ⟨p, hp, hd⟩, hname⟩

/-- What was looked for in vain does not change the exception of `java.io.Closeable`. -/
def Firm (names : List String) (P : TypeGraph → List String → Prop) : Prop :=
  "java.lang.IOException" ∈ names → "java.io.Closeable" ∉ names →
    "java.io.IOException" ∈ names ∨ ∀ g m, P g m → "java.io.IOException" ∉ m

theorem firm_fresh (names : List String) : Firm names fun _ m => m = [] :=
  fun _ _ => .inr fun _ _ hm => by simp [hm]

/-- What loading gives in a library of some units. -/
structure Tells (T : LoadTable) (units : List (String × CompilationUnit)) : Prop where
  primitive : ∀ {name}, isPrimitiveName name = true → T name = .ok (.ofPrimitive name)
  declared : ∀ p ∈ units, ∀ d ∈ p.2.declared, ∀ P, (∀ g m, P g m → m = []) →
    (memory (namesOf units) (room units) P).Gives
      (d.describe p.2.packageName p.1 (Scope.ofUnit p.2)) (T d.fullName)
  platform : ∀ {name u}, Platform.unit? name = some u → name ∉ namesOf units →
    ∃ t, T name = .ok t ∧ ∀ d ∈ u.declared, ∀ P, Firm (namesOf units) P →
      (memory (namesOf units) (room units) P).Gives
        (d.describe u.packageName (platformOrigin name) (Scope.ofUnit u)) (.ok t)
  other : ∀ {name}, isPrimitiveName name = false → name ∉ namesOf units →
    isPlatform name = false → T name = .error (.typeNotFound name)

/-- Where no name is declared twice, a name tells which declaration it belongs to. -/
theorem declared_unique {units : List (String × CompilationUnit)} (h : (namesOf units).Nodup)
    {p q : String × CompilationUnit} (hp : p ∈ units) (hq : q ∈ units) {d e : Declared}
    (hd : d ∈ p.2.declared) (he : e ∈ q.2.declared) (hname : d.fullName = e.fullName) :
    p = q ∧ d = e := by
  have hpairs : namesOf units =
      (units.flatMap fun p => p.2.declared.map fun d => (p, d)).map fun x => x.2.fullName := by
    unfold namesOf declaredBy
    simp only [List.map_flatMap, List.map_map]
    rfl
  rw [hpairs] at h
  have hmem : ∀ {p : String × CompilationUnit} {d : Declared}, p ∈ units → d ∈ p.2.declared →
      (p, d) ∈ units.flatMap fun p => p.2.declared.map fun d => (p, d) :=
    fun hp hd => List.mem_flatMap.mpr ⟨_, hp, List.mem_map_of_mem hd⟩
  exact Prod.mk.inj (List.inj_on_of_nodup_map h (hmem hp hd) (hmem hq he) hname)

/-- The types of the platform as far as no unit declares them. -/
theorem exists_platform_type (names : List String) (size : Nat) {name : String}
    {u : CompilationUnit} (hu : Platform.unit? name = some u) (hname : name ∉ names) :
    ∃ t, ∀ d ∈ u.declared, ∀ P, Firm names P →
      (memory names size P).Gives
        (d.describe u.packageName (platformOrigin name) (Scope.ofUnit u)) (.ok t) := by
  have hp := Platform.mem_units hu
  obtain ⟨d, hdeclared, -⟩ := List.map_eq_singleton_iff.mp ((Platform.checked_of_mem hp).declared)
  have hd : d ∈ u.declared := by simp [hdeclared]
  have hsettled : Settled (fun P : {P // Firm names P} => memory names size P.1) fun _ =>
      d.describe u.packageName (platformOrigin name) (Scope.ofUnit u) := by
    refine describe_platform hp hd (fun _ _ _ => rfl) (fun hcloseable => ?_) _ _
    by_cases hother : "java.lang.IOException" ∈ names
    · exact .inr fun P => P.2 hother (hcloseable ▸ hname)
    · exact .inl fun _ => hother
  obtain ⟨t, ht⟩ := hsettled
  refine ⟨t, fun e he P hP => ?_⟩
  rw [hdeclared, List.mem_singleton] at he
  exact he ▸ ht ⟨P, hP⟩

/-- There is a table for units that declare no name twice. -/
theorem exists_tells (units : List (String × CompilationUnit)) (hnodup : (namesOf units).Nodup)
    (hproper : ∀ name ∈ namesOf units, isPrimitiveName name = false) : ∃ T, Tells T units := by
  have hdescribed : ∀ (p : String × CompilationUnit) (d : Declared), ∃ v,
      ∀ P : TypeGraph → List String → Prop, (∀ g m, P g m → m = []) →
        (memory (namesOf units) (room units) P).Gives
          (d.describe p.2.packageName p.1 (Scope.ofUnit p.2)) v := by
    intro p d
    have hfixed : Fixed (fun P : {P : TypeGraph → List String → Prop // ∀ g m, P g m → m = []} =>
        memory (namesOf units) (room units) P.1) fun _ =>
          d.describe p.2.packageName p.1 (Scope.ofUnit p.2) :=
      describe_fresh (fun _ _ _ => rfl) (fun P => P.2) _ _
    obtain ⟨v, -, hv⟩ := hfixed
    exact ⟨v, fun P hP => hv ⟨P, hP⟩⟩
  choose v hv using hdescribed
  have hplatform : ∀ name u, Platform.unit? name = some u → name ∉ namesOf units → ∃ t,
      ∀ d ∈ u.declared, ∀ P, Firm (namesOf units) P →
        (memory (namesOf units) (room units) P).Gives
          (d.describe u.packageName (platformOrigin name) (Scope.ofUnit u)) (.ok t) :=
    fun name u hu hname => exists_platform_type _ _ hu hname
  choose t ht using hplatform
  classical
  let T : LoadTable := fun name =>
    if isPrimitiveName name = true then .ok (.ofPrimitive name)
    else if h : ∃ e : (String × CompilationUnit) × Declared,
        e.1 ∈ units ∧ e.2 ∈ e.1.2.declared ∧ e.2.fullName = name then v h.choose.1 h.choose.2
    else if h : ∃ u, Platform.unit? name = some u ∧ name ∉ namesOf units then
      .ok (t name h.choose h.choose_spec.1 h.choose_spec.2)
    else .error (.typeNotFound name)
  have hundeclared : ∀ {name}, name ∉ namesOf units → ¬ ∃ e : (String × CompilationUnit) × Declared,
      e.1 ∈ units ∧ e.2 ∈ e.1.2.declared ∧ e.2.fullName = name :=
    fun hname ⟨e, hp, hd, h⟩ => hname (mem_namesOf.mpr ⟨e.1, hp, e.2, hd, h⟩)
  refine ⟨T, fun h => if_pos h, fun p hp d hd P hP => ?_, fun {name u} hu hname => ?_,
    fun {name} hprimitive hname hnot => ?_⟩
  · have hdeclared : ∃ e : (String × CompilationUnit) × Declared,
        e.1 ∈ units ∧ e.2 ∈ e.1.2.declared ∧ e.2.fullName = d.fullName := ⟨(p, d), hp, hd, rfl⟩
    have hprimitive := hproper d.fullName (mem_namesOf.mpr ⟨p, hp, d, hd, rfl⟩)
    have hT : T d.fullName = v p d := by
      obtain ⟨hq, he, hname⟩ := hdeclared.choose_spec
      obtain ⟨heq₁, heq₂⟩ := declared_unique hnodup hq hp he hd hname
      dsimp only [T]
      rw [if_neg (by simp [hprimitive]), dif_pos hdeclared, heq₁, heq₂]
    exact hT ▸ hv p d P hP
  · have hprimitive := (Platform.checked_of_mem (Platform.mem_units hu)).isType.1
    have hunit : ∃ u, Platform.unit? name = some u ∧ name ∉ namesOf units := ⟨u, hu, hname⟩
    refine ⟨t name u hu hname, ?_, fun d hd P hP => ht name u hu hname d hd P hP⟩
    have hchoose : hunit.choose = u := Option.some.inj (hunit.choose_spec.1.symm.trans hu)
    dsimp only [T]
    rw [if_neg (by simp [hprimitive]), dif_neg (hundeclared hname), dif_pos hunit]
    congr
  · dsimp only [T]
    rw [if_neg (by simp [hprimitive]), dif_neg (hundeclared hname), dif_neg]
    rintro ⟨u, hu, -⟩
    rw [isPlatform, hu] at hnot
    cases hnot

/-! ## Making the library -/

theorem start_inMemory {units units' : List (String × CompilationUnit)}
    (hunits : units'.Perm units) (tree : FileTree) :
    InMemory (namesOf units) (room units) (ofUnits [] tree units') := by
  have hperm : (declaredBy units').Perm (declaredBy units) := hunits.flatMap_right _
  have hsum : (declaredBy units').foldl (fun n d => n + headerSize d) 0 =
      ((declaredBy units).map headerSize).sum := by
    rw [← (hperm.map headerSize).sum_eq, List.sum_eq_foldl, List.foldl_map]
  refine ⟨rfl, ?_, ?_, fun h => (nomatch h), fun h => (nomatch h), fun h => (nomatch h)⟩
  · change room units < 2 * tree.size + 128 + (declaredBy units').foldl (fun n d => n + headerSize d) 0
    rw [hsum, room]
    omega
  · intro a
    exact (hperm.map (·.fullName)).mem_iff

theorem start_fresh (units : List (String × CompilationUnit)) :
    (memory (namesOf units) (room units) fun _ m => m = []).inv (ofUnits [] .empty units) :=
  ⟨start_inMemory (.refl units) .empty, rfl⟩

/-- Worlds of libraries that hold all types of some units and nothing but what the table says, with
a property of the names that were looked for in vain. -/
def kept (T : LoadTable) (units : List (String × CompilationUnit)) (M : List String → Prop) :
    World Library :=
  memory (namesOf units) (room units) fun g m =>
    M m ∧ g.Bears T.Fits ∧ ∀ name ∈ namesOf units, g.contains name = true

variable {T : LoadTable} {units units' : List (String × CompilationUnit)}

/-- What is known of a type before any names are looked up. -/
theorem Tells.shapes (hT : Tells T units) {p : String × CompilationUnit} (hp : p ∈ units)
    {d : Declared} (hd : d ∈ p.2.declared) {t : TypeInfo} (ht : T d.fullName = .ok t) :
    d.Shapes p.2.packageName p.1 t := by
  have hgives := hT.declared p hp d hd (fun _ m => m = []) fun _ _ h => h
  have hrun := World.ends_of_gives (fun _ h => h) hgives _ (start_fresh units)
  exact d.describe_shapes _ _ _ _ t _ (eq_ok_of_outcome (hrun.2.trans ht))

/-- The same of a type of the platform. -/
theorem Tells.shapes_platform (hT : Tells T units) {name : String} {u : CompilationUnit}
    (hu : Platform.unit? name = some u) (hname : name ∉ namesOf units) {d : Declared}
    (hd : d ∈ u.declared) {t : TypeInfo} (ht : T name = .ok t) :
    d.Shapes u.packageName (platformOrigin name) t := by
  obtain ⟨t', ht', hgives⟩ := hT.platform hu hname
  obtain rfl := Except.ok.inj (ht.symm.trans ht')
  have hrun := World.ends_of_gives (fun _ h => h) (hgives d hd _ (firm_fresh _)) _
    (start_fresh units)
  exact d.describe_shapes _ _ _ _ t _ (eq_ok_of_outcome hrun.2)

/-- In any world in which the names of a declaration mean what they mean by the names of the units,
it describes the type of the table. -/
theorem Tells.describe_gives (hT : Tells T units) {p : String × CompilationUnit} (hp : p ∈ units)
    {d : Declared} (hd : d ∈ p.2.declared) {W : World Library}
    (hW : ∀ n ∈ d.decl.names, W.Gives ((Scope.ofUnit p.2).resolveName n)
      ((Scope.ofUnit p.2).meaning (existsIn (namesOf units)) n)) :
    W.Gives (d.describe p.2.packageName p.1 (Scope.ofUnit p.2)) (T d.fullName) := by
  obtain ⟨v, hv⟩ := d.describe_meaning (Scope.ofUnit p.2)
    ((Scope.ofUnit p.2).meaning (existsIn (namesOf units))) p.2.packageName p.1
  have hfresh := hv _ fun n _ => fresh_meaning (namesOf units) (room units) (Scope.ofUnit p.2) n
  have hgives := hT.declared p hp d hd (fun _ m => m = []) fun _ _ h => h
  rw [hgives.unique (fun _ h => h) (start_fresh units) hfresh]
  exact hv W hW

/-- The same of a type of the platform. -/
theorem Tells.describe_platform_gives (hT : Tells T units) {name : String} {u : CompilationUnit}
    (hu : Platform.unit? name = some u) (hname : name ∉ namesOf units) {d : Declared}
    (hd : d ∈ u.declared) {W : World Library}
    (hW : ∀ n ∈ d.decl.names, W.Gives ((Scope.ofUnit u).resolveName n)
      ((Scope.ofUnit u).meaning (existsIn (namesOf units)) n)) :
    W.Gives (d.describe u.packageName (platformOrigin name) (Scope.ofUnit u)) (T name) := by
  obtain ⟨v, hv⟩ := d.describe_meaning (Scope.ofUnit u)
    ((Scope.ofUnit u).meaning (existsIn (namesOf units))) u.packageName (platformOrigin name)
  have hfresh := hv _ fun n _ => fresh_meaning (namesOf units) (room units) (Scope.ofUnit u) n
  obtain ⟨t, ht, hgives⟩ := hT.platform hu hname
  have hgives := hgives d hd _ (firm_fresh _)
  rw [ht, hgives.unique (fun _ h => h) (start_fresh units) hfresh]
  exact hv W hW

/-- The library of some units is made, in whatever order they are given, unless one of their
declarations cannot be described. -/
theorem registerUnits_given (hT : Tells T units) (hunits : units'.Perm units) (tree : FileTree) :
    Comes (registerUnits units') (ofUnits [] tree units') fun o l =>
      (o = .ok () ∧ (kept T units (· = [])).inv l) ∨
        (∃ f, o = .error f) ∧ ∃ name ∈ namesOf units, ∃ f, T name = .error f := by
  let P : TypeGraph → List String → Prop := fun g m => m = [] ∧ g.Bears T.Fits
  have hstart : (memory (namesOf units) (room units) P).inv (ofUnits [] tree units') :=
    ⟨start_inMemory hunits tree, rfl, TypeGraph.bears_empty _⟩
  have hdeclared : ∀ p ∈ units', ∀ d ∈ p.2.declared, d.fullName ∈ namesOf units :=
    fun p hp d hd => mem_namesOf.mpr ⟨p, hunits.mem_iff.mp hp, d, hd, rfl⟩
  have hadd : ∀ p ∈ units', ∀ d ∈ p.2.declared, ∀ t, .ok t = T d.fullName → t.name = d.fullName →
      ∀ l, (memory (namesOf units) (room units) P).inv l →
        (memory (namesOf units) (room units) P).inv (l.takeIn d t) := by
    intro p hp d hd t ht hname l hl
    refine ⟨takeIn_memory hl.1 hname (.inl (hdeclared p hp d hd)), ?_, ?_⟩
    · change l.missing.filter _ = []
      rw [hl.2.1]
      rfl
    · exact hl.2.2.addType LoadTable.Fits.supertypes_eq (hname ▸ ht.symm)
  obtain ⟨hinv, -, hrun⟩ := registerUnits_comes (R := fun d o => o = T d.fullName)
    (fun p hp d hd => World.ends_of_gives (fun _ h => h)
      (hT.declared p (hunits.mem_iff.mp hp) d hd P fun _ _ h => h.1))
    hadd hstart
  rcases hrun with ⟨ho, hall⟩ | ⟨f, ho, p, hp, d, hd, hf⟩
  · refine .inl ⟨ho, hinv.1, hinv.2.1, hinv.2.2, fun name hname => ?_⟩
    obtain ⟨p, hp, d, hd, rfl⟩ := mem_namesOf.mp hname
    exact hall p (hunits.mem_iff.mpr hp) d hd
  · exact .inr ⟨⟨f, ho⟩, d.fullName, hdeclared p hp d hd, f, hf.symm⟩

/-- The types that the units declare, once they were all described. -/
theorem kept_declared {M : List String → Prop} {l : Library} (hl : (kept T units M).inv l)
    {name : String} (hname : name ∈ namesOf units) : ∃ t, T name = .ok t := by
  obtain ⟨t, ht⟩ := Option.isSome_iff_exists.mp (hl.2.2.2 name hname)
  exact ⟨t, hl.2.2.1.held ht⟩

theorem registerUnits_kept (hT : Tells T units) (hunits : units'.Perm units) {tree : FileTree}
    {l : Library} (hl : registerUnits units' (ofUnits [] tree units') = .ok () l) :
    (kept T units (· = [])).inv l := by
  have hrun := registerUnits_given hT hunits tree
  rw [Comes, hl] at hrun
  rcases hrun with ⟨-, hkept⟩ | ⟨⟨f, hf⟩, -⟩
  · exact hkept
  · cases hf

/-- Whether a library can be made of some units depends on the units alone. -/
theorem registerUnits_fails_iff (hT : Tells T units) (hunits : units'.Perm units)
    (tree : FileTree) : (∃ f, outcome (registerUnits units' (ofUnits [] tree units')) = .error f) ↔
      ∃ name ∈ namesOf units, ∃ f, T name = .error f := by
  rcases registerUnits_given hT hunits tree with ⟨ho, hkept⟩ | ⟨hfails, hname⟩
  · constructor
    · rintro ⟨f, hf⟩
      exact nomatch ho.symm.trans hf
    · rintro ⟨name, hname, f, hf⟩
      obtain ⟨t, ht⟩ := kept_declared hkept hname
      exact nomatch ht.symm.trans hf
  · exact ⟨fun _ => hname, fun _ => hfails⟩

/-- Loading gives what the table says. -/
theorem load_kept (hT : Tells T units) {M : List String → Prop}
    (hfirm : Firm (namesOf units) fun _ m => M m) (hM : ∀ m f, M m → M (m.filter f))
    {name : String} (hmiss : ∀ f, T name = .error f → ∀ m, M m → M (m ++ [name])) :
    (kept T units M).Gives (load name) (T name) := by
  refine World.gives_of_ends (load_memory (fun h => (hT.primitive h).symm)
    (fun g m hP hname => hP.2.2 name hname) (fun l t hl ht => (hl.2.2.1.held ht).symm)
    (fun u hu hname d hd => ?_) fun hprimitive hname hnot => ?_)
  · obtain ⟨t, ht, hgives⟩ := hT.platform hu hname
    have hfirm : Firm (namesOf units) fun g m =>
        M m ∧ g.Bears T.Fits ∧ ∀ name ∈ namesOf units, g.contains name = true :=
      fun h h' => (hfirm h h').imp_right fun h g m hP => h g m hP.1
    have hnames : name = d.fullName :=
      (List.mem_singleton.mp ((Platform.checked_of_mem (Platform.mem_units hu)).declared ▸
        List.mem_map_of_mem hd)).symm
    have hshape := hT.shapes_platform hu hname hd ht
    refine ends_mono (World.ends_of_gives (fun _ h => h) (hgives d hd _ hfirm)) fun o ho => ⟨t, ho, ?_⟩
    refine fun g m hP => ⟨hM m _ hP.1, hP.2.1.addType LoadTable.Fits.supertypes_eq ?_,
      fun a ha => contains_addType (hP.2.2 a ha) t⟩
    rw [hshape.name, ← hnames]
    exact ht
  · have herror := hT.other hprimitive hname hnot
    exact ⟨herror.symm, fun g m hP => ⟨hmiss _ herror m hP.1, hP.2⟩⟩

/-! ## Supertypes -/

/-- What can be loaded: primitive types, types of the units, and the other types of the platform. -/
theorem Tells.cases (hT : Tells T units) {name : String} {t : TypeInfo} (ht : T name = .ok t) :
    (isPrimitiveName name = true ∧ t = .ofPrimitive name) ∨
      (∃ p ∈ units, ∃ d ∈ p.2.declared, d.fullName = name ∧ d.Shapes p.2.packageName p.1 t) ∨
        name ∉ namesOf units ∧ ∃ u, Platform.unit? name = some u ∧
          ∃ d, u.declared = [d] ∧ d.fullName = name ∧
            d.Shapes u.packageName (platformOrigin name) t := by
  cases hprimitive : isPrimitiveName name with
  | true => exact .inl ⟨rfl, Except.ok.inj (ht.symm.trans (hT.primitive hprimitive))⟩
  | false =>
  by_cases hname : name ∈ namesOf units
  · obtain ⟨p, hp, d, hd, rfl⟩ := mem_namesOf.mp hname
    exact .inr (.inl ⟨p, hp, d, hd, rfl, hT.shapes hp hd ht⟩)
  · cases hu : Platform.unit? name with
    | none =>
      rw [hT.other hprimitive hname (by rw [isPlatform, hu]; rfl)] at ht
      cases ht
    | some u =>
      obtain ⟨d, hdeclared, hd⟩ :=
        List.map_eq_singleton_iff.mp ((Platform.checked_of_mem (Platform.mem_units hu)).declared)
      exact .inr (.inr ⟨hname, u, rfl, d, hdeclared, hd,
        hT.shapes_platform hu hname (by simp [hdeclared]) ht⟩)

theorem Tells.name_eq (hT : Tells T units) {name : String} {t : TypeInfo} (ht : T name = .ok t) :
    t.name = name := by
  rcases hT.cases ht with ⟨-, rfl⟩ | ⟨p, -, d, -, rfl, h⟩ | ⟨-, u, -, d, -, rfl, h⟩
  · rfl
  · exact h.name
  · exact h.name

/-- What can be loaded, primitive types apart, is described by a declaration. -/
theorem Tells.described (hT : Tells T units) {name : String} {t : TypeInfo} (ht : T name = .ok t)
    (hprimitive : isPrimitiveName name = false) : t.Described := by
  let fresh : TypeGraph → List String → Prop := fun _ m => m = []
  have hstart : (memory (namesOf units) (room units) fresh).inv (ofUnits [] .empty units) :=
    start_fresh units
  have hdescribed : ∀ {d : Declared} {package origin : String} {s : Scope},
      (memory (namesOf units) (room units) fresh).Gives (d.describe package origin s) (.ok t) →
        t.Described := by
    intro d package origin s hgives
    have hrun := (World.ends_of_gives (fun _ h => h) hgives _ hstart).2
    exact ⟨d, package, origin, s, _, _, eq_ok_of_outcome hrun⟩
  rcases hT.cases ht with ⟨h, -⟩ | ⟨p, hp, d, hd, rfl, -⟩ | ⟨hname, u, hu, d, hdeclared, -⟩
  · rw [hprimitive] at h
    cases h
  · exact hdescribed (ht ▸ hT.declared p hp d hd fresh fun _ _ h => h)
  · obtain ⟨t', ht', hgives⟩ := hT.platform hu hname
    obtain rfl := Except.ok.inj (ht.symm.trans ht')
    exact hdescribed (hgives d (by simp [hdeclared]) fresh (firm_fresh _))

/-- The supertypes of all types, of the units and of the platform. -/
def supertypesOf (T : LoadTable) (units : List (String × CompilationUnit)) : List String :=
  (declaredBy units).flatMap (fun d => (T.lineage d.fullName).getD []) ++
    Platform.units.flatMap fun p =>
      if p.1 ∈ namesOf units then [] else (T.lineage p.1).getD []

theorem getD_lineage (T : LoadTable) (name : String) :
    (∃ t, T name = .ok t ∧ (T.lineage name).getD [] = t.supertypes) ∨
      (T.lineage name).getD [] = [] := by
  unfold LoadTable.lineage
  cases hT : T name with
  | ok t => exact .inl ⟨t, rfl, rfl⟩
  | error f => exact .inr rfl

theorem Tells.supertypes_mem (hT : Tells T units) {name : String} {t : TypeInfo}
    (ht : T name = .ok t) : t.supertypes ⊆ supertypesOf T units := by
  have hlineage : (T.lineage name).getD [] = t.supertypes := by
    rw [LoadTable.lineage_eq_some.mpr ⟨t, ht, rfl⟩]
    rfl
  intro b hb
  rcases hT.cases ht with ⟨-, rfl⟩ | ⟨p, hp, d, hd, rfl, -⟩ | ⟨hname, u, hu, -⟩
  · cases hb
  · refine List.mem_append_left _ (List.mem_flatMap.mpr ⟨d, ?_, hlineage ▸ hb⟩)
    exact List.mem_flatMap.mpr ⟨p, hp, hd⟩
  · refine List.mem_append_right _ (List.mem_flatMap.mpr ⟨_, Platform.mem_units hu, ?_⟩)
    rwa [if_neg hname, hlineage]

theorem Tells.length_supertypesOf (hT : Tells T units) :
    (supertypesOf T units).length ≤ room units := by
  have hunits : ((declaredBy units).flatMap fun d => (T.lineage d.fullName).getD []).length ≤
      ((declaredBy units).map headerSize).sum := by
    rw [List.length_flatMap]
    refine List.sum_le_sum fun d hd => ?_
    obtain ⟨p, hp, hd⟩ := List.mem_flatMap.mp hd
    rcases getD_lineage T d.fullName with ⟨t, ht, h⟩ | h
    · rw [h]
      exact (hT.shapes hp hd ht).supertypes.le
    · rw [h]
      exact Nat.zero_le _
  have hplatform : (Platform.units.flatMap fun p =>
      if p.1 ∈ namesOf units then [] else (T.lineage p.1).getD []).length ≤ 64 := by
    refine le_trans ?_ Platform.headers_units
    rw [List.length_flatMap]
    refine List.sum_le_sum fun p hp => ?_
    split
    · exact Nat.zero_le _
    · rename_i hname
      have hu := Platform.unit?_of_mem hp
      rcases getD_lineage T p.1 with ⟨t, ht, h⟩ | h
      · obtain ⟨d, hdeclared, -⟩ := List.map_eq_singleton_iff.mp ((Platform.checked_of_mem hp).declared)
        rw [h, hdeclared]
        have hshape := hT.shapes_platform hu hname (d := d) (by simp [hdeclared]) ht
        simpa using hshape.supertypes.le
      · rw [h]
        exact Nat.zero_le _
  rw [supertypesOf, List.length_append, room]
  omega

/-- What is above what by the table, as far as nothing but itself is above `java.lang.Object`. -/
theorem Tells.tame (hT : Tells T units) (helement : ∀ name ∈ namesOf units, elementName name = name)
    (hobject : ∀ t, T objectName = .ok t → ∀ name ∈ t.supertypes, name = objectName) :
    T.lineage.Tame (supertypesOf T units) := by
  refine ⟨fun {name above} h => ?_, fun h => ?_, fun {name above} h => ?_, fun {above} h => ?_⟩
  · obtain ⟨t, ht, rfl⟩ := LoadTable.lineage_eq_some.mp h
    exact hT.supertypes_mem ht
  · exact LoadTable.lineage_eq_some.mpr ⟨_, hT.primitive h, rfl⟩
  · obtain ⟨t, ht, rfl⟩ := LoadTable.lineage_eq_some.mp h
    rcases hT.cases ht with ⟨hprimitive, -⟩ | ⟨p, hp, d, hd, rfl, -⟩ | ⟨-, u, hu, -⟩
    · have hall : ∀ name ∈ primitiveNames, elementName name = name := by decide
      exact hall name (by simpa [isPrimitiveName] using hprimitive)
    · exact helement _ (mem_namesOf.mpr ⟨p, hp, d, hd, rfl⟩)
    · exact (Platform.checked_of_mem (Platform.mem_units hu)).isType.2
  · obtain ⟨t, ht, rfl⟩ := LoadTable.lineage_eq_some.mp h
    exact hobject t ht

theorem Tells.exists_ranked (hT : Tells T units)
    (hacyclic : ∀ name, ¬ Relation.TransGen T.Leads name name) :
    ∃ rank, T.Ranked rank ∧ ∀ name, rank name ≤ room units := by
  have habove : ∀ {a b}, T.Leads a b → b ∈ supertypesOf T units :=
    fun ⟨t, ht, hb⟩ => hT.supertypes_mem ht (Walk.parents_subset t hb)
  obtain ⟨rank, hrank, hle⟩ := LoadTable.exists_ranked hT.name_eq habove hacyclic
  exact ⟨rank, hrank, fun name => (hle name).trans hT.length_supertypesOf⟩

/-! ## Supplies -/

/-- Once all units are described, nothing fails but the search for types that there are not. -/
theorem Tells.eq_of_error (hT : Tells T units) (hall : ∀ name ∈ namesOf units, ∃ t, T name = .ok t)
    {name : String} {f : Failure} (hf : T name = .error f) : f = .typeNotFound name := by
  cases hprimitive : isPrimitiveName name with
  | true =>
    rw [hT.primitive hprimitive] at hf
    cases hf
  | false =>
  by_cases hname : name ∈ namesOf units
  · obtain ⟨t, ht⟩ := hall name hname
    rw [ht] at hf
    cases hf
  · cases hu : Platform.unit? name with
    | none =>
      rw [hT.other hprimitive hname (by rw [isPlatform, hu]; rfl)] at hf
      cases hf
      rfl
    | some u =>
      obtain ⟨t, ht, -⟩ := hT.platform hu hname
      rw [ht] at hf
      cases hf

theorem kept_holds (hT : Tells T units) (hfirm : Firm (namesOf units) fun _ _ => True) :
    (kept T units fun _ => True).Holds T.lineage fun _ => True := by
  refine ⟨fun name _ l hl => ?_, fun _ _ _ _ => trivial, fun _ h => h.elim, memory_quiet, fun l hl => ?_⟩
  · have hload : (kept T units fun _ => True).Gives (load name) (T name) :=
      load_kept hT hfirm (fun _ _ _ => trivial) fun _ _ _ _ => trivial
    obtain ⟨hinv, ho⟩ := World.ends_of_gives (fun _ h => h) hload l hl
    refine ⟨hinv, ?_⟩
    rw [ho]
    cases hname : T name with
    | ok t => exact .inl ⟨t, rfl, LoadTable.lineage_eq_some.mpr ⟨t, hname, rfl⟩⟩
    | error f =>
      refine .inr ⟨f, rfl, .inl ⟨?_, ?_⟩⟩
      · rw [hT.eq_of_error (fun a ha => kept_declared hl ha) hname]
        rfl
      · rw [LoadTable.lineage, hname]
        rfl
  · exact hl.2.2.1.mono fun name t ht => LoadTable.lineage_eq_some.mpr ⟨t, ht, rfl⟩

/-- The library supplies the types of the table and compares them by their supertypes. -/
theorem kept_supplies (hT : Tells T units) (hfirm : Firm (namesOf units) fun _ _ => True)
    (htame : T.lineage.Tame (supertypesOf T units)) {rank : String → Nat}
    (hrank : ∀ name, rank name ≤ room units) :
    (kept T units fun _ => True).Supplies T (fun target source => .ok (T.lineage.verdict target source))
      rank Library.supply := by
  refine ⟨⟨fun name => ?_, fun _ h => h.elim⟩, fun target source => ?_, fun e => ?_,
    fun l hl name => ((hrank name).trans_lt hl.1.extent).trans_le l.extent_le_depth⟩
  · exact load_kept hT hfirm (fun _ _ _ => trivial) fun _ _ _ _ => trivial
  · refine isAssignable_gives (kept_holds hT hfirm) htame (fun l hl => ?_) target trivial
    exact hT.length_supertypesOf.trans_lt hl.1.extent
  · exact World.Quiet.report memory_quiet e

end Library

end StubWriter
