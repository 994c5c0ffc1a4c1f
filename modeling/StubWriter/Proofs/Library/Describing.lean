import StubWriter.Library.Load
import StubWriter.Proofs.Library.Meaning

/-!
# What a description depends on

The type that a declaration describes depends on the library only through the meaning of the names
that the declaration is written with.

* `TypeDecl.names`: those names. Names in bodies, and bounds behind the first one, are not among
  them, nor are the names of nested types, which are declarations of their own.
* `Declared.describe_of`: what sequences of steps inherit goes over from the names to the
  declaration; so it describes a fixed type where the names have fixed meanings.
* `Declared.Shapes`: what a declaration says without any names being looked up.
-/

namespace StubWriter

open Run

/-! ## The names in a declaration -/

/-- The dotted name of a type; a basic type has none. -/
def TypeUse.names : TypeUse → List (List String)
  | .basic _ _ => []
  | .named segments _ => [segments]

/-- The first bound, which is the only one that is looked up. -/
def TypeParam.names (p : TypeParam) : List (List String) :=
  p.bounds.take 1

def MethodDecl.names (m : MethodDecl) : List (List String) :=
  m.typeParams.flatMap TypeParam.names ++ m.returns.toList.flatMap TypeUse.names ++
    m.params.flatMap (·.type.names) ++ m.throws

def ConstructorDecl.names (c : ConstructorDecl) : List (List String) :=
  c.typeParams.flatMap TypeParam.names ++ c.params.flatMap (·.type.names) ++ c.throws

/-- The names that a declaration is written with, in its header and in those of its methods and
constructors. -/
def TypeDecl.names (d : TypeDecl) : List (List String) :=
  d.typeParams.flatMap TypeParam.names ++ d.extended.flatMap TypeUse.names ++
    d.implemented.flatMap TypeUse.names ++ d.methods.flatMap MethodDecl.names ++
    d.constructors.flatMap ConstructorDecl.names

/-- The names that the declarations of a unit are written with. -/
def CompilationUnit.names (u : CompilationUnit) : List (List String) :=
  u.declared.flatMap (·.decl.names)

theorem Declared.names_subset {u : CompilationUnit} {d : Declared} (hd : d ∈ u.declared) :
    d.decl.names ⊆ u.names :=
  fun _ hn => List.mem_flatMap.mpr ⟨d, hd, hn⟩

/-! ## Descriptions -/

section Compositional

variable {C : (α : Type) → Lookup α → Prop} {s : Scope}

namespace Scope

theorem existing_of (hC : Compositional C) {names : List String}
    (h : ∀ a ∈ names, C _ (Library.exists? a)) : C _ (existing names) := by
  induction names with
  | nil => exact hC.pure _
  | cons a as ih =>
    unfold existing
    refine hC.bind (h a List.mem_cons_self) fun found => ?_
    exact hC.bind (ih fun b hb => h b (List.mem_cons_of_mem _ hb)) fun others => hC.pure _

theorem resolveSimple?_of (hC : Compositional C)
    (hthrow : ∀ {α : Type} f, f.isNotFound = true → C α (throw f)) {simple : String}
    (h : ∀ a ∈ s.asks simple, C _ (Library.exists? a)) :
    C _ (s.resolveSimple? simple) := by
  unfold resolveSimple?
  cases hlocal : s.localTypes.lookup simple with
  | some name => exact hC.pure _
  | none =>
  cases himport : s.singleImports.lookup simple with
  | some name => exact hC.pure _
  | none =>
  rw [asks_of_free (by simp [binds, hlocal, himport])] at h
  have hdemand : ∀ a ∈ s.onDemand.map (· ++ "." ++ simple), C _ (Library.exists? a) :=
    fun a ha => h a (List.mem_cons_of_mem _ (List.mem_append_left _ ha))
  refine hC.bind (h _ List.mem_cons_self) fun found => ?_
  cases found with
  | true => exact hC.pure _
  | false =>
  refine hC.bind (existing_of hC hdemand) fun names => ?_
  rcases names with _ | ⟨name, _ | ⟨other, more⟩⟩
  case cons.nil => exact hC.pure _
  case cons.cons => exact hthrow _ rfl
  cases Platform.langNames.contains simple with
  | true => exact hC.pure _
  | false =>
    refine hC.bind (h ("java.lang." ++ simple) (by simp)) fun found => ?_
    cases found <;> exact hC.pure _

/-- A property that sequences inherit, and that reports and failures to find have, holds of looking
up a name as soon as it holds of the questions that the name raises. -/
theorem resolveName_of (hC : Compositional C)
    (hthrow : ∀ {α : Type} f, f.isNotFound = true → C α (throw f))
    (hreport : ∀ e, C _ (Library.report e)) {n : List String}
    (h : ∀ a ∈ s.asks (n.headD ""), C _ (Library.exists? a)) : C _ (s.resolveName n) := by
  unfold resolveName
  refine hC.bind (resolveSimple?_of hC hthrow h) fun base? => ?_
  cases base? with
  | some base => exact hC.pure _
  | none =>
    dsimp only
    split
    · exact hC.pure _
    split
    · exact hthrow _ rfl
    · exact hC.bind (hreport _) fun _ => hC.pure _

theorem resolveType_of (hC : Compositional C) {t : TypeUse}
    (h : ∀ n ∈ t.names, C _ (s.resolveName n)) : C _ (s.resolveType t) := by
  cases t with
  | basic name dims => exact hC.pure _
  | named segments dims =>
    have hname : C _ (s.resolveName segments) := h segments List.mem_cons_self
    have hplain : C _ do return (← s.resolveName segments) ++ brackets dims :=
      hC.bind hname fun _ => hC.pure _
    unfold resolveType
    match segments with
    | [] => exact hplain
    | [simple] =>
      dsimp only
      split
      · exact hC.pure _
      · exact hplain
    | _ :: _ :: _ => exact hplain

theorem resolveReturn_of (hC : Compositional C) {t? : Option TypeUse}
    (h : ∀ n ∈ t?.toList.flatMap TypeUse.names, C _ (s.resolveName n)) :
    C _ (s.resolveReturn t?) := by
  cases t? with
  | none => exact hC.pure _
  | some t => exact resolveType_of hC fun n hn => h n (by simpa using hn)

theorem resolveTypes_of (hC : Compositional C) {ts : List TypeUse}
    (h : ∀ n ∈ ts.flatMap TypeUse.names, C _ (s.resolveName n)) : C _ (s.resolveTypes ts) :=
  hC.mapM fun t ht => resolveType_of hC fun n hn => h n (List.mem_flatMap.mpr ⟨t, ht, hn⟩)

theorem resolveParams_of (hC : Compositional C) {ps : List Param}
    (h : ∀ n ∈ ps.flatMap (·.type.names), C _ (s.resolveName n)) : C _ (s.resolveParams ps) := by
  refine hC.mapM fun p hp => ?_
  have htype : C _ (s.resolveType p.type) :=
    resolveType_of hC fun n hn => h n (List.mem_flatMap.mpr ⟨p, hp, hn⟩)
  exact hC.bind htype fun _ => hC.pure _

theorem eraseTypeParams_of (hC : Compositional C) {ps : List TypeParam}
    (h : ∀ n ∈ ps.flatMap TypeParam.names, C _ (s.resolveName n))
    (erased : List (String × String)) : C _ (s.eraseTypeParams erased ps) := by
  induction ps generalizing erased with
  | nil => exact hC.pure _
  | cons p ps ih =>
    rw [List.flatMap_cons] at h
    have hrest := ih fun n hn => h n (List.mem_append_right _ hn)
    have hbound : ∀ n ∈ p.names, C _ (s.resolveName n) :=
      fun n hn => h n (List.mem_append_left _ hn)
    unfold TypeParam.names at hbound
    unfold eraseTypeParams
    match hbs : p.bounds with
    | [] => exact hC.bind (hC.pure objectName) fun _ => hrest _
    | bound :: more =>
      rw [hbs] at hbound
      -- The erased parameters do not change what a dotted name means.
      have hfirst : C _ ((s.withTypeVars erased).resolveType (.named bound 0)) :=
        resolveType_of hC fun n hn => hbound n (by simpa [TypeUse.names] using hn)
      exact hC.bind hfirst fun _ => hrest _

theorem enter_nil (s : Scope) : s.enter [] = pure s :=
  rfl

theorem enter_bind {α : Type} (s : Scope) (ps : List TypeParam) (f : Scope → Lookup α) :
    s.enter ps >>= f = s.eraseTypeParams [] ps >>= fun vars => f (s.withTypeVars vars) := by
  unfold enter
  simp only [bind_assoc, pure_bind]

end Scope

theorem MethodDecl.describe_of (hC : Compositional C) {m : MethodDecl} {owner : String}
    {inInterface : Bool} (h : ∀ n ∈ m.names, C _ (s.resolveName n)) :
    C _ (m.describe owner inInterface s) := by
  have hsub : ∀ ns : List (List String), ns ⊆ m.names → ∀ n ∈ ns, C _ (s.resolveName n) :=
    fun ns hns n hn => h n (hns hn)
  unfold MethodDecl.describe
  rw [Scope.enter_bind]
  refine hC.bind (Scope.eraseTypeParams_of hC (hsub _ ?_) []) fun vars => ?_
  · intro n hn
    simp [MethodDecl.names, hn]
  refine hC.bind (Scope.resolveReturn_of hC (hsub _ ?_)) fun returns => ?_
  · intro n hn
    simp only [MethodDecl.names, List.mem_append, hn, or_true, true_or]
  refine hC.bind (Scope.resolveParams_of hC (hsub _ ?_)) fun params => ?_
  · intro n hn
    simp only [MethodDecl.names, List.mem_append, hn, or_true, true_or]
  refine hC.bind (hC.mapM (hsub m.throws ?_)) fun throws => hC.pure _
  intro n hn
  simp only [MethodDecl.names, List.mem_append, hn, or_true]

theorem ConstructorDecl.describe_of (hC : Compositional C) {c : ConstructorDecl} {owner : String}
    (h : ∀ n ∈ c.names, C _ (s.resolveName n)) : C _ (c.describe owner s) := by
  have hsub : ∀ ns : List (List String), ns ⊆ c.names → ∀ n ∈ ns, C _ (s.resolveName n) :=
    fun ns hns n hn => h n (hns hn)
  unfold ConstructorDecl.describe
  rw [Scope.enter_bind]
  refine hC.bind (Scope.eraseTypeParams_of hC (hsub _ ?_) []) fun vars => ?_
  · intro n hn
    simp only [ConstructorDecl.names, List.mem_append, hn, true_or]
  refine hC.bind (Scope.resolveParams_of hC (hsub _ ?_)) fun params => ?_
  · intro n hn
    simp only [ConstructorDecl.names, List.mem_append, hn, or_true, true_or]
  refine hC.bind (hC.mapM (hsub c.throws ?_)) fun throws => hC.pure _
  intro n hn
  simp only [ConstructorDecl.names, List.mem_append, hn, or_true]

namespace Declared

variable {d : Declared}

theorem superclass_of (hC : Compositional C)
    (h : ∀ n ∈ d.decl.extended.flatMap TypeUse.names, C _ (s.resolveName n)) :
    C _ (d.superclass s) := by
  unfold superclass
  split
  · split
    · exact hC.pure _
    · rename_i t ts hextended
      rw [hextended] at h
      have htype : C _ (s.resolveType t) :=
        Scope.resolveType_of hC fun n hn => h n (by simp [hn])
      exact hC.bind htype fun _ => hC.pure _
  · exact hC.pure _
  · exact hC.pure _

theorem interfaces_of (hC : Compositional C)
    (hextended : ∀ n ∈ d.decl.extended.flatMap TypeUse.names, C _ (s.resolveName n))
    (himplemented : ∀ n ∈ d.decl.implemented.flatMap TypeUse.names, C _ (s.resolveName n)) :
    C _ (d.interfaces s) := by
  unfold interfaces
  split
  · exact Scope.resolveTypes_of hC himplemented
  · exact Scope.resolveTypes_of hC hextended
  · exact Scope.resolveTypes_of hC himplemented
  · exact hC.pure _

theorem methods_of (hC : Compositional C)
    (h : ∀ n ∈ d.decl.methods.flatMap MethodDecl.names, C _ (s.resolveName n)) :
    C _ (d.methods s) := by
  have hmethod : ∀ inInterface, C _ (d.decl.methods.mapM (·.describe d.fullName inInterface s)) :=
    fun inInterface => hC.mapM fun m hm => MethodDecl.describe_of hC fun n hn =>
      h n (List.mem_flatMap.mpr ⟨m, hm, hn⟩)
  unfold methods
  split
  · exact hmethod false
  · exact hmethod true
  · exact hC.pure _

theorem constructors_of (hC : Compositional C)
    (h : ∀ n ∈ d.decl.constructors.flatMap ConstructorDecl.names, C _ (s.resolveName n)) :
    C _ (d.constructors s) := by
  unfold constructors
  split
  · refine hC.bind (hC.mapM fun c hc => ConstructorDecl.describe_of hC fun n hn =>
      h n (List.mem_flatMap.mpr ⟨c, hc, hn⟩)) fun stated => ?_
    split
    · exact hC.pure _
    · exact hC.pure _
  · exact hC.pure _

/-- A property that sequences inherit holds of a description as soon as it holds of looking up the
names of the declaration. -/
theorem describe_of (hC : Compositional C) {package origin : String}
    (h : ∀ n ∈ d.decl.names, C _ (s.resolveName n)) : C _ (d.describe package origin s) := by
  have hsub : ∀ ns : List (List String), ns ⊆ d.decl.names → ∀ n ∈ ns, C _ (s.resolveName n) :=
    fun ns hns n hn => h n (hns hn)
  have hextended := hsub (d.decl.extended.flatMap TypeUse.names) fun n hn => by
    simp only [TypeDecl.names, List.mem_append, hn, or_true, true_or]
  have himplemented := hsub (d.decl.implemented.flatMap TypeUse.names) fun n hn => by
    simp only [TypeDecl.names, List.mem_append, hn, or_true, true_or]
  unfold describe
  rw [Scope.enter_bind]
  refine hC.bind (Scope.eraseTypeParams_of hC (hsub _ ?_) []) fun vars => ?_
  · intro n hn
    simp only [TypeDecl.names, List.mem_append, hn, true_or]
  refine hC.bind (superclass_of hC hextended) fun superclass => ?_
  refine hC.bind (interfaces_of hC hextended himplemented) fun interfaces => ?_
  refine hC.bind (methods_of hC (hsub _ ?_)) fun methods => ?_
  · intro n hn
    simp only [TypeDecl.names, List.mem_append, hn, or_true, true_or]
  refine hC.bind (constructors_of hC (hsub _ ?_)) fun constructors => hC.pure _
  intro n hn
  simp only [TypeDecl.names, List.mem_append, hn, or_true]

end Declared

end Compositional

/-- What a declaration describes follows from what its names mean. -/
theorem Declared.describe_meaning (d : Declared) (s : Scope)
    (mean : List String → Except Failure String) (package origin : String) :
    ∃ v, ∀ W : World Library, (∀ n ∈ d.decl.names, W.Gives (s.resolveName n) (mean n)) →
      W.Gives (d.describe package origin s) v := by
  have hfixed : Fixed (fun W : {W : World Library //
      ∀ n ∈ d.decl.names, W.Gives (s.resolveName n) (mean n)} => W.1) fun _ =>
        d.describe package origin s :=
    d.describe_of (fixed_compositional _) fun n hn => fixed_of_gives (mean n) fun W => W.2 n hn
  obtain ⟨v, -, hv⟩ := hfixed
  exact ⟨v, fun W hW => hv ⟨W, hW⟩⟩

/-! ## What a header says -/

/-- The names in the header of a declaration. -/
def TypeDecl.headerNames (d : TypeDecl) : List (List String) :=
  d.typeParams.flatMap TypeParam.names ++ d.extended.flatMap TypeUse.names ++
    d.implemented.flatMap TypeUse.names

theorem TypeDecl.headerNames_subset (d : TypeDecl) : d.headerNames ⊆ d.names :=
  fun _ hn => List.mem_append_left _ (List.mem_append_left _ hn)

/-- Where the names in a header have fixed meanings and the others have some meaning, the supertypes
of the described type are fixed. -/
theorem Declared.describe_supertypes {ι : Type} {W : ι → World Library} {d : Declared} {s : Scope}
    (hheader : ∀ n ∈ d.decl.headerNames, Settled W fun _ => s.resolveName n)
    (hnames : ∀ n ∈ d.decl.names, ∀ i, (W i).Succeeds (s.resolveName n))
    (package origin : String) :
    ∃ above, ∀ i, Ends (W i).inv (d.describe package origin s) fun o =>
      (∃ t, o = .ok t ∧ t.supertypes = above) ∨ ∃ f, (W i).excused f ∧ o = .error f := by
  have hsettled := settled_compositional W
  have hheaders : ∀ ns, ns ⊆ d.decl.headerNames →
      ∀ n ∈ ns, Settled W fun _ => s.resolveName n := fun ns hns n hn => hheader n (hns hn)
  have hextended := hheaders (d.decl.extended.flatMap TypeUse.names) fun n hn => by
    simp only [TypeDecl.headerNames, List.mem_append, hn, or_true, true_or]
  have himplemented := hheaders (d.decl.implemented.flatMap TypeUse.names) fun n hn => by
    simp only [TypeDecl.headerNames, List.mem_append, hn, or_true]
  have hparams := hheaders (d.decl.typeParams.flatMap TypeParam.names) fun n hn => by
    simp only [TypeDecl.headerNames, List.mem_append, hn, true_or]
  obtain ⟨vars, hvars⟩ := Scope.eraseTypeParams_of hsettled hparams []
  let inner := s.withTypeVars vars
  obtain ⟨superclass, hsuper⟩ : Settled W fun _ => d.superclass inner :=
    superclass_of hsettled hextended
  obtain ⟨interfaces, hinterfaces⟩ : Settled W fun _ => d.interfaces inner :=
    interfaces_of hsettled hextended himplemented
  refine ⟨(superclass.filter fun name => !name.isEmpty).toList ++ interfaces, fun i => ?_⟩
  have hexcused : ∀ f, (W i).excused f → (∃ t, (.error f : Except Failure TypeInfo) = .ok t ∧
      t.supertypes = (superclass.filter fun name => !name.isEmpty).toList ++ interfaces) ∨
        ∃ f', (W i).excused f' ∧ (.error f : Except Failure TypeInfo) = .error f' :=
    fun f hf => .inr ⟨f, hf, rfl⟩
  have hsucceeds := succeeds_compositional (W i)
  have hmethods : (W i).Succeeds (d.methods inner) :=
    methods_of hsucceeds fun n hn => hnames n (by
      simp only [TypeDecl.names, List.mem_append, hn, or_true, true_or]) i
  have hconstructors : (W i).Succeeds (d.constructors inner) :=
    constructors_of hsucceeds fun n hn => hnames n (by
      simp only [TypeDecl.names, List.mem_append, hn, or_true]) i
  have hlost : ∀ {α : Type} {e : Failure}, ((∃ a : α, (.error e : Except Failure α) = .ok a) ∨
      ∃ f, (W i).excused f ∧ (.error e : Except Failure α) = .error f) → (W i).excused e := by
    rintro α e (⟨a, ha⟩ | ⟨f, hf, he⟩)
    · cases ha
    · cases he
      exact hf
  unfold describe
  rw [Scope.enter_bind]
  refine World.ends_bind_of_gives (hvars i) ?_ hexcused
  refine World.ends_bind_of_gives (hsuper i) ?_ hexcused
  refine World.ends_bind_of_gives (hinterfaces i) ?_ hexcused
  refine ends_bind hmethods (fun methods _ => ?_) fun e he => hexcused e (hlost he)
  refine ends_bind hconstructors (fun constructors _ => ?_) fun e he => hexcused e (hlost he)
  exact ends_pure (.inl ⟨_, rfl, rfl⟩)

/-! ## What needs no looking up -/

/-- What the type of a declaration has from the declaration itself and from its unit. -/
structure Declared.Shapes (d : Declared) (package origin : String) (t : TypeInfo) : Prop where
  name : t.name = d.fullName
  simpleName : t.simpleName = d.decl.name
  kind : t.kind = d.decl.kind.typeKind
  package : t.package = package
  modifiers : t.modifiers = d.modifiers
  supertypes : t.supertypes.length < Library.headerSize d
  sourceFile : t.sourceFile = some origin

theorem Scope.resolveTypes_length (s : Scope) (ts : List TypeUse) (l : Library) :
    Ok (s.resolveTypes ts) l fun names _ => names.length = ts.length :=
  ok_mapM_length

theorem Scope.resolveParams_length (s : Scope) (ps : List Param) (l : Library) :
    Ok (s.resolveParams ps) l fun names _ => names.length = ps.length :=
  ok_mapM_length

theorem Scope.resolveThrows_length (s : Scope) (ns : List (List String)) (l : Library) :
    Ok (s.resolveThrows ns) l fun names _ => names.length = ns.length :=
  ok_mapM_length

theorem Declared.interfaces_length (d : Declared) (s : Scope) (l : Library) :
    Ok (d.interfaces s) l fun names _ =>
      names.length ≤ d.decl.extended.length + d.decl.implemented.length := by
  unfold interfaces
  split
  · exact ok_mono (s.resolveTypes_length _ l) fun _ _ h => by omega
  · exact ok_mono (s.resolveTypes_length _ l) fun _ _ h => by omega
  · exact ok_mono (s.resolveTypes_length _ l) fun _ _ h => by omega
  · exact ok_pure (Nat.zero_le _)

theorem Declared.describe_shapes (d : Declared) (package origin : String) (s : Scope)
    (l : Library) : Ok (d.describe package origin s) l fun t _ => d.Shapes package origin t := by
  unfold describe
  refine ok_bind (ok_self _ _) fun inner l₁ _ => ?_
  refine ok_bind (ok_self _ _) fun superclass l₂ _ => ?_
  refine ok_bind (d.interfaces_length inner l₂) fun interfaces l₃ hlength => ?_
  refine ok_bind (ok_self _ _) fun methods l₄ _ => ?_
  refine ok_bind (ok_self _ _) fun constructors l₅ _ => ok_pure ?_
  refine ⟨rfl, rfl, rfl, rfl, rfl, ?_, rfl⟩
  have hsuper : ∀ o : Option String, o.toList.length ≤ 1 := by
    intro o
    cases o <;> simp
  have := hsuper (superclass.filter fun name => !name.isEmpty)
  simp only [TypeInfo.supertypes, TypeInfo.superclass?, List.length_append, Library.headerSize]
  omega

end StubWriter
