import StubWriter.Proofs.Library.Growth

/-!
# What a description reads

A description looks up dotted names and puts together what they mean. Given the meanings, what comes
out needs no library: a type variable is erased to what stands for it, and any other name to its
meaning.

* `TypeUse.read`, `TypeParam.readAll`: erasure, given what dotted names mean.
* `Declared.read`: the type that a declaration describes, given what dotted names mean.
* `Declared.describe_reads`: the description of a declaration comes to its reading.
-/

namespace StubWriter

open Run

/-! ## Runs without their failures -/

/-- The result of a run from any state of `I`, if it has one. -/
def Run.Reads {σ α : Type} (I : σ → Prop) (x : EStateM Failure σ α) (v : Option α) : Prop :=
  Ends I x fun o => o.toOption = v

namespace Run

variable {σ α β : Type} {I : σ → Prop} {x : EStateM Failure σ α}

theorem reads_pure (a : α) : Reads I (pure a : EStateM Failure σ α) (some a) :=
  ends_pure rfl

theorem reads_bind {v : Option α} {f : α → EStateM Failure σ β} {g : α → Option β}
    (hx : Reads I x v) (hf : ∀ a, v = some a → Reads I (f a) (g a)) :
    Reads I (x >>= f) (v >>= g) := by
  refine ends_bind hx (fun a ha => ?_) fun e he => ?_
  · cases ha
    exact hf a rfl
  · cases he
    rfl

theorem reads_mapM {xs : List α} {f : α → EStateM Failure σ β} {g : α → Option β}
    (h : ∀ a ∈ xs, Reads I (f a) (g a)) : Reads I (xs.mapM f) (xs.mapM g) := by
  induction xs with
  | nil => exact reads_pure []
  | cons a as ih =>
    rw [List.mapM_cons, List.mapM_cons]
    refine reads_bind (h a List.mem_cons_self) fun b _ => ?_
    exact reads_bind (ih fun c hc => h c (List.mem_cons_of_mem _ hc)) fun bs _ => reads_pure _

end Run

/-! ## Readings -/

section Read

variable (mean : List String → Option String)

/-- What a dotted name is erased to. Only a name of one segment can be a type variable. -/
def erasedName (vars : List (String × String)) : List String → Option String
  | [simple] => (vars.lookup simple).or (mean [simple])
  | segments => mean segments

def TypeUse.read (vars : List (String × String)) : TypeUse → Option String
  | .basic name dims => some (name ++ Scope.brackets dims)
  | .named segments dims => do return (← erasedName mean vars segments) ++ Scope.brackets dims

/-- What a type parameter is erased to, given the variables in scope at its bound. -/
def TypeParam.read (vars : List (String × String)) (p : TypeParam) : Option String :=
  match p.bounds with
  | [] => some objectName
  | bound :: _ => (TypeUse.named bound 0).read mean vars

/-- The type variables of a section in front of those around it, the last one first. -/
def TypeParam.readAll (vars : List (String × String)) :
    List TypeParam → Option (List (String × String))
  | [] => some vars
  | p :: ps => do readAll ((p.name, ← p.read mean vars) :: vars) ps

def Param.read (vars : List (String × String)) (p : Param) : Option String := do
  let erased ← p.type.read mean vars
  return if p.varargs then erased ++ "[]" else erased

def MethodDecl.read (owner : String) (inInterface : Bool) (vars : List (String × String))
    (m : MethodDecl) : Option Method := do
  let inner ← TypeParam.readAll mean vars m.typeParams
  let returns ← m.returns.elim (some "void") (·.read mean inner)
  let params ← m.params.mapM (·.read mean inner)
  let throws ← m.throws.mapM mean
  return {
    declaringType := owner
    name := m.name
    returns
    params
    throws
    visibility := m.visibility inInterface
    isAbstract := m.isAbstract inInterface
    isStatic := m.modifiers.contains "static"
    isFinal := m.modifiers.contains "final" }

def ConstructorDecl.read (owner : String) (vars : List (String × String)) (c : ConstructorDecl) :
    Option Constructor := do
  let inner ← TypeParam.readAll mean vars c.typeParams
  let params ← c.params.mapM (·.read mean inner)
  let throws ← c.throws.mapM mean
  return { declaringType := owner, params, throws, visibility := .ofModifiers c.modifiers }

end Read

namespace Declared

/-- The type that a class says it extends. -/
def extendedUse? (d : Declared) : Option TypeUse :=
  if d.decl.kind = .classDecl then d.decl.extended.head? else none

def interfaceUses (d : Declared) : List TypeUse :=
  match d.decl.kind with
  | .classDecl => d.decl.implemented
  | .interfaceDecl => d.decl.extended
  | .enumDecl => d.decl.implemented
  | .annotationDecl => []

/-- The methods that matter, those of classes and interfaces. -/
def methodDecls (d : Declared) : List MethodDecl :=
  match d.decl.kind with
  | .classDecl => d.decl.methods
  | .interfaceDecl => d.decl.methods
  | _ => []

def constructorDecls (d : Declared) : List ConstructorDecl :=
  if d.decl.kind = .classDecl then d.decl.constructors else []

/-- The superclass of a type that names none. -/
def usualSuperclass? (d : Declared) : Option String :=
  match d.decl.kind with
  | .classDecl => some objectName
  | .enumDecl => some "java.lang.Enum"
  | _ => none

variable (mean : List String → Option String) (inner : List (String × String))

def readSuperclass (d : Declared) : Option (Option String) :=
  d.extendedUse?.elim (some d.usualSuperclass?) fun t => do return some (← t.read mean inner)

/-- The constructors of a declaration. A class that states none has one all the same. -/
def readConstructors (d : Declared) : Option (List Constructor) := do
  let stated ← d.constructorDecls.mapM (·.read mean d.fullName inner)
  return if d.decl.kind = .classDecl ∧ stated = [] then
    [{ declaringType := d.fullName, params := [], throws := [], visibility := d.visibility }]
  else stated

/-- The type of a declaration whose type variables have been read. -/
def readInside (d : Declared) (package origin : String) : Option TypeInfo := do
  let superclass ← d.readSuperclass mean inner
  let interfaces ← d.interfaceUses.mapM (·.read mean inner)
  let methods ←
    d.methodDecls.mapM (·.read mean d.fullName (d.decl.kind == .interfaceDecl) inner)
  let constructors ← d.readConstructors mean inner
  return {
    name := d.fullName
    simpleName := d.decl.name
    kind := d.decl.kind.typeKind
    package
    visibility := d.visibility
    modifiers := d.modifiers
    superclass
    interfaces
    constructors
    methods
    sourceFile := some origin }

/-- The type that a declaration describes where the given type variables are in scope. -/
def read (d : Declared) (package origin : String) (vars : List (String × String)) :
    Option TypeInfo := do
  d.readInside mean (← TypeParam.readAll mean vars d.decl.typeParams) package origin

end Declared

/-! ## Descriptions come to readings -/

section Describe

variable {I : Library → Prop} {mean : List String → Option String} {s : Scope}

namespace Scope

theorem resolveType_reads {t : TypeUse} (h : ∀ n ∈ t.names, Reads I (s.resolveName n) (mean n)) :
    Reads I (s.resolveType t) (t.read mean s.typeVars) := by
  cases t with
  | basic name dims => exact reads_pure _
  | named segments dims =>
    have hname : Reads I (s.resolveName segments) (mean segments) := h segments List.mem_cons_self
    have hplain : Reads I (do return (← s.resolveName segments) ++ brackets dims)
        (do return (← mean segments) ++ brackets dims) := reads_bind hname fun _ _ => reads_pure _
    unfold resolveType TypeUse.read
    match segments with
    | [] => exact hplain
    | [simple] =>
      dsimp only [erasedName]
      cases s.typeVars.lookup simple with
      | none => exact hplain
      | some erased => exact reads_pure _
    | _ :: _ :: _ => exact hplain

theorem eraseTypeParams_reads {ps : List TypeParam}
    (h : ∀ n ∈ ps.flatMap TypeParam.names, Reads I (s.resolveName n) (mean n))
    (erased : List (String × String)) :
    Reads I (do return (← s.eraseTypeParams erased ps) ++ s.typeVars)
      (TypeParam.readAll mean (erased ++ s.typeVars) ps) := by
  induction ps generalizing erased with
  | nil => exact reads_pure _
  | cons p ps ih =>
    rw [List.flatMap_cons] at h
    have hrest := fun erasure =>
      ih (fun n hn => h n (List.mem_append_right _ hn)) ((p.name, erasure) :: erased)
    unfold eraseTypeParams TypeParam.readAll TypeParam.read
    cases hbounds : p.bounds with
    | nil => exact reads_bind (reads_pure objectName) fun erasure _ => hrest erasure
    | cons bound more =>
      have hbound : Reads I ((s.withTypeVars erased).resolveType (.named bound 0))
          ((TypeUse.named bound 0).read mean (erased ++ s.typeVars)) := by
        refine resolveType_reads (s := s.withTypeVars erased) fun n hn => ?_
        refine h n (List.mem_append_left _ ?_)
        simpa [TypeParam.names, hbounds, TypeUse.names] using hn
      simp only [bind_assoc]
      exact reads_bind hbound fun erasure _ => hrest erasure

/-- What follows the section of a declaration. -/
theorem enter_reads {α : Type} {ps : List TypeParam}
    (h : ∀ n ∈ ps.flatMap TypeParam.names, Reads I (s.resolveName n) (mean n))
    {f : Scope → Lookup α} {g : List (String × String) → Option α}
    (hf : ∀ vars, Reads I (f { s with typeVars := vars }) (g vars)) :
    Reads I (s.enter ps >>= f) (TypeParam.readAll mean s.typeVars ps >>= g) := by
  have hvars := reads_bind (eraseTypeParams_reads h []) fun vars _ => hf vars
  simp only [bind_assoc, pure_bind, List.nil_append] at hvars
  rwa [enter_bind]

theorem resolveParams_reads {ps : List Param}
    (h : ∀ n ∈ ps.flatMap (·.type.names), Reads I (s.resolveName n) (mean n)) :
    Reads I (s.resolveParams ps) (ps.mapM (·.read mean s.typeVars)) := by
  refine reads_mapM fun p hp => ?_
  refine reads_bind (resolveType_reads fun n hn => ?_) fun _ _ => reads_pure _
  exact h n (List.mem_flatMap.mpr ⟨p, hp, hn⟩)

end Scope

theorem MethodDecl.describe_reads {m : MethodDecl} {owner : String} {inInterface : Bool}
    (h : ∀ n ∈ m.names, Reads I (s.resolveName n) (mean n)) :
    Reads I (m.describe owner inInterface s) (m.read mean owner inInterface s.typeVars) := by
  have hsub : ∀ ns : List (List String), ns ⊆ m.names →
      ∀ n ∈ ns, Reads I (s.resolveName n) (mean n) := fun ns hns n hn => h n (hns hn)
  unfold MethodDecl.describe MethodDecl.read
  refine Scope.enter_reads (hsub _ fun n hn => ?_) fun inner => ?_
  · simp only [MethodDecl.names, List.mem_append, hn, true_or]
  have hreturns : Reads I (Scope.resolveReturn { s with typeVars := inner } m.returns)
      (m.returns.elim (some "void") (·.read mean inner)) := by
    cases hm : m.returns with
    | none => exact reads_pure _
    | some t =>
      refine Scope.resolveType_reads (s := { s with typeVars := inner }) fun n hn => h n ?_
      simp [MethodDecl.names, hm, hn]
  refine reads_bind hreturns fun returns _ => ?_
  have hparams := hsub (m.params.flatMap (·.type.names)) fun n hn => by
    simp only [MethodDecl.names, List.mem_append, hn, or_true, true_or]
  refine reads_bind (Scope.resolveParams_reads hparams) fun params _ => ?_
  refine reads_bind (reads_mapM (hsub m.throws fun n hn => ?_)) fun throws _ => reads_pure _
  simp only [MethodDecl.names, List.mem_append, hn, or_true]

theorem ConstructorDecl.describe_reads {c : ConstructorDecl} {owner : String}
    (h : ∀ n ∈ c.names, Reads I (s.resolveName n) (mean n)) :
    Reads I (c.describe owner s) (c.read mean owner s.typeVars) := by
  have hsub : ∀ ns : List (List String), ns ⊆ c.names →
      ∀ n ∈ ns, Reads I (s.resolveName n) (mean n) := fun ns hns n hn => h n (hns hn)
  unfold ConstructorDecl.describe ConstructorDecl.read
  refine Scope.enter_reads (hsub _ fun n hn => ?_) fun inner => ?_
  · simp only [ConstructorDecl.names, List.mem_append, hn, true_or]
  have hparams := hsub (c.params.flatMap (·.type.names)) fun n hn => by
    simp only [ConstructorDecl.names, List.mem_append, hn, or_true, true_or]
  refine reads_bind (Scope.resolveParams_reads hparams) fun params _ => ?_
  refine reads_bind (reads_mapM (hsub c.throws fun n hn => ?_)) fun throws _ => reads_pure _
  simp only [ConstructorDecl.names, List.mem_append, hn, or_true]

namespace Declared

variable {d : Declared} (h : ∀ n ∈ d.decl.names, Reads I (s.resolveName n) (mean n))
include h

theorem superclass_reads : Reads I (d.superclass s) (d.readSuperclass mean s.typeVars) := by
  unfold superclass readSuperclass extendedUse? usualSuperclass?
  cases d.decl.kind with
  | classDecl =>
    cases hextended : d.decl.extended with
    | nil => exact reads_pure _
    | cons t ts =>
      have ht : Reads I (s.resolveType t) (t.read mean s.typeVars) := by
        refine Scope.resolveType_reads fun n hn => h n ?_
        simp [TypeDecl.names, hextended, hn]
      exact reads_bind ht fun name _ => reads_pure (some name)
  | interfaceDecl => exact reads_pure _
  | enumDecl => exact reads_pure _
  | annotationDecl => exact reads_pure _

theorem interfaces_reads :
    Reads I (d.interfaces s) (d.interfaceUses.mapM (·.read mean s.typeVars)) := by
  have htypes : ∀ ts : List TypeUse, ts ⊆ d.decl.extended ++ d.decl.implemented →
      Reads I (s.resolveTypes ts) (ts.mapM (·.read mean s.typeVars)) := by
    refine fun ts hts => reads_mapM fun t ht => Scope.resolveType_reads fun n hn => h n ?_
    simp only [TypeDecl.names, List.mem_append, List.mem_flatMap]
    rcases List.mem_append.mp (hts ht) with ht | ht
    · exact .inl (.inl (.inl (.inr ⟨t, ht, hn⟩)))
    · exact .inl (.inl (.inr ⟨t, ht, hn⟩))
  unfold interfaces interfaceUses
  cases d.decl.kind with
  | classDecl => exact htypes _ (List.subset_append_right _ _)
  | interfaceDecl => exact htypes _ (List.subset_append_left _ _)
  | enumDecl => exact htypes _ (List.subset_append_right _ _)
  | annotationDecl => exact reads_pure _

theorem methods_reads : Reads I (d.methods s)
    (d.methodDecls.mapM (·.read mean d.fullName (d.decl.kind == .interfaceDecl) s.typeVars)) := by
  have hmethods : ∀ inInterface,
      Reads I (d.decl.methods.mapM (·.describe d.fullName inInterface s))
        (d.decl.methods.mapM (·.read mean d.fullName inInterface s.typeVars)) := by
    refine fun inInterface => reads_mapM fun m hm => MethodDecl.describe_reads fun n hn => h n ?_
    simp only [TypeDecl.names, List.mem_append, List.mem_flatMap]
    exact .inl (.inr ⟨m, hm, hn⟩)
  unfold methods methodDecls
  cases d.decl.kind with
  | classDecl => exact hmethods false
  | interfaceDecl => exact hmethods true
  | enumDecl => exact reads_pure _
  | annotationDecl => exact reads_pure _

theorem constructors_reads : Reads I (d.constructors s) (d.readConstructors mean s.typeVars) := by
  have hstated : Reads I (d.decl.constructors.mapM (·.describe d.fullName s))
      (d.decl.constructors.mapM (·.read mean d.fullName s.typeVars)) := by
    refine reads_mapM fun c hc => ConstructorDecl.describe_reads fun n hn => h n ?_
    simp only [TypeDecl.names, List.mem_append, List.mem_flatMap]
    exact .inr ⟨c, hc, hn⟩
  unfold constructors readConstructors constructorDecls
  cases d.decl.kind with
  | classDecl =>
    refine reads_bind hstated fun stated _ => ?_
    cases stated <;> exact reads_pure _
  | interfaceDecl => exact reads_pure _
  | enumDecl => exact reads_pure _
  | annotationDecl => exact reads_pure _

/-- A description comes to its reading, given what the names of the declaration mean. -/
theorem describe_reads (package origin : String) :
    Reads I (d.describe package origin s) (d.read mean package origin s.typeVars) := by
  unfold describe read readInside
  refine Scope.enter_reads (fun n hn => h n ?_) fun inner => ?_
  · simp only [TypeDecl.names, List.mem_append, hn, true_or]
  have hinner : ∀ n ∈ d.decl.names,
      Reads I (Scope.resolveName { s with typeVars := inner } n) (mean n) := h
  refine reads_bind (superclass_reads hinner) fun superclass _ => ?_
  refine reads_bind (interfaces_reads hinner) fun interfaces _ => ?_
  refine reads_bind (methods_reads hinner) fun methods _ => ?_
  exact reads_bind (constructors_reads hinner) fun constructors _ => reads_pure _

end Declared

end Describe

end StubWriter
