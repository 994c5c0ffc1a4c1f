import StubWriter.Generation
import StubWriter.Proofs.Library.Describing
import StubWriter.Proofs.Path

/-!
# What a stub declares

The compilation unit that the text of a stub spells, and the type that it describes where all names
in it mean themselves.

* `StubSource.unit`: the unit.
* `StubSource.info`: the type, and `StubSource.describe_gives`.
-/

namespace StubWriter

open Run

/-- The use of a type that a name with its array brackets spells. -/
def TypeUse.ofName (name : String) : TypeUse :=
  let element := Library.elementName name
  let dims := (name.length - element.length) / 2
  if isPrimitiveName element then .basic element dims else .named (splitText '.' element) dims

namespace StubSource

/-! ## The unit -/

/-- The canonical name of a stub. -/
def name (t : TypeInfo) : String :=
  qualify t.package (className t)

/-- The modifiers that give access. -/
def accessWords : Visibility → List String
  | .pub => ["public"]
  | .prot => ["protected"]
  | _ => []

def methodWords (v : Visibility) (isStatic : Bool) : List String :=
  accessWords v ++ if isStatic then ["static"] else []

def param (type : String) : Param :=
  ⟨.ofName type, false⟩

def methodDecl (m : Method) : MethodDecl where
  name := m.name
  modifiers := methodWords m.visibility m.isStatic
  typeParams := []
  returns := if m.returns == "void" then none else some (.ofName m.returns)
  params := m.params.map param
  throws := m.throws.map (splitText '.')
  hasBody := true

def constructorDecl (c : Constructor) : ConstructorDecl where
  modifiers := accessWords c.visibility
  typeParams := []
  params := c.params.map param
  throws := c.throws.map (splitText '.')

section Spelled

variable (t : TypeInfo) (constructors : List Constructor) (methods : List Method)

def decl : TypeDecl where
  kind := .classDecl
  name := className t
  modifiers := ["public"]
  typeParams := []
  extended := if t.isInterface then [] else [.ofName t.name]
  implemented := if t.isInterface then [.ofName t.name] else []
  methods := (methods.filter isEmitted).map methodDecl
  constructors := constructors.map constructorDecl
  nested := []

/-- The unit that `text` spells. -/
def unit : CompilationUnit where
  package := if t.package.isEmpty then [] else splitText '.' t.package
  imports := []
  types := [decl t constructors methods]

/-- The names of types in a stub, in the order in which they are written. -/
def typesIn : List String :=
  t.name :: constructors.flatMap (·.params) ++
    (methods.filter isEmitted).flatMap fun m => m.returns :: m.params

/-- The names of exceptions in a stub. -/
def exceptionsIn : List String :=
  constructors.flatMap (·.throws) ++ (methods.filter isEmitted).flatMap (·.throws)

/-! ## The type -/

/-- The access that is left when the words for it are read. -/
def stated (v : Visibility) : Visibility :=
  .ofModifiers (accessWords v)

/-- A method as the stub declares it. -/
def ownMethod (m : Method) : Method :=
  ⟨name t, m.name, m.returns, m.params, m.throws, stated m.visibility, false, m.isStatic, false⟩

def ownConstructor (c : Constructor) : Constructor :=
  ⟨name t, c.params, c.throws, stated c.visibility⟩

/-- The type that the stub is. Without constructors of its own it has one without parameters. -/
def info (origin : String) : TypeInfo where
  name := name t
  simpleName := className t
  kind := .classType
  package := t.package
  visibility := .pub
  modifiers := ["public"]
  superclass := some (if t.isInterface then objectName else t.name)
  interfaces := if t.isInterface then [t.name] else []
  constructors :=
    if constructors.isEmpty then [⟨name t, [], [], .pub⟩] else constructors.map (ownConstructor t)
  methods := (methods.filter isEmitted).map (ownMethod t)
  sourceFile := some origin

end Spelled

variable {t : TypeInfo} {constructors : List Constructor} {methods : List Method}

theorem packageName_unit : (unit t constructors methods).packageName = t.package := by
  unfold CompilationUnit.packageName unit
  dsimp only
  split
  · rename_i h
    rw [String.isEmpty_iff.mp h]
    rfl
  · exact intercalate_splitText t.package

theorem declared_unit : (unit t constructors methods).declared =
    [⟨decl t constructors methods, name t, false⟩] := by
  have hpackage : (unit t constructors methods).packageName = t.package := packageName_unit
  have hdeclared : ∀ owner, declaredAll owner false [decl t constructors methods] =
      [⟨decl t constructors methods, owner ++ className t, false⟩] := by
    intro owner
    simp [declaredAll, TypeDecl.declared, decl]
  unfold CompilationUnit.declared name qualify
  rw [hpackage]
  by_cases h : t.package.isEmpty = true
  · have hnil : (unit t constructors methods).package = [] := by simp [unit, h]
    rw [hnil, if_pos h]
    simpa [unit] using hdeclared ""
  · have hne : (unit t constructors methods).package.isEmpty = false := by
      simpa [unit, h] using splitText_ne_nil '.' t.package
    rw [hne, if_neg h]
    simpa [unit, String.append_assoc] using hdeclared (t.package ++ ".")

theorem methodWords_say (v : Visibility) (isStatic : Bool) :
    Visibility.ofModifiers (methodWords v isStatic) = stated v ∧
      (methodWords v isStatic).contains "abstract" = false ∧
      (methodWords v isStatic).contains "static" = isStatic ∧
      (methodWords v isStatic).contains "final" = false := by
  cases v <;> cases isStatic <;> exact ⟨rfl, rfl, rfl, rfl⟩

/-! ## The description -/

section Gives

variable {W : World Library} {s : Scope}

theorem resolveParams_gives {types : List String}
    (h : ∀ type ∈ types, W.Gives (s.resolveType (.ofName type)) (.ok type)) :
    W.Gives (s.resolveParams (types.map param)) (.ok types) := by
  have hparams : W.Gives (s.resolveParams (types.map param)) (.ok (types.map id)) := by
    refine World.gives_mapM_map fun type htype => ?_
    exact World.gives_bind (h type htype) World.gives_pure
  rwa [List.map_id] at hparams

theorem resolveThrows_gives {names : List String}
    (h : ∀ e ∈ names, W.Gives (s.resolveName (splitText '.' e)) (.ok e)) :
    W.Gives (s.resolveThrows (names.map (splitText '.'))) (.ok names) := by
  have hthrows : W.Gives (s.resolveThrows (names.map (splitText '.'))) (.ok (names.map id)) :=
    World.gives_mapM_map h
  rwa [List.map_id] at hthrows

theorem describe_method_gives {m : Method}
    (htypes : ∀ type ∈ m.returns :: m.params, W.Gives (s.resolveType (.ofName type)) (.ok type))
    (hthrows : ∀ e ∈ m.throws, W.Gives (s.resolveName (splitText '.' e)) (.ok e)) :
    W.Gives ((methodDecl m).describe (name t) false s) (.ok (ownMethod t m)) := by
  have hreturns : W.Gives (s.resolveReturn (methodDecl m).returns) (.ok m.returns) := by
    unfold methodDecl
    dsimp only
    split
    · rename_i hvoid
      rw [beq_iff_eq.mp hvoid]
      exact World.gives_pure
    · exact htypes _ List.mem_cons_self
  have hmethod : (.ok (ownMethod t m) : Except Failure Method) = .ok {
      declaringType := name t
      name := (methodDecl m).name
      returns := m.returns
      params := m.params
      throws := m.throws
      visibility := (methodDecl m).visibility false
      isAbstract := (methodDecl m).isAbstract false
      isStatic := (methodDecl m).modifiers.contains "static"
      isFinal := (methodDecl m).modifiers.contains "final" } := by
    obtain ⟨haccess, habstract, hstatic, hfinal⟩ := methodWords_say m.visibility m.isStatic
    simp only [MethodDecl.visibility, MethodDecl.isAbstract, Bool.false_eq_true, if_false,
      methodDecl, haccess, habstract, hstatic, hfinal]
    rfl
  unfold MethodDecl.describe
  rw [show (methodDecl m).typeParams = [] from rfl, Scope.enter_nil, pure_bind, hmethod]
  refine World.gives_bind hreturns ?_
  refine World.gives_bind (resolveParams_gives fun type h => htypes type (by simp [h])) ?_
  exact World.gives_bind (resolveThrows_gives hthrows) World.gives_pure

theorem describe_constructor_gives {c : Constructor}
    (htypes : ∀ type ∈ c.params, W.Gives (s.resolveType (.ofName type)) (.ok type))
    (hthrows : ∀ e ∈ c.throws, W.Gives (s.resolveName (splitText '.' e)) (.ok e)) :
    W.Gives ((constructorDecl c).describe (name t) s) (.ok (ownConstructor t c)) := by
  unfold ConstructorDecl.describe
  rw [show (constructorDecl c).typeParams = [] from rfl, Scope.enter_nil, pure_bind]
  refine World.gives_bind (resolveParams_gives htypes) ?_
  exact World.gives_bind (resolveThrows_gives hthrows) World.gives_pure

theorem modifiers_decl : (Declared.mk (decl t constructors methods) (name t) false).modifiers =
    ["public"] := by
  have hone : ["public"].eraseDups = ["public"] := rfl
  simp [Declared.modifiers, decl, hone]

theorem visibility_decl :
    (Declared.mk (decl t constructors methods) (name t) false).visibility = .pub := by
  rw [Declared.visibility, modifiers_decl]
  decide

/-- Where all names in a stub mean themselves, it describes its type. -/
theorem describe_gives
    (htypes : ∀ type ∈ typesIn t constructors methods,
      W.Gives (s.resolveType (.ofName type)) (.ok type))
    (hexceptions : ∀ e ∈ exceptionsIn constructors methods,
      W.Gives (s.resolveName (splitText '.' e)) (.ok e)) (origin : String) :
    W.Gives (Declared.describe ⟨decl t constructors methods, name t, false⟩ t.package origin s)
      (.ok (info t constructors methods origin)) := by
  let d : Declared := ⟨decl t constructors methods, name t, false⟩
  have htarget : W.Gives (s.resolveType (.ofName t.name)) (.ok t.name) :=
    htypes _ (by simp [typesIn])
  have hsuperclass : W.Gives (d.superclass s)
      (.ok (some (if t.isInterface then objectName else t.name))) := by
    unfold Declared.superclass
    cases hi : t.isInterface with
    | true =>
      simp only [d, decl, hi, if_true]
      exact World.gives_pure
    | false =>
      simp only [d, decl, hi, Bool.false_eq_true, if_false]
      exact World.gives_bind htarget World.gives_pure
  have hinterfaces : W.Gives (d.interfaces s) (.ok (if t.isInterface then [t.name] else [])) := by
    have hone : W.Gives (s.resolveTypes [.ofName t.name]) (.ok [t.name]) := by
      unfold Scope.resolveTypes
      rw [List.mapM_cons, List.mapM_nil]
      exact World.gives_bind htarget (World.gives_bind World.gives_pure World.gives_pure)
    unfold Declared.interfaces
    cases hi : t.isInterface with
    | true => simpa [d, decl, hi] using hone
    | false =>
      simp only [d, decl, hi, Bool.false_eq_true, if_false]
      exact World.gives_pure
  have hmethods : W.Gives (d.methods s) (.ok ((methods.filter isEmitted).map (ownMethod t))) := by
    refine World.gives_mapM_map fun m hm => describe_method_gives (fun type h => ?_) fun e h => ?_
    · refine htypes type (List.mem_append_right _ ?_)
      exact List.mem_flatMap.mpr ⟨m, hm, h⟩
    · exact hexceptions e (List.mem_append_right _ (List.mem_flatMap.mpr ⟨m, hm, h⟩))
  have hconstructors : W.Gives (d.constructors s) (.ok (if constructors.isEmpty then
      [⟨name t, [], [], .pub⟩] else constructors.map (ownConstructor t))) := by
    have hstated : W.Gives (d.decl.constructors.mapM (·.describe d.fullName s))
        (.ok (constructors.map (ownConstructor t))) := by
      refine World.gives_mapM_map fun c hc => describe_constructor_gives (fun type h => ?_) fun e h => ?_
      · refine htypes type (List.mem_append_left _ (List.mem_cons_of_mem _ ?_))
        exact List.mem_flatMap.mpr ⟨c, hc, h⟩
      · exact hexceptions e (List.mem_append_left _ (List.mem_flatMap.mpr ⟨c, hc, h⟩))
    unfold Declared.constructors
    refine World.gives_bind hstated ?_
    rw [visibility_decl, List.isEmpty_map]
    cases constructors.isEmpty <;> exact World.gives_pure
  unfold Declared.describe
  rw [show (decl t constructors methods).typeParams = [] from rfl, Scope.enter_nil, pure_bind]
  refine World.gives_bind hsuperclass ?_
  refine World.gives_bind hinterfaces ?_
  refine World.gives_bind hmethods ?_
  refine World.gives_bind hconstructors ?_
  change W.Gives (pure _) _
  rw [visibility_decl, modifiers_decl]
  exact World.gives_pure

end Gives

end StubSource

end StubWriter
