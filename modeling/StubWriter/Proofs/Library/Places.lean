import StubWriter.Proofs.Library.Reading

/-!
# Where a declaration mentions types

A type variable may stand wherever a declaration mentions a type: in the bounds of a section of type
parameters, behind `extends` and `implements`, and in what methods and constructors take and return.
The names of exceptions are not looked for among the type variables. The variables that are in scope
around a declaration matter to its type only in these places.

* `Place`: a mention of a type, with the sections of type parameters around it.
* `Declared.places`: the mentions of types in a declaration.
* `Declared.read_congr`: variables that mean the same in all places describe the same type.
-/

namespace StubWriter

/-- A mention of a type behind some type parameters. -/
structure Place where
  params : List TypeParam
  use : TypeUse
  deriving DecidableEq, Repr

/-! ## Places -/

/-- The bounds that are looked up in a section that follows others. -/
def TypeParam.places (around : List TypeParam) : List TypeParam → List Place
  | [] => []
  | p :: ps => p.names.map (fun bound => ⟨around, .named bound 0⟩) ++ places (around ++ [p]) ps

/-- The places of a section that follows others and of the mentions behind it. -/
def placesBehind (around ps : List TypeParam) (uses : List TypeUse) : List Place :=
  TypeParam.places around ps ++ uses.map (Place.mk (around ++ ps))

def MethodDecl.places (around : List TypeParam) (m : MethodDecl) : List Place :=
  placesBehind around m.typeParams (m.returns.toList ++ m.params.map (·.type))

def ConstructorDecl.places (around : List TypeParam) (c : ConstructorDecl) : List Place :=
  placesBehind around c.typeParams (c.params.map (·.type))

/-- The mentions of types in the header, the methods and the constructors of a declaration. -/
def Declared.places (d : Declared) : List Place :=
  placesBehind [] d.decl.typeParams (d.extendedUse?.toList ++ d.interfaceUses) ++
    d.methodDecls.flatMap (·.places d.decl.typeParams) ++
    d.constructorDecls.flatMap (·.places d.decl.typeParams)

/-! ## Readings -/

/-- What a place is erased to where some type variables are in scope. -/
def Place.read (mean : List String → Option String) (vars : List (String × String)) (p : Place) :
    Option String := do
  p.use.read mean (← TypeParam.readAll mean vars p.params)

variable {mean : List String → Option String} {vars vars' : List (String × String)}

theorem TypeParam.readAll_append (ps qs : List TypeParam) :
    TypeParam.readAll mean vars (ps ++ qs) =
      (TypeParam.readAll mean vars ps >>= fun inner => TypeParam.readAll mean inner qs) := by
  induction ps generalizing vars with
  | nil => rfl
  | cons p ps ih =>
    rw [List.cons_append, TypeParam.readAll, TypeParam.readAll]
    simp only [ih, bind_assoc]

/-- A section binds its parameters, in front of what is bound around it. -/
theorem TypeParam.readAll_own {ps : List TypeParam} {inner : List (String × String)}
    (h : TypeParam.readAll mean vars ps = some inner) :
    ∃ own, inner = own ++ vars ∧ own.map Prod.fst = (ps.map (·.name)).reverse := by
  induction ps generalizing vars with
  | nil =>
    cases h
    exact ⟨[], rfl, rfl⟩
  | cons p ps ih =>
    obtain ⟨e, -, h⟩ := Option.bind_eq_some_iff.mp h
    obtain ⟨own, rfl, hown⟩ := ih h
    exact ⟨own ++ [(p.name, e)], by simp, by simp [hown]⟩

theorem lookup_eq_none_iff_keys {own : List (String × String)} {a : String} :
    own.lookup a = none ↔ a ∉ own.map Prod.fst := by
  rw [List.lookup_eq_none_iff, List.mem_map]
  simp only [bne_iff_ne]
  exact ⟨fun h ⟨x, hx, heq⟩ => h x hx heq.symm, fun h x hx heq => h ⟨x, hx, heq.symm⟩⟩

/-- Sequences are equal whose first steps both come to nothing, or to results that make no
difference. -/
theorem bind_eq_of_isSome {α β : Type} {x x' : Option α} {f g : α → Option β}
    (hsome : x.isSome = x'.isSome) (h : ∀ a a', x = some a → x' = some a' → f a = g a') :
    (x >>= f) = (x' >>= g) := by
  cases x with
  | none =>
    cases x' with
    | none => rfl
    | some a' => cases hsome
  | some a =>
    cases x' with
    | none => cases hsome
    | some a' => exact h a a' rfl rfl

theorem mapM_eq {α β : Type} {xs : List α} {f g : α → Option β} (h : ∀ a ∈ xs, f a = g a) :
    xs.mapM f = xs.mapM g := by
  induction xs with
  | nil => rfl
  | cons a as ih =>
    obtain ⟨ha, has⟩ := List.forall_mem_cons.mp h
    rw [List.mapM_cons, List.mapM_cons, ha, ih has]

/-! ## Readings in two scopes -/

section Lookup

variable (h : ∀ a, vars.lookup a = vars'.lookup a)
include h

theorem TypeUse.read_of_lookup (t : TypeUse) : t.read mean vars = t.read mean vars' := by
  have hname : erasedName mean vars = erasedName mean vars' := by
    funext segments
    match segments with
    | [] => rfl
    | [a] => exact congrArg (Option.or · (mean [a])) (h a)
    | _ :: _ :: _ => rfl
  cases t with
  | basic name dims => rfl
  | named segments dims => simp only [TypeUse.read, hname]

/-- Type variables matter by what a name is bound to. -/
theorem Place.read_of_lookup (p : Place) : p.read mean vars = p.read mean vars' := by
  obtain ⟨params, use⟩ := p
  unfold Place.read
  dsimp only
  induction params generalizing vars vars' with
  | nil => exact TypeUse.read_of_lookup h use
  | cons p ps ih =>
    have hp : p.read mean vars = p.read mean vars' := by
      unfold TypeParam.read
      split
      · rfl
      · exact TypeUse.read_of_lookup h _
    rw [TypeParam.readAll, TypeParam.readAll, bind_assoc, bind_assoc, hp]
    congr 1
    funext e
    refine ih fun a => ?_
    rw [List.lookup_cons, List.lookup_cons, h]

end Lookup

/-- Whether a section can be read depends on its bounds only. -/
theorem TypeParam.isSome_readAll {around ps : List TypeParam}
    (haround : (TypeParam.readAll mean vars around).isSome =
      (TypeParam.readAll mean vars' around).isSome)
    (h : ∀ p ∈ TypeParam.places around ps, p.read mean vars = p.read mean vars') :
    (TypeParam.readAll mean vars (around ++ ps)).isSome =
      (TypeParam.readAll mean vars' (around ++ ps)).isSome := by
  induction ps generalizing around with
  | nil => rwa [List.append_nil]
  | cons p ps ih =>
    rw [TypeParam.places, List.forall_mem_append, List.forall_mem_map] at h
    rw [List.append_cons]
    refine ih ?_ h.2
    -- The section up to `p` can be read where its bound can.
    have hlast : ∀ vars, (TypeParam.readAll mean vars (around ++ [p])).isSome =
        (TypeParam.readAll mean vars around >>= fun inner => p.read mean inner).isSome := by
      intro vars
      rw [TypeParam.readAll_append]
      cases TypeParam.readAll mean vars around with
      | none => rfl
      | some inner => cases hp : p.read mean inner <;> simp [TypeParam.readAll, hp]
    rw [hlast, hlast]
    cases hbounds : p.bounds with
    | nil =>
      simp only [TypeParam.read, hbounds]
      generalize TypeParam.readAll mean vars around = x at haround
      generalize TypeParam.readAll mean vars' around = x' at haround
      cases x <;> cases x' <;> cases haround <;> rfl
    | cons bound more =>
      have hbound := h.1 bound (by simp [TypeParam.names, hbounds])
      simp only [TypeParam.read, hbounds]
      exact congrArg Option.isSome hbound

section Inside

variable {around : List TypeParam} {inner inner' : List (String × String)}

/-- Two scopes behind the same sections of type parameters. -/
structure Behind (mean : List String → Option String) (around : List TypeParam)
    (vars vars' inner inner' : List (String × String)) : Prop where
  left : TypeParam.readAll mean vars around = some inner
  right : TypeParam.readAll mean vars' around = some inner'

variable (hinner : Behind mean around vars vars' inner inner')
include hinner

theorem TypeUse.read_congr {t : TypeUse}
    (h : (Place.mk around t).read mean vars = (Place.mk around t).read mean vars') :
    t.read mean inner = t.read mean inner' := by
  unfold Place.read at h
  rwa [hinner.left, hinner.right] at h

/-- What follows a section of type parameters may use that its bounds mean the same. -/
theorem TypeParam.bind_readAll_congr {α : Type} {ps : List TypeParam}
    {f g : List (String × String) → Option α}
    (h : ∀ p ∈ TypeParam.places around ps, p.read mean vars = p.read mean vars')
    (hf : ∀ inner inner', Behind mean (around ++ ps) vars vars' inner inner' →
      f inner = g inner') :
    (TypeParam.readAll mean inner ps >>= f) = (TypeParam.readAll mean inner' ps >>= g) := by
  have hleft : TypeParam.readAll mean vars (around ++ ps) = TypeParam.readAll mean inner ps := by
    rw [TypeParam.readAll_append, hinner.left]
    rfl
  have hright : TypeParam.readAll mean vars' (around ++ ps) = TypeParam.readAll mean inner' ps := by
    rw [TypeParam.readAll_append, hinner.right]
    rfl
  refine bind_eq_of_isSome ?_ fun a a' ha ha' => hf a a' ⟨hleft.trans ha, hright.trans ha'⟩
  rw [← hleft, ← hright]
  refine TypeParam.isSome_readAll ?_ h
  rw [hinner.left, hinner.right]
  rfl

theorem mapM_params_congr {ps : List Param}
    (h : ∀ p ∈ (ps.map (·.type)).map (Place.mk around), p.read mean vars = p.read mean vars') :
    ps.mapM (·.read mean inner) = ps.mapM (·.read mean inner') := by
  refine mapM_eq fun p hp => ?_
  have htype := TypeUse.read_congr hinner (h _ (List.mem_map_of_mem (List.mem_map_of_mem hp)))
  unfold Param.read
  rw [htype]

theorem MethodDecl.read_congr {m : MethodDecl} {owner : String} {inInterface : Bool}
    (h : ∀ p ∈ m.places around, p.read mean vars = p.read mean vars') :
    m.read mean owner inInterface inner = m.read mean owner inInterface inner' := by
  unfold MethodDecl.places placesBehind at h
  rw [List.map_append] at h
  obtain ⟨hbounds, huses⟩ := List.forall_mem_append.mp h
  obtain ⟨hreturns, hparams⟩ := List.forall_mem_append.mp huses
  unfold MethodDecl.read
  refine TypeParam.bind_readAll_congr hinner hbounds fun inner inner' hinner => ?_
  rw [mapM_params_congr hinner hparams]
  cases hm : m.returns with
  | none => rfl
  | some t =>
    rw [hm] at hreturns
    have ht := TypeUse.read_congr hinner (hreturns _ List.mem_cons_self)
    simp only [Option.elim_some, ht]

theorem ConstructorDecl.read_congr {c : ConstructorDecl} {owner : String}
    (h : ∀ p ∈ c.places around, p.read mean vars = p.read mean vars') :
    c.read mean owner inner = c.read mean owner inner' := by
  obtain ⟨hbounds, hparams⟩ := List.forall_mem_append.mp h
  unfold ConstructorDecl.read
  refine TypeParam.bind_readAll_congr hinner hbounds fun inner inner' hinner => ?_
  rw [mapM_params_congr hinner hparams]

end Inside

/-- Type variables that mean the same in all places of a declaration describe the same type. -/
theorem Declared.read_congr {d : Declared} {package origin : String}
    (h : ∀ p ∈ d.places, p.read mean vars = p.read mean vars') :
    d.read mean package origin vars = d.read mean package origin vars' := by
  unfold Declared.places placesBehind at h
  obtain ⟨h, hconstructors⟩ := List.forall_mem_append.mp h
  obtain ⟨h, hmethods⟩ := List.forall_mem_append.mp h
  obtain ⟨hbounds, huses⟩ := List.forall_mem_append.mp h
  rw [List.map_append] at huses
  obtain ⟨hextended, hinterfaces⟩ := List.forall_mem_append.mp huses
  unfold Declared.read
  have hstart : Behind mean [] vars vars' vars vars' := ⟨rfl, rfl⟩
  refine TypeParam.bind_readAll_congr hstart hbounds fun inner inner' hinner => ?_
  rw [List.nil_append] at hinner
  have hsuper : d.readSuperclass mean inner = d.readSuperclass mean inner' := by
    unfold Declared.readSuperclass
    cases hd : d.extendedUse? with
    | none => rfl
    | some t =>
      rw [hd] at hextended
      have ht := TypeUse.read_congr hinner (hextended _ List.mem_cons_self)
      simp only [Option.elim_some, ht]
  have hinterfaces : d.interfaceUses.mapM (·.read mean inner) =
      d.interfaceUses.mapM (·.read mean inner') :=
    mapM_eq fun t ht => TypeUse.read_congr hinner (hinterfaces _ (List.mem_map_of_mem ht))
  have hmethods : ∀ inInterface, d.methodDecls.mapM (·.read mean d.fullName inInterface inner) =
      d.methodDecls.mapM (·.read mean d.fullName inInterface inner') :=
    fun _ => mapM_eq fun m hm => MethodDecl.read_congr hinner fun p hp =>
      hmethods p (List.mem_flatMap.mpr ⟨m, hm, hp⟩)
  have hconstructors : d.readConstructors mean inner = d.readConstructors mean inner' := by
    unfold Declared.readConstructors
    rw [mapM_eq fun c hc => ConstructorDecl.read_congr hinner fun p hp =>
      hconstructors p (List.mem_flatMap.mpr ⟨c, hc, hp⟩)]
  unfold Declared.readInside
  rw [hsuper, hinterfaces, hmethods, hconstructors]

end StubWriter
