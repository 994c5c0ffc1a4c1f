import StubWriter.Proofs.Grammar.Declared
import StubWriter.Proofs.Library.Describing
import StubWriter.Proofs.Path

/-!
# The names in a unit

Every dotted name that a unit is written with is made of identifiers: its package, what it imports,
and the names in its declarations. So none of their segments is empty or holds a sign
like a dot or a slash.

* `CompilationUnit.Written`: all segments of the names in a unit satisfy a predicate.
* `CompilationUnit.Typed`: the types in a unit that have no dotted name are basic types.
* `CompilationUnit.ofText_written`, `CompilationUnit.ofText_typed`: the units that texts spell.
-/

namespace StubWriter

open Run

/-- A dotted name, given by its segments. -/
structure IsDotted (P : String → Prop) (segments : List String) : Prop where
  nonempty : segments ≠ []
  segment : ∀ s ∈ segments, P s

/-- A dotted name made of identifiers. -/
abbrev IsPath : List String → Prop :=
  IsDotted Token.IsName

/-- A type that is not named is a basic type. -/
def TypeUse.Typed : TypeUse → Prop
  | .basic name _ => name ∈ Token.basicTypes
  | .named _ _ => True

/-- The types that a declaration names as its supertypes or as what its methods return. -/
def TypeDecl.uses (d : TypeDecl) : List TypeUse :=
  d.extended ++ d.implemented ++ d.methods.flatMap (·.returns.toList)

/-- A type that is written with identifiers. -/
structure TypeUse.Spelled (t : TypeUse) : Prop where
  names : ∀ n ∈ t.names, IsPath n
  typed : t.Typed

/-- A method that is written with identifiers. -/
structure MethodDecl.Spelled (m : MethodDecl) : Prop where
  name : Token.IsName m.name
  names : ∀ n ∈ m.names, IsPath n
  typed : ∀ t ∈ m.returns, t.Typed

/-- A type declaration and those in it are written with identifiers. -/
def TypeDecl.Spelled (d : TypeDecl) : Prop :=
  ∀ fullName inInterface, ∀ x ∈ d.declared fullName inInterface,
    (∀ n ∈ x.decl.names, IsPath n) ∧ (∀ t ∈ x.decl.uses, t.Typed) ∧
      ∀ m ∈ x.decl.methods, Token.IsName m.name

/-- A unit that is written with dotted names whose segments satisfy a predicate. -/
structure CompilationUnit.Written (P : String → Prop) (u : CompilationUnit) : Prop where
  package : ∀ s ∈ u.package, P s
  imports : ∀ i ∈ u.imports, IsDotted P i.path
  declared : ∀ d ∈ u.declared, P d.decl.name
  names : ∀ n ∈ u.names, IsDotted P n

/-- A unit that names no type in a header, and returns none, but dotted names and basic types. -/
def CompilationUnit.Typed (u : CompilationUnit) : Prop :=
  ∀ d ∈ u.declared, ∀ t ∈ d.decl.uses, t.Typed

section Decidable

instance (t : TypeUse) : Decidable t.Typed :=
  match t with
  | .basic name _ => inferInstanceAs (Decidable (name ∈ Token.basicTypes))
  | .named _ _ => .isTrue trivial

instance (u : CompilationUnit) : Decidable u.Typed :=
  inferInstanceAs (Decidable (∀ d ∈ u.declared, ∀ t ∈ d.decl.uses, t.Typed))

variable {P : String → Prop} [DecidablePred P]

instance (segments : List String) : Decidable (IsDotted P segments) :=
  decidable_of_iff (segments ≠ [] ∧ ∀ s ∈ segments, P s) ⟨fun h => ⟨h.1, h.2⟩, fun h => ⟨h.1, h.2⟩⟩

instance (u : CompilationUnit) : Decidable (u.Written P) :=
  decidable_of_iff ((∀ s ∈ u.package, P s) ∧ (∀ i ∈ u.imports, IsDotted P i.path) ∧
      (∀ d ∈ u.declared, P d.decl.name) ∧ ∀ n ∈ u.names, IsDotted P n)
    ⟨fun ⟨a, b, c, d⟩ => ⟨a, b, c, d⟩, fun ⟨a, b, c, d⟩ => ⟨a, b, c, d⟩⟩

end Decidable

theorem IsDotted.mono {P Q : String → Prop} {segments : List String} (h : IsDotted P segments)
    (hPQ : ∀ s, P s → Q s) : IsDotted Q segments :=
  ⟨h.nonempty, fun s hs => hPQ s (h.segment s hs)⟩

theorem CompilationUnit.Written.mono {P Q : String → Prop} {u : CompilationUnit}
    (h : u.Written P) (hPQ : ∀ s, P s → Q s) : u.Written Q :=
  ⟨fun s hs => hPQ s (h.package s hs), fun i hi => (h.imports i hi).mono hPQ,
    fun d hd => hPQ _ (h.declared d hd), fun n hn => (h.names n hn).mono hPQ⟩

/-- What stands between the dots of a name. -/
structure IsSegment (s : String) : Prop where
  nonempty : s ≠ ""
  parts : ∀ c ∈ s.toList, Text.isIdentifierPart c = true

instance (s : String) : Decidable (IsSegment s) :=
  decidable_of_iff (s ≠ "" ∧ s.toList.all Text.isIdentifierPart = true)
    ⟨fun ⟨a, b⟩ => ⟨a, List.all_eq_true.mp b⟩, fun ⟨a, b⟩ => ⟨a, List.all_eq_true.mpr b⟩⟩

theorem Token.IsName.isSegment {s : String} (h : Token.IsName s) : IsSegment s where
  nonempty := fun hs => h.nonempty (by rw [hs]; rfl)
  parts := h.parts

theorem IsSegment.not_mem {s : String} (h : IsSegment s) {c : Char}
    (hc : Text.isIdentifierPart c = false) : c ∉ s.toList := by
  intro hmem
  rw [h.parts c hmem] at hc
  cases hc

theorem IsSegment.isFileName {s : String} (h : IsSegment s) : IsFileName s where
  nonempty := h.nonempty
  here := fun hs => h.not_mem (c := '.') (by decide) (by rw [hs]; decide)
  up := fun hs => h.not_mem (c := '.') (by decide) (by rw [hs]; decide)
  slash := h.not_mem (by decide)
  nul := h.not_mem (by decide)

theorem IsSegment.dot {s : String} (h : IsSegment s) : '.' ∉ s.toList :=
  h.not_mem (by decide)

namespace Grammar

namespace Reader

variable {α β : Type} {x : Reader α} {P Q : α → Prop}

/-! ## What readers return -/

/-- Where the tokens are sound, what `x` returns satisfies `P`. -/
def Yields (x : Reader α) (P : α → Prop) : Prop :=
  Reads x fun a _ => P a

theorem yields_mono (h : Yields x P) (hPQ : ∀ a, P a → Q a) : Yields x Q :=
  reads_mono h fun a _ => hPQ a

theorem yields_pure {a : α} (h : P a) : Yields (pure a) P :=
  reads_pure h

theorem yields_bind {f : α → Reader β} {R : β → Prop} (hx : Yields x P)
    (hf : ∀ a, P a → Yields (f a) R) : Yields (x >>= f) R :=
  reads_bind hx fun a _ ha => hf a ha

/-- A step whose result does not matter. -/
theorem yields_skip {f : α → Reader β} {R : β → Prop} [Forward x] (hf : ∀ a, Yields (f a) R) :
    Yields (x >>= f) R :=
  reads_skip (fun _ _ _ h => h) hf

theorem yields_ite {p : Prop} [Decidable p] {y : Reader α} (hx : Yields x P) (hy : Yields y P) :
    Yields (if p then x else y) P :=
  reads_ite hx hy

theorem yields_many {x : Reader (Option α)} (hx : Yields x fun a? => ∀ a ∈ a?, P a) :
    Yields (many x) fun as => ∀ a ∈ as, P a := by
  refine reads_mono (reads_many (P := fun a _ => P a) hx) fun as n has => ?_
  obtain ⟨ns, hns, -⟩ := has
  induction hns with
  | nil => exact fun a ha => absurd ha List.not_mem_nil
  | cons ha _ ih => exact List.forall_mem_cons.mpr ⟨ha, ih⟩

theorem yields_manyWhile {go : Reader Bool} [Forward go] (hx : Yields x P) :
    Yields (manyWhile go x) fun as => ∀ a ∈ as, P a := by
  refine yields_many (yields_skip fun found => ?_)
  cases found with
  | false => exact yields_pure fun a ha => nomatch ha
  | true =>
    refine yields_bind hx fun a ha => yields_pure ?_
    rintro _ ⟨⟩
    exact ha

theorem yields_sepBy {separator : String} (hx : Yields x P) :
    Yields (sepBy separator x) fun as => as ≠ [] ∧ ∀ a ∈ as, P a := by
  unfold sepBy
  refine yields_bind hx fun first hfirst => ?_
  refine yields_bind (yields_manyWhile hx) fun rest hrest => yields_pure ?_
  exact ⟨List.cons_ne_nil _ _, List.forall_mem_cons.mpr ⟨hfirst, hrest⟩⟩

theorem yields_sepUntil {closing : String} (hx : Yields x P) :
    Yields (sepUntil closing x) fun as => ∀ a ∈ as, P a := by
  unfold sepUntil
  refine yields_bind hx fun first hfirst => ?_
  refine yields_bind (yields_many (P := P) (yields_skip fun found => ?_)) fun rest hrest =>
    yields_pure (List.forall_mem_cons.mpr ⟨hfirst, hrest⟩)
  cases found with
  | true => exact yields_pure fun a ha => nomatch ha
  | false =>
    refine yields_skip fun _ => yields_bind hx fun a ha => yields_pure ?_
    rintro _ ⟨⟩
    exact ha

end Reader

open Reader

/-! ## Names and types -/

theorem identifier_yields : Yields identifier Token.IsName :=
  reads_mono identifier_reads fun _ _ h => h.2

theorem qualifiedName_yields : Yields qualifiedName IsPath :=
  yields_mono (yields_sepBy identifier_yields) fun _ h => ⟨h.1, h.2⟩

theorem qualifiedNames_yields : Yields qualifiedNames fun ns => ∀ n ∈ ns, IsPath n :=
  yields_mono (yields_sepBy qualifiedName_yields) fun _ h => h.2

section Rules

variable (r : Rules) [r.Forward]

theorem referenceType_yields : Yields (referenceType r) IsPath := by
  refine yields_mono (yields_sepBy ?_) fun _ h => ⟨h.1, h.2⟩
  refine yields_bind identifier_yields fun name hname => yields_skip fun found => ?_
  exact yields_ite (yields_skip fun _ => yields_pure hname) (yields_pure hname)

theorem spelled_named {segments : List String} {dims : Nat} (h : IsPath segments) :
    (TypeUse.named segments dims).Spelled :=
  ⟨fun _ hn => List.mem_singleton.mp hn ▸ h, trivial⟩

/-- A basic type as a text writes it. -/
theorem basicType_yields {f : String → Reader TypeUse} (hf : ∀ name ∈ Token.basicTypes,
    Yields (f name) TypeUse.Spelled) : Yields (accept TokenSort.basicType >>= f) TypeUse.Spelled := by
  refine reads_bind (reads_accept _) fun name _ ⟨_, t, ht, hsort, htext⟩ => hf name ?_
  exact htext ▸ ht.basicType (by simpa [Pattern.accepts] using hsort)

theorem spelled_basic {name : String} (hname : name ∈ Token.basicTypes) (dims : Nat) :
    (TypeUse.basic name dims).Spelled :=
  ⟨fun _ hn => absurd hn List.not_mem_nil, hname⟩

theorem typeUse_yields : Yields (typeUse r) TypeUse.Spelled := by
  unfold typeUse
  refine yields_skip fun sort? => ?_
  split
  · exact basicType_yields fun name hname => yields_skip fun _ =>
      yields_pure (spelled_basic hname _)
  · refine yields_bind (referenceType_yields r) fun _ h => ?_
    exact yields_skip fun _ => yields_pure (spelled_named h)
  · exact reads_throw

theorem listedType_yields : Yields (listedType r) TypeUse.Spelled := by
  unfold listedType
  refine yields_skip fun found => yields_ite ?_ ?_
  · exact basicType_yields fun name hname => yields_skip fun _ => yields_skip fun _ =>
      yields_pure (spelled_basic hname _)
  · refine yields_bind (referenceType_yields r) fun _ h => ?_
    exact yields_skip fun _ => yields_pure (spelled_named h)

theorem typeList_yields : Yields (typeList r) fun ts => ∀ t ∈ ts, t.Spelled :=
  yields_mono (yields_sepBy (listedType_yields r)) fun _ h => h.2

theorem optionalTypes_yields (keyword : String) :
    Yields (optionalTypes r keyword) fun ts => ∀ t ∈ ts, t.Spelled := by
  unfold optionalTypes
  exact yields_skip fun found =>
    yields_ite (typeList_yields r) (yields_pure fun _ h => absurd h List.not_mem_nil)

theorem typeParam_yields : Yields (typeParam r) fun p => ∀ n ∈ p.names, IsPath n := by
  unfold typeParam
  refine yields_skip fun name => yields_skip fun found => yields_ite ?_ ?_
  · refine yields_bind (yields_sepBy (referenceType_yields r)) fun bounds h => yields_pure ?_
    exact fun n hn => h.2 n (List.mem_of_mem_take hn)
  · exact yields_pure fun n hn => absurd hn List.not_mem_nil

theorem typeParams_yields :
    Yields (typeParams r) fun ps => ∀ p ∈ ps, ∀ n ∈ p.names, IsPath n := by
  unfold typeParams
  exact yields_skip fun _ => yields_sepUntil (typeParam_yields r)

theorem optionalTypeParams_yields :
    Yields (optionalTypeParams r) fun ps => ∀ p ∈ ps, ∀ n ∈ p.names, IsPath n := by
  unfold optionalTypeParams
  exact yields_skip fun found =>
    yields_ite (typeParams_yields r) (yields_pure fun _ h => absurd h List.not_mem_nil)

theorem names_addDims (t : TypeUse) (dims : Nat) : (t.addDims dims).names = t.names := by
  cases t <;> rfl

theorem typed_addDims (t : TypeUse) (dims : Nat) : (t.addDims dims).Typed ↔ t.Typed := by
  cases t <;> exact Iff.rfl

theorem param_yields : Yields (param r) fun p => ∀ n ∈ p.type.names, IsPath n := by
  unfold param
  refine yields_skip fun _ => yields_bind (typeUse_yields r) fun type htype => ?_
  refine yields_skip fun _ => yields_skip fun _ => yields_skip fun dims => yields_pure ?_
  rw [names_addDims]
  exact htype.names

theorem moreParams_yields (last : Param) (k : Nat) :
    Yields (moreParams r last k) fun ps => ∀ p ∈ ps, ∀ n ∈ p.type.names, IsPath n := by
  induction k generalizing last with
  | zero => exact reads_throw
  | succ k ih =>
    have hnone : Yields (pure ([] : List Param)) fun ps => ∀ p ∈ ps, ∀ n ∈ p.type.names, IsPath n :=
      yields_pure fun _ h => absurd h List.not_mem_nil
    unfold moreParams
    refine yields_ite hnone (yields_skip fun found => yields_ite ?_ hnone)
    refine yields_bind (param_yields r) fun next hnext => ?_
    refine yields_bind (ih next) fun rest hrest => yields_pure ?_
    exact List.forall_mem_cons.mpr ⟨hnext, hrest⟩

theorem params_yields :
    Yields (params r) fun ps => ∀ p ∈ ps, ∀ n ∈ p.type.names, IsPath n := by
  unfold params
  refine yields_skip fun _ => yields_skip fun found => yields_ite ?_ ?_
  · exact yields_pure fun _ h => absurd h List.not_mem_nil
  · refine yields_bind (param_yields r) fun first hfirst => yields_skip fun c => ?_
    refine yields_bind (moreParams_yields r first _) fun rest hrest => yields_skip fun _ => ?_
    exact yields_pure (List.forall_mem_cons.mpr ⟨hfirst, hrest⟩)

end Rules

theorem optionalThrows_yields : Yields optionalThrows fun ns => ∀ n ∈ ns, IsPath n := by
  unfold optionalThrows
  exact yields_skip fun found =>
    yields_ite qualifiedNames_yields (yields_pure fun _ h => absurd h List.not_mem_nil)

/-! ## Members -/

/-- A member that is written with identifiers. -/
structure Member.Spelled (m : Member) : Prop where
  method : ∀ d ∈ m.method?, d.Spelled
  constructor : ∀ c ∈ m.constructor?, ∀ n ∈ c.names, IsPath n
  type : ∀ d ∈ m.type?, d.Spelled

theorem Member.spelled_nothing : Member.nothing.Spelled :=
  ⟨nofun, nofun, nofun⟩

theorem Member.spelled_method {d : MethodDecl} (h : d.Spelled) :
    (Member.method d).Spelled :=
  ⟨fun _ hd => Option.some.inj hd ▸ h, nofun, nofun⟩

theorem Member.spelled_constructor {c : ConstructorDecl} (h : ∀ n ∈ c.names, IsPath n) :
    (Member.constructor c).Spelled :=
  ⟨nofun, fun _ hc => Option.some.inj hc ▸ h, nofun⟩

theorem Member.spelled_type {d : TypeDecl} (h : d.Spelled) : (Member.type d).Spelled :=
  ⟨nofun, nofun, fun _ hd => Option.some.inj hd ▸ h⟩

/-- Rules that read declarations that are written with identifiers. -/
class Rules.Spelled (r : Rules) : Prop extends r.Forward where
  spelled : ∀ mods, Yields (r.typeDecl mods) TypeDecl.Spelled

section Members

variable (r : Rules) [r.Spelled]

theorem methodRest_yields {brackets : Reader Nat} [Reader.Forward brackets] {name : String}
    (hname : Token.IsName name) (mods : List String) {tps : List TypeParam}
    {returns : Option TypeUse} (htps : ∀ p ∈ tps, ∀ n ∈ p.names, IsPath n)
    (hreturns : ∀ t ∈ returns, t.Spelled) :
    Yields (methodRest r brackets name mods tps returns) MethodDecl.Spelled := by
  unfold methodRest
  refine yields_bind (params_yields r) fun ps hps => yields_skip fun dims => ?_
  refine yields_bind optionalThrows_yields fun throws hthrows => yields_skip fun body => ?_
  refine yields_pure ⟨hname, fun n hn => ?_, fun t' ht' => ?_⟩
  · simp only [MethodDecl.names, List.mem_append, List.mem_flatMap, Option.mem_toList,
      Option.map_eq_some_iff] at hn
    rcases hn with ((⟨p, hp, hn⟩ | ⟨_, ⟨t, ht, rfl⟩, hn⟩) | ⟨p, hp, hn⟩) | hn
    · exact htps p hp n hn
    · rw [names_addDims] at hn
      exact (hreturns t ht).names n hn
    · exact hps p hp n hn
    · exact hthrows n hn
  · obtain ⟨t, ht, rfl⟩ := Option.map_eq_some_iff.mp ht'
    exact (typed_addDims t dims).mpr (hreturns t ht).typed

theorem no_params : ∀ p ∈ ([] : List TypeParam), ∀ n ∈ p.names, IsPath n :=
  fun _ hp => absurd hp List.not_mem_nil

theorem voidMethod_yields (mods : List String) {tps : List TypeParam}
    (htps : ∀ p ∈ tps, ∀ n ∈ p.names, IsPath n) :
    Yields (voidMethod r mods tps) Member.Spelled :=
  yields_bind identifier_yields fun _ hname =>
    yields_bind (methodRest_yields r hname mods htps nofun) fun _ hd =>
      yields_pure (Member.spelled_method hd)

theorem typedMethod_yields {name : String} (hname : Token.IsName name) (mods : List String)
    {tps : List TypeParam} {returns : TypeUse} (htps : ∀ p ∈ tps, ∀ n ∈ p.names, IsPath n)
    (hreturns : returns.Spelled) :
    Yields (typedMethod r name mods tps returns) Member.Spelled :=
  yields_bind (methodRest_yields r hname mods htps fun _ ht => Option.some.inj ht ▸ hreturns)
    fun _ hd => yields_pure (Member.spelled_method hd)

theorem constructorRest_yields (mods : List String) {tps : List TypeParam}
    (htps : ∀ p ∈ tps, ∀ n ∈ p.names, IsPath n) :
    Yields (constructorRest r mods tps) fun c => ∀ n ∈ c.names, IsPath n := by
  unfold constructorRest
  refine yields_bind (params_yields r) fun ps hps => ?_
  refine yields_bind optionalThrows_yields fun throws hthrows => yields_skip fun _ => ?_
  refine yields_pure fun n hn => ?_
  simp only [ConstructorDecl.names, List.mem_append, List.mem_flatMap] at hn
  rcases hn with (⟨p, hp, hn⟩ | ⟨p, hp, hn⟩) | hn
  · exact htps p hp n hn
  · exact hps p hp n hn
  · exact hthrows n hn

theorem constructor_yields (mods : List String) {tps : List TypeParam}
    (htps : ∀ p ∈ tps, ∀ n ∈ p.names, IsPath n) :
    Yields (do
      ignore identifier
      return Member.constructor (← constructorRest r mods tps)) Member.Spelled :=
  yields_skip fun _ => yields_bind (constructorRest_yields r mods htps) fun _ hc =>
    yields_pure (Member.spelled_constructor hc)

theorem typeMember_yields (mods : List String) :
    Yields (do return Member.type (← r.typeDecl mods)) Member.Spelled :=
  yields_bind (Rules.Spelled.spelled mods) fun _ hd => yields_pure (Member.spelled_type hd)

theorem genericMember_yields (mods : List String) :
    Yields (genericMember r mods) Member.Spelled := by
  unfold genericMember
  refine yields_bind (typeParams_yields r) fun tps htps => ?_
  refine yields_skip fun constructed => yields_ite (constructor_yields r mods htps) ?_
  refine yields_skip fun void => yields_ite (voidMethod_yields r mods htps) ?_
  refine yields_bind (typeUse_yields r) fun type htype => ?_
  exact yields_bind identifier_yields fun name hname => typedMethod_yields r hname mods htps htype

theorem typedMember_yields (mods : List String) : Yields (typedMember r mods) Member.Spelled := by
  unfold typedMember
  refine yields_bind (typeUse_yields r) fun type htype => ?_
  refine yields_bind identifier_yields fun name hname => yields_skip fun called => ?_
  refine yields_ite (typedMethod_yields r hname mods no_params htype) ?_
  exact yields_skip fun _ => yields_pure Member.spelled_nothing

theorem classMember_yields : Yields (classMember r) Member.Spelled := by
  unfold classMember
  have hnothing : Yields (pure Member.nothing) Member.Spelled :=
    yields_pure Member.spelled_nothing
  refine yields_skip fun empty => yields_ite hnothing ?_
  refine yields_skip fun initializer => yields_ite ?_ ?_
  · exact yields_skip fun _ => yields_skip fun _ => hnothing
  refine yields_skip fun initializer => yields_ite (yields_skip fun _ => hnothing) ?_
  refine yields_skip fun mods => yields_skip fun void => ?_
  refine yields_ite (voidMethod_yields r mods no_params) ?_
  refine yields_skip fun generic => yields_ite (genericMember_yields r mods) ?_
  refine yields_skip fun type => yields_ite (typeMember_yields r mods) ?_
  refine yields_skip fun constructed => yields_ite ?_ (typedMember_yields r mods)
  exact constructor_yields r mods no_params

theorem genericInterfaceMember_yields (mods : List String) :
    Yields (genericInterfaceMember r mods) Member.Spelled := by
  unfold genericInterfaceMember
  refine yields_bind (typeParams_yields r) fun tps htps => yields_skip fun void => ?_
  have hrest : ∀ returns : Option TypeUse, (∀ t ∈ returns, t.Spelled) → Yields (do
      let name ← identifier
      return Member.method (← methodRest r (ignore dimensions *> pure 0) name mods tps returns))
      Member.Spelled := fun returns hreturns => yields_bind identifier_yields fun name hname =>
    yields_bind (methodRest_yields r hname mods htps hreturns) fun _ hd =>
      yields_pure (Member.spelled_method hd)
  refine yields_ite (yields_bind (P := fun t? => t? = none) (yields_pure rfl) ?_) ?_
  · rintro _ rfl
    exact hrest none nofun
  · rw [map_eq_pure_bind, bind_assoc]
    refine yields_bind (typeUse_yields r) fun type htype => ?_
    exact hrest (some type) fun _ ht => Option.some.inj ht ▸ htype

theorem interfaceMember_yields : Yields (interfaceMember r) Member.Spelled := by
  unfold interfaceMember
  have hnothing : Yields (pure Member.nothing) Member.Spelled :=
    yields_pure Member.spelled_nothing
  refine yields_skip fun empty => yields_ite hnothing ?_
  refine yields_skip fun mods => yields_skip fun type => ?_
  refine yields_ite (typeMember_yields r mods) ?_
  refine yields_skip fun generic => yields_ite (genericInterfaceMember_yields r mods) ?_
  refine yields_skip fun void => yields_ite (voidMethod_yields r mods no_params) ?_
  unfold typedInterfaceMember
  refine yields_bind (typeUse_yields r) fun type htype => ?_
  refine yields_bind identifier_yields fun name hname => yields_skip fun called => ?_
  refine yields_ite (typedMethod_yields r hname mods no_params htype) ?_
  exact yields_skip fun _ => yields_skip fun _ => hnothing

theorem annotationMember_yields : Yields (annotationMember r) Member.Spelled := by
  unfold annotationMember
  refine yields_skip fun mods => yields_skip fun type => ?_
  refine yields_ite (typeMember_yields r mods) ?_
  exact yields_skip fun _ => yields_pure Member.spelled_nothing

/-- A body between its braces. -/
theorem body_yields {x : Reader Member} [Reader.Forward x] (hx : Yields x Member.Spelled) :
    Yields (do
      ignore (accept "\x7b")
      let members ← manyUntil "\x7d" x
      ignore (accept "\x7d")
      return members) fun ms => ∀ m ∈ ms, m.Spelled := by
  refine yields_skip fun _ => yields_bind (yields_manyWhile hx) fun ms hms => ?_
  exact yields_skip fun _ => yields_pure hms

theorem enumBody_yields : Yields (enumBody r) fun ms => ∀ m ∈ ms, m.Spelled := by
  have hclose : ∀ ms : List Member, (∀ m ∈ ms, m.Spelled) → Yields (do
      ignore (accept "\x7d")
      return ms) fun ms => ∀ m ∈ ms, m.Spelled :=
    fun ms hms => yields_skip fun _ => yields_pure hms
  have hmembers : Yields (do
      let members ← if ← tryOne ";" then manyUntil "\x7d" (classMember r) else pure []
      ignore (accept "\x7d")
      return members) fun ms => ∀ m ∈ ms, m.Spelled := by
    refine yields_skip fun found => yields_ite ?_ ?_
    · exact yields_bind (yields_manyWhile (classMember_yields r)) hclose
    · exact hclose [] fun _ h => absurd h List.not_mem_nil
  unfold enumBody
  refine yields_skip fun _ => yields_skip fun comma => yields_ite ?_ hmembers
  exact yields_skip fun c => yields_skip fun _ => hmembers

end Members

/-! ## Declarations -/

theorem declaredAll_spelled {ds : List TypeDecl} (h : ∀ d ∈ ds, d.Spelled) (owner : String)
    (inInterface : Bool) :
    ∀ x ∈ declaredAll owner inInterface ds,
      (∀ n ∈ x.decl.names, IsPath n) ∧ (∀ t ∈ x.decl.uses, t.Typed) ∧
        ∀ m ∈ x.decl.methods, Token.IsName m.name := by
  induction ds with
  | nil => exact fun x hx => absurd hx List.not_mem_nil
  | cons d ds ih =>
    obtain ⟨hd, hds⟩ := List.forall_mem_cons.mp h
    intro x hx
    rw [declaredAll] at hx
    rcases List.mem_append.mp hx with hx | hx
    · exact hd _ _ x hx
    · exact ih hds x hx

theorem ofMembers_spelled {kind : DeclKind} {name : String} {mods : List String}
    {tps : List TypeParam} {extended implemented : List TypeUse} {ms : List Member}
    (htps : ∀ p ∈ tps, ∀ n ∈ p.names, IsPath n)
    (hextended : ∀ t ∈ extended, t.Spelled) (himplemented : ∀ t ∈ implemented, t.Spelled)
    (hms : ∀ m ∈ ms, m.Spelled) :
    (ofMembers kind name mods tps extended implemented ms).Spelled := by
  intro fullName inInterface x hx
  unfold ofMembers TypeDecl.declared at hx
  rcases List.mem_cons.mp hx with rfl | hx
  · refine ⟨?_, ?_, fun d hd => ?_⟩
    · intro n hn
      simp only [TypeDecl.names, List.mem_append, List.mem_flatMap, List.mem_filterMap] at hn
      rcases hn with (((⟨p, hp, hn⟩ | ⟨t, ht, hn⟩) | ⟨t, ht, hn⟩) | ⟨d, ⟨m, hm, hd⟩, hn⟩) |
        ⟨c, ⟨m, hm, hc⟩, hn⟩
      · exact htps p hp n hn
      · exact (hextended t ht).names n hn
      · exact (himplemented t ht).names n hn
      · exact ((hms m hm).method d hd).names n hn
      · exact (hms m hm).constructor c hc n hn
    · intro t ht
      simp only [TypeDecl.uses, List.mem_append, List.mem_flatMap, List.mem_filterMap] at ht
      rcases ht with (ht | ht) | ⟨d, ⟨m, hm, hd⟩, ht⟩
      · exact (hextended t ht).typed
      · exact (himplemented t ht).typed
      · exact ((hms m hm).method d hd).typed t (Option.mem_toList.mp ht)
    · obtain ⟨m, hm, hd⟩ := List.mem_filterMap.mp hd
      exact ((hms m hm).method d hd).name
  · refine declaredAll_spelled (fun d hd => ?_) _ _ x hx
    obtain ⟨m, hm, hd⟩ := List.mem_filterMap.mp hd
    exact (hms m hm).type d hd

section Declarations

variable (r : Rules) [r.Spelled]

theorem classDecl_yields (mods : List String) : Yields (classDecl r mods) TypeDecl.Spelled := by
  unfold classDecl
  refine yields_skip fun _ => yields_skip fun name => ?_
  refine yields_bind (optionalTypeParams_yields r) fun tps htps => yields_skip fun found => ?_
  have hrest : ∀ extended : List TypeUse, (∀ t ∈ extended, t.Spelled) → Yields (do
      let implemented ← optionalTypes r "implements"
      return ofMembers .classDecl name mods tps extended implemented (← classBody r))
      TypeDecl.Spelled := by
    intro extended hextended
    refine yields_bind (optionalTypes_yields r _) fun implemented himplemented => ?_
    refine yields_bind (body_yields (classMember_yields r)) fun ms hms => yields_pure ?_
    exact ofMembers_spelled htps hextended himplemented hms
  refine yields_ite ?_ (hrest [] fun _ h => absurd h List.not_mem_nil)
  refine yields_bind (typeUse_yields r) fun type htype => hrest [type] fun t ht => ?_
  exact List.mem_singleton.mp ht ▸ htype

theorem no_types : ∀ t ∈ ([] : List TypeUse), t.Spelled :=
  fun _ ht => absurd ht List.not_mem_nil

theorem interfaceDecl_yields (mods : List String) :
    Yields (interfaceDecl r mods) TypeDecl.Spelled := by
  unfold interfaceDecl
  refine yields_skip fun _ => yields_skip fun name => ?_
  refine yields_bind (optionalTypeParams_yields r) fun tps htps => ?_
  refine yields_bind (optionalTypes_yields r _) fun extended hextended => ?_
  refine yields_bind (body_yields (interfaceMember_yields r)) fun ms hms => yields_pure ?_
  exact ofMembers_spelled htps hextended no_types hms

theorem enumDecl_yields (mods : List String) : Yields (enumDecl r mods) TypeDecl.Spelled := by
  unfold enumDecl
  refine yields_skip fun _ => yields_skip fun name => ?_
  refine yields_bind (optionalTypes_yields r _) fun implemented himplemented => ?_
  refine yields_bind (enumBody_yields r) fun ms hms => yields_pure ?_
  exact ofMembers_spelled no_params no_types himplemented hms

theorem annotationDecl_yields (mods : List String) :
    Yields (annotationDecl r mods) TypeDecl.Spelled := by
  unfold annotationDecl
  refine yields_skip fun _ => yields_skip fun name => ?_
  refine yields_bind (body_yields (annotationMember_yields r)) fun ms hms => yields_pure ?_
  exact ofMembers_spelled no_params no_types no_types hms

theorem typeDecl_yields (mods : List String) : Yields (typeDecl r mods) TypeDecl.Spelled := by
  unfold typeDecl
  refine yields_skip fun _ => yields_ite (classDecl_yields r mods) ?_
  refine yields_skip fun _ => yields_ite (enumDecl_yields r mods) ?_
  refine yields_skip fun _ => yields_ite (interfaceDecl_yields r mods) ?_
  exact yields_skip fun _ => yields_ite (annotationDecl_yields r mods) reads_throw

end Declarations

instance (n : Nat) : (rules n).Spelled := by
  induction n with
  | zero => exact { spelled := fun _ => reads_throw }
  | succ n ih => exact { spelled := fun mods => typeDecl_yields (rules n) mods }

/-! ## Units -/

section Units

variable (r : Rules) [r.Spelled]

/-- What stands in front of the imports is read forward, or not at all. -/
theorem optionalPackage_yields :
    Yields (optionalPackage r) fun package => ∀ s ∈ package, Token.IsName s := by
  have hrest : ∀ c : Cursor, c.Sound → Ok (do
      if ← tryOne "package" then
        let name ← qualifiedName
        ignore (accept ";")
        return name
      else
        goBack
        return []) c fun package _ => ∀ s ∈ package, Token.IsName s := by
    intro c hc
    refine ok_bind (reads_tryOne _ c hc) fun found c₁ ⟨hc₁, _⟩ => ?_
    split
    · refine ok_bind (qualifiedName_yields c₁ hc₁) fun name c₂ ⟨_, _, _, hname⟩ => ?_
      exact ok_bind (ok_self _ _) fun _ _ _ => ok_pure hname.segment
    · exact ok_bind (ok_self _ _) fun _ _ _ => ok_pure fun _ h => absurd h List.not_mem_nil
  have hall : ∀ c : Cursor, c.Sound → Ok (optionalPackage r) c fun package _ =>
      ∀ s ∈ package, Token.IsName s := by
    intro c hc
    refine ok_bind (Q := fun _ c₁ => c₁ = { c with mark := c.ahead }) ?_ ?_
    · rintro _ _ ⟨⟩
      rfl
    rintro _ _ rfl
    refine ok_bind (reads_forward seesAnnotationUse _ hc) fun found c₁ ⟨hc₁, _⟩ => ?_
    split
    · exact ok_bind (reads_forward (annotations r) c₁ hc₁) fun _ c₂ ⟨hc₂, _⟩ => hrest c₂ hc₂
    · exact hrest c₁ hc₁
  intro c hc package c' hrun
  obtain ⟨hc', n, hn, -⟩ := reads_forward (optionalPackage r) c hc package c' hrun
  exact ⟨hc', n, hn, hall c hc package c' hrun⟩

theorem importRest_yields (isStatic : Bool) {path : List String} (hpath : IsPath path) (k : Nat) :
    Yields (importRest isStatic path k) fun i => IsPath i.path := by
  induction k generalizing path with
  | zero => exact reads_throw
  | succ k ih =>
    unfold importRest
    refine yields_skip fun found => yields_ite ?_ (yields_skip fun _ => yields_pure hpath)
    refine yields_skip fun onDemand => yields_ite (yields_skip fun _ => yields_pure hpath) ?_
    refine yields_bind identifier_yields fun name hname => ih ⟨by simp, fun s hs => ?_⟩
    rcases List.mem_append.mp hs with hs | hs
    · exact hpath.segment s hs
    · exact List.mem_singleton.mp hs ▸ hname

theorem importDecl_yields : Yields importDecl fun i => IsPath i.path := by
  unfold importDecl
  refine yields_skip fun _ => yields_skip fun isStatic => ?_
  refine yields_bind identifier_yields fun first hfirst => yields_skip fun c => ?_
  exact importRest_yields isStatic
    ⟨List.cons_ne_nil _ _, fun s hs => List.mem_singleton.mp hs ▸ hfirst⟩ _

theorem unitHead_yields : Yields (unitHead r) fun head =>
    (∀ s ∈ head.1, Token.IsName s) ∧ ∀ i ∈ head.2, IsPath i.path := by
  unfold unitHead
  refine yields_bind (optionalPackage_yields r) fun package hpackage => ?_
  exact yields_bind (yields_manyWhile importDecl_yields) fun imports himports =>
    yields_pure ⟨hpackage, himports⟩

theorem unitTypes_yields : Yields (unitTypes r) fun ds => ∀ d ∈ ds, d.Spelled := by
  have hskip : ∀ mods, Yields (do return some (← typeDecl r mods)) fun d? =>
      ∀ d ∈ d?, TypeDecl.Spelled d := fun mods =>
    yields_bind (typeDecl_yields r mods) fun d hd =>
      yields_pure fun _ hd' => Option.some.inj hd' ▸ hd
  have htype : Yields (unitType r) fun d? => ∀ d ∈ d?, TypeDecl.Spelled d := by
    unfold unitType
    exact yields_skip fun empty => yields_ite (yields_pure nofun) (yields_skip hskip)
  unfold unitTypes
  refine yields_bind (yields_manyWhile htype) fun ds hds => yields_pure fun d hd => ?_
  obtain ⟨d?, hd?, hd⟩ := List.mem_filterMap.mp hd
  exact hds d? hd? d hd

end Units

end Grammar

open Grammar Reader

namespace CompilationUnit

theorem ofTokens_written {tokens : List Token} (hsound : ∀ t ∈ tokens, t.Sound)
    {u : CompilationUnit} (h : ofTokens tokens = .ok u) : u.Written Token.IsName ∧ u.Typed ∧
      ∀ d ∈ u.declared, ∀ m ∈ d.decl.methods, Token.IsName m.name := by
  have hdeclared := (ofTokens_proper hsound h).names
  have hsound : Cursor.Sound { ahead := tokens, mark := [] } := hsound
  unfold ofTokens at h
  dsimp only at h
  cases hhead : unitHead (rules (8 * tokens.length + 8)) { ahead := tokens, mark := [] } with
  | error stop c =>
    rw [hhead] at h
    cases stop <;> cases h
  | ok head c =>
    rw [hhead] at h
    dsimp only at h
    obtain ⟨hc, -, -, hpackage, himports⟩ := unitHead_yields _ _ hsound head c hhead
    cases htypes : unitTypes (rules (8 * tokens.length + 8)) c with
    | error stop c' =>
      rw [htypes] at h
      cases h
    | ok types c' =>
      rw [htypes] at h
      cases h
      obtain ⟨-, -, -, hspelled⟩ := unitTypes_yields _ c hc types c' htypes
      have hall := declaredAll_spelled hspelled
      refine ⟨⟨hpackage, himports, hdeclared, fun n hn => ?_⟩, fun d hd => ?_, fun d hd => ?_⟩
      · obtain ⟨d, hd, hn⟩ := List.mem_flatMap.mp hn
        exact (hall _ _ d hd).1 n hn
      · exact (hall _ _ d hd).2.1
      · exact (hall _ _ d hd).2.2

theorem ofText_spelled {text : String} {u : CompilationUnit} (h : ofText text = .ok u) :
    u.Written Token.IsName ∧ u.Typed ∧
      ∀ d ∈ u.declared, ∀ m ∈ d.decl.methods, Token.IsName m.name := by
  unfold ofText at h
  cases htokens : Token.ofText text with
  | error fault =>
    rw [htokens] at h
    cases h
  | ok tokens =>
    rw [htokens] at h
    exact ofTokens_written (Token.ofText_sound htokens) h

/-- A unit that a text spells is written with dotted names. -/
theorem ofText_written {text : String} {u : CompilationUnit} (h : ofText text = .ok u) :
    u.Written Token.IsName :=
  (ofText_spelled h).1

theorem ofText_typed {text : String} {u : CompilationUnit} (h : ofText text = .ok u) : u.Typed :=
  (ofText_spelled h).2.1

/-- The methods in a unit that a text spells are called by identifiers. -/
theorem ofText_methods {text : String} {u : CompilationUnit} (h : ofText text = .ok u)
    {d : Declared} (hd : d ∈ u.declared) {m : MethodDecl} (hm : m ∈ d.decl.methods) :
    Token.IsName m.name :=
  (ofText_spelled h).2.2 d hd m hm

end CompilationUnit

end StubWriter
