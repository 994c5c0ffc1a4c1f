import StubWriter.Proofs.Library.Nesting
import StubWriter.Proofs.Library.Places

/-!
# Inner classes of generic classes

All declarations of a unit are described in the scope of the unit, those of inner classes too. So the
type variables of the classes around an inner class are not in scope there, and their names are
looked up like any others.

* `enclosing`: the type variables that the rules of the language put in scope in a declaration.
* `Place.Mentions`: a mention of a type that may be such a variable.
* `Library.inner_class_read`: such a mention is erased as in the class of the variable exactly where
  the name happens to mean the same.
-/

namespace StubWriter

open Run

/-! ## Variables of enclosing classes -/

namespace Declared

/-- A class that is not static. Instances of a nested one belong to one of the class around it. -/
def isInner (d : Declared) : Bool :=
  d.decl.kind == .classDecl && !d.modifiers.contains "static"

/-- The type variables that share their names with no member type. -/
def unhidden (d : Declared) (vars : List (String × String)) : List (String × String) :=
  vars.filter fun v => d.members.all fun m => m.decl.name != v.1

end Declared

/-- The type variables of enclosing classes that are in scope in the first of some declarations,
each of which is nested in the next. They stand for what they are erased to in their own class. -/
def enclosing (mean : List String → Option String) :
    List Declared → Option (List (String × String))
  | d :: owner :: outer =>
    if d.isInner then do
      let own ← TypeParam.readAll mean [] owner.decl.typeParams
      let around ← enclosing mean (owner :: outer)
      return d.unhidden (owner.unhidden own ++ around)
    else some []
  | _ => some []

/-- Where the section of every class can be read, all enclosing type variables are known. -/
theorem isSome_enclosing {mean : List String → Option String} {chain : List Declared}
    (h : ∀ d ∈ chain, (TypeParam.readAll mean [] d.decl.typeParams).isSome = true) :
    (enclosing mean chain).isSome = true := by
  match chain with
  | [] => rfl
  | [_] => rfl
  | d :: owner :: outer =>
    have howner := List.forall_mem_cons.mp (List.forall_mem_cons.mp h).2
    obtain ⟨own, hown⟩ := Option.isSome_iff_exists.mp howner.1
    obtain ⟨around, haround⟩ := Option.isSome_iff_exists.mp
      (isSome_enclosing (List.forall_mem_cons.mp h).2)
    rw [enclosing, hown, haround]
    split <;> rfl

/-! ## Mentions of type variables -/

/-- A mention of `a` that none of the type parameters around it binds. -/
structure Place.Mentions (p : Place) (a : String) (dims : Nat) : Prop where
  use : p.use = .named [a] dims
  free : a ∉ p.params.map (·.name)

variable {mean : List String → Option String} {vars seen : List (String × String)}

theorem Place.Mentions.read_eq {p : Place} {a : String} {dims : Nat} (hp : p.Mentions a dims)
    (h : (TypeParam.readAll mean vars p.params).isSome = true) :
    p.read mean vars =
      ((vars.lookup a).or (mean [a])).map (· ++ Scope.brackets dims) := by
  obtain ⟨inner, hinner⟩ := Option.isSome_iff_exists.mp h
  obtain ⟨own, rfl, hkeys⟩ := TypeParam.readAll_own hinner
  have hfree : own.lookup a = none := by
    rw [lookup_eq_none_iff_keys, hkeys, List.mem_reverse]
    exact hp.free
  unfold Place.read
  rw [hinner, hp.use]
  simp [TypeUse.read, erasedName, List.lookup_append, hfree, Option.map_eq_bind]

/-! ## Sections that can be read -/

theorem TypeParam.places_prefix {around ps : List TypeParam} :
    ∀ p ∈ TypeParam.places around ps, p.params <+: around ++ ps := by
  induction ps generalizing around with
  | nil => nofun
  | cons p ps ih =>
    intro x hx
    rcases List.mem_append.mp hx with hx | hx
    · obtain ⟨bound, -, rfl⟩ := List.mem_map.mp hx
      exact List.prefix_append _ _
    · have := ih x hx
      rwa [List.append_assoc] at this

theorem isSome_readAll_of_mem {around ps : List TypeParam} {uses : List TypeUse}
    (h : (TypeParam.readAll mean vars (around ++ ps)).isSome = true) {p : Place}
    (hp : p ∈ placesBehind around ps uses) :
    (TypeParam.readAll mean vars p.params).isSome = true := by
  have hprefix : p.params <+: around ++ ps := by
    rcases List.mem_append.mp hp with hp | hp
    · exact TypeParam.places_prefix p hp
    · obtain ⟨use, -, rfl⟩ := List.mem_map.mp hp
      exact List.prefix_rfl
  obtain ⟨rest, hrest⟩ := hprefix
  rw [← hrest, TypeParam.readAll_append] at h
  cases hparams : TypeParam.readAll mean vars p.params with
  | none =>
    rw [hparams] at h
    exact h
  | some inner => rfl

theorem isSome_of_mapM {α β : Type} {f : α → Option β} {xs : List α}
    (h : (xs.mapM f).isSome = true) : ∀ a ∈ xs, (f a).isSome = true := by
  induction xs with
  | nil => nofun
  | cons a as ih =>
    rw [List.mapM_cons] at h
    cases ha : f a with
    | none =>
      rw [ha] at h
      cases h
    | some b =>
      rw [ha] at h
      refine List.forall_mem_cons.mpr ⟨by rw [ha]; rfl, ih ?_⟩
      cases has : as.mapM f with
      | none =>
        rw [has] at h
        cases h
      | some bs => rfl

/-- The first step of a sequence that has a result. -/
theorem isSome_of_bind {α β : Type} {x : Option α} {f : α → Option β}
    (h : (x >>= f).isSome = true) : ∃ a, x = some a ∧ (f a).isSome = true := by
  cases x with
  | none => cases h
  | some a => exact ⟨a, rfl, h⟩

/-- In a declaration that can be read, all sections can. -/
theorem Declared.isSome_params {d : Declared} {package origin : String}
    (h : (d.read mean package origin vars).isSome = true) :
    ∀ p ∈ d.places, (TypeParam.readAll mean vars p.params).isSome = true := by
  obtain ⟨inner, hinner, h⟩ := isSome_of_bind h
  obtain ⟨superclass, -, h⟩ := isSome_of_bind h
  obtain ⟨interfaces, -, h⟩ := isSome_of_bind h
  obtain ⟨methods, hmethods, h⟩ := isSome_of_bind h
  obtain ⟨constructors, hconstructors, -⟩ := isSome_of_bind h
  obtain ⟨stated, hstated, -⟩ := isSome_of_bind (Option.isSome_of_eq_some hconstructors)
  -- A section that can be read behind that of the type.
  have hbehind : ∀ ps, (TypeParam.readAll mean inner ps).isSome = true →
      (TypeParam.readAll mean vars (d.decl.typeParams ++ ps)).isSome = true := by
    intro ps hps
    rw [TypeParam.readAll_append, hinner]
    exact hps
  intro p hp
  rcases List.mem_append.mp hp with hp | hp
  · rcases List.mem_append.mp hp with hp | hp
    · exact isSome_readAll_of_mem (Option.isSome_of_eq_some hinner) hp
    · obtain ⟨m, hm, hp⟩ := List.mem_flatMap.mp hp
      obtain ⟨_, hm, -⟩ := isSome_of_bind (isSome_of_mapM (Option.isSome_of_eq_some hmethods) m hm)
      exact isSome_readAll_of_mem (hbehind _ (Option.isSome_of_eq_some hm)) hp
  · obtain ⟨c, hc, hp⟩ := List.mem_flatMap.mp hp
    obtain ⟨_, hc, -⟩ := isSome_of_bind (isSome_of_mapM (Option.isSome_of_eq_some hstated) c hc)
    exact isSome_readAll_of_mem (hbehind _ (Option.isSome_of_eq_some hc)) hp

/-! ## Variables that make no difference -/

/-- Wherever a place mentions one of the variables, its name means the same anyway. -/
def Place.Unaffected (mean : List String → Option String) (seen : List (String × String))
    (p : Place) : Prop :=
  ∀ a dims e, p.Mentions a dims → seen.lookup a = some e → mean [a] = some e

/-- A section binds the same with and without the variables. -/
def Carried (mean : List String → Option String) (seen : List (String × String))
    (around : List TypeParam) : Prop :=
  TypeParam.readAll mean seen around = (TypeParam.readAll mean [] around).map (· ++ seen)

theorem Carried.read_eq {around : List TypeParam} (h : Carried mean seen around) {use : TypeUse}
    (huse : (Place.mk around use).Unaffected mean seen) :
    (Place.mk around use).read mean seen = (Place.mk around use).read mean [] := by
  unfold Place.read
  dsimp only
  rw [h]
  cases hread : TypeParam.readAll mean [] around with
  | none => rfl
  | some inner =>
    obtain ⟨own, rfl, hkeys⟩ := TypeParam.readAll_own hread
    rw [List.append_nil]
    change use.read mean (own ++ seen) = use.read mean own
    have hname : ∀ segments dims, use = .named segments dims →
        erasedName mean (own ++ seen) segments = erasedName mean own segments := by
      intro segments dims hsegments
      match segments with
      | [] => rfl
      | [a] =>
        change ((own ++ seen).lookup a).or (mean [a]) = (own.lookup a).or (mean [a])
        rw [List.lookup_append]
        cases hown : own.lookup a with
        | some e => rfl
        | none =>
          cases hseen : seen.lookup a with
          | none => rfl
          | some e =>
            rw [lookup_eq_none_iff_keys, hkeys, List.mem_reverse] at hown
            exact (huse a dims e ⟨hsegments, hown⟩ hseen).symm
      | _ :: _ :: _ => rfl
    cases use with
    | basic name dims => rfl
    | named segments dims => simp only [TypeUse.read, hname segments dims rfl]

theorem Carried.snoc {around : List TypeParam} {p : TypeParam} (h : Carried mean seen around)
    (hp : ∀ bound ∈ p.names, (Place.mk around (.named bound 0)).read mean seen =
      (Place.mk around (.named bound 0)).read mean []) : Carried mean seen (around ++ [p]) := by
  unfold Carried at h ⊢
  rw [TypeParam.readAll_append, TypeParam.readAll_append, h]
  cases hread : TypeParam.readAll mean [] around with
  | none => rfl
  | some own =>
    have hp : p.read mean (own ++ seen) = p.read mean own := by
      cases hbounds : p.bounds with
      | nil => simp only [TypeParam.read, hbounds]
      | cons bound more =>
        have hbound := hp bound (by simp [TypeParam.names, hbounds])
        unfold Place.read at hbound
        dsimp only at hbound
        rw [h, hread] at hbound
        simp only [TypeParam.read, hbounds]
        exact hbound
    change TypeParam.readAll mean (own ++ seen) [p] =
      (TypeParam.readAll mean own [p]).map (· ++ seen)
    rw [TypeParam.readAll, TypeParam.readAll, hp]
    cases p.read mean own <;> rfl

theorem Carried.along {around ps : List TypeParam} (h : Carried mean seen around)
    (hps : ∀ p ∈ TypeParam.places around ps, p.Unaffected mean seen) :
    (∀ p ∈ TypeParam.places around ps, p.read mean seen = p.read mean []) ∧
      Carried mean seen (around ++ ps) := by
  induction ps generalizing around with
  | nil => exact ⟨nofun, by rwa [List.append_nil]⟩
  | cons p ps ih =>
    obtain ⟨hbound, hps⟩ := List.forall_mem_append.mp hps
    have hread := fun bound hmem => h.read_eq (List.forall_mem_map.mp hbound bound hmem)
    obtain ⟨hrest, hcarried⟩ := ih (h.snoc hread) hps
    exact ⟨List.forall_mem_append.mpr ⟨List.forall_mem_map.mpr hread, hrest⟩,
      by rwa [List.append_cons]⟩

theorem Carried.behind {around ps : List TypeParam} {uses : List TypeUse}
    (h : Carried mean seen around)
    (hps : ∀ p ∈ placesBehind around ps uses, p.Unaffected mean seen) :
    (∀ p ∈ placesBehind around ps uses, p.read mean seen = p.read mean []) ∧
      Carried mean seen (around ++ ps) := by
  obtain ⟨hsection, huses⟩ := List.forall_mem_append.mp hps
  obtain ⟨hread, hcarried⟩ := h.along hsection
  refine ⟨List.forall_mem_append.mpr ⟨hread, ?_⟩, hcarried⟩
  exact List.forall_mem_map.mpr fun use huse =>
    hcarried.read_eq (List.forall_mem_map.mp huses use huse)

/-- Variables whose names mean the same anyway make no difference to the type of a declaration. -/
theorem Declared.read_of_unaffected {d : Declared} {package origin : String}
    (h : ∀ p ∈ d.places, p.Unaffected mean seen) :
    d.read mean package origin seen = d.read mean package origin [] := by
  obtain ⟨h, hconstructors⟩ := List.forall_mem_append.mp h
  obtain ⟨hheader, hmethods⟩ := List.forall_mem_append.mp h
  have hstart : Carried mean seen [] := rfl
  obtain ⟨hheader, hcarried⟩ := hstart.behind hheader
  refine Declared.read_congr ?_
  refine List.forall_mem_append.mpr ⟨List.forall_mem_append.mpr ⟨hheader, ?_⟩, ?_⟩
  · exact List.forall_mem_flatMap.mpr fun m hm =>
      (hcarried.behind (List.forall_mem_flatMap.mp hmethods m hm)).1
  · exact List.forall_mem_flatMap.mpr fun c hc =>
      (hcarried.behind (List.forall_mem_flatMap.mp hconstructors c hc)).1

/-! ## Registered types -/

namespace Library

/-- What an inner class becomes when its unit is registered. A mention of a type variable of an
enclosing class is erased as in that class if and only if the name of the variable means just that
in the unit. If all of them do, the type is the one that is read with the variables in scope. -/
theorem inner_class_read {u : CompilationUnit} (hu : u.Written IsSegment) {l : Library}
    (hl : l.Sound) {d : Declared} {outer : List Declared} (hnest : u.Nest (d :: outer))
    {origin : String} (hok : outcome (register u origin l) = .ok ()) :
    let mean := (Scope.ofUnit u).means l
    ∃ seen t, enclosing mean (d :: outer) = some seen ∧ l.readIn u origin d = some t ∧
      (stateAfter (register u origin l)).graph =
        l.graph.addTypes (u.declared.filterMap (l.readIn u origin)) ∧
      (∀ p ∈ d.places, ∀ a dims e, p.Mentions a dims → seen.lookup a = some e →
        (p.read mean [] = some (e ++ Scope.brackets dims) ↔ mean [a] = some e)) ∧
      ((∀ p ∈ d.places, ∀ a dims e, p.Mentions a dims → seen.lookup a = some e →
          mean [a] = some e) →
        d.read mean u.packageName origin seen = some t) := by
  intro mean
  obtain ⟨hgraph, hall⟩ := register_reads hu hl origin
  have hall := hall.mp hok
  have hsections : ∀ e ∈ d :: outer,
      (TypeParam.readAll mean [] e.decl.typeParams).isSome = true := by
    intro e he
    obtain ⟨around, he⟩ := hnest.of_mem he
    obtain ⟨inner, hinner, -⟩ := isSome_of_bind (hall e he.mem_declared)
    exact Option.isSome_of_eq_some hinner
  obtain ⟨seen, hseen⟩ := Option.isSome_iff_exists.mp (isSome_enclosing hsections)
  have hread := hall d hnest.mem_declared
  obtain ⟨t, ht⟩ := Option.isSome_iff_exists.mp hread
  refine ⟨seen, t, hseen, ht, hgraph.trans ?_, fun p hp a dims e hmention _ => ?_, fun h => ?_⟩
  · rw [readable_all hall]
  · rw [hmention.read_eq (Declared.isSome_params hread p hp)]
    change (mean [a]).map _ = _ ↔ _
    rw [Option.map_eq_some_iff]
    constructor
    · rintro ⟨e', he', heq⟩
      rw [he', (String.append_left_inj _).mp heq]
    · exact fun h => ⟨e, h, rfl⟩
  · rw [Declared.read_of_unaffected h]
    exact ht

/-! ## A class in a generic class -/

/-- An inner class whose method returns the type variable of the class around it. -/
def innerText : String :=
  "package p; abstract class A<T> { abstract T g(); abstract class B { abstract T f(); } }"

/-- The inner class, for a variable of any name. -/
def innerB (x : String) : TypeDecl where
  kind := .classDecl
  name := "B"
  modifiers := ["abstract"]
  typeParams := []
  extended := []
  implemented := []
  methods := [{ name := "f", modifiers := ["abstract"], typeParams := [],
                returns := some (.named [x] 0), params := [], throws := [], hasBody := false }]
  constructors := []
  nested := []

def innerA (x : String) : TypeDecl :=
  { innerB x with
    name := "A", typeParams := [⟨x, []⟩], methods := (innerB x).methods.map ({ · with name := "g" })
    nested := [innerB x] }

def innerUnit (x : String) : CompilationUnit where
  package := ["p"]
  imports := []
  types := [innerA x]

def innerDeclared (x : String) : Declared :=
  ⟨innerB x, "p.A.B", false⟩

/-- The inner class and the class around it. -/
def innerChain (x : String) : List Declared :=
  [innerDeclared x, ⟨innerA x, "p.A", false⟩]

/-- What names mean in the unit. -/
def innerMeans (x : String) : List String → Option String :=
  (Scope.ofUnit (innerUnit x)).means emptyLibrary

/-- What the method of the inner class returns. -/
def innerPlace (x : String) : Place :=
  ⟨[], .named [x] 0⟩

theorem innerUnit_facts : CompilationUnit.ofText innerText = .ok (innerUnit "T") ∧
    (∀ x ∈ ["T", "Object"], (innerUnit x).Written IsSegment ∧
      outcome (register (innerUnit x) "p/A.java" emptyLibrary) = .ok () ∧
      enclosing (innerMeans x) (innerChain x) = some [(x, objectName)] ∧
      (innerDeclared x).places = [innerPlace x]) ∧
    innerMeans "T" ["T"] = some "p.T" ∧ innerMeans "Object" ["Object"] = some objectName ∧
    ((emptyLibrary.readIn (innerUnit "T") "p/A.java" (innerDeclared "T")).map fun t =>
      t.methods.map Method.returns) = some ["p.T"] := by
  decide +kernel

theorem innerUnit_nest (x : String) : (innerUnit x).Nest (innerChain x) :=
  .member (.top (List.mem_singleton.mpr rfl)) (List.mem_singleton.mpr rfl)

theorem innerPlace_mentions (x : String) : (innerPlace x).Mentions x 0 :=
  ⟨rfl, List.not_mem_nil⟩

/-- What the method returns when its class is registered. `T` is taken for a class of the package,
which is not what it is erased to around the inner class. A variable with the name of the class
`Object` is erased alike in both, so that the inner class is read as with the variable in scope. -/
theorem inner_class_read_returned :
    emptyLibrary.Sound ∧
    (∀ x ∈ ["T", "Object"], (innerUnit x).Written IsSegment ∧ (innerUnit x).Nest (innerChain x) ∧
      outcome (register (innerUnit x) "p/A.java" emptyLibrary) = .ok () ∧
      enclosing (innerMeans x) (innerChain x) = some [(x, objectName)] ∧
      innerPlace x ∈ (innerDeclared x).places ∧ (innerPlace x).Mentions x 0) ∧
    (∃ t, emptyLibrary.readIn (innerUnit "T") "p/A.java" (innerDeclared "T") = some t ∧
      t.methods.map Method.returns = ["p.T"] ∧
      (innerPlace "T").read (innerMeans "T") [] ≠ some objectName) ∧
    ∃ t, emptyLibrary.readIn (innerUnit "Object") "p/A.java" (innerDeclared "Object") = some t ∧
      (innerPlace "Object").read (innerMeans "Object") [] = some objectName ∧
      (innerDeclared "Object").read (innerMeans "Object") "p" "p/A.java" [("Object", objectName)] =
        some t := by
  obtain ⟨-, hunits, hT, hObject, hreturns⟩ := innerUnit_facts
  have hsound : emptyLibrary.Sound := (ofUnits_basedOn _ _ _).2.2
  have hplace : ∀ x ∈ ["T", "Object"], innerPlace x ∈ (innerDeclared x).places := by
    intro x hx
    rw [(hunits x hx).2.2.2]
    exact List.mem_singleton_self _
  refine ⟨hsound, fun x hx => ?_, ?_, ?_⟩
  · obtain ⟨hwritten, hok, hseen, -⟩ := hunits x hx
    exact ⟨hwritten, innerUnit_nest x, hok, hseen, hplace x hx, innerPlace_mentions x⟩
  · obtain ⟨hwritten, hok, hseen, -⟩ := hunits "T" (by decide)
    obtain ⟨seen, t, hseen', ht, -, hmention, -⟩ :=
      inner_class_read hwritten hsound (innerUnit_nest "T") hok
    cases hseen.symm.trans hseen'
    have hread := hmention _ (hplace "T" (by decide)) "T" 0 objectName (innerPlace_mentions "T") rfl
    refine ⟨t, ht, ?_, fun h => ?_⟩
    · rw [ht] at hreturns
      exact Option.some.inj hreturns
    · have hmeans := hT.symm.trans (hread.mp h)
      exact absurd hmeans (by decide)
  · obtain ⟨hwritten, hok, hseen, hplaces⟩ := hunits "Object" (by decide)
    obtain ⟨seen, t, hseen', ht, -, hmention, hall⟩ :=
      inner_class_read hwritten hsound (innerUnit_nest "Object") hok
    cases hseen.symm.trans hseen'
    have hread := hmention _ (hplace "Object" (by decide)) "Object" 0 objectName
      (innerPlace_mentions "Object") rfl
    refine ⟨t, ht, hread.mpr hObject, hall fun p hp a dims e hp' he => ?_⟩
    rw [hplaces] at hp
    obtain rfl := List.mem_singleton.mp hp
    obtain ⟨hname, -⟩ := TypeUse.named.inj hp'.use
    cases hname
    cases he
    exact hObject

/-- What `f` returns is taken for a class of the package, although `g` returns an object. -/
theorem not_inner_class_read : ¬ ∀ (text : String) (u : CompilationUnit) (l : Library)
    (origin : String), CompilationUnit.ofText text = .ok u → l.Sound →
    outcome (register u origin l) = .ok () →
    ∀ (d : Declared) (outer : List Declared), u.Nest (d :: outer) → d.isInner = true →
    ∀ seen, enclosing ((Scope.ofUnit u).means l) (d :: outer) = some seen →
    ∀ p ∈ d.places, ∀ a dims e, p.Mentions a dims → seen.lookup a = some e →
      p.read ((Scope.ofUnit u).means l) [] = some (e ++ Scope.brackets dims) := by
  intro h
  obtain ⟨htext, hunits, hmeans, -⟩ := innerUnit_facts
  obtain ⟨-, hok, hseen, hplaces⟩ := hunits "T" (by decide)
  have hsound : emptyLibrary.Sound := (ofUnits_basedOn _ _ _).2.2
  have hread := h _ _ _ _ htext hsound hok _ _ (innerUnit_nest "T") (by decide +kernel) _ hseen
    (innerPlace "T") (hplaces ▸ List.mem_singleton_self _) "T" 0 objectName
    (innerPlace_mentions "T") rfl
  rw [(innerPlace_mentions "T").read_eq rfl] at hread
  change (innerMeans "T" ["T"]).map _ = _ at hread
  rw [hmeans] at hread
  exact absurd hread (by decide)

end Library

end StubWriter
