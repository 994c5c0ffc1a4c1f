import StubWriter.Proofs.Library.Places
import StubWriter.Proofs.Library.Registered

/-!
# Type parameters that bound each other

A type parameter is erased to its first bound, which may be another parameter of the same section.
Erasure goes through a section once, from left to right. A bound that names a parameter to the left
is erased like that parameter. One that names a parameter further to the right is looked for outside
of the section, where it may mean another thing or nothing.

* `TypeParam.Erasure`: the erasure of a parameter, wherever in the section its bound is.
* `Scope.eraseTypeParams_iff`: when a section is erased in this way. Two orders of a section in both
  of which it is make no difference to any signature behind it.
-/

namespace StubWriter

open Run

namespace TypeParam

/-- What a parameter of a section is erased to, where `resolved` tells what names outside of the
section are erased to. -/
inductive Erasure (ps : List TypeParam) (resolved : List String → Option String) :
    TypeParam → String → Prop
  | unbounded {p : TypeParam} (h : p.bounds.head? = none) : Erasure ps resolved p objectName
  | parameter {p q : TypeParam} {e : String} (hbound : p.bounds.head? = some [q.name]) (hq : q ∈ ps)
      (h : Erasure ps resolved q e) : Erasure ps resolved p e
  | outer {p : TypeParam} {bound : List String} {e : String} (hbound : p.bounds.head? = some bound)
      (hfree : ∀ q ∈ ps, bound ≠ [q.name]) (h : resolved bound = some e) : Erasure ps resolved p e

/-- No parameter is bounded by itself, whether at once or by way of others. -/
def Acyclic (ps : List TypeParam) : Prop :=
  ∃ rank : String → Nat, ∀ p ∈ ps, ∀ q ∈ ps, p.bounds.head? = some [q.name] →
    rank q.name < rank p.name

variable {ps ps' : List TypeParam} {resolved : List String → Option String} {p q : TypeParam}
  {e e' : String}

theorem eq_of_name (hnames : (ps.map (·.name)).Nodup) (hp : p ∈ ps) (hq : q ∈ ps)
    (h : p.name = q.name) : p = q :=
  List.inj_on_of_nodup_map hnames hp hq h

/-- A parameter whose bound is another one is erased like that one. -/
theorem Erasure.of_parameter (hnames : (ps.map (·.name)).Nodup) (h : Erasure ps resolved p e)
    (hbound : p.bounds.head? = some [q.name]) (hq : q ∈ ps) : Erasure ps resolved q e := by
  cases h with
  | unbounded h => cases hbound.symm.trans h
  | parameter hbound' hq' h =>
    have hname := Option.some.inj (hbound'.symm.trans hbound)
    rwa [← eq_of_name hnames hq' hq (List.singleton_inj.mp hname)]
  | outer hbound' hfree h => exact absurd (Option.some.inj (hbound'.symm.trans hbound)) (hfree q hq)

theorem Erasure.unique (hnames : (ps.map (·.name)).Nodup) (h : Erasure ps resolved p e)
    (h' : Erasure ps resolved p e') : e = e' := by
  induction h generalizing e' with
  | unbounded hnone =>
    cases h' with
    | unbounded _ => rfl
    | parameter hbound _ _ => cases hbound.symm.trans hnone
    | outer hbound _ _ => cases hbound.symm.trans hnone
  | parameter hbound hq _ ih => exact ih (h'.of_parameter hnames hbound hq)
  | outer hbound hfree hresolved =>
    cases h' with
    | unbounded hnone => cases hbound.symm.trans hnone
    | parameter hbound' hq _ =>
      exact absurd (Option.some.inj (hbound.symm.trans hbound')) (hfree _ hq)
    | outer hbound' _ hresolved' =>
      cases Option.some.inj (hbound.symm.trans hbound')
      exact Option.some.inj (hresolved.symm.trans hresolved')

theorem Erasure.perm (hperm : ps.Perm ps') (h : Erasure ps resolved p e) :
    Erasure ps' resolved p e := by
  induction h with
  | unbounded h => exact .unbounded h
  | parameter hbound hq _ ih => exact .parameter hbound (hperm.mem_iff.mp hq) ih
  | outer hbound hfree h =>
    exact .outer hbound (fun q hq => hfree q (hperm.mem_iff.mpr hq)) h

/-! ## Sections as they are read -/

section Read

variable {mean : List String → Option String} {vars inner : List (String × String)}

/-- What a bound is erased to. -/
def readBound (mean : List String → Option String) (vars : List (String × String))
    (bound : List String) : Option String :=
  (TypeUse.named bound 0).read mean vars

theorem read_of_none (h : p.bounds.head? = none) : p.read mean vars = some objectName := by
  unfold TypeParam.read
  rw [List.head?_eq_none_iff.mp h]

theorem read_of_bound {bound : List String} (h : p.bounds.head? = some bound) :
    p.read mean vars = readBound mean vars bound := by
  obtain ⟨more, hmore⟩ := List.head?_eq_some_iff.mp h
  unfold TypeParam.read
  rw [hmore]
  rfl

theorem readBound_own {own : List (String × String)} {a : String} (h : own.lookup a = some e) :
    readBound mean (own ++ vars) [a] = some e := by
  have hlookup : (own ++ vars).lookup a = some e := by
    rw [List.lookup_append, h]
    rfl
  simp [readBound, TypeUse.read, erasedName, hlookup, Scope.brackets]

theorem readBound_outer {own : List (String × String)} {bound : List String}
    (h : ∀ a, bound = [a] → a ∉ own.map Prod.fst) :
    readBound mean (own ++ vars) bound = readBound mean vars bound := by
  match bound with
  | [] => rfl
  | [a] =>
    have hlookup : (own ++ vars).lookup a = vars.lookup a := by
      rw [List.lookup_append, lookup_eq_none_iff_keys.mpr (h a rfl)]
      rfl
    simp [readBound, TypeUse.read, erasedName, hlookup]
  | _ :: _ :: _ => rfl

/-! ### From left to right -/

/-- All bounds that name no parameter of the section mean something. -/
def OuterResolved (ps : List TypeParam) (resolved : List String → Option String) : Prop :=
  ∀ p ∈ ps, ∀ bound, p.bounds.head? = some bound → (∀ q ∈ ps, bound ≠ [q.name]) →
    (resolved bound).isSome = true

/-- A bound that names the parameter itself or one to its right means outside of the section just
what that parameter is erased to. -/
def LaterResolved (ps : List TypeParam) (resolved : List String → Option String) : Prop :=
  ∀ before p after, ps = before ++ p :: after → ∀ q ∈ p :: after,
    p.bounds.head? = some [q.name] → ∃ e, resolved [q.name] = some e ∧ Erasure ps resolved q e

/-- Variables that stand for what the first parameters of a section are erased to. -/
structure Begun (ps : List TypeParam) (resolved : List String → Option String)
    (before : List TypeParam) (own : List (String × String)) : Prop where
  keys : own.map Prod.fst = (before.map (·.name)).reverse
  erased : ∀ p ∈ before, ∃ e, own.lookup p.name = some e ∧ Erasure ps resolved p e

variable {before after : List TypeParam} {own : List (String × String)}

theorem Begun.not_mem (h : Begun ps resolved before own) {a : String}
    (ha : ∀ q ∈ before, a ≠ q.name) : a ∉ own.map Prod.fst := by
  rw [h.keys, List.mem_reverse, List.mem_map]
  rintro ⟨q, hq, rfl⟩
  exact ha q hq rfl

theorem name_ne (hnames : (ps.map (·.name)).Nodup) (hps : ps = before ++ after) {p q : TypeParam}
    (hp : p ∈ before) (hq : q ∈ after) : p.name ≠ q.name := by
  rw [hps, List.map_append] at hnames
  intro h
  exact List.disjoint_of_nodup_append hnames (List.mem_map_of_mem hp) (h ▸ List.mem_map_of_mem hq)

/-- The next parameter is read with what was read before it. -/
theorem Begun.read (h : Begun ps (readBound mean vars) before own)
    (hnames : (ps.map (·.name)).Nodup) (houter : OuterResolved ps (readBound mean vars))
    (hlater : LaterResolved ps (readBound mean vars)) (hps : ps = before ++ p :: after) :
    ∃ e, p.read mean (own ++ vars) = some e ∧ Erasure ps (readBound mean vars) p e := by
  have hp : p ∈ ps := by simp [hps]
  cases hhead : p.bounds.head? with
  | none => exact ⟨objectName, read_of_none hhead, .unbounded hhead⟩
  | some bound =>
  rw [read_of_bound hhead]
  -- The bound is a parameter to the left, or one that is not bound yet, or no parameter at all.
  by_cases hq : ∃ q ∈ ps, bound = [q.name]
  · obtain ⟨q, hq, rfl⟩ := hq
    rcases List.mem_append.mp (hps ▸ hq) with hleft | hright
    · obtain ⟨e, hlookup, he⟩ := h.erased q hleft
      exact ⟨e, readBound_own hlookup, .parameter hhead hq he⟩
    · obtain ⟨e, hresolved, he⟩ := hlater before p after hps q hright hhead
      refine ⟨e, (readBound_outer ?_).trans hresolved, .parameter hhead hq he⟩
      rintro _ ⟨⟩
      exact h.not_mem fun q' hq' => (name_ne hnames hps hq' hright).symm
  · have hfree : ∀ q ∈ ps, bound ≠ [q.name] := fun q hmem heq => hq ⟨q, hmem, heq⟩
    obtain ⟨e, he⟩ := Option.isSome_iff_exists.mp (houter p hp bound hhead hfree)
    refine ⟨e, (readBound_outer ?_).trans he, .outer hhead hfree he⟩
    rintro a rfl
    refine h.not_mem fun q hq heq => hfree q (hps ▸ List.mem_append_left _ hq) ?_
    rw [heq]

theorem Begun.snoc (h : Begun ps resolved before own) (hnames : (ps.map (·.name)).Nodup)
    (hps : ps = before ++ p :: after) (he : Erasure ps resolved p e) :
    Begun ps resolved (before ++ [p]) ((p.name, e) :: own) where
  keys := by simp [h.keys]
  erased q hq := by
    rcases List.mem_append.mp hq with hq | hq
    · obtain ⟨e', hlookup, he'⟩ := h.erased q hq
      refine ⟨e', ?_, he'⟩
      rw [List.lookup_cons, beq_false_of_ne (name_ne hnames hps hq List.mem_cons_self)]
      exact hlookup
    · obtain rfl := List.mem_singleton.mp hq
      exact ⟨e, List.lookup_cons_self, he⟩

theorem Begun.readAll (h : Begun ps (readBound mean vars) before own)
    (hnames : (ps.map (·.name)).Nodup) (houter : OuterResolved ps (readBound mean vars))
    (hlater : LaterResolved ps (readBound mean vars)) (hps : ps = before ++ after) :
    ∃ own', TypeParam.readAll mean (own ++ vars) after = some (own' ++ vars) ∧
      Begun ps (readBound mean vars) ps own' := by
  induction after generalizing before own with
  | nil =>
    rw [List.append_nil] at hps
    exact ⟨own, rfl, hps ▸ h⟩
  | cons p after ih =>
    obtain ⟨e, hread, he⟩ := h.read hnames houter hlater hps
    obtain ⟨own', hrest, hown'⟩ := ih (h.snoc hnames hps he) (by simp [hps])
    refine ⟨own', ?_, hown'⟩
    rw [TypeParam.readAll, hread]
    exact hrest

/-- What is read of a parameter in the midst of a section. -/
theorem readAll_at (hnames : (ps.map (·.name)).Nodup) (hps : ps = before ++ p :: after)
    (h : readAll mean vars ps = some (own ++ vars)) :
    ∃ left e, left.map Prod.fst = (before.map (·.name)).reverse ∧
      p.read mean (left ++ vars) = some e ∧ own.lookup p.name = some e := by
  rw [hps, readAll_append] at h
  obtain ⟨_, hbefore, h⟩ := Option.bind_eq_some_iff.mp h
  obtain ⟨left, rfl, hleft⟩ := readAll_own hbefore
  obtain ⟨e, he, h⟩ := Option.bind_eq_some_iff.mp h
  obtain ⟨right, hown, hright⟩ := readAll_own h
  refine ⟨left, e, hleft, he, ?_⟩
  have hown : own ++ vars = (right ++ (p.name, e) :: left) ++ vars := by
    rw [hown, List.append_assoc]
    rfl
  obtain rfl := List.append_cancel_right hown
  have hp : p.name ∉ right.map Prod.fst := by
    rw [hps, List.map_append] at hnames
    rw [hright, List.mem_reverse]
    exact (List.nodup_cons.mp hnames.of_append_right).1
  rw [List.lookup_append, lookup_eq_none_iff_keys.mpr hp, List.lookup_cons_self]
  rfl

/-- A bound that names no parameter to the left is read as it is outside of the section. -/
theorem Begun.outside (h : Begun ps (readBound mean vars) ps own) (hnames : (ps.map (·.name)).Nodup)
    (hread : TypeParam.readAll mean vars ps = some (own ++ vars)) (hps : ps = before ++ p :: after)
    {bound : List String} (hhead : p.bounds.head? = some bound)
    (hfree : ∀ q ∈ before, bound ≠ [q.name]) :
    ∃ e, readBound mean vars bound = some e ∧ Erasure ps (readBound mean vars) p e := by
  obtain ⟨left, e, hleft, he, hlookup⟩ := readAll_at hnames hps hread
  obtain ⟨e', hlookup', herasure⟩ := h.erased p (by simp [hps])
  cases Option.some.inj (hlookup.symm.trans hlookup')
  refine ⟨e, ?_, herasure⟩
  rw [← he, read_of_bound hhead, readBound_outer]
  rintro a rfl hmem
  rw [hleft, List.mem_reverse] at hmem
  obtain ⟨q, hq, rfl⟩ := List.mem_map.mp hmem
  exact hfree q hq rfl

/-- A section is erased from left to right as its bounds say if and only if those that name a
parameter to the right mean the same thing outside of the section. -/
theorem readAll_begun_iff (hnames : (ps.map (·.name)).Nodup) :
    (∃ own, readAll mean vars ps = some (own ++ vars) ∧ Begun ps (readBound mean vars) ps own) ↔
      OuterResolved ps (readBound mean vars) ∧ LaterResolved ps (readBound mean vars) := by
  constructor
  · rintro ⟨own, hread, hown⟩
    refine ⟨fun p hp bound hhead hfree => ?_, fun before p after hps q hq hhead => ?_⟩
    · obtain ⟨before, after, hps⟩ := List.append_of_mem hp
      obtain ⟨e, he, -⟩ := hown.outside hnames hread hps hhead fun q hq =>
        hfree q (hps ▸ List.mem_append_left _ hq)
      rw [he]
      rfl
    · obtain ⟨e, he, herasure⟩ := hown.outside hnames hread hps hhead fun q' hq' heq =>
        name_ne hnames hps hq' hq (List.singleton_inj.mp heq).symm
      exact ⟨e, he, herasure.of_parameter hnames hhead (hps ▸ List.mem_append_right _ hq)⟩
  · rintro ⟨houter, hlater⟩
    have hnone : Begun ps (readBound mean vars) [] [] := ⟨rfl, nofun⟩
    exact hnone.readAll hnames houter hlater rfl

end Read

end TypeParam

/-! ## Sections as they are erased -/

/-- The part of a run that is a result, when the result is changed in the end. -/
theorem Run.toOption_map {σ α β : Type} (x : EStateM Failure σ α) (f : α → β) (s : σ) :
    (outcome ((do return f (← x) : EStateM Failure σ β) s)).toOption =
      (outcome (x s)).toOption.map f := by
  change (outcome (EStateM.bind x _ s)).toOption = _
  unfold EStateM.bind
  cases x s <;> rfl

namespace Scope

/-- What a bound is erased to in the scope around a section. -/
def resolvedIn (s : Scope) (l : Library) (bound : List String) : Option String :=
  (outcome (s.resolveType (.named bound 0) l)).toOption

/-- A section is erased as its bounds say. -/
def Erases (s : Scope) (l : Library) (ps : List TypeParam) : Prop :=
  ∃ vars, outcome (s.eraseTypeParams [] ps l) = .ok vars ∧
    ∀ p ∈ ps, ∃ e, vars.lookup p.name = some e ∧ TypeParam.Erasure ps (s.resolvedIn l) p e

/-- Sections behind which methods, constructors and types are described alike. -/
structure Indifferent (s : Scope) (l : Library) (ps ps' : List TypeParam) : Prop where
  methods : ∀ (m : MethodDecl) owner inInterface,
    (outcome (({ m with typeParams := ps }).describe owner inInterface s l)).toOption =
      (outcome (({ m with typeParams := ps' }).describe owner inInterface s l)).toOption
  constructors : ∀ (c : ConstructorDecl) owner,
    (outcome (({ c with typeParams := ps }).describe owner s l)).toOption =
      (outcome (({ c with typeParams := ps' }).describe owner s l)).toOption
  types : ∀ (d : Declared) package origin,
    (outcome (({ d with decl := { d.decl with typeParams := ps } }).describe
      package origin s l)).toOption =
      (outcome (({ d with decl := { d.decl with typeParams := ps' } }).describe
        package origin s l)).toOption

variable {s : Scope} {l : Library} {ps ps' : List TypeParam}

theorem resolvedIn_eq (hl : l.Sound) :
    s.resolvedIn l = TypeParam.readBound (s.means l) s.typeVars :=
  funext fun _ => (resolveType_reads (fun n _ => Library.means_reads hl s n) l (Std.Refl.refl l)).2

theorem erases_iff (hl : l.Sound) : s.Erases l ps ↔
    ∃ own, TypeParam.readAll (s.means l) s.typeVars ps = some (own ++ s.typeVars) ∧
      TypeParam.Begun ps (TypeParam.readBound (s.means l) s.typeVars) ps own := by
  have hreads : (outcome (s.eraseTypeParams [] ps l)).toOption.map (· ++ s.typeVars) =
      TypeParam.readAll (s.means l) s.typeVars ps := by
    rw [← Run.toOption_map]
    exact (eraseTypeParams_reads (fun n _ => Library.means_reads hl s n) [] l (Std.Refl.refl l)).2
  unfold Erases
  rw [resolvedIn_eq hl, ← hreads]
  constructor
  · rintro ⟨vars, hvars, herased⟩
    have hread : TypeParam.readAll (s.means l) s.typeVars ps = some (vars ++ s.typeVars) := by
      rw [← hreads, hvars]
      rfl
    obtain ⟨own, hown, hkeys⟩ := TypeParam.readAll_own hread
    obtain rfl := List.append_cancel_right hown
    exact ⟨vars, hreads.trans hread, hkeys, herased⟩
  · rintro ⟨own, hown, hbegun⟩
    obtain ⟨vars, hvars, heq⟩ := Option.map_eq_some_iff.mp hown
    obtain rfl := List.append_cancel_right heq
    refine ⟨vars, ?_, hbegun.erased⟩
    generalize outcome (s.eraseTypeParams [] ps l) = o at hvars
    cases o <;> cases hvars
    rfl

/-- Sections that bind the same variables are followed by the same descriptions. -/
theorem indifferent_of_lookup (hl : l.Sound) {vars vars' : List (String × String)}
    (hread : TypeParam.readAll (s.means l) s.typeVars ps = some vars)
    (hread' : TypeParam.readAll (s.means l) s.typeVars ps' = some vars')
    (h : ∀ a, vars.lookup a = vars'.lookup a) : s.Indifferent l ps ps' := by
  have hmeans := fun n => Library.means_reads hl s n
  have hplaces : ∀ p : Place, p.read (s.means l) vars = p.read (s.means l) vars' :=
    Place.read_of_lookup h
  have hstart : Behind (s.means l) [] vars vars' vars vars' := ⟨rfl, rfl⟩
  refine ⟨fun m owner inInterface => ?_, fun c owner => ?_, fun d package origin => ?_⟩
  · rw [(MethodDecl.describe_reads (fun n _ => hmeans n) l (Std.Refl.refl l)).2,
      (MethodDecl.describe_reads (fun n _ => hmeans n) l (Std.Refl.refl l)).2]
    unfold MethodDecl.read
    rw [hread, hread']
    exact MethodDecl.read_congr hstart (m := { m with typeParams := [] }) fun p _ => hplaces p
  · rw [(ConstructorDecl.describe_reads (fun n _ => hmeans n) l (Std.Refl.refl l)).2,
      (ConstructorDecl.describe_reads (fun n _ => hmeans n) l (Std.Refl.refl l)).2]
    unfold ConstructorDecl.read
    rw [hread, hread']
    exact ConstructorDecl.read_congr hstart (c := { c with typeParams := [] }) fun p _ => hplaces p
  · rw [Library.describe_means hl, Library.describe_means hl]
    unfold Declared.read
    rw [hread, hread']
    exact Declared.read_congr (d := { d with decl := { d.decl with typeParams := [] } })
      fun p _ => hplaces p

/-- A section is erased as its bounds say if and only if all bounds that name no parameter of the
section mean something, and those that name a parameter to the right mean outside of the section
just what it is erased to. Two orders of a section that are erased so are followed by the same
descriptions. -/
theorem eraseTypeParams_iff (hl : l.Sound) (hnames : (ps.map (·.name)).Nodup) :
    (s.Erases l ps ↔ TypeParam.OuterResolved ps (s.resolvedIn l) ∧
        TypeParam.LaterResolved ps (s.resolvedIn l)) ∧
      ∀ ps', ps.Perm ps' → s.Erases l ps → s.Erases l ps' → s.Indifferent l ps ps' := by
  refine ⟨?_, fun ps' hperm hps hps' => ?_⟩
  · rw [erases_iff hl, resolvedIn_eq hl]
    exact TypeParam.readAll_begun_iff hnames
  · obtain ⟨own, hread, hown⟩ := (erases_iff hl).mp hps
    obtain ⟨own', hread', hown'⟩ := (erases_iff hl).mp hps'
    refine indifferent_of_lookup hl hread hread' fun a => ?_
    rw [List.lookup_append, List.lookup_append]
    congr 1
    by_cases ha : ∃ p ∈ ps, p.name = a
    · obtain ⟨p, hp, rfl⟩ := ha
      obtain ⟨e, hlookup, he⟩ := hown.erased p hp
      obtain ⟨e', hlookup', he'⟩ := hown'.erased p (hperm.mem_iff.mp hp)
      rw [hlookup, hlookup', he.unique hnames (he'.perm hperm.symm)]
    · have hfree : ∀ p ∈ ps, a ≠ p.name := fun p hp heq => ha ⟨p, hp, heq.symm⟩
      rw [lookup_eq_none_iff_keys.mpr (hown.not_mem hfree),
        lookup_eq_none_iff_keys.mpr (hown'.not_mem fun p hp =>
          hfree p (hperm.mem_iff.mpr hp))]

/-! ### A bound to the right -/

/-- The sections of `interface A<T extends U, U>`, in both orders. -/
def boundToRight : List TypeParam :=
  [⟨"T", [["U"]]⟩, ⟨"U", []⟩]

def boundToLeft : List TypeParam :=
  [⟨"U", []⟩, ⟨"T", [["U"]]⟩]

/-- The scope of a unit of the package `p` that declares nothing but `A`. -/
def besideA : Scope where
  package := "p"
  singleImports := []
  onDemand := []
  localTypes := [("A", "p.A")]
  typeVars := []

theorem eraseTypeParams_left : Library.emptyLibrary.Sound ∧
    (boundToLeft.map (·.name)).Nodup ∧ besideA.Erases Library.emptyLibrary boundToLeft := by
  have hsound : Library.emptyLibrary.Sound := (Library.ofUnits_basedOn _ _ _).2.2
  have hnames : (boundToLeft.map (·.name)).Nodup := by decide
  refine ⟨hsound, hnames, (eraseTypeParams_iff hsound hnames).1.mpr ⟨?_, ?_⟩⟩
  · intro p hp bound hhead hfree
    simp only [boundToLeft, List.mem_cons, List.not_mem_nil, or_false] at hp
    rcases hp with rfl | rfl <;> cases hhead
    exact absurd rfl (hfree ⟨"U", []⟩ List.mem_cons_self)
  · intro before p after hps q hq hhead
    rcases before with _ | ⟨_, _ | ⟨_, before⟩⟩
    · cases hps
      cases hhead
    · cases hps
      cases List.mem_singleton.mp hq
      exact absurd hhead (by decide)
    · simp [boundToLeft] at hps

theorem boundToRight_facts :
    outcome (besideA.eraseTypeParams [] boundToRight Library.emptyLibrary) =
      .ok [("U", objectName), ("T", "p.U")] ∧ (boundToRight.map (·.name)).Nodup := by
  decide +kernel

/-- The bound `U` of `T` is taken for a class of the package. -/
theorem not_eraseTypeParams : ¬ ∀ (s : Scope) (l : Library) (ps : List TypeParam), l.Sound →
    (ps.map (·.name)).Nodup → TypeParam.Acyclic ps →
    TypeParam.OuterResolved ps (s.resolvedIn l) →
    s.Erases l ps ∧ ∀ ps', ps.Perm ps' → s.Indifferent l ps ps' := by
  intro h
  obtain ⟨herased, hnames⟩ := boundToRight_facts
  have hsound : Library.emptyLibrary.Sound := (Library.ofUnits_basedOn _ _ _).2.2
  have hacyclic : TypeParam.Acyclic boundToRight :=
    ⟨fun name => if name = "T" then 1 else 0, by decide⟩
  have houter : TypeParam.OuterResolved boundToRight (besideA.resolvedIn Library.emptyLibrary) := by
    intro p hp bound hhead hfree
    simp only [boundToRight, List.mem_cons, List.not_mem_nil, or_false] at hp
    rcases hp with rfl | rfl <;> cases hhead
    exact absurd rfl (hfree ⟨"U", []⟩ (by simp [boundToRight]))
  obtain ⟨⟨vars, hvars, hmapped⟩, -⟩ := h _ _ _ hsound hnames hacyclic houter
  cases Except.ok.inj (hvars.symm.trans herased)
  obtain ⟨e, hlookup, he⟩ := hmapped ⟨"T", [["U"]]⟩ List.mem_cons_self
  have hobject := he.of_parameter hnames (q := ⟨"U", []⟩) rfl (by simp [boundToRight])
  rw [hobject.unique hnames (.unbounded rfl)] at hlookup
  exact absurd hlookup (by decide)

end Scope

end StubWriter
