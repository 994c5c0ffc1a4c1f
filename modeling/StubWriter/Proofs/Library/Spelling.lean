import StubWriter.Proofs.Library.Platform

/-!
# How the names in a type are spelled

Whatever the names in a unit mean, they mean names with segments like those that the unit is written
with, or those of `java.lang`. So do the names that a description brings up.

* `Named`: a name whose segments are of a kind.
* `Scope.asks_named`: the names that are asked for.
* `Declared.describe_spelled`: the supertypes of a described type and what its methods return.
* `CompilationUnit.Closed`: names among which are all that matter to a unit.
-/

namespace StubWriter

open Run

/-- A name whose segments satisfy a predicate. -/
def Named (P : String → Prop) (name : String) : Prop :=
  ∀ s ∈ splitText '.' name, P s

/-- The erased name of a type: a primitive type or a dotted name, with brackets. -/
def Erased (P : String → Prop) (name : String) : Prop :=
  ∃ base dims, name = base ++ Scope.brackets dims ∧ (base ∈ primitiveNames ∨ Named P base)

/-- Segments without dots; those of names that go without saying are among them. -/
structure IsKind (P : String → Prop) : Prop where
  dot : ∀ s, P s → '.' ∉ s.toList
  usual : ∀ s ∈ ["java", "lang", "Object", "Enum"], P s

variable {P : String → Prop} {name : String}

theorem named_append {a b : String} : Named P (a ++ "." ++ b) ↔ Named P a ∧ Named P b := by
  unfold Named
  rw [splitText_append, List.forall_mem_append]

theorem Named.erased (h : Named P name) : Erased P name :=
  ⟨name, 0, by simp [Scope.brackets], .inr h⟩

theorem erased_void : Erased P "void" :=
  ⟨"void", 0, by simp [Scope.brackets], .inl (by decide)⟩

theorem Erased.brackets (h : Erased P name) (n : Nat) : Erased P (name ++ Scope.brackets n) := by
  obtain ⟨base, dims, rfl, hbase⟩ := h
  refine ⟨base, dims + n, ?_, hbase⟩
  rw [String.append_assoc, Scope.brackets, Scope.brackets, Scope.brackets, ← List.replicate_append_replicate,
    String.join_append]

/-! ## Brackets -/

/-- Brackets at the end of a name: they belong to its last segment. -/
structure Bracketed (base name : String) : Prop where
  pieces : ∃ front last b, (∀ c ∈ b.toList, c = '[' ∨ c = ']') ∧
    splitText '.' base = front ++ [last] ∧ splitText '.' name = front ++ [last ++ b]

theorem bracketed_append (base : String) {b : String} (hb : ∀ c ∈ b.toList, c = '[' ∨ c = ']') :
    Bracketed base (base ++ b) := by
  have hdot : '.' ∉ b.toList := fun h => absurd (hb _ h) (by decide)
  obtain ⟨front, last, hbase, hname⟩ := splitText_append_end base hdot
  exact ⟨front, last, b, hb, hbase, hname⟩

theorem Erased.bracketed (h : Erased P name) :
    ∃ base, Bracketed base name ∧ (base ∈ primitiveNames ∨ Named P base) := by
  obtain ⟨base, dims, rfl, hbase⟩ := h
  refine ⟨base, bracketed_append base fun c hc => ?_, hbase⟩
  induction dims with
  | zero => exact absurd hc (by simp [Scope.brackets])
  | succ dims ih =>
    rw [Scope.brackets, List.replicate_succ, String.join_cons, String.toList_append,
      List.mem_append] at hc
    rcases hc with hc | hc
    · simpa using hc
    · exact ih hc

theorem elementName_bracketed (name : String) : Bracketed (Library.elementName name) name := by
  let isBracket : Char → Bool := fun c => c == '[' || c == ']'
  have hsplit : name =
      Library.elementName name ++ String.ofList (name.toList.reverse.takeWhile isBracket).reverse := by
    apply String.toList_injective
    rw [String.toList_append, Library.elementName, String.toList_ofList, String.toList_ofList,
      ← List.reverse_append, List.takeWhile_append_dropWhile, List.reverse_reverse]
  have hbrackets : ∀ c ∈ (name.toList.reverse.takeWhile isBracket).reverse, c = '[' ∨ c = ']' := by
    intro c hc
    simpa [isBracket] using List.mem_takeWhile_imp (List.mem_reverse.mp hc)
  have happend := bracketed_append (Library.elementName name)
    (b := String.ofList (name.toList.reverse.takeWhile isBracket).reverse)
    (by rwa [String.toList_ofList])
  rwa [← hsplit] at happend

/-! ## Kinds of segments -/

section Kind

variable (hP : IsKind P)
include hP

theorem named_segment {s : String} (hs : P s) : Named P s := by
  unfold Named
  rw [splitText_of_not_mem (hP.dot s hs)]
  exact List.forall_mem_singleton.mpr hs

theorem named_intercalate {segments : List String} (h : IsDotted P segments) :
    Named P (".".intercalate segments) := by
  unfold Named
  rw [splitText_intercalate (by decide) h.nonempty fun s hs => hP.dot s (h.segment s hs)]
  exact h.segment

theorem named_usual {names : List String} (hne : names ≠ [])
    (h : names ⊆ ["java", "lang", "Object", "Enum"]) (hname : ".".intercalate names = name) :
    Named P name :=
  hname ▸ named_intercalate hP ⟨hne, fun s hs => hP.usual s (h hs)⟩

theorem named_object : Named P objectName :=
  named_usual hP (List.cons_ne_nil "java" ["lang", "Object"]) (by decide) (by decide)

theorem named_lang {simple : String} (hsimple : P simple) : Named P ("java.lang." ++ simple) := by
  have hlang : "java.lang." = "java.lang" ++ "." := by decide
  rw [hlang]
  exact named_append.mpr ⟨named_usual hP (List.cons_ne_nil "java" ["lang"]) (by decide) (by decide),
    named_segment hP hsimple⟩

theorem named_base {base : String} (hbase : Named P base) {rest : List String}
    (hrest : ∀ s ∈ rest, P s) : Named P (".".intercalate (base :: rest)) := by
  cases rest with
  | nil => simpa using hbase
  | cons s rest =>
    rw [String.intercalate_cons_cons]
    exact named_append.mpr ⟨hbase, named_intercalate hP ⟨List.cons_ne_nil _ _, hrest⟩⟩

theorem declared_named :
    (∀ (fullName : String) (inInterface : Bool) (d : TypeDecl),
      (∀ x ∈ d.declared fullName inInterface, P x.decl.name) → Named P fullName →
        ∀ x ∈ d.declared fullName inInterface, Named P x.fullName) ∧
      ∀ (owner : String) (inInterface : Bool) (ds : List TypeDecl),
        (∀ x ∈ declaredAll owner inInterface ds, P x.decl.name) →
          (owner = "" ∨ ∃ outer, owner = outer ++ "." ∧ Named P outer) →
            ∀ x ∈ declaredAll owner inInterface ds, Named P x.fullName := by
  refine TypeDecl.declared.mutual_induct _ _ ?_ ?_ ?_
  · intro fullName inInterface kind name _ _ _ _ _ _ nested ih hnames hname x hx
    rw [TypeDecl.declared] at hx hnames
    obtain ⟨-, hnested⟩ := List.forall_mem_cons.mp hnames
    rcases List.mem_cons.mp hx with rfl | hx
    · exact hname
    · exact ih hnested (.inr ⟨fullName, rfl, hname⟩) x hx
  · intro owner inInterface _ _ x hx
    cases hx
  · intro owner inInterface d ds ihd ihds hnames howner x hx
    rw [declaredAll] at hx hnames
    obtain ⟨hd, hds⟩ := List.forall_mem_append.mp hnames
    have hown : P d.name := by
      obtain ⟨kind, own, mods, tps, extended, implemented, methods, constructors, nested⟩ := d
      rw [TypeDecl.declared] at hd
      exact (List.forall_mem_cons.mp hd).1
    rcases List.mem_append.mp hx with hx | hx
    · refine ihd hd ?_ x hx
      obtain rfl | ⟨outer, rfl, houter⟩ := howner
      · rw [String.empty_append]
        exact named_segment hP hown
      · exact named_append.mpr ⟨houter, named_segment hP hown⟩
    · exact ihds hds howner x hx

end Kind

/-! ## Scopes -/

/-- A scope that binds names to names of a kind. -/
structure Scope.Spelled (P : String → Prop) (s : Scope) : Prop where
  package : s.package = "" ∨ Named P s.package
  singleImports : ∀ p ∈ s.singleImports, Named P p.2
  onDemand : ∀ p ∈ s.onDemand, Named P p
  localTypes : ∀ p ∈ s.localTypes, Named P p.2
  typeVars : ∀ p ∈ s.typeVars, Erased P p.2

namespace CompilationUnit

variable (hP : IsKind P) {u : CompilationUnit} (hu : u.Written P)
include hP hu

theorem fullName_named {d : Declared} (hd : d ∈ u.declared) : Named P d.fullName := by
  refine (declared_named hP).2 _ _ _ hu.declared ?_ d hd
  cases hpackage : u.package with
  | nil => exact .inl rfl
  | cons s rest =>
    have hdotted : IsDotted P u.package := ⟨hpackage ▸ List.cons_ne_nil _ _, hu.package⟩
    exact .inr ⟨u.packageName, rfl, named_intercalate hP hdotted⟩

theorem scope_spelled : (Scope.ofUnit u).Spelled P := by
  have himports : ∀ i ∈ u.imports, Named P i.fullName :=
    fun i hi => named_intercalate hP (hu.imports i hi)
  unfold Scope.ofUnit
  rw [Scope.foldl_addImport]
  refine ⟨?_, fun p hp => ?_, fun p hp => ?_, fun p hp => ?_, nofun⟩
  · cases hpackage : u.package with
    | nil => exact .inl (by simp [CompilationUnit.packageName, hpackage])
    | cons s rest =>
      exact .inr (named_intercalate hP ⟨hpackage ▸ List.cons_ne_nil _ _, hu.package⟩)
  · rw [List.append_nil, List.mem_reverse] at hp
    obtain ⟨i, hi, rfl⟩ := List.mem_map.mp hp
    exact himports i (List.mem_filter.mp hi).1
  · rw [Scope.mem_addNew] at hp
    obtain ⟨i, hi, rfl⟩ := List.mem_map.mp (hp.resolve_left List.not_mem_nil)
    exact himports i (List.mem_filter.mp hi).1
  · obtain ⟨d, hd, rfl⟩ := List.mem_map.mp hp
    exact fullName_named hP hu hd

end CompilationUnit

namespace Scope

variable (hP : IsKind P) {s : Scope} (hs : s.Spelled P)
include hP hs

theorem qualify_named {simple : String} (hsimple : P simple) :
    Named P (qualify s.package simple) := by
  unfold qualify
  split
  · exact named_segment hP hsimple
  · rename_i hne
    have hpackage : Named P s.package := hs.package.resolve_left fun h => hne (by simp [h])
    exact named_append.mpr ⟨hpackage, named_segment hP hsimple⟩

/-- The names that are asked for when a simple name is looked up. -/
theorem asks_named {simple : String} (hsimple : P simple) : ∀ a ∈ s.asks simple, Named P a := by
  intro a ha
  unfold asks at ha
  split at ha
  · exact absurd ha List.not_mem_nil
  rcases List.mem_append.mp ha with ha | ha
  · rcases List.mem_cons.mp ha with rfl | ha
    · exact qualify_named hP hs hsimple
    · obtain ⟨package, hpackage, rfl⟩ := List.mem_map.mp ha
      exact named_append.mpr ⟨hs.onDemand _ hpackage, named_segment hP hsimple⟩
  · obtain rfl := List.mem_singleton.mp ha
    exact named_lang hP hsimple

theorem resolveSimple?_ok {simple : String} (hsimple : P simple) (l : Library) :
    Ok (s.resolveSimple? simple) l fun name? _ => ∀ n ∈ name?, Named P n := by
  have hlookup : ∀ {bound : List (String × String)} {n : String},
      bound.lookup simple = some n → (∀ p ∈ bound, Named P p.2) → Named P n := by
    intro bound n h hbound
    obtain ⟨before, after, rfl, -⟩ := List.lookup_eq_some_iff.mp h
    exact hbound (simple, n) (by simp)
  refine ok_mono (resolveSimple?_mem s simple l) fun name? _ hname n hn => ?_
  rcases hname n hn with hlocal | himport | hasked
  · exact hlookup hlocal hs.localTypes
  · exact hlookup himport hs.singleImports
  · exact asks_named hP hs hsimple n hasked

/-- A name in a unit means a name of the same kind. -/
theorem resolveName_ok {segments : List String} (hsegments : IsDotted P segments) (l : Library) :
    Ok (s.resolveName segments) l fun n _ => Named P n := by
  obtain ⟨head, rest, rfl⟩ := List.exists_cons_of_ne_nil hsegments.nonempty
  obtain ⟨hhead, hrest⟩ := List.forall_mem_cons.mp hsegments.segment
  unfold resolveName
  refine ok_bind (resolveSimple?_ok hP hs hhead l) fun base? l₁ hbase => ?_
  cases base? with
  | some base => exact ok_pure (named_base hP (hbase base rfl) hrest)
  | none =>
    dsimp only
    split
    · exact ok_pure (named_intercalate hP hsegments)
    split
    · exact ok_throw _
    · refine ok_bind (ok_self _ _) fun _ _ _ => ok_pure ?_
      cases hguesses : s.onDemand.filter fun package => !Platform.isListed package with
      | nil => exact qualify_named hP hs hhead
      | cons guess more =>
        have hguess : guess ∈ s.onDemand :=
          (List.mem_filter.mp (hguesses ▸ List.mem_cons_self)).1
        have hs' : ({ s with package := guess } : Scope).Spelled P :=
          { hs with package := .inr (hs.onDemand _ hguess) }
        exact qualify_named hP hs' hhead

/-- A type that is written with names of a kind. -/
theorem resolveType_ok {t : TypeUse} (hnames : ∀ n ∈ t.names, IsDotted P n) (ht : t.Typed)
    (l : Library) : Ok (s.resolveType t) l fun n _ => Erased P n := by
  cases t with
  | basic name dims =>
    have hbasic : Token.basicTypes ⊆ primitiveNames := by decide
    exact ok_pure ⟨name, dims, rfl, .inl (hbasic ht)⟩
  | named segments dims =>
    have hname := resolveName_ok hP hs (hnames segments List.mem_cons_self) l
    have hplain : Ok (do return (← s.resolveName segments) ++ brackets dims) l
        fun n _ => Erased P n :=
      ok_bind hname fun n _ hn => ok_pure (hn.erased.brackets dims)
    unfold resolveType
    rcases segments with _ | ⟨simple, _ | ⟨next, more⟩⟩
    case nil => exact hplain
    case cons.cons => exact hplain
    dsimp only
    cases hvar : s.typeVars.lookup simple with
    | none => exact hplain
    | some erased =>
      obtain ⟨before, after, hvars, -⟩ := List.lookup_eq_some_iff.mp hvar
      exact ok_pure ((hs.typeVars (simple, erased) (by simp [hvars])).brackets dims)

theorem resolveTypes_ok {ts : List TypeUse} (hnames : ∀ t ∈ ts, ∀ n ∈ t.names, IsDotted P n)
    (ht : ∀ t ∈ ts, t.Typed) (l : Library) :
    Ok (s.resolveTypes ts) l fun ns _ => ∀ n ∈ ns, Erased P n :=
  ok_mapM_forall (Erased P) (fun t htmem => resolveType_ok hP hs (hnames t htmem) (ht t htmem))

omit hP in
theorem withTypeVars_spelled {vars : List (String × String)} (hvars : ∀ p ∈ vars, Erased P p.2) :
    (s.withTypeVars vars).Spelled P :=
  { hs with typeVars := List.forall_mem_append.mpr ⟨hvars, hs.typeVars⟩ }

theorem eraseTypeParams_ok {ps : List TypeParam} (hps : ∀ p ∈ ps, ∀ n ∈ p.names, IsDotted P n)
    {erased : List (String × String)} (herased : ∀ p ∈ erased, Erased P p.2) (l : Library) :
    Ok (s.eraseTypeParams erased ps) l fun vars _ => ∀ p ∈ vars, Erased P p.2 := by
  induction ps generalizing erased l with
  | nil => exact ok_pure herased
  | cons p ps ih =>
    obtain ⟨hp, hps⟩ := List.forall_mem_cons.mp hps
    unfold TypeParam.names at hp
    have hrest : ∀ n l, Erased P n → Ok (s.eraseTypeParams ((p.name, n) :: erased) ps) l
        fun vars _ => ∀ p ∈ vars, Erased P p.2 :=
      fun n l hn => ih hps (List.forall_mem_cons.mpr ⟨hn, herased⟩) l
    unfold eraseTypeParams
    cases hbounds : p.bounds with
    | nil =>
      exact ok_bind (Q := fun n _ => n = objectName) (ok_pure rfl) fun n l₁ hn =>
        hrest n l₁ (hn ▸ (named_object hP).erased)
    | cons bound more =>
      rw [hbounds] at hp
      have hbound := resolveType_ok hP (withTypeVars_spelled hs herased)
        (t := .named bound 0) (fun n hn => hp n (by simpa [TypeUse.names] using hn)) trivial l
      exact ok_bind hbound fun n l₁ hn => hrest n l₁ hn

theorem enter_ok {ps : List TypeParam} (hps : ∀ p ∈ ps, ∀ n ∈ p.names, IsDotted P n)
    (l : Library) : Ok (s.enter ps) l fun inner _ => inner.Spelled P := by
  have hvars : Ok (s.eraseTypeParams [] ps) l fun vars _ => ∀ p ∈ vars, Erased P p.2 :=
    eraseTypeParams_ok hP hs hps (fun p hp => absurd hp List.not_mem_nil) l
  exact ok_bind hvars fun vars _ hvars => ok_pure (withTypeVars_spelled hs hvars)

end Scope

/-! ## Descriptions -/

section Descriptions

variable (hP : IsKind P) {s : Scope} (hs : s.Spelled P)
include hP hs

theorem MethodDecl.describe_returns {m : MethodDecl} (hnames : ∀ n ∈ m.names, IsDotted P n)
    (hreturns : ∀ t ∈ m.returns, t.Typed) (owner : String) (inInterface : Bool) (l : Library) :
    Ok (m.describe owner inInterface s) l fun method _ => Erased P method.returns := by
  have hparams : ∀ p ∈ m.typeParams, ∀ n ∈ p.names, IsDotted P n := by
    intro p hp n hn
    refine hnames n ?_
    simp only [MethodDecl.names, List.mem_append, List.mem_flatMap]
    exact .inl (.inl (.inl ⟨p, hp, hn⟩))
  have hreturned : ∀ inner : Scope, inner.Spelled P → ∀ l,
      Ok (inner.resolveReturn m.returns) l fun n _ => Erased P n := by
    intro inner hinner l
    cases hm : m.returns with
    | none => exact ok_pure erased_void
    | some t =>
      refine Scope.resolveType_ok hP hinner (fun n hn => hnames n ?_) (hreturns t hm) l
      simp [MethodDecl.names, hm, hn]
  unfold describe
  refine ok_bind (Scope.enter_ok hP hs hparams l) fun inner l₁ hinner => ?_
  refine ok_bind (hreturned inner hinner l₁) fun returns l₂ hreturns => ?_
  refine ok_bind (ok_self _ _) fun params l₃ _ => ?_
  exact ok_bind (ok_self _ _) fun throws l₄ _ => ok_pure hreturns

namespace Declared

variable {d : Declared} (hnames : ∀ n ∈ d.decl.names, IsDotted P n)
  (huses : ∀ t ∈ d.decl.uses, t.Typed)
include hnames huses

omit hP hs in
theorem extended_spelled {t : TypeUse} (ht : t ∈ d.decl.extended) :
    (∀ n ∈ t.names, IsDotted P n) ∧ t.Typed := by
  refine ⟨fun n hn => hnames n ?_, huses t ?_⟩
  · simp only [TypeDecl.names, List.mem_append, List.mem_flatMap]
    exact .inl (.inl (.inl (.inr ⟨t, ht, hn⟩)))
  · simp only [TypeDecl.uses, List.mem_append, ht, true_or]

omit hP hs in
theorem implemented_spelled {t : TypeUse} (ht : t ∈ d.decl.implemented) :
    (∀ n ∈ t.names, IsDotted P n) ∧ t.Typed := by
  refine ⟨fun n hn => hnames n ?_, huses t ?_⟩
  · simp only [TypeDecl.names, List.mem_append, List.mem_flatMap]
    exact .inl (.inl (.inr ⟨t, ht, hn⟩))
  · simp only [TypeDecl.uses, List.mem_append, ht, or_true, true_or]

theorem superclass_spelled (l : Library) :
    Ok (d.superclass s) l fun name? _ => ∀ n ∈ name?, Erased P n := by
  have hsome : ∀ n, Erased P n → ∀ l, Ok (pure (some n) : Lookup (Option String)) l
      fun name? _ => ∀ n ∈ name?, Erased P n :=
    fun n hn l => ok_pure fun m hm => Option.some.inj hm ▸ hn
  unfold superclass
  cases d.decl.kind with
  | classDecl =>
    cases hextended : d.decl.extended with
    | nil => exact hsome _ (named_object hP).erased l
    | cons t ts =>
      have ht := extended_spelled hnames huses (hextended ▸ List.mem_cons_self)
      exact ok_bind (Scope.resolveType_ok hP hs ht.1 ht.2 l) fun n l₁ hn => hsome n hn l₁
  | enumDecl =>
    have henum : Named P "java.lang.Enum" :=
      named_usual hP (List.cons_ne_nil "java" ["lang", "Enum"]) (by decide) (by decide)
    exact hsome _ henum.erased l
  | interfaceDecl => exact ok_pure nofun
  | annotationDecl => exact ok_pure nofun

theorem interfaces_spelled (l : Library) :
    Ok (d.interfaces s) l fun names _ => ∀ n ∈ names, Erased P n := by
  have hextended : Ok (s.resolveTypes d.decl.extended) l fun ns _ => ∀ n ∈ ns, Erased P n :=
    Scope.resolveTypes_ok hP hs (fun t ht => (extended_spelled hnames huses ht).1)
      (fun t ht => (extended_spelled hnames huses ht).2) l
  have himplemented : Ok (s.resolveTypes d.decl.implemented) l fun ns _ => ∀ n ∈ ns, Erased P n :=
    Scope.resolveTypes_ok hP hs (fun t ht => (implemented_spelled hnames huses ht).1)
      (fun t ht => (implemented_spelled hnames huses ht).2) l
  unfold interfaces
  cases d.decl.kind with
  | classDecl => exact himplemented
  | interfaceDecl => exact hextended
  | enumDecl => exact himplemented
  | annotationDecl => exact ok_pure fun n hn => absurd hn List.not_mem_nil

theorem methods_spelled (l : Library) :
    Ok (d.methods s) l fun ms _ => ∀ m ∈ ms, Erased P m.returns := by
  have hmethods : ∀ inInterface, Ok (d.decl.methods.mapM (·.describe d.fullName inInterface s)) l
      fun ms _ => ∀ m ∈ ms, Erased P m.returns := by
    refine fun inInterface => ok_mapM_forall (fun m : Method => Erased P m.returns) fun m hm l =>
      MethodDecl.describe_returns hP hs (fun n hn => hnames n ?_) (fun t ht => huses t ?_) _ _ l
    · simp only [TypeDecl.names, List.mem_append, List.mem_flatMap]
      exact .inl (.inr ⟨m, hm, hn⟩)
    · simp only [TypeDecl.uses, List.mem_append, List.mem_flatMap]
      exact .inr ⟨m, hm, Option.mem_toList.mpr ht⟩
  unfold methods
  cases d.decl.kind with
  | classDecl => exact hmethods false
  | interfaceDecl => exact hmethods true
  | enumDecl => exact ok_pure fun m hm => absurd hm List.not_mem_nil
  | annotationDecl => exact ok_pure fun m hm => absurd hm List.not_mem_nil

/-- The names that a description brings up. -/
theorem describe_spelled (package origin : String) (l : Library) :
    Ok (d.describe package origin s) l fun t _ =>
      (∀ n ∈ t.supertypes, Erased P n) ∧ ∀ m ∈ t.methods, Erased P m.returns := by
  have hparams : ∀ p ∈ d.decl.typeParams, ∀ n ∈ p.names, IsDotted P n := by
    intro p hp n hn
    refine hnames n ?_
    simp only [TypeDecl.names, List.mem_append, List.mem_flatMap]
    exact .inl (.inl (.inl (.inl ⟨p, hp, hn⟩)))
  unfold describe
  refine ok_bind (Scope.enter_ok hP hs hparams l) fun inner l₁ hinner => ?_
  refine ok_bind (superclass_spelled hP hinner hnames huses l₁) fun superclass l₂ hsuper => ?_
  refine ok_bind (interfaces_spelled hP hinner hnames huses l₂) fun interfaces l₃ hinterfaces => ?_
  refine ok_bind (methods_spelled hP hinner hnames huses l₃) fun methods l₄ hmethods => ?_
  refine ok_bind (ok_self _ _) fun constructors l₅ _ => ok_pure ⟨fun n hn => ?_, hmethods⟩
  rcases List.mem_append.mp hn with hn | hn
  · refine hsuper n ?_
    have hn : superclass.filter (fun name => !name.isEmpty) = some n := Option.mem_toList.mp hn
    exact Option.eq_some_of_filter_eq_some hn
  · exact hinterfaces n hn

end Declared

end Descriptions

/-! ## Names that a unit brings up -/

/-- Names among which are all that matter to a unit: those whose existence may decide what is meant
by its names, the supertypes of its types and what their methods return. -/
structure CompilationUnit.Closed (good : String → Prop) (u : CompilationUnit) : Prop where
  asks : ∀ n ∈ u.names, ∀ a ∈ (Scope.ofUnit u).asks (n.headD ""), good a
  describes : ∀ d ∈ u.declared, ∀ origin l,
    Ok (d.describe u.packageName origin (Scope.ofUnit u)) l fun t _ =>
      (∀ n ∈ t.supertypes, good n) ∧ ∀ m ∈ t.methods, good m.returns

theorem CompilationUnit.Written.closed (hP : IsKind P) {u : CompilationUnit} (hu : u.Written P)
    (ht : u.Typed) {good : String → Prop} (hgood : ∀ n, Erased P n → good n) : u.Closed good where
  asks n hn a ha := by
    have hname := hu.names n hn
    have hhead : P (n.headD "") := by
      obtain ⟨head, rest, rfl⟩ := List.exists_cons_of_ne_nil hname.nonempty
      exact hname.segment head List.mem_cons_self
    exact hgood a (Scope.asks_named hP (scope_spelled hP hu) hhead a ha).erased
  describes d hd origin l := by
    have hnames : ∀ n ∈ d.decl.names, IsDotted P n :=
      fun n hn => hu.names n (Declared.names_subset hd hn)
    refine ok_mono (Declared.describe_spelled hP (scope_spelled hP hu) hnames (ht d hd) _ origin l)
      fun t _ ⟨hsuper, hreturns⟩ => ?_
    exact ⟨fun n hn => hgood n (hsuper n hn), fun m hm => hgood _ (hreturns m hm)⟩

end StubWriter
