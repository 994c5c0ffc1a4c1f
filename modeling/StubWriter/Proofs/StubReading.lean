import StubWriter.Proofs.Generation.Access
import StubWriter.Proofs.Restubbing
import StubWriter.Proofs.StubText

/-!
# What is read from a stub

The text of a stub is read as it was written. What its declaration describes depends on what the
names in it mean, but not in all respects: the methods and the constructors are those that were
written, in their order, with their names and their access and with as many parameters and exceptions.

* `StubSource.isPlain_text`: no line of the text is changed by reading it.
* `Resolution.ReadBack`: a type that is read from a stub.
* `Resolution.describe_readBack`: the declaration of a stub describes such a type.
-/

namespace StubWriter

open Run

namespace StubSource

/-! ## Texts without carriage returns -/

/-- A text whose line ends stay as they are when it is read. -/
def IsPlain (s : String) : Prop :=
  '\r' ∉ s.toList

instance (s : String) : Decidable (IsPlain s) :=
  inferInstanceAs (Decidable ('\r' ∉ s.toList))

theorem isPlain_append {a b : String} : IsPlain (a ++ b) ↔ IsPlain a ∧ IsPlain b := by
  simp [IsPlain, not_or]

theorem isPlain_join {pieces : List String} (h : ∀ s ∈ pieces, IsPlain s) :
    IsPlain (String.join pieces) := by
  induction pieces with
  | nil => decide
  | cons s rest ih =>
    obtain ⟨hs, hrest⟩ := List.forall_mem_cons.mp h
    rw [String.join_cons, isPlain_append]
    exact ⟨hs, ih hrest⟩

theorem isPlain_pieces {s : String} (h : ∀ piece ∈ splitText '.' s, IsPlain piece) : IsPlain s := by
  rw [← intercalate_splitText s]
  exact not_mem_intercalate (by decide) h

theorem isPlain_of_isName {s : String} (h : Token.IsName s) : IsPlain s :=
  h.not_mem (by decide)

theorem isPlain_of_isPath {name : String} (h : IsPath (splitText '.' name)) : IsPlain name :=
  isPlain_pieces fun s hs => isPlain_of_isName (h.segment s hs)

/-- The use of a type is spelled by the name of the type. -/
theorem isPlain_ofName {type : String} (h : ∀ n ∈ (TypeUse.ofName type).names, IsPath n) :
    IsPlain type := by
  obtain ⟨front, last, b, hb, helement, htype⟩ := (elementName_bracketed type).pieces
  have hpieces : ∀ s ∈ splitText '.' (Library.elementName type), IsPlain s := by
    unfold TypeUse.ofName at h
    dsimp only at h
    split at h
    · rename_i hprimitive
      have hall : ∀ w ∈ primitiveNames, ∀ s ∈ splitText '.' w, IsPlain s := by decide
      exact hall _ (List.contains_iff_mem.mp hprimitive)
    · exact fun s hs => isPlain_of_isName ((h _ (List.mem_singleton_self _)).segment s hs)
  rw [helement, List.forall_mem_append] at hpieces
  refine isPlain_pieces ?_
  rw [htype, List.forall_mem_append]
  refine ⟨hpieces.1, List.forall_mem_singleton.mpr (isPlain_append.mpr ⟨?_, fun hmem => ?_⟩)⟩
  · exact hpieces.2 last (List.mem_singleton_self last)
  · exact absurd (hb _ hmem) (by decide)

theorem isPlain_paramName (i : Nat) : IsPlain (paramName i) := by
  refine isPlain_append.mpr ⟨by decide, fun hmem => ?_⟩
  exact absurd (isDigit_of_mem_index hmem) (by decide)

theorem isPlain_params {types : List String} (h : ∀ type ∈ types, IsPlain type) :
    IsPlain (params types) := by
  refine not_mem_intercalate (by decide) fun s hs => ?_
  obtain ⟨i, hi, rfl⟩ := List.mem_mapIdx.mp hs
  refine isPlain_append.mpr ⟨isPlain_append.mpr ⟨h _ (List.getElem_mem hi), by decide⟩, ?_⟩
  exact isPlain_paramName i

theorem isPlain_arguments (types : List String) : IsPlain (arguments types) := by
  refine not_mem_intercalate (by decide) fun s hs => ?_
  obtain ⟨i, hi, rfl⟩ := List.mem_mapIdx.mp hs
  exact isPlain_paramName i

theorem isPlain_throws {exceptions : List String} (h : ∀ e ∈ exceptions, IsPlain e) :
    IsPlain (throws exceptions) := by
  unfold throws
  split
  · decide
  · exact isPlain_append.mpr ⟨by decide, not_mem_intercalate (by decide) h⟩

theorem isPlain_modifiers (v : Visibility) (isStatic : Bool) : IsPlain (modifiers v isStatic) := by
  refine isPlain_append.mpr ⟨?_, ?_⟩
  · split <;> decide
  · split <;> decide

theorem isPlain_constructorText {c : Constructor} {cls : String} (hclass : IsPlain cls)
    (hparams : ∀ type ∈ c.params, IsPlain type) (hthrows : ∀ e ∈ c.throws, IsPlain e) :
    IsPlain (constructorText c cls) := by
  have hmodifiers := isPlain_modifiers c.visibility false
  simp +decide only [constructorText, indent, isPlain_append, hmodifiers, hclass,
    isPlain_params hparams, isPlain_throws hthrows, isPlain_arguments]

theorem isPlain_bodyText (type : String) : IsPlain (bodyText type) := by
  have hvalue : ∀ value ∈ defaultValue? type, IsPlain value := by
    intro value hvalue
    unfold defaultValue? at hvalue
    repeat' split at hvalue
    all_goals cases hvalue
    all_goals decide
  unfold bodyText
  split
  · rename_i value h
    simp +decide only [indent, isPlain_append, hvalue value h]
  · decide

theorem isPlain_methodText {m : Method} (hname : IsPlain m.name)
    (htypes : ∀ type ∈ m.returns :: m.params, IsPlain type) (hthrows : ∀ e ∈ m.throws, IsPlain e) :
    IsPlain (methodText m) := by
  obtain ⟨hreturns, hparams⟩ := List.forall_mem_cons.mp htypes
  have hmodifiers := isPlain_modifiers m.visibility m.isStatic
  have hbody := isPlain_bodyText m.returns
  simp +decide only [methodText, indent, isPlain_append, hmodifiers, hreturns, hname,
    isPlain_params hparams, isPlain_throws hthrows, hbody]

section Text

variable {t : TypeInfo} {constructors : List Constructor} {methods : List Method}

theorem isPlain_of_types (htypes : ∀ type ∈ typesIn t constructors methods, IsPlain type)
    (hexceptions : ∀ e ∈ exceptionsIn constructors methods, IsPlain e)
    (hnames : ∀ m ∈ methods.filter isEmitted, IsPlain m.name) (hpackage : IsPlain t.package)
    (hclass : IsPlain (className t)) : IsPlain (text t constructors methods) := by
  have hconstructor : ∀ c ∈ constructors, IsPlain (constructorText c (className t)) := by
    refine fun c hc => isPlain_constructorText hclass (fun type h => htypes type ?_) fun e h =>
      hexceptions e (List.mem_append_left _ (List.mem_flatMap.mpr ⟨c, hc, h⟩))
    exact List.mem_append_left _ (List.mem_cons_of_mem _ (List.mem_flatMap.mpr ⟨c, hc, h⟩))
  have hmethod : ∀ m ∈ methods.filter isEmitted, IsPlain (methodText m) := by
    refine fun m hm => isPlain_methodText (hnames m hm) (fun type h => htypes type ?_) fun e h =>
      hexceptions e (List.mem_append_right _ (List.mem_flatMap.mpr ⟨m, hm, h⟩))
    exact List.mem_append_right _ (List.mem_flatMap.mpr ⟨m, hm, h⟩)
  have hparagraphs : ∀ {α : Type} {as : List α} {f : α → String}, (∀ a ∈ as, IsPlain (f a)) →
      IsPlain (String.join (as.map fun a => "\n\n" ++ f a)) := by
    intro α as f hall
    refine isPlain_join fun s hs => ?_
    obtain ⟨a, ha, rfl⟩ := List.mem_map.mp hs
    exact isPlain_append.mpr ⟨by decide, hall a ha⟩
  have hhead : IsPlain (packageText t) := by
    unfold packageText
    split
    · decide
    · exact isPlain_append.mpr ⟨isPlain_append.mpr ⟨by decide, hpackage⟩, by decide⟩
  have hrelation : IsPlain (relation t) := by
    unfold relation
    split <;> decide
  have htarget : IsPlain t.name := htypes t.name (by simp [typesIn])
  simp +decide only [text, isPlain_append, hhead, hclass, hrelation, htarget,
    hparagraphs hconstructor, hparagraphs hmethod]

/-- The text of a stub is read as it was written, if it spells the unit of the stub. -/
theorem isPlain_text (h : CompilationUnit.ofText (text t constructors methods) =
    .ok (unit t constructors methods)) : IsPlain (text t constructors methods) := by
  have hwritten := CompilationUnit.ofText_written h
  have hdeclared : Declared.mk (decl t constructors methods) (name t) false ∈
      (unit t constructors methods).declared := by
    rw [declared_unit]
    exact List.mem_singleton_self _
  have hpaths : ∀ n ∈ (decl t constructors methods).names, IsPath n :=
    fun n hn => hwritten.names n (Declared.names_subset hdeclared hn)
  have hconstructor : ∀ c ∈ constructors, ∀ n ∈ (constructorDecl c).names, IsPath n := by
    refine fun c hc n hn => hpaths n (List.mem_append_right _ ?_)
    exact List.mem_flatMap.mpr ⟨_, List.mem_map_of_mem hc, hn⟩
  have hmethod : ∀ m ∈ methods.filter isEmitted, ∀ n ∈ (methodDecl m).names, IsPath n := by
    refine fun m hm n hn => hpaths n (List.mem_append_left _ (List.mem_append_right _ ?_))
    exact List.mem_flatMap.mpr ⟨_, List.mem_map_of_mem hm, hn⟩
  have htarget : IsPlain t.name := by
    refine isPlain_ofName fun n hn => hpaths n ?_
    cases hi : t.isInterface <;> simp [TypeDecl.names, decl, hi, hn]
  have hreturns : ∀ m ∈ methods.filter isEmitted, IsPlain m.returns := by
    intro m hm
    by_cases hvoid : m.returns = "void"
    · rw [hvoid]
      decide
    · refine isPlain_ofName fun n hn => hmethod m hm n ?_
      simp [MethodDecl.names, methodDecl, hvoid, hn]
  refine isPlain_of_types ?_ ?_ (fun m hm => ?_) ?_ ?_
  · simp only [typesIn, List.cons_append, List.forall_mem_cons, List.forall_mem_append,
      List.forall_mem_flatMap]
    refine ⟨htarget, fun c hc type htype => ?_, fun m hm => ⟨hreturns m hm, fun type htype => ?_⟩⟩
    · refine isPlain_ofName fun n hn => hconstructor c hc n ?_
      simp only [ConstructorDecl.names, constructorDecl, List.flatMap_map, List.mem_append,
        List.mem_flatMap]
      exact .inl (.inr ⟨type, htype, hn⟩)
    · refine isPlain_ofName fun n hn => hmethod m hm n ?_
      simp only [MethodDecl.names, methodDecl, List.flatMap_map, List.mem_append, List.mem_flatMap]
      exact .inl (.inr ⟨type, htype, hn⟩)
  · simp only [exceptionsIn, List.forall_mem_append, List.forall_mem_flatMap]
    refine ⟨fun c hc e he => isPlain_of_isPath (hconstructor c hc _ ?_),
      fun m hm e he => isPlain_of_isPath (hmethod m hm _ ?_)⟩
    · exact List.mem_append_right _ (List.mem_map_of_mem he)
    · exact List.mem_append_right _ (List.mem_map_of_mem he)
  · exact isPlain_of_isName (CompilationUnit.ofText_methods h hdeclared (List.mem_map_of_mem hm))
  · by_cases hempty : t.package.isEmpty = true
    · rw [String.isEmpty_iff.mp hempty]
      decide
    · refine isPlain_pieces fun s hs => isPlain_of_isName (hwritten.package s ?_)
      rwa [unit, if_neg hempty]
  · exact isPlain_of_isName (hwritten.declared _ hdeclared)

end Text

end StubSource

/-! ## What does not depend on the meaning of names -/

/-- A method that is read from a stub for which another one was written. -/
structure Method.ReadBack (written m : Method) : Prop where
  name : m.name = written.name
  params : m.params.length = written.params.length
  throws : m.throws.length = written.throws.length
  visibility : m.visibility = written.visibility
  isStatic : m.isStatic = written.isStatic

/-- A constructor that is read from a stub for which another one was written. -/
structure Constructor.ReadBack (written c : Constructor) : Prop where
  params : c.params.length = written.params.length
  throws : c.throws.length = written.throws.length
  visibility : c.visibility = written.visibility

/-- A type that is read from a stub, with the place of the stub. A stub without constructors has a
public one without parameters. -/
structure Resolution.ReadBack (r : Resolution) (place : Path) (t : TypeInfo) : Prop where
  name : t.name = StubSource.name r.target
  kind : t.kind = .classType
  package : t.package = r.target.package
  visibility : t.visibility = .pub
  isFinal : t.isFinal = false
  sourceFile : t.sourceFile = some (toString place)
  methods : List.Forall₂ Method.ReadBack
    ((r.members.map Prod.snd).filter StubSource.isEmitted) t.methods
  constructors : List.Forall₂ Constructor.ReadBack
    (if r.constructors = [] then [⟨StubSource.name r.target, [], [], .pub⟩] else r.constructors)
    t.constructors

namespace StubSource

/-- Every kind of access but the private one is left when the words for it are read. -/
theorem stated_eq {v : Visibility} (hjava : v.IsJava) (hshown : v ≠ .priv) : stated v = v :=
  (by decide : ∀ v ∈ [Visibility.pub, .prot, .pkg, .priv], v ≠ .priv → stated v = v) v hjava hshown

variable {t : TypeInfo} {constructors : List Constructor} {methods : List Method}

theorem describe_method_readBack {m : Method} (hjava : m.visibility.IsJava)
    (hshown : m.visibility ≠ .priv) (owner : String) (s : Scope) (l : Library) :
    Ok ((methodDecl m).describe owner false s) l fun m' _ => m.ReadBack m' := by
  obtain ⟨haccess, -, hstatic, -⟩ := methodWords_say m.visibility m.isStatic
  unfold MethodDecl.describe
  rw [show (methodDecl m).typeParams = [] from rfl, Scope.enter_nil, pure_bind]
  refine ok_bind (ok_self _ _) fun returns l₁ _ => ?_
  refine ok_bind (s.resolveParams_length _ l₁) fun params l₂ hparams => ?_
  refine ok_bind (s.resolveThrows_length _ l₂) fun throws l₃ hthrows => ok_pure ?_
  exact ⟨rfl, hparams.trans (List.length_map _), hthrows.trans (List.length_map _),
    haccess.trans (stated_eq hjava hshown), hstatic⟩

theorem describe_constructor_readBack {c : Constructor} (hjava : c.visibility.IsJava)
    (hshown : c.visibility ≠ .priv) (owner : String) (s : Scope) (l : Library) :
    Ok ((constructorDecl c).describe owner s) l fun c' _ => c.ReadBack c' := by
  unfold ConstructorDecl.describe
  rw [show (constructorDecl c).typeParams = [] from rfl, Scope.enter_nil, pure_bind]
  refine ok_bind (s.resolveParams_length _ l) fun params l₁ hparams => ?_
  refine ok_bind (s.resolveThrows_length _ l₁) fun throws l₂ hthrows => ok_pure ?_
  exact ⟨hparams.trans (List.length_map _), hthrows.trans (List.length_map _),
    stated_eq hjava hshown⟩

theorem methods_readBack (hjava : ∀ m ∈ methods, m.visibility.IsJava) (s : Scope) (l : Library) :
    Ok (Declared.methods ⟨decl t constructors methods, name t, false⟩ s) l fun ms _ =>
      List.Forall₂ Method.ReadBack (methods.filter isEmitted) ms := by
  change Ok (((methods.filter isEmitted).map methodDecl).mapM (·.describe (name t) false s)) l _
  rw [List.mapM_map]
  refine ok_mono (ok_mapM (fun _ => True) Method.ReadBack trivial fun m hm l _ => ?_)
    fun _ _ h => h.1
  obtain ⟨hm, hemitted⟩ := List.mem_filter.mp hm
  have hshown : m.visibility ≠ .priv := by
    rw [isEmitted, Bool.and_eq_true, bne_iff_ne] at hemitted
    exact hemitted.2
  exact ok_mono (describe_method_readBack (hjava m hm) hshown _ s l) fun _ _ h => ⟨h, trivial⟩

theorem constructors_readBack
    (hjava : ∀ c ∈ constructors, c.visibility.IsJava ∧ c.visibility ≠ .priv) (s : Scope)
    (l : Library) :
    Ok (Declared.constructors ⟨decl t constructors methods, name t, false⟩ s) l fun cs _ =>
      List.Forall₂ Constructor.ReadBack
        (if constructors = [] then [⟨name t, [], [], .pub⟩] else constructors) cs := by
  have hstated : Ok ((constructors.map constructorDecl).mapM (·.describe (name t) s)) l
      fun cs _ => List.Forall₂ Constructor.ReadBack constructors cs := by
    rw [List.mapM_map]
    refine ok_mono (ok_mapM (fun _ => True) Constructor.ReadBack trivial fun c hc l _ => ?_)
      fun _ _ h => h.1
    exact ok_mono (describe_constructor_readBack (hjava c hc).1 (hjava c hc).2 _ s l)
      fun _ _ h => ⟨h, trivial⟩
  unfold Declared.constructors
  refine ok_bind hstated fun cs _ h => ?_
  cases h with
  | nil => exact ok_pure (.cons ⟨rfl, rfl, visibility_decl⟩ .nil)
  | cons hc hcs => exact ok_pure (.cons hc hcs)

end StubSource

/-- The only declaration in the unit of a stub. -/
def Resolution.declared (r : Resolution) : Declared :=
  ⟨StubSource.decl r.target r.constructors (r.members.map Prod.snd), StubSource.name r.target, false⟩

/-- The declaration of a stub describes a type that is read from it. -/
theorem Resolution.describe_readBack {r : Resolution}
    (hmembers : ∀ p ∈ r.members, p.2.visibility.IsJava)
    (hconstructors : ∀ c ∈ r.constructors, c.visibility.IsJava ∧ c.visibility ≠ .priv)
    (place : Path) (s : Scope) (l : Library) :
    Ok (r.declared.describe r.unit.packageName (toString place) s) l
      fun t _ => r.ReadBack place t := by
  have hmethods : ∀ m ∈ r.members.map Prod.snd, m.visibility.IsJava :=
    List.forall_mem_map.mpr hmembers
  unfold Declared.describe
  rw [show r.declared.decl.typeParams = [] from rfl, Scope.enter_nil, pure_bind]
  refine ok_bind (ok_self _ _) fun superclass l₁ _ => ?_
  refine ok_bind (ok_self _ _) fun interfaces l₂ _ => ?_
  refine ok_bind (StubSource.methods_readBack hmethods s l₂) fun methods l₃ hmethods => ?_
  refine ok_bind (StubSource.constructors_readBack hconstructors s l₃) fun constructors l₄ hall => ?_
  have hfinal : r.declared.modifiers.contains "final" = false := by
    rw [declared, StubSource.modifiers_decl]
    decide
  exact ok_pure ⟨rfl, rfl, StubSource.packageName_unit, StubSource.visibility_decl, hfinal, rfl,
    hmethods, hall⟩

end StubWriter
