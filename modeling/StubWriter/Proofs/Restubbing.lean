import StubWriter.Proofs.Library.Added
import StubWriter.Proofs.Library.Histories
import StubWriter.Proofs.Library.Stages
import StubWriter.Proofs.Resolution.Cover
import StubWriter.Proofs.StubSource

/-!
# The stub of a stub

A stub implements all that its target leaves open. So a stub of the stub has nothing to implement,
as long as the names in the first stub mean themselves, nobody mentions it, and none of its members
had to be left out.

* `StubSource.covers`: the levels of a stub leave no slot open that its target leaves open.
* `render_stub`: the stub of a stub.
-/

namespace StubWriter

open Run

namespace StubSource

open Walk Resolution

variable {t : TypeInfo} {constructors : List Constructor} {methods : List Method} {origin : String}

/-! ## The levels of a stub -/

theorem superclassName?_info (h : t.isInterface = false) (hname : t.name ≠ "")
    (hobject : t.name ≠ objectName) :
    superclassName? (info t constructors methods origin) = some t.name := by
  have hclass : (info t constructors methods origin).isInterface = false := rfl
  have hsuper : (info t constructors methods origin).superclass = some t.name := by
    simp [info, h]
  simp [superclassName?, TypeInfo.superclass?, hclass, hsuper, hname, hobject]

theorem superclassName?_info_top (h : t.isInterface = true ∨ t.name = objectName) :
    superclassName? (info t constructors methods origin) = none := by
  have hclass : (info t constructors methods origin).isInterface = false := rfl
  have hsuper : (info t constructors methods origin).superclass = some objectName := by
    rcases h with h | h <;> simp [info, h]
  simp [superclassName?, TypeInfo.superclass?, hclass, hsuper]

theorem not_abstract_info : ∀ m ∈ (info t constructors methods origin).methods,
    m.isAbstract = false := by
  intro m hm
  obtain ⟨_, _, rfl⟩ := List.mem_map.mp hm
  rfl

/-- The stub has a method for each of the given ones. -/
theorem exists_own {members : List (Slot × Method)}
    (hmembers : ∀ p ∈ members, p.2 ∈ methods.filter isEmitted ∧ p.2.slot = p.1) :
    ∀ p ∈ members, ∃ c ∈ (info t constructors methods origin).methods,
      c.slot = p.1 ∧ c.returns = p.2.returns := by
  intro p hp
  obtain ⟨hm, hslot⟩ := hmembers p hp
  exact ⟨ownMethod t p.2, List.mem_map_of_mem hm, hslot, rfl⟩

/-- The view of a stub is made of that of its target, unless that is `java.lang.Object`. -/
theorem parents_info (hobject : t.isInterface = true → t.name ≠ objectName) {b : String}
    (hb : b ∈ parents (info t constructors methods origin)) : b = t.name ∧ t.name ≠ objectName := by
  cases hi : t.isInterface with
  | true =>
    have hlast : superclassName? (info t constructors methods origin) = none :=
      superclassName?_info_top (.inl hi)
    rw [parents, hlast] at hb
    have hb : b = t.name := by simpa [info, hi] using hb
    exact ⟨hb, hobject hi⟩
  | false =>
    have hclass : (info t constructors methods origin).isInterface = false := rfl
    have hsuper : (info t constructors methods origin).superclass = some t.name := by
      simp [info, hi]
    have hinterfaces : (info t constructors methods origin).interfaces = [] := by simp [info, hi]
    simp only [parents, superclassName?, TypeInfo.superclass?, hclass, hsuper, hinterfaces,
      Bool.false_eq_true, if_false, List.append_nil, Option.mem_toList,
      Option.filter_eq_some_iff, Option.some.injEq] at hb
    obtain ⟨⟨rfl, -⟩, hb⟩ := hb
    exact ⟨rfl, by simpa using hb⟩

/-- The levels of a stub leave no slot open that those of its target leave open. -/
theorem covers {T : LoadTable} {found : List Level} (ht : T t.name = .ok t)
    (hs : T (name t) = .ok (info t constructors methods origin))
    (hchain : T.types.Chain t.name found) (hname : t.name ≠ "") (hbelow : name t ≠ objectName)
    (hdescribed : t.Described) (hslots : (t.methods.map Method.slot).Nodup)
    (hobject : t.isInterface = true → t.name ≠ objectName) {members : List (Slot × Method)}
    (hmembers : ∀ p ∈ members, p.2 ∈ methods.filter isEmitted ∧ p.2.slot = p.1) :
    ∃ levels, T.types.Chain (name t) levels ∧ Covers found levels members := by
  let s := info t constructors methods origin
  have hown : ∀ m ∈ s.methods, m.isAbstract = false := not_abstract_info
  have hstubbed : ∀ p ∈ members, ∃ c ∈ s.methods, c.slot = p.1 ∧ c.returns = p.2.returns :=
    exists_own hmembers
  have hfound : T.types (name t) = some s := LoadTable.types_eq_some.mpr hs
  have htarget : T.types t.name = some t := LoadTable.types_eq_some.mpr ht
  by_cases htop : t.name = objectName
  · -- A stub of `java.lang.Object` stands alone.
    have hclass : t.isInterface = false := by
      by_contra hi
      exact hobject (by simpa using hi) htop
    have hlast : superclassName? s = none := superclassName?_info_top (.inr htop)
    have hinterfaces : s.interfaces = [] := by simp [s, info, hclass]
    have hview : T.types.View (name t) (viewFrom s fun _ => []) := by
      refine .intro _ hfound fun n hn => ?_
      simp [parents, hlast, hinterfaces] at hn
    refine ⟨_, .top hfound hbelow hview hlast, ?_⟩
    rw [hchain.eq_nil htarget htop]
    refine covers_class hown (fun m hm ha => ?_) hstubbed
    rcases mem_viewFrom.mp hm with ⟨hm, -⟩ | hm | ⟨n, hn, -⟩
    · rw [hown m hm] at ha
      cases ha
    · obtain ⟨n, hn, -⟩ := mem_fromSuperclass.mp hm
      rw [hlast] at hn
      cases hn
    · rw [hinterfaces] at hn
      cases hn
  · obtain ⟨vs, rest, hvs, hcons, hsingle⟩ := hchain.eq_cons htarget htop
    cases hi : t.isInterface with
    | false =>
      have hnext : superclassName? s = some t.name := superclassName?_info hi hname htop
      have hinterfaces : s.interfaces = [] := by simp [s, info, hi]
      have hview : T.types.View (name t) (viewFrom s fun _ => vs) := by
        refine .intro _ hfound fun n hn => ?_
        have hn : n = t.name := by simpa [parents, hnext, hinterfaces] using hn
        exact hn ▸ hvs
      refine ⟨_, .step hfound hbelow hview hnext hchain, covers_class hown (fun m hm ha => ?_) hstubbed⟩
      rw [hcons]
      rcases mem_viewFrom.mp hm with ⟨hm, -⟩ | hm | ⟨n, hn, -⟩
      · rw [hown m hm] at ha
        cases ha
      · obtain ⟨n, -, hm, -⟩ := mem_fromSuperclass.mp hm
        exact mem_walked_cons.mpr (.inl (List.mem_append_right _ hm))
      · rw [hinterfaces] at hn
        cases hn
    | true =>
      have hlast : superclassName? s = none := superclassName?_info_top (.inl hi)
      have hinterfaces : s.interfaces = [t.name] := by simp [s, info, hi]
      have hview : T.types.View (name t) (viewFrom s fun _ => vs) := by
        refine .intro _ hfound fun n hn => ?_
        have hn : n = t.name := by simpa [parents, hlast, hinterfaces] using hn
        exact hn ▸ hvs
      refine ⟨_, .top hfound hbelow hview hlast, ?_⟩
      rw [hcons, hsingle (superclassName?_interface hi)]
      have hstub : viewFrom s (fun _ => vs) =
          ownPublic s ++ inheritedFromInterface (s.methods.map Method.slot) vs := by
        simp [viewFrom, taken, fromSuperclass, hlast, hinterfaces]
      rw [hstub]
      cases hvs with
      | intro views hfound' _ =>
        obtain rfl := Option.some.inj (htarget.symm.trans hfound')
        exact covers_interface hi hdescribed hslots hown hstubbed

/-! ## A library with a stub -/

/-- Units that have nothing to do with the stub of a type: they declare no type of its name, and
nothing that they write may be looked up as the stub. -/
structure Unmentioned (t : TypeInfo) (units : List (String × CompilationUnit)) : Prop where
  declared : name t ∉ Library.namesOf units
  asked : ∀ p ∈ units, ∀ n ∈ p.2.names, name t ∉ (Scope.ofUnit p.2).asks (n.headD "")

/-- Every name in a stub means itself. -/
structure SpeaksPlainly (t : TypeInfo) (constructors : List Constructor) (methods : List Method)
    (l : Library) : Prop where
  types : ∀ type ∈ typesIn t constructors methods,
    outcome ((Scope.ofUnit (unit t constructors methods)).resolveType (.ofName type) l) = .ok type
  exceptions : ∀ e ∈ exceptionsIn constructors methods,
    outcome ((Scope.ofUnit (unit t constructors methods)).resolveName (splitText '.' e) l) = .ok e

/-- No type of the platform is called like a stub, and none is looked for under such a name. -/
theorem endings_units : ∀ p ∈ Platform.units, ¬ nameEnding.toList <:+ p.1.toList ∧
    ∀ n ∈ p.2.names, ∀ piece ∈ splitText '.' (n.headD ""), ¬ nameEnding.toList <:+ piece.toList := by
  decide +kernel

theorem ending_className (t : TypeInfo) : nameEnding.toList <:+ (className t).toList := by
  rw [className, String.toList_append]
  exact List.suffix_append _ _

theorem ending_name (t : TypeInfo) : nameEnding.toList <:+ (name t).toList := by
  have hclass := ending_className t
  unfold name qualify
  split
  · exact hclass
  · rw [String.toList_append]
    exact hclass.trans (List.suffix_append _ _)

theorem name_not_platform (t : TypeInfo) : Library.isPlatform (name t) = false := by
  by_contra h
  obtain ⟨u, hu⟩ := Option.isSome_iff_exists.mp (Bool.eq_true_of_not_eq_false h)
  exact (endings_units _ (Platform.mem_units hu)).1 (ending_name t)

theorem name_not_primitive (t : TypeInfo) : isPrimitiveName (name t) = false := by
  have hall : ∀ w ∈ primitiveNames, ¬ nameEnding.toList <:+ w.toList := by decide
  by_contra h
  exact hall (name t) (by simpa [isPrimitiveName] using h) (ending_name t)

theorem name_ne_object (t : TypeInfo) : name t ≠ objectName := by
  have hobject : ¬ nameEnding.toList <:+ objectName.toList := by decide
  intro h
  exact hobject (h ▸ ending_name t)

theorem not_asked_platform {t : TypeInfo} (hdot : '.' ∉ (className t).toList)
    {p : String × CompilationUnit} (hp : p ∈ Platform.units) {n : List String} (hn : n ∈ p.2.names) :
    name t ∉ (Scope.ofUnit p.2).asks (n.headD "") :=
  Scope.not_mem_asks hdot fun h => (endings_units p hp).2 n hn _ h (ending_className t)

end StubSource

namespace Library

/-- What a step that depends on the meaning of names alone comes to in one library of some units, it
gives in all of them. -/
theorem memory_gives {α : Type} {names : List String} {size : Nat} {x : Lookup α}
    {v : Except Failure α}
    (hx : Fixed (fun _ : Unit => memory names size fun _ m => m = []) fun _ => x)
    {l : Library} (hl : InMemory names size l) (hmissing : l.missing = [])
    (hv : outcome (x l) = v) : (memory names size fun _ m => m = []).Gives x v := by
  obtain ⟨u, -, hu⟩ := hx
  have hrun := (World.ends_of_gives (fun _ h => h) (hu ()) l ⟨hl, hmissing⟩).2
  rw [← hv, hrun]
  exact hu ()

open StubSource in
/-- The table of a library with a stub holds the stub, and all other types as they were. -/
theorem exists_tells_stub {T : LoadTable} {units units' : List (String × CompilationUnit)}
    {t : TypeInfo} {constructors : List Constructor} {methods : List Method} {label : String}
    (hT : Tells T units) (hnodup : (namesOf units).Nodup)
    (hproper : ∀ a ∈ namesOf units, isPrimitiveName a = false)
    (hunits : units'.Perm ((label, unit t constructors methods) :: units))
    (hdot : '.' ∉ (className t).toList) (hmention : Unmentioned t units) {tree : FileTree}
    (hplain : SpeaksPlainly t constructors methods (ofUnits [] tree units')) :
    ∃ T', Tells T' ((label, unit t constructors methods) :: units) ∧
      T' (name t) = .ok (info t constructors methods label) ∧
      ∀ a, a ≠ name t → T' a = T a := by
  let p : String × CompilationUnit := (label, unit t constructors methods)
  have hdeclared : p.2.declared.map (·.fullName) = [name t] := by
    rw [declared_unit]
    rfl
  have hnames : namesOf (p :: units) = name t :: namesOf units := namesOf_cons hdeclared
  have hnodup' : (namesOf (p :: units)).Nodup := by
    rw [hnames, List.nodup_cons]
    exact ⟨hmention.declared, hnodup⟩
  have hproper' : ∀ a ∈ namesOf (p :: units), isPrimitiveName a = false := by
    rw [hnames]
    exact List.forall_mem_cons.mpr ⟨name_not_primitive t, hproper⟩
  obtain ⟨T', hT'⟩ := exists_tells (p :: units) hnodup' hproper'
  refine ⟨T', hT', ?_, fun a ha => hT.eq_of_ne hT' hdeclared (fun q hq n hn => ?_)
    (fun q hq n hn => ?_) ha⟩
  · let fresh : TypeGraph → List String → Prop := fun _ m => m = []
    let s := Scope.ofUnit p.2
    have hname : ∀ n, Fixed (fun _ : Unit => memory (namesOf (p :: units)) (room (p :: units)) fresh)
        fun _ => s.resolveName n := by
      intro n
      refine fixed_of_gives _ fun _ => Scope.resolveName_gives memory_quiet fun a _ =>
        memory_answers fun _ => .inr (.inr fun g m hm => ?_)
      rw [show m = [] from hm]
      exact List.not_mem_nil
    have hstart : InMemory (namesOf (p :: units)) (room (p :: units)) (ofUnits [] tree units') :=
      start_inMemory hunits tree
    have hdescribed : (memory (namesOf (p :: units)) (room (p :: units)) fresh).Gives
        (Declared.describe ⟨decl t constructors methods, name t, false⟩ t.package label s)
        (.ok (info t constructors methods label)) := by
      refine describe_gives (fun type htype => ?_) (fun e he => ?_) label
      · refine memory_gives ?_ hstart rfl (hplain.types type htype)
        exact Scope.resolveType_of (fixed_compositional _) fun n _ => hname n
      · exact memory_gives (hname _) hstart rfl (hplain.exceptions e he)
    have hmem : Declared.mk (decl t constructors methods) (name t) false ∈ p.2.declared := by
      rw [declared_unit]
      exact List.mem_singleton_self _
    have htable := hT'.declared p List.mem_cons_self _ hmem fresh fun _ _ h => h
    rw [packageName_unit] at htable
    have hfresh : (memory (namesOf (p :: units)) (room (p :: units)) fresh).inv
        (ofUnits [] tree units') := ⟨hstart, rfl⟩
    exact htable.unique (fun _ h => h) hfresh hdescribed
  · exact hmention.asked q hq n hn
  · exact not_asked_platform hdot hq hn

/-- Whatever can be loaded is called by a name that is not empty, and its simple name is one word. -/
theorem Tells.plain_name {T : LoadTable} {units : List (String × CompilationUnit)}
    (hT : Tells T units) (hunits : ∀ p ∈ units, ∃ n, p.2.Proper n) {name : String} {t : TypeInfo}
    (ht : T name = .ok t) (hprimitive : isPrimitiveName name = false) :
    t.name ≠ "" ∧ '.' ∉ t.simpleName.toList := by
  have hword : ∀ {u : CompilationUnit} {d : Declared} {package origin : String}, d ∈ u.declared →
      IsSegment d.decl.name → d.Shapes package origin t →
        t.name ≠ "" ∧ '.' ∉ t.simpleName.toList := by
    intro u d package origin hd hsegment hshape
    obtain ⟨owner, -, hname⟩ := CompilationUnit.fullName_eq hd
    refine ⟨fun hempty => hsegment.nonempty ?_, hshape.simpleName ▸ hsegment.dot⟩
    exact (String.append_eq_empty_iff.mp (hname.symm.trans (hshape.name.symm.trans hempty))).2
  rcases hT.cases ht with ⟨h, -⟩ | ⟨p, hp, d, hd, -, hshape⟩ | ⟨-, u, hu, d, hdeclared, -, hshape⟩
  · rw [hprimitive] at h
    cases h
  · obtain ⟨n, hproper⟩ := hunits p hp
    exact hword hd (hproper.names d hd).isSegment hshape
  · have hd : d ∈ u.declared := by simp [hdeclared]
    have hwritten := (Platform.checked_of_mem (Platform.mem_units hu)).written
    exact hword hd (hwritten.declared d hd) hshape

/-- A library that has just been made keeps the order of its types in its table. -/
theorem Orderly.table {T : LoadTable} {units : List (String × CompilationUnit)} {l : Library}
    (hT : Tells T units) (hl : (kept T units (· = [])).inv l) (h : l.Orderly) :
    (∀ name, ¬ Relation.TransGen T.Leads name name) ∧
      ∀ t, T objectName = .ok t → ∀ name ∈ t.supertypes, name = objectName := by
  have hload : ∀ {name t}, T name = .ok t → outcome (load name l) = .ok t := fun ht =>
    (World.ends_of_gives (fun _ h => h) ((kept_offers hT).gives ht) l hl).2
  refine ⟨fun name hname => h.acyclic name ?_, fun t ht => h.object t (hload ht)⟩
  exact Relation.TransGen.mono (fun a b ⟨t, ht, hb⟩ => ⟨t, hload ht, hb⟩) _ _ hname

end Library

open Library StubSource

/-- The unit that the text of a resolution spells. -/
def Resolution.unit (r : Resolution) : CompilationUnit :=
  StubSource.unit r.target r.constructors (r.members.map Prod.snd)

/-- What a stub can be called with is what its target can be called with. -/
theorem selectConstructors_info {t : TypeInfo} {constructors : List Constructor}
    (h : Resolution.selectConstructors t = .ok constructors) (methods : List Method)
    (origin : String) :
    ∃ cs, Resolution.selectConstructors (info t constructors methods origin) = .ok cs ∧
      cs.map (·.params) = if t.isInterface then [[]] else constructors.map (·.params) := by
  let s := info t constructors methods origin
  have hclass : s.isInterface = false := rfl
  have hpublic : s.constructors.filter (fun c => c.visibility != .priv) = s.constructors := by
    rw [List.filter_eq_self]
    intro c hc
    have hstated : ∀ v, stated v ≠ .priv := by
      intro v
      have hpackage : Visibility.ofModifiers [] ≠ .priv := by decide
      cases v with
      | pub => decide
      | prot => decide
      | pkg => exact hpackage
      | priv => exact hpackage
      | other word => exact hpackage
    simp only [s, info] at hc
    split at hc
    · rw [List.mem_singleton.mp hc]
      rfl
    · obtain ⟨c', -, rfl⟩ := List.mem_map.mp hc
      simpa [ownConstructor] using hstated c'.visibility
  have hparams : s.constructors.map (·.params) =
      if constructors.isEmpty then [[]] else constructors.map (·.params) := by
    simp only [s, info]
    split
    · rfl
    · rw [List.map_map]
      rfl
  have hempty : constructors.isEmpty = t.isInterface := by
    unfold Resolution.selectConstructors at h
    cases hi : t.isInterface with
    | true =>
      rw [hi, if_pos rfl] at h
      cases h
      rfl
    | false =>
      rw [hi, if_neg Bool.false_ne_true] at h
      dsimp only at h
      split at h
      · cases h
      · rename_i hne
        cases h
        simpa using hne
  have hne : s.constructors.isEmpty = false := by
    simp only [s, info]
    split
    · rfl
    · rename_i hne
      simpa using hne
  refine ⟨s.constructors, ?_, hempty ▸ hparams⟩
  unfold Resolution.selectConstructors
  rw [hclass, if_neg Bool.false_ne_true]
  dsimp only
  rw [hpublic, hne, if_neg Bool.false_ne_true]

theorem checkTarget_info (t : TypeInfo) (constructors : List Constructor) (methods : List Method)
    (origin : String) :
    Resolution.checkTarget (info t constructors methods origin) = .ok () := by
  rfl

/-- A stub of the stub of a type implements nothing and has the constructors of the first one. -/
theorem render_stub {files files' : List (String × String)} {label name text : String}
    {r : Resolution} {compiler compiler' : Compiler} {w w' : Workshop}
    (hrun : outcome ((Generator.mk [] files compiler).render name w) = .ok (r, text))
    (hnodup : (namesOf (readUnits files).1).Nodup)
    (horderly : ∀ l, ofTexts w.tree files = .ok () l → l.Orderly)
    (hslots : (r.target.methods.map Method.slot).Nodup)
    (hobject : r.target.isInterface = true → r.target.name ≠ objectName)
    (hemitted : ∀ p ∈ r.members, isEmitted p.2 = true)
    (hmention : Unmentioned r.target (readUnits files).1)
    (hfiles : files'.Perm ((label, text) :: files))
    (hparse : CompilationUnit.ofText text = .ok r.unit)
    (hplain : SpeaksPlainly r.target r.constructors (r.members.map Prod.snd)
      (ofUnits [] w'.tree (readUnits files').1)) :
    ∃ r' text', outcome ((Generator.mk [] files' compiler').render (StubSource.name r.target) w') =
        .ok (r', text') ∧ r'.members = [] ∧ r'.constructors.map (·.params) =
          if r.target.isInterface then [[]] else r.constructors.map (·.params) := by
  let units := (readUnits files).1
  let methods := r.members.map Prod.snd
  -- The first resolution was made of a chain.
  obtain ⟨l, hmade, hresolve, -⟩ := render_ok hrun
  have hproper : ∀ a ∈ namesOf units, isPrimitiveName a = false := fun a ha => (names_of_texts ha).1
  obtain ⟨T, hT⟩ := exists_tells units hnodup hproper
  have hl := registerUnits_kept hT (.refl units) hmade
  obtain ⟨hacyclic, htop⟩ := (horderly l hmade).table hT hl
  have htame := hT.tame (fun a ha => (names_of_texts ha).2) htop
  obtain ⟨htarget, found, hchain, hr⟩ := kept_made hT htame hl hresolve
  obtain ⟨hcheck, hconstructors, hofRel⟩ := Resolution.resolve_rel_ok _ hr
  obtain rfl := hT.name_eq htarget
  have hprimitive : isPrimitiveName r.target.name = false := by
    by_contra h
    have hp := Except.ok.inj (htarget.symm.trans (hT.primitive (by simpa using h)))
    rw [hp] at hcheck
    cases hcheck
  obtain ⟨hname, hdot⟩ := hT.plain_name (fun p hp => readUnits_proper hp) htarget hprimitive
  have hdot : '.' ∉ (className r.target).toList := by
    have hending : '.' ∉ nameEnding.toList := by decide
    rw [className, String.toList_append, List.mem_append]
    exact not_or.mpr ⟨hdot, hending⟩
  -- The library of all texts has a table with one more type.
  have hunits : (readUnits files').1.Perm ((label, r.unit) :: units) := by
    have hcons : (readUnits ((label, text) :: files)).1 = (label, r.unit) :: units := by
      rw [readUnits_eq, List.filterMap_cons, hparse, ← readUnits_eq]
      rfl
    exact hcons ▸ readUnits_perm hfiles
  obtain ⟨T', hT', hstub, hother⟩ :=
    exists_tells_stub hT hnodup hproper hunits hdot hmention hplain
  have hunknown : ∀ t, T (StubSource.name r.target) ≠ .ok t := by
    intro t ht
    rw [hT.other (name_not_primitive _) hmention.declared (name_not_platform _)] at ht
    cases ht
  have hmore : ∀ {a t}, T a = .ok t → T' a = .ok t := by
    intro a t ht
    have hne : a ≠ StubSource.name r.target := by
      rintro rfl
      exact hunknown t ht
    rw [hother a hne, ht]
  have hup : ∀ a b, T.lineage.Up a b → T'.lineage.Up a b := by
    rintro a b ⟨above, habove, hb⟩
    obtain ⟨t, ht, rfl⟩ := LoadTable.lineage_eq_some.mp habove
    exact ⟨_, LoadTable.lineage_eq_some.mpr ⟨t, hmore ht, rfl⟩, hb⟩
  -- Nothing is above itself there, either.
  have hacyclic' : ∀ a, ¬ Relation.TransGen T'.Leads a a := by
    refine LoadTable.acyclic_of_ne hstub hunknown hother (fun b hb => ?_) hacyclic
    obtain ⟨rfl, hbelow⟩ := parents_info hobject hb
    exact hchain.view (LoadTable.types_eq_some.mpr htarget) hbelow
  have htame' := hT'.tame (fun a ha => by
      obtain ⟨p, hp, d, hd, rfl⟩ := mem_namesOf.mp ha
      exact (names_of_texts (mem_namesOf.mpr ⟨p, hunits.mem_iff.mpr hp, d, hd, rfl⟩)).2)
    (fun t ht => htop t (hother _ (name_ne_object _).symm ▸ ht))
  -- The levels of the stub leave nothing open.
  have hslot : ∀ p ∈ r.members, p.2.slot = p.1 := by
    rintro ⟨k, a⟩ hp
    rw [hofRel] at hp
    obtain ⟨hlast, -⟩ := (Resolution.mem_members_ofRel _ hcheck hconstructors found k a).mp hp
    exact (Resolution.mem_abstractOf.mp (List.mem_of_getLast? hlast)).2.2
  have hchain' : T'.types.Chain r.target.name found :=
    hchain.mono fun h => LoadTable.types_eq_some.mpr (hmore (LoadTable.types_eq_some.mp h))
  have hstubbed : ∀ p ∈ r.members, p.2 ∈ methods.filter isEmitted ∧ p.2.slot = p.1 :=
    fun p hp => ⟨List.mem_filter.mpr ⟨List.mem_map_of_mem hp, hemitted p hp⟩, hslot p hp⟩
  obtain ⟨levels, hlevels, hcovers⟩ := covers (hmore htarget) hstub hchain' hname
    (name_ne_object _) (hT.described htarget hprimitive) hslots hobject hstubbed
  obtain ⟨cs, hcs, hparams⟩ := selectConstructors_info hconstructors methods label
  -- The library is made, and the resolution of the stub with it.
  have hmade' : ∃ l', ofTexts w'.tree files' = .ok () l' ∧
      (kept T' ((label, r.unit) :: units) (· = [])).inv l' := by
    rcases registerUnits_given hT' hunits w'.tree with ⟨ho, hkept⟩ | ⟨-, a, ha, f, hf⟩
    · exact ⟨_, eq_ok_of_outcome ho, hkept⟩
    · have hall : ∃ t, T' a = .ok t := by
        by_cases hnew : a = StubSource.name r.target
        · exact ⟨_, hnew ▸ hstub⟩
        · obtain ⟨p, hp, d, hd, rfl⟩ := mem_namesOf.mp ha
          rcases List.mem_cons.mp hp with rfl | hp
          · have hd : d = ⟨decl r.target r.constructors methods, StubSource.name r.target, false⟩ := by
              simpa [Resolution.unit, declared_unit] using hd
            exact absurd (by rw [hd]) hnew
          · obtain ⟨t, ht⟩ := kept_declared hl (mem_namesOf.mpr ⟨p, hp, d, hd, rfl⟩)
            exact ⟨t, hmore ht⟩
      obtain ⟨t, ht⟩ := hall
      rw [ht] at hf
      cases hf
  obtain ⟨l', hmade', hl'⟩ := hmade'
  have hresolve' := kept_resolve hT' hacyclic' htame' hl' hstub hlevels
  have hpure := Resolution.resolve_pure (m := Except Failure) T'.lineage.verdict
    (checkTarget_info r.target r.constructors methods label) hcs levels
  let r' := Resolution.ofRel T'.lineage.verdict (info r.target r.constructors methods label) levels cs
  refine ⟨r', Generator.textOf r', (render_ofTexts hmade' compiler' _).trans ?_, ?_, hparams⟩
  · exact congrArg _ (hresolve'.trans hpure)
  · have hofTarget : Resolution.Covers found levels
        (Resolution.ofRel T.lineage.verdict r.target found r.constructors).members := by
      rw [← hofRel]
      exact hcovers
    exact hofTarget.members_eq_nil T'.lineage.verdict_refl (fun x y => Lineage.verdict_mono hup)
      hcheck hconstructors (checkTarget_info r.target r.constructors methods label) hcs

namespace Restubbing

/-- A compiler that does nothing. -/
def idle : Compiler := fun c => ⟨.ok 0, c.tree, []⟩

def bench : Workshop := ⟨.empty, [], []⟩

/-- A class with a constructor and a method of an interface to implement. -/
def files : List (String × String) :=
  [("p/A.java", "package p; public interface A { String f(int[] ns) throws java.io.IOException; }"),
    ("p/B.java", "package p; abstract class B implements A { protected B(A a) { } }")]

def stubText : String :=
  "package p;\n\npublic class BImpl extends p.B \x7b\n\n\tprotected BImpl(p.A arg1) \x7b\n" ++
    "\t\tsuper(arg1);\n\t\x7d\n\n\tpublic java.lang.String f(int[] arg1) " ++
    "throws java.io.IOException \x7b\n\t\treturn null;\n\t\x7d\n\n\x7d\n"

def stub : Resolution :=
  let f : Method :=
    ⟨"p.A", "f", "java.lang.String", ["int[]"], ["java.io.IOException"], .pub, true, false, false⟩
  { target :=
      { name := "p.B", simpleName := "B", kind := .classType, package := "p", visibility := .pkg
        modifiers := ["abstract"], superclass := some objectName, interfaces := ["p.A"]
        constructors := [⟨"p.B", ["p.A"], [], .prot⟩], methods := []
        sourceFile := some "p/B.java" }
    constructors := [⟨"p.B", ["p.A"], [], .prot⟩]
    members := [(f.slot, f)]
    decisions := [(f.slot, .keep)] }

def library : Library :=
  stateAfter (ofTexts .empty files)

/-- All supertypes of a name come before it. -/
def rank (name : String) : Nat :=
  if name = "p.B" then 2
  else if name ∈ ["java.io.Closeable", "java.lang.Enum", "java.io.IOException"] then 1 else 0

theorem facts : outcome (ofTexts .empty files) = .ok () ∧ (namesOf (readUnits files).1).Nodup ∧
    library.ranks rank (namesOf (readUnits files).1 ++ Platform.units.map Prod.fst) = true ∧
    outcome (load objectName library) = .error (.typeNotFound objectName) ∧
    outcome ((Generator.mk [] files idle).render "p.B" bench) = .ok (stub, stubText) ∧
    (stub.target.methods.map Method.slot).Nodup ∧ stub.target.isInterface = false ∧
    (∀ p ∈ stub.members, isEmitted p.2 = true) ∧
    StubSource.name stub.target ∉ namesOf (readUnits files).1 ∧
    (∀ p ∈ (readUnits files).1, ∀ n ∈ p.2.names,
      StubSource.name stub.target ∉ (Scope.ofUnit p.2).asks (n.headD "")) ∧
    StubSource.name stub.target = "p.BImpl" ∧ CompilationUnit.ofText stubText = .ok stub.unit := by
  decide +kernel

theorem plain_facts :
    let l := ofUnits [] .empty (readUnits (("p/BImpl.java", stubText) :: files)).1
    let s := Scope.ofUnit stub.unit
    let methods := stub.members.map Prod.snd
    (∀ type ∈ typesIn stub.target stub.constructors methods,
      outcome (s.resolveType (.ofName type) l) = .ok type) ∧
    ∀ e ∈ exceptionsIn stub.constructors methods,
      outcome (s.resolveName (splitText '.' e) l) = .ok e := by
  decide +kernel

theorem render_stub_class : ∃ r text,
    outcome ((Generator.mk [] (("p/BImpl.java", stubText) :: files) idle).render "p.BImpl" bench) =
      .ok (r, text) ∧ r.members = [] ∧ r.constructors.map (·.params) = [["p.A"]] := by
  obtain ⟨hmade, hnodup, hranks, hobject, hrun, hslots, hclass, hemitted, hdeclared, hasked, hname,
    hparse⟩ := facts
  have horderly : ∀ l, ofTexts .empty files = .ok () l → l.Orderly := by
    intro l hl
    cases (eq_ok_of_outcome hmade).symm.trans hl
    refine ⟨fun name h => ?_, fun t ht => nomatch hobject.symm.trans ht⟩
    exact acyclic_of_ranks (eq_ok_of_outcome hmade) hnodup rank hranks name
      (Relation.TransGen.mono (fun a b => Leads.above) _ _ h)
  have hinterface : stub.target.isInterface = true → stub.target.name ≠ objectName := by
    rw [hclass]
    exact nofun
  have hplain : SpeaksPlainly stub.target stub.constructors (stub.members.map Prod.snd)
      (ofUnits [] .empty (readUnits (("p/BImpl.java", stubText) :: files)).1) :=
    ⟨plain_facts.1, plain_facts.2⟩
  have hstub : ∃ r text, outcome ((Generator.mk [] (("p/BImpl.java", stubText) :: files) idle).render
      (StubSource.name stub.target) bench) = .ok (r, text) ∧ r.members = [] ∧
        r.constructors.map (·.params) =
          if stub.target.isInterface then [[]] else stub.constructors.map (·.params) :=
    render_stub hrun hnodup horderly hslots hinterface hemitted ⟨hdeclared, hasked⟩ (.refl _) hparse
      hplain
  rw [hname, hclass] at hstub
  exact hstub

/-- An interface called `java.lang.Object`, where the chain of superclasses stops. -/
def topFiles : List (String × String) :=
  [("java/lang/Object.java", "package java.lang; public interface Object { void f(); }")]

def topText : String :=
  "package java.lang;\n\npublic class ObjectImpl implements java.lang.Object \x7b\n\n\x7d\n"

def topMethod : Method :=
  ⟨objectName, "f", "void", [], [], .pub, true, false, false⟩

def topStub : Resolution where
  target :=
    { name := objectName, simpleName := "Object", kind := .interfaceType, package := "java.lang"
      visibility := .pub, modifiers := ["public"], superclass := none, interfaces := []
      constructors := [], methods := [topMethod], sourceFile := some "java/lang/Object.java" }
  constructors := []
  members := []
  decisions := []

def topLibrary : Library :=
  stateAfter (ofTexts .empty topFiles)

theorem top_facts : outcome (ofTexts .empty topFiles) = .ok () ∧
    (namesOf (readUnits topFiles).1).Nodup ∧
    topLibrary.ranks rank (namesOf (readUnits topFiles).1 ++ Platform.units.map Prod.fst) = true ∧
    outcome ((Generator.mk [] topFiles idle).render objectName bench) = .ok (topStub, topText) ∧
    (topStub.target.methods.map Method.slot).Nodup ∧
    StubSource.name topStub.target ∉ namesOf (readUnits topFiles).1 ∧
    (∀ p ∈ (readUnits topFiles).1, ∀ n ∈ p.2.names,
      StubSource.name topStub.target ∉ (Scope.ofUnit p.2).asks (n.headD "")) ∧
    CompilationUnit.ofText topText = .ok topStub.unit ∧
    (∀ type ∈ typesIn topStub.target [] [],
      outcome ((Scope.ofUnit topStub.unit).resolveType (.ofName type)
        (ofUnits [] .empty (readUnits (("S.java", topText) :: topFiles)).1)) = .ok type) ∧
    (outcome ((Generator.mk [] (("S.java", topText) :: topFiles) idle).render "java.lang.ObjectImpl"
      bench)).map (fun p => p.1.members) = .ok [(topMethod.slot, topMethod)] := by
  decide +kernel

/-- A stub of an interface called `java.lang.Object` inherits methods that it does not implement. -/
theorem not_render_stub : ¬ ∀ (files files' : List (String × String)) (label name text : String)
    (r : Resolution) (compiler compiler' : Compiler) (w w' : Workshop),
    outcome ((Generator.mk [] files compiler).render name w) = .ok (r, text) →
    (namesOf (readUnits files).1).Nodup →
    (∀ l, ofTexts w.tree files = .ok () l → ∀ name, ¬ Relation.TransGen l.Above name name) →
    (r.target.methods.map Method.slot).Nodup →
    (∀ p ∈ r.members, isEmitted p.2 = true) → Unmentioned r.target (readUnits files).1 →
    files'.Perm ((label, text) :: files) → CompilationUnit.ofText text = .ok r.unit →
    SpeaksPlainly r.target r.constructors (r.members.map Prod.snd)
      (ofUnits [] w'.tree (readUnits files').1) →
    ∃ r' text', outcome ((Generator.mk [] files' compiler').render (StubSource.name r.target) w') =
        .ok (r', text') ∧ r'.members = [] ∧ r'.constructors.map (·.params) =
          if r.target.isInterface then [[]] else r.constructors.map (·.params) := by
  intro h
  obtain ⟨hmade, hnodup, hranks, hrun, hslots, hdeclared, hasked, hparse, hplain, hagain⟩ := top_facts
  have hacyclic : ∀ l, ofTexts .empty topFiles = .ok () l →
      ∀ name, ¬ Relation.TransGen l.Above name name := by
    intro l hl
    cases (eq_ok_of_outcome hmade).symm.trans hl
    exact acyclic_of_ranks (eq_ok_of_outcome hmade) hnodup rank hranks
  obtain ⟨r', text', hrun', hmembers, -⟩ := h topFiles _ "S.java" objectName topText topStub idle idle
    bench bench hrun hnodup hacyclic hslots nofun ⟨hdeclared, hasked⟩ (.refl _) hparse
    ⟨hplain, nofun⟩
  rw [show StubSource.name topStub.target = "java.lang.ObjectImpl" by rfl] at hrun'
  rw [hrun', Except.map, hmembers] at hagain
  cases hagain

end Restubbing

end StubWriter
