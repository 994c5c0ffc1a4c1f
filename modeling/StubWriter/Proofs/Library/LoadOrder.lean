import StubWriter.Proofs.Library.Snapshots

/-!
# Loading in another order

A type is described when its unit is read, from the names that exist then. So it may depend on what
was loaded before. It does not if the names that matter to it exist from the start as far as they are
declared at all, and none of these was looked for in vain.

* `Library.matters`: the names that matter to the description of a type.
* `Library.Unambiguous`: a type that is declared once, with names that exist from the start.
* `Library.undisturbed`: the libraries in which the description of such a type never changes.
* `load_unordered`: such a type is the same after any two series of loads.
-/

namespace StubWriter

open Run

namespace Library

/-- A library after it has loaded some names, whether they were found or not. -/
def afterLoads (l : Library) (names : List String) : Library :=
  names.foldl (fun l name => stateAfter (load name l)) l

/-- The names that are not found when their turn comes. -/
def missed (l : Library) : List String → List String
  | [] => []
  | name :: names =>
    if outcome (load name l) = .error (.typeNotFound name) then
      name :: missed (stateAfter (load name l)) names
    else missed (stateAfter (load name l)) names

/-- The units that are the sources of some names, and the places to name them by. -/
def sources (l : Library) (names : List String) : List (String × CompilationUnit) :=
  names.filterMap fun name =>
    match sourceIn l.roots l.tree name with
    | .ok (some ⟨.ok unit, origin⟩) => some (origin, unit)
    | _ => none

theorem mem_sources {l : Library} {names : List String} {unit : CompilationUnit} {origin name : String}
    (hname : name ∈ names) (h : sourceIn l.roots l.tree name = .ok (some ⟨.ok unit, origin⟩)) :
    (origin, unit) ∈ l.sources names := by
  refine List.mem_filterMap.mpr ⟨name, hname, ?_⟩
  rw [h]

/-- The names that these units declare. -/
def supplied (l : Library) (names : List String) : List String :=
  (l.sources names).flatMap fun p => p.2.declared.map (·.fullName)

/-- The names whose existence may matter when a type is described: the names in its declaration may
mean them. -/
def matters (l : Library) (names : List String) (name : String) : List String :=
  (l.sources names).flatMap fun p => (p.2.declared.filter (·.fullName == name)).flatMap fun d =>
    d.decl.names.flatMap fun n => (Scope.ofUnit p.2).asks (n.headD "")

/-- Among the sources of some names there is one declaration of a type at most, and all names that
matter to it and are declared in the sources exist from the start. -/
structure Unambiguous (l : Library) (names : List String) (name : String) : Prop where
  once : ∀ p ∈ l.sources names, ∀ d ∈ p.2.declared, d.fullName = name →
    ∀ p' ∈ l.sources names, ∀ d' ∈ p'.2.declared, d'.fullName = name → p' = p ∧ d' = d
  early : ∀ a ∈ l.matters names name, a ∈ l.supplied names → outcome (exists? a l) = .ok true

instance (l : Library) (names : List String) (name : String) :
    Decidable (l.Unambiguous names name) :=
  decidable_of_iff
    ((∀ p ∈ l.sources names, ∀ d ∈ p.2.declared, d.fullName = name →
      ∀ p' ∈ l.sources names, ∀ d' ∈ p'.2.declared, d'.fullName = name → p' = p ∧ d' = d) ∧
      ∀ a ∈ l.matters names name, a ∈ l.supplied names → outcome (exists? a l) = .ok true)
    ⟨fun ⟨a, b⟩ => ⟨a, b⟩, fun ⟨a, b⟩ => ⟨a, b⟩⟩

/-- A library that has loaded nothing and looked for nothing yet. -/
structure Fresh (l : Library) : Prop where
  graph : l.graph = .empty
  missing : l.missing = []
  known : l.known = []
  sound : l.Sound

theorem Fresh.existsAt_eq {l : Library} (h : l.Fresh) (a : String) : existsAt l a =
    if isPlatform a then .ok true else if isListed a then .ok true
    else anyIn l.tree (ownFile a) l.roots := by
  unfold existsAt
  rw [h.graph, h.missing, h.known]
  rfl

variable {start : Library} {names : List String} {name : String}

/-! ## Libraries that describe a type alike -/

/-- A library that has loaded sources of the names and looked for no name in vain that matters to the
type and existed at the start. If it holds the type, it holds it as `mean` says. -/
structure Undisturbed (start : Library) (names : List String) (name : String)
    (mean : TypeInfo → Prop) (l : Library) : Prop where
  based : (basedOn start.roots start.tree).inv l
  known : l.known = []
  graph : ∀ {a}, l.graph.contains a = true → a ∈ start.supplied names
  missing : ∀ {a}, a ∈ start.matters names name → a ∈ l.missing → existsAt start a = .ok false
  held : ∀ t, l.graph.get? name = some t → mean t

def undisturbed (start : Library) (names : List String) (name : String) (mean : TypeInfo → Prop) :
    World Library where
  inv := Undisturbed start names name mean
  excused := fun _ => False

variable {mean : TypeInfo → Prop} {l l' : Library}

theorem Recalls.undisturbed (h : l.Recalls l') (hl : Undisturbed start names name mean l) :
    Undisturbed start names name mean l' where
  based := h.based hl.based
  known := h.known.trans hl.known
  graph := h.graph ▸ hl.graph
  missing := h.missing ▸ hl.missing
  held := h.graph ▸ hl.held

theorem undisturbed_quiet : (undisturbed start names name mean).Quiet :=
  fun _ _ hl => Recalls.undisturbed ⟨rfl, List.prefix_append _ _, fun h => ⟨h.archives, h.absent⟩⟩ hl

/-- A name exists in such a library if and only if it does at the start. -/
theorem exists?_undisturbed (hstart : start.Fresh) {a : String} (ha : a ∈ start.matters names name)
    (hearly : a ∈ start.supplied names → existsAt start a = .ok true) :
    (undisturbed start names name mean).Gives (exists? a) (existsAt start a) := by
  intro l hl
  have hrecalls : l.Recalls (stateAfter (exists? a l)) := Moves.moves l
  refine ⟨hrecalls.undisturbed hl, .inl ?_⟩
  obtain ⟨hroots, htree, hsound⟩ := hl.based
  have hfresh := hstart.existsAt_eq a
  rw [exists?_outcome hsound, existsAt, hl.known, hroots, htree]
  cases hcontains : l.graph.contains a with
  | true => exact (hearly (hl.graph hcontains)).symm
  | false =>
    cases hmissed : l.missing.contains a with
    | true =>
      have hnone := hl.missing ha (List.contains_iff_mem.mp hmissed)
      rw [hnone]
      rw [hfresh] at hnone
      cases hplatform : isPlatform a with
      | true =>
        rw [hplatform] at hnone
        cases hnone
      | false => rfl
    | false =>
      rw [hfresh]
      rfl

theorem describe_undisturbed (hstart : start.Fresh) (h : start.Unambiguous names name)
    {p : String × CompilationUnit} (hp : p ∈ start.sources names) {d : Declared}
    (hd : d ∈ p.2.declared) (hname : d.fullName = name) :
    Fixed (undisturbed start names name) fun _ =>
      d.describe p.2.packageName p.1 (Scope.ofUnit p.2) := by
  have hC := fixed_compositional (undisturbed start names name)
  refine d.describe_of hC fun n hn => ?_
  refine Scope.resolveName_of hC (fun f _ => alike_throw f) (fun e => ?_) fun a ha => ?_
  · exact fixed_of_gives (.ok ()) fun _ => undisturbed_quiet.report e
  · have hmatters : a ∈ start.matters names name :=
      List.mem_flatMap.mpr ⟨p, hp, List.mem_flatMap.mpr
        ⟨d, List.mem_filter.mpr ⟨hd, beq_iff_eq.mpr hname⟩, List.mem_flatMap.mpr ⟨n, hn, ha⟩⟩⟩
    refine fixed_of_gives (existsAt start a) fun _ => exists?_undisturbed hstart hmatters fun hs => ?_
    rw [← exists?_outcome hstart.sound]
    exact h.early a hmatters hs

/-! ## Loading -/

theorem takeIn_undisturbed {d : Declared} (hd : d.fullName ∈ start.supplied names) {t : TypeInfo}
    (hname : t.name = d.fullName) (ht : d.fullName = name → mean t)
    (hl : Undisturbed start names name mean l) :
    Undisturbed start names name mean (l.takeIn d t) where
  based := basedOn_learned hl.based _ _
  known := hl.known
  graph := by
    intro a ha
    unfold takeIn TypeGraph.contains at ha
    rw [TypeGraph.get?_addType] at ha
    split at ha
    · rename_i hat
      rwa [hat, hname]
    · exact hl.graph ha
  missing := fun ha hm => hl.missing ha (List.mem_of_mem_filter hm)
  held := by
    intro t' ht'
    rw [takeIn, TypeGraph.get?_addType] at ht'
    split at ht'
    · rename_i hat
      cases ht'
      exact ht (hname.symm.trans hat.symm)
    · exact hl.held t' ht'

/-- What the declarations of a type describe, in whatever library that is undisturbed. -/
def Means (start : Library) (names : List String) (name : String) (t : TypeInfo) : Prop :=
  ∀ p ∈ start.sources names, ∀ d ∈ p.2.declared, d.fullName = name → ∀ mean,
    (undisturbed start names name mean).Gives (d.describe p.2.packageName p.1 (Scope.ofUnit p.2))
      (.ok t)

theorem register_undisturbed (hstart : start.Fresh) (h : start.Unambiguous names name)
    {p : String × CompilationUnit} (hp : p ∈ start.sources names)
    (hl : Undisturbed start names name (Means start names name) l) :
    Undisturbed start names name (Means start names name) (stateAfter (register p.2 p.1 l)) := by
  let W := undisturbed start names name (Means start names name)
  have hdescribe : ∀ d ∈ p.2.declared, Ends W.inv
      (d.describe p.2.packageName p.1 (Scope.ofUnit p.2)) fun o =>
        ∀ t, o = .ok t → d.fullName = name → Means start names name t := by
    intro d hd
    by_cases hname : d.fullName = name
    · obtain ⟨v, -, hv⟩ := describe_undisturbed hstart h hp hd hname
      refine ends_mono (World.ends_of_gives (fun _ h => h) (hv (Means start names name))) ?_
      rintro _ rfl t rfl _ p' hp' d' hd' hname' mean
      obtain ⟨rfl, rfl⟩ := h.once p hp d hd hname p' hp' d' hd' hname'
      exact hv mean
    · intro l hl
      have hrecalls : l.Recalls (stateAfter (d.describe p.2.packageName p.1 (Scope.ofUnit p.2) l)) :=
        Moves.moves l
      exact ⟨hrecalls.undisturbed hl, fun _ _ h => absurd h hname⟩
  have hsupplied : ∀ d ∈ p.2.declared, d.fullName ∈ start.supplied names := fun d hd =>
    List.mem_flatMap.mpr ⟨p, hp, List.mem_map_of_mem hd⟩
  exact (registerAll_comes hdescribe (fun d hd t ht hname l hl =>
    takeIn_undisturbed (hsupplied d hd) hname (ht t rfl) hl) hl).1

/-- The first place to look for a type is a file of its own. -/
theorem candidates_eq (name : String) : ∃ others, candidates name = ownFile name :: others := by
  obtain ⟨k, hk⟩ := Nat.exists_eq_succ_of_ne_zero
    (List.length_pos_iff.mpr (splitText_ne_nil '.' name)).ne'
  refine ⟨(candidates name).tail, ?_⟩
  unfold candidates
  dsimp only
  rw [hk, List.range_succ_eq_map, List.map_cons, ← hk, Nat.sub_zero, List.take_length]
  rfl

/-- A search that comes to an end has asked all roots for that file. -/
theorem anyIn_of_sourceIn {roots : List Path} {tree : FileTree} {name : String}
    {source? : Option Source} (h : sourceIn roots tree name = .ok source?) :
    ∃ found, anyIn tree (ownFile name) roots = .ok found := by
  obtain ⟨others, hothers⟩ := candidates_eq name
  obtain ⟨first?, hfirst⟩ : ∃ first?, firstIn tree (places roots name) = .ok first? := by
    unfold sourceIn at h
    cases hfirst : firstIn tree (places roots name) with
    | error f =>
      rw [hfirst] at h
      cases h
    | ok first? => exact ⟨first?, rfl⟩
  rw [places, hothers, List.flatMap_cons] at hfirst
  generalize others.flatMap (fun relative => roots.map (relative, ·)) = rest at hfirst
  clear h hothers
  induction roots with
  | nil => exact ⟨false, rfl⟩
  | cons root roots ih =>
    rw [List.map_cons, List.cons_append, firstIn] at hfirst
    unfold anyIn
    cases hhas : hasIn tree (ownFile name) root with
    | error f =>
      rw [hhas] at hfirst
      cases hfirst
    | ok has =>
      rw [hhas] at hfirst
      cases has with
      | true => exact ⟨true, rfl⟩
      | false => exact ih hfirst

theorem fetch_undisturbed (hstart : start.Fresh) (h : start.Unambiguous names name) {asked : String}
    (hasked : asked ∈ names) (hl : Undisturbed start names name (Means start names name) l) :
    Comes (fetch asked) l fun o l' => Undisturbed start names name (Means start names name) l' ∧
      (o = .ok () → ∃ found, anyIn start.tree (ownFile asked) start.roots = .ok found) := by
  have hfind : Comes (findSource? asked) l fun o l' =>
      Undisturbed start names name (Means start names name) l' ∧
        o = sourceIn start.roots start.tree asked := by
    have hrecalls : l.Recalls (stateAfter (findSource? asked l)) := Moves.moves l
    exact ⟨hrecalls.undisturbed hl, World.ends_of_gives (fun _ h => h)
      (findSource?_gives asked) l hl.based |>.2⟩
  refine comes_bind hfind (fun source? l₁ ⟨hl₁, hsource⟩ => ?_) fun f l₁ ⟨hl₁, _⟩ => ⟨hl₁, nofun⟩
  have hown := anyIn_of_sourceIn hsource.symm
  cases source? with
  | none => exact ⟨hl₁, fun _ => hown⟩
  | some source =>
    refine comes_bind (Q := fun _ l₂ => Undisturbed start names name (Means start names name) l₂)
      (undisturbed_quiet l₁ _ hl₁) (fun _ l₂ hl₂ => ?_) fun f l₂ hl₂ => ⟨hl₂, nofun⟩
    unfold registerSource
    cases hunit : source.unit with
    | error fault => exact ⟨hl₂, fun _ => hown⟩
    | ok unit =>
      have hmem : (source.origin, unit) ∈ start.sources names :=
        mem_sources hasked (by rw [← hsource, ← hunit])
      exact ⟨register_undisturbed hstart h hmem hl₂, fun _ => hown⟩

/-- Loading disturbs nothing unless it misses a name that matters. -/
theorem load_undisturbed (hstart : start.Fresh) (h : start.Unambiguous names name) {asked : String}
    (hasked : asked ∈ names) (hl : Undisturbed start names name (Means start names name) l)
    (hmissed : asked ∈ start.matters names name → existsAt start asked = .ok true →
      outcome (load asked l) ≠ .error (.typeNotFound asked)) :
    Undisturbed start names name (Means start names name) (stateAfter (load asked l)) := by
  suffices hload : Comes (load asked) l fun o l' =>
      (asked ∈ start.matters names name → existsAt start asked = .ok true →
        o ≠ .error (.typeNotFound asked)) →
      Undisturbed start names name (Means start names name) l' from hload hmissed
  refine load_comes (fun _ _ => hl) (fun _ _ _ => hl) (fun _ _ _ _ => hl)
    (fun _ _ _ => fetch_undisturbed hstart h hasked hl) (fun _ _ hl' _ _ => hl'.1)
    (fun l' ⟨hl', hfound⟩ _ hmissed => ?_) fun _ _ hl' _ => hl'.1
  refine ⟨basedOn_learned hl'.based l'.graph _, hl'.known, hl'.graph, fun {a} ha hm => ?_, hl'.held⟩
  rcases List.mem_append.mp hm with hm | hm
  · exact hl'.missing ha hm
  · obtain rfl := List.mem_singleton.mp hm
    -- The search came to an end, so at the start it was known whether the name exists.
    obtain ⟨found, hfound⟩ := hfound rfl
    have hexists : existsAt start a ≠ .ok true := fun hexists => hmissed ha hexists rfl
    rw [hstart.existsAt_eq] at hexists ⊢
    by_cases hplatform : isPlatform a = true
    · exact absurd (if_pos hplatform) hexists
    by_cases hlisted : isListed a = true
    · exact absurd ((if_neg hplatform).trans (if_pos hlisted)) hexists
    rw [if_neg hplatform, if_neg hlisted, hfound] at hexists ⊢
    cases found with
    | true => exact absurd rfl hexists
    | false => rfl

/-! ## Series of loads -/

theorem Fresh.undisturbed (h : start.Fresh) : Undisturbed start names name mean start where
  based := ⟨rfl, rfl, h.sound⟩
  known := h.known
  graph := by
    intro a ha
    rw [h.graph] at ha
    cases ha
  missing := by
    intro a _ ha
    rw [h.missing] at ha
    cases ha
  held := by
    intro t ht
    rw [h.graph] at ht
    cases ht

/-- A series of loads disturbs nothing unless it misses a name that matters. -/
theorem afterLoads_undisturbed (hstart : start.Fresh) (h : start.Unambiguous names name)
    {before : List String} (hbefore : before ⊆ names)
    (hl : Undisturbed start names name (Means start names name) l)
    (hmissed : ∀ a ∈ start.matters names name, existsAt start a = .ok true → a ∉ l.missed before) :
    Undisturbed start names name (Means start names name) (l.afterLoads before) := by
  induction before generalizing l with
  | nil => exact hl
  | cons asked before ih =>
    obtain ⟨hasked, hbefore⟩ := List.cons_subset.mp hbefore
    refine ih hbefore (load_undisturbed hstart h hasked hl fun ha hexists hload => ?_) ?_
    · refine hmissed asked ha hexists ?_
      rw [missed, if_pos hload]
      exact List.mem_cons_self
    · intro a ha hexists hm
      refine hmissed a ha hexists ?_
      rw [missed]
      split
      · exact List.mem_cons_of_mem _ hm
      · exact hm

/-- What a type is that loads after a series of loads. -/
theorem load_means (hstart : start.Fresh) (h : start.Unambiguous names name) (hname : name ∈ names)
    (hprimitive : isPrimitiveName name = false) {before : List String} (hbefore : before ⊆ names)
    (hmissed : ∀ a ∈ start.matters names name, outcome (exists? a start) = .ok true →
      a ∉ start.missed before) {t : TypeInfo}
    (hload : outcome (load name (start.afterLoads before)) = .ok t) :
    name ∈ start.supplied names ∧ Means start names name t := by
  have hl := load_undisturbed hstart h hname
    (afterLoads_undisturbed hstart h hbefore hstart.undisturbed fun a ha hexists =>
      hmissed a ha ((exists?_outcome hstart.sound a).trans hexists)) fun _ _ hlost => by
        rw [hload] at hlost
        cases hlost
  have ht := load_ok name _ _ _ (eq_ok_of_outcome hload) hprimitive
  refine ⟨hl.graph ?_, hl.held t ht⟩
  unfold TypeGraph.contains
  rw [ht]
  rfl

/-- A type that loads after two series of loads is the same after both, if among the sources of all
the names there is one declaration of it, the names that matter to it exist from the start as far as
the sources declare them, and no such name is missed. -/
theorem load_unordered {roots : List Path} {tree : FileTree} {l : Library}
    (hmade : ofFiles roots tree [] = .ok () l) {name : String} {before₁ before₂ : List String}
    (h : l.Unambiguous (name :: (before₁ ++ before₂)) name)
    (hmissed : ∀ a ∈ l.matters (name :: (before₁ ++ before₂)) name,
      outcome (exists? a l) = .ok true → a ∉ l.missed before₁ ∧ a ∉ l.missed before₂)
    {t₁ t₂ : TypeInfo} (h₁ : outcome (load name (l.afterLoads before₁)) = .ok t₁)
    (h₂ : outcome (load name (l.afterLoads before₂)) = .ok t₂) : t₁ = t₂ := by
  cases hprimitive : isPrimitiveName name with
  | true =>
    rw [load_primitive hprimitive] at h₁ h₂
    exact Except.ok.inj (h₁.symm.trans h₂)
  | false =>
    have hfresh : l.Fresh := by
      cases hmade
      exact ⟨rfl, rfl, rfl, ⟨fun _ h => (nomatch h), fun _ h => (nomatch h)⟩⟩
    have hbefore₁ : before₁ ⊆ name :: (before₁ ++ before₂) := fun a ha => by simp [ha]
    have hbefore₂ : before₂ ⊆ name :: (before₁ ++ before₂) := fun a ha => by simp [ha]
    obtain ⟨hsupplied, hmeans₁⟩ := load_means hfresh h List.mem_cons_self hprimitive hbefore₁
      (fun a ha hexists => (hmissed a ha hexists).1) h₁
    obtain ⟨-, hmeans₂⟩ := load_means hfresh h List.mem_cons_self hprimitive hbefore₂
      (fun a ha hexists => (hmissed a ha hexists).2) h₂
    -- Both types are what the one declaration of the name describes at the start.
    obtain ⟨p, hp, hdeclared⟩ := List.mem_flatMap.mp hsupplied
    obtain ⟨d, hd, hname⟩ := List.mem_map.mp hdeclared
    have hgives₁ := hmeans₁ p hp d hd hname fun _ => True
    have hgives₂ := hmeans₂ p hp d hd hname fun _ => True
    exact Except.ok.inj (hgives₁.unique (fun _ h => h) hfresh.undisturbed hgives₂)

/-! ### Interfaces that name each other -/

def neighbours : FileTree :=
  .ofTexts [(["s", "p", "A.java"], "package p; interface A { B f(); }"),
    (["s", "p", "B.java"], "package p; interface B { A g(); }")]

def neighboursLibrary : Library :=
  ofUnits [⟨0, ["s"]⟩] neighbours []

theorem neighbours_made : ofFiles [⟨0, ["s"]⟩] neighbours [] = .ok () neighboursLibrary :=
  rfl

theorem neighbours_facts :
    neighboursLibrary.Unambiguous ("p.A" :: (["p.B"] ++ ["p.C"])) "p.A" ∧
    (∀ a ∈ neighboursLibrary.matters ("p.A" :: (["p.B"] ++ ["p.C"])) "p.A",
      outcome (exists? a neighboursLibrary) = .ok true →
        a ∉ neighboursLibrary.missed ["p.B"] ∧ a ∉ neighboursLibrary.missed ["p.C"]) ∧
    outcome (load "p.A" (neighboursLibrary.afterLoads ["p.B"])) = .ok (shadowedType "p.B") ∧
    outcome (load "p.A" (neighboursLibrary.afterLoads ["p.C"])) = .ok (shadowedType "p.B") := by
  decide +kernel

theorem load_unordered_neighbours : ∃ t₁ t₂,
    outcome (load "p.A" (neighboursLibrary.afterLoads ["p.B"])) = .ok t₁ ∧
    outcome (load "p.A" (neighboursLibrary.afterLoads ["p.C"])) = .ok t₂ ∧ t₁ = t₂ := by
  obtain ⟨hunambiguous, hmissed, h₁, h₂⟩ := neighbours_facts
  exact ⟨_, _, h₁, h₂, load_unordered neighbours_made hunambiguous hmissed h₁ h₂⟩

/-! ### A type that a unit declares besides its own -/

theorem shadowing_facts :
    outcome (load "p.A" (shadowedLibrary.afterLoads [])) = .ok (shadowedType "java.util.List") ∧
    outcome (load "p.A" (shadowedLibrary.afterLoads ["p.C"])) = .ok (shadowedType "p.List") := by
  decide +kernel

/-- A type that stands in the unit of another one is known only after that one was loaded. -/
theorem not_load_unordered : ¬ ∀ (roots : List Path) (tree : FileTree) (l : Library),
    ofFiles roots tree [] = .ok () l → ∀ (name : String) (before₁ before₂ : List String)
      (t₁ t₂ : TypeInfo), outcome (load name (l.afterLoads before₁)) = .ok t₁ →
      outcome (load name (l.afterLoads before₂)) = .ok t₂ → t₁ = t₂ := by
  intro h
  have hsame := h _ _ _ shadowed_made "p.A" [] ["p.C"] _ _ shadowing_facts.1 shadowing_facts.2
  exact absurd hsame (by decide)

end Library

end StubWriter
