import StubWriter.Proofs.Generation.Inspecting
import StubWriter.Proofs.Library.Given
import StubWriter.Proofs.Library.Sessions

/-!
# Which names exist

A name should exist if its type is loaded, if a given unit or the platform declares it, if it is
listed, or if a root has a file of its own for it. A library that has looked for the name in vain
does not ask about the last two any more.

* `Library.Candid`: a library takes a name for missing only if it has no type of it and another
  search for one would come to nothing either.
* `exists?_iff`: when the answer of a library is right, in every state that a session leaves.
-/

namespace StubWriter

open Run

namespace Library

variable {roots : List Path} {tree : FileTree}

/-! ## Files of their own -/

theorem anyIn_true {relative : String} {roots : List Path}
    (h : anyIn tree relative roots = .ok true) :
    ∃ root ∈ roots, hasIn tree relative root = .ok true := by
  induction roots with
  | nil => cases h
  | cons root rest ih =>
    unfold anyIn at h
    cases hhas : hasIn tree relative root with
    | error f =>
      rw [hhas] at h
      cases h
    | ok has =>
      cases has with
      | true => exact ⟨root, List.mem_cons_self, hhas⟩
      | false =>
        rw [hhas] at h
        obtain ⟨root', hroot, hrest⟩ := ih h
        exact ⟨root', List.mem_cons_of_mem _ hroot, hrest⟩

theorem anyIn_false {relative : String} {roots : List Path}
    (h : anyIn tree relative roots = .ok false) :
    ∀ root ∈ roots, hasIn tree relative root = .ok false := by
  induction roots with
  | nil => exact fun root hroot => absurd hroot List.not_mem_nil
  | cons root rest ih =>
    unfold anyIn at h
    cases hhas : hasIn tree relative root with
    | error f =>
      rw [hhas] at h
      cases h
    | ok has =>
      rw [hhas] at h
      cases has with
      | true => cases h
      | false => exact List.forall_mem_cons.mpr ⟨hhas, ih h⟩

/-! ## Missing names -/

/-- A step after which a property holds of a library if it held before. -/
def Leaves (I : Library → Prop) (l l' : Library) : Prop :=
  I l → I l'

instance (I : Library → Prop) : Std.Refl (Leaves I) :=
  ⟨fun _ => id⟩

instance (I : Library → Prop) : IsTrans Library (Leaves I) :=
  ⟨fun _ _ _ h h' => h' ∘ h⟩

/-- The search for a name comes to an end without a type of that name: it finds no source, or a unit
that does not declare it. -/
def Undeclared (roots : List Path) (tree : FileTree) (name : String) : Prop :=
  ∃ source?, sourceIn roots tree name = .ok source? ∧ ∀ source, source? = some source →
    ∃ unit, source.unit = .ok unit ∧ ∀ d ∈ unit.declared, d.fullName ≠ name

/-- A library that remembers nothing wrong. What it takes for missing has no type in it and would be
looked for in vain again. -/
structure Candid (roots : List Path) (tree : FileTree) (l : Library) : Prop where
  based : (basedOn roots tree).inv l
  missing : ∀ a ∈ l.missing, l.graph.contains a = false ∧ Undeclared roots tree a

theorem ofUnits_candid (roots : List Path) (tree : FileTree)
    (units : List (String × CompilationUnit)) : Candid roots tree (ofUnits roots tree units) :=
  ⟨ofUnits_basedOn roots tree units, fun _ ha => absurd ha List.not_mem_nil⟩

theorem Recalls.candid {l l' : Library} (h : l.Recalls l') : Leaves (Candid roots tree) l l' :=
  fun hl => ⟨h.based hl.based, h.missing ▸ h.graph ▸ hl.missing⟩

/-- A declaration takes its name from the missing ones when its type comes into the library. -/
theorem candid_takeIn {l : Library} {d : Declared} {t : TypeInfo} (hname : t.name = d.fullName)
    (hl : Candid roots tree l) : Candid roots tree (l.takeIn d t) := by
  refine ⟨basedOn_learned hl.based _ _, fun a ha => ?_⟩
  obtain ⟨ha, hne⟩ := List.mem_filter.mp ha
  obtain ⟨hgone, hundeclared⟩ := hl.missing a ha
  have hne : a ≠ t.name := by simpa [hname] using hne
  refine ⟨?_, hundeclared⟩
  rw [takeIn, TypeGraph.contains, TypeGraph.get?_addType, if_neg hne]
  exact hgone

theorem describe_candid (d : Declared) (package origin : String) (s : Scope) :
    Ends (Candid roots tree) (d.describe package origin s) fun _ => True :=
  fun l hl => ⟨(Moves.moves (R := Recalls) l).candid hl, trivial⟩

/-- Registers what a search has found. -/
def registerFound : Except Failure (Option Source) → Lookup Unit
  | .error f => throw f
  | .ok none => pure ()
  | .ok (some source) => registerSource source

/-- Fetching a type registers the source that the files hold for it, after a search and a report of
what is read. -/
theorem fetch_comes {name : String} {l : Library} {P : Except Failure Unit → Library → Prop}
    (hl : (basedOn roots tree).inv l)
    (h : ∀ l₁, l.Recalls l₁ → (∀ source, sourceIn roots tree name = .ok (some source) →
      (l.log ++ [Event.loading name source.origin]).Sublist l₁.log) →
        Comes (registerFound (sourceIn roots tree name)) l₁ P) :
    Comes (fetch name) l P := by
  have hfind : Comes (findSource? name) l fun o l₁ =>
      o = sourceIn roots tree name ∧ l.Recalls l₁ :=
    ⟨(findSource?_gives name l hl).2.resolve_right fun ⟨_, hf, _⟩ => hf,
      Moves.moves (R := Recalls) l⟩
  refine comes_bind hfind ?_ ?_
  · rintro source? l₁ ⟨hsource, hrecalls⟩
    cases source? with
    | none =>
      have hnone := h l₁ hrecalls fun _ hsome => nomatch hsource.trans hsome
      rw [← hsource] at hnone
      exact hnone
    | some source =>
      have hreport := Moves.moves (R := Recalls) (x := report (.loading name source.origin)) l₁
      have hlog : (l.log ++ [Event.loading name source.origin]).Sublist
          (l₁.log ++ [Event.loading name source.origin]) := hrecalls.log.sublist.append_right _
      refine comes_bind (Q := fun o l₂ => o = .ok () ∧ l₁.Recalls l₂ ∧
        (l.log ++ [Event.loading name source.origin]).Sublist l₂.log) ⟨rfl, hreport, hlog⟩ ?_ ?_
      · rintro _ l₂ ⟨-, hrecalls', hlog⟩
        have hsome := h l₂ (hrecalls.trans hrecalls') fun _ hsome => by
          cases hsource.trans hsome
          exact hlog
        rw [← hsource] at hsome
        exact hsome
      · rintro f l₂ ⟨hf, -⟩
        cases hf
  · rintro f l₁ ⟨hsource, hrecalls⟩
    have herror := h l₁ hrecalls fun _ hsome => nomatch hsource.trans hsome
    rw [← hsource] at herror
    exact herror

/-- Where a search succeeds, a name that still has no type is declared nowhere. -/
theorem fetch_candid {name : String} {l : Library} (hl : Candid roots tree l) :
    Comes (fetch name) l fun o l' => Candid roots tree l' ∧
      (o = .ok () → l'.graph.get? name = none → Undeclared roots tree name) := by
  refine fetch_comes hl.based fun l₁ hrecalls _ => ?_
  have hl₁ := hrecalls.candid hl
  obtain hsource | ⟨source?, hsource⟩ :
      (∃ f, sourceIn roots tree name = .error f) ∨ ∃ s?, sourceIn roots tree name = .ok s? := by
    cases sourceIn roots tree name <;> simp
  · obtain ⟨f, hsource⟩ := hsource
    rw [hsource]
    exact ⟨hl₁, nofun⟩
  rw [hsource]
  obtain _ | ⟨fault | unit, origin⟩ := source?
  case inr.none => exact ⟨hl₁, fun _ _ => ⟨none, hsource, nofun⟩⟩
  case inr.some.error => exact ⟨hl₁, nofun⟩
  case inr.some.ok =>
    refine comes_mono (registerAll_comes (I := Candid roots tree) (R := fun _ _ => True)
      (fun d _ => describe_candid d _ _ _)
      (fun d _ t _ hname l' hl' => candid_takeIn hname hl') hl₁) ?_
    rintro o l' ⟨hl', -, hall⟩
    refine ⟨hl', fun ho hgone => ⟨some ⟨.ok unit, origin⟩, hsource, ?_⟩⟩
    rintro _ ⟨⟩
    refine ⟨unit, rfl, fun d hd hname => ?_⟩
    obtain ⟨-, hall⟩ | ⟨f, hf, -⟩ := hall
    · have hcontains := hall d hd
      rw [hname, TypeGraph.contains, hgone] at hcontains
      cases hcontains
    · cases ho.symm.trans hf

instance (name : String) : Moves (Leaves (Candid roots tree)) (load name) := by
  refine ⟨fun l hl => ?_⟩
  refine load_comes (P := fun _ l' => Candid roots tree l') (fun _ => hl) (fun _ _ => hl)
    (fun _ _ _ => hl) (fun _ _ _ => fetch_candid hl) (fun _ _ h _ => h.1) ?_ fun _ _ h => h.1
  rintro l' ⟨hl', hundeclared⟩ hgone
  refine ⟨basedOn_learned hl'.based l'.graph _, fun a ha => ?_⟩
  rcases List.mem_append.mp ha with ha | ha
  · exact hl'.missing a ha
  · obtain rfl := List.mem_singleton.mp ha
    exact ⟨by rw [miss, TypeGraph.contains, hgone]; rfl, hundeclared rfl hgone⟩

instance (e : Event) : Moves (Leaves (Candid roots tree)) (report e) :=
  Moves.mono (R := Recalls) inferInstance fun _ _ => Recalls.candid

instance (name : String) : Moves (Leaves (Candid roots tree)) (exists? name) :=
  Moves.mono (R := Recalls) inferInstance fun _ _ => Recalls.candid

theorem moves_registerUnits_candid (units : List (String × CompilationUnit)) :
    Moves (Leaves (Candid roots tree)) (registerUnits units) :=
  ⟨fun _ hl => (registerUnits_comes (R := fun _ _ => True)
    (fun _ _ d _ => describe_candid d _ _ _)
    (fun _ _ _ _ _ _ hname _ => candid_takeIn hname) hl).1⟩

/-! ## Answers in sessions -/

/-- A name that a library should know: its type is loaded, a given unit or the platform declares it,
it is listed, or a root has a file of its own for it. -/
def ShouldExist (given : List (String × CompilationUnit)) (roots : List Path) (tree : FileTree)
    (l : Library) (name : String) : Prop :=
  l.graph.contains name = true ∨ name ∈ namesOf given ∨ isPlatform name = true ∨
    isListed name = true ∨ ∃ root ∈ roots, hasIn tree (ownFile name) root = .ok true

/-- A name that no given unit and no unit of the platform declares, but that is listed or has a file
of its own, and that was looked for in vain. -/
def Overlooked (given : List (String × CompilationUnit)) (roots : List Path) (tree : FileTree)
    (l : Library) (name : String) : Prop :=
  name ∈ l.missing ∧ name ∉ namesOf given ∧ isPlatform name = false ∧
    (isListed name = true ∨ ∃ root ∈ roots, hasIn tree (ownFile name) root = .ok true)

/-- What a session leaves of a library that was made of some files. -/
theorem follow_candid {files : List (String × String)} {l : Library}
    (hmade : ofFiles roots tree files = .ok () l) (history : List Query) :
    let l' := ((Inspection.start l).follow history).types
    Candid roots tree l' ∧ l'.known = namesOf (readUnits files).1 := by
  let units := (readUnits files).1
  let start := ofUnits roots tree units
  have hcandid : Candid roots tree (stateAfter (registerUnits units start)) :=
    (moves_registerUnits_candid units).moves start (ofUnits_candid roots tree units)
  have hgrows : start.Grows (stateAfter (registerUnits units start)) := Steady.grows start
  change registerUnits units start = _ at hmade
  rw [hmade] at hcandid hgrows
  have hstocks := Walk.follow_moves (R := Stocks units roots tree) history
    (Inspection.start l)
  exact ⟨Walk.follow_moves (R := Leaves (Candid roots tree)) history (Inspection.start l) hcandid,
    hstocks.grows.known.trans hgrows.known⟩

theorem Candid.answer_iff {given : List (String × CompilationUnit)} {l : Library}
    (hl : Candid roots tree l) (hknown : l.known = namesOf given) {name : String} {found : Bool}
    (hfound : outcome (exists? name l) = .ok found) :
    (found = true ↔ ShouldExist given roots tree l name) ↔
      ¬ Overlooked given roots tree l name := by
  obtain ⟨hroots, htree, hsound⟩ := hl.based
  rw [exists?_outcome hsound, existsAt, hroots, htree] at hfound
  unfold ShouldExist Overlooked
  rw [← hknown]
  split at hfound
  · rename_i hmet
    obtain rfl := Except.ok.inj hfound
    simp only [Bool.or_eq_true, List.contains_iff_mem, or_assoc] at hmet
    -- A loaded name is not missing.
    have hloaded : l.graph.contains name = true → name ∉ l.missing := fun hcontains hmissing =>
      Bool.false_ne_true ((hl.missing name hmissing).1.symm.trans hcontains)
    rcases hmet with hmet | hmet | hmet
    · simp [hmet, hloaded hmet]
    · simp [hmet]
    · simp [hmet]
  · rename_i hunmet
    simp only [Bool.or_eq_true, List.contains_iff_mem, not_or, Bool.not_eq_true] at hunmet
    obtain ⟨⟨hgone, hunknown⟩, hplatform⟩ := hunmet
    split at hfound
    · rename_i hmissing
      obtain rfl := Except.ok.inj hfound
      simp [hgone, hunknown, hplatform, List.contains_iff_mem.mp hmissing]
    rename_i hmissing
    have hmissing : name ∉ l.missing := fun h => hmissing (List.contains_iff_mem.mpr h)
    split at hfound
    · rename_i hlisted
      obtain rfl := Except.ok.inj hfound
      simp [hlisted, hmissing]
    · rename_i hlisted
      cases found with
      | true => simp [hmissing, anyIn_true hfound]
      | false =>
        have hnone : ¬ ∃ root ∈ roots, hasIn tree (ownFile name) root = .ok true := by
          rintro ⟨root, hroot, hhas⟩
          cases hhas.symm.trans (anyIn_false hfound root hroot)
        simp [hgone, hunknown, hplatform, hlisted, hnone]

/-- Whenever a library answers, it knows a name if and only if it should, unless it has overlooked
the name: then it says that there is no such type. A name that was looked for in vain has no type in
the library, and another search for it would come to nothing. -/
theorem exists?_iff {files : List (String × String)} {l₀ : Library}
    (hmade : ofFiles roots tree files = .ok () l₀) (history : List Query) (name : String)
    {found : Bool} :
    let l := ((Inspection.start l₀).follow history).types
    outcome (exists? name l) = .ok found →
      ((found = true ↔ ShouldExist (readUnits files).1 roots tree l name) ↔
        ¬ Overlooked (readUnits files).1 roots tree l name) ∧
      (name ∈ l.missing → l.graph.contains name = false ∧ Undeclared roots tree name) := by
  intro l hfound
  obtain ⟨hcandid, hknown⟩ := follow_candid hmade history
  exact ⟨hcandid.answer_iff hknown hfound, fun h => hcandid.missing name h⟩

/-! ## A listed name that was looked for in vain -/

def emptyLibrary : Library :=
  ofUnits [] .empty []

def searched : Walk Library :=
  (Inspection.start emptyLibrary).follow [.about (.load "java.util.List")]

theorem emptyLibrary_made : ofFiles [] .empty [] = .ok () emptyLibrary :=
  rfl

theorem exists?_searched :
    outcome (exists? "java.util.List" searched.types) = .ok false ∧
      ((false = true ↔ ShouldExist [] [] .empty searched.types "java.util.List") ↔
        ¬ Overlooked [] [] .empty searched.types "java.util.List") :=
  have hfound : outcome (exists? "java.util.List" searched.types) = .ok false := by decide +kernel
  ⟨hfound, (exists?_iff emptyLibrary_made [.about (.load "java.util.List")] _ hfound).1⟩

/-- A name of the platform that was loaded in vain does not exist any more. -/
theorem not_exists?_iff : ¬ ∀ (files : List (String × String)) (roots : List Path) (tree : FileTree)
    (l₀ : Library), ofFiles roots tree files = .ok () l₀ → ∀ (history : List Query) (name : String)
    (found : Bool), outcome (exists? name ((Inspection.start l₀).follow history).types) = .ok found →
      (found = true ↔ ShouldExist (readUnits files).1 roots tree
        ((Inspection.start l₀).follow history).types name) := by
  intro h
  have hfound : outcome (exists? "java.util.List" searched.types) = .ok false := by decide +kernel
  have hlisted : isListed "java.util.List" = true := by decide +kernel
  exact Bool.false_ne_true
    ((h [] [] .empty _ emptyLibrary_made [.about (.load "java.util.List")] _ _ hfound).mpr
      (.inr (.inr (.inr (.inl hlisted)))))

end Library

end StubWriter
