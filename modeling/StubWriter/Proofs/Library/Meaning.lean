import Mathlib.Data.List.Nodup
import StubWriter.Library.Scope
import StubWriter.Proofs.Outcome
import StubWriter.Proofs.Path

/-!
# What names mean, given which names exist

The meaning of a name in a unit depends on the library in one way only: which of a few names exist.

* `Scope.foldl_addImport`: what the imports of a unit bring into its scope.
* `Scope.asks`: the names whose existence may decide what a simple name means. It means one of them,
  unless the unit binds it: `Scope.resolveSimple?_mem`.
* `Scope.meaning`: what a dotted name means, given which names exist. `Scope.resolveName_gives` says
  that this is what a library finds.
-/

namespace StubWriter

open Run

/-- The answer of a world to whether a name exists. -/
def Run.World.Answers (W : World Library) (ex : String → Bool) (name : String) : Prop :=
  W.Gives (Library.exists? name) (.ok (ex name))

/-- Reports make no difference to a world. -/
def Run.World.Quiet (W : World Library) : Prop :=
  ∀ l e, W.inv l → W.inv { l with log := l.log ++ [e] }

theorem Run.World.Quiet.report {W : World Library} (h : W.Quiet) (e : Event) :
    W.Gives (Library.report e) (.ok ()) :=
  World.gives_modify fun l => h l e

/-! ## The scope of a unit -/

namespace Import

/-- An import that binds one simple name to a type. -/
def isSingle (i : Import) : Bool :=
  !i.isStatic && !i.onDemand

/-- An import of all types of a package. -/
def isWide (i : Import) : Bool :=
  !i.isStatic && i.onDemand

def simpleName (i : Import) : String :=
  i.path.getLast?.getD ""

def fullName (i : Import) : String :=
  ".".intercalate i.path

end Import

namespace Scope

/-- Names with more names at the end, those that are new. -/
def addNew (names more : List String) : List String :=
  more.foldl (fun names a => if names.contains a then names else names ++ [a]) names

theorem mem_addNew {names more : List String} {a : String} :
    a ∈ addNew names more ↔ a ∈ names ∨ a ∈ more := by
  unfold addNew
  induction more generalizing names with
  | nil => simp
  | cons b bs ih =>
    rw [List.foldl_cons, ih, List.mem_cons]
    split
    · rename_i hb
      have hb : b ∈ names := List.contains_iff_mem.mp hb
      grind
    · simp [or_assoc]

theorem nodup_addNew {names more : List String} (h : names.Nodup) : (addNew names more).Nodup := by
  unfold addNew
  induction more generalizing names with
  | nil => exact h
  | cons b bs ih =>
    rw [List.foldl_cons]
    refine ih ?_
    split
    · exact h
    · rename_i hb
      rw [List.nodup_append_comm]
      exact List.nodup_cons.mpr ⟨fun hmem => hb (List.contains_iff_mem.mpr hmem), h⟩

theorem foldl_addImport (imports : List Import) (s : Scope) : imports.foldl addImport s =
    { s with
      singleImports := ((imports.filter Import.isSingle).map fun i =>
        (i.simpleName, i.fullName)).reverse ++ s.singleImports
      onDemand := addNew s.onDemand ((imports.filter Import.isWide).map Import.fullName) } := by
  induction imports generalizing s with
  | nil => rfl
  | cons i is ih =>
    rw [List.foldl_cons, ih]
    unfold addImport addNew Import.isSingle Import.isWide
    cases hstatic : i.isStatic <;> cases hdemand : i.onDemand
    case false.true =>
      simp [hstatic, hdemand, Import.fullName]
      split <;> simp
    all_goals simp [hstatic, hdemand, Import.simpleName, Import.fullName]

theorem localTypes_ofUnit (u : CompilationUnit) :
    (ofUnit u).localTypes = u.declared.map fun d => (d.decl.name, d.fullName) := by
  rw [ofUnit, foldl_addImport]

theorem typeVars_ofUnit (u : CompilationUnit) : (ofUnit u).typeVars = [] := by
  rw [ofUnit, foldl_addImport]

end Scope

/-! ## Meanings -/

namespace Scope

/-- Whether the unit itself binds a simple name, by a type that it declares or by an import. -/
def binds (s : Scope) (simple : String) : Bool :=
  (s.localTypes.lookup simple).isSome || (s.singleImports.lookup simple).isSome

/-- The names that may be asked for when a simple name is looked up. -/
def asks (s : Scope) (simple : String) : List String :=
  if s.binds simple then []
  else
    qualify s.package simple :: s.onDemand.map (· ++ "." ++ simple) ++ ["java.lang." ++ simple]

theorem asks_of_free {s : Scope} {simple : String} (h : s.binds simple = false) :
    s.asks simple = qualify s.package simple ::
      s.onDemand.map (· ++ "." ++ simple) ++ ["java.lang." ++ simple] := by
  unfold asks
  rw [h]
  rfl

/-- A name that is asked for ends like the simple name that is looked up. -/
theorem getLast?_asks {s : Scope} {simple a : String} (ha : a ∈ s.asks simple) :
    s.binds simple = false ∧
      (splitText '.' a).getLast? = (splitText '.' simple).getLast? := by
  have hdotted : ∀ package, (splitText '.' (package ++ "." ++ simple)).getLast? =
      (splitText '.' simple).getLast? := by
    intro package
    rw [splitText_append, List.getLast?_append_of_ne_nil _ (splitText_ne_nil '.' simple)]
  have hlang : "java.lang." ++ simple = "java.lang" ++ "." ++ simple := by
    rw [String.append_assoc]
    rfl
  unfold asks at ha
  split at ha
  · exact absurd ha List.not_mem_nil
  rename_i hbinds
  refine ⟨Bool.eq_false_iff.mpr hbinds, ?_⟩
  rcases List.mem_append.mp ha with ha | ha
  · rcases List.mem_cons.mp ha with rfl | ha
    · exact getLast?_qualify _ _
    · obtain ⟨package, -, rfl⟩ := List.mem_map.mp ha
      exact hdotted package
  · rw [List.mem_singleton.mp ha, hlang]
    exact hdotted _

theorem existing_ok (names : List String) (l : Library) :
    Ok (existing names) l fun found _ => found ⊆ names := by
  induction names generalizing l with
  | nil => exact ok_pure (List.Subset.refl _)
  | cons name rest ih =>
    refine ok_bind (ok_self _ _) fun found l₁ _ => ?_
    refine ok_bind (ih l₁) fun others l₂ hothers => ok_pure ?_
    cases found with
    | true => exact List.cons_subset_cons _ hothers
    | false => exact fun n hn => List.mem_cons_of_mem _ (hothers hn)

/-- What a simple name comes to is bound in the unit, or it was asked for. -/
theorem resolveSimple?_mem (s : Scope) (simple : String) (l : Library) :
    Ok (s.resolveSimple? simple) l fun name? _ => ∀ a, name? = some a →
      s.localTypes.lookup simple = some a ∨ s.singleImports.lookup simple = some a ∨
        a ∈ s.asks simple := by
  unfold resolveSimple?
  cases hlocal : s.localTypes.lookup simple with
  | some name => exact ok_pure fun a ha => .inl ha
  | none =>
  cases himport : s.singleImports.lookup simple with
  | some name => exact ok_pure fun a ha => .inr (.inl ha)
  | none =>
  have hasks : s.asks simple = _ := asks_of_free (by simp [binds, hlocal, himport])
  have hasked : ∀ a ∈ s.asks simple, ∀ l, Ok (pure (some a) : Lookup (Option String)) l
      fun name? _ => ∀ a, name? = some a → none = some a ∨ none = some a ∨ a ∈ s.asks simple :=
    fun a ha l => ok_pure fun b hb => .inr (.inr (Option.some.inj hb ▸ ha))
  refine ok_bind (ok_self _ _) fun found l₁ _ => ?_
  cases found with
  | true => exact hasked _ (by simp [hasks]) l₁
  | false =>
  refine ok_bind (existing_ok _ l₁) fun names l₂ hnames => ?_
  rcases names with _ | ⟨n, _ | ⟨other, more⟩⟩
  case cons.nil =>
    refine hasked n ?_ l₂
    rw [hasks]
    exact List.mem_cons_of_mem _ (List.mem_append_left _ (hnames List.mem_cons_self))
  case cons.cons => exact ok_throw _
  have hlang : "java.lang." ++ simple ∈ s.asks simple := by simp [hasks]
  cases Platform.langNames.contains simple with
  | true => exact hasked _ hlang l₂
  | false =>
    refine ok_bind (ok_self _ _) fun found l₃ _ => ?_
    cases found with
    | true => exact hasked _ hlang l₃
    | false =>
      refine ok_pure fun a ha => ?_
      cases ha

/-- What a simple name means, if the unit or the names that exist tell. -/
def simpleMeaning (ex : String → Bool) (s : Scope) (simple : String) :
    Except Failure (Option String) :=
  match s.localTypes.lookup simple with
  | some name => .ok (some name)
  | none =>
  match s.singleImports.lookup simple with
  | some name => .ok (some name)
  | none =>
  if ex (qualify s.package simple) then .ok (some (qualify s.package simple))
  else
    match (s.onDemand.map (· ++ "." ++ simple)).filter ex with
    | [name] => .ok (some name)
    | a :: b :: more => .error (.ambiguousName simple (a :: b :: more))
    | [] =>
      if Platform.langNames.contains simple || ex ("java.lang." ++ simple) then
        .ok (some ("java.lang." ++ simple))
      else .ok none

/-- The name that is taken when nothing tells what a simple name means. -/
def guess (s : Scope) (simple : String) : Except Failure String :=
  let guesses := s.onDemand.filter fun package => !Platform.isListed package
  if 1 < guesses.length then .error (.severalGuesses simple guesses)
  else .ok (qualify (guesses.headD s.package) simple)

/-- What a dotted name means. -/
def meaning (ex : String → Bool) (s : Scope) (segments : List String) : Except Failure String :=
  match s.simpleMeaning ex (segments.headD "") with
  | .error f => .error f
  | .ok (some base) => .ok (".".intercalate (base :: segments.tail))
  | .ok none =>
    if !segments.tail.isEmpty then .ok (".".intercalate segments)
    else s.guess (segments.headD "")

/-- The meaning of a name depends on no other names than those that are asked for. -/
theorem meaning_congr {ex ex' : String → Bool} {s : Scope} {segments : List String}
    (h : ∀ a ∈ s.asks (segments.headD ""), ex a = ex' a) :
    s.meaning ex segments = s.meaning ex' segments := by
  have hsimple : ∀ simple, (∀ a ∈ s.asks simple, ex a = ex' a) →
      s.simpleMeaning ex simple = s.simpleMeaning ex' simple := by
    intro simple h
    unfold simpleMeaning
    cases hlocal : s.localTypes.lookup simple with
    | some name => rfl
    | none =>
    cases himport : s.singleImports.lookup simple with
    | some name => rfl
    | none =>
    rw [asks_of_free (by simp [binds, hlocal, himport])] at h
    have hpackage := h _ List.mem_cons_self
    have hlang := h ("java.lang." ++ simple) (by simp)
    have hdemand : (s.onDemand.map (· ++ "." ++ simple)).filter ex =
        (s.onDemand.map (· ++ "." ++ simple)).filter ex' :=
      List.filter_congr fun a ha => h a (List.mem_cons_of_mem _ (List.mem_append_left _ ha))
    rw [hpackage, hlang, hdemand]
  unfold meaning
  rw [hsimple _ h]

variable {W : World Library} {ex : String → Bool} {s : Scope}

theorem existing_gives {names : List String} (h : ∀ a ∈ names, W.Answers ex a) :
    W.Gives (existing names) (.ok (names.filter ex)) := by
  induction names with
  | nil => exact World.gives_pure
  | cons a as ih =>
    unfold existing
    refine World.gives_bind (h a List.mem_cons_self) ?_
    refine World.gives_bind (ih fun b hb => h b (List.mem_cons_of_mem _ hb)) ?_
    rw [List.filter_cons]
    cases ex a <;> exact World.gives_pure

theorem resolveSimple?_gives {simple : String} (h : ∀ a ∈ s.asks simple, W.Answers ex a) :
    W.Gives (s.resolveSimple? simple) (s.simpleMeaning ex simple) := by
  unfold resolveSimple? simpleMeaning
  cases hlocal : s.localTypes.lookup simple with
  | some name => exact World.gives_pure
  | none =>
  cases himport : s.singleImports.lookup simple with
  | some name => exact World.gives_pure
  | none =>
  rw [asks_of_free (by simp [binds, hlocal, himport])] at h
  have hpackage := h _ List.mem_cons_self
  have hdemand : ∀ a ∈ s.onDemand.map (· ++ "." ++ simple), W.Answers ex a :=
    fun a ha => h a (List.mem_cons_of_mem _ (List.mem_append_left _ ha))
  have hlang := h ("java.lang." ++ simple) (by simp)
  refine World.gives_bind hpackage ?_
  cases ex (qualify s.package simple) with
  | true => exact World.gives_pure
  | false =>
  refine World.gives_bind (existing_gives hdemand) ?_
  match (s.onDemand.map (· ++ "." ++ simple)).filter ex with
  | [name] => exact World.gives_pure
  | a :: b :: more => exact World.gives_throw
  | [] =>
  cases Platform.langNames.contains simple with
  | true =>
    simp only [if_true, Bool.true_or]
    exact World.gives_pure
  | false =>
    simp only [Bool.false_eq_true, if_false, Bool.false_or]
    refine World.gives_bind hlang ?_
    cases ex ("java.lang." ++ simple) <;> exact World.gives_pure

theorem guess_gives (hW : W.Quiet) (simple : String) :
    W.Gives (do
      let guesses := s.onDemand.filter fun package => !Platform.isListed package
      if 1 < guesses.length then throw (.severalGuesses simple guesses)
      let full := qualify (guesses.headD s.package) simple
      Library.report (.assumed simple full)
      return full) (s.guess simple) := by
  unfold guess
  dsimp only
  split
  · exact World.gives_throw
  · exact World.gives_bind (hW.report _) World.gives_pure

/-- A library finds what a name means as soon as it answers the questions that the name raises. -/
theorem resolveName_gives (hW : W.Quiet) {segments : List String}
    (h : ∀ a ∈ s.asks (segments.headD ""), W.Answers ex a) :
    W.Gives (s.resolveName segments) (s.meaning ex segments) := by
  have hsimple := resolveSimple?_gives h
  unfold resolveName meaning
  cases hm : s.simpleMeaning ex (segments.headD "") with
  | error f =>
    rw [hm] at hsimple
    exact World.gives_bind_error hsimple
  | ok base? =>
    rw [hm] at hsimple
    refine World.gives_bind hsimple ?_
    cases base? with
    | some base => exact World.gives_pure
    | none =>
      dsimp only
      split
      · exact World.gives_pure
      · exact guess_gives hW _

/-- Without imports on demand, there is always a meaning. -/
theorem meaning_ok (ex : String → Bool) (hdemand : s.onDemand = []) (segments : List String) :
    ∃ name, s.meaning ex segments = .ok name := by
  have hguess : ∀ simple, ∃ name, s.guess simple = .ok name := by
    intro simple
    simp [guess, hdemand]
  have hsimple : ∀ simple, ∃ name?, s.simpleMeaning ex simple = .ok name? := by
    intro simple
    unfold simpleMeaning
    rw [hdemand]
    split
    · exact ⟨_, rfl⟩
    split
    · exact ⟨_, rfl⟩
    split
    · exact ⟨_, rfl⟩
    simp only [List.map_nil, List.filter_nil]
    split <;> exact ⟨_, rfl⟩
  obtain ⟨name?, hname⟩ := hsimple (segments.headD "")
  unfold meaning
  rw [hname]
  cases name? with
  | some name => exact ⟨_, rfl⟩
  | none =>
    dsimp only
    split
    · exact ⟨_, rfl⟩
    · exact hguess _

/-- Without imports on demand, a name is always found to mean something, even where the answers to
its questions change. -/
theorem resolveName_succeeds (hW : W.Quiet) (hdemand : s.onDemand = []) {segments : List String}
    (h : ∀ a ∈ s.asks (segments.headD ""), W.Succeeds (Library.exists? a)) :
    W.Succeeds (s.resolveName segments) := by
  have hC := succeeds_compositional W
  have hsimple : W.Succeeds (s.resolveSimple? (segments.headD "")) := by
    generalize segments.headD "" = simple at h
    unfold resolveSimple?
    cases hlocal : s.localTypes.lookup simple with
    | some name => exact hC.pure _
    | none =>
    cases himport : s.singleImports.lookup simple with
    | some name => exact hC.pure _
    | none =>
    rw [asks_of_free (by simp [binds, hlocal, himport])] at h
    refine hC.bind (h _ List.mem_cons_self) fun found => ?_
    cases found with
    | true => exact hC.pure _
    | false =>
      rw [hdemand]
      have hnone : W.Gives (existing []) (.ok []) := World.gives_pure
      refine World.ends_bind_of_gives hnone ?_ fun f hf => .inr ⟨f, hf, rfl⟩
      dsimp only
      split
      · exact hC.pure _
      · refine hC.bind (h _ (by simp)) fun found => ?_
        cases found <;> exact hC.pure _
  unfold resolveName
  refine hC.bind hsimple fun base? => ?_
  cases base? with
  | some base => exact hC.pure _
  | none =>
    dsimp only
    split
    · exact hC.pure _
    · have hguess := guess_gives (s := s) hW (segments.headD "")
      rw [guess, hdemand] at hguess
      rw [hdemand]
      exact hguess.succeeds

/-- A simple name of the package itself that nothing else competes for: it means the same whether or
not it exists. -/
theorem resolveName_own (hW : W.Quiet) {simple : String} (hbinds : s.binds simple = false)
    (hdemand : s.onDemand = []) (hlang : Platform.langNames.contains simple = false)
    (hown : Ends W.inv (Library.exists? (qualify s.package simple)) fun o => ∃ b, o = .ok b)
    (hother : W.Answers (fun _ => false) ("java.lang." ++ simple)) :
    W.Gives (s.resolveName [simple]) (.ok (qualify s.package simple)) := by
  obtain ⟨hlocal, himport⟩ : s.localTypes.lookup simple = none ∧
      s.singleImports.lookup simple = none := by
    simpa [binds] using hbinds
  have hsimple : Ends W.inv (s.resolveSimple? simple) fun o =>
      W.Near (.ok (some (qualify s.package simple))) o ∨ W.Near (.ok none) o := by
    unfold resolveSimple?
    rw [hlocal, himport, hdemand]
    refine ends_bind hown (fun b _ => ?_) fun e ⟨b, he⟩ => nomatch he
    cases b with
    | true => exact ends_pure (.inl (.inl rfl))
    | false =>
      simp only [Bool.false_eq_true, if_false, List.map_nil]
      have hrest : W.Gives (do
          match ← existing [] with
          | [name] => return some name
          | a :: b :: more => throw (.ambiguousName simple (a :: b :: more))
          | [] =>
            let lang := "java.lang." ++ simple
            if Platform.langNames.contains simple then return some lang
            else if ← Library.exists? lang then return some lang
            else return none) (.ok none) := by
        refine World.gives_bind World.gives_pure ?_
        simp only [hlang, Bool.false_eq_true, if_false]
        exact World.gives_bind hother World.gives_pure
      exact ends_mono hrest fun _ => .inr
  unfold resolveName
  refine ends_bind hsimple (fun base? hbase => ?_) fun e he => ?_
  · cases base? with
    | some base =>
      rcases hbase with (hbase | ⟨f, -, hbase⟩) | (hbase | ⟨f, -, hbase⟩)
      · cases hbase
        exact World.gives_pure
      all_goals cases hbase
    | none =>
      have hguess := guess_gives (s := s) hW simple
      rw [guess, hdemand] at hguess
      rw [hdemand]
      exact hguess
  · rcases he with (he | ⟨f, hf, he⟩) | (he | ⟨f, hf, he⟩)
    · cases he
    · cases he
      exact .inr ⟨e, hf, rfl⟩
    · cases he
    · cases he
      exact .inr ⟨e, hf, rfl⟩

end Scope

end StubWriter
