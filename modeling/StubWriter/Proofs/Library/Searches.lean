import StubWriter.Proofs.Disk
import StubWriter.Proofs.Library.Ancestry
import StubWriter.Proofs.Library.Existence
import StubWriter.Proofs.Supertypes

/-!
# What a search for supertypes leaves

Before two types are compared, all supertypes of one of them are loaded. The search looks up each
name once, and goes on with the supertypes of the type that it finds. A name that is not found counts
as looked up as well, though a unit that is read later in the search may declare it; and a type that
is found may be replaced by the type of such a unit. Then the search has not seen all that stands in
the library when it is over.

* `Looked`: the names that a search looks up, and the types that it finds.
* `Looked.covers`: supertypes of what was found were looked up.
* `Looked.again`: where all that was looked up lasts, another search changes nothing.
* `isAssignable_settles`: both for a comparison in a session.
-/

namespace StubWriter

open Run Relation

namespace Library

/-- A run of a search from a library to another one. A name is passed over if it is in `seen` or if
searches end at it; any other one is looked up, and noted with the type that is found. -/
inductive Looked (name : String) : List String → List String → Library →
    List (String × Option TypeInfo) → Library → Prop
  | done {seen : List String} {l : Library} : Looked name seen [] l [] l
  | pass {seen pending : List String} {current : String} {l l' : Library}
      {met : List (String × Option TypeInfo)} (hskip : current ∈ seen ∨ EndsAt current)
      (hrest : Looked name seen pending l met l') : Looked name seen (current :: pending) l met l'
  | found {seen pending : List String} {current : String} {l l₁ l' : Library} {t : TypeInfo}
      {met : List (String × Option TypeInfo)} (hvisit : ¬ (current ∈ seen ∨ EndsAt current))
      (hload : load current l = .ok t l₁)
      (hrest : Looked name (current :: seen) (t.supertypes.reverse ++ pending) l₁ met l') :
      Looked name seen (current :: pending) l ((current, some t) :: met) l'
  | lost {seen pending : List String} {current : String} {l l₁ l' : Library} {f : Failure}
      {met : List (String × Option TypeInfo)} (hvisit : ¬ (current ∈ seen ∨ EndsAt current))
      (hload : load current l = .error f l₁) (hf : f.isNotFound = true)
      (hrest : Looked name (current :: seen) pending
        { l₁ with log := l₁.log ++ [.ancestryEnds name current] } met l') :
      Looked name seen (current :: pending) l ((current, none) :: met) l'

variable {name : String} {seen pending : List String} {l l' : Library}
  {met : List (String × Option TypeInfo)}

theorem skips_iff (seen : List String) (current : String) :
    (seen.contains current || isPrimitiveName current || current == objectName) = true ↔
      current ∈ seen ∨ EndsAt current := by
  simp only [Bool.or_eq_true, List.contains_iff_mem, beq_iff_eq, EndsAt]
  tauto

/-- A search that succeeds looks up no more names than it may. -/
theorem loadAll_looked {fuel : Nat} (h : loadAll name fuel seen pending l = .ok () l') :
    ∃ met, Looked name seen pending l met l' ∧ met.length ≤ fuel := by
  induction fuel, seen, pending using loadAll.induct generalizing l with
  | case1 fuel seen =>
    unfold loadAll at h
    cases h
    exact ⟨[], .done, Nat.zero_le _⟩
  | case2 fuel seen current pending hskip ih =>
    rw [loadAll.eq_def] at h
    dsimp only at h
    rw [if_pos hskip] at h
    obtain ⟨met, hrest, hlength⟩ := ih h
    exact ⟨met, .pass ((skips_iff seen current).mp hskip) hrest, hlength⟩
  | case3 seen current pending hvisit =>
    rw [loadAll.eq_def] at h
    dsimp only at h
    rw [if_neg hvisit] at h
    cases h
  | case4 seen current pending hvisit fuel ihsome ihnone =>
    have hnew := fun hskip => hvisit ((skips_iff seen current).mpr hskip)
    rw [loadAll, if_neg hvisit] at h
    change EStateM.bind (loadIfFound current) _ l = _ at h
    unfold EStateM.bind at h
    rw [loadIfFound_eq] at h
    cases hload : load current l with
    | ok t l₁ =>
      rw [hload] at h
      obtain ⟨met, hrest, hlength⟩ := ihsome t h
      exact ⟨_, .found hnew hload hrest, Nat.succ_le_succ hlength⟩
    | error f l₁ =>
      rw [hload] at h
      dsimp only at h
      cases hf : f.isNotFound with
      | true =>
        rw [hf, if_pos rfl] at h
        obtain ⟨met, hrest, hlength⟩ := ihnone h
        exact ⟨_, .lost hnew hload hf hrest, Nat.succ_le_succ hlength⟩
      | false =>
        rw [hf, if_neg Bool.false_ne_true] at h
        cases h

theorem Looked.run (h : Looked name seen pending l met l') {fuel : Nat}
    (hfuel : met.length ≤ fuel) : loadAll name fuel seen pending l = .ok () l' := by
  induction h generalizing fuel with
  | done =>
    unfold loadAll
    rfl
  | pass hskip _ ih =>
    rw [loadAll.eq_def]
    dsimp only
    rw [if_pos ((skips_iff _ _).mpr hskip)]
    exact ih hfuel
  | found hvisit hload _ ih =>
    obtain ⟨fuel, rfl⟩ := Nat.exists_eq_add_one.mpr (Nat.lt_of_lt_of_le (Nat.zero_lt_succ _) hfuel)
    rw [loadAll, if_neg fun h => hvisit ((skips_iff _ _).mp h)]
    change EStateM.bind (loadIfFound _) _ _ = _
    unfold EStateM.bind
    rw [loadIfFound_eq, hload]
    exact ih (Nat.le_of_succ_le_succ hfuel)
  | lost hvisit hload hf _ ih =>
    obtain ⟨fuel, rfl⟩ := Nat.exists_eq_add_one.mpr (Nat.lt_of_lt_of_le (Nat.zero_lt_succ _) hfuel)
    rw [loadAll, if_neg fun h => hvisit ((skips_iff _ _).mp h)]
    change EStateM.bind (loadIfFound _) _ _ = _
    unfold EStateM.bind
    rw [loadIfFound_eq, hload]
    dsimp only
    rw [hf, if_pos rfl]
    exact ih (Nat.le_of_succ_le_succ hfuel)

/-- What a search looks up is determined by where it starts. -/
theorem Looked.unique {l'' : Library} {met' : List (String × Option TypeInfo)}
    (h : Looked name seen pending l met l') (h' : Looked name seen pending l met' l'') :
    met' = met ∧ l'' = l' := by
  induction h generalizing met' with
  | done =>
    cases h'
    exact ⟨rfl, rfl⟩
  | pass hskip _ ih =>
    cases h' with
    | pass _ hrest => exact ih hrest
    | found hvisit => exact absurd hskip hvisit
    | lost hvisit => exact absurd hskip hvisit
  | found hvisit hload _ ih =>
    cases h' with
    | pass hskip => exact absurd hskip hvisit
    | found _ hload' hrest =>
      cases hload.symm.trans hload'
      exact (ih hrest).imp_left (congrArg _)
    | lost _ hload' => cases hload.symm.trans hload'
  | lost hvisit hload _ _ ih =>
    cases h' with
    | pass hskip => exact absurd hskip hvisit
    | found _ hload' => cases hload.symm.trans hload'
    | lost _ hload' _ hrest =>
      cases hload.symm.trans hload'
      exact (ih hrest).imp_left (congrArg _)

/-! ## What was looked up -/

/-- A name at which searches end, or that was looked up. -/
def Met (seen : List String) (met : List (String × Option TypeInfo)) (a : String) : Prop :=
  EndsAt a ∨ a ∈ seen ∨ a ∈ met.map Prod.fst

/-- All that was pending was looked up, and so were the supertypes of what was found. -/
structure Covers (seen pending : List String) (met : List (String × Option TypeInfo)) : Prop where
  pending : ∀ a ∈ pending, Met seen met a
  supertypes : ∀ a t, (a, some t) ∈ met → ∀ b ∈ t.supertypes, Met seen met b

theorem Met.cons {current : String} {t? : Option TypeInfo} {a : String}
    (h : Met (current :: seen) met a) : Met seen ((current, t?) :: met) a := by
  unfold Met at *
  rw [List.map_cons, List.mem_cons]
  rw [List.mem_cons] at h
  tauto

theorem Looked.covers (h : Looked name seen pending l met l') : Covers seen pending met := by
  induction h with
  | done => exact ⟨fun a ha => absurd ha List.not_mem_nil, fun _ _ h => absurd h List.not_mem_nil⟩
  | pass hskip _ ih =>
    refine ⟨List.forall_mem_cons.mpr ⟨?_, ih.pending⟩, ih.supertypes⟩
    exact hskip.elim (fun h => .inr (.inl h)) .inl
  | found _ _ _ ih =>
    obtain ⟨hsupers, hpending⟩ := List.forall_mem_append.mp ih.pending
    refine ⟨List.forall_mem_cons.mpr ⟨.inr (.inr List.mem_cons_self), fun a ha => ?_⟩,
      fun a t h b hb => Met.cons ?_⟩
    · exact (hpending a ha).cons
    · rcases List.mem_cons.mp h with h | h
      · cases h
        exact hsupers b (List.mem_reverse.mpr hb)
      · exact ih.supertypes a t h b hb
  | lost _ _ _ _ ih =>
    refine ⟨List.forall_mem_cons.mpr ⟨.inr (.inr List.mem_cons_self), fun a ha => ?_⟩,
      fun a t h b hb => Met.cons ?_⟩
    · exact (ih.pending a ha).cons
    · rcases List.mem_cons.mp h with h | h
      · cases h
      · exact ih.supertypes a t h b hb

/-! ## What lasts -/

/-- What was looked up is still so: a type with the supertypes of the one that was found stands in
the library, and a name that was not found is missing. -/
def Lasts (l : Library) : String × Option TypeInfo → Prop
  | (a, some t) => ∃ t', l.graph.get? a = some t' ∧ t'.supertypes = t.supertypes
  | (a, none) => a ∈ l.missing

/-- A library that takes no loaded type for missing. -/
def Parted (l : Library) : Prop :=
  ∀ a ∈ l.missing, l.graph.get? a = none

theorem load_missing {a : String} (hprimitive : isPrimitiveName a = false) (hl : l.Parted)
    (ha : a ∈ l.missing) : load a l = .error (.typeNotFound a) l := by
  have hload : Comes (load a) l fun o l' => o = .error (.typeNotFound a) ∧ l' = l := by
    refine load_comes (Q := fun _ _ => False) (fun h => ?_) (fun t ht => ?_)
      (fun _ _ _ => ⟨rfl, rfl⟩) (fun _ _ h => absurd ha h) (fun _ _ => False.elim)
      (fun _ => False.elim) fun _ _ => False.elim
    · cases hprimitive.symm.trans h
    · cases (hl a ha).symm.trans ht
  have hrun := eq_error_of_outcome hload.1
  rwa [hload.2] at hrun

/-- Where all that a search has looked up lasts, another one looks up the same names and only
reports what it does not find. -/
theorem Looked.again (h : Looked name seen pending l met l') {m : Library} (hm : m.Parted)
    (hlasts : ∀ p ∈ met, m.Lasts p) :
    ∃ met' log, Looked name seen pending m met' { m with log } ∧ met'.length = met.length := by
  induction h generalizing m with
  | done => exact ⟨[], m.log, .done, rfl⟩
  | pass hskip _ ih =>
    obtain ⟨met', log, hagain, hlength⟩ := ih hm hlasts
    exact ⟨met', log, .pass hskip hagain, hlength⟩
  | found hvisit _ _ ih =>
    obtain ⟨⟨t', ht', hsupers⟩, hrest⟩ := List.forall_mem_cons.mp hlasts
    obtain ⟨met', log, hagain, hlength⟩ := ih hm hrest
    have hprimitive := Bool.eq_false_iff.mpr fun h => hvisit (.inr (.inr h))
    exact ⟨_, log, .found hvisit (load_held hprimitive ht') (hsupers ▸ hagain),
      congrArg Nat.succ hlength⟩
  | @lost _ _ current _ _ _ _ _ hvisit _ _ _ ih =>
    obtain ⟨hmissing, hrest⟩ := List.forall_mem_cons.mp hlasts
    let told : Library := { m with log := m.log ++ [.ancestryEnds name current] }
    obtain ⟨met', log, hagain, hlength⟩ := ih (m := told) hm hrest
    have hprimitive := Bool.eq_false_iff.mpr fun h => hvisit (.inr (.inr h))
    exact ⟨_, log, .lost hvisit (load_missing hprimitive hm hmissing) rfl hagain,
      congrArg Nat.succ hlength⟩

/-- The step from a loaded type, at which searches do not end, to a supertype of it. -/
def Rises (l : Library) (a b : String) : Prop :=
  ¬ EndsAt a ∧ l.graph.Extends a b

/-- Where all that a search has looked up lasts, it has looked up all that the loaded types lead
to. -/
theorem Looked.reaches {start : String} (h : Looked name [] [start] l met l') (hl' : l'.Parted)
    (hlasts : ∀ p ∈ met, l'.Lasts p) {a : String} (ha : ReflTransGen l'.Rises start a) :
    Met [] met a := by
  have hcovers := h.covers
  induction ha with
  | refl => exact hcovers.pending start List.mem_cons_self
  | tail _ hstep ih =>
    obtain ⟨hup, t, ht, hb⟩ := hstep
    obtain ⟨⟨c, t?⟩, hmem, rfl⟩ : ∃ p ∈ met, p.1 = _ :=
      List.mem_map.mp ((ih.resolve_left hup).resolve_left List.not_mem_nil)
    cases t? with
    | none => cases (hl' c (hlasts _ hmem)).symm.trans ht
    | some t₀ =>
      obtain ⟨t', ht', hsupers⟩ := hlasts _ hmem
      obtain rfl := Option.some.inj (ht'.symm.trans ht)
      exact hcovers.supertypes c t₀ hmem _ (hsupers ▸ hb)

/-! ## Comparisons in sessions -/

theorem isAssignable_eq (target source : String) (l : Library) :
    isAssignable target source l = match loadAll source l.extent [] [elementName source] l with
      | .ok _ l' => .ok (l'.graph.isAssignable target source) l'
      | .error f l' => .error f l' := by
  change EStateM.bind (loadAll source l.extent [] [elementName source]) _ l = _
  unfold EStateM.bind
  cases loadAll source l.extent [] [elementName source] l <;> rfl

/-- What a comparison in a session has looked up. If all of it lasts until the comparison is over,
every type that the loaded supertypes lead to is loaded or not to be found, unless searches end at
it, and the same comparison has the same result once more. -/
theorem isAssignable_settles {files : List (String × String)} {roots : List Path} {tree : FileTree}
    {l₀ : Library} (hmade : ofFiles roots tree files = .ok () l₀) (history : List Query)
    {target source : String} {b : Bool} {l' : Library} :
    let l := ((Inspection.start l₀).follow history).types
    isAssignable target source l = .ok b l' →
      ∃ met, Looked source [] [elementName source] l met l' ∧ ((∀ p ∈ met, l'.Lasts p) →
        (∀ a, ReflTransGen l'.Rises (elementName source) a →
          a = objectName ∨ isPrimitiveName a = true ∨ l'.graph.contains a = true ∨
            load a l' = .error (.typeNotFound a) l') ∧
        outcome (isAssignable target source l') = .ok b) := by
  intro l hrun
  obtain ⟨hsearch, hb⟩ : loadAll source l.extent [] [elementName source] l = .ok () l' ∧
      b = l'.graph.isAssignable target source := by
    rw [isAssignable_eq] at hrun
    cases hsearch : loadAll source l.extent [] [elementName source] l with
    | error f l₁ =>
      rw [hsearch] at hrun
      cases hrun
    | ok _ l₁ =>
      rw [hsearch] at hrun
      cases hrun
      exact ⟨rfl, rfl⟩
  obtain ⟨met, hlooked, hlength⟩ := loadAll_looked hsearch
  refine ⟨met, hlooked, fun hlasts => ?_⟩
  have hcandid : Candid roots tree l' := by
    have hmoves := Moves.moves (R := Leaves (Candid roots tree)) (x := isAssignable target source) l
      (follow_candid hmade history).1
    rwa [hrun] at hmoves
  have hparted : l'.Parted := by
    intro a ha
    simpa [TypeGraph.contains] using (hcandid.missing a ha).1
  refine ⟨fun a ha => ?_, ?_⟩
  · by_cases hends : EndsAt a
    · exact hends.imp_right .inl
    have hmet := (hlooked.reaches hparted hlasts ha).resolve_left hends
    obtain ⟨⟨c, t?⟩, hmem, rfl⟩ := List.mem_map.mp (hmet.resolve_left List.not_mem_nil)
    refine .inr (.inr ?_)
    cases t? with
    | some t =>
      obtain ⟨t', ht', -⟩ := hlasts _ hmem
      exact .inl (by rw [TypeGraph.contains, ht']; rfl)
    | none =>
      have hprimitive : isPrimitiveName c = false := Bool.eq_false_iff.mpr fun h => hends (.inr h)
      exact .inr (load_missing hprimitive hparted (hlasts _ hmem))
  · have hextent : l'.extent = l.extent := by
      have hgrows := Moves.moves (R := Grows) (x := isAssignable target source) l
      rw [hrun] at hgrows
      exact hgrows.extent
    obtain ⟨met', log, hagain, hlength'⟩ := hlooked.again hparted hlasts
    have hrun' := hagain.run (hlength'.trans_le hlength)
    rw [isAssignable_eq, hextent, hrun', hb]
    rfl

theorem load_found {a : String} {above : List String}
    (h : (outcome (load a l)).map TypeInfo.supertypes = .ok above) :
    ∃ t, load a l = .ok t (stateAfter (load a l)) ∧ t.supertypes = above := by
  cases hrun : load a l with
  | ok t l₁ =>
    rw [hrun] at h
    exact ⟨t, rfl, Except.ok.inj h⟩
  | error f l₁ =>
    rw [hrun] at h
    cases h

def runnable : Library :=
  stateAfter (load "java.lang.Runnable" emptyLibrary)

theorem runnable_facts :
    (outcome (load "java.lang.Runnable" emptyLibrary)).map TypeInfo.supertypes = .ok [] ∧
      0 < emptyLibrary.extent ∧ elementName "java.lang.Runnable" = "java.lang.Runnable" := by
  decide +kernel

/-- An interface of the platform that has no supertypes. -/
theorem isAssignable_settles_runnable :
    isAssignable "java.io.Closeable" "java.lang.Runnable" emptyLibrary =
        .ok (runnable.graph.isAssignable "java.io.Closeable" "java.lang.Runnable") runnable ∧
      outcome (isAssignable "java.io.Closeable" "java.lang.Runnable" runnable) =
        .ok (runnable.graph.isAssignable "java.io.Closeable" "java.lang.Runnable") := by
  obtain ⟨hsupers, hextent, helement⟩ := runnable_facts
  obtain ⟨t, hload, hsupers⟩ := load_found hsupers
  have hlooked : Looked "java.lang.Runnable" [] ["java.lang.Runnable"] emptyLibrary
      [("java.lang.Runnable", some t)] runnable :=
    .found (by decide) hload (by rw [hsupers]; exact .done)
  have hfirst : isAssignable "java.io.Closeable" "java.lang.Runnable" emptyLibrary =
      .ok (runnable.graph.isAssignable "java.io.Closeable" "java.lang.Runnable") runnable := by
    rw [isAssignable_eq, helement, hlooked.run hextent]
  obtain ⟨met, hmet, hsettles⟩ := isAssignable_settles emptyLibrary_made [] hfirst
  refine ⟨hfirst, (hsettles ?_).2⟩
  rw [helement] at hmet
  obtain ⟨rfl, -⟩ := hlooked.unique hmet
  exact List.forall_mem_singleton.mpr ⟨t, load_ok _ _ _ _ hload (by decide), rfl⟩

/-! ## A type that comes with another one -/

/-- A class that extends `A` and implements `B`, which is declared along with `A` and extends `C`. -/
def crossing : FileTree :=
  .ofTexts [(["s", "p", "X.java"], "package p; public class X extends A implements B { }"),
    (["s", "p", "A.java"], "package p; public class A { } interface B extends C { }"),
    (["s", "p", "C.java"], "package p; public interface C { }")]

def crossingLibrary : Library :=
  ofUnits [⟨0, ["s"]⟩] crossing []

theorem crossing_made : ofFiles [⟨0, ["s"]⟩] crossing [] = .ok () crossingLibrary :=
  rfl

/-- The library after the class was found, -/
def crossingClass : Library :=
  stateAfter (load "p.X" crossingLibrary)

/-- after its interface was not found, -/
def crossingInterface : Library :=
  let l := stateAfter (load "p.B" crossingClass)
  { l with log := l.log ++ [.ancestryEnds "p.X" "p.B"] }

/-- and after its superclass was found. -/
def crossed : Library :=
  stateAfter (load "p.A" crossingInterface)

theorem crossing_facts :
    (outcome (load "p.X" crossingLibrary)).map TypeInfo.supertypes = .ok ["p.A", "p.B"] ∧
    outcome (load "p.B" crossingClass) = .error (.typeNotFound "p.B") ∧
    (outcome (load "p.A" crossingInterface)).map TypeInfo.supertypes = .ok [objectName] ∧
    3 ≤ crossingLibrary.extent ∧ elementName "p.X" = "p.X" ∧
    (crossed.graph.get? "p.X").map TypeInfo.supertypes = some ["p.A", "p.B"] ∧
    (crossed.graph.get? "p.B").map TypeInfo.supertypes = some ["p.C"] ∧
    crossed.graph.contains "p.C" = false ∧
    (outcome (load "p.C" crossed)).map TypeInfo.supertypes = .ok [] := by
  decide +kernel

/-- The search looks up `B` in vain before it reads the unit that declares `A` and `B`, and does not
come back to it. So `C`, which stands above `B` then, is not loaded. -/
theorem not_isAssignable_settles : ¬ ∀ (files : List (String × String)) (roots : List Path)
    (tree : FileTree) (l₀ : Library), ofFiles roots tree files = .ok () l₀ →
    ∀ (history : List Query) (target source : String) (b : Bool) (l' : Library),
      isAssignable target source ((Inspection.start l₀).follow history).types = .ok b l' →
      (∀ a, ReflTransGen l'.Rises (elementName source) a →
        a = objectName ∨ isPrimitiveName a = true ∨ l'.graph.contains a = true ∨
          ∃ f l'', load a l' = .error f l'' ∧ f.isNotFound = true) ∧
      outcome (isAssignable target source l') = .ok b := by
  intro h
  obtain ⟨hclass, hinterface, hsuperclass, hextent, helement, hX, hB, hgone, hC⟩ := crossing_facts
  obtain ⟨X, hclass, hX'⟩ := load_found hclass
  obtain ⟨A, hsuperclass, hA'⟩ := load_found hsuperclass
  have hlooked : Looked "p.X" [] ["p.X"] crossingLibrary
      [("p.X", some X), ("p.B", none), ("p.A", some A)] crossed := by
    refine .found (by decide) hclass ?_
    rw [hX']
    refine .lost (by decide) (eq_error_of_outcome hinterface) rfl ?_
    refine .found (by decide) hsuperclass ?_
    rw [hA']
    exact .pass (by decide) .done
  have hrun : isAssignable "p.C" "p.X" crossingLibrary =
      .ok (crossed.graph.isAssignable "p.C" "p.X") crossed := by
    rw [isAssignable_eq, helement, hlooked.run hextent]
  have hclosed := (h [] _ _ _ crossing_made [] _ _ _ _ hrun).1 "p.C"
  rw [helement] at hclosed
  obtain ⟨X', hX, habove⟩ := Option.map_eq_some_iff.mp hX
  obtain ⟨B, hB, habove'⟩ := Option.map_eq_some_iff.mp hB
  have hrises : ReflTransGen crossed.Rises "p.X" "p.C" :=
    (ReflTransGen.single ⟨by decide, X', hX, by rw [habove]; decide⟩).tail
      (b := "p.B") ⟨by decide, B, hB, by rw [habove']; decide⟩
  obtain ⟨C, hC, -⟩ := load_found hC
  obtain hend | hend | hloaded | ⟨f, l'', hfails, -⟩ := hclosed hrises
  · exact absurd hend (by decide)
  · exact absurd hend (by decide)
  · exact Bool.false_ne_true (hgone.symm.trans hloaded)
  · cases hC.symm.trans hfails

end Library

end StubWriter
