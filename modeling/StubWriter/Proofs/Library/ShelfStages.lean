import StubWriter.Proofs.Hierarchy.Exposed
import StubWriter.Proofs.Library.Histories
import StubWriter.Proofs.Library.Shelves

/-!
# Resolutions in libraries over a directory

In a fresh library over a catalogue, the first stage of a resolution finds the types of the table. So
does the second one, unless it reads a unit that asks for a listed name after it has looked for that
name in vain: a search for supertypes reports such a name, so the log tells.

* `Overlooks`: what the log tells then.
* `Catalogue.offers`, `Catalogue.follows`: the types that the stages find.
* `Catalogue.resolve`: what a resolution comes to.
* `Catalogue.start`: a fresh library over a directory of units.
-/

namespace StubWriter

open Run Walk

namespace Library

/-- A search for supertypes has ended at a listed name, and later a unit was read that asks for it. -/
def Overlooks (tree : FileTree) (directory : Path) (log : List Event) : Prop :=
  ∃ start a name u origin, sourceIn [directory] tree name = .ok (some ⟨.ok u, origin⟩) ∧ u.Asks a ∧
    isListed a = true ∧
      List.Sublist [Event.ancestryEnds start a, Event.loading name origin] log

/-- Nothing is missing. -/
def Nothing (missing : List String) (_ : List Event) : Prop :=
  missing = []

/-- A search for supertypes has ended at each missing name. -/
def Reported (missing : List String) (log : List Event) : Prop :=
  ∀ a ∈ missing, ∃ start, Event.ancestryEnds start a ∈ log

theorem lasting_nothing : Lasting Nothing :=
  fun hm hsub _ => List.subset_nil.mp (hm ▸ hsub)

theorem lasting_reported : Lasting Reported := fun hm hsub hlog a ha =>
  (hm a (hsub ha)).imp fun _ hstart => hlog.subset hstart

theorem Misreads.overlooks {tree : FileTree} {directory : Path} {name : String} {l l' : Library}
    (h : Misreads tree directory name l l') (hl : Reported l.missing l.log) :
    Overlooks tree directory l'.log := by
  obtain ⟨u, origin, a, hsource, ha, hlisted, hmissing, hlog⟩ := h
  obtain ⟨start, hstart⟩ := hl a hmissing
  exact ⟨start, a, name, u, origin, hsource, ha, hlisted,
    ((List.singleton_sublist.mpr hstart).append_right _).trans hlog⟩

end Library

open Library

namespace Catalogue

variable {T : LoadTable} {tree : FileTree} {directory : Path} {files : List (String × String)}
  (h : Catalogue T tree directory files)
include h

/-! ## Names of the table -/

/-- All names that the table brings up lead down from the directory. -/
theorem leadsDown {name : String} {t : TypeInfo} (ht : T name = .ok t) :
    LeadsDown name ∧ (∀ n ∈ t.supertypes, LeadsDown n) ∧ ∀ m ∈ t.methods, LeadsDown m.returns := by
  let fresh : TypeGraph → List String → Prop := fun _ m => m = []
  have hdescribed : ∀ {d : Declared} {u : CompilationUnit} {origin : String},
      u.Closed LeadsDown → d ∈ u.declared →
      (memory (namesOf (filed directory (readUnits files).1))
          (room (filed directory (readUnits files).1)) fresh).Gives
        (d.describe u.packageName origin (Scope.ofUnit u)) (.ok t) →
      (∀ n ∈ t.supertypes, LeadsDown n) ∧ ∀ m ∈ t.methods, LeadsDown m.returns := by
    intro d u origin hu hd hgives
    have hrun := (World.ends_of_gives (fun _ h => h) hgives _ (start_fresh _)).2
    exact hu.describes d hd origin _ t _ (eq_ok_of_outcome hrun)
  rcases h.tells.cases ht with
    ⟨hprimitive, rfl⟩ | ⟨q, hq, d, hd, rfl, -⟩ | ⟨hname, u, hu, d, hdeclared, rfl, -⟩
  · have hall : ∀ b ∈ primitiveNames, LeadsDown b := by decide
    exact ⟨hall name (by simpa [isPrimitiveName] using hprimitive), nofun, nofun⟩
  · obtain ⟨p, hp, rfl⟩ := List.mem_map.mp hq
    have hgives := h.tells.declared _ hq d hd fresh fun _ _ h => h
    rw [ht] at hgives
    exact ⟨.of_named (CompilationUnit.fullName_named isKind_segment (readUnits_written hp) hd),
      hdescribed (LeadsDown.closed (readUnits_written hp) (readUnits_typed hp)) hd hgives⟩
  · have hchecked := Platform.checked_of_mem (Platform.mem_units hu)
    have hd : d ∈ u.declared := by simp [hdeclared]
    obtain ⟨t', ht', hgives⟩ := h.tells.platform hu hname
    obtain rfl := Except.ok.inj (ht.symm.trans ht')
    exact ⟨.of_named (CompilationUnit.fullName_named isKind_segment hchecked.written hd),
      hdescribed (LeadsDown.closed hchecked.written hchecked.typed) hd
        (hgives d hd fresh (firm_fresh _))⟩

/-! ## The stages -/

/-- As long as nothing was looked for in vain, a library finds the types of the table. -/
theorem offers : (shelved T tree directory (readUnits files).1 Nothing).Offers T Library.load := by
  refine ⟨fun {name t} ht l hl => ?_, ?_⟩
  · rcases h.load lasting_nothing (h.leadsDown ht).1 hl with
      ⟨_, _, a, _, _, _, hmissing, _⟩ | ⟨t', ht', ho, hl'⟩ | ⟨hnone, -⟩ | ⟨f, hf, ho, hl'⟩
    · rw [show l.missing = [] from hl.2] at hmissing
      cases hmissing
    · cases ht.symm.trans ht'
      exact ⟨hl', .inl ho⟩
    · cases ht.symm.trans hnone
    · exact ⟨hl', .inr ⟨f, hf, ho⟩⟩
  · rintro f ⟨relative, rfl⟩
    rfl

/-- A search for supertypes finds the types of the table, unless it overlooks a name. -/
theorem follows : (shelved T tree directory (readUnits files).1 Reported).Follows
    (fun l => Overlooks tree directory l.log) T.lineage LeadsDown := by
  refine ⟨fun start name l hname hl => ?_, fun {name above} _ habove b hb => ?_,
    fun l l' hgrows ⟨start, a, name, u, origin, hsource, ha, hlisted, hlog⟩ =>
      ⟨start, a, name, u, origin, hsource, ha, hlisted, hlog.trans hgrows.log.sublist⟩,
    fun l hl => hl.1.bears.mono fun name t ht => LoadTable.lineage_eq_some.mpr ⟨t, ht, rfl⟩⟩
  · have hload := h.load lasting_reported hname hl
    rw [Comes, loadIfFound_eq]
    rw [Comes] at hload
    cases hrun : Library.load name l with
    | ok t l' =>
      rw [hrun] at hload
      rcases hload with hmisreads | ⟨t', ht, ho, hl'⟩ | ⟨-, ho, -⟩ | ⟨f, -, ho, -⟩
      · exact .inl (Misreads.overlooks hmisreads hl.2)
      · cases ho
        exact .inr (.inl ⟨t, LoadTable.lineage_eq_some.mpr ⟨t, ht, rfl⟩, rfl, hl'⟩)
      · cases ho
      · cases ho
    | error f l' =>
      rw [hrun] at hload
      dsimp only
      rcases hload with hmisreads | ⟨t', -, ho, -⟩ | ⟨hnone, ho, hundeclared, l₁, hl₁, hl'⟩ |
        ⟨_, ⟨relative, rfl⟩, ho, hl'⟩
      · refine .inl ?_
        split <;> exact Misreads.overlooks hmisreads hl.2
      · cases ho
      · cases ho
        refine .inr (.inr (.inl ⟨by rw [LoadTable.lineage, hnone]; rfl, rfl, ?_⟩))
        change Shelved T tree directory _ (Library.told l' _) ∧ _
        rcases hl' with rfl | rfl
        · exact shelved_quiet lasting_reported _ _ hl₁
        · obtain ⟨hl₁, hreported⟩ := shelved_quiet lasting_reported l₁ (.ancestryEnds start name) hl₁
          refine ⟨⟨basedOn_learned hl₁.based _ _, hl₁.known, hl₁.extent, hl₁.graph, fun ha => ?_,
            hl₁.bears⟩, fun a ha => ?_⟩
          · rcases List.mem_append.mp ha with ha | ha
            · exact hl₁.missing ha
            · exact List.mem_singleton.mp ha ▸ hundeclared
          · rcases List.mem_append.mp ha with ha | ha
            · exact hreported a ha
            · obtain rfl := List.mem_singleton.mp ha
              exact ⟨start, List.mem_append_right _ (List.mem_singleton_self _)⟩
      · cases ho
        exact .inr (.inr (.inr ⟨_, ⟨relative, rfl⟩, rfl, hl'⟩))
  · obtain ⟨t, ht, rfl⟩ := LoadTable.lineage_eq_some.mp habove
    exact (h.leadsDown ht).2.1 b hb

theorem extent_lt {M : List String → List Event → Prop} {l : Library}
    (hl : (shelved T tree directory (readUnits files).1 M).inv l) :
    (supertypesOf T (filed directory (readUnits files).1)).length < l.extent := by
  refine h.tells.length_supertypesOf.trans_lt ?_
  rw [filed, room_relabeled]
  exact hl.1.extent

theorem compares (htame : T.lineage.Tame (supertypesOf T (filed directory (readUnits files).1))) :
    supply.ComparesUnless (fun l => Overlooks tree directory l.log) T.lineage.verdict
      (fun name => LeadsDown (elementName name))
      (shelved T tree directory (readUnits files).1 Reported) :=
  ⟨fun target _ hsource =>
      isAssignable_unless h.follows htame (fun _ hl => h.extent_lt hl) target hsource,
    fun e => World.Quiet.report (shelved_quiet lasting_reported) e⟩

/-! ## Resolutions -/

/-- A resolution in a fresh library whose target has a chain is made of the chain, unless the
directory refuses a path, or a name was overlooked. -/
theorem resolve (htame : T.lineage.Tame (supertypesOf T (filed directory (readUnits files).1)))
    {name : String} {t : TypeInfo} (ht : T name = .ok t) {found : List Level}
    (hchain : T.types.Chain name found) {l : Library}
    (hl : (shelved T tree directory (readUnits files).1 Nothing).inv l) :
    Comes (Inspection.resolve name) (Inspection.start l) fun o w =>
      Overlooks tree directory w.types.log ∨ (∃ f, TooLong directory f ∧ o = .error f) ∨
        o = Resolution.resolve t found fun a b => .ok (T.lineage.verdict a b) := by
  let lost : Library → Prop := fun l => Overlooks tree directory l.log
  let W := shelved T tree directory (readUnits files).1 Nothing
  let W' := shelved T tree directory (readUnits files).1 Reported
  have hstays : ∀ {α : Type} (x : Lookup α) [Steady x], Moves (Stays lost) x := fun x hx =>
    hx.mono h.follows.stays
  have hassignable : ∀ a b, Moves (Stays lost) (supply.isAssignable a b) := fun a b =>
    hstays (isAssignable a b)
  have hreport : ∀ e, Moves (Stays lost) (supply.report e) := fun e => hstays (report e)
  obtain ⟨rank, hrank, hbound⟩ := LoadTable.exists_ranksViews h.tells.name_eq
    fun {a b} ⟨t, ht, hb⟩ => h.tells.supertypes_mem ht (Walk.parents_subset t hb)
  have hgood : ∀ m ∈ Resolution.walked found, LeadsDown (elementName m.returns) := by
    intro m hm
    obtain ⟨p, s, hs, hms⟩ := hchain.walked_declared hm
    exact (LeadsDown.bracketed (elementName_bracketed _)).mp
      ((h.leadsDown (LoadTable.types_eq_some.mp hs)).2.2 m hms)
  have hload : Comes (lift (supply.load name)) (Inspection.start l) fun o w =>
      (o = .ok t ∧ (W.walk T).inv w) ∨ ∃ f, TooLong directory f ∧ o = .error f := by
    obtain ⟨hinv, ho⟩ := lift_gives (h.offers.gives ht) _ (TypeTable.remembers_start hl)
    exact ho.imp_left fun ho => ⟨ho, hinv⟩
  have hdeep : ∀ l, W.inv l → ∀ name, rank name < supply.depth l :=
    fun l hl name => ((hbound name).trans_lt (h.extent_lt hl)).trans_le l.extent_le_depth
  have hlevels : t.isPrimitive = false → ∀ w, (W.walk T).inv w →
      Comes (supply.levels t) w fun o w => (o = .ok found ∧ (W'.walk T).inv w) ∨
        ∃ f, TooLong directory f ∧ o = .error f := by
    intro hprimitive w hw
    have hwalk : (W.walk T).Gives (supply.levels t) (.ok found) :=
      TypeSupply.levels_near h.offers hdeep
        (fun e => World.Quiet.report (shelved_quiet lasting_nothing) e) hrank ht hprimitive hchain
    obtain ⟨⟨⟨hshelved, hnothing⟩, hviews⟩, ho⟩ := hwalk w hw
    refine ho.imp_left fun ho => ⟨ho, ⟨hshelved, fun a ha => ?_⟩, hviews⟩
    rw [show _ = [] from hnothing] at ha
    cases ha
  refine TypeSupply.resolve_comes hload
    (fun f hcheck _ _ => .inr (.inr (TypeSupply.resolve_of_check hcheck _ _).symm)) hlevels
    (fun w hw => ?_) fun f _ hf => .inr (.inl ⟨f, hf, rfl⟩)
  refine comes_mono ((h.compares htame).rest_unless t hgood w hw) ?_
  rintro o w' (hlost | ⟨-, ho | hexcused⟩)
  · exact .inl hlost
  · exact .inr (.inr ho)
  · exact .inr (.inl hexcused)

omit h in
/-- A fresh library over a directory of units. -/
theorem start (hshelf : Shelf tree directory files) :
    (shelved T tree directory (readUnits files).1 Nothing).inv (ofUnits [directory] tree []) := by
  refine ⟨⟨ofUnits_basedOn _ _ _, rfl, ?_, nofun, nofun, TypeGraph.bears_empty _⟩, rfl⟩
  exact hshelf.room_lt

end Catalogue

end StubWriter
