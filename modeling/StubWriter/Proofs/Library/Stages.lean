import StubWriter.Proofs.Hierarchy.Stages
import StubWriter.Proofs.Library.Given

/-!
# Resolutions in libraries of given units

In a library that has just been made of given units, the first stage of a resolution finds the types
of their table, and the second one compares them by their supertypes. The types of the platform that
are loaded in between keep their supertypes, even where the exception of `java.io.Closeable` does
not keep its meaning.

* `aged`: the libraries of the second stage.
* `kept_made`, `kept_resolve`: what a resolution in a library that has just been made comes to.
-/

namespace StubWriter

open Run

namespace Library

/-- Libraries of some units whose types have the supertypes that the table says. -/
def aged (T : LoadTable) (units : List (String × CompilationUnit)) : World Library :=
  memory (namesOf units) (room units) fun g _ =>
    g.Bears T.lineage.Fits ∧ ∀ name ∈ namesOf units, g.contains name = true

variable {T : LoadTable} {units : List (String × CompilationUnit)}

theorem kept_later {l : Library} (h : (kept T units (· = [])).inv l) : (aged T units).inv l := by
  have hfits : ∀ name t, T.Fits name t → T.lineage.Fits name t :=
    fun name t ht => LoadTable.lineage_eq_some.mpr ⟨t, ht, rfl⟩
  exact ⟨h.1, h.2.2.1.mono hfits, h.2.2.2⟩

/-! ## The first stage -/

/-- A library that has just been made finds the types of the table. -/
theorem kept_offers (hT : Tells T units) : (kept T units (· = [])).Offers T load := by
  refine ⟨fun {name t} ht => ?_, fun _ h => h.elim⟩
  refine ht ▸ load_kept hT (firm_fresh _) (fun m f hm => by simp [hm]) fun f hf => ?_
  rw [ht] at hf
  cases hf

/-- And it finds no others. -/
theorem kept_serves (hT : Tells T units) : T.types.Serves load (kept T units (· = [])).inv := by
  have hload : ∀ {name l t l'}, (kept T units (· = [])).inv l → load name l = .ok t l' →
      T name = .ok t ∧ (kept T units (· = [])).inv l' := by
    intro name l t l' hl hrun
    cases hname : T name with
    | error f =>
      have hprimitive : isPrimitiveName name = false := by
        by_contra h
        rw [hT.primitive (by simpa using h)] at hname
        cases hname
      have hundeclared : name ∉ namesOf units := by
        intro h
        obtain ⟨t', ht'⟩ := kept_declared hl h
        rw [ht'] at hname
        cases hname
      have hnot : isPlatform name = false := by
        by_contra h
        obtain ⟨u, hu⟩ := Option.isSome_iff_exists.mp (Bool.eq_true_of_not_eq_false h)
        obtain ⟨t', ht', -⟩ := hT.platform hu hundeclared
        rw [ht'] at hname
        cases hname
      have hlost := load_unknown hl.1 hprimitive hundeclared hnot
      rw [hrun] at hlost
      cases hlost
    | ok t' =>
      obtain ⟨hinv, ho⟩ :=
        World.ends_of_gives (fun _ h => h) ((kept_offers hT).gives hname) l hl
      rw [hrun] at hinv ho
      cases ho
      exact ⟨rfl, hinv⟩
  exact ⟨fun hl hrun => LoadTable.types_eq_some.mpr (hload hl hrun).1,
    fun hl hrun => (hload hl hrun).2⟩

/-! ## The second stage -/

/-- A type of the platform has the supertypes of the table, whatever was looked for in vain. -/
theorem Tells.platform_supertypes (hT : Tells T units) {name : String} {u : CompilationUnit}
    (hu : Platform.unit? name = some u) (hname : name ∉ namesOf units) {d : Declared}
    (hd : d ∈ u.declared) {W : World Library} (hquiet : W.Quiet)
    (hanswers : ∀ n ∈ u.names, ∀ a ∈ (Scope.ofUnit u).asks (n.headD ""), W.Succeeds (exists? a) ∧
      ((isListed a = true → isPlatform a = true) → W.Answers (existsIn (namesOf units)) a)) :
    Ends W.inv (d.describe u.packageName (platformOrigin name) (Scope.ofUnit u)) fun o =>
      (∃ t, o = .ok t ∧ t.name = name ∧ T.lineage name = some t.supertypes) ∨
        ∃ f, W.excused f ∧ o = .error f := by
  have hp := Platform.mem_units hu
  obtain ⟨above, habove⟩ := Platform.describe_supertypes hp hd (existsIn (namesOf units))
    u.packageName (platformOrigin name)
  have hfull : d.fullName = name :=
    List.mem_singleton.mp ((Platform.checked_of_mem hp).declared ▸ List.mem_map_of_mem hd)
  -- In a fresh library the table holds what is described.
  obtain ⟨t, ht, hgives⟩ := hT.platform hu hname
  have hstart := start_fresh units
  have hfresh := World.ends_of_gives (fun _ h => h) (hgives d hd _ (firm_fresh _)) _ hstart
  obtain ⟨-, ⟨t', ht', ht'above⟩ | ⟨_, h, _⟩⟩ :=
    habove _ memory_quiet (fun n _ a _ => memory_settles a) _ hstart
  case inr => exact h.elim
  obtain rfl := Except.ok.inj (hfresh.2.symm.trans ht')
  intro l hl
  obtain ⟨hinv, ⟨s, hs, hsabove⟩ | hexcused⟩ := habove W hquiet hanswers l hl
  · have hshape := d.describe_shapes _ _ _ l s _ (eq_ok_of_outcome hs)
    refine ⟨hinv, .inl ⟨s, hs, hshape.name.trans hfull, ?_⟩⟩
    exact LoadTable.lineage_eq_some.mpr ⟨t, ht, ht'above.trans hsabove.symm⟩
  · exact ⟨hinv, .inr hexcused⟩

theorem aged_holds (hT : Tells T units) : (aged T units).Holds T.lineage fun _ => True := by
  have hlineage : ∀ {name t t'}, T.lineage.Fits name t → T.lineage.Fits name t' →
      t.supertypes = t'.supertypes := fun ht ht' => Option.some.inj (ht.symm.trans ht')
  refine ⟨fun name _ => ?_, fun _ _ _ _ => trivial, fun _ h => h.elim, memory_quiet,
    fun l hl => hl.2.1⟩
  refine load_memory (fun h => ?_) (fun g m hP hname => hP.2 name hname)
    (fun l t hl ht => .inl ⟨t, rfl, hl.2.1.held ht⟩) (fun u hu hname d hd => ?_)
    fun hprimitive hname hnot => ⟨.inr ⟨_, rfl, .inl ⟨rfl, ?_⟩⟩, fun _ _ hP => hP⟩
  · exact .inl ⟨_, rfl, LoadTable.lineage_eq_some.mpr ⟨_, hT.primitive h, rfl⟩⟩
  · refine ends_mono (hT.platform_supertypes hu hname hd memory_quiet
      fun n _ a _ => memory_settles a) ?_
    rintro o (⟨t, ho, hfull, habove⟩ | ⟨_, h, _⟩)
    case inr => exact h.elim
    refine ⟨t, ho, fun g m hP => ⟨hP.1.addType hlineage ?_, fun a ha => ?_⟩⟩
    · exact hfull ▸ habove
    · exact contains_addType (hP.2 a ha) t
  · rw [LoadTable.lineage, hT.other hprimitive hname hnot]
    rfl

/-! ## Both stages -/

theorem aged_compares (hT : Tells T units) (htame : T.lineage.Tame (supertypesOf T units)) :
    supply.Compares T.lineage.verdict (fun _ => True) (aged T units) := by
  refine ⟨fun target source _ => ?_, fun e => World.Quiet.report memory_quiet e⟩
  refine isAssignable_gives (aged_holds hT) htame (fun l hl => ?_) target trivial
  exact hT.length_supertypesOf.trans_lt hl.1.extent

theorem kept_staged (hT : Tells T units) (htame : T.lineage.Tame (supertypesOf T units))
    {rank : String → Nat} (hrank : ∀ name, rank name ≤ room units) :
    supply.Staged T T.lineage.verdict rank (kept T units (· = [])) (aged T units) :=
  ⟨kept_offers hT, fun l hl name =>
    ((hrank name).trans_lt hl.1.extent).trans_le l.extent_le_depth,
    fun e => World.Quiet.report memory_quiet e, fun _ => kept_later, rfl, aged_compares hT htame⟩

/-- A resolution that succeeds in a library that has just been made is made of a chain of the
table. -/
theorem kept_made (hT : Tells T units) (htame : T.lineage.Tame (supertypesOf T units))
    {l : Library} (hl : (kept T units (· = [])).inv l) {name : String} {r : Resolution}
    (hrun : outcome (Inspection.resolve name (Inspection.start l)) = .ok r) :
    T name = .ok r.target ∧ ∃ found, T.types.Chain name found ∧
      (Resolution.resolve r.target found fun a b => .ok (T.lineage.verdict a b) :
        Except Failure Resolution) = .ok r := by
  have hreport : ∀ e l, (kept T units (· = [])).inv l →
      Ok (Library.report e) l fun _ l' => (kept T units (· = [])).inv l' := by
    intro e l hl _ l' hrun
    cases hrun
    exact memory_quiet l e hl
  have hnames : ∀ {name t}, T.types name = some t → t.name = name :=
    fun ht => hT.name_eq (LoadTable.types_eq_some.mp ht)
  exact TypeSupply.resolve_made (kept_serves hT) hreport hnames (fun _ => kept_later)
    (aged_compares hT htame) (fun _ _ _ _ => trivial) (TypeTable.remembers_start hl)
    (eq_ok_of_outcome hrun)

/-- Where there is a chain, a resolution in a library that has just been made is made of it. -/
theorem kept_resolve (hT : Tells T units) (hacyclic : ∀ name, ¬ Relation.TransGen T.Leads name name)
    (htame : T.lineage.Tame (supertypesOf T units)) {l : Library}
    (hl : (kept T units (· = [])).inv l) {name : String} {t : TypeInfo} (ht : T name = .ok t)
    {found : List Level} (hchain : T.types.Chain name found) :
    outcome (Inspection.resolve name (Inspection.start l)) =
      Resolution.resolve t found fun a b => .ok (T.lineage.verdict a b) := by
  obtain ⟨rank, hrank, hbound⟩ := hT.exists_ranked hacyclic
  have hnear := (kept_staged hT htame hbound).resolve_near hrank ht hchain
    (TypeTable.remembers_start hl)
  exact hnear.resolve_right fun ⟨_, hf, _⟩ => hf

end Library

end StubWriter
