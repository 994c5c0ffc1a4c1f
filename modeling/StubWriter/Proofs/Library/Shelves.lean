import StubWriter.Proofs.Library.Existence
import StubWriter.Proofs.Library.Filed
import StubWriter.Proofs.Library.Relabeled
import StubWriter.Proofs.Library.Stages

/-!
# Libraries over a directory of units

A library of given units knows from the start all that they declare. A library over a directory that
holds the same units, each in the file of its type, reads a unit when one of its types is looked for.
Both find the same types, as long as the units do not ask for names that the directory has no own
file for though a unit declares them.

* `Findable`: the units that are found so.
* `Catalogue`: a directory of such units and the table of their types.
* `Catalogue.load`: what loading comes to.
* `Misreads`: a unit is read whose names may have lost their meaning, since a listed name that it asks
  for was looked for in vain before.
-/

namespace StubWriter

open Run Walk

/-- The names whose existence may decide what is meant by the names of a unit. -/
def CompilationUnit.Asks (u : CompilationUnit) (a : String) : Prop :=
  ∃ n ∈ u.names, a ∈ (Scope.ofUnit u).asks (n.headD "")

namespace Library

/-! ## Units that are found -/

/-- Some units, and those of the platform that declare nothing that is declared by one of them. -/
def offered (units : List (String × CompilationUnit)) : List (String × CompilationUnit) :=
  units ++ Platform.units.filter fun p => p.1 ∉ namesOf units

/-- Units, labelled by their files, that declare no name twice, and whose files take the place of
nothing but what they declare. A name that may be asked for has a file of its own if it is
declared. -/
structure Findable (units : List (String × CompilationUnit)) : Prop where
  distinct : (namesOf units).Nodup
  own : ∀ p ∈ offered units, ∀ a, p.2.Asks a → a ∈ namesOf units →
    ownFile a ∈ units.map Prod.fst
  free : ∀ p ∈ Platform.units, p.1 ∉ namesOf units → ∀ relative ∈ candidates p.1,
    relative ∉ units.map Prod.fst

instance (units : List (String × CompilationUnit)) : Decidable (Findable units) :=
  decidable_of_iff ((namesOf units).Nodup ∧
    (∀ p ∈ offered units, ∀ n ∈ p.2.names, ∀ a ∈ (Scope.ofUnit p.2).asks (n.headD ""),
      a ∈ namesOf units → ownFile a ∈ units.map Prod.fst) ∧
    ∀ p ∈ Platform.units, p.1 ∉ namesOf units → ∀ relative ∈ candidates p.1,
      relative ∉ units.map Prod.fst)
    ⟨fun h => ⟨h.1, fun p hp a ⟨n, hn, ha⟩ => h.2.1 p hp n hn a ha, h.2.2⟩,
      fun h => ⟨h.distinct, fun p hp n hn a ha => h.own p hp a ⟨n, hn, ha⟩, h.free⟩⟩

/-- Units under the paths of their files. -/
def filed (directory : Path) (units : List (String × CompilationUnit)) :
    List (String × CompilationUnit) :=
  relabeled (fun relative => toString (directory / relative)) units

theorem offered_closed {files : List (String × String)} {p : String × CompilationUnit}
    (hp : p ∈ offered (readUnits files).1) : p.2.Closed LeadsDown := by
  rcases List.mem_append.mp hp with hp | hp
  · exact LeadsDown.closed (readUnits_written hp) (readUnits_typed hp)
  · have hchecked := Platform.checked_of_mem (List.mem_of_mem_filter hp)
    exact LeadsDown.closed hchecked.written hchecked.typed

end Library

open Library

namespace Shelf

variable {tree : FileTree} {directory : Path} {files : List (String × String)}
  (h : Shelf tree directory files)
include h

theorem filedUnder {p : String × CompilationUnit} (hp : p ∈ (readUnits files).1) :
    FiledUnder p.1 p.2 := by
  obtain ⟨text, hmem, hu⟩ := mem_readUnits.mp hp
  obtain ⟨u, hu', hfiled⟩ := h.filed _ hmem
  obtain rfl := Except.ok.inj (hu.symm.trans hu')
  exact hfiled

theorem exists_unit {relative text : String} (hmem : (relative, text) ∈ files) :
    ∃ u, CompilationUnit.ofText text = .ok u ∧ (relative, u) ∈ (readUnits files).1 := by
  obtain ⟨u, hu, -⟩ := h.filed _ hmem
  exact ⟨u, hu, mem_readUnits.mpr ⟨text, hmem, hu⟩⟩

theorem mem_labels {relative : String} :
    relative ∈ (readUnits files).1.map Prod.fst ↔ relative ∈ files.map Prod.fst := by
  constructor
  · intro hmem
    obtain ⟨p, hp, rfl⟩ := List.mem_map.mp hmem
    obtain ⟨text, hmem, -⟩ := mem_readUnits.mp hp
    exact List.mem_map_of_mem (f := Prod.fst) hmem
  · intro hmem
    obtain ⟨⟨_, text⟩, hfile, rfl⟩ := List.mem_map.mp hmem
    obtain ⟨u, -, hp⟩ := h.exists_unit hfile
    exact List.mem_map_of_mem (f := Prod.fst) hp

/-- A type that has a file of its own is declared there. -/
theorem declared_of_own {a : String} (ha : LeadsDown a)
    (hown : ownFile a ∈ (readUnits files).1.map Prod.fst) : a ∈ namesOf (readUnits files).1 := by
  obtain ⟨p, hp, hlabel⟩ := List.mem_map.mp hown
  obtain ⟨top, htop, hleads, ⟨d, hd, rfl⟩, -⟩ := (h.filedUnder hp).top (readUnits_written hp)
  obtain rfl := ownFile_injective ha hleads (hlabel.symm.trans htop)
  exact mem_namesOf.mpr ⟨p, hp, d, hd, rfl⟩

/-- The first file that is there among those in which a type is looked for declares the type, if any
does. -/
theorem declares_first (hdistinct : (namesOf (readUnits files).1).Nodup) {name : String}
    (hname : name ∈ namesOf (readUnits files).1) :
    ∃ k : Nat, (∃ relative ∈ files.map Prod.fst, (candidates name)[k]? = some relative) ∧
      ∀ i ≤ k, ∀ p ∈ (readUnits files).1, (candidates name)[i]? = some p.1 →
        ∃ d ∈ p.2.declared, d.fullName = name := by
  obtain ⟨q, hq, d, hd, rfl⟩ := mem_namesOf.mp hname
  obtain ⟨k, hk, hbefore⟩ := (h.filedUnder hq).place (readUnits_written hq) hd
  refine ⟨k, ⟨q.1, h.mem_labels.mp (List.mem_map_of_mem hq), hk⟩, fun i hi p hp hlabel => ?_⟩
  obtain ⟨y, hy, hown⟩ := hbefore i hi
  obtain ⟨top, htop, hleads, ⟨e, he, rfl⟩, -⟩ := (h.filedUnder hp).top (readUnits_written hp)
  have hnamed : Named IsSegment y.fullName :=
    CompilationUnit.fullName_named isKind_segment (readUnits_written hq) hy
  have hsame : y.fullName = e.fullName := ownFile_injective (.of_named hnamed) hleads
    ((Option.some.inj (hown.symm.trans hlabel)).trans htop)
  obtain ⟨rfl, -⟩ := declared_unique hdistinct hq hp hy he hsame
  exact ⟨d, hd, rfl⟩

end Shelf

/-! ## Catalogues -/

/-- A directory of units that are found there, and the table of their types. All of them can be
described. -/
structure Catalogue (T : LoadTable) (tree : FileTree) (directory : Path)
    (files : List (String × String)) : Prop where
  shelf : Shelf tree directory files
  findable : Findable (readUnits files).1
  tells : Tells T (filed directory (readUnits files).1)
  described : ∀ name ∈ namesOf (readUnits files).1, ∃ t, T name = .ok t

/-- What a library over a catalogue knows of a unit that it reads. -/
structure Volume (T : LoadTable) (units : List (String × CompilationUnit)) (u : CompilationUnit)
    (origin : String) : Prop where
  closed : u.Closed LeadsDown
  own : ∀ a, u.Asks a → a ∈ namesOf units → ownFile a ∈ units.map Prod.fst
  declared : ∀ d ∈ u.declared, (d.fullName ∈ namesOf units ∨ isPlatform d.fullName = true) ∧
    ∃ t, T d.fullName = .ok t
  describes : ∀ d ∈ u.declared, ∀ W : World Library, (∀ n ∈ d.decl.names,
    W.Gives ((Scope.ofUnit u).resolveName n)
      ((Scope.ofUnit u).meaning (existsIn (namesOf units)) n)) →
      W.Gives (d.describe u.packageName origin (Scope.ofUnit u)) (T d.fullName)

namespace Catalogue

variable {T : LoadTable} {tree : FileTree} {directory : Path} {files : List (String × String)}
  (h : Catalogue T tree directory files)
include h

theorem volume_filed {p : String × CompilationUnit} (hp : p ∈ (readUnits files).1) :
    Volume T (readUnits files).1 p.2 (toString (directory / p.1)) := by
  have hoffered : p ∈ offered (readUnits files).1 := List.mem_append_left _ hp
  have hfiled : (toString (directory / p.1), p.2) ∈ filed directory (readUnits files).1 :=
    List.mem_map_of_mem hp
  refine ⟨offered_closed hoffered, h.findable.own p hoffered, fun d hd => ?_, fun d hd W hW => ?_⟩
  · have hname := mem_namesOf.mpr ⟨p, hp, d, hd, rfl⟩
    exact ⟨.inl hname, h.described _ hname⟩
  · refine h.tells.describe_gives hfiled hd ?_
    rw [filed, namesOf_relabeled]
    exact hW

theorem volume_platform {name : String} {u : CompilationUnit} (hu : Platform.unit? name = some u)
    (hname : name ∉ namesOf (readUnits files).1) :
    Volume T (readUnits files).1 u (platformOrigin name) := by
  have hmem := Platform.mem_units hu
  have hoffered : (name, u) ∈ offered (readUnits files).1 :=
    List.mem_append_right _ (List.mem_filter.mpr ⟨hmem, by simpa using hname⟩)
  have hfree : name ∉ namesOf (filed directory (readUnits files).1) := by
    rwa [filed, namesOf_relabeled]
  have hfull : ∀ d ∈ u.declared, d.fullName = name := fun d hd =>
    List.mem_singleton.mp ((Platform.checked_of_mem hmem).declared ▸ List.mem_map_of_mem hd)
  refine ⟨offered_closed hoffered, h.findable.own _ hoffered, fun d hd => ?_, fun d hd W hW => ?_⟩
  · obtain ⟨t, ht, -⟩ := h.tells.platform hu hfree
    rw [hfull d hd]
    exact ⟨.inr (by rw [isPlatform, hu]; rfl), t, ht⟩
  · rw [hfull d hd]
    refine h.tells.describe_platform_gives hu hfree hd ?_
    rw [filed, namesOf_relabeled]
    exact hW

/-- The source of a name is a unit of the catalogue or of the platform, and one that declares the name
if any does. -/
theorem source_cases {name : String} (hname : LeadsDown name) :
    (∃ f, TooLong directory f ∧ sourceIn [directory] tree name = .error f) ∨
      (∃ u origin, sourceIn [directory] tree name = .ok (some ⟨.ok u, origin⟩) ∧
        Volume T (readUnits files).1 u origin ∧
          (name ∈ namesOf (readUnits files).1 ∨ isPlatform name = true →
            ∃ d ∈ u.declared, d.fullName = name)) ∨
      sourceIn [directory] tree name = .ok none ∧ name ∉ namesOf (readUnits files).1 ∧
        isPlatform name = false := by
  have hplaces : places [directory] name = (candidates name).map (·, directory) :=
    List.map_eq_flatMap.symm
  unfold sourceIn
  rw [hplaces]
  obtain ⟨f, hf, hfirst⟩ | ⟨i, hi, text, hmem, hbefore, hfirst⟩ | ⟨hnone, hfirst⟩ :=
    h.shelf.firstIn_cases hname (List.Subset.refl _)
  · exact .inl ⟨f, hf, by rw [hfirst]; rfl⟩
  · obtain ⟨u, hu, hp⟩ := h.shelf.exists_unit hmem
    refine .inr (.inl ⟨u, _, by rw [hfirst, hu]; rfl, h.volume_filed hp, fun hdeclared => ?_⟩)
    by_cases hnames : name ∈ namesOf (readUnits files).1
    · obtain ⟨k, ⟨relative, hrelative, hk⟩, hdeclares⟩ :=
        h.shelf.declares_first h.findable.distinct hnames
      refine hdeclares i (not_lt.mp fun hlt => ?_) _ hp (List.getElem?_eq_getElem hi)
      refine hbefore k hlt ?_
      rw [List.getElem?_eq_getElem (hlt.trans hi)] at hk
      exact Option.some.inj hk ▸ hrelative
    · obtain ⟨v, hv⟩ := Option.isSome_iff_exists.mp (hdeclared.resolve_left hnames)
      exact absurd (List.mem_map_of_mem (f := Prod.fst) hp)
        (h.findable.free _ (Platform.mem_units hv) hnames _ (List.getElem_mem hi))
  · have hnames : name ∉ namesOf (readUnits files).1 := by
      intro hnames
      obtain ⟨k, ⟨relative, hrelative, hk⟩, -⟩ :=
        h.shelf.declares_first h.findable.distinct hnames
      exact hnone relative (List.mem_of_getElem? hk) hrelative
    rw [hfirst]
    cases hu : Platform.unit? name with
    | none => exact .inr (.inr ⟨rfl, hnames, by rw [isPlatform, hu]; rfl⟩)
    | some u =>
      refine .inr (.inl ⟨u, _, rfl, h.volume_platform hu hnames, fun _ => ?_⟩)
      have hdeclared := (Platform.checked_of_mem (Platform.mem_units hu)).declared
      exact List.mem_map.mp (hdeclared ▸ List.mem_singleton_self name)

end Catalogue

/-! ## Libraries over a catalogue -/

/-- A property of the missing names and of the log that lasts when names leave the first and events
join the second. -/
def Lasting (M : List String → List Event → Prop) : Prop :=
  ∀ {m m' log log'}, M m log → m' ⊆ m → log <+: log' → M m' log'

/-- A library over a directory of units that holds nothing but what a table says. -/
structure Shelved (T : LoadTable) (tree : FileTree) (directory : Path)
    (units : List (String × CompilationUnit)) (l : Library) : Prop where
  based : (basedOn [directory] tree).inv l
  known : l.known = []
  extent : room units < l.extent
  graph : ∀ {a}, l.graph.contains a = true → a ∈ namesOf units ∨ isPlatform a = true
  missing : ∀ {a}, a ∈ l.missing → a ∉ namesOf units ∧ isPlatform a = false
  bears : l.graph.Bears T.Fits

/-- Such libraries, with a property of their missing names and of their log. -/
def shelved (T : LoadTable) (tree : FileTree) (directory : Path)
    (units : List (String × CompilationUnit)) (M : List String → List Event → Prop) :
    World Library where
  inv l := Shelved T tree directory units l ∧ M l.missing l.log
  excused := TooLong directory

/-- A library reads a unit that asks for a listed name which it takes for missing. -/
def Misreads (tree : FileTree) (directory : Path) (name : String) (l l' : Library) : Prop :=
  ∃ u origin a, sourceIn [directory] tree name = .ok (some ⟨.ok u, origin⟩) ∧ u.Asks a ∧
    isListed a = true ∧ a ∈ l.missing ∧
      List.Sublist (l.log ++ [Event.loading name origin]) l'.log

section Shelved

variable {T : LoadTable} {tree : FileTree} {directory : Path}
  {units : List (String × CompilationUnit)} {M : List String → List Event → Prop} {l l' : Library}

theorem Shelved.recalls (hl : Shelved T tree directory units l) (h : l.Recalls l') :
    Shelved T tree directory units l' :=
  ⟨h.based hl.based, h.known.trans hl.known, h.extent ▸ hl.extent, h.graph ▸ hl.graph,
    h.missing ▸ hl.missing, h.graph ▸ hl.bears⟩

theorem Shelved.takeIn (hl : Shelved T tree directory units l) {d : Declared} {t : TypeInfo}
    (hname : t.name = d.fullName)
    (hd : d.fullName ∈ namesOf units ∨ isPlatform d.fullName = true)
    (ht : T d.fullName = .ok t) : Shelved T tree directory units (l.takeIn d t) := by
  refine ⟨basedOn_learned hl.based _ _, hl.known, hl.extent, fun {a} ha => ?_,
    fun ha => hl.missing (List.mem_of_mem_filter ha), ?_⟩
  · unfold Library.takeIn TypeGraph.contains at ha
    rw [TypeGraph.get?_addType] at ha
    split at ha
    · rename_i hat
      rwa [hat, hname]
    · exact hl.graph ha
  · exact hl.bears.addType LoadTable.Fits.supertypes_eq (hname ▸ ht)

theorem shelved_recalls (hM : Lasting M) (hl : (shelved T tree directory units M).inv l)
    (h : l.Recalls l') : (shelved T tree directory units M).inv l' :=
  ⟨hl.1.recalls h, hM hl.2 (h.missing ▸ List.Subset.refl _) h.log⟩

theorem shelved_quiet (hM : Lasting M) : (shelved T tree directory units M).Quiet :=
  fun l e hl => shelved_recalls hM hl (Moves.moves (R := Recalls) (x := report e) l)

/-- What the world of a unit's description is: no listed name that the unit asks for is missing. -/
theorem Lasting.asking (hM : Lasting M) (u : CompilationUnit) :
    Lasting fun m log => M m log ∧ ∀ a, u.Asks a → isListed a = true → a ∉ m :=
  fun ⟨hm, hasked⟩ hsub hlog =>
    ⟨hM hm hsub hlog, fun a ha hlisted hmem => hasked a ha hlisted (hsub hmem)⟩

end Shelved

namespace Catalogue

variable {T : LoadTable} {tree : FileTree} {directory : Path} {files : List (String × String)}
  {M : List String → List Event → Prop} (h : Catalogue T tree directory files)
include h

/-- Whether a name exists, if it has a file of its own as soon as it is declared, and is not listed and
missing. -/
theorem answers (hM : Lasting M) {a : String} (ha : LeadsDown a)
    (hown : a ∈ namesOf (readUnits files).1 → ownFile a ∈ (readUnits files).1.map Prod.fst)
    (hlisted : ∀ m log, M m log → isListed a = true → a ∉ m) :
    (shelved T tree directory (readUnits files).1 M).Answers
      (existsIn (namesOf (readUnits files).1)) a := by
  intro l hl
  refine ⟨shelved_recalls hM hl (Moves.moves (R := Recalls) l), ?_⟩
  obtain ⟨⟨⟨hroots, htree, hsound⟩, hknown, -, hgraph, hmissing, -⟩, hMl⟩ := hl
  rw [exists?_outcome hsound, existsAt, hknown, hroots, htree]
  unfold existsIn
  split
  · rename_i hmet
    simp only [Bool.or_eq_true, List.contains_iff_mem, List.not_mem_nil, or_false] at hmet
    have hmet := hmet.elim hgraph .inr
    refine .inl (congrArg Except.ok (Eq.symm ?_))
    simp only [Bool.or_eq_true, List.contains_iff_mem, hmet, true_or]
  rename_i hunmet
  have hplatform : isPlatform a = false := by
    simp only [Bool.or_eq_true, not_or, Bool.not_eq_true] at hunmet
    exact hunmet.2
  split
  · rename_i hmem
    have hmem := List.contains_iff_mem.mp hmem
    have hunlisted : isListed a = false := Bool.eq_false_iff.mpr fun h => hlisted _ _ hMl h hmem
    refine .inl (congrArg Except.ok ?_)
    simp [(hmissing hmem).1, hplatform, hunlisted]
  split
  · rename_i hlisted
    exact .inl (by simp [hlisted])
  rename_i hunlisted
  obtain ⟨f, hf, hany⟩ | hany := h.shelf.anyIn_own ha
  · exact .inr ⟨f, hf, hany⟩
  · refine .inl (hany.trans (congrArg Except.ok ?_))
    rw [hplatform, Bool.eq_false_iff.mpr hunlisted, Bool.or_false, Bool.or_false, Bool.eq_iff_iff,
      List.contains_iff_mem, List.contains_iff_mem, ← h.shelf.mem_labels]
    exact ⟨h.shelf.declared_of_own ha, hown⟩

/-- Reading a unit takes in the types of the table, as long as no listed name that it asks for is
missing. -/
theorem register (hM : Lasting M) {u : CompilationUnit} {origin : String}
    (hu : Volume T (readUnits files).1 u origin) {l : Library}
    (hl : (shelved T tree directory (readUnits files).1 M).inv l)
    (hasked : ∀ a, u.Asks a → isListed a = true → a ∉ l.missing) :
    Comes (register u origin) l fun o l' =>
      (shelved T tree directory (readUnits files).1 M).inv l' ∧
        ((o = .ok () ∧ ∀ d ∈ u.declared, l'.graph.contains d.fullName = true) ∨
          ∃ f, TooLong directory f ∧ o = .error f) := by
  let W := shelved T tree directory (readUnits files).1 fun m log =>
    M m log ∧ ∀ a, u.Asks a → isListed a = true → a ∉ m
  have hW : Lasting _ := hM.asking u
  have hdescribe : ∀ d ∈ u.declared, Ends W.inv
      (d.describe u.packageName origin (Scope.ofUnit u)) (W.Near (T d.fullName)) := by
    refine fun d hd => hu.describes d hd W fun n hn => ?_
    refine Scope.resolveName_gives (shelved_quiet hW) fun a ha => ?_
    have hn := Declared.names_subset hd hn
    have hasks : u.Asks a := ⟨n, hn, ha⟩
    exact h.answers hW (hu.closed.asks n hn a ha) (hu.own a hasks) fun m log hm => hm.2 a hasks
  have hadd : ∀ d ∈ u.declared, ∀ t, W.Near (T d.fullName) (.ok t) → t.name = d.fullName →
      ∀ l, W.inv l → W.inv (l.takeIn d t) := by
    rintro d hd t (ht | ⟨f, -, ht⟩) hname l ⟨hl, hm⟩
    · exact ⟨hl.takeIn hname (hu.declared d hd).1 ht.symm,
        hW hm (List.filter_subset_self _) List.prefix_rfl⟩
    · cases ht
  refine comes_mono (registerAll_comes hdescribe hadd ⟨hl.1, hl.2, hasked⟩) ?_
  rintro o l' ⟨hl', -, hrun⟩
  refine ⟨⟨hl'.1, hl'.2.1⟩, hrun.imp_right ?_⟩
  rintro ⟨f, ho, d, hd, hf | ⟨f', hf', hf⟩⟩
  · obtain ⟨t, ht⟩ := (hu.declared d hd).2
    cases ht.symm.trans hf.symm
  · cases hf
    exact ⟨f, hf', ho⟩

/-- What fetching a type comes to. -/
theorem fetch (hM : Lasting M) {name : String} (hname : LeadsDown name) {l : Library}
    (hl : (shelved T tree directory (readUnits files).1 M).inv l) :
    Comes (fetch name) l fun o l' => Misreads tree directory name l l' ∨
      (shelved T tree directory (readUnits files).1 M).inv l' ∧
        ((o = .ok () ∧ (name ∈ namesOf (readUnits files).1 ∨ isPlatform name = true →
            l'.graph.contains name = true)) ∨ ∃ f, TooLong directory f ∧ o = .error f) := by
  refine fetch_comes hl.1.based fun l₁ hrecalls hlog => ?_
  have hl₁ := shelved_recalls hM hl hrecalls
  obtain ⟨f, hf, hsource⟩ | ⟨u, origin, hsource, hu, hdeclares⟩ | ⟨hsource, hnames, hplatform⟩ :=
    h.source_cases hname
  · rw [hsource]
    exact .inr ⟨hl₁, .inr ⟨f, hf, rfl⟩⟩
  · rw [hsource]
    change Comes (Library.register u origin) l₁ _
    by_cases hasked : ∀ a, u.Asks a → isListed a = true → a ∉ l₁.missing
    · refine comes_mono (h.register hM hu hl₁ hasked) ?_
      rintro o l' ⟨hl', hrun⟩
      refine .inr ⟨hl', hrun.imp_left fun ⟨ho, hall⟩ => ⟨ho, fun hdeclared => ?_⟩⟩
      obtain ⟨d, hd, rfl⟩ := hdeclares hdeclared
      exact hall d hd
    · push Not at hasked
      obtain ⟨a, ha, hlisted, hmissing⟩ := hasked
      have hgrows := Steady.grows (x := Library.register u origin) l₁
      exact .inl ⟨u, origin, a, hsource, ha, hlisted, hrecalls.missing ▸ hmissing,
        (hlog _ hsource).trans hgrows.log.sublist⟩
  · rw [hsource]
    refine .inr ⟨hl₁, .inl ⟨rfl, fun hdeclared => ?_⟩⟩
    rcases hdeclared with hdeclared | hdeclared
    · exact absurd hdeclared hnames
    · cases hplatform.symm.trans hdeclared

/-- What loading comes to: the type of the table, or none if there is none. A name without a type may
be noted to be missing. -/
theorem load (hM : Lasting M) {name : String} (hname : LeadsDown name) {l : Library}
    (hl : (shelved T tree directory (readUnits files).1 M).inv l) :
    Comes (load name) l fun o l' => Misreads tree directory name l l' ∨
      (∃ t, T name = .ok t ∧ o = .ok t ∧
        (shelved T tree directory (readUnits files).1 M).inv l') ∨
      (T name = .error (.typeNotFound name) ∧ o = .error (.typeNotFound name) ∧
        (name ∉ namesOf (readUnits files).1 ∧ isPlatform name = false) ∧
          ∃ l₁, (shelved T tree directory (readUnits files).1 M).inv l₁ ∧
            (l' = l₁ ∨ l' = miss name l₁)) ∨
      ∃ f, TooLong directory f ∧ o = .error f ∧
        (shelved T tree directory (readUnits files).1 M).inv l' := by
  have hother : isPrimitiveName name = false → name ∉ namesOf (readUnits files).1 →
      isPlatform name = false → T name = .error (.typeNotFound name) := by
    intro hprimitive hnames hplatform
    refine h.tells.other hprimitive ?_ hplatform
    rwa [filed, namesOf_relabeled]
  refine load_comes (Q := fun o l' => isPrimitiveName name = false ∧
    (Misreads tree directory name l l' ∨
      (shelved T tree directory (readUnits files).1 M).inv l' ∧
        ((o = .ok () ∧ (name ∈ namesOf (readUnits files).1 ∨ isPlatform name = true →
            l'.graph.contains name = true)) ∨ ∃ f, TooLong directory f ∧ o = .error f)))
    ?_ ?_ ?_ ?_ ?_ ?_ ?_
  · exact fun hprimitive => .inr (.inl ⟨_, h.tells.primitive hprimitive, rfl, hl⟩)
  · exact fun t ht => .inr (.inl ⟨t, hl.1.bears.held ht, rfl, hl⟩)
  · intro hprimitive hgone hmissing
    obtain ⟨hnames, hplatform⟩ := hl.1.missing hmissing
    exact .inr (.inr (.inl ⟨hother hprimitive hnames hplatform, rfl, ⟨hnames, hplatform⟩, l, hl,
      .inl rfl⟩))
  · exact fun hprimitive _ _ => ⟨hprimitive, h.fetch hM hname hl⟩
  · rintro l' t ⟨-, hmisread | ⟨hl', -⟩⟩ ht
    · exact .inl hmisread
    · exact .inr (.inl ⟨t, hl'.1.bears.held ht, rfl, hl'⟩)
  · rintro l' ⟨hprimitive, hmisread | ⟨hl', ⟨-, hloaded⟩ | ⟨f, -, hf⟩⟩⟩ hgone
    · exact .inl hmisread
    · have hundeclared : ¬ (name ∈ namesOf (readUnits files).1 ∨ isPlatform name = true) := by
        intro hdeclared
        have hcontains := hloaded hdeclared
        rw [TypeGraph.contains, hgone] at hcontains
        cases hcontains
      rw [not_or, Bool.not_eq_true] at hundeclared
      exact .inr (.inr (.inl ⟨hother hprimitive hundeclared.1 hundeclared.2, rfl, hundeclared, l', hl',
        .inr rfl⟩))
    · cases hf
  · rintro f l' ⟨-, hmisread | ⟨hl', ⟨ho, -⟩ | ⟨f', hf', ho⟩⟩⟩
    · exact .inl hmisread
    · cases ho
    · cases ho
      exact .inr (.inr (.inr ⟨f, hf', rfl, hl'⟩))

end Catalogue

end StubWriter
