import StubWriter.Proofs.Library.Loading
import StubWriter.Proofs.Library.Platform

/-!
# Libraries without roots

A library without roots knows the names of its units from the start, and has nothing to look for but
types of the platform. So which names exist depends on the names of the units alone, except for the
names of types that are listed and nothing more: those do not exist any longer once they were looked
for.

* `InMemory`: what holds of a library of given units at all times.
* `memory`: worlds of such libraries.
* `memory_answers`: which names exist in them.
* `describe_fresh`, `describe_platform`: declarations of the units, as long as nothing was looked for
  in vain, and those of the platform describe the same whatever the library holds.
* `load_memory`: what loading comes to.
-/

namespace StubWriter

open Run

namespace Library

/-- Whether a name exists, given the names that units declare, as long as it was not looked for in
vain. -/
def existsIn (names : List String) (name : String) : Bool :=
  names.contains name || isPlatform name || isListed name

/-- A library of units that declare `names`, without roots and with a bound beyond `size`. -/
structure InMemory (names : List String) (size : Nat) (l : Library) : Prop where
  roots : l.roots = []
  extent : size < l.extent
  known : ∀ {a}, a ∈ l.known ↔ a ∈ names
  graph : ∀ {a}, l.graph.contains a = true → a ∈ names ∨ isPlatform a = true
  missing : ∀ {a}, a ∈ l.missing → a ∉ names ∧ isPlatform a = false
  absent : ∀ {a}, a ∈ l.absent → existsIn names a = false

/-- Such libraries, with a property of what they have loaded and of what they have looked for in
vain. -/
def memory (names : List String) (size : Nat) (P : TypeGraph → List String → Prop) :
    World Library where
  inv := fun l => InMemory names size l ∧ P l.graph l.missing
  excused := fun _ => False

variable {names : List String} {size : Nat} {P : TypeGraph → List String → Prop}

theorem memory_quiet : (memory names size P).Quiet :=
  fun _ _ ⟨hl, hP⟩ => ⟨⟨hl.roots, hl.extent, hl.known, hl.graph, hl.missing, hl.absent⟩, hP⟩

/-- What a search in memory comes to. -/
theorem exists?_memory {l : Library} (hl : InMemory names size l) (a : String) :
    Comes (exists? a) l fun o l' => InMemory names size l' ∧ l'.graph = l.graph ∧
      l'.missing = l.missing ∧ o = .ok (existsIn names a && !l.missing.contains a) := by
  have hknown : (l.graph.contains a || l.known.contains a || (Platform.unit? a).isSome) =
      (names.contains a || isPlatform a) := by
    rw [Bool.eq_iff_iff]
    simp only [Bool.or_eq_true, List.contains_iff_mem, hl.known, isPlatform]
    constructor
    · rintro ((h | h) | h)
      · exact hl.graph h
      · exact .inl h
      · exact .inr h
    · tauto
  have hmissing : (names.contains a || isPlatform a) = true → l.missing.contains a = false := by
    intro h
    by_contra hcontains
    have hmem : a ∈ l.missing := by simpa using hcontains
    obtain ⟨hnames, hplatform⟩ := hl.missing hmem
    simp [hnames, hplatform] at h
  unfold exists?
  refine comes_get_bind ?_
  rw [hknown]
  split
  · rename_i h
    refine ⟨hl, rfl, rfl, congrArg Except.ok ?_⟩
    rw [hmissing h, existsIn, h]
    rfl
  rename_i hunknown
  have hlisted : existsIn names a = isListed a := by
    rw [existsIn, Bool.eq_false_iff.mpr hunknown, Bool.false_or]
  split
  · rename_i h
    refine ⟨hl, rfl, rfl, congrArg Except.ok ?_⟩
    rcases Bool.or_eq_true_iff.mp h with h | h
    · rw [h]
      simp
    · rw [hl.absent (List.contains_iff_mem.mp h)]
      rfl
  rename_i hnew
  have hnew : l.missing.contains a = false := by
    rw [Bool.or_eq_true, not_or] at hnew
    exact Bool.eq_false_iff.mpr hnew.1
  rw [hnew, hlisted, Bool.not_false, Bool.and_true]
  split
  · rename_i h
    exact ⟨hl, rfl, rfl, congrArg Except.ok h.symm⟩
  rename_i hunlisted
  rw [hl.roots]
  have habsent : existsIn names a = false := hlisted.trans (Bool.eq_false_iff.mpr hunlisted)
  refine ⟨⟨hl.roots, hl.extent, hl.known, hl.graph, hl.missing, fun hb => ?_⟩, rfl, rfl,
    congrArg Except.ok (Bool.eq_false_iff.mpr hunlisted).symm⟩
  rcases List.mem_append.mp hb with hb | hb
  · exact hl.absent hb
  · rwa [List.mem_singleton.mp hb]

/-- A name is settled unless it is listed and nothing more, and may have been looked for. -/
theorem memory_answers {a : String} (h : isListed a = true →
    a ∈ names ∨ isPlatform a = true ∨ ∀ g m, P g m → a ∉ m) :
    (memory names size P).Answers (existsIn names) a := by
  rintro l ⟨hl, hP⟩
  obtain ⟨hl', hgraph, hmissing, ho⟩ := exists?_memory hl a
  refine ⟨⟨hl', by rwa [hgraph, hmissing]⟩, .inl (ho.trans (congrArg Except.ok ?_))⟩
  by_cases hm : a ∈ l.missing
  · obtain ⟨hnames, hplatform⟩ := hl.missing hm
    have hunlisted : isListed a = false := by
      by_contra hlisted
      rcases h (by simpa using hlisted) with ha | ha | ha
      · exact hnames ha
      · rw [ha] at hplatform
        cases hplatform
      · exact ha _ _ hP hm
    simp [existsIn, hnames, hplatform, hunlisted]
  · simp [hm]

/-! ## Descriptions -/

/-- As long as nothing was looked for in vain, all names mean what they mean by the names of the
units. -/
theorem fresh_meaning (names : List String) (size : Nat) (s : Scope) (n : List String) :
    (memory names size fun _ m => m = []).Gives (s.resolveName n) (s.meaning (existsIn names) n) :=
  Scope.resolveName_gives memory_quiet fun _ _ => memory_answers fun _ =>
    .inr (.inr fun _ _ hm => hm ▸ List.not_mem_nil)

section Families

variable {ι : Type} {names : ι → List String} {size : ι → Nat}
  {P : ι → TypeGraph → List String → Prop} {s : Scope}

/-- As long as nothing was looked for in vain, what a declaration describes depends on the meaning
that its names have by the names of the units. -/
theorem describe_fresh {d : Declared} {mean : List String → Except Failure String}
    (hmean : ∀ n ∈ d.decl.names, ∀ i, s.meaning (existsIn (names i)) n = mean n)
    (hP : ∀ i g m, P i g m → m = []) (package origin : String) :
    Fixed (fun i => memory (names i) (size i) (P i)) fun _ => d.describe package origin s := by
  obtain ⟨v, hv⟩ := d.describe_meaning s mean package origin
  refine fixed_of_gives v fun i => hv _ fun n hn => ?_
  refine hmean n hn i ▸ Scope.resolveName_gives memory_quiet fun a _ => memory_answers fun _ => ?_
  exact .inr (.inr fun g m hgm => by simp [hP i g m hgm])

theorem resolveName_settled (hdemand : s.onDemand = []) {n : List String}
    {mean : Except Failure String} (hmean : ∀ i, s.meaning (existsIn (names i)) n = mean)
    (hasks : ∀ a ∈ s.asks (n.headD ""), isListed a = true →
      isPlatform a = true ∨ ∀ i, a ∈ names i ∨ ∀ g m, P i g m → a ∉ m) :
    Settled (fun i => memory (names i) (size i) (P i)) fun _ => s.resolveName n := by
  have hgives : ∀ i, (memory (names i) (size i) (P i)).Gives (s.resolveName n) mean := by
    intro i
    refine hmean i ▸ Scope.resolveName_gives memory_quiet fun a ha => memory_answers fun h => ?_
    rcases hasks a ha h with h | h
    · exact .inr (.inl h)
    · exact (h i).imp_right .inr
  cases mean with
  | ok name => exact ⟨name, hgives⟩
  | error f =>
    refine ⟨"", fun i => ?_⟩
    obtain ⟨name, hname⟩ := Scope.meaning_ok (existsIn (names i)) hdemand n
    rw [hmean i] at hname
    cases hname

/-- The exception that `java.io.Closeable` throws has one meaning unless a unit declares a type
`java.lang.IOException`, which takes its place once it was looked for in vain. -/
theorem ioException_settled (hpackage : s.package = "java.io") (hdemand : s.onDemand = [])
    (hbinds : s.binds "IOException" = false) (hother : ∀ i, "java.lang.IOException" ∉ names i) :
    Settled (fun i => memory (names i) (size i) (P i)) fun _ => s.resolveName ["IOException"] := by
  have hown : qualify s.package "IOException" = "java.io.IOException" := by
    rw [hpackage]
    decide +kernel
  have hlang : "java.lang." ++ "IOException" = "java.lang.IOException" := by decide +kernel
  have hunlisted : isListed "java.lang.IOException" = false ∧
      isPlatform "java.lang.IOException" = false := by decide +kernel
  refine ⟨_, fun i => Scope.resolveName_own memory_quiet hbinds hdemand (by decide +kernel) ?_ ?_⟩
  · rintro l ⟨hl, hP⟩
    obtain ⟨hl', hgraph, hmissing, ho⟩ := exists?_memory hl (qualify s.package "IOException")
    exact ⟨⟨hl', by rwa [hgraph, hmissing]⟩, _, ho⟩
  · have hexists : existsIn (names i) "java.lang.IOException" = false := by
      simp [existsIn, hother i, hunlisted]
    have hanswers : (memory (names i) (size i) (P i)).Answers (existsIn (names i))
        "java.lang.IOException" := memory_answers fun h => by rw [hunlisted.1] at h; cases h
    rw [hlang]
    unfold World.Answers at hanswers ⊢
    rwa [hexists] at hanswers

/-- A type of the platform is the same whatever the library holds, except that the exception of
`java.io.Closeable` must not change its meaning. -/
theorem describe_platform {p : String × CompilationUnit} (hp : p ∈ Platform.units)
    {d : Declared} (hd : d ∈ p.2.declared) {mean : List String → Except Failure String}
    (hmean : ∀ n ∈ d.decl.names, ∀ i, (Scope.ofUnit p.2).meaning (existsIn (names i)) n = mean n)
    (hio : p.1 = "java.io.Closeable" → (∀ i, "java.lang.IOException" ∉ names i) ∨
      ∀ i, "java.io.IOException" ∈ names i ∨ ∀ g m, P i g m → "java.io.IOException" ∉ m)
    (package origin : String) :
    Settled (fun i => memory (names i) (size i) (P i)) fun _ =>
      d.describe package origin (Scope.ofUnit p.2) := by
  have hchecked := Platform.checked_of_mem hp
  have hdemand := hchecked.onDemand
  refine d.describe_of (settled_compositional _) fun n hn => ?_
  rcases hchecked.asks n (Declared.names_subset hd hn) with hslip | hasks
  · obtain ⟨hname, rfl⟩ := Prod.mk.inj hslip
    obtain ⟨-, hpackage, hbinds, honly⟩ := hchecked.exceptional hname
    rcases hio hname with hother | hkept
    · exact ioException_settled hpackage hdemand hbinds hother
    · refine resolveName_settled hdemand (hmean _ hn) fun a ha hlisted => .inr ?_
      rwa [honly a ha hlisted]
  · exact resolveName_settled hdemand (hmean n hn) fun a ha hlisted => .inl (hasks a ha hlisted)

end Families

/-- Whatever was looked for in vain, names that the platform asks for are settled unless they are
listed and nothing more. -/
theorem memory_settles (a : String) : (memory names size P).Succeeds (exists? a) ∧
    ((isListed a = true → isPlatform a = true) →
      (memory names size P).Answers (existsIn names) a) := by
  refine ⟨fun l ⟨hl, hP⟩ => ?_, fun h => memory_answers fun hlisted => .inr (.inl (h hlisted))⟩
  obtain ⟨hl', hgraph, hmissing, ho⟩ := exists?_memory hl a
  exact ⟨⟨hl', by rwa [hgraph, hmissing]⟩, .inl ⟨_, ho⟩⟩

/-! ## Loading -/

theorem findSource?_memory {l : Library} (hroots : l.roots = []) (name : String) :
    findSource? name l =
      .ok ((Platform.unit? name).map fun unit => ⟨.ok unit, platformOrigin name⟩) l := by
  have hplaces : (candidates name).flatMap (fun relative => l.roots.map (relative, ·)) = [] := by
    simp [hroots]
  change EStateM.bind (firstSource? _) _ l = _
  unfold EStateM.bind
  rw [hplaces]
  rfl

theorem takeIn_memory {l : Library} (hl : InMemory names size l) {d : Declared} {t : TypeInfo}
    (hname : t.name = d.fullName) (hd : d.fullName ∈ names ∨ isPlatform d.fullName = true) :
    InMemory names size (l.takeIn d t) := by
  refine ⟨hl.roots, hl.extent, hl.known, fun {a} ha => ?_, fun ha => ?_, hl.absent⟩
  · unfold takeIn TypeGraph.contains at ha
    rw [TypeGraph.get?_addType] at ha
    split at ha
    · rename_i hat
      rwa [hat, hname]
    · exact hl.graph ha
  · exact hl.missing (List.mem_of_mem_filter ha)

/-- What the search for a unit in memory comes to. -/
theorem fetch_memory {name : String}
    (hplatform : ∀ u, Platform.unit? name = some u → ∀ d ∈ u.declared,
      Ends (memory names size P).inv
        (d.describe u.packageName (platformOrigin name) (Scope.ofUnit u)) fun o =>
          ∃ t, o = .ok t ∧ ∀ g m, P g m → P (g.addType t) (m.filter (· != d.fullName)))
    {l : Library} (hl : (memory names size P).inv l) :
    Comes (fetch name) l fun o l' => o = .ok () ∧ (memory names size P).inv l' ∧
      (isPlatform name = true → l'.graph.contains name = true) := by
  have hsource := findSource?_memory hl.1.roots name
  change Comes (findSource? name >>= _) l _
  cases hu : Platform.unit? name with
  | none =>
    rw [hu] at hsource
    refine comes_bind (Q := fun o l' => o = .ok none ∧ l' = l) ?_ ?_ fun _ _ h => nomatch h.1
    · rw [Comes, hsource]
      exact ⟨rfl, rfl⟩
    · rintro _ _ ⟨ho, rfl⟩
      cases ho
      exact ⟨rfl, hl, fun h => by rw [isPlatform, hu] at h; cases h⟩
  | some u =>
    have hdeclared := (Platform.checked_of_mem (Platform.mem_units hu)).declared
    have hname : ∀ d ∈ u.declared, d.fullName = name := fun d hd =>
      List.mem_singleton.mp (hdeclared ▸ List.mem_map_of_mem hd)
    have hisPlatform : isPlatform name = true := by rw [isPlatform, hu]; rfl
    rw [hu] at hsource
    refine comes_bind (Q := fun o l' => o = .ok (some ⟨.ok u, platformOrigin name⟩) ∧ l' = l) ?_ ?_
      fun _ _ h => nomatch h.1
    · rw [Comes, hsource]
      exact ⟨rfl, rfl⟩
    · rintro _ _ ⟨ho, rfl⟩
      cases ho
      refine comes_bind (Q := fun o l' => o = .ok () ∧ (memory names size P).inv l') ?_ ?_
        fun _ _ h => nomatch h.1
      · exact ⟨rfl, memory_quiet _ _ hl⟩
      · rintro _ l' ⟨-, hl'⟩
        obtain ⟨hinv, -, ⟨ho, hall⟩ | ⟨f, -, d, hd, t, ht, -⟩⟩ := registerAll_comes
          (hplatform u hu) (fun d hd t ⟨t', ht', hadd⟩ hname' l hl => by
            cases ht'
            exact ⟨takeIn_memory hl.1 hname' (.inr (hname d hd ▸ hisPlatform)), hadd _ _ hl.2⟩) hl'
        · refine ⟨ho, hinv, fun _ => ?_⟩
          obtain ⟨d, hd, hdname⟩ : ∃ d ∈ u.declared, d.fullName = name :=
            List.mem_map.mp (hdeclared ▸ List.mem_singleton_self name)
          exact hdname ▸ hall d hd
        · cases ht

/-- What loading in memory comes to. -/
theorem load_memory {R : Except Failure TypeInfo → Prop} {name : String}
    (hprimitive : isPrimitiveName name = true → R (.ok (.ofPrimitive name)))
    (hdeclared : ∀ g m, P g m → name ∈ names → g.contains name = true)
    (hheld : ∀ l t, (memory names size P).inv l → l.graph.get? name = some t → R (.ok t))
    (hplatform : ∀ u, Platform.unit? name = some u → name ∉ names → ∀ d ∈ u.declared,
      Ends (memory names size P).inv
        (d.describe u.packageName (platformOrigin name) (Scope.ofUnit u)) fun o =>
          ∃ t, o = .ok t ∧ ∀ g m, P g m → P (g.addType t) (m.filter (· != d.fullName)))
    (hother : isPrimitiveName name = false → name ∉ names → isPlatform name = false →
      R (.error (.typeNotFound name)) ∧ ∀ g m, P g m → P g (m ++ [name])) :
    Ends (memory names size P).inv (load name) R := by
  intro l hl
  have hundeclared : l.graph.get? name = none → name ∉ names := by
    intro hnone hname
    have := hdeclared _ _ hl.2 hname
    rw [TypeGraph.contains, hnone] at this
    cases this
  change Comes (load name) l fun o l' => (memory names size P).inv l' ∧ R o
  refine load_comes (Q := fun o l' => (isPrimitiveName name = false ∧ name ∉ names) ∧ o = .ok () ∧
      (memory names size P).inv l' ∧ (isPlatform name = true → l'.graph.contains name = true))
    (fun h => ⟨hl, hprimitive h⟩) (fun t ht => ⟨hl, hheld l t hl ht⟩) ?_ ?_ ?_ ?_
    fun _ _ h => nomatch h.2.1
  · intro hp hnone hm
    obtain ⟨hnames, hnot⟩ := hl.1.missing hm
    exact ⟨hl, (hother hp hnames hnot).1⟩
  · intro hp hnone _
    have hnew := hundeclared hnone
    exact ⟨⟨hp, hnew⟩, fetch_memory (fun u hu => hplatform u hu hnew) hl⟩
  · rintro l' t ⟨-, -, hl', -⟩ ht
    exact ⟨hl', hheld l' t hl' ht⟩
  · rintro l' ⟨⟨hp, hnew⟩, -, hl', hloaded⟩ hnone
    have hnot : isPlatform name = false := by
      by_contra h
      have := hloaded (by simpa using h)
      rw [TypeGraph.contains, hnone] at this
      cases this
    obtain ⟨herror, hmiss⟩ := hother hp hnew hnot
    refine ⟨⟨⟨hl'.1.roots, hl'.1.extent, hl'.1.known, hl'.1.graph, fun ha => ?_, hl'.1.absent⟩,
      hmiss _ _ hl'.2⟩, herror⟩
    rcases List.mem_append.mp ha with ha | ha
    · exact hl'.1.missing ha
    · exact List.mem_singleton.mp ha ▸ ⟨hnew, hnot⟩

/-- There are no other types than those of the units and of the platform. -/
theorem load_unknown {l : Library} (hl : InMemory names size l) {name : String}
    (hprimitive : isPrimitiveName name = false) (hname : name ∉ names)
    (hnot : isPlatform name = false) : outcome (load name l) = .error (.typeNotFound name) := by
  have hload : Ends (memory names size fun _ _ => True).inv (load name)
      (· = .error (.typeNotFound name)) := by
    refine load_memory (fun h => ?_) (fun _ _ _ h => absurd h hname) (fun l t hl ht => ?_)
      (fun u hu => ?_) fun _ _ _ => ⟨rfl, fun _ _ _ => trivial⟩
    · rw [hprimitive] at h
      cases h
    · rcases hl.1.graph (by rw [TypeGraph.contains, ht]; rfl) with h | h
      · exact absurd h hname
      · rw [hnot] at h
        cases h
    · rw [isPlatform, hu] at hnot
      cases hnot
  exact (hload l ⟨hl, trivial⟩).2

end Library

end StubWriter
