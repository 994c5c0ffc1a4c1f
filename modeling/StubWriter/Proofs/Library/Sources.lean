import StubWriter.Library.Load
import StubWriter.Proofs.Moves
import StubWriter.Proofs.Path

/-!
# What the files say

Where a library finds a source depends on its roots and its files alone. What it remembers of
earlier searches, the entries of archives and the names without a source, only repeats what the
files say.

* `Library.sourceIn`, `Library.anyIn`: the answers, as functions of the roots and the files.
* `Library.Sound`: what a library remembers is what it would find.
* `Library.Recalls`: a step that changes nothing but what is remembered of searches, and the log.
* `findSource?_gives`, `exists?_comes`: the searches give those answers.
-/

namespace StubWriter

open Run

namespace Library

/-- Whether a name is in the list of the types of a package. -/
def isListed (name : String) : Bool :=
  Platform.lists (splitName name).1 (splitName name).2

/-- Whether a unit of the platform declares a name. -/
def isPlatform (name : String) : Bool :=
  (Platform.unit? name).isSome

/-! ## Answers -/

/-- The answer of the tree of files to a question. -/
def askIn {α : Type} (tree : FileTree) (x : Disk α) : Except Failure α :=
  match x tree with
  | .ok a _ => .ok a
  | .error e _ => .error (.system e)

/-- The names in an archive. -/
def entriesIn (tree : FileTree) (root : Path) : Except Failure (List String) :=
  match contentAt tree root >>= membersOf with
  | .error fault => .error (.unreadableArchive root fault)
  | .ok members => .ok (members.map Prod.fst)

/-- Whether a root has a file of a relative name. -/
def hasIn (tree : FileTree) (relative : String) (root : Path) : Except Failure Bool := do
  if ← askIn tree (isArchive root) then return (← entriesIn tree root).contains relative
  else askIn tree (Disk.isFile (root / relative))

/-- The text of an entry of an archive. -/
def entryIn (tree : FileTree) (root : Path) (entry : String) : Except Failure String :=
  match contentAt tree root >>= membersOf with
  | .error fault => .error (.unreadableEntry entry root fault)
  | .ok members =>
    match members.reverse.lookup entry with
    | none => .error (.lostEntry entry)
    | some bytes =>
      match Text.decodeUtf8 bytes with
      | .ok text => .ok text
      | .error fault => .error (.unreadableEntry entry root (.encoding fault))

/-- The text of a file. -/
def fileIn (tree : FileTree) (p : Path) : Except Failure String :=
  match contentAt tree p with
  | .error fault => .error (.unreadableSource p fault)
  | .ok content =>
    match Text.decodeUtf8 content.bytes with
    | .ok text => .ok (String.ofList (Text.unifyLineEnds text.toList))
    | .error fault => .error (.unreadableSource p (.encoding fault))

/-- The text of a file of a root. -/
def textIn (tree : FileTree) (relative : String) (root : Path) : Except Failure String := do
  if ← askIn tree (isArchive root) then entryIn tree root relative
  else fileIn tree (root / relative)

section Root

variable {tree : FileTree} {relative : String} {root : Path}

theorem hasIn_error {f : Failure} (h : askIn tree (isArchive root) = .error f) :
    hasIn tree relative root = .error f := by
  rw [hasIn, h]
  rfl

theorem hasIn_archive (h : askIn tree (isArchive root) = .ok true) :
    hasIn tree relative root = (entriesIn tree root).map (·.contains relative) := by
  rw [hasIn, h]
  change (entriesIn tree root >>= fun names => Except.ok (names.contains relative)) = _
  cases entriesIn tree root <;> rfl

theorem hasIn_directory (h : askIn tree (isArchive root) = .ok false) :
    hasIn tree relative root = askIn tree (Disk.isFile (root / relative)) := by
  rw [hasIn, h]
  rfl

theorem textIn_archive (h : askIn tree (isArchive root) = .ok true) :
    textIn tree relative root = entryIn tree root relative := by
  rw [textIn, h]
  rfl

theorem textIn_directory (h : askIn tree (isArchive root) = .ok false) :
    textIn tree relative root = fileIn tree (root / relative) := by
  rw [textIn, h]
  rfl

end Root

/-- Whether any of some roots has a file of a relative name. -/
def anyIn (tree : FileTree) (relative : String) : List Path → Except Failure Bool
  | [] => return false
  | root :: rest => do
    if ← hasIn tree relative root then return true else anyIn tree relative rest

/-- The source at the first of the places that has one. -/
def firstIn (tree : FileTree) : List (String × Path) → Except Failure (Option Source)
  | [] => return none
  | (relative, root) :: rest => do
    if ← hasIn tree relative root then
      let text ← textIn tree relative root
      return some ⟨CompilationUnit.ofText text, toString (root / relative)⟩
    else firstIn tree rest

/-- The places where a name may be declared. -/
def places (roots : List Path) (name : String) : List (String × Path) :=
  (candidates name).flatMap fun relative => roots.map (relative, ·)

/-- The place that a unit of the platform is named by. -/
def platformOrigin (name : String) : String :=
  "<jdk>/" ++ relativeSource (splitText '.' name)

/-- The source that should declare a name. -/
def sourceIn (roots : List Path) (tree : FileTree) (name : String) :
    Except Failure (Option Source) := do
  match ← firstIn tree (places roots name) with
  | some source => return some source
  | none => return (Platform.unit? name).map fun unit => ⟨.ok unit, platformOrigin name⟩

theorem firstIn_some {tree : FileTree} {places : List (String × Path)} {source : Source}
    (h : firstIn tree places = .ok (some source)) : ∃ p ∈ places, ∃ text,
      hasIn tree p.1 p.2 = .ok true ∧ textIn tree p.1 p.2 = .ok text ∧
        source = ⟨CompilationUnit.ofText text, toString (p.2 / p.1)⟩ := by
  induction places with
  | nil => cases h
  | cons p ps ih =>
    unfold firstIn at h
    cases hhas : hasIn tree p.1 p.2 with
    | error f =>
      rw [hhas] at h
      cases h
    | ok has =>
      rw [hhas] at h
      cases has with
      | false =>
        obtain ⟨q, hq, hrest⟩ := ih h
        exact ⟨q, List.mem_cons_of_mem _ hq, hrest⟩
      | true =>
        cases htext : textIn tree p.1 p.2 with
        | error f =>
          simp only [bind, Except.bind, if_true, htext] at h
          cases h
        | ok text =>
          simp only [bind, Except.bind, if_true, htext] at h
          exact ⟨p, List.mem_cons_self, text, hhas, htext, (Option.some.inj (Except.ok.inj h)).symm⟩

/-- A source is a file of a root or belongs to the platform. -/
theorem sourceIn_some {roots : List Path} {tree : FileTree} {name : String} {source : Source}
    (h : sourceIn roots tree name = .ok (some source)) :
    firstIn tree (places roots name) = .ok (some source) ∨
      firstIn tree (places roots name) = .ok none ∧
        ∃ unit, Platform.unit? name = some unit ∧ source = ⟨.ok unit, platformOrigin name⟩ := by
  unfold sourceIn at h
  cases hfirst : firstIn tree (places roots name) with
  | error f =>
    rw [hfirst] at h
    cases h
  | ok source? =>
    rw [hfirst] at h
    cases source? with
    | some source' => exact .inl (congrArg _ (Except.ok.inj h))
    | none =>
      obtain ⟨unit, hunit, hsource⟩ := Option.map_eq_some_iff.mp (Except.ok.inj h)
      exact .inr ⟨rfl, unit, hunit, hsource.symm⟩

/-- The relative name of the file of its own that a name may have. -/
def ownFile (name : String) : String :=
  relativeSource (splitText '.' name)

/-! ## What is remembered -/

/-- What a library remembers of its searches is what it would find. -/
structure Sound (l : Library) : Prop where
  archives : ∀ p ∈ l.archives, entriesIn l.tree p.1 = .ok p.2
  absent : ∀ a ∈ l.absent, isListed a = false ∧ anyIn l.tree (ownFile a) l.roots = .ok false

/-- What a search may change of a library. -/
structure Recalls (l l' : Library) : Prop where
  same : l' = { l with archives := l'.archives, absent := l'.absent, log := l'.log }
  log : l.log <+: l'.log
  sound : l.Sound → l'.Sound

instance : Std.Refl Recalls :=
  ⟨fun _ => ⟨rfl, List.prefix_rfl, id⟩⟩

theorem Recalls.trans {l l' l'' : Library} (h : l.Recalls l') (h' : l'.Recalls l'') :
    l.Recalls l'' := by
  refine ⟨?_, h.log.trans h'.log, h'.sound ∘ h.sound⟩
  rw [h'.same, h.same]

instance : IsTrans Library Recalls :=
  ⟨fun _ _ _ => Recalls.trans⟩

section Fields

variable {l l' : Library} (h : l.Recalls l')
include h

theorem Recalls.roots : l'.roots = l.roots := by
  rw [h.same]

theorem Recalls.tree : l'.tree = l.tree := by
  rw [h.same]

theorem Recalls.graph : l'.graph = l.graph := by
  rw [h.same]

theorem Recalls.missing : l'.missing = l.missing := by
  rw [h.same]

theorem Recalls.known : l'.known = l.known := by
  rw [h.same]

theorem Recalls.extent : l'.extent = l.extent := by
  rw [h.same]

end Fields

/-- Libraries over given roots and files that remember nothing wrong. -/
def basedOn (roots : List Path) (tree : FileTree) : World Library where
  inv l := l.roots = roots ∧ l.tree = tree ∧ l.Sound
  excused _ := False

theorem ofUnits_basedOn (roots : List Path) (tree : FileTree)
    (units : List (String × CompilationUnit)) :
    (basedOn roots tree).inv (ofUnits roots tree units) :=
  ⟨rfl, rfl, ⟨fun _ h => absurd h List.not_mem_nil, fun _ h => absurd h List.not_mem_nil⟩⟩

variable {roots : List Path} {tree : FileTree}

theorem Recalls.based {l l' : Library} (h : l.Recalls l') (hl : (basedOn roots tree).inv l) :
    (basedOn roots tree).inv l' :=
  ⟨h.roots.trans hl.1, h.tree.trans hl.2.1, h.sound hl.2.2⟩

/-- What is remembered of searches does not depend on the types that are loaded or missing. -/
theorem basedOn_learned {l : Library} (hl : (basedOn roots tree).inv l) (graph : TypeGraph)
    (missing : List String) : (basedOn roots tree).inv { l with graph, missing } :=
  ⟨hl.1, hl.2.1, ⟨hl.2.2.archives, hl.2.2.absent⟩⟩

/-- A search that gives an answer whenever nothing wrong is remembered. -/
theorem basedOn_gives {α : Type} {x : Lookup α} [Moves Recalls x] {v : Except Failure α}
    (h : ∀ l, (basedOn roots tree).inv l → outcome (x l) = v) : (basedOn roots tree).Gives x v := by
  rintro l ⟨hroots, htree, hsound⟩
  have hmoves := Moves.moves (R := Recalls) (x := x) l
  exact ⟨⟨hmoves.roots.trans hroots, hmoves.tree.trans htree, hmoves.sound hsound⟩,
    .inl (h l ⟨hroots, htree, hsound⟩)⟩

/-! ## Files -/

instance (e : Event) : Moves Recalls (report e) :=
  moves_modify fun _ => ⟨rfl, List.prefix_append _ _, fun h => ⟨h.archives, h.absent⟩⟩

instance {α : Type} (x : Disk α) : Moves Recalls (ask x) := by
  refine moves_bind inferInstance fun l => ?_
  split <;> infer_instance

theorem ask_gives {α : Type} (x : Disk α) : (basedOn roots tree).Gives (ask x) (askIn tree x) := by
  refine World.gives_get_bind fun l hl => ?_
  rw [hl.2.1]
  unfold askIn
  cases x tree with
  | ok a _ => exact World.gives_pure
  | error e _ => exact World.gives_throw

/-- What an archive that was not opened yet is asked for. -/
theorem archiveEntries_eq (root : Path) (l : Library) :
    archiveEntries root l = match l.archives.lookup root with
      | some names => .ok names l
      | none =>
        match entriesIn l.tree root with
        | .error f => .error f l
        | .ok names => .ok names { l with archives := l.archives ++ [(root, names)] } := by
  unfold archiveEntries entriesIn
  change (match l.archives.lookup root with
    | some names => pure names
    | none => _ : Lookup (List String)) l = _
  cases l.archives.lookup root with
  | some names => rfl
  | none =>
    change (match contentAt l.tree root >>= membersOf with
      | .error fault => throw (.unreadableArchive root fault)
      | .ok members => _ : Lookup (List String)) l = _
    cases contentAt l.tree root >>= membersOf <;> rfl

instance (root : Path) : Moves Recalls (archiveEntries root) := by
  refine ⟨fun l => ?_⟩
  rw [archiveEntries_eq]
  split
  · exact Std.Refl.refl l
  · split
    · exact Std.Refl.refl l
    · rename_i names hnames
      refine ⟨rfl, List.prefix_rfl, fun h => ⟨fun p hp => ?_, h.absent⟩⟩
      rcases List.mem_append.mp hp with hp | hp
      · exact h.archives p hp
      · obtain rfl := List.mem_singleton.mp hp
        exact hnames

theorem archiveEntries_gives (root : Path) :
    (basedOn roots tree).Gives (archiveEntries root) (entriesIn tree root) := by
  refine basedOn_gives fun l ⟨_, htree, hsound⟩ => ?_
  rw [archiveEntries_eq, ← htree]
  cases hcached : l.archives.lookup root with
  | some names =>
    obtain ⟨before, after, harchives, -⟩ := List.lookup_eq_some_iff.mp hcached
    exact (hsound.archives (root, names) (by simp [harchives])).symm
  | none => cases entriesIn l.tree root <;> rfl

instance (root : Path) (entry : String) : Moves Recalls (readEntry root entry) := by
  refine moves_bind inferInstance fun l => ?_
  split
  · infer_instance
  split
  · infer_instance
  split <;> infer_instance

theorem readEntry_gives (root : Path) (entry : String) :
    (basedOn roots tree).Gives (readEntry root entry) (entryIn tree root entry) := by
  refine World.gives_get_bind fun l hl => ?_
  rw [hl.2.1]
  unfold entryIn
  cases contentAt tree root >>= membersOf with
  | error fault => exact World.gives_throw
  | ok members =>
    dsimp only
    cases members.reverse.lookup entry with
    | none => exact World.gives_throw
    | some bytes =>
      dsimp only
      cases Text.decodeUtf8 bytes with
      | ok text => exact World.gives_pure
      | error fault => exact World.gives_throw

instance (p : Path) : Moves Recalls (readFile p) := by
  refine moves_bind inferInstance fun l => ?_
  split
  · infer_instance
  split <;> infer_instance

theorem readFile_gives (p : Path) : (basedOn roots tree).Gives (readFile p) (fileIn tree p) := by
  refine World.gives_get_bind fun l hl => ?_
  rw [hl.2.1]
  unfold fileIn
  cases contentAt tree p with
  | error fault => exact World.gives_throw
  | ok content =>
    dsimp only
    cases Text.decodeUtf8 content.bytes with
    | ok text => exact World.gives_pure
    | error fault => exact World.gives_throw

instance (relative : String) (root : Path) : Moves Recalls (rootHas relative root) := by
  unfold rootHas
  infer_instance

theorem rootHas_gives (relative : String) (root : Path) :
    (basedOn roots tree).Gives (rootHas relative root) (hasIn tree relative root) := by
  refine World.gives_bind_of (ask_gives _) fun archive _ => ?_
  cases archive with
  | true => exact World.gives_bind_of (archiveEntries_gives root) fun _ _ => World.gives_pure
  | false => exact ask_gives _

instance (relative : String) (root : Path) : Moves Recalls (readFromRoot relative root) := by
  unfold readFromRoot
  infer_instance

theorem readFromRoot_gives (relative : String) (root : Path) :
    (basedOn roots tree).Gives (readFromRoot relative root) (textIn tree relative root) := by
  refine World.gives_bind_of (ask_gives _) fun archive _ => ?_
  cases archive with
  | true => exact readEntry_gives root relative
  | false => exact readFile_gives _

instance (relative : String) (roots : List Path) : Moves Recalls (anyRoot relative roots) := by
  induction roots with
  | nil => exact inferInstanceAs (Moves Recalls (pure _))
  | cons root roots ih =>
    unfold anyRoot
    infer_instance

theorem anyRoot_gives (relative : String) (among : List Path) :
    (basedOn roots tree).Gives (anyRoot relative among) (anyIn tree relative among) := by
  induction among with
  | nil => exact World.gives_pure
  | cons root rest ih =>
    refine World.gives_bind_of (rootHas_gives relative root) fun has _ => ?_
    cases has with
    | true => exact World.gives_pure
    | false => exact ih

/-! ## Sources -/

instance (places : List (String × Path)) : Moves Recalls (firstSource? places) := by
  induction places with
  | nil => exact inferInstanceAs (Moves Recalls (pure _))
  | cons place places ih =>
    unfold firstSource?
    infer_instance

theorem firstSource?_gives (places : List (String × Path)) :
    (basedOn roots tree).Gives (firstSource? places) (firstIn tree places) := by
  induction places with
  | nil => exact World.gives_pure
  | cons place rest ih =>
    refine World.gives_bind_of (rootHas_gives place.1 place.2) fun has _ => ?_
    cases has with
    | true =>
      exact World.gives_bind_of (readFromRoot_gives place.1 place.2) fun _ _ => World.gives_pure
    | false => exact ih

instance (name : String) : Moves Recalls (findSource? name) := by
  unfold findSource?
  refine moves_bind inferInstance fun l => moves_bind inferInstance fun source? => ?_
  split <;> infer_instance

theorem findSource?_gives (name : String) :
    (basedOn roots tree).Gives (findSource? name) (sourceIn roots tree name) := by
  refine World.gives_get_bind fun l hl => ?_
  rw [hl.1]
  refine World.gives_bind_of (firstSource?_gives _) fun source? _ => ?_
  cases source? <;> exact World.gives_pure

/-- Whether a name can be taken for that of a type, as a function of what is loaded and of the
files. -/
def existsAt (l : Library) (name : String) : Except Failure Bool :=
  if l.graph.contains name || l.known.contains name || isPlatform name then .ok true
  else if l.missing.contains name then .ok false
  else if isListed name then .ok true
  else anyIn l.tree (ownFile name) l.roots

theorem existsAt_recalls {l l' : Library} (h : l.Recalls l') (name : String) :
    existsAt l' name = existsAt l name := by
  rw [existsAt, existsAt, h.graph, h.known, h.missing, h.tree, h.roots]

theorem exists?_eq (name : String) (l : Library) :
    exists? name l =
      if l.graph.contains name || l.known.contains name || isPlatform name then .ok true l
      else if l.missing.contains name || l.absent.contains name then .ok false l
      else if isListed name then .ok true l
      else
        match anyRoot (ownFile name) l.roots l with
        | .ok true l' => .ok true l'
        | .ok false l' => .ok false { l' with absent := l'.absent ++ [name] }
        | .error f l' => .error f l' := by
  change (if l.graph.contains name || l.known.contains name || isPlatform name then pure true
    else if l.missing.contains name || l.absent.contains name then pure false
    else if isListed name then pure true
    else anyRoot (ownFile name) l.roots >>= fun found => if found then pure true else
      (modify fun l => { l with absent := l.absent ++ [name] }) >>= fun _ => pure false :
    Lookup Bool) l = _
  split
  · rfl
  split
  · rfl
  split
  · rfl
  change EStateM.bind _ _ l = _
  unfold EStateM.bind
  cases anyRoot (ownFile name) l.roots l with
  | error f l' => rfl
  | ok found l' => cases found <;> rfl

theorem anyRoot_outcome {l : Library} (hl : l.Sound) (relative : String) :
    outcome (anyRoot relative l.roots l) = anyIn l.tree relative l.roots :=
  (anyRoot_gives relative l.roots l ⟨rfl, rfl, hl⟩).2.resolve_right fun ⟨_, hf, _⟩ => hf

instance (name : String) : Moves Recalls (exists? name) := by
  refine ⟨fun l => ?_⟩
  rw [exists?_eq]
  split
  · exact Std.Refl.refl l
  split
  · exact Std.Refl.refl l
  split
  · exact Std.Refl.refl l
  rename_i hlisted
  have hrecalls := Moves.moves (R := Recalls) (x := anyRoot (ownFile name) l.roots) l
  cases hrun : anyRoot (ownFile name) l.roots l with
  | error f l' =>
    rw [hrun] at hrecalls
    exact hrecalls
  | ok found l' =>
    rw [hrun] at hrecalls
    cases found with
    | true => exact hrecalls
    | false =>
      refine ⟨?_, hrecalls.log, fun hl => ⟨(hrecalls.sound hl).archives, fun a ha => ?_⟩⟩
      · have hsame : l' = { l with archives := l'.archives, absent := l'.absent, log := l'.log } :=
          hrecalls.same
        conv_lhs => rw [stateAfter, hsame]
        rfl
      · rcases List.mem_append.mp ha with ha | ha
        · exact (hrecalls.sound hl).absent a ha
        · obtain rfl := List.mem_singleton.mp ha
          have hany := anyRoot_outcome hl (ownFile a)
          rw [hrun] at hany
          refine ⟨Bool.eq_false_iff.mpr hlisted, ?_⟩
          exact hrecalls.tree ▸ hrecalls.roots ▸ hany.symm

/-- Whether a name exists follows from what is loaded and from the files, as long as nothing wrong is
remembered. -/
theorem exists?_outcome {l : Library} (hl : l.Sound) (name : String) :
    outcome (exists? name l) = existsAt l name := by
  rw [exists?_eq, existsAt]
  split
  · rfl
  by_cases hmissing : l.missing.contains name = true
  · rw [if_pos (by rw [hmissing, Bool.true_or]), if_pos hmissing]
    rfl
  rw [if_neg hmissing]
  by_cases habsent : l.absent.contains name = true
  · obtain ⟨hlisted, hany⟩ := hl.absent name (List.contains_iff_mem.mp habsent)
    rw [if_pos (by rw [habsent, Bool.or_true]), hlisted, hany]
    rfl
  rw [if_neg (by simp only [hmissing, habsent, Bool.or_self, Bool.false_eq_true, not_false_iff])]
  split
  · rfl
  rw [← anyRoot_outcome hl]
  cases anyRoot (ownFile name) l.roots l with
  | error f l' => rfl
  | ok found l' => cases found <;> rfl

/-- A library over one root that has loaded nothing yet looks for a name that the platform does not
know in its own file. -/
theorem exists?_fresh {root : Path} {name : String} {l : Library}
    (hl : (ofUnits [root] tree []).Recalls l) (hplatform : isPlatform name = false)
    (hlisted : isListed name = false) :
    outcome (exists? name l) = hasIn tree (ownFile name) root := by
  rw [exists?_outcome (hl.sound (ofUnits_basedOn [root] tree []).2.2), existsAt_recalls hl, existsAt]
  change (if isPlatform name then Except.ok true else if isListed name then Except.ok true else
    anyIn tree (ownFile name) [root]) = _
  rw [hplatform, hlisted, if_neg Bool.false_ne_true, if_neg Bool.false_ne_true, anyIn]
  rcases hasIn tree (ownFile name) root with f | (_ | _) <;> rfl

end Library

end StubWriter
