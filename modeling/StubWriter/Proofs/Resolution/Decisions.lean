import Mathlib.Data.List.Flatten
import Mathlib.Data.List.Induction
import StubWriter.Proofs.Resolution.Members

/-!
# Which slots are decided, and how

A resolution by a relation, written out: which slots are decided and in which order, what becomes of
each, and how far that depends on the order of the levels.

* `keys_collectAbstract`: the slots come in the order of their first abstract methods.
* `resolve_meets`: what a resolution of an accepted target holds.
* `keeps_perm_iff`: levels in another order decide the same slots, and all orders keep a slot alike
  exactly when it does not matter which level with an abstract method of it comes last.
* `not_keeps_perm`: it can matter.
-/

namespace StubWriter.Resolution

/-! ## Slots in their order -/

/-- The slots of the abstract methods, in the order in which the walk first meets them. -/
def abstractSlots (levels : List Level) : List Slot :=
  (((walked levels).filter (·.isAbstract)).map Method.slot).eraseDups

theorem mem_abstractSlots {levels : List Level} {k : Slot} :
    k ∈ abstractSlots levels ↔ ∃ m ∈ walked levels, m.isAbstract = true ∧ m.slot = k := by
  simp [abstractSlots, and_assoc]

theorem eraseDups_concat (ks : List Slot) (k : Slot) :
    (ks ++ [k]).eraseDups = if k ∈ ks then ks.eraseDups else ks.eraseDups ++ [k] := by
  rw [List.eraseDups_append]
  split <;> simp [List.removeAll, List.eraseDups_cons, *]

theorem keys_foldl_set (ms : List Method) :
    Keyed.keys (ms.foldl (fun acc m => if m.isAbstract then Keyed.set m.slot m acc else acc) []) =
      ((ms.filter (·.isAbstract)).map Method.slot).eraseDups := by
  induction ms using List.reverseRecOn with
  | nil => rfl
  | append_singleton ms m ih =>
    rw [List.foldl_append, List.foldl_cons, List.foldl_nil, List.filter_append]
    by_cases ha : m.isAbstract = true
    · -- A slot that was met before keeps its place.
      rw [if_pos ha, Keyed.set, Keyed.keys_alter, ih, List.filter_cons_of_pos ha, List.filter_nil,
        List.map_append, List.map_singleton, eraseDups_concat]
      simp only [List.mem_eraseDups]
    · rw [if_neg ha, ih, List.filter_cons_of_neg ha, List.filter_nil, List.append_nil]

/-- Slots are collected in the order of their first abstract methods, each once. -/
theorem keys_collectAbstract (levels : List Level) :
    Keyed.keys (collectAbstract levels) = abstractSlots levels :=
  keys_foldl_set (walked levels)

/-! ## What a resolution holds -/

variable {rel : String → String → Bool} {t : TypeInfo} {levels levels' : List Level}
  {constructors : List Constructor} {k : Slot} {a : Method} {d : Decision}

/-- Some method of the levels implements an abstract one: it stands in the same slot, is not
abstract and returns what the abstract one accepts. -/
def Implemented (rel : String → String → Bool) (levels : List Level) (a : Method) : Prop :=
  ∃ b ∈ walked levels,
    b.isAbstract = false ∧ b.name = a.name ∧ b.params = a.params ∧ rel a.returns b.returns = true

theorem implemented_iff_concreteOf :
    Implemented rel levels a ↔ ∃ c ∈ concreteOf levels a.slot, rel a.returns c.returns = true := by
  have hslot : ∀ b : Method, b.slot = a.slot ↔ b.name = a.name ∧ b.params = a.params := by
    intro b
    simp [Method.slot]
  constructor
  · rintro ⟨b, hb, hconcrete, hname, hparams, hfits⟩
    exact ⟨b, mem_concreteOf.mpr ⟨hb, hconcrete, (hslot b).mpr ⟨hname, hparams⟩⟩, hfits⟩
  · rintro ⟨b, hb, hfits⟩
    obtain ⟨hb, hconcrete, hsame⟩ := mem_concreteOf.mp hb
    exact ⟨b, hb, hconcrete, ((hslot b).mp hsame).1, ((hslot b).mp hsame).2, hfits⟩

theorem settle_eq_drop_iff (ha : a.slot = k) :
    settle rel (concreteOf levels k) a = .drop ↔ Implemented rel levels a := by
  subst ha
  have hfits : (∃ c ∈ concreteOf levels a.slot, c.slot = a.slot ∧ rel a.returns c.returns = true) ↔
      ∃ c ∈ concreteOf levels a.slot, rel a.returns c.returns = true :=
    exists_congr fun c => and_congr_right fun hc => and_iff_right (mem_concreteOf.mp hc).2.2
  rw [implemented_iff_concreteOf, ← hfits]
  simp [settle, sameSlot]

theorem keys_decisions_ofRel :
    Keyed.keys (ofRel rel t levels constructors).decisions = abstractSlots levels := by
  rw [← keys_collectAbstract]
  exact List.map_map

/-- A decision is made for the last abstract method of its slot. -/
theorem drop_iff_of_mem_decisions (hd : (k, d) ∈ (ofRel rel t levels constructors).decisions) :
    ∃ a, (abstractOf levels k).getLast? = some a ∧ (d = .drop ↔ Implemented rel levels a) := by
  obtain ⟨⟨k', a⟩, hp, hpair⟩ := List.mem_map.mp hd
  simp only [Prod.mk.injEq] at hpair
  obtain ⟨rfl, rfl⟩ := hpair
  have hlast : (abstractOf levels k').getLast? = some a := by
    rw [← get?_collectAbstract]
    exact Keyed.get?_of_mem (nodup_keys_collectAbstract levels) hp
  have hslot := (mem_abstractOf.mp (List.mem_of_getLast? hlast)).2.2
  refine ⟨a, hlast, ?_⟩
  rw [get?_collectConcrete, settle_eq_drop_iff hslot]

theorem keys_kept_map (f : Slot × Method → Decision) (methods : List (Slot × Method))
    (hnodup : (Keyed.keys methods).Nodup) :
    Keyed.keys (kept (methods.map fun p => (p.1, f p)) methods) =
      Keyed.keys ((methods.map fun p => (p.1, f p)).filter fun q => q.2 == .keep) := by
  have hkeys : Keyed.keys (methods.map fun p => (p.1, f p)) = Keyed.keys methods := List.map_map
  have hown : ∀ p ∈ methods, (Keyed.get? p.1 (methods.map fun p => (p.1, f p)) == some .keep) =
      (f p == .keep) := by
    intro p hp
    have hdecided : (p.1, f p) ∈ methods.map fun p => (p.1, f p) := List.mem_map.mpr ⟨p, hp, rfl⟩
    rw [Keyed.get?_of_mem (hkeys ▸ hnodup) hdecided]
    rfl
  rw [kept, List.filter_congr hown, List.filter_map, Keyed.keys, Keyed.keys, List.map_map]
  rfl

/-- The members come in the order of the decisions that keep them. -/
theorem keys_members_ofRel :
    Keyed.keys (ofRel rel t levels constructors).members =
      Keyed.keys ((ofRel rel t levels constructors).decisions.filter fun q => q.2 == .keep) :=
  keys_kept_map _ _ (nodup_keys_collectAbstract levels)

theorem eq_of_selectConstructors (h : selectConstructors t = .ok constructors) :
    constructors =
      if t.isInterface then [] else t.constructors.filter fun c => c.visibility != .priv := by
  unfold selectConstructors at h
  split at h
  · rename_i hi
    rw [if_pos hi]
    exact (Except.ok.inj h).symm
  · rename_i hi
    rw [if_neg hi]
    dsimp only at h
    split at h
    · cases h
    · exact (Except.ok.inj h).symm

/-- The resolution of an accepted target. Slots are decided in the order of their first abstract
methods, each once, and each by its last one: it is dropped when some method of the walk implements
that one. The members are the slots that are kept, each with its last abstract method. -/
theorem resolve_meets {m : Type → Type} [Monad m] [LawfulMonad m] [MonadExcept Failure m]
    (rel : String → String → Bool) (hcheck : checkTarget t = .ok ())
    (hconstructors : selectConstructors t = .ok constructors) (levels : List Level) :
    ∃ r, resolve t levels (fun a b => (pure (rel a b) : m Bool)) = pure r ∧ r.target = t ∧
      Keyed.keys r.decisions = abstractSlots levels ∧ (abstractSlots levels).Nodup ∧
      (∀ k d, (k, d) ∈ r.decisions → ∃ a, (abstractOf levels k).getLast? = some a ∧
        (d = .drop ↔ Implemented rel levels a)) ∧
      Keyed.keys r.members = Keyed.keys (r.decisions.filter fun q => q.2 == .keep) ∧
      (∀ k a, (k, a) ∈ r.members → (abstractOf levels k).getLast? = some a) ∧
      r.constructors =
        if t.isInterface then [] else t.constructors.filter fun c => c.visibility != .priv := by
  refine ⟨ofRel rel t levels constructors, resolve_pure rel hcheck hconstructors levels, rfl,
    keys_decisions_ofRel, ?_, fun k d => drop_iff_of_mem_decisions, keys_members_ofRel, ?_,
    eq_of_selectConstructors hconstructors⟩
  · rw [← keys_collectAbstract]
    exact nodup_keys_collectAbstract levels
  · intro k a ha
    exact ((mem_members_ofRel rel hcheck hconstructors levels k a).mp ha).1

/-! ### A narrowed result, once more -/

theorem resolve_meets_narrowed :
    checkTarget (sampleClass "B" [narrow]) = .ok () ∧
    selectConstructors (sampleClass "B" [narrow]) = .ok [⟨"B", [], [], .pub⟩] ∧
    ∃ r, (resolve (sampleClass "B" [narrow]) narrowedLevels fun a b => .ok (widensToObject a b) :
        Except Failure Resolution) = .ok r ∧
      Keyed.keys r.decisions = [narrow.slot] ∧
      ∀ k d, (k, d) ∈ r.decisions → ∃ a, (abstractOf narrowedLevels k).getLast? = some a ∧
        (d = .drop ↔ Implemented widensToObject narrowedLevels a) := by
  have hconstructors : selectConstructors (sampleClass "B" [narrow]) = .ok [⟨"B", [], [], .pub⟩] :=
    rfl
  obtain ⟨r, hrun, -, hkeys, -, hdecided, -⟩ :=
    resolve_meets (m := Except Failure) widensToObject rfl hconstructors narrowedLevels
  exact ⟨rfl, rfl, r, hrun, hkeys.trans (by decide), hdecided⟩

/-! ## Levels in another order -/

theorem walked_perm (h : levels.Perm levels') : (walked levels).Perm (walked levels') :=
  h.flatMap_right _

theorem implemented_perm (h : levels.Perm levels') :
    Implemented rel levels' a ↔ Implemented rel levels a := by
  unfold Implemented
  simp only [(walked_perm h).mem_iff]

theorem exists_last_perm (h : levels.Perm levels') (ha : (abstractOf levels k).getLast? = some a) :
    ∃ b, (abstractOf levels' k).getLast? = some b := by
  obtain ⟨ha, habs, hk⟩ := mem_abstractOf.mp (List.mem_of_getLast? ha)
  have hne : abstractOf levels' k ≠ [] :=
    List.ne_nil_of_mem (mem_abstractOf.mpr ⟨(walked_perm h).mem_iff.mp ha, habs, hk⟩)
  exact ⟨_, List.getLast?_eq_some_getLast hne⟩

/-- Whether a target over its levels has a resolution that decides a slot. -/
def Decides (rel : String → String → Bool) (t : TypeInfo) (levels : List Level) (k : Slot) : Prop :=
  ∃ r, (resolve t levels fun a b => .ok (rel a b) : Except Failure Resolution) = .ok r ∧
    k ∈ Keyed.keys r.decisions

/-- Whether a target over its levels has a resolution that keeps a slot. -/
def Keeps (rel : String → String → Bool) (t : TypeInfo) (levels : List Level) (k : Slot) : Prop :=
  ∃ r, (resolve t levels fun a b => .ok (rel a b) : Except Failure Resolution) = .ok r ∧
    k ∈ Keyed.keys r.members

section Accepted

variable (hcheck : checkTarget t = .ok ()) (hconstructors : selectConstructors t = .ok constructors)
include hcheck hconstructors

theorem decides_iff : Decides rel t levels k ↔ k ∈ abstractSlots levels := by
  have hrun := resolve_pure (m := Except Failure) rel hcheck hconstructors levels
  constructor
  · rintro ⟨r, hr, hk⟩
    obtain rfl := Except.ok.inj (hrun.symm.trans hr)
    exact keys_decisions_ofRel ▸ hk
  · exact fun hk => ⟨_, hrun, keys_decisions_ofRel ▸ hk⟩

theorem keeps_iff : Keeps rel t levels k ↔
    ∃ a, (abstractOf levels k).getLast? = some a ∧ ¬ Implemented rel levels a := by
  have hrun := resolve_pure (m := Except Failure) rel hcheck hconstructors levels
  have hmember : ∀ a, (k, a) ∈ (ofRel rel t levels constructors).members ↔
      (abstractOf levels k).getLast? = some a ∧ ¬ Implemented rel levels a := by
    intro a
    rw [mem_members_ofRel rel hcheck hconstructors]
    refine and_congr_right fun ha => ?_
    obtain rfl := (mem_abstractOf.mp (List.mem_of_getLast? ha)).2.2
    simp [implemented_iff_concreteOf]
  constructor
  · rintro ⟨r, hr, hk⟩
    obtain rfl := Except.ok.inj (hrun.symm.trans hr)
    obtain ⟨a, ha⟩ := Keyed.mem_keys_iff.mp hk
    exact ⟨a, (hmember a).mp (Keyed.mem_of_get? ha)⟩
  · rintro ⟨a, ha⟩
    exact ⟨_, hrun, List.mem_map.mpr ⟨(k, a), (hmember a).mpr ha, rfl⟩⟩

end Accepted

/-! ### The level that comes last -/

/-- The last abstract method of a slot on one level. -/
def lastOn (l : Level) (k : Slot) : Option Method :=
  (abstractOf [l] k).getLast?

theorem abstractOf_concat (levels : List Level) (l : Level) (k : Slot) :
    abstractOf (levels ++ [l]) k = abstractOf levels k ++ abstractOf [l] k := by
  simp [abstractOf, walked]

theorem getLast?_abstractOf_concat (levels : List Level) (l : Level) (k : Slot) :
    (abstractOf (levels ++ [l]) k).getLast? =
      (lastOn l k).or (abstractOf levels k).getLast? := by
  rw [abstractOf_concat, List.getLast?_append, lastOn]

/-- The last abstract method of a slot is the last one on some level. -/
theorem exists_lastOn (ha : (abstractOf levels k).getLast? = some a) :
    ∃ l ∈ levels, lastOn l k = some a := by
  induction levels using List.reverseRecOn with
  | nil => cases ha
  | append_singleton levels l ih =>
    rw [getLast?_abstractOf_concat] at ha
    cases hl : lastOn l k with
    | some b =>
      rw [hl] at ha
      exact ⟨l, by simp, hl.trans ha⟩
    | none =>
      rw [hl] at ha
      obtain ⟨l', hl', hlast⟩ := ih ha
      exact ⟨l', List.mem_append_left _ hl', hlast⟩

/-- Every level may come last. -/
theorem exists_perm_last {l : Level} (hl : l ∈ levels) (ha : lastOn l k = some a) :
    ∃ levels', levels.Perm levels' ∧ (abstractOf levels' k).getLast? = some a := by
  obtain ⟨before, after, rfl⟩ := List.append_of_mem hl
  refine ⟨before ++ after ++ [l], ?_, ?_⟩
  · rw [List.append_assoc]
    exact (List.perm_append_singleton l after).symm.append_left before
  · rw [getLast?_abstractOf_concat, ha, Option.some_or]

/-- Levels in another order decide the same slots. All orders keep a slot alike exactly when the
last abstract methods of it, one for each level that has any, are all implemented or all not. -/
theorem keeps_perm_iff (rel : String → String → Bool) (hcheck : checkTarget t = .ok ())
    (hconstructors : selectConstructors t = .ok constructors) (levels : List Level) (k : Slot) :
    (∀ levels', levels.Perm levels' → (Decides rel t levels' k ↔ Decides rel t levels k)) ∧
    ((∀ levels', levels.Perm levels' → (Keeps rel t levels' k ↔ Keeps rel t levels k)) ↔
      ∀ l₁ ∈ levels, ∀ l₂ ∈ levels, ∀ a₁ a₂, lastOn l₁ k = some a₁ → lastOn l₂ k = some a₂ →
        (Implemented rel levels a₁ ↔ Implemented rel levels a₂)) := by
  refine ⟨fun levels' hperm => ?_, fun hsame => ?_, fun hsame levels' hperm => ?_⟩
  · rw [decides_iff hcheck hconstructors, decides_iff hcheck hconstructors, mem_abstractSlots,
      mem_abstractSlots]
    simp only [(walked_perm hperm).mem_iff]
  · -- Whichever level is put last, its last abstract method decides.
    have hlast : ∀ l ∈ levels, ∀ a, lastOn l k = some a →
        (Keeps rel t levels k ↔ ¬ Implemented rel levels a) := by
      intro l hl a ha
      obtain ⟨levels', hperm, hlast⟩ := exists_perm_last hl ha
      rw [← hsame levels' hperm, keeps_iff hcheck hconstructors, hlast]
      simp [implemented_perm hperm]
    intro l₁ hl₁ l₂ hl₂ a₁ a₂ ha₁ ha₂
    exact not_iff_not.mp ((hlast l₁ hl₁ a₁ ha₁).symm.trans (hlast l₂ hl₂ a₂ ha₂))
  · rw [keeps_iff hcheck hconstructors, keeps_iff hcheck hconstructors]
    simp only [implemented_perm hperm]
    have halike : ∀ {a₁ a₂}, (abstractOf levels' k).getLast? = some a₁ →
        (abstractOf levels k).getLast? = some a₂ →
        (Implemented rel levels a₁ ↔ Implemented rel levels a₂) := by
      intro a₁ a₂ ha₁ ha₂
      obtain ⟨l₁, hl₁, hlast₁⟩ := exists_lastOn ha₁
      obtain ⟨l₂, hl₂, hlast₂⟩ := exists_lastOn ha₂
      exact hsame l₁ (hperm.mem_iff.mpr hl₁) l₂ hl₂ a₁ a₂ hlast₁ hlast₂
    constructor
    · rintro ⟨a₁, ha₁, hopen⟩
      obtain ⟨a₂, ha₂⟩ := exists_last_perm hperm.symm ha₁
      exact ⟨a₂, ha₂, fun h => hopen ((halike ha₁ ha₂).mpr h)⟩
    · rintro ⟨a₂, ha₂, hopen⟩
      obtain ⟨a₁, ha₁⟩ := exists_last_perm hperm ha₂
      exact ⟨a₁, ha₁, fun h => hopen ((halike ha₁ ha₂).mp h)⟩

/-! ### A class that returns too much -/

/-- A method that is not abstract and returns any object. -/
def provided : Method := sampleMethod "C" objectName .pub false

/-- A type that declares an abstract method with a wide result, one with a narrow result, and one
with an implementation that fits the first only. -/
def mixedLevels : List Level :=
  [⟨sampleClass "A" [wide], [wide], []⟩, ⟨sampleClass "B" [narrow], [narrow], []⟩,
    ⟨sampleClass "C" [provided], [provided], []⟩]

/-- The same levels with the wide result after the narrow one. -/
def mixedAgain : List Level :=
  [⟨sampleClass "B" [narrow], [narrow], []⟩, ⟨sampleClass "A" [wide], [wide], []⟩,
    ⟨sampleClass "C" [provided], [provided], []⟩]

theorem keeps_perm_iff_mixed :
    checkTarget (sampleClass "T" []) = .ok () ∧
    selectConstructors (sampleClass "T" []) = .ok [⟨"T", [], [], .pub⟩] ∧
    ¬ ∀ levels', mixedLevels.Perm levels' →
      (Keeps widensToObject (sampleClass "T" []) levels' wide.slot ↔
        Keeps widensToObject (sampleClass "T" []) mixedLevels wide.slot) := by
  refine ⟨rfl, rfl, fun hsame => ?_⟩
  have hconstructors : selectConstructors (sampleClass "T" []) = .ok [⟨"T", [], [], .pub⟩] := rfl
  have halike := (keeps_perm_iff widensToObject rfl hconstructors mixedLevels wide.slot).2.mp hsame _
    (List.mem_cons_self) _ (List.mem_cons_of_mem _ List.mem_cons_self) wide narrow rfl rfl
  have hwide : Implemented widensToObject mixedLevels wide := ⟨provided, by decide, by decide⟩
  have hnarrow : ¬ Implemented widensToObject mixedLevels narrow := by
    unfold Implemented
    decide
  exact hnarrow (halike.mp hwide)

/-- What is kept can depend on the order of the levels. -/
theorem not_keeps_perm :
    ¬ ∀ (rel : String → String → Bool), (∀ x, rel x x = true) →
      (∀ x y z, rel x y = true → rel y z = true → rel x z = true) →
      ∀ (t : TypeInfo), checkTarget t = .ok () → (∃ cs, selectConstructors t = .ok cs) →
      ∀ levels levels', levels.Perm levels' →
      ∀ k, Keeps rel t levels k ↔ Keeps rel t levels' k := by
  intro h
  have hsame := h widensToObject widensToObject_refl widensToObject_trans (sampleClass "T" []) rfl
    ⟨_, rfl⟩ mixedLevels mixedAgain (List.Perm.swap _ _ _) wide.slot
  have hkept : Keeps widensToObject (sampleClass "T" []) mixedLevels wide.slot :=
    ⟨_, rfl, by decide⟩
  obtain ⟨r, hr, hmember⟩ := hsame.mp hkept
  cases hr
  exact absurd hmember (by decide)

end StubWriter.Resolution
