import StubWriter.Proofs.Resolution.Slots

/-!
# What is stubbed and what is taken for implemented

A slot is stubbed with its last abstract method, whichever others the walk has met, and it is left
out as soon as any method that is not abstract fits, whether or not it can be inherited.

* `member_overrides_iff`: if some abstract method of a slot may override all abstract methods of
  it, then the member of the slot may do so exactly when it may override that one.
* `not_member_overrides`: it need not, when a type narrows a result that a type above it leaves
  wide.
* `concrete_of_drop`: a slot that is dropped has a method that is not abstract and fits. It may be
  private, and then it is one that a type of the chain declares.
* `not_inheritable_of_drop`: no other method need be there.
-/

namespace StubWriter

/-- How far a method can be seen. A word that is no access keyword leaves package access. -/
def Visibility.width : Visibility → Nat
  | .priv => 0
  | .pkg => 1
  | .other _ => 1
  | .prot => 2
  | .pub => 3

namespace Resolution

open Run

/-! ## Members -/

/-- Whether `m` may override `n`: what it returns can be stored where the result of `n` is expected,
and it can be seen at least as far. -/
def MayOverride (rel : String → String → Bool) (m n : Method) : Prop :=
  rel n.returns m.returns = true ∧ n.visibility.width ≤ m.visibility.width

/-- Whether `m` may override every abstract method of a slot. -/
def MayOverrideAll (rel : String → String → Bool) (levels : List Level) (k : Slot)
    (m : Method) : Prop :=
  ∀ n ∈ abstractOf levels k, MayOverride rel m n

theorem MayOverride.trans {rel : String → String → Bool}
    (hrel : ∀ x y z, rel x y = true → rel y z = true → rel x z = true) {l m n : Method}
    (hlm : MayOverride rel l m) (hmn : MayOverride rel m n) : MayOverride rel l n :=
  ⟨hrel _ _ _ hmn.1 hlm.1, Nat.le_trans hmn.2 hlm.2⟩

/-- The member of a slot is its last abstract method. Where some abstract method `b` of the slot may
override all of them, the member may do so exactly when it may override `b`. -/
theorem member_overrides_iff {σ : Type} {rel : String → String → Bool}
    (hrel : ∀ x y z, rel x y = true → rel y z = true → rel x z = true)
    {t : TypeInfo} {levels : List Level} {s s' : σ} {r : Resolution}
    (hrun : (resolve t levels fun target source => pure (rel target source) :
      EStateM Failure σ Resolution) s = .ok r s')
    {k : Slot} {a b : Method} (ha : (k, a) ∈ r.members) (hb : b ∈ abstractOf levels k)
    (hbest : MayOverrideAll rel levels k b) :
    (abstractOf levels k).getLast? = some a ∧
      (MayOverrideAll rel levels k a ↔ MayOverride rel a b) := by
  have hresolved := resolved_of_run hrun
  refine ⟨(hresolved.mem_members_iff.mp ha).1, fun hall => hall b hb, fun hab n hn => ?_⟩
  exact hab.trans hrel (hbest n hn)

/-! ### A narrowed result -/

def sampleMethod (owner returns : String) (visibility : Visibility) (isAbstract : Bool) :
    Method where
  declaringType := owner
  name := "f"
  returns := returns
  params := []
  throws := []
  visibility := visibility
  isAbstract := isAbstract
  isStatic := false
  isFinal := false

/-- A class that can be extended, with the given methods. -/
def sampleClass (name : String) (methods : List Method) : TypeInfo where
  name := name
  simpleName := name
  kind := .classType
  package := ""
  visibility := .pub
  modifiers := ["abstract"]
  superclass := none
  interfaces := []
  constructors := [⟨name, [], [], .pub⟩]
  methods := methods
  sourceFile := none

/-- Every type can be assigned to itself and to `java.lang.Object`. -/
def widensToObject (target source : String) : Bool :=
  target == source || target == objectName

theorem widensToObject_refl (x : String) : widensToObject x x = true := by
  simp [widensToObject]

theorem widensToObject_trans (x y z : String) (hxy : widensToObject x y = true)
    (hyz : widensToObject y z = true) : widensToObject x z = true := by
  simp only [widensToObject, Bool.or_eq_true, beq_iff_eq] at *
  rcases hxy with rfl | rfl
  · exact hyz
  · exact .inr rfl

/-- A method that returns a text. -/
def narrow : Method := sampleMethod "B" "java.lang.String" .pub true

/-- A method of the same slot that returns any object. -/
def wide : Method := sampleMethod "A" objectName .pub true

/-- An abstract class that narrows the result of a method of its superclass. -/
def narrowedLevels : List Level :=
  [⟨sampleClass "B" [narrow], [narrow], [narrow]⟩, ⟨sampleClass "A" [wide], [wide], [wide]⟩]

theorem narrowed_best : MayOverrideAll widensToObject narrowedLevels narrow.slot narrow := by
  unfold MayOverrideAll MayOverride
  decide

theorem narrowed_run :
    ∃ r, (resolve (sampleClass "B" [narrow]) narrowedLevels
        fun target source => pure (widensToObject target source) :
        EStateM Failure Unit Resolution) () = .ok r () ∧ (narrow.slot, wide) ∈ r.members :=
  ⟨_, rfl, by decide⟩

/-- One more method of the slot that returns a text. -/
def narrowAgain : Method := sampleMethod "D" "java.lang.String" .pub true

/-- A class with three interfaces, the last two of which narrow the result of a method of the first. -/
def besideClass : TypeInfo := { sampleClass "C" [] with interfaces := ["A", "B", "D"] }

def besideLevels : List Level :=
  [⟨besideClass, [], [wide, narrow, narrowAgain]⟩]

theorem beside_best : MayOverrideAll widensToObject besideLevels narrow.slot narrow := by
  unfold MayOverrideAll MayOverride
  decide

theorem beside_run :
    ∃ r, (resolve besideClass besideLevels
        fun target source => pure (widensToObject target source) :
        EStateM Failure Unit Resolution) () = .ok r () ∧ (narrow.slot, narrowAgain) ∈ r.members :=
  ⟨_, rfl, by decide⟩

/-- Below the superclass that returns any object, the member cannot override all methods. Beside the
interfaces it can, since it returns what the best of them returns. -/
theorem member_overrides_iff_narrowed :
    (∃ r, (resolve (sampleClass "B" [narrow]) narrowedLevels
        fun target source => pure (widensToObject target source) :
        EStateM Failure Unit Resolution) () = .ok r () ∧ (narrow.slot, wide) ∈ r.members ∧
      narrow ∈ abstractOf narrowedLevels narrow.slot ∧
      MayOverrideAll widensToObject narrowedLevels narrow.slot narrow ∧
      (abstractOf narrowedLevels narrow.slot).getLast? = some wide ∧
      ¬ MayOverrideAll widensToObject narrowedLevels narrow.slot wide) ∧
    ∃ r, (resolve besideClass besideLevels
        fun target source => pure (widensToObject target source) :
        EStateM Failure Unit Resolution) () = .ok r () ∧ (narrow.slot, narrowAgain) ∈ r.members ∧
      narrow ∈ abstractOf besideLevels narrow.slot ∧
      MayOverrideAll widensToObject besideLevels narrow.slot narrow ∧
      (abstractOf besideLevels narrow.slot).getLast? = some narrowAgain ∧
      MayOverrideAll widensToObject besideLevels narrow.slot narrowAgain := by
  constructor
  · obtain ⟨r, hrun, hmem⟩ := narrowed_run
    have hnarrow : narrow ∈ abstractOf narrowedLevels narrow.slot := by decide
    obtain ⟨hlast, hiff⟩ :=
      member_overrides_iff widensToObject_trans hrun hmem hnarrow narrowed_best
    have hwide : ¬ MayOverride widensToObject wide narrow := fun h => absurd h.1 (by decide)
    exact ⟨r, hrun, hmem, hnarrow, narrowed_best, hlast, fun hall => hwide (hiff.mp hall)⟩
  · obtain ⟨r, hrun, hmem⟩ := beside_run
    have hnarrow : narrow ∈ abstractOf besideLevels narrow.slot := by decide
    obtain ⟨hlast, hiff⟩ :=
      member_overrides_iff widensToObject_trans hrun hmem hnarrow beside_best
    have hagain : MayOverride widensToObject narrowAgain narrow := by
      unfold MayOverride
      decide
    exact ⟨r, hrun, hmem, hnarrow, beside_best, hlast, hiff.mpr hagain⟩

/-- The member need not override what some abstract method of its slot can. -/
theorem not_member_overrides :
    ¬ ∀ (rel : String → String → Bool), (∀ x, rel x x = true) →
      (∀ x y z, rel x y = true → rel y z = true → rel x z = true) →
      ∀ (t : TypeInfo) (levels : List Level) (r : Resolution),
      (resolve t levels fun target source => pure (rel target source) :
        EStateM Failure Unit Resolution) () = .ok r () →
      ∀ k a, (k, a) ∈ r.members →
      (∃ b ∈ abstractOf levels k, MayOverrideAll rel levels k b) →
      MayOverrideAll rel levels k a := by
  intro h
  obtain ⟨r, hrun, hmem⟩ := narrowed_run
  have hall := h widensToObject widensToObject_refl widensToObject_trans _ _ r hrun _ _ hmem
    ⟨narrow, by decide, narrowed_best⟩
  exact absurd (hall narrow (by decide)).1 (by decide)

/-! ## Implementations -/

/-- A dropped slot has a method that is not abstract and returns what the last abstract method of
the slot accepts. Where views hold public methods only, a private one is declared by its level. -/
theorem concrete_of_drop {σ : Type} {assignable : String → String → EStateM Failure σ Bool}
    {t : TypeInfo} {levels : List Level} {s s' : σ} {r : Resolution}
    (hrun : resolve t levels assignable s = .ok r s') {k : Slot}
    (hk : (k, Decision.drop) ∈ r.decisions) :
    ∃ a, (abstractOf levels k).getLast? = some a ∧ ∃ l ∈ levels, ∃ c ∈ l.declared ++ l.exposed,
      c.isAbstract = false ∧ c.slot = k ∧
      (∃ s₁ s₂, assignable a.returns c.returns s₁ = .ok true s₂) ∧
      ((∀ m ∈ l.exposed, m.visibility = .pub) → c.visibility = .priv → c ∈ l.declared) := by
  obtain ⟨a, ha, c, hc, s₁, s₂, -, hfits⟩ := (resolved_of_run hrun).settled_of_mem hk
  have hak := (mem_abstractOf.mp (List.mem_of_getLast? ha)).2.2
  obtain ⟨hwalked, hconcrete, hslot⟩ := mem_concreteOf.mp hc
  obtain ⟨l, hl, hcl⟩ := List.mem_flatMap.mp hwalked
  rw [suppresses_of_slot (hslot.trans hak.symm)] at hfits
  refine ⟨a, ha, l, hl, c, hcl, hconcrete, hslot, ⟨s₁, s₂, hfits⟩, fun hpublic hprivate => ?_⟩
  rcases List.mem_append.mp hcl with hdeclared | hexposed
  · exact hdeclared
  · rw [hpublic c hexposed] at hprivate
    cases hprivate

/-! ### A private method -/

/-- A public method of an interface. -/
def demanded : Method := sampleMethod "I" "void" .pub true

/-- A private method of a class. -/
def hidden : Method := sampleMethod "B" "void" .priv false

/-- A class with a method of an interface, below a class with a private method of the same slot. -/
def shadowedLevels : List Level :=
  [⟨sampleClass "C" [], [], [demanded]⟩, ⟨sampleClass "B" [hidden], [hidden], []⟩]

theorem shadowed_run :
    ∃ r, (resolve (sampleClass "C" []) shadowedLevels
        fun target source => pure (widensToObject target source) :
        EStateM Failure Unit Resolution) () = .ok r () ∧
      (demanded.slot, Decision.drop) ∈ r.decisions :=
  ⟨_, rfl, by decide⟩

theorem concrete_of_drop_shadowed :
    ∃ r, (resolve (sampleClass "C" []) shadowedLevels
        fun target source => pure (widensToObject target source) :
        EStateM Failure Unit Resolution) () = .ok r () ∧
      (demanded.slot, Decision.drop) ∈ r.decisions ∧
      ∃ l ∈ shadowedLevels, ∃ c ∈ l.declared ++ l.exposed,
        c.isAbstract = false ∧ c.slot = demanded.slot := by
  obtain ⟨r, hrun, hdrop⟩ := shadowed_run
  obtain ⟨a, -, l, hl, c, hc, hconcrete, hslot, -⟩ := concrete_of_drop hrun hdrop
  exact ⟨r, hrun, hdrop, l, hl, c, hc, hconcrete, hslot⟩

/-- A dropped slot need not have an implementation that can be inherited. -/
theorem not_inheritable_of_drop :
    ¬ ∀ (rel : String → String → Bool) (t : TypeInfo) (levels : List Level) (r : Resolution),
      (resolve t levels fun target source => pure (rel target source) :
        EStateM Failure Unit Resolution) () = .ok r () →
      ∀ k, (k, Decision.drop) ∈ r.decisions →
      ∃ a, (abstractOf levels k).getLast? = some a ∧ ∃ c ∈ walked levels,
        c.isAbstract = false ∧ c.slot = k ∧ c.visibility ≠ .priv ∧
        rel a.returns c.returns = true := by
  intro h
  obtain ⟨r, hrun, hdrop⟩ := shadowed_run
  obtain ⟨a, -, c, hc, hconcrete, -, hinherited, -⟩ := h widensToObject _ _ r hrun _ hdrop
  have hall : ∀ m ∈ walked shadowedLevels, m.isAbstract = false → m.visibility = .priv := by decide
  exact hinherited (hall c hc hconcrete)

end Resolution

end StubWriter
