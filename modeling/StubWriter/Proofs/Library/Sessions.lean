import StubWriter.Proofs.Library.Histories

/-!
# What sessions do to a library

Whatever is asked in a session, a library only loads types, remembers what it found, and reports. So
a relation that loading and remembering move along holds between the library at the start of a
session and that at its end.

* `Query`: what a session asks, the existence of names included.
* `Query.moves`: the steps of a session.
* `Walk.moves_follow`: a whole session.
-/

namespace StubWriter

open Run

/-- A question to a library, or whether a name can be taken for that of a type. -/
inductive Query where
  | about (q : Question)
  | existence (name : String)
  deriving DecidableEq, Repr

def Query.perform : Query → Inspection Answer
  | .about q => q.ask
  | .existence name => do return .verdict (← Inspection.lookup (Library.exists? name))

/-- A session after some more queries, whatever they came to. -/
def Walk.follow (w : Walk Library) (queries : List Query) : Walk Library :=
  queries.foldl (fun w q => stateAfter (q.perform w)) w

/-! ## Walks -/

namespace Walk

variable {σ : Type} {R : σ → σ → Prop}

/-- What a relation says of the types of two walks. -/
def OnTypes (R : σ → σ → Prop) (w w' : Walk σ) : Prop :=
  R w.types w'.types

instance [Std.Refl R] : Std.Refl (OnTypes R) :=
  ⟨fun w => Std.Refl.refl w.types⟩

instance [IsTrans σ R] : IsTrans (Walk σ) (OnTypes R) :=
  ⟨fun a b c h h' => IsTrans.trans (r := R) a.types b.types c.types h h'⟩

instance {α : Type} (x : EStateM Failure σ α) [Moves R x] : Moves (OnTypes R) (lift x) := by
  refine ⟨fun w => ?_⟩
  have hx := Moves.moves (R := R) (x := x) w.types
  unfold lift OnTypes
  cases hrun : x w.types with
  | ok a s =>
    rw [hrun] at hx
    exact hx
  | error f s =>
    rw [hrun] at hx
    exact hx

variable [Std.Refl R] [IsTrans σ R] (load : String → EStateM Failure σ TypeInfo)
  [∀ name, Moves R (load name)]

instance (name : String) (sub : TypeInfo) (role : SupertypeRole) :
    Moves (OnTypes R) (supertype load name sub role) := by
  unfold supertype
  infer_instance

instance (t : TypeInfo) : Moves (OnTypes R) (superclass? load t) := by
  unfold superclass?
  split <;> infer_instance

instance (expose : TypeInfo → Step σ (List Method)) [∀ t, Moves (OnTypes R) (expose t)]
    (t : TypeInfo) : Moves (OnTypes R) (inheritedFromSuperclass load expose t) := by
  unfold inheritedFromSuperclass
  refine moves_bind inferInstance fun s? => ?_
  cases s? <;> infer_instance

instance (expose : TypeInfo → Step σ (List Method)) [∀ t, Moves (OnTypes R) (expose t)]
    (t : TypeInfo) (taken : List Slot) :
    Moves (OnTypes R) (inheritedFromInterfaces load expose t taken) := by
  unfold inheritedFromInterfaces
  infer_instance

instance (depth : Nat) (t : TypeInfo) : Moves (OnTypes R) (exposed load depth t) := by
  induction depth generalizing t with
  | zero => exact inferInstanceAs (Moves _ (throw _))
  | succ depth ih =>
    unfold exposed
    refine moves_bind inferInstance fun w => ?_
    split
    · infer_instance
    have hkeep : ∀ methods : List Method, Moves (OnTypes R)
        (modify fun w => { w with views := (t.name, methods) :: w.views } : Step σ Unit) :=
      fun methods => moves_modify fun w => Std.Refl.refl w.types
    infer_instance

instance (depth n : Nat) (t : TypeInfo) : Moves (OnTypes R) (chain load depth n t) := by
  induction n generalizing t with
  | zero => exact inferInstanceAs (Moves _ (throw _))
  | succ n ih =>
    unfold chain
    have hrest : ∀ level : Level, ∀ s? : Option TypeInfo, Moves (OnTypes R) (match s? with
        | none => pure [level]
        | some s => do return level :: (← chain load depth n s)) := by
      intro level s?
      cases s? <;> infer_instance
    infer_instance

instance (depth : Nat) (t : TypeInfo) : Moves (OnTypes R) (levels load depth t) := by
  unfold levels
  infer_instance

end Walk

namespace TypeSupply

/-! ## Supplies -/

variable {σ : Type} {R : σ → σ → Prop} [Std.Refl R] [IsTrans σ R] (supply : TypeSupply σ)
  [∀ name, Moves R (supply.load name)] [∀ e, Moves R (supply.report e)]

theorem moves_levels (t : TypeInfo) : Moves (Walk.OnTypes R) (supply.levels t) := by
  unfold levels
  infer_instance

theorem moves_resolve [∀ a b, Moves R (supply.isAssignable a b)] (name : String) :
    Moves (Walk.OnTypes R) (supply.resolve name) := by
  have hlevels := supply.moves_levels (R := R)
  unfold resolve
  refine moves_bind inferInstance fun t => ?_
  split <;> infer_instance

end TypeSupply

/-! ## Libraries -/

namespace Library

variable {R : Library → Library → Prop} [Std.Refl R] [IsTrans Library R]
  [∀ name, Moves R (load name)] [∀ e, Moves R (report e)]

instance (name : String) : Moves R (supply.load name) :=
  inferInstanceAs (Moves R (load name))

instance (target source : String) : Moves R (supply.isAssignable target source) :=
  inferInstanceAs (Moves R (isAssignable target source))

instance (e : Event) : Moves R (supply.report e) :=
  inferInstanceAs (Moves R (report e))

end Library

namespace Query

variable {R : Library → Library → Prop} [Std.Refl R] [IsTrans Library R]
  [∀ name, Moves R (Library.load name)] [∀ e, Moves R (Library.report e)]
  [∀ name, Moves R (Library.exists? name)]

/-- A step of a session. -/
theorem moves_perform (q : Query) : Moves (Walk.OnTypes R) q.perform := by
  have hlevels : ∀ t, Moves (Walk.OnTypes R) (Inspection.levels t) :=
    Library.supply.moves_levels
  have hresolve : ∀ name, Moves (Walk.OnTypes R) (Inspection.resolve name) :=
    Library.supply.moves_resolve
  have hload : ∀ name, Moves (Walk.OnTypes R) (Inspection.load name) :=
    fun name => inferInstanceAs (Moves _ (Walk.lift _))
  have hassignable : ∀ a b, Moves (Walk.OnTypes R) (Inspection.isAssignable a b) :=
    fun a b => inferInstanceAs (Moves _ (Walk.lift _))
  have hexists : ∀ name, Moves (Walk.OnTypes R) (Inspection.lookup (Library.exists? name)) :=
    fun name => inferInstanceAs (Moves _ (Walk.lift _))
  cases q with
  | about q =>
    cases q with
    | load name => exact inferInstanceAs (Moves _ (Inspection.load name >>= fun t => pure _))
    | levels name =>
      exact inferInstanceAs (Moves _ (Inspection.load name >>= fun t =>
        Inspection.levels t >>= fun found => pure _))
    | resolve name => exact inferInstanceAs (Moves _ (Inspection.resolve name >>= fun r => pure _))
    | isAssignable a b =>
      exact inferInstanceAs (Moves _ (Inspection.isAssignable a b >>= fun found => pure _))
  | existence name =>
    exact inferInstanceAs (Moves _ (Inspection.lookup _ >>= fun found => pure _))

end Query

/-- A session. -/
theorem Walk.follow_moves {R : Library → Library → Prop} [Std.Refl R] [IsTrans Library R]
    [∀ name, Moves R (Library.load name)] [∀ e, Moves R (Library.report e)]
    [∀ name, Moves R (Library.exists? name)] (queries : List Query) (w : Walk Library) :
    R w.types (w.follow queries).types := by
  induction queries generalizing w with
  | nil => exact Std.Refl.refl _
  | cons q queries ih =>
    exact IsTrans.trans (r := R) _ _ _ ((q.moves_perform (R := R)).moves w)
      (ih (stateAfter (q.perform w)))

end StubWriter
