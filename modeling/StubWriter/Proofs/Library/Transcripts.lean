import StubWriter.Proofs.Library.Lockstep
import StubWriter.Proofs.Library.Sessions

/-!
# Sessions in step

Libraries whose files answer alike give answers that belong together in every session, step for
step, until the first of them comes to a failure that is excused.

* `Library.transcript`: what a library answers in a session.
* `Query.perform_inStep`: a step of a session.
* `Comparison.Agrees.transcript`: a whole session.
-/

namespace StubWriter

open Run Run.Link

/-- Answers that say the same but for the places of types. -/
inductive Answer.Twin (N : Naming) : Answer → Answer → Prop
  | type {t t' : TypeInfo} (h : StubWriter.Twin N t t') : Twin N (.type t) (.type t')
  | levels {ls ls' : List Level} (h : List.Forall₂ (Level.Twin N) ls ls') :
    Twin N (.levels ls) (.levels ls')
  | resolution {r r' : Resolution} (h : Resolution.Twin N r r') :
    Twin N (.resolution r) (.resolution r')
  | verdict (found : Bool) : Twin N (.verdict found) (.verdict found)

/-- The name that a query makes a library look for. Types that others are compared to are not looked
for. -/
def Query.name : Query → String
  | .about (.load name) | .about (.levels name) | .about (.resolve name) => name
  | .about (.isAssignable _ source) => source
  | .existence name => name

/-- The answers to queries, one after the other. -/
def Walk.answers (w : Walk Library) : List Query → List (Except Failure Answer)
  | [] => []
  | q :: queries => outcome (q.perform w) :: Walk.answers (stateAfter (q.perform w)) queries

/-- What a library of texts and of files below some roots answers in a session, if there is such a
library. -/
def Library.transcript (roots : List Path) (tree : FileTree) (files : List (String × String))
    (queries : List Query) : Except Failure (List (Except Failure Answer)) :=
  let units := (readUnits files).1
  match registerUnits units (ofUnits roots tree units) with
  | .ok _ l => .ok ((Inspection.start l).answers queries)
  | .error f _ => .error f

/-- Answers that belong together, up to the first one that is excused. -/
inductive Comparison.Agreement (c : Comparison) :
    List (Except Failure Answer) → List (Except Failure Answer) → Prop
  | nil : c.Agreement [] []
  | excused {f : Failure} (h : c.excused f) (rest : List (Except Failure Answer))
    (answers : List (Except Failure Answer)) : c.Agreement (.error f :: rest) answers
  | cons {o o' : Except Failure Answer} {rest rest' : List (Except Failure Answer)}
    (h : Run.Meets c.Fails (Answer.Twin c.naming) o o') (hrest : c.Agreement rest rest') :
    c.Agreement (o :: rest) (o' :: rest')

theorem Query.perform_existence (name : String) (w : Walk Library) :
    outcome ((existence name).perform w) =
      (outcome (Library.exists? name w.types)).map Answer.verdict := by
  change outcome (EStateM.bind (Walk.lift (Library.exists? name)) _ w) = _
  unfold EStateM.bind Walk.lift
  cases Library.exists? name w.types <;> rfl

variable {c : Comparison} (h : c.Agrees)
include h

/-- A step of a session. -/
theorem Query.perform_inStep {q : Query} (hq : c.naming.good q.name) :
    (c.link.walk c.naming).InStep q.perform q.perform (Answer.Twin c.naming) := by
  have hload : ∀ name, c.naming.good name → (c.link.walk c.naming).InStep
      (Inspection.load name) (Inspection.load name) (StubWriter.Twin c.naming) :=
    fun name hname => lift_inStep (Library.load_inStep h hname)
  cases q with
  | about q =>
    cases q with
    | load name => exact inStep_bind (hload name hq) fun t t' ht => inStep_pure (.type ht)
    | levels name =>
      refine inStep_bind (hload name hq) fun t t' ht => ?_
      exact inStep_bind (TypeSupply.levels_inStep h.supply_inStep h.fair ht) fun ls ls' hls =>
        inStep_pure (.levels hls)
    | resolve name =>
      exact inStep_bind (TypeSupply.resolve_inStep h.supply_inStep h.fair hq) fun r r' hr =>
        inStep_pure (.resolution hr)
    | isAssignable target source =>
      refine inStep_bind (lift_inStep (Library.isAssignable_inStep h target hq)) ?_
      rintro found _ rfl
      exact inStep_pure (.verdict found)
  | existence name =>
    refine inStep_bind (lift_inStep (Library.exists?_inStep h hq)) ?_
    rintro found _ rfl
    exact inStep_pure (.verdict found)

namespace Comparison

theorem Agrees.answers {queries : List Query} (hqueries : ∀ q ∈ queries, c.naming.good q.name)
    {w w' : Walk Library} (hw : (c.link.walk c.naming).states w w') :
    c.Agreement (w.answers queries) (w'.answers queries) := by
  induction queries generalizing w w' with
  | nil => exact .nil
  | cons q queries ih =>
    obtain ⟨hq, hrest⟩ := List.forall_mem_cons.mp hqueries
    unfold Walk.answers
    obtain ⟨f, hf, ho⟩ | ⟨hmeets, hstates⟩ := Query.perform_inStep h hq w w' hw
    · rw [ho]
      exact .excused hf _ _
    · exact .cons hmeets (ih hrest hstates)

/-- A whole session. -/
theorem Agrees.transcript (hsize : c.tree'.size = c.tree.size) {files : List (String × String)}
    (hfiles : ∀ p ∈ (Library.readUnits files).1, p.2.Closed c.naming.good)
    {queries : List Query} (hqueries : ∀ q ∈ queries, c.naming.good q.name) :
    c.link.Meets c.Agreement (Library.transcript c.roots c.tree files queries)
      (Library.transcript c.roots' c.tree' files queries) := by
  have hstart := ofUnits_linked (c := c) (Library.readUnits files).1 hsize
  unfold Library.transcript
  dsimp only
  obtain ⟨f, l, hx, hf⟩ | ⟨_, l, _, l', hx, hy, -, hl⟩ | ⟨f, l, g, l', hx, hy, hfg, -⟩ :=
    (Library.registerUnits_inStep h hfiles).cases hstart
  · rw [hx]
    exact meets_excused hf _
  · rw [hx, hy]
    refine meets_ok (h.answers hqueries ⟨hl, rfl, ?_⟩)
    exact fun v hv => absurd hv List.not_mem_nil
  · rw [hx, hy]
    exact .inr (.error hfg)

end Comparison

end StubWriter
