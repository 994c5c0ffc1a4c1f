import StubWriter.Proofs.Run
import StubWriter.Resolution

/-!
# What a resolution holds

A successful resolution, slot by slot, in terms of the list of all methods of the levels.

* `get?_collectAbstract`, `get?_collectConcrete`: the two collections give each slot its last
  abstract method and all methods of the others.
* `Settled`: what a decision says of the methods from which it was made.
* `resolve_ok`: a resolution has one settled decision for each collected slot, in their order, and
  its members are the slots that are kept.
* `Resolved.mem_members_iff_rel`: the members, when the comparisons follow a relation.
-/

namespace StubWriter.Resolution

open Run

/-! ## The two collections -/

/-- The abstract methods of a slot, in the order of the walk. -/
def abstractOf (levels : List Level) (k : Slot) : List Method :=
  (walked levels).filter fun m => m.isAbstract && m.slot == k

/-- The methods of a slot that are not abstract, in the order of the walk. -/
def concreteOf (levels : List Level) (k : Slot) : List Method :=
  (walked levels).filter fun m => !m.isAbstract && m.slot == k

theorem mem_walked_cons {m : Method} {l : Level} {levels : List Level} :
    m ∈ walked (l :: levels) ↔
      m ∈ l.declared ++ l.exposed ∨ m ∈ walked levels := by
  rw [walked, List.flatMap_cons, List.mem_append]
  rfl

theorem mem_abstractOf {levels : List Level} {k : Slot} {m : Method} :
    m ∈ abstractOf levels k ↔ m ∈ walked levels ∧ m.isAbstract = true ∧ m.slot = k := by
  simp [abstractOf]

theorem mem_concreteOf {levels : List Level} {k : Slot} {m : Method} :
    m ∈ concreteOf levels k ↔ m ∈ walked levels ∧ m.isAbstract = false ∧ m.slot = k := by
  simp [concreteOf]

theorem get?_foldl_set (k : Slot) (ms : List Method) (acc : List (Slot × Method)) :
    Keyed.get? k (ms.foldl
        (fun acc m => if m.isAbstract then Keyed.set m.slot m acc else acc) acc) =
      ((ms.filter fun m => m.isAbstract && m.slot == k).getLast?).or (Keyed.get? k acc) := by
  induction ms generalizing acc with
  | nil => rfl
  | cons m ms ih =>
    rw [List.foldl_cons, ih, List.filter_cons]
    by_cases ha : m.isAbstract = true
    · rw [if_pos ha, Keyed.get?_set]
      by_cases hk : m.slot = k
      · simp only [ha, hk, beq_self_eq_true, Bool.and_self, if_true, List.getLast?_cons]
        cases (ms.filter fun m => m.isAbstract && m.slot == k).getLast? <;> rfl
      · have hne : ¬ k = m.slot := fun h => hk h.symm
        simp only [hne, if_false, beq_false_of_ne hk, Bool.and_false, Bool.false_eq_true]
    · simp only [ha, Bool.false_and, Bool.false_eq_true, if_false]

/-- A slot is collected with its last abstract method. -/
theorem get?_collectAbstract (levels : List Level) (k : Slot) :
    Keyed.get? k (collectAbstract levels) = (abstractOf levels k).getLast? := by
  rw [collectAbstract, get?_foldl_set]
  exact Option.or_none

theorem nodup_keys_collectAbstract (levels : List Level) :
    (Keyed.keys (collectAbstract levels)).Nodup := by
  have hstep : ∀ (ms : List Method) (acc : List (Slot × Method)), (Keyed.keys acc).Nodup →
      (Keyed.keys (ms.foldl
        (fun acc m => if m.isAbstract then Keyed.set m.slot m acc else acc) acc)).Nodup := by
    intro ms
    induction ms with
    | nil => exact fun acc hacc => hacc
    | cons m ms ih =>
      intro acc hacc
      rw [List.foldl_cons]
      refine ih _ ?_
      split
      · exact Keyed.nodup_keys_alter hacc
      · exact hacc
  exact hstep (walked levels) [] List.nodup_nil

theorem get?_foldl_alter (k : Slot) (ms : List Method) (acc : List (Slot × List Method)) :
    (Keyed.get? k (ms.foldl
        (fun acc m => if m.isAbstract then acc
          else Keyed.alter m.slot (fun ms => ms.getD [] ++ [m]) acc) acc)).getD [] =
      (Keyed.get? k acc).getD [] ++ ms.filter fun m => !m.isAbstract && m.slot == k := by
  induction ms generalizing acc with
  | nil => simp
  | cons m ms ih =>
    rw [List.foldl_cons, ih, List.filter_cons]
    by_cases ha : m.isAbstract = true
    · simp only [ha, Bool.not_true, Bool.false_and, Bool.false_eq_true, if_true, if_false]
    · rw [if_neg ha, Keyed.get?_alter]
      by_cases hk : m.slot = k
      · simp [ha, hk]
      · have hne : ¬ k = m.slot := fun h => hk h.symm
        simp [hk, hne]

/-- A slot is collected with all its methods that are not abstract. -/
theorem get?_collectConcrete (levels : List Level) (k : Slot) :
    (Keyed.get? k (collectConcrete levels)).getD [] = concreteOf levels k := by
  rw [collectConcrete, get?_foldl_alter]
  rfl

/-! ## Decisions -/

section Decisions

variable {σ : Type} (assignable : String → String → EStateM Failure σ Bool) (I : σ → Prop)

/-- What a decision says of the methods from which it was made: one of them was found to implement
the abstract method, or each was found not to, in states that satisfy `I`. -/
def Settled (required : Method) (concrete : List Method) : Decision → Prop
  | .drop => ∃ c ∈ concrete, ∃ s s', I s ∧ suppresses assignable c required s = .ok true s'
  | .keep => ∀ c ∈ concrete, ∃ s s', I s ∧ suppresses assignable c required s = .ok false s'

/-- A resolution of a target over its levels. -/
structure Resolved (t : TypeInfo) (levels : List Level) (r : Resolution) : Prop where
  target : r.target = t
  checked : checkTarget t = .ok ()
  constructors : selectConstructors t = .ok r.constructors
  settled : List.Forall₂ (fun p q => q.1 = p.1 ∧
    Settled assignable I p.2 (concreteOf levels p.1) q.2) (collectAbstract levels) r.decisions
  members : r.members = kept r.decisions (collectAbstract levels)

variable {assignable I}

/-- Within a slot only what is returned matters. -/
theorem suppresses_of_slot {concrete required : Method} (h : concrete.slot = required.slot) :
    suppresses assignable concrete required = assignable required.returns concrete.returns := by
  rw [suppresses, sameSlot, if_pos (by simpa using h)]

section Keeps

variable (hI : ∀ a b s, I s → Ok (assignable a b) s fun _ s' => I s')
include hI

theorem suppresses_ok (concrete required : Method) {s : σ} (hs : I s) :
    Ok (suppresses assignable concrete required) s fun found s' =>
      suppresses assignable concrete required s = .ok found s' ∧ I s' := by
  intro found s' hrun
  refine ⟨hrun, ?_⟩
  unfold suppresses at hrun
  split at hrun
  · exact hI _ _ s hs found s' hrun
  · cases hrun
    exact hs

theorem anySuppresses_ok (required : Method) (cs : List Method) {s : σ} (hs : I s) :
    Ok (anySuppresses assignable required cs) s fun found s' =>
      Settled assignable I required cs (if found then .drop else .keep) ∧ I s' := by
  induction cs generalizing s with
  | nil => exact ok_pure ⟨fun c hc => absurd hc List.not_mem_nil, hs⟩
  | cons c cs ih =>
    unfold anySuppresses
    refine ok_bind (suppresses_ok hI c required hs) fun b s₁ ⟨hb, h₁⟩ => ?_
    cases b with
    | true => exact ok_pure ⟨⟨c, List.mem_cons_self, s, s₁, hs, hb⟩, h₁⟩
    | false =>
      refine ok_mono (ih h₁) fun found s₂ ⟨hfound, h₂⟩ => ⟨?_, h₂⟩
      cases found with
      | true =>
        obtain ⟨d, hd, hrun⟩ := hfound
        exact ⟨d, List.mem_cons_of_mem _ hd, hrun⟩
      | false =>
        intro d hd
        rcases List.mem_cons.mp hd with rfl | hd
        · exact ⟨s, s₁, hs, hb⟩
        · exact hfound d hd

/-- Decisions come in the order of the slots, one for each. -/
theorem decide_ok (concrete : List (Slot × List Method)) (methods : List (Slot × Method)) {s : σ}
    (hs : I s) :
    Ok (decide assignable concrete methods) s fun decisions s' =>
      List.Forall₂ (fun p q => q.1 = p.1 ∧
        Settled assignable I p.2 ((Keyed.get? p.1 concrete).getD []) q.2) methods decisions ∧
        I s' := by
  induction methods generalizing s with
  | nil => exact ok_pure ⟨.nil, hs⟩
  | cons p ps ih =>
    unfold decide
    refine ok_bind (anySuppresses_ok hI _ _ hs) fun found s₁ ⟨hfound, h₁⟩ => ?_
    refine ok_bind (ih h₁) fun decisions s₂ ⟨hdecisions, h₂⟩ => ?_
    exact ok_pure ⟨.cons ⟨rfl, hfound⟩ hdecisions, h₂⟩

/-- A successful resolution. `I` is anything that the comparisons keep. -/
theorem resolve_ok (t : TypeInfo) (levels : List Level) {s : σ} (hs : I s) :
    Ok (resolve t levels assignable) s fun r s' => Resolved assignable I t levels r ∧ I s' := by
  unfold resolve
  cases hc : checkTarget t with
  | error f => exact ok_throw f
  | ok _ =>
    cases hconstructors : selectConstructors t with
    | error f => exact ok_throw f
    | ok constructors =>
      refine ok_bind (decide_ok hI _ _ hs) fun decisions s₁ ⟨hdecisions, h₁⟩ => ?_
      refine ok_pure ⟨⟨rfl, hc, hconstructors, ?_, rfl⟩, h₁⟩
      simpa only [get?_collectConcrete] using hdecisions

end Keeps

/-- A successful resolution, with nothing known of its states. -/
theorem resolved_of_run {t : TypeInfo} {levels : List Level} {s s' : σ} {r : Resolution}
    (hrun : resolve t levels assignable s = .ok r s') :
    Resolved assignable (fun _ => True) t levels r :=
  (resolve_ok (fun _ _ _ _ _ _ _ => trivial) t levels trivial r s' hrun).1

end Decisions

/-! ## Slots of a resolution -/

theorem get?_forall₂ {α β : Type} {R : Slot → α → β → Prop} {ps : List (Slot × α)}
    {qs : List (Slot × β)} (h : List.Forall₂ (fun p q => q.1 = p.1 ∧ R p.1 p.2 q.2) ps qs)
    (k : Slot) : Option.Rel (R k) (Keyed.get? k ps) (Keyed.get? k qs) := by
  induction h with
  | nil => exact .none
  | @cons p q ps qs hpq _ ih =>
    rw [Keyed.get?, Keyed.get?, hpq.1]
    by_cases hk : p.1 = k
    · rw [if_pos hk, if_pos hk]
      exact .some (hk ▸ hpq.2)
    · rw [if_neg hk, if_neg hk]
      exact ih

namespace Resolved

variable {σ : Type} {assignable : String → String → EStateM Failure σ Bool} {I : σ → Prop}
  {t : TypeInfo} {levels : List Level} {r : Resolution} {k : Slot} {a : Method} {d : Decision}

theorem keys_decisions (h : Resolved assignable I t levels r) :
    Keyed.keys r.decisions = Keyed.keys (collectAbstract levels) := by
  have hsettled := h.settled
  generalize collectAbstract levels = methods at hsettled
  generalize r.decisions = decisions at hsettled
  induction hsettled with
  | nil => rfl
  | cons hpq _ ih => exact congrArg₂ List.cons hpq.1 ih

theorem mem_decisions_iff (h : Resolved assignable I t levels r) :
    (k, d) ∈ r.decisions ↔ Keyed.get? k r.decisions = some d := by
  refine ⟨Keyed.get?_of_mem ?_, Keyed.mem_of_get?⟩
  rw [h.keys_decisions]
  exact nodup_keys_collectAbstract levels

/-- A slot is decided when the walk meets an abstract method of it. -/
theorem mem_keys_decisions (h : Resolved assignable I t levels r) {m : Method}
    (hm : m ∈ walked levels) (ha : m.isAbstract = true) : m.slot ∈ Keyed.keys r.decisions := by
  rw [h.keys_decisions, Keyed.mem_keys_iff]
  have hne : abstractOf levels m.slot ≠ [] :=
    List.ne_nil_of_mem (mem_abstractOf.mpr ⟨hm, ha, rfl⟩)
  exact ⟨_, (get?_collectAbstract levels m.slot).trans (List.getLast?_eq_some_getLast hne)⟩

/-- A decision on a slot compares its last abstract method with all its methods that are not. -/
theorem settled_of_mem (h : Resolved assignable I t levels r) (hd : (k, d) ∈ r.decisions) :
    ∃ a, (abstractOf levels k).getLast? = some a ∧
      Settled assignable I a (concreteOf levels k) d := by
  have hrel := get?_forall₂ (R := fun k a d => Settled assignable I a (concreteOf levels k) d)
    h.settled k
  rw [h.mem_decisions_iff.mp hd, get?_collectAbstract] at hrel
  generalize (abstractOf levels k).getLast? = last at hrel
  cases hrel with
  | some ha => exact ⟨_, rfl, ha⟩

/-- The members are the slots that are kept, each with its last abstract method. -/
theorem mem_members_iff (h : Resolved assignable I t levels r) :
    (k, a) ∈ r.members ↔
      (abstractOf levels k).getLast? = some a ∧ (k, Decision.keep) ∈ r.decisions := by
  rw [h.members, kept, List.mem_filter, h.mem_decisions_iff, ← get?_collectAbstract, beq_iff_eq]
  refine and_congr_left fun _ => ?_
  exact ⟨Keyed.get?_of_mem (nodup_keys_collectAbstract levels), Keyed.mem_of_get?⟩

/-- The members are the slots none of whose methods fits. -/
theorem mem_members_iff_rel (h : Resolved assignable I t levels r) {rel : String → String → Bool}
    (hrel : ∀ {x y s v s'}, I s → assignable x y s = .ok v s' → v = rel x y) :
    (k, a) ∈ r.members ↔ (abstractOf levels k).getLast? = some a ∧
      ∀ c ∈ concreteOf levels k, rel a.returns c.returns = false := by
  rw [h.mem_members_iff]
  refine and_congr_right fun ha => ?_
  have hak := (mem_abstractOf.mp (List.mem_of_getLast? ha)).2.2
  have hfits : ∀ c ∈ concreteOf levels k, ∀ s s' v, I s →
      suppresses assignable c a s = .ok v s' → v = rel a.returns c.returns := by
    intro c hc s s' v hs hrun
    rw [suppresses_of_slot ((mem_concreteOf.mp hc).2.2.trans hak.symm)] at hrun
    exact hrel hs hrun
  constructor
  · intro hkeep c hc
    obtain ⟨a', ha', hsettled⟩ := h.settled_of_mem hkeep
    obtain rfl := Option.some.inj (ha.symm.trans ha')
    obtain ⟨s, s', hs, hrun⟩ := hsettled c hc
    exact (hfits c hc s s' false hs hrun).symm
  · intro hnone
    obtain ⟨hwalked, habs, hslot⟩ := mem_abstractOf.mp (List.mem_of_getLast? ha)
    obtain ⟨d, hd⟩ := Keyed.mem_keys_iff.mp (hslot ▸ h.mem_keys_decisions hwalked habs)
    cases d with
    | keep => exact h.mem_decisions_iff.mpr hd
    | drop =>
      obtain ⟨a', ha', c, hc, s, s', hs, hrun⟩ := h.settled_of_mem (h.mem_decisions_iff.mpr hd)
      obtain rfl := Option.some.inj (ha.symm.trans ha')
      have htrue := hfits c hc s s' true hs hrun
      rw [hnone c hc] at htrue
      cases htrue

end Resolved

/-! ## Resolutions by a relation -/

section Relation

variable (rel : String → String → Bool)

/-- What becomes of a slot with the given methods that are not abstract. -/
def settle (concrete : List Method) (required : Method) : Decision :=
  if concrete.any fun c => sameSlot c required && rel required.returns c.returns then .drop
  else .keep

/-- The resolution of a target over its levels, given what can be assigned to what. -/
def ofRel (t : TypeInfo) (levels : List Level) (constructors : List Constructor) : Resolution :=
  let decisions := (collectAbstract levels).map fun p =>
    (p.1, settle rel ((Keyed.get? p.1 (collectConcrete levels)).getD []) p.2)
  { target := t, constructors, members := kept decisions (collectAbstract levels), decisions }

variable {m : Type → Type} [Monad m] [LawfulMonad m]

theorem anySuppresses_pure (required : Method) (cs : List Method) :
    anySuppresses (fun a b => (pure (rel a b) : m Bool)) required cs =
      pure (cs.any fun c => sameSlot c required && rel required.returns c.returns) := by
  induction cs with
  | nil => rfl
  | cons c cs ih =>
    have hfits : suppresses (fun a b => (pure (rel a b) : m Bool)) c required =
        pure (sameSlot c required && rel required.returns c.returns) := by
      unfold suppresses
      cases sameSlot c required <;> rfl
    rw [anySuppresses, hfits, pure_bind, ih, List.any_cons]
    cases sameSlot c required && rel required.returns c.returns <;> rfl

theorem decide_pure (concrete : List (Slot × List Method)) (methods : List (Slot × Method)) :
    decide (fun a b => (pure (rel a b) : m Bool)) concrete methods =
      pure (methods.map fun p =>
        (p.1, settle rel ((Keyed.get? p.1 concrete).getD []) p.2)) := by
  induction methods with
  | nil => rfl
  | cons p ps ih =>
    rw [decide, anySuppresses_pure, pure_bind, ih, pure_bind]
    rfl

theorem resolve_pure [MonadExcept Failure m] {t : TypeInfo} (hcheck : checkTarget t = .ok ())
    {constructors : List Constructor} (hconstructors : selectConstructors t = .ok constructors)
    (levels : List Level) :
    resolve t levels (fun a b => (pure (rel a b) : m Bool)) =
      pure (ofRel rel t levels constructors) := by
  rw [resolve, hcheck, hconstructors]
  simp only [decide_pure, pure_bind]
  rfl

/-- What a resolution by a relation holds, if there is one. -/
theorem resolve_rel_ok {t : TypeInfo} {levels : List Level} {r : Resolution}
    (h : (resolve t levels fun a b => .ok (rel a b) : Except Failure Resolution) = .ok r) :
    checkTarget t = .ok () ∧ selectConstructors t = .ok r.constructors ∧
      r = ofRel rel t levels r.constructors := by
  cases hcheck : checkTarget t with
  | error f =>
    rw [resolve, hcheck] at h
    cases h
  | ok _ =>
    cases hconstructors : selectConstructors t with
    | error f =>
      rw [resolve, hcheck, hconstructors] at h
      cases h
    | ok constructors =>
      have hr := (resolve_pure (m := Except Failure) rel hcheck hconstructors levels).symm.trans h
      obtain rfl := Except.ok.inj hr
      exact ⟨rfl, rfl, rfl⟩

/-- The members are the slots none of whose methods fits. -/
theorem mem_members_ofRel {t : TypeInfo} (hcheck : checkTarget t = .ok ())
    {constructors : List Constructor} (hconstructors : selectConstructors t = .ok constructors)
    (levels : List Level) (k : Slot) (a : Method) :
    (k, a) ∈ (ofRel rel t levels constructors).members ↔
      (abstractOf levels k).getLast? = some a ∧
        ∀ c ∈ concreteOf levels k, rel a.returns c.returns = false := by
  have hrun := congrFun (resolve_pure (m := EStateM Failure Unit) rel hcheck hconstructors levels) ()
  refine (resolved_of_run hrun).mem_members_iff_rel ?_
  intro x y s v s' _ hv
  cases hv
  rfl

end Relation

end StubWriter.Resolution
