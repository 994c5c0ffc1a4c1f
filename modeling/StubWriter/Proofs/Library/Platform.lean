import Mathlib.Algebra.GroupWithZero.Nat
import Mathlib.Data.List.Nodup
import StubWriter.Proofs.Grammar.Names
import StubWriter.Proofs.Library.Sources

/-!
# What is known of the platform

The units of the platform are fixed, so what matters of them is checked by evaluation: each declares
the one type that it stands for, none imports on demand, and the names that they are written with
are declared by the units themselves, by other units of the platform or by nobody. The one exception
is `java.io.IOException`, which is listed but has no unit.
-/

namespace StubWriter

namespace Platform

open Library Run

theorem mem_units {name : String} {u : CompilationUnit} (h : unit? name = some u) :
    (name, u) ∈ units := by
  obtain ⟨before, after, hunits, -⟩ := List.lookup_eq_some_iff.mp h
  rw [hunits]
  simp

/-- A unit, and an exception in it that has no unit. -/
def ioException : String × List String :=
  ("java.io.Closeable", ["IOException"])

/-- What is checked of each unit of the platform and the name that it is found by. -/
structure Checked (p : String × CompilationUnit) : Prop where
  isType : isPrimitiveName p.1 = false ∧ elementName p.1 = p.1
  declared : p.2.declared.map (·.fullName) = [p.1]
  written : p.2.Written IsSegment
  typed : p.2.Typed
  onDemand : (Scope.ofUnit p.2).onDemand = []
  /-- The names in the unit that may be looked for outside of it are either declared by other units
  of the platform or not listed, with one exception. -/
  asks : ∀ n ∈ p.2.names, (p.1, n) = ioException ∨
    ∀ a ∈ (Scope.ofUnit p.2).asks (n.headD ""), Library.isListed a = true → isPlatform a = true
  /-- The exception does not stand in a header, and may mean only one of the listed names. -/
  exceptional : p.1 = ioException.1 →
    (∀ d ∈ p.2.declared, ioException.2 ∉ d.decl.headerNames) ∧
    (Scope.ofUnit p.2).package = "java.io" ∧ (Scope.ofUnit p.2).binds "IOException" = false ∧
    ∀ a ∈ (Scope.ofUnit p.2).asks (ioException.2.headD ""), Library.isListed a = true →
      a = "java.io.IOException"

instance : DecidablePred Checked := fun p =>
  decidable_of_iff
    ((isPrimitiveName p.1 = false ∧ elementName p.1 = p.1) ∧
      p.2.declared.map (·.fullName) = [p.1] ∧
      p.2.Written IsSegment ∧
      p.2.Typed ∧
      (Scope.ofUnit p.2).onDemand = [] ∧
      (∀ n ∈ p.2.names, (p.1, n) = ioException ∨
        ∀ a ∈ (Scope.ofUnit p.2).asks (n.headD ""),
          Library.isListed a = true → isPlatform a = true) ∧
      (p.1 = ioException.1 →
        (∀ d ∈ p.2.declared, ioException.2 ∉ d.decl.headerNames) ∧
        (Scope.ofUnit p.2).package = "java.io" ∧ (Scope.ofUnit p.2).binds "IOException" = false ∧
        ∀ a ∈ (Scope.ofUnit p.2).asks (ioException.2.headD ""), Library.isListed a = true →
          a = "java.io.IOException"))
    ⟨fun ⟨a, b, c, d, e, f, g⟩ => ⟨a, b, c, d, e, f, g⟩,
      fun ⟨a, b, c, d, e, f, g⟩ => ⟨a, b, c, d, e, f, g⟩⟩

/-- The evaluation that everything below reads off. -/
theorem checked_units : (units.map Prod.fst).Nodup ∧
    (units.map fun p => (p.2.declared.map headerSize).sum).sum ≤ 64 ∧
    ∀ p ∈ units, Checked p := by
  decide +kernel

theorem unit?_of_mem {p : String × CompilationUnit} (h : p ∈ units) : unit? p.1 = some p.2 := by
  cases hu : unit? p.1 with
  | none => simpa using List.lookup_eq_none_iff.mp hu p h
  | some u =>
    have hp : (p.1, u) = p := List.inj_on_of_nodup_map checked_units.1 (mem_units hu) h rfl
    rw [← hp]

theorem headers_units :
    (units.map fun p => (p.2.declared.map headerSize).sum).sum ≤ 64 :=
  checked_units.2.1

variable {p : String × CompilationUnit}

theorem checked_of_mem (h : p ∈ units) : Checked p :=
  checked_units.2.2 p h

/-- The names in the headers of a unit of the platform that may be looked for outside of it are
either declared by other units of the platform or not listed. -/
theorem asks_headers (h : p ∈ units) {d : Declared} (hd : d ∈ p.2.declared) {n : List String}
    (hn : n ∈ d.decl.headerNames) {a : String} (ha : a ∈ (Scope.ofUnit p.2).asks (n.headD ""))
    (hlisted : Library.isListed a = true) : isPlatform a = true := by
  rcases (checked_of_mem h).asks n
      (Declared.names_subset hd (d.decl.headerNames_subset hn)) with hslip | hasks
  · obtain ⟨hname, rfl⟩ := Prod.mk.inj hslip
    exact absurd hn (((checked_of_mem h).exceptional hname).1 d hd)
  · exact hasks a ha hlisted

/-- The supertypes of a type of the platform follow from which names exist. Whether a name exists may
not be settled if it is listed and nothing more, but no header asks for such a name. -/
theorem describe_supertypes (h : p ∈ units) {d : Declared} (hd : d ∈ p.2.declared)
    (ex : String → Bool) (package origin : String) :
    ∃ above, ∀ W : World Library, W.Quiet →
      (∀ n ∈ p.2.names, ∀ a ∈ (Scope.ofUnit p.2).asks (n.headD ""),
        W.Succeeds (Library.exists? a) ∧
          ((Library.isListed a = true → isPlatform a = true) → W.Answers ex a)) →
      Ends W.inv (d.describe package origin (Scope.ofUnit p.2)) fun o =>
        (∃ t, o = .ok t ∧ t.supertypes = above) ∨ ∃ f, W.excused f ∧ o = .error f := by
  have hdemand := (checked_of_mem h).onDemand
  let Quiets := {W : World Library // W.Quiet ∧
    ∀ n ∈ p.2.names, ∀ a ∈ (Scope.ofUnit p.2).asks (n.headD ""),
      W.Succeeds (Library.exists? a) ∧
        ((Library.isListed a = true → isPlatform a = true) → W.Answers ex a)}
  obtain ⟨above, habove⟩ := Declared.describe_supertypes (d := d) (s := Scope.ofUnit p.2)
    (W := fun W : Quiets => W.1)
    (fun n hn => by
      obtain ⟨name, hname⟩ := Scope.meaning_ok ex hdemand n
      refine ⟨name, fun W => hname ▸ Scope.resolveName_gives W.2.1 fun a ha => ?_⟩
      exact (W.2.2 n (Declared.names_subset hd (d.decl.headerNames_subset hn)) a ha).2
        (asks_headers h hd hn ha))
    (fun n hn W => Scope.resolveName_succeeds W.2.1 hdemand fun a ha =>
      (W.2.2 n (Declared.names_subset hd hn) a ha).1)
    package origin
  exact ⟨above, fun W hquiet hanswers => habove ⟨W, hquiet, hanswers⟩⟩

end Platform

end StubWriter
