import StubWriter.Proofs.Grammar.Declared

/-!
# The names of declared types

The canonical name of a declared type ends in its own name, behind the name of its package or of the
type it is nested in.

* `CompilationUnit.fullName_eq`: how canonical names are made.
* `CompilationUnit.Proper.not_primitive`, `CompilationUnit.Proper.element`: those of the units that
  texts spell are no names of primitive types or arrays.
-/

namespace StubWriter

/-- What stands before the own name of a type: nothing, or another name and a dot. -/
def IsOwner (owner : String) : Prop :=
  owner = "" ∨ ∃ name, owner = name ++ "."

theorem declared_fullName :
    (∀ (fullName : String) (inInterface : Bool) (d : TypeDecl),
      (∃ owner, IsOwner owner ∧ fullName = owner ++ d.name) →
        ∀ x ∈ d.declared fullName inInterface,
          ∃ owner, IsOwner owner ∧ x.fullName = owner ++ x.decl.name) ∧
      ∀ (owner : String) (inInterface : Bool) (ds : List TypeDecl), IsOwner owner →
        ∀ x ∈ declaredAll owner inInterface ds,
          ∃ owner, IsOwner owner ∧ x.fullName = owner ++ x.decl.name := by
  refine TypeDecl.declared.mutual_induct _ _ ?_ ?_ ?_
  · intro fullName inInterface kind name _ _ _ _ _ _ nested ih hname x hx
    rw [TypeDecl.declared] at hx
    rcases List.mem_cons.mp hx with rfl | hx
    · exact hname
    · exact ih (.inr ⟨fullName, rfl⟩) x hx
  · intro owner inInterface _ x hx
    cases hx
  · intro owner inInterface d ds ihd ihds howner x hx
    rw [declaredAll] at hx
    rcases List.mem_append.mp hx with hx | hx
    · exact ihd ⟨owner, howner, rfl⟩ x hx
    · exact ihds howner x hx

namespace CompilationUnit

theorem fullName_eq {u : CompilationUnit} {d : Declared} (hd : d ∈ u.declared) :
    ∃ owner, IsOwner owner ∧ d.fullName = owner ++ d.decl.name := by
  refine declared_fullName.2 _ _ _ ?_ d hd
  split
  · exact .inl rfl
  · exact .inr ⟨_, rfl⟩

variable {u : CompilationUnit} {n : Nat}

theorem Proper.not_primitive (h : u.Proper n) {d : Declared} (hd : d ∈ u.declared) :
    isPrimitiveName d.fullName = false := by
  obtain ⟨owner, rfl | ⟨outer, rfl⟩, hname⟩ := fullName_eq hd
  · rw [hname, String.empty_append]
    exact (h.names d hd).not_primitive
  · have hdot : '.' ∈ d.fullName.toList := by
      rw [hname]
      simp
    have hall : ∀ w ∈ primitiveNames, '.' ∉ w.toList := by decide
    by_contra hprimitive
    exact hall d.fullName (by simpa [isPrimitiveName] using hprimitive) hdot

theorem Proper.element (h : u.Proper n) {d : Declared} (hd : d ∈ u.declared) :
    Library.elementName d.fullName = d.fullName := by
  obtain ⟨owner, -, hname⟩ := fullName_eq hd
  have hproper := h.names d hd
  obtain ⟨front, last, hlast⟩ : ∃ front last, d.decl.name.toList = front ++ [last] :=
    ⟨_, _, (List.dropLast_append_getLast hproper.nonempty).symm⟩
  have hlast' : last ∈ d.decl.name.toList := by simp [hlast]
  have hbracket : (last == '[' || last == ']') = false := by
    by_contra hc
    simp only [Bool.not_eq_false, Bool.or_eq_true, beq_iff_eq] at hc
    rcases hc with rfl | rfl
    · exact hproper.not_mem (by decide) hlast'
    · exact hproper.not_mem (by decide) hlast'
  unfold Library.elementName
  rw [hname, String.toList_append, hlast, ← List.append_assoc, List.reverse_append,
    List.reverse_singleton, List.singleton_append, List.dropWhile_cons_of_neg (by simp [hbracket])]
  rw [List.reverse_cons, List.reverse_reverse, List.append_assoc, ← hlast, ← String.toList_append,
    String.ofList_toList]

end CompilationUnit

end StubWriter
