import Mathlib.Algebra.GroupWithZero.Nat
import StubWriter.Library.Load
import StubWriter.Proofs.Grammar.Rules
import StubWriter.Proofs.Token.Names

/-!
# What declarations take of a text

A declaration takes tokens of its own: those of its header, and those of the declarations in its
body. Its name is one of them. So declared types have proper names, and a text declares no more
types, with no more supertypes, than it has tokens.

* `Reader.Reads`: what a reader returns and how many tokens it takes for it.
* `TypeDecl.Proper`: the names of a declaration and its size.
* `CompilationUnit.ofText_proper`: every declaration of a unit is proper.
-/

namespace StubWriter

open Run

/-! ## Proper declarations -/

/-- All types that a declaration declares have proper names, and their headers take no more than
`n` tokens. -/
def TypeDecl.Proper (d : TypeDecl) (n : Nat) : Prop :=
  ∀ fullName inInterface, (∀ x ∈ d.declared fullName inInterface, Token.IsName x.decl.name) ∧
    2 * ((d.declared fullName inInterface).map Library.headerSize).sum ≤ n

theorem TypeDecl.Proper.mono {d : TypeDecl} {n m : Nat} (h : d.Proper n) (hnm : n ≤ m) :
    d.Proper m :=
  fun fullName inInterface =>
    ⟨(h fullName inInterface).1, (h fullName inInterface).2.trans hnm⟩

namespace Grammar

/-- The tokens ahead are sound. -/
def Cursor.Sound (c : Cursor) : Prop :=
  ∀ t ∈ c.ahead, t.Sound

theorem Cursor.Leads.sound {c c' : Cursor} (h : c.Leads c') (hc : c.Sound) : c'.Sound :=
  fun t ht => hc t (h.ahead.subset ht)

namespace Reader

variable {α β : Type}

/-! ## Readers and the tokens they take -/

/-- Where the tokens are sound, `x` returns what satisfies `P` together with a number of tokens
that it takes. -/
def Reads (x : Reader α) (P : α → Nat → Prop) : Prop :=
  ∀ c : Cursor, c.Sound → Ok x c fun a c' =>
    c'.Sound ∧ ∃ n, c'.ahead.length + n ≤ c.ahead.length ∧ P a n

section Reads

variable {x : Reader α} {P Q : α → Nat → Prop}

/-- A reader that moves forward takes some number of tokens. -/
theorem reads_forward (x : Reader α) [hx : Reader.Forward x] : Reads x fun _ _ => True := by
  intro c hc a c' hrun
  have hleads := hx.leads c
  rw [hrun] at hleads
  exact ⟨hleads.sound hc, 0, hleads.ahead.length_le, trivial⟩

theorem reads_mono (h : Reads x P) (hPQ : ∀ a n, P a n → Q a n) : Reads x Q := by
  intro c hc
  refine ok_mono (h c hc) fun a c' ⟨hc', n, hn, hP⟩ => ?_
  exact ⟨hc', n, hn, hPQ a n hP⟩

theorem reads_pure {a : α} (h : P a 0) : Reads (pure a) P :=
  fun _ hc => ok_pure ⟨hc, 0, le_rfl, h⟩

theorem reads_throw {e : Stop} : Reads (throw e) P :=
  fun _ _ => ok_throw e

theorem reads_bind {f : α → Reader β} {R : β → Nat → Prop} (hx : Reads x P)
    (hf : ∀ a m, P a m → Reads (f a) fun b n => R b (m + n)) : Reads (x >>= f) R := by
  intro c hc
  refine ok_bind (hx c hc) fun a c₁ ⟨hc₁, m, hm, hP⟩ => ?_
  refine ok_mono (hf a m hP c₁ hc₁) fun b c₂ ⟨hc₂, n, hn, hR⟩ => ?_
  exact ⟨hc₂, m + n, by omega, hR⟩

/-- A step whose result does not matter. -/
theorem reads_skip {f : α → Reader β} {R : β → Nat → Prop} [Forward x]
    (hR : ∀ b m n, R b n → R b (m + n)) (hf : ∀ a, Reads (f a) R) : Reads (x >>= f) R :=
  reads_bind (reads_forward x) fun a m _ => reads_mono (hf a) fun b n => hR b m n

theorem reads_ite {p : Prop} [Decidable p] {y : Reader α} (hx : Reads x P) (hy : Reads y P) :
    Reads (if p then x else y) P := by
  split
  · exact hx
  · exact hy

theorem reads_accept (p : Pattern) :
    Reads (accept p) fun s n => 1 ≤ n ∧ ∃ t : Token, t.Sound ∧ p.accepts t ∧ t.text = s := by
  intro c hc s c' hrun
  unfold accept at hrun
  change EStateM.bind take _ c = _ at hrun
  unfold EStateM.bind at hrun
  rw [take_eq] at hrun
  cases hahead : c.ahead with
  | nil =>
    rw [hahead] at hrun
    cases hrun
  | cons t rest =>
    rw [hahead] at hrun
    dsimp only at hrun
    split at hrun
    · rename_i hp
      cases hrun
      have ht : t ∈ c.ahead := hahead ▸ List.mem_cons_self
      refine ⟨fun u hu => hc u ?_, 1, ?_, le_rfl, t, hc t ht, hp, rfl⟩
      · exact hahead ▸ List.mem_cons_of_mem t hu
      · simp
    · cases hrun

theorem reads_one (p : Pattern) : Reads (accept p) fun _ n => 1 ≤ n :=
  reads_mono (reads_accept p) fun _ _ h => h.1

theorem reads_ignore (h : Reads x fun _ n => 1 ≤ n) : Reads (ignore x) fun _ n => 1 ≤ n :=
  reads_bind h fun _ m hm => reads_pure (by omega)

end Reads

theorem reads_tryAll (ps : List Pattern) :
    Reads (tryAll ps) fun found n => found = true → ps.length ≤ n := by
  intro c hc found c' hrun
  have hrun : tryAll ps c = .ok found c' := hrun
  unfold tryAll at hrun
  change EStateM.bind (sees ps) _ c = _ at hrun
  unfold EStateM.bind at hrun
  have hsees : sees ps c = .ok (ps.length ≤ c.ahead.length &&
    (ps.zip c.ahead).all fun x => x.1.accepts x.2) c := rfl
  rw [hsees] at hrun
  dsimp only at hrun
  split at hrun
  · rename_i hahead
    have hlength : ps.length ≤ c.ahead.length := by
      rw [Bool.and_eq_true] at hahead
      simpa using hahead.1
    cases hrun
    refine ⟨fun t ht => hc t ((List.drop_suffix _ _).subset ht), ps.length, ?_, fun _ => le_rfl⟩
    simp
    omega
  · cases hrun
    exact ⟨hc, 0, le_rfl, fun h => nomatch h⟩

theorem reads_tryOne (p : Pattern) : Reads (tryOne p) fun found n => found = true → 1 ≤ n :=
  reads_tryAll [p]

/-! ### Lists -/

/-- What the items of a list take, together. -/
def Shares (P : α → Nat → Prop) (as : List α) (n : Nat) : Prop :=
  ∃ ns, List.Forall₂ P as ns ∧ ns.sum ≤ n

variable {x : Reader α} {P : α → Nat → Prop}

theorem shares_nil (n : Nat) : Shares P [] n :=
  ⟨[], .nil, Nat.zero_le n⟩

theorem Shares.cons {a : α} {as : List α} {m n : Nat} (ha : P a m) (has : Shares P as n) :
    Shares P (a :: as) (m + n) := by
  obtain ⟨ns, hns, hsum⟩ := has
  refine ⟨m :: ns, .cons ha hns, ?_⟩
  rw [List.sum_cons]
  omega

/-- Items that take `k` tokens each. -/
theorem Shares.length_le {k : Nat} {as : List α} {n : Nat} (h : Shares (fun _ n => k ≤ n) as n) :
    k * as.length ≤ n := by
  obtain ⟨ns, hns, hsum⟩ := h
  refine le_trans ?_ hsum
  clear hsum
  induction hns with
  | nil => simp
  | @cons a m as ns hm _ ih =>
    rw [List.length_cons, List.sum_cons, Nat.mul_succ]
    omega

theorem reads_repeatFor {x : Reader (Option α)} (hx : Reads x fun a? n => ∀ a ∈ a?, P a n)
    (k : Nat) : Reads (repeatFor x k) (Shares P) := by
  induction k with
  | zero => exact reads_throw
  | succ k ih =>
    unfold repeatFor
    refine reads_bind hx fun a? m ha => ?_
    cases a? with
    | none => exact reads_pure (shares_nil m)
    | some a =>
      refine reads_bind ih fun as n has => reads_pure ?_
      rw [Nat.add_zero]
      exact Shares.cons (ha a rfl) has

theorem reads_many {x : Reader (Option α)} (hx : Reads x fun a? n => ∀ a ∈ a?, P a n) :
    Reads (many x) (Shares P) :=
  fun c hc => reads_repeatFor hx _ c hc

/-- A repetition; where `go` lets it go on, it may have taken `k` tokens itself. -/
theorem reads_manyWhile {go : Reader Bool} {k : Nat}
    (hgo : Reads go fun found n => found = true → k ≤ n) (hx : Reads x P)
    {Q : α → Nat → Prop} (hQ : ∀ a m n, k ≤ m → P a n → Q a (m + n)) :
    Reads (manyWhile go x) (Shares Q) := by
  refine reads_many (reads_bind hgo fun found m hm => ?_)
  cases found with
  | false => exact reads_pure fun a ha => nomatch ha
  | true =>
    refine reads_bind hx fun a n ha => reads_pure ?_
    rintro _ ⟨⟩
    exact hQ a m n (hm rfl) ha

theorem reads_manyUntil {closing : String} (hx : Reads x P)
    (hP : ∀ a m n, P a n → P a (m + n)) : Reads (manyUntil closing x) (Shares P) :=
  reads_manyWhile (k := 0) (reads_mono (reads_forward _) fun _ n _ _ => Nat.zero_le n) hx
    fun a m n _ => hP a m n

end Reader

open Reader

/-! ## Names and types -/

theorem identifier_reads : Reads identifier fun s n => 1 ≤ n ∧ Token.IsName s := by
  refine reads_mono (reads_accept _) fun s n ⟨hn, t, ht, hsort, htext⟩ => ⟨hn, ?_⟩
  exact htext ▸ ht.name (by simpa [Pattern.accepts] using hsort)

section Rules

variable (r : Rules) [r.Forward]

theorem referenceType_reads : Reads (referenceType r) fun _ n => 1 ≤ n := by
  unfold referenceType sepBy
  refine reads_bind ?_ fun first m (hm : 1 ≤ m) => ?_
  · refine reads_bind identifier_reads fun name m hm => ?_
    exact reads_mono (reads_forward _) fun _ n _ => by omega
  · exact reads_mono (reads_forward _) fun _ n _ => by omega

theorem listedType_reads : Reads (listedType r) fun _ n => 1 ≤ n := by
  unfold listedType
  refine reads_skip (fun _ _ _ _ => by omega) fun found => reads_ite ?_ ?_
  · refine reads_bind (reads_one _) fun _ m hm => ?_
    exact reads_mono (reads_forward _) fun _ n _ => by omega
  · refine reads_bind (referenceType_reads r) fun _ m hm => ?_
    exact reads_mono (reads_forward _) fun _ n _ => by omega

theorem typeUse_reads : Reads (typeUse r) fun _ n => 1 ≤ n := by
  unfold typeUse
  refine reads_skip (fun _ _ _ _ => by omega) fun sort? => ?_
  split
  · refine reads_bind (reads_one _) fun _ m hm => ?_
    exact reads_mono (reads_forward _) fun _ n _ => by omega
  · refine reads_bind (referenceType_reads r) fun _ m hm => ?_
    exact reads_mono (reads_forward _) fun _ n _ => by omega
  · exact reads_throw

/-- Each type but the first has a comma in front of it. -/
theorem typeList_reads : Reads (typeList r) fun ts n => 2 * ts.length ≤ n + 1 := by
  unfold typeList sepBy
  refine reads_bind (listedType_reads r) fun first m hm => ?_
  have hrest : Reads (manyWhile (tryOne ",") (listedType r)) (Shares fun _ n => 2 ≤ n) :=
    reads_manyWhile (reads_tryOne _) (listedType_reads r) fun _ m n hm hn => by omega
  refine reads_bind hrest fun rest n hn => reads_pure ?_
  have := hn.length_le
  rw [List.length_cons]
  omega

theorem optionalTypes_reads (keyword : String) :
    Reads (optionalTypes r keyword) fun ts n => 2 * ts.length ≤ n := by
  unfold optionalTypes
  refine reads_bind (reads_tryOne _) fun found m hm => ?_
  cases found with
  | false => exact reads_pure (by simp)
  | true =>
    have := hm rfl
    exact reads_mono (typeList_reads r) fun ts n hn => by omega

end Rules

/-! ## Members -/

/-- A member that takes `n` tokens: a type among the members is proper. -/
def Member.Fits (m : Member) (n : Nat) : Prop :=
  ∀ d ∈ m.type?, d.Proper n

theorem Member.Fits.add {m : Member} {n : Nat} (h : m.Fits n) (k : Nat) : m.Fits (k + n) :=
  fun d hd => (h d hd).mono (Nat.le_add_left n k)

/-- Rules that read proper declarations. -/
class Rules.Proper (r : Rules) : Prop extends r.Forward where
  proper : ∀ mods, Reads (r.typeDecl mods) TypeDecl.Proper

section Members

variable (r : Rules) [r.Proper]

theorem fits_skip {α : Type} {x : Reader α} [Reader.Forward x] {f : α → Reader Member}
    (hf : ∀ a, Reads (f a) Member.Fits) : Reads (x >>= f) Member.Fits :=
  reads_skip (fun _ m _ h => h.add m) hf

theorem fits_pure {m : Member} (h : m.type? = none) : Reads (pure m) Member.Fits :=
  reads_pure fun d hd => by rw [h] at hd; cases hd

theorem voidMethod_fits (mods : List String) (tps : List TypeParam) :
    Reads (voidMethod r mods tps) Member.Fits :=
  fits_skip fun _ => fits_skip fun _ => fits_pure rfl

theorem typedMethod_fits (name : String) (mods : List String) (tps : List TypeParam)
    (returns : TypeUse) : Reads (typedMethod r name mods tps returns) Member.Fits :=
  fits_skip fun _ => fits_pure rfl

theorem typeMember_fits (mods : List String) :
    Reads (do return Member.type (← r.typeDecl mods)) Member.Fits := by
  refine reads_bind (Rules.Proper.proper mods) fun d n hd => reads_pure ?_
  rintro _ ⟨⟩
  exact hd

theorem genericMember_fits (mods : List String) : Reads (genericMember r mods) Member.Fits := by
  unfold genericMember
  refine fits_skip fun tps => fits_skip fun constructed => reads_ite ?_ ?_
  · exact fits_skip fun _ => fits_skip fun _ => fits_pure rfl
  refine fits_skip fun void => reads_ite (voidMethod_fits r mods tps) ?_
  exact fits_skip fun type => fits_skip fun name => typedMethod_fits r name mods tps type

theorem typedMember_fits (mods : List String) : Reads (typedMember r mods) Member.Fits := by
  unfold typedMember
  refine fits_skip fun type => fits_skip fun name => fits_skip fun called => reads_ite ?_ ?_
  · exact typedMethod_fits r name mods [] type
  · exact fits_skip fun _ => fits_pure rfl

theorem classMember_fits : Reads (classMember r) Member.Fits := by
  unfold classMember
  refine fits_skip fun empty => reads_ite (fits_pure rfl) ?_
  refine fits_skip fun initializer => reads_ite ?_ ?_
  · exact fits_skip fun _ => fits_skip fun _ => fits_pure rfl
  refine fits_skip fun initializer => reads_ite ?_ ?_
  · exact fits_skip fun _ => fits_pure rfl
  refine fits_skip fun mods => fits_skip fun void => reads_ite (voidMethod_fits r mods []) ?_
  refine fits_skip fun generic => reads_ite (genericMember_fits r mods) ?_
  refine fits_skip fun type => reads_ite (typeMember_fits r mods) ?_
  refine fits_skip fun constructed => reads_ite ?_ (typedMember_fits r mods)
  exact fits_skip fun _ => fits_skip fun _ => fits_pure rfl

theorem genericInterfaceMember_fits (mods : List String) :
    Reads (genericInterfaceMember r mods) Member.Fits := by
  unfold genericInterfaceMember
  refine fits_skip fun tps => fits_skip fun void => ?_
  have hrest : ∀ returns : Option TypeUse, Reads (do
      let name ← identifier
      return Member.method (← methodRest r (ignore dimensions *> pure 0) name mods tps returns))
      Member.Fits := fun returns => fits_skip fun _ => fits_skip fun _ => fits_pure rfl
  exact reads_ite (fits_skip hrest) (fits_skip hrest)

theorem interfaceMember_fits : Reads (interfaceMember r) Member.Fits := by
  unfold interfaceMember
  refine fits_skip fun empty => reads_ite (fits_pure rfl) ?_
  refine fits_skip fun mods => fits_skip fun type => reads_ite (typeMember_fits r mods) ?_
  refine fits_skip fun generic => reads_ite (genericInterfaceMember_fits r mods) ?_
  refine fits_skip fun void => reads_ite (voidMethod_fits r mods []) ?_
  unfold typedInterfaceMember
  refine fits_skip fun type => fits_skip fun name => fits_skip fun called => reads_ite ?_ ?_
  · exact typedMethod_fits r name mods [] type
  · exact fits_skip fun _ => fits_skip fun _ => fits_pure rfl

theorem annotationMember_fits : Reads (annotationMember r) Member.Fits := by
  unfold annotationMember
  refine fits_skip fun mods => fits_skip fun type => reads_ite (typeMember_fits r mods) ?_
  exact fits_skip fun _ => fits_pure rfl

/-! ### Bodies -/

/-- A body takes two braces and what its members take. -/
theorem body_reads {x : Reader Member} [Reader.Forward x] (hx : Reads x Member.Fits) :
    Reads (do
      ignore (accept "\x7b")
      let members ← manyUntil "\x7d" x
      ignore (accept "\x7d")
      return members) fun ms n => ∃ k, k + 2 ≤ n ∧ Shares Member.Fits ms k := by
  refine reads_bind (reads_ignore (reads_one _)) fun _ m hm => ?_
  refine reads_bind (reads_manyUntil hx fun _ m n h => h.add m) fun ms k hk => ?_
  refine reads_bind (reads_ignore (reads_one _)) fun _ n hn => reads_pure ?_
  exact ⟨k, by omega, hk⟩

theorem enumBody_reads :
    Reads (enumBody r) fun ms n => ∃ k, k + 2 ≤ n ∧ Shares Member.Fits ms k := by
  -- The members, the closing brace, and the `taken` tokens in front of them.
  let Rest := fun (taken : Nat) (ms : List Member) (n : Nat) =>
    ∃ k, k + 2 ≤ taken + n ∧ Shares Member.Fits ms k
  have hskip : ∀ taken ms m n, Rest taken ms n → Rest taken ms (m + n) :=
    fun taken ms m n ⟨k, hk, hms⟩ => ⟨k, by omega, hms⟩
  have hclose : ∀ taken ms k, k + 1 ≤ taken → Shares Member.Fits ms k → Reads (do
      ignore (accept "\x7d")
      return ms) (Rest taken) := fun taken ms k htaken hms =>
    reads_bind (reads_ignore (reads_one _)) fun _ n hn => reads_pure ⟨k, by omega, hms⟩
  have hmembers : ∀ taken, 1 ≤ taken → Reads (do
      let members ← if ← tryOne ";" then manyUntil "\x7d" (classMember r) else pure []
      ignore (accept "\x7d")
      return members) (Rest taken) := by
    intro taken htaken
    refine reads_skip (hskip taken) fun found => reads_ite ?_ ?_
    · refine reads_bind (reads_manyUntil (classMember_fits r) fun _ m n h => h.add m)
        fun ms k hms => ?_
      refine reads_mono (hclose (taken + k) ms k (by omega) hms) fun ms' n ⟨k', hk', hms'⟩ => ?_
      exact ⟨k', by omega, hms'⟩
    · exact hclose taken [] 0 htaken (shares_nil 0)
  unfold enumBody
  refine reads_bind (reads_ignore (reads_one _)) fun _ m hm => ?_
  refine reads_skip (hskip m) fun comma => reads_ite ?_ (hmembers m hm)
  exact reads_skip (hskip m) fun c => reads_skip (hskip m) fun _ => hmembers m hm

end Members

/-! ## Declarations -/

theorem declaredAll_proper {ds : List TypeDecl} {n : Nat} (h : Shares TypeDecl.Proper ds n)
    (owner : String) (inInterface : Bool) :
    (∀ x ∈ declaredAll owner inInterface ds, Token.IsName x.decl.name) ∧
      2 * ((declaredAll owner inInterface ds).map Library.headerSize).sum ≤ n := by
  obtain ⟨ns, hns, hsum⟩ := h
  suffices hall : (∀ x ∈ declaredAll owner inInterface ds, Token.IsName x.decl.name) ∧
      2 * ((declaredAll owner inInterface ds).map Library.headerSize).sum ≤ ns.sum from
    ⟨hall.1, hall.2.trans hsum⟩
  clear hsum
  induction hns with
  | nil => simp [declaredAll]
  | @cons d m ds ns hd _ ih =>
    obtain ⟨hname, hsize⟩ := hd (owner ++ d.name) inInterface
    rw [declaredAll, List.map_append, List.sum_append, List.sum_cons]
    refine ⟨fun x hx => ?_, by omega⟩
    rcases List.mem_append.mp hx with hx | hx
    · exact hname x hx
    · exact ih.1 x hx

/-- The declarations among the items of a list. -/
theorem declarations_proper {α : Type} {f : α → Option TypeDecl} {as : List α} {n : Nat}
    (h : Shares (fun a n => ∀ d ∈ f a, d.Proper n) as n) :
    Shares TypeDecl.Proper (as.filterMap f) n := by
  obtain ⟨ns, hns, hsum⟩ := h
  suffices hall : Shares TypeDecl.Proper (as.filterMap f) ns.sum by
    obtain ⟨ks, hks, hle⟩ := hall
    exact ⟨ks, hks, hle.trans hsum⟩
  clear hsum
  induction hns with
  | nil => exact shares_nil _
  | @cons a k as ns ha _ ih =>
    rw [List.filterMap_cons, List.sum_cons]
    cases hd : f a with
    | none =>
      obtain ⟨ks, hks, hle⟩ := ih
      exact ⟨ks, hks, by omega⟩
    | some d => exact Shares.cons (ha d hd) ih

theorem ofMembers_proper {kind : DeclKind} {name : String} {mods : List String}
    {tps : List TypeParam} {extended implemented : List TypeUse} {ms : List Member} {k n : Nat}
    (hname : Token.IsName name) (hms : Shares Member.Fits ms k)
    (hn : 2 * extended.length + 2 * implemented.length + 4 + k ≤ n) :
    (ofMembers kind name mods tps extended implemented ms).Proper n := by
  intro fullName inInterface
  obtain ⟨hnames, hsize⟩ :=
    declaredAll_proper (declarations_proper hms) (fullName ++ ".") (kind == .interfaceDecl)
  unfold ofMembers TypeDecl.declared
  rw [List.map_cons, List.sum_cons]
  refine ⟨fun x hx => ?_, ?_⟩
  · rcases List.mem_cons.mp hx with rfl | hx
    · exact hname
    · exact hnames x hx
  · have hheader : ∀ (d : Declared), d.decl.extended = extended →
        d.decl.implemented = implemented →
        Library.headerSize d = extended.length + implemented.length + 2 := by
      rintro d rfl rfl
      rfl
    rw [hheader _ rfl rfl]
    omega

section Declarations

variable (r : Rules) [r.Proper]

theorem classDecl_reads (mods : List String) : Reads (classDecl r mods) TypeDecl.Proper := by
  unfold classDecl
  refine reads_bind (reads_ignore (reads_one _)) fun _ n₁ h₁ => ?_
  refine reads_bind identifier_reads fun name n₂ ⟨h₂, hname⟩ => ?_
  refine reads_bind (reads_forward _) fun tps n₃ _ => ?_
  refine reads_bind (reads_tryOne _) fun found n₄ h₄ => ?_
  have hrest : ∀ extended m, 2 * extended.length ≤ m → Reads (do
      let implemented ← optionalTypes r "implements"
      return ofMembers .classDecl name mods tps extended implemented (← classBody r))
      fun d n => d.Proper (2 + m + n) := by
    intro extended m hextended
    refine reads_bind (optionalTypes_reads r _) fun implemented n₅ h₅ => ?_
    unfold classBody
    refine reads_bind (body_reads (classMember_fits r)) fun ms n₆ ⟨k, hk, hms⟩ => ?_
    exact reads_pure (ofMembers_proper hname hms (by omega))
  cases found with
  | false =>
    refine reads_mono (hrest [] 0 le_rfl) fun d n hd => hd.mono (by omega)
  | true =>
    have := h₄ rfl
    refine reads_bind (typeUse_reads r) fun type n₅ h₅ => ?_
    exact reads_mono (hrest [type] 2 (by simp)) fun d n hd => hd.mono (by omega)

theorem interfaceDecl_reads (mods : List String) :
    Reads (interfaceDecl r mods) TypeDecl.Proper := by
  unfold interfaceDecl
  refine reads_bind (reads_ignore (reads_one _)) fun _ n₁ h₁ => ?_
  refine reads_bind identifier_reads fun name n₂ ⟨h₂, hname⟩ => ?_
  refine reads_bind (reads_forward _) fun tps n₃ _ => ?_
  refine reads_bind (optionalTypes_reads r _) fun extended n₄ h₄ => ?_
  unfold interfaceBody
  refine reads_bind (body_reads (interfaceMember_fits r)) fun ms n₅ ⟨k, hk, hms⟩ => ?_
  exact reads_pure (ofMembers_proper hname hms (by simp; omega))

theorem enumDecl_reads (mods : List String) : Reads (enumDecl r mods) TypeDecl.Proper := by
  unfold enumDecl
  refine reads_bind (reads_ignore (reads_one _)) fun _ n₁ h₁ => ?_
  refine reads_bind identifier_reads fun name n₂ ⟨h₂, hname⟩ => ?_
  refine reads_bind (optionalTypes_reads r _) fun implemented n₃ h₃ => ?_
  refine reads_bind (enumBody_reads r) fun ms n₄ ⟨k, hk, hms⟩ => ?_
  exact reads_pure (ofMembers_proper hname hms (by simp; omega))

theorem annotationDecl_reads (mods : List String) :
    Reads (annotationDecl r mods) TypeDecl.Proper := by
  unfold annotationDecl acceptAll acceptAll acceptAll
  refine reads_bind ?_ fun _ n₁ (h₁ : 1 ≤ n₁) => ?_
  · exact reads_bind (reads_one _) fun _ m hm =>
      reads_mono (reads_forward _) fun _ n _ => by omega
  refine reads_bind identifier_reads fun name n₂ ⟨h₂, hname⟩ => ?_
  unfold annotationBody
  refine reads_bind (body_reads (annotationMember_fits r)) fun ms n₃ ⟨k, hk, hms⟩ => ?_
  exact reads_pure (ofMembers_proper hname hms (by simp; omega))

theorem typeDecl_reads (mods : List String) : Reads (typeDecl r mods) TypeDecl.Proper := by
  have hskip : ∀ (d : TypeDecl) m n, d.Proper n → d.Proper (m + n) :=
    fun d m n hd => hd.mono (Nat.le_add_left n m)
  unfold typeDecl
  refine reads_skip hskip fun _ => reads_ite (classDecl_reads r mods) ?_
  refine reads_skip hskip fun _ => reads_ite (enumDecl_reads r mods) ?_
  refine reads_skip hskip fun _ => reads_ite (interfaceDecl_reads r mods) ?_
  exact reads_skip hskip fun _ => reads_ite (annotationDecl_reads r mods) reads_throw

end Declarations

instance (n : Nat) : (rules n).Proper := by
  induction n with
  | zero => exact { proper := fun _ => reads_throw }
  | succ n ih => exact { proper := fun mods => typeDecl_reads (rules n) mods }

section Units

variable (r : Rules) [r.Proper]

theorem unitType_reads : Reads (unitType r) fun d? n => ∀ d ∈ d?, d.Proper n := by
  have hskip : ∀ (d? : Option TypeDecl) m n, (∀ d ∈ d?, d.Proper n) → ∀ d ∈ d?, d.Proper (m + n) :=
    fun d? m n h d hd => (h d hd).mono (Nat.le_add_left n m)
  unfold unitType
  refine reads_skip hskip fun empty => reads_ite (reads_pure fun d hd => nomatch hd) ?_
  refine reads_skip hskip fun mods => reads_bind (typeDecl_reads r mods) fun d n hd => ?_
  refine reads_pure ?_
  rintro _ ⟨⟩
  exact hd

theorem unitTypes_reads : Reads (unitTypes r) (Shares TypeDecl.Proper) := by
  have hgo : Reads (return !(← get).ahead.isEmpty : Reader Bool) fun found n =>
      found = true → 0 ≤ n := reads_mono (reads_forward _) fun _ n _ _ => Nat.zero_le n
  have htypes := reads_manyWhile hgo (unitType_reads r) (Q := fun d? n => ∀ d ∈ d?, d.Proper n)
    fun d? m n _ h d hd => (h d hd).mono (Nat.le_add_left n m)
  unfold unitTypes
  refine reads_bind htypes fun ds n hds => reads_pure ?_
  exact declarations_proper (f := id) hds

end Units

section Heads

variable (r : Rules) [r.Forward]

/-- Going back to the mark of a unit is no step back from its start. -/
instance : Reader.Forward (optionalPackage r) := by
  refine ⟨fun c => ?_⟩
  let Within : Cursor → Prop := fun c' => c'.ahead <:+ c.ahead ∧ c'.mark <:+ c.ahead
  have hwithin : ∀ {α : Type} (x : Reader α) [Reader.Forward x],
      Ends Within x fun _ => True := by
    intro α x hx c' ⟨hahead, hmark⟩
    obtain ⟨hahead', hmark'⟩ := hx.leads c'
    refine ⟨⟨hahead'.trans hahead, ?_⟩, trivial⟩
    rcases hmark' with h | h
    · exact h ▸ hmark
    · exact h.trans hahead
  have hback : Ends Within goBack fun _ => True :=
    ends_modify (fun c' h => ⟨h.2, h.2⟩) trivial
  have hset : Within { c with mark := c.ahead } := ⟨List.suffix_refl _, List.suffix_refl _⟩
  have hrest : Ends Within (do
      if ← tryOne "package" then
        let name ← qualifiedName
        ignore (accept ";")
        return name
      else
        goBack
        return []) fun _ => True := by
    refine ends_bind (hwithin _) (fun found _ => ?_) fun _ h => h
    split
    · exact hwithin _
    · exact ends_bind hback (fun _ _ => ends_pure trivial) fun _ h => h
  have hall : Ends Within (do
      if ← seesAnnotationUse then annotations r
      if ← tryOne "package" then
        let name ← qualifiedName
        ignore (accept ";")
        return name
      else
        goBack
        return []) fun _ => True := by
    refine ends_bind (hwithin _) (fun found _ => ?_) fun _ h => h
    split
    · exact ends_bind (hwithin _) (fun _ _ => hrest) fun _ h => h
    · exact hrest
  obtain ⟨hahead, hmark⟩ := (hall _ hset).1
  exact ⟨hahead, .inr hmark⟩

instance (isStatic : Bool) (path : List String) (n : Nat) :
    Reader.Forward (importRest isStatic path n) := by
  induction n generalizing path with
  | zero => exact inferInstanceAs (Reader.Forward (throw _))
  | succ n ih =>
    unfold importRest
    infer_instance

instance : Reader.Forward importDecl := by unfold importDecl; infer_instance
instance : Reader.Forward (unitHead r) := by unfold unitHead; infer_instance

end Heads

end Grammar

open Grammar Reader

namespace CompilationUnit

/-- A unit that takes `n` tokens: its declarations have proper names, and their headers take no
more than that. -/
structure Proper (u : CompilationUnit) (n : Nat) : Prop where
  names : ∀ d ∈ u.declared, Token.IsName d.decl.name
  size : 2 * (u.declared.map Library.headerSize).sum ≤ n

theorem ofTokens_proper {tokens : List Token} (hsound : ∀ t ∈ tokens, t.Sound)
    {u : CompilationUnit} (h : ofTokens tokens = .ok u) : u.Proper tokens.length := by
  have hsound : Cursor.Sound { ahead := tokens, mark := [] } := hsound
  unfold ofTokens at h
  dsimp only at h
  cases hhead : unitHead (rules (8 * tokens.length + 8)) { ahead := tokens, mark := [] } with
  | error stop c =>
    rw [hhead] at h
    cases stop <;> cases h
  | ok head c =>
    rw [hhead] at h
    dsimp only at h
    obtain ⟨hc, n, hn, -⟩ := reads_forward (unitHead _) _ hsound head c hhead
    cases htypes : unitTypes (rules (8 * tokens.length + 8)) c with
    | error stop c' =>
      rw [htypes] at h
      cases h
    | ok types c' =>
      rw [htypes] at h
      cases h
      obtain ⟨-, m, hm, hproper⟩ := unitTypes_reads _ c hc types c' htypes
      obtain ⟨hnames, hsize⟩ := declaredAll_proper hproper
        (if head.1.isEmpty then "" else ".".intercalate head.1 ++ ".") false
      dsimp only at hn
      exact ⟨hnames, by simp only [declared, packageName]; omega⟩

theorem ofText_proper {text : String} {u : CompilationUnit} (h : ofText text = .ok u) :
    u.Proper (2 * text.length) := by
  unfold ofText at h
  cases htokens : Token.ofText text with
  | error fault =>
    rw [htokens] at h
    cases h
  | ok tokens =>
    rw [htokens] at h
    have hu := ofTokens_proper (Token.ofText_sound htokens) h
    exact ⟨hu.names, hu.size.trans (Token.ofText_length htokens)⟩

end CompilationUnit

end StubWriter
