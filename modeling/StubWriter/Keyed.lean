/-!
# Lists of pairs with distinct keys

A value per key, in the order in which the keys came. Changing the value of a key keeps its place.

* `get?_alter`: what changing one key does to the view `get?`.
* `keys_alter`: the keys of a changed list are the keys before, with a new one at the end.
-/

namespace StubWriter.Keyed

variable {κ α : Type} [DecidableEq κ]

/-- The value of a key. -/
def get? (k : κ) : List (κ × α) → Option α
  | [] => none
  | p :: ps => if p.1 = k then some p.2 else get? k ps

/-- The list with the value of `k` changed by `f`, or added at the end. -/
def alter (k : κ) (f : Option α → α) : List (κ × α) → List (κ × α)
  | [] => [(k, f none)]
  | p :: ps => if p.1 = k then (k, f (some p.2)) :: ps else p :: alter k f ps

def set (k : κ) (a : α) : List (κ × α) → List (κ × α) :=
  alter k fun _ => a

def keys (ps : List (κ × α)) : List κ :=
  ps.map Prod.fst

theorem get?_alter (k m : κ) (f : Option α → α) (ps : List (κ × α)) :
    get? m (alter k f ps) = if m = k then some (f (get? k ps)) else get? m ps := by
  induction ps with
  | nil => simp [alter, get?, eq_comm]
  | cons p ps ih =>
    by_cases hp : p.1 = k
    · by_cases hm : m = k
      · simp [alter, get?, hp, hm]
      · have : ¬ k = m := fun h => hm h.symm
        simp [alter, get?, hp, hm, this]
    · by_cases hm : p.1 = m
      · have : ¬ m = k := fun h => hp (hm.trans h)
        simp [alter, get?, hm, this]
      · simp [alter, get?, hp, hm, ih]

theorem get?_set (k m : κ) (a : α) (ps : List (κ × α)) :
    get? m (set k a ps) = if m = k then some a else get? m ps :=
  get?_alter k m _ ps

theorem keys_alter (k : κ) (f : Option α → α) (ps : List (κ × α)) :
    keys (alter k f ps) = if k ∈ keys ps then keys ps else keys ps ++ [k] := by
  induction ps with
  | nil => simp [alter, keys]
  | cons p ps ih =>
    by_cases hp : p.1 = k
    · simp [alter, keys, hp]
    · have hk : ¬ k = p.1 := fun h => hp h.symm
      simp only [keys] at ih
      by_cases hm : k ∈ ps.map Prod.fst
      · simp [alter, keys, hp, ih, hm]
      · simp [alter, keys, hp, hk, ih, hm]

theorem nodup_keys_alter {k : κ} {f : Option α → α} {ps : List (κ × α)} (h : (keys ps).Nodup) :
    (keys (alter k f ps)).Nodup := by
  rw [keys_alter]
  split
  · exact h
  · rename_i hk
    rw [List.nodup_append]
    refine ⟨h, by simp, fun a ha b hb => ?_⟩
    rw [List.mem_singleton.mp hb]
    rintro rfl
    exact hk ha

theorem mem_of_mem_set {k : κ} {a : α} {ps : List (κ × α)} {p : κ × α} (hp : p ∈ set k a ps) :
    p = (k, a) ∨ p ∈ ps := by
  induction ps with
  | nil => simpa [set, alter] using hp
  | cons q qs ih =>
    unfold set alter at hp
    split at hp
    · rcases List.mem_cons.mp hp with rfl | hp
      · exact .inl rfl
      · exact .inr (List.mem_cons_of_mem _ hp)
    · rcases List.mem_cons.mp hp with rfl | hp
      · exact .inr List.mem_cons_self
      · exact (ih hp).imp_right (List.mem_cons_of_mem _)

theorem mem_set_of_ne {k : κ} {a : α} {ps : List (κ × α)} {p : κ × α} (hp : p ∈ ps)
    (hne : p.1 ≠ k) : p ∈ set k a ps := by
  induction ps with
  | nil => cases hp
  | cons q qs ih =>
    unfold set alter
    split
    · rename_i h
      rcases List.mem_cons.mp hp with rfl | hp
      · exact absurd h hne
      · exact List.mem_cons_of_mem _ hp
    · rcases List.mem_cons.mp hp with rfl | hp
      · exact List.mem_cons_self
      · exact List.mem_cons_of_mem _ (ih hp)

theorem mem_of_get? {k : κ} {a : α} {ps : List (κ × α)} (h : get? k ps = some a) :
    (k, a) ∈ ps := by
  induction ps with
  | nil => cases h
  | cons p ps ih =>
    unfold get? at h
    split at h
    · rename_i hp
      cases h
      subst hp
      exact List.mem_cons_self
    · exact List.mem_cons_of_mem _ (ih h)

theorem get?_of_mem {k : κ} {a : α} {ps : List (κ × α)} (hn : (keys ps).Nodup)
    (h : (k, a) ∈ ps) : get? k ps = some a := by
  induction ps with
  | nil => cases h
  | cons p ps ih =>
    rw [keys, List.map_cons, List.nodup_cons] at hn
    rcases List.mem_cons.mp h with rfl | h
    · simp [get?]
    · have : p.1 ≠ k := fun hp => hn.1 (List.mem_map.mpr ⟨_, h, hp.symm⟩)
      simp [get?, this, ih hn.2 h]

theorem set_of_get? {k : κ} {a : α} {ps : List (κ × α)} (h : get? k ps = some a) :
    set k a ps = ps := by
  induction ps with
  | nil => cases h
  | cons p ps ih =>
    unfold get? at h
    unfold set alter
    split at h
    · rename_i hp
      cases h
      rw [if_pos hp, ← hp]
    · rename_i hp
      rw [if_neg hp]
      exact congrArg _ (ih h)

theorem mem_keys_iff {k : κ} {ps : List (κ × α)} : k ∈ keys ps ↔ ∃ a, get? k ps = some a := by
  induction ps with
  | nil => simp [keys, get?]
  | cons p ps ih =>
    rw [keys, List.map_cons, List.mem_cons, get?]
    by_cases hp : p.1 = k
    · simp [hp]
    · have hk : ¬ k = p.1 := fun h => hp h.symm
      simpa [hp, hk, keys] using ih

theorem get?_filter_ne (k m : κ) (ps : List (κ × α)) :
    get? m (ps.filter fun p => p.1 ≠ k) = if m = k then none else get? m ps := by
  induction ps with
  | nil => simp [get?]
  | cons p ps ih =>
    by_cases hp : p.1 = k
    · rw [List.filter_cons_of_neg (by simpa using hp), ih, get?]
      by_cases hm : m = k
      · simp [hm]
      · have : ¬ p.1 = m := fun h => hm (h ▸ hp)
        simp [hm, this]
    · rw [List.filter_cons_of_pos (by simpa using hp), get?, get?, ih]
      by_cases hm : p.1 = m
      · have : ¬ m = k := fun h => hp (hm.trans h)
        simp [hm, this]
      · simp [hm]

end StubWriter.Keyed
