import PowerArbiter.Memory.Code
import Mathlib.Logic.Function.Basic

namespace Memory

/-- How many of each resource are held, and how the calls to come turn out. After the last of
these all calls succeed. -/
structure Holdings (ρ ε : Type) where
  held : ρ → Nat
  fates : List (Option ε)

variable {ρ ε : Type}

/-- A call that may fail. -/
def fate : Code (Holdings ρ ε) (Option ε) := do
  let s ← get
  set { s with fates := s.fates.tail }
  return s.fates.head?.join

variable [DecidableEq ρ]

def acquire (r : ρ) : Code (Holdings ρ ε) (Option ε) := do
  let e ← fate
  if e.isNone then
    modify fun s => { s with held := Function.update s.held r (s.held r + 1) }
  return e

/-- What is not held is not to be used, let alone given back. -/
def use (r : ρ) : Code (Holdings ρ ε) Unit := do
  if (← get).held r = 0 then
    throw .faulted

def release (r : ρ) : Code (Holdings ρ ε) Unit := do
  use r
  modify fun s => { s with held := Function.update s.held r (s.held r - 1) }

/-- A call that is made again when it fails for a certain reason. -/
def retry (again : ε → Bool) : Nat → Code (Holdings ρ ε) (Option ε)
  | 0 => throw .endless
  | n + 1 => do
    let e ← fate
    if e.any again then retry again n else return e

/-- What is left of the calls to come when such a call is not made again. -/
def waited (again : ε → Bool) (fates : List (Option ε)) : List (Option ε) :=
  fates.dropWhile fun e => e.any again

section Rules

variable {E : Ending → Prop} {s : Holdings ρ ε} {r : ρ}

omit [DecidableEq ρ]

@[simp] theorem meets_fate {Q : Option ε → Holdings ρ ε → Prop} :
    Meets E fate s Q ↔ Q s.fates.head?.join { s with fates := s.fates.tail } := by
  simp only [fate, meets_bind, meets_get, meets_set, meets_pure]

/-- There are only so many failures to come. -/
theorem meets_retry {again : ε → Bool} {n : Nat} {Q : Option ε → Holdings ρ ε → Prop}
    (hn : s.fates.length < n)
    (h : Q (waited again s.fates).head?.join { s with fates := (waited again s.fates).tail }) :
    Meets E (retry again n) s Q := by
  induction n generalizing s with
  | zero => exact absurd hn (Nat.not_lt_zero _)
  | succ n ih =>
    obtain ⟨held, fates⟩ := s
    simp only [retry, meets_bind, meets_fate, meets_ite, meets_pure]
    cases fates with
    | nil => exact h
    | cons e fates =>
      have he : (e :: fates).head?.join = e := rfl
      rw [he]
      cases hagain : e.any again with
      | true =>
        rw [waited, List.dropWhile_cons_of_pos hagain] at h
        rw [if_pos rfl]
        exact ih (Nat.lt_of_succ_lt_succ hn) h
      | false =>
        rw [waited, List.dropWhile_cons_of_neg (by simp [hagain])] at h
        rw [if_neg Bool.false_ne_true]
        exact h

variable [DecidableEq ρ]

theorem meets_acquire {Q : Option ε → Holdings ρ ε → Prop}
    (hnone : s.fates.head?.join = none →
      Q none ⟨Function.update s.held r (s.held r + 1), s.fates.tail⟩)
    (hsome : ∀ e, s.fates.head?.join = some e → Q (some e) { s with fates := s.fates.tail }) :
    Meets E (acquire r) s Q := by
  simp only [acquire, meets_bind, meets_fate]
  cases he : s.fates.head?.join with
  | none =>
    simp only [Option.isNone_none, ↓reduceIte, meets_bind, meets_modify, meets_pure]
    exact hnone he
  | some e =>
    simp only [Option.isNone_some, Bool.false_eq_true, ↓reduceIte, meets_pure]
    exact hsome e he

omit [DecidableEq ρ] in
theorem meets_use {Q : Unit → Holdings ρ ε → Prop} (hheld : s.held r ≠ 0) (h : Q () s) :
    Meets E (use r) s Q := by
  simp only [use, meets_bind, meets_get, hheld, ↓reduceIte, meets_pure]
  exact h

theorem meets_release {Q : Unit → Holdings ρ ε → Prop} (hheld : s.held r ≠ 0)
    (h : Q () { s with held := Function.update s.held r (s.held r - 1) }) :
    Meets E (release r) s Q := by
  simp only [release, meets_bind]
  exact meets_use hheld (meets_modify.mpr h)

end Rules

/-- What is held beyond `s₀`, of the resources that are counted. -/
def Net (own : ρ → Prop) (s₀ : ρ → Nat) (rs : List ρ) (s : Holdings ρ ε) : Prop :=
  ∀ r, own r → s.held r = s₀ r + rs.count r

section Net

variable {own : ρ → Prop} {s₀ : ρ → Nat} {s t : Holdings ρ ε} {rs : List ρ} {r : ρ}

theorem Net.refl (s : Holdings ρ ε) : Net own s.held [] s := fun _ _ => rfl

theorem Net.congr (h : Net own s₀ rs s) (heq : ∀ r, own r → t.held r = s.held r) :
    Net own s₀ rs t := fun r hr => (heq r hr).trans (h r hr)

theorem Net.trans {rs' : List ρ} (h : Net own s₀ rs s) (h' : Net own s.held rs' t) :
    Net own s₀ (rs' ++ rs) t := by
  intro x hx
  rw [h' x hx, h x hx, List.count_append]
  omega

theorem Net.perm {rs' : List ρ} (h : Net own s₀ rs s) (hp : rs.Perm rs') : Net own s₀ rs' s := by
  intro x hx
  rw [← hp.count_eq]
  exact h x hx

theorem Net.add (h : Net own s₀ rs s) (ht : t.held = Function.update s.held r (s.held r + 1)) :
    Net own s₀ (r :: rs) t := by
  intro x hx
  rw [ht]
  rcases eq_or_ne x r with rfl | hne
  · rw [Function.update_self, List.count_cons_self, h x hx, Nat.add_assoc]
  · rw [Function.update_of_ne hne, List.count_cons_of_ne hne.symm, h x hx]

theorem Net.ne_zero (h : Net own s₀ rs s) (hown : own r) (hr : r ∈ rs) : s.held r ≠ 0 := by
  have hpos := List.count_pos_iff.mpr hr
  rw [h r hown]
  omega

theorem Net.sub (h : Net own s₀ rs s) (hr : r ∈ rs)
    (ht : t.held = Function.update s.held r (s.held r - 1)) : Net own s₀ (rs.erase r) t := by
  have hpos := List.count_pos_iff.mpr hr
  intro x hx
  rw [ht]
  rcases eq_or_ne x r with rfl | hne
  · rw [Function.update_self, List.count_erase_self, h x hx]
    omega
  · rw [Function.update_of_ne hne, List.count_erase_of_ne hne, h x hx]

end Net

end Memory
