import Mathlib.Tactic.Common

namespace Memory

/-- How a piece of code can end besides returning: it ends the process, it does
what its language leaves undefined, or a loop in it is cut off. -/
inductive Ending where
  | exited
  | faulted
  | endless
deriving DecidableEq

/-- Sequential code over a memory. -/
abbrev Code (σ : Type) := EStateM Ending σ

variable {σ β γ : Type}

/-- Following a pointer, which is a fault where it is null. -/
def deref : Option β → Code σ β
  | some p => pure p
  | none => throw .faulted

/-- The code returns with `Q`, or ends in a way that `E` allows. -/
def Meets (E : Ending → Prop) (c : Code σ β) (s : σ) (Q : β → σ → Prop) : Prop :=
  match c s with
  | .ok b s' => Q b s'
  | .error e _ => E e

/-- Nothing but returning, and returning or ending the process. -/
def Never : Ending → Prop := fun _ => False
def Exits : Ending → Prop := fun e => e = .exited

section Rules

variable {E : Ending → Prop} {s : σ}

@[simp] theorem meets_pure {b : β} {Q : β → σ → Prop} :
    Meets E (pure b) s Q ↔ Q b s := Iff.rfl

@[simp] theorem meets_bind {c : Code σ β} {f : β → Code σ γ} {Q : γ → σ → Prop} :
    Meets E (c >>= f) s Q ↔ Meets E c s (fun b t => Meets E (f b) t Q) := by
  simp only [Meets, bind, EStateM.bind]
  cases c s <;> rfl

@[simp] theorem meets_map {c : Code σ β} {f : β → γ} {Q : γ → σ → Prop} :
    Meets E (f <$> c) s Q ↔ Meets E c s (fun b t => Q (f b) t) := by
  simp only [Meets, Functor.map, EStateM.map]
  cases c s <;> rfl

@[simp] theorem meets_get {Q : σ → σ → Prop} : Meets E get s Q ↔ Q s s := Iff.rfl

@[simp] theorem meets_set {t : σ} {Q : PUnit → σ → Prop} :
    Meets E (set t) s Q ↔ Q ⟨⟩ t := Iff.rfl

@[simp] theorem meets_modify {f : σ → σ} {Q : PUnit → σ → Prop} :
    Meets E (modify f) s Q ↔ Q ⟨⟩ (f s) := Iff.rfl

@[simp] theorem meets_throw {e : Ending} {Q : β → σ → Prop} :
    Meets E (throw e) s Q ↔ E e := Iff.rfl

@[simp] theorem meets_ite {p : Prop} [Decidable p] {c d : Code σ β} {Q : β → σ → Prop} :
    Meets E (if p then c else d) s Q ↔ if p then Meets E c s Q else Meets E d s Q := by
  split <;> rfl

@[simp] theorem meets_deref {p : Option β} {Q : β → σ → Prop} :
    Meets E (deref p) s Q ↔ p.elim (E .faulted) (fun x => Q x s) := by
  cases p <;> rfl

theorem Meets.mono {c : Code σ β} {Q R : β → σ → Prop} (h : Meets E c s Q)
    (hQ : ∀ b t, Q b t → R b t) : Meets E c s R := by
  unfold Meets at h ⊢
  split at h
  · exact hQ _ _ h
  · exact h

/-- What always returns also does so where more endings are allowed. -/
theorem Meets.weaken {c : Code σ β} {Q : β → σ → Prop} (h : Meets Never c s Q) :
    Meets E c s Q := by
  unfold Meets at h ⊢
  split at h
  · exact h
  · exact h.elim

theorem Meets.returns {c : Code σ β} {Q : β → σ → Prop} (h : Meets Never c s Q) :
    ∃ b t, c s = .ok b t ∧ Q b t := by
  unfold Meets at h
  split at h
  · exact ⟨_, _, ‹_›, h⟩
  · exact h.elim

end Rules

-- from here on code is reasoned about by these rules, and not run
attribute [irreducible] Meets

/-- A part of a larger memory. -/
structure Part (σ τ : Type) where
  get : σ → τ
  set : τ → σ → σ
  get_set : ∀ t s, get (set t s) = t
  set_get : ∀ s, set (get s) s = s

attribute [simp] Part.get_set Part.set_get

/-- All of it. -/
def Part.whole : Part σ σ where
  get s := s
  set t _ := t
  get_set _ _ := rfl
  set_get _ := rfl

/-- The code works on the part and leaves the rest as it is. -/
def zoom {τ : Type} (part : Part σ τ) (c : Code τ β) : Code σ β := fun s =>
  match c (part.get s) with
  | .ok b t => .ok b (part.set t s)
  | .error e t => .error e (part.set t s)

@[simp] theorem meets_zoom {τ : Type} {part : Part σ τ} {E : Ending → Prop} {c : Code τ β} {s : σ}
    {Q : β → σ → Prop} :
    Meets E (zoom part c) s Q ↔ Meets E c (part.get s) (fun b t => Q b (part.set t s)) := by
  unfold Meets zoom
  cases c (part.get s) <;> rfl

/-- The memory where the code has ended, in whatever way. -/
def after : EStateM.Result Ending σ β → σ
  | .ok _ s => s
  | .error _ s => s

theorem after_zoom {τ : Type} (part : Part σ τ) (c : Code τ β) (s : σ) :
    after (zoom part c s) = part.set (after (c (part.get s))) s := by
  simp only [zoom]
  cases c (part.get s) <;> rfl

/-- A counting loop: the body for `i`, `i + 1` and so on, `n` times. -/
def times (body : Nat → Code σ Unit) : Nat → Nat → Code σ Unit
  | _, 0 => pure ()
  | i, n + 1 => do
    body i
    times body (i + 1) n

/-- The invariant rule of counting loops. -/
theorem meets_times {E : Ending → Prop} {body : Nat → Code σ Unit} {I : Nat → σ → Prop}
    {i n : Nat} {s : σ} (hs : I i s)
    (hbody : ∀ j t, i ≤ j → j < i + n → I j t → Meets E (body j) t (fun _ u => I (j + 1) u)) :
    Meets E (times body i n) s (fun _ t => I (i + n) t) := by
  induction n generalizing i s with
  | zero => exact meets_pure.mpr hs
  | succ n ih =>
    simp only [times, meets_bind]
    refine (hbody i s (Nat.le_refl i) (by omega) hs).mono ?_
    intro _ t ht
    have hrest := ih ht (fun j u hj hn => hbody j u (by omega) (by omega))
    rwa [show i + 1 + n = i + (n + 1) by omega] at hrest

section Script

variable {Op ι ρ : Type} (next : ι → Op → ι) (fits : ι → Op → Prop) (reply : ι → Op → ρ)

/-- The operations fit, one after the other, where each makes `next` of the state before that
the memory stands for. -/
def AllFit : ι → List Op → Prop
  | _, [] => True
  | i, op :: ops => fits i op ∧ AllFit (next i op) ops

def replies : ι → List Op → List ρ
  | _, [] => []
  | i, op :: ops => reply i op :: replies (next i op) ops

variable {next fits reply} {E : Ending → Prop} {I : ι → σ → Prop} {i : ι} {s : σ} {ops : List Op}

/-- The invariant rule of a sequence of operations. -/
theorem meets_forM {code : Op → Code σ Unit} (hs : I i s) (hops : AllFit next fits i ops)
    (hstep : ∀ op i s, I i s → fits i op → Meets E (code op) s (fun _ s' => I (next i op) s')) :
    Meets E (ops.forM code) s (fun _ s' => I (ops.foldl next i) s') := by
  induction ops generalizing i s with
  | nil => exact meets_pure.mpr hs
  | cons op ops ih =>
    simp only [List.forM_eq_forM, List.forM_cons, meets_bind]
    exact (hstep op i s hs hops.1).mono fun _ _ h => ih h hops.2

/-- The same with their replies. -/
theorem meets_mapM {code : Op → Code σ ρ} (hs : I i s) (hops : AllFit next fits i ops)
    (hstep : ∀ op i s, I i s → fits i op →
      Meets E (code op) s (fun r s' => r = reply i op ∧ I (next i op) s')) :
    Meets E (ops.mapM code) s
      (fun rs s' => rs = replies next reply i ops ∧ I (ops.foldl next i) s') := by
  induction ops generalizing i s with
  | nil => exact meets_pure.mpr ⟨rfl, hs⟩
  | cons op ops ih =>
    simp only [List.mapM_cons, meets_bind, meets_pure]
    refine (hstep op i s hs hops.1).mono fun r s' hr => ?_
    refine (ih hr.2 hops.2).mono fun rs s'' hrs => ?_
    exact ⟨congrArg₂ List.cons hr.1 hrs.1, hrs.2⟩

end Script

end Memory
