import Mathlib.Tactic.Common

namespace Monitor

/-- What a monitored program can do besides computing. `Inner` names the locks
that nest inside the one outer lock, `Call` the requests answered from outside,
and `Acc` the accesses to the state which the outer lock protects. -/
structure Sig where
  Fail : Type
  Inner : Type
  Call : Type
  Ans : Type
  Acc : Type
  Val : Acc → Type

/-- A program is a finite tree of single steps. Only lock attempts and calls
branch on the environment; an access is answered by the shared state. -/
inductive Prog (S : Sig) (α : Type) : Type where
  | ret (a : α)
  | lock (k : Option S.Fail → Prog S α)
  | unlock (k : Prog S α)
  | lockInner (l : S.Inner) (k : Option S.Fail → Prog S α)
  | unlockInner (l : S.Inner) (k : Prog S α)
  | call (c : S.Call) (k : S.Ans → Prog S α)
  | access (i : S.Acc) (k : S.Val i → Prog S α)

/-- What an observer of one program sees. A lock attempt carries the reason it
failed, or `none` when the lock was acquired. -/
inductive Event (S : Sig) : Type where
  | lock (r : Option S.Fail)
  | unlock
  | lockInner (l : S.Inner) (r : Option S.Fail)
  | unlockInner (l : S.Inner)
  | call (c : S.Call) (a : S.Ans)

/-- The effect of every access on the protected state. -/
abbrev Machine (S : Sig) (σ : Type) := (i : S.Acc) → σ → S.Val i × σ

variable {S : Sig} {σ κ α β γ : Type}

namespace Prog

def bind : Prog S α → (α → Prog S β) → Prog S β
  | .ret a, f => f a
  | .lock k, f => .lock (fun r => (k r).bind f)
  | .unlock k, f => .unlock (k.bind f)
  | .lockInner l k, f => .lockInner l (fun r => (k r).bind f)
  | .unlockInner l k, f => .unlockInner l (k.bind f)
  | .call c k, f => .call c (fun a => (k a).bind f)
  | .access i k, f => .access i (fun v => (k v).bind f)

instance : Monad (Prog S) where
  pure := .ret
  bind := .bind

@[simp] theorem pure_eq (a : α) : (pure a : Prog S α) = .ret a := rfl
@[simp] theorem bind_eq (p : Prog S α) (f : α → Prog S β) : p >>= f = p.bind f := rfl
@[simp] theorem ret_bind (a : α) (f : α → Prog S β) : (Prog.ret a).bind f = f a := rfl

theorem bind_assoc (p : Prog S α) (f : α → Prog S β) (g : β → Prog S γ) :
    (p.bind f).bind g = p.bind (fun a => (f a).bind g) := by
  induction p with
  | ret a => rfl
  | lock k ih => simp only [bind, ih]
  | unlock k ih => simp only [bind, ih]
  | lockInner l k ih => simp only [bind, ih]
  | unlockInner l k ih => simp only [bind, ih]
  | call c k ih => simp only [bind, ih]
  | access i k ih => simp only [bind, ih]

theorem bind_ret (p : Prog S α) : p.bind .ret = p := by
  induction p with
  | ret a => rfl
  | lock k ih => simp only [bind, ih]
  | unlock k ih => simp only [bind, ih]
  | lockInner l k ih => simp only [bind, ih]
  | unlockInner l k ih => simp only [bind, ih]
  | call c k ih => simp only [bind, ih]
  | access i k ih => simp only [bind, ih]

instance : LawfulMonad (Prog S) :=
  LawfulMonad.mk' (Prog S) bind_ret (fun _ _ => rfl) bind_assoc

/-- What a lock attempt, a release or a call of the program can consume from the
events of an observer, namely the event of the same kind with the same operand. -/
def Event.lock? : Event S → Option (Option S.Fail)
  | .lock r => some r
  | _ => none

def Event.unlock? : Event S → Option Unit
  | .unlock => some ()
  | _ => none

def Event.lockInner? [DecidableEq S.Inner] (l : S.Inner) : Event S → Option (Option S.Fail)
  | .lockInner l' r => if l' = l then some r else none
  | _ => none

def Event.unlockInner? [DecidableEq S.Inner] (l : S.Inner) : Event S → Option Unit
  | .unlockInner l' => if l' = l then some () else none
  | _ => none

def Event.call? [DecidableEq S.Call] (c : S.Call) : Event S → Option S.Ans
  | .call c' a => if c' = c then some a else none
  | _ => none

/-- Consume the first event, if `f` accepts it, and go on with the rest. -/
def consume (f : Event S → Option β) (go : β → List (Event S) → Option γ) :
    List (Event S) → Option γ
  | [] => none
  | e :: es => (f e).bind (fun b => go b es)

theorem consume_eq_some {f : Event S → Option β} {go : β → List (Event S) → Option γ}
    {es : List (Event S)} {c : γ} :
    consume f go es = some c ↔ ∃ e b es', es = e :: es' ∧ f e = some b ∧ go b es' = some c := by
  cases es with
  | nil => simp [consume]
  | cons e es => simp [consume, Option.bind_eq_some_iff]

theorem consume_bind {f : Event S → Option β} {go : β → List (Event S) → Option γ}
    {δ : Type} {next : γ → Option δ} {es : List (Event S)} :
    (consume f go es).bind next = consume f (fun b es' => (go b es').bind next) es := by
  cases es with
  | nil => rfl
  | cons e es => simp [consume, Option.bind_assoc]

/-- `go` uses up a prefix of the events and does not look further. -/
def Prefixed (go : List (Event S) → Option (α × σ × List (Event S))) : Prop :=
  ∀ es a s rest, go es = some (a, s, rest) →
    ∃ used, es = used ++ rest ∧ ∀ more, go (used ++ more) = some (a, s, more)

theorem prefixed_consume {f : Event S → Option β}
    {go : β → List (Event S) → Option (α × σ × List (Event S))}
    (h : ∀ b, Prefixed (go b)) : Prefixed (consume f go) := by
  intro es a s rest he
  obtain ⟨e, b, es', rfl, hf, hgo⟩ := consume_eq_some.mp he
  obtain ⟨used, rfl, hmore⟩ := h b es' a s rest hgo
  exact ⟨e :: used, rfl, fun more => by simp [consume, hf, hmore]⟩

theorem runs_consume {f : Event S → Option β} {g : β → Event S}
    (hf : ∀ e b, f e = some b ↔ e = g b)
    {go : β → List (Event S) → Option (α × σ × List (Event S))}
    {es : List (Event S)} {a : α} {s' : σ} :
    consume f go es = some (a, s', []) ↔
      ∃ b es', es = g b :: es' ∧ go b es' = some (a, s', []) := by
  rw [consume_eq_some]
  constructor
  · intro hx
    obtain ⟨e, b, es', rfl, hb, hgo⟩ := hx
    exact ⟨b, es', by rw [(hf e b).mp hb], hgo⟩
  · intro hx
    obtain ⟨b, es', rfl, hgo⟩ := hx
    exact ⟨g b, b, es', rfl, (hf _ b).mpr rfl, hgo⟩

section Execution

variable [DecidableEq S.Inner] [DecidableEq S.Call] (m : Machine S σ)

/-- Run alone on a protected state, taking the answers of the environment from a
list of events. The events that are left over are returned. -/
def exec : Prog S α → σ → List (Event S) → Option (α × σ × List (Event S))
  | .ret a, s, es => some (a, s, es)
  | .lock k, s, es => consume Event.lock? (fun r => (k r).exec s) es
  | .unlock k, s, es => consume Event.unlock? (fun _ => k.exec s) es
  | .lockInner l k, s, es => consume (Event.lockInner? l) (fun r => (k r).exec s) es
  | .unlockInner l k, s, es => consume (Event.unlockInner? l) (fun _ => k.exec s) es
  | .call c k, s, es => consume (Event.call? c) (fun a => (k a).exec s) es
  | .access i k, s, es => (k (m i s).1).exec (m i s).2 es

/-- The program ran alone from `s` to `s'`, saw exactly the events `es` and
returned `a`. -/
def Runs (p : Prog S α) (s : σ) (es : List (Event S)) (a : α) (s' : σ) : Prop :=
  p.exec m s es = some (a, s', [])

/-- After seeing `es` from `s`, what remains of `p` is `q` in state `s'`. -/
def Leads (p : Prog S α) (s : σ) (es : List (Event S)) (q : Prog S α) (s' : σ) : Prop :=
  ∀ rest, p.exec m s (es ++ rest) = q.exec m s' rest

variable {m}

theorem exec_bind (p : Prog S α) (f : α → Prog S β) (s : σ) (es : List (Event S)) :
    (p.bind f).exec m s es = (p.exec m s es).bind (fun x => (f x.1).exec m x.2.1 x.2.2) := by
  induction p generalizing s es with
  | ret a => rfl
  | lock k ih => simp only [bind, exec, consume_bind, funext₂ (fun r es => ih r s es)]
  | unlock k ih => simp only [bind, exec, consume_bind, funext (fun es => ih s es)]
  | lockInner l k ih => simp only [bind, exec, consume_bind, funext₂ (fun r es => ih r s es)]
  | unlockInner l k ih => simp only [bind, exec, consume_bind, funext (fun es => ih s es)]
  | call c k ih => simp only [bind, exec, consume_bind, funext₂ (fun r es => ih r s es)]
  | access i k ih => simp only [bind, exec, ih]

theorem exec_prefixed (p : Prog S α) (s : σ) : Prefixed (p.exec m s) := by
  induction p generalizing s with
  | ret b =>
    intro es a s' rest h
    simp only [exec, Option.some.injEq, Prod.mk.injEq] at h
    obtain ⟨rfl, rfl, rfl⟩ := h
    exact ⟨[], rfl, fun _ => rfl⟩
  | lock k ih => exact prefixed_consume (fun r => ih r s)
  | unlock k ih => exact prefixed_consume (fun _ => ih s)
  | lockInner l k ih => exact prefixed_consume (fun r => ih r s)
  | unlockInner l k ih => exact prefixed_consume (fun _ => ih s)
  | call c k ih => exact prefixed_consume (fun a => ih a s)
  | access i k ih => exact ih _ _

@[simp] theorem runs_ret {a b : α} {s s' : σ} {es : List (Event S)} :
    (Prog.ret a).Runs m s es b s' ↔ es = [] ∧ b = a ∧ s' = s := by
  simp only [Runs, exec, Option.some.injEq, Prod.mk.injEq]
  constructor
  · intro h
    obtain ⟨rfl, rfl, rfl⟩ := h
    exact ⟨rfl, rfl, rfl⟩
  · intro h
    obtain ⟨rfl, rfl, rfl⟩ := h
    exact ⟨rfl, rfl, rfl⟩

@[simp] theorem runs_access {i : S.Acc} {k : S.Val i → Prog S α} {s s' : σ}
    {es : List (Event S)} {a : α} :
    (Prog.access i k).Runs m s es a s' ↔ (k (m i s).1).Runs m (m i s).2 es a s' := Iff.rfl

@[simp] theorem runs_lock {k : Option S.Fail → Prog S α} {s s' : σ} {es : List (Event S)} {a : α} :
    (Prog.lock k).Runs m s es a s' ↔ ∃ r es', es = .lock r :: es' ∧ (k r).Runs m s es' a s' :=
  runs_consume (g := .lock) (by intro e b; cases e <;> simp [Event.lock?])

@[simp] theorem runs_unlock {k : Prog S α} {s s' : σ} {es : List (Event S)} {a : α} :
    (Prog.unlock k).Runs m s es a s' ↔ ∃ es', es = .unlock :: es' ∧ k.Runs m s es' a s' :=
  (runs_consume (g := fun _ => .unlock) (by intro e b; cases e <;> simp [Event.unlock?])).trans
    ⟨fun ⟨_, h⟩ => h, fun h => ⟨(), h⟩⟩

@[simp] theorem runs_lockInner {l : S.Inner} {k : Option S.Fail → Prog S α} {s s' : σ}
    {es : List (Event S)} {a : α} :
    (Prog.lockInner l k).Runs m s es a s' ↔
      ∃ r es', es = .lockInner l r :: es' ∧ (k r).Runs m s es' a s' :=
  runs_consume (g := .lockInner l) (by intro e b; cases e <;> simp [Event.lockInner?])

@[simp] theorem runs_unlockInner {l : S.Inner} {k : Prog S α} {s s' : σ}
    {es : List (Event S)} {a : α} :
    (Prog.unlockInner l k).Runs m s es a s' ↔
      ∃ es', es = .unlockInner l :: es' ∧ k.Runs m s es' a s' :=
  (runs_consume (g := fun _ => .unlockInner l)
    (by intro e b; cases e <;> simp [Event.unlockInner?])).trans
    ⟨fun ⟨_, h⟩ => h, fun h => ⟨(), h⟩⟩

@[simp] theorem runs_call {c : S.Call} {k : S.Ans → Prog S α} {s s' : σ}
    {es : List (Event S)} {a : α} :
    (Prog.call c k).Runs m s es a s' ↔ ∃ x es', es = .call c x :: es' ∧ (k x).Runs m s es' a s' :=
  runs_consume (g := .call c) (by intro e b; cases e <;> simp [Event.call?])

/-- A sequence of two programs runs as one after the other. -/
theorem runs_bind {p : Prog S α} {f : α → Prog S β} {s s' : σ} {es : List (Event S)} {b : β} :
    (p.bind f).Runs m s es b s' ↔
      ∃ a mid es₁ es₂, es = es₁ ++ es₂ ∧ p.Runs m s es₁ a mid ∧ (f a).Runs m mid es₂ b s' := by
  simp only [Runs, exec_bind]
  constructor
  · intro h
    obtain ⟨⟨a, mid, es₂⟩, hp, hf⟩ := Option.bind_eq_some_iff.mp h
    obtain ⟨es₁, rfl, hm⟩ := exec_prefixed p s _ _ _ _ hp
    exact ⟨a, mid, es₁, es₂, rfl, by simpa using hm [], hf⟩
  · intro hx
    obtain ⟨a, mid, es₁, es₂, rfl, hp, hf⟩ := hx
    obtain ⟨used, he, hm⟩ := exec_prefixed p s _ _ _ _ hp
    simp only [List.append_nil] at he
    subst he
    rw [hm es₂]
    exact hf

/-- What follows a program without a step of its own. -/
theorem runs_map {p : Prog S α} {f : α → β} {s s' : σ} {es : List (Event S)} {b : β} :
    (p.bind (fun a => .ret (f a))).Runs m s es b s' ↔ ∃ a, p.Runs m s es a s' ∧ b = f a := by
  rw [runs_bind]
  constructor
  · intro hx
    obtain ⟨a, mid, es₁, es₂, rfl, hp, hf⟩ := hx
    obtain ⟨rfl, rfl, rfl⟩ := runs_ret.mp hf
    exact ⟨a, by rwa [List.append_nil], rfl⟩
  · intro hx
    obtain ⟨a, hp, rfl⟩ := hx
    exact ⟨a, s', es, [], (List.append_nil es).symm, hp, runs_ret.mpr ⟨rfl, rfl, rfl⟩⟩

/-- The events decide the result. -/
theorem Runs.unique {p : Prog S α} {s t u : σ} {es : List (Event S)} {a b : α}
    (h : p.Runs m s es a t) (h' : p.Runs m s es b u) : a = b ∧ t = u := by
  have he : some (a, t, []) = some (b, u, []) := Eq.trans (Eq.symm h) h'
  cases he
  exact ⟨rfl, rfl⟩

theorem Leads.refl (p : Prog S α) (s : σ) : p.Leads m s [] p s := fun _ => rfl

theorem Leads.trans {p q r : Prog S α} {s t u : σ} {es fs : List (Event S)}
    (h : p.Leads m s es q t) (h' : q.Leads m t fs r u) : p.Leads m s (es ++ fs) r u := by
  intro rest
  rw [List.append_assoc, h, h']

/-- A program that has come to its end has run. -/
theorem Leads.runs {p : Prog S α} {s s' : σ} {es : List (Event S)} {a : α}
    (h : p.Leads m s es (.ret a) s') : p.Runs m s es a s' := by
  simpa [Runs, exec] using h []

end Execution

end Prog

/-- The environment answers the calls among the events, in their order, while it
moves from `e` to `e'`. Lock events are no concern of it. -/
def Follows (K : κ → S.Call → S.Ans → κ → Prop) : κ → List (Event S) → κ → Prop
  | e, [], e' => e' = e
  | e, .call c a :: es, e' => ∃ e₁, K e c a e₁ ∧ Follows K e₁ es e'
  | e, _ :: es, e' => Follows K e es e'

section Environment

variable {K : κ → S.Call → S.Ans → κ → Prop}

@[simp] theorem follows_nil {e e' : κ} : Follows K e [] e' ↔ e' = e := Iff.rfl

@[simp] theorem follows_call {e e' : κ} {c : S.Call} {a : S.Ans} {es : List (Event S)} :
    Follows K e (.call c a :: es) e' ↔ ∃ e₁, K e c a e₁ ∧ Follows K e₁ es e' := Iff.rfl

@[simp] theorem follows_lock {e e' : κ} {r : Option S.Fail} {es : List (Event S)} :
    Follows K e (.lock r :: es) e' ↔ Follows K e es e' := Iff.rfl

@[simp] theorem follows_unlock {e e' : κ} {es : List (Event S)} :
    Follows K e (.unlock :: es) e' ↔ Follows K e es e' := Iff.rfl

@[simp] theorem follows_lockInner {e e' : κ} {l : S.Inner} {r : Option S.Fail}
    {es : List (Event S)} : Follows K e (.lockInner l r :: es) e' ↔ Follows K e es e' := Iff.rfl

@[simp] theorem follows_unlockInner {e e' : κ} {l : S.Inner} {es : List (Event S)} :
    Follows K e (.unlockInner l :: es) e' ↔ Follows K e es e' := Iff.rfl

theorem follows_append {e e' : κ} {es fs : List (Event S)} :
    Follows K e (es ++ fs) e' ↔ ∃ e₁, Follows K e es e₁ ∧ Follows K e₁ fs e' := by
  induction es generalizing e with
  | nil => simp
  | cons ev es ih => cases ev <;> (simp [ih]; try grind)

theorem Follows.mono {K' : κ → S.Call → S.Ans → κ → Prop}
    (hK : ∀ e c a e', K e c a e' → K' e c a e') {e e' : κ} {es : List (Event S)}
    (h : Follows K e es e') : Follows K' e es e' := by
  induction es generalizing e with
  | nil => exact h
  | cons ev es ih =>
    cases ev with
    | call c a =>
      obtain ⟨e₁, hc, h⟩ := h
      exact ⟨e₁, hK _ _ _ _ hc, ih h⟩
    | _ => exact ih h

end Environment

end Monitor
