import PowerArbiter.Monitor.Program

namespace Monitor

variable {S : Sig} {σ α β : Type}

/-- The machine that logs every access with the state in which it is made. -/
def logged (m : Machine S σ) : Machine S (σ × List (σ × S.Acc)) :=
  fun i s => ((m i s.1).1, (m i s.1).2, s.2 ++ [(s.1, i)])

namespace Prog

/-- On every path the program makes only accesses that `ok` allows in the state in which
they are made, and where it returns `Q` holds. -/
def Within (m : Machine S σ) (ok : σ → S.Acc → Prop) (Q : α → σ → Prop) : Prog S α → σ → Prop
  | .ret a, s => Q a s
  | .lock k, s => ∀ r, Within m ok Q (k r) s
  | .unlock k, s => Within m ok Q k s
  | .lockInner _ k, s => ∀ r, Within m ok Q (k r) s
  | .unlockInner _ k, s => Within m ok Q k s
  | .call _ k, s => ∀ a, Within m ok Q (k a) s
  | .access i k, s => ok s i ∧ Within m ok Q (k (m i s).1) (m i s).2

/-- On some path the program makes the access `i` in the state `t`. -/
def Accesses (m : Machine S σ) (t : σ) (i : S.Acc) : Prog S α → σ → Prop
  | .ret _, _ => False
  | .lock k, s => ∃ r, Accesses m t i (k r) s
  | .unlock k, s => Accesses m t i k s
  | .lockInner _ k, s => ∃ r, Accesses m t i (k r) s
  | .unlockInner _ k, s => Accesses m t i k s
  | .call _ k, s => ∃ a, Accesses m t i (k a) s
  | .access j k, s => (t = s ∧ i = j) ∨ Accesses m t i (k (m j s).1) (m j s).2

variable {m : Machine S σ} {ok : σ → S.Acc → Prop}

theorem within_bind {Q : β → σ → Prop} (p : Prog S α) (f : α → Prog S β) (s : σ) :
    Within m ok Q (p.bind f) s ↔ Within m ok (fun a => Within m ok Q (f a)) p s := by
  induction p generalizing s with
  | ret a => rfl
  | lock k ih => simp only [bind, Within, ih]
  | unlock k ih => simp only [bind, Within, ih]
  | lockInner l k ih => simp only [bind, Within, ih]
  | unlockInner l k ih => simp only [bind, Within, ih]
  | call c k ih => simp only [bind, Within, ih]
  | access i k ih => simp only [bind, Within, ih]

theorem Within.mono {Q Q' : α → σ → Prop} (hQ : ∀ a s, Q a s → Q' a s) {p : Prog S α} {s : σ}
    (h : Within m ok Q p s) : Within m ok Q' p s := by
  induction p generalizing s with
  | ret a => exact hQ a s h
  | lock k ih => exact fun r => ih r (h r)
  | unlock k ih => exact ih h
  | lockInner l k ih => exact fun r => ih r (h r)
  | unlockInner l k ih => exact ih h
  | call c k ih => exact fun a => ih a (h a)
  | access i k ih => exact ⟨h.1, ih _ h.2⟩

theorem Accesses.bind {t : σ} {i : S.Acc} {p : Prog S α} {s : σ} (h : Accesses m t i p s)
    (f : α → Prog S β) : Accesses m t i (p.bind f) s := by
  induction p generalizing s with
  | ret a => exact h.elim
  | lock k ih => exact h.imp fun r hr => ih r hr
  | unlock k ih => exact ih h
  | lockInner l k ih => exact h.imp fun r hr => ih r hr
  | unlockInner l k ih => exact ih h
  | call c k ih => exact h.imp fun a ha => ih a ha
  | access j k ih => exact h.imp_right fun hk => ih _ hk

section Execution

variable [DecidableEq S.Inner] [DecidableEq S.Call]

/-- What the allowed accesses preserve of the state and the log holds after every run. -/
theorem Within.runs {Q : α → σ → Prop} {I : σ → List (σ × S.Acc) → Prop}
    (hI : ∀ s l i, I s l → ok s i → I (m i s).2 (l ++ [(s, i)])) {p : Prog S α} {s s' : σ}
    {l l' : List (σ × S.Acc)} {es : List (Event S)} {a : α} (h : Within m ok Q p s)
    (hr : p.Runs (logged m) (s, l) es a (s', l')) (hs : I s l) : I s' l' ∧ Q a s' := by
  induction p generalizing s l es with
  | ret b =>
    simp only [runs_ret, Prod.mk.injEq] at hr
    obtain ⟨_, rfl, rfl, rfl⟩ := hr
    exact ⟨hs, h⟩
  | lock k ih =>
    obtain ⟨r, es, rfl, hk⟩ := runs_lock.mp hr
    exact ih r (h r) hk hs
  | unlock k ih =>
    obtain ⟨es, rfl, hk⟩ := runs_unlock.mp hr
    exact ih h hk hs
  | lockInner _ k ih =>
    obtain ⟨r, es, rfl, hk⟩ := runs_lockInner.mp hr
    exact ih r (h r) hk hs
  | unlockInner _ k ih =>
    obtain ⟨es, rfl, hk⟩ := runs_unlockInner.mp hr
    exact ih h hk hs
  | call c k ih =>
    obtain ⟨x, es, rfl, hk⟩ := runs_call.mp hr
    exact ih x (h x) hk hs
  | access i k ih =>
    rw [runs_access] at hr
    exact ih _ h.2 hr (hI s l i hs h.1)

/-- The log does not change what a program does. -/
theorem runs_of_logged {p : Prog S α} {s s' : σ} {l l' : List (σ × S.Acc)} {es : List (Event S)}
    {a : α} (h : p.Runs (logged m) (s, l) es a (s', l')) : p.Runs m s es a s' := by
  induction p generalizing s l es with
  | ret b =>
    simp only [runs_ret, Prod.mk.injEq] at h ⊢
    exact ⟨h.1, h.2.1, h.2.2.1⟩
  | lock k ih =>
    obtain ⟨r, es, rfl, hk⟩ := runs_lock.mp h
    exact runs_lock.mpr ⟨r, es, rfl, ih r hk⟩
  | unlock k ih =>
    obtain ⟨es, rfl, hk⟩ := runs_unlock.mp h
    exact runs_unlock.mpr ⟨es, rfl, ih hk⟩
  | lockInner _ k ih =>
    obtain ⟨r, es, rfl, hk⟩ := runs_lockInner.mp h
    exact runs_lockInner.mpr ⟨r, es, rfl, ih r hk⟩
  | unlockInner _ k ih =>
    obtain ⟨es, rfl, hk⟩ := runs_unlockInner.mp h
    exact runs_unlockInner.mpr ⟨es, rfl, ih hk⟩
  | call c k ih =>
    obtain ⟨x, es, rfl, hk⟩ := runs_call.mp h
    exact runs_call.mpr ⟨x, es, rfl, ih x hk⟩
  | access i k ih => exact ih _ h

variable [Inhabited S.Ans]

/-- Every program can be run to its end, and the log only grows. -/
theorem exists_logged (p : Prog S α) (s : σ) (l : List (σ × S.Acc)) :
    ∃ es a s' more, p.Runs (logged m) (s, l) es a (s', l ++ more) := by
  induction p generalizing s l with
  | ret a => exact ⟨[], a, s, [], by simp⟩
  | lock k ih =>
    obtain ⟨es, a, s', more, h⟩ := ih none s l
    exact ⟨_, a, s', more, runs_lock.mpr ⟨none, es, rfl, h⟩⟩
  | unlock k ih =>
    obtain ⟨es, a, s', more, h⟩ := ih s l
    exact ⟨_, a, s', more, runs_unlock.mpr ⟨es, rfl, h⟩⟩
  | lockInner _ k ih =>
    obtain ⟨es, a, s', more, h⟩ := ih none s l
    exact ⟨_, a, s', more, runs_lockInner.mpr ⟨none, es, rfl, h⟩⟩
  | unlockInner _ k ih =>
    obtain ⟨es, a, s', more, h⟩ := ih s l
    exact ⟨_, a, s', more, runs_unlockInner.mpr ⟨es, rfl, h⟩⟩
  | call c k ih =>
    obtain ⟨es, a, s', more, h⟩ := ih default s l
    exact ⟨_, a, s', more, runs_call.mpr ⟨default, es, rfl, h⟩⟩
  | access i k ih =>
    obtain ⟨es, a, s', more, h⟩ := ih (m i s).1 (m i s).2 (l ++ [(s, i)])
    rw [List.append_assoc] at h
    exact ⟨es, a, s', _, h⟩

/-- An access on some path is made in some run. -/
theorem Accesses.runs {t : σ} {i : S.Acc} {p : Prog S α} {s : σ} (l : List (σ × S.Acc))
    (h : Accesses m t i p s) : ∃ es a s' more, p.Runs (logged m) (s, l) es a (s', l ++ more) ∧
      (t, i) ∈ more := by
  induction p generalizing s l with
  | ret a => exact h.elim
  | lock k ih =>
    obtain ⟨r, h⟩ := h
    obtain ⟨es, a, s', more, hr, hm⟩ := ih r l h
    exact ⟨_, a, s', more, runs_lock.mpr ⟨r, es, rfl, hr⟩, hm⟩
  | unlock k ih =>
    obtain ⟨es, a, s', more, hr, hm⟩ := ih l h
    exact ⟨_, a, s', more, runs_unlock.mpr ⟨es, rfl, hr⟩, hm⟩
  | lockInner _ k ih =>
    obtain ⟨r, h⟩ := h
    obtain ⟨es, a, s', more, hr, hm⟩ := ih r l h
    exact ⟨_, a, s', more, runs_lockInner.mpr ⟨r, es, rfl, hr⟩, hm⟩
  | unlockInner _ k ih =>
    obtain ⟨es, a, s', more, hr, hm⟩ := ih l h
    exact ⟨_, a, s', more, runs_unlockInner.mpr ⟨es, rfl, hr⟩, hm⟩
  | call c k ih =>
    obtain ⟨x, h⟩ := h
    obtain ⟨es, a, s', more, hr, hm⟩ := ih x l h
    exact ⟨_, a, s', more, runs_call.mpr ⟨x, es, rfl, hr⟩, hm⟩
  | access j k ih =>
    rcases h with ⟨rfl, rfl⟩ | h
    · obtain ⟨es, a, s', more, hr⟩ := exists_logged (m := m) (k (m i t).1) (m i t).2 (l ++ [(t, i)])
      rw [List.append_assoc] at hr
      exact ⟨es, a, s', _, hr, List.mem_cons_self⟩
    · obtain ⟨es, a, s', more, hr, hm⟩ := ih _ (l ++ [(s, j)]) h
      rw [List.append_assoc] at hr
      exact ⟨es, a, s', _, hr, List.mem_cons_of_mem _ hm⟩

end Execution

end Prog

end Monitor
