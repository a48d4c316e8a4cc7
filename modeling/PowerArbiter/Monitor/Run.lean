import PowerArbiter.Monitor.Serial
import Mathlib.Data.List.Induction

namespace Monitor

variable {St Lab : Type}

/-- A finite run of a labelled transition system, with its labels in order. -/
def Run (step : St → Lab → St → Prop) : St → List Lab → St → Prop
  | s, [], t => t = s
  | s, l :: ls, t => ∃ s', step s l s' ∧ Run step s' ls t

/-- The steps whose state and label satisfy a condition. A run of this system is
a run all of whose steps meet the condition. -/
def Guarded (step : St → Lab → St → Prop) (ok : St → Lab → Prop) (s : St) (l : Lab) (t : St) :
    Prop := step s l t ∧ ok s l

variable {step : St → Lab → St → Prop} {ok : St → Lab → Prop} {s t : St}

@[simp] theorem run_nil : Run step s [] t ↔ t = s := Iff.rfl

@[simp] theorem run_cons {l : Lab} {ls : List Lab} :
    Run step s (l :: ls) t ↔ ∃ s', step s l s' ∧ Run step s' ls t := Iff.rfl

theorem run_append {ls ks : List Lab} :
    Run step s (ls ++ ks) t ↔ ∃ u, Run step s ls u ∧ Run step u ks t := by
  induction ls generalizing s with
  | nil => simp
  | cons l ls ih =>
    simp only [List.cons_append, run_cons, ih]
    constructor
    · intro hx
      obtain ⟨s', hs, u, hl, hk⟩ := hx
      exact ⟨u, ⟨s', hs, hl⟩, hk⟩
    · intro hx
      obtain ⟨u, ⟨s', hs, hl⟩, hk⟩ := hx
      exact ⟨s', hs, u, hl, hk⟩

theorem Run.mono {step' : St → Lab → St → Prop} (hle : ∀ s l t, step s l t → step' s l t)
    {ls : List Lab} (h : Run step s ls t) : Run step' s ls t := by
  induction ls generalizing s with
  | nil => exact h
  | cons l ls ih =>
    obtain ⟨s', hl, h⟩ := h
    exact ⟨s', hle s l s' hl, ih h⟩

/-- A property that the steps of a run preserve holds at its end. -/
theorem Run.preserves_on {P : St → Prop} {ls : List Lab}
    (hstep : ∀ s, ∀ l ∈ ls, ∀ s', P s → step s l s' → P s') (h : Run step s ls t) (hs : P s) :
    P t := by
  induction ls generalizing s with
  | nil => exact h ▸ hs
  | cons l ls ih =>
    obtain ⟨s', hl, h⟩ := h
    apply ih (fun u k hk => hstep u k (List.mem_cons_of_mem _ hk)) h
    exact hstep s l List.mem_cons_self s' hs hl

theorem Run.preserves {P : St → Prop} (hstep : ∀ s l s', P s → step s l s' → P s')
    {ls : List Lab} (h : Run step s ls t) (hs : P s) : P t :=
  h.preserves_on (fun s l _ s' => hstep s l s') hs

/-- An invariant that also speaks of the labels so far. -/
theorem Run.history {P : List Lab → St → Prop} {ls : List Lab} (h : Run step s ls t)
    (hs : P [] s)
    (hstep : ∀ ks u l v, Run step s ks u → step u l v → P ks u → P (ks ++ [l]) v) : P ls t := by
  induction ls using List.reverseRecOn generalizing t with
  | nil => exact h ▸ hs
  | append_singleton ls l ih =>
    obtain ⟨u, hl, v, hu, ht⟩ := run_append.mp h
    subst ht
    exact hstep ls u l _ hl hu (ih hl)

/-- What a reflexive and transitive relation says of every step, it says of
every run. -/
theorem Run.relates {R : St → St → Prop} (refl : ∀ s, R s s)
    (trans : ∀ s t u, R s t → R t u → R s u) (hstep : ∀ s l s', step s l s' → R s s')
    {ls : List Lab} (h : Run step s ls t) : R s t := by
  induction ls generalizing s with
  | nil => exact h ▸ refl s
  | cons l ls ih =>
    obtain ⟨s', hl, h⟩ := h
    exact trans s s' t (hstep s l s' hl) (ih h)

/-- Every step of the run, judged by its two states and its label. -/
def Observed (step : St → Lab → St → Prop) (good : St → Lab → St → Prop) (s : St) (l : Lab)
    (t : St) : Prop := step s l t ∧ good s l t

variable {good : St → Lab → St → Prop}

/-- The way from a condition on steps to a guarantee about them: an invariant
that the permitted steps keep, and under which they are good. -/
theorem Run.observed {I : St → Prop}
    (hstep : ∀ s l t, I s → step s l t → ok s l → I t ∧ good s l t)
    {ls : List Lab} (h : Run (Guarded step ok) s ls t) (hs : I s) :
    Run (Observed step good) s ls t ∧ I t := by
  induction ls generalizing s with
  | nil => exact ⟨h, h ▸ hs⟩
  | cons l ls ih =>
    obtain ⟨s', ⟨hl, hok⟩, h⟩ := h
    obtain ⟨hI, hgood⟩ := hstep s l s' hs hl hok
    obtain ⟨hr, ht⟩ := ih h hI
    exact ⟨⟨s', ⟨hl, hgood⟩, hr⟩, ht⟩

/-- The way back: under an invariant that the good steps keep, only permitted
steps are good. -/
theorem Run.permitted {I : St → Prop}
    (hstep : ∀ s l t, I s → step s l t → good s l t → I t ∧ ok s l)
    {ls : List Lab} (h : Run (Observed step good) s ls t) (hs : I s) :
    Run (Guarded step ok) s ls t := by
  induction ls generalizing s with
  | nil => exact h
  | cons l ls ih =>
    obtain ⟨s', ⟨hl, hgood⟩, h⟩ := h
    obtain ⟨hI, hok⟩ := hstep s l s' hs hl hgood
    exact ⟨s', ⟨hl, hok⟩, ih h hI⟩

theorem Run.halted {ls : List Lab} (h : Run step s ls t) (hstop : ∀ l s', ¬ step s l s') :
    ls = [] ∧ t = s := by
  cases ls with
  | nil => exact ⟨rfl, h⟩
  | cons l ls =>
    obtain ⟨s', hl, -⟩ := h
    exact absurd hl (hstop l s')

/-- Whatever labels come, of those that fit, the run comes to its end. -/
def Stops (step : St → Lab → St → Prop) (fits : St → Lab → Prop) (live : St → Prop) (s : St) :
    Prop :=
  ∀ f : Nat → Lab, (∀ n t, Run step s ((List.range n).map f) t → live t → fits t (f n)) →
    ∃ n t, Run step s ((List.range n).map f) t ∧ ¬ live t

theorem stops_of_bound {fits : St → Lab → Prop} {live : St → Prop} (bound : Nat)
    (hgo : ∀ t l, live t → fits t l → ∃ t', step t l t')
    (hbound : ∀ ls t, Run step s ls t → live t → ls.length < bound) :
    Stops step fits live s := by
  intro f hf
  by_contra hnone
  have hlive : ∀ n t, Run step s ((List.range n).map f) t → live t := by
    intro n t h
    by_contra ht
    exact hnone ⟨n, t, h, ht⟩
  have hreach : ∀ n, ∃ t, Run step s ((List.range n).map f) t := by
    intro n
    induction n with
    | zero => exact ⟨s, rfl⟩
    | succ n ih =>
      obtain ⟨t, h⟩ := ih
      obtain ⟨t', ht'⟩ := hgo t (f n) (hlive n t h) (hf n t h (hlive n t h))
      rw [List.range_succ, List.map_append]
      exact ⟨t', run_append.mpr ⟨t, h, t', ht', rfl⟩⟩
  obtain ⟨t, h⟩ := hreach bound
  have hlt := hbound _ t h (hlive bound t h)
  rw [List.length_map, List.length_range] at hlt
  exact Nat.lt_irrefl _ hlt

/-- The run of a system that is given as a function. -/
def walk (f : St → Lab → Option St) : St → List Lab → Option St
  | s, [] => some s
  | s, l :: ls => (f s l).bind (fun t => walk f t ls)

theorem run_of_walk {f : St → Lab → Option St} {ls : List Lab} (h : walk f s ls = some t) :
    Run (fun s l t => f s l = some t) s ls t := by
  induction ls generalizing s with
  | nil => exact (Option.some.inj h).symm
  | cons l ls ih =>
    obtain ⟨s', hl, h⟩ := Option.bind_eq_some_iff.mp h
    exact ⟨s', hl, ih h⟩

/-- A serial execution is a run of the operations as atomic steps. -/
theorem serial_iff_run {S : Sig} [DecidableEq S.Inner] [DecidableEq S.Call] {σ Op R : Type}
    {code : Op → Prog S R} {m : Machine S σ} {s t : σ} {ds : List (Done S Op R)} :
    Serial code m s ds t ↔ Run (Alone code m) s ds t := by
  induction ds generalizing s with
  | nil => rfl
  | cons d ds ih => simp only [Serial, run_cons, ih]

section Service

variable {S : Sig} {σ κ Op R : Type} [DecidableEq S.Inner] [DecidableEq S.Call]

/-- One completed operation changes the protected state as its program says,
while the environment answers its calls. -/
def Served (code : Op → Prog S R) (m : Machine S σ) (K : κ → S.Call → S.Ans → κ → Prop)
    (w : σ × κ) (d : Done S Op R) (w' : σ × κ) : Prop :=
  Alone code m w.1 d w'.1 ∧ Follows K w.2 d.trace w'.2

/-- The environment as a function: the calls among the events, each checked
against the answer that the event records. -/
def replay (f : κ → S.Call → S.Ans → Option κ) : κ → List (Event S) → Option κ
  | e, [] => some e
  | e, .call c a :: es => (f e c a).bind (fun e' => replay f e' es)
  | e, _ :: es => replay f e es

variable {K : κ → S.Call → S.Ans → κ → Prop} {f : κ → S.Call → S.Ans → Option κ}

omit [DecidableEq S.Inner] [DecidableEq S.Call] in
theorem follows_of_replay (hf : ∀ e c a e', f e c a = some e' → K e c a e') {e e' : κ}
    {es : List (Event S)} (h : replay f e es = some e') : Follows K e es e' := by
  induction es generalizing e with
  | nil => exact (Option.some.inj h).symm
  | cons ev es ih =>
    cases ev with
    | call c a =>
      obtain ⟨e₁, hc, h⟩ := Option.bind_eq_some_iff.mp h
      exact ⟨e₁, hf _ _ _ _ hc, ih h⟩
    | _ => exact ih h

variable [DecidableEq R] (code : Op → Prog S R) (m : Machine S σ)

/-- A completed operation checked by execution. -/
def serve (f : κ → S.Call → S.Ans → Option κ) (w : σ × κ) (d : Done S Op R) : Option (σ × κ) :=
  match (code d.op).exec m w.1 d.trace with
  | some (r, s, []) => if r = d.result then (replay f w.2 d.trace).map (fun e => (s, e)) else none
  | _ => none

def serveAll (f : κ → S.Call → S.Ans → Option κ) : σ × κ → List (Done S Op R) → Option (σ × κ)
  | w, [] => some w
  | w, d :: ds => (serve code m f w d).bind (fun w' => serveAll f w' ds)

variable {code m}

theorem served_of_serve (hf : ∀ e c a e', f e c a = some e' → K e c a e') {w w' : σ × κ}
    {d : Done S Op R} (h : serve code m f w d = some w') : Served code m K w d w' := by
  unfold serve at h
  split at h
  · rename_i r s hx
    split at h
    · rename_i hr
      obtain ⟨e, he, rfl⟩ := Option.map_eq_some_iff.mp h
      subst hr
      exact ⟨hx, follows_of_replay hf he⟩
    · cases h
  · cases h

/-- What execution accepts is a run. -/
theorem run_of_serveAll (hf : ∀ e c a e', f e c a = some e' → K e c a e') {w w' : σ × κ}
    {ds : List (Done S Op R)} (h : serveAll code m f w ds = some w') :
    Run (Served code m K) w ds w' := by
  induction ds generalizing w with
  | nil => exact (Option.some.inj h).symm
  | cons d ds ih =>
    obtain ⟨w₁, hd, h⟩ := Option.bind_eq_some_iff.mp h
    exact ⟨w₁, served_of_serve hf hd, ih h⟩

end Service

end Monitor
