import PowerArbiter.Monitor.Threads

namespace Monitor

variable {S : Sig} {σ κ τ Op R α : Type} [DecidableEq S.Inner] [DecidableEq S.Call]

/-- A completed operation as one atomic transition of the protected state. -/
def Alone (code : Op → Prog S R) (m : Machine S σ) (s : σ) (d : Done S Op R) (s' : σ) : Prop :=
  (code d.op).Runs m s d.trace d.result s'

/-- The operations of a list, one after the other and each of them alone. -/
def Serial (code : Op → Prog S R) (m : Machine S σ) : σ → List (Done S Op R) → σ → Prop
  | s, [], t => t = s
  | s, d :: ds, t => ∃ s', Alone code m s d s' ∧ Serial code m s' ds t

/-- The stretch of a run in which one operation held the outer lock. -/
structure Slot (σ : Type) where
  inst : Nat
  pre : σ
  post : σ

/-- Consecutive stretches: each begins in the state the previous one ended in. -/
def Linked : σ → List (Slot σ) → σ → Prop
  | s, [], t => t = s
  | s, x :: xs, t => x.pre = s ∧ Linked x.post xs t

theorem linked_append {s t : σ} {xs ys : List (Slot σ)} :
    Linked s (xs ++ ys) t ↔ ∃ u, Linked s xs u ∧ Linked u ys t := by
  induction xs generalizing s with
  | nil => simp [Linked]
  | cons x xs ih => simp [Linked, ih, and_assoc]

/-- A step of a program, seen from the state alone. -/
theorem Move.leads {m : Machine S σ} {t : τ} {p p' : Prog S α} {s s' : σ} {L L' : Locks S τ}
    {es : List (Event S)} (h : Move m t p s L es p' s' L') : p.Leads m s es p' s' := by
  intro rest
  cases h with
  | lockInner _ | lockInnerFail _ =>
    simp [Prog.exec, Prog.consume, Prog.Event.lockInner?]
  | unlockInner => simp [Prog.exec, Prog.consume, Prog.Event.unlockInner?]
  | call a => simp [Prog.exec, Prog.consume, Prog.Event.call?]
  | _ => rfl

theorem update_some {β : Type} [DecidableEq τ] {f : τ → Option β} {t u : τ} {x : Option β} {b : β}
    (h : Function.update f t x u = some b) : (u = t ∧ x = some b) ∨ (u ≠ t ∧ f u = some b) := by
  by_cases hu : u = t
  · subst hu
    exact .inl ⟨rfl, by simpa using h⟩
  · exact .inr ⟨hu, by simpa [Function.update_of_ne hu] using h⟩

section Serializability

variable [DecidableEq τ] {code : Op → Prog S R} {m : Machine S σ}

/-- Operations carry distinct numbers, all of them used up. -/
structure Fresh (c : Conf S σ τ Op R) : Prop where
  active : ∀ t act, c.threads t = some act → act.inst < c.next
  apart : ∀ t u act act', c.threads t = some act → c.threads u = some act' →
    act.inst = act'.inst → t = u
  done : ∀ f ∈ c.finished, f.inst < c.next ∧ ∀ t act, c.threads t = some act → act.inst ≠ f.inst
  once : (c.finished.map Finished.inst).Nodup

omit [DecidableEq S.Inner] [DecidableEq S.Call] [DecidableEq τ] in
theorem Fresh.start (s : σ) : Fresh (Conf.start s : Conf S σ τ Op R) :=
  ⟨by simp [Conf.start], by simp [Conf.start], by simp [Conf.start], by simp [Conf.start]⟩

omit [DecidableEq S.Inner] [DecidableEq S.Call] in
/-- A thread may carry on with a number that no other thread and no finished
operation has. -/
theorem Fresh.assign {c : Conf S σ τ Op R} (h : Fresh c) {t : τ} {a : Active S Op R} {n : Nat}
    (hn : c.next ≤ n) (hi : a.inst < n)
    (hother : ∀ u ≠ t, ∀ b, c.threads u = some b → b.inst ≠ a.inst)
    (hdone : ∀ f ∈ c.finished, a.inst ≠ f.inst) (s : σ) (L : Locks S τ) (order : List Nat) :
    Fresh ⟨s, L, Function.update c.threads t (some a), n, order, c.finished⟩ := by
  refine ⟨?_, ?_, ?_, h.once⟩
  · intro u b hu
    rcases update_some hu with ⟨_, he⟩ | ⟨_, hu⟩
    · cases he; exact hi
    · exact Nat.lt_of_lt_of_le (h.active u b hu) hn
  · intro u v b b' hu hv hb
    rcases update_some hu with ⟨hut, he⟩ | ⟨hut, hu'⟩ <;>
      rcases update_some hv with ⟨hvt, he'⟩ | ⟨hvt, hv'⟩
    · rw [hut, hvt]
    · cases he; exact absurd hb.symm (hother v hvt b' hv')
    · cases he'; exact absurd hb (hother u hut b hu')
    · exact h.apart u v b b' hu' hv' hb
  · intro f hf
    refine ⟨Nat.lt_of_lt_of_le (h.done f hf).1 hn, ?_⟩
    intro u b hu
    rcases update_some hu with ⟨_, he⟩ | ⟨_, hu⟩
    · cases he; exact hdone f hf
    · exact (h.done f hf).2 u b hu

omit [DecidableEq S.Call] in
theorem Fresh.step {c d : Conf S σ τ Op R} {t : τ} (h : Fresh c) (hs : Step code m c t d) :
    Fresh d := by
  cases hs with
  | start idle op =>
    refine h.assign (Nat.le_succ _) (Nat.lt_succ_self _) ?_ ?_ _ _ _
    · intro u _ b hu
      exact Nat.ne_of_lt (h.active u b hu)
    · intro f hf
      exact (Nat.ne_of_lt (h.done f hf).1).symm
  | @move act es prog s L active hm =>
    refine h.assign (a := ⟨act.inst, act.op, prog, act.trace ++ es⟩) (Nat.le_refl _)
      (show act.inst < c.next from h.active _ _ active) ?_ ?_ _ _ _
    · intro u hu b hub hb
      exact hu (h.apart _ _ _ _ hub active hb)
    · intro f hf
      exact fun hi => (h.done f hf).2 _ _ active hi
  | finish active =>
    have hold : ∀ u b, Function.update c.threads t none u = some b →
        u ≠ t ∧ c.threads u = some b := by
      intro u b hu
      rcases update_some hu with ⟨_, he⟩ | hu
      · cases he
      · exact hu
    refine ⟨?_, ?_, ?_, ?_⟩
    · intro u b hu
      exact h.active u b (hold u b hu).2
    · intro u v b b' hu hv
      exact h.apart u v b b' (hold u b hu).2 (hold v b' hv).2
    · intro f hf
      rcases List.mem_append.mp hf with hf | hf
      · exact ⟨(h.done f hf).1, fun u b hu => (h.done f hf).2 u b (hold u b hu).2⟩
      · rw [List.mem_singleton] at hf
        subst hf
        refine ⟨h.active t _ active, fun u b hu hb => ?_⟩
        exact (hold u b hu).1 (h.apart u t b _ (hold u b hu).2 active hb)
    · simp only [List.map_append, List.map_cons, List.map_nil]
      refine List.nodup_append.mpr ⟨h.once, by simp, ?_⟩
      intro i hi j hj
      obtain ⟨f, hf, rfl⟩ := List.mem_map.mp hi
      rw [List.mem_singleton] at hj
      subst hj
      exact ((h.done f hf).2 t _ active).symm

/-- The operation behind a stretch: either it has returned, or it has released
the outer lock and will not touch the protected state again. -/
def Settled (code : Op → Prog S R) (m : Machine S σ) (c : Conf S σ τ Op R) (x : Slot σ) : Prop :=
  (∃ t act, c.threads t = some act ∧ act.inst = x.inst ∧
    Phase.track .outside act.trace = some .released ∧
    (code act.op).Leads m x.pre act.trace act.prog x.post) ∨
  ∃ f ∈ c.finished, f.inst = x.inst ∧ Alone code m x.pre f.toDone x.post

/-- The protected state of a configuration, explained as the effect of the
operations in `order`, each of them alone in its own stretch. `mid` is the state
at the end of the last complete stretch. -/
structure Accounted (code : Op → Prog S R) (m : Machine S σ) (s₀ : σ) (c : Conf S σ τ Op R)
    (slots : List (Slot σ)) (mid : σ) : Prop where
  linked : Linked s₀ slots mid
  settled : ∀ x ∈ slots, Settled code m c x
  free : c.locks.owner = none → c.shared = mid ∧ c.order = slots.map Slot.inst
  held : ∀ t, c.locks.owner = some t → ∃ act, c.threads t = some act ∧
    c.order = slots.map Slot.inst ++ [act.inst] ∧
    (code act.op).Leads m mid act.trace act.prog c.shared
  released : ∀ t act, c.threads t = some act →
    Phase.track .outside act.trace = some .released → act.inst ∈ slots.map Slot.inst
  waiting : ∀ t act, c.threads t = some act → Phase.track .outside act.trace = some .outside →
    act.inst ∉ c.order ∧ ∀ s, (code act.op).Leads m s act.trace act.prog s
  finished : ∀ f ∈ c.finished, f.inst ∈ c.order ∨ ∀ s, Alone code m s f.toDone s
  order : c.order.Nodup ∧ ∀ i ∈ c.order, i < c.next

variable {s₀ mid : σ} {slots : List (Slot σ)} {c : Conf S σ τ Op R} {t : τ} {act : Active S Op R}

omit [DecidableEq τ] in
theorem Accounted.start (s₀ : σ) :
    Accounted code m s₀ (Conf.start s₀ : Conf S σ τ Op R) [] s₀ where
  linked := rfl
  settled := by simp
  free _ := ⟨rfl, rfl⟩
  held := by simp [Conf.start, Locks.free]
  released := by simp [Conf.start]
  waiting := by simp [Conf.start]
  finished := by simp [Conf.start]
  order := by simp [Conf.start]

/-- The slots that are complete stay so while some thread that is not behind any
of them moves on. -/
theorem Settled.other {x : Slot σ} (h : Settled code m c x)
    (ht : ∀ act, c.threads t = some act → Phase.track .outside act.trace = some .released →
      act.inst ≠ x.inst)
    (s : σ) (L : Locks S τ) (b : Option (Active S Op R)) (n : Nat) (order : List Nat)
    (more : List (Finished S Op R)) :
    Settled code m ⟨s, L, Function.update c.threads t b, n, order, c.finished ++ more⟩ x := by
  rcases h with ⟨u, a, hu, hi, htr, hl⟩ | ⟨f, hf, hi, hl⟩
  · have hut : u ≠ t := by
      intro hx
      subst hx
      exact ht a hu htr hi
    exact .inl ⟨u, a, by simpa [Function.update_of_ne hut] using hu, hi, htr, hl⟩
  · exact .inr ⟨f, List.mem_append_left _ hf, hi, hl⟩

theorem Accounted.idle_start (h : Accounted code m s₀ c slots mid) (idle : c.threads t = none)
    (op : Op) : Accounted code m s₀ { c with
        threads := Function.update c.threads t (some ⟨c.next, op, code op, []⟩)
        next := c.next + 1 } slots mid where
  linked := h.linked
  settled x hx := by
    simpa using (h.settled x hx).other (t := t) (by simp [idle]) c.shared c.locks _ _ c.order []
  free := h.free
  held u hu := by
    obtain ⟨a, ha, ho, hl⟩ := h.held u hu
    have hut : u ≠ t := by
      intro hx
      subst hx
      rw [idle] at ha
      cases ha
    exact ⟨a, by simpa [Function.update_of_ne hut] using ha, ho, hl⟩
  released u a hu htr := by
    rcases update_some hu with ⟨_, he⟩ | ⟨_, hu⟩
    · cases he; cases htr
    · exact h.released u a hu htr
  waiting u a hu htr := by
    rcases update_some hu with ⟨_, he⟩ | ⟨_, hu⟩
    · cases he
      exact ⟨fun hm => Nat.lt_irrefl _ (h.order.2 _ hm), fun s => Prog.Leads.refl _ s⟩
    · exact h.waiting u a hu htr
  finished := h.finished
  order := ⟨h.order.1, fun i hi => Nat.lt_succ_of_lt (h.order.2 i hi)⟩

/-- A step outside the outer lock changes nothing but the thread itself. -/
theorem Accounted.quiet (h : Accounted code m s₀ c slots mid)
    (active : c.threads t = some act) {ph ph' : Phase S} {es : List (Event S)} {p' : Prog S R}
    (htr : Phase.track .outside act.trace = some ph) (hq : ph.Quiet)
    (hnext : ph.track es = some ph') (hsame : ph' = ph) (howner : c.locks.owner ≠ some t)
    (hl : ∀ s, act.prog.Leads m s es p' s) :
    Accounted code m s₀ { c with
      threads := Function.update c.threads t (some ⟨act.inst, act.op, p', act.trace ++ es⟩) }
      slots mid where
  linked := h.linked
  settled x hx := by
    rcases h.settled x hx with ⟨u, a, hu, hi, hr, hlead⟩ | hfin
    · by_cases hut : u = t
      · subst hut
        rw [active] at hu
        cases hu
        refine .inl ⟨u, ⟨act.inst, act.op, p', act.trace ++ es⟩, by simp, hi, ?_,
          hlead.trans (hl _)⟩
        cases htr.symm.trans hr
        simp [Phase.track_append, htr, hnext, hsame]
      · exact .inl ⟨u, a, by simpa [Function.update_of_ne hut] using hu, hi, hr, hlead⟩
    · exact .inr hfin
  free := h.free
  held u hu := by
    obtain ⟨a, ha, ho, hlead⟩ := h.held u hu
    have hut : u ≠ t := by
      intro hx
      subst hx
      exact howner hu
    exact ⟨a, by simpa [Function.update_of_ne hut] using ha, ho, hlead⟩
  released u a hu hr := by
    rcases update_some hu with ⟨_, he⟩ | ⟨_, hu⟩
    · cases he
      simp only [Phase.track_append, htr, Option.bind_some, hnext, hsame] at hr
      exact h.released t act active (htr.trans hr)
    · exact h.released u a hu hr
  waiting u a hu hr := by
    rcases update_some hu with ⟨_, he⟩ | ⟨_, hu⟩
    · cases he
      simp only [Phase.track_append, htr, Option.bind_some, hnext, hsame] at hr
      obtain ⟨hi, hlead⟩ := h.waiting t act active (htr.trans hr)
      exact ⟨hi, fun s => (hlead s).trans (hl s)⟩
    · exact h.waiting u a hu hr
  finished := h.finished
  order := h.order

/-- Acquiring the outer lock opens a new stretch. -/
theorem Accounted.acquire (h : Accounted code m s₀ c slots mid) (hf : Fresh c)
    (active : c.threads t = some act) {L : Locks S τ} {p' : Prog S R}
    (htr : Phase.track .outside act.trace = some .outside) (hfree : c.locks.owner = none)
    (hL : L.owner = some t) (hl : ∀ s, act.prog.Leads m s [.lock none] p' s) :
    Accounted code m s₀ { c with
      locks := L
      threads := Function.update c.threads t
        (some ⟨act.inst, act.op, p', act.trace ++ [.lock none]⟩)
      order := c.order ++ [act.inst] } slots mid where
  linked := h.linked
  settled x hx := by
    have hne : ∀ b, c.threads t = some b → Phase.track .outside b.trace = some .released →
        b.inst ≠ x.inst := by
      intro b hb hr
      rw [active] at hb
      cases hb
      rw [htr] at hr
      cases hr
    simpa using (h.settled x hx).other hne c.shared L _ c.next (c.order ++ [act.inst]) []
  free hn := by rw [hL] at hn; cases hn
  held u hu := by
    rw [hL] at hu
    cases hu
    obtain ⟨hmid, ho⟩ := h.free hfree
    refine ⟨_, Function.update_self .., by rw [ho], ?_⟩
    exact ((h.waiting t act active htr).2 mid).trans (hmid ▸ hl mid)
  released u a hu hr := by
    rcases update_some hu with ⟨_, he⟩ | ⟨_, hu⟩
    · cases he
      simp [Phase.track_append, htr, Phase.next] at hr
    · exact h.released u a hu hr
  waiting u a hu hr := by
    rcases update_some hu with ⟨_, he⟩ | ⟨hut, hu⟩
    · cases he
      simp [Phase.track_append, htr, Phase.next] at hr
    · obtain ⟨hi, hlead⟩ := h.waiting u a hu hr
      refine ⟨fun hm => ?_, hlead⟩
      rcases List.mem_append.mp hm with hm | hm
      · exact hi hm
      · exact hut (hf.apart u t a act hu active (List.mem_singleton.mp hm))
  finished f hm := (h.finished f hm).imp_left (List.mem_append_left _)
  order := by
    refine ⟨List.nodup_append.mpr ⟨h.order.1, by simp, ?_⟩, ?_⟩
    · intro i hi j hj
      rw [List.mem_singleton] at hj
      subst hj
      intro hx
      subst hx
      exact (h.waiting t act active htr).1 hi
    · intro i hi
      rcases List.mem_append.mp hi with hi | hi
      · exact h.order.2 i hi
      · rw [List.mem_singleton.mp hi]
        exact hf.active t act active

/-- A step of the owner of the outer lock continues the open stretch. -/
theorem Accounted.inside (h : Accounted code m s₀ c slots mid)
    (active : c.threads t = some act) {ph ph' : Phase S} {es : List (Event S)} {p' : Prog S R}
    {s' : σ} {L : Locks S τ} (htr : Phase.track .outside act.trace = some ph) (hin : ph.Inside)
    (hnext : ph.track es = some ph') (hin' : ph'.Inside) (howner : c.locks.owner = some t)
    (hL : L.owner = some t) (hl : act.prog.Leads m c.shared es p' s') :
    Accounted code m s₀ { c with
      shared := s'
      locks := L
      threads := Function.update c.threads t (some ⟨act.inst, act.op, p', act.trace ++ es⟩) }
      slots mid where
  linked := h.linked
  settled x hx := by
    have hne : ∀ b, c.threads t = some b → Phase.track .outside b.trace = some .released →
        b.inst ≠ x.inst := by
      intro b hb hr
      rw [active] at hb
      cases hb
      cases htr.symm.trans hr
      exact hin.elim
    simpa using (h.settled x hx).other hne s' L _ c.next c.order []
  free hn := by rw [hL] at hn; cases hn
  held u hu := by
    rw [hL] at hu
    cases hu
    obtain ⟨a, ha, ho, hlead⟩ := h.held t howner
    rw [active] at ha
    cases ha
    exact ⟨_, Function.update_self .., ho, hlead.trans hl⟩
  released u a hu hr := by
    rcases update_some hu with ⟨_, he⟩ | ⟨_, hu⟩
    · cases he
      simp only [Phase.track_append, htr, Option.bind_some, hnext, Option.some.injEq] at hr
      subst hr
      exact hin'.elim
    · exact h.released u a hu hr
  waiting u a hu hr := by
    rcases update_some hu with ⟨_, he⟩ | ⟨_, hu⟩
    · cases he
      simp only [Phase.track_append, htr, Option.bind_some, hnext, Option.some.injEq] at hr
      subst hr
      exact hin'.elim
    · exact h.waiting u a hu hr
  finished := h.finished
  order := h.order

/-- Releasing the outer lock closes the open stretch. -/
theorem Accounted.release (h : Accounted code m s₀ c slots mid)
    (active : c.threads t = some act) {L : Locks S τ} {p' : Prog S R}
    (htr : Phase.track .outside act.trace = some .holding) (howner : c.locks.owner = some t)
    (hL : L.owner = none) (hl : ∀ s, act.prog.Leads m s [.unlock] p' s) :
    Accounted code m s₀ { c with
      locks := L
      threads := Function.update c.threads t
        (some ⟨act.inst, act.op, p', act.trace ++ [.unlock]⟩) }
      (slots ++ [⟨act.inst, mid, c.shared⟩]) c.shared := by
  obtain ⟨b, hb, ho, hlead⟩ := h.held t howner
  rw [active] at hb
  cases hb
  have hnew : Phase.track .outside (act.trace ++ [.unlock]) = some .released := by
    simp [Phase.track_append, htr, Phase.next]
  constructor
  case linked => exact linked_append.mpr ⟨mid, h.linked, rfl, rfl⟩
  case settled =>
    intro x hx
    rcases List.mem_append.mp hx with hx | hx
    · have hne : ∀ b, c.threads t = some b → Phase.track .outside b.trace = some .released →
          b.inst ≠ x.inst := by
        intro b hb hr
        rw [active] at hb
        cases hb
        rw [htr] at hr
        cases hr
      simpa using (h.settled x hx).other hne c.shared L _ c.next c.order []
    · rw [List.mem_singleton] at hx
      subst hx
      exact .inl ⟨t, _, Function.update_self .., rfl, hnew, hlead.trans (hl _)⟩
  case free => exact fun _ => ⟨rfl, by simpa using ho⟩
  case held => intro u hu; rw [hL] at hu; cases hu
  case released =>
    intro u a hu hr
    rw [List.map_append]
    rcases update_some hu with ⟨_, he⟩ | ⟨_, hu⟩
    · cases he
      simp
    · exact List.mem_append_left _ (h.released u a hu hr)
  case waiting =>
    intro u a hu hr
    rcases update_some hu with ⟨_, he⟩ | ⟨_, hu⟩
    · cases he
      rw [hnew] at hr
      cases hr
    · exact h.waiting u a hu hr
  case finished => exact h.finished
  case order => exact h.order

/-- A return files the operation among the finished ones. -/
theorem Accounted.finish (h : Accounted code m s₀ c slots mid) {i : Nat} {op : Op}
    {tr : List (Event S)} {a : R} (active : c.threads t = some ⟨i, op, .ret a, tr⟩)
    {ph : Phase S} (htr : Phase.track .outside tr = some ph) (hq : ph.Quiet)
    (howner : c.locks.owner ≠ some t) :
    Accounted code m s₀ { c with
      threads := Function.update c.threads t none
      finished := c.finished ++ [⟨⟨op, tr, a⟩, i⟩] } slots mid where
  linked := h.linked
  settled x hx := by
    rcases h.settled x hx with ⟨u, b, hu, hi, hr, hlead⟩ | ⟨f, hf, hi, hrun⟩
    · by_cases hut : u = t
      · subst hut
        rw [active] at hu
        cases hu
        exact .inr ⟨_, List.mem_append_right _ (List.mem_singleton.mpr rfl), hi, hlead.runs⟩
      · exact .inl ⟨u, b, by simpa [Function.update_of_ne hut] using hu, hi, hr, hlead⟩
    · exact .inr ⟨f, List.mem_append_left _ hf, hi, hrun⟩
  free := h.free
  held u hu := by
    obtain ⟨b, hb, ho, hlead⟩ := h.held u hu
    have hut : u ≠ t := by
      intro hx
      subst hx
      exact howner hu
    exact ⟨b, by simpa [Function.update_of_ne hut] using hb, ho, hlead⟩
  released u b hu hr := by
    rcases update_some hu with ⟨_, he⟩ | ⟨_, hu⟩
    · cases he
    · exact h.released u b hu hr
  waiting u b hu hr := by
    rcases update_some hu with ⟨_, he⟩ | ⟨_, hu⟩
    · cases he
    · exact h.waiting u b hu hr
  finished f hf := by
    rcases List.mem_append.mp hf with hf | hf
    · exact h.finished f hf
    · rw [List.mem_singleton] at hf
      subst hf
      cases ph with
      | outside => exact .inr (fun s => ((h.waiting t _ active htr).2 s).runs)
      | released =>
        left
        have hm := h.released t _ active htr
        cases hown : c.locks.owner with
        | none => rw [(h.free hown).2]; exact hm
        | some u =>
          obtain ⟨b, _, ho, _⟩ := h.held u hown
          rw [ho]
          exact List.mem_append_left _ hm
      | holding => exact hq.elim
      | nested l => exact hq.elim
  order := h.order

/-- Every step keeps the account. -/
theorem Accounted.step {d : Conf S σ τ Op R} (h : Accounted code m s₀ c slots mid)
    (hord : Orderly c) (hf : Fresh c) (hs : Step code m c t d) :
    ∃ slots' mid', Accounted code m s₀ d slots' mid' := by
  cases hs with
  | start idle op => exact ⟨slots, mid, h.idle_start idle op⟩
  | finish active =>
    obtain ⟨ph, htr, hk, hh⟩ := hord.active active
    refine ⟨slots, mid, h.finish active htr hk ?_⟩
    intro ho
    have := hh.1.mp ho
    cases ph <;> first | exact hk.elim | exact this.elim
  | @move act es prog s L active hm =>
    obtain ⟨ph, htr, hk, hh⟩ := hord.active active
    obtain ⟨ph', hnext, _, hh', _⟩ := hm.keeps hk hh
    have hlead := hm.leads
    obtain ⟨i, op, p, tr⟩ := act
    have hout : ph.Quiet → c.locks.owner ≠ some t := by
      intro hq ho
      have := hh.1.mp ho
      cases ph <;> first | exact hq.elim | exact this.elim
    have stay : ph.Inside → L.owner = some t → acquired es i = [] →
        ∃ slots' mid', Accounted code m s₀ { c with
          shared := s
          locks := L
          threads := Function.update c.threads t (some ⟨i, op, prog, tr ++ es⟩)
          order := c.order ++ acquired es i } slots' mid' := by
      intro hin hL hacq
      have := h.inside active htr hin hnext (hh'.1.mp hL) (hh.1.mpr hin) hL hlead
      exact ⟨slots, mid, by simpa [hacq] using this⟩
    cases hm with
    | lock free =>
      obtain ⟨rfl, _⟩ := hk
      exact ⟨_, _, h.acquire hf active htr free rfl (fun _ _ => rfl)⟩
    | unlock =>
      obtain ⟨rfl, _⟩ := hk
      have := h.release active (L := { c.locks with owner := none }) htr (hh.1.mpr trivial) rfl
        (fun _ _ => rfl)
      exact ⟨_, _, by simpa [acquired] using this⟩
    | lockFail e =>
      obtain ⟨rfl, _⟩ := hk
      have := h.quiet active htr trivial hnext (by simpa [Phase.next] using hnext.symm)
        (hout trivial) (fun _ _ => rfl)
      exact ⟨_, _, by simpa [acquired] using this⟩
    | call a =>
      by_cases hq : ph.Quiet
      · have := h.quiet active htr hq hnext (Option.some.inj hnext).symm (hout hq)
          (fun _ => Move.leads (.call a) (t := t) (L := c.locks))
        exact ⟨_, _, by simpa [acquired] using this⟩
      · have hin : ph.Inside := by cases ph <;> first | trivial | exact absurd trivial hq
        exact stay hin (hh.1.mpr hin) rfl
    | lockInner free =>
      obtain ⟨rfl, _⟩ := hk
      exact stay trivial (hh.1.mpr trivial) rfl
    | lockInnerFail e =>
      obtain ⟨rfl, _⟩ := hk
      exact stay trivial (hh.1.mpr trivial) rfl
    | unlockInner =>
      obtain ⟨rfl, _⟩ := hk
      exact stay trivial (hh.1.mpr trivial) rfl
    | access => exact stay hk.1 (hh.1.mpr hk.1) rfl

/-- In every reachable configuration the protected state is accounted for. -/
theorem Interleaved.accounted (hb : Balanced code)
    (hr : Interleaved code m (Conf.start s₀ : Conf S σ τ Op R) c) :
    Fresh c ∧ ∃ slots mid, Accounted code m s₀ c slots mid := by
  induction hr with
  | refl => exact ⟨Fresh.start s₀, [], s₀, Accounted.start s₀⟩
  | tail hr hs ih =>
    obtain ⟨hf, slots, mid, ha⟩ := ih
    exact ⟨hf.step hs, ha.step (Interleaved.orderly hb (Orderly.start s₀) hr) hf hs⟩

omit [DecidableEq τ] in
/-- Complete stretches whose operations have returned are a serial execution. -/
theorem serial_of_linked {u v : σ} (hl : Linked u slots v)
    (hs : ∀ x ∈ slots, ∃ f ∈ c.finished, f.inst = x.inst ∧ Alone code m x.pre f.toDone x.post) :
    ∃ fs : List (Finished S Op R), fs.map Finished.inst = slots.map Slot.inst ∧
      (∀ f ∈ fs, f ∈ c.finished) ∧ Serial code m u (fs.map Finished.toDone) v := by
  induction slots generalizing u with
  | nil => exact ⟨[], rfl, by simp, hl⟩
  | cons x xs ih =>
    obtain ⟨rfl, hl⟩ := hl
    obtain ⟨f, hf, hi, hrun⟩ := hs x List.mem_cons_self
    obtain ⟨fs, hmap, hmem, hserial⟩ := ih hl (fun y hy => hs y (List.mem_cons_of_mem _ hy))
    refine ⟨f :: fs, by simp [hi, hmap], ?_, x.post, hrun, hserial⟩
    intro g hg
    rcases List.mem_cons.mp hg with rfl | hg
    · exact hf
    · exact hmem g hg

/-- Disciplined operations are serializable. Once every operation has returned,
those that acquired the outer lock, run alone in the order in which they acquired
it, give the same results and the same protected state; the others return what
they return alone in any state, which they leave as it is. -/
theorem Interleaved.serializable (hb : Balanced code)
    (hr : Interleaved code m (Conf.start s₀ : Conf S σ τ Op R) c)
    (idle : ∀ t, c.threads t = none) :
    c.order.Nodup ∧ (c.finished.map Finished.inst).Nodup ∧
    (∃ fs : List (Finished S Op R), fs.map Finished.inst = c.order ∧ (∀ f ∈ fs, f ∈ c.finished) ∧
      Serial code m s₀ (fs.map Finished.toDone) c.shared) ∧
    ∀ f ∈ c.finished, f.inst ∉ c.order → ∀ s, Alone code m s f.toDone s := by
  obtain ⟨hf, slots, mid, h⟩ := hr.accounted hb
  have hord := Interleaved.orderly hb (Orderly.start s₀) hr
  have hnone : c.locks.owner = none := by
    cases ho : c.locks.owner with
    | none => rfl
    | some t =>
      obtain ⟨act, ht⟩ := hord.owner_active ho
      rw [idle t] at ht
      cases ht
  obtain ⟨hmid, ho⟩ := h.free hnone
  refine ⟨h.order.1, hf.once, ?_, fun f hm hi => (h.finished f hm).resolve_left hi⟩
  rw [ho, hmid]
  apply serial_of_linked h.linked
  intro x hx
  rcases h.settled x hx with ⟨t, act, ht, _⟩ | hfin
  · rw [idle t] at ht
    cases ht
  · exact hfin

end Serializability

end Monitor
