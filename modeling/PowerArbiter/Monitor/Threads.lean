import PowerArbiter.Monitor.Program
import Mathlib.Logic.Function.Basic

namespace Monitor

/-- Where one operation stands with respect to the locks. The outer lock is
taken at most once, and one inner lock at a time inside it. -/
inductive Phase (S : Sig) : Type where
  | outside
  | holding
  | nested (l : S.Inner)
  | released

variable {S : Sig} {σ τ Op R α β : Type}

namespace Phase

/-- Between acquiring and releasing the outer lock. -/
def Inside : Phase S → Prop
  | .holding | .nested _ => True
  | _ => False

/-- Phases in which an operation owns nothing and may return. -/
def Quiet : Phase S → Prop
  | .outside | .released => True
  | _ => False

variable [DecidableEq S.Inner]

/-- The lock protocol as an automaton over events. An acquisition of a lock that
is already held and a release of one that is not have no successor. -/
def next : Phase S → Event S → Option (Phase S)
  | ph, .call _ _ => some ph
  | .outside, .lock none => some .holding
  | .outside, .lock (some _) => some .outside
  | .holding, .unlock => some .released
  | .holding, .lockInner l none => some (.nested l)
  | .holding, .lockInner _ (some _) => some .holding
  | .nested l, .unlockInner l' => if l' = l then some .holding else none
  | _, _ => none

def track (ph : Phase S) (es : List (Event S)) : Option (Phase S) := es.foldlM next ph

@[simp] theorem track_nil (ph : Phase S) : ph.track [] = some ph := rfl

@[simp] theorem track_cons (ph : Phase S) (e : Event S) (es : List (Event S)) :
    ph.track (e :: es) = (ph.next e).bind (fun q => q.track es) := rfl

theorem track_append (ph : Phase S) (es fs : List (Event S)) :
    ph.track (es ++ fs) = (ph.track es).bind (fun q => q.track fs) := by
  induction es generalizing ph with
  | nil => rfl
  | cons e es ih => simp only [List.cons_append, track_cons, Option.bind_assoc, ih]

end Phase

namespace Event

def acquires : Event S → Bool
  | .lock none => true
  | _ => false

def releases : Event S → Bool
  | .unlock => true
  | _ => false

def acquiresInner [DecidableEq S.Inner] (l : S.Inner) : Event S → Bool
  | .lockInner l' none => l' = l
  | _ => false

def releasesInner [DecidableEq S.Inner] (l : S.Inner) : Event S → Bool
  | .unlockInner l' => l' = l
  | _ => false

end Event

/-- Every lock acquired in the trace is released in it, once for each time. -/
def Released [DecidableEq S.Inner] (es : List (Event S)) : Prop :=
  es.countP Event.acquires = es.countP Event.releases ∧ es.countP Event.acquires ≤ 1 ∧
  ∀ l, es.countP (Event.acquiresInner l) = es.countP (Event.releasesInner l)

namespace Phase

variable [DecidableEq S.Inner]

/-- How often the outer lock has been acquired and released by this phase. -/
def taken : Phase S → Nat
  | .outside => 0
  | _ => 1

def given : Phase S → Nat
  | .released => 1
  | _ => 0

def inside (l : S.Inner) : Phase S → Nat
  | .nested l' => if l' = l then 1 else 0
  | _ => 0

theorem track_counts {ph ph' : Phase S} {es : List (Event S)} (h : ph.track es = some ph') :
    es.countP Event.acquires + ph.taken = ph'.taken ∧
    es.countP Event.releases + ph.given = ph'.given ∧
    ∀ l, es.countP (Event.acquiresInner l) + ph.inside l =
      es.countP (Event.releasesInner l) + ph'.inside l := by
  induction es generalizing ph with
  | nil =>
    simp only [track_nil, Option.some.injEq] at h
    subst h
    simp
  | cons e es ih =>
    rw [track_cons] at h
    obtain ⟨q, hq, h⟩ := Option.bind_eq_some_iff.mp h
    obtain ⟨ht, hg, hl⟩ := ih h
    simp only [List.countP_cons]
    rcases ph <;> rcases e with (_ | _) | _ | ⟨l, _ | _⟩ | l | _ <;>
      simp only [next, Option.some.injEq, reduceCtorEq, Option.ite_none_right_eq_some] at hq <;>
      grind [Event.acquires, Event.releases, Event.acquiresInner, Event.releasesInner, taken,
        given, inside]

/-- A trace that ends where nothing is owned has released what it acquired. -/
theorem Quiet.released {ph : Phase S} {es : List (Event S)} (hq : ph.Quiet)
    (h : track .outside es = some ph) : Released es := by
  obtain ⟨ht, hg, hl⟩ := track_counts h
  cases ph with
  | outside =>
    simp only [taken, given, inside, Nat.add_zero] at ht hg hl
    exact ⟨by omega, by omega, hl⟩
  | released =>
    simp only [taken, given, inside, Nat.add_zero] at ht hg hl
    exact ⟨by omega, by omega, hl⟩
  | holding => exact hq.elim
  | nested l => exact hq.elim

end Phase

/-- Static lock discipline: started in a phase, the program follows the protocol
on every path, touches the protected state only inside the outer lock, and
returns only where `Q` allows it. -/
def Keeps (Q : α → Phase S → Prop) : Prog S α → Phase S → Prop
  | .ret a, ph => Q a ph
  | .lock k, ph => ph = .outside ∧ (∀ e, Keeps Q (k (some e)) .outside) ∧ Keeps Q (k none) .holding
  | .unlock k, ph => ph = .holding ∧ Keeps Q k .released
  | .lockInner l k, ph =>
    ph = .holding ∧ (∀ e, Keeps Q (k (some e)) .holding) ∧ Keeps Q (k none) (.nested l)
  | .unlockInner l k, ph => ph = .nested l ∧ Keeps Q k .holding
  | .call _ k, ph => ∀ a, Keeps Q (k a) ph
  | .access _ k, ph => ph.Inside ∧ ∀ v, Keeps Q (k v) ph

/-- The discipline of a sequence is the discipline of its parts. -/
theorem keeps_bind {Q : β → Phase S → Prop} (p : Prog S α) (f : α → Prog S β) (ph : Phase S) :
    Keeps Q (p.bind f) ph ↔ Keeps (fun a => Keeps Q (f a)) p ph := by
  induction p generalizing ph with
  | ret a => rfl
  | lock k ih => simp only [Prog.bind, Keeps, ih]
  | unlock k ih => simp only [Prog.bind, Keeps, ih]
  | lockInner l k ih => simp only [Prog.bind, Keeps, ih]
  | unlockInner l k ih => simp only [Prog.bind, Keeps, ih]
  | call c k ih => simp only [Prog.bind, Keeps, ih]
  | access i k ih => simp only [Prog.bind, Keeps, ih]

theorem Keeps.mono {Q Q' : α → Phase S → Prop} (hQ : ∀ a ph, Q a ph → Q' a ph)
    {p : Prog S α} {ph : Phase S} (h : Keeps Q p ph) : Keeps Q' p ph := by
  induction p generalizing ph with
  | ret a => exact hQ a ph h
  | lock k ih => exact ⟨h.1, fun e => ih _ (h.2.1 e), ih _ h.2.2⟩
  | unlock k ih => exact ⟨h.1, ih h.2⟩
  | lockInner l k ih => exact ⟨h.1, fun e => ih _ (h.2.1 e), ih _ h.2.2⟩
  | unlockInner l k ih => exact ⟨h.1, ih h.2⟩
  | call c k ih => exact fun a => ih a (h a)
  | access i k ih => exact ⟨h.1, fun v => ih v (h.2 v)⟩

/-- Who holds what. -/
structure Locks (S : Sig) (τ : Type) where
  owner : Option τ
  inner : S.Inner → Option τ

/-- Nobody holds anything. -/
def Locks.free : Locks S τ := ⟨none, fun _ => none⟩

/-- One step of the program of thread `t`. A release frees the lock whoever
holds it, and a failed attempt acquires nothing. -/
inductive Move [DecidableEq S.Inner] (m : Machine S σ) (t : τ) :
    Prog S α → σ → Locks S τ → List (Event S) → Prog S α → σ → Locks S τ → Prop
  | lock {k s L} (free : L.owner = none) :
      Move m t (.lock k) s L [.lock none] (k none) s { L with owner := some t }
  | lockFail {k s L} (e : S.Fail) :
      Move m t (.lock k) s L [.lock (some e)] (k (some e)) s L
  | unlock {k s L} : Move m t (.unlock k) s L [.unlock] k s { L with owner := none }
  | lockInner {l k s L} (free : L.inner l = none) :
      Move m t (.lockInner l k) s L [.lockInner l none] (k none) s
        { L with inner := Function.update L.inner l (some t) }
  | lockInnerFail {l k s L} (e : S.Fail) :
      Move m t (.lockInner l k) s L [.lockInner l (some e)] (k (some e)) s L
  | unlockInner {l k s L} :
      Move m t (.unlockInner l k) s L [.unlockInner l] k s
        { L with inner := Function.update L.inner l none }
  | call {c k s L} (a : S.Ans) : Move m t (.call c k) s L [.call c a] (k a) s L
  | access {i k s L} : Move m t (.access i k) s L [] (k (m i s).1) (m i s).2 L

/-- A completed operation: what it was, what it saw and what it returned. -/
structure Done (S : Sig) (Op R : Type) where
  op : Op
  trace : List (Event S)
  result : R

/-- An operation in progress. `inst` tells apart the operations of one run. -/
structure Active (S : Sig) (Op R : Type) where
  inst : Nat
  op : Op
  prog : Prog S R
  trace : List (Event S)

structure Finished (S : Sig) (Op R : Type) extends Done S Op R where
  inst : Nat

/-- Any number of threads over one protected state. `order` records the
operations as they acquire the outer lock, `finished` as they return. -/
structure Conf (S : Sig) (σ τ Op R : Type) where
  shared : σ
  locks : Locks S τ
  threads : τ → Option (Active S Op R)
  next : Nat
  order : List Nat
  finished : List (Finished S Op R)

def Conf.start (s : σ) : Conf S σ τ Op R := ⟨s, .free, fun _ => none, 0, [], []⟩

/-- The operation `i` enters the order when it acquires the outer lock. -/
def acquired : List (Event S) → Nat → List Nat
  | [.lock none], i => [i]
  | _, _ => []

/-- One step of one thread: an idle thread starts any operation, an active one
takes a step of its program, and a program at its end returns. -/
inductive Step [DecidableEq S.Inner] [DecidableEq τ] (code : Op → Prog S R) (m : Machine S σ) :
    Conf S σ τ Op R → τ → Conf S σ τ Op R → Prop
  | start {c t} (idle : c.threads t = none) (op : Op) :
      Step code m c t { c with
        threads := Function.update c.threads t (some ⟨c.next, op, code op, []⟩)
        next := c.next + 1 }
  | move {c t act es prog s L} (active : c.threads t = some act)
      (h : Move m t act.prog c.shared c.locks es prog s L) :
      Step code m c t { c with
        shared := s
        locks := L
        threads := Function.update c.threads t (some ⟨act.inst, act.op, prog, act.trace ++ es⟩)
        order := c.order ++ acquired es act.inst }
  | finish {c t i op tr a} (active : c.threads t = some ⟨i, op, .ret a, tr⟩) :
      Step code m c t { c with
        threads := Function.update c.threads t none
        finished := c.finished ++ [⟨⟨op, tr, a⟩, i⟩] }

/-- Some interleaving of the threads leads from `c` to `d`. -/
inductive Interleaved [DecidableEq S.Inner] [DecidableEq τ] (code : Op → Prog S R)
    (m : Machine S σ) (c : Conf S σ τ Op R) : Conf S σ τ Op R → Prop
  | refl : Interleaved code m c c
  | tail {d e t} (h : Interleaved code m c d) (hs : Step code m d t e) : Interleaved code m c e

variable [DecidableEq S.Inner]

/-- The locks that thread `t` owns are exactly those of its phase. -/
def Holds (L : Locks S τ) (t : τ) (ph : Phase S) : Prop :=
  (L.owner = some t ↔ ph.Inside) ∧ ∀ l, L.inner l = some t ↔ ph = .nested l

/-- The lock protocol advances with every step of a disciplined program, and
the locks of the other threads stay with them. -/
theorem Move.keeps {m : Machine S σ} {t : τ} {Q : α → Phase S → Prop} {p p' : Prog S α}
    {s s' : σ} {L L' : Locks S τ} {es : List (Event S)} {ph : Phase S}
    (h : Move m t p s L es p' s' L') (hk : Keeps Q p ph) (hh : Holds L t ph) :
    ∃ ph', ph.track es = some ph' ∧ Keeps Q p' ph' ∧ Holds L' t ph' ∧
      ∀ u, u ≠ t → ∀ q, Holds L u q → Holds L' u q := by
  cases h with
  | lock free =>
    obtain ⟨rfl, _, hk⟩ := hk
    refine ⟨.holding, rfl, hk, ⟨by simp [Phase.Inside], fun l => ?_⟩, ?_⟩
    · simpa using (hh.2 l)
    · intro u hu q hq
      refine ⟨?_, hq.2⟩
      rw [← hq.1, free]
      simp [Ne.symm hu]
  | lockFail e =>
    obtain ⟨rfl, hk, _⟩ := hk
    exact ⟨.outside, rfl, hk e, hh, fun _ _ _ hq => hq⟩
  | unlock =>
    obtain ⟨rfl, hk⟩ := hk
    have ho : L.owner = some t := hh.1.mpr trivial
    refine ⟨.released, rfl, hk, ⟨by simp [Phase.Inside], fun l => ?_⟩, ?_⟩
    · simpa using (hh.2 l)
    · intro u hu q hq
      refine ⟨?_, hq.2⟩
      rw [← hq.1, ho]
      simp [Ne.symm hu]
  | @lockInner l k s L free =>
    obtain ⟨rfl, _, hk⟩ := hk
    refine ⟨.nested l, rfl, hk, ⟨by simpa [Phase.Inside] using hh.1, fun l' => ?_⟩, ?_⟩
    · by_cases hl : l' = l
      · subst hl; simp
      · have := hh.2 l'
        simp_all [Function.update_of_ne, eq_comm]
    · intro u hu q hq
      refine ⟨hq.1, fun l' => ?_⟩
      by_cases hl : l' = l
      · subst hl
        rw [← hq.2 l', free]
        simp [Ne.symm hu]
      · simpa [Function.update_of_ne hl] using hq.2 l'
  | lockInnerFail e =>
    obtain ⟨rfl, hk, _⟩ := hk
    exact ⟨.holding, rfl, hk e, hh, fun _ _ _ hq => hq⟩
  | @unlockInner l k s L =>
    obtain ⟨rfl, hk⟩ := hk
    have hl : L.inner l = some t := (hh.2 l).mpr rfl
    refine ⟨.holding, by simp [Phase.next], hk, ⟨?_, fun l' => ?_⟩, ?_⟩
    · simpa [Phase.Inside] using hh.1
    · by_cases hl' : l' = l
      · subst hl'; simp
      · have := hh.2 l'
        simp_all [Function.update_of_ne, eq_comm]
    · intro u hu q hq
      refine ⟨hq.1, fun l' => ?_⟩
      by_cases hl' : l' = l
      · subst hl'
        rw [← hq.2 l', hl]
        simp [Ne.symm hu]
      · simpa [Function.update_of_ne hl'] using hq.2 l'
  | call a => exact ⟨ph, rfl, hk a, hh, fun _ _ _ hq => hq⟩
  | access => exact ⟨ph, rfl, hk.2 _, hh, fun _ _ _ hq => hq⟩

/-- An operation returns only when it owns no lock. -/
def Balanced (code : Op → Prog S R) : Prop :=
  ∀ op, Keeps (fun _ ph => ph.Quiet) (code op) .outside

/-- The phase of a thread, read off the events of its current operation. -/
def InPhase (c : Conf S σ τ Op R) (t : τ) (ph : Phase S) : Prop :=
  match c.threads t with
  | none => ph = .outside
  | some act => Phase.track .outside act.trace = some ph ∧ Keeps (fun _ ph => ph.Quiet) act.prog ph

/-- Every thread follows the protocol and owns exactly the locks of its phase. -/
def Orderly (c : Conf S σ τ Op R) : Prop := ∀ t, ∃ ph, InPhase c t ph ∧ Holds c.locks t ph

theorem Orderly.start (s : σ) : Orderly (Conf.start s : Conf S σ τ Op R) :=
  fun _ => ⟨.outside, rfl, by simp [Conf.start, Locks.free, Phase.Inside], by
    simp [Conf.start, Locks.free]⟩

theorem InPhase.quiet_of_ret {c : Conf S σ τ Op R} {t : τ} {ph : Phase S} {i : Nat} {op : Op}
    {tr : List (Event S)} {a : R} (h : InPhase c t ph)
    (ht : c.threads t = some ⟨i, op, .ret a, tr⟩) : ph.Quiet := by
  rw [InPhase, ht] at h
  exact h.2

/-- The phase of a thread with an operation in progress. -/
theorem Orderly.active {c : Conf S σ τ Op R} (h : Orderly c) {t : τ} {act : Active S Op R}
    (ht : c.threads t = some act) : ∃ ph, Phase.track .outside act.trace = some ph ∧
      Keeps (fun _ ph => ph.Quiet) act.prog ph ∧ Holds c.locks t ph := by
  obtain ⟨ph, hph, hh⟩ := h t
  rw [InPhase, ht] at hph
  exact ⟨ph, hph.1, hph.2, hh⟩

/-- Every access to the protected state is made by the owner of the outer lock. -/
theorem Orderly.access_owned {c : Conf S σ τ Op R} (h : Orderly c) {t : τ} {act : Active S Op R}
    {i : S.Acc} {k : S.Val i → Prog S R} (ht : c.threads t = some act)
    (hp : act.prog = .access i k) : c.locks.owner = some t := by
  obtain ⟨ph, _, hk, hh⟩ := h.active ht
  rw [hp] at hk
  exact hh.1.mpr hk.1

/-- A thread about to release a lock owns it. -/
theorem Orderly.unlock_owned {c : Conf S σ τ Op R} (h : Orderly c) {t : τ} {act : Active S Op R}
    {k : Prog S R} (ht : c.threads t = some act) (hp : act.prog = .unlock k) :
    c.locks.owner = some t := by
  obtain ⟨ph, _, hk, hh⟩ := h.active ht
  rw [hp] at hk
  exact hh.1.mpr (hk.1 ▸ trivial)

theorem Orderly.unlockInner_owned {c : Conf S σ τ Op R} (h : Orderly c) {t : τ}
    {act : Active S Op R} {l : S.Inner} {k : Prog S R} (ht : c.threads t = some act)
    (hp : act.prog = .unlockInner l k) : c.locks.inner l = some t := by
  obtain ⟨ph, _, hk, hh⟩ := h.active ht
  rw [hp] at hk
  exact (hh.2 l).mpr hk.1

/-- An inner lock is only ever requested under the outer lock. -/
theorem Orderly.lockInner_owned {c : Conf S σ τ Op R} (h : Orderly c) {t : τ}
    {act : Active S Op R} {l : S.Inner} {k : Option S.Fail → Prog S R}
    (ht : c.threads t = some act) (hp : act.prog = .lockInner l k) :
    c.locks.owner = some t ∧ ∀ l, c.locks.inner l ≠ some t := by
  obtain ⟨ph, _, hk, hh⟩ := h.active ht
  rw [hp] at hk
  obtain ⟨rfl, _⟩ := hk
  exact ⟨hh.1.mpr trivial, fun l hl => nomatch (hh.2 l).mp hl⟩

theorem Orderly.inner_owner {c : Conf S σ τ Op R} (h : Orderly c) {t : τ} {l : S.Inner}
    (hl : c.locks.inner l = some t) : c.locks.owner = some t := by
  obtain ⟨ph, _, hh⟩ := h t
  have := (hh.2 l).mp hl
  exact hh.1.mpr (this ▸ trivial)

/-- The next step of the program can be taken without a failing lock attempt. -/
def Ready (L : Locks S τ) : Prog S α → Prop
  | .lock _ => L.owner = none
  | .lockInner l _ => L.inner l = none
  | _ => True

/-- A program that is not blocked can take a step which is no failed attempt. -/
theorem Ready.move (m : Machine S σ) (t : τ) {p : Prog S α} {L : Locks S τ} (h : Ready L p)
    (hp : ∀ a, p ≠ .ret a) (s : σ) (answer : S.Call → S.Ans) :
    ∃ es p' s' L', Move m t p s L es p' s' L' ∧ ∀ e, es ≠ [.lock (some e)] ∧
      ∀ l, es ≠ [.lockInner l (some e)] := by
  cases p with
  | ret a => exact absurd rfl (hp a)
  | lock k => exact ⟨_, _, _, _, .lock h, by simp⟩
  | unlock k => exact ⟨_, _, _, _, .unlock, by simp⟩
  | lockInner l k => exact ⟨_, _, _, _, .lockInner h, by simp⟩
  | unlockInner l k => exact ⟨_, _, _, _, .unlockInner, by simp⟩
  | call c k => exact ⟨_, _, _, _, .call (answer c), by simp⟩
  | access i k => exact ⟨_, _, _, _, .access, by simp⟩

/-- No deadlock: as long as an operation is in progress, the next step of some
thread is not blocked by a lock that another thread holds. -/
theorem Orderly.progress {c : Conf S σ τ Op R} (h : Orderly c)
    (ho : ∀ t, c.locks.owner = some t → ∃ act, c.threads t = some act)
    {t : τ} {act : Active S Op R} (ht : c.threads t = some act) :
    ∃ u act', c.threads u = some act' ∧ Ready c.locks act'.prog := by
  cases hown : c.locks.owner with
  | none =>
    refine ⟨t, act, ht, ?_⟩
    cases hp : act.prog with
    | lockInner l k =>
      have := (h.lockInner_owned ht hp).1
      rw [hown] at this
      cases this
    | lock k => exact hown
    | _ => trivial
  | some u =>
    obtain ⟨act', hu⟩ := ho u hown
    refine ⟨u, act', hu, ?_⟩
    cases hp : act'.prog with
    | lock k =>
      obtain ⟨ph, _, hk, hh⟩ := h.active hu
      rw [hp] at hk
      obtain ⟨rfl, _⟩ := hk
      exact (hh.1.mp hown).elim
    | lockInner l k =>
      -- whoever holds an inner lock holds the outer one, so it is this thread
      cases hl : c.locks.inner l with
      | none => exact hl
      | some v =>
        have hv := h.inner_owner hl
        rw [hown] at hv
        cases hv
        exact ((h.lockInner_owned hu hp).2 l hl).elim
    | _ => trivial

/-- The owner of the outer lock has an operation in progress. -/
theorem Orderly.owner_active {c : Conf S σ τ Op R} (h : Orderly c) {t : τ}
    (ho : c.locks.owner = some t) : ∃ act, c.threads t = some act := by
  obtain ⟨ph, hph, hh⟩ := h t
  cases ht : c.threads t with
  | some act => exact ⟨act, rfl⟩
  | none =>
    rw [InPhase, ht] at hph
    subst hph
    exact (hh.1.mp ho).elim

section Discipline

variable [DecidableEq τ] {code : Op → Prog S R} {m : Machine S σ}

theorem Orderly.step {c d : Conf S σ τ Op R} {t : τ} (hb : Balanced code)
    (h : Orderly c) (hs : Step code m c t d) : Orderly d := by
  intro u
  cases hs with
  | start idle op =>
    obtain ⟨ph, hp, hh⟩ := h u
    by_cases hu : u = t
    · subst hu
      rw [InPhase, idle] at hp
      subst hp
      exact ⟨.outside, by simpa [InPhase] using hb op, hh⟩
    · exact ⟨ph, by simpa [InPhase, Function.update_of_ne hu] using hp, hh⟩
  | move active hm =>
    obtain ⟨ph, hp, hh⟩ := h t
    rw [InPhase, active] at hp
    obtain ⟨ph', htr, hk, hh', hother⟩ := hm.keeps hp.2 hh
    by_cases hu : u = t
    · subst hu
      exact ⟨ph', by simp [InPhase, Phase.track_append, hp.1, htr, hk], hh'⟩
    · obtain ⟨q, hq, hhq⟩ := h u
      exact ⟨q, by simpa [InPhase, Function.update_of_ne hu] using hq, hother u hu q hhq⟩
  | finish active =>
    obtain ⟨ph, hp, hh⟩ := h u
    by_cases hu : u = t
    · subst hu
      have hq := hp.quiet_of_ret active
      refine ⟨.outside, by simp [InPhase], ?_⟩
      cases ph with
      | outside => exact hh
      | released =>
        refine ⟨by simpa [Phase.Inside] using hh.1, fun l => ?_⟩
        simpa using hh.2 l
      | holding => exact hq.elim
      | nested l => exact hq.elim
    · exact ⟨ph, by simpa [InPhase, Function.update_of_ne hu] using hp, hh⟩

theorem Interleaved.orderly {c d : Conf S σ τ Op R} (hb : Balanced code) (h : Orderly c)
    (hr : Interleaved code m c d) : Orderly d := by
  induction hr with
  | refl => exact h
  | tail _ hs ih => exact ih.step hb hs

/-- What an operation returns with. -/
theorem Interleaved.finished_released {s : σ} {c : Conf S σ τ Op R} (hb : Balanced code)
    (hr : Interleaved code m (Conf.start s) c) : ∀ f ∈ c.finished, Released f.trace := by
  induction hr with
  | refl => simp [Conf.start]
  | tail hr hs ih =>
    have hord := Interleaved.orderly hb (Orderly.start s) hr
    cases hs with
    | start idle op => exact ih
    | move active h => exact ih
    | finish active =>
      intro f hf
      rcases List.mem_append.mp hf with hf | hf
      · exact ih f hf
      · obtain ⟨ph, htr, hk, _⟩ := hord.active active
        simp only [List.mem_singleton] at hf
        subst hf
        exact Phase.Quiet.released hk htr

/-- A thread that is not blocked can take a step. -/
theorem Ready.step {c : Conf S σ τ Op R} {t : τ} {act : Active S Op R} (answer : S.Call → S.Ans)
    (ht : c.threads t = some act) (h : Ready c.locks act.prog) : ∃ d, Step code m c t d := by
  by_cases hp : ∃ a, act.prog = .ret a
  · obtain ⟨a, hp⟩ := hp
    obtain ⟨i, op, p, tr⟩ := act
    subst hp
    exact ⟨_, .finish ht⟩
  · obtain ⟨es, p', s', L', hm, _⟩ :=
      h.move m t (fun a ha => hp ⟨a, ha⟩) c.shared answer
    exact ⟨_, .move ht hm⟩

end Discipline

section Scheduler

variable [DecidableEq τ] (code : Op → Prog S R) (m : Machine S σ)

/-- What decides the next step of a thread: the operation it starts, the failure
of a lock attempt, or the answer to a call. -/
inductive Choice (S : Sig) (Op : Type) where
  | start (op : Op)
  | go
  | fail (e : S.Fail)
  | answer (a : S.Ans)

/-- The step of a program that a choice selects. -/
def Prog.advance (t : τ) (s : σ) (L : Locks S τ) : Prog S α → Choice S Op →
    Option (List (Event S) × Prog S α × σ × Locks S τ)
  | .lock k, .go =>
    if L.owner.isNone then some ([.lock none], k none, s, { L with owner := some t }) else none
  | .lock k, .fail e => some ([.lock (some e)], k (some e), s, L)
  | .unlock k, .go => some ([.unlock], k, s, { L with owner := none })
  | .lockInner l k, .go =>
    if (L.inner l).isNone then
      some ([.lockInner l none], k none, s, { L with inner := Function.update L.inner l (some t) })
    else none
  | .lockInner l k, .fail e => some ([.lockInner l (some e)], k (some e), s, L)
  | .unlockInner l k, .go =>
    some ([.unlockInner l], k, s, { L with inner := Function.update L.inner l none })
  | .call c k, .answer a => some ([.call c a], k a, s, L)
  | .access i k, .go => some ([], k (m i s).1, (m i s).2, L)
  | _, _ => none

omit [DecidableEq τ] in
theorem Prog.advance_move {t : τ} {s s' : σ} {L L' : Locks S τ} {p p' : Prog S α}
    {ch : Choice S Op} {es : List (Event S)}
    (h : p.advance m t s L ch = some (es, p', s', L')) : Move m t p s L es p' s' L' := by
  cases p <;> cases ch <;> simp only [advance, reduceCtorEq, Option.some.injEq, Prod.mk.injEq,
    Option.ite_none_right_eq_some] at h
  case lock.go k =>
    obtain ⟨hf, rfl, rfl, rfl, rfl⟩ := h
    exact .lock (Option.isNone_iff_eq_none.mp hf)
  case lockInner.go l k =>
    obtain ⟨hf, rfl, rfl, rfl, rfl⟩ := h
    exact .lockInner (Option.isNone_iff_eq_none.mp hf)
  all_goals
    obtain ⟨rfl, rfl, rfl, rfl⟩ := h
    constructor

/-- One step of thread `t` as an executable function. -/
def Conf.advance (c : Conf S σ τ Op R) (t : τ) (ch : Choice S Op) : Option (Conf S σ τ Op R) :=
  match c.threads t, ch with
  | none, .start op => some { c with
      threads := Function.update c.threads t (some ⟨c.next, op, code op, []⟩)
      next := c.next + 1 }
  | none, _ => none
  | some ⟨i, op, .ret a, tr⟩, _ => some { c with
      threads := Function.update c.threads t none
      finished := c.finished ++ [⟨⟨op, tr, a⟩, i⟩] }
  | some act, ch => (act.prog.advance m t c.shared c.locks ch).map fun (es, prog, s, L) => { c with
      shared := s
      locks := L
      threads := Function.update c.threads t (some ⟨act.inst, act.op, prog, act.trace ++ es⟩)
      order := c.order ++ acquired es act.inst }

def Conf.schedule (c : Conf S σ τ Op R) : List (τ × Choice S Op) → Option (Conf S σ τ Op R)
  | [] => some c
  | (t, ch) :: rest => (c.advance code m t ch).bind (fun d => d.schedule rest)

variable {code m}

theorem Conf.advance_step {c d : Conf S σ τ Op R} {t : τ} {ch : Choice S Op}
    (h : c.advance code m t ch = some d) : Step code m c t d := by
  unfold advance at h
  split at h
  · rename_i op ht
    cases h
    exact .start ht op
  · cases h
  · rename_i ht
    cases h
    exact .finish ht
  · rename_i act ch _ ht
    obtain ⟨⟨es, prog, s, L⟩, hm, rfl⟩ := Option.map_eq_some_iff.mp h
    exact .move ht (Prog.advance_move m hm)

theorem Interleaved.of_step {c d e : Conf S σ τ Op R} {t : τ} (hs : Step code m c t d)
    (h : Interleaved code m d e) : Interleaved code m c e := by
  induction h with
  | refl => exact .tail .refl hs
  | tail _ hs' ih => exact .tail ih hs'

/-- Whatever a scheduler brings about is an interleaving. -/
theorem Conf.schedule_interleaved {c d : Conf S σ τ Op R} {choices : List (τ × Choice S Op)}
    (h : c.schedule code m choices = some d) : Interleaved code m c d := by
  induction choices generalizing c with
  | nil =>
    cases h
    exact .refl
  | cons x rest ih =>
    obtain ⟨e, he, h⟩ := Option.bind_eq_some_iff.mp h
    exact .of_step (advance_step he) (ih h)

end Scheduler

end Monitor
