import PowerArbiter.Monitor.Serial
import PowerArbiter.Monitor.Footprint

namespace Monitor

variable {S : Sig} {σ ρ τ Op R α : Type}

namespace Prog

/-- All accesses of the program, on whatever path, are of one kind. -/
def Only (P : S.Acc → Prop) : Prog S α → Prop
  | .ret _ => True
  | .lock k => ∀ r, Only P (k r)
  | .unlock k => Only P k
  | .lockInner _ k => ∀ r, Only P (k r)
  | .unlockInner _ k => Only P k
  | .call _ k => ∀ a, Only P (k a)
  | .access i k => P i ∧ ∀ v, Only P (k v)

theorem Only.bind {β : Type} {P : S.Acc → Prop} {p : Prog S α} {f : α → Prog S β}
    (hp : p.Only P) (hf : ∀ a, (f a).Only P) : (p >>= f).Only P := by
  induction p with
  | ret a => exact hf a
  | lock k ih => exact fun r => ih r (hp r)
  | unlock k ih => exact ih hp
  | lockInner l k ih => exact fun r => ih r (hp r)
  | unlockInner l k ih => exact ih hp
  | call c k ih => exact fun a => ih a (hp a)
  | access i k ih => exact ⟨hp.1, fun v => ih v (hp.2 v)⟩

/-- Accesses of a kind that is always allowed and keeps what is needed for that. -/
theorem Only.within {P : S.Acc → Prop} {m : Machine S σ} {ok : σ → S.Acc → Prop} {I : σ → Prop}
    (hI : ∀ i s, P i → I s → ok s i ∧ I (m i s).2) {p : Prog S α} {s : σ} (hp : p.Only P)
    (hs : I s) : p.Within m ok (fun _ s => I s) s := by
  induction p generalizing s with
  | ret a => exact hs
  | lock k ih => exact fun r => ih r (hp r) hs
  | unlock k ih => exact ih hp hs
  | lockInner l k ih => exact fun r => ih r (hp r) hs
  | unlockInner l k ih => exact ih hp hs
  | call c k ih => exact fun a => ih a (hp a) hs
  | access i k ih => exact ⟨(hI i s hp.1 hs).1, ih _ (hp.2 _) (hI i s hp.1 hs).2⟩

/-- What holds after every run holds where the program returns. -/
theorem Within.of_runs [DecidableEq S.Inner] [DecidableEq S.Call] {m : Machine S σ}
    {ok : σ → S.Acc → Prop} {Q : α → σ → Prop} {p : Prog S α} {s : σ}
    (h : p.Within m ok (fun _ _ => True) s) (hQ : ∀ es a t, p.Runs m s es a t → Q a t) :
    p.Within m ok Q s := by
  induction p generalizing s with
  | ret a => exact hQ [] a s (runs_ret.mpr ⟨rfl, rfl, rfl⟩)
  | lock k ih =>
    exact fun r => ih r (h r) fun es a t hr => hQ _ a t (runs_lock.mpr ⟨r, es, rfl, hr⟩)
  | unlock k ih => exact ih h fun es a t hr => hQ _ a t (runs_unlock.mpr ⟨es, rfl, hr⟩)
  | lockInner l k ih =>
    exact fun r => ih r (h r) fun es a t hr => hQ _ a t (runs_lockInner.mpr ⟨r, es, rfl, hr⟩)
  | unlockInner l k ih =>
    exact ih h fun es a t hr => hQ _ a t (runs_unlockInner.mpr ⟨es, rfl, hr⟩)
  | call c k ih =>
    exact fun x => ih x (h x) fun es a t hr => hQ _ a t (runs_call.mpr ⟨x, es, rfl, hr⟩)
  | access i k ih => exact ⟨h.1, ih _ h.2 fun es a t hr => hQ es a t hr⟩

end Prog

/-- From every good state an operation makes only the accesses that `ok` allows, and it
leaves a good state behind. -/
def Confined (m : Machine S σ) (ok : σ → S.Acc → Prop) (Good : σ → Prop) (code : Op → Prog S R) :
    Prop :=
  ∀ op s, Good s → (code op).Within m ok (fun _ => Good) s

/-- Without the outer lock a program cannot change the state any more. -/
theorem Keeps.released_good [Nonempty S.Ans] {m : Machine S σ} {ok : σ → S.Acc → Prop}
    {Good : σ → Prop} {Q : α → Phase S → Prop} {p : Prog S α} {s : σ} (hk : Keeps Q p .released)
    (h : p.Within m ok (fun _ => Good) s) : Good s := by
  induction p with
  | ret a => exact h
  | lock k _ => cases hk.1
  | unlock k _ => cases hk.1
  | lockInner l k _ => cases hk.1
  | unlockInner l k _ => cases hk.1
  | call c k ih => exact ih (Classical.arbitrary S.Ans) (hk _) (h _)
  | access i k _ => exact hk.1.elim

theorem Phase.Quiet.not_inside {ph : Phase S} (h : ph.Quiet) : ¬ph.Inside := by
  cases ph <;> simp_all [Phase.Quiet, Phase.Inside]

variable [DecidableEq S.Inner] [DecidableEq τ]

/-- What is left of the operations stays within `ok`: that of the owner of the outer lock from
the state as it is, that of a thread still outside from any good state. -/
structure Watched (m : Machine S σ) (ok : σ → S.Acc → Prop) (Good : σ → Prop)
    (c : Conf S σ τ Op R) : Prop where
  free : c.locks.owner = none → Good c.shared
  outside : ∀ t act, c.threads t = some act → Phase.track .outside act.trace = some .outside →
    ∀ s, Good s → act.prog.Within m ok (fun _ => Good) s
  inside : ∀ t act ph, c.threads t = some act → Phase.track .outside act.trace = some ph →
    ph.Inside → act.prog.Within m ok (fun _ => Good) c.shared

section Watch

variable {m : Machine S σ} {ok : σ → S.Acc → Prop} {Good : σ → Prop} {code : Op → Prog S R}
  {c d : Conf S σ τ Op R} {t : τ}

omit [DecidableEq τ] in
theorem Watched.start {s : σ} (h : Good s) :
    Watched m ok Good (Conf.start s : Conf S σ τ Op R) :=
  ⟨fun _ => h, by simp [Conf.start], by simp [Conf.start]⟩

omit [DecidableEq τ] in
/-- Only one thread at a time is between acquiring and releasing the outer lock. -/
theorem Orderly.inside_unique (h : Orderly c) {u : τ} {act : Active S Op R} {ph : Phase S}
    (ht : c.locks.owner = some t) (hu : c.threads u = some act)
    (htr : Phase.track .outside act.trace = some ph) (hin : ph.Inside) : u = t := by
  obtain ⟨ph', htr', -, hh⟩ := h.active hu
  cases htr.symm.trans htr'
  have := hh.1.mpr hin
  rw [ht] at this
  exact (Option.some.inj this).symm

/-- What a step means for the outer lock, for the state and for what is left to do. -/
inductive Shift (m : Machine S σ) (ok : σ → S.Acc → Prop) (Good : σ → Prop) (p p' : Prog S R)
    (s : σ) (L : Locks S τ) : Phase S → Phase S → σ → Locks S τ → Prop where
  | aside {ph} (quiet : ph.Quiet)
      (rest : ∀ r, p.Within m ok (fun _ => Good) r → p'.Within m ok (fun _ => Good) r) :
      Shift m ok Good p p' s L ph ph s L
  | enter {L'} (free : L.owner = none)
      (rest : p.Within m ok (fun _ => Good) s → p'.Within m ok (fun _ => Good) s) :
      Shift m ok Good p p' s L .outside .holding s L'
  | stay {ph ph' s' L'} (before : ph.Inside) (after : ph'.Inside)
      (rest : p.Within m ok (fun _ => Good) s → p'.Within m ok (fun _ => Good) s') :
      Shift m ok Good p p' s L ph ph' s' L'
  | leave {L'} (rest : p.Within m ok (fun _ => Good) s → Good s) :
      Shift m ok Good p p' s L .holding .released s L'

omit [DecidableEq τ] in
theorem Move.shift [Nonempty S.Ans] {p p' : Prog S R} {s s' : σ} {L L' : Locks S τ}
    {es : List (Event S)} {ph ph' : Phase S} (h : Move m t p s L es p' s' L')
    (hk : Keeps (fun _ ph => ph.Quiet) p ph) (hnext : ph.track es = some ph') :
    Shift m ok Good p p' s L ph ph' s' L' := by
  cases h with
  | lock free =>
    obtain ⟨rfl, -⟩ := hk
    cases hnext
    exact .enter free (fun h => h none)
  | lockFail e =>
    obtain ⟨rfl, -⟩ := hk
    cases hnext
    exact .aside trivial (fun _ h => h (some e))
  | unlock =>
    obtain ⟨rfl, hk⟩ := hk
    cases hnext
    exact .leave fun h => hk.released_good h
  | lockInner free =>
    obtain ⟨rfl, -⟩ := hk
    cases hnext
    exact .stay trivial trivial (fun h => h none)
  | lockInnerFail e =>
    obtain ⟨rfl, -⟩ := hk
    cases hnext
    exact .stay trivial trivial (fun h => h (some e))
  | unlockInner =>
    obtain ⟨rfl, -⟩ := hk
    simp only [Phase.track_cons, Phase.next, if_true, Option.bind_some, Phase.track_nil,
      Option.some.injEq] at hnext
    subst hnext
    exact .stay trivial trivial id
  | call a =>
    cases hnext
    cases ph with
    | outside => exact .aside trivial (fun _ h => h a)
    | released => exact .aside trivial (fun _ h => h a)
    | holding => exact .stay trivial trivial (fun h => h a)
    | nested l => exact .stay trivial trivial (fun h => h a)
  | access =>
    cases hnext
    exact .stay hk.1 hk.1 And.right

/-- What no thread but `t` has to do with is as it was for the others. -/
theorem Watched.update (h : Watched m ok Good c) {s : σ} {L : Locks S τ}
    {b : Option (Active S Op R)} (n : Nat) (order : List Nat) (fs : List (Finished S Op R))
    (hfree : L.owner = none → Good s)
    (hout : ∀ act, b = some act → Phase.track .outside act.trace = some .outside →
      ∀ r, Good r → act.prog.Within m ok (fun _ => Good) r)
    (hin : ∀ act ph, b = some act → Phase.track .outside act.trace = some ph → ph.Inside →
      act.prog.Within m ok (fun _ => Good) s)
    (hother : ∀ u ≠ t, ∀ act ph, c.threads u = some act →
      Phase.track .outside act.trace = some ph → ph.Inside → s = c.shared) :
    Watched m ok Good ⟨s, L, Function.update c.threads t b, n, order, fs⟩ := by
  refine ⟨hfree, fun u act hu htr => ?_, fun u act ph hu htr hi => ?_⟩
  · rcases update_some hu with ⟨-, hb⟩ | ⟨-, hu⟩
    · exact hout act hb htr
    · exact h.outside u act hu htr
  · rcases update_some hu with ⟨-, hb⟩ | ⟨hut, hu⟩
    · exact hin act ph hb htr hi
    · show act.prog.Within m ok (fun _ => Good) s
      rw [hother u hut act ph hu htr hi]
      exact h.inside u act ph hu htr hi

theorem Watched.step [Nonempty S.Ans] (h : Watched m ok Good c) (hord : Orderly c)
    (hg : Confined m ok Good code) (hs : Step code m c t d) : Watched m ok Good d := by
  cases hs with
  | start idle op =>
    refine h.update _ _ _ h.free (fun act hb _ => ?_) (fun act ph hb htr hin => ?_)
      (fun _ _ _ _ _ _ _ => rfl)
    · cases hb
      exact hg op
    · cases hb
      cases htr
      exact hin.elim
  | finish active =>
    exact h.update _ _ _ h.free (fun _ hb => by cases hb) (fun _ _ hb => by cases hb)
      (fun _ _ _ _ _ _ _ => rfl)
  | @move act es prog s L active hm =>
    obtain ⟨ph, htr, hk, hh⟩ := hord.active active
    obtain ⟨ph', hnext, -, hh', -⟩ := hm.keeps hk hh
    have htr' : Phase.track .outside (act.trace ++ es) = some ph' := by
      rw [Phase.track_append, htr]
      exact hnext
    have hout := h.outside t act active
    have hin := h.inside t act ph active htr
    have hunique : c.locks.owner = some t → ∀ u ≠ t, ∀ b q, c.threads u = some b →
        Phase.track .outside b.trace = some q → q.Inside → s = c.shared :=
      fun ho u hu b q hb hq hi => absurd (hord.inside_unique ho hb hq hi) hu
    have hnow : ∀ b q, some (⟨act.inst, act.op, prog, act.trace ++ es⟩ : Active S Op R) = some b →
        Phase.track .outside b.trace = some q → b.prog = prog ∧ q = ph' := by
      intro b q hb hq
      cases hb
      exact ⟨rfl, Option.some.inj (hq.symm.trans htr')⟩
    have hshift : Shift m ok Good act.prog prog c.shared c.locks ph ph' s L := hm.shift hk hnext
    cases hshift with
    | aside quiet rest =>
      refine h.update _ _ _ h.free (fun b hb hq r hr => ?_) (fun b q hb hq hi => ?_)
        (fun _ _ _ _ _ _ _ => rfl)
      · obtain ⟨hp, rfl⟩ := hnow b _ hb hq
        exact hp ▸ rest r (hout htr r hr)
      · obtain ⟨-, rfl⟩ := hnow b q hb hq
        exact absurd hi quiet.not_inside
    | enter free rest =>
      refine h.update _ _ _ (fun _ => h.free free) (fun b hb hq => ?_) (fun b q hb hq _ => ?_)
        (fun _ _ _ _ _ _ _ => rfl)
      · cases (hnow b _ hb hq).2
      · rw [(hnow b q hb hq).1]
        exact rest (hout htr _ (h.free free))
    | stay before after rest =>
      refine h.update _ _ _ (fun hL => ?_) (fun b hb hq => ?_) (fun b q hb hq _ => ?_)
        (hunique (hh.1.mpr before))
      · have := hh'.1.mpr after
        rw [hL] at this
        cases this
      · rw [← (hnow b _ hb hq).2] at after
        exact after.elim
      · rw [(hnow b q hb hq).1]
        exact rest (hin before)
    | leave rest =>
      refine h.update _ _ _ (fun _ => rest (hin trivial)) (fun b hb hq => ?_)
        (fun b q hb hq hi => ?_) (fun _ _ _ _ _ _ _ => rfl)
      · cases (hnow b _ hb hq).2
      · obtain ⟨-, rfl⟩ := hnow b q hb hq
        exact hi.elim

theorem Interleaved.watched [Nonempty S.Ans] {s : σ} (hb : Balanced code)
    (hg : Confined m ok Good code) (hs : Good s)
    (hr : Interleaved code m (Conf.start s : Conf S σ τ Op R) c) : Watched m ok Good c := by
  induction hr with
  | refl => exact .start hs
  | tail hr hstep ih => exact ih.step (Interleaved.orderly hb (Orderly.start s) hr) hg hstep

omit [DecidableEq τ] in
/-- Every access that is made is allowed in the state in which it is made. -/
theorem Watched.access (h : Watched m ok Good c) (hord : Orderly c) {act : Active S Op R}
    {i : S.Acc} {k : S.Val i → Prog S R} (ht : c.threads t = some act)
    (hp : act.prog = .access i k) : ok c.shared i := by
  obtain ⟨ph, htr, hk, -⟩ := hord.active ht
  rw [hp] at hk
  have := h.inside t act ph ht htr hk.1
  rw [hp] at this
  exact this.1

end Watch

/-- The configuration over another protected state. -/
def Conf.withShared (c : Conf S σ τ Op R) (r : ρ) : Conf S ρ τ Op R :=
  ⟨r, c.locks, c.threads, c.next, c.order, c.finished⟩

/-- In related states the two machines do the same, as far as the second allows the access,
or the first one is lost for good. -/
structure Implements (m : Machine S σ) (n : Machine S ρ) (ok : ρ → S.Acc → Prop)
    (Rel : σ → ρ → Prop) (Lost : σ → Prop) : Prop where
  access : ∀ i s r, Rel s r → ok r i →
    Lost (m i s).2 ∨ ((m i s).1 = (n i r).1 ∧ Rel (m i s).2 (n i r).2)
  lost : ∀ i s, Lost s → Lost (m i s).2

section Precedence

variable [DecidableEq S.Call] {m : Machine S σ} {code : Op → Prog S R} {c d : Conf S σ τ Op R}

omit [DecidableEq S.Call] in
/-- Operations only ever join the order at its end. -/
theorem Interleaved.order_grows (h : Interleaved code m c d) :
    ∃ more, d.order = c.order ++ more := by
  induction h with
  | refl => exact ⟨[], (List.append_nil _).symm⟩
  | tail _ hs ih =>
    obtain ⟨more, hm⟩ := ih
    cases hs with
    | start idle op => exact ⟨more, hm⟩
    | @move act es _ _ _ active h =>
      exact ⟨more ++ acquired es act.inst, by rw [hm, List.append_assoc]⟩
    | finish active => exact ⟨more, hm⟩

/-- An operation that has returned before another one starts is before it in the order. -/
theorem Interleaved.order_precedes (hb : Balanced code) {s : σ}
    (hr : Interleaved code m (Conf.start s) c) (h : Interleaved code m c d) {i j : Nat}
    (hi : i ∈ c.order) (hj : j ∈ d.order) (hstart : c.next ≤ j) :
    ∃ xs ys, d.order = xs ++ ys ∧ i ∈ xs ∧ j ∈ ys := by
  obtain ⟨more, hm⟩ := h.order_grows
  obtain ⟨-, slots, mid, ha⟩ := hr.accounted hb
  refine ⟨c.order, more, hm, hi, ?_⟩
  rw [hm] at hj
  exact (List.mem_append.mp hj).resolve_left fun hold => Nat.not_lt.mpr hstart (ha.order.2 j hold)

end Precedence

section Simulate

variable {m : Machine S σ} {n : Machine S ρ} {ok : ρ → S.Acc → Prop} {Good : ρ → Prop}
  {Rel : σ → ρ → Prop} {Lost : σ → Prop} {code : Op → Prog S R}

omit [DecidableEq τ] in
theorem Implements.move (h : Implements m n ok Rel Lost) {t : τ} {p p' : Prog S R} {s s' : σ}
    {r : ρ} {L L' : Locks S τ} {es : List (Event S)} (hm : Move m t p s L es p' s' L')
    (hrel : Rel s r) (hok : ∀ i k, p = .access i k → ok r i) :
    Lost s' ∨ ∃ r', Move n t p r L es p' r' L' ∧ Rel s' r' := by
  cases hm with
  | @access i k s L =>
    rcases h.access i s r hrel (hok i k rfl) with hlost | ⟨hv, hrel'⟩
    · exact .inl hlost
    · refine .inr ⟨(n i r).2, ?_, hrel'⟩
      rw [hv]
      exact .access
  | lock free => exact .inr ⟨r, .lock free, hrel⟩
  | lockFail e => exact .inr ⟨r, .lockFail e, hrel⟩
  | unlock => exact .inr ⟨r, .unlock, hrel⟩
  | lockInner free => exact .inr ⟨r, .lockInner free, hrel⟩
  | lockInnerFail e => exact .inr ⟨r, .lockInnerFail e, hrel⟩
  | unlockInner => exact .inr ⟨r, .unlockInner, hrel⟩
  | call a => exact .inr ⟨r, .call a, hrel⟩

omit [DecidableEq τ] in
theorem Implements.move_lost (h : Implements m n ok Rel Lost) {t : τ} {p p' : Prog S R} {s s' : σ}
    {L L' : Locks S τ} {es : List (Event S)} (hm : Move m t p s L es p' s' L')
    (hlost : Lost s) : Lost s' := by
  cases hm with
  | access => exact h.lost _ _ hlost
  | _ => exact hlost

/-- Every interleaving over the one machine is an interleaving over the other, with the same
threads, locks and results, until the one is lost. -/
theorem Interleaved.simulated [Nonempty S.Ans] (h : Implements m n ok Rel Lost)
    (hb : Balanced code) (hg : Confined n ok Good code) {s : σ} {r : ρ} (hs : Rel s r)
    (hgood : Good r) {c : Conf S σ τ Op R} (hr : Interleaved code m (Conf.start s) c) :
    Lost c.shared ∨
      ∃ u, Interleaved code n (Conf.start r) (c.withShared u) ∧ Rel c.shared u := by
  induction hr with
  | refl => exact .inr ⟨r, .refl, hs⟩
  | @tail d e t hr hstep ih =>
    rcases ih with hlost | ⟨u, hu, hrel⟩
    · cases hstep with
      | start idle op => exact .inl hlost
      | move active hm => exact .inl (h.move_lost hm hlost)
      | finish active => exact .inl hlost
    · cases hstep with
      | start idle op => exact .inr ⟨u, hu.tail (.start (c := d.withShared u) idle op), hrel⟩
      | finish active => exact .inr ⟨u, hu.tail (.finish (c := d.withShared u) active), hrel⟩
      | @move act es prog s' L active hm =>
        have hord := Interleaved.orderly hb (Orderly.start r) hu
        have hw := hu.watched hb hg hgood
        rcases h.move hm hrel (fun i k hp => hw.access hord (c := d.withShared u) active hp) with
          hlost | ⟨u', hm', hrel'⟩
        · exact .inl hlost
        · exact .inr ⟨u', hu.tail (.move (c := d.withShared u) active hm'), hrel'⟩

end Simulate

end Monitor
