import PowerArbiter.Monitor.Run
import Mathlib.Data.List.Nodup

namespace Monitor

section Lists

variable {α β : Type}

theorem exists_map_eq {f : α → β} {l : List α} {ys : List β}
    (h : ∀ y ∈ ys, ∃ x ∈ l, f x = y) : ∃ xs : List α, xs.map f = ys ∧ ∀ x ∈ xs, x ∈ l := by
  induction ys with
  | nil => exact ⟨[], rfl, by simp⟩
  | cons y ys ih =>
    obtain ⟨x, hx, rfl⟩ := h y List.mem_cons_self
    obtain ⟨xs, rfl, hxs⟩ := ih fun z hz => h z (List.mem_cons_of_mem _ hz)
    exact ⟨x :: xs, rfl, List.forall_mem_cons.mpr ⟨hx, hxs⟩⟩

theorem eq_of_map_eq {f : α → β} {l xs ys : List α}
    (hinj : ∀ x ∈ l, ∀ y ∈ l, f x = f y → x = y) (hxs : ∀ x ∈ xs, x ∈ l) (hys : ∀ y ∈ ys, y ∈ l)
    (h : xs.map f = ys.map f) : xs = ys := by
  induction xs generalizing ys with
  | nil => exact (List.map_eq_nil_iff.mp h.symm).symm
  | cons x xs ih =>
    cases ys with
    | nil => cases h
    | cons y ys =>
      obtain ⟨hhead, htail⟩ := List.cons.inj h
      obtain ⟨hx, hxs⟩ := List.forall_mem_cons.mp hxs
      obtain ⟨hy, hys⟩ := List.forall_mem_cons.mp hys
      rw [hinj x hx y hy hhead, ih hxs hys htail]

end Lists

variable {S : Sig} {σ τ Op R : Type} {tag : Op → τ} {c d : Conf S σ τ Op R} {t : τ}

/-- Every operation in progress names its thread. -/
def Tagged (tag : Op → τ) (c : Conf S σ τ Op R) : Prop :=
  ∀ t act, c.threads t = some act → tag act.op = t

/-- The number of the operation in progress, once it has acquired the outer lock. -/
def Conf.entered (c : Conf S σ τ Op R) (t : τ) : List Nat :=
  match c.threads t with
  | some act => if act.inst ∈ c.order then [act.inst] else []
  | none => []

theorem Conf.entered_idle (h : c.threads t = none) : c.entered t = [] := by
  rw [entered, h]

theorem Conf.entered_active {act : Active S Op R} (h : c.threads t = some act) :
    c.entered t = if act.inst ∈ c.order then [act.inst] else [] := by
  rw [entered, h]

theorem Conf.entered_length_le (c : Conf S σ τ Op R) (t : τ) :
    (c.entered t).length ≤ (c.threads t).toList.length := by
  cases ht : c.threads t with
  | none => rw [entered_idle ht]; exact Nat.le_refl 0
  | some act =>
    rw [entered_active ht]
    split
    · exact Nat.le_refl 1
    · exact Nat.zero_le _

theorem Conf.entered_congr (hthreads : d.threads t = c.threads t)
    (horder : ∀ act, c.threads t = some act → (act.inst ∈ d.order ↔ act.inst ∈ c.order)) :
    d.entered t = c.entered t := by
  cases ht : c.threads t with
  | none => rw [entered_idle ht, entered_idle (hthreads.trans ht)]
  | some act =>
    rw [entered_active ht, entered_active (hthreads.trans ht)]
    simp only [horder act ht]

variable [DecidableEq τ]

theorem Tagged.update (h : Tagged tag c) {act : Active S Op R} (hact : tag act.op = t) {s : σ}
    {L : Locks S τ} {n : Nat} {order : List Nat} {finished : List (Finished S Op R)} :
    Tagged tag ⟨s, L, Function.update c.threads t (some act), n, order, finished⟩ := by
  intro u b hb
  rcases update_some hb with ⟨rfl, he⟩ | ⟨_, hb⟩
  · cases he
    exact hact
  · exact h u b hb

theorem Tagged.clear (h : Tagged tag c) {s : σ} {L : Locks S τ} {n : Nat} {order : List Nat}
    {finished : List (Finished S Op R)} :
    Tagged tag ⟨s, L, Function.update c.threads t none, n, order, finished⟩ := by
  intro u b hb
  rcases update_some hb with ⟨_, he⟩ | ⟨_, hb⟩
  · cases he
  · exact h u b hb

/-- The operations that the thread has returned from. -/
def Conf.returned (tag : Op → τ) (c : Conf S σ τ Op R) (t : τ) : List (Finished S Op R) :=
  c.finished.filter fun f => tag f.op = t

/-- The operations as they acquire the outer lock, or return without having done so, each
with its thread. -/
structure Lined (tag : Op → τ) (c : Conf S σ τ Op R) (lin : List (Nat × τ)) : Prop where
  order : c.order.Sublist (lin.map Prod.fst)
  nodup : (lin.map Prod.fst).Nodup
  own : ∀ t, lin.filter (fun x => x.2 = t) =
    ((c.returned tag t).map Finished.inst ++ c.entered t).map (·, t)

variable [DecidableEq S.Inner] [DecidableEq S.Call] {code : Op → Prog S R} {m : Machine S σ}
  {s₀ : σ} {lin : List (Nat × τ)}

omit [DecidableEq S.Inner] [DecidableEq S.Call] in
theorem Lined.start (s : σ) : Lined tag (Conf.start s : Conf S σ τ Op R) [] :=
  ⟨by simp [Conf.start], List.nodup_nil, by simp [Conf.returned, Conf.entered, Conf.start]⟩

omit [DecidableEq S.Inner] [DecidableEq S.Call] in
/-- Whatever is in the order has returned, or has acquired the lock. -/
theorem Lined.mem (h : Lined tag c lin) {i : Nat} (hi : (i, t) ∈ lin) :
    (∃ f ∈ c.finished, f.inst = i ∧ tag f.op = t) ∨
    ∃ act, c.threads t = some act ∧ act.inst = i ∧ i ∈ c.order := by
  have hmem : (i, t) ∈ lin.filter (fun x => x.2 = t) := List.mem_filter.mpr ⟨hi, by simp⟩
  rw [h.own t] at hmem
  obtain ⟨j, hj, he⟩ := List.mem_map.mp hmem
  cases he
  rcases List.mem_append.mp hj with hj | hj
  · obtain ⟨f, hf, rfl⟩ := List.mem_map.mp hj
    obtain ⟨hf, htag⟩ := List.mem_filter.mp hf
    exact .inl ⟨f, hf, rfl, by simpa using htag⟩
  · cases ht : c.threads t with
    | none =>
      rw [Conf.entered_idle ht] at hj
      cases hj
    | some act =>
      rw [Conf.entered_active ht] at hj
      split at hj
      · rename_i hin
        obtain rfl := List.mem_singleton.mp hj
        exact .inr ⟨act, rfl, rfl, hin⟩
      · cases hj

omit [DecidableEq S.Inner] [DecidableEq S.Call] in
theorem Lined.length (h : Lined tag c lin) (t : τ) :
    (c.returned tag t).length ≤ (lin.filter (fun x => x.2 = t)).length ∧
    (lin.filter (fun x => x.2 = t)).length ≤
      (c.returned tag t).length + (c.threads t).toList.length := by
  have hle := c.entered_length_le t
  rw [h.own t, List.length_map, List.length_append, List.length_map]
  exact ⟨Nat.le_add_right _ _, Nat.add_le_add_left hle _⟩

omit [DecidableEq S.Inner] [DecidableEq S.Call] in
/-- An operation in progress that has not acquired the lock is not in the order yet. -/
theorem Lined.fresh (h : Lined tag c lin) (hf : Fresh c) {act : Active S Op R}
    (active : c.threads t = some act) (hout : act.inst ∉ c.order) :
    act.inst ∉ lin.map Prod.fst := by
  intro hin
  obtain ⟨⟨i, u⟩, hx, hi⟩ := List.mem_map.mp hin
  dsimp only at hi
  subst hi
  rcases h.mem hx with ⟨f, hfin, hinst, -⟩ | ⟨_, _, _, hin'⟩
  · exact (hf.done f hfin).2 t act active hinst.symm
  · exact hout hin'

omit [DecidableEq S.Inner] [DecidableEq S.Call] in
/-- One operation more at the end. -/
theorem Lined.snoc (h : Lined tag c lin) {i : Nat} (hnew : i ∉ lin.map Prod.fst)
    (horder : d.order.Sublist (lin.map Prod.fst ++ [i]))
    (hown : ∀ u, (d.returned tag u).map Finished.inst ++ d.entered u =
      ((c.returned tag u).map Finished.inst ++ c.entered u) ++ if u = t then [i] else []) :
    Lined tag d (lin ++ [(i, t)]) := by
  refine ⟨by simpa using horder, ?_, fun u => ?_⟩
  · rw [List.map_append]
    refine List.nodup_append.mpr ⟨h.nodup, List.nodup_singleton i, fun j hj k hk => ?_⟩
    obtain rfl := List.mem_singleton.mp hk
    exact fun he => hnew (he ▸ hj)
  · rw [hown u, List.filter_append, h.own u, List.map_append]
    by_cases hu : u = t
    · subst hu
      simp
    · simp [hu, Ne.symm hu]

/-- A step of a run in which every thread keeps to its own operations. -/
abbrev TaggedStep (tag : Op → τ) (code : Op → Prog S R) (m : Machine S σ) :
    Conf S σ τ Op R → τ → Conf S σ τ Op R → Prop :=
  Observed (Step code m) fun _ _ d => Tagged tag d

omit [DecidableEq S.Inner] [DecidableEq S.Call] in
theorem acquired_cases (es : List (Event S)) (i : Nat) :
    acquired es i = [] ∨ acquired es i = [i] := by
  unfold acquired
  split
  · exact .inr rfl
  · exact .inl rfl

omit [DecidableEq S.Call] in
theorem Lined.step (h : Lined tag c lin) (htag : Tagged tag c) (hf : Fresh c)
    (hbound : ∀ i ∈ c.order, i < c.next) (hnodup : d.order.Nodup)
    (hs : TaggedStep tag code m c t d) : ∃ lin', lin <+: lin' ∧ Lined tag d lin' := by
  obtain ⟨hs, htag'⟩ := hs
  cases hs with
  | start idle op =>
    refine ⟨lin, List.prefix_rfl, h.order, h.nodup, fun u => ?_⟩
    rw [h.own u]
    congr 2
    rcases eq_or_ne u t with rfl | hu
    · rw [Conf.entered_idle idle, Conf.entered_active (Function.update_self ..), if_neg]
      exact fun hin => Nat.lt_irrefl _ (hbound _ hin)
    · symm
      refine Conf.entered_congr ?_ ?_
      · exact Function.update_of_ne hu ..
      · exact fun _ _ => Iff.rfl
  | @move act es prog s L active hm =>
    have hother : ∀ u, u ≠ t → ∀ b, c.threads u = some b →
        (b.inst ∈ c.order ++ acquired es act.inst ↔ b.inst ∈ c.order) := by
      intro u hu b hb
      have hne : b.inst ≠ act.inst := fun he => hu (hf.apart u t b act hb active he)
      rcases acquired_cases es act.inst with ha | ha <;> simp [ha, hne]
    rcases acquired_cases es act.inst with ha | ha
    · refine ⟨lin, List.prefix_rfl, ?_, h.nodup, fun u => ?_⟩
      · simpa [ha] using h.order
      · rw [h.own u]
        congr 2
        rcases eq_or_ne u t with rfl | hu
        · rw [Conf.entered_active active, Conf.entered_active (Function.update_self ..)]
          simp [ha]
        · exact (Conf.entered_congr (Function.update_of_ne hu ..) (hother u hu)).symm
    · have hout : act.inst ∉ c.order := by
        intro hin
        simp only [ha] at hnodup
        exact (List.nodup_append.mp hnodup).2.2 _ hin _ (List.mem_singleton_self _) rfl
      refine ⟨_, List.prefix_append .., h.snoc (t := t) (h.fresh hf active hout) ?_ fun u => ?_⟩
      · rw [ha]
        exact h.order.append (List.Sublist.refl _)
      · rw [List.append_assoc]
        congr 1
        rcases eq_or_ne u t with rfl | hu
        · rw [Conf.entered_active active, Conf.entered_active (Function.update_self ..)]
          simp [ha, hout]
        · rw [if_neg hu, List.append_nil]
          exact Conf.entered_congr (Function.update_of_ne hu ..) (hother u hu)
  | @finish i op tr a active =>
    have hop : tag op = t := htag t _ active
    have hreturned : ∀ u, (Conf.returned tag { c with
        threads := Function.update c.threads t none
        finished := c.finished ++ [⟨⟨op, tr, a⟩, i⟩] } u).map Finished.inst =
        (c.returned tag u).map Finished.inst ++ if u = t then [i] else [] := by
      intro u
      simp only [Conf.returned, List.filter_append, List.map_append]
      rcases eq_or_ne u t with rfl | hu
      · simp [hop]
      · simp [hop, hu, Ne.symm hu]
    by_cases hin : i ∈ c.order
    · refine ⟨lin, List.prefix_rfl, h.order, h.nodup, fun u => ?_⟩
      rw [h.own u, hreturned u, List.append_assoc]
      congr 2
      rcases eq_or_ne u t with rfl | hu
      · rw [Conf.entered_active active, Conf.entered_idle (Function.update_self ..)]
        simp [hin]
      · rw [if_neg hu, List.nil_append]
        symm
        refine Conf.entered_congr ?_ ?_
        · exact Function.update_of_ne hu ..
        · exact fun _ _ => Iff.rfl
    · refine ⟨_, List.prefix_append .., h.snoc (t := t) (h.fresh hf active hin) ?_ fun u => ?_⟩
      · exact h.order.trans (List.sublist_append_left _ _)
      · rw [hreturned u]
        rcases eq_or_ne u t with rfl | hu
        · rw [Conf.entered_active active, Conf.entered_idle (Function.update_self ..)]
          simp [hin]
        · simp only [if_neg hu, List.append_nil]
          congr 1
          exact Conf.entered_congr (Function.update_of_ne hu ..) fun _ _ => Iff.rfl

/-- A reachable configuration with an order of its operations. -/
structure Ordered (tag : Op → τ) (code : Op → Prog S R) (m : Machine S σ) (s₀ : σ)
    (c : Conf S σ τ Op R) (lin : List (Nat × τ)) : Prop where
  reached : Interleaved code m (Conf.start s₀) c
  tagged : Tagged tag c
  lined : Lined tag c lin

omit [DecidableEq S.Call] in
theorem Ordered.start (s₀ : σ) : Ordered tag code m s₀ (Conf.start s₀) [] :=
  ⟨.refl, fun _ _ ht => (nomatch ht), Lined.start s₀⟩

/-- As a run goes on, its order only grows at the end. -/
theorem Ordered.run {ts : List τ} (hb : Balanced code) (h : Ordered tag code m s₀ c lin)
    (hr : Run (TaggedStep tag code m) c ts d) :
    ∃ lin', lin <+: lin' ∧ Ordered tag code m s₀ d lin' := by
  induction ts generalizing c lin with
  | nil =>
    obtain rfl : d = c := hr
    exact ⟨lin, List.prefix_rfl, h⟩
  | cons t ts ih =>
    obtain ⟨c', hs, hr⟩ := hr
    have hreached := h.reached.tail hs.1
    obtain ⟨hf, _, _, ha⟩ := h.reached.accounted hb
    obtain ⟨_, _, _, ha'⟩ := hreached.accounted hb
    obtain ⟨mid, hmid, hlined⟩ := h.lined.step h.tagged hf ha.order.2 ha'.order.1 hs
    obtain ⟨lin', hlin', h'⟩ := ih ⟨hreached, hs.2, hlined⟩ hr
    exact ⟨lin', hmid.trans hlin', h'⟩

omit [DecidableEq τ] in
/-- Operations that have no effect may be added anywhere. -/
theorem Serial.insert {s s' : σ} {fs gs : List (Finished S Op R)} (hsub : fs.Sublist gs)
    (hnodup : gs.Nodup) (hquiet : ∀ g ∈ gs, g ∉ fs → ∀ s, Alone code m s g.toDone s)
    (h : Serial code m s (fs.map Finished.toDone) s') :
    Serial code m s (gs.map Finished.toDone) s' := by
  induction hsub generalizing s with
  | slnil => exact h
  | cons g hsub ih =>
    obtain ⟨hg, hnodup⟩ := List.nodup_cons.mp hnodup
    refine ⟨s, hquiet g List.mem_cons_self (fun hin => hg (hsub.subset hin)) s, ih hnodup ?_ h⟩
    exact fun k hk => hquiet k (List.mem_cons_of_mem g hk)
  | cons_cons g hsub ih =>
    obtain ⟨hg, hnodup⟩ := List.nodup_cons.mp hnodup
    obtain ⟨t, halone, h⟩ := h
    refine ⟨t, halone, ih hnodup (fun k hk hout => ?_) h⟩
    refine hquiet k (List.mem_cons_of_mem g hk) fun hin => ?_
    rcases List.mem_cons.mp hin with rfl | hin
    · exact hg hk
    · exact hout hin

/-- Once every operation has returned, all of them one after the other have the same results
and the same effect, in an order that is for each thread the order in which it returned from
them. -/
theorem Ordered.serial (hb : Balanced code) (h : Ordered tag code m s₀ c lin)
    (idle : ∀ t, c.threads t = none) :
    ∃ fs : List (Finished S Op R), fs.map (fun f => (f.inst, tag f.op)) = lin ∧
      Serial code m s₀ (fs.map Finished.toDone) c.shared ∧
      ∀ t, fs.filter (fun f => tag f.op = t) = c.returned tag t := by
  have hlin := h.lined
  obtain ⟨-, honce, ⟨gs, hgs, hmem, hserial⟩, hquiet⟩ := h.reached.serializable hb idle
  have hown : ∀ x ∈ lin, ∃ f ∈ c.finished, (f.inst, tag f.op) = x := by
    intro x hx
    obtain ⟨i, t⟩ := x
    rcases hlin.mem hx with ⟨f, hf, rfl, rfl⟩ | ⟨act, ht, -⟩
    · exact ⟨f, hf, rfl⟩
    · rw [idle t] at ht
      cases ht
  have hinj := List.inj_on_of_nodup_map honce
  obtain ⟨fs, hfs, hin⟩ := exists_map_eq hown
  have hfst : fs.map Finished.inst = lin.map Prod.fst := by
    rw [← hfs, List.map_map]
    rfl
  have hnodup : fs.Nodup := List.Nodup.of_map _ (hfst ▸ hlin.nodup)
  have hfilter : ∀ t, fs.filter (fun f => tag f.op = t) = c.returned tag t := by
    intro t
    have hlist := hlin.own t
    rw [Conf.entered_idle (idle t), List.append_nil, ← hfs, List.filter_map, List.map_map] at hlist
    refine eq_of_map_eq (f := Finished.inst) (fun f hf g hg => hinj hf hg) ?_ ?_ ?_
    · exact fun f hf => hin f (List.mem_of_mem_filter hf)
    · exact fun f hf => List.mem_of_mem_filter hf
    · simpa [List.map_map, Function.comp_def] using congrArg (List.map Prod.fst) hlist
  refine ⟨fs, hfs, ?_, hfilter⟩
  obtain ⟨hs, hsub, rfl⟩ : ∃ hs, hs.Sublist fs ∧ gs = hs := by
    have hsub := hlin.order
    rw [← hfst, ← hgs] at hsub
    obtain ⟨hs, hsub, he⟩ := List.sublist_map_iff.mp hsub
    exact ⟨hs, hsub, eq_of_map_eq (fun f hf g hg => hinj hf hg) hmem
      (fun f hf => hin f (hsub.subset hf)) he⟩
  refine hserial.insert hsub hnodup fun g hg hout => hquiet g (hin g hg) fun horder => ?_
  rw [← hgs] at horder
  obtain ⟨k, hk, he⟩ := List.mem_map.mp horder
  exact hout (hinj (hmem k hk) (hin g hg) he ▸ hk)

end Monitor
