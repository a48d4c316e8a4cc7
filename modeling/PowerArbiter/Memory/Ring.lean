import Mathlib.Data.List.Basic
import Mathlib.Data.List.Nodup
import Mathlib.Logic.Function.Basic

namespace Memory

/-- The link fields of a doubly linked structure. A list that ends in a null
pointer is a ring through null, whose fields are then the list's own pointers to
its first and its last node. -/
structure Links (ν : Type) where
  next : ν → ν
  prev : ν → ν

variable {ν : Type} {l l' : Links ν} {r x : ν} {xs ys : List ν}

/-- From `r` the links lead through `xs` and back to `r`, in both directions. -/
structure Ring (l : Links ν) (r : ν) (xs : List ν) : Prop where
  next : (r :: xs).map l.next = xs ++ [r]
  prev : (xs ++ [r]).map l.prev = r :: xs
  nodup : (r :: xs).Nodup

namespace Ring

theorem congr (h : Ring l r xs) (hn : ∀ y ∈ r :: xs, l'.next y = l.next y)
    (hp : ∀ y ∈ r :: xs, l'.prev y = l.prev y) : Ring l' r xs := by
  refine ⟨?_, ?_, h.nodup⟩
  · rw [List.map_congr_left hn, h.next]
  · rw [List.map_congr_left (fun y hy => hp y (by simp at hy ⊢; tauto)), h.prev]

theorem nil (hn : l.next r = r) (hp : l.prev r = r) : Ring l r [] :=
  ⟨by simp [hn], by simp [hp], by simp⟩

theorem not_mem (h : Ring l r xs) : r ∉ xs := (List.nodup_cons.mp h.nodup).1

theorem members_nodup (h : Ring l r xs) : xs.Nodup := (List.nodup_cons.mp h.nodup).2

/-- Backwards the same ring has its members in reverse. -/
theorem flip (h : Ring l r xs) : Ring ⟨l.prev, l.next⟩ r xs.reverse := by
  refine ⟨?_, ?_, ?_⟩
  · have := congrArg List.reverse h.prev
    simpa using this
  · have := congrArg List.reverse h.next
    simpa using this
  · rw [List.nodup_cons, List.mem_reverse, List.nodup_reverse]
    exact List.nodup_cons.mp h.nodup

theorem first (h : Ring l r xs) : l.next r = xs.headD r := by
  have := h.next
  cases xs with
  | nil => simpa using this
  | cons y ys => simp at this; exact this.1

theorem last (h : Ring l r xs) : l.prev r = xs.getLastD r := by
  have := h.flip.first
  simpa [← List.head?_reverse, List.headD_eq_head?_getD, List.getLastD_eq_getLast?] using this

/-- Around a member the ring comes apart into what leads to it and what follows. -/
theorem around (h : Ring l r (xs ++ x :: ys)) :
    (r :: xs).map l.next = xs ++ [x] ∧ l.next x :: ys.map l.next = ys ++ [r] ∧
      xs.map l.prev ++ [l.prev x] = r :: xs := by
  have hn := h.next
  have hp := h.prev
  rw [show r :: (xs ++ x :: ys) = (r :: xs) ++ x :: ys from rfl, List.map_append,
    show xs ++ x :: ys ++ [r] = (xs ++ [x]) ++ (ys ++ [r]) by simp] at hn
  obtain ⟨hleft, hright⟩ := List.append_inj hn (by simp)
  rw [show xs ++ x :: ys ++ [r] = (xs ++ [x]) ++ (ys ++ [r]) by simp, List.map_append,
    show r :: (xs ++ x :: ys) = (r :: xs) ++ x :: ys from rfl] at hp
  obtain ⟨hback, -⟩ := List.append_inj hp (by simp)
  exact ⟨hleft, by simpa using hright, by simpa using hback⟩

/-- The neighbours of a member, by its place in the ring. -/
theorem beside (h : Ring l r (xs ++ x :: ys)) :
    l.next x = ys.headD r ∧ l.prev x = xs.getLastD r := by
  obtain ⟨-, hfrom, hback⟩ := h.around
  constructor
  · cases ys with
    | nil => simpa using hfrom
    | cons y ys =>
      simp only [List.map_cons, List.cons_append, List.cons.injEq] at hfrom
      exact hfrom.1
  · have hlast := congrArg List.getLast? hback
    rw [List.getLast?_concat, List.getLast?_cons] at hlast
    simpa [List.getLastD_eq_getLast?] using hlast

theorem prev_next (h : Ring l r xs) (hx : x ∈ r :: xs) : l.prev (l.next x) = x := by
  have hround := congrArg (List.map l.prev) h.next
  rw [List.map_map, h.prev] at hround
  exact List.map_inj_left.mp (hround.trans (List.map_id (r :: xs)).symm) x hx

theorem next_mem (h : Ring l r xs) (hx : x ∈ r :: xs) : l.next x ∈ r :: xs := by
  have : l.next x ∈ xs ++ [r] := h.next ▸ List.mem_map_of_mem hx
  simpa [or_comm] using this

theorem next_prev (h : Ring l r xs) (hx : x ∈ r :: xs) : l.next (l.prev x) = x := by
  have := h.flip.prev_next (x := x) (by simpa using hx)
  exact this

theorem prev_mem (h : Ring l r xs) (hx : x ∈ r :: xs) : l.prev x ∈ r :: xs := by
  have := h.flip.next_mem (x := x) (by simpa using hx)
  simpa using this

/-- No member is its own neighbour. -/
theorem prev_ne (h : Ring l r xs) (hx : x ∈ xs) : l.prev x ≠ x := by
  obtain ⟨as, bs, rfl⟩ := List.append_of_mem hx
  obtain ⟨-, -, hback⟩ := h.around
  have hmem : l.prev x ∈ r :: as := by
    rw [← hback]
    simp
  have hnd := h.nodup
  rw [← List.cons_append] at hnd
  obtain ⟨-, -, hapart⟩ := List.nodup_append.mp hnd
  exact hapart _ hmem x (by simp)

/-- A member next to the root on both sides is the only one. -/
theorem single (h : Ring l r xs) (hx : x ∈ xs) (hn : l.next x = r) (hp : l.prev x = r) :
    xs = [x] := by
  obtain ⟨as, bs, rfl⟩ := List.append_of_mem hx
  obtain ⟨-, hfrom, hback⟩ := h.around
  have hnot := h.not_mem
  rw [hn] at hfrom
  rw [hp] at hback
  cases bs with
  | cons b bs =>
    simp only [List.map_cons, List.cons_append, List.cons.injEq] at hfrom
    exact absurd (by simp [hfrom.1]) hnot
  | nil =>
    cases as with
    | nil => rfl
    | cons a as =>
      have : r ∈ a :: as := by
        have hlast := congrArg List.getLast? hback
        simp only [List.getLast?_concat, List.getLast?_cons_cons] at hlast
        exact List.mem_of_getLast? hlast.symm
      exact absurd (List.mem_append_left _ this) hnot

end Ring

section Edits

variable [DecidableEq ν]

/-- Make two nodes neighbours. -/
def Links.join (l : Links ν) (x y : ν) : Links ν :=
  ⟨Function.update l.next x y, Function.update l.prev y x⟩

/-- A new node between the root and the first member. -/
theorem Ring.push (h : Ring l r xs) (hx : x ∉ r :: xs) :
    Ring ((l.join x (l.next r)).join r x) r (x :: xs) := by
  obtain ⟨hr, hm⟩ := not_or.mp (List.mem_cons.not.mp hx)
  have hnot := h.not_mem
  have hfirst := h.first
  refine ⟨?_, ?_, List.nodup_cons.mpr ⟨?_, List.nodup_cons.mpr ⟨hm, h.members_nodup⟩⟩⟩
  · have hsame : xs.map ((l.join x (l.next r)).join r x).next = xs.map l.next := by
      refine List.map_congr_left fun y hy => ?_
      have hyr : y ≠ r := fun he => hnot (he ▸ hy)
      have hyx : y ≠ x := fun he => hm (he ▸ hy)
      simp [Links.join, Function.update_of_ne hyr, Function.update_of_ne hyx]
    have hold := h.next
    simp only [List.map_cons] at hold ⊢
    rw [hsame]
    simp only [Links.join, Function.update_self, Function.update_of_ne hr, List.cons_append]
    rw [← hold]
  · have hold := h.prev
    cases xs with
    | nil =>
      simp at hfirst
      simp [Links.join, hfirst, Function.update_of_ne (Ne.symm hr)]
    | cons y ys =>
      simp only [List.headD_cons] at hfirst
      have hxy : x ≠ y := fun he => hm (by simp [he])
      obtain ⟨hyys, _⟩ := List.nodup_cons.mp h.members_nodup
      have hyr : y ≠ r := fun he => hnot (by simp [he])
      have hsame : (ys ++ [r]).map ((l.join x (l.next r)).join r x).prev =
          (ys ++ [r]).map l.prev := by
        refine List.map_congr_left fun z hz => ?_
        have hzx : z ≠ x := by
          intro he
          subst he
          simp only [List.mem_append, List.mem_singleton] at hz
          rcases hz with hz | hz
          · exact hm (by simp [hz])
          · exact hr hz
        have hzy : z ≠ y := by
          intro he
          subst he
          simp only [List.mem_append, List.mem_singleton] at hz
          rcases hz with hz | hz
          · exact hyys hz
          · exact hyr hz
        simp [Links.join, hfirst, Function.update_of_ne hzx, Function.update_of_ne hzy]
      simp only [List.cons_append, List.map_cons] at hold ⊢
      rw [hsame]
      simp only [Links.join, hfirst, Function.update_self, Function.update_of_ne (Ne.symm hxy)]
      rw [(List.cons.inj hold).2]
  · simp only [List.mem_cons, not_or]
    exact ⟨Ne.symm hr, hnot⟩

/-- A new node between the last member and the root. -/
theorem Ring.append (h : Ring l r xs) (hx : x ∉ r :: xs) :
    Ring ((l.join x r).join (l.prev r) x) r (xs ++ [x]) := by
  have hr : x ≠ r := fun he => hx (by simp [he])
  have hp : l.prev r ≠ x := fun he => hx (he ▸ h.prev_mem List.mem_cons_self)
  have := (h.flip.push (x := x) (by simpa using hx)).flip
  simp only [List.reverse_cons, List.reverse_reverse, Links.join] at this
  simp only [Links.join]
  rw [Function.update_comm hp.symm, Function.update_comm hr.symm]
  exact this

/-- Only the predecessor of a member leads to it. -/
theorem Ring.bypass (h : Ring l r (xs ++ x :: ys)) :
    (r :: (xs ++ ys)).map (Function.update l.next (l.prev x) (l.next x)) = xs ++ ys ++ [r] := by
  obtain ⟨hto, hfrom, hback⟩ := h.around
  have hnd : ((xs.map l.prev ++ [l.prev x]) ++ (x :: ys)).Nodup := by
    rw [hback]
    exact h.nodup
  obtain ⟨hleft, -, hapart⟩ := List.nodup_append.mp hnd
  obtain ⟨-, -, hlast⟩ := List.nodup_append.mp hleft
  have hbefore : (xs.map l.prev).map (Function.update l.next (l.prev x) (l.next x)) = xs := by
    rw [← hback, List.map_append] at hto
    refine Eq.trans (List.map_congr_left fun y hy => ?_) (List.append_inj' hto rfl).1
    exact Function.update_of_ne (hlast y hy _ (by simp)) _ _
  have hafter : ys.map (Function.update l.next (l.prev x) (l.next x)) = ys.map l.next := by
    refine List.map_congr_left fun y hy => ?_
    exact Function.update_of_ne (Ne.symm (hapart _ (by simp) y (by simp [hy]))) _ _
  rw [show r :: (xs ++ ys) = (r :: xs) ++ ys from rfl, ← hback, List.map_append, List.map_append,
    hbefore, hafter]
  simp [hfrom]

/-- A member taken out by joining its neighbours. -/
theorem Ring.unlink (h : Ring l r (xs ++ x :: ys)) :
    Ring (l.join (l.prev x) (l.next x)) r (xs ++ ys) := by
  obtain ⟨hr, hm⟩ := List.nodup_cons.mp h.nodup
  have hsub : (xs ++ ys).Sublist (xs ++ x :: ys) :=
    List.Sublist.append_left (List.sublist_cons_self x ys) xs
  refine ⟨h.bypass, ?_, List.nodup_cons.mpr ⟨fun hmem => hr (hsub.mem hmem), hm.sublist hsub⟩⟩
  have hback := h.flip
  rw [List.reverse_append, List.reverse_cons, List.append_assoc] at hback
  have := congrArg List.reverse (Ring.bypass hback)
  simpa [Links.join] using this

/-- The members of another ring, all together, between the root and the first member. -/
theorem Ring.splice {k : ν} (hk : Ring l k xs) (h : Ring l r ys) (hne : xs ≠ [])
    (hapart : ∀ y ∈ xs, y ∉ r :: ys) :
    Ring ((l.join r (l.next k)).join (l.prev k) (l.next r)) r (xs ++ ys) := by
  obtain ⟨hr, hys⟩ := List.nodup_cons.mp h.nodup
  have hxs := hk.members_nodup
  have hxr : ∀ y ∈ xs, y ≠ r := fun y hy he => hapart y hy (he ▸ List.mem_cons_self)
  have hxy : ∀ y ∈ xs, y ∉ ys := fun y hy hm => hapart y hy (List.mem_cons_of_mem r hm)
  refine ⟨?_, ?_, ?_⟩
  · have hlast := hk.last
    obtain ⟨as, z, rfl⟩ : ∃ as z, xs = as ++ [z] := ⟨_, _, (List.dropLast_append_getLast hne).symm⟩
    rw [List.getLastD_concat] at hlast
    have hinit : l.next k :: as.map l.next = as ++ [z] := by
      have hn := hk.next
      rw [← List.cons_append, List.map_append] at hn
      exact (List.append_inj' hn rfl).1
    have hza : z ∉ as := fun hm => (List.nodup_append.mp hxs).2.2 z hm z (by simp) rfl
    have has : as.map (Function.update (Function.update l.next r (l.next k)) z (l.next r)) =
        as.map l.next := by
      refine List.map_congr_left fun y hy => ?_
      rw [Function.update_of_ne, Function.update_of_ne (hxr y (List.mem_append_left _ hy))]
      exact fun he => hza (he ▸ hy)
    have hafter : ys.map (Function.update (Function.update l.next r (l.next k)) z (l.next r)) =
        ys.map l.next := by
      refine List.map_congr_left fun y hy => ?_
      rw [Function.update_of_ne, Function.update_of_ne]
      · exact fun he => hr (he ▸ hy)
      · exact fun he => hxy z (by simp) (he ▸ hy)
    have hn := h.next
    simp only [Links.join, hlast, List.map_cons, List.map_append, List.map_nil, has, hafter,
      Function.update_self, Function.update_of_ne (hxr z (by simp)).symm] at hn ⊢
    calc l.next k :: (as.map l.next ++ [l.next r] ++ ys.map l.next)
        = (l.next k :: as.map l.next) ++ (l.next r :: ys.map l.next) := by simp
      _ = as ++ [z] ++ ys ++ [r] := by rw [hinit, hn, List.append_assoc (as ++ [z])]
  · have hfirst := hk.first
    obtain ⟨f, bs, rfl⟩ := List.exists_cons_of_ne_nil hne
    obtain ⟨a, cs, hac⟩ : ∃ a cs, ys ++ [r] = a :: cs := List.exists_cons_of_ne_nil (by simp)
    have ha : l.next r = a := by
      have := h.next
      rw [hac] at this
      exact (List.cons.inj this).1
    have hmem : ∀ y ∈ a :: cs, y ∈ r :: ys := fun y hy => by
      rw [← hac] at hy
      simpa [or_comm] using hy
    have hacs : (a :: cs).Nodup := by
      rw [← hac]
      exact List.nodup_append.mpr ⟨hys, by simp, fun y hy z hz he => hr (by simp_all)⟩
    have hback := hk.prev
    have hprev := h.prev
    rw [List.cons_append, List.map_cons, List.map_append] at hback
    rw [hac, List.map_cons] at hprev
    have hbs : bs.map (Function.update (Function.update l.prev f r) a (l.prev k)) =
        bs.map l.prev := by
      refine List.map_congr_left fun y hy => ?_
      rw [Function.update_of_ne, Function.update_of_ne]
      · exact fun he => (List.nodup_cons.mp hxs).1 (he ▸ hy)
      · exact fun he => hapart y (List.mem_cons_of_mem f hy) (hmem y (by simp [he]))
    have hcs : cs.map (Function.update (Function.update l.prev f r) a (l.prev k)) =
        cs.map l.prev := by
      refine List.map_congr_left fun y hy => ?_
      rw [Function.update_of_ne, Function.update_of_ne]
      · exact fun he => hapart y (by simp [he]) (hmem y (List.mem_cons_of_mem a hy))
      · exact fun he => (List.nodup_cons.mp hacs).1 (he ▸ hy)
    have hfa : f ≠ a := fun he => hapart f List.mem_cons_self (hmem f (by simp [he]))
    rw [List.headD_cons] at hfirst
    rw [List.append_assoc, hac, List.cons_append, List.map_cons, List.map_append, List.map_cons]
    simp only [Links.join, hfirst, ha, hbs, hcs, Function.update_self, Function.update_of_ne hfa]
    rw [(List.cons.inj hprev).2]
    have := (List.cons.inj hback).2
    simp only [List.map_cons, List.map_nil] at this
    rw [← List.cons_append, ← this]
    simp
  · rw [List.nodup_cons, List.nodup_append, List.mem_append, not_or]
    refine ⟨⟨fun hm => hapart r hm List.mem_cons_self, hr⟩, hk.members_nodup, hys, ?_⟩
    intro y hy z hz he
    exact hapart y hy (he ▸ List.mem_cons_of_mem r hz)

/-- A ring of which the root knows the first member only. -/
def Stack (l : Links ν) (r : ν) (xs : List ν) : Prop :=
  ∃ v, Ring ⟨l.next, Function.update l.prev r v⟩ r xs

namespace Stack

theorem of_ring (h : Ring l r xs) (hn : ∀ y ∈ r :: xs, l'.next y = l.next y)
    (hp : ∀ y ∈ xs, l'.prev y = l.prev y) : Stack l' r xs := by
  refine ⟨l.prev r, h.congr hn ?_⟩
  intro y hy
  by_cases hr : y = r
  · simp [hr]
  · simp [Function.update_of_ne hr, hp y ((List.mem_cons.mp hy).resolve_left hr)]

theorem congr (h : Stack l r xs) (hn : ∀ y ∈ r :: xs, l'.next y = l.next y)
    (hp : ∀ y ∈ xs, l'.prev y = l.prev y) : Stack l' r xs := by
  obtain ⟨v, h⟩ := h
  refine of_ring h hn (fun y hy => ?_)
  have hr : y ≠ r := fun he => h.not_mem (he ▸ hy)
  simp [hp y hy, Function.update_of_ne hr]

theorem nil (hn : l.next r = r) : Stack l r [] :=
  ⟨r, .nil hn (by simp)⟩

theorem next (h : Stack l r xs) : (r :: xs).map l.next = xs ++ [r] := by
  obtain ⟨v, h⟩ := h
  exact h.next

theorem nodup (h : Stack l r xs) : (r :: xs).Nodup := by
  obtain ⟨v, h⟩ := h
  exact h.nodup

theorem prev_ne (h : Stack l r xs) (hx : x ∈ xs) : l.prev x ≠ x := by
  obtain ⟨v, h⟩ := h
  have hr : x ≠ r := fun he => h.not_mem (he ▸ hx)
  simpa [Function.update_of_ne hr] using h.prev_ne hx

/-- The root leads to a member just when the member leads back to the root. -/
theorem prev_eq_root (h : Stack l r xs) (hx : x ∈ xs) : l.prev x = r ↔ l.next r = x := by
  obtain ⟨v, h⟩ := h
  have hxr : x ≠ r := fun he => h.not_mem (he ▸ hx)
  have hback := h.next_prev (List.mem_cons_of_mem r hx)
  have hforth := h.prev_next List.mem_cons_self
  simp only [Function.update_of_ne hxr] at hback
  constructor
  · intro hp
    rwa [hp] at hback
  · intro hn
    simpa [hn, Function.update_of_ne hxr] using hforth

theorem beside (h : Stack l r (xs ++ x :: ys)) :
    l.next x = ys.headD r ∧ l.prev x = xs.getLastD r := by
  obtain ⟨v, h⟩ := h
  have hr : x ≠ r := fun he => h.not_mem (he ▸ by simp)
  simpa [Function.update_of_ne hr] using h.beside

theorem push (h : Stack l r xs) (hx : x ∉ r :: xs) :
    Stack ((l.join x (l.next r)).join r x) r (x :: xs) := by
  obtain ⟨v, h⟩ := h
  refine of_ring (h.push hx) (fun _ _ => rfl) ?_
  intro y hy
  have hr : y ≠ r := by
    intro he
    subst he
    rcases List.mem_cons.mp hy with hy | hy
    · exact hx (by simp [hy])
    · exact h.not_mem hy
  simp only [Links.join, Function.update_apply, hr, if_false]

theorem unlink (h : Stack l r (xs ++ x :: ys)) :
    Stack (l.join (l.prev x) (l.next x)) r (xs ++ ys) := by
  obtain ⟨v, h⟩ := h
  have hnot := h.not_mem
  have hxr : x ≠ r := fun he => hnot (by simp [he])
  refine of_ring h.unlink (fun y _ => ?_) ?_
  · simp [Links.join, Function.update_of_ne hxr]
  · intro y hy
    have hr : y ≠ r := by
      intro he
      subst he
      exact hnot (by simp at hy ⊢; tauto)
    simp only [Links.join, Function.update_apply, hr, hxr, if_false]

end Stack

end Edits

end Memory
