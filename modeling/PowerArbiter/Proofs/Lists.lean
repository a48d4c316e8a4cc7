import PowerArbiter.Lists
import PowerArbiter.Memory.Ring

namespace PowerArbiter.Lists
open Memory

variable {ν β : Type} [DecidableEq ν] {E : Ending → Prop} {m : Mem ν}

section Accesses

variable {p v : Option ν}

omit [DecidableEq ν] in
@[simp] theorem meets_nextOf {Q : Option ν → Mem ν → Prop} :
    Meets E (nextOf p) m Q ↔ p.elim (E .faulted) (fun x => Q (m x).next m) := by
  simp [nextOf]

omit [DecidableEq ν] in
@[simp] theorem meets_prevOf {Q : Option ν → Mem ν → Prop} :
    Meets E (prevOf p) m Q ↔ p.elim (E .faulted) (fun x => Q (m x).prev m) := by
  simp [prevOf]

@[simp] theorem meets_setNext {Q : Unit → Mem ν → Prop} :
    Meets E (setNext p v) m Q ↔ p.elim (E .faulted)
      (fun x => Q () (Function.update m x { m x with next := v })) := by
  simp [setNext]

@[simp] theorem meets_setPrev {Q : Unit → Mem ν → Prop} :
    Meets E (setPrev p v) m Q ↔ p.elim (E .faulted)
      (fun x => Q () (Function.update m x { m x with prev := v })) := by
  simp [setPrev]

end Accesses

def links (m : Mem ν) : Links (Option ν) where
  next p := p.elim none (fun x => (m x).next)
  prev p := p.elim none (fun x => (m x).prev)

omit [DecidableEq ν] in
@[simp] theorem links_next (x : ν) : (links m).next (some x) = (m x).next := rfl

omit [DecidableEq ν] in
@[simp] theorem links_prev (x : ν) : (links m).prev (some x) = (m x).prev := rfl

/-- From the head the list leads through `xs` and back. -/
def Listed (m : Mem ν) (head : ν) (xs : List ν) : Prop :=
  Ring (links m) (some head) (xs.map some)

/-- The memory after `p` and `n` have been made neighbours. -/
def joined (m : Mem ν) (p n y : ν) : ListHead ν where
  next := if y = p then some n else (m y).next
  prev := if y = n then some p else (m y).prev

@[simp] theorem links_joined (p n : ν) :
    links (joined m p n) = (links m).join (some p) (some n) := by
  simp only [links, Links.join, Links.mk.injEq]
  refine ⟨funext fun q => ?_, funext fun q => ?_⟩
  · cases q <;> simp [joined, Function.update_apply]
  · cases q <;> simp [joined, Function.update_apply]

@[simp] theorem meets_listJoin {p n : ν} {Q : Unit → Mem ν → Prop} :
    Meets E (listJoin p n) m Q ↔ Q () (joined m p n) := by
  simp only [listJoin, meets_bind, meets_setPrev, meets_setNext, Option.elim_some]
  refine iff_of_eq (congrArg (Q ()) (funext fun y => ?_))
  rcases eq_or_ne y p with rfl | hp <;> rcases eq_or_ne y n with rfl | hn <;>
    simp_all [joined, Function.update_apply]

@[simp] theorem meets_listAddBetween {new p n : ν} {Q : Unit → Mem ν → Prop} :
    Meets E (listAddBetween new p n) m Q ↔ Q () (joined (joined m new n) p new) := by
  simp only [listAddBetween, meets_bind, meets_setPrev, meets_setNext, Option.elim_some]
  refine iff_of_eq (congrArg (Q ()) (funext fun y => ?_))
  rcases eq_or_ne y p with rfl | hp <;> rcases eq_or_ne y n with rfl | hn <;>
    rcases eq_or_ne y new with rfl | hx <;> simp_all [joined, Function.update_apply]

variable {head x : ν} {xs ys : List ν} {m' : Mem ν}

namespace Listed

omit [DecidableEq ν] in
theorem congr (h : Listed m head xs) (hm : ∀ y ∈ head :: xs, m' y = m y) : Listed m' head xs := by
  refine Ring.congr h (fun p hp => ?_) (fun p hp => ?_) <;>
  · obtain ⟨y, hy, rfl⟩ := List.mem_map.mp (show p ∈ (head :: xs).map some from hp)
    simp [links, hm y hy]

omit [DecidableEq ν] in
theorem nodup (h : Listed m head xs) : (head :: xs).Nodup :=
  List.Nodup.of_map some (show ((head :: xs).map some).Nodup from Ring.nodup h)

omit [DecidableEq ν] in
/-- The links of a list lead to its nodes. -/
theorem next_some (h : Listed m head xs) (hx : x ∈ head :: xs) :
    ∃ y ∈ head :: xs, (m x).next = some y := by
  have := Ring.next_mem h (x := some x) (List.mem_map_of_mem (f := some) hx)
  obtain ⟨y, hy, he⟩ := List.mem_map.mp (show _ ∈ (head :: xs).map some from this)
  exact ⟨y, hy, he.symm⟩

omit [DecidableEq ν] in
theorem prev_some (h : Listed m head xs) (hx : x ∈ head :: xs) :
    ∃ y ∈ head :: xs, (m x).prev = some y := by
  have := Ring.prev_mem h (x := some x) (List.mem_map_of_mem (f := some) hx)
  obtain ⟨y, hy, he⟩ := List.mem_map.mp (show _ ∈ (head :: xs).map some from this)
  exact ⟨y, hy, he.symm⟩

omit [DecidableEq ν] in
theorem next_head (h : Listed m head xs) : (m head).next = some (xs.headD head) := by
  have := Ring.first h
  cases xs <;> exact this

omit [DecidableEq ν] in
theorem prev_head (h : Listed m head xs) : (m head).prev = some (xs.getLastD head) := by
  have := Ring.last h
  rw [List.getLastD_eq_getLast?, List.getLast?_map] at this
  rw [List.getLastD_eq_getLast?]
  cases hlast : xs.getLast? <;> simpa [hlast] using this

end Listed

theorem joined_of_ne {p n y : ν} (hp : y ≠ p) (hn : y ≠ n) : joined m p n y = m y := by
  simp [joined, hp, hn]

theorem initListHead_spec (head : ν) : Meets Never (initListHead head) m
    (fun _ m' => Listed m' head [] ∧ ∀ y, y ≠ head → m' y = m y) := by
  simp only [initListHead, meets_bind, meets_setNext, meets_setPrev, Option.elim_some]
  refine ⟨.nil ?_ ?_, fun y hy => ?_⟩
  · simp [links]
  · simp [links]
  · simp [hy]

theorem listAdd_spec (h : Listed m head xs) (hx : x ∉ head :: xs) :
    Meets Never (listAdd x head) m
      (fun _ m' => Listed m' head (x :: xs) ∧ ∀ y, y ∉ x :: head :: xs → m' y = m y) := by
  obtain ⟨n, hn, hnext⟩ := h.next_some (List.mem_cons_self (a := head) (l := xs))
  simp only [listAdd, meets_bind, meets_nextOf, Option.elim_some, hnext, meets_listAddBetween]
  refine ⟨?_, fun y hy => ?_⟩
  · have := Ring.push h (x := some x) (by simpa using hx)
    rw [links_next, hnext] at this
    simpa [Listed] using this
  · have hyx : y ≠ x := fun he => hy (by simp [he])
    have hyn : y ≠ n := fun he => hy (List.mem_cons_of_mem x (he ▸ hn))
    have hyh : y ≠ head := fun he => hy (by simp [he])
    rw [joined_of_ne hyh hyx, joined_of_ne hyx hyn]

theorem listAddTail_spec (h : Listed m head xs) (hx : x ∉ head :: xs) :
    Meets Never (listAddTail x head) m
      (fun _ m' => Listed m' head (xs ++ [x]) ∧ ∀ y, y ∉ x :: head :: xs → m' y = m y) := by
  obtain ⟨p, hp, hprev⟩ := h.prev_some (List.mem_cons_self (a := head) (l := xs))
  simp only [listAddTail, meets_bind, meets_prevOf, Option.elim_some, hprev, meets_listAddBetween]
  refine ⟨?_, fun y hy => ?_⟩
  · have := Ring.append h (x := some x) (by simpa using hx)
    rw [links_prev, hprev] at this
    simpa [Listed] using this
  · have hyx : y ≠ x := fun he => hy (by simp [he])
    have hyp : y ≠ p := fun he => hy (List.mem_cons_of_mem x (he ▸ hp))
    have hyh : y ≠ head := fun he => hy (by simp [he])
    rw [joined_of_ne hyp hyx, joined_of_ne hyx hyh]

omit [DecidableEq ν] in
theorem listEmpty_spec [DecidableEq ν] (h : Listed m head xs) :
    Meets Never (listEmpty head) m (fun b m' => m' = m ∧ b = xs.isEmpty) := by
  simp only [listEmpty, meets_bind, meets_nextOf, Option.elim_some, meets_pure, true_and,
    h.next_head]
  cases xs with
  | nil => simp
  | cons y ys =>
    have := (List.nodup_cons.mp h.nodup).1
    simp only [List.headD_cons, Option.some.injEq, List.isEmpty_cons, decide_eq_false_iff_not]
    exact fun he => this (by simp [he])

/-- Out of its list an entry has its old links, and the others have new ones. -/
theorem unlinked_spec (h : Listed m head xs) (hx : x ∈ xs) :
    ∃ p n, (m x).prev = some p ∧ (m x).next = some n ∧
      Listed (joined m p n) head (xs.erase x) ∧
      ∀ y, y ∉ head :: xs → joined m p n y = m y := by
  obtain ⟨p, hp, hprev⟩ := h.prev_some (List.mem_cons_of_mem head hx)
  obtain ⟨n, hn, hnext⟩ := h.next_some (List.mem_cons_of_mem head hx)
  refine ⟨p, n, hprev, hnext, ?_, fun y hy => joined_of_ne ?_ ?_⟩
  · obtain ⟨as, bs, -, rfl, he⟩ := List.exists_erase_eq hx
    rw [he]
    rw [Listed, List.map_append, List.map_cons] at h
    have := Ring.unlink h
    rw [links_prev, links_next, hprev, hnext] at this
    simpa [Listed] using this
  · exact fun he => hy (he ▸ hp)
  · exact fun he => hy (he ▸ hn)

/-- The entries of one list, all together, after the head of another. -/
theorem listSpliceFull_spec {list : ν} (hl : Listed m list xs) (h : Listed m head ys)
    (hne : xs ≠ []) (hapart : ∀ y ∈ xs, y ∉ head :: ys) :
    Meets Never (listSpliceFull list head) m (fun _ m' => Listed m' head (xs ++ ys) ∧
      ∀ y, y ∉ xs → y ∉ head :: ys → m' y = m y) := by
  obtain ⟨n, hn, hnext⟩ := h.next_some (List.mem_cons_self (a := head) (l := ys))
  obtain ⟨f, hf, hfirst⟩ : ∃ f ∈ xs, (m list).next = some f :=
    ⟨_, by cases xs <;> simp_all, hl.next_head⟩
  obtain ⟨z, hz, hlast⟩ : ∃ z ∈ xs, (m list).prev = some z := by
    refine ⟨_, ?_, hl.prev_head⟩
    rw [List.getLastD_eq_getLast?, List.getLast?_eq_some_getLast hne]
    exact List.getLast_mem hne
  simp only [listSpliceFull, meets_bind, meets_nextOf, meets_prevOf, meets_setNext, meets_setPrev,
    Option.elim_some, hfirst, hlast, hnext]
  have hmem : ∀ m' : Mem ν, m' = joined (joined m head f) z n → Listed m' head (xs ++ ys) ∧
      ∀ y, y ∉ xs → y ∉ head :: ys → m' y = m y := by
    rintro _ rfl
    refine ⟨?_, fun y hy hy' => ?_⟩
    · have hapart' : ∀ p ∈ xs.map some, p ∉ some head :: ys.map some := by
        intro p hp
        obtain ⟨y, hy, rfl⟩ := List.mem_map.mp hp
        simpa [eq_comm] using hapart y hy
      have := Ring.splice hl h (by simpa using hne) hapart'
      rw [links_next, links_next, links_prev, hfirst, hlast, hnext] at this
      simpa [Listed] using this
    · have hyz : y ≠ z := fun he => hy (he ▸ hz)
      have hyn : y ≠ n := fun he => hy' (he ▸ hn)
      have hyf : y ≠ f := fun he => hy (he ▸ hf)
      have hyh : y ≠ head := fun he => hy' (by simp [he])
      rw [joined_of_ne hyz hyn, joined_of_ne hyh hyf]
  refine hmem _ (funext fun y => ?_)
  rcases eq_or_ne y head with rfl | hyh <;> rcases eq_or_ne y f with rfl | hyf <;>
    rcases eq_or_ne y z with rfl | hyz <;> rcases eq_or_ne y n with rfl | hyn <;>
    simp_all [joined, Function.update_apply]

/-- The lists with the heads `at h` lead through the entries `lists h`, and no node is in
two of them. -/
structure Filed {η : Type} (headAt : η → ν) (m : Mem ν) (lists : η → List ν) : Prop where
  listed : ∀ h, Listed m (headAt h) (lists h)
  apart : ∀ h k, ∀ x ∈ headAt h :: lists h, x ∈ headAt k :: lists k → h = k

inductive ListOp (η ν : Type) where
  | add (new : ν) (head : η)
  | addTail (new : ν) (head : η)
  | del (entry : ν)
  | delInit (entry : ν)
  | move (entry : ν) (head : η)
  | moveTail (entry : ν) (head : η)
  | spliceInit (list head : η)

variable {η : Type} [DecidableEq η]

def ListOp.code (headAt : η → ν) : ListOp η ν → Code (Mem ν) Unit
  | .add new head => listAdd new (headAt head)
  | .addTail new head => listAddTail new (headAt head)
  | .del entry => listDel entry
  | .delInit entry => listDelInit entry
  | .move entry head => listMove entry (headAt head)
  | .moveTail entry head => listMoveTail entry (headAt head)
  | .spliceInit list head => listSpliceInit (headAt list) (headAt head)

/-- What the operations mean for the entries. -/
def ListOp.apply (lists : η → List ν) : ListOp η ν → η → List ν
  | .add new head => Function.update lists head (new :: lists head)
  | .addTail new head => Function.update lists head (lists head ++ [new])
  | .del entry | .delInit entry => fun h => (lists h).erase entry
  | .move entry head => Function.update (fun h => (lists h).erase entry) head
    (entry :: (lists head).erase entry)
  | .moveTail entry head => Function.update (fun h => (lists h).erase entry) head
    ((lists head).erase entry ++ [entry])
  | .spliceInit list head =>
    Function.update (Function.update lists head (lists list ++ lists head)) list []

/-- New entries are in no list, others are in one. -/
def ListOp.Fits (headAt : η → ν) (lists : η → List ν) : ListOp η ν → Prop
  | .add new _ | .addTail new _ => ∀ h, new ∉ headAt h :: lists h
  | .del entry | .delInit entry | .move entry _ | .moveTail entry _ => ∃ h, entry ∈ lists h
  | .spliceInit list head => list ≠ head

section Files

variable {headAt : η → ν} {lists : η → List ν} {head : η}

omit [DecidableEq ν] in
/-- One of the lists has changed. -/
theorem Filed.update (h : Filed headAt m lists) {ys : List ν} (hl : Listed m' (headAt head) ys)
    (hframe : ∀ y, y ∉ ys → y ∉ headAt head :: lists head → m' y = m y)
    (hnew : ∀ y ∈ ys, ∀ k ≠ head, y ∉ headAt k :: lists k) :
    Filed headAt m' (Function.update lists head ys) := by
  have hold : ∀ k ≠ head, ∀ x ∈ headAt k :: lists k, x ∉ headAt head :: ys := by
    intro k hk x hx hm
    rcases List.mem_cons.mp hm with rfl | hm
    · exact hk (h.apart k head _ hx List.mem_cons_self)
    · exact hnew x hm k hk hx
  refine ⟨fun k => ?_, fun j k x hj hk => ?_⟩
  · rcases eq_or_ne k head with rfl | hne
    · simpa using hl
    · rw [Function.update_of_ne hne]
      refine (h.listed k).congr fun y hy => hframe y ?_ ?_
      · exact fun hm => hold k hne y hy (List.mem_cons_of_mem _ hm)
      · exact fun hm => hne (h.apart k head y hy hm)
  · by_cases hj' : j = head <;> by_cases hk' : k = head
    · rw [hj', hk']
    · subst hj'
      simp only [Function.update_self, Function.update_of_ne hk'] at hj hk
      exact absurd hj (hold k hk' x hk)
    · subst hk'
      simp only [Function.update_self, Function.update_of_ne hj'] at hj hk
      exact absurd hk (hold j hj' x hj)
    · simp only [Function.update_of_ne hj', Function.update_of_ne hk'] at hj hk
      exact h.apart j k x hj hk

omit [DecidableEq ν] [DecidableEq η] in
theorem Filed.not_mem_other (h : Filed headAt m lists) (hx : x ∈ lists head) {k : η}
    (hk : k ≠ head) : x ∉ headAt k :: lists k :=
  fun hm => hk (h.apart k head x hm (List.mem_cons_of_mem _ hx))

theorem Filed.erase_eq (h : Filed headAt m lists) (hx : x ∈ lists head) :
    (fun k => (lists k).erase x) = Function.update lists head ((lists head).erase x) := by
  funext k
  rcases eq_or_ne k head with rfl | hk
  · simp
  · rw [Function.update_of_ne hk]
    exact List.erase_of_not_mem fun hm => h.not_mem_other hx hk (List.mem_cons_of_mem _ hm)

/-- An entry taken out of its list; what becomes of its own links does not matter. -/
theorem Filed.unlink (h : Filed headAt m lists) (hx : x ∈ lists head) :
    ∃ p n, (m x).prev = some p ∧ (m x).next = some n ∧ ∀ m' : Mem ν,
      (∀ y, y ≠ x → m' y = joined m p n y) → Filed headAt m' (fun k => (lists k).erase x) := by
  obtain ⟨p, n, hp, hn, hl, hframe⟩ := unlinked_spec (h.listed head) hx
  have hnd := (h.listed head).nodup
  have hxe : x ∉ headAt head :: (lists head).erase x := by
    rw [List.mem_cons, not_or]
    refine ⟨fun he => (List.nodup_cons.mp hnd).1 (he ▸ hx), ?_⟩
    exact (List.nodup_cons.mp hnd).2.not_mem_erase
  refine ⟨p, n, hp, hn, fun m' hm' => ?_⟩
  rw [h.erase_eq hx]
  refine h.update (hl.congr fun y hy => hm' y ?_) (fun y hy hy' => ?_) (fun y hy k hk => ?_)
  · exact fun he => hxe (he ▸ hy)
  · have hyx : y ≠ x := fun he => hy' (List.mem_cons_of_mem _ (he ▸ hx))
    rw [hm' y hyx, hframe y hy']
  · exact h.not_mem_other (List.mem_of_mem_erase hy) hk

theorem Filed.add (h : Filed headAt m lists) (hx : ∀ k, x ∉ headAt k :: lists k) :
    Meets Never (listAdd x (headAt head)) m
      (fun _ m' => Filed headAt m' (Function.update lists head (x :: lists head))) := by
  refine (listAdd_spec (h.listed head) (hx head)).mono fun _ m' hm => ?_
  refine h.update hm.1 (fun y hy hy' => hm.2 y (by simp_all)) (fun y hy k hk => ?_)
  rcases List.mem_cons.mp hy with rfl | hy
  · exact hx k
  · exact h.not_mem_other hy hk

theorem Filed.addTail (h : Filed headAt m lists) (hx : ∀ k, x ∉ headAt k :: lists k) :
    Meets Never (listAddTail x (headAt head)) m
      (fun _ m' => Filed headAt m' (Function.update lists head (lists head ++ [x]))) := by
  refine (listAddTail_spec (h.listed head) (hx head)).mono fun _ m' hm => ?_
  refine h.update hm.1 (fun y hy hy' => hm.2 y (by simp_all)) (fun y hy k hk => ?_)
  rcases List.mem_append.mp hy with hy | hy
  · exact h.not_mem_other hy hk
  · rw [List.mem_singleton.mp hy]
    exact hx k

omit [DecidableEq η] in
/-- Out of its list an entry is in none. -/
theorem Filed.erased (h : Filed headAt m lists) (hx : x ∈ lists head) (k : η) :
    x ∉ headAt k :: (lists k).erase x := by
  rcases eq_or_ne k head with rfl | hk
  · have hnd := List.nodup_cons.mp (h.listed k).nodup
    rw [List.mem_cons, not_or]
    exact ⟨fun he => hnd.1 (he ▸ hx), hnd.2.not_mem_erase⟩
  · have := h.not_mem_other hx hk
    simp only [List.mem_cons, not_or] at this ⊢
    exact ⟨this.1, fun hm => this.2 (List.mem_of_mem_erase hm)⟩

theorem Filed.spliceInit (h : Filed headAt m lists) {list : η} (hne : list ≠ head) :
    Meets Never (listSpliceInit (headAt list) (headAt head)) m
      (fun _ m' => Filed headAt m' ((ListOp.spliceInit list head).apply lists)) := by
  simp only [listSpliceInit, meets_bind]
  refine (listEmpty_spec (h.listed list)).mono fun b m' hb => ?_
  obtain ⟨rfl, rfl⟩ := hb
  by_cases hnil : lists list = []
  · have hsame : (ListOp.spliceInit list head).apply lists = lists := by
      simp only [ListOp.apply, hnil, List.nil_append, Function.update_eq_self]
      rw [← hnil, Function.update_eq_self]
    rw [hsame]
    simpa [hnil] using h
  · have hapart : ∀ y ∈ lists list, y ∉ headAt head :: lists head :=
      fun y hy => h.not_mem_other hy hne.symm
    have hempty : (lists list).isEmpty = false := by simpa using hnil
    simp only [hempty, Bool.not_false, if_true, meets_bind]
    refine (listSpliceFull_spec (h.listed list) (h.listed head) hnil hapart).mono
      fun _ m₁ h₁ => (initListHead_spec (headAt list)).mono fun _ m₂ h₂ => ?_
    have hhead : ∀ y ∈ headAt head :: lists head, y ≠ headAt list :=
      fun y hy he => hne (h.apart list head y (by simp [he]) hy)
    have hentry : ∀ y ∈ lists list, y ≠ headAt list :=
      fun y hy he => (List.nodup_cons.mp (h.listed list).nodup).1 (he ▸ hy)
    -- the first list as it is at the end, in a memory where nothing else has changed
    let m₀ := Function.update m' (headAt list) (m₂ (headAt list))
    have hempty : Filed headAt m₀ (Function.update lists list []) := by
      refine h.update (h₂.1.congr fun y hy => ?_) (fun y _ hy => ?_) (by simp)
      · rw [List.mem_singleton.mp hy]
        exact Function.update_self ..
      · exact Function.update_of_ne (fun he => hy (by simp [he])) _ _
    have hfull : Filed headAt m₂ (Function.update (Function.update lists list [])
        head (lists list ++ lists head)) := by
      refine hempty.update (h₁.1.congr fun y hy => h₂.2 y ?_) (fun y hy hy' => ?_)
        (fun y hy k hk => ?_)
      · simp only [List.mem_cons, List.mem_append] at hy
        rcases hy with rfl | hy | hy
        · exact hhead _ List.mem_cons_self
        · exact hentry y hy
        · exact hhead y (List.mem_cons_of_mem _ hy)
      · rw [Function.update_of_ne hne.symm] at hy'
        rcases eq_or_ne y (headAt list) with rfl | hyl
        · simp [m₀]
        · rw [h₂.2 y hyl, h₁.2 y (fun hm => hy (List.mem_append_left _ hm)) hy']
          exact (Function.update_of_ne hyl _ _).symm
      · rcases eq_or_ne k list with rfl | hkl
        · rw [Function.update_self, List.mem_singleton]
          rcases List.mem_append.mp hy with hy | hy
          · exact hentry y hy
          · exact hhead y (List.mem_cons_of_mem _ hy)
        · rw [Function.update_of_ne hkl]
          rcases List.mem_append.mp hy with hy | hy
          · exact h.not_mem_other hy hkl
          · exact h.not_mem_other hy hk
    rwa [ListOp.apply, Function.update_comm hne.symm]

/-- Every operation does to the lists what it means, and neither faults nor loops. -/
theorem Filed.step (h : Filed headAt m lists) {op : ListOp η ν} (hop : op.Fits headAt lists) :
    Meets Never (op.code headAt) m (fun _ m' => Filed headAt m' (op.apply lists)) := by
  cases op with
  | add new head => exact h.add hop
  | addTail new head => exact h.addTail hop
  | del entry =>
    obtain ⟨head, hx⟩ := hop
    obtain ⟨p, n, hp, hn, hout⟩ := h.unlink hx
    simp only [ListOp.code, listDel, meets_bind, meets_prevOf, meets_nextOf, Option.elim_some,
      hp, hn, meets_listJoin, meets_setNext, meets_setPrev]
    exact hout _ fun y hy => by simp [hy]
  | delInit entry =>
    obtain ⟨head, hx⟩ := hop
    obtain ⟨p, n, hp, hn, hout⟩ := h.unlink hx
    simp only [ListOp.code, listDelInit, meets_bind, meets_prevOf, meets_nextOf, Option.elim_some,
      hp, hn, meets_listJoin]
    exact (initListHead_spec entry).mono fun _ m' hm => hout m' hm.2
  | move entry head =>
    obtain ⟨head', hx⟩ := hop
    obtain ⟨p, n, hp, hn, hout⟩ := h.unlink hx
    simp only [ListOp.code, listMove, meets_bind, meets_prevOf, meets_nextOf, Option.elim_some,
      hp, hn, meets_listJoin]
    exact (hout _ fun _ _ => rfl).add (h.erased hx)
  | moveTail entry head =>
    obtain ⟨head', hx⟩ := hop
    obtain ⟨p, n, hp, hn, hout⟩ := h.unlink hx
    simp only [ListOp.code, listMoveTail, meets_bind, meets_prevOf, meets_nextOf,
      Option.elim_some, hp, hn, meets_listJoin]
    exact (hout _ fun _ _ => rfl).addTail (h.erased hx)
  | spliceInit list head => exact h.spliceInit hop

/-- So does a sequence of them. -/
theorem Filed.run (h : Filed headAt m lists) {ops : List (ListOp η ν)}
    (hops : AllFit ListOp.apply (ListOp.Fits headAt) lists ops) :
    Meets Never (ops.forM (ListOp.code headAt)) m
      (fun _ m' => Filed headAt m' (ops.foldl ListOp.apply lists)) :=
  meets_forM (I := fun ls m => Filed headAt m ls) h hops fun _ _ _ h hop => h.step hop

end Files

section Each

variable {body : β → ν → Code (Mem ν) β} {I : List ν → β → Mem ν → Prop}

omit [DecidableEq ν] in
theorem Listed.next_of_suffix (h : Listed m head xs) {as rest : List ν}
    (hx : xs = as ++ x :: rest) : (m x).next = some (rest.headD head) := by
  subst hx
  rw [Listed, List.map_append, List.map_cons] at h
  have := (Ring.beside h).1
  cases rest <;> exact this

/-- The invariant rule of the loop: what is left to visit at the head of an iteration, and what
the body does to it. The body may change the links of the entry that it gets. -/
theorem meets_eachEntrySafe (head : ν)
    (hnext : ∀ y rest acc m, I (y :: rest) acc m → (m y).next = some (rest.headD head) ∧ y ≠ head)
    (hbody : ∀ y rest acc m, I (y :: rest) acc m →
      Meets E (body acc y) m (fun acc' m' => I rest acc' m'))
    {acc : β} {fuel : Nat} (h : I xs acc m) (hf : xs.length ≤ fuel) {n : Option ν}
    (hn : ∀ y rest, xs = y :: rest → n = some (rest.headD head)) :
    Meets E (eachEntrySafe head body fuel (some (xs.headD head)) n acc) m
      (fun acc' m' => I [] acc' m') := by
  induction xs generalizing fuel acc m n with
  | nil =>
    unfold eachEntrySafe
    simpa using h
  | cons y rest ih =>
    cases fuel with
    | zero => simp at hf
    | succ fuel =>
      have hy := (hnext y rest acc m h).2
      unfold eachEntrySafe
      simp only [List.headD_cons, Option.some.injEq, hy, if_false, meets_bind, meets_deref,
        Option.elim_some, hn y rest rfl]
      refine (hbody y rest acc m h).mono fun acc' m' h' => ?_
      simp only [meets_nextOf, Option.elim_some]
      refine ih h' (by simpa using hf) fun z rest' hz => ?_
      subst hz
      exact (hnext z rest' acc' m' h').1

theorem meets_listForEachEntrySafe
    (hnext : ∀ y rest acc m, I (y :: rest) acc m → (m y).next = some (rest.headD head) ∧ y ≠ head)
    (hbody : ∀ y rest acc m, I (y :: rest) acc m →
      Meets E (body acc y) m (fun acc' m' => I rest acc' m'))
    {acc : β} {fuel : Nat} (h : I xs acc m) (hf : xs.length ≤ fuel)
    (hfirst : (m head).next = some (xs.headD head)) :
    Meets E (listForEachEntrySafe fuel head body acc) m (fun acc' m' => I [] acc' m') := by
  simp only [listForEachEntrySafe, meets_bind, meets_nextOf, Option.elim_some, hfirst]
  refine meets_eachEntrySafe head hnext hbody h hf fun y rest hy => ?_
  subst hy
  exact (hnext y rest acc m h).1

/-- A loop that only looks at the entries meets them in their order. -/
theorem listEntries_spec (h : Listed m head xs) {fuel : Nat} (hf : xs.length ≤ fuel) :
    Meets Never (listForEachEntrySafe fuel head (fun acc y => pure (acc ++ [y])) []) m
      (fun ys m' => m' = m ∧ ys = xs) := by
  refine (meets_listForEachEntrySafe
    (I := fun rest acc m' => m' = m ∧ xs = acc ++ rest) ?_ ?_ ⟨rfl, rfl⟩ hf h.next_head).mono ?_
  · rintro y rest acc _ ⟨rfl, hxs⟩
    refine ⟨h.next_of_suffix hxs, fun he => (List.nodup_cons.mp h.nodup).1 ?_⟩
    simp [hxs, he]
  · rintro y rest acc _ ⟨rfl, hxs⟩
    simpa using hxs
  · rintro ys _ ⟨rfl, hxs⟩
    exact ⟨rfl, by simpa using hxs.symm⟩

end Each

section Files

variable {η : Type} [DecidableEq η] {headAt : η → ν} {lists : η → List ν} {head other : η}

/-- From initialised heads on, whatever entries are added, removed and moved among the lists:
each list is then what the operations make of it, for the loop over its entries as for
`list_empty`. -/
theorem list_runs (hinj : headAt.Injective)
    (hinit : ∀ h, m (headAt h) = ⟨some (headAt h), some (headAt h)⟩) {ops : List (ListOp η ν)}
    (hops : AllFit ListOp.apply (ListOp.Fits headAt) (fun _ => []) ops) :
    Meets Never (ops.forM (ListOp.code headAt)) m (fun _ m' =>
      ∀ h, ∃ xs, xs = ops.foldl ListOp.apply (fun _ => []) h ∧
        (∀ fuel, xs.length ≤ fuel → Meets Never (listForEachEntrySafe fuel (headAt h)
          (fun acc y => pure (acc ++ [y])) []) m' (fun ys m'' => m'' = m' ∧ ys = xs)) ∧
        Meets Never (listEmpty (headAt h)) m' (fun b m'' => m'' = m' ∧ b = xs.isEmpty)) := by
  have hfiled : Filed headAt m (fun _ => []) := by
    refine ⟨fun h => .nil ?_ ?_, fun h k x hx hk => hinj ?_⟩
    · simp [links, hinit]
    · simp [links, hinit]
    · exact (List.mem_singleton.mp hx).symm.trans (List.mem_singleton.mp hk)
  refine (hfiled.run hops).mono fun _ m' h' k => ⟨_, rfl, fun fuel hf => ?_, ?_⟩
  · exact listEntries_spec (h'.listed k) hf
  · exact listEmpty_spec (h'.listed k)

end Files

/-- Two heads, and all links lead to themselves. -/
def twoHeads (second : Bool) : Nat := if second then 1 else 0

def selfLinked : Mem Nat := fun x => ⟨some x, some x⟩

/-- Three entries, of which one moves to the other list and that list then before the first. -/
def movedOps : List (ListOp Bool Nat) :=
  [.addTail 5 true, .addTail 6 true, .add 7 false, .moveTail 5 false, .spliceInit false true]

theorem twoHeads_injective : twoHeads.Injective := by
  intro a b h
  cases a <;> cases b <;> first | rfl | cases h

theorem movedOps_run : Meets Never (movedOps.forM (ListOp.code twoHeads)) selfLinked (fun _ m' =>
    Meets Never (listForEachEntrySafe 3 1 (fun acc y => pure (acc ++ [y])) []) m'
      (fun ys _ => ys = [7, 5, 6])) := by
  have hfits : AllFit ListOp.apply (ListOp.Fits twoHeads) (fun _ => []) movedOps := by
    simp [AllFit, movedOps, ListOp.Fits, ListOp.apply, twoHeads]
  refine (list_runs twoHeads_injective (fun _ => rfl) hfits).mono fun _ m' h' => ?_
  obtain ⟨xs, hxs, hvisit, -⟩ := h' true
  have hlast : movedOps.foldl ListOp.apply (fun _ => []) true = [7, 5, 6] := by decide
  rw [hlast] at hxs
  subst hxs
  exact (hvisit 3 (Nat.le_refl 3)).mono fun _ _ h => h.2

section Files

variable {η : Type} [DecidableEq η] {headAt : η → ν} {lists : η → List ν} {head : η}

/-- The loop is safe against its body removing the entry that it gets: all entries are visited
once and in order, and those with the property are moved to the end of another list. -/
theorem listForEachEntrySafe_moves (h : Filed headAt m lists) {other : η} (hne : head ≠ other)
    (moves : ν → Bool) {fuel : Nat} (hf : (lists head).length ≤ fuel) :
    Meets Never (listForEachEntrySafe fuel (headAt head) (fun acc y => do
        if moves y then
          listMoveTail y (headAt other)
        pure (acc ++ [y])) []) m
      (fun ys m' => ys = lists head ∧ Filed headAt m'
        (Function.update (Function.update lists head ((lists head).filter fun y => !moves y)) other
          (lists other ++ (lists head).filter moves))) := by
  let left (acc rest : List ν) : η → List ν :=
    Function.update (Function.update lists head ((acc.filter fun y => !moves y) ++ rest)) other
      (lists other ++ acc.filter moves)
  have hleft : ∀ acc rest, left acc rest head = (acc.filter fun y => !moves y) ++ rest := by
    intro acc rest
    simp [left, Function.update_of_ne hne]
  refine (meets_listForEachEntrySafe (I := fun rest acc m' => lists head = acc ++ rest ∧
    Filed headAt m' (left acc rest)) ?_ ?_ ⟨rfl, ?_⟩ hf (h.listed head).next_head).mono ?_
  · rintro y rest acc m' ⟨-, hm'⟩
    have hlisted := hm'.listed head
    rw [hleft] at hlisted
    refine ⟨hlisted.next_of_suffix rfl, fun he => (List.nodup_cons.mp hlisted.nodup).1 ?_⟩
    simp [he]
  · rintro y rest acc m' ⟨hsplit, hm'⟩
    have hy : y ∈ left acc (y :: rest) head := by simp [hleft]
    have hsplit' : lists head = (acc ++ [y]) ++ rest := by simpa using hsplit
    cases hmoves : moves y with
    | false =>
      have hsame : left (acc ++ [y]) rest = left acc (y :: rest) := by
        simp [left, List.filter_append, hmoves]
      simp only [Bool.false_eq_true, if_false, meets_pure]
      exact ⟨hsplit', hsame ▸ hm'⟩
    | true =>
      have hgone : (ListOp.moveTail y other).apply (left acc (y :: rest)) =
          left (acc ++ [y]) rest := by
        have hnd : (left acc (y :: rest) head).Nodup :=
          (List.nodup_cons.mp (hm'.listed head).nodup).2
        rw [hleft] at hnd
        have hnot : y ∉ acc.filter fun y => !moves y := fun hm =>
          (List.nodup_append.mp hnd).2.2 y hm y List.mem_cons_self rfl
        rw [ListOp.apply, hm'.erase_eq hy, hleft, List.erase_append_right _ hnot,
          List.erase_cons_head]
        have hother : (left acc (y :: rest) other).erase y = left acc (y :: rest) other :=
          List.erase_of_not_mem fun hm =>
            hm'.not_mem_other hy hne.symm (List.mem_cons_of_mem _ hm)
        rw [hother]
        simp only [left, Function.update_comm hne, Function.update_idem]
        simp [Function.update_of_ne hne.symm, List.filter_append, hmoves]
      have hfits : (ListOp.moveTail y other).Fits headAt (left acc (y :: rest)) := ⟨head, hy⟩
      simp only [if_true, meets_bind, meets_pure]
      rw [← hgone]
      exact (hm'.step hfits).mono fun _ m'' h' => ⟨hsplit', h'⟩
  · have hstart : left [] (lists head) = lists := by
      simp [left]
    rwa [hstart]
  · rintro acc m' ⟨hsplit, hm'⟩
    rw [List.append_nil] at hsplit
    subst hsplit
    refine ⟨rfl, ?_⟩
    simpa [left] using hm'

end Files

theorem oddEntries_move : ∃ m : Mem Nat, Meets Never (listForEachEntrySafe 3 0 (fun acc y => do
      if y.testBit 0 then
        listMoveTail y 1
      pure (acc ++ [y])) []) m (fun ys m' => ys = [5, 6, 7] ∧
        Meets Never (listForEachEntrySafe 2 1 (fun acc y => pure (acc ++ [y])) []) m'
          (fun ys _ => ys = [5, 7])) := by
  have hfits : AllFit ListOp.apply (ListOp.Fits twoHeads) (fun _ => [])
      [.addTail 5 false, .addTail 6 false, .addTail 7 false] := by
    simp [AllFit, ListOp.Fits, ListOp.apply, twoHeads]
  have hempty : Filed twoHeads selfLinked fun _ => [] :=
    ⟨fun _ => .nil rfl rfl, fun h k x hx hk => twoHeads_injective
      ((List.mem_singleton.mp hx).symm.trans (List.mem_singleton.mp hk))⟩
  obtain ⟨-, m, -, hm⟩ := (hempty.run hfits).returns
  have hne : false ≠ true := by decide
  refine ⟨m, (listForEachEntrySafe_moves hm hne (fun y => y.testBit 0) (Nat.le_refl 3)).mono ?_⟩
  intro ys m' h'
  refine ⟨h'.1, (listEntries_spec (h'.2.listed true) (Nat.le_refl 2)).mono fun zs _ hzs => hzs.2⟩

end PowerArbiter.Lists
