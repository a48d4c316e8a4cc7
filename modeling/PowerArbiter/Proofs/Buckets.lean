import PowerArbiter.Uthash
import PowerArbiter.Memory.Ring

namespace PowerArbiter.Uthash
open Memory

variable {α K : Type} {E : Ending → Prop}

section Accesses

variable {m : Mem α} {x : α} {a i : Nat}

@[simp] theorem meets_hhOf {Q : UTHashHandle α → Mem α → Prop} :
    Meets E (hhOf x) m Q ↔ Q (m.hh x) m := by
  simp [hhOf]

@[simp] theorem meets_setHead {p : Option α} {Q : Unit → Mem α → Prop} :
    Meets E (setHead p) m Q ↔ Q () (m.setHead p) := by
  simp [setHead]

@[simp] theorem meets_setHh [DecidableEq α] {f : UTHashHandle α → UTHashHandle α}
    {Q : Unit → Mem α → Prop} : Meets E (setHh x f) m Q ↔ Q () (m.setHh x f) := by
  simp [setHh]

@[simp] theorem meets_tableAt {Q : UTHashTable α → Mem α → Prop} :
    Meets E (tableAt a) m Q ↔ (m.tables a).elim (E .faulted) (fun t => Q t m) := by
  simp [tableAt]

@[simp] theorem meets_setTable {f : UTHashTable α → UTHashTable α} {Q : Unit → Mem α → Prop} :
    Meets E (setTable a f) m Q ↔
      (m.tables a).elim (E .faulted) (fun t => Q () (m.setTable a (some (f t)))) := by
  simp [setTable]

@[simp] theorem meets_freeTable {Q : Unit → Mem α → Prop} :
    Meets E (freeTable a) m Q ↔
      (m.tables a).elim (E .faulted) (fun _ => Q () (m.setTable a none)) := by
  simp [freeTable]

@[simp] theorem meets_arrayAt {Q : Buckets α → Mem α → Prop} :
    Meets E (arrayAt a) m Q ↔ (m.arrays a).elim (E .faulted) (fun b => Q b m) := by
  simp [arrayAt]

@[simp] theorem meets_freeArray {Q : Unit → Mem α → Prop} :
    Meets E (freeArray a) m Q ↔
      (m.arrays a).elim (E .faulted) (fun _ => Q () (m.setArray a none)) := by
  simp [freeArray]

@[simp] theorem meets_bucketAt {Q : UTHashBucket α → Mem α → Prop} :
    Meets E (bucketAt a i) m Q ↔ (m.arrays a).elim (E .faulted)
      (fun b => if i < b.size then Q (b.cell i) m else E .faulted) := by
  simp [bucketAt]

@[simp] theorem meets_setBucket {f : UTHashBucket α → UTHashBucket α} {Q : Unit → Mem α → Prop} :
    Meets E (setBucket a i f) m Q ↔ (m.arrays a).elim (E .faulted) (fun b =>
      if i < b.size then Q () (m.setArray a (some (b.set i (f (b.cell i))))) else E .faulted) := by
  simp [setBucket]

@[simp] theorem meets_headTable {Q : Nat → Mem α → Prop} :
    Meets E headTable m Q ↔ m.head.elim (E .faulted)
      (fun x => (m.hh x).tbl.elim (E .faulted) (fun a => Q a m)) := by
  simp [headTable]

end Accesses

section Updates

variable (m : Mem α) (x : α) (a i : Nat) (f : UTHashHandle α → UTHashHandle α)
  (p : Option α) (t : Option (UTHashTable α)) (b : Option (Buckets α))

@[simp] theorem setTable_fields : (m.setTable a t).head = m.head ∧ (m.setTable a t).hh = m.hh ∧
    (m.setTable a t).tables = Function.update m.tables a t ∧
    (m.setTable a t).arrays = m.arrays ∧ (m.setTable a t).mallocs = m.mallocs :=
  ⟨rfl, rfl, rfl, rfl, rfl⟩

@[simp] theorem setArray_fields : (m.setArray a b).head = m.head ∧ (m.setArray a b).hh = m.hh ∧
    (m.setArray a b).tables = m.tables ∧
    (m.setArray a b).arrays = Function.update m.arrays a b ∧
    (m.setArray a b).mallocs = m.mallocs := ⟨rfl, rfl, rfl, rfl, rfl⟩

@[simp] theorem setHead_fields : (m.setHead p).head = p ∧ (m.setHead p).hh = m.hh ∧
    (m.setHead p).tables = m.tables ∧ (m.setHead p).arrays = m.arrays ∧
    (m.setHead p).mallocs = m.mallocs := ⟨rfl, rfl, rfl, rfl, rfl⟩

@[simp] theorem countMalloc_fields : m.countMalloc.head = m.head ∧ m.countMalloc.hh = m.hh ∧
    m.countMalloc.tables = m.tables ∧ m.countMalloc.arrays = m.arrays ∧
    m.countMalloc.mallocs = m.mallocs + 1 := ⟨rfl, rfl, rfl, rfl, rfl⟩

@[simp] theorem setArray_setArray {c : Option (Buckets α)} :
    (m.setArray a b).setArray a c = m.setArray a c := by
  simp [Mem.setArray]

@[simp] theorem setTable_setTable {u : Option (UTHashTable α)} :
    (m.setTable a t).setTable a u = m.setTable a u := by
  simp [Mem.setTable]

@[simp] theorem setArray_setTable :
    (m.setArray a b).setTable i t = (m.setTable i t).setArray a b := rfl

variable [DecidableEq α]

@[simp] theorem setHh_fields : (m.setHh x f).head = m.head ∧
    (m.setHh x f).hh = Function.update m.hh x (f (m.hh x)) ∧ (m.setHh x f).tables = m.tables ∧
    (m.setHh x f).arrays = m.arrays ∧ (m.setHh x f).mallocs = m.mallocs :=
  ⟨rfl, rfl, rfl, rfl, rfl⟩

@[simp] theorem setArray_setHh : (m.setArray a b).setHh x f = (m.setHh x f).setArray a b := rfl
@[simp] theorem setTable_setHh : (m.setTable a t).setHh x f = (m.setHh x f).setTable a t := rfl

end Updates

variable [DecidableEq α]

/-- The links of a chain, as seen from its bucket. -/
def bktLinks (hh : α → UTHashHandle α) (first : Option α) : Links (Option α) where
  next p := p.elim first (fun x => (hh x).hhNext)
  prev p := p.elim none (fun x => (hh x).hhPrev)

/-- The chain of a bucket consists of `xs`, which the bucket has counted. -/
structure Chain (hh : α → UTHashHandle α) (b : UTHashBucket α) (xs : List α) : Prop where
  links : Stack (bktLinks hh b.hhHead) none (xs.map some)
  count : b.count = .ofNat xs.length

/-- A walk along `hh_next` that ends. -/
def Path (hh : α → UTHashHandle α) : Option α → List α → Prop
  | p, [] => p = none
  | p, x :: xs => p = some x ∧ Path hh (hh x).hhNext xs

variable {hh hh' : α → UTHashHandle α} {b b' : UTHashBucket α} {xs : List α} {x : α}

theorem Chain.nodup (h : Chain hh b xs) : xs.Nodup :=
  List.Nodup.of_map some (List.nodup_cons.mp h.links.nodup).2

omit [DecidableEq α] in
theorem Path.of_map {p : Option α}
    (h : p :: xs.map (fun x => (hh x).hhNext) = xs.map some ++ [none]) : Path hh p xs := by
  induction xs generalizing p with
  | nil => simpa [Path] using h
  | cons x xs ih =>
    simp only [List.map_cons, List.cons_append, List.cons.injEq] at h
    exact ⟨h.1, ih h.2⟩

theorem Chain.path (h : Chain hh b xs) : Path hh b.hhHead xs := by
  apply Path.of_map
  have := h.links.next
  simpa [bktLinks, Function.comp_def] using this

theorem Chain.first_mem (h : Chain hh b xs) (hx : b.hhHead = some x) : x ∈ xs := by
  have hp := h.path
  cases xs with
  | nil => simp [Path, hx] at hp
  | cons y ys =>
    simp only [Path, hx, Option.some.injEq] at hp
    simp [hp.1]

theorem Chain.congr (h : Chain hh b xs) (hfirst : b'.hhHead = b.hhHead)
    (hcount : b'.count = b.count)
    (hxs : ∀ y ∈ xs, (hh' y).hhNext = (hh y).hhNext ∧ (hh' y).hhPrev = (hh y).hhPrev) :
    Chain hh' b' xs := by
  refine ⟨h.links.congr ?_ ?_, hcount.trans h.count⟩
  · intro p hp
    cases p with
    | none => exact hfirst
    | some y => exact (hxs y (by simpa using hp)).1
  · intro p hp
    obtain ⟨y, hy, rfl⟩ := List.mem_map.mp hp
    exact (hxs y hy).2

/-- The handles after one of them has become the first of its chain. -/
def linked (hh : α → UTHashHandle α) (first : Option α) (x y : α) : UTHashHandle α :=
  { hh y with
    hhNext := if y = x then first else (hh y).hhNext
    hhPrev := if first = some y then some x else if y = x then none else (hh y).hhPrev }

theorem Chain.push (h : Chain hh b xs) (hx : x ∉ xs) (e : UInt32) :
    Chain (linked hh b.hhHead x) ⟨some x, b.count + 1, e⟩ (x :: xs) := by
  have hfirst : b.hhHead ≠ some x := fun he => hx (h.first_mem he)
  refine ⟨(h.links.push (x := some x) (by simpa using hx)).congr ?_ ?_, ?_⟩
  · intro p _
    cases p with
    | none => simp [bktLinks, Links.join]
    | some y => by_cases hy : y = x <;> simp [bktLinks, Links.join, linked, hy]
  · intro p hp
    obtain ⟨y, -, rfl⟩ := List.mem_map.mp (show p ∈ (x :: xs).map some from hp)
    by_cases hy : y = x
    · simp [bktLinks, Links.join, linked, hy, hfirst]
    · simp [bktLinks, Links.join, linked, hy, Function.update_apply, eq_comm (a := b.hhHead)]
  · simp [h.count]

/-- The handles after one of them has been taken out of its chain. -/
def unlinked (hh : α → UTHashHandle α) (x y : α) : UTHashHandle α :=
  { hh y with
    hhNext := if (hh x).hhPrev = some y then (hh x).hhNext else (hh y).hhNext
    hhPrev := if (hh x).hhNext = some y then (hh x).hhPrev else (hh y).hhPrev }

theorem Chain.unlink (h : Chain hh b xs) (hx : x ∈ xs) (e : UInt32) :
    Chain (unlinked hh x)
      ⟨if b.hhHead = some x then (hh x).hhNext else b.hhHead, b.count - 1, e⟩
      (xs.erase x) := by
  obtain ⟨as, bs, -, rfl, he⟩ := List.exists_erase_eq hx
  rw [he]
  have hl := h.links
  rw [List.map_append, List.map_cons] at hl
  refine ⟨?_, ?_⟩
  · rw [List.map_append]
    refine hl.unlink.congr ?_ ?_
    · intro p hp
      cases p with
      | none =>
        have hroot := hl.prev_eq_root (x := some x) (by simp)
        simp only [bktLinks, Option.elim_some, Option.elim_none] at hroot
        simp [bktLinks, Links.join, Function.update_apply, eq_comm (a := none), hroot]
      | some y => simp [bktLinks, Links.join, unlinked, Function.update_apply, eq_comm]
    · intro p hp
      rw [← List.map_append] at hp
      obtain ⟨y, -, rfl⟩ := List.mem_map.mp hp
      simp [bktLinks, Links.join, unlinked, Function.update_apply, eq_comm]
  · have hlen : (as ++ x :: bs).length = (as ++ bs).length + 1 := by simp; omega
    simp only [h.count, hlen, UInt32.ofNat_add, UInt32.reduceOfNat, UInt32.add_sub_cancel]

/-- The neighbours of a member are members. -/
theorem Chain.neighbours (h : Chain hh b xs) (hx : x ∈ xs) {y : α}
    (hy : (hh x).hhNext = some y ∨ (hh x).hhPrev = some y) : y ∈ xs := by
  obtain ⟨v, hr⟩ := h.links
  have hx' : some x ∈ none :: xs.map some := by simp [hx]
  rcases hy with hy | hy
  · have := hr.next_mem hx'
    simpa [bktLinks, hy] using this
  · have := hr.prev_mem hx'
    simpa [bktLinks, hy] using this

/-- The chains of a block hold just the elements with the property `S`, each of them in
the bucket of its index. -/
structure Chained (hh : α → UTHashHandle α) (b : Buckets α) (index : α → Nat) (S : α → Prop) :
    Prop where
  chain : ∀ i < b.size, ∃ xs, Chain hh (b.cell i) xs ∧ ∀ x, x ∈ xs ↔ S x ∧ index x = i
  range : ∀ x, S x → index x < b.size

section Blocks

variable {b : Buckets α} {index : α → Nat} {S S' : α → Prop}

omit [DecidableEq α] in
@[simp] theorem set_size {i : Nat} {c : UTHashBucket α} : (b.set i c).size = b.size := rfl

omit [DecidableEq α] in
@[simp] theorem set_cell {i j : Nat} {c : UTHashBucket α} :
    (b.set i c).cell j = if j = i then c else b.cell j := by
  simp [Buckets.set, Function.update_apply]

omit [DecidableEq α] in
@[simp] theorem set_set {i : Nat} {c d : UTHashBucket α} : (b.set i c).set i d = b.set i d := by
  simp [Buckets.set]

theorem Chained.congr {index' : α → Nat} (h : Chained hh b index S) (hS : ∀ x, S' x ↔ S x)
    (hindex : ∀ x, S x → index' x = index x)
    (hhh : ∀ x, S x → (hh' x).hhNext = (hh x).hhNext ∧ (hh' x).hhPrev = (hh x).hhPrev) :
    Chained hh' b index' S' := by
  refine ⟨fun i hi => ?_, fun x hx => ?_⟩
  · obtain ⟨xs, hc, hm⟩ := h.chain i hi
    refine ⟨xs, hc.congr rfl rfl (fun y hy => hhh y ((hm y).mp hy).1), fun x => ?_⟩
    rw [hm, hS]
    exact and_congr_right fun hx => by rw [hindex x hx]
  · have hx := (hS x).mp hx
    rw [hindex x hx]
    exact h.range x hx

/-- Nothing is in a new block. -/
theorem Chained.fresh {n : Nat} : Chained hh ⟨n, fun _ => ⟨none, 0, 0⟩⟩ index (fun _ => False) :=
  ⟨fun _ _ => ⟨[], ⟨.nil rfl, rfl⟩, by simp⟩, fun _ hx => hx.elim⟩

/-- An element becomes the first of its bucket. -/
theorem Chained.push (h : Chained hh b index S) (hx : ¬S x) (hi : index x < b.size) (e : UInt32) :
    Chained (linked hh (b.cell (index x)).hhHead x)
      (b.set (index x) ⟨some x, (b.cell (index x)).count + 1, e⟩) index (fun y => y = x ∨ S y) := by
  obtain ⟨xs, hc, hm⟩ := h.chain _ hi
  have hnot : x ∉ xs := fun hmem => hx ((hm x).mp hmem).1
  refine ⟨fun j hj => ?_, ?_⟩
  · by_cases hji : j = index x
    · subst hji
      refine ⟨x :: xs, ?_, fun y => ?_⟩
      · simpa using hc.push hnot e
      · by_cases hy : y = x <;> simp [hy, hm]
    · obtain ⟨ys, hd, hn⟩ := h.chain j hj
      refine ⟨ys, ?_, fun y => ?_⟩
      · simp only [set_cell, hji, if_false]
        refine hd.congr rfl rfl fun y hy => ?_
        obtain ⟨hyS, hyj⟩ := (hn y).mp hy
        have hyx : y ≠ x := fun he => hx (he ▸ hyS)
        have hfirst : (b.cell (index x)).hhHead ≠ some y :=
          fun he => hji (hyj.symm.trans ((hm y).mp (hc.first_mem he)).2)
        simp [linked, hyx, hfirst]
      · rw [hn]
        constructor
        · exact fun hy => ⟨.inr hy.1, hy.2⟩
        · rintro ⟨rfl | hyS, hyj⟩
          · exact absurd hyj.symm hji
          · exact ⟨hyS, hyj⟩
  · rintro y (rfl | hy)
    · exact hi
    · exact h.range y hy

/-- An element leaves its bucket. -/
theorem Chained.unlink (h : Chained hh b index S) (hx : S x) (e : UInt32) :
    Chained (unlinked hh x) (b.set (index x)
      ⟨if (b.cell (index x)).hhHead = some x then (hh x).hhNext else (b.cell (index x)).hhHead,
        (b.cell (index x)).count - 1, e⟩) index (fun y => S y ∧ y ≠ x) := by
  obtain ⟨xs, hc, hm⟩ := h.chain _ (h.range x hx)
  have hmem : x ∈ xs := (hm x).mpr ⟨hx, rfl⟩
  refine ⟨fun j hj => ?_, fun y hy => h.range y hy.1⟩
  by_cases hji : j = index x
  · subst hji
    refine ⟨xs.erase x, ?_, fun y => ?_⟩
    · simpa using hc.unlink hmem e
    · rw [hc.nodup.mem_erase_iff, hm]
      tauto
  · obtain ⟨ys, hd, hn⟩ := h.chain j hj
    refine ⟨ys, ?_, fun y => ?_⟩
    · simp only [set_cell, hji, if_false]
      refine hd.congr rfl rfl fun y hy => ?_
      have hapart : y ∉ xs := fun hy' => hji (((hn y).mp hy).2.symm.trans ((hm y).mp hy').2)
      have hnext : (hh x).hhNext ≠ some y := fun he => hapart (hc.neighbours hmem (.inl he))
      have hprev : (hh x).hhPrev ≠ some y := fun he => hapart (hc.neighbours hmem (.inr he))
      simp [unlinked, hnext, hprev]
    · rw [hn]
      constructor
      · rintro ⟨hyS, hyj⟩
        refine ⟨⟨hyS, fun he => ?_⟩, hyj⟩
        subst he
        exact hji hyj.symm
      · exact fun hy => ⟨hy.1.1, hy.2⟩

end Blocks

/-- The memory with other handles. -/
def Mem.withHh (m : Mem α) (hh : α → UTHashHandle α) : Mem α := { m with hh := hh }

section Handles

variable (m : Mem α) (hh : α → UTHashHandle α) (a : Nat)

omit [DecidableEq α] in
@[simp] theorem withHh_fields : (m.withHh hh).head = m.head ∧ (m.withHh hh).hh = hh ∧
    (m.withHh hh).tables = m.tables ∧ (m.withHh hh).arrays = m.arrays ∧
    (m.withHh hh).mallocs = m.mallocs := ⟨rfl, rfl, rfl, rfl, rfl⟩

omit [DecidableEq α] in
@[simp] theorem setArray_withHh (b : Option (Buckets α)) :
    (m.setArray a b).withHh hh = (m.withHh hh).setArray a b := rfl

omit [DecidableEq α] in
@[simp] theorem setTable_withHh (t : Option (UTHashTable α)) :
    (m.setTable a t).withHh hh = (m.withHh hh).setTable a t := rfl

end Handles

section Code

variable {m : Mem α} {b : Buckets α} {a i : Nat} {Q : Unit → Mem α → Prop}

theorem meets_linkFirst (h : m.arrays a = some b) (hi : i < b.size)
    (hx : (b.cell i).hhHead ≠ some x) :
    Meets E (linkFirst a i x) m Q ↔ Q () ((m.withHh (linked m.hh (b.cell i).hhHead x)).setArray a
      (some (b.set i { b.cell i with hhHead := some x }))) := by
  cases hfirst : (b.cell i).hhHead with
  | none =>
    have hlink : m.setHh x ({ · with hhNext := none, hhPrev := none }) =
        m.withHh (linked m.hh none x) := by
      refine congrArg m.withHh (funext fun y => ?_)
      by_cases hy : y = x <;> simp [linked, hy]
    simp [linkFirst, h, hi, hfirst, ← hlink]
  | some f =>
    have hxf : x ≠ f := by
      intro he
      rw [he] at hx
      exact hx hfirst
    have hlink : (m.setHh x ({ · with hhNext := some f, hhPrev := none })).setHh f
        ({ · with hhPrev := some x }) = m.withHh (linked m.hh (some f) x) := by
      refine congrArg m.withHh (funext fun y => ?_)
      by_cases hy : y = x
      · simp [linked, hy, hxf, Ne.symm hxf]
      · by_cases hf : y = f <;> simp [linked, hy, hf, Ne.symm hxf, eq_comm (a := f)]
    simp [linkFirst, h, hi, hfirst, ← hlink]

theorem meets_hashDelInBkt (h : m.arrays a = some b) (hi : i < b.size)
    (hx : (m.hh x).hhPrev ≠ some x) :
    Meets E (hashDelInBkt a i x) m Q ↔ Q () ((m.withHh (unlinked m.hh x)).setArray a
      (some (b.set i
        ⟨if (b.cell i).hhHead = some x then (m.hh x).hhNext else (b.cell i).hhHead,
          (b.cell i).count - 1, (b.cell i).expandMult⟩))) := by
  cases hprev : (m.hh x).hhPrev with
  | none =>
    cases hnext : (m.hh x).hhNext with
    | none =>
      have hlink : m = m.withHh (unlinked m.hh x) := by
        refine congrArg m.withHh (funext fun y => ?_)
        simp [unlinked, hprev, hnext]
      by_cases hfirst : (b.cell i).hhHead = some x <;>
        simp [hashDelInBkt, h, hi, hfirst, hprev, hnext, ← hlink]
    | some n =>
      have hlink : m.setHh n ({ · with hhPrev := none }) = m.withHh (unlinked m.hh x) := by
        refine congrArg m.withHh (funext fun y => ?_)
        by_cases hn : y = n <;> simp [unlinked, hprev, hnext, hn, eq_comm (a := n)]
      by_cases hfirst : (b.cell i).hhHead = some x <;>
        simp [hashDelInBkt, h, hi, hfirst, hprev, hnext, ← hlink]
  | some p =>
    have hxp : x ≠ p := by
      intro he
      rw [← he] at hprev
      exact hx hprev
    cases hnext : (m.hh x).hhNext with
    | none =>
      have hlink : m.setHh p ({ · with hhNext := none }) = m.withHh (unlinked m.hh x) := by
        refine congrArg m.withHh (funext fun y => ?_)
        by_cases hp : y = p <;> simp [unlinked, hprev, hnext, hp, eq_comm (a := p)]
      by_cases hfirst : (b.cell i).hhHead = some x <;>
        simp [hashDelInBkt, h, hi, hfirst, hprev, hnext, hxp, ← hlink]
    | some n =>
      have hlink : (m.setHh p ({ · with hhNext := some n })).setHh n
          ({ · with hhPrev := some p }) = m.withHh (unlinked m.hh x) := by
        refine congrArg m.withHh (funext fun y => ?_)
        by_cases hpn : p = n
        · subst hpn
          by_cases hp : y = p <;> simp [unlinked, hprev, hnext, hp, @eq_comm _ p y]
        · by_cases hn : y = n
          · simp [unlinked, hprev, hnext, hn, hpn, Ne.symm hpn]
          · by_cases hp : y = p <;>
              simp [unlinked, hprev, hnext, hp, hn, hpn, @eq_comm _ p y, @eq_comm _ n y,
                Ne.symm hpn]
      by_cases hfirst : (b.cell i).hhHead = some x <;>
        simp [hashDelInBkt, h, hi, hfirst, hprev, hnext, hxp, ← hlink]

omit [DecidableEq α] in
/-- The walk through a bucket finds the first element with the key. -/
theorem meets_hashFindInBkt [DecidableEq K] (env : Setting α K) {key : K} {fuel : Nat}
    {p : Option α} (h : Path m.hh p xs) (hf : xs.length ≤ fuel)
    (hk : ∀ x ∈ xs, (m.hh x).keylen = env.keylen ∧ (m.hh x).key = some x) :
    Meets Never (hashFindInBkt env key fuel p) m
      (fun r m' => m' = m ∧ r = xs.find? (fun x => env.keyAt x = key)) := by
  induction xs generalizing p fuel with
  | nil =>
    have hp : p = none := h
    subst hp
    cases fuel <;> simp [hashFindInBkt]
  | cons x xs ih =>
    obtain ⟨rfl, hrest⟩ := h
    obtain ⟨hlen, hkey⟩ := hk x List.mem_cons_self
    cases fuel with
    | zero => simp at hf
    | succ fuel =>
      have hnext := ih hrest (by simpa using hf) (fun y hy => hk y (List.mem_cons_of_mem _ hy))
      by_cases hx : env.keyAt x = key
      · simp [hashFindInBkt, hlen, hkey, hx]
      · simpa [hashFindInBkt, hlen, hkey, hx] using hnext

end Code

end PowerArbiter.Uthash
