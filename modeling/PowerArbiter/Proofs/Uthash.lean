import PowerArbiter.Proofs.Expansion

namespace PowerArbiter.Uthash
open Memory

variable {α K : Type} [DecidableEq α] {E : Ending → Prop}

/-- The order of the application: `head` and `tail` stand for the links of null. -/
def appLinks (m : Mem α) (tail : Option α) : Links (Option α) where
  next p := p.elim m.head (fun x => (m.hh x).next)
  prev p := p.elim tail (fun x => (m.hh x).prev)

/-- What the handle of an element says about it and its table. -/
structure Entered (env : Setting α K) (a : Nat) (hh : α → UTHashHandle α) (x : α) : Prop where
  tbl : (hh x).tbl = some a
  key : (hh x).key = some x
  keylen : (hh x).keylen = env.keylen
  hashv : (hh x).hashv = env.hashFcn (env.keyAt x)

/-- The memory holds a hash of the elements `xs`, in the order in which they came. A
hash without elements takes no memory. -/
inductive Rep (env : Setting α K) (m : Mem α) : List α → Prop where
  | empty (head : m.head = none) (tables : m.tables = fun _ => none)
      (arrays : m.arrays = fun _ => none) : Rep env m []
  | filled {xs : List α} {a : Nat} {t : UTHashTable α} (nonempty : xs ≠ [])
      (filled : Filled m a t (· ∈ xs)) (entered : ∀ x ∈ xs, Entered env a m.hh x)
      (order : Ring (appLinks m t.tail) none (xs.map some))
      (items : t.numItems = .ofNat xs.length) :
      Rep env m xs

variable {env : Setting α K} {m : Mem α} {xs : List α} {x : α}

omit [DecidableEq α] in
/-- A hash with elements leads to them. -/
theorem head_mem {tail : Option α} (hne : xs ≠ [])
    (ho : Ring (appLinks m tail) none (xs.map some)) : ∃ y ∈ xs, m.head = some y := by
  have := ho.first
  cases xs with
  | nil => exact absurd rfl hne
  | cons y ys => exact ⟨y, List.mem_cons_self, by simpa [appLinks] using this⟩

omit [DecidableEq α] in
theorem Entered.relinked {a : Nat} {hh hh' : α → UTHashHandle α} (h : Entered env a hh x)
    (hl : Relinked hh hh') : Entered env a hh' x := by
  refine ⟨?_, ?_, ?_, ?_⟩ <;> rw [hl x]
  · exact h.tbl
  · exact h.key
  · exact h.keylen
  · exact h.hashv

omit [DecidableEq α] in
/-- The application order does not depend on the buckets. -/
theorem order_relinked {m' : Mem α} {tail : Option α}
    (h : Ring (appLinks m tail) none (xs.map some)) (hhead : m'.head = m.head)
    (hl : Relinked m.hh m'.hh) : Ring (appLinks m' tail) none (xs.map some) := by
  refine h.congr (fun p _ => ?_) (fun p _ => ?_)
  · cases p with
    | none => exact hhead
    | some y =>
      simp only [appLinks, Option.elim_some]
      rw [hl y]
  · cases p with
    | none => rfl
    | some y =>
      simp only [appLinks, Option.elim_some]
      rw [hl y]

theorem Rep.nodup (h : Rep env m xs) : xs.Nodup := by
  cases h with
  | empty head tables arrays => exact List.nodup_nil
  | filled nonempty filled entered order items => exact List.Nodup.of_map some order.members_nodup

/-- Only the keys of the elements matter. -/
theorem Rep.rekey (h : Rep env m xs) {env' : Setting α K} (hlen : env'.keylen = env.keylen)
    (hfcn : env'.hashFcn = env.hashFcn) (hkey : ∀ x ∈ xs, env'.keyAt x = env.keyAt x) :
    Rep env' m xs := by
  cases h with
  | empty head tables arrays => exact .empty head tables arrays
  | filled nonempty filled entered order items =>
    refine .filled nonempty filled (fun x hx => ?_) order items
    have hx' := entered x hx
    exact ⟨hx'.tbl, hx'.key, hx'.keylen.trans hlen.symm, by rw [hfcn, hkey x hx, hx'.hashv]⟩

section Find

variable [DecidableEq K]

/-- A search gives an element with the key, if there is one. -/
theorem Rep.find (h : Rep env m xs) {key : K} {fuel : Nat} (hf : xs.length ≤ fuel) :
    Meets Never (hashFind env fuel key) m (fun r m' => m' = m ∧
      (∀ x, r = some x → x ∈ xs ∧ env.keyAt x = key) ∧
      (r = none → ∀ x ∈ xs, env.keyAt x ≠ key)) := by
  cases h with
  | empty head tables arrays => simp [hashFind, head]
  | @filled _ a t nonempty filled entered order items =>
    obtain ⟨y, hy, hhead⟩ := head_mem nonempty order
    obtain ⟨c, b, hb, -, harrays, hsize, hchained⟩ := filled.arrays
    have hi : hashToBkt (env.hashFcn key) t.numBuckets < b.size :=
      hsize ▸ hashToBkt_lt filled.doubled.ne_zero
    obtain ⟨ys, hys, hm⟩ := hchained.chain _ hi
    have hlen : ys.length ≤ xs.length :=
      List.Nodup.length_le_of_subset hys.nodup fun z hz => ((hm z).mp hz).1
    simp only [hashFind, meets_bind, meets_get, hhead, meets_headTable, Option.elim_some,
      (entered y hy).tbl, meets_tableAt, filled.tables, Function.update_self, meets_deref, hb,
      meets_bucketAt, harrays, hi, if_true]
    refine (meets_hashFindInBkt env hys.path (by omega) fun z hz => ?_).mono fun r m' hr => ?_
    · have := entered z ((hm z).mp hz).1
      exact ⟨this.keylen, this.key⟩
    · obtain ⟨rfl, rfl⟩ := hr
      refine ⟨rfl, fun z hz => ?_, fun hnone z hz hkey => ?_⟩
      · have hmem := (hm z).mp (List.mem_of_find?_eq_some hz)
        exact ⟨hmem.1, by simpa using List.find?_some hz⟩
      · have hzi : hashToBkt (m'.hh z).hashv t.numBuckets =
            hashToBkt (env.hashFcn key) t.numBuckets := by
          rw [(entered z hz).hashv, hkey]
        have := List.find?_eq_none.mp hnone z ((hm z).mpr ⟨hz, hzi⟩)
        simp [hkey] at this

end Find

theorem Rep.count (h : Rep env m xs) :
    Meets Never hashCount m (fun n m' => m' = m ∧ n = .ofNat xs.length) := by
  cases h with
  | empty head tables arrays => simp [hashCount, head]
  | @filled _ a t nonempty filled entered order items =>
    obtain ⟨y, hy, hhead⟩ := head_mem nonempty order
    simp [hashCount, hhead, (entered y hy).tbl, filled.tables, items]

/-- The memory after an element has been taken out of the application order. -/
def patched (m : Mem α) (a : Nat) (t : UTHashTable α) (x : α) : Mem α where
  head := if (m.hh x).prev = none then (m.hh x).next else m.head
  hh y := { m.hh y with
    next := if (m.hh x).prev = some y then (m.hh x).next else (m.hh y).next
    prev := if (m.hh x).next = some y then (m.hh x).prev else (m.hh y).prev }
  tables := Function.update m.tables a
    (some { t with tail := if t.tail = some x then (m.hh x).prev else t.tail })
  arrays := m.arrays
  mallocs := m.mallocs

theorem meets_patchTail {a : Nat} {t : UTHashTable α} (h : m.tables a = some t)
    (ht : t.tail = some x → (m.hh x).prev ≠ none) {Q : Unit → Mem α → Prop} :
    Meets E (patchTail a x) m Q ↔ Q () (m.setTable a
      (some { t with tail := if t.tail = some x then (m.hh x).prev else t.tail })) := by
  by_cases htail : t.tail = some x
  · obtain ⟨p, hp⟩ := Option.ne_none_iff_exists'.mp (ht htail)
    simp [patchTail, h, htail, hp]
  · have hsame : m.setTable a (some t) = m := by
      simp [Mem.setTable, ← h]
    simp [patchTail, h, htail, hsame]

theorem meets_patchUp {a : Nat} {t : UTHashTable α} (h : m.tables a = some t)
    (hx : (m.hh x).prev ≠ some x) (ht : t.tail = some x → (m.hh x).prev ≠ none)
    {Q : Unit → Mem α → Prop} : Meets E (patchUp a x) m Q ↔ Q () (patched m a t x) := by
  simp only [patchUp, meets_bind]
  rw [meets_patchTail h ht]
  cases hprev : (m.hh x).prev with
  | none =>
    cases hnext : (m.hh x).next with
    | none => simp [hprev, hnext, patched, Mem.setTable, Mem.setHead]
    | some n =>
      simp [hprev, hnext]
      refine iff_of_eq (congrArg (Q ()) (Mem.ext ?_ (funext fun y => ?_) ?_ ?_ ?_))
      · simp [patched, hprev, hnext]
      · by_cases hn : y = n <;> simp [patched, hprev, hnext, hn, @eq_comm _ n y]
      · simp [patched, hprev]
      · simp [patched]
      · simp [patched]
  | some p =>
    have hxp : x ≠ p := by
      intro he
      rw [← he] at hprev
      exact hx hprev
    cases hnext : (m.hh x).next with
    | none =>
      simp [hprev, hnext, hxp]
      refine iff_of_eq (congrArg (Q ()) (Mem.ext ?_ (funext fun y => ?_) ?_ ?_ ?_))
      · simp [patched, hprev]
      · by_cases hp : y = p <;> simp [patched, hprev, hnext, hp, @eq_comm _ p y]
      · simp [patched, hprev]
      · simp [patched]
      · simp [patched]
    | some n =>
      simp [hprev, hnext, hxp]
      refine iff_of_eq (congrArg (Q ()) (Mem.ext ?_ (funext fun y => ?_) ?_ ?_ ?_))
      · simp [patched, hprev]
      · by_cases hpn : p = n
        · subst hpn
          by_cases hp : y = p <;> simp [patched, hprev, hnext, hp, @eq_comm _ p y]
        · by_cases hn : y = n
          · simp [patched, hprev, hnext, hn, hpn, Ne.symm hpn]
          · by_cases hp : y = p <;>
              simp [patched, hprev, hnext, hp, hn, hpn, @eq_comm _ p y, @eq_comm _ n y,
                Ne.symm hpn]
      · simp [patched, hprev]
      · simp [patched]
      · simp [patched]

/-- The application order without the element. -/
theorem order_patched {a : Nat} {t : UTHashTable α} {as bs : List α}
    (h : Ring (appLinks m t.tail) none ((as ++ x :: bs).map some)) :
    Ring (appLinks (patched m a t x) (if t.tail = some x then (m.hh x).prev else t.tail)) none
      ((as ++ bs).map some) := by
  have hxm : some x ∈ none :: (as ++ x :: bs).map some := by simp
  have hends : t.tail = some x ↔ (m.hh x).next = none := by
    have hto := h.next_prev List.mem_cons_self
    have hfrom := h.prev_next hxm
    simp only [appLinks, Option.elim_none, Option.elim_some] at hto hfrom
    constructor
    · intro ht
      simpa [ht] using hto
    · intro hn
      simpa [hn] using hfrom
  rw [List.map_append, List.map_cons] at h
  rw [List.map_append]
  refine h.unlink.congr (fun p _ => ?_) (fun p _ => ?_)
  · cases p with
    | none => simp [appLinks, Links.join, patched, Function.update_apply, eq_comm]
    | some y => simp [appLinks, Links.join, patched, Function.update_apply, eq_comm]
  · cases p with
    | none => simp [appLinks, Links.join, hends, Function.update_apply, eq_comm]
    | some y => simp [appLinks, Links.join, patched, Function.update_apply, eq_comm]

/-- A deletion takes out the element and nothing else. -/
theorem Rep.delete (h : Rep env m xs) (hx : x ∈ xs) :
    Meets Never (hashDelete x) m (fun _ m' => Rep env m' (xs.erase x)) := by
  cases h with
  | empty head tables arrays => simp at hx
  | @filled _ a t nonempty filled entered order items =>
    obtain ⟨y, hy, hhead⟩ := head_mem nonempty order
    obtain ⟨c, b, hb, -, harrays, hsize, hchained⟩ := filled.arrays
    by_cases hone : (m.hh x).prev = none ∧ (m.hh x).next = none
    · have hsingle := order.single (x := some x) (by simpa using hx) hone.2 hone.1
      have hxs : xs = [x] := by
        simpa using hsingle
      simp [hashDelete, hone, hhead, (entered y hy).tbl, filled.tables, hb, harrays, hxs]
      exact .empty rfl (by simp [filled.tables]) (by simp [harrays])
    · obtain ⟨as, bs, -, hsplit, herase⟩ := List.exists_erase_eq hx
      have hnd : xs.Nodup := List.Nodup.of_map some order.members_nodup
      have hself : (m.hh x).prev ≠ some x := order.prev_ne (x := some x) (by simpa using hx)
      have hlast : t.tail = some x → (m.hh x).prev ≠ none := by
        intro ht hp
        have hto := order.next_prev List.mem_cons_self
        simp only [appLinks, Option.elim_none, ht, Option.elim_some] at hto
        exact hone ⟨hp, hto⟩
      have hpatched := order_patched (a := a) (hsplit ▸ order)
      rw [← herase] at hpatched
      have hrest : xs.erase x ≠ [] := by
        intro hnil
        rw [herase, List.append_eq_nil_iff] at hnil
        obtain ⟨rfl, rfl⟩ := hnil
        rw [hsplit] at order
        have hn := order.next
        have hp := order.prev
        simp only [appLinks, List.nil_append, List.map_cons, List.map_nil, List.cons_append,
          Option.elim_none, Option.elim_some, List.cons.injEq, and_true] at hn hp
        exact hone ⟨hp.1, hn.2⟩
      obtain ⟨z, hz, hzhead⟩ := head_mem hrest hpatched
      have hztbl : ((patched m a t x).hh z).tbl = some a :=
        (entered z (List.mem_of_mem_erase hz)).tbl
      have hfilled : Filled (patched m a t x) a
          { t with tail := if t.tail = some x then (m.hh x).prev else t.tail } (· ∈ xs) :=
        filled.congr (fun _ => Iff.rfl) (by simp [patched, filled.tables]) rfl rfl ⟨rfl, rfl, rfl⟩
          (fun _ _ => ⟨rfl, rfl, rfl⟩)
      simp only [hashDelete, meets_bind, meets_hhOf, meets_ite, if_neg hone, meets_headTable,
        hhead, Option.elim_some, (entered y hy).tbl]
      rw [meets_patchUp (t := t) (by simp [filled.tables]) hself hlast]
      simp only [meets_tableAt, hzhead, Option.elim_some, hztbl, hfilled.tables,
        Function.update_self, meets_deref, hb, meets_setTable]
      refine (hfilled.delInBkt hb hx hnd).mono fun _ m' hdel => ?_
      obtain ⟨hdel, hhead', hlinks⟩ := hdel
      simp only [hdel.tables, Function.update_self, Option.elim_some]
      refine .filled hrest (hdel.withTable _ ⟨rfl, rfl, rfl⟩) (fun w hw => ?_) ?_ ?_
      · have hw' := entered w (List.mem_of_mem_erase hw)
        have hp : Entered env a (patched m a t x).hh w :=
          ⟨hw'.tbl, hw'.key, hw'.keylen, hw'.hashv⟩
        exact hp.relinked hlinks
      · exact order_relinked hpatched hhead' hlinks
      · have hlen : xs.length = (xs.erase x).length + 1 := by
          rw [List.length_erase_of_mem hx]
          have := List.length_pos_of_mem hx
          omega
        simp only [items, hlen, UInt32.ofNat_add, UInt32.reduceOfNat, UInt32.add_sub_cancel]

/-- The last element of the order, which the buckets do not have yet. -/
structure Added (env : Setting α K) (xs : List α) (x : α) (m : Mem α) (a : Nat)
    (t : UTHashTable α) : Prop where
  filled : Filled m a t (· ∈ xs)
  entered : ∀ y ∈ xs, Entered env a m.hh y
  order : Ring (appLinks m t.tail) none ((xs ++ [x]).map some)
  items : t.numItems = .ofNat xs.length
  key : (m.hh x).key = some x ∧ (m.hh x).keylen = env.keylen
  first : ∃ y, m.head = some y ∧ (m.hh y).tbl = some a

omit [DecidableEq α] in
/-- So does the table lead to them. -/
theorem tail_mem {tail : Option α} (hne : xs ≠ [])
    (ho : Ring (appLinks m tail) none (xs.map some)) : ∃ z ∈ xs, tail = some z := by
  have hmem := ho.prev_mem List.mem_cons_self
  have hback := ho.next_prev List.mem_cons_self
  cases tail with
  | none =>
    obtain ⟨y, _, hhead⟩ := head_mem hne ho
    simp [appLinks, hhead] at hback
  | some z => exact ⟨z, by simpa [appLinks] using hmem, rfl⟩

/-- The first element finds a new table. -/
theorem Rep.addFirst (head : m.head = none) (tables : m.tables = fun _ => none)
    (arrays : m.arrays = fun _ => none) :
    Meets Exits (addLast env x) m (fun _ m' => ∃ a t, Added env [] x m' a t) := by
  have hblock : (HASH_INITIAL_NUM_BUCKETS * sizeofBucket).toNat / sizeofBucket.toNat = 32 := rfl
  simp only [addLast, hashMakeTable, mallocBuckets, meets_bind, meets_setHh, meets_get,
    setHh_fields, head, meets_setHead, meets_uthashMalloc, meets_pure, meets_modify,
    meets_setTable, countMalloc_fields, setHead_fields, setTable_fields, setArray_fields,
    Function.update_self, Option.elim_some, hblock]
  split
  · split
    · refine ⟨m.mallocs, ⟨some (m.mallocs + 1), HASH_INITIAL_NUM_BUCKETS,
        HASH_INITIAL_NUM_BUCKETS_LOG2, 0, some x, 0, 0, 0, 0⟩, ?_⟩
      refine ⟨⟨?_, ?_, ⟨rfl, ?_⟩, m.mallocs + 1, ⟨32, fun _ => ⟨none, 0, 0⟩⟩, rfl,
        ?_, ?_, rfl, ?_⟩, by simp, ?_, rfl, ?_, x, rfl, ?_⟩
      · simp [tables]
      · exact Nat.lt_succ_of_lt (Nat.lt_succ_self _)
      · exact show HASH_INITIAL_NUM_BUCKETS_LOG2 ≤ 27 by decide
      · exact Nat.lt_succ_self _
      · simp [arrays]
      · exact Chained.fresh.congr (by simp) (fun _ _ => rfl) (fun _ _ => ⟨rfl, rfl⟩)
      · exact ⟨by simp [appLinks], by simp [appLinks], by simp⟩
      · simp
      · simp
    · exact rfl
  · exact rfl

theorem Rep.addLast (h : Rep env m xs) (hx : x ∉ xs) :
    Meets Exits (addLast env x) m (fun _ m' => ∃ a t, Added env xs x m' a t) := by
  cases h with
  | empty head tables arrays => exact Rep.addFirst head tables arrays
  | @filled _ a t nonempty filled entered order items =>
    obtain ⟨y, hy, hhead⟩ := head_mem nonempty order
    obtain ⟨z, hz, hzt⟩ := tail_mem nonempty order
    have hzx : z ≠ x := fun he => hx (he ▸ hz)
    have hyx : y ≠ x := fun he => hx (he ▸ hy)
    have happend := order.append (x := some x) (by simpa using hx)
    rw [show xs.map some ++ [some x] = (xs ++ [x]).map some by simp] at happend
    simp only [Uthash.addLast, meets_bind, meets_setHh, meets_get, setHh_fields, hhead,
      meets_headTable, Option.elim_some, Function.update_of_ne hyx, (entered y hy).tbl,
      meets_tableAt, filled.tables, Function.update_self, meets_deref, hzt, meets_setTable]
    refine ⟨a, { t with tail := some x }, ?_, fun w hw => ?_, ?_, items, ?_, y, hhead, ?_⟩
    · refine filled.congr (fun _ => Iff.rfl) (by simp [filled.tables]) rfl rfl ⟨rfl, rfl, rfl⟩ ?_
      intro w hw
      have hwx : w ≠ x := fun he => hx (he ▸ hw)
      by_cases hwz : w = z <;> simp [hwx, hwz, hzx]
    · have hwx : w ≠ x := fun he => hx (he ▸ hw)
      have hw' := entered w hw
      rcases eq_or_ne w z with rfl | hwz
      · refine ⟨?_, ?_, ?_, ?_⟩ <;> simp [hwx, hw'.tbl, hw'.key, hw'.keylen, hw'.hashv]
      · refine ⟨?_, ?_, ?_, ?_⟩ <;> simp [hwx, hwz, hw'.tbl, hw'.key, hw'.keylen, hw'.hashv]
    · refine happend.congr (fun p _ => ?_) (fun p _ => ?_)
      · cases p with
        | none => simp [appLinks, Links.join, hzt]
        | some w =>
          rcases eq_or_ne w x with rfl | hwx
          · simp [appLinks, Links.join, hzt, Ne.symm hzx]
          · rcases eq_or_ne w z with rfl | hwz
            · simp [appLinks, Links.join, hwx, hzt]
            · simp [appLinks, Links.join, hwx, hwz, hzt]
      · cases p with
        | none => simp [appLinks, Links.join]
        | some w =>
          rcases eq_or_ne w x with rfl | hwx
          · simp [appLinks, Links.join, hzt]
          · rcases eq_or_ne w z with rfl | hwz
            · simp [appLinks, Links.join, hwx]
            · simp [appLinks, Links.join, hwx, hwz]
    · simp [Ne.symm hzx]
    · rcases eq_or_ne y z with rfl | hyz
      · simp [hyx, (entered y hy).tbl]
      · simp [hyx, hyz, (entered y hy).tbl]

/-- An addition appends the element, or there is not the memory for it. -/
theorem Rep.add (h : Rep env m xs) (hx : x ∉ xs) (hlen : xs.length + 1 < UInt32.size) {fuel : Nat}
    (hf : xs.length < fuel) :
    Meets Exits (hashAdd env fuel x) m (fun _ m' => Rep env m' (xs ++ [x])) := by
  simp only [hashAdd, meets_bind]
  refine (h.addLast hx).mono fun _ m' hadded => ?_
  obtain ⟨a, t, h'⟩ := hadded
  obtain ⟨y, hy, htbl⟩ := h'.first
  obtain ⟨c, b, hb, -⟩ := h'.filled.arrays
  have hitems : t.numItems + 1 = .ofNat (xs ++ [x]).length := by
    simp [h'.items]
  have hpos : t.numItems + 1 ≠ 0 := by
    rw [hitems]
    intro h0
    have := congrArg UInt32.toNat h0
    simp only [UInt32.toNat_ofNat', List.length_append, List.length_singleton,
      UInt32.toNat_zero] at this
    rw [Nat.mod_eq_of_lt hlen] at this
    omega
  simp only [meets_headTable, hy, htbl, Option.elim_some, meets_setTable, h'.filled.tables,
    Function.update_self, meets_setHh, meets_tableAt, setHh_fields, setTable_fields, meets_deref,
    hb]
  let t₁ : UTHashTable α := { t with buckets := some c, numItems := t.numItems + 1 }
  have hfilled : Filled (((m'.setTable a (some t₁)).setHh x ({ · with tbl := some a })).setHh x
      ({ · with hashv := env.hashFcn (env.keyAt x) })) a t₁ (· ∈ xs) :=
    (h'.filled.withTable t₁ ⟨hb.symm, rfl, rfl⟩).congr (fun _ => Iff.rfl)
      (by simp [h'.filled.tables]) rfl rfl ⟨rfl, rfl, rfl⟩
      (fun w hw => by simp [show w ≠ x from fun he => hx (he ▸ hw)])
  refine (hfilled.addToBkt env (i := hashToBkt (env.hashFcn (env.keyAt x)) t.numBuckets) rfl hx
    (by simp [t₁]) (by simp) hpos hf).mono fun _ m'' h'' => ?_
  obtain ⟨t', hf', hn, ht, hhead, hl⟩ := h''
  refine .filled (by simp) hf' (fun w hw => Entered.relinked ?_ hl) ?_ (hn.trans hitems)
  · rcases eq_or_ne w x with rfl | hwx
    · refine ⟨?_, ?_, ?_, ?_⟩ <;> simp [h'.key]
    · have hw' := h'.entered w (by simpa [hwx] using hw)
      refine ⟨?_, ?_, ?_, ?_⟩ <;> simp [hwx, hw'.tbl, hw'.key, hw'.keylen, hw'.hashv]
  · rw [ht]
    refine order_relinked (h'.order.congr (fun p _ => ?_) (fun p _ => ?_)) hhead hl
    · cases p with
      | none => rfl
      | some w => rcases eq_or_ne w x with rfl | hwx <;> simp [appLinks, *]
    · cases p with
      | none => rfl
      | some w => rcases eq_or_ne w x with rfl | hwx <;> simp [appLinks, *]

section Iter

variable {σ β : Type} {hash : Part σ (Mem α)} {body : β → α → Code σ β}
  {I : List α → β → σ → Prop} {s : σ} {acc : β} {fuel : Nat}

omit [DecidableEq α] in
/-- The invariant rule of the loop over the elements: what is left to visit at the head of an
iteration, and what the body does to it. The body may take out the element that it gets. -/
theorem meets_iterFrom
    (hnext : ∀ y rest acc s, I (y :: rest) acc s → ((hash.get s).hh y).next = rest.head?)
    (hbody : ∀ y rest acc s, I (y :: rest) acc s →
      Meets E (body acc y) s (fun acc' s' => I rest acc' s'))
    (h : I xs acc s) (hf : xs.length ≤ fuel) {tmp : Option α}
    (htmp : ∀ y rest, xs = y :: rest → tmp = rest.head?) :
    Meets E (iterFrom hash body fuel xs.head? tmp acc) s (fun acc' s' => I [] acc' s') := by
  induction xs generalizing fuel acc s tmp with
  | nil => cases fuel <;> exact meets_pure.mpr h
  | cons y rest ih =>
    cases fuel with
    | zero => simp at hf
    | succ fuel =>
      simp only [List.head?_cons, iterFrom, meets_bind]
      refine (hbody y rest acc s h).mono fun acc' s' h' => ?_
      rw [htmp y rest rfl]
      cases rest with
      | nil => exact meets_pure.mpr h'
      | cons z rest' =>
        simp only [List.head?_cons, meets_bind, meets_zoom, meets_hhOf, hash.set_get]
        refine ih h' (by simpa using hf) fun w rest'' hw => ?_
        obtain ⟨rfl, rfl⟩ := List.cons.inj hw
        exact hnext _ _ acc' s' h'

omit [DecidableEq α] in
theorem meets_hashIter
    (hnext : ∀ y rest acc s, I (y :: rest) acc s → ((hash.get s).hh y).next = rest.head?)
    (hbody : ∀ y rest acc s, I (y :: rest) acc s →
      Meets E (body acc y) s (fun acc' s' => I rest acc' s'))
    (h : I xs acc s) (hf : xs.length ≤ fuel) (hhead : (hash.get s).head = xs.head?) :
    Meets E (hashIter hash fuel body acc) s (fun acc' s' => I [] acc' s') := by
  simp only [hashIter, meets_bind, meets_zoom, meets_get, hash.set_get, hhead]
  cases xs with
  | nil => exact meets_pure.mpr h
  | cons y rest =>
    simp only [List.head?_cons, meets_bind, meets_zoom, meets_hhOf, hash.set_get]
    refine meets_iterFrom hnext hbody h hf fun w rest' hw => ?_
    obtain ⟨rfl, rfl⟩ := List.cons.inj hw
    exact hnext _ _ acc s h

theorem Rep.head (h : Rep env m xs) : m.head = xs.head? := by
  cases h with
  | empty head tables arrays => exact head
  | filled nonempty filled entered order items =>
    have := order.first
    cases xs with
    | nil => exact this
    | cons y ys => exact this

/-- In the order of the application an element leads to the one behind it. -/
theorem Rep.next (h : Rep env m xs) (as : List α) {rest : List α} (hx : xs = as ++ x :: rest) :
    (m.hh x).next = rest.head? := by
  cases h with
  | empty head tables arrays => simp at hx
  | filled nonempty filled entered order items =>
    subst hx
    rw [List.map_append, List.map_cons] at order
    have := order.beside.1
    cases rest <;> exact this

/-- A loop that notes the elements goes through them in their order. -/
theorem Rep.iter (h : Rep env m xs) (hf : xs.length ≤ fuel) :
    Meets Never (hashIter .whole fuel (fun ys y => pure (ys ++ [y])) []) m
      (fun ys m' => m' = m ∧ ys = xs) := by
  refine (meets_hashIter (I := fun rest acc m' => m' = m ∧ xs = acc ++ rest)
    ?_ ?_ ⟨rfl, rfl⟩ hf h.head).mono ?_
  · rintro y rest acc _ ⟨rfl, hsplit⟩
    exact h.next acc hsplit
  · rintro y rest acc _ ⟨rfl, hsplit⟩
    simpa using hsplit
  · rintro ys _ ⟨rfl, hsplit⟩
    exact ⟨rfl, by simpa using hsplit.symm⟩

end Iter

end PowerArbiter.Uthash
