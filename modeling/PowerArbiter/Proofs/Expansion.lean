import PowerArbiter.Proofs.Buckets

namespace PowerArbiter.Uthash
open Memory

variable {α K : Type} [DecidableEq α] [DecidableEq K] {E : Ending → Prop}

theorem hashToBkt_lt {hashv n : UInt32} (hn : n ≠ 0) : hashToBkt hashv n < n.toNat := by
  have hpos : n.toNat ≠ 0 := fun h => hn (UInt32.toNat_inj.mp (by simpa using h))
  have hle : (1 : UInt32) ≤ n := by
    rw [UInt32.le_iff_toNat_le, UInt32.toNat_one]
    omega
  have hsub := UInt32.toNat_sub_of_le _ _ hle
  have hand : (hashv &&& (n - 1)).toNat ≤ (n - 1).toNat := by
    rw [UInt32.toNat_and]
    exact Nat.and_le_right
  rw [UInt32.toNat_one] at hsub
  unfold hashToBkt
  omega

/-- The number of buckets is the power of two that the table says, and no allocator
would have given more. -/
def Doubled (numBuckets log2NumBuckets : UInt32) : Prop :=
  numBuckets = 1 <<< log2NumBuckets ∧ log2NumBuckets ≤ 27

section Doubling

variable {n l items : UInt32}

theorem exists_fin (h : l ≤ 27) : ∃ k : Fin 28, l = .ofNat k :=
  ⟨⟨l.toNat, Nat.lt_succ_of_le (UInt32.le_iff_toNat_le.mp h)⟩, by simp⟩

theorem Doubled.ne_zero (h : Doubled n l) : n ≠ 0 := by
  obtain ⟨rfl, hl⟩ := h
  obtain ⟨k, rfl⟩ := exists_fin hl
  revert k
  decide +kernel

theorem Doubled.toNat (h : Doubled n l) : (n * 2).toNat = 2 * n.toNat ∧
    (2 * n * sizeofBucket).toNat / sizeofBucket.toNat = 2 * n.toNat := by
  obtain ⟨rfl, hl⟩ := h
  obtain ⟨k, rfl⟩ := exists_fin hl
  revert k
  decide +kernel

/-- Where the allocator gives twice as much, there is room for one more doubling. -/
theorem Doubled.grow (h : Doubled n l) (hsize : ¬0x80000000 ≤ 2 * n * sizeofBucket) :
    Doubled (n * 2) (l + 1) ∧ l ≤ 26 := by
  obtain ⟨rfl, hl⟩ := h
  obtain ⟨k, rfl⟩ := exists_fin hl
  unfold Doubled
  revert k
  decide +kernel

theorem Doubled.mask (h : Doubled n l) (hl : l ≤ 26) :
    (n * 2 - 1).toNat = 1 <<< (l + 1).toNat - 1 ∧ 1 ≤ (l + 1).toNat ∧ (l + 1).toNat < 32 := by
  obtain ⟨rfl, hl'⟩ := h
  obtain ⟨k, rfl⟩ := exists_fin hl'
  revert k
  decide +kernel

/-- The ideal chain length of a table with elements is not zero. -/
theorem Doubled.ideal_ne_zero (h : Doubled n l) (hl : l ≤ 26) (hi : items ≠ 0) :
    (items >>> (l + 1)) + (if items &&& (n * 2 - 1) ≠ 0 then 1 else 0) ≠ 0 := by
  obtain ⟨hm, hpos, hlt⟩ := h.mask hl
  have hshift : (items >>> (l + 1)).toNat = items.toNat / 1 <<< (l + 1).toNat := by
    rw [UInt32.toNat_shiftRight, Nat.mod_eq_of_lt hlt, Nat.shiftRight_eq_div_pow,
      Nat.one_shiftLeft]
  have hand : (items &&& (n * 2 - 1)).toNat = items.toNat % 1 <<< (l + 1).toNat := by
    rw [UInt32.toNat_and, hm, Nat.one_shiftLeft, Nat.and_two_pow_sub_one_eq_mod]
  have htwo : 2 ≤ 1 <<< (l + 1).toNat := by
    rw [Nat.one_shiftLeft]
    exact Nat.le_self_pow (by omega) 2
  have hmax := items.toNat_lt
  have hne : items.toNat ≠ 0 := fun h => hi (UInt32.toNat_inj.mp (by simpa using h))
  intro h0
  have h0 := congrArg UInt32.toNat h0
  split at h0
  · have hhalf : items.toNat / 1 <<< (l + 1).toNat ≤ items.toNat / 2 :=
      Nat.div_le_div_left htwo (by omega)
    rw [UInt32.toNat_add, hshift, UInt32.toNat_one, UInt32.toNat_zero] at h0
    omega
  · next hz =>
    have hz : items &&& (n * 2 - 1) = 0 := by simpa using hz
    rw [hz, UInt32.toNat_zero] at hand
    rw [UInt32.add_zero, hshift, UInt32.toNat_zero] at h0
    have := Nat.div_add_mod items.toNat (1 <<< (l + 1).toNat)
    rw [h0, ← hand] at this
    omega

end Doubling

/-- In the course of an expansion from `m₀`: the elements with the property `S` are in
the new block, and nothing else has changed but the links of those. -/
structure Expanding (m₀ : Mem α) (tbl new : Nat) (t : UTHashTable α) (size : Nat) (index : α → Nat)
    (S : α → Prop) (m : Mem α) : Prop where
  head : m.head = m₀.head
  mallocs : m.mallocs = m₀.mallocs
  tables : ∃ n, m.tables = Function.update m₀.tables tbl (some { t with nonidealItems := n })
  arrays : ∃ b, m.arrays = Function.update m₀.arrays new (some b) ∧ b.size = size ∧
    Chained m.hh b index S
  links : ∀ x, m.hh x = { m₀.hh x with hhNext := (m.hh x).hhNext, hhPrev := (m.hh x).hhPrev }
  rest : ∀ x, ¬S x → m.hh x = m₀.hh x

section Expanding

variable {m₀ m : Mem α} {tbl new size : Nat} {t : UTHashTable α} {index : α → Nat} {S : α → Prop}
  {x : α}

/-- One element moves to the new block. -/
theorem Expanding.move (h : Expanding m₀ tbl new t size index S m) (hx : ¬S x)
    (hideal : t.idealChainMaxlen ≠ 0) (hi : index x < size)
    (hindex : hashToBkt (m₀.hh x).hashv (t.numBuckets * 2) = index x) {fuel : Nat}
    {Q : Unit → Mem α → Prop}
    (hQ : ∀ m', Expanding m₀ tbl new t size index (fun y => y = x ∨ S y) m' →
      Meets E (expandChain tbl new fuel (m₀.hh x).hhNext) m' Q) :
    Meets E (expandChain tbl new (fuel + 1) (some x)) m Q := by
  obtain ⟨n, htables⟩ := h.tables
  obtain ⟨b, harrays, rfl, hchained⟩ := h.arrays
  have hsame := h.rest x hx
  obtain ⟨xs, hc, hm⟩ := hchained.chain _ hi
  have hfirst : ∀ y, ¬S y → (b.cell (index x)).hhHead ≠ some y :=
    fun y hy he => hy ((hm y).mp (hc.first_mem he)).1
  have hnew : ∀ (e : UInt32) (M : Mem α), M.head = m.head → M.mallocs = m.mallocs →
      M.arrays = m.arrays →
      (∃ n, M.tables = Function.update m₀.tables tbl (some { t with nonidealItems := n })) →
      Expanding m₀ tbl new t b.size index (fun y => y = x ∨ S y)
        ((M.withHh (linked m.hh (b.cell (index x)).hhHead x)).setArray new
          (some (b.set (index x) ⟨some x, (b.cell (index x)).count + 1, e⟩))) := by
    intro e M hhead hmallocs harr htab
    refine ⟨hhead.trans h.head, hmallocs.trans h.mallocs, htab,
      ⟨b.set (index x) ⟨some x, (b.cell (index x)).count + 1, e⟩, by simp [harr, harrays], rfl,
        hchained.push hx hi e⟩, fun y => ?_, fun y hy => ?_⟩
    · have hy := h.links y
      simp only [setArray_fields, withHh_fields, linked]
      rw [hy]
    · have hyx : y ≠ x := fun he => hy (.inl he)
      have hyS : ¬S y := fun hS => hy (.inr hS)
      rw [← h.rest y hyS]
      simp [linked, hyx, hfirst y hyS]
  simp only [expandChain, meets_bind, meets_hhOf, meets_tableAt, meets_setBucket, meets_bucketAt,
    htables, hsame, hindex, harrays, hi, Function.update_self, Option.elim_some, if_true]
  simp [htables, harrays, hi, hideal]
  split
  · rw [meets_linkFirst (b := b.set (index x) ⟨(b.cell (index x)).hhHead,
      (b.cell (index x)).count + 1, ((b.cell (index x)).count + 1) / t.idealChainMaxlen⟩)
      (by simp) (by simpa using hi) (by simpa using hfirst x hx)]
    have := hQ _ (hnew (((b.cell (index x)).count + 1) / t.idealChainMaxlen)
      (m.setTable tbl (some { t with nonidealItems := n + 1 })) rfl rfl rfl
      ⟨n + 1, by simp [htables]⟩)
    simpa using this
  · rw [meets_linkFirst (b := b.set (index x) ⟨(b.cell (index x)).hhHead,
      (b.cell (index x)).count + 1, (b.cell (index x)).expandMult⟩)
      (by simp) (by simpa using hi) (by simpa using hfirst x hx)]
    have := hQ _ (hnew (b.cell (index x)).expandMult m rfl rfl rfl ⟨n, htables⟩)
    simpa using this

theorem Expanding.congr {S' : α → Prop} (h : Expanding m₀ tbl new t size index S m)
    (hS : ∀ y, S' y ↔ S y) : Expanding m₀ tbl new t size index S' m := by
  have : S' = S := funext fun y => propext (hS y)
  rwa [this]

/-- All elements of a bucket move to the new block. -/
theorem Expanding.moveChain {xs : List α} {p : Option α} {fuel : Nat}
    (h : Expanding m₀ tbl new t size index S m) (hp : Path m₀.hh p xs) (hnd : xs.Nodup)
    (hS : ∀ y ∈ xs, ¬S y) (hideal : t.idealChainMaxlen ≠ 0)
    (hi : ∀ y ∈ xs, index y < size ∧ hashToBkt (m₀.hh y).hashv (t.numBuckets * 2) = index y)
    (hf : xs.length ≤ fuel) :
    Meets Never (expandChain tbl new fuel p) m
      (fun _ m' => Expanding m₀ tbl new t size index (fun y => y ∈ xs ∨ S y) m') := by
  induction xs generalizing p fuel S m with
  | nil =>
    have hp : p = none := hp
    subst hp
    have hdone : Expanding m₀ tbl new t size index (fun y => y ∈ [] ∨ S y) m :=
      h.congr (by simp)
    cases fuel <;> simpa [expandChain] using hdone
  | cons x xs ih =>
    obtain ⟨rfl, hrest⟩ := hp
    obtain ⟨hx, hnd⟩ := List.nodup_cons.mp hnd
    obtain ⟨hlt, hindex⟩ := hi x List.mem_cons_self
    cases fuel with
    | zero => simp at hf
    | succ fuel =>
      refine h.move (hS x List.mem_cons_self) hideal hlt hindex fun m' h' => ?_
      have hS' : ∀ y ∈ xs, ¬(y = x ∨ S y) := by
        rintro y hy (rfl | hyS)
        · exact hx hy
        · exact hS y (List.mem_cons_of_mem _ hy) hyS
      refine (ih h' hrest hnd hS' (fun y hy => hi y (List.mem_cons_of_mem _ hy))
        (by simpa using hf)).mono fun _ m'' h'' => h''.congr fun y => ?_
      simp only [List.mem_cons]
      tauto

/-- The outer loop moves all of them. -/
theorem Expanding.moveAll {b : Buckets α} {c fuel : Nat} {old : α → Nat} {xs : List α}
    (h : Expanding m₀ tbl new t size index (fun _ => False) m) (hb : m₀.arrays c = some b)
    (hc : c ≠ new) (hchained : Chained m₀.hh b old (· ∈ xs)) (hideal : t.idealChainMaxlen ≠ 0)
    (hi : ∀ y, index y < size ∧ hashToBkt (m₀.hh y).hashv (t.numBuckets * 2) = index y)
    (hf : xs.length ≤ fuel) :
    Meets Never
      (times (fun i => do expandChain tbl new fuel (← bucketAt c i).hhHead) 0 b.size) m
      (fun _ m' => Expanding m₀ tbl new t size index (· ∈ xs) m') := by
  refine (meets_times (I := fun i m' => Expanding m₀ tbl new t size index
    (fun y => y ∈ xs ∧ old y < i) m') (h.congr (by simp)) ?_).mono ?_
  · intro i m' _ hlt h'
    rw [Nat.zero_add] at hlt
    obtain ⟨ys, hys, hm⟩ := hchained.chain i hlt
    obtain ⟨b', harrays, -⟩ := h'.arrays
    have hlen : ys.length ≤ xs.length :=
      List.Nodup.length_le_of_subset hys.nodup fun y hy => ((hm y).mp hy).1
    simp only [meets_bind, meets_bucketAt, harrays, Function.update_of_ne hc, hb,
      Option.elim_some, hlt, if_true]
    refine (h'.moveChain hys.path hys.nodup ?_ hideal (fun y _ => hi y) (by omega)).mono ?_
    · intro y hy hdone
      have := ((hm y).mp hy).2
      omega
    · refine fun _ m'' h'' => h''.congr fun y => ?_
      rw [hm, Nat.lt_succ_iff_lt_or_eq]
      tauto
  · refine fun _ m' h' => h'.congr fun y => ⟨fun hy => ⟨hy, ?_⟩, And.left⟩
    rw [Nat.zero_add]
    exact hchained.range y hy

end Expanding

/-- The handles differ in their links within the buckets only. -/
def Relinked (hh hh' : α → UTHashHandle α) : Prop :=
  ∀ x, hh' x = { hh x with hhNext := (hh' x).hhNext, hhPrev := (hh' x).hhPrev }

/-- The one table, at `a`, with its block of buckets holds just the elements with the
property `S`. Nothing else is allocated. -/
structure Filled (m : Mem α) (a : Nat) (t : UTHashTable α) (S : α → Prop) : Prop where
  tables : m.tables = Function.update (fun _ => none) a (some t)
  used : a < m.mallocs
  doubled : Doubled t.numBuckets t.log2NumBuckets
  arrays : ∃ c b, t.buckets = some c ∧ c < m.mallocs ∧
    m.arrays = Function.update (fun _ => none) c (some b) ∧ b.size = t.numBuckets.toNat ∧
    Chained m.hh b (fun x => hashToBkt (m.hh x).hashv t.numBuckets) S

variable (env : Setting α K)

omit [DecidableEq α] [DecidableEq K] in
@[simp] theorem meets_uthashMalloc {size : UInt32} {m : Mem α} {Q : Nat → Mem α → Prop} :
    Meets E (uthashMalloc env size) m Q ↔ if env.malloc m.mallocs size
      then Q m.mallocs m.countMalloc else E .exited := by
  simp [uthashMalloc]

/-- After the last element has moved, the new block takes the place of the old one. -/
theorem Expanding.filled {m₀ m : Mem α} {a c new : Nat} {t t' : UTHashTable α} {S : α → Prop}
    (h : Expanding m₀ a new t (2 * t.numBuckets.toNat)
      (fun y => hashToBkt (m₀.hh y).hashv (t.numBuckets * 2)) S m)
    (htables : m₀.tables = Function.update (fun _ => none) a (some t))
    (harrays : ∀ d, d ≠ c → d ≠ new → m₀.arrays d = none) (hc : c ≠ new) (ha : a < m₀.mallocs)
    (hnew : new < m₀.mallocs) (hn : Doubled t'.numBuckets t'.log2NumBuckets)
    (hsize : t'.numBuckets.toNat = 2 * t.numBuckets.toNat) (hb : t'.buckets = some new)
    (hn' : t'.numBuckets = t.numBuckets * 2) :
    Filled ((m.setTable a (some t')).setArray c none) a t' S := by
  obtain ⟨n, htab⟩ := h.tables
  obtain ⟨b, harr, hbsize, hchained⟩ := h.arrays
  refine ⟨?_, ?_, hn, new, b, hb, ?_, ?_, hbsize.trans hsize.symm, ?_⟩
  · simp [htab, htables]
  · simpa [h.mallocs] using ha
  · simpa [h.mallocs] using hnew
  · funext d
    simp only [setArray_fields, setTable_fields, harr]
    by_cases hdc : d = c
    · simp [hdc, hc]
    · by_cases hdn : d = new
      · simp [hdn, Ne.symm hc]
      · simp [hdc, hdn, harrays d hdc hdn]
  · have hindex : (fun y => hashToBkt (m₀.hh y).hashv (t.numBuckets * 2)) =
        fun y => hashToBkt (m.hh y).hashv t'.numBuckets := by
      funext y
      rw [h.links y, hn']
    rw [hindex] at hchained
    exact hchained

omit [DecidableEq K] in
/-- An expansion keeps the elements, or there is not the memory for it. -/
theorem Filled.expand {m : Mem α} {a fuel : Nat} {t : UTHashTable α} {xs : List α}
    (h : Filled m a t (· ∈ xs)) (hitems : t.numItems ≠ 0) (hf : xs.length ≤ fuel) :
    Meets Exits (hashExpandBuckets env fuel a) m (fun _ m' => ∃ t', Filled m' a t' (· ∈ xs) ∧
      t'.numItems = t.numItems ∧ t'.tail = t.tail ∧ m'.head = m.head ∧ Relinked m.hh m'.hh) := by
  obtain ⟨c, b, hb, hc, harrays, hsize, hchained⟩ := h.arrays
  simp only [hashExpandBuckets, mallocBuckets, meets_bind, meets_tableAt, h.tables,
    Function.update_self, Option.elim_some, meets_uthashMalloc]
  split
  next hgranted =>
    have hsmall : ¬0x80000000 ≤ 2 * t.numBuckets * sizeofBucket := by
      intro hbig
      rw [env.bounded _ _ hbig] at hgranted
      exact Bool.false_ne_true hgranted
    obtain ⟨hgrow, hl⟩ := h.doubled.grow hsmall
    obtain ⟨hdouble, hblock⟩ := h.doubled.toNat
    have hcn : c ≠ m.mallocs := Nat.ne_of_lt hc
    let t₁ : UTHashTable α := { t with
      buckets := some c
      idealChainMaxlen := (t.numItems >>> (t.log2NumBuckets + 1)) +
        (if t.numItems &&& (t.numBuckets * 2 - 1) ≠ 0 then 1 else 0)
      nonidealItems := 0 }
    let m₀ : Mem α := (m.countMalloc.setArray m.mallocs
      (some ⟨2 * t.numBuckets.toNat, fun _ => ⟨none, 0, 0⟩⟩)).setTable a (some t₁)
    have hstart : Expanding m₀ a m.mallocs t₁ (2 * t.numBuckets.toNat)
        (fun y => hashToBkt (m₀.hh y).hashv (t.numBuckets * 2)) (fun _ => False) m₀ :=
      ⟨rfl, rfl, ⟨0, by simp [m₀, t₁, h.tables]⟩, ⟨_, by simp [m₀], rfl, .fresh⟩, fun _ => rfl,
        fun _ _ => rfl⟩
    have hloop := hstart.moveAll (by simp [m₀, harrays, hcn]) hcn hchained
      (h.doubled.ideal_ne_zero hl hitems) (fun y => ⟨hdouble ▸ hashToBkt_lt hgrow.ne_zero, rfl⟩) hf
    rw [hsize] at hloop
    simp only [meets_modify, meets_pure, meets_setTable, meets_deref, setArray_fields,
      countMalloc_fields, h.tables, hblock, Function.update_self, Option.elim_some, hb]
    refine hloop.weaken.mono fun _ m' h' => ?_
    obtain ⟨n, htab⟩ := h'.tables
    obtain ⟨b', harr, -⟩ := h'.arrays
    have hold : m'.arrays c = some b := by simp [harr, m₀, hcn, harrays]
    have htable : m'.tables a = some { t₁ with nonidealItems := n } := by simp [htab]
    have hlinks : Relinked m.hh m'.hh := h'.links
    have hfilled : ∀ t' : UTHashTable α, t'.numBuckets = t.numBuckets * 2 →
        t'.log2NumBuckets = t.log2NumBuckets + 1 → t'.buckets = some m.mallocs →
        Filled ((m'.setTable a (some t')).setArray c none) a t' (· ∈ xs) := by
      intro t' hn' hl' hb'
      refine h'.filled (by simp [m₀, h.tables]) (fun d hd hd' => ?_) hcn ?_ ?_ ?_ ?_ hb' hn'
      · simp [m₀, harrays, hd, hd']
      · exact Nat.lt_succ_of_lt h.used
      · exact Nat.lt_succ_self _
      · rw [hn', hl']
        exact hgrow
      · rw [hn']
        exact hdouble
    simp [hold, htable]
    generalize (if t₁.numItems >>> 1 < n then t₁.ineffExpands + 1 else 0) = ineffExpands
    split
    · exact ⟨_, hfilled _ rfl rfl rfl, rfl, rfl, h'.head, hlinks⟩
    · exact ⟨_, hfilled _ rfl rfl rfl, rfl, rfl, h'.head, hlinks⟩
  next => exact rfl

omit [DecidableEq K] in
/-- Fields that have nothing to do with the buckets may change. -/
theorem Filled.congr {m m' : Mem α} {a : Nat} {t t' : UTHashTable α} {S S' : α → Prop}
    (h : Filled m a t S) (hS : ∀ x, S' x ↔ S x)
    (htables : m'.tables = Function.update (fun _ => none) a (some t'))
    (harrays : m'.arrays = m.arrays) (hmallocs : m'.mallocs = m.mallocs)
    (ht : t'.buckets = t.buckets ∧ t'.numBuckets = t.numBuckets ∧
      t'.log2NumBuckets = t.log2NumBuckets)
    (hhh : ∀ x, S x → (m'.hh x).hhNext = (m.hh x).hhNext ∧ (m'.hh x).hhPrev = (m.hh x).hhPrev ∧
      (m'.hh x).hashv = (m.hh x).hashv) : Filled m' a t' S' := by
  obtain ⟨hb, hn, hl⟩ := ht
  obtain ⟨c, b, hc, hlt, harr, hsize, hchained⟩ := h.arrays
  refine ⟨htables, hmallocs ▸ h.used, ?_, c, b, hb.trans hc, hmallocs ▸ hlt, harrays.trans harr, ?_,
    ?_⟩
  · rw [hn, hl]
    exact h.doubled
  · rw [hn]
    exact hsize
  · refine hchained.congr hS (fun x hx => ?_) (fun x hx => ⟨(hhh x hx).1, (hhh x hx).2.1⟩)
    rw [(hhh x hx).2.2, hn]

omit [DecidableEq K] in
theorem Filled.withTable {m : Mem α} {a : Nat} {t : UTHashTable α} {S : α → Prop}
    (h : Filled m a t S) (t' : UTHashTable α) (ht : t'.buckets = t.buckets ∧
      t'.numBuckets = t.numBuckets ∧ t'.log2NumBuckets = t.log2NumBuckets) :
    Filled (m.setTable a (some t')) a t' S :=
  h.congr (fun _ => Iff.rfl) (by simp [h.tables]) rfl rfl ht (fun _ _ => ⟨rfl, rfl, rfl⟩)

omit [DecidableEq K] in
/-- Another block takes the place of that of the table. -/
theorem Filled.withBlock {m : Mem α} {a c : Nat} {t : UTHashTable α} {S S' : α → Prop}
    {hh : α → UTHashHandle α} {b : Buckets α} (h : Filled m a t S) (hc : t.buckets = some c)
    (hsize : b.size = t.numBuckets.toNat)
    (hb : Chained hh b (fun x => hashToBkt (hh x).hashv t.numBuckets) S') :
    Filled ((m.withHh hh).setArray c (some b)) a t S' := by
  obtain ⟨c', b', hc', hlt, harrays, -⟩ := h.arrays
  obtain rfl : c' = c := Option.some.inj (hc'.symm.trans hc)
  exact ⟨h.tables, h.used, h.doubled, c', b, hc, hlt, by simp [harrays], hsize, hb⟩

omit [DecidableEq K] in
/-- A new element goes to its bucket, or there is not the memory for an expansion. -/
theorem Filled.addToBkt {m : Mem α} {a c i fuel : Nat} {t : UTHashTable α} {xs : List α} {x : α}
    (h : Filled m a t (· ∈ xs)) (hc : t.buckets = some c) (hx : x ∉ xs)
    (hi : hashToBkt (m.hh x).hashv t.numBuckets = i) (htbl : (m.hh x).tbl = some a)
    (hitems : t.numItems ≠ 0) (hf : xs.length < fuel) :
    Meets Exits (hashAddToBkt env fuel c i x) m (fun _ m' => ∃ t', Filled m' a t' (· ∈ xs ++ [x]) ∧
      t'.numItems = t.numItems ∧ t'.tail = t.tail ∧ m'.head = m.head ∧ Relinked m.hh m'.hh) := by
  obtain ⟨c', b, hb, hlt, harrays, hsize, hchained⟩ := h.arrays
  obtain rfl : c' = c := Option.some.inj (hb.symm.trans hc)
  have hib : i < b.size := by
    rw [hsize, ← hi]
    exact hashToBkt_lt h.doubled.ne_zero
  have hpushed := hchained.push hx (hi ▸ hib) (b.cell i).expandMult
  simp only [hi] at hpushed
  have hfirst : (b.cell i).hhHead ≠ some x := by
    intro he
    obtain ⟨ys, hys, hm⟩ := hchained.chain _ hib
    exact hx ((hm x).mp (hys.first_mem he)).1
  have hrelinked : Relinked m.hh (linked m.hh (b.cell i).hhHead x) := fun _ => rfl
  have hfilled : Filled ((m.withHh (linked m.hh (b.cell i).hhHead x)).setArray c'
      (some (b.set i ⟨some x, (b.cell i).count + 1, (b.cell i).expandMult⟩))) a t
      (· ∈ xs ++ [x]) := by
    refine h.withBlock hc hsize (hpushed.congr (fun y => ?_) (fun _ _ => rfl)
      (fun _ _ => ⟨rfl, rfl⟩))
    simp [or_comm]
  simp only [hashAddToBkt, meets_bind, meets_setBucket, harrays, Function.update_self,
    Option.elim_some, hib, if_true]
  rw [meets_linkFirst (b := b.set i { b.cell i with count := (b.cell i).count + 1 })
    (by simp) (by simpa using hib) (by simpa using hfirst)]
  simp [hib, linked, htbl, h.tables, -List.mem_append]
  split
  · split
    · exact ⟨t, hfilled, rfl, rfl, hrelinked⟩
    · refine (hfilled.expand env hitems (by simp; omega)).mono fun _ m' h' => ?_
      obtain ⟨t', hf', hn, ht, hh, hl⟩ := h'
      refine ⟨t', hf', hn, ht, hh, fun y => ?_⟩
      have := hl y
      simp only [setArray_fields, withHh_fields, linked] at this
      exact this
  · exact ⟨t, hfilled, rfl, rfl, hrelinked⟩

omit [DecidableEq K] in
/-- An element leaves its bucket. -/
theorem Filled.delInBkt {m : Mem α} {a c : Nat} {t : UTHashTable α} {xs : List α} {x : α}
    (h : Filled m a t (· ∈ xs)) (hc : t.buckets = some c) (hx : x ∈ xs) (hnd : xs.Nodup) :
    Meets E (hashDelInBkt c (hashToBkt (m.hh x).hashv t.numBuckets) x) m
      (fun _ m' => Filled m' a t (· ∈ xs.erase x) ∧ m'.head = m.head ∧ Relinked m.hh m'.hh) := by
  obtain ⟨c', b, hb, hlt, harrays, hsize, hchained⟩ := h.arrays
  obtain rfl : c' = c := Option.some.inj (hb.symm.trans hc)
  have hi : hashToBkt (m.hh x).hashv t.numBuckets < b.size :=
    hsize ▸ hashToBkt_lt h.doubled.ne_zero
  have hself : (m.hh x).hhPrev ≠ some x := by
    obtain ⟨ys, hys, hm⟩ := hchained.chain _ hi
    exact hys.links.prev_ne (x := some x) (by simpa using (hm x).mpr ⟨hx, rfl⟩)
  rw [meets_hashDelInBkt (b := b) (by simp [harrays]) hi hself]
  refine ⟨h.withBlock hc hsize ((hchained.unlink hx _).congr (fun y => ?_) (fun _ _ => rfl)
    (fun _ _ => ⟨rfl, rfl⟩)), rfl, fun _ => rfl⟩
  rw [hnd.mem_erase_iff, and_comm]

end PowerArbiter.Uthash
