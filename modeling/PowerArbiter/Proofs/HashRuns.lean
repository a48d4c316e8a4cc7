import PowerArbiter.Proofs.Uthash

namespace PowerArbiter.Uthash
open Memory

variable {α K : Type} [DecidableEq α] {E : Ending → Prop} {env : Setting α K} {m : Mem α}
  {xs : List α}

section Check

variable {next prev : UTHashHandle α → Option α}

/-- The elements lead to each other in this order, from null to null. -/
def Strung (next prev : UTHashHandle α → Option α) (hh : α → UTHashHandle α) (xs : List α) : Prop :=
  ∀ as x rest, xs = as ++ x :: rest → next (hh x) = rest.head? ∧ prev (hh x) = as.getLast?

omit [DecidableEq α] in
theorem map_some_getD (p : Option α) : (p.map some).getD none = p := by
  cases p <;> rfl

omit [DecidableEq α] in
theorem strung_of_order {tail : Option α} (h : Ring (appLinks m tail) none (xs.map some)) :
    Strung (·.next) (·.prev) m.hh xs := by
  rintro as x rest rfl
  rw [List.map_append, List.map_cons] at h
  obtain ⟨hn, hp⟩ := h.beside
  simp only [appLinks, Option.elim_some, List.headD_eq_head?_getD, List.head?_map,
    List.getLastD_eq_getLast?, List.getLast?_map, map_some_getD] at hn hp
  exact ⟨hn, hp⟩

theorem Chain.strung {hh : α → UTHashHandle α} {b : UTHashBucket α} (h : Chain hh b xs) :
    Strung (·.hhNext) (·.hhPrev) hh xs := by
  rintro as x rest rfl
  have hl := h.links
  rw [List.map_append, List.map_cons] at hl
  obtain ⟨hn, hp⟩ := hl.beside
  simp only [bktLinks, Option.elim_some, List.headD_eq_head?_getD, List.head?_map,
    List.getLastD_eq_getLast?, List.getLast?_map, map_some_getD] at hn hp
  exact ⟨hn, hp⟩

/-- A walk along such elements finds nothing wrong, and counts them. -/
theorem meets_fsckWalk (h : Strung next prev m.hh xs) (as : List α) {rest : List α}
    (hxs : xs = as ++ rest) {fuel : Nat} (hf : rest.length ≤ fuel) (count : UInt32) :
    Meets Never (fsckWalk next prev fuel as.getLast? rest.head? count) m
      (fun n m' => m' = m ∧ n = count + .ofNat rest.length) := by
  induction rest generalizing as fuel count with
  | nil =>
    cases fuel <;> exact meets_pure.mpr ⟨rfl, (UInt32.add_zero count).symm⟩
  | cons x rest ih =>
    cases fuel with
    | zero => simp at hf
    | succ fuel =>
      obtain ⟨hn, hp⟩ := h as x rest hxs
      have hrest := ih (as ++ [x]) (by simpa using hxs) (by simpa using hf) (count + 1)
      rw [List.getLast?_concat] at hrest
      simp only [List.head?_cons, fsckWalk, meets_bind, meets_hhOf, hn, hp, ne_eq,
        not_true_eq_false, meets_ite, if_false]
      refine hrest.mono fun n m' hr => ⟨hr.1, hr.2.trans ?_⟩
      rw [List.length_cons, UInt32.ofNat_add, UInt32.add_assoc, UInt32.add_comm 1]
      rfl

omit [DecidableEq α] in
/-- The elements of the buckets before the next one are those before and those in this one. -/
theorem countP_lt_succ (index : α → Nat) (i : Nat) (xs : List α) :
    xs.countP (fun x => index x < i + 1) =
      xs.countP (fun x => index x < i) + xs.countP (fun x => index x = i) := by
  induction xs with
  | nil => rfl
  | cons x xs ih =>
    simp only [List.countP_cons, ih, decide_eq_true_eq]
    split <;> split <;> split <;> omega

/-- Every chain is as its bucket has counted it, and together they have all the elements. -/
theorem meets_fsckBuckets {a c fuel : Nat} {t : UTHashTable α} {b : Buckets α} {index : α → Nat}
    (ht : m.tables a = some t) (hc : t.buckets = some c) (hb : m.arrays c = some b)
    (hchained : Chained m.hh b index (· ∈ xs)) (hnd : xs.Nodup) (hf : xs.length ≤ fuel)
    {i n : Nat} (hn : i + n = b.size) :
    Meets Never (fsckBuckets fuel a i n (.ofNat (xs.countP fun x => index x < i))) m
      (fun k m' => m' = m ∧ k = .ofNat xs.length) := by
  induction n generalizing i with
  | zero =>
    have hall : xs.countP (fun x => index x < i) = xs.length := by
      rw [List.countP_eq_length]
      intro x hx
      have := hchained.range x hx
      simpa using Nat.lt_of_lt_of_eq this hn.symm
    exact meets_pure.mpr ⟨rfl, by rw [hall]⟩
  | succ n ih =>
    have hi : i < b.size := by omega
    obtain ⟨ys, hys, hm⟩ := hchained.chain i hi
    have hlen : ys.length = xs.countP fun x => index x = i := by
      rw [List.countP_eq_length_filter]
      refine ((List.perm_ext_iff_of_nodup hys.nodup (hnd.filter _)).mpr fun x => ?_).length_eq
      simp [hm]
    have hle : ys.length ≤ fuel := by
      rw [hlen]
      exact Nat.le_trans List.countP_le_length hf
    have hwalk := meets_fsckWalk (m := m) hys.strung [] rfl hle 0
    have hhead : ys.head? = (b.cell i).hhHead := by
      have := hys.path
      cases ys with
      | nil => exact this.symm
      | cons y ys => exact this.1.symm
    rw [hhead] at hwalk
    simp only [fsckBuckets, meets_bind, meets_tableAt, ht, Option.elim_some, meets_deref, hc,
      meets_bucketAt, hb, hi, if_true]
    refine hwalk.mono fun k m' hk => ?_
    obtain ⟨rfl, rfl⟩ := hk
    have hrest := ih (i := i + 1) (by omega)
    rw [countP_lt_succ, ← hlen, UInt32.ofNat_add] at hrest
    simpa [hys.count] using hrest

/-- The hash finds nothing wrong with its memory. -/
theorem Rep.fsck (h : Rep env m xs) {fuel : Nat} (hf : xs.length ≤ fuel) :
    Meets Never (hashFsck fuel) m (fun _ m' => m' = m) := by
  have hnd := h.nodup
  have hhead := h.head
  cases h with
  | empty head tables arrays => simp [hashFsck, head]
  | @filled _ a t nonempty filled entered order items =>
    obtain ⟨y, hy, hfirst⟩ := head_mem nonempty order
    obtain ⟨c, b, hb, -, harrays, hsize, hchained⟩ := filled.arrays
    have htable : m.tables a = some t := by simp [filled.tables]
    have hbuckets := meets_fsckBuckets htable hb (by simp [harrays]) hchained hnd hf
      (i := 0) (n := b.size) (Nat.zero_add _)
    have hwalk := meets_fsckWalk (m := m) (strung_of_order order) [] rfl hf 0
    simp only [Nat.not_lt_zero, decide_false, List.countP_false] at hbuckets
    rw [← hhead, hfirst] at hwalk
    simp only [hashFsck, meets_bind, meets_get, hfirst, meets_headTable, Option.elim_some,
      (entered y hy).tbl, meets_tableAt, htable, ← hsize]
    refine hbuckets.mono fun k m' hk => ?_
    obtain ⟨rfl, rfl⟩ := hk
    simp only [ne_eq, items, meets_bind, meets_ite, meets_pure, not_true_eq_false, if_false,
      meets_tableAt, htable, Option.elim_some]
    refine hwalk.mono fun k m'' hk => ?_
    obtain ⟨rfl, rfl⟩ := hk
    simp [htable, items]

theorem Rep.clear (h : Rep env m xs) :
    Meets Never hashClear m (fun _ m' => Rep env m' []) := by
  cases h with
  | empty head tables arrays =>
    simp only [hashClear, meets_bind, meets_get, head, meets_pure]
    exact .empty head tables arrays
  | @filled _ a t nonempty filled entered order items =>
    obtain ⟨y, hy, hfirst⟩ := head_mem nonempty order
    obtain ⟨c, b, hb, -, harrays, -⟩ := filled.arrays
    simp [hashClear, hfirst, (entered y hy).tbl, filled.tables, hb, harrays]
    exact .empty rfl (by simp [filled.tables]) (by simp [harrays])

end Check

/-- What a program asks of its hash. -/
inductive HashOp (α K : Type) where
  | add (x : α)
  | delete (x : α)
  | find (key : K)
  | count
  | iter
  | clear

inductive Reply (α : Type) where
  | done
  | found (x : Option α)
  | counted (n : UInt32)
  | visited (xs : List α)

section Runs

variable [DecidableEq K]

/-- `bound` is a bound on the number of elements. -/
def HashOp.code (env : Setting α K) (bound : Nat) : HashOp α K → Code (Mem α) (Reply α)
  | .add x => do
    hashAdd env bound x
    return .done
  | .delete x => do
    hashDelete x
    return .done
  | .find key => return .found (← hashFind env bound key)
  | .count => return .counted (← hashCount)
  | .iter => return .visited (← hashIter .whole bound (fun xs x => pure (xs ++ [x])) [])
  | .clear => do
    hashClear
    return .done

/-- What the operations mean for the elements, in the order in which they came. -/
def HashOp.apply (xs : List α) : HashOp α K → List α
  | .add x => xs ++ [x]
  | .delete x => xs.erase x
  | .find _ | .count | .iter => xs
  | .clear => []

def HashOp.reply (env : Setting α K) (xs : List α) : HashOp α K → Reply α
  | .add _ | .delete _ | .clear => .done
  | .find key => .found (xs.find? fun x => env.keyAt x = key)
  | .count => .counted (.ofNat xs.length)
  | .iter => .visited xs

/-- A new element has a new key, and one that is deleted is there. -/
def HashOp.Fits (env : Setting α K) (bound : Nat) (xs : List α) : HashOp α K → Prop
  | .add x => xs.length < bound ∧ ∀ y ∈ xs, env.keyAt y ≠ env.keyAt x
  | .delete x => x ∈ xs
  | _ => True

/-- What holds of the memory between operations. -/
structure Sound (env : Setting α K) (bound : Nat) (xs : List α) (m : Mem α) : Prop where
  rep : Rep env m xs
  keys : (xs.map env.keyAt).Nodup
  bound : xs.length ≤ bound

omit [DecidableEq α] in
/-- Keys are told apart among the elements. -/
theorem find_unique {key : K} (hnd : (xs.map env.keyAt).Nodup) {r : Option α}
    (hsome : ∀ x, r = some x → x ∈ xs ∧ env.keyAt x = key)
    (hnone : r = none → ∀ x ∈ xs, env.keyAt x ≠ key) :
    r = xs.find? fun x => env.keyAt x = key := by
  cases r with
  | none =>
    refine (List.find?_eq_none.mpr fun x hx => ?_).symm
    simpa using hnone rfl x hx
  | some x =>
    obtain ⟨hx, hkey⟩ := hsome x rfl
    cases hf : xs.find? fun x => env.keyAt x = key with
    | none =>
      have := List.find?_eq_none.mp hf x hx
      exact absurd hkey (by simpa using this)
    | some y =>
      have hy : env.keyAt y = key := by simpa using List.find?_some hf
      exact congrArg some (List.inj_on_of_nodup_map hnd hx (List.mem_of_find?_eq_some hf)
        (hkey.trans hy.symm))

/-- Every operation does to the memory what it means, or ends the process for want of memory. -/
theorem Sound.step {bound : Nat} (hbound : bound < UInt32.size) (h : Sound env bound xs m)
    {op : HashOp α K} (hop : op.Fits env bound xs) :
    Meets Exits (op.code env bound) m (fun r m' =>
      r = op.reply env xs ∧ Sound env bound (op.apply xs) m') := by
  cases op with
  | add x =>
    obtain ⟨hlt, hnew⟩ := hop
    have hx : x ∉ xs := fun hx => hnew x hx rfl
    have hkeys : ((xs ++ [x]).map env.keyAt).Nodup := by
      simp only [List.map_append, List.nodup_append, h.keys]
      simpa using hnew
    simp only [HashOp.code, meets_bind, meets_pure]
    have hlen : (xs ++ [x]).length ≤ bound := by
      rw [List.length_append]
      exact hlt
    exact (h.rep.add hx (Nat.lt_of_le_of_lt hlt hbound) hlt).mono fun _ m' h' =>
      ⟨rfl, h', hkeys, hlen⟩
  | delete x =>
    simp only [HashOp.code, meets_bind, meets_pure]
    refine (h.rep.delete hop).weaken.mono fun _ m' h' => ⟨rfl, h', ?_, ?_⟩
    · exact h.keys.sublist (List.erase_sublist.map env.keyAt)
    · exact Nat.le_trans List.length_erase_le h.bound
  | find key =>
    simp only [HashOp.code, meets_bind, meets_pure]
    refine (h.rep.find h.bound).weaken.mono fun r m' hr => ?_
    obtain ⟨rfl, hsome, hnone⟩ := hr
    exact ⟨congrArg Reply.found (find_unique h.keys hsome hnone), h⟩
  | count =>
    simp only [HashOp.code, meets_bind, meets_pure]
    refine h.rep.count.weaken.mono fun n m' hn => ?_
    obtain ⟨rfl, rfl⟩ := hn
    exact ⟨rfl, h⟩
  | iter =>
    simp only [HashOp.code, meets_bind, meets_pure]
    refine (h.rep.iter h.bound).weaken.mono fun ys m' hys => ?_
    obtain ⟨rfl, rfl⟩ := hys
    exact ⟨rfl, h⟩
  | clear =>
    simp only [HashOp.code, meets_bind, meets_pure]
    exact h.rep.clear.weaken.mono fun _ m' h' => ⟨rfl, h', List.nodup_nil, Nat.zero_le _⟩

/-- Whatever a program does with its hash, from an empty one on: it is what the operations mean
for the elements in the order in which they came, unless the process ends for want of memory.
The hash finds nothing wrong with itself at any time, and when it is empty it has given back all
that it had allocated. -/
theorem hash_runs {bound : Nat} (hbound : bound < UInt32.size) (hhead : m.head = none)
    (htables : ∀ a, m.tables a = none) (harrays : ∀ a, m.arrays a = none)
    {ops : List (HashOp α K)} (hops : AllFit HashOp.apply (HashOp.Fits env bound) [] ops) :
    Meets Exits (ops.mapM (HashOp.code env bound)) m (fun rs m' =>
      rs = replies HashOp.apply (HashOp.reply env) [] ops ∧
      Meets Never (hashFsck bound) m' (fun _ m'' => m'' = m') ∧
      (ops.foldl HashOp.apply [] = [] →
        m'.head = none ∧ (∀ a, m'.tables a = none) ∧ ∀ a, m'.arrays a = none)) := by
  have hempty : Sound env bound [] m :=
    ⟨.empty hhead (funext htables) (funext harrays), List.nodup_nil, Nat.zero_le _⟩
  refine (meets_mapM hempty hops fun op ys t h => h.step hbound).mono ?_
  intro rs m' hrun
  obtain ⟨hrs, hsound⟩ := hrun
  refine ⟨hrs, hsound.rep.fsck hsound.bound, fun hnil => ?_⟩
  have hrep := hsound.rep
  rw [hnil] at hrep
  cases hrep with
  | empty head tables arrays => exact ⟨head, congrFun tables, congrFun arrays⟩
  | filled nonempty => exact absurd rfl nonempty

end Runs

/-- Allocations that succeed as far as there are objects of that size. -/
def generous : Allocator where
  malloc _ size := size < 0x80000000
  bounded _ size h := by simpa [UInt32.not_lt] using h

def numbers : Setting Nat UInt32 where
  toAllocator := generous
  keyAt := .ofNat
  keylen := 4
  hashFcn := id

def noHash : Mem Nat := ⟨none, fun _ => ⟨none, none, none, none, none, none, 0, 0⟩, fun _ => none,
  fun _ => none, 0⟩

/-- Two keys in one bucket, and the first element of the chain is deleted. -/
def collide : List (HashOp Nat UInt32) :=
  [.add 1, .add 33, .find 33, .delete 33, .find 33, .iter, .count, .clear]

theorem collide_runs : Meets Exits (collide.mapM (HashOp.code numbers 2)) noHash (fun rs m' =>
    rs = [.done, .done, .found (some 33), .done, .found none, .visited [1], .counted 1, .done] ∧
    ∀ a, m'.tables a = none) := by
  have hfits : AllFit HashOp.apply (HashOp.Fits numbers 2) [] collide := by
    simp [AllFit, collide, HashOp.Fits, HashOp.apply, numbers]
  have hreplies : replies HashOp.apply (HashOp.reply numbers) [] collide = [.done, .done,
      .found (some 33), .done, .found none, .visited [1], .counted 1, .done] := by
    simp [replies, collide, HashOp.reply, HashOp.apply, numbers]
  have hrun := hash_runs (m := noHash) (by decide) rfl (fun _ => rfl) (fun _ => rfl) hfits
  exact hrun.mono fun rs m' h' => ⟨h'.1.trans hreplies, (h'.2.2 rfl).2.1⟩

end PowerArbiter.Uthash
