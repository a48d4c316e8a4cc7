import PowerArbiter.Memory.Code
import Mathlib.Logic.Function.Basic

namespace PowerArbiter.Uthash
open Memory

structure UTHashBucket (α : Type) where
  hhHead : Option α
  count : UInt32
  expandMult : UInt32

structure UTHashTable (α : Type) where
  buckets : Option Nat
  numBuckets : UInt32
  log2NumBuckets : UInt32
  numItems : UInt32
  tail : Option α
  idealChainMaxlen : UInt32
  nonidealItems : UInt32
  ineffExpands : UInt32
  noexpand : UInt32

/-- An element has one handle, `hh`, so the address of the element also stands for that of its
handle, and the macros' way between the two by `hho` is the identity. `key` points to the key
field of an element. -/
structure UTHashHandle (α : Type) where
  tbl : Option Nat
  prev : Option α
  next : Option α
  hhPrev : Option α
  hhNext : Option α
  key : Option α
  keylen : UInt32
  hashv : UInt32

/-- A block of buckets. -/
structure Buckets (α : Type) where
  size : Nat
  cell : Nat → UTHashBucket α

/-- `head` is the macros' argument of that name. Where no table or block of buckets
is allocated there is `none`; an address is the number of its allocation. -/
@[ext] structure Mem (α : Type) where
  head : Option α
  hh : α → UTHashHandle α
  tables : Nat → Option (UTHashTable α)
  arrays : Nat → Option (Buckets α)
  mallocs : Nat

/-- `malloc` by the number of the request and its size. No object is as large as half of the
address space. -/
structure Allocator where
  malloc : Nat → UInt32 → Bool
  bounded : ∀ n size, 0x80000000 ≤ size → malloc n size = false

/-- What a program brings along: the keys of its elements, of one length, and their hash
function. -/
structure Setting (α K : Type) extends Allocator where
  keyAt : α → K
  keylen : UInt32
  hashFcn : K → UInt32

def HASH_INITIAL_NUM_BUCKETS : UInt32 := 32
def HASH_INITIAL_NUM_BUCKETS_LOG2 : UInt32 := 5
def HASH_BKT_CAPACITY_THRESH : UInt32 := 10

def sizeofTable : UInt32 := 44
def sizeofBucket : UInt32 := 12

/-- One line of `HASH_JEN_MIX`. -/
def jenLine (a b c shifted : UInt32) : UInt32 := (a - b - c) ^^^ shifted

def hashJenMix (a b c : UInt32) : UInt32 × UInt32 × UInt32 :=
  let a := jenLine a b c (c >>> 13)
  let b := jenLine b c a (a <<< 8)
  let c := jenLine c a b (b >>> 13)
  let a := jenLine a b c (c >>> 12)
  let b := jenLine b c a (a <<< 16)
  let c := jenLine c a b (b >>> 5)
  let a := jenLine a b c (c >>> 3)
  let b := jenLine b c a (a <<< 10)
  let c := jenLine c a b (b >>> 15)
  (a, b, c)

/-- Four bytes of the key from position `n` on; beyond the end of the key there are none. -/
def jenWord (key : List UInt8) (n : Nat) : UInt32 :=
  let byte (k : Nat) : UInt32 := ((key[n + k]?).getD 0).toUInt32
  byte 0 + (byte 1 <<< 8) + (byte 2 <<< 16) + (byte 3 <<< 24)

/-- The last bytes, fewer than twelve, where `hashv` has got the length of the key already. Its
lowest byte stays free for it. -/
def hashJenLast (i j hashv : UInt32) (rest : List UInt8) : UInt32 :=
  (hashJenMix (i + jenWord rest 0) (j + jenWord rest 4)
    (hashv + (jenWord (rest.drop 8) 0 <<< 8))).2.2

def hashJenFrom (keylen : UInt32) : UInt32 → UInt32 → UInt32 → List UInt8 → UInt32
  | i, j, hashv, k0 :: k1 :: k2 :: k3 :: k4 :: k5 :: k6 :: k7 :: k8 :: k9 :: k10 :: k11 :: rest =>
    let (i, j, hashv) := hashJenMix (i + jenWord [k0, k1, k2, k3] 0)
      (j + jenWord [k4, k5, k6, k7] 0) (hashv + jenWord [k8, k9, k10, k11] 0)
    hashJenFrom keylen i j hashv rest
  | i, j, hashv, rest => hashJenLast i j (hashv + keylen) rest

/-- `HASH_FCN`, unless another one is chosen. On the target a `char` is unsigned. -/
def hashJen (key : List UInt8) : UInt32 :=
  hashJenFrom (.ofNat key.length) 0x9e3779b9 0x9e3779b9 0xfeedbeef key

variable {α K : Type} [DecidableEq α] [DecidableEq K]

namespace Mem

def setHh (m : Mem α) (x : α) (f : UTHashHandle α → UTHashHandle α) : Mem α :=
  { m with hh := Function.update m.hh x (f (m.hh x)) }

def setTable (m : Mem α) (a : Nat) (t : Option (UTHashTable α)) : Mem α :=
  { m with tables := Function.update m.tables a t }

def setArray (m : Mem α) (a : Nat) (b : Option (Buckets α)) : Mem α :=
  { m with arrays := Function.update m.arrays a b }

def setHead (m : Mem α) (x : Option α) : Mem α := { m with head := x }

def countMalloc (m : Mem α) : Mem α := { m with mallocs := m.mallocs + 1 }

end Mem

def Buckets.set (b : Buckets α) (i : Nat) (c : UTHashBucket α) : Buckets α :=
  { b with cell := Function.update b.cell i c }

def hhOf (x : α) : Code (Mem α) (UTHashHandle α) := do
  return (← get).hh x

def setHh (x : α) (f : UTHashHandle α → UTHashHandle α) : Code (Mem α) Unit :=
  modify (·.setHh x f)

def setHead (x : Option α) : Code (Mem α) Unit :=
  modify (·.setHead x)

/-- A freed table is a fault, as null is. -/
def tableAt (a : Nat) : Code (Mem α) (UTHashTable α) := do
  deref ((← get).tables a)

def setTable (a : Nat) (f : UTHashTable α → UTHashTable α) : Code (Mem α) Unit := do
  let t ← tableAt a
  modify (·.setTable a (some (f t)))

def freeTable (a : Nat) : Code (Mem α) Unit := do
  let _ ← tableAt a
  modify (·.setTable a none)

def arrayAt (a : Nat) : Code (Mem α) (Buckets α) := do
  deref ((← get).arrays a)

def freeArray (a : Nat) : Code (Mem α) Unit := do
  let _ ← arrayAt a
  modify (·.setArray a none)

def bucketAt (a i : Nat) : Code (Mem α) (UTHashBucket α) := do
  let b ← arrayAt a
  if i < b.size then return b.cell i else throw .faulted

def setBucket (a i : Nat) (f : UTHashBucket α → UTHashBucket α) : Code (Mem α) Unit := do
  let b ← arrayAt a
  if i < b.size then modify (·.setArray a (some (b.set i (f (b.cell i))))) else throw .faulted

/-- The table of the element that `head` points to. -/
def headTable : Code (Mem α) Nat := do
  let head ← deref (← get).head
  deref (← hhOf head).tbl

variable (env : Setting α K)

/-- `uthash_malloc`, and `uthash_fatal` where it fails. -/
def uthashMalloc (size : UInt32) : Code (Mem α) Nat := do
  let m ← get
  set m.countMalloc
  if env.malloc m.mallocs size then return m.mallocs else throw .exited

/-- `memset` to zero of a new block of buckets. -/
def mallocBuckets (size : UInt32) : Code (Mem α) Nat := do
  let a ← uthashMalloc env size
  modify (·.setArray a (some ⟨size.toNat / sizeofBucket.toNat, fun _ => ⟨none, 0, 0⟩⟩))
  return a

def hashMakeTable (head : α) : Code (Mem α) Unit := do
  let tbl ← uthashMalloc env sizeofTable
  setHh head ({ · with tbl := some tbl })
  modify (·.setTable tbl (some ⟨none, HASH_INITIAL_NUM_BUCKETS, HASH_INITIAL_NUM_BUCKETS_LOG2, 0,
    some head, 0, 0, 0, 0⟩))
  let buckets ← mallocBuckets env (HASH_INITIAL_NUM_BUCKETS * sizeofBucket)
  setTable tbl ({ · with buckets := some buckets })

def hashToBkt (hashv numBkts : UInt32) : Nat := (hashv &&& (numBkts - 1)).toNat

/-- The handle becomes the first of a bucket's chain. -/
def linkFirst (buckets bkt : Nat) (hh : α) : Code (Mem α) Unit := do
  let b ← bucketAt buckets bkt
  setHh hh ({ · with hhNext := b.hhHead, hhPrev := none })
  match b.hhHead with
  | some first => setHh first ({ · with hhPrev := some hh })
  | none => pure ()
  setBucket buckets bkt ({ · with hhHead := some hh })

/-- The inner loop of `HASH_EXPAND_BUCKETS`. -/
def expandChain (tbl new : Nat) : Nat → Option α → Code (Mem α) Unit
  | _, none => pure ()
  | 0, some _ => throw .endless
  | fuel + 1, some thh => do
    let hhNxt := (← hhOf thh).hhNext
    let t ← tableAt tbl
    let bkt := hashToBkt (← hhOf thh).hashv (t.numBuckets * 2)
    setBucket new bkt (fun b => { b with count := b.count + 1 })
    let count := (← bucketAt new bkt).count
    if count > t.idealChainMaxlen then
      setTable tbl (fun t => { t with nonidealItems := t.nonidealItems + 1 })
      if t.idealChainMaxlen = 0 then
        throw .faulted
      setBucket new bkt ({ · with expandMult := count / t.idealChainMaxlen })
    linkFirst new bkt thh
    expandChain tbl new fuel hhNxt

def hashExpandBuckets (fuel tbl : Nat) : Code (Mem α) Unit := do
  let t ← tableAt tbl
  let new ← mallocBuckets env (2 * t.numBuckets * sizeofBucket)
  setTable tbl (fun t => { t with
    idealChainMaxlen := (t.numItems >>> (t.log2NumBuckets + 1)) +
      (if t.numItems &&& (t.numBuckets * 2 - 1) ≠ 0 then 1 else 0)
    nonidealItems := 0 })
  let old ← deref t.buckets
  times (fun i => do expandChain tbl new fuel (← bucketAt old i).hhHead) 0 t.numBuckets.toNat
  freeArray old
  setTable tbl (fun t => { t with
    numBuckets := t.numBuckets * 2
    log2NumBuckets := t.log2NumBuckets + 1
    buckets := some new
    ineffExpands := if t.nonidealItems > t.numItems >>> 1 then t.ineffExpands + 1 else 0 })
  if (← tableAt tbl).ineffExpands > 1 then
    setTable tbl ({ · with noexpand := 1 })

def hashAddToBkt (fuel buckets bkt : Nat) (addhh : α) : Code (Mem α) Unit := do
  setBucket buckets bkt (fun b => { b with count := b.count + 1 })
  linkFirst buckets bkt addhh
  let b ← bucketAt buckets bkt
  if b.count ≥ (b.expandMult + 1) * HASH_BKT_CAPACITY_THRESH then
    let tbl ← deref (← hhOf addhh).tbl
    if (← tableAt tbl).noexpand ≠ 1 then
      hashExpandBuckets env fuel tbl

/-- The element becomes the last in application order. -/
def addLast (add : α) : Code (Mem α) Unit := do
  setHh add ({ · with next := none, key := some add, keylen := env.keylen })
  match (← get).head with
  | none =>
    setHead (some add)
    setHh add ({ · with prev := none })
    hashMakeTable env add
  | some _ =>
    let tbl ← headTable
    let tail ← deref (← tableAt tbl).tail
    setHh tail ({ · with next := some add })
    setHh add ({ · with prev := some tail })
    setTable tbl ({ · with tail := some add })

def hashAdd (fuel : Nat) (add : α) : Code (Mem α) Unit := do
  addLast env add
  let tbl ← headTable
  setTable tbl (fun t => { t with numItems := t.numItems + 1 })
  setHh add ({ · with tbl := some tbl })
  let t ← tableAt tbl
  setHh add ({ · with hashv := env.hashFcn (env.keyAt add) })
  hashAddToBkt env fuel (← deref t.buckets)
    (hashToBkt (env.hashFcn (env.keyAt add)) t.numBuckets) add

def hashFindInBkt (key : K) : Nat → Option α → Code (Mem α) (Option α)
  | _, none => return none
  | 0, some _ => throw .endless
  | fuel + 1, some out => do
    if (← hhOf out).keylen = env.keylen then
      if env.keyAt (← deref (← hhOf out).key) = key then
        return some out
    hashFindInBkt key fuel (← hhOf out).hhNext

def hashFind (fuel : Nat) (key : K) : Code (Mem α) (Option α) := do
  match (← get).head with
  | none => return none
  | some _ =>
    let t ← tableAt (← headTable)
    let b ← bucketAt (← deref t.buckets) (hashToBkt (env.hashFcn key) t.numBuckets)
    hashFindInBkt env key fuel b.hhHead

def hashDelInBkt (buckets bkt : Nat) (hhDel : α) : Code (Mem α) Unit := do
  setBucket buckets bkt (fun b => { b with count := b.count - 1 })
  if (← bucketAt buckets bkt).hhHead = some hhDel then
    let next := (← hhOf hhDel).hhNext
    setBucket buckets bkt ({ · with hhHead := next })
  match (← hhOf hhDel).hhPrev with
  | some prev =>
    let next := (← hhOf hhDel).hhNext
    setHh prev ({ · with hhNext := next })
  | none => pure ()
  match (← hhOf hhDel).hhNext with
  | some next =>
    let prev := (← hhOf hhDel).hhPrev
    setHh next ({ · with hhPrev := prev })
  | none => pure ()

/-- The way from the previous element to its handle has none from null. -/
def patchTail (tbl : Nat) (delptr : α) : Code (Mem α) Unit := do
  if (← tableAt tbl).tail = some delptr then
    let prev ← deref (← hhOf delptr).prev
    setTable tbl ({ · with tail := some prev })

/-- "The usual" patch-up process for the list in application order. -/
def patchUp (tbl : Nat) (delptr : α) : Code (Mem α) Unit := do
  patchTail tbl delptr
  match (← hhOf delptr).prev with
  | some prev =>
    let next := (← hhOf delptr).next
    setHh prev ({ · with next := next })
  | none => setHead (← hhOf delptr).next
  match (← hhOf delptr).next with
  | some next =>
    let prev := (← hhOf delptr).prev
    setHh next ({ · with prev := prev })
  | none => pure ()

def hashDelete (delptr : α) : Code (Mem α) Unit := do
  if (← hhOf delptr).prev = none ∧ (← hhOf delptr).next = none then
    let tbl ← headTable
    freeArray (← deref (← tableAt tbl).buckets)
    freeTable tbl
    setHead none
  else
    patchUp (← headTable) delptr
    let tbl ← headTable
    let t ← tableAt tbl
    hashDelInBkt (← deref t.buckets) (hashToBkt (← hhOf delptr).hashv t.numBuckets) delptr
    setTable tbl (fun t => { t with numItems := t.numItems - 1 })

def hashCount : Code (Mem α) UInt32 := do
  match (← get).head with
  | none => return 0
  | some _ => return (← tableAt (← headTable)).numItems

def hashClear : Code (Mem α) Unit := do
  match (← get).head with
  | none => pure ()
  | some _ =>
    let tbl ← headTable
    freeArray (← deref (← tableAt tbl).buckets)
    freeTable tbl
    setHead none

/-- Its loops along a list: `back` is the element before, and the result counts the elements. -/
def fsckWalk (next prev : UTHashHandle α → Option α) :
    Nat → Option α → Option α → UInt32 → Code (Mem α) UInt32
  | _, _, none, count => return count
  | 0, _, some _, _ => throw .endless
  | fuel + 1, back, some thh, count => do
    if back ≠ prev (← hhOf thh) then
      throw .exited
    fsckWalk next prev fuel (some thh) (next (← hhOf thh)) (count + 1)

def fsckBuckets (fuel tbl : Nat) : Nat → Nat → UInt32 → Code (Mem α) UInt32
  | _, 0, count => return count
  | bkt, n + 1, count => do
    let b ← bucketAt (← deref (← tableAt tbl).buckets) bkt
    let bktCount ← fsckWalk (·.hhNext) (·.hhPrev) fuel none b.hhHead 0
    if b.count ≠ bktCount then
      throw .exited
    fsckBuckets fuel tbl (bkt + 1) n (count + bktCount)

/-- Additions and deletions end with it where `HASH_DEBUG` is defined. `HASH_OOPS` ends the
process. -/
def hashFsck (fuel : Nat) : Code (Mem α) Unit := do
  match (← get).head with
  | none => pure ()
  | some head =>
    let tbl ← headTable
    let count ← fsckBuckets fuel tbl 0 (← tableAt tbl).numBuckets.toNat 0
    if count ≠ (← tableAt tbl).numItems then
      throw .exited
    let count ← fsckWalk (·.next) (·.prev) fuel none (some head) 0
    if count ≠ (← tableAt tbl).numItems then
      throw .exited

/-- The loop of `HASH_ITER` from `el` on, with `tmp` read ahead. The body may work on more
than the memory of the hash, and what it carries along is `acc`. -/
def iterFrom {σ β : Type} (hash : Part σ (Mem α)) (body : β → α → Code σ β) :
    Nat → Option α → Option α → β → Code σ β
  | _, none, _, acc => return acc
  | 0, some _, _, _ => throw .endless
  | fuel + 1, some el, tmp, acc => do
    let acc ← body acc el
    match tmp with
    | none => iterFrom hash body fuel none none acc
    | some p => iterFrom hash body fuel (some p) (← zoom hash (hhOf p)).next acc

def hashIter {σ β : Type} (hash : Part σ (Mem α)) (fuel : Nat) (body : β → α → Code σ β)
    (acc : β) : Code σ β := do
  match (← zoom hash get).head with
  | none => return acc
  | some head => iterFrom hash body fuel (some head) (← zoom hash (hhOf head)).next acc

end PowerArbiter.Uthash
