import PowerArbiter.Syscall
import PowerArbiter.Uthash
import PowerArbiter.Lists

namespace PowerArbiter
open Monitor Memory

/-- The places of a `list_head`. -/
inductive Link where
  | deadList
  | deadLink (record : RecordPtr)
deriving DecidableEq

/-- `table` has `data`, the fields `hh` of the records and what uthash has allocated; `links` has
`dead_list` and the fields `dead_link`; `heap` has the other fields of the records. `destroyed`
is the log of the abstract database. Once the code has ended other than by returning, `ended`
says how, and nothing happens any more. -/
structure Storage where
  table : Uthash.Mem RecordPtr
  links : Lists.Mem Link
  heap : RecordPtr → UIDReserveRecord
  next : RecordPtr
  destroyed : List RecordPtr
  ended : Option Ending

namespace Storage

def tablePart : Part Storage (Uthash.Mem RecordPtr) where
  get := table
  set t s := { s with table := t }
  get_set _ _ := rfl
  set_get _ := rfl

def linksPart : Part Storage (Lists.Mem Link) where
  get := links
  set l s := { s with links := l }
  get_set _ _ := rfl
  set_get _ := rfl

/-- A record with its data changed. -/
def modify (s : Storage) (p : RecordPtr) (f : UIDReserveData → UIDReserveData) : Storage :=
  { s with heap := Function.update s.heap p { s.heap p with data := f (s.heap p).data } }

end Storage

/-- A `uid_t` in memory. -/
def uidBytes (uid : Uid) : List UInt8 :=
  [uid.toUInt8, (uid >>> 8).toUInt8, (uid >>> 16).toUInt8, (uid >>> 24).toUInt8]

/-- The arguments of `HASH_FIND` and `HASH_ADD`: the key of a record is its `uid`. -/
def setting (alloc : Uthash.Allocator) (heap : RecordPtr → UIDReserveRecord) :
    Uthash.Setting RecordPtr Uid where
  toAllocator := alloc
  keyAt record := (heap record).uid
  keylen := 4
  hashFcn uid := Uthash.hashJen (uidBytes uid)

/-- The body of a loop that notes the entries of the dead list. `list_entry` gives a record for
the link of one. -/
def noteEntry (records : List RecordPtr) : Link → Code (Lists.Mem Link) (List RecordPtr)
  | .deadLink record => return records ++ [record]
  | .deadList => throw .faulted

/-- What the code of `dbase.c` does at its accesses. No loop in it makes more turns than there
are records. -/
def Access.code (alloc : Uthash.Allocator) : (i : Access) → Code Storage i.Val
  | .hashFind uid => do
    let s ← get
    zoom Storage.tablePart (Uthash.hashFind (setting alloc s.heap) s.next uid)
  | .hashAdd record => do
    let s ← get
    zoom Storage.tablePart (Uthash.hashAdd (setting alloc s.heap) s.next record)
  | .hashDelete record => zoom Storage.tablePart (Uthash.hashDelete record)
  | .hashEntries => do
    let fuel := (← get).next
    zoom Storage.tablePart
      (Uthash.hashIter .whole fuel (fun records record => pure (records ++ [record])) [])
  | .listAddTail record => zoom Storage.linksPart (Lists.listAddTail (.deadLink record) .deadList)
  | .listEntries => do
    let fuel := (← get).next
    zoom Storage.linksPart (Lists.listForEachEntrySafe fuel .deadList noteEntry [])
  | .listEmpty => zoom Storage.linksPart (Lists.listEmpty .deadList)
  | .recordInit uid data => do
    let s ← get
    set { s with heap := Function.update s.heap s.next ⟨data, uid⟩, next := s.next + 1 }
    return s.next
  | .load record => return ((← get).heap record).data
  | .store record field => modify (·.modify record field.set)
  | .mutexDestroy record => modify fun s => { s with destroyed := s.destroyed ++ [record] }

/-- What an access gives when the process has ended. -/
def Access.nothing : (i : Access) → i.Val
  | .hashFind _ => none
  | .hashEntries | .listEntries => []
  | .listEmpty => false
  | .recordInit .. => 0
  | .load _ => ⟨false, 0, 0, 0, 0⟩
  | .hashAdd _ | .hashDelete _ | .listAddTail _ | .store .. | .mutexDestroy _ => ()

def storage (alloc : Uthash.Allocator) : Machine sig Storage := fun i s =>
  match s.ended with
  | some _ => (i.nothing, s)
  | none =>
    match i.code alloc s with
    | .ok v s' => (v, s')
    | .error e s' => (i.nothing, { s' with ended := some e })

/-- Memory before the database is made: nothing is allocated, and what later records are made
of may contain anything in their links. -/
structure Storage.Blank (s : Storage) : Prop where
  tables : s.table.tables = fun _ => none
  arrays : s.table.arrays = fun _ => none
  heap : s.heap = ReserveDataDatabase.empty.heap
  next : s.next = 0
  destroyed : s.destroyed = []
  ended : s.ended = none

/-- `reserveDataDBCreateEmpty` from where the database is allocated. -/
def createEmptyStorage : Code Storage Unit := do
  zoom Storage.tablePart (Uthash.setHead none)
  zoom Storage.linksPart (Lists.initListHead .deadList)

/-- `reserveDataDBEmpty`. -/
def emptyStorage : Code Storage Unit := do
  Uthash.hashIter Storage.tablePart (← get).next (fun _ record => do
    zoom Storage.tablePart (Uthash.hashDelete record)
    zoom Storage.linksPart (Lists.listAddTail (.deadLink record) .deadList)) ()

end PowerArbiter
