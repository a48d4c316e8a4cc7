import PowerArbiter.Monitor.Program
import Mathlib.Logic.Function.Basic

namespace PowerArbiter

/-- The target is ARMv5TE, where `int`, `long` and `uid_t` are 32 bits wide. -/
abbrev Uid := UInt32
abbrev Pid := Int32
abbrev Gid := UInt32
abbrev Long := Int32

def EPERM : Int32 := 1
def ENOENT : Int32 := 2
def ENOMEM : Int32 := 12
def EEXIST : Int32 := 17
def EINVAL : Int32 := 22

/-- What a failed `pthread_mutex_lock` returns. -/
structure Errno where
  code : Int32
  nonzero : code ≠ 0
deriving DecidableEq

/-- Records are never freed, so the number of a record serves as its address. -/
abbrev RecordPtr := Nat

structure UIDReserveData where
  reserveCreated : Bool
  reserveId : Int32
  tapId : Int32
  tapType : UInt64
  tapValue : Int64
deriving DecidableEq

structure UIDReserveRecord where
  data : UIDReserveData
  uid : Uid
deriving DecidableEq

/-- `data` is the hash table in the order of insertion. `destroyed` is not in the
source: it logs the calls of `reserveRecordDestroy`, oldest first. -/
structure ReserveDataDatabase where
  data : List RecordPtr
  deadList : List RecordPtr
  heap : RecordPtr → UIDReserveRecord
  next : RecordPtr
  destroyed : List RecordPtr

/-- Assignments to single fields of a record. -/
inductive Field where
  | reserveCreated (v : Bool)
  | reserveId (v : Int32)
  | tapId (v : Int32)
  | tapType (v : UInt64)
  | tapValue (v : Int64)

def Field.set : Field → UIDReserveData → UIDReserveData
  | .reserveCreated v, d => { d with reserveCreated := v }
  | .reserveId v, d => { d with reserveId := v }
  | .tapId v, d => { d with tapId := v }
  | .tapType v, d => { d with tapType := v }
  | .tapValue v, d => { d with tapValue := v }

/-- The accesses to the table, the dead list and the records. -/
inductive Access where
  | hashFind (uid : Uid)
  | hashAdd (record : RecordPtr)
  | hashDelete (record : RecordPtr)
  | hashEntries
  | listAddTail (record : RecordPtr)
  | listEntries
  | listEmpty
  | recordInit (uid : Uid) (data : UIDReserveData)
  | load (record : RecordPtr)
  | store (record : RecordPtr) (field : Field)
  | mutexDestroy (record : RecordPtr)

@[reducible] def Access.Val : Access → Type
  | .hashFind _ => Option RecordPtr
  | .hashEntries | .listEntries => List RecordPtr
  | .listEmpty => Bool
  | .recordInit .. => RecordPtr
  | .load _ => UIDReserveData
  | _ => Unit

namespace ReserveDataDatabase

/-- The database of `reserveDataDBCreateEmpty`. -/
def empty : ReserveDataDatabase :=
  ⟨[], [], fun _ => ⟨⟨false, 0, 0, 0, 0⟩, 0⟩, 0, []⟩

def find (db : ReserveDataDatabase) (uid : Uid) : Option RecordPtr :=
  db.data.find? (fun p => (db.heap p).uid == uid)

/-- The record at `p` with its data changed. -/
def modify (db : ReserveDataDatabase) (p : RecordPtr) (f : UIDReserveData → UIDReserveData) :
    ReserveDataDatabase :=
  { db with heap := Function.update db.heap p { db.heap p with data := f (db.heap p).data } }

/-- A new record, not yet in any list. -/
def allocate (db : ReserveDataDatabase) (record : UIDReserveRecord) : ReserveDataDatabase :=
  { db with heap := Function.update db.heap db.next record, next := db.next + 1 }

end ReserveDataDatabase

def effect : (i : Access) → ReserveDataDatabase → i.Val × ReserveDataDatabase
  | .hashFind uid, db => (db.find uid, db)
  | .hashAdd p, db => ((), { db with data := db.data ++ [p] })
  | .hashDelete p, db => ((), { db with data := db.data.erase p })
  | .hashEntries, db => (db.data, db)
  | .listAddTail p, db => ((), { db with deadList := db.deadList ++ [p] })
  | .listEntries, db => (db.deadList, db)
  | .listEmpty, db => (db.deadList.isEmpty, db)
  | .recordInit uid data, db => (db.next, db.allocate ⟨data, uid⟩)
  | .load p, db => ((db.heap p).data, db)
  | .store p field, db => ((), db.modify p field.set)
  | .mutexDestroy p, db => ((), { db with destroyed := db.destroyed ++ [p] })

end PowerArbiter
