import PowerArbiter.Syscall

namespace PowerArbiter
open Monitor

def hashFind (uid : Uid) : Program (Option RecordPtr) := .access (.hashFind uid) .ret
def hashAdd (record : RecordPtr) : Program Unit := .access (.hashAdd record) .ret
def hashDelete (record : RecordPtr) : Program Unit := .access (.hashDelete record) .ret
def hashEntries : Program (List RecordPtr) := .access .hashEntries .ret
def listAddTail (record : RecordPtr) : Program Unit := .access (.listAddTail record) .ret
def listEntries : Program (List RecordPtr) := .access .listEntries .ret
def listEmpty : Program Bool := .access .listEmpty .ret
def recordInit (uid : Uid) (data : UIDReserveData) : Program RecordPtr :=
  .access (.recordInit uid data) .ret
def load (record : RecordPtr) : Program UIDReserveData := .access (.load record) .ret
def store (record : RecordPtr) (field : Field) : Program Unit := .access (.store record field) .ret
def mutexDestroy (record : RecordPtr) : Program Unit := .access (.mutexDestroy record) .ret

/-- `pthread_mutex_lock(&dbase->dbase_lock)`: 0 or an error number. -/
def reserveDataDBReadLock : Program Int32 :=
  .lock (fun r => .ret (match r with | none => 0 | some e => e.code))

def reserveDataDBUnlock : Program Unit := .unlock (.ret ())

def reserveRecordLock (record : RecordPtr) : Program Int32 :=
  .lockInner record (fun r => .ret (match r with | none => 0 | some e => e.code))

def reserveRecordUnlock (record : RecordPtr) : Program Unit := .unlockInner record (.ret ())

def reserveDataDBLookupEntryLocked (uid : Uid) : Program (Except Int32 RecordPtr) := do
  match ← hashFind uid with
  | none => return .error (-ENOENT)
  | some record => return .ok record

/-- The label `out`: unlock the database and return. -/
def outUnlock {α : Type} (result : α) : Program α := do
  reserveDataDBUnlock
  return result

/-- On the failure of `pthread_mutex_init` the record is freed before any other
part of the program has seen it. -/
def reserveRecordCreate (uid : Uid) (data : UIDReserveData) : Program (Except Int32 RecordPtr) := do
  let record ← request .malloc
  if record.ret = 0 then
    return .error (-ENOMEM)
  let err ← request .mutexInit
  if err.ret ≠ 0 then
    return .error err.ret
  return .ok (← recordInit uid data)

def reserveDataDBAddEntry (uid : Uid) (rsvData : UIDReserveData) : Program Int32 := do
  let err ← reserveDataDBReadLock
  if err ≠ 0 then
    return err
  match ← hashFind uid with
  | some _ => outUnlock (-EEXIST)
  | none =>
    match ← reserveRecordCreate uid rsvData with
    | .error err => outUnlock err
    | .ok record =>
      hashAdd record
      outUnlock 0

def reserveDataDBRemoveEntry (uid : Uid) : Program Int32 := do
  let err ← reserveDataDBReadLock
  if err ≠ 0 then
    return err
  match ← hashFind uid with
  | none => outUnlock (-ENOENT)
  | some record =>
    hashDelete record
    listAddTail record
    outUnlock 0

/-- The record is neither unlinked from the dead list nor freed here, nor by any
caller. -/
def reserveRecordDestroy (record : RecordPtr) : Program Long := do
  mutexDestroy record
  let data ← load record
  if data.reserveCreated then
    cinderPutReserve data.reserveId
  else
    return 0

/-- The body of the loop over the dead list. `err` is the one variable that all
iterations share. -/
def clearUnusedEntry (err : Int32) (record : RecordPtr) : Program Int32 := do
  let data ← load record
  if !data.reserveCreated then
    let _ ← reserveRecordDestroy record
    return err
  match ← cinderGetNumReserveUsers data.reserveId with
  | .error err => return err
  | .ok numUsers =>
    if numUsers = 1 then
      let _ ← reserveRecordDestroy record
    return 0

def clearUnusedLoop : Int32 → List RecordPtr → Program Int32
  | err, [] => return err
  | err, record :: rest => do
    clearUnusedLoop (← clearUnusedEntry err record) rest

/-- The return code, and `*is_empty` when it is written. The list is read once:
nobody else changes it while `dbase_lock` is held, and the pass itself does not. -/
def reserveDataDBClearUnused : Program (Int32 × Option Bool) := do
  let err ← reserveDataDBReadLock
  if err ≠ 0 then
    return (err, none)
  let err ← clearUnusedLoop err (← listEntries)
  let isEmpty ← listEmpty
  outUnlock (err, some isEmpty)

def emptyLoop : List RecordPtr → Program Unit
  | [] => return ()
  | record :: rest => do
    hashDelete record
    listAddTail record
    emptyLoop rest

/-- Runs without `dbase_lock`. -/
def reserveDataDBEmpty : Program Int32 := do
  emptyLoop (← hashEntries)
  return 0

end PowerArbiter
