import PowerArbiter.Dbase

namespace PowerArbiter
open Monitor

def PA_RESERVE_GRANTED : UInt32 := 0x1
def PA_USE_ROOT_RESERVE : UInt32 := 0x2
def PA_NO_ERROR : UInt32 := 0
def PA_BAD_PERMISSIONS : UInt32 := 1
def PA_UID_NOT_FOUND : UInt32 := 2
def PA_INVALID_INPUT : UInt32 := 3
def PA_FAILURE : UInt32 := 4
def PA_UID_EXISTS : UInt32 := 5

/-- `printf("%d", n)` -/
def decimal (n : Int) : List Char :=
  if n < 0 then '-' :: Nat.toDigits 10 n.natAbs else Nat.toDigits 10 n.natAbs

/-- `snprintf(name, CINDER_MAX_NAMELEN, "%d...", uid)`, without the final NUL. The
unsigned uid is printed as a signed int. -/
def kernelName (uid : Uid) (suffix : List Char) : List Char :=
  (decimal uid.toInt32.toInt ++ suffix).take (CINDER_MAX_NAMELEN - 1)

def reserveName (uid : Uid) : List Char :=
  kernelName uid ['_', 'U', 's', 'e', 'r', '_', 'R', 'e', 's', 'e', 'r', 'v', 'e']

def tapName (uid : Uid) : List Char := kernelName uid ['_', 'U', 's', 'e', 'r', '_', 'T', 'a', 'p']

/-- The conversions to `long` at the calls of `cinder_tap_set_rate`. -/
def longOfType (tapType : UInt64) : Long := tapType.toUInt32.toInt32
def longOfValue (tapValue : Int64) : Long := tapValue.toInt32

/-- The return code, and `(*rid, *flags)` when they are written. -/
structure StatResult where
  ret : Long
  out : Option (Int32 × UInt32)
deriving DecidableEq

/-- The label `record_unlock`. -/
def recordUnlock {α : Type} (record : RecordPtr) (result : α) : Program α := do
  reserveRecordUnlock record
  outUnlock result

/-- The branch of `statReserve` for a record whose reserve is not created yet.
The results of the rollback calls are only logged. -/
def createReserveAndTap (record : RecordPtr) (uid : Uid) (rootReserveId : Int32) :
    Program (Except Long Unit) := do
  let rsvName := reserveName uid
  let newReserveId ← cinderCreateReserve rsvName (.ofNat (rsvName.length + 1))
  if newReserveId < 0 then
    return .error newReserveId
  let tapName := tapName uid
  let newTapId ← cinderCreateTap tapName (.ofNat (tapName.length + 1)) rootReserveId newReserveId
  if newTapId < 0 then
    let _ ← cinderPutReserve newReserveId
    return .error newTapId
  let data ← load record
  let err ← cinderTapSetRate newTapId (longOfType data.tapType) (longOfValue data.tapValue)
  if err ≠ 0 then
    let _ ← cinderDeleteTap newTapId
    let _ ← cinderPutReserve newReserveId
    return .error err
  store record (.reserveCreated true)
  store record (.reserveId newReserveId)
  store record (.tapId newTapId)
  return .ok ()

/-- The rest of `statReserve`: expose the reserve of the record. -/
def exposeRecord (record : RecordPtr) (remoteTask : Pid) : Program StatResult := do
  let data ← load record
  let err ← cinderExposeReserve remoteTask data.reserveId CINDER_CAP_ALL
  if err ≠ 0 then
    recordUnlock record ⟨err, none⟩
  else
    let data ← load record
    recordUnlock record ⟨err, some (data.reserveId, PA_RESERVE_GRANTED)⟩

def statReserve (uid : Uid) (remoteTask : Pid) : Program StatResult := do
  let (err, rootReserveId) ← cinderGetRootReserveId
  if err ≠ 0 then
    return ⟨err, none⟩
  let err ← reserveDataDBReadLock
  if err ≠ 0 then
    return ⟨err, none⟩
  match ← reserveDataDBLookupEntryLocked uid with
  | .error err =>
    if err ≠ -ENOENT then
      outUnlock ⟨err, none⟩
    else
      outUnlock ⟨0, some (rootReserveId, PA_USE_ROOT_RESERVE)⟩
  | .ok record =>
    let err ← reserveRecordLock record
    if err ≠ 0 then
      outUnlock ⟨err, none⟩
    else
      let data ← load record
      if data.reserveCreated then
        exposeRecord record remoteTask
      else
        match ← createReserveAndTap record uid rootReserveId with
        | .error err => recordUnlock record ⟨err, none⟩
        | .ok () => exposeRecord record remoteTask

/-- The return code, and `(*tap_type, *tap_value)` when they are written. -/
def getTapParams (uid : Uid) : Program (Int32 × Option (UInt64 × Int64)) := do
  let err ← reserveDataDBReadLock
  if err ≠ 0 then
    return (err, none)
  match ← reserveDataDBLookupEntryLocked uid with
  | .error err => outUnlock (err, none)
  | .ok record =>
    let err ← reserveRecordLock record
    if err ≠ 0 then
      outUnlock (err, none)
    else
      let data ← load record
      recordUnlock record (0, some (data.tapType, data.tapValue))

/-- The parameter check that `setTapParams` and `addReserveParamsForUID` share. -/
def validParams (tapType : UInt64) (tapValue : Int64) : Bool :=
  !((tapType ≠ CINDER_TAP_RATE_CONSTANT && tapType ≠ CINDER_TAP_RATE_PROPORTIONAL) ||
    tapValue < 0) &&
  !(tapType = CINDER_TAP_RATE_PROPORTIONAL && tapValue > 100)

/-- The return code and `*error`. -/
def setTapParams (uid : Uid) (tapType : UInt64) (tapValue : Int64) : Program (Int32 × UInt32) := do
  if !validParams tapType tapValue then
    return (-EINVAL, PA_INVALID_INPUT)
  let err ← reserveDataDBReadLock
  if err ≠ 0 then
    return (err, 0)
  match ← reserveDataDBLookupEntryLocked uid with
  | .error err => outUnlock (err, 0)
  | .ok record =>
    let err ← reserveRecordLock record
    if err ≠ 0 then
      outUnlock (err, 0)
    else
      let data ← load record
      let err ←
        if data.reserveCreated then
          cinderTapSetRate data.tapId (longOfType tapType) (longOfValue tapValue)
        else
          pure 0
      if err ≠ 0 then
        recordUnlock record (err, 0)
      else
        store record (.tapType tapType)
        store record (.tapValue tapValue)
        recordUnlock record (0, 0)

/-- The return code and `*error`. `tmp` is what the stack slot of the local
variable holds on entry: its ids are copied into the record unassigned. -/
def addReserveParamsForUID (tmp : UIDReserveData) (uid : Uid) (tapType : UInt64)
    (tapValue : Int64) : Program (Int32 × UInt32) := do
  if !validParams tapType tapValue then
    return (-EINVAL, PA_INVALID_INPUT)
  let tmp := { tmp with reserveCreated := false, tapType := tapType, tapValue := tapValue }
  return (← reserveDataDBAddEntry uid tmp, 0)

def removeReserveParamsForUID (uid : Uid) : Program Int32 := reserveDataDBRemoveEntry uid

/-- What the threads of the running daemon do to the database: the five
controller operations of the handlers, and the pass of the reaper. -/
inductive Op where
  | statReserve (uid : Uid) (remoteTask : Pid)
  | getTapParams (uid : Uid)
  | setTapParams (uid : Uid) (tapType : UInt64) (tapValue : Int64)
  | addReserveParamsForUID (tmp : UIDReserveData) (uid : Uid) (tapType : UInt64) (tapValue : Int64)
  | removeReserveParamsForUID (uid : Uid)
  | reserveDataDBClearUnused

/-- Return codes and output parameters. -/
inductive Outcome where
  | stat (r : StatResult)
  | get (ret : Int32) (out : Option (UInt64 × Int64))
  | set (ret : Int32) (error : UInt32)
  | add (ret : Int32) (error : UInt32)
  | remove (ret : Int32)
  | clear (ret : Int32) (isEmpty : Option Bool)
deriving DecidableEq

def operation : Op → Program Outcome
  | .statReserve uid remoteTask => do
    return .stat (← statReserve uid remoteTask)
  | .getTapParams uid => do
    let (ret, out) ← getTapParams uid
    return .get ret out
  | .setTapParams uid tapType tapValue => do
    let (ret, error) ← setTapParams uid tapType tapValue
    return .set ret error
  | .addReserveParamsForUID tmp uid tapType tapValue => do
    let (ret, error) ← addReserveParamsForUID tmp uid tapType tapValue
    return .add ret error
  | .removeReserveParamsForUID uid => do
    return .remove (← removeReserveParamsForUID uid)
  | .reserveDataDBClearUnused => do
    let (ret, isEmpty) ← reserveDataDBClearUnused
    return .clear ret isEmpty

end PowerArbiter
