import PowerArbiter.Controller

namespace PowerArbiter
open Monitor

/-- What the arbiter knows about the peer of a connection. -/
structure ClientData where
  pid : Pid
  uid : Uid
  gid : Gid
deriving DecidableEq

structure PAStatReserveQuery where
  uid : UInt64

structure PAStatReserveResponse where
  rid : Int32
  flags : UInt32
  error : UInt32
deriving DecidableEq

structure PAGetTapParamsQuery where
  uid : UInt64

structure PAGetTapParamsResponse where
  tapType : UInt64
  tapValue : Int64
  error : UInt32
deriving DecidableEq

structure PASetTapParamsQuery where
  uid : UInt64
  tapType : UInt64
  tapValue : Int64

structure PASetTapParamsResponse where
  error : UInt32
deriving DecidableEq

structure PAAddUIDParamsQuery where
  uid : UInt64
  tapValue : Int64
  tapType : UInt64

structure PAAddUIDParamsResponse where
  error : UInt32
deriving DecidableEq

structure PARemoveUIDParamsQuery where
  uid : UInt64

structure PARemoveUIDParamsResponse where
  error : UInt32
deriving DecidableEq

/-- What the stack holds where a handler and its callees have local variables
that they do not initialise. -/
structure Locals where
  rid : Int32
  flags : UInt32
  tapType : UInt64
  tapValue : Int64
  tmp : UIDReserveData

def noLocals : Locals := ⟨0, 0, 0, 0, ⟨false, 0, 0, 0, 0⟩⟩

def handleStatReserve (ctx : ClientData) (stack : Locals) (query : PAStatReserveQuery) :
    Program PAStatReserveResponse := do
  let uid : Uid := query.uid.toUInt32
  let result ← statReserve uid ctx.pid
  return if result.ret ≠ 0 then
    ⟨0, 0, PA_FAILURE⟩
  else
    let (rid, flags) := result.out.getD (stack.rid, stack.flags)
    ⟨rid, flags, PA_NO_ERROR⟩

def handleGetTapParams (stack : Locals) (query : PAGetTapParamsQuery) :
    Program PAGetTapParamsResponse := do
  let uid : Uid := query.uid.toUInt32
  let (err, out) ← getTapParams uid
  return if err = -ENOENT then
    ⟨0, 0, PA_UID_NOT_FOUND⟩
  else if err = -EPERM then
    ⟨0, 0, PA_BAD_PERMISSIONS⟩
  else if err ≠ 0 then
    ⟨0, 0, PA_FAILURE⟩
  else
    let (tapType, tapValue) := out.getD (stack.tapType, stack.tapValue)
    ⟨tapType, tapValue, PA_NO_ERROR⟩

def handleSetTapParams (query : PASetTapParamsQuery) : Program PASetTapParamsResponse := do
  let uid : Uid := query.uid.toUInt32
  let (err, error) ← setTapParams uid query.tapType query.tapValue
  return if err = -EPERM then
    ⟨PA_BAD_PERMISSIONS⟩
  else if err = -EINVAL && error = PA_INVALID_INPUT then
    ⟨PA_INVALID_INPUT⟩
  else if err = -ENOENT then
    ⟨PA_UID_NOT_FOUND⟩
  else if err ≠ 0 then
    ⟨PA_FAILURE⟩
  else
    ⟨PA_NO_ERROR⟩

def handleAddParamsForUid (stack : Locals) (query : PAAddUIDParamsQuery) :
    Program PAAddUIDParamsResponse := do
  let uid : Uid := query.uid.toUInt32
  let (err, error) ← addReserveParamsForUID stack.tmp uid query.tapType query.tapValue
  return if err = -EEXIST then
    ⟨PA_UID_EXISTS⟩
  else if err = -EINVAL && error = PA_INVALID_INPUT then
    ⟨PA_INVALID_INPUT⟩
  else if err = -EPERM then
    ⟨PA_BAD_PERMISSIONS⟩
  else if err ≠ 0 then
    ⟨PA_FAILURE⟩
  else
    ⟨PA_NO_ERROR⟩

def handleRemoveParamsForUid (query : PARemoveUIDParamsQuery) :
    Program PARemoveUIDParamsResponse := do
  let uid : Uid := query.uid.toUInt32
  let err ← removeReserveParamsForUID uid
  return if err = -EPERM then
    ⟨PA_BAD_PERMISSIONS⟩
  else if err = -ENOENT then
    ⟨PA_UID_NOT_FOUND⟩
  else if err ≠ 0 then
    ⟨PA_FAILURE⟩
  else
    ⟨PA_NO_ERROR⟩

/-- The requests that are answered, with their queries. -/
inductive Query where
  | stat (q : PAStatReserveQuery)
  | get (q : PAGetTapParamsQuery)
  | set (q : PASetTapParamsQuery)
  | add (q : PAAddUIDParamsQuery)
  | remove (q : PARemoveUIDParamsQuery)

inductive Response where
  | stat (r : PAStatReserveResponse)
  | get (r : PAGetTapParamsResponse)
  | set (r : PASetTapParamsResponse)
  | add (r : PAAddUIDParamsResponse)
  | remove (r : PARemoveUIDParamsResponse)
deriving DecidableEq

/-- The `switch` of `__do_handle_client`. -/
def handleClient (ctx : ClientData) (stack : Locals) : Query → Program Response
  | .stat q => do return .stat (← handleStatReserve ctx stack q)
  | .get q => do return .get (← handleGetTapParams stack q)
  | .set q => do return .set (← handleSetTapParams q)
  | .add q => do return .add (← handleAddParamsForUid stack q)
  | .remove q => do return .remove (← handleRemoveParamsForUid q)

/-- What the threads of the daemon execute: requests of clients and passes of
the reaper. -/
inductive Task where
  | request (ctx : ClientData) (stack : Locals) (query : Query)
  | pass

def task : Task → Program (Option Response)
  | .request ctx stack query => do return some (← handleClient ctx stack query)
  | .pass => do
    let _ ← reserveDataDBClearUnused
    return none

end PowerArbiter
