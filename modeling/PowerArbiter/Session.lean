import PowerArbiter.Protocol
import PowerArbiter.Sock

namespace PowerArbiter
open Wire

def EPROTO : Int32 := 71

/-- What a handler finds on the stack: the variables it does not initialise, and the
bytes where its response is. -/
structure Frame where
  locals : Locals
  response : Nat → Byte

def someFrame : Frame := ⟨noLocals, fun _ => 0⟩

/-- Code of a handler thread. It asks the controller to carry out a request. -/
abbrev Session (α : Type) := Talk Errno (Locals × Query) Response α

namespace Session

/-- `__read_pa_request` -/
def readPaRequest : Session (Except Int32 PARequest) := do
  let bytesToRead : UInt64 := .ofNat PARequest.codec.sizeof
  match ← streamsockRead bytesToRead bytesToRead with
  | .error err => return .error err
  | .ok (numBytesRead, buf) =>
    if numBytesRead < bytesToRead then
      return .error (-EPROTO)
    return .ok (PARequest.codec.fields buf)

/-- Every handler returns what sending its response returns. -/
def reply (image : List Byte) : Session Int32 := do
  match ← streamsockSend image (.ofNat image.length) with
  | .error err => return err
  | .ok _ => return 0

/-- What the handlers have in common: read the query, have it carried out, send the
response. An error of the operation is in the response, not in the return code. -/
def exchange {α : Type} (codec : Codec α) (query : α → Query) (frame : Frame) : Session Int32 := do
  let bytesToRead : UInt64 := .ofNat codec.sizeof
  match ← streamsockRead bytesToRead bytesToRead with
  | .error err => return err
  | .ok (numBytesRead, buf) =>
    if numBytesRead < bytesToRead then
      return -EPROTO
    let response ← .ask (frame.locals, query (codec.fields buf)) .ret
    reply (response.image frame.response)

def handleStatReserve : Frame → Session Int32 := exchange PAStatReserveQuery.codec .stat
def handleGetTapParams : Frame → Session Int32 := exchange PAGetTapParamsQuery.codec .get
def handleSetTapParams : Frame → Session Int32 := exchange PASetTapParamsQuery.codec .set
def handleAddParamsForUid : Frame → Session Int32 := exchange PAAddUIDParamsQuery.codec .add
def handleRemoveParamsForUid : Frame → Session Int32 :=
  exchange PARemoveUIDParamsQuery.codec .remove

/-- The handler that the `switch` selects. -/
def handler (requestType : UInt32) : Option (Frame → Session Int32) :=
  if requestType = PA_STAT_RESERVE then some handleStatReserve
  else if requestType = PA_GET_TAP_PARAMS then some handleGetTapParams
  else if requestType = PA_SET_TAP_PARAMS then some handleSetTapParams
  else if requestType = PA_ADD_UID_PARAMS then some handleAddParamsForUid
  else if requestType = PA_REMOVE_UID_PARAMS then some handleRemoveParamsForUid
  else none

/-- One iteration of the loop of `__do_handle_client`: the value of `err` with which
the loop is left, or `none`. -/
def turn (frame : Frame) : Session (Option Int32) := do
  match ← readPaRequest with
  | .error err => return some err
  | .ok request =>
    if request.requestType = PA_GOODBYE then
      return some 0
    match handler request.requestType with
    | none => return some (-EINVAL)
    | some handle =>
      let err ← handle frame
      return if err ≠ 0 then some err else none

/-- The loop. Every iteration but the last reads a request, so that there are not more
of them than bytes in the stream; `none` would be a loop that goes on. -/
def loop (ctx : ClientData) (frames : Nat → Frame) :
    Nat → Nat → Conn Errno → Program (Option (Int32 × Conn Errno))
  | 0, _, _ => return none
  | turns + 1, i, conn => do
    match ← (turn (frames i)).play (fun q => handleClient ctx q.1 q.2) conn with
    | (some err, conn) => return some (err, conn)
    | (none, conn) => loop ctx frames turns (i + 1) conn

end Session

/-- `__do_handle_client`, up to `out`. The frames are what the handlers find on the
stack in successive iterations. -/
def doHandleClient (ctx : ClientData) (frames : Nat → Frame) (conn : Conn Errno) :
    Program (Option (Int32 × Conn Errno)) :=
  Session.loop ctx frames ((stream conn.incoming).length + 1) 0 conn

end PowerArbiter
