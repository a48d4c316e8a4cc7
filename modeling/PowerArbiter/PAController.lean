import PowerArbiter.Protocol
import PowerArbiter.Sock

namespace PowerArbiter
open Wire

/-- Code of the client. It only sends and receives. -/
abbrev Client (α : Type) := Talk Errno Empty Empty α

namespace PAController

/-- What the handlers have in common once their input is read: send the type and the
query, read the response. Short of that they return the `ret` of the last transfer. -/
def transact {α : Type} (query : Query) (codec : Codec α) : Client (Except Int32 α) := do
  let requestType := PARequest.codec.encode ⟨query.requestType⟩
  match ← streamsockSend requestType (.ofNat requestType.length) with
  | .error ret => return .error ret
  | .ok numTransferred =>
    if numTransferred ≠ .ofNat requestType.length then
      return .error 0
    match ← streamsockSend query.encode (.ofNat query.encode.length) with
    | .error ret => return .error ret
    | .ok numTransferred =>
      if numTransferred ≠ .ofNat query.encode.length then
        return .error 0
      match ← streamsockRead (.ofNat codec.sizeof) (.ofNat codec.sizeof) with
      | .error ret => return .error ret
      | .ok (numTransferred, buf) =>
        if numTransferred ≠ .ofNat codec.sizeof then
          return .error 0
        return .ok (codec.fields buf)

/-- The line that asks for a tap type. -/
def tapTypeOf (input : List Char) : Option Long :=
  if input = ['c'] ∨ input = ['C'] then some CINDER_TAP_RATE_CONSTANT.toUInt32.toInt32
  else if input = ['p'] ∨ input = ['P'] then some CINDER_TAP_RATE_PROPORTIONAL.toUInt32.toInt32
  else none

/-- The return code of a handler, and the response that it prints. -/
abbrev Reported := Int32 × Option Response

def handleAddReserveMapping (uid : Uid) (tapValue : Long) (input : List Char) :
    Client Reported := do
  if tapValue < 0 then
    return (-EINVAL, none)
  match tapTypeOf input with
  | none => return (-EINVAL, none)
  | some tapType =>
    let query : PAAddUIDParamsQuery := ⟨uid.toUInt64, tapValue.toInt64, tapType.toInt64.toUInt64⟩
    match ← transact (.add query) PAAddUIDParamsResponse.codec with
    | .error ret => return (ret, none)
    | .ok response => return (0, some (.add response))

def handleDelReserveMapping (uid : Uid) : Client Reported := do
  match ← transact (.remove ⟨uid.toUInt64⟩) PARemoveUIDParamsResponse.codec with
  | .error ret => return (ret, none)
  | .ok response => return (0, some (.remove response))

def handleGetReserveMappingData (uid : Uid) : Client Reported := do
  match ← transact (.get ⟨uid.toUInt64⟩) PAGetTapParamsResponse.codec with
  | .error ret => return (ret, none)
  | .ok response => return (0, some (.get response))

def handleSetReserveMappingData (uid : Uid) (tapValue : Long) (input : List Char) :
    Client Reported := do
  if tapValue < 0 then
    return (-EINVAL, none)
  match tapTypeOf input with
  | none => return (-EINVAL, none)
  | some tapType =>
    let query : PASetTapParamsQuery := ⟨uid.toUInt64, tapType.toInt64.toUInt64, tapValue.toInt64⟩
    match ← transact (.set query) PASetTapParamsResponse.codec with
    | .error ret => return (ret, none)
    | .ok response => return (0, some (.set response))

def handleConnectToUidReserve (uid : Uid) : Client Reported := do
  match ← transact (.stat ⟨uid.toUInt64⟩) PAStatReserveResponse.codec with
  | .error ret => return (ret, none)
  | .ok response =>
    let badFlags := response.error = PA_NO_ERROR ∧
      response.flags &&& PA_USE_ROOT_RESERVE = 0 ∧ response.flags &&& PA_RESERVE_GRANTED = 0
    return (if badFlags then -EINVAL else 0, some (.stat response))

/-- A command with the lines that the user enters for it. -/
inductive Command where
  | add (uid : Uid) (tapValue : Long) (input : List Char)
  | del (uid : Uid)
  | get (uid : Uid)
  | set (uid : Uid) (tapValue : Long) (input : List Char)
  | connect (uid : Uid)

/-- The handler that `main` calls. -/
def Command.handle : Command → Client Reported
  | .add uid tapValue input => handleAddReserveMapping uid tapValue input
  | .del uid => handleDelReserveMapping uid
  | .get uid => handleGetReserveMappingData uid
  | .set uid tapValue input => handleSetReserveMappingData uid tapValue input
  | .connect uid => handleConnectToUidReserve uid

/-- What it returns is not looked at. -/
def disconnectFromServer : Client Int32 := do
  let requestType := PARequest.codec.encode ⟨PA_GOODBYE⟩
  match ← streamsockSend requestType (.ofNat requestType.length) with
  | .error ret => return ret
  | .ok numTransferred =>
    if numTransferred ≠ .ofNat requestType.length then
      return 0
    return 0

/-- The loop of `main` over the commands that use the connection: what their handlers
returned, until one has failed or the input has ended. -/
def main : List Command → Client (List Reported)
  | [] => return []
  | cmd :: cmds => do
    let reported ← cmd.handle
    if reported.1 ≠ 0 then
      let _ ← disconnectFromServer
      return [reported]
    return reported :: (← main cmds)

end PAController

end PowerArbiter
