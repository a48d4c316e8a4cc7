import PowerArbiter.Monitor.Replay
import PowerArbiter.Controller

namespace PowerArbiter
open Monitor
open Monitor.Replay (call)

/-- `ids` are the reserve and the tap, once there are any. -/
structure Entry where
  tapType : UInt64
  tapValue : Int64
  ids : Option (Int32 × Int32)
deriving DecidableEq

/-- What the arbiter is for: a map from users, with no heap, no locks and no records that
outlive their removal. `removed` are the reserves of the entries removed so far, which the
reaper looks after. -/
structure Mapping where
  entries : Uid → Option Entry
  removed : List (Option Int32)

/-- What depends on the kernel, which must have been asked just this. -/
abbrev Consulted (α : Type) := Replay Call Answer α

namespace Mapping

def empty : Mapping := ⟨fun _ => none, []⟩

def put (m : Mapping) (uid : Uid) (e : Option Entry) : Mapping :=
  { m with entries := Function.update m.entries uid e }

def add (m : Mapping) (uid : Uid) (tapType : UInt64) (tapValue : Int64) : Outcome × Mapping :=
  if validParams tapType tapValue = false then (.add (-EINVAL) PA_INVALID_INPUT, m)
  else match m.entries uid with
    | some _ => (.add (-EEXIST) 0, m)
    | none => (.add 0 0, m.put uid (some ⟨tapType, tapValue, none⟩))

def remove (m : Mapping) (uid : Uid) : Outcome × Mapping :=
  match m.entries uid with
  | none => (.remove (-ENOENT), m)
  | some e =>
    (.remove 0, { m.put uid none with removed := m.removed ++ [e.ids.map Prod.fst] })

def get (m : Mapping) (uid : Uid) : Outcome × Mapping :=
  match m.entries uid with
  | none => (.get (-ENOENT) none, m)
  | some e => (.get 0 (some (e.tapType, e.tapValue)), m)

/-- The kernel is asked only where there is a tap. -/
def set (m : Mapping) (uid : Uid) (tapType : UInt64) (tapValue : Int64) :
    Consulted (Outcome × Mapping) :=
  if validParams tapType tapValue = false then return (.set (-EINVAL) PA_INVALID_INPUT, m)
  else match m.entries uid with
    | none => return (.set (-ENOENT) 0, m)
    | some ⟨_, _, none⟩ => return (.set 0 0, m.put uid (some ⟨tapType, tapValue, none⟩))
    | some ⟨_, _, some (reserve, tap)⟩ => do
      let rate ← call (.setTapRate tap (longOfType tapType) (longOfValue tapValue))
      if rate.ret ≠ 0 then
        return (.set rate.ret 0, m)
      return (.set 0 0, m.put uid (some ⟨tapType, tapValue, some (reserve, tap)⟩))

/-- The reserve is granted if the kernel exposes it to the process that asks. -/
def grant (pid : Pid) (reserve : Int32) : Consulted Outcome := do
  let expose ← call (.exposeReserve pid reserve CINDER_CAP_ALL)
  if expose.ret ≠ 0 then
    return .stat ⟨expose.ret, none⟩
  return .stat ⟨0, some (reserve, PA_RESERVE_GRANTED)⟩

/-- A reserve, and a tap of this rate that feeds it from the root reserve; or the error, and
nothing that the kernel would have to keep. -/
def supply (uid : Uid) (tapType : UInt64) (tapValue : Int64) (root : Int32) :
    Consulted (Except Int32 (Int32 × Int32)) := do
  let reserve ← call (.createReserve (reserveName uid) (.ofNat ((reserveName uid).length + 1)))
  if reserve.ret < 0 then
    return .error reserve.ret
  let tap ← call (.createTap (tapName uid) (.ofNat ((tapName uid).length + 1)) root reserve.ret)
  if tap.ret < 0 then
    let _ ← call (.putReserve reserve.ret)
    return .error tap.ret
  let rate ← call (.setTapRate tap.ret (longOfType tapType) (longOfValue tapValue))
  if rate.ret ≠ 0 then
    let _ ← call (.deleteTap tap.ret)
    let _ ← call (.putReserve reserve.ret)
    return .error rate.ret
  return .ok (reserve.ret, tap.ret)

def stat (m : Mapping) (uid : Uid) (pid : Pid) : Consulted (Outcome × Mapping) := do
  let root ← call .rootReserveId
  match m.entries uid with
  | none => return (.stat ⟨0, some (root.ret, PA_USE_ROOT_RESERVE)⟩, m)
  | some ⟨_, _, some (reserve, _)⟩ => return (← grant pid reserve, m)
  | some ⟨tapType, tapValue, none⟩ =>
    match ← supply uid tapType tapValue root.ret with
    | .error err => return (.stat ⟨err, none⟩, m)
    | .ok (reserve, tap) =>
      return (← grant pid reserve, m.put uid (some ⟨tapType, tapValue, some (reserve, tap)⟩))

/-- The return code of a pass: that of the last query, if there was any. A reserve whose only
user is the arbiter is given back. -/
def pass : Int32 → List (Option Int32) → Consulted Int32
  | err, [] => return err
  | err, none :: rest => pass err rest
  | _, some reserve :: rest => do
    let query ← call (.reserveInfo reserve)
    if query.ret ≠ 0 then
      pass query.ret rest
    else if query.numUsers = 1 then
      let _ ← call (.putReserve reserve)
      pass 0 rest
    else
      pass 0 rest

/-- A pass of the reaper is invisible to the users. -/
def clear (m : Mapping) : Consulted (Outcome × Mapping) := do
  return (.clear (← pass 0 m.removed) (some m.removed.isEmpty), m)

def step (m : Mapping) : Op → Consulted (Outcome × Mapping)
  | .statReserve uid pid => m.stat uid pid
  | .getTapParams uid => return m.get uid
  | .setTapParams uid tapType tapValue => m.set uid tapType tapValue
  | .addReserveParamsForUID _ uid tapType tapValue => return m.add uid tapType tapValue
  | .removeReserveParamsForUID uid => return m.remove uid
  | .reserveDataDBClearUnused => m.clear

/-- Operations one after the other, each with the calls that the kernel has seen. -/
def run (m : Mapping) : List (Op × List (Call × Answer)) → Option (List Outcome × Mapping)
  | [] => some ([], m)
  | (op, calls) :: rest => do
    let (outcome, m) ← (m.step op).exactly calls
    let (outcomes, m) ← m.run rest
    return (outcome :: outcomes, m)

end Mapping

/-- What the kernel has been asked, and its answers. -/
def kernelCalls : List (Event sig) → List (Call × Answer)
  | [] => []
  | .call .malloc _ :: es | .call .mutexInit _ :: es => kernelCalls es
  | .call c a :: es => (c, a) :: kernelCalls es
  | _ :: es => kernelCalls es

/-- A lock attempt, an allocation or a mutex initialisation that failed. -/
def Refused : Event sig → Prop
  | .lock (some _) | .lockInner _ (some _) => True
  | .call .malloc a => a.ret = 0
  | .call .mutexInit a => a.ret ≠ 0
  | _ => False

end PowerArbiter
