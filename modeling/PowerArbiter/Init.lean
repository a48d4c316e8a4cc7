import PowerArbiter.Daemon
import PowerArbiter.Memory.Holdings

namespace PowerArbiter
open Memory

def EINTR : Int32 := 4
def EADDRINUSE : Int32 := 98
def EXIT_FAILURE : Int32 := 1

/-- `path` is the name of the listening socket in the file system, the others belong to the
process. -/
inductive Resource where
  | keepRunning
  | context
  | lock
  | database
  | databaseLock
  | reaperThreadExited
  | socket
  | path
  | reaperThread
  | receiverThread
deriving DecidableEq

/-- Code that runs before the threads of the daemon or after them. -/
abbrev Startup (α : Type) := Code (Holdings Resource Errno) α

/-- The error number of a failed call, or 0. -/
def status : Option Errno → Int32
  | none => 0
  | some e => e.code

/-- A failed `unlink` is ignored, as is one that finds nothing. -/
def unlinkPath : Startup Unit := do
  if (← fate).isNone then
    modify fun s => { s with held := Function.update s.held .path 0 }

/-- `bind` makes the name, unless there is one already. -/
def bindPath : Startup Int32 := do
  match ← fate with
  | some e => return e.code
  | none =>
    if (← get).held .path ≠ 0 then
      return EADDRINUSE
    modify fun s => { s with held := Function.update s.held .path 1 }
    return 0

def createListeningUdSock : Startup Int32 := do
  let err := status (← acquire .socket)
  if err ≠ 0 then
    return err
  unlinkPath
  let err ← bindPath
  if err ≠ 0 then
    release .socket
    return err
  -- `listen`
  let err := status (← fate)
  if err ≠ 0 then
    release .socket
    return err
  return 0

def disposeListeningUdSock : Startup Int32 := do
  release .socket
  unlinkPath
  return 0

def reserveDataDBCreateEmpty : Startup Int32 := do
  if (← acquire .database).isSome then
    return -ENOMEM
  let err := status (← acquire .databaseLock)
  if err ≠ 0 then
    release .database
  return err

/-- The memory is not freed here, nor by any caller. -/
def reserveDataDBDestroy : Startup Int32 := do
  use .database
  release .databaseLock
  return 0

/-- The last of the labels of `powerArbiterInitialize`. -/
def freeCtx (err : Int32) : Startup Int32 := do
  release .context
  return err

def freeMutex (err : Int32) : Startup Int32 := do
  release .lock
  freeCtx err

def freeDb (err : Int32) : Startup Int32 := do
  let _ ← reserveDataDBDestroy
  freeMutex err

def freeReaperStatus (err : Int32) : Startup Int32 := do
  release .reaperThreadExited
  freeDb err

/-- The error code, or the new context. -/
def powerArbiterInitialize : Startup (Except Int32 PAContext) := do
  if (← acquire .context).isSome then
    return .error (-ENOMEM)
  let err := status (← acquire .lock)
  if err ≠ 0 then
    return .error (← freeCtx err)
  let err ← reserveDataDBCreateEmpty
  if err ≠ 0 then
    return .error (← freeMutex err)
  let err := status (← acquire .reaperThreadExited)
  if err ≠ 0 then
    return .error (← freeDb err)
  let err ← createListeningUdSock
  if err ≠ 0 then
    return .error (← freeReaperStatus err)
  return .ok ⟨true, 0, false⟩

/-- `pthread_mutex_lock(&progctx->lock)` -/
def lockContext : Startup Int32 := do
  use .context
  use .lock
  return status (← fate)

/-- The error code, or the context as it is then. -/
def signalArbiterInactive (progctx : PAContext) : Startup (Except Int32 PAContext) := do
  let err ← lockContext
  if err ≠ 0 then
    return .error err
  return .ok { progctx with active := false }

def signalReaperExit (progctx : PAContext) : Startup (Except Int32 PAContext) := do
  let err ← lockContext
  if err ≠ 0 then
    return .error err
  return .ok { progctx with reaperShouldExit := true }

/-- Nobody changes `num_users`. -/
def waitForClientExit (progctx : PAContext) : Nat → Startup Int32
  | 0 => throw .endless
  | n + 1 => do
    let err ← lockContext
    if err ≠ 0 then
      return err
    if progctx.numUsers = 0 then
      return 0
    waitForClientExit progctx n

def interrupted (e : Errno) : Bool := e.code = EINTR

/-- `sem_wait`, which is made again after a signal. It returns in the end. -/
def waitSemaphore (r : Resource) : Startup Int32 := do
  use r
  return status (← retry interrupted ((← get).fates.length + 1))

def waitReaperThreadQuit : Startup Int32 := waitSemaphore .reaperThreadExited

/-- `reserveDataDBEmpty`, which takes and gives back nothing, is left out. -/
def powerArbiterDestroy (progctx : PAContext) : Startup Int32 := do
  match ← signalArbiterInactive progctx with
  | .error err => return err
  | .ok progctx =>
    let err ← disposeListeningUdSock
    if err ≠ 0 then
      return err
    let err ← waitForClientExit progctx 1
    if err ≠ 0 then
      return err
    match ← signalReaperExit progctx with
    | .error err => return err
    | .ok _ =>
      let err ← waitReaperThreadQuit
      if err ≠ 0 then
        return err
      let err ← reserveDataDBDestroy
      if err ≠ 0 then
        return err
      release .lock
      release .reaperThreadExited
      release .context
      return 0

def waitForSigterm : Startup Int32 := do
  let err ← waitSemaphore .keepRunning
  if err ≠ 0 then
    return err
  release .keepRunning
  return 0

/-- The exit status. -/
def Startup.main : Startup Int32 := do
  if (← acquire .keepRunning).isSome then
    return EXIT_FAILURE
  -- `sigaction`
  if (← fate).isSome then
    return EXIT_FAILURE
  match ← powerArbiterInitialize with
  | .error _ => return EXIT_FAILURE
  | .ok progctx =>
    if (← acquire .reaperThread).isSome then
      return EXIT_FAILURE
    if (← acquire .receiverThread).isSome then
      return EXIT_FAILURE
    if (← waitForSigterm) ≠ 0 then
      return EXIT_FAILURE
    if (← powerArbiterDestroy progctx) ≠ 0 then
      return EXIT_FAILURE
    return 0

end PowerArbiter
