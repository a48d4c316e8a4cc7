import PowerArbiter.Records

namespace PowerArbiter
open Monitor

def CINDER_MAX_NAMELEN : Nat := 20
def CINDER_CAP_RESERVE_DRAW : UInt32 := 0x1
def CINDER_CAP_RESERVE_MODIFY : UInt32 := 0x2
def CINDER_CAP_ALL : UInt32 := CINDER_CAP_RESERVE_DRAW ||| CINDER_CAP_RESERVE_MODIFY
def CINDER_TAP_RATE_CONSTANT : UInt64 := 1
def CINDER_TAP_RATE_PROPORTIONAL : UInt64 := 2

/-- The Cinder system calls, and the calls of libc whose failure is handled. -/
inductive Call where
  | malloc
  | mutexInit
  | createReserve (name : List Char) (len : UInt32)
  | createTap (name : List Char) (len : Int32) (srcReserve destReserve : Int32)
  | setTapRate (tapId : Int32) (rateType value : Long)
  | putReserve (reserveId : Int32)
  | deleteTap (tapId : Int32)
  | exposeReserve (pid : Pid) (reserveId : Int32) (capabilities : UInt32)
  | rootReserveId
  | reserveInfo (reserveId : Long)
deriving DecidableEq

/-- The return value of a call, and the user count that RESERVE_INFO fills in.
For `malloc` a return value of zero is the null pointer. -/
structure Answer where
  ret : Int32
  numUsers : Int32 := 0
deriving DecidableEq

/-- The daemon as a monitor: `dbase_lock` outside, the `data_lock` of a record
inside, and between them the database. -/
@[reducible] def sig : Sig where
  Fail := Errno
  Inner := RecordPtr
  Call := Call
  Ans := Answer
  Acc := Access
  Val := Access.Val

abbrev Program (α : Type) := Prog sig α

def request (c : Call) : Program Answer := .call c .ret

def cinderCreateReserve (name : List Char) (len : UInt32) : Program Int32 := do
  return (← request (.createReserve name len)).ret

def cinderCreateTap (name : List Char) (len : Int32) (srcReserve destReserve : Int32) :
    Program Int32 := do
  return (← request (.createTap name len srcReserve destReserve)).ret

def cinderTapSetRate (tapId : Int32) (rateType value : Long) : Program Long := do
  return (← request (.setTapRate tapId rateType value)).ret

def cinderPutReserve (reserveId : Int32) : Program Long := do
  return (← request (.putReserve reserveId)).ret

def cinderDeleteTap (tapId : Int32) : Program Long := do
  return (← request (.deleteTap tapId)).ret

def cinderExposeReserve (pid : Pid) (reserveId : Int32) (capabilities : UInt32) :
    Program Long := do
  return (← request (.exposeReserve pid reserveId capabilities)).ret

/-- The error code, and `*num_users` when it is written. -/
def cinderGetNumReserveUsers (rsvId : Long) : Program (Except Int32 Long) := do
  let answer ← request (.reserveInfo rsvId)
  if answer.ret ≠ 0 then
    return .error answer.ret
  return .ok answer.numUsers

/-- The wrapper returns 0 whatever the system call returned. -/
def cinderGetRootReserveId : Program (Int32 × Int32) := do
  return (0, (← request .rootReserveId).ret)

end PowerArbiter
