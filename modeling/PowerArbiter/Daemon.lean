import PowerArbiter.Monitor.Threads
import PowerArbiter.Controller

namespace PowerArbiter
open Monitor

/-- Whether `reaper_thread_loop` is left after a pass. -/
def leavesLoop (shouldQuit : Bool) (err : Int32) (isEmpty : Bool) : Bool :=
  shouldQuit && (err ≠ 0 || isEmpty)

/-- One iteration of `reaper_thread_loop` after `should_quit` has been read. A pass
that returns 0 has written `is_empty`. -/
def reaperTurn (shouldQuit : Bool) : Program Bool := do
  let (err, isEmpty) ← reserveDataDBClearUnused
  return leavesLoop shouldQuit err (isEmpty = some true)

structure PAContext where
  active : Bool
  numUsers : Int32
  reaperShouldExit : Bool

/-- `main` and `powerArbiterDestroy`. -/
inductive MainPc where
  | waitForSigterm
  | signalArbiterInactive
  | disposeListeningUdSock
  | waitForClientExit
  | reserveDataDBEmpty
  /-- The loop of `HASH_ITER`: the record of this iteration, and of the next. -/
  | hashIter (record tmp : Option RecordPtr)
  | signalReaperExit
  | waitReaperThreadQuit
  | reserveDataDBDestroy
  | freeContext
  | returned
  | exited
deriving DecidableEq

/-- `receiver_thread_loop`. A blocked `accept` keeps the socket as it found it. -/
inductive ReceiverPc where
  | checkActive
  | callAccept
  | accept (listening : Bool)
  | handleRemoteClient
  | returned
deriving DecidableEq

/-- `reaper_thread_loop`. In `visit` it holds `dbase_lock`; `pos` and `n` are
positions on the dead list, and `none` is its head. -/
inductive ReaperPc where
  | checkExit
  | lockDatabase (shouldQuit : Bool)
  | visit (shouldQuit : Bool) (err : Int32) (pos n : Option Nat)
  | decide (shouldQuit : Bool) (err : Int32) (isEmpty : Bool)
  | post
  | returned
deriving DecidableEq

/-- The daemon from the creation of its threads on. `handlers` counts those of the clients. A
critical section of `progctx->lock` is one step: it reads or writes a single field. The
operations of the handlers are single steps too, taken while nobody holds `dbase_lock`. The main
thread empties the table without that lock, so the pass of the reaper is taken record by
record. -/
structure Daemon where
  ctx : PAContext
  listening : Bool
  db : ReserveDataDatabase
  main : MainPc
  receiver : ReceiverPc
  handlers : Nat
  reaper : ReaperPc
  reaperThreadExited : Nat

def Daemon.start : Daemon where
  ctx := ⟨true, 0, false⟩
  listening := true
  db := .empty
  main := .waitForSigterm
  receiver := .checkActive
  handlers := 0
  reaper := .checkExit
  reaperThreadExited := 0

/-- Who takes the next step, and how what it calls turns out: `r` is the reason a
call failed, or `none`. -/
inductive Label where
  | main (r : Option Errno)
  | receiver (r : Option Errno)
  | reaper (r : Option Errno) (es : List (Event sig))
  | request (d : Done sig Op Outcome)
  | hangUp

def nextInTable (db : ReserveDataDatabase) (p : RecordPtr) : Option RecordPtr :=
  db.data[db.data.idxOf p + 1]?

def nextOnDeadList (db : ReserveDataDatabase) (i : Nat) : Option Nat :=
  if i + 1 < db.deadList.length then some (i + 1) else none

def Daemon.mainStep (s : Daemon) (r : Option Errno) : Option Daemon :=
  match s.main, r with
  | .waitForSigterm, none => some { s with main := .signalArbiterInactive }
  | .signalArbiterInactive, none =>
    some { s with ctx := { s.ctx with active := false }, main := .disposeListeningUdSock }
  | .disposeListeningUdSock, none =>
    some { s with listening := false, main := .waitForClientExit }
  | .waitForClientExit, none =>
    if s.ctx.numUsers = 0 then some { s with main := .reserveDataDBEmpty } else some s
  | .reserveDataDBEmpty, none =>
    some { s with main := .hashIter s.db.data.head? (s.db.data.head?.bind (nextInTable s.db)) }
  | .hashIter none _, none => some { s with main := .signalReaperExit }
  | .hashIter (some record) tmp, none =>
    let db := { s.db with
      data := s.db.data.erase record
      deadList := s.db.deadList ++ [record] }
    some { s with db := db, main := .hashIter tmp (tmp.bind (nextInTable db)) }
  | .signalReaperExit, none => some { s with
      ctx := { s.ctx with reaperShouldExit := true }
      main := .waitReaperThreadQuit }
  | .waitReaperThreadQuit, none =>
    if s.reaperThreadExited = 0 then none
    else some { s with
      reaperThreadExited := s.reaperThreadExited - 1
      main := .reserveDataDBDestroy }
  -- the assertions are compiled out
  | .reserveDataDBDestroy, none => some { s with main := .freeContext }
  | .freeContext, none => some { s with main := .returned }
  | .waitForSigterm, some _ | .signalArbiterInactive, some _ | .waitForClientExit, some _
  | .signalReaperExit, some _ | .waitReaperThreadQuit, some _ => some { s with main := .exited }
  | _, _ => none

def Daemon.receiverStep (s : Daemon) (r : Option Errno) : Option Daemon :=
  match s.receiver, r with
  -- the result of the lock attempt is not looked at
  | .checkActive, _ =>
    some { s with receiver := if s.ctx.active then .callAccept else .returned }
  | .callAccept, none => some { s with receiver := .accept s.listening }
  | .accept _, some _ => some { s with receiver := .checkActive }
  | .accept true, none => some { s with receiver := .handleRemoteClient }
  -- `get_peer_id`, `malloc` or `pthread_create` may fail
  | .handleRemoteClient, some _ => some { s with receiver := .checkActive }
  | .handleRemoteClient, none =>
    some { s with handlers := s.handlers + 1, receiver := .checkActive }
  | _, _ => none

/-- The iteration of the pass at the position `i`. `list_for_each_entry_safe` has read the
position after it beforehand. -/
def Daemon.visitStep (s : Daemon) (quit : Bool) (err : Int32) (i : Nat) (n : Option Nat)
    (es : List (Event sig)) : Option Daemon :=
  match s.db.deadList[i]? with
  | none => none
  | some record =>
    match (clearUnusedEntry err record).exec effect s.db es with
    | some (err, db, []) =>
      some { s with db := db, reaper := .visit quit err n (n.bind (nextOnDeadList db)) }
    | _ => none

/-- The events are those of an iteration of the pass. -/
def Daemon.reaperStep (s : Daemon) (r : Option Errno) (es : List (Event sig)) : Option Daemon :=
  match s.reaper with
  | .checkExit =>
    match r with
    | some _ => some { s with reaper := .returned }
    | none => some { s with reaper := .lockDatabase s.ctx.reaperShouldExit }
  | .lockDatabase quit =>
    match r with
    | some e => some { s with reaper := .decide quit e.code false }
    | none =>
      let pos := if s.db.deadList.isEmpty then none else some 0
      some { s with reaper := .visit quit 0 pos (pos.bind (nextOnDeadList s.db)) }
  | .visit quit err none _ => some { s with reaper := .decide quit err s.db.deadList.isEmpty }
  | .visit quit err (some i) n => s.visitStep quit err i n es
  | .decide quit err isEmpty =>
    some { s with reaper := if leavesLoop quit err isEmpty then .post else .checkExit }
  | .post =>
    some { s with reaperThreadExited := s.reaperThreadExited + 1, reaper := .returned }
  | .returned => none

def ReaperPc.holdsLock : ReaperPc → Bool
  | .visit .. => true
  | _ => false

/-- A handler serves one request of its client. -/
def Daemon.requestStep (s : Daemon) (d : Done sig Op Outcome) : Option Daemon :=
  if s.handlers = 0 || s.reaper.holdsLock then none
  else match (operation d.op).exec effect s.db d.trace with
    | some (r, db, []) => if r = d.result then some { s with db := db } else none
    | _ => none

def Daemon.step (s : Daemon) (l : Label) : Option Daemon :=
  if s.main = .exited then none
  else match l with
    | .main r => s.mainStep r
    | .receiver r => s.receiverStep r
    | .reaper r es => s.reaperStep r es
    | .request d => s.requestStep d
    | .hangUp => if s.handlers = 0 then none else some { s with handlers := s.handlers - 1 }

/-- Some thread takes a step. -/
def Advances (s : Daemon) (l : Label) (t : Daemon) : Prop := s.step l = some t

end PowerArbiter
