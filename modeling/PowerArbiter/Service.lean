import PowerArbiter.Session
import PowerArbiter.Monitor.Run

namespace PowerArbiter
open Monitor Wire

/-- The calls by which the daemon takes and gives back what a connection needs. -/
inductive Action where
  | accept
  | malloc
  | pthreadCreate
  | close
  | free
  | pthreadJoin
  | pthreadDetach
deriving DecidableEq

/-- The return code of `handle_remote_client`, and its calls: `getPeerId`, `memory` and
`thread` tell how `get_peer_id`, `malloc` and `pthread_create` turn out. -/
def handleRemoteClient (getPeerId : Option Errno) (memory : Bool) (thread : Option Errno) :
    Int32 × List Action :=
  match getPeerId with
  | some err => (err.code, [.close])
  | none =>
    if !memory then
      (-ENOMEM, [.close])
    else
      match thread with
      | some err => (err.code, [.malloc, .close, .free])
      | none => (0, [.malloc, .pthreadCreate])

/-- The calls of `__do_handle_client` from `out` on. -/
def Session.out : List Action := [.close, .free]

/-- Where a connection stands. In `operating` the session carries out a request. -/
inductive Stage where
  | accepted
  | refused (ret : Int32)
  | talking (ctx : ClientData) (t : Session (Option Int32))
  | operating (ctx : ClientData) (p : Program Response) (k : Response → Session (Option Int32))
  | ended (err : Int32)

/-- `inbox` has been sent by the client and not yet received, `outbox` is all that the
arbiter has sent. `isOpen` tells that the client has not closed its end. -/
structure Connection where
  inbox : List Byte
  isOpen : Bool
  outbox : List Byte
  stage : Stage
  ledger : List Action

def Connection.start : Connection := ⟨[], true, [], .accepted, [.accept]⟩

/-- What happens on a connection. The first two are done by the client. -/
inductive Act where
  | say (bytes : List Byte)
  | hangUp
  | handle (getPeerId : Option Errno) (memory : Bool) (thread : Option Errno) (ctx : ClientData)
    (frame : Frame)
  /-- No bytes are an orderly shutdown. -/
  | recv (bytes : List Byte)
  | recvFails (e : Errno)
  | send (n : Nat)
  | sendFails (e : Errno)
  /-- The signal that ends the process. -/
  | sigpipe
  | ask
  | operate (es : List (Event sig))
  | answer
  | turn (frame : Frame)
  | out

/-- The process is there after the act. -/
def Act.survived : Act → Bool
  | .sigpipe => false
  | _ => true

abbrev Shared := ReserveDataDatabase × Locks sig Nat

/-- A step of the connection `i` or its client. A `send` to a client that has closed its
end raises the signal. -/
inductive Connection.Step (i : Nat) : Shared → Connection → Act → Shared → Connection → Prop where
  | say {w c} (bytes : List Byte) (isOpen : c.isOpen = true) :
    Step i w c (.say bytes) w { c with inbox := c.inbox ++ bytes }
  | hangUp {w c} (isOpen : c.isOpen = true) : Step i w c .hangUp w { c with isOpen := false }
  | handle {w c getPeerId memory thread ctx frame} (stage : c.stage = .accepted) :
    Step i w c (.handle getPeerId memory thread ctx frame) w { c with
      stage := if (handleRemoteClient getPeerId memory thread).1 = 0
        then .talking ctx (Session.turn frame)
        else .refused (handleRemoteClient getPeerId memory thread).1
      ledger := c.ledger ++ (handleRemoteClient getPeerId memory thread).2 }
  | recv {w c ctx len k later} (bytes : List Byte) (stage : c.stage = .talking ctx (.recv len k))
    (inbox : c.inbox = bytes ++ later) (pos : bytes ≠ []) (bound : bytes.length ≤ len) :
    Step i w c (.recv bytes) w { c with inbox := later, stage := .talking ctx (k (.ok bytes)) }
  | shutdown {w c ctx len k} (stage : c.stage = .talking ctx (.recv len k))
    (inbox : c.inbox = []) (closed : c.isOpen = false) :
    Step i w c (.recv []) w { c with stage := .talking ctx (k (.ok [])) }
  | recvFails {w c ctx len k} (e : Errno) (stage : c.stage = .talking ctx (.recv len k)) :
    Step i w c (.recvFails e) w { c with stage := .talking ctx (k (.error e)) }
  | send {w c ctx bytes k} (n : Nat) (stage : c.stage = .talking ctx (.send bytes k))
    (isOpen : c.isOpen = true) (pos : 0 < n) (bound : n ≤ bytes.length) :
    Step i w c (.send n) w { c with
      outbox := c.outbox ++ bytes.take n
      stage := .talking ctx (k (.ok n)) }
  | sendFails {w c ctx bytes k} (e : Errno) (stage : c.stage = .talking ctx (.send bytes k))
    (isOpen : c.isOpen = true) :
    Step i w c (.sendFails e) w { c with stage := .talking ctx (k (.error e)) }
  | sigpipe {w c ctx bytes k} (stage : c.stage = .talking ctx (.send bytes k))
    (closed : c.isOpen = false) : Step i w c .sigpipe w c
  | ask {w c ctx q k} (stage : c.stage = .talking ctx (.ask q k)) :
    Step i w c .ask w { c with stage := .operating ctx (handleClient ctx q.1 q.2) k }
  | operate {w c ctx p k p' db L es} (stage : c.stage = .operating ctx p k)
    (move : Move (S := sig) effect i p w.1 w.2 es p' db L) :
    Step i w c (.operate es) (db, L) { c with stage := .operating ctx p' k }
  | answer {w c ctx r k} (stage : c.stage = .operating ctx (.ret r) k) :
    Step i w c .answer w { c with stage := .talking ctx (k r) }
  | turn {w c ctx} (frame : Frame) (stage : c.stage = .talking ctx (.ret none)) :
    Step i w c (.turn frame) w { c with stage := .talking ctx (Session.turn frame) }
  | out {w c ctx err} (stage : c.stage = .talking ctx (.ret (some err))) :
    Step i w c .out w { c with stage := .ended err, ledger := c.ledger ++ Session.out }

/-- The daemon with its clients. Every call of a session is a step of its own, and so are the
steps of the operations between lock and unlock. `alive` tells that no signal has ended the
process. -/
structure Service where
  shared : Shared
  alive : Bool
  conns : Nat → Option Connection

def Service.start (db : ReserveDataDatabase) : Service := ⟨(db, .free), true, fun _ => none⟩

inductive ServiceLabel where
  | accept (i : Nat)
  | act (i : Nat) (a : Act)

/-- A new connection is accepted, or something happens on one. -/
inductive Service.Step : Service → ServiceLabel → Service → Prop where
  | accept {s} (i : Nat) (alive : s.alive = true) (new : s.conns i = none) :
    Step s (.accept i) { s with conns := Function.update s.conns i (some .start) }
  | act {s i c a w c'} (alive : s.alive = true) (conn : s.conns i = some c)
    (step : c.Step i s.shared a w c') :
    Step s (.act i a) ⟨w, a.survived, Function.update s.conns i (some c')⟩

end PowerArbiter
