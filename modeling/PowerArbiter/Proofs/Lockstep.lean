import PowerArbiter.Proofs.Framing
import PowerArbiter.Proofs.Grants
import PowerArbiter.Proofs.Transact

namespace PowerArbiter
open Monitor Wire PAController

/-- A command with input that the client accepts. -/
structure Entered where
  command : Command
  query : Query
  requests : Requests command query

/-- Bytes that have been sent and not received, in either direction. -/
structure Wires where
  toArbiter : List Byte
  toController : List Byte

/-- What can be seen of a command: the return code of the client's handler and the
response that it read, how the arbiter left the iteration of its loop, the request that
it carried out with its response, and the bytes left over. -/
structure Transcript where
  handled : Reported
  left : Option Int32
  asked : List (Query × Response)
  wires : Wires

/-- The requests of a session, carried out and written down. -/
def logged (ctx : ClientData) (x : Locals × Query) :
    StateT (List (Query × Response)) (Prog sig) Response := fun log => do
  let r ← handleClient ctx x.1 x.2
  return (r, log ++ [(x.2, r)])

/-- A handler of the client and an iteration of the arbiter's loop, with a connection
that cuts the bytes at will but neither fails nor loses any: what one end receives is what
was left before and what the other end sends. -/
inductive Exchange (ctx : ClientData) (frame : Frame) (cmd : Command) (w : Wires)
    (db : ReserveDataDatabase) : List (Event sig) → Transcript → ReserveDataDatabase → Prop where
  | mk (client client' arbiter arbiter' : Conn Errno) (es : List (Event sig)) (handled : Reported)
    (left : Option Int32) (asked : List (Query × Response)) (db' : ReserveDataDatabase)
    (clientSmooth : client.Smooth) (arbiterSmooth : arbiter.Smooth)
    (clientFresh : client.sent = []) (arbiterFresh : arbiter.sent = [])
    (clientRuns : cmd.handle.play (m := Id) Empty.elim client = (handled, client'))
    (arbiterRuns : ((Session.turn frame).play (logged ctx) arbiter []).Runs effect db es
      ((left, arbiter'), asked) db')
    (toArbiter : stream arbiter.incoming = w.toArbiter ++ client'.sent)
    (toController : stream client.incoming = w.toController ++ arbiter'.sent) :
    Exchange ctx frame cmd w db es
      ⟨handled, left, asked, ⟨stream arbiter'.incoming, stream client'.incoming⟩⟩ db'

/-- One command after the other. -/
inductive Dialogue (ctx : ClientData) (frames : Nat → Frame) : Nat → Wires →
    ReserveDataDatabase → List Entered → List Transcript → ReserveDataDatabase → Prop where
  | nil (i : Nat) (w : Wires) (db : ReserveDataDatabase) : Dialogue ctx frames i w db [] [] db
  | cons (i : Nat) (w : Wires) (db mid db' : ReserveDataDatabase) (e : Entered)
    (cmds : List Entered) (es : List (Event sig)) (x : Transcript) (log : List Transcript)
    (first : Exchange ctx (frames i) e.command w db es x mid)
    (later : Dialogue ctx frames (i + 1) x.wires mid cmds log db') :
    Dialogue ctx frames i w db (e :: cmds) (x :: log) db'

/-- The operation that a command stands for, with the process that asks and what an ADD finds on
the stack. -/
def PAController.Command.op (pid : Pid) (tmp : UIDReserveData) : Command → Option Op
  | .add uid tapValue input => (tapTypeOf input).map fun tapType =>
    .addReserveParamsForUID tmp uid tapType.toInt64.toUInt64 tapValue.toInt64
  | .del uid => some (.removeReserveParamsForUID uid)
  | .get uid => some (.getTapParams uid)
  | .set uid tapValue input => (tapTypeOf input).map fun tapType =>
    .setTapParams uid tapType.toInt64.toUInt64 tapValue.toInt64
  | .connect uid => some (.statReserve uid pid)

/-- The order of the fields in a query makes no difference. -/
theorem Requests.op_eq {cmd : Command} {q : Query} (h : Requests cmd q) (ctx : ClientData)
    (stack : Locals) : cmd.op ctx.pid stack.tmp = some (q.op ctx stack) := by
  cases h with
  | add uid tapValue input tapType nonneg type => simp [Command.op, Query.op, type]
  | del uid => simp [Command.op, Query.op]
  | get uid => simp [Command.op, Query.op]
  | set uid tapValue input tapType nonneg type => simp [Command.op, Query.op, type]
  | connect uid => simp [Command.op, Query.op]

theorem Replies.readResponse {q : Query} {r : Response} (h : Replies q r) (prior : Nat → Byte) :
    q.readResponse (r.image prior) = r := by
  cases h with
  | stat q r => exact congrArg Response.stat (Codec.fields_image _ _ _)
  | get q r => exact congrArg Response.get (Codec.fields_image _ _ _)
  | set q r => exact congrArg Response.set (Codec.fields_image _ _ _)
  | add q r => exact congrArg Response.add (Codec.fields_image _ _ _)
  | remove q r => exact congrArg Response.remove (Codec.fields_image _ _ _)

/-- On a connection that does not fail a command sends its request, and reads the response
if there is one. -/
theorem handle_yields {cmd : Command} {q : Query} (h : Requests cmd q) {c : Conn Errno}
    (hsmooth : c.Smooth) :
    ∃ x c', Yields cmd.handle c x c' ∧ c'.sent = c.sent ++ q.message ∧
      (q.responseSize ≤ (stream c.incoming).length →
        x = ((q.readResponse ((stream c.incoming).take q.responseSize)).verdict,
          some (q.readResponse ((stream c.incoming).take q.responseSize))) ∧
        stream c'.incoming = (stream c.incoming).drop q.responseSize) := by
  obtain ⟨x, c', hy, ht⟩ := handle_outcome h c
  refine ⟨x, c', hy, ?_⟩
  cases ht with
  | unsent e c' early => exact absurd (Taken.of_smooth hsmooth q) early
  | unread e c' error => exact absurd error (hsmooth.incoming e)
  | short c' taken sent missing orderly rest =>
    exact ⟨sent, fun hle => absurd missing (Nat.not_lt.mpr hle)⟩
  | whole r c' sent size read rest =>
    refine ⟨sent, fun _ => ⟨?_, rest⟩⟩
    rw [read]

variable {db db' : ReserveDataDatabase} {es : List (Event sig)}

/-- The client has no objection to the flags of the arbiter. -/
theorem handleClient_verdict {ctx : ClientData} {stack : Locals} {q : Query} {r : Response}
    (h : (handleClient ctx stack q).Runs effect db es r db') : r.verdict = 0 := by
  cases q with
  | stat q =>
    obtain ⟨y, hy, rfl⟩ := (Prog.runs_map (S := sig)).mp h
    obtain ⟨x, hx, rfl⟩ := (Prog.runs_map (S := sig)).mp hy
    by_cases hret : x.ret = 0
    · rcases (statReserve_runs hx).success hret with ⟨_, root, hout⟩ | ⟨_, rid, _, hout, _⟩
      · simp [Response.verdict, hret, hout, PA_USE_ROOT_RESERVE]
      · simp [Response.verdict, hret, hout, PA_USE_ROOT_RESERVE, PA_RESERVE_GRANTED]
    · simp [Response.verdict, hret, PA_FAILURE, PA_NO_ERROR]
  | get q => cases handleClient_replies h; rfl
  | set q => cases handleClient_replies h; rfl
  | add q => cases handleClient_replies h; rfl
  | remove q => cases handleClient_replies h; rfl

/-- The arbiter's side of a request, carried out and written down. -/
theorem logged_runs {ctx : ClientData} {frame : Frame} {q : Query} {c : Conn Errno}
    {next : List Byte → Conn Errno}
    (hplan : Planned Session.turn c (.serves q (fun image => (none, next image))))
    {left : Option Int32} {c' : Conn Errno} {asked : List (Query × Response)} :
    ((Session.turn frame).play (logged ctx) c []).Runs effect db es ((left, c'), asked) db' ↔
      ∃ r, (handleClient ctx frame.locals q).Runs effect db es r db' ∧
        left = none ∧ c' = next (r.image frame.response) ∧ asked = [(q, r)] := by
  rw [hplan frame (StateT (List (Query × Response)) (Prog sig)) (logged ctx)]
  have hrun : Plan.run frame (logged ctx) (.serves q (fun image => (none, next image))) [] =
      (handleClient ctx frame.locals q).bind (fun r =>
        .ret (((none, next (r.image frame.response)) : Option Int32 × Conn Errno), [(q, r)])) :=
    Prog.bind_assoc _ _ _
  rw [hrun, Prog.runs_map (S := sig)]
  constructor
  · intro hx
    obtain ⟨r, hr, he⟩ := hx
    cases he
    exact ⟨r, hr, rfl, rfl, rfl⟩
  · intro hx
    obtain ⟨r, hr, rfl, rfl, rfl⟩ := hx
    exact ⟨r, hr, rfl⟩

/-- The arbiter has the operation carried out that was entered, once; the client reads the response
to it; both go on, and nothing is left on the way. -/
structure InStep (ctx : ClientData) (stack : Locals) (db : ReserveDataDatabase) (e : Entered)
    (x : Transcript) (db' : ReserveDataDatabase) : Prop where
  operated : ∃ op es o, e.command.op ctx.pid stack.tmp = some op ∧
    (operation op).Runs effect db es o db' ∧
    x.asked = [(e.query, e.query.respond stack o)] ∧
    x.handled = (0, some (e.query.respond stack o))
  continues : x.left = none
  drained : x.wires = ⟨[], []⟩

theorem Exchange.inStep {ctx : ClientData} {frame : Frame} {e : Entered} {x : Transcript}
    (h : Exchange ctx frame e.command ⟨[], []⟩ db es x db') :
    InStep ctx frame.locals db e x db' := by
  cases h with
  | mk client client' arbiter arbiter' es handled left asked db' clientSmooth arbiterSmooth
      clientFresh arbiterFresh clientRuns arbiterRuns toArbiter toController =>
    obtain ⟨y, c', hy, hsent, hread⟩ := handle_yields e.requests clientSmooth
    have hclient : (y, c') = (handled, client') :=
      (hy Id Empty.elim).symm.trans clientRuns
    cases hclient
    rw [clientFresh, List.nil_append] at hsent
    have harrives : stream arbiter.incoming = e.query.message ++ [] := by
      rw [toArbiter, hsent, List.append_nil]
      rfl
    obtain ⟨next, hplan, hnext⟩ := turn_serves arbiterSmooth harrives
    obtain ⟨r, hr, rfl, rfl, rfl⟩ := (logged_runs hplan).mp arbiterRuns
    obtain ⟨_, hreply, hrest⟩ := hnext _ (r.length_image_lt frame.response)
    rw [arbiterFresh, List.nil_append] at hreply
    have hreturns : stream client.incoming = r.image frame.response := toController.trans hreply
    have hreplies := handleClient_replies hr
    have hsize := hreplies.length_image frame.response
    obtain ⟨hhandled, hleft⟩ :=
      hread (Nat.le_of_eq (hsize.symm.trans (congrArg List.length hreturns.symm)))
    rw [hreturns, List.take_of_length_le (Nat.le_of_eq hsize), hreplies.readResponse,
      handleClient_verdict hr] at hhandled
    obtain ⟨o, ho, rfl⟩ := handleClient_runs.mp hr
    refine ⟨⟨_, _, o, e.requests.op_eq ctx frame.locals, ho, rfl, hhandled⟩, rfl, ?_⟩
    rw [hrest, hleft, hreturns, List.drop_of_length_le (Nat.le_of_eq hsize)]

/-- Whatever the chunking, a command can be carried out when its request can. -/
theorem exchange_exists {ctx : ClientData} {frame : Frame} {e : Entered} {r : Response}
    (hr : (handleClient ctx frame.locals e.query).Runs effect db es r db')
    {client arbiter : Conn Errno} (clientSmooth : client.Smooth) (arbiterSmooth : arbiter.Smooth)
    (clientFresh : client.sent = []) (arbiterFresh : arbiter.sent = [])
    (harrives : stream arbiter.incoming = e.query.message)
    (hreturns : stream client.incoming = r.image frame.response) :
    ∃ x, Exchange ctx frame e.command ⟨[], []⟩ db es x db' := by
  obtain ⟨y, c', hy, hsent, _⟩ := handle_yields e.requests clientSmooth
  obtain ⟨next, hplan, hnext⟩ :=
    turn_serves arbiterSmooth (harrives.trans (List.append_nil _).symm)
  obtain ⟨_, hreply, _⟩ := hnext _ (r.length_image_lt frame.response)
  refine ⟨_, .mk client c' arbiter (next (r.image frame.response)) es y none [(e.query, r)] db'
    clientSmooth arbiterSmooth clientFresh arbiterFresh (hy Id Empty.elim)
    ((logged_runs hplan).mpr ⟨r, hr, rfl, rfl, rfl⟩) ?_ ?_⟩
  · rw [harrives, hsent, clientFresh]
    rfl
  · rw [hreturns, hreply, arbiterFresh]
    rfl

/-- One command after the other, each in step. -/
inductive Lockstep (ctx : ClientData) (frames : Nat → Frame) : Nat → ReserveDataDatabase →
    List Entered → List Transcript → ReserveDataDatabase → Prop where
  | nil (i : Nat) (db : ReserveDataDatabase) : Lockstep ctx frames i db [] [] db
  | cons (i : Nat) (db mid db' : ReserveDataDatabase) (e : Entered) (cmds : List Entered)
    (x : Transcript) (log : List Transcript) (first : InStep ctx (frames i).locals db e x mid)
    (later : Lockstep ctx frames (i + 1) mid cmds log db') :
    Lockstep ctx frames i db (e :: cmds) (x :: log) db'

/-- Over a connection that does not fail the client and the arbiter stay in step: each
command is one request and one response, decoded as they were encoded. -/
theorem controller_lockstep (ctx : ClientData) (frames : Nat → Frame) (i : Nat)
    (db db' : ReserveDataDatabase) (cmds : List Entered) (log : List Transcript)
    (h : Dialogue ctx frames i ⟨[], []⟩ db cmds log db') :
    Lockstep ctx frames i db cmds log db' := by
  induction cmds generalizing i db log with
  | nil =>
    cases h with
    | nil => exact .nil _ _
  | cons e cmds ih =>
    cases h with
    | cons _ _ _ mid _ _ _ es x log first later =>
      have hx := first.inStep
      rw [hx.drained] at later
      exact .cons i db mid db' e cmds x log hx (ih (i + 1) mid log later)

/-- The same over connections of one's choice. -/
theorem exchange_now {ctx : ClientData} {frame : Frame} {e : Entered} {r : Response}
    (hr : (handleClient ctx frame.locals e.query).Runs effect db es r db') :
    ∃ x, Exchange ctx frame e.command ⟨[], []⟩ db es x db' := by
  obtain ⟨arbiter, ha, hain, hafresh⟩ := exists_smooth e.query.message
  obtain ⟨client, hc, hcin, hcfresh⟩ := exists_smooth (r.image frame.response)
  exact exchange_exists hr hc ha hcfresh hafresh hain hcin

def addFive : Entered :=
  ⟨.add 5 10 ['c'], _, .add 5 10 ['c'] CINDER_TAP_RATE_CONSTANT.toUInt32.toInt32 (by decide) rfl⟩

def getFive : Entered := ⟨.get 5, _, .get 5⟩

/-- A user is added and then asked for. -/
theorem controller_lockstep_add : ∃ log db',
    Dialogue ⟨1, 1000, 1000⟩ (fun _ => someFrame) 0 ⟨[], []⟩ .empty [addFive, getFive] log db' ∧
    Lockstep ⟨1, 1000, 1000⟩ (fun _ => someFrame) 0 .empty [addFive, getFive] log db' := by
  have hruns : ∃ mid r db',
      (handleClient ⟨1, 1000, 1000⟩ someFrame.locals addFive.query).Runs effect .empty
        [.lock none, .call .malloc ⟨1, 0⟩, .call .mutexInit ⟨0, 0⟩, .unlock] (.add ⟨PA_NO_ERROR⟩)
        mid ∧
      (handleClient ⟨1, 1000, 1000⟩ someFrame.locals getFive.query).Runs effect mid
        [.lock none, .lockInner 0 none, .unlockInner 0, .unlock] r db' := ⟨_, _, _, rfl, rfl⟩
  obtain ⟨mid, r, db', hadd, hget⟩ := hruns
  obtain ⟨x, hx⟩ := exchange_now hadd
  obtain ⟨y, hy⟩ := exchange_now hget
  have hlater : Dialogue ⟨1, 1000, 1000⟩ (fun _ => someFrame) 1 x.wires mid [getFive] [y] db' := by
    rw [hx.inStep.drained]
    exact .cons 1 _ mid db' db' getFive [] _ y [] hy (.nil 2 _ db')
  have hlog := Dialogue.cons 0 _ _ mid db' addFive [getFive] _ x [y] hx hlater
  exact ⟨[x, y], db', hlog, controller_lockstep ⟨1, 1000, 1000⟩ (fun _ => someFrame) 0 .empty db'
    [addFive, getFive] [x, y] hlog⟩

end PowerArbiter
