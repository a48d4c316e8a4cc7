import PowerArbiter.Proofs.Manners

namespace PowerArbiter
open Monitor Wire

/-- Nothing is left to do but to send these bytes; a failure ends the session. -/
def Owes : Session (Option Int32) → List Byte → Prop
  | .ret a, bytes => a = none ∧ bytes = []
  | .send out k, bytes => out = bytes ∧ (∀ e, ∃ err, k (.error e) = .ret (some err)) ∧
      ∀ n, 0 < n → n ≤ out.length → Owes (k (.ok n)) (bytes.drop n)
  | _, _ => False

/-- There is no complete request at the front. -/
def Partial (got : List Byte) : Prop := ∀ (q : Query) rest, got ≠ q.message ++ rest

/-- An iteration of the loop that has received `got`: unless a call fails, it ends without
a request only if there is none at the front of what it receives, and it sends the bytes of
the response to one, as they are in this frame. -/
def Responds (frame : Frame) : Session (Option Int32) → List Byte → Prop
  | .ret _, got => Partial got
  | .recv len k, got => ∀ bytes, bytes ≠ [] → bytes.length ≤ len →
      Responds frame (k (.ok bytes)) (got ++ bytes)
  | .send _ _, _ => False
  | .ask x k, _ => x.1 = frame.locals ∧ ∀ r, Owes (k r) (r.image frame.response)

variable {α : Type}

theorem sendLoop_owes {toSend : UInt64} (hsize : toSend.toNat < 4294967296)
    {f : Except Int32 UInt64 → Session (Option Int32)}
    (herror : ∀ e : Errno, ∃ err, f (.error e.code) = .ret (some err))
    (hdone : f (.ok toSend) = .ret none) (calls : Nat) (sent remaining : UInt64) (buf : List Byte)
    (hsum : sent.toNat + remaining.toNat = toSend.toNat) (hcalls : remaining.toNat ≤ calls)
    (hbuf : remaining.toNat = buf.length) :
    Owes ((streamsockSend.loop toSend calls sent remaining buf).bind f) buf := by
  induction calls generalizing sent remaining buf with
  | zero =>
    obtain rfl : sent = toSend := UInt64.toNat_inj.mp (by omega)
    simp only [streamsockSend.loop, Talk.bind, hdone]
    exact ⟨rfl, List.eq_nil_of_length_eq_zero (by omega)⟩
  | succ calls ih =>
    unfold streamsockSend.loop
    by_cases hlt : sent < toSend
    · have htake : buf.take remaining.toUInt32.toNat = buf := by
        rw [size_t_toNat (by omega)]
        exact List.take_of_length_le (by omega)
      simp only [hlt, ↓reduceIte, htake, Talk.bind]
      refine ⟨rfl, herror, fun n hpos hle => ?_⟩
      have hadd := toNat_add_count (x := sent) (n := n) (by omega)
      have hsub := toNat_sub_count (x := remaining) (n := n) (by omega)
      exact ih _ _ _ (by omega) (by omega) (by rw [hsub, List.length_drop, hbuf])
    · have hle := UInt64.le_iff_toNat_le.mp (UInt64.not_lt.mp hlt)
      obtain rfl : sent = toSend := UInt64.toNat_inj.mp (by omega)
      simp only [hlt, ↓reduceIte, Talk.bind, hdone]
      exact ⟨rfl, List.eq_nil_of_length_eq_zero (by omega)⟩

theorem reply_owes {image : List Byte} (hsize : image.length < 4294967296) :
    Owes ((Session.reply image).bind (fun err => .ret (goesOn err))) image := by
  have hlen : (UInt64.ofNat image.length).toNat = image.length := by
    rw [UInt64.toNat_ofNat']
    omega
  unfold Session.reply streamsockSend
  rw [Talk.bind_eq, Talk.bind_assoc]
  apply sendLoop_owes
  · omega
  · exact fun e => ⟨e.code, congrArg Talk.ret (if_pos e.nonzero)⟩
  · rfl
  · simp
  · exact Nat.le_refl _
  · exact hlen

/-- Reading a struct and going on with it. -/
theorem readLoop_responds {frame : Frame} {toRead : UInt64} (hsize : toRead.toNat < 4294967296)
    {got : List Byte} {f : Except Int32 (UInt64 × List Byte) → Session (Option Int32)}
    (hwhole : ∀ buf, buf.length = toRead.toNat →
      Responds frame (f (.ok (toRead, buf))) (got ++ buf))
    (calls : Nat) (rcvd remaining : UInt64) (buf : List Byte)
    (hsum : rcvd.toNat + remaining.toNat = toRead.toNat) (hcalls : remaining.toNat ≤ calls)
    (hbuf : rcvd.toNat = buf.length) :
    Responds frame ((streamsockRead.loop toRead calls rcvd remaining buf).bind f) (got ++ buf) := by
  induction calls generalizing rcvd remaining buf with
  | zero =>
    obtain rfl : rcvd = toRead := UInt64.toNat_inj.mp (by omega)
    exact hwhole buf hbuf.symm
  | succ calls ih =>
    unfold streamsockRead.loop
    by_cases hlt : rcvd < toRead
    · have hlen : remaining.toUInt32.toNat = remaining.toNat := size_t_toNat (by omega)
      simp only [hlt, ↓reduceIte, hlen, Talk.bind]
      intro bytes hne hle
      cases bytes with
      | nil => exact absurd rfl hne
      | cons b bs =>
        have hadd := toNat_add_count (x := rcvd) (n := (b :: bs).length) (by omega)
        have hsub := toNat_sub_count (x := remaining) hle
        have hpos : 0 < (b :: bs).length := Nat.zero_lt_succ _
        rw [List.append_assoc]
        exact ih _ _ _ (by omega) (by omega) (by rw [hadd, List.length_append, hbuf])
    · have hle := UInt64.le_iff_toNat_le.mp (UInt64.not_lt.mp hlt)
      obtain rfl : rcvd = toRead := UInt64.toNat_inj.mp (by omega)
      simp only [hlt, ↓reduceIte]
      exact hwhole buf hbuf.symm

theorem readStruct_responds {frame : Frame} (codec : Codec α) (hpack : codec.sizeof = codec.size)
    (hsize : codec.size < 4294967296) {got : List Byte}
    {f : Except Int32 (UInt64 × List Byte) → Session (Option Int32)}
    (hwhole : ∀ buf, buf.length = codec.size →
      Responds frame (f (.ok (.ofNat codec.sizeof, buf))) (got ++ buf)) :
    Responds frame ((streamsockRead (.ofNat codec.sizeof) (.ofNat codec.sizeof)).bind f) got := by
  have hlen : (UInt64.ofNat codec.sizeof).toNat = codec.size := by
    rw [UInt64.toNat_ofNat', hpack]
    omega
  unfold streamsockRead
  rw [if_neg (UInt64.lt_irrefl _), ← List.append_nil got]
  apply readLoop_responds
  · omega
  · rw [hlen]
    exact hwhole
  · simp
  · exact Nat.le_refl _
  · rfl

theorem Handler.responds {t : UInt32} {handle : Frame → Session Int32} (h : Handler t handle)
    (frame : Frame) (got : List Byte) :
    Responds frame ((handle frame).bind (fun err => .ret (goesOn err))) got := by
  cases h with
  | exchange codec query type encode pack size =>
    unfold Session.exchange
    rw [Talk.bind_eq, Talk.bind_assoc]
    apply readStruct_responds codec pack size
    intro buf hbuf
    simp only [UInt64.lt_irrefl, ↓reduceIte]
    exact ⟨rfl, fun r => reply_owes (r.length_image_lt _)⟩

/-- A type of which there is no request. -/
theorem partial_of_type {t : UInt32} (h : ∀ q : Query, q.requestType ≠ t) (rest : List Byte) :
    Partial (PARequest.codec.encode ⟨t⟩ ++ rest) := by
  intro q s he
  rw [message_append] at he
  exact h q (congrArg PARequest.requestType (PARequest.codec.encode_append_inj he).1).symm

theorem turn_responds (frame : Frame) : Responds frame (Session.turn frame) [] := by
  unfold Session.turn Session.readPaRequest
  rw [Talk.bind_eq, Talk.bind_eq, Talk.bind_assoc]
  apply readStruct_responds PARequest.codec rfl (by decide)
  intro buf hbuf
  have hfields := PARequest.codec.encode_fields hbuf
  simp only [UInt64.lt_irrefl, ↓reduceIte, List.nil_append, Talk.pure_eq, Talk.ret_bind]
  generalize PARequest.codec.fields buf = request at hfields
  subst hfields
  have hunknown : (∀ q : Query, q.requestType ≠ request.requestType) →
      Partial (PARequest.codec.encode request) := by
    intro hq
    have hpart := partial_of_type hq []
    rwa [List.append_nil] at hpart
  by_cases hbye : request.requestType = PA_GOODBYE
  · simp only [hbye, ↓reduceIte]
    exact hunknown fun q hq => requestType_ne_goodbye q (hq.trans hbye)
  rcases handler_cases request.requestType with ⟨hnone, hno⟩ | ⟨handle, hsome, hhandler⟩
  · simp only [hbye, ↓reduceIte, hnone]
    exact hunknown hno
  · simp only [hbye, ↓reduceIte, hsome]
    exact hhandler.responds frame _

/-- A request on a connection, with what the handler finds on the stack. -/
structure Asked where
  conn : Nat
  ctx : ClientData
  frame : Frame
  query : Query

def Asked.code (a : Asked) : Program Response := handleClient a.ctx a.frame.locals a.query

/-- Where a session stands: the request that it carries out, what it has received of the next
one, and what it is yet to send of the last response. -/
inductive Stands (broken : Prop) :
    Option (Active sig Asked Response) → List Byte → List Byte → Stage → Prop where
  | accepted : Stands broken none [] [] .accepted
  | refused (ret : Int32) : Stands broken none [] [] (.refused ret)
  | hears {len : Nat} {k : Except Errno (List Byte) → Session (Option Int32)} {got : List Byte}
    (ctx : ClientData) (frame : Frame) (listens : Listens (.recv len k) got)
    (responds : Responds frame (.recv len k) got) (part : Partial got) :
    Stands broken none got [] (.talking ctx (.recv len k))
  | asks {x : Locals × Query} {k : Response → Session (Option Int32)} (ctx : ClientData)
    (frame : Frame) (locals : x.1 = frame.locals)
    (owes : ∀ r, Owes (k r) (r.image frame.response)) :
    Stands broken none x.2.message [] (.talking ctx (.ask x k))
  | operating {k : Response → Session (Option Int32)} (ctx : ClientData)
    (act : Active sig Asked Response) (owes : ∀ r, Owes (k r) (r.image act.op.frame.response)) :
    Stands broken (some act) [] [] (.operating ctx act.prog k)
  | owes {t : Session (Option Int32)} {owed : List Byte} (ctx : ClientData) (owes : Owes t owed) :
    Stands broken none [] owed (.talking ctx t)
  | leaves {got owed : List Byte} (ctx : ClientData) (err : Int32) (part : Partial got)
    (excuse : owed = [] ∨ broken) : Stands broken none got owed (.talking ctx (.ret (some err)))
  | ended {got owed : List Byte} (err : Int32) (part : Partial got) (excuse : owed = [] ∨ broken) :
    Stands broken none got owed (.ended err)

theorem partial_nil : Partial [] := by
  intro q rest he
  have hlen := congrArg List.length he
  have hpos := message_length q
  rw [List.length_append, List.length_nil] at hlen
  omega

variable {broken broken' : Prop} {act : Option (Active sig Asked Response)}
  {got owed : List Byte} {stage : Stage}

theorem Stands.mono (h : Stands broken act got owed stage) (hb : broken → broken') :
    Stands broken' act got owed stage := by
  cases h with
  | accepted => exact .accepted
  | refused ret => exact .refused ret
  | hears ctx frame listens responds part => exact .hears ctx frame listens responds part
  | asks ctx frame locals owes => exact .asks ctx frame locals owes
  | operating ctx act owes => exact .operating ctx act owes
  | owes ctx owes => exact .owes ctx owes
  | leaves ctx err part excuse => exact .leaves ctx err part (excuse.imp_right hb)
  | ended err part excuse => exact .ended err part (excuse.imp_right hb)

/-- A session in the course of an iteration, which has not received more than a request. -/
theorem Stands.within {frame : Frame} {t : Session (Option Int32)} (ctx : ClientData)
    (hlistens : Listens t got) (hresponds : Responds frame t got)
    (hnear : ∀ (q : Query) rest, got = q.message ++ rest → rest = []) :
    Stands broken none got [] (.talking ctx t) := by
  cases t with
  | ret a =>
    obtain ⟨err, rfl⟩ := hlistens
    exact .leaves ctx err hresponds (.inl rfl)
  | recv len k =>
    refine .hears ctx frame hlistens hresponds fun q rest he => ?_
    obtain ⟨hpos, hmessage, -⟩ := hlistens
    obtain rfl := hnear q rest he
    have hle := hmessage q [] (by rw [he, List.append_nil, List.append_nil])
    rw [List.length_nil] at hle
    omega
  | send out k => exact absurd hlistens not_false
  | ask x k =>
    obtain ⟨rfl, -⟩ := hlistens
    exact .asks ctx frame hresponds.1 hresponds.2

theorem Stands.turn (ctx : ClientData) (frame : Frame) :
    Stands broken none [] [] (.talking ctx (Session.turn frame)) :=
  .within ctx (turn_listens frame) (turn_responds frame)
    fun q rest he => absurd he (partial_nil q rest)

/-- Of what arrives, at most a whole request is taken. -/
theorem Partial.recv {len : Nat} {k : Except Errno (List Byte) → Session (Option Int32)}
    (h : Partial got) (hlistens : Listens (.recv len k) got) {bytes : List Byte}
    (hbound : bytes.length ≤ len) {q : Query} {rest : List Byte}
    (he : got ++ bytes = q.message ++ rest) : rest = [] := by
  obtain ⟨-, hmessage, -⟩ := hlistens
  rcases List.append_eq_append_iff.mp he with ⟨more, hq, rfl⟩ | ⟨more, hgot, -⟩
  · have hle := hmessage q more hq.symm
    rw [List.length_append] at hbound
    exact List.eq_nil_of_length_eq_zero (by omega)
  · exact absurd hgot (h q more)

end PowerArbiter
