import PowerArbiter.Session
import PowerArbiter.Proofs.Sock

namespace PowerArbiter
open Wire

variable {Q R α β : Type}

/-- What reading a struct without padding comes to. -/
inductive StructRead (codec : Codec α) (c : Conn Errno) :
    Except Int32 (UInt64 × List Byte) → Conn Errno → Prop where
  | whole (k : UInt64) (buf : List Byte) (c' : Conn Errno)
    (count : ¬ k < .ofNat codec.sizeof)
    (part : stream c.incoming = codec.encode (codec.fields buf) ++ stream c'.incoming)
    (errors : ∀ e, .error e ∈ c'.incoming → .error e ∈ c.incoming)
    (outgoing : c'.outgoing = c.outgoing) (sent : c'.sent = c.sent) :
    StructRead codec c (.ok (k, buf)) c'
  | short (k : UInt64) (buf : List Byte) (c' : Conn Errno)
    (count : k < .ofNat codec.sizeof) (early : (stream c.incoming).length < codec.size)
    (sent : c'.sent = c.sent) : StructRead codec c (.ok (k, buf)) c'
  | failed (e : Errno) (c' : Conn Errno) (error : .error e ∈ c.incoming)
    (sent : c'.sent = c.sent) : StructRead codec c (.error e.code) c'

theorem readStruct_yields (codec : Codec α) (hpack : codec.sizeof = codec.size)
    (hsize : codec.size < 4294967296) (c : Conn Errno) :
    ∃ r c', Yields (streamsockRead (.ofNat codec.sizeof) (.ofNat codec.sizeof) :
      Talk Errno Q R _) c r c' ∧ StructRead codec c r c' := by
  have hlen : (UInt64.ofNat codec.sizeof).toNat = codec.size := by
    rw [UInt64.toNat_ofNat', hpack]
    omega
  have hlt : (UInt64.ofNat codec.sizeof).toNat < 4294967296 := by omega
  obtain ⟨r, c', hy, hr⟩ := streamsockRead_yields (Q := Q) (R := R) hlt c
  refine ⟨r, c', hy, ?_⟩
  rw [hlen] at hr
  cases hr with
  | read k c' count rest errors outgoing sent =>
    rw [List.nil_append] at count ⊢
    rw [List.length_take] at count
    by_cases hle : codec.size ≤ (stream c.incoming).length
    · refine .whole k _ c' ?_ ?_ errors outgoing sent
      · rw [UInt64.lt_iff_toNat_lt]
        omega
      · rw [codec.encode_fields (List.length_take_of_le hle), rest, List.take_append_drop]
    · refine .short k _ c' ?_ (by omega) sent
      rw [UInt64.lt_iff_toNat_lt]
      omega
  | failed e c' early error outgoing sent => exact .failed e c' error sent

/-- What `__read_pa_request` comes to. -/
inductive RequestRead (c : Conn Errno) : Except Int32 PARequest → Conn Errno → Prop where
  | whole (request : PARequest) (c' : Conn Errno)
    (part : stream c.incoming = PARequest.codec.encode request ++ stream c'.incoming)
    (errors : ∀ e, .error e ∈ c'.incoming → .error e ∈ c.incoming)
    (outgoing : c'.outgoing = c.outgoing) (sent : c'.sent = c.sent) : RequestRead c (.ok request) c'
  | short (c' : Conn Errno) (early : (stream c.incoming).length < PARequest.codec.size)
    (sent : c'.sent = c.sent) : RequestRead c (.error (-EPROTO)) c'
  | failed (e : Errno) (c' : Conn Errno) (error : .error e ∈ c.incoming)
    (sent : c'.sent = c.sent) : RequestRead c (.error e.code) c'

theorem readPaRequest_yields (c : Conn Errno) :
    ∃ r c', Yields Session.readPaRequest c r c' ∧ RequestRead c r c' := by
  obtain ⟨r, c', hy, hr⟩ := readStruct_yields PARequest.codec rfl (by decide) c
  unfold Session.readPaRequest
  cases hr with
  | whole k buf c' count part errors outgoing sent =>
    refine ⟨_, c', Yields.bind hy ?_, .whole _ c' part errors outgoing sent⟩
    simp only [count, ↓reduceIte]
    exact Yields.ret _ _
  | short k buf c' count early sent =>
    refine ⟨_, c', Yields.bind hy ?_, .short c' early sent⟩
    simp only [count, ↓reduceIte]
    exact Yields.ret _ _
  | failed e c' error sent =>
    exact ⟨_, c', Yields.bind hy (Yields.ret _ _), .failed e c' error sent⟩

/-- How code that asks at most once comes to its end. What it answers is sent as bytes,
and what follows depends on these bytes alone. -/
inductive Plan (α : Type) : Type where
  | done (a : α) (c : Conn Errno)
  | serves (q : Query) (next : List Byte → α × Conn Errno)

def Plan.run {m : Type → Type} [Monad m] (frame : Frame) (serve : Locals × Query → m Response) :
    Plan α → m (α × Conn Errno)
  | .done a c => pure (a, c)
  | .serves q next => do return next ((← serve (frame.locals, q)).image frame.response)

def Plan.map (f : α → β) : Plan α → Plan β
  | .done a c => .done (f a) c
  | .serves q next => .serves q (fun image => (f (next image).1, (next image).2))

/-- On the connection `c`, whatever the frame holds, `t` goes as planned. -/
def Planned (t : Frame → Session α) (c : Conn Errno) (p : Plan α) : Prop :=
  ∀ (frame : Frame) (m : Type → Type) [Monad m] [LawfulMonad m]
    (serve : Locals × Query → m Response), (t frame).play serve c = p.run frame serve

theorem Planned.of_yields {t : Frame → Session α} {c c' : Conn Errno} {a : α}
    (h : ∀ frame, Yields (t frame) c a c') : Planned t c (.done a c') :=
  fun frame m _ _ serve => h frame m serve

theorem Yields.planned_bind {t : Session α} {c c' : Conn Errno} {a : α} (h : Yields t c a c')
    {f : Frame → α → Session β} {p : Plan β} (hf : Planned (fun frame => f frame a) c' p) :
    Planned (fun frame => t.bind (f frame)) c p := by
  intro frame m _ _ serve
  rw [h.play_bind serve]
  exact hf frame m serve

theorem Planned.bind_ret {t : Frame → Session α} {c : Conn Errno} {p : Plan α}
    (h : Planned t c p) (f : α → β) :
    Planned (fun frame => (t frame).bind (fun a => .ret (f a))) c (p.map f) := by
  intro frame m _ _ serve
  rw [Talk.play_bind, h frame m serve]
  cases p with
  | done a c => exact LawfulMonad.pure_bind _ _
  | serves q next =>
    unfold Plan.map Plan.run
    rw [LawfulMonad.bind_assoc]
    exact bind_congr (fun r => LawfulMonad.pure_bind _ _)

/-- What a handler that has a response to send comes to. -/
inductive Replied (c : Conn Errno) (image rest : List Byte) : Int32 × Conn Errno → Prop where
  | sent (c' : Conn Errno) (sent : c'.sent = c.sent ++ image)
    (incoming : stream c'.incoming = rest) (smooth : c.Smooth → c'.Smooth) :
    Replied c image rest (0, c')
  | failed (e : Errno) (c' : Conn Errno) (error : .error e ∈ c.outgoing) :
    Replied c image rest (e.code, c')

/-- Reading does not change what sending does. -/
theorem Replied.before {c c' : Conn Errno} {image rest : List Byte} {y : Int32 × Conn Errno}
    (h : Replied c' image rest y) (herr : ∀ e, .error e ∈ c'.incoming → .error e ∈ c.incoming)
    (hout : c'.outgoing = c.outgoing) (hsent : c'.sent = c.sent) : Replied c image rest y := by
  cases h with
  | sent d sent incoming smooth =>
    refine .sent d (by rw [sent, hsent]) incoming ?_
    intro hs
    exact smooth ⟨fun e he => hs.incoming e (herr e he), fun e he => hs.outgoing e (hout ▸ he)⟩
  | failed e d error => exact .failed e d (hout ▸ error)

theorem reply_yields (image : List Byte) (hsize : image.length < 4294967296) (c : Conn Errno) :
    ∃ y : Int32 × Conn Errno, Yields (Session.reply image) c y.1 y.2 ∧
      Replied c image (stream c.incoming) y := by
  obtain ⟨x, c', hy, hs⟩ := streamsockSend_yields (Q := Locals × Query) (R := Response) hsize c
  unfold Session.reply
  cases hs with
  | all c' sent errors incoming =>
    refine ⟨(0, c'), hy.bind (Yields.ret _ _), .sent c' sent (by rw [incoming]) ?_⟩
    intro hs
    exact ⟨fun e he => hs.incoming e (incoming ▸ he), fun e he => hs.outgoing e (errors e he)⟩
  | failed e c' error incoming =>
    exact ⟨(e.code, c'), hy.bind (Yields.ret _ _), .failed e c' error⟩

theorem Response.length_image_lt (r : Response) (prior : Nat → Byte) :
    (r.image prior).length < 4294967296 := by
  cases r <;> exact lt_of_eq_of_lt (Codec.length_image _ _ _) (by decide)

/-- What reading a query and answering it comes to, when its struct holds `codec`. -/
inductive Exchanged (codec : Codec α) (query : α → Query) (c : Conn Errno) : Plan Int32 → Prop where
  | short (c' : Conn Errno) (early : (stream c.incoming).length < codec.size)
    (sent : c'.sent = c.sent) : Exchanged codec query c (.done (-EPROTO) c')
  | failed (e : Errno) (c' : Conn Errno) (error : .error e ∈ c.incoming)
    (sent : c'.sent = c.sent) : Exchanged codec query c (.done e.code c')
  | served (a : α) (rest : List Byte) (next : List Byte → Int32 × Conn Errno)
    (part : stream c.incoming = codec.encode a ++ rest)
    (replied : ∀ image, image.length < 4294967296 → Replied c image rest (next image)) :
    Exchanged codec query c (.serves (query a) next)

theorem exchange_planned (codec : Codec α) (query : α → Query) (hpack : codec.sizeof = codec.size)
    (hsize : codec.size < 4294967296) (c : Conn Errno) :
    ∃ p, Planned (Session.exchange codec query) c p ∧ Exchanged codec query c p := by
  obtain ⟨r, c', hy, hr⟩ :=
    readStruct_yields (Q := Locals × Query) (R := Response) codec hpack hsize c
  unfold Session.exchange
  cases hr with
  | whole k buf c' count part errors outgoing sent =>
    have hne : Nonempty (Int32 × Conn Errno) := ⟨(0, c)⟩
    choose! next hnext using fun image h => reply_yields image h c'
    refine ⟨_, hy.planned_bind ?_, .served (codec.fields buf) (stream c'.incoming) next part ?_⟩
    · intro frame m _ _ serve
      simp only [count, ↓reduceIte]
      exact bind_congr (fun r => (hnext _ (r.length_image_lt _)).1 m serve)
    · intro image himage
      exact (hnext image himage).2.before errors outgoing sent
  | short k buf c' count early sent =>
    refine ⟨_, hy.planned_bind (Planned.of_yields ?_), .short c' early sent⟩
    intro frame
    simp only [count, ↓reduceIte]
    exact Yields.ret _ _
  | failed e c' error sent =>
    exact ⟨_, hy.planned_bind (Planned.of_yields (fun _ => Yields.ret _ _)),
      .failed e c' error sent⟩

/-- What the handler of the requests of type `t` comes to. -/
inductive Handles (t : UInt32) (c : Conn Errno) : Plan Int32 → Prop where
  | short (q : Query) (c' : Conn Errno) (type : q.requestType = t)
    (early : (stream c.incoming).length < q.encode.length) (sent : c'.sent = c.sent) :
    Handles t c (.done (-EPROTO) c')
  | failed (e : Errno) (c' : Conn Errno) (error : .error e ∈ c.incoming)
    (sent : c'.sent = c.sent) : Handles t c (.done e.code c')
  | served (q : Query) (rest : List Byte) (next : List Byte → Int32 × Conn Errno)
    (type : q.requestType = t) (part : stream c.incoming = q.encode ++ rest)
    (replied : ∀ image, image.length < 4294967296 → Replied c image rest (next image)) :
    Handles t c (.serves q next)

/-- A handler of the requests of type `t`. -/
inductive Handler (t : UInt32) : (Frame → Session Int32) → Prop where
  | exchange {α : Type} (codec : Codec α) (query : α → Query)
    (type : ∀ a, (query a).requestType = t) (encode : ∀ a, (query a).encode = codec.encode a)
    (pack : codec.sizeof = codec.size) (size : codec.size < 4294967296) :
    Handler t (Session.exchange codec query)

/-- The `switch` finds a handler for a type, unless no request has that type. -/
theorem handler_cases (t : UInt32) :
    (Session.handler t = none ∧ ∀ q : Query, q.requestType ≠ t) ∨
      ∃ handle, Session.handler t = some handle ∧ Handler t handle := by
  by_cases hstat : t = PA_STAT_RESERVE
  · subst t
    exact .inr ⟨Session.handleStatReserve, rfl,
      .exchange PAStatReserveQuery.codec .stat (fun _ => rfl) (fun _ => rfl) rfl (by decide)⟩
  by_cases hget : t = PA_GET_TAP_PARAMS
  · subst t
    exact .inr ⟨Session.handleGetTapParams, rfl,
      .exchange PAGetTapParamsQuery.codec .get (fun _ => rfl) (fun _ => rfl) rfl (by decide)⟩
  by_cases hset : t = PA_SET_TAP_PARAMS
  · subst t
    exact .inr ⟨Session.handleSetTapParams, rfl,
      .exchange PASetTapParamsQuery.codec .set (fun _ => rfl) (fun _ => rfl) rfl (by decide)⟩
  by_cases hadd : t = PA_ADD_UID_PARAMS
  · subst t
    exact .inr ⟨Session.handleAddParamsForUid, rfl,
      .exchange PAAddUIDParamsQuery.codec .add (fun _ => rfl) (fun _ => rfl) rfl (by decide)⟩
  by_cases hremove : t = PA_REMOVE_UID_PARAMS
  · subst t
    exact .inr ⟨Session.handleRemoveParamsForUid, rfl,
      .exchange PARemoveUIDParamsQuery.codec .remove (fun _ => rfl) (fun _ => rfl) rfl (by decide)⟩
  · refine .inl ⟨?_, ?_⟩
    · unfold Session.handler
      simp only [hstat, hget, hset, hadd, hremove, ↓reduceIte]
    · intro q hq
      cases q with
      | stat q => exact hstat hq.symm
      | get q => exact hget hq.symm
      | set q => exact hset hq.symm
      | add q => exact hadd hq.symm
      | remove q => exact hremove hq.symm

theorem Handler.planned {t : UInt32} {handle : Frame → Session Int32} (h : Handler t handle)
    (c : Conn Errno) : ∃ p, Planned handle c p ∧ Handles t c p := by
  cases h with
  | exchange codec query type encode pack size =>
    obtain ⟨p, hp, hx⟩ := exchange_planned codec query pack size c
    refine ⟨p, hp, ?_⟩
    cases hx with
    | short c' early sent =>
      refine .short (query (codec.decode [])) c' (type _) ?_ sent
      rw [encode, codec.length_encode]
      exact early
    | failed e c' error sent => exact .failed e c' error sent
    | served a rest next part replied =>
      exact .served (query a) rest next (type a) (by rw [encode, part]) replied

/-- What no further request can be read from, and the value that the session then
ends with: a goodbye, a type that no request has, or an incomplete message. -/
inductive Closing : List Byte → Int32 → Prop where
  | goodbye (rest : List Byte) : Closing (PARequest.codec.encode ⟨PA_GOODBYE⟩ ++ rest) 0
  | unknown (t : UInt32) (rest : List Byte) (goodbye : t ≠ PA_GOODBYE)
    (request : ∀ q : Query, q.requestType ≠ t) :
    Closing (PARequest.codec.encode ⟨t⟩ ++ rest) (-EINVAL)
  | noType (part : List Byte) (short : part.length < PARequest.codec.size) :
    Closing part (-EPROTO)
  | noQuery (q : Query) (part : List Byte) (short : part.length < q.encode.length) :
    Closing (PARequest.codec.encode ⟨q.requestType⟩ ++ part) (-EPROTO)

/-- Why a session is left before its next request is carried out. -/
inductive Left (c : Conn Errno) : Int32 → Prop where
  | closing {err : Int32} (h : Closing (stream c.incoming) err) : Left c err
  | failed (e : Errno) (error : .error e ∈ c.incoming) : Left c e.code

/-- The loop goes on when a handler has returned 0. -/
def goesOn (err : Int32) : Option Int32 := if err ≠ 0 then some err else none

/-- What an iteration of the loop comes to. -/
inductive Turned (c : Conn Errno) : Plan (Option Int32) → Prop where
  | left (err : Int32) (c' : Conn Errno) (cause : Left c err) (sent : c'.sent = c.sent) :
    Turned c (.done (some err) c')
  | served (q : Query) (rest : List Byte) (next : List Byte → Int32 × Conn Errno)
    (part : stream c.incoming = q.message ++ rest)
    (replied : ∀ image, image.length < 4294967296 → Replied c image rest (next image)) :
    Turned c (.serves q (fun image => (goesOn (next image).1, (next image).2)))

/-- The iteration in which a handler is called. -/
theorem Handles.turned {t : UInt32} {c c₁ : Conn Errno} {p : Plan Int32} (h : Handles t c₁ p)
    (part : stream c.incoming = PARequest.codec.encode ⟨t⟩ ++ stream c₁.incoming)
    (errors : ∀ e, .error e ∈ c₁.incoming → .error e ∈ c.incoming)
    (outgoing : c₁.outgoing = c.outgoing) (sent : c₁.sent = c.sent) :
    Turned c (p.map goesOn) := by
  cases h with
  | short q c' type early sent' =>
    refine .left _ c' (.closing ?_) (sent'.trans sent)
    rw [part, ← type]
    exact .noQuery q _ early
  | failed e c' error sent' =>
    have hgoes : goesOn e.code = some e.code := if_pos e.nonzero
    simp only [Plan.map, hgoes]
    exact .left _ c' (.failed e (errors e error)) (sent'.trans sent)
  | served q rest next type part' replied =>
    refine .served q rest next ?_ (fun image hi => (replied image hi).before errors outgoing sent)
    rw [part, part', ← type]
    exact (List.append_assoc _ _ _).symm

theorem turn_planned (c : Conn Errno) : ∃ p, Planned Session.turn c p ∧ Turned c p := by
  obtain ⟨r, c₁, hy, hr⟩ := readPaRequest_yields c
  unfold Session.turn
  cases hr with
  | whole request c₁ part errors outgoing sent =>
    obtain ⟨t⟩ := request
    by_cases hbye : t = PA_GOODBYE
    · subst t
      refine ⟨_, hy.planned_bind (Planned.of_yields (fun _ => Yields.ret _ _)),
        .left 0 c₁ (.closing ?_) sent⟩
      rw [part]
      exact .goodbye _
    rcases handler_cases t with ⟨hnone, hno⟩ | ⟨handle, hsome, hhandler⟩
    · refine ⟨.done (some (-EINVAL)) c₁, hy.planned_bind (Planned.of_yields ?_),
        .left _ c₁ (.closing ?_) sent⟩
      · intro frame
        simp only [hbye, ↓reduceIte, hnone]
        exact Yields.ret _ _
      · rw [part]
        exact .unknown t _ hbye hno
    · obtain ⟨p, hp, hh⟩ := hhandler.planned c₁
      refine ⟨p.map goesOn, hy.planned_bind ?_, hh.turned part errors outgoing sent⟩
      simp only [hbye, ↓reduceIte, hsome]
      exact hp.bind_ret goesOn
  | short c₁ early sent =>
    exact ⟨_, hy.planned_bind (Planned.of_yields (fun _ => Yields.ret _ _)),
      .left _ c₁ (.closing (.noType _ early)) sent⟩
  | failed e c₁ error sent =>
    exact ⟨_, hy.planned_bind (Planned.of_yields (fun _ => Yields.ret _ _)),
      .left _ c₁ (.failed e error) sent⟩

end PowerArbiter
