import PowerArbiter.Proofs.Handlers
import PowerArbiter.Proofs.Session

namespace PowerArbiter
open Monitor Wire

/-- A stream as complete requests, up to what closes the session. -/
structure Framing (s : List Byte) where
  messages : List Query
  tail : List Byte
  code : Int32
  split : s = (messages.map Query.message).flatten ++ tail
  closing : Closing tail code

/-- The operations of a list of requests in order, and the bytes that answer each. -/
def answerAll (ctx : ClientData) (frames : Nat → Frame) : Nat → List Query →
    Program (List (List Byte))
  | _, [] => return []
  | i, q :: qs => do
    let outcome ← operation (q.op ctx (frames i).locals)
    let response := q.respond (frames i).locals outcome
    return response.image (frames i).response :: (← answerAll ctx frames (i + 1) qs)

theorem handleClient_replies {ctx : ClientData} {stack : Locals} {q : Query}
    {db db' : ReserveDataDatabase} {es : List (Event sig)} {r : Response}
    (h : (handleClient ctx stack q).Runs effect db es r db') : Replies q r := by
  cases q with
  | stat q =>
    obtain ⟨x, _, rfl⟩ := (Prog.runs_map (S := sig)).mp h
    exact .stat q x
  | get q =>
    obtain ⟨x, _, rfl⟩ := (Prog.runs_map (S := sig)).mp h
    exact .get q x
  | set q =>
    obtain ⟨x, _, rfl⟩ := (Prog.runs_map (S := sig)).mp h
    exact .set q x
  | add q =>
    obtain ⟨x, _, rfl⟩ := (Prog.runs_map (S := sig)).mp h
    exact .add q x
  | remove q =>
    obtain ⟨x, _, rfl⟩ := (Prog.runs_map (S := sig)).mp h
    exact .remove q x

theorem requestType_ne_goodbye (q : Query) : q.requestType ≠ PA_GOODBYE := by
  cases q <;> simp only [Query.requestType] <;> decide

/-- Two requests of one type. -/
inductive SameType : Query → Query → Prop where
  | stat (q q') : SameType (.stat q) (.stat q')
  | get (q q') : SameType (.get q) (.get q')
  | set (q q') : SameType (.set q) (.set q')
  | add (q q') : SameType (.add q) (.add q')
  | remove (q q') : SameType (.remove q) (.remove q')

theorem sameType_of_eq {q q' : Query} (h : q.requestType = q'.requestType) : SameType q q' := by
  cases q <;> cases q' <;>
    first | constructor | (simp only [Query.requestType] at h; exact absurd h (by decide))

theorem SameType.length_encode {q q' : Query} (h : SameType q q') :
    q.encode.length = q'.encode.length := by
  cases h <;> exact (Codec.length_encode _ _).trans (Codec.length_encode _ _).symm

theorem SameType.encode_append_inj {q q' : Query} {s t : List Byte} (h : SameType q q')
    (he : q.encode ++ s = q'.encode ++ t) : q = q' ∧ s = t := by
  cases h with
  | stat q q' =>
    obtain ⟨rfl, rfl⟩ := PAStatReserveQuery.codec.encode_append_inj he
    exact ⟨rfl, rfl⟩
  | get q q' =>
    obtain ⟨rfl, rfl⟩ := PAGetTapParamsQuery.codec.encode_append_inj he
    exact ⟨rfl, rfl⟩
  | set q q' =>
    obtain ⟨rfl, rfl⟩ := PASetTapParamsQuery.codec.encode_append_inj he
    exact ⟨rfl, rfl⟩
  | add q q' =>
    obtain ⟨rfl, rfl⟩ := PAAddUIDParamsQuery.codec.encode_append_inj he
    exact ⟨rfl, rfl⟩
  | remove q q' =>
    obtain ⟨rfl, rfl⟩ := PARemoveUIDParamsQuery.codec.encode_append_inj he
    exact ⟨rfl, rfl⟩

theorem message_append (q : Query) (s : List Byte) :
    q.message ++ s = PARequest.codec.encode ⟨q.requestType⟩ ++ (q.encode ++ s) :=
  List.append_assoc _ _ _

theorem message_append_inj {q q' : Query} {s t : List Byte} (h : q.message ++ s = q'.message ++ t) :
    q = q' ∧ s = t := by
  rw [message_append, message_append] at h
  obtain ⟨htype, hrest⟩ := PARequest.codec.encode_append_inj h
  exact (sameType_of_eq (congrArg PARequest.requestType htype)).encode_append_inj hrest

/-- What closes a session, sorted by the type that can be read. -/
theorem Closing.cases {s : List Byte} {err : Int32} (h : Closing s err) :
    (s.length < PARequest.codec.size ∧ err = -EPROTO) ∨
      ∃ t rest, s = PARequest.codec.encode ⟨t⟩ ++ rest ∧
        ((t = PA_GOODBYE ∧ err = 0) ∨
          (t ≠ PA_GOODBYE ∧ (∀ q : Query, q.requestType ≠ t) ∧ err = -EINVAL) ∨
          (∃ q : Query, q.requestType = t ∧ rest.length < q.encode.length ∧ err = -EPROTO)) := by
  cases h with
  | goodbye rest => exact .inr ⟨_, rest, rfl, .inl ⟨rfl, rfl⟩⟩
  | unknown t rest hbye hno => exact .inr ⟨t, rest, rfl, .inr (.inl ⟨hbye, hno, rfl⟩)⟩
  | noType part short => exact .inl ⟨short, rfl⟩
  | noQuery q part short => exact .inr ⟨_, part, rfl, .inr (.inr ⟨q, rfl, short, rfl⟩)⟩

theorem not_short {t : UInt32} {rest : List Byte} :
    ¬ (PARequest.codec.encode ⟨t⟩ ++ rest).length < PARequest.codec.size := by
  rw [List.length_append, PARequest.codec.length_encode]
  omega

theorem Closing.unique {s : List Byte} {err err' : Int32} (h : Closing s err)
    (h' : Closing s err') : err = err' := by
  rcases h.cases with ⟨hs, rfl⟩ | ⟨t, rest, rfl, ht⟩
  · rcases h'.cases with ⟨_, rfl⟩ | ⟨t', rest', rfl, _⟩
    · rfl
    · exact absurd hs not_short
  · rcases h'.cases with ⟨hs, _⟩ | ⟨t', rest', he, ht'⟩
    · exact absurd hs not_short
    · obtain ⟨heq, rfl⟩ := PARequest.codec.encode_append_inj he
      obtain rfl : t = t' := congrArg PARequest.requestType heq
      rcases ht with ⟨hb, rfl⟩ | ⟨hb, hno, rfl⟩ | ⟨q, hq, _, rfl⟩ <;>
        rcases ht' with ⟨hb', rfl⟩ | ⟨hb', hno', rfl⟩ | ⟨q', hq', _, rfl⟩
      · rfl
      · exact absurd hb hb'
      · exact absurd (hq'.trans hb) (requestType_ne_goodbye q')
      · exact absurd hb' hb
      · rfl
      · exact absurd hq' (hno q')
      · exact absurd (hq.trans hb') (requestType_ne_goodbye q)
      · exact absurd hq (hno' q)
      · rfl

/-- A complete request does not close a session. -/
theorem Closing.not_message {q : Query} {s : List Byte} {err : Int32} :
    ¬ Closing (q.message ++ s) err := by
  intro h
  rw [message_append] at h
  rcases h.cases with ⟨hs, _⟩ | ⟨t, rest, he, ht⟩
  · exact not_short hs
  · obtain ⟨heq, rfl⟩ := PARequest.codec.encode_append_inj he
    obtain rfl : q.requestType = t := congrArg PARequest.requestType heq
    rcases ht with ⟨hb, _⟩ | ⟨_, hno, _⟩ | ⟨q', hq', hshort, _⟩
    · exact requestType_ne_goodbye q hb
    · exact hno q rfl
    · rw [(sameType_of_eq hq').length_encode, List.length_append] at hshort
      omega

theorem Closing.goodbye_of_zero {s : List Byte} (h : Closing s 0) :
    ∃ rest, s = PARequest.codec.encode ⟨PA_GOODBYE⟩ ++ rest := by
  rcases h.cases with ⟨_, he⟩ | ⟨t, rest, rfl, ⟨rfl, _⟩ | ⟨_, _, he⟩ | ⟨_, _, _, he⟩⟩
  · exact absurd he (by decide)
  · exact ⟨rest, rfl⟩
  · exact absurd he (by decide)
  · exact absurd he (by decide)

/-- A turn on a connection that never fails finds a request, or the end. -/
theorem message_or_closing (s : List Byte) :
    (∃ err, Closing s err) ∨ ∃ (q : Query) (rest : List Byte), s = q.message ++ rest := by
  obtain ⟨c, hsmooth, hs, _⟩ := exists_smooth s
  obtain ⟨p, _, hp⟩ := turn_planned c
  cases hp with
  | left err c' cause sent =>
    cases cause with
    | closing h => exact .inl ⟨err, hs ▸ h⟩
    | failed e error => exact absurd error (hsmooth.incoming e)
  | served q rest next part replied => exact .inr ⟨q, rest, hs.symm.trans part⟩

theorem message_length (q : Query) : 0 < q.message.length := by
  unfold Query.message
  rw [List.length_append, PARequest.codec.length_encode]
  exact Nat.lt_of_lt_of_le (by decide) (Nat.le_add_right _ _)

theorem exists_framing (s : List Byte) : Nonempty (Framing s) := by
  induction hn : s.length using Nat.strongRecOn generalizing s with
  | ind n ih =>
    rcases message_or_closing s with ⟨err, hc⟩ | ⟨q, rest, rfl⟩
    · exact ⟨[], s, err, rfl, hc⟩
    · have hlt : rest.length < n := by
        have hpos := message_length q
        rw [List.length_append] at hn
        omega
      obtain ⟨qs, tail, code, hsplit, hclose⟩ := ih rest.length hlt rest rfl
      refine ⟨q :: qs, tail, code, ?_, hclose⟩
      rw [List.map_cons, List.flatten_cons, List.append_assoc, ← hsplit]

/-- A stream can be taken apart in one way only. -/
theorem split_unique {qs qs' : List Query} {tail tail' : List Byte} {code code' : Int32}
    (h : Closing tail code) (h' : Closing tail' code')
    (he : (qs.map Query.message).flatten ++ tail = (qs'.map Query.message).flatten ++ tail') :
    qs = qs' ∧ tail = tail' ∧ code = code' := by
  induction qs generalizing qs' with
  | nil =>
    cases qs' with
    | nil =>
      obtain rfl : tail = tail' := he
      exact ⟨rfl, rfl, h.unique h'⟩
    | cons q' qs' =>
      rw [List.map_cons, List.flatten_cons, List.append_assoc] at he
      obtain rfl : tail = _ := he
      exact absurd h Closing.not_message
  | cons q qs ih =>
    rw [List.map_cons, List.flatten_cons, List.append_assoc] at he
    cases qs' with
    | nil =>
      obtain rfl : _ = tail' := he
      exact absurd h' Closing.not_message
    | cons q' qs' =>
      rw [List.map_cons, List.flatten_cons, List.append_assoc] at he
      obtain ⟨rfl, hrest⟩ := message_append_inj he
      obtain ⟨rfl, htail⟩ := ih hrest
      exact ⟨rfl, htail⟩

theorem Framing.unique {s : List Byte} (f g : Framing s) : f = g := by
  obtain ⟨qs, tail, code, hsplit, hclose⟩ := f
  obtain ⟨qs', tail', code', hsplit', hclose'⟩ := g
  obtain ⟨rfl, rfl, rfl⟩ := split_unique hclose hclose' (hsplit.symm.trans hsplit')
  rfl

/-- On a connection that never fails, a complete request is carried out and answered, and
the next one is waited for. -/
theorem turn_serves {q : Query} {rest : List Byte} {c : Conn Errno} (hsmooth : c.Smooth)
    (hs : stream c.incoming = q.message ++ rest) :
    ∃ next : List Byte → Conn Errno,
      Planned Session.turn c (.serves q (fun image => (none, next image))) ∧
      ∀ image, image.length < 4294967296 → (next image).Smooth ∧
        (next image).sent = c.sent ++ image ∧ stream (next image).incoming = rest := by
  obtain ⟨p, hplan, hp⟩ := turn_planned c
  cases hp with
  | left err c' cause sent =>
    cases cause with
    | closing h => exact absurd (hs ▸ h) Closing.not_message
    | failed e error => exact absurd error (hsmooth.incoming e)
  | served q' rest' next part replied =>
    obtain ⟨rfl, rfl⟩ := message_append_inj (part.symm.trans hs)
    have hnext : ∀ image, image.length < 4294967296 → (next image).1 = 0 ∧
        (next image).2.Smooth ∧ (next image).2.sent = c.sent ++ image ∧
        stream (next image).2.incoming = rest' := by
      intro image himage
      have hr := replied image himage
      generalize next image = y at hr
      cases hr with
      | sent c' sent incoming smooth => exact ⟨rfl, smooth hsmooth, sent, incoming⟩
      | failed e c' error => exact absurd error (hsmooth.outgoing e)
    refine ⟨fun image => (next image).2, ?_, fun image himage => (hnext image himage).2⟩
    intro frame m _ _ serve
    rw [hplan frame m serve]
    refine bind_congr (fun r => ?_)
    have hzero := (hnext _ (r.length_image_lt frame.response)).1
    simp only [hzero, goesOn, ne_eq, not_true_eq_false, ↓reduceIte]

/-- The value that a session ends with, and the bytes that it has sent. -/
def Session.summary (result : Option (Int32 × Conn Errno)) : Option (Int32 × List Byte) :=
  result.map (fun x => (x.1, x.2.sent))

/-- What follows an iteration of the loop. -/
def Session.carryOn (ctx : ClientData) (frames : Nat → Frame) (turns i : Nat) :
    Option Int32 × Conn Errno → Program (Option (Int32 × Conn Errno))
  | (some err, c) => .ret (some (err, c))
  | (none, c) => Session.loop ctx frames turns i c

theorem loop_planned {ctx : ClientData} {frames : Nat → Frame} {turns i : Nat} {c : Conn Errno}
    {p : Plan (Option Int32)} (h : Planned Session.turn c p) :
    Session.loop ctx frames (turns + 1) i c =
      (p.run (m := Prog sig) (frames i) (fun q => handleClient ctx q.1 q.2)).bind
        (Session.carryOn ctx frames turns (i + 1)) := by
  rw [← h (frames i) (Prog sig) (fun q => handleClient ctx q.1 q.2)]
  rfl

/-- From a connection that never fails the loop answers the requests one by one. -/
theorem loop_answers (ctx : ClientData) (frames : Nat → Frame) {qs : List Query}
    {tail : List Byte} {code : Int32} (hclose : Closing tail code) {turns : Nat}
    (hturns : qs.length < turns) (i : Nat) {c : Conn Errno} (hsmooth : c.Smooth)
    (hs : stream c.incoming = (qs.map Query.message).flatten ++ tail) :
    (Session.loop ctx frames turns i c).bind (fun x => .ret (Session.summary x)) =
      (answerAll ctx frames i qs).bind
        (fun replies => .ret (some (code, c.sent ++ replies.flatten))) := by
  induction qs generalizing turns i c with
  | nil =>
    obtain ⟨turns, rfl⟩ : ∃ n, turns = n + 1 := ⟨turns - 1, by omega⟩
    obtain ⟨p, hplan, hp⟩ := turn_planned c
    have htail : stream c.incoming = tail := hs
    cases hp with
    | left err c' cause sent =>
      have herr : err = code := by
        cases cause with
        | closing h => exact (htail ▸ h).unique hclose
        | failed e error => exact absurd error (hsmooth.incoming e)
      rw [loop_planned hplan]
      simp [Plan.run, Session.carryOn, answerAll, Session.summary, herr, sent]
    | served q rest next part replied =>
      rw [← htail, part] at hclose
      exact absurd hclose Closing.not_message
  | cons q qs ih =>
    obtain ⟨turns, rfl⟩ : ∃ n, turns = n + 1 := ⟨turns - 1, by omega⟩
    rw [List.map_cons, List.flatten_cons, List.append_assoc] at hs
    obtain ⟨next, hplan, hnext⟩ := turn_serves hsmooth hs
    rw [loop_planned hplan]
    simp only [Plan.run, answerAll, handleClient_eq, Prog.bind_eq, Prog.pure_eq, Prog.bind_assoc,
      Prog.ret_bind]
    congr 1
    funext o
    obtain ⟨hsmooth', hsent, hrest⟩ :=
      hnext _ ((q.respond (frames i).locals o).length_image_lt (frames i).response)
    have hih := ih (by simpa using hturns) (i + 1) hsmooth' hrest
    simp only [List.flatten_cons, ← List.append_assoc, ← hsent]
    exact hih

theorem length_le_flatten (qs : List Query) :
    qs.length ≤ (qs.map Query.message).flatten.length := by
  induction qs with
  | nil => exact Nat.le_refl _
  | cons q qs ih =>
    have hpos := message_length q
    rw [List.map_cons, List.flatten_cons, List.length_append, List.length_cons]
    omega

theorem answerAll_sizes {ctx : ClientData} {frames : Nat → Frame} {i : Nat} {qs : List Query}
    {db db' : ReserveDataDatabase} {es : List (Event sig)} {replies : List (List Byte)}
    (h : (answerAll ctx frames i qs).Runs effect db es replies db') :
    replies.map List.length = qs.map Query.responseSize := by
  induction qs generalizing i db es replies with
  | nil =>
    obtain ⟨_, rfl, _⟩ := (Prog.runs_ret (S := sig)).mp h
    rfl
  | cons q qs ih =>
    obtain ⟨o, mid, es₁, es₂, rfl, ho, h⟩ := (Prog.runs_bind (S := sig)).mp h
    obtain ⟨rest, end', es₃, es₄, rfl, hrest, h⟩ := (Prog.runs_bind (S := sig)).mp h
    obtain ⟨rfl, rfl, rfl⟩ := (Prog.runs_ret (S := sig)).mp h
    have hreplies := handleClient_replies (handleClient_runs.mpr ⟨o, ho, rfl⟩)
    rw [List.map_cons, List.map_cons, hreplies.length_image, ih hrest]

/-- Every stream is a list of complete requests and a rest that closes the session, and
a session on it carries out those requests in order, each once, and sends one response
of fixed size for each. Cutting the stream differently makes no difference. -/
theorem session_framing (s : List Byte) : ∃ f : Framing s, (∀ g : Framing s, g = f) ∧
    (f.code = 0 → ∃ rest, f.tail = PARequest.codec.encode ⟨PA_GOODBYE⟩ ++ rest) ∧
    ∀ (ctx : ClientData) (frames : Nat → Frame),
      (∀ c : Conn Errno, c.Smooth → stream c.incoming = s → c.sent = [] →
        (doHandleClient ctx frames c).bind (fun x => .ret (Session.summary x)) =
          (answerAll ctx frames 0 f.messages).bind
            (fun replies => .ret (some (f.code, replies.flatten)))) ∧
      ∀ db es replies db', (answerAll ctx frames 0 f.messages).Runs effect db es replies db' →
        replies.map List.length = f.messages.map Query.responseSize := by
  obtain ⟨f⟩ := exists_framing s
  refine ⟨f, fun g => g.unique f, ?_, fun ctx frames => ⟨?_, ?_⟩⟩
  · intro hzero
    exact (hzero ▸ f.closing).goodbye_of_zero
  · intro c hsmooth hs hsent
    have hlen := length_le_flatten f.messages
    have hturns : f.messages.length < (stream c.incoming).length + 1 := by
      have hsplit := congrArg List.length f.split
      rw [List.length_append] at hsplit
      rw [hs]
      omega
    have hloop := loop_answers ctx frames f.closing hturns 0 hsmooth (hs.trans f.split)
    rw [hsent] at hloop
    exact hloop
  · intro db es replies db' h
    exact answerAll_sizes h

/-- An ADD, a REMOVE and something that no request begins with. -/
def strayStream : List Byte :=
  ([.add ⟨7, 5, 1⟩, .remove ⟨7⟩].map Query.message).flatten ++ (PARequest.codec.encode ⟨9⟩ ++ [1])

/-- It comes in three pieces. -/
def strayConn : Conn Errno where
  incoming := [.data 4 [0], .data 0 [0, 7, 0, 0, 0, 0, 0, 0, 0, 5, 0, 0, 0, 0, 0, 0, 0, 1, 0],
    .data 0 [0, 0, 0, 0, 0, 5, 0, 0, 0, 7, 0, 0, 0, 0, 0, 0, 0, 9, 0, 0, 0, 1]]
  outgoing := [.room 2]
  sent := []

theorem session_framing_stray : ∃ (f : Framing strayStream) (db : ReserveDataDatabase),
    f.messages = [.add ⟨7, 5, 1⟩, .remove ⟨7⟩] ∧ f.code = -EINVAL ∧
    ((doHandleClient ⟨1, 1000, 1000⟩ (fun _ => someFrame) strayConn).bind
      (fun x => .ret (Session.summary x))).Runs effect .empty
      [.lock none, .call .malloc ⟨1, 0⟩, .call .mutexInit ⟨0, 0⟩, .unlock, .lock none, .unlock]
      (some (-EINVAL, [0, 0, 0, 0, 0, 0, 0, 0])) db ∧ db.deadList = [0] := by
  have hclosing : Closing (PARequest.codec.encode ⟨9⟩ ++ [1]) (-EINVAL) := by
    refine .unknown 9 [1] (by decide) fun q => ?_
    cases q <;> simp only [Query.requestType] <;> decide
  let framing : Framing strayStream := ⟨_, _, _, rfl, hclosing⟩
  obtain ⟨f, hunique, -, hruns⟩ := session_framing strayStream
  obtain rfl := hunique framing
  have hall := (hruns ⟨1, 1000, 1000⟩ (fun _ => someFrame)).1 strayConn
    ⟨by simp [strayConn], by simp [strayConn]⟩ rfl rfl
  have hrun : ∃ db, ((answerAll ⟨1, 1000, 1000⟩ (fun _ => someFrame) 0 framing.messages).bind
      (fun replies => .ret (some (framing.code, replies.flatten)))).Runs effect .empty
      [.lock none, .call .malloc ⟨1, 0⟩, .call .mutexInit ⟨0, 0⟩, .unlock, .lock none, .unlock]
      (some (-EINVAL, [0, 0, 0, 0, 0, 0, 0, 0])) db ∧ db.deadList = [0] := ⟨_, rfl, rfl⟩
  rw [← hall] at hrun
  obtain ⟨db, hdb⟩ := hrun
  exact ⟨framing, db, rfl, rfl, hdb⟩

end PowerArbiter
