import PowerArbiter.PAController
import PowerArbiter.Proofs.Sock

namespace PowerArbiter
open Wire PAController

/-- What a handler of the client puts into its query, when it accepts its input. -/
inductive Requests : Command → Query → Prop where
  | add (uid : Uid) (tapValue : Long) (input : List Char) (tapType : Long)
    (nonneg : ¬ tapValue < 0) (type : tapTypeOf input = some tapType) :
    Requests (.add uid tapValue input)
      (.add ⟨uid.toUInt64, tapValue.toInt64, tapType.toInt64.toUInt64⟩)
  | del (uid : Uid) : Requests (.del uid) (.remove ⟨uid.toUInt64⟩)
  | get (uid : Uid) : Requests (.get uid) (.get ⟨uid.toUInt64⟩)
  | set (uid : Uid) (tapValue : Long) (input : List Char) (tapType : Long)
    (nonneg : ¬ tapValue < 0) (type : tapTypeOf input = some tapType) :
    Requests (.set uid tapValue input)
      (.set ⟨uid.toUInt64, tapType.toInt64.toUInt64, tapValue.toInt64⟩)
  | connect (uid : Uid) : Requests (.connect uid) (.stat ⟨uid.toUInt64⟩)

/-- The response with the fields of a struct in memory. -/
def Query.readResponse (image : List Byte) : Query → Response
  | .stat _ => .stat (PAStatReserveResponse.codec.fields image)
  | .get _ => .get (PAGetTapParamsResponse.codec.fields image)
  | .set _ => .set (PASetTapParamsResponse.codec.fields image)
  | .add _ => .add (PAAddUIDParamsResponse.codec.fields image)
  | .remove _ => .remove (PARemoveUIDParamsResponse.codec.fields image)

/-- What the client makes of a response: the return code of its handler. -/
def Response.verdict : Response → Int32
  | .stat r => if r.error = PA_NO_ERROR ∧ r.flags &&& PA_USE_ROOT_RESERVE = 0 ∧
      r.flags &&& PA_RESERVE_GRANTED = 0 then -EINVAL else 0
  | _ => 0

theorem encode_length_lt (q : Query) : q.encode.length < 4294967296 := by
  cases q <;> exact lt_of_eq_of_lt (Codec.length_encode _ _) (by decide)

/-- The connection takes the request type and the query. -/
def Taken (q : Query) (c : Conn Errno) : Prop :=
  ∃ after later, deliver c.outgoing (PARequest.codec.encode ⟨q.requestType⟩).length = .ok after ∧
    deliver after q.encode.length = .ok later

theorem Taken.of_smooth {c : Conn Errno} (h : c.Smooth) (q : Query) : Taken q c := by
  cases htype : deliver c.outgoing (PARequest.codec.encode ⟨q.requestType⟩).length with
  | error e => exact absurd (deliver_error htype) (h.outgoing e)
  | ok after =>
    cases hquery : deliver after q.encode.length with
    | error e => exact absurd (deliver_errors htype (deliver_error hquery)) (h.outgoing e)
    | ok later => exact ⟨after, later, htype, hquery⟩

/-- How a handler of the client comes to its end. -/
inductive Transacted (q : Query) (c : Conn Errno) : Reported → Conn Errno → Prop where
  | unsent (e : Errno) (c' : Conn Errno) (early : ¬Taken q c) : Transacted q c (e.code, none) c'
  | unread (e : Errno) (c' : Conn Errno) (error : .error e ∈ c.incoming) :
    Transacted q c (e.code, none) c'
  | short (c' : Conn Errno) (taken : Taken q c) (sent : c'.sent = c.sent ++ q.message)
    (missing : (stream c.incoming).length < q.responseSize) (orderly : ∀ e, .error e ∉ c.incoming)
    (rest : stream c'.incoming = []) : Transacted q c (0, none) c'
  | whole (r : Response) (c' : Conn Errno) (sent : c'.sent = c.sent ++ q.message)
    (size : q.responseSize ≤ (stream c.incoming).length)
    (read : r = q.readResponse ((stream c.incoming).take q.responseSize))
    (rest : stream c'.incoming = (stream c.incoming).drop q.responseSize) :
    Transacted q c (r.verdict, some r) c'

/-- One of the two calls that send a part of the request. -/
theorem send_request_cases {buf : List Byte} (hsize : buf.length < 4294967296) (c : Conn Errno) :
    (∃ e c', deliver c.outgoing buf.length = .error e ∧
      Yields (streamsockSend buf (.ofNat buf.length) : Client _) c (.error e.code) c') ∨
    ∃ c', deliver c.outgoing buf.length = .ok c'.outgoing ∧
      Yields (streamsockSend buf (.ofNat buf.length) : Client _) c (.ok (.ofNat buf.length)) c' ∧
      c'.sent = c.sent ++ buf ∧ c'.incoming = c.incoming := by
  obtain ⟨r, c', hy, hd⟩ := streamsockSend_delivers (Q := Empty) (R := Empty) hsize c
  cases hd with
  | all later taken => exact .inr ⟨_, taken, hy, rfl, rfl⟩
  | failed e k later early => exact .inl ⟨e, _, early, hy⟩

/-- The end of a transaction, when the request is out. -/
def receive {α : Type} (codec : Codec α) : Client (Except Int32 α) := do
  match ← streamsockRead (.ofNat codec.sizeof) (.ofNat codec.sizeof) with
  | .error ret => return .error ret
  | .ok (numTransferred, buf) =>
    if numTransferred ≠ .ofNat codec.sizeof then
      return .error 0
    return .ok (codec.fields buf)

theorem receive_cases {α : Type} (codec : Codec α) (hlt : codec.sizeof < 4294967296)
    (c : Conn Errno) :
    (∃ e c', .error e ∈ c.incoming ∧ Yields (receive codec) c (.error e.code) c') ∨
    (∃ c', (stream c.incoming).length < codec.sizeof ∧ (∀ e, .error e ∉ c.incoming) ∧
      stream c'.incoming = [] ∧ c'.sent = c.sent ∧ Yields (receive codec) c (.error 0) c') ∨
    ∃ c', codec.sizeof ≤ (stream c.incoming).length ∧
      stream c'.incoming = (stream c.incoming).drop codec.sizeof ∧ c'.sent = c.sent ∧
      Yields (receive codec) c (.ok (codec.fields ((stream c.incoming).take codec.sizeof))) c' := by
  have hsize : (UInt64.ofNat codec.sizeof).toNat = codec.sizeof := by
    rw [UInt64.toNat_ofNat']
    omega
  have hread := streamsockRead_gathers (Q := Empty) (R := Empty)
    (by omega : (UInt64.ofNat codec.sizeof).toNat < 4294967296) c
  rw [hsize] at hread
  cases hg : (gather c.incoming codec.sizeof).1 with
  | error e =>
    rw [hg] at hread
    exact .inl ⟨e, _, (gather_error hg).2, hread.bind (Yields.ret _ _)⟩
  | ok bytes =>
    obtain ⟨hbytes, hrest⟩ := gather_ok hg
    rw [hg] at hread
    by_cases hshort : (stream c.incoming).length < codec.sizeof
    · refine .inr (.inl ⟨{ c with incoming := (gather c.incoming codec.sizeof).2 }, hshort,
        gather_short hg hshort, hrest.trans (List.drop_of_length_le (Nat.le_of_lt hshort)), rfl,
        hread.bind ?_⟩)
      have hcount : UInt64.ofNat ([] ++ bytes).length ≠ .ofNat codec.sizeof := by
        intro hk
        have hlen := congrArg UInt64.toNat hk
        rw [hsize, List.nil_append, UInt64.toNat_ofNat', hbytes, List.length_take] at hlen
        omega
      simp only [readResult, hcount, ne_eq, not_false_eq_true, ↓reduceIte]
      exact Yields.ret _ _
    · have hlong := Nat.not_lt.mp hshort
      refine .inr (.inr ⟨{ c with incoming := (gather c.incoming codec.sizeof).2 }, hlong, hrest,
        rfl, hread.bind ?_⟩)
      have hcount : ([] ++ bytes).length = codec.sizeof := by
        rw [List.nil_append, hbytes, List.length_take_of_le hlong]
      simp only [readResult, hcount, ne_eq, not_true_eq_false, ↓reduceIte]
      rw [List.nil_append, hbytes]
      exact Yields.ret _ _

/-- The parts of a transaction, one after the other. -/
theorem Yields.transact {α : Type} {q : Query} {codec : Codec α} {c c₁ c₂ c₃ : Conn Errno}
    {r : Except Int32 α}
    (hy₁ : Yields (streamsockSend (PARequest.codec.encode ⟨q.requestType⟩)
        (.ofNat (PARequest.codec.encode ⟨q.requestType⟩).length) : Client _) c
      (.ok (.ofNat (PARequest.codec.encode ⟨q.requestType⟩).length)) c₁)
    (hy₂ : Yields (streamsockSend q.encode (.ofNat q.encode.length) : Client _) c₁
      (.ok (.ofNat q.encode.length)) c₂)
    (hy₃ : Yields (receive codec) c₂ r c₃) : Yields (PAController.transact q codec) c r c₃ := by
  unfold PAController.transact
  refine hy₁.bind ?_
  simp only [ne_eq, not_true_eq_false, ↓reduceIte]
  refine hy₂.bind ?_
  simp only [not_true_eq_false, ↓reduceIte]
  exact hy₃

/-- What a handler makes of its transaction. -/
theorem transact_outcome {α : Type} (q : Query) (codec : Codec α)
    (hsize : q.responseSize = codec.sizeof) (hlt : codec.sizeof < 4294967296)
    {f : Except Int32 α → Client Reported} (herr : ∀ ret, f (.error ret) = .ret (ret, none))
    (hok : ∀ image, f (.ok (codec.fields image)) =
      .ret ((q.readResponse image).verdict, some (q.readResponse image))) (c : Conn Errno) :
    ∃ x c', Yields (Talk.bind (transact q codec) f) c x c' ∧ Transacted q c x c' := by
  have hrequest : (PARequest.codec.encode ⟨q.requestType⟩).length < 4294967296 :=
    lt_of_eq_of_lt (PARequest.codec.length_encode ⟨q.requestType⟩) (by decide)
  have hstop : ∀ {c' : Conn Errno} {ret : Int32}, Yields (transact q codec) c (.error ret) c' →
      Yields (Talk.bind (transact q codec) f) c (ret, none) c' := by
    intro c' ret hy
    exact hy.bind (herr ret ▸ Yields.ret _ _)
  rcases send_request_cases hrequest c with ⟨e, c₁, hfail, hy₁⟩ | ⟨c₁, htaken₁, hy₁, hsent₁, hin₁⟩
  · refine ⟨_, c₁, hstop (hy₁.bind (Yields.ret _ _)), .unsent e c₁ ?_⟩
    intro ht
    obtain ⟨after, _, hafter, _⟩ := ht
    rw [hfail] at hafter
    cases hafter
  rcases send_request_cases (encode_length_lt q) c₁ with
    ⟨e, c₂, hfail, hy₂⟩ | ⟨c₂, htaken₂, hy₂, hsent₂, hin₂⟩
  · refine ⟨_, c₂, hstop (hy₁.bind ?_), .unsent e c₂ ?_⟩
    · simp only [ne_eq, not_true_eq_false, ↓reduceIte]
      exact hy₂.bind (Yields.ret _ _)
    · intro ht
      obtain ⟨after, later, hafter, hlater⟩ := ht
      rw [htaken₁] at hafter
      cases hafter
      rw [hfail] at hlater
      cases hlater
  have hincoming : c₂.incoming = c.incoming := hin₂.trans hin₁
  have hsent : c₂.sent = c.sent ++ q.message := by
    rw [hsent₂, hsent₁, List.append_assoc]
    rfl
  -- the request is out, and what is to be read is as it was
  rcases hincoming ▸ receive_cases codec hlt c₂ with ⟨e, c₃, herror, hy₃⟩ |
    ⟨c₃, hshort, horderly, hrest, hsent₃, hy₃⟩ | ⟨c₃, hlong, hrest, hsent₃, hy₃⟩
  · exact ⟨_, c₃, hstop (hy₁.transact hy₂ hy₃), .unread e c₃ herror⟩
  · exact ⟨_, c₃, hstop (hy₁.transact hy₂ hy₃), .short c₃ ⟨_, _, htaken₁, htaken₂⟩
      (hsent₃.trans hsent) (hsize ▸ hshort) horderly hrest⟩
  · rw [← hsize] at hlong hrest hy₃
    exact ⟨_, c₃, (hy₁.transact hy₂ hy₃).bind (hok _ ▸ Yields.ret _ _),
      .whole _ c₃ (hsent₃.trans hsent) hlong rfl hrest⟩

theorem handle_outcome {cmd : Command} {q : Query} (h : Requests cmd q) (c : Conn Errno) :
    ∃ x c', Yields cmd.handle c x c' ∧ Transacted q c x c' := by
  cases h with
  | add uid tapValue input tapType nonneg type =>
    simp only [Command.handle, handleAddReserveMapping, nonneg, ↓reduceIte, type]
    exact transact_outcome _ PAAddUIDParamsResponse.codec rfl (by decide) (fun _ => rfl)
      (fun _ => rfl) c
  | del uid =>
    exact transact_outcome _ PARemoveUIDParamsResponse.codec rfl (by decide) (fun _ => rfl)
      (fun _ => rfl) c
  | get uid =>
    exact transact_outcome _ PAGetTapParamsResponse.codec rfl (by decide) (fun _ => rfl)
      (fun _ => rfl) c
  | set uid tapValue input tapType nonneg type =>
    simp only [Command.handle, handleSetReserveMappingData, nonneg, ↓reduceIte, type]
    exact transact_outcome _ PASetTapParamsResponse.codec rfl (by decide) (fun _ => rfl)
      (fun _ => rfl) c
  | connect uid =>
    exact transact_outcome _ PAStatReserveResponse.codec rfl (by decide) (fun _ => rfl)
      (fun _ => rfl) c

end PowerArbiter
