import PowerArbiter.Proofs.Framing
import PowerArbiter.Service

namespace PowerArbiter
open Monitor Wire

/-- Nothing is left to do but to send. -/
def Sends : Session (Option Int32) → Prop
  | .ret _ => True
  | .recv _ _ => False
  | .send _ k => ∀ x, Sends (k x)
  | .ask _ _ => False

/-- An iteration of the loop that has received `got`. It reads no byte beyond the
message that it has begun to read, it carries out the request of that message and no
other, and then it sends. A shutdown or a failure of `recv` ends the session. -/
def Listens : Session (Option Int32) → List Byte → Prop
  | .ret a, _ => ∃ err, a = some err
  | .recv len k, got =>
    0 < len ∧ (∀ (q : Query) rest, got ++ rest = q.message → len ≤ rest.length) ∧
      (∃ err, k (.ok []) = .ret (some err)) ∧ (∀ e, ∃ err, k (.error e) = .ret (some err)) ∧
      ∀ bytes, bytes ≠ [] → bytes.length ≤ len → Listens (k (.ok bytes)) (got ++ bytes)
  | .send _ _, _ => False
  | .ask x k, got => got = x.2.message ∧ ∀ r, Sends (k r)

variable {α : Type}

theorem sendLoop_sends {toSend : UInt64} {f : Except Int32 UInt64 → Session (Option Int32)}
    (hf : ∀ x, Sends (f x)) (calls : Nat) (sent remaining : UInt64) (buf : List Byte) :
    Sends ((streamsockSend.loop toSend calls sent remaining buf).bind f) := by
  induction calls generalizing sent remaining buf with
  | zero => exact hf _
  | succ calls ih =>
    unfold streamsockSend.loop
    by_cases hlt : sent < toSend
    · simp only [hlt, ↓reduceIte, Talk.bind]
      intro x
      cases x with
      | error e => exact hf _
      | ok n => exact ih _ _ _
    · simp only [hlt, ↓reduceIte]
      exact hf _

theorem reply_sends (image : List Byte) :
    Sends ((Session.reply image).bind (fun err => .ret (goesOn err))) := by
  unfold Session.reply streamsockSend
  rw [Talk.bind_eq, Talk.bind_assoc]
  apply sendLoop_sends
  intro x
  cases x <;> exact trivial

/-- Reading a struct that every message which begins with `got` goes on with. -/
theorem readLoop_listens {toRead : UInt64} (hsize : toRead.toNat < 4294967296) {got : List Byte}
    {f : Except Int32 (UInt64 × List Byte) → Session (Option Int32)}
    (hmessage : ∀ (q : Query) rest, got ++ rest = q.message → toRead.toNat ≤ rest.length)
    (herror : ∀ e : Errno, ∃ err, f (.error e.code) = .ret (some err))
    (hshort : ∀ k buf, k < toRead → ∃ err, f (.ok (k, buf)) = .ret (some err))
    (hwhole : ∀ buf, buf.length = toRead.toNat → Listens (f (.ok (toRead, buf))) (got ++ buf))
    (calls : Nat) (rcvd remaining : UInt64) (buf : List Byte)
    (hsum : rcvd.toNat + remaining.toNat = toRead.toNat) (hcalls : remaining.toNat ≤ calls)
    (hbuf : rcvd.toNat = buf.length) :
    Listens ((streamsockRead.loop toRead calls rcvd remaining buf).bind f) (got ++ buf) := by
  induction calls generalizing rcvd remaining buf with
  | zero =>
    obtain rfl : rcvd = toRead := UInt64.toNat_inj.mp (by omega)
    exact hwhole buf hbuf.symm
  | succ calls ih =>
    unfold streamsockRead.loop
    by_cases hlt : rcvd < toRead
    · have hlt' : rcvd.toNat < toRead.toNat := UInt64.lt_iff_toNat_lt.mp hlt
      have hlen : remaining.toUInt32.toNat = remaining.toNat := size_t_toNat (by omega)
      simp only [hlt, ↓reduceIte, hlen, Talk.bind]
      refine ⟨by omega, ?_, hshort rcvd buf hlt, herror, ?_⟩
      · intro q rest hq
        have hle := hmessage q (buf ++ rest) (by rw [← List.append_assoc, hq])
        rw [List.length_append] at hle
        omega
      · intro bytes hne hle
        cases bytes with
        | nil => exact absurd rfl hne
        | cons b bs =>
          have hadd := toNat_add_count (x := rcvd) (n := (b :: bs).length) (by omega)
          have hsub := toNat_sub_count (x := remaining) hle
          have hpos : 0 < (b :: bs).length := Nat.zero_lt_succ _
          rw [List.append_assoc]
          exact ih _ _ _ (by omega) (by omega) (by rw [hadd, List.length_append, hbuf])
    · have hle := UInt64.le_iff_toNat_le.mp (UInt64.not_lt.mp hlt)
      obtain rfl : rcvd = toRead := UInt64.toNat_inj.mp (by omega)
      simp only [hlt, ↓reduceIte]
      exact hwhole buf hbuf.symm

theorem readStruct_listens (codec : Codec α) (hpack : codec.sizeof = codec.size)
    (hsize : codec.size < 4294967296) {got : List Byte}
    {f : Except Int32 (UInt64 × List Byte) → Session (Option Int32)}
    (hmessage : ∀ (q : Query) rest, got ++ rest = q.message → codec.size ≤ rest.length)
    (herror : ∀ e : Errno, ∃ err, f (.error e.code) = .ret (some err))
    (hshort : ∀ k buf, k < .ofNat codec.sizeof → ∃ err, f (.ok (k, buf)) = .ret (some err))
    (hwhole : ∀ buf, buf.length = codec.size →
      Listens (f (.ok (.ofNat codec.sizeof, buf))) (got ++ buf)) :
    Listens ((streamsockRead (.ofNat codec.sizeof) (.ofNat codec.sizeof)).bind f) got := by
  have hlen : (UInt64.ofNat codec.sizeof).toNat = codec.size := by
    rw [UInt64.toNat_ofNat', hpack]
    omega
  have hloop := readLoop_listens (by omega) (by rw [hlen]; exact hmessage) herror hshort
    (by rw [hlen]; exact hwhole) (UInt64.ofNat codec.sizeof).toNat 0 (.ofNat codec.sizeof) []
    (by simp) (Nat.le_refl _) rfl
  rw [List.append_nil] at hloop
  unfold streamsockRead
  rw [if_neg (UInt64.lt_irrefl _)]
  exact hloop

theorem Handler.listens {t : UInt32} {handle : Frame → Session Int32} (h : Handler t handle)
    (frame : Frame) : Listens ((handle frame).bind (fun err => .ret (goesOn err)))
      (PARequest.codec.encode ⟨t⟩) := by
  cases h with
  | exchange codec query type encode pack size =>
    unfold Session.exchange
    rw [Talk.bind_eq, Talk.bind_assoc]
    apply readStruct_listens codec pack size
    · intro q rest hq
      obtain ⟨ht, rfl⟩ := PARequest.codec.encode_append_inj hq
      have hsame : (query (codec.decode [])).requestType = q.requestType :=
        (type _).trans (congrArg PARequest.requestType ht)
      have hlen := (sameType_of_eq hsame).length_encode
      rw [encode, codec.length_encode] at hlen
      exact Nat.le_of_eq hlen
    · intro e
      exact ⟨e.code, congrArg Talk.ret (if_pos e.nonzero)⟩
    · intro k buf hk
      refine ⟨-EPROTO, ?_⟩
      simp only [hk, ↓reduceIte]
      rfl
    · intro buf hbuf
      simp only [UInt64.lt_irrefl, ↓reduceIte]
      refine ⟨?_, fun r => reply_sends _⟩
      unfold Query.message
      rw [type, encode, codec.encode_fields hbuf]

/-- Every iteration starts by reading a message. -/
theorem turn_listens (frame : Frame) : Listens (Session.turn frame) [] := by
  unfold Session.turn Session.readPaRequest
  rw [Talk.bind_eq, Talk.bind_eq, Talk.bind_assoc]
  apply readStruct_listens PARequest.codec rfl (by decide)
  · intro q rest hq
    rw [List.nil_append] at hq
    rw [hq, Query.message, List.length_append, PARequest.codec.length_encode]
    exact Nat.le_add_right _ _
  · intro e
    exact ⟨e.code, rfl⟩
  · intro k buf hk
    refine ⟨-EPROTO, ?_⟩
    simp only [hk, ↓reduceIte]
    rfl
  · intro buf hbuf
    have hfields := PARequest.codec.encode_fields hbuf
    simp only [UInt64.lt_irrefl, ↓reduceIte, List.nil_append, Talk.pure_eq, Talk.ret_bind]
    generalize PARequest.codec.fields buf = request at hfields
    subst hfields
    by_cases hbye : request.requestType = PA_GOODBYE
    · simp only [hbye, ↓reduceIte]
      exact ⟨0, rfl⟩
    rcases handler_cases request.requestType with ⟨hnone, _⟩ | ⟨handle, hsome, hhandler⟩
    · simp only [hbye, ↓reduceIte, hnone]
      exact ⟨-EINVAL, rfl⟩
    · simp only [hbye, ↓reduceIte, hsome]
      exact hhandler.listens frame

/-- Where a session stands that has received `got` of the request it is waiting for. -/
inductive Mannered : List Byte → Stage → Prop where
  | accepted : Mannered [] .accepted
  | refused (got : List Byte) (ret : Int32) : Mannered got (.refused ret)
  | listens {got : List Byte} {t : Session (Option Int32)} (ctx : ClientData)
    (listens : Listens t got) : Mannered got (.talking ctx t)
  | sends {t : Session (Option Int32)} (ctx : ClientData) (sends : Sends t) :
    Mannered [] (.talking ctx t)
  | operating {k : Response → Session (Option Int32)} (ctx : ClientData) (p : Program Response)
    (sends : ∀ r, Sends (k r)) : Mannered [] (.operating ctx p k)
  | ended (got : List Byte) (err : Int32) : Mannered got (.ended err)

namespace Mannered

variable {got : List Byte} {ctx : ClientData}

theorem recv {len : Nat} {k : Except Errno (List Byte) → Session (Option Int32)}
    (h : Mannered got (.talking ctx (.recv len k))) : Listens (.recv len k) got := by
  cases h with
  | listens _ h => exact h
  | sends _ h => exact absurd h not_false

theorem send {bytes : List Byte} {k : Except Errno Nat → Session (Option Int32)}
    (h : Mannered got (.talking ctx (.send bytes k))) : got = [] ∧ ∀ x, Sends (k x) := by
  cases h with
  | listens _ h => exact absurd h not_false
  | sends _ h => exact ⟨rfl, h⟩

theorem ask {x : Locals × Query} {k : Response → Session (Option Int32)}
    (h : Mannered got (.talking ctx (.ask x k))) : got = x.2.message ∧ ∀ r, Sends (k r) := by
  cases h with
  | listens _ h => exact h
  | sends _ h => exact absurd h not_false

theorem turn (h : Mannered got (.talking ctx (.ret none))) : got = [] := by
  cases h with
  | listens _ h =>
    obtain ⟨err, he⟩ := h
    cases he
  | sends => rfl

theorem leaving (got : List Byte) (ctx : ClientData) (err : Int32) :
    Mannered got (.talking ctx (.ret (some err))) := .listens ctx ⟨err, rfl⟩

end Mannered

/-- What has been received of the request that is waited for, after an act. -/
def Act.received : Act → List Byte → List Byte
  | .recv bytes, got => got ++ bytes
  | .ask, _ => []
  | _, got => got

theorem Connection.Step.mannered {i : Nat} {w w' : Shared} {c c' : Connection} {a : Act}
    {got : List Byte} (h : c.Step i w a w' c') (hc : Mannered got c.stage) :
    Mannered (a.received got) c'.stage := by
  cases h with
  | say | hangUp | sigpipe => exact hc
  | @handle getPeerId memory thread ctx frame stage =>
    rw [stage] at hc
    cases hc
    by_cases hret : (handleRemoteClient getPeerId memory thread).1 = 0
    · simp only [hret, ↓reduceIte]
      exact .listens ctx (turn_listens frame)
    · simp only [hret, ↓reduceIte]
      exact .refused _ _
  | recv bytes stage inbox pos bound =>
    rw [stage] at hc
    obtain ⟨_, _, _, _, hnext⟩ := hc.recv
    exact .listens _ (hnext bytes pos bound)
  | shutdown stage =>
    rw [stage] at hc
    obtain ⟨_, _, ⟨err, hend⟩, _⟩ := hc.recv
    simp only [hend]
    exact .leaving _ _ err
  | recvFails e stage =>
    rw [stage] at hc
    obtain ⟨_, _, _, herror, _⟩ := hc.recv
    obtain ⟨err, hend⟩ := herror e
    simp only [hend]
    exact .leaving _ _ err
  | send n stage | sendFails e stage =>
    rw [stage] at hc
    obtain ⟨rfl, hk⟩ := hc.send
    exact .sends _ (hk _)
  | ask stage =>
    rw [stage] at hc
    exact .operating _ _ hc.ask.2
  | operate stage =>
    rw [stage] at hc
    cases hc with
    | operating _ _ hk => exact .operating _ _ hk
  | answer stage =>
    rw [stage] at hc
    cases hc with
    | operating _ _ hk => exact .sends _ (hk _)
  | turn frame stage =>
    rw [stage] at hc
    obtain rfl := hc.turn
    exact .listens _ (turn_listens frame)
  | out => exact .ended _ _

end PowerArbiter
