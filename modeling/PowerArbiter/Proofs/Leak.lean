import PowerArbiter.Proofs.Framing
import PowerArbiter.Proofs.Grants

namespace PowerArbiter
open Monitor Wire

variable {db d d' : ReserveDataDatabase} {es : List (Event sig)}

/-- What adding an entry returns, read off the table and the answers. -/
def addResult (found : Option RecordPtr) : List (Event sig) → Int32
  | [.lock (some e)] => e.code
  | [.lock none, .unlock] => if found.isSome then -EEXIST else 0
  | [.lock none, .call .malloc _, .unlock] => -ENOMEM
  | [.lock none, .call .malloc _, .call .mutexInit b, .unlock] => b.ret
  | _ => 0

/-- The data of a new entry has no influence on the result. -/
theorem Added.result {uid : Uid} {data : UIDReserveData} {ret : Int32}
    (h : Added uid data db es ret d) : ret = addResult (db.find uid) es := by
  cases h with
  | busy e => rfl
  | present h => simp [addResult, h]
  | failed h hr =>
    cases hr with
    | noMemory ha => rfl
    | noMutex ha hb => rfl
  | done h hr =>
    cases hr with
    | done ha hb => exact hb.symm

theorem ParamsAdded.result {tmp tmp' : UIDReserveData} {uid : Uid} {tapType : UInt64}
    {tapValue : Int64} {r r' : Int32 × UInt32}
    (h : ParamsAdded tmp db uid tapType tapValue es r d)
    (h' : ParamsAdded tmp' db uid tapType tapValue es r' d') : r = r' := by
  cases h with
  | invalid hv =>
    cases h' with
    | invalid _ => rfl
    | valid hv' _ => rw [hv] at hv'; cases hv'
  | valid hv ha =>
    cases h' with
    | invalid hv' => rw [hv] at hv'; cases hv'
    | valid _ ha' => rw [ha.result, ha'.result]

/-- What the stack holds has no influence on the response of a request. -/
theorem handleClient_unaffected {ctx : ClientData} {stack stack' : Locals} {q : Query}
    {r r' : Response} (h : (handleClient ctx stack q).Runs effect db es r d)
    (h' : (handleClient ctx stack' q).Runs effect db es r' d') : r = r' := by
  cases q with
  | stat q =>
    obtain ⟨r, hr, rfl⟩ := (Prog.runs_map (S := sig)).mp h
    obtain ⟨r', hr', rfl⟩ := (Prog.runs_map (S := sig)).mp h'
    obtain ⟨x, hx, rfl⟩ := (Prog.runs_map (S := sig)).mp hr
    obtain ⟨y, hy, rfl⟩ := (Prog.runs_map (S := sig)).mp hr'
    obtain ⟨rfl, _⟩ := hx.unique hy
    by_cases hret : x.ret = 0
    · rcases (statReserve_runs hx).success hret with ⟨_, root, hout⟩ | ⟨_, rid, _, hout, _⟩
      · simp only [hout, Option.getD_some]
      · simp only [hout, Option.getD_some]
    · simp only [hret, ne_eq, not_false_eq_true, ↓reduceIte]
  | get q =>
    obtain ⟨r, hr, rfl⟩ := (Prog.runs_map (S := sig)).mp h
    obtain ⟨r', hr', rfl⟩ := (Prog.runs_map (S := sig)).mp h'
    obtain ⟨x, hx, rfl⟩ := (Prog.runs_map (S := sig)).mp hr
    obtain ⟨y, hy, rfl⟩ := (Prog.runs_map (S := sig)).mp hr'
    obtain ⟨rfl, _⟩ := hx.unique hy
    obtain ⟨hgot, _⟩ := getTapParams_runs hx
    cases hgot with
    | busy e => simp only [e.nonzero, ne_eq, not_false_eq_true, ↓reduceIte]
    | absent hf => rfl
    | recordBusy hf e => simp only [e.nonzero, ne_eq, not_false_eq_true, ↓reduceIte]
    | done hf => rfl
  | set q => rw [(Prog.Runs.unique h h').1]
  | add q =>
    obtain ⟨r, hr, rfl⟩ := (Prog.runs_map (S := sig)).mp h
    obtain ⟨r', hr', rfl⟩ := (Prog.runs_map (S := sig)).mp h'
    obtain ⟨x, hx, rfl⟩ := (Prog.runs_map (S := sig)).mp hr
    obtain ⟨y, hy, rfl⟩ := (Prog.runs_map (S := sig)).mp hr'
    rw [(addReserveParamsForUID_runs hx).result (addReserveParamsForUID_runs hy)]
  | remove q => rw [(Prog.Runs.unique h h').1]

/-- Only the response to GET is larger than its fields. -/
theorem Replies.image_eq {q : Query} {r : Response} (h : Replies q r) (hget : ∀ u, q ≠ .get u)
    (prior prior' : Nat → Byte) : r.image prior = r.image prior' := by
  cases h with
  | get q r => exact absurd rfl (hget q)
  | stat q r => rfl
  | set q r => rfl
  | add q r => rfl
  | remove q r => rfl

theorem Replies.image_get {u : PAGetTapParamsQuery} {r : Response} (h : Replies (.get u) r) :
    r.image (fun _ => 0) ≠ r.image (fun _ => 1) := by
  cases h with
  | get q r =>
    intro he
    have htail := List.append_cancel_left he
    exact absurd htail (by decide)

/-- A session that has nothing more to read ends, and sends nothing more. -/
theorem closing_ends {tail : List Byte} {code : Int32} (h : Closing tail code) {c : Conn Errno}
    (hs : stream c.incoming = tail) :
    ∃ y : Int32 × Conn Errno, y.2.sent = c.sent ∧ ∀ ctx frames turns i,
      Session.loop ctx frames (turns + 1) i c = .ret (some y) := by
  obtain ⟨p, hplan, hp⟩ := turn_planned c
  cases hp with
  | left err c' cause sent => exact ⟨(err, c'), sent, fun ctx frames turns i => loop_planned hplan⟩
  | served q rest next part replied =>
    rw [← hs, part] at h
    exact absurd h Closing.not_message

/-- A session in which one request is made: it ends before the request is carried out,
or as the bytes that are sent decide. -/
theorem request_session {q : Query} {tail : List Byte} {code : Int32} (h : Closing tail code)
    {c : Conn Errno} (hs : stream c.incoming = q.message ++ tail) :
    (¬ c.Smooth ∧ ∃ x, ∀ ctx frames, doHandleClient ctx frames c = .ret x) ∨
      ∃ fin : List Byte → Int32 × Conn Errno,
        (∀ ctx frames, doHandleClient ctx frames c =
          (handleClient ctx (frames 0).locals q).bind
            (fun r => .ret (some (fin (r.image (frames 0).response))))) ∧
        (c.Smooth → ∀ image, image.length < 4294967296 → (fin image).2.sent = c.sent ++ image) := by
  obtain ⟨p, hplan, hp⟩ := turn_planned c
  obtain ⟨turns, hturns⟩ : ∃ n, (stream c.incoming).length = n + 1 := by
    have hpos := message_length q
    exact ⟨(stream c.incoming).length - 1, by rw [hs, List.length_append]; omega⟩
  unfold doHandleClient
  rw [hturns]
  cases hp with
  | left err c' cause sent =>
    refine .inl ⟨?_, some (err, c'), fun ctx frames => loop_planned hplan⟩
    intro hsmooth
    cases cause with
    | closing h => exact absurd (hs ▸ h) Closing.not_message
    | failed e error => exact absurd error (hsmooth.incoming e)
  | served q' rest next part replied =>
    obtain ⟨rfl, rfl⟩ := message_append_inj (part.symm.trans hs)
    have hend : ∀ image, image.length < 4294967296 → ∃ y : Int32 × Conn Errno,
        (c.Smooth → y.2.sent = c.sent ++ image) ∧ ∀ ctx frames,
          Session.carryOn ctx frames (turns + 1) 1 (goesOn (next image).1, (next image).2) =
            .ret (some y) := by
      intro image himage
      have hr := replied image himage
      generalize next image = y at hr
      cases hr with
      | sent c' sent incoming smooth =>
        obtain ⟨y, hy, hloop⟩ := closing_ends h incoming
        exact ⟨y, fun _ => hy.trans sent, fun ctx frames => hloop ctx frames turns 1⟩
      | failed e c' error =>
        have hgoes : goesOn e.code = some e.code := if_pos e.nonzero
        refine ⟨(e.code, c'), fun hsmooth => absurd error (hsmooth.outgoing e), ?_⟩
        intro ctx frames
        simp only [hgoes, Session.carryOn]
    have hne : Nonempty (Int32 × Conn Errno) := ⟨(0, c)⟩
    choose! fin hfin using hend
    refine .inr ⟨fin, ?_, fun hsmooth image himage => (hfin image himage).1 hsmooth⟩
    intro ctx frames
    rw [loop_planned hplan]
    simp only [Plan.run, Prog.bind_eq, Prog.pure_eq, Prog.bind_assoc, Prog.ret_bind]
    congr 1
    funext r
    exact (hfin _ (r.length_image_lt _)).2 ctx frames

/-- The bytes that a session has sent. -/
def Session.output (result : Option (Int32 × Conn Errno)) : Option (List Byte) :=
  result.map (fun x => x.2.sent)

/-- The bytes sent for a request are the same whatever the stack holds. -/
def Conceals (ctx : ClientData) (q : Query) (db : ReserveDataDatabase) (es : List (Event sig)) :
    Prop :=
  ∀ (frames frames' : Nat → Frame) (c : Conn Errno) (tail : List Byte) (code : Int32),
    Closing tail code → stream c.incoming = q.message ++ tail → ∀ x x' d d',
      (doHandleClient ctx frames c).Runs effect db es x d →
      (doHandleClient ctx frames' c).Runs effect db es x' d' →
      Session.output x = Session.output x'

/-- The same run with two other stacks tells them apart. -/
theorem get_leaks {ctx : ClientData} {u : PAGetTapParamsQuery} {stack : Locals} {r : Response}
    (hr : (handleClient ctx stack (.get u)).Runs effect db es r d) :
    ¬ Conceals ctx (.get u) db es := by
  intro hall
  obtain ⟨c, hsmooth, hs, hnil⟩ :=
    exists_smooth ((Query.get u).message ++ (PARequest.codec.encode ⟨PA_GOODBYE⟩ ++ []))
  rcases request_session (.goodbye []) hs with ⟨hn, _⟩ | ⟨fin, hfin, hsent⟩
  · exact hn hsmooth
  have hrun : ∀ prior : Nat → Byte,
      (doHandleClient ctx (fun _ => ⟨stack, prior⟩) c).Runs effect db es
        (some (fin (r.image prior))) d := by
    intro prior
    rw [hfin]
    exact (Prog.runs_map (S := sig)).mpr ⟨r, hr, rfl⟩
  have hbytes : ∀ prior, Session.output (some (fin (r.image prior))) = some (r.image prior) := by
    intro prior
    have hall := hsent hsmooth _ (r.length_image_lt prior)
    rw [hnil] at hall
    exact congrArg some hall
  have hsame := hall (fun _ => ⟨stack, fun _ => 0⟩) (fun _ => ⟨stack, fun _ => 1⟩) c _ _
    (.goodbye []) hs _ _ d d (hrun _) (hrun _)
  rw [hbytes, hbytes] at hsame
  exact (handleClient_replies hr).image_get (Option.some.inj hsame)

/-- The response to GET ends with four bytes of the handler's stack. The other
responses, of failed requests too, hold nothing but what the handlers assign. -/
theorem response_conceals_iff (ctx : ClientData) (q : Query) (db : ReserveDataDatabase)
    (es : List (Event sig))
    (h : ∃ stack r d, (handleClient ctx stack q).Runs effect db es r d) :
    Conceals ctx q db es ↔ ∀ u, q ≠ .get u := by
  constructor
  · intro hall u hu
    subst hu
    obtain ⟨stack, r, d, hr⟩ := h
    exact get_leaks hr hall
  · intro hget frames frames' c tail code hclose hs x x' d d' hx hx'
    rcases request_session hclose hs with ⟨_, y, hy⟩ | ⟨fin, hfin, _⟩
    · rw [hy] at hx hx'
      rw [((Prog.runs_ret (S := sig)).mp hx).2.1, ((Prog.runs_ret (S := sig)).mp hx').2.1]
    · rw [hfin] at hx hx'
      obtain ⟨r, hr, rfl⟩ := (Prog.runs_map (S := sig)).mp hx
      obtain ⟨r', hr', rfl⟩ := (Prog.runs_map (S := sig)).mp hx'
      obtain rfl := handleClient_unaffected hr hr'
      rw [(handleClient_replies hr).image_eq hget (frames 0).response (frames' 0).response]

/-- The first STAT of user 7. The handler leaves `rid` and `flags` to be written by the call. -/
theorem response_conceals_granted :
    let db : ReserveDataDatabase := ⟨[0], [], fun _ => ⟨⟨false, 0, 0, 1, 5⟩, 7⟩, 1, []⟩
    Conceals ⟨9, 0, 0⟩ (.stat ⟨7⟩) db (granted 7 9 0 1 5 5 3).trace := by
  intro db
  have hrun : ∃ stack r d, (handleClient ⟨9, 0, 0⟩ stack (.stat ⟨7⟩)).Runs effect db
      (granted 7 9 0 1 5 5 3).trace r d := ⟨noLocals, _, _, rfl⟩
  refine (response_conceals_iff ⟨9, 0, 0⟩ (.stat ⟨7⟩) db _ hrun).mpr ?_
  intro u hu
  cases hu

/-- GET of a user that nobody has added. -/
theorem padding_leaks :
    ¬ Conceals ⟨1, 1000, 1000⟩ (.get ⟨5⟩) .empty [.lock none, .unlock] := by
  have hrun : (handleClient ⟨1, 1000, 1000⟩ noLocals (.get ⟨5⟩)).Runs effect .empty
      [.lock none, .unlock] (.get ⟨0, 0, PA_UID_NOT_FOUND⟩) .empty := rfl
  exact get_leaks hrun

end PowerArbiter
