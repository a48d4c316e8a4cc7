import PowerArbiter.Proofs.Addressing
import PowerArbiter.Proofs.Rollback

namespace PowerArbiter
open Monitor

/-- What came of a rate change in the kernel. -/
abbrev RateChange := Except Errno Unit

/-- What `syscall` returns for it: the reason of a failure is only in `errno`. -/
def syscallReturn : RateChange → Long
  | .ok () => 0
  | .error _ => -1

def Response.error : Response → UInt32
  | .stat r => r.error
  | .get r => r.error
  | .set r => r.error
  | .add r => r.error
  | .remove r => r.error

/-- There is an active record of the user. -/
def ReserveDataDatabase.active (db : ReserveDataDatabase) (uid : UInt64) : Bool :=
  db.data.any fun p => (db.heap p).uid.toUInt64 == uid

def Query.invalid : Query → Bool
  | .set q => !validParams q.tapType q.tapValue
  | .add q => !validParams q.tapType q.tapValue
  | _ => false

def Query.needsRecord : Query → Bool
  | .add _ => false
  | _ => true

/-- The error that tells the cause. `failed` is why the kernel did not change a rate. -/
def Query.cause (db : ReserveDataDatabase) (failed : Option Errno) (q : Query) : UInt32 :=
  if q.invalid then PA_INVALID_INPUT
  else if q.needsRecord && !db.active q.uid then PA_UID_NOT_FOUND
  else if !q.needsRecord && db.active q.uid then PA_UID_EXISTS
  else match failed with
    | some errno => if errno.code = EPERM then PA_BAD_PERMISSIONS else PA_FAILURE
    | none => PA_NO_ERROR

def isRateChange : Event sig → Bool
  | .call (.setTapRate ..) _ => true
  | _ => false

/-- The errno of the rate change in a trace, if there was one and it failed. -/
def rateFailure (rate : RateChange) (es : List (Event sig)) : Option Errno :=
  match rate with
  | .ok () => none
  | .error errno => if es.any isRateChange then some errno else none

/-- The response tells the cause, and an error has changed nothing. -/
def Tells (db : ReserveDataDatabase) (q : Query) (rate : RateChange) (es : List (Event sig))
    (error : UInt32) (db' : ReserveDataDatabase) : Prop :=
  error = q.cause db (rateFailure rate es) ∧ (error ≠ PA_NO_ERROR → db' = db)

/-- A SET whose rate change fails for another reason than permissions. -/
def Query.disguised (db : ReserveDataDatabase) (rate : RateChange) : Query → Bool
  | .set q => validParams q.tapType q.tapValue &&
    (match db.find q.uid.toUInt32 with
    | some p => (db.heap p).data.reserveCreated
    | none => false) &&
    (match rate with
    | .ok () => false
    | .error errno => errno.code ≠ EPERM)
  | _ => false

def AllocationSucceeds (es : List (Event sig)) : Prop :=
  ∀ a, (.call .malloc a ∈ es → a.ret ≠ 0) ∧ (.call .mutexInit a ∈ es → a.ret = 0)

/-- The rate changes in the trace return what `syscall` returns. -/
def FollowsErrno (rate : RateChange) (es : List (Event sig)) : Prop :=
  ∀ tap rateType value a, .call (.setTapRate tap rateType value) a ∈ es →
    a.ret = syscallReturn rate

variable {db db' : ReserveDataDatabase} {es : List (Event sig)} {rate : RateChange}

theorem toUInt64_beq {a : Uid} {uid : UInt64} (h : uid.toNat < 4294967296) :
    (a.toUInt64 == uid) = (a == uid.toUInt32) := by
  rw [Bool.eq_iff_iff, beq_iff_eq, beq_iff_eq]
  constructor
  · intro he
    rw [← he, UInt32.toUInt32_toUInt64]
  · intro he
    apply UInt64.toNat_inj.mp
    rw [he, UInt32.toNat_toUInt64, UInt64.toNat_toUInt32]
    exact Nat.mod_eq_of_lt h

theorem active_eq (db : ReserveDataDatabase) {uid : UInt64} (h : uid.toNat < 4294967296) :
    db.active uid = (db.find uid.toUInt32).isSome := by
  unfold ReserveDataDatabase.active ReserveDataDatabase.find
  rw [List.isSome_find?]
  simp only [toUInt64_beq h]

theorem rateFailure_none (h : es.any isRateChange = false) : rateFailure rate es = none := by
  cases rate with
  | ok u => rfl
  | error e => simp [rateFailure, h]

section Cause

variable {q : Query} {failed : Option Errno}

theorem tells_invalid (hv : q.invalid = true) : Tells db q rate es PA_INVALID_INPUT db :=
  ⟨by simp [Query.cause, hv], fun _ => rfl⟩

theorem tells_missing (hv : q.invalid = false) (hn : q.needsRecord = true)
    (ha : db.active q.uid = false) : Tells db q rate es PA_UID_NOT_FOUND db :=
  ⟨by simp [Query.cause, hv, hn, ha], fun _ => rfl⟩

theorem tells_present (hv : q.invalid = false) (hn : q.needsRecord = false)
    (ha : db.active q.uid = true) : Tells db q rate es PA_UID_EXISTS db :=
  ⟨by simp [Query.cause, hv, hn, ha], fun _ => rfl⟩

theorem cause_rate (hv : q.invalid = false) (ha : db.active q.uid = q.needsRecord) :
    q.cause db failed = match failed with
      | some errno => if errno.code = EPERM then PA_BAD_PERMISSIONS else PA_FAILURE
      | none => PA_NO_ERROR := by
  cases hn : q.needsRecord <;> simp [Query.cause, hv, hn, ha]

theorem tells_done (hv : q.invalid = false) (ha : db.active q.uid = q.needsRecord)
    (hr : rateFailure rate es = none) : Tells db q rate es PA_NO_ERROR db' := by
  refine ⟨?_, fun hx => absurd rfl hx⟩
  rw [cause_rate hv ha, hr]

end Cause

theorem get_tells {stack : Locals} {q : PAGetTapParamsQuery} {x : PAGetTapParamsResponse}
    (hq : q.uid.toNat < 4294967296) (hl : LocksSucceed es)
    (h : (handleGetTapParams stack q).Runs effect db es x db') :
    Tells db (.get q) rate es x.error db' := by
  obtain ⟨r, hr, rfl⟩ := (Prog.runs_map (S := sig)).mp h
  obtain ⟨hg, rfl⟩ := getTapParams_runs hr
  have hact := active_eq db' hq
  cases hg with
  | busy e => exact (hl.lock List.mem_cons_self).elim
  | recordBusy hf e => exact (hl.lockInner (.tail _ List.mem_cons_self)).elim
  | absent hf =>
    rw [hf] at hact
    exact tells_missing rfl rfl hact
  | done hf =>
    rw [hf] at hact
    exact tells_done rfl hact (rateFailure_none rfl)

theorem remove_tells {q : PARemoveUIDParamsQuery} {x : PARemoveUIDParamsResponse}
    (hq : q.uid.toNat < 4294967296) (hl : LocksSucceed es)
    (h : (handleRemoveParamsForUid q).Runs effect db es x db') :
    Tells db (.remove q) rate es x.error db' := by
  obtain ⟨r, hr, rfl⟩ := (Prog.runs_map (S := sig)).mp h
  have hact := active_eq db hq
  have hrun := removeEntry_runs hr
  cases hrun with
  | busy e => exact (hl.lock List.mem_cons_self).elim
  | absent hf =>
    rw [hf] at hact
    exact tells_missing rfl rfl hact
  | done hf =>
    rw [hf] at hact
    exact tells_done rfl hact (rateFailure_none rfl)

theorem add_tells {stack : Locals} {q : PAAddUIDParamsQuery} {x : PAAddUIDParamsResponse}
    (hq : q.uid.toNat < 4294967296) (hl : LocksSucceed es) (hm : AllocationSucceeds es)
    (h : (handleAddParamsForUid stack q).Runs effect db es x db') :
    Tells db (.add q) rate es x.error db' := by
  obtain ⟨r, hr, rfl⟩ := (Prog.runs_map (S := sig)).mp h
  have hact := active_eq db hq
  have hrun := addReserveParamsForUID_runs hr
  cases hrun with
  | invalid hv =>
    exact tells_invalid (by simp [Query.invalid, hv])
  | valid hv ha =>
    have hvalid : (Query.add q).invalid = false := by simp [Query.invalid, hv]
    cases ha with
    | busy e => exact (hl.lock List.mem_cons_self).elim
    | present hf =>
      rw [hf] at hact
      exact tells_present hvalid rfl hact
    | failed hf hcreate =>
      cases hcreate with
      | noMemory ha => exact absurd ha ((hm _).1 (.tail _ List.mem_cons_self))
      | noMutex ha hb => exact absurd ((hm _).2 (.tail _ (.tail _ List.mem_cons_self))) hb
    | done hf hcreate =>
      rw [hf] at hact
      cases hcreate with
      | done ha hb =>
        exact tells_done hvalid hact (rateFailure_none rfl)

theorem set_tells_iff {q : PASetTapParamsQuery} {x : PASetTapParamsResponse}
    (hq : q.uid.toNat < 4294967296) (hl : LocksSucceed es) (hrate : FollowsErrno rate es)
    (h : (handleSetTapParams q).Runs effect db es x db') :
    Tells db (.set q) rate es x.error db' ↔ (Query.set q).disguised db rate = false := by
  obtain ⟨r, hr, rfl⟩ := (Prog.runs_map (S := sig)).mp h
  have hact := active_eq db hq
  have hvalid : (Query.set q).invalid = !validParams q.tapType q.tapValue := rfl
  have hrun := setTapParams_runs hr
  cases hrun with
  | busy hv e => exact (hl.lock List.mem_cons_self).elim
  | recordBusy hv hf e => exact (hl.lockInner (.tail _ List.mem_cons_self)).elim
  | invalid hv =>
    rw [hv] at hvalid
    exact iff_of_true (tells_invalid hvalid) (by simp [Query.disguised, hv])
  | absent hv hf =>
    rw [hv] at hvalid
    rw [hf] at hact
    exact iff_of_true (tells_missing hvalid rfl hact) (by simp [Query.disguised, hf])
  | stored hv hf hc =>
    rw [hv] at hvalid
    rw [hf] at hact
    exact iff_of_true (tells_done hvalid hact (rateFailure_none rfl))
      (by simp [Query.disguised, hf, hc])
  | @accepted p a hv hf hc ha =>
    rw [hv] at hvalid
    rw [hf] at hact
    have hret := hrate _ _ _ a (.tail _ (.tail _ List.mem_cons_self))
    cases rate with
    | ok u =>
      exact iff_of_true (tells_done hvalid hact rfl) (by simp [Query.disguised])
    | error errno =>
      rw [ha] at hret
      cases hret
  | @refused p a hv hf hc ha =>
    rw [hv] at hvalid
    rw [hf] at hact
    have hret := hrate _ _ _ a (.tail _ (.tail _ List.mem_cons_self))
    cases rate with
    | ok u => exact absurd hret ha
    | error errno =>
      -- the one code -1 of all failures is that of EPERM
      have herror : PA_BAD_PERMISSIONS = (Query.set q).cause db (some errno) ↔
          errno.code = EPERM := by
        rw [cause_rate hvalid hact]
        by_cases he : errno.code = EPERM <;> simp [he, PA_BAD_PERMISSIONS, PA_FAILURE]
      have hd : (Query.set q).disguised db (.error errno) = false ↔ errno.code = EPERM := by
        simp [Query.disguised, hv, hf, hc]
      rw [hd, ← herror]
      simp only [Tells, hret]
      exact ⟨fun ht => ht.1, fun he => ⟨he, fun _ => trivial⟩⟩

/-- A request or pass, and what came of a rate change in it. -/
abbrev Attempt := Request × RateChange

def Attempted (db : ReserveDataDatabase) (l : Attempt) (db' : ReserveDataDatabase) : Prop :=
  Alone task effect db l.1 db' ∧ FollowsErrno l.2 l.1.trace

/-- A GET, SET, ADD or REMOVE, for a user whose id fits, in which nothing else fails. -/
structure Considered (l : Attempt) (q : Query) : Prop where
  asked : ∃ ctx stack, l.1.op = .request ctx stack q
  notStat : ∀ s, q ≠ .stat s
  fits : q.uid.toNat < 4294967296
  locks : LocksSucceed l.1.trace
  memory : AllocationSucceeds l.1.trace

def TellsCause (db : ReserveDataDatabase) (l : Attempt) (db' : ReserveDataDatabase) : Prop :=
  ∀ q r, Considered l q → l.1.result = some r → Tells db q l.2 l.1.trace r.error db'

def Undisguised (db : ReserveDataDatabase) (l : Attempt) : Prop :=
  ∀ q, Considered l q → q.disguised db l.2 = false

theorem handleClient_tells_iff {ctx : ClientData} {stack : Locals} {q : Query} {r : Response}
    (notStat : ∀ s, q ≠ .stat s) (fits : q.uid.toNat < 4294967296) (hl : LocksSucceed es)
    (hm : AllocationSucceeds es) (hrate : FollowsErrno rate es)
    (h : (handleClient ctx stack q).Runs effect db es r db') :
    Tells db q rate es r.error db' ↔ q.disguised db rate = false := by
  cases q with
  | stat q => exact absurd rfl (notStat q)
  | get q =>
    obtain ⟨x, hx, rfl⟩ := (Prog.runs_map (S := sig)).mp h
    exact iff_of_true (get_tells fits hl hx) rfl
  | set q =>
    obtain ⟨x, hx, rfl⟩ := (Prog.runs_map (S := sig)).mp h
    exact set_tells_iff fits hl hrate hx
  | add q =>
    obtain ⟨x, hx, rfl⟩ := (Prog.runs_map (S := sig)).mp h
    exact iff_of_true (add_tells fits hl hm hx) rfl
  | remove q =>
    obtain ⟨x, hx, rfl⟩ := (Prog.runs_map (S := sig)).mp h
    exact iff_of_true (remove_tells fits hl hx) rfl

theorem Attempted.tells_iff {l : Attempt} (h : Attempted db l db') :
    TellsCause db l db' ↔ Undisguised db l := by
  obtain ⟨⟨op, trace, result⟩, rate⟩ := l
  obtain ⟨halone, hrate⟩ := h
  -- what a request comes to, whatever it asks for
  have hiff : ∀ q, Considered (⟨op, trace, result⟩, rate) q → ∃ r, result = some r ∧
      (Tells db q rate trace r.error db' ↔ q.disguised db rate = false) := by
    intro q hq
    obtain ⟨ctx, stack, hop⟩ := hq.asked
    obtain rfl : op = .request ctx stack q := hop
    obtain ⟨r, hr, hresult⟩ := (Prog.runs_map (S := sig)).mp halone
    exact ⟨r, hresult, handleClient_tells_iff hq.notStat hq.fits hq.locks hq.memory hrate hr⟩
  constructor
  · intro ht q hq
    obtain ⟨r, hresult, h⟩ := hiff q hq
    exact h.mp (ht q r hq hresult)
  · intro hu q r hq hresult
    obtain ⟨r', hresult', h⟩ := hiff q hq
    obtain rfl : r = r' := Option.some.inj (hresult.symm.trans hresult')
    exact h.mpr (hu q hq)

/-- In a run of requests and passes, all responses tell the cause if and only if no rate
change of a SET fails for another reason than permissions. -/
theorem responses_tell_cause_iff (ls : List Attempt) (db : ReserveDataDatabase) :
    Run (Observed Attempted TellsCause) .empty ls db ↔
      Run (Guarded Attempted Undisguised) .empty ls db := by
  constructor
  · intro h
    exact h.permitted (I := fun _ => True)
      (fun _ _ _ _ hs ht => ⟨trivial, hs.tells_iff.mp ht⟩) trivial
  · intro h
    exact (h.observed (I := fun _ => True)
      (fun _ _ _ _ hs hu => ⟨trivial, hs.tells_iff.mpr hu⟩) trivial).1

def invalidArgument : Errno := ⟨EINVAL, by decide⟩

/-- The kernel refuses a new rate for the tap of user 1 as invalid. -/
def refusedSet : Attempt where
  fst := ⟨.request ⟨9, 0, 0⟩ noLocals (.set ⟨1, 1, 6⟩), [.lock none, .lockInner 0 none,
    rateCall 3 1 6 ⟨-1, 0⟩, .unlockInner 0, .unlock], some (.set ⟨PA_BAD_PERMISSIONS⟩)⟩
  snd := .error invalidArgument

theorem rateCall_followed {tap t : Int32} {rateType value : Long} {tapType : UInt64}
    {tapValue : Int64} {a b : Answer} (hb : b.ret = syscallReturn rate)
    (h : (.call (.setTapRate tap rateType value) a : Event sig) = rateCall t tapType tapValue b) :
    a.ret = syscallReturn rate := by
  cases h
  exact hb

/-- The client learns of missing permissions. -/
theorem refused_rate_disguised : ∃ db db', Run Attempted .empty
    [(addRequest, .ok ()), (firstStat, .ok ())] db ∧ Attempted db refusedSet db' ∧
    ¬TellsCause db refusedSet db' := by
  have hadd : FollowsErrno (.ok ()) addRequest.trace := by
    intro tap rateType value a hm
    simp [addRequest, added] at hm
  have hstat : FollowsErrno (.ok ()) firstStat.trace := by
    intro tap rateType value a hm
    simp [firstStat, granted, createCall, tapCall] at hm
    exact rateCall_followed (b := ⟨0, 0⟩) rfl hm
  have hset : FollowsErrno refusedSet.2 refusedSet.1.trace := by
    intro tap rateType value a hm
    simp [refusedSet] at hm
    exact rateCall_followed (b := ⟨-1, 0⟩) rfl hm
  obtain ⟨db, db', hrun, hlast, hd⟩ : ∃ db db', Run Attempted .empty
      [(addRequest, .ok ()), (firstStat, .ok ())] db ∧ Attempted db refusedSet db' ∧
      (Query.set ⟨1, 1, 6⟩).disguised db refusedSet.2 = true :=
    ⟨_, _, ⟨_, ⟨rfl, hadd⟩, _, ⟨rfl, hstat⟩, rfl⟩, ⟨rfl, hset⟩, rfl⟩
  refine ⟨db, db', hrun, hlast, ?_⟩
  intro ht
  have hq : Considered refusedSet (.set ⟨1, 1, 6⟩) := by
    refine ⟨⟨_, _, rfl⟩, ?_, by decide, ?_, ?_⟩
    · intro s hs
      cases hs
    · intro e
      simp [refusedSet, rateCall]
    · intro a
      simp [refusedSet, rateCall]
  have hplain := hlast.tells_iff.mp ht _ hq
  rw [hd] at hplain
  cases hplain

end PowerArbiter
