import PowerArbiter.Monitor.Run
import PowerArbiter.Controller
import PowerArbiter.Proofs.Dbase

namespace PowerArbiter
open Monitor

section Steps

variable {α : Type}

@[simp] theorem cinderDeleteTap_bind (id : Int32) (f : Long → Program α) :
    (cinderDeleteTap id).bind f = .call (.deleteTap id) (fun a => f a.ret) := rfl

@[simp] theorem cinderCreateReserve_bind (name : List Char) (len : UInt32)
    (f : Int32 → Program α) : (cinderCreateReserve name len).bind f =
      .call (.createReserve name len) (fun a => f a.ret) := rfl

@[simp] theorem cinderCreateTap_bind (name : List Char) (len src dest : Int32)
    (f : Int32 → Program α) : (cinderCreateTap name len src dest).bind f =
      .call (.createTap name len src dest) (fun a => f a.ret) := rfl

@[simp] theorem cinderTapSetRate_bind (id : Int32) (rateType value : Long)
    (f : Long → Program α) : (cinderTapSetRate id rateType value).bind f =
      .call (.setTapRate id rateType value) (fun a => f a.ret) := rfl

@[simp] theorem cinderExposeReserve_bind (pid : Pid) (id : Int32) (caps : UInt32)
    (f : Long → Program α) : (cinderExposeReserve pid id caps).bind f =
      .call (.exposeReserve pid id caps) (fun a => f a.ret) := rfl

@[simp] theorem cinderGetRootReserveId_bind (f : Int32 × Int32 → Program α) :
    cinderGetRootReserveId.bind f = .call .rootReserveId (fun a => f (0, a.ret)) := rfl

@[simp] theorem lookupEntryLocked_bind (uid : Uid) (f : Except Int32 RecordPtr → Program α) :
    (reserveDataDBLookupEntryLocked uid).bind f =
      .access (.hashFind uid) (fun r => f (match r with
        | none => .error (-ENOENT)
        | some record => .ok record)) := by
  simp only [reserveDataDBLookupEntryLocked, Prog.bind_eq, hashFind_bind, Prog.bind]
  congr 1
  funext r
  cases r <;> rfl

@[simp] theorem recordUnlock_runs {db db' : ReserveDataDatabase} {es : List (Event sig)}
    {p : RecordPtr} {a r : α} : (recordUnlock p r).Runs effect db es a db' ↔
      es = [.unlockInner p, .unlock] ∧ a = r ∧ db' = db := by
  simp only [recordUnlock, Prog.bind_eq, recordUnlock_bind, Prog.runs_unlockInner,
    runs_outUnlock]
  constructor
  · intro hx
    obtain ⟨es, rfl, rfl, rfl, rfl⟩ := hx
    exact ⟨rfl, rfl, rfl⟩
  · intro hx
    obtain ⟨rfl, rfl, rfl⟩ := hx
    exact ⟨_, rfl, rfl, rfl, rfl⟩

end Steps

theorem ReserveDataDatabase.modify_modify (db : ReserveDataDatabase) (p : RecordPtr)
    (f g : UIDReserveData → UIDReserveData) :
    (db.modify p f).modify p g = db.modify p (fun d => g (f d)) := by
  simp [modify]

/-- The record keeps a reserve and a tap from now on. -/
def UIDReserveData.created (reserve tap : Int32) (d : UIDReserveData) : UIDReserveData :=
  { d with reserveCreated := true, reserveId := reserve, tapId := tap }

def UIDReserveData.rated (tapType : UInt64) (tapValue : Int64) (d : UIDReserveData) :
    UIDReserveData := { d with tapType := tapType, tapValue := tapValue }

/-- The calls that set up a reserve and its tap for the record `p`. -/
def createCall (uid : Uid) (a : Answer) : Event sig :=
  .call (.createReserve (reserveName uid) (.ofNat ((reserveName uid).length + 1))) a

def tapCall (uid : Uid) (root dest : Int32) (a : Answer) : Event sig :=
  .call (.createTap (tapName uid) (.ofNat ((tapName uid).length + 1)) root dest) a

def rateCall (tap : Int32) (tapType : UInt64) (tapValue : Int64) (a : Answer) : Event sig :=
  .call (.setTapRate tap (longOfType tapType) (longOfValue tapValue)) a

inductive Created (db : ReserveDataDatabase) (p : RecordPtr) (uid : Uid) (root : Int32) :
    List (Event sig) → Except Long Unit → ReserveDataDatabase → Prop
  | noReserve {a} (ha : a.ret < 0) : Created db p uid root [createCall uid a] (.error a.ret) db
  | noTap {a b c} (ha : ¬a.ret < 0) (hb : b.ret < 0) :
      Created db p uid root
        [createCall uid a, tapCall uid root a.ret b, .call (.putReserve a.ret) c]
        (.error b.ret) db
  | noRate {a b c d e} (ha : ¬a.ret < 0) (hb : ¬b.ret < 0) (hc : c.ret ≠ 0) :
      Created db p uid root
        [createCall uid a, tapCall uid root a.ret b,
          rateCall b.ret (db.heap p).data.tapType (db.heap p).data.tapValue c,
          .call (.deleteTap b.ret) d, .call (.putReserve a.ret) e]
        (.error c.ret) db
  | done {a b c} (ha : ¬a.ret < 0) (hb : ¬b.ret < 0) (hc : c.ret = 0) :
      Created db p uid root
        [createCall uid a, tapCall uid root a.ret b,
          rateCall b.ret (db.heap p).data.tapType (db.heap p).data.tapValue c]
        (.ok ()) (db.modify p (.created a.ret b.ret))

inductive Exposed (db : ReserveDataDatabase) (p : RecordPtr) (pid : Pid) :
    List (Event sig) → StatResult → Prop
  | refused {a} (ha : a.ret ≠ 0) :
      Exposed db p pid [.call (.exposeReserve pid (db.heap p).data.reserveId CINDER_CAP_ALL) a,
        .unlockInner p, .unlock] ⟨a.ret, none⟩
  | granted {a} (ha : a.ret = 0) :
      Exposed db p pid [.call (.exposeReserve pid (db.heap p).data.reserveId CINDER_CAP_ALL) a,
        .unlockInner p, .unlock] ⟨0, some ((db.heap p).data.reserveId, PA_RESERVE_GRANTED)⟩

theorem Exposed.calls {p : RecordPtr} {pid : Pid} {r : StatResult} (h : Exposed db p pid es r)
    {c : Call} {a : Answer} (hm : .call c a ∈ es) :
    c = .exposeReserve pid (db.heap p).data.reserveId CINDER_CAP_ALL := by
  cases h with
  | @refused x ha =>
    have hc : c = .exposeReserve pid (db.heap p).data.reserveId CINDER_CAP_ALL ∧ a = x := by
      simpa using hm
    exact hc.1
  | @granted x ha =>
    have hc : c = .exposeReserve pid (db.heap p).data.reserveId CINDER_CAP_ALL ∧ a = x := by
      simpa using hm
    exact hc.1

/-- Everything that one STAT can have seen and done. -/
inductive Stated (db : ReserveDataDatabase) (uid : Uid) (pid : Pid) :
    List (Event sig) → StatResult → ReserveDataDatabase → Prop
  | busy {a} (e : Errno) :
      Stated db uid pid [.call .rootReserveId a, .lock (some e)] ⟨e.code, none⟩ db
  | absent {a} (h : db.find uid = none) :
      Stated db uid pid [.call .rootReserveId a, .lock none, .unlock]
        ⟨0, some (a.ret, PA_USE_ROOT_RESERVE)⟩ db
  | recordBusy {a p} (h : db.find uid = some p) (e : Errno) :
      Stated db uid pid [.call .rootReserveId a, .lock none, .lockInner p (some e), .unlock]
        ⟨e.code, none⟩ db
  | exposed {a p fs r} (h : db.find uid = some p)
      (hc : (db.heap p).data.reserveCreated = true) (hx : Exposed db p pid fs r) :
      Stated db uid pid (.call .rootReserveId a :: .lock none :: .lockInner p none :: fs) r db
  | failed {a p fs err} (h : db.find uid = some p)
      (hc : (db.heap p).data.reserveCreated = false)
      (hr : Created db p uid a.ret fs (.error err) db) :
      Stated db uid pid (.call .rootReserveId a :: .lock none :: .lockInner p none ::
        (fs ++ [.unlockInner p, .unlock])) ⟨err, none⟩ db
  | created {a p fs gs r d} (h : db.find uid = some p)
      (hc : (db.heap p).data.reserveCreated = false) (hr : Created db p uid a.ret fs (.ok ()) d)
      (hx : Exposed d p pid gs r) :
      Stated db uid pid (.call .rootReserveId a :: .lock none :: .lockInner p none ::
        (fs ++ gs)) r d

inductive Got (db : ReserveDataDatabase) (uid : Uid) :
    List (Event sig) → Int32 × Option (UInt64 × Int64) → Prop
  | busy (e : Errno) : Got db uid [.lock (some e)] (e.code, none)
  | absent (h : db.find uid = none) : Got db uid [.lock none, .unlock] (-ENOENT, none)
  | recordBusy {p} (h : db.find uid = some p) (e : Errno) :
      Got db uid [.lock none, .lockInner p (some e), .unlock] (e.code, none)
  | done {p} (h : db.find uid = some p) :
      Got db uid [.lock none, .lockInner p none, .unlockInner p, .unlock]
        (0, some ((db.heap p).data.tapType, (db.heap p).data.tapValue))

inductive ParamsSet (db : ReserveDataDatabase) (uid : Uid) (tapType : UInt64) (tapValue : Int64) :
    List (Event sig) → Int32 × UInt32 → ReserveDataDatabase → Prop
  | invalid (h : validParams tapType tapValue = false) :
      ParamsSet db uid tapType tapValue [] (-EINVAL, PA_INVALID_INPUT) db
  | busy (hv : validParams tapType tapValue = true) (e : Errno) :
      ParamsSet db uid tapType tapValue [.lock (some e)] (e.code, 0) db
  | absent (hv : validParams tapType tapValue = true) (h : db.find uid = none) :
      ParamsSet db uid tapType tapValue [.lock none, .unlock] (-ENOENT, 0) db
  | recordBusy {p} (hv : validParams tapType tapValue = true) (h : db.find uid = some p)
      (e : Errno) :
      ParamsSet db uid tapType tapValue [.lock none, .lockInner p (some e), .unlock] (e.code, 0) db
  | stored {p} (hv : validParams tapType tapValue = true) (h : db.find uid = some p)
      (hc : (db.heap p).data.reserveCreated = false) :
      ParamsSet db uid tapType tapValue
        [.lock none, .lockInner p none, .unlockInner p, .unlock] (0, 0)
        (db.modify p (.rated tapType tapValue))
  | refused {p a} (hv : validParams tapType tapValue = true) (h : db.find uid = some p)
      (hc : (db.heap p).data.reserveCreated = true) (ha : a.ret ≠ 0) :
      ParamsSet db uid tapType tapValue [.lock none, .lockInner p none,
        rateCall (db.heap p).data.tapId tapType tapValue a, .unlockInner p, .unlock] (a.ret, 0) db
  | accepted {p a} (hv : validParams tapType tapValue = true) (h : db.find uid = some p)
      (hc : (db.heap p).data.reserveCreated = true) (ha : a.ret = 0) :
      ParamsSet db uid tapType tapValue [.lock none, .lockInner p none,
        rateCall (db.heap p).data.tapId tapType tapValue a, .unlockInner p, .unlock] (0, 0)
        (db.modify p (.rated tapType tapValue))

inductive ParamsAdded (tmp : UIDReserveData) (db : ReserveDataDatabase) (uid : Uid)
    (tapType : UInt64) (tapValue : Int64) :
    List (Event sig) → Int32 × UInt32 → ReserveDataDatabase → Prop
  | invalid (h : validParams tapType tapValue = false) :
      ParamsAdded tmp db uid tapType tapValue [] (-EINVAL, PA_INVALID_INPUT) db
  | valid {fs ret d} (hv : validParams tapType tapValue = true)
      (h : Added uid ⟨false, tmp.reserveId, tmp.tapId, tapType, tapValue⟩ db fs ret d) :
      ParamsAdded tmp db uid tapType tapValue fs (ret, 0) d

variable {db db' : ReserveDataDatabase} {es : List (Event sig)}

theorem createReserveAndTap_runs {p : RecordPtr} {uid : Uid} {root : Int32}
    {r : Except Long Unit}
    (h : (createReserveAndTap p uid root).Runs effect db es r db') :
    Created db p uid root es r db' := by
  simp only [createReserveAndTap, Prog.bind_eq, Prog.pure_eq, cinderCreateReserve_bind,
    cinderCreateTap_bind, load_bind, store_bind, cinderTapSetRate_bind, cinderDeleteTap_bind,
    cinderPutReserve_bind, Prog.runs_call] at h
  obtain ⟨a, es, rfl, h⟩ := h
  by_cases ha : a.ret < 0
  · simp only [ha, ↓reduceIte, Prog.runs_ret] at h
    obtain ⟨rfl, rfl, rfl⟩ := h
    exact .noReserve ha
  simp only [ha, ↓reduceIte, Prog.runs_call] at h
  obtain ⟨b, es, rfl, h⟩ := h
  by_cases hb : b.ret < 0
  · simp only [hb, ↓reduceIte, Prog.runs_call, Prog.runs_ret] at h
    obtain ⟨c, es, rfl, rfl, rfl, rfl⟩ := h
    exact .noTap ha hb
  simp only [hb, ↓reduceIte, Prog.runs_access, effect, Prog.runs_call] at h
  obtain ⟨c, es, rfl, h⟩ := h
  by_cases hc : c.ret = 0
  · simp only [hc, ne_eq, not_true_eq_false, ↓reduceIte, Prog.runs_access, effect, Prog.runs_ret,
      ReserveDataDatabase.modify_modify] at h
    obtain ⟨rfl, rfl, rfl⟩ := h
    exact .done ha hb hc
  · simp only [hc, ne_eq, not_false_eq_true, ↓reduceIte, Prog.runs_call, Prog.runs_ret] at h
    obtain ⟨d, es, rfl, e, es, rfl, rfl, rfl, rfl⟩ := h
    exact .noRate ha hb hc

theorem exposeRecord_runs {p : RecordPtr} {pid : Pid} {r : StatResult}
    (h : (exposeRecord p pid).Runs effect db es r db') : Exposed db p pid es r ∧ db' = db := by
  simp only [exposeRecord, Prog.bind_eq, load_bind, cinderExposeReserve_bind, Prog.runs_access,
    effect, Prog.runs_call] at h
  obtain ⟨a, es, rfl, h⟩ := h
  by_cases ha : a.ret = 0
  · simp only [ha, ne_eq, not_true_eq_false, ↓reduceIte, Prog.runs_access, effect,
      recordUnlock_runs] at h
    obtain ⟨rfl, rfl, rfl⟩ := h
    exact ⟨.granted ha, rfl⟩
  · simp only [ha, ne_eq, not_false_eq_true, ↓reduceIte, recordUnlock_runs] at h
    obtain ⟨rfl, rfl, rfl⟩ := h
    exact ⟨.refused ha, rfl⟩

theorem statReserve_runs {uid : Uid} {pid : Pid} {r : StatResult}
    (h : (statReserve uid pid).Runs effect db es r db') : Stated db uid pid es r db' := by
  simp only [statReserve, Prog.bind_eq, Prog.pure_eq, cinderGetRootReserveId_bind, readLock_bind,
    lookupEntryLocked_bind, recordLock_bind, load_bind, Prog.runs_call] at h
  obtain ⟨a, es, rfl, h⟩ := h
  simp only [ne_eq, not_true_eq_false, ↓reduceIte, Prog.runs_lock] at h
  obtain ⟨_ | e, es, rfl, h⟩ := h
  swap
  · simp only [e.nonzero, not_false_eq_true, ↓reduceIte, Prog.runs_ret] at h
    obtain ⟨rfl, rfl, rfl⟩ := h
    exact .busy e
  simp only [not_true_eq_false, ↓reduceIte, Prog.runs_access, effect] at h
  cases hf : db.find uid with
  | none =>
    simp only [hf, not_true_eq_false, ↓reduceIte, runs_outUnlock] at h
    obtain ⟨rfl, rfl, rfl⟩ := h
    exact .absent hf
  | some p =>
    simp only [hf, Prog.runs_lockInner] at h
    obtain ⟨_ | e, es, rfl, h⟩ := h
    swap
    · simp only [e.nonzero, not_false_eq_true, ↓reduceIte, runs_outUnlock] at h
      obtain ⟨rfl, rfl, rfl⟩ := h
      exact .recordBusy hf e
    simp only [not_true_eq_false, ↓reduceIte, Prog.runs_access, effect] at h
    cases hc : (db.heap p).data.reserveCreated with
    | true =>
      simp only [hc, ↓reduceIte] at h
      obtain ⟨hx, rfl⟩ := exposeRecord_runs h
      exact .exposed hf hc hx
    | false =>
      simp only [hc, Bool.false_eq_true, ↓reduceIte] at h
      rw [Prog.runs_bind (S := sig)] at h
      obtain ⟨r, mid, es₁, es₂, rfl, hr, h⟩ := h
      have hr := createReserveAndTap_runs hr
      cases r with
      | error err =>
        have hm : mid = db := by cases hr <;> rfl
        simp only [recordUnlock_runs] at h
        obtain ⟨rfl, rfl, rfl⟩ := h
        subst hm
        exact .failed hf hc hr
      | ok u =>
        obtain ⟨hx, rfl⟩ := exposeRecord_runs h
        exact .created hf hc hr hx

theorem getTapParams_runs {uid : Uid} {r : Int32 × Option (UInt64 × Int64)}
    (h : (getTapParams uid).Runs effect db es r db') : Got db uid es r ∧ db' = db := by
  simp only [getTapParams, Prog.bind_eq, Prog.pure_eq, readLock_bind, lookupEntryLocked_bind,
    recordLock_bind, load_bind, Prog.runs_lock] at h
  obtain ⟨_ | e, es, rfl, h⟩ := h
  swap
  · simp only [ne_eq, e.nonzero, not_false_eq_true, ↓reduceIte, Prog.runs_ret] at h
    obtain ⟨rfl, rfl, rfl⟩ := h
    exact ⟨.busy e, rfl⟩
  simp only [ne_eq, not_true_eq_false, ↓reduceIte, Prog.runs_access, effect] at h
  cases hf : db.find uid with
  | none =>
    simp only [hf, runs_outUnlock] at h
    obtain ⟨rfl, rfl, rfl⟩ := h
    exact ⟨.absent hf, rfl⟩
  | some p =>
    simp only [hf, Prog.runs_lockInner] at h
    obtain ⟨_ | e, es, rfl, h⟩ := h
    · simp only [not_true_eq_false, ↓reduceIte, Prog.runs_access, effect, recordUnlock_runs] at h
      obtain ⟨rfl, rfl, rfl⟩ := h
      exact ⟨.done hf, rfl⟩
    · simp only [e.nonzero, not_false_eq_true, ↓reduceIte, runs_outUnlock] at h
      obtain ⟨rfl, rfl, rfl⟩ := h
      exact ⟨.recordBusy hf e, rfl⟩

theorem setTapParams_runs {uid : Uid} {tapType : UInt64} {tapValue : Int64} {r : Int32 × UInt32}
    (h : (setTapParams uid tapType tapValue).Runs effect db es r db') :
    ParamsSet db uid tapType tapValue es r db' := by
  simp only [setTapParams, Prog.bind_eq, Prog.pure_eq, readLock_bind, lookupEntryLocked_bind,
    recordLock_bind, load_bind, store_bind] at h
  cases hv : validParams tapType tapValue with
  | false =>
    simp only [hv, Bool.not_false, ↓reduceIte, Prog.runs_ret] at h
    obtain ⟨rfl, rfl, rfl⟩ := h
    exact .invalid hv
  | true =>
    simp only [hv, Bool.not_true, Bool.false_eq_true, ↓reduceIte, Prog.runs_lock] at h
    obtain ⟨_ | e, es, rfl, h⟩ := h
    swap
    · simp only [ne_eq, e.nonzero, not_false_eq_true, ↓reduceIte, Prog.runs_ret] at h
      obtain ⟨rfl, rfl, rfl⟩ := h
      exact .busy hv e
    simp only [ne_eq, not_true_eq_false, ↓reduceIte, Prog.runs_access, effect] at h
    cases hf : db.find uid with
    | none =>
      simp only [hf, runs_outUnlock] at h
      obtain ⟨rfl, rfl, rfl⟩ := h
      exact .absent hv hf
    | some p =>
      simp only [hf, Prog.runs_lockInner] at h
      obtain ⟨_ | e, es, rfl, h⟩ := h
      swap
      · simp only [e.nonzero, not_false_eq_true, ↓reduceIte, runs_outUnlock] at h
        obtain ⟨rfl, rfl, rfl⟩ := h
        exact .recordBusy hv hf e
      simp only [not_true_eq_false, ↓reduceIte, Prog.runs_access, effect] at h
      cases hc : (db.heap p).data.reserveCreated with
      | false =>
        simp only [hc, Bool.false_eq_true, ↓reduceIte, Prog.ret_bind, not_true_eq_false,
          Prog.runs_access, effect, ReserveDataDatabase.modify_modify, recordUnlock_runs] at h
        obtain ⟨rfl, rfl, rfl⟩ := h
        exact .stored hv hf hc
      | true =>
        simp only [hc, ↓reduceIte, cinderTapSetRate_bind, Prog.runs_call] at h
        obtain ⟨a, es, rfl, h⟩ := h
        by_cases ha : a.ret = 0
        · simp only [ha, not_true_eq_false, ↓reduceIte, Prog.runs_access, effect,
            ReserveDataDatabase.modify_modify, recordUnlock_runs] at h
          obtain ⟨rfl, rfl, rfl⟩ := h
          exact .accepted hv hf hc ha
        · simp only [ha, not_false_eq_true, ↓reduceIte, recordUnlock_runs] at h
          obtain ⟨rfl, rfl, rfl⟩ := h
          exact .refused hv hf hc ha

theorem addReserveParamsForUID_runs {tmp : UIDReserveData} {uid : Uid} {tapType : UInt64}
    {tapValue : Int64} {r : Int32 × UInt32}
    (h : (addReserveParamsForUID tmp uid tapType tapValue).Runs effect db es r db') :
    ParamsAdded tmp db uid tapType tapValue es r db' := by
  simp only [addReserveParamsForUID, Prog.bind_eq, Prog.pure_eq] at h
  cases hv : validParams tapType tapValue with
  | false =>
    simp only [hv, Bool.not_false, ↓reduceIte, Prog.runs_ret] at h
    obtain ⟨rfl, rfl, rfl⟩ := h
    exact .invalid hv
  | true =>
    simp only [hv, Bool.not_true, Bool.false_eq_true, ↓reduceIte] at h
    rw [Prog.runs_bind (S := sig)] at h
    obtain ⟨ret, mid, es₁, es₂, rfl, ha, h⟩ := h
    simp only [Prog.runs_ret] at h
    obtain ⟨rfl, rfl, rfl⟩ := h
    rw [List.append_nil]
    exact .valid hv (addEntry_runs ha)

/-- What one completed operation has seen and done, whichever it is. -/
inductive Operated (db : ReserveDataDatabase) :
    Op → List (Event sig) → Outcome → ReserveDataDatabase → Prop
  | stat {uid pid fs r d} (h : Stated db uid pid fs r d) :
      Operated db (.statReserve uid pid) fs (.stat r) d
  | get {uid fs r} (h : Got db uid fs r) : Operated db (.getTapParams uid) fs (.get r.1 r.2) db
  | set {uid tapType tapValue fs r d} (h : ParamsSet db uid tapType tapValue fs r d) :
      Operated db (.setTapParams uid tapType tapValue) fs (.set r.1 r.2) d
  | add {tmp uid tapType tapValue fs r d} (h : ParamsAdded tmp db uid tapType tapValue fs r d) :
      Operated db (.addReserveParamsForUID tmp uid tapType tapValue) fs (.add r.1 r.2) d
  | remove {uid fs r d} (h : Removed uid db fs r d) :
      Operated db (.removeReserveParamsForUID uid) fs (.remove r) d
  | clear {fs r d} (h : Cleared db fs r d) :
      Operated db .reserveDataDBClearUnused fs (.clear r.1 r.2) d

theorem operation_runs {op : Op} {r : Outcome} (h : (operation op).Runs effect db es r db') :
    Operated db op es r db' := by
  cases op
  all_goals
    simp only [operation, Prog.bind_eq, Prog.pure_eq] at h
    rw [Prog.runs_bind (S := sig)] at h
    obtain ⟨x, mid, es₁, es₂, rfl, hx, h⟩ := h
    simp only [Prog.runs_ret] at h
    obtain ⟨rfl, rfl, rfl⟩ := h
    rw [List.append_nil]
  case statReserve => exact .stat (statReserve_runs hx)
  case getTapParams =>
    obtain ⟨hg, rfl⟩ := getTapParams_runs hx
    exact .get hg
  case setTapParams => exact .set (setTapParams_runs hx)
  case addReserveParamsForUID => exact .add (addReserveParamsForUID_runs hx)
  case removeReserveParamsForUID => exact .remove (removeEntry_runs hx)
  case reserveDataDBClearUnused => exact .clear (clearUnused_runs hx)

/-- A completed operation in which nothing fails, for concrete runs. -/
def added (uid : Uid) (tapType : UInt64) (tapValue : Int64) : Done sig Op Outcome where
  op := .addReserveParamsForUID ⟨false, 0, 0, 0, 0⟩ uid tapType tapValue
  trace := [.lock none, .call .malloc ⟨1, 0⟩, .call .mutexInit ⟨0, 0⟩, .unlock]
  result := .add 0 0

def removed (uid : Uid) : Done sig Op Outcome :=
  ⟨.removeReserveParamsForUID uid, [.lock none, .unlock], .remove 0⟩

/-- The first STAT of the record `p`, whose parameters are given. -/
def granted (uid : Uid) (pid : Pid) (p : RecordPtr) (tapType : UInt64) (tapValue : Int64)
    (reserve tap : Int32) : Done sig Op Outcome where
  op := .statReserve uid pid
  trace := [.call .rootReserveId ⟨0, 0⟩, .lock none, .lockInner p none, createCall uid ⟨reserve, 0⟩,
    tapCall uid 0 reserve ⟨tap, 0⟩, rateCall tap tapType tapValue ⟨0, 0⟩,
    .call (.exposeReserve pid reserve CINDER_CAP_ALL) ⟨0, 0⟩, .unlockInner p, .unlock]
  result := .stat ⟨0, some (reserve, PA_RESERVE_GRANTED)⟩

/-- A pass that reclaims the one record with a reserve on the dead list. -/
def reaped (reserve : Int32) : Done sig Op Outcome where
  op := .reserveDataDBClearUnused
  trace := [.lock none, .call (.reserveInfo reserve) ⟨0, 1⟩, .call (.putReserve reserve) ⟨0, 0⟩,
    .unlock]
  result := .clear 0 (some false)

end PowerArbiter
