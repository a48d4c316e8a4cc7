import PowerArbiter.Dbase

namespace PowerArbiter
open Monitor

section Steps

variable {α : Type} {db db' : ReserveDataDatabase} {es : List (Event sig)} {a : α}

@[simp] theorem request_bind (c : Call) (f : Answer → Program α) :
    (request c).bind f = .call c f := rfl

@[simp] theorem cinderPutReserve_bind (id : Int32) (f : Long → Program α) :
    (cinderPutReserve id).bind f = .call (.putReserve id) (fun a => f a.ret) := rfl

@[simp] theorem hashFind_bind (uid : Uid) (f : Option RecordPtr → Program α) :
    (hashFind uid).bind f = .access (.hashFind uid) f := rfl

@[simp] theorem hashAdd_bind (p : RecordPtr) (f : Unit → Program α) :
    (hashAdd p).bind f = .access (.hashAdd p) f := rfl

@[simp] theorem hashDelete_bind (p : RecordPtr) (f : Unit → Program α) :
    (hashDelete p).bind f = .access (.hashDelete p) f := rfl

@[simp] theorem hashEntries_bind (f : List RecordPtr → Program α) :
    hashEntries.bind f = .access .hashEntries f := rfl

@[simp] theorem listAddTail_bind (p : RecordPtr) (f : Unit → Program α) :
    (listAddTail p).bind f = .access (.listAddTail p) f := rfl

@[simp] theorem listEntries_bind (f : List RecordPtr → Program α) :
    listEntries.bind f = .access .listEntries f := rfl

@[simp] theorem listEmpty_bind (f : Bool → Program α) :
    listEmpty.bind f = .access .listEmpty f := rfl

@[simp] theorem recordInit_bind (uid : Uid) (d : UIDReserveData) (f : RecordPtr → Program α) :
    (recordInit uid d).bind f = .access (.recordInit uid d) f := rfl

@[simp] theorem load_bind (p : RecordPtr) (f : UIDReserveData → Program α) :
    (load p).bind f = .access (.load p) f := rfl

@[simp] theorem store_bind (p : RecordPtr) (fd : Field) (f : Unit → Program α) :
    (store p fd).bind f = .access (.store p fd) f := rfl

@[simp] theorem mutexDestroy_bind (p : RecordPtr) (f : Unit → Program α) :
    (mutexDestroy p).bind f = .access (.mutexDestroy p) f := rfl

@[simp] theorem readLock_bind (f : Int32 → Program α) : reserveDataDBReadLock.bind f =
    .lock (fun r => f (match r with | none => 0 | some e => e.code)) := rfl

@[simp] theorem unlock_bind (f : Unit → Program α) :
    reserveDataDBUnlock.bind f = .unlock (f ()) := rfl

@[simp] theorem recordLock_bind (p : RecordPtr) (f : Int32 → Program α) :
    (reserveRecordLock p).bind f =
      .lockInner p (fun r => f (match r with | none => 0 | some e => e.code)) := rfl

@[simp] theorem recordUnlock_bind (p : RecordPtr) (f : Unit → Program α) :
    (reserveRecordUnlock p).bind f = .unlockInner p (f ()) := rfl

@[simp] theorem runs_outUnlock {r : α} :
    (outUnlock r).Runs effect db es a db' ↔ es = [.unlock] ∧ a = r ∧ db' = db := by
  simp [outUnlock]

end Steps

variable {db db' : ReserveDataDatabase} {es : List (Event sig)}

/-- Allocation and initialisation of a record, answered by libc. -/
inductive RecordCreated (uid : Uid) (data : UIDReserveData) (db : ReserveDataDatabase) :
    List (Event sig) → Except Int32 RecordPtr → ReserveDataDatabase → Prop
  | noMemory {a} (h : a.ret = 0) :
      RecordCreated uid data db [.call .malloc a] (.error (-ENOMEM)) db
  | noMutex {a b} (ha : a.ret ≠ 0) (hb : b.ret ≠ 0) :
      RecordCreated uid data db [.call .malloc a, .call .mutexInit b] (.error b.ret) db
  | done {a b} (ha : a.ret ≠ 0) (hb : b.ret = 0) :
      RecordCreated uid data db [.call .malloc a, .call .mutexInit b] (.ok db.next)
        (db.allocate ⟨data, uid⟩)

theorem recordCreate_runs {uid : Uid} {data : UIDReserveData} {r : Except Int32 RecordPtr}
    (h : (reserveRecordCreate uid data).Runs effect db es r db') :
    RecordCreated uid data db es r db' := by
  simp only [reserveRecordCreate, Prog.bind_eq, Prog.pure_eq, request_bind, recordInit_bind,
    Prog.runs_call] at h
  obtain ⟨a, es, rfl, h⟩ := h
  by_cases ha : a.ret = 0
  · simp only [ha, ↓reduceIte, Prog.runs_ret] at h
    obtain ⟨rfl, rfl, rfl⟩ := h
    exact .noMemory ha
  · simp only [ha, ↓reduceIte, Prog.runs_call] at h
    obtain ⟨b, es, rfl, h⟩ := h
    by_cases hb : b.ret = 0
    · simp only [hb, ne_eq, not_true_eq_false, ↓reduceIte, Prog.runs_access, effect,
        Prog.runs_ret] at h
      obtain ⟨rfl, rfl, rfl⟩ := h
      exact .done ha hb
    · simp only [ne_eq, hb, not_false_eq_true, ↓reduceIte, Prog.runs_ret] at h
      obtain ⟨rfl, rfl, rfl⟩ := h
      exact .noMutex ha hb

theorem RecordCreated.calls {uid : Uid} {data : UIDReserveData} {r : Except Int32 RecordPtr}
    (h : RecordCreated uid data db es r db') {c : Call} {a : Answer} (hm : .call c a ∈ es) :
    c = .malloc ∨ c = .mutexInit := by
  cases h with
  | @noMemory x ha =>
    have hc : c = .malloc ∧ a = x := by simpa using hm
    exact .inl hc.1
  | @noMutex x y ha hb =>
    have hc : (c = .malloc ∧ a = x) ∨ (c = .mutexInit ∧ a = y) := by simpa using hm
    exact hc.imp And.left And.left
  | @done x y ha hb =>
    have hc : (c = .malloc ∧ a = x) ∨ (c = .mutexInit ∧ a = y) := by simpa using hm
    exact hc.imp And.left And.left

inductive Added (uid : Uid) (data : UIDReserveData) (db : ReserveDataDatabase) :
    List (Event sig) → Int32 → ReserveDataDatabase → Prop
  | busy (e : Errno) : Added uid data db [.lock (some e)] e.code db
  | present {p} (h : db.find uid = some p) : Added uid data db [.lock none, .unlock] (-EEXIST) db
  | failed {fs err} (h : db.find uid = none) (hr : RecordCreated uid data db fs (.error err) db) :
      Added uid data db (.lock none :: (fs ++ [.unlock])) err db
  | done {fs} (h : db.find uid = none)
      (hr : RecordCreated uid data db fs (.ok db.next) (db.allocate ⟨data, uid⟩)) :
      Added uid data db (.lock none :: (fs ++ [.unlock])) 0
        { db.allocate ⟨data, uid⟩ with data := db.data ++ [db.next] }

theorem addEntry_runs {uid : Uid} {data : UIDReserveData} {ret : Int32}
    (h : (reserveDataDBAddEntry uid data).Runs effect db es ret db') :
    Added uid data db es ret db' := by
  simp only [reserveDataDBAddEntry, Prog.bind_eq, Prog.pure_eq, readLock_bind, hashFind_bind,
    hashAdd_bind, Prog.runs_lock] at h
  obtain ⟨_ | e, es, rfl, h⟩ := h
  · simp only [ne_eq, not_true_eq_false, ↓reduceIte, Prog.runs_access, effect] at h
    split at h
    · rename_i p hp
      rw [runs_outUnlock] at h
      obtain ⟨rfl, rfl, rfl⟩ := h
      exact .present hp
    · rename_i hp
      rw [Prog.runs_bind (S := sig)] at h
      obtain ⟨r, mid, es₁, es₂, rfl, hc, h⟩ := h
      have hr := recordCreate_runs hc
      cases r with
      | error err =>
        rw [runs_outUnlock] at h
        obtain ⟨rfl, rfl, rfl⟩ := h
        cases hr with
        | noMemory ha => exact .failed hp (.noMemory ha)
        | noMutex ha hb => exact .failed hp (.noMutex ha hb)
      | ok p =>
        simp only [Prog.runs_access, effect, runs_outUnlock] at h
        obtain ⟨rfl, rfl, rfl⟩ := h
        cases hr with
        | done ha hb => exact .done hp (.done ha hb)
  · simp only [ne_eq, e.nonzero, not_false_eq_true, ↓reduceIte, Prog.runs_ret] at h
    obtain ⟨rfl, rfl, rfl⟩ := h
    exact .busy e

inductive Removed (uid : Uid) (db : ReserveDataDatabase) :
    List (Event sig) → Int32 → ReserveDataDatabase → Prop
  | busy (e : Errno) : Removed uid db [.lock (some e)] e.code db
  | absent (h : db.find uid = none) : Removed uid db [.lock none, .unlock] (-ENOENT) db
  | done {p} (h : db.find uid = some p) :
      Removed uid db [.lock none, .unlock] 0
        { db with data := db.data.erase p, deadList := db.deadList ++ [p] }

theorem removeEntry_runs {uid : Uid} {ret : Int32}
    (h : (reserveDataDBRemoveEntry uid).Runs effect db es ret db') : Removed uid db es ret db' := by
  simp only [reserveDataDBRemoveEntry, Prog.bind_eq, Prog.pure_eq, readLock_bind, hashFind_bind,
    hashDelete_bind, listAddTail_bind, Prog.runs_lock] at h
  obtain ⟨_ | e, es, rfl, h⟩ := h
  · simp only [ne_eq, not_true_eq_false, ↓reduceIte, Prog.runs_access, effect] at h
    split at h
    · rename_i hp
      rw [runs_outUnlock] at h
      obtain ⟨rfl, rfl, rfl⟩ := h
      exact .absent hp
    · rename_i p hp
      simp only [Prog.runs_access, effect, runs_outUnlock] at h
      obtain ⟨rfl, rfl, rfl⟩ := h
      exact .done hp
  · simp only [ne_eq, e.nonzero, not_false_eq_true, ↓reduceIte, Prog.runs_ret] at h
    obtain ⟨rfl, rfl, rfl⟩ := h
    exact .busy e

/-- One iteration of the reaper over the dead record `p`: the value of `err`
before, the events, the value of `err` after, and whether `p` was destroyed. -/
inductive Visit (db : ReserveDataDatabase) (p : RecordPtr) :
    Int32 → List (Event sig) → Int32 → Bool → Prop
  | fresh {err} (h : (db.heap p).data.reserveCreated = false) : Visit db p err [] err true
  | failed {err a} (h : (db.heap p).data.reserveCreated = true) (ha : a.ret ≠ 0) :
      Visit db p err [.call (.reserveInfo (db.heap p).data.reserveId) a] a.ret false
  | shared {err a} (h : (db.heap p).data.reserveCreated = true) (ha : a.ret = 0)
      (hn : a.numUsers ≠ 1) :
      Visit db p err [.call (.reserveInfo (db.heap p).data.reserveId) a] 0 false
  | last {err a b} (h : (db.heap p).data.reserveCreated = true) (ha : a.ret = 0)
      (hn : a.numUsers = 1) :
      Visit db p err [.call (.reserveInfo (db.heap p).data.reserveId) a,
        .call (.putReserve (db.heap p).data.reserveId) b] 0 true

def ReserveDataDatabase.bury (db : ReserveDataDatabase) (ps : List RecordPtr) :
    ReserveDataDatabase := { db with destroyed := db.destroyed ++ ps }

theorem clearUnusedEntry_runs {err err' : Int32} {p : RecordPtr}
    (h : (clearUnusedEntry err p).Runs effect db es err' db') :
    ∃ gone, Visit db p err es err' gone ∧ db' = db.bury (if gone then [p] else []) := by
  simp only [clearUnusedEntry, cinderGetNumReserveUsers, reserveRecordDestroy, Prog.bind_eq,
    Prog.pure_eq, load_bind, mutexDestroy_bind, request_bind, Prog.runs_access, effect] at h
  cases hc : (db.heap p).data.reserveCreated with
  | false =>
    simp only [hc, Bool.not_false, Bool.false_eq_true, ↓reduceIte, Prog.bind, Prog.runs_access,
      effect, Prog.runs_ret] at h
    obtain ⟨rfl, rfl, rfl⟩ := h
    exact ⟨true, .fresh hc, rfl⟩
  | true =>
    simp only [hc, Bool.not_true, Bool.false_eq_true, ↓reduceIte, Prog.bind, Prog.runs_call] at h
    obtain ⟨a, es, rfl, h⟩ := h
    by_cases ha : a.ret = 0
    · simp only [ha, ne_eq, not_true_eq_false, ↓reduceIte, Prog.ret_bind] at h
      by_cases hn : a.numUsers = 1
      · simp only [hn, hc, ↓reduceIte, Prog.bind, cinderPutReserve, request_bind, Prog.bind_eq,
          Prog.pure_eq, Prog.runs_access, effect, Prog.runs_call, Prog.runs_ret] at h
        obtain ⟨b, es, rfl, rfl, rfl, rfl⟩ := h
        exact ⟨true, .last hc ha hn, rfl⟩
      · simp only [hn, ↓reduceIte, Prog.runs_ret] at h
        obtain ⟨rfl, rfl, rfl⟩ := h
        exact ⟨false, .shared hc ha hn, by simp [ReserveDataDatabase.bury]⟩
    · simp only [ha, ne_eq, not_false_eq_true, ↓reduceIte, Prog.ret_bind, Prog.runs_ret] at h
      obtain ⟨rfl, rfl, rfl⟩ := h
      exact ⟨false, .failed hc ha, by simp [ReserveDataDatabase.bury]⟩

/-- The iterations over a list of dead records; the last argument collects those
that were destroyed. -/
inductive Sweep (db : ReserveDataDatabase) :
    List RecordPtr → Int32 → List (Event sig) → Int32 → List RecordPtr → Prop
  | nil {err} : Sweep db [] err [] err []
  | cons {p ps err fs err' gs err'' gone ds} (hv : Visit db p err fs err' gone)
      (hs : Sweep db ps err' gs err'' ds) :
      Sweep db (p :: ps) err (fs ++ gs) err'' ((if gone then [p] else []) ++ ds)

theorem Visit.bury {p : RecordPtr} {err err' : Int32} {gone : Bool} {ds : List RecordPtr} :
    Visit (db.bury ds) p err es err' gone ↔ Visit db p err es err' gone := by
  constructor <;> intro h <;> cases h
  all_goals first
    | exact .fresh ‹_›
    | exact .failed ‹_› ‹_›
    | exact .shared ‹_› ‹_› ‹_›
    | exact .last ‹_› ‹_› ‹_›

theorem Sweep.bury {ps ds gone : List RecordPtr} {err err' : Int32}
    (h : Sweep (db.bury ds) ps err es err' gone) : Sweep db ps err es err' gone := by
  induction h with
  | nil => exact .nil
  | cons hv _ ih => exact .cons (Visit.bury.mp hv) ih

theorem Visit.calls {p : RecordPtr} {err err' : Int32} {gone : Bool}
    (h : Visit db p err es err' gone) {c : Call} {a : Answer} (hm : .call c a ∈ es) :
    (db.heap p).data.reserveCreated = true ∧
      (c = .reserveInfo (db.heap p).data.reserveId ∨
        c = .putReserve (db.heap p).data.reserveId) := by
  cases h with
  | fresh hp => simp at hm
  | @failed x hp ha =>
    have hc : c = .reserveInfo (db.heap p).data.reserveId ∧ a = x := by simpa using hm
    exact ⟨hp, .inl hc.1⟩
  | @shared x hp ha hn =>
    have hc : c = .reserveInfo (db.heap p).data.reserveId ∧ a = x := by simpa using hm
    exact ⟨hp, .inl hc.1⟩
  | @last x y hp ha hn =>
    have hc : (c = .reserveInfo (db.heap p).data.reserveId ∧ a = x) ∨
        (c = .putReserve (db.heap p).data.reserveId ∧ a = y) := by simpa using hm
    exact ⟨hp, hc.imp And.left And.left⟩

/-- A pass queries and puts the reserves of the records that it visits. -/
theorem Sweep.calls {ps ds : List RecordPtr} {err err' : Int32} (h : Sweep db ps err es err' ds)
    {c : Call} {a : Answer} (hm : .call c a ∈ es) :
    ∃ p ∈ ps, (db.heap p).data.reserveCreated = true ∧
      (c = .reserveInfo (db.heap p).data.reserveId ∨
        c = .putReserve (db.heap p).data.reserveId) := by
  induction h with
  | nil => simp at hm
  | cons hv _ ih =>
    rcases List.mem_append.mp hm with hm | hm
    · exact ⟨_, List.mem_cons_self, hv.calls hm⟩
    · obtain ⟨p, hp, hc⟩ := ih hm
      exact ⟨p, List.mem_cons_of_mem _ hp, hc⟩

theorem clearUnusedLoop_runs {ps : List RecordPtr} {err err' : Int32}
    (h : (clearUnusedLoop err ps).Runs effect db es err' db') :
    ∃ ds, Sweep db ps err es err' ds ∧ db' = db.bury ds := by
  induction ps generalizing db err es with
  | nil =>
    simp only [clearUnusedLoop, Prog.pure_eq, Prog.runs_ret] at h
    obtain ⟨rfl, rfl, rfl⟩ := h
    exact ⟨[], .nil, by simp [ReserveDataDatabase.bury]⟩
  | cons p ps ih =>
    simp only [clearUnusedLoop, Prog.bind_eq] at h
    rw [Prog.runs_bind (S := sig)] at h
    obtain ⟨e, mid, es₁, es₂, rfl, he, hl⟩ := h
    obtain ⟨gone, hv, rfl⟩ := clearUnusedEntry_runs he
    obtain ⟨ds, hs, rfl⟩ := ih hl
    exact ⟨_, .cons hv hs.bury, by simp [ReserveDataDatabase.bury]⟩

/-- A pass fails to lock the database, or runs its loop over the dead list. -/
theorem clearUnused_split {r : Int32 × Option Bool}
    (h : reserveDataDBClearUnused.Runs effect db es r db') :
    (∃ e : Errno, es = [.lock (some e)] ∧ r = (e.code, none) ∧ db' = db) ∨
    ∃ fs err, es = .lock none :: (fs ++ [.unlock]) ∧
      (clearUnusedLoop 0 db.deadList).Runs effect db fs err db' ∧
      r = (err, some db'.deadList.isEmpty) := by
  simp only [reserveDataDBClearUnused, Prog.bind_eq, Prog.pure_eq, readLock_bind,
    listEntries_bind, Prog.runs_lock] at h
  obtain ⟨_ | e, es, rfl, h⟩ := h
  · simp only [ne_eq, not_true_eq_false, ↓reduceIte, Prog.runs_access, effect] at h
    rw [Prog.runs_bind (S := sig)] at h
    obtain ⟨err, mid, es₁, es₂, rfl, hl, h⟩ := h
    simp only [listEmpty_bind, Prog.runs_access, effect] at h
    rw [runs_outUnlock] at h
    obtain ⟨rfl, rfl, rfl⟩ := h
    exact .inr ⟨es₁, err, rfl, hl, rfl⟩
  · simp only [ne_eq, e.nonzero, not_false_eq_true, ↓reduceIte, Prog.runs_ret] at h
    obtain ⟨rfl, rfl, rfl⟩ := h
    exact .inl ⟨e, rfl, rfl, rfl⟩

inductive Cleared (db : ReserveDataDatabase) :
    List (Event sig) → Int32 × Option Bool → ReserveDataDatabase → Prop
  | busy (e : Errno) : Cleared db [.lock (some e)] (e.code, none) db
  | done {fs err ds} (h : Sweep db db.deadList 0 fs err ds) :
      Cleared db (.lock none :: (fs ++ [.unlock])) (err, some db.deadList.isEmpty) (db.bury ds)

theorem clearUnused_runs {r : Int32 × Option Bool}
    (h : reserveDataDBClearUnused.Runs effect db es r db') : Cleared db es r db' := by
  rcases clearUnused_split h with ⟨e, rfl, rfl, rfl⟩ | ⟨fs, err, rfl, hl, rfl⟩
  · exact .busy e
  · obtain ⟨ds, hs, rfl⟩ := clearUnusedLoop_runs hl
    exact .done hs

end PowerArbiter
