import PowerArbiter.Monitor.Run
import PowerArbiter.Proofs.Controller

namespace PowerArbiter
open Monitor

theorem reserveRecordDestroy_keeps (p : RecordPtr) :
    Keeps (fun _ ph => ph = .holding) (reserveRecordDestroy p) .holding := by
  simp only [reserveRecordDestroy, Prog.bind_eq, Prog.pure_eq, load_bind, mutexDestroy_bind, Keeps]
  refine ⟨trivial, fun _ => ⟨trivial, fun data => ?_⟩⟩
  cases hc : data.reserveCreated with
  | false => simp [Keeps]
  | true => simp [Keeps, cinderPutReserve, request_bind]

theorem clearUnusedEntry_keeps (err : Int32) (p : RecordPtr) :
    Keeps (fun _ ph => ph = .holding) (clearUnusedEntry err p) .holding := by
  have destroy (e : Int32) : Keeps (fun _ ph => ph = .holding)
      ((reserveRecordDestroy p).bind fun _ => .ret e) .holding := by
    rw [keeps_bind]
    exact (reserveRecordDestroy_keeps p).mono (fun _ _ h => h)
  simp only [clearUnusedEntry, cinderGetNumReserveUsers, Prog.bind_eq, Prog.pure_eq, load_bind,
    request_bind, Keeps]
  refine ⟨trivial, fun data => ?_⟩
  cases hc : data.reserveCreated with
  | false => simpa [hc] using destroy err
  | true =>
    simp only [Bool.not_true, Bool.false_eq_true, ↓reduceIte, Prog.bind, Keeps]
    intro a
    by_cases ha : a.ret = 0
    · simp only [ha, ne_eq, not_true_eq_false, ↓reduceIte, Prog.ret_bind]
      by_cases hn : a.numUsers = 1
      · simpa [hn] using destroy 0
      · simp [hn, Keeps]
    · simp [ha, Keeps]

theorem clearUnusedLoop_keeps (err : Int32) (ps : List RecordPtr) :
    Keeps (fun _ ph => ph = .holding) (clearUnusedLoop err ps) .holding := by
  induction ps generalizing err with
  | nil => simp [clearUnusedLoop, Keeps]
  | cons p ps ih =>
    simp only [clearUnusedLoop, Prog.bind_eq, keeps_bind]
    apply (clearUnusedEntry_keeps err p).mono
    intro e ph hph
    subst hph
    exact ih e

theorem outUnlock_keeps {α : Type} (r : α) :
    Keeps (fun _ ph => ph.Quiet) (outUnlock r) .holding := by
  simp [outUnlock, Keeps, Phase.Quiet]

theorem recordUnlock_keeps {α : Type} (p : RecordPtr) (r : α) :
    Keeps (fun _ ph => ph.Quiet) (recordUnlock p r) (.nested p) := by
  simpa [recordUnlock, Keeps] using outUnlock_keeps r

theorem clearUnused_keeps :
    Keeps (fun _ ph => ph.Quiet) reserveDataDBClearUnused .outside := by
  simp only [reserveDataDBClearUnused, Prog.bind_eq, Prog.pure_eq, readLock_bind,
    listEntries_bind, listEmpty_bind, Keeps]
  refine ⟨trivial, fun e => by simp [e.nonzero, Keeps, Phase.Quiet], ?_⟩
  simp only [ne_eq, not_true_eq_false, ↓reduceIte, Keeps, keeps_bind]
  refine ⟨trivial, fun ps => (clearUnusedLoop_keeps 0 ps).mono ?_⟩
  intro err ph hph
  subst hph
  exact ⟨trivial, fun b => outUnlock_keeps _⟩

theorem reserveRecordCreate_keeps (uid : Uid) (data : UIDReserveData) :
    Keeps (fun _ ph => ph = .holding) (reserveRecordCreate uid data) .holding := by
  simp only [reserveRecordCreate, Prog.bind_eq, Prog.pure_eq, request_bind, recordInit_bind, Keeps]
  intro a
  by_cases ha : a.ret = 0
  · simp [ha, Keeps]
  · simp only [ha, ↓reduceIte, Keeps]
    intro b
    by_cases hb : b.ret = 0 <;> simp [hb, Keeps, Phase.Inside]

theorem addEntry_keeps (uid : Uid) (data : UIDReserveData) :
    Keeps (fun _ ph => ph.Quiet) (reserveDataDBAddEntry uid data) .outside := by
  simp only [reserveDataDBAddEntry, Prog.bind_eq, Prog.pure_eq, readLock_bind, hashFind_bind,
    hashAdd_bind, Keeps]
  refine ⟨trivial, fun e => by simp [e.nonzero, Keeps, Phase.Quiet], ?_⟩
  simp only [ne_eq, not_true_eq_false, ↓reduceIte, Keeps]
  refine ⟨trivial, fun r => ?_⟩
  cases r with
  | some p => exact outUnlock_keeps _
  | none =>
    simp only [keeps_bind]
    apply (reserveRecordCreate_keeps uid data).mono
    intro r ph hph
    subst hph
    cases r with
    | error err => exact outUnlock_keeps _
    | ok p => exact ⟨trivial, fun _ => outUnlock_keeps _⟩

theorem removeEntry_keeps (uid : Uid) :
    Keeps (fun _ ph => ph.Quiet) (reserveDataDBRemoveEntry uid) .outside := by
  simp only [reserveDataDBRemoveEntry, Prog.bind_eq, Prog.pure_eq, readLock_bind, hashFind_bind,
    hashDelete_bind, listAddTail_bind, Keeps]
  refine ⟨trivial, fun e => by simp [e.nonzero, Keeps, Phase.Quiet], ?_⟩
  simp only [ne_eq, not_true_eq_false, ↓reduceIte, Keeps]
  refine ⟨trivial, fun r => ?_⟩
  cases r with
  | none => exact outUnlock_keeps _
  | some p => exact ⟨trivial, fun _ => ⟨trivial, fun _ => outUnlock_keeps _⟩⟩

theorem createReserveAndTap_keeps (p : RecordPtr) (uid : Uid) (root : Int32) :
    Keeps (fun _ ph => ph = .nested p) (createReserveAndTap p uid root) (.nested p) := by
  simp only [createReserveAndTap, Prog.bind_eq, Prog.pure_eq, cinderCreateReserve_bind,
    cinderCreateTap_bind, load_bind, store_bind, cinderTapSetRate_bind, cinderDeleteTap_bind,
    cinderPutReserve_bind, Keeps]
  intro a
  by_cases ha : a.ret < 0
  · simp [ha, Keeps]
  simp only [ha, ↓reduceIte, Keeps]
  intro b
  by_cases hb : b.ret < 0
  · simp [hb, Keeps]
  simp only [hb, ↓reduceIte, Keeps]
  refine ⟨trivial, fun data c => ?_⟩
  by_cases hc : c.ret = 0 <;> simp [hc, Keeps, Phase.Inside]

theorem exposeRecord_keeps (p : RecordPtr) (pid : Pid) :
    Keeps (fun _ ph => ph.Quiet) (exposeRecord p pid) (.nested p) := by
  simp only [exposeRecord, Prog.bind_eq, load_bind, cinderExposeReserve_bind, Keeps]
  refine ⟨trivial, fun data a => ?_⟩
  by_cases ha : a.ret = 0
  · simp only [ha, ne_eq, not_true_eq_false, ↓reduceIte, Keeps]
    exact ⟨trivial, fun _ => recordUnlock_keeps p _⟩
  · simp only [ha, ne_eq, not_false_eq_true, ↓reduceIte]
    exact recordUnlock_keeps p _

theorem statReserve_keeps (uid : Uid) (pid : Pid) :
    Keeps (fun _ ph => ph.Quiet) (statReserve uid pid) .outside := by
  simp only [statReserve, Prog.bind_eq, Prog.pure_eq, cinderGetRootReserveId_bind, readLock_bind,
    lookupEntryLocked_bind, recordLock_bind, load_bind, ne_eq, not_true_eq_false, ↓reduceIte, Keeps]
  intro a
  refine ⟨trivial, fun e => by simp [e.nonzero, Keeps, Phase.Quiet], trivial, fun r => ?_⟩
  cases r with
  | none => exact outUnlock_keeps _
  | some p =>
    refine ⟨rfl, fun e => ?_, ?_⟩
    · simpa [e.nonzero] using outUnlock_keeps _
    simp only [not_true_eq_false, ↓reduceIte, Keeps]
    refine ⟨trivial, fun data => ?_⟩
    cases hc : data.reserveCreated with
    | true => exact exposeRecord_keeps p pid
    | false =>
      simp only [Bool.false_eq_true, ↓reduceIte, keeps_bind]
      apply (createReserveAndTap_keeps p uid a.ret).mono
      intro r ph hph
      subst hph
      cases r with
      | error err => exact recordUnlock_keeps p _
      | ok u => exact exposeRecord_keeps p pid

theorem getTapParams_keeps (uid : Uid) :
    Keeps (fun _ ph => ph.Quiet) (getTapParams uid) .outside := by
  simp only [getTapParams, Prog.bind_eq, Prog.pure_eq, readLock_bind, lookupEntryLocked_bind,
    recordLock_bind, load_bind, ne_eq, not_true_eq_false, ↓reduceIte, Keeps]
  refine ⟨trivial, fun e => by simp [e.nonzero, Keeps, Phase.Quiet], trivial, fun r => ?_⟩
  cases r with
  | none => exact outUnlock_keeps _
  | some p =>
    refine ⟨rfl, fun e => ?_, trivial, fun data => ?_⟩
    · simpa [e.nonzero] using outUnlock_keeps _
    · exact recordUnlock_keeps p _

theorem setTapParams_keeps (uid : Uid) (tapType : UInt64) (tapValue : Int64) :
    Keeps (fun _ ph => ph.Quiet) (setTapParams uid tapType tapValue) .outside := by
  simp only [setTapParams, Prog.bind_eq, Prog.pure_eq, readLock_bind, lookupEntryLocked_bind,
    recordLock_bind, load_bind, store_bind]
  cases hv : validParams tapType tapValue with
  | false => trivial
  | true =>
    simp only [Bool.not_true, Bool.false_eq_true, ↓reduceIte, ne_eq, not_true_eq_false, Keeps]
    refine ⟨trivial, fun e => by simp [e.nonzero, Keeps, Phase.Quiet], trivial, fun r => ?_⟩
    cases r with
    | none => exact outUnlock_keeps _
    | some p =>
      refine ⟨rfl, fun e => ?_, trivial, fun data => ?_⟩
      · simpa [e.nonzero] using outUnlock_keeps _
      dsimp only
      cases hc : data.reserveCreated with
      | false => exact ⟨trivial, fun _ => ⟨trivial, fun _ => recordUnlock_keeps p _⟩⟩
      | true =>
        simp only [↓reduceIte, cinderTapSetRate_bind, Keeps]
        intro a
        by_cases ha : a.ret = 0
        · simp only [ha, not_true_eq_false, ↓reduceIte, Keeps]
          exact ⟨trivial, fun _ => ⟨trivial, fun _ => recordUnlock_keeps p _⟩⟩
        · simpa [ha] using recordUnlock_keeps p _

theorem addReserveParamsForUID_keeps (tmp : UIDReserveData) (uid : Uid) (tapType : UInt64)
    (tapValue : Int64) :
    Keeps (fun _ ph => ph.Quiet) (addReserveParamsForUID tmp uid tapType tapValue) .outside := by
  simp only [addReserveParamsForUID, Prog.bind_eq, Prog.pure_eq]
  cases hv : validParams tapType tapValue with
  | false => trivial
  | true =>
    simp only [Bool.not_true, Bool.false_eq_true, ↓reduceIte, keeps_bind]
    exact addEntry_keeps uid _

theorem operation_balanced : Balanced operation := by
  intro op
  cases op
  all_goals simp only [operation, Prog.bind_eq, Prog.pure_eq, keeps_bind]
  case statReserve uid pid => exact statReserve_keeps uid pid
  case getTapParams uid => exact getTapParams_keeps uid
  case setTapParams uid tapType tapValue => exact setTapParams_keeps uid tapType tapValue
  case addReserveParamsForUID tmp uid tapType tapValue =>
    exact addReserveParamsForUID_keeps tmp uid tapType tapValue
  case removeReserveParamsForUID uid => exact removeEntry_keeps uid
  case reserveDataDBClearUnused => exact clearUnused_keeps

/-- Who may do what in one state of the running daemon. -/
structure Disciplined {τ : Type} (c : Conf sig ReserveDataDatabase τ Op Outcome) : Prop where
  /-- The table, the dead list and the records are accessed under `dbase_lock`. -/
  access : ∀ t act i k, c.threads t = some act → act.prog = .access i k → c.locks.owner = some t
  unlock : ∀ t act k, c.threads t = some act → act.prog = .unlock k → c.locks.owner = some t
  unlockInner : ∀ t act l k, c.threads t = some act → act.prog = .unlockInner l k →
    c.locks.inner l = some t
  /-- A record lock is requested under `dbase_lock`, and only one at a time. -/
  lockInner : ∀ t act l k, c.threads t = some act → act.prog = .lockInner l k →
    c.locks.owner = some t ∧ ∀ l', c.locks.inner l' ≠ some t
  returning : ∀ t act a, c.threads t = some act → act.prog = .ret a →
    c.locks.owner ≠ some t ∧ ∀ l, c.locks.inner l ≠ some t
  released : ∀ f ∈ c.finished, Released f.trace
  /-- While an operation is in progress, some thread is not blocked by a lock. -/
  unblocked : ∀ t act, c.threads t = some act →
    ∃ u act', c.threads u = some act' ∧ Ready c.locks act'.prog

section

variable {τ : Type} [DecidableEq τ] {db : ReserveDataDatabase}
  {c : Conf sig ReserveDataDatabase τ Op Outcome}

theorem Interleaved.disciplined (h : Interleaved operation effect (Conf.start db) c) :
    Disciplined c := by
  have hord := Interleaved.orderly operation_balanced (Orderly.start db) h
  refine ⟨?_, ?_, ?_, ?_, ?_, ?_, ?_⟩
  · intro t act i k ht hp
    exact hord.access_owned ht hp
  · intro t act k ht hp
    exact hord.unlock_owned ht hp
  · intro t act l k ht hp
    exact hord.unlockInner_owned ht hp
  · intro t act l k ht hp
    exact hord.lockInner_owned ht hp
  · intro t act a ht hp
    obtain ⟨ph, _, hk, hh⟩ := hord.active ht
    rw [hp] at hk
    cases ph with
    | outside => exact ⟨fun ho => hh.1.mp ho, fun l hl => nomatch (hh.2 l).mp hl⟩
    | released => exact ⟨fun ho => hh.1.mp ho, fun l hl => nomatch (hh.2 l).mp hl⟩
    | holding => exact hk.elim
    | nested l => exact hk.elim
  · exact Interleaved.finished_released operation_balanced h
  · intro t act ht
    exact hord.progress (fun u hu => hord.owner_active hu) ht

/-- The running daemon: lock discipline in every reachable state, and, once all
operations have returned, the results and the database of a serial execution in
the order in which `dbase_lock` was acquired. Operations that never acquired it
return what they return alone, in any state, and change nothing. -/
theorem daemon_disciplined_serializable
    (h : Interleaved operation effect (Conf.start db) c) :
    Disciplined c ∧
    (∀ t act, c.threads t = some act → ∃ u act' d, c.threads u = some act' ∧
      Ready c.locks act'.prog ∧ Step operation effect c u d) ∧
    ((∀ t, c.threads t = none) → c.order.Nodup ∧ (c.finished.map Finished.inst).Nodup ∧
      (∃ fs : List (Finished sig Op Outcome), fs.map Finished.inst = c.order ∧
        (∀ f ∈ fs, f ∈ c.finished) ∧
        Serial operation effect db (fs.map Finished.toDone) c.shared) ∧
      ∀ f ∈ c.finished, f.inst ∉ c.order → ∀ s, Alone operation effect s f.toDone s) := by
  have hd := Interleaved.disciplined h
  refine ⟨hd, ?_, fun idle => h.serializable operation_balanced idle⟩
  intro t act ht
  obtain ⟨u, act', hu, hready⟩ := hd.unblocked t act ht
  have hstep : ∃ d, Step operation effect c u d := hready.step (fun _ => ⟨0, 0⟩) hu
  obtain ⟨d, hs⟩ := hstep
  exact ⟨u, act', d, hu, hready, hs⟩

end

/-- Two threads whose requests overlap: a STAT that starts first takes the lock after the ADD of
its user, and a SET that starts while the record is locked waits for it. -/
def overlap : List (Bool × Choice sig Op) :=
  [(false, .start (.statReserve 7 10)),
    (true, .start (.addReserveParamsForUID ⟨false, 0, 0, 0, 0⟩ 7 1 5)), (true, .go),
    (false, .answer ⟨0, 0⟩), (true, .go), (true, .answer ⟨1, 0⟩), (true, .answer ⟨0, 0⟩),
    (true, .go), (true, .go), (true, .go), (false, .go), (true, .go), (false, .go), (false, .go),
    (true, .start (.setTapParams 7 2 50)), (false, .go), (false, .answer ⟨5, 0⟩),
    (false, .answer ⟨3, 0⟩), (false, .go), (false, .answer ⟨0, 0⟩), (false, .go), (false, .go),
    (false, .go), (false, .go), (false, .answer ⟨0, 0⟩), (false, .go), (false, .go),
    (false, .go), (true, .go), (false, .go), (true, .go), (true, .go), (true, .go),
    (true, .answer ⟨0, 0⟩), (true, .go), (true, .go), (true, .go), (true, .go), (true, .go)]

theorem overlap_disciplined_serializable : ∃ c : Conf sig ReserveDataDatabase Bool Op Outcome,
    (Conf.start .empty).schedule operation effect overlap = some c ∧ c.order = [1, 0, 2] ∧
    (c.shared.heap 0).data = ⟨true, 5, 3, 2, 50⟩ ∧
    Disciplined c ∧ ∃ fs : List (Finished sig Op Outcome), fs.map Finished.inst = [1, 0, 2] ∧
      Serial operation effect .empty (fs.map Finished.toDone) c.shared := by
  have hrun : ((Conf.start .empty).schedule operation effect overlap).map
      (fun c => (c.order, (c.shared.heap 0).data, (c.threads true).isNone,
        (c.threads false).isNone)) =
      some ([1, 0, 2], ⟨true, 5, 3, 2, 50⟩, true, true) := by decide
  obtain ⟨c, hc, hv⟩ := Option.map_eq_some_iff.mp hrun
  simp only [Prod.mk.injEq, Option.isNone_iff_eq_none] at hv
  obtain ⟨ho, hdata, ht, hf⟩ := hv
  obtain ⟨hd, _, hs⟩ := daemon_disciplined_serializable (Conf.schedule_interleaved hc)
  obtain ⟨_, _, ⟨fs, hmap, _, hserial⟩, _⟩ := hs (by intro t; cases t <;> assumption)
  exact ⟨c, hc, ho, hdata, hd, fs, hmap.trans ho, hserial⟩

end PowerArbiter
