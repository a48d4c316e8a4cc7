import PowerArbiter.Proofs.Storage
import PowerArbiter.Proofs.HashRuns
import PowerArbiter.Proofs.Discipline
import PowerArbiter.Proofs.Addressing

namespace PowerArbiter
open Monitor Memory

variable {alloc : Uthash.Allocator} {s : Storage} {db : ReserveDataDatabase}

/-- Accesses that neither add to the two lists nor take from them. -/
def Access.Light : Access → Prop
  | .hashAdd _ | .hashDelete _ | .listAddTail _ | .recordInit .. => False
  | _ => True

theorem lookupEntryLocked_only (uid : Uid) :
    Prog.Only Access.Light (reserveDataDBLookupEntryLocked uid) :=
  ⟨trivial, fun r => by cases r <;> trivial⟩

theorem load_only (p : RecordPtr) : Prog.Only Access.Light (load p) := ⟨trivial, fun _ => trivial⟩

theorem recordUnlock_only {α : Type} (p : RecordPtr) (r : α) :
    Prog.Only Access.Light (recordUnlock p r) := trivial

theorem createReserveAndTap_only (p : RecordPtr) (uid : Uid) (root : Int32) :
    Prog.Only Access.Light (createReserveAndTap p uid root) := by
  refine Prog.Only.bind (fun _ => trivial) fun reserve => ?_
  split
  · trivial
  refine Prog.Only.bind (fun _ => trivial) fun tap => ?_
  split
  · exact fun _ => trivial
  refine (load_only p).bind fun data => Prog.Only.bind (fun _ => trivial) fun err => ?_
  split
  · exact fun _ _ => trivial
  · exact ⟨trivial, fun _ => ⟨trivial, fun _ => ⟨trivial, fun _ => trivial⟩⟩⟩

theorem exposeRecord_only (p : RecordPtr) (pid : Pid) :
    Prog.Only Access.Light (exposeRecord p pid) := by
  refine (load_only p).bind fun data => Prog.Only.bind (fun _ => trivial) fun err => ?_
  split
  · exact recordUnlock_only p _
  · exact (load_only p).bind fun data => recordUnlock_only p _

theorem statReserve_only (uid : Uid) (pid : Pid) :
    Prog.Only Access.Light (statReserve uid pid) := by
  refine Prog.Only.bind (fun _ => trivial) fun ⟨err, root⟩ => ?_
  dsimp only
  split
  · trivial
  refine Prog.Only.bind (fun _ => trivial) fun err => ?_
  split
  · trivial
  refine (lookupEntryLocked_only uid).bind fun r => ?_
  cases r with
  | error err =>
    dsimp only
    split <;> trivial
  | ok p =>
    refine Prog.Only.bind (fun _ => trivial) fun err => ?_
    split
    · trivial
    refine (load_only p).bind fun data => ?_
    split
    · exact exposeRecord_only p pid
    refine (createReserveAndTap_only p uid root).bind fun r => ?_
    cases r with
    | error err => exact recordUnlock_only p _
    | ok u => exact exposeRecord_only p pid

theorem getTapParams_only (uid : Uid) : Prog.Only Access.Light (getTapParams uid) := by
  refine Prog.Only.bind (fun _ => trivial) fun err => ?_
  split
  · trivial
  refine (lookupEntryLocked_only uid).bind fun r => ?_
  cases r with
  | error err => trivial
  | ok p =>
    refine Prog.Only.bind (fun _ => trivial) fun err => ?_
    split
    · trivial
    · exact (load_only p).bind fun data => recordUnlock_only p _

theorem setTapParams_only (uid : Uid) (tapType : UInt64) (tapValue : Int64) :
    Prog.Only Access.Light (setTapParams uid tapType tapValue) := by
  unfold setTapParams
  split
  · trivial
  refine Prog.Only.bind (fun _ => trivial) fun err => ?_
  split
  · trivial
  refine (lookupEntryLocked_only uid).bind fun r => ?_
  cases r with
  | error err => trivial
  | ok p =>
    refine Prog.Only.bind (fun _ => trivial) fun err => ?_
    split
    · trivial
    have hrest : ∀ err : Int32, Prog.Only Access.Light (do
        if err ≠ 0 then
          recordUnlock p ((err, 0) : Int32 × UInt32)
        else
          store p (.tapType tapType)
          store p (.tapValue tapValue)
          recordUnlock p (0, 0)) := by
      intro err
      split
      · exact recordUnlock_only p _
      · exact ⟨trivial, fun _ => ⟨trivial, fun _ => recordUnlock_only p _⟩⟩
    refine (load_only p).bind fun data => ?_
    dsimp only
    split
    · exact Prog.Only.bind (fun _ => trivial) hrest
    · exact Prog.Only.bind trivial hrest

theorem reserveRecordDestroy_only (p : RecordPtr) :
    Prog.Only Access.Light (reserveRecordDestroy p) := by
  refine ⟨trivial, fun _ => (load_only p).bind fun data => ?_⟩
  split
  · exact fun _ => trivial
  · trivial

theorem clearUnusedEntry_only (err : Int32) (p : RecordPtr) :
    Prog.Only Access.Light (clearUnusedEntry err p) := by
  refine (load_only p).bind fun data => ?_
  split
  · exact (reserveRecordDestroy_only p).bind fun _ => trivial
  refine Prog.Only.bind (p := cinderGetNumReserveUsers data.reserveId) ?_ fun r => ?_
  · refine Prog.Only.bind (fun _ => trivial) fun answer => ?_
    split <;> trivial
  cases r with
  | error err => trivial
  | ok n =>
    dsimp only
    split
    · exact (reserveRecordDestroy_only p).bind fun _ => trivial
    · trivial

theorem clearUnusedLoop_only (err : Int32) (ps : List RecordPtr) :
    Prog.Only Access.Light (clearUnusedLoop err ps) := by
  induction ps generalizing err with
  | nil => trivial
  | cons p ps ih => exact (clearUnusedEntry_only err p).bind ih

theorem clearUnused_only : Prog.Only Access.Light reserveDataDBClearUnused := by
  refine Prog.Only.bind (fun _ => trivial) fun err => ?_
  split
  · trivial
  refine ⟨trivial, fun ps => (clearUnusedLoop_only err ps).bind fun err => ?_⟩
  exact ⟨trivial, fun _ => trivial⟩

section Confine

variable {α : Type}

/-- No two records in the table have one key. -/
def Keys (db : ReserveDataDatabase) : Prop :=
  ∀ p ∈ db.data, ∀ q ∈ db.data, (db.heap p).uid = (db.heap q).uid → p = q

theorem Keys.find (h : Keys db) (uid : Uid) : Safe db (.hashFind uid) :=
  fun p hp q hq hpu hqu => h p hp q hq (hpu.trans hqu.symm)

theorem Access.Light.safe {i : Access} (hi : i.Light) (h : Keys db) :
    Safe db i ∧ Keys (effect i db).2 := by
  cases i with
  | hashFind uid => exact ⟨h.find uid, h⟩
  | store p field =>
    refine ⟨trivial, fun q hq r hr => ?_⟩
    simp only [effect, heap_modify_uid]
    exact h q hq r hr
  | hashAdd _ | hashDelete _ | listAddTail _ | recordInit _ _ => exact hi.elim
  | _ => exact ⟨trivial, h⟩

theorem light_safe {p : Program α} (hp : Prog.Only Access.Light p) (h : WellFormed db) :
    p.Within effect Safe (fun _ _ => True) db :=
  (hp.within (fun _ _ => Access.Light.safe) h.keys).mono fun _ _ _ => trivial

theorem reserveDataDBAddEntry_safe (hw : WellFormed db) (uid : Uid) (data : UIDReserveData) :
    (reserveDataDBAddEntry uid data).Within effect Safe (fun _ _ => True) db := by
  simp only [reserveDataDBAddEntry, reserveRecordCreate, Prog.bind_eq, Prog.pure_eq, readLock_bind,
    hashFind_bind, hashAdd_bind, request_bind, recordInit_bind, Prog.Within]
  intro r
  cases r with
  | some e => simp [e.nonzero, Prog.Within]
  | none =>
    simp only [ne_eq, not_true_eq_false, ↓reduceIte, Prog.Within, effect]
    refine ⟨Keys.find hw.keys uid, ?_⟩
    cases hf : db.find uid with
    | some p => exact trivial
    | none =>
      simp only [Prog.bind, Prog.Within]
      intro a
      by_cases ha : a.ret = 0
      · simp only [ha, ↓reduceIte]
        exact trivial
      · simp only [ha, ↓reduceIte, Prog.bind, Prog.Within]
        intro b
        by_cases hb : b.ret = 0
        · have hnew : Safe (db.allocate ⟨data, uid⟩) (.hashAdd db.next) :=
            ⟨fun hm => Nat.lt_irrefl _ ((hw.placed _).mpr (.inl hm)), Nat.lt_succ_self _⟩
          simp only [hb, not_true_eq_false, ↓reduceIte, Prog.bind, Prog.Within, effect]
          exact ⟨trivial, hnew, trivial⟩
        · simp only [hb, not_false_eq_true, ↓reduceIte]
          exact trivial

theorem reserveDataDBRemoveEntry_safe (hw : WellFormed db) (uid : Uid) :
    (reserveDataDBRemoveEntry uid).Within effect Safe (fun _ _ => True) db := by
  simp only [reserveDataDBRemoveEntry, Prog.bind_eq, Prog.pure_eq, readLock_bind, hashFind_bind,
    hashDelete_bind, listAddTail_bind, Prog.Within]
  intro r
  cases r with
  | some e => simp [e.nonzero, Prog.Within]
  | none =>
    simp only [ne_eq, not_true_eq_false, ↓reduceIte, Prog.Within, effect]
    refine ⟨Keys.find hw.keys uid, ?_⟩
    cases hf : db.find uid with
    | none => exact trivial
    | some p =>
      have hp := (find_mem hf).1
      exact ⟨hp, ⟨hw.apart p hp, (hw.placed p).mpr (.inl hp)⟩, trivial⟩

/-- No operation gives the code of its accesses anything that it cannot handle. -/
theorem operation_confined : Confined effect Safe WellFormed operation := by
  intro op db hw
  refine Prog.Within.of_runs ?_ fun es r db' hr => hw.change (operation_runs hr).change
  cases op with
  | statReserve uid pid => exact light_safe ((statReserve_only uid pid).bind fun _ => trivial) hw
  | getTapParams uid => exact light_safe ((getTapParams_only uid).bind fun _ => trivial) hw
  | setTapParams uid tapType tapValue =>
    exact light_safe ((setTapParams_only uid tapType tapValue).bind fun _ => trivial) hw
  | addReserveParamsForUID tmp uid tapType tapValue =>
    simp only [operation, addReserveParamsForUID, Prog.bind_eq, Prog.pure_eq]
    cases hv : validParams tapType tapValue with
    | false => exact trivial
    | true =>
      simp only [Bool.not_true, Bool.false_eq_true, ↓reduceIte, Prog.within_bind]
      exact (reserveDataDBAddEntry_safe hw uid _).mono fun _ _ _ => trivial
  | removeReserveParamsForUID uid =>
    simp only [operation, removeReserveParamsForUID, Prog.bind_eq, Prog.pure_eq,
      Prog.within_bind]
    exact (reserveDataDBRemoveEntry_safe hw uid).mono fun _ _ _ => trivial
  | reserveDataDBClearUnused => exact light_safe (clearUnused_only.bind fun _ => trivial) hw

/-- The table is emptied onto the dead list from under the loop over it, and gives back its
memory with its last record. -/
theorem emptyStorage_spec (h : Represents alloc s db) (hapart : ∀ p ∈ db.data, p ∉ db.deadList) :
    Meets Never emptyStorage s (fun _ s' =>
      Represents alloc s' { db with data := [], deadList := db.deadList ++ db.data }) := by
  simp only [emptyStorage, meets_bind, meets_get]
  refine (Uthash.meets_hashIter (I := fun rest _ s' =>
      ∃ moved, db.data = moved ++ rest ∧
        Represents alloc s' { db with data := rest, deadList := db.deadList ++ moved })
    ?_ ?_ ⟨[], rfl, by simpa using h⟩ h.data_length h.table.head).mono ?_
  · rintro p rest _ t ⟨moved, -, ht⟩
    exact ht.table.next [] rfl
  · rintro p rest _ t ⟨moved, hsplit, ht⟩
    have hnd : (moved ++ p :: rest).Nodup := hsplit ▸ h.data_nodup
    have hdead : p ∉ db.deadList := hapart p (hsplit ▸ by simp)
    have hmoved : p ∉ moved := fun hm =>
      (List.nodup_append.mp hnd).2.2 p hm p List.mem_cons_self rfl
    have hnew : Link.deadLink p ∉ .deadList :: (db.deadList ++ moved).map .deadLink := by
      simp [hdead, hmoved]
    simp only [meets_bind, meets_zoom]
    refine (ht.table.delete List.mem_cons_self).mono fun _ u hu => ?_
    refine (Lists.listAddTail_spec ht.links hnew).mono fun _ l hl => ?_
    refine ⟨moved ++ [p], by simpa using hsplit, ?_, ?_, ht.heap, ht.next, ht.destroyed, ht.ended,
      fun q hq => ht.below q ?_⟩
    · have hrest : (p :: rest).erase p = rest := List.erase_cons_head _ _
      rw [hrest] at hu
      exact hu
    · simpa [Storage.linksPart, List.append_assoc] using hl.1
    · simp only [List.mem_append, List.mem_cons] at hq ⊢
      tauto
  · rintro _ t ⟨moved, hsplit, ht⟩
    rw [List.append_nil] at hsplit
    exact hsplit ▸ ht

theorem emptyLoop_done (db : ReserveDataDatabase) {ps : List RecordPtr} (h : db.data = ps) :
    (emptyLoop ps).Runs effect db [] () { db with data := [], deadList := db.deadList ++ ps } := by
  induction ps generalizing db with
  | nil =>
    obtain ⟨data, deadList, heap, next, destroyed⟩ := db
    subst h
    simp [emptyLoop]
  | cons p ps ih =>
    simp only [emptyLoop, Prog.bind_eq, hashDelete_bind, listAddTail_bind, Prog.runs_access, effect]
    have := ih { db with data := db.data.erase p, deadList := db.deadList ++ [p] }
      (by simp [h])
    simpa using this

end Confine

section Daemon

variable {τ : Type} [DecidableEq τ] {c : Conf sig Storage τ Op Outcome}

/-- The database of the running daemon, in any interleaving of its threads. -/
theorem interleaved_represents (h : Represents alloc s .empty)
    (hr : Interleaved operation (storage alloc) (Conf.start s) c)
    (hsize : c.shared.next < UInt32.size) : c.shared.ended = some .exited ∨
      ∃ db, Interleaved operation effect (Conf.start .empty) (c.withShared db) ∧
        Represents alloc c.shared db := by
  rcases hr.simulated (storage_implements alloc) operation_balanced operation_confined h .empty with
    (hexit | hfull) | hdb
  · exact .inl hexit
  · exact absurd hsize (Nat.not_lt.mpr hfull)
  · exact .inr hdb

/-- Whatever its threads do in whatever order, the daemon never follows a pointer that leads
nowhere, never divides by zero and never loops in its hash table and its lists, and as long as
it has the memory it needs, these hold the database of the same interleaving over lists of
records. What later records contain when they are allocated does not matter. -/
theorem daemon_memory_safe {s₀ : Storage} (hblank : s.Blank)
    (hcreate : createEmptyStorage s = .ok () s₀)
    (hr : Interleaved operation (storage alloc) (Conf.start s₀) c)
    (hsize : c.shared.next < UInt32.size) :
    c.shared.ended = some .exited ∨ (c.shared.ended = none ∧
      ∃ db, Interleaved operation effect (Conf.start .empty) (c.withShared db) ∧
        Represents alloc c.shared db) := by
  have hinit := createEmptyStorage_spec alloc hblank
  rw [Meets, hcreate] at hinit
  rcases interleaved_represents hinit hr hsize with hexit | ⟨db, hdb, hrep⟩
  · exact .inl hexit
  · exact .inr ⟨hrep.ended, db, hdb, hrep⟩

/-- Once every operation has returned, those that acquired the lock have had, in the order in
which they did, the results that they have one after the other on lists of records, and on the
map of users to rates, of which the memory holds the end; and none is before one that had
acquired the lock when it started. -/
theorem memory_linearizable {s₀ : Storage} (hblank : s.Blank)
    (hcreate : createEmptyStorage s = .ok () s₀)
    (hr : Interleaved operation (storage alloc) (Conf.start s₀) c)
    (idle : ∀ t, c.threads t = none) (hsize : c.shared.next < UInt32.size)
    (hended : c.shared.ended = none) :
    ∃ (fs : List (Finished sig Op Outcome)) (db : ReserveDataDatabase),
      fs.map Finished.inst = c.order ∧ (∀ f ∈ fs, f ∈ c.finished) ∧
      Represents alloc c.shared db ∧
      Serial operation effect .empty (fs.map Finished.toDone) db ∧
      ((∀ f ∈ fs, ∀ e ∈ f.trace, ¬Refused e) →
        Mapping.empty.run (fs.map fun f => (f.op, kernelCalls f.trace)) =
          some (fs.map fun f => f.result, db.abstract)) ∧
      ∀ d, Interleaved operation (storage alloc) (Conf.start s₀) d →
        Interleaved operation (storage alloc) d c →
        ∀ i ∈ d.order, ∀ j ∈ c.order, d.next ≤ j →
          ∃ before after, c.order = before ++ after ∧ i ∈ before ∧ j ∈ after := by
  have hinit := createEmptyStorage_spec alloc hblank
  rw [Meets, hcreate] at hinit
  rcases interleaved_represents hinit hr hsize with hexit | ⟨db, hdb, hrep⟩
  · rw [hended] at hexit
    cases hexit
  obtain ⟨-, -, ⟨fs, hinst, hmem, hserial⟩, -⟩ := hdb.serializable operation_balanced idle
  refine ⟨fs, db, hinst, hmem, hrep, hserial, fun hs => ?_, fun d hd hdc i hi j hj hstart =>
    hd.order_precedes operation_balanced hdc hi hj hstart⟩
  have hrun := Serial.refines .empty hserial (by simpa using hs)
  rw [List.map_map, List.map_map] at hrun
  exact hrun

/-- When its operations are done the daemon can empty its table. That gives back all that the
table has allocated, and leaves every record that was ever made on the dead list, once. -/
theorem emptied_memory {s₀ : Storage} (hblank : s.Blank)
    (hcreate : createEmptyStorage s = .ok () s₀)
    (hr : Interleaved operation (storage alloc) (Conf.start s₀) c)
    (idle : ∀ t, c.threads t = none) (hsize : c.shared.next < UInt32.size)
    (hended : c.shared.ended = none) :
    Meets Never emptyStorage c.shared fun _ s' =>
      s'.table.head = none ∧ (∀ a, s'.table.tables a = none) ∧ (∀ a, s'.table.arrays a = none) ∧
      ∃ db db', Interleaved operation effect (Conf.start .empty) (c.withShared db) ∧
        reserveDataDBEmpty.Runs effect db [] 0 db' ∧ Represents alloc s' db' ∧
        db'.deadList.Perm (List.range c.shared.next) := by
  have hinit := createEmptyStorage_spec alloc hblank
  rw [Meets, hcreate] at hinit
  rcases interleaved_represents hinit hr hsize with hexit | ⟨db, hdb, hrep⟩
  · rw [hended] at hexit
    cases hexit
  have hw : WellFormed db := by
    refine (hdb.watched operation_balanced operation_confined .empty).free ?_
    cases ho : c.locks.owner with
    | none => exact ho
    | some t =>
      have horderly := Interleaved.orderly operation_balanced (Orderly.start _) hdb
      obtain ⟨act, ht⟩ := horderly.owner_active (t := t) ho
      rw [Conf.withShared, idle t] at ht
      cases ht
  refine (emptyStorage_spec hrep hw.apart).mono fun _ s' h => ?_
  cases h.table with
  | filled nonempty => exact absurd rfl nonempty
  | empty head tables arrays =>
    refine ⟨head, congrFun tables, congrFun arrays, db, _, hdb, ?_, h, ?_⟩
    · simp only [reserveDataDBEmpty, Prog.bind_eq, hashEntries_bind, Prog.runs_access, effect]
      rw [Prog.runs_bind (S := sig)]
      exact ⟨(), _, [], [], rfl, emptyLoop_done db rfl, Prog.runs_ret.mpr ⟨rfl, rfl, rfl⟩⟩
    · rw [hrep.next]
      refine (List.perm_ext_iff_of_nodup ?_ List.nodup_range).mpr fun p => ?_
      · exact List.nodup_append.mpr ⟨hw.dead, hw.data, fun p hp q hq he => hw.apart q hq (he ▸ hp)⟩
      · rw [List.mem_range, hw.placed, List.mem_append, or_comm]

end Daemon

/-- Memory that is full of null pointers. -/
def Storage.zero : Storage where
  table :=
    ⟨none, fun _ => ⟨none, none, none, none, none, none, 0, 0⟩, fun _ => none, fun _ => none, 0⟩
  links _ := ⟨none, none⟩
  heap := ReserveDataDatabase.empty.heap
  next := 0
  destroyed := []
  ended := none

def startStorage : Storage :=
  match createEmptyStorage .zero with
  | .ok _ s => s
  | .error _ s => s

/-- A STAT that begins before the ADD of its user and takes the lock after it; another ADD that
waits for it to end, and a REMOVE that waits for that one. -/
def addRemove : List (Bool × Choice sig Op) :=
  [(false, .start (.statReserve 7 10)),
    (true, .start (.addReserveParamsForUID ⟨false, 0, 0, 0, 0⟩ 7 1 5)), (true, .go),
    (false, .answer ⟨0, 0⟩), (true, .go), (true, .answer ⟨1, 0⟩), (true, .answer ⟨0, 0⟩),
    (true, .go), (true, .go), (true, .go), (false, .go), (true, .go), (false, .go),
    (true, .start (.addReserveParamsForUID ⟨false, 0, 0, 0, 0⟩ 8 2 50)), (false, .go),
    (false, .go), (false, .answer ⟨5, 0⟩), (false, .answer ⟨3, 0⟩), (false, .go),
    (false, .answer ⟨0, 0⟩), (false, .go), (false, .go), (false, .go), (false, .go),
    (false, .answer ⟨0, 0⟩), (false, .go), (false, .go), (false, .go), (true, .go),
    (false, .go), (false, .start (.removeReserveParamsForUID 7)), (true, .go),
    (true, .answer ⟨1, 0⟩), (true, .answer ⟨0, 0⟩), (true, .go), (true, .go), (true, .go),
    (false, .go), (true, .go), (false, .go), (false, .go), (false, .go), (false, .go),
    (false, .go)]

/-- What becomes of the four operations. -/
def addRemoveOutcome : Nat → Outcome
  | 0 => .stat ⟨0, some (5, PA_RESERVE_GRANTED)⟩
  | 3 => .remove 0
  | _ => .add 0 0

instance : DecidablePred Refused
  | .lock (some _) | .lockInner _ (some _) => .isTrue trivial
  | .lock none | .lockInner _ none | .unlock | .unlockInner _ => .isFalse id
  | .call .malloc a => inferInstanceAs (Decidable (a.ret = 0))
  | .call .mutexInit a => inferInstanceAs (Decidable (a.ret ≠ 0))
  | .call (.createReserve ..) _ | .call (.createTap ..) _ | .call (.setTapRate ..) _
  | .call (.putReserve _) _ | .call (.deleteTap _) _ | .call (.exposeReserve ..) _
  | .call .rootReserveId _ | .call (.reserveInfo _) _ => .isFalse id

theorem addRemove_runs : ∃ c : Conf sig Storage Bool Op Outcome,
    Interleaved operation (storage Uthash.generous) (Conf.start startStorage) c ∧
    c.order = [1, 0, 2, 3] ∧ c.shared.next = 2 ∧ c.shared.ended = none ∧
    c.shared.table.head = some 1 ∧ (∀ t, c.threads t = none) ∧
    ∀ f ∈ c.finished, f.result = addRemoveOutcome f.inst ∧ ∀ e ∈ f.trace, ¬Refused e := by
  have hrun : ((Conf.start startStorage).schedule operation (storage Uthash.generous) addRemove).map
      (fun c => (c.order, c.shared.ended, c.shared.table.head,
        c.shared.next = 2 && (c.threads true).isNone && (c.threads false).isNone &&
          c.finished.all fun f => f.result = addRemoveOutcome f.inst &&
            f.trace.all fun e => !decide (Refused e))) =
      some ([1, 0, 2, 3], none, some 1, true) := by decide +kernel
  obtain ⟨c, hc, hv⟩ := Option.map_eq_some_iff.mp hrun
  simp only [Prod.mk.injEq, Bool.and_eq_true, decide_eq_true_eq, Option.isNone_iff_eq_none,
    List.all_eq_true, Bool.not_eq_true', decide_eq_false_iff_not] at hv
  obtain ⟨ho, he, hh, ⟨⟨hn, ht⟩, hf⟩, hgranted⟩ := hv
  refine ⟨c, Conf.schedule_interleaved hc, ho, hn, he, hh, ?_, hgranted⟩
  intro t
  cases t with
  | true => exact ht
  | false => exact hf

theorem addRemove_memory_safe : ∃ (c : Conf sig Storage Bool Op Outcome)
    (db : ReserveDataDatabase), c.order = [1, 0, 2, 3] ∧ c.shared.table.head = some 1 ∧
    Represents Uthash.generous c.shared db := by
  obtain ⟨c, hc, ho, hn, he, hh, -⟩ := addRemove_runs
  rcases daemon_memory_safe (s := .zero) ⟨rfl, rfl, rfl, rfl, rfl, rfl⟩ rfl hc
    (by rw [hn]; decide) with hexit | ⟨-, db, -, hrep⟩
  · rw [he] at hexit
    cases hexit
  · exact ⟨c, db, ho, hh, hrep⟩

theorem addRemove_linearizable : ∃ (c : Conf sig Storage Bool Op Outcome)
    (fs : List (Finished sig Op Outcome)) (db : ReserveDataDatabase),
    fs.map Finished.inst = [1, 0, 2, 3] ∧ Represents Uthash.generous c.shared db ∧
    Serial operation effect .empty (fs.map Finished.toDone) db ∧
    Mapping.empty.run (fs.map fun f => (f.op, kernelCalls f.trace)) =
      some ([.add 0 0, .stat ⟨0, some (5, PA_RESERVE_GRANTED)⟩, .add 0 0, .remove 0],
        db.abstract) := by
  obtain ⟨c, hc, ho, hn, he, hh, hidle, hfinished⟩ := addRemove_runs
  obtain ⟨fs, db, hinst, hmem, hrep, hserial, hrun, -⟩ := memory_linearizable (s := .zero)
    ⟨rfl, rfl, rfl, rfl, rfl, rfl⟩ rfl hc hidle (by rw [hn]; decide) he
  have hresults : fs.map (fun f => f.result) = (fs.map Finished.inst).map addRemoveOutcome := by
    rw [List.map_map]
    exact List.map_congr_left fun f hf => (hfinished f (hmem f hf)).1
  rw [hinst, ho] at hresults
  have hmap := hrun fun f hf => (hfinished f (hmem f hf)).2
  rw [hresults] at hmap
  exact ⟨c, fs, db, hinst.trans ho, hrep, hserial, hmap⟩

theorem addRemove_emptied : ∃ c : Conf sig Storage Bool Op Outcome, c.order = [1, 0, 2, 3] ∧
    Meets Never emptyStorage c.shared fun _ s' => s'.table.head = none ∧
      (∀ a, s'.table.tables a = none) ∧
      ∃ db', Represents Uthash.generous s' db' ∧ db'.deadList.Perm [0, 1] := by
  obtain ⟨c, hc, ho, hn, he, hh, hidle, -⟩ := addRemove_runs
  refine ⟨c, ho, (emptied_memory (s := .zero) ⟨rfl, rfl, rfl, rfl, rfl, rfl⟩ rfl hc hidle
    (by rw [hn]; decide) he).mono fun _ s' h => ?_⟩
  obtain ⟨hhead, htables, -, db, db', -, -, hrep, hperm⟩ := h
  rw [hn] at hperm
  exact ⟨hhead, htables, db', hrep, hperm⟩

end PowerArbiter
