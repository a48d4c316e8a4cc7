import PowerArbiter.Monitor.Footprint
import PowerArbiter.Proofs.Grants
import PowerArbiter.Proofs.Lifecycle

namespace PowerArbiter
open Monitor

/-- The records that an access reads, changes, creates or removes, each with its key. -/
def Access.concerns : Access → ReserveDataDatabase → List (RecordPtr × Uid)
  | .hashFind uid, db => (db.find uid).toList.map fun p => (p, (db.heap p).uid)
  | .hashEntries, db => db.data.map fun p => (p, (db.heap p).uid)
  | .listEntries, db => db.deadList.map fun p => (p, (db.heap p).uid)
  | .listEmpty, _ => []
  | .recordInit uid _, db => [(db.next, uid)]
  | .hashAdd p, db | .hashDelete p, db | .listAddTail p, db | .load p, db | .store p _, db
  | .mutexDestroy p, db => [(p, (db.heap p).uid)]

def Access.inits : Access → Bool
  | .recordInit .. => true
  | _ => false

/-- The UID in the message. -/
def Query.uid : Query → UInt64
  | .stat q => q.uid
  | .get q => q.uid
  | .set q => q.uid
  | .add q => q.uid
  | .remove q => q.uid

/-- Whether the request gets as far as a record: its parameters are valid, and unless it
creates one there is one under the truncated UID. -/
def Query.addresses (db : ReserveDataDatabase) : Query → Bool
  | .add q => validParams q.tapType q.tapValue
  | .set q => validParams q.tapType q.tapValue && (db.find q.uid.toUInt32).isSome
  | .stat q => (db.find q.uid.toUInt32).isSome
  | .get q => (db.find q.uid.toUInt32).isSome
  | .remove q => (db.find q.uid.toUInt32).isSome

/-- An access to records with this key only. -/
def Own (uid : Uid) (can : Bool) (db : ReserveDataDatabase) (i : Access) : Prop :=
  ∀ x ∈ i.concerns db, x.2 = uid ∧ can = true ∧ (x.1 < db.next ∨ i.inits = true)

/-- A record that exists, and has this key. -/
def Keyed (uid : Uid) (p : RecordPtr) (db : ReserveDataDatabase) : Prop :=
  p < db.next ∧ (db.heap p).uid = uid

variable {db db' : ReserveDataDatabase} {uid : Uid} {p : RecordPtr}

/-- Records keep their keys. -/
theorem Keyed.effect (h : Keyed uid p db) (i : Access) : Keyed uid p (effect i db).2 := by
  obtain ⟨hp, hu⟩ := h
  cases i with
  | recordInit uid' data =>
    refine ⟨Nat.lt_succ_of_lt hp, ?_⟩
    simp only [PowerArbiter.effect]
    rw [heap_allocate_of_lt _ hp, hu]
  | store q field => exact ⟨hp, (heap_modify_uid _ _ _).trans hu⟩
  | _ => exact ⟨hp, hu⟩

theorem Keyed.change (h : Keyed uid p db) (hc : Change db db') : Keyed uid p db' := by
  refine ⟨?_, (hc.uid_kept h.1).trans h.2⟩
  exact Nat.lt_of_lt_of_le h.1 hc.kept.1

theorem WellFormed.keyed (h : WellFormed db) (hf : db.find uid = some p) : Keyed uid p db := by
  obtain ⟨hp, hu⟩ := find_mem hf
  exact ⟨(h.placed p).mpr (.inl hp), hu⟩

theorem own_find (h : WellFormed db) {can : Bool} (hc : (db.find uid).isSome = true → can = true) :
    Own uid can db (.hashFind uid) := by
  intro x hx
  cases hf : db.find uid with
  | none => simp [Access.concerns, hf] at hx
  | some p =>
    obtain ⟨hp, hu⟩ := h.keyed hf
    simp only [Access.concerns, hf, Option.toList_some, List.map_cons, List.map_nil,
      List.mem_singleton] at hx
    subst hx
    exact ⟨hu, hc (by simp [hf]), .inl hp⟩

theorem Keyed.own (h : Keyed uid p db) {can : Bool} (hc : can = true) {i : Access}
    (hi : i.concerns db = [(p, (db.heap p).uid)]) : Own uid can db i := by
  intro x hx
  rw [hi, List.mem_singleton] at hx
  subst hx
  exact ⟨h.2, hc, .inl h.1⟩

section Within

variable {α : Type} {can : Bool}

/-- What is known once a record was found and the operation goes on with it. -/
abbrev OnRecord (uid : Uid) (can : Bool) (p : RecordPtr) (prog : Program α)
    (db : ReserveDataDatabase) : Prop :=
  prog.Within effect (Own uid can) (fun _ t => Keyed uid p t) db

theorem exposeRecord_within (hc : can = true) (h : Keyed uid p db) (pid : Pid) :
    OnRecord uid can p (exposeRecord p pid) db := by
  simp only [OnRecord, exposeRecord, Prog.bind_eq, load_bind, cinderExposeReserve_bind, Prog.Within]
  refine ⟨h.own hc rfl, fun a => ?_⟩
  by_cases ha : a.ret = 0
  · simp only [ha, ne_eq, not_true_eq_false, ↓reduceIte, Prog.Within]
    exact ⟨h.own hc rfl, h⟩
  · simp only [ha, ne_eq, not_false_eq_true, ↓reduceIte]
    exact h

theorem createReserveAndTap_within (hc : can = true) (h : Keyed uid p db) (root : Int32) :
    OnRecord uid can p (createReserveAndTap p uid root) db := by
  have hstore : ∀ {t} (field : Field), Keyed uid p t → Keyed uid p (effect (.store p field) t).2 :=
    fun field ht => ht.effect (.store p field)
  simp only [OnRecord, createReserveAndTap, Prog.bind_eq, Prog.pure_eq, cinderCreateReserve_bind,
    cinderCreateTap_bind, load_bind, store_bind, cinderTapSetRate_bind, cinderDeleteTap_bind,
    cinderPutReserve_bind, Prog.Within]
  intro a
  by_cases ha : a.ret < 0
  · simpa only [ha, ↓reduceIte, Prog.Within] using h
  simp only [ha, ↓reduceIte, Prog.Within]
  intro b
  by_cases hb : b.ret < 0
  · simpa only [hb, ↓reduceIte, Prog.Within] using fun _ => h
  simp only [hb, ↓reduceIte, Prog.Within]
  refine ⟨h.own hc rfl, fun c => ?_⟩
  by_cases hr : c.ret = 0
  · simp only [hr, ne_eq, not_true_eq_false, ↓reduceIte, Prog.Within]
    have h₁ := hstore (.reserveCreated true) h
    have h₂ := hstore (.reserveId a.ret) h₁
    exact ⟨h.own hc rfl, h₁.own hc rfl, h₂.own hc rfl, hstore (.tapId b.ret) h₂⟩
  · simp only [hr, ne_eq, not_false_eq_true, ↓reduceIte, Prog.Within]
    exact fun _ _ => h

theorem statReserve_within (hw : WellFormed db) (pid : Pid) (uid : Uid) :
    (statReserve uid pid).Within effect (Own uid (db.find uid).isSome) (fun _ _ => True) db := by
  simp only [statReserve, Prog.bind_eq, Prog.pure_eq, cinderGetRootReserveId_bind, readLock_bind,
    lookupEntryLocked_bind, recordLock_bind, load_bind, ne_eq, not_true_eq_false, ↓reduceIte,
    Prog.Within]
  intro a r
  cases r with
  | some e => simp [e.nonzero, Prog.Within]
  | none =>
    simp only [not_true_eq_false, ↓reduceIte, Prog.Within, effect]
    refine ⟨own_find hw id, ?_⟩
    cases hf : db.find uid with
    | none => exact trivial
    | some p =>
      have hk := hw.keyed hf
      intro r
      cases r with
      | some e =>
        simp only [e.nonzero, not_false_eq_true, ↓reduceIte]
        exact trivial
      | none =>
        simp only [not_true_eq_false, ↓reduceIte, Prog.Within, effect]
        refine ⟨hk.own rfl rfl, ?_⟩
        by_cases hc : (db.heap p).data.reserveCreated = true
        · simp only [hc, ↓reduceIte]
          exact (exposeRecord_within rfl hk pid).mono fun _ _ _ => trivial
        · simp only [hc, Bool.false_eq_true, ↓reduceIte, Prog.within_bind]
          refine (createReserveAndTap_within rfl hk a.ret).mono fun x t ht => ?_
          cases x with
          | error err => exact trivial
          | ok u => exact (exposeRecord_within rfl ht pid).mono fun _ _ _ => trivial

theorem getTapParams_within (hw : WellFormed db) (uid : Uid) :
    (getTapParams uid).Within effect (Own uid (db.find uid).isSome) (fun _ _ => True) db := by
  simp only [getTapParams, Prog.bind_eq, Prog.pure_eq, readLock_bind, lookupEntryLocked_bind,
    recordLock_bind, load_bind, Prog.Within]
  intro r
  cases r with
  | some e => simp [e.nonzero, Prog.Within]
  | none =>
    simp only [ne_eq, not_true_eq_false, ↓reduceIte, Prog.Within, effect]
    refine ⟨own_find hw id, ?_⟩
    cases hf : db.find uid with
    | none => exact trivial
    | some p =>
      intro r
      cases r with
      | some e =>
        simp only [e.nonzero, not_false_eq_true, ↓reduceIte]
        exact trivial
      | none =>
        simp only [not_true_eq_false, ↓reduceIte, Prog.Within, effect]
        exact ⟨(hw.keyed hf).own rfl rfl, trivial⟩

theorem setTapParams_within (hw : WellFormed db) (uid : Uid) (tapType : UInt64)
    (tapValue : Int64) : (setTapParams uid tapType tapValue).Within effect
      (Own uid (validParams tapType tapValue && (db.find uid).isSome)) (fun _ _ => True) db := by
  simp only [setTapParams, Prog.bind_eq, Prog.pure_eq, readLock_bind, lookupEntryLocked_bind,
    recordLock_bind, load_bind, store_bind]
  cases hv : validParams tapType tapValue with
  | false => exact trivial
  | true =>
    simp only [Bool.not_true, Bool.false_eq_true, ↓reduceIte, Bool.true_and, Prog.Within]
    intro r
    cases r with
    | some e => simp [e.nonzero, Prog.Within]
    | none =>
      simp only [ne_eq, not_true_eq_false, ↓reduceIte, Prog.Within, effect]
      refine ⟨own_find hw id, ?_⟩
      cases hf : db.find uid with
      | none => exact trivial
      | some p =>
        have hk := hw.keyed hf
        have h₁ := hk.effect (.store p (.tapType tapType))
        intro r
        cases r with
        | some e =>
          simp only [e.nonzero, not_false_eq_true, ↓reduceIte]
          exact trivial
        | none =>
          simp only [not_true_eq_false, ↓reduceIte, Prog.Within, effect]
          refine ⟨hk.own rfl rfl, ?_⟩
          by_cases hc : (db.heap p).data.reserveCreated = true
          · simp only [hc, ↓reduceIte, cinderTapSetRate_bind, Prog.Within]
            intro a
            by_cases ha : a.ret = 0
            · simp only [ha, not_true_eq_false, ↓reduceIte, Prog.Within]
              exact ⟨hk.own rfl rfl, h₁.own rfl rfl, trivial⟩
            · simp only [ha, not_false_eq_true, ↓reduceIte]
              exact trivial
          · simp only [hc, Bool.false_eq_true, ↓reduceIte, Prog.ret_bind, not_true_eq_false,
              Prog.Within]
            exact ⟨hk.own rfl rfl, h₁.own rfl rfl, trivial⟩

theorem reserveDataDBAddEntry_within (hw : WellFormed db) (uid : Uid) (data : UIDReserveData) :
    (reserveDataDBAddEntry uid data).Within effect (Own uid true) (fun _ _ => True) db := by
  simp only [reserveDataDBAddEntry, reserveRecordCreate, Prog.bind_eq, Prog.pure_eq, readLock_bind,
    hashFind_bind, hashAdd_bind, request_bind, recordInit_bind, Prog.Within]
  intro r
  cases r with
  | some e => simp [e.nonzero, Prog.Within]
  | none =>
    simp only [ne_eq, not_true_eq_false, ↓reduceIte, Prog.Within, effect]
    refine ⟨own_find hw fun _ => rfl, ?_⟩
    cases hf : db.find uid with
    | some p => exact trivial
    | none =>
      simp only [Prog.bind, Prog.Within]
      intro a
      by_cases ha : a.ret = 0
      · simp only [ha, ↓reduceIte]
        exact trivial
      · simp only [ha, ↓reduceIte, Prog.bind, Prog.Within]
        intro b
        by_cases hb : b.ret = 0
        · have hnew : Keyed uid db.next (db.allocate ⟨data, uid⟩) :=
            ⟨Nat.lt_succ_self _, by simp [ReserveDataDatabase.allocate]⟩
          simp only [hb, not_true_eq_false, ↓reduceIte, Prog.bind, Prog.Within, effect]
          refine ⟨?_, hnew.own rfl rfl, trivial⟩
          intro x hx
          simp only [Access.concerns, List.mem_singleton] at hx
          subst hx
          exact ⟨rfl, rfl, .inr rfl⟩
        · simp only [hb, not_false_eq_true, ↓reduceIte]
          exact trivial

theorem addReserveParamsForUID_within (hw : WellFormed db) (tmp : UIDReserveData) (uid : Uid)
    (tapType : UInt64) (tapValue : Int64) :
    (addReserveParamsForUID tmp uid tapType tapValue).Within effect
      (Own uid (validParams tapType tapValue)) (fun _ _ => True) db := by
  simp only [addReserveParamsForUID, Prog.bind_eq, Prog.pure_eq]
  cases hv : validParams tapType tapValue with
  | false => exact trivial
  | true =>
    simp only [Bool.not_true, Bool.false_eq_true, ↓reduceIte, Prog.within_bind]
    exact (reserveDataDBAddEntry_within hw uid _).mono fun _ _ _ => trivial

theorem removeReserveParamsForUID_within (hw : WellFormed db) (uid : Uid) :
    (removeReserveParamsForUID uid).Within effect (Own uid (db.find uid).isSome)
      (fun _ _ => True) db := by
  simp only [removeReserveParamsForUID, reserveDataDBRemoveEntry, Prog.bind_eq, Prog.pure_eq,
    readLock_bind, hashFind_bind, hashDelete_bind, listAddTail_bind, Prog.Within]
  intro r
  cases r with
  | some e => simp [e.nonzero, Prog.Within]
  | none =>
    simp only [ne_eq, not_true_eq_false, ↓reduceIte, Prog.Within, effect]
    refine ⟨own_find hw id, ?_⟩
    cases hf : db.find uid with
    | none => exact trivial
    | some p =>
      have hk := hw.keyed hf
      exact ⟨hk.own rfl rfl, (hk.effect (.hashDelete p)).own rfl rfl, trivial⟩

/-- A request keeps to the records with the truncated UID of its message. -/
theorem handleClient_within (hw : WellFormed db) (ctx : ClientData) (stack : Locals)
    (query : Query) : (handleClient ctx stack query).Within effect
      (Own query.uid.toUInt32 (query.addresses db)) (fun _ _ => True) db := by
  cases query with
  | stat q =>
    simp only [handleClient, handleStatReserve, Prog.bind_eq, Prog.pure_eq, Prog.within_bind]
    exact (statReserve_within hw ctx.pid _).mono fun _ _ _ => trivial
  | get q =>
    simp only [handleClient, handleGetTapParams, Prog.bind_eq, Prog.pure_eq, Prog.within_bind]
    exact (getTapParams_within hw _).mono fun _ _ _ => trivial
  | set q =>
    simp only [handleClient, handleSetTapParams, Prog.bind_eq, Prog.pure_eq, Prog.within_bind]
    exact (setTapParams_within hw _ _ _).mono fun _ _ _ => trivial
  | add q =>
    simp only [handleClient, handleAddParamsForUid, Prog.bind_eq, Prog.pure_eq, Prog.within_bind]
    exact (addReserveParamsForUID_within hw _ _ _ _).mono fun _ _ _ => trivial
  | remove q =>
    simp only [handleClient, handleRemoveParamsForUid, Prog.bind_eq, Prog.pure_eq, Prog.within_bind]
    exact (removeReserveParamsForUID_within hw _).mono fun _ _ _ => trivial

end Within

/-- In the course of the request `d` the daemon acts on the record `p`, which has this key. -/
def ActsOn (db : ReserveDataDatabase) (d : Request) (db' : ReserveDataDatabase) (p : RecordPtr)
    (key : Uid) : Prop :=
  ∃ log, (task d.op).Runs (logged effect) (db, []) d.trace d.result (db', log) ∧
    ∃ x ∈ log, (p, key) ∈ x.2.concerns x.1

/-- Whatever the locks and the kernel answer, the request acts on no record but the one
whose key equals the UID of its message, as integers. -/
def Exact (db : ReserveDataDatabase) (ctx : ClientData) (stack : Locals) (query : Query) : Prop :=
  ∀ es r db' p key, ActsOn db ⟨.request ctx stack query, es, r⟩ db' p key →
    key.toNat = query.uid.toNat

instance : Inhabited sig.Ans := ⟨(⟨0, 0⟩ : Answer)⟩

/-- The UID fits the key, or the request does not get to a record. -/
def Fitting (db : ReserveDataDatabase) (query : Query) : Prop :=
  query.uid.toNat < 4294967296 ∨ query.addresses db = false

/-- What is known of the records in the log of a request. -/
def KeyedLog (uid : Uid) (can : Bool) (db : ReserveDataDatabase)
    (log : List (ReserveDataDatabase × Access)) : Prop :=
  ∀ x ∈ log, ∀ y ∈ x.2.concerns x.1, y.2 = uid ∧ can = true ∧ Keyed uid y.1 db

theorem KeyedLog.step {can : Bool} {log : List (ReserveDataDatabase × Access)} {i : Access}
    (h : KeyedLog uid can db log) (hi : Own uid can db i) :
    KeyedLog uid can (effect i db).2 (log ++ [(db, i)]) := by
  intro x hx y hy
  rcases List.mem_append.mp hx with hx | hx
  · obtain ⟨hu, hc, hk⟩ := h x hx y hy
    exact ⟨hu, hc, hk.effect i⟩
  · simp only [List.mem_singleton] at hx
    subst hx
    obtain ⟨hu, hc, hlt | hnew⟩ := hi y hy
    · refine ⟨hu, hc, Keyed.effect ⟨hlt, ?_⟩ i⟩
      rw [← hu]
      cases i with
      | recordInit uid' data =>
        simp only [Access.concerns, List.mem_singleton] at hy
        subst hy
        exact absurd hlt (Nat.lt_irrefl _)
      | listEmpty => simp [Access.concerns] at hy
      | hashFind _ =>
        obtain ⟨q, _, rfl⟩ := List.mem_map.mp hy
        rfl
      | hashEntries =>
        obtain ⟨q, _, rfl⟩ := List.mem_map.mp hy
        rfl
      | listEntries =>
        obtain ⟨q, _, rfl⟩ := List.mem_map.mp hy
        rfl
      | _ =>
        simp only [Access.concerns, List.mem_singleton] at hy
        subst hy
        rfl
    · cases i with
      | recordInit uid' data =>
        simp only [Access.concerns, List.mem_singleton] at hy
        subst hy hu
        exact ⟨rfl, hc, Nat.lt_succ_self _, by simp [effect, ReserveDataDatabase.allocate]⟩
      | _ => cases hnew

theorem ActsOn.keyed {ctx : ClientData} {stack : Locals} {query : Query} {es : List (Event sig)}
    {r : Option Response} {key : Uid} (hw : WellFormed db)
    (h : ActsOn db ⟨.request ctx stack query, es, r⟩ db' p key) :
    key = query.uid.toUInt32 ∧ query.addresses db = true ∧ Keyed key p db' := by
  obtain ⟨log, hr, x, hx, hy⟩ := h
  have hwithin : (task (.request ctx stack query)).Within effect
      (Own query.uid.toUInt32 (query.addresses db)) (fun _ _ => True) db := by
    simp only [task, Prog.bind_eq, Prog.pure_eq, Prog.within_bind]
    exact (handleClient_within hw ctx stack query).mono fun _ _ _ => trivial
  have hlog := hwithin.runs (I := KeyedLog query.uid.toUInt32 (query.addresses db))
    (fun _ _ _ => KeyedLog.step) hr (by simp [KeyedLog])
  obtain ⟨hu, hc, hk⟩ := hlog.1 x hx _ hy
  simp only at hu hk
  subst hu
  exact ⟨rfl, hc, hk⟩

/-- A request that gets to a record has a path on which it accesses it. -/
theorem Query.reaches {query : Query} (h : query.addresses db = true) (ctx : ClientData)
    (stack : Locals) : ∃ t i p, (p, query.uid.toUInt32) ∈ i.concerns t ∧
      (handleClient ctx stack query).Accesses effect t i db := by
  have found : ∀ uid : Uid, (db.find uid).isSome = true →
      ∃ p, (p, uid) ∈ (Access.hashFind uid).concerns db := by
    intro uid hs
    obtain ⟨p, hf⟩ := Option.isSome_iff_exists.mp hs
    refine ⟨p, ?_⟩
    simp only [Access.concerns, hf, Option.toList_some, List.map_cons, List.map_nil,
      List.mem_singleton, Prod.mk.injEq, true_and]
    exact (find_mem hf).2.symm
  cases query with
  | stat q =>
    obtain ⟨p, hp⟩ := found _ h
    refine ⟨db, _, p, hp, Prog.Accesses.bind (Prog.Accesses.bind ?_ _) _⟩
    simp only [statReserve, Prog.bind_eq, Prog.pure_eq, cinderGetRootReserveId_bind, readLock_bind,
      lookupEntryLocked_bind]
    exact ⟨⟨0, 0⟩, none, .inl ⟨rfl, rfl⟩⟩
  | get q =>
    obtain ⟨p, hp⟩ := found _ h
    refine ⟨db, _, p, hp, Prog.Accesses.bind (Prog.Accesses.bind ?_ _) _⟩
    simp only [getTapParams, Prog.bind_eq, Prog.pure_eq, readLock_bind, lookupEntryLocked_bind]
    exact ⟨none, .inl ⟨rfl, rfl⟩⟩
  | set q =>
    simp only [Query.addresses, Bool.and_eq_true] at h
    obtain ⟨p, hp⟩ := found _ h.2
    refine ⟨db, _, p, hp, Prog.Accesses.bind (Prog.Accesses.bind ?_ _) _⟩
    simp only [setTapParams, Prog.bind_eq, Prog.pure_eq, readLock_bind, lookupEntryLocked_bind, h.1,
      Bool.not_true, Bool.false_eq_true, ↓reduceIte]
    exact ⟨none, .inl ⟨rfl, rfl⟩⟩
  | add q =>
    have hv : validParams q.tapType q.tapValue = true := h
    cases hf : db.find q.uid.toUInt32 with
    | some p =>
      obtain ⟨p, hp⟩ := found q.uid.toUInt32 (by simp [hf])
      refine ⟨db, _, p, hp, Prog.Accesses.bind (Prog.Accesses.bind ?_ _) _⟩
      simp only [addReserveParamsForUID, reserveDataDBAddEntry, Prog.bind_eq, Prog.pure_eq, hv,
        readLock_bind, hashFind_bind, Bool.not_true, Bool.false_eq_true, ↓reduceIte]
      exact ⟨none, .inl ⟨rfl, rfl⟩⟩
    | none =>
      let data : UIDReserveData := { stack.tmp with
        reserveCreated := false
        tapType := q.tapType
        tapValue := q.tapValue }
      refine ⟨db, .recordInit q.uid.toUInt32 data, db.next, List.mem_singleton.mpr rfl,
        Prog.Accesses.bind (Prog.Accesses.bind ?_ _) _⟩
      simp only [addReserveParamsForUID, reserveDataDBAddEntry, reserveRecordCreate, Prog.bind_eq,
        Prog.pure_eq, hv, readLock_bind, hashFind_bind, request_bind, recordInit_bind,
        Bool.not_true, Bool.false_eq_true, ↓reduceIte]
      refine ⟨none, .inr ?_⟩
      simp only [effect, hf]
      exact ⟨⟨1, 0⟩, ⟨0, 0⟩, .inl ⟨rfl, rfl⟩⟩
  | remove q =>
    obtain ⟨p, hp⟩ := found _ h
    refine ⟨db, _, p, hp, Prog.Accesses.bind (Prog.Accesses.bind ?_ _) _⟩
    simp only [removeReserveParamsForUID, reserveDataDBRemoveEntry, Prog.bind_eq, Prog.pure_eq,
      readLock_bind, hashFind_bind]
    exact ⟨none, .inl ⟨rfl, rfl⟩⟩

/-- Whatever the database goes through in between, a later request that acts on a record
this one has acted on carries the same UID. -/
def Separate (db : ReserveDataDatabase) (ctx : ClientData) (stack : Locals) (query : Query) :
    Prop :=
  ∀ es r u p key, ActsOn db ⟨.request ctx stack query, es, r⟩ u p key →
    ∀ ds v, Run (Alone dbOperation effect) u ds v →
    ∀ ctx' stack' query', Fitting v query' →
    ∀ fs r' w key', ActsOn v ⟨.request ctx' stack' query', fs, r'⟩ w p key' →
      query'.uid = query.uid

theorem wellFormed_of_run {ds : List (Done sig DbOp Unit)} (hw : WellFormed db)
    (h : Run (Alone dbOperation effect) db ds db') : WellFormed db' :=
  h.preserves (fun _ _ _ hu hd => hu.change (dbOperation_runs hd).1) hw

theorem keyed_of_run {ds : List (Done sig DbOp Unit)} (hk : Keyed uid p db)
    (h : Run (Alone dbOperation effect) db ds db') : Keyed uid p db' :=
  h.preserves (fun _ _ _ hu hd => hu.change (dbOperation_runs hd).1) hk

theorem ActsOn.change {d : Request} {key : Uid} (h : ActsOn db d db' p key) : Change db db' := by
  obtain ⟨log, hr, _⟩ := h
  exact (task_runs (Prog.runs_of_logged hr)).change

theorem ActsOn.exact {ctx : ClientData} {stack : Locals} {query : Query} {es : List (Event sig)}
    {r : Option Response} {key : Uid} (hw : WellFormed db) (hq : Fitting db query)
    (h : ActsOn db ⟨.request ctx stack query, es, r⟩ db' p key) :
    key.toNat = query.uid.toNat := by
  obtain ⟨hkey, ha, _⟩ := h.keyed hw
  rcases hq with hlt | hnone
  · rw [hkey, UInt64.toNat_toUInt32]
    exact Nat.mod_eq_of_lt hlt
  · rw [ha] at hnone
    cases hnone

/-- A request acts on the record with exactly the UID of its message, and so on none if no
key equals that UID, if the UID fits into 32 bits or the request does not get to a record,
and only then. Requests of which this is true act on the same record only if they name
the same UID. -/
theorem requests_exact_iff {ds : List (Done sig DbOp Unit)}
    (h : Run (Alone dbOperation effect) .empty ds db) (ctx : ClientData) (stack : Locals)
    (query : Query) : (Exact db ctx stack query ↔ Fitting db query) ∧
      (Fitting db query → Separate db ctx stack query) := by
  have hw : WellFormed db := wellFormed_of_run .empty h
  refine ⟨⟨fun hx => ?_, fun hq _ _ _ _ _ hacts => hacts.exact hw hq⟩, ?_⟩
  · cases ha : query.addresses db with
    | false => exact .inr ha
    | true =>
      left
      obtain ⟨t, i, p, hm, hacc⟩ := Query.reaches ha ctx stack
      have hacc : (task (.request ctx stack query)).Accesses effect t i db := hacc.bind _
      obtain ⟨es, r, u, log, hr, hlog⟩ := hacc.runs []
      rw [List.nil_append] at hr
      have heq := hx es r u p _ ⟨log, hr, _, hlog, hm⟩
      rw [← heq]
      exact UInt32.toNat_lt _
  · intro hq es r u p key hacts fs v hrun ctx' stack' query' hq' gs r' w key' hacts'
    have hu : WellFormed u := hw.change hacts.change
    have hv : WellFormed v := wellFormed_of_run hu hrun
    have hkeep : Keyed key p w :=
      (keyed_of_run (hacts.keyed hw).2.2 hrun).change hacts'.change
    have hsame : key' = key := (hacts'.keyed hv).2.2.2.symm.trans hkeep.2
    apply UInt64.toNat_inj.mp
    rw [← hacts'.exact hv hq', ← hacts.exact hw hq, hsame]

/-- The record of user 7 is there, and a request for it is exact. -/
theorem requests_exact_present : ∃ ds db, Run (Alone dbOperation effect) .empty ds db ∧
    db.data = [0] ∧ Exact db ⟨1, 1, 1⟩ ⟨0, 0, 0, 0, ⟨false, 0, 0, 0, 0⟩⟩ (.remove ⟨7⟩) := by
  obtain ⟨db, hr, hd⟩ : ∃ db, Run (Alone dbOperation effect) .empty
      [⟨.controller (added 7 1 5).op, (added 7 1 5).trace, ()⟩] db ∧ db.data = [0] :=
    ⟨_, ⟨_, rfl, rfl⟩, rfl⟩
  exact ⟨_, db, hr, hd, (requests_exact_iff hr _ _ _).1.mpr (.inl (by decide))⟩

/-- A REMOVE for the UID 2 ^ 32 + 7 removes the record of user 7. -/
theorem truncated_uid_removes : ∃ ds db ctx stack query es r db',
    Run (Alone dbOperation effect) .empty ds db ∧ query.uid.toNat = 4294967296 + 7 ∧
    ActsOn db ⟨.request ctx stack query, es, r⟩ db' 0 7 ∧ db.data = [0] ∧ db'.data = [] ∧
    ¬Exact db ctx stack query := by
  obtain ⟨db, db', hr, hacts, hd, hd'⟩ : ∃ db db', Run (Alone dbOperation effect) .empty
        [⟨.controller (added 7 1 5).op, (added 7 1 5).trace, ()⟩] db ∧
      ActsOn db ⟨.request ⟨1, 1, 1⟩ ⟨0, 0, 0, 0, ⟨false, 0, 0, 0, 0⟩⟩ (.remove ⟨4294967303⟩),
        [.lock none, .unlock], some (.remove ⟨PA_NO_ERROR⟩)⟩ db' 0 7 ∧
      db.data = [0] ∧ db'.data = [] :=
    ⟨_, _, ⟨_, rfl, rfl⟩, ⟨_, rfl, _, List.mem_cons_self, List.mem_cons_self⟩, rfl, rfl⟩
  refine ⟨_, db, _, _, .remove ⟨4294967303⟩, _, _, db', hr, rfl, hacts, hd, hd', ?_⟩
  intro hx
  exact absurd (hx _ _ _ _ _ hacts) (by decide)

end PowerArbiter
