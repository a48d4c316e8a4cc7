import PowerArbiter.Proofs.Grants

namespace PowerArbiter
open Monitor

/-- What `statReserve` creates in the kernel, and may release again. -/
inductive KernelObject where
  | reserve (id : Int32)
  | tap (id : Int32)
deriving DecidableEq

/-- What an event creates, and what it asks the kernel to release. -/
def creates : Event sig → Option KernelObject
  | .call (.createReserve _ _) a => if a.ret < 0 then none else some (.reserve a.ret)
  | .call (.createTap _ _ _ _) a => if a.ret < 0 then none else some (.tap a.ret)
  | _ => none

def releases : Event sig → Option KernelObject
  | .call (.putReserve id) _ => some (.reserve id)
  | .call (.deleteTap id) _ => some (.tap id)
  | _ => none

/-- No attempt to lock the database or a record fails. -/
def LocksSucceed (es : List (Event sig)) : Prop :=
  ∀ e, .lock (some e) ∉ es ∧ ∀ p, .lockInner p (some e) ∉ es

/-- The process was given the reserve that the record has now. -/
def ExposeSucceeded (db' : ReserveDataDatabase) (p : RecordPtr) (pid : Pid)
    (es : List (Event sig)) : Prop :=
  ∃ a, .call (.exposeReserve pid (db'.heap p).data.reserveId CINDER_CAP_ALL) a ∈ es ∧ a.ret = 0

/-- What a STAT returns and writes: the root reserve if there is no record, else the reserve
of the record, once the process has it. -/
structure HandsOut (db : ReserveDataDatabase) (uid : Uid) (pid : Pid) (es : List (Event sig))
    (r : StatResult) (db' : ReserveDataDatabase) : Prop where
  exposes : ∀ task id caps a, .call (.exposeReserve task id caps) a ∈ es →
    ∃ p, db.find uid = some p ∧ task = pid ∧ id = (db'.heap p).data.reserveId ∧
      caps = CINDER_CAP_ALL
  success : r.ret = 0 ↔
    db.find uid = none ∨ ∃ p, db.find uid = some p ∧ ExposeSucceeded db' p pid es
  root : db.find uid = none →
    ∃ a, .call .rootReserveId a ∈ es ∧ r.out = some (a.ret, PA_USE_ROOT_RESERVE)
  reserve : ∀ p, db.find uid = some p → r.ret = 0 →
    r.out = some ((db'.heap p).data.reserveId, PA_RESERVE_GRANTED)
  untouched : r.ret ≠ 0 → r.out = none

/-- Nothing is left of a STAT that could not create both the reserve and the tap: they are
released in the opposite order of their creation. -/
structure RolledBack (db : ReserveDataDatabase) (es : List (Event sig))
    (db' : ReserveDataDatabase) : Prop where
  unchanged : db' = db
  released : es.filterMap releases = (es.filterMap creates).reverse

/-- The record has got the reserve and the tap that were created, and they are kept. -/
structure Completed (db : ReserveDataDatabase) (uid : Uid) (es : List (Event sig))
    (db' : ReserveDataDatabase) : Prop where
  record : ∃ p reserve tap, db.find uid = some p ∧ (db.heap p).data.reserveCreated = false ∧
    db' = db.modify p (.created reserve tap) ∧
    es.filterMap creates = [.reserve reserve, .tap tap]
  released : es.filterMap releases = []

/-- `existing` stands for the objects that the kernel had before, whose ids it does not
hand out again. -/
structure AllOrNothing (db : ReserveDataDatabase) (uid : Uid) (pid : Pid) (es : List (Event sig))
    (r : StatResult) (db' : ReserveDataDatabase) : Prop where
  outcome : RolledBack db es db' ∨ Completed db uid es db'
  feeds : ∀ name len src dest a, .call (.createTap name len src dest) a ∈ es →
    .reserve dest ∈ es.filterMap creates
  earlier : ∀ existing : KernelObject → Prop, (∀ o ∈ es.filterMap creates, ¬existing o) →
    ∀ o ∈ es.filterMap releases, ¬existing o
  output : HandsOut db uid pid es r db'
  others : ∀ p, db.find uid ≠ some p → db'.heap p = db.heap p
  params : ∀ p, (db'.heap p).uid = (db.heap p).uid ∧
    (db'.heap p).data.tapType = (db.heap p).data.tapType ∧
    (db'.heap p).data.tapValue = (db.heap p).data.tapValue
  lists : db'.data = db.data ∧ db'.deadList = db.deadList

variable {db db' : ReserveDataDatabase} {es : List (Event sig)} {uid : Uid} {pid : Pid}

theorem LocksSucceed.lock {e : Errno} (h : LocksSucceed es) (hm : .lock (some e) ∈ es) : False :=
  (h e).1 hm

theorem LocksSucceed.lockInner {e : Errno} {p : RecordPtr} (h : LocksSucceed es)
    (hm : .lockInner p (some e) ∈ es) : False := (h e).2 p hm

theorem creates_createCall (a : Answer) :
    creates (createCall uid a) = if a.ret < 0 then none else some (.reserve a.ret) := rfl

theorem creates_tapCall (root dest : Int32) (a : Answer) :
    creates (tapCall uid root dest a) = if a.ret < 0 then none else some (.tap a.ret) := rfl

theorem RolledBack.earlier (h : RolledBack db es db') (existing : KernelObject → Prop)
    (hf : ∀ o ∈ es.filterMap creates, ¬existing o) :
    ∀ o ∈ es.filterMap releases, ¬existing o := by
  intro o ho
  rw [h.released, List.mem_reverse] at ho
  exact hf o ho

theorem Exposed.nothing_created {p : RecordPtr} {r : StatResult} (h : Exposed db p pid es r) :
    es.filterMap creates = [] ∧ es.filterMap releases = [] := by
  cases h <;> exact ⟨rfl, rfl⟩

/-- The last call of a STAT that finds or makes a reserve decides what it returns. -/
theorem Exposed.handsOut {d : ReserveDataDatabase} {p : RecordPtr} {fs gs : List (Event sig)}
    {r : StatResult} (hf : db.find uid = some p)
    (hno : ∀ task id caps a, .call (.exposeReserve task id caps) a ∉ fs)
    (hx : Exposed d p pid gs r) : HandsOut db uid pid (fs ++ gs) r d := by
  have hpast : ∀ task id caps a, .call (.exposeReserve task id caps) a ∈ fs ++ gs →
      .call (.exposeReserve task id caps) a ∈ gs :=
    fun _ _ _ _ hm => (List.mem_append.mp hm).resolve_left (hno _ _ _ _)
  refine ⟨?_, ?_, fun hn => ?_, fun q hq hr => ?_, fun hr => ?_⟩
  · intro task id caps a hm
    obtain ⟨rfl, rfl, rfl⟩ := Call.exposeReserve.inj (hx.calls (hpast task id caps a hm))
    exact ⟨p, hf, rfl, rfl, rfl⟩
  · constructor
    · intro hr
      refine .inr ⟨p, hf, ?_⟩
      cases hx with
      | refused ha => exact absurd hr ha
      | @granted a ha => exact ⟨a, List.mem_append_right fs List.mem_cons_self, ha⟩
    · intro h
      rcases h with hn | ⟨q, hq, a, hm, ha⟩
      · rw [hf] at hn
        cases hn
      · have hm := hpast _ _ _ _ hm
        cases hx with
        | @refused b hb =>
          obtain ⟨_, rfl⟩ : _ ∧ a = b := by simpa using hm
          exact absurd ha hb
        | granted _ => rfl
  · rw [hf] at hn
    cases hn
  · obtain rfl : p = q := Option.some.inj (hf.symm.trans hq)
    cases hx with
    | refused ha => exact absurd hr ha
    | granted _ => rfl
  · cases hx with
    | refused _ => rfl
    | granted _ => exact absurd rfl hr

/-- A STAT that fails before it could expose anything. -/
theorem HandsOut.nothing {p : RecordPtr} {r : StatResult} (hf : db.find uid = some p)
    (hno : ∀ task id caps a, .call (.exposeReserve task id caps) a ∉ es) (hr : r.ret ≠ 0)
    (hout : r.out = none) : HandsOut db uid pid es r db' := by
  refine ⟨fun _ _ _ _ hm => absurd hm (hno _ _ _ _), ?_, fun hn => ?_,
    fun _ _ h => absurd h hr, fun _ => hout⟩
  · refine ⟨fun h => absurd h hr, fun h => ?_⟩
    rcases h with hn | ⟨q, _, a, hm, _⟩
    · rw [hf] at hn
      cases hn
    · exact absurd hm (hno _ _ _ _)
  · rw [hf] at hn
    cases hn

/-- The branch that creates: what it leaves, and that it does not expose anything. -/
theorem Created.balanced {p : RecordPtr} {root : Int32} {x : Except Long Unit}
    (h : Created db p uid root es x db') :
    (x = .ok () ∧ (∃ reserve tap, db' = db.modify p (.created reserve tap) ∧
        es.filterMap creates = [.reserve reserve, .tap tap]) ∧ es.filterMap releases = []) ∨
    (x ≠ .ok () ∧ db' = db ∧ es.filterMap releases = (es.filterMap creates).reverse) := by
  cases h with
  | noReserve ha =>
    refine .inr ⟨by simp, rfl, ?_⟩
    simp only [List.filterMap_cons, creates_createCall, ha, ↓reduceIte]
    rfl
  | noTap ha hb =>
    refine .inr ⟨by simp, rfl, ?_⟩
    simp only [List.filterMap_cons, creates_createCall, creates_tapCall, ha, hb, ↓reduceIte]
    rfl
  | noRate ha hb hc =>
    refine .inr ⟨by simp, rfl, ?_⟩
    simp only [List.filterMap_cons, creates_createCall, creates_tapCall, ha, hb, ↓reduceIte]
    rfl
  | @done a b c ha hb hc =>
    refine .inl ⟨rfl, ⟨a.ret, b.ret, rfl, ?_⟩, rfl⟩
    simp only [List.filterMap_cons, creates_createCall, creates_tapCall, ha, hb, ↓reduceIte]
    rfl

theorem Created.feeds {p : RecordPtr} {root : Int32} {x : Except Long Unit}
    (h : Created db p uid root es x db') {name : List Char} {len src dest : Int32} {a : Answer}
    (hm : .call (.createTap name len src dest) a ∈ es) :
    .reserve dest ∈ es.filterMap creates := by
  cases h with
  | noReserve ha => simp [createCall] at hm
  | noTap ha hb =>
    simp only [createCall, tapCall, List.mem_cons, Event.call.injEq, reduceCtorEq, false_and,
      Call.createTap.injEq, List.not_mem_nil, or_false, false_or] at hm
    simp [createCall, creates, ha, hm.1.2.2.2]
  | noRate ha hb hc =>
    simp only [createCall, tapCall, rateCall, List.mem_cons, Event.call.injEq, reduceCtorEq,
      false_and, Call.createTap.injEq, List.not_mem_nil, or_false, false_or] at hm
    simp [createCall, creates, ha, hm.1.2.2.2]
  | done ha hb hc =>
    simp only [createCall, tapCall, rateCall, List.mem_cons, Event.call.injEq, reduceCtorEq,
      false_and, Call.createTap.injEq, List.not_mem_nil, or_false, false_or] at hm
    simp [createCall, creates, ha, hm.1.2.2.2]

theorem Created.no_expose {p : RecordPtr} {root : Int32} {x : Except Long Unit}
    (h : Created db p uid root es x db') (task : Pid) (id : Int32) (caps : UInt32) (a : Answer) :
    .call (.exposeReserve task id caps) a ∉ es := by
  cases h <;> simp [createCall, tapCall, rateCall]

/-- What holds of every STAT that leaves the database as it was and releases what it
created. -/
theorem RolledBack.allOrNothing {r : StatResult} (h : RolledBack db es db')
    (hfeeds : ∀ name len src dest a, .call (.createTap name len src dest) a ∈ es →
      .reserve dest ∈ es.filterMap creates)
    (hout : HandsOut db uid pid es r db') : AllOrNothing db uid pid es r db' := by
  have heq := h.unchanged
  refine ⟨.inl h, hfeeds, h.earlier, hout, ?_, ?_, ?_⟩
  · exact fun p _ => by rw [heq]
  · exact fun p => by rw [heq]; exact ⟨rfl, rfl, rfl⟩
  · rw [heq]; exact ⟨rfl, rfl⟩

/-- A STAT that finds a reserve. -/
theorem Exposed.allOrNothing {a : Answer} {p : RecordPtr} {fs : List (Event sig)} {r : StatResult}
    (hf : db.find uid = some p) (hx : Exposed db p pid fs r) :
    AllOrNothing db uid pid (.call .rootReserveId a :: .lock none :: .lockInner p none :: fs) r
      db := by
  obtain ⟨hcr, hre⟩ := hx.nothing_created
  have hno : ∀ task id caps b, .call (.exposeReserve task id caps) b ∉
      ([.call .rootReserveId a, .lock none, .lockInner p none] : List (Event sig)) := by simp
  refine RolledBack.allOrNothing ⟨rfl, ?_⟩ ?_ (hx.handsOut hf hno)
  · change fs.filterMap releases = (fs.filterMap creates).reverse
    rw [hcr, hre]
    rfl
  · intro name len src dest b hm
    have hm : .call (.createTap name len src dest) b ∈ fs := by simpa using hm
    cases hx.calls hm

/-- A STAT that cannot create what is missing. -/
theorem Created.failed_allOrNothing {a : Answer} {p : RecordPtr} {fs : List (Event sig)}
    {err : Long} (hf : db.find uid = some p) (hr : Created db p uid a.ret fs (.error err) db) :
    AllOrNothing db uid pid (.call .rootReserveId a :: .lock none :: .lockInner p none ::
      (fs ++ [.unlockInner p, .unlock])) ⟨err, none⟩ db := by
  rcases hr.balanced with ⟨hx, _⟩ | ⟨_, _, hrel⟩
  · cases hx
  let fin : List (Event sig) := [.unlockInner p, .unlock]
  have hcre : (fs ++ fin).filterMap creates = fs.filterMap creates := by
    rw [List.filterMap_append]
    exact List.append_nil _
  have hfree : (fs ++ fin).filterMap releases = fs.filterMap releases := by
    rw [List.filterMap_append]
    exact List.append_nil _
  have hno : ∀ task id caps b, .call (.exposeReserve task id caps) b ∉
      .call .rootReserveId a :: .lock none :: .lockInner p none :: (fs ++ fin) := by
    intro task id caps b hm
    have hm : .call (.exposeReserve task id caps) b ∈ fs := by simpa [fin] using hm
    exact hr.no_expose task id caps b hm
  refine RolledBack.allOrNothing ⟨rfl, hfree.trans (hrel.trans (congrArg _ hcre.symm))⟩ ?_
    (.nothing hf hno hr.error_ne rfl)
  intro name len src dest b hm
  have hm : .call (.createTap name len src dest) b ∈ fs := by simpa using hm
  have hd := hr.feeds hm
  rw [← hcre] at hd
  exact hd

/-- A STAT that creates a reserve and a tap. -/
theorem Created.allOrNothing {a : Answer} {p : RecordPtr} {fs gs : List (Event sig)}
    {r : StatResult} {d : ReserveDataDatabase} (hf : db.find uid = some p)
    (hc : (db.heap p).data.reserveCreated = false) (hr : Created db p uid a.ret fs (.ok ()) d)
    (hx : Exposed d p pid gs r) :
    AllOrNothing db uid pid (.call .rootReserveId a :: .lock none :: .lockInner p none ::
      (fs ++ gs)) r d := by
  obtain ⟨hcr, hre⟩ := hx.nothing_created
  have hno : ∀ task id caps b, .call (.exposeReserve task id caps) b ∉
      .call .rootReserveId a :: .lock none :: .lockInner p none :: fs := by
    intro task id caps b hm
    have hm : .call (.exposeReserve task id caps) b ∈ fs := by simpa using hm
    exact hr.no_expose task id caps b hm
  rcases hr.balanced with ⟨_, ⟨reserve, tap, rfl, hmade⟩, hkept⟩ | ⟨hx, _⟩
  swap
  · exact absurd rfl hx
  have hcre : (fs ++ gs).filterMap creates = [.reserve reserve, .tap tap] := by
    rw [List.filterMap_append, hcr, List.append_nil, hmade]
  have hfree : (fs ++ gs).filterMap releases = [] := by
    rw [List.filterMap_append, hre, List.append_nil, hkept]
  refine ⟨.inr ⟨⟨p, reserve, tap, hf, hc, rfl, hcre⟩, hfree⟩, ?_, ?_, hx.handsOut hf hno, ?_, ?_,
    ⟨rfl, rfl⟩⟩
  · intro name len src dest b hm
    have hm : .call (.createTap name len src dest) b ∈ fs ∨
        .call (.createTap name len src dest) b ∈ gs := by simpa using hm
    rcases hm with hm | hm
    · have hd := hr.feeds hm
      rw [hmade] at hd
      exact hcre ▸ hd
    · cases hx.calls hm
  · intro existing _ o ho
    change o ∈ (fs ++ gs).filterMap releases at ho
    rw [hfree] at ho
    cases ho
  · intro q hq
    exact heap_modify_of_ne _ fun hqp => hq (hqp ▸ hf)
  · intro q
    by_cases hqp : q = p
    · subst hqp
      exact ⟨heap_modify_uid _ _ _, by simp [UIDReserveData.created]⟩
    · rw [heap_modify_of_ne _ hqp]
      exact ⟨rfl, rfl, rfl⟩

/-- `statReserve` either leaves the record as it was and releases whatever it created,
or gives the record one reserve and one tap and keeps them, also when the process is then
refused access. -/
theorem statReserve_all_or_nothing {r : StatResult}
    (h : (statReserve uid pid).Runs effect db es r db') (hl : LocksSucceed es) :
    AllOrNothing db uid pid es r db' := by
  cases statReserve_runs h with
  | busy e => exact absurd (by simp) (hl e).1
  | absent hf =>
    refine RolledBack.allOrNothing ⟨rfl, rfl⟩ (by simp) ⟨by simp, ?_, ?_, ?_, ?_⟩
    · exact ⟨fun _ => .inl hf, fun _ => rfl⟩
    · exact fun _ => ⟨_, List.mem_cons_self, rfl⟩
    · intro p hp
      rw [hf] at hp
      cases hp
    · exact fun hr => absurd rfl hr
  | recordBusy hf e => exact absurd (.tail _ (.tail _ List.mem_cons_self)) ((hl e).2 _)
  | exposed hf hc hx => exact hx.allOrNothing hf
  | failed hf hc hr => exact hr.failed_allOrNothing hf
  | created hf hc hr hx => exact hr.allOrNothing hf hc hx

/-- The tap gets no rate, and both objects are released. -/
theorem statReserve_rolls_back :
    let db : ReserveDataDatabase := ⟨[0], [], fun _ => ⟨⟨false, 0, 0, 1, 5⟩, 7⟩, 1, []⟩
    let es : List (Event sig) := [.call .rootReserveId ⟨0, 0⟩, .lock none, .lockInner 0 none,
      createCall 7 ⟨5, 0⟩, tapCall 7 0 5 ⟨3, 0⟩, rateCall 3 1 5 ⟨-1, 0⟩,
      .call (.deleteTap 3) ⟨-1, 0⟩, .call (.putReserve 5) ⟨-1, 0⟩, .unlockInner 0, .unlock]
    AllOrNothing db 7 9 es ⟨-1, none⟩ db :=
  statReserve_all_or_nothing rfl fun e => by simp [createCall, tapCall, rateCall]

end PowerArbiter
