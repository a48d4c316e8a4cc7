import PowerArbiter.Monitor.Run
import PowerArbiter.Proofs.Containers

namespace PowerArbiter
open Monitor

/-- The functions that move records between the containers, called directly, and
the operations of the controller, which create the reserves. -/
inductive DbOp where
  | reserveDataDBAddEntry (uid : Uid) (data : UIDReserveData)
  | reserveDataDBEmpty
  | controller (op : Op)

def dbOperation : DbOp → Program Unit
  | .reserveDataDBAddEntry uid data => do
    let _ ← PowerArbiter.reserveDataDBAddEntry uid data
  | .reserveDataDBEmpty => do
    let _ ← PowerArbiter.reserveDataDBEmpty
  | .controller op => do
    let _ ← operation op

/-- Every record ever created is in exactly one place, once. -/
def Conserved (db : ReserveDataDatabase) : Prop :=
  ∀ p < db.next, db.data.count p + db.deadList.count p + db.destroyed.count p = 1

/-- Records move forward only, and not past the dead list in one step. -/
structure Forward (db db' : ReserveDataDatabase) : Prop where
  active : ∀ p ∈ db.data, p ∈ db'.data ∨ p ∈ db'.deadList
  dead : ∀ p ∈ db.deadList, p ∉ db'.data ∧ (p ∈ db'.deadList ∨ p ∈ db'.destroyed)
  destroyed : ∀ p ∈ db.destroyed, p ∉ db'.data ∧ p ∉ db'.deadList ∧ p ∈ db'.destroyed

/-- No pass finds a dead record that it may reclaim: every dead record has a
reserve, and every successful query reports other users of it. -/
def Unreclaimed (db : ReserveDataDatabase) (d : Done sig DbOp Unit) : Prop :=
  match d.op with
  | .controller .reserveDataDBClearUnused => .lock none ∈ d.trace →
    (∀ p ∈ db.deadList, (db.heap p).data.reserveCreated = true) ∧
    ∀ id a, .call (.reserveInfo id) a ∈ d.trace → ¬(a.ret = 0 ∧ a.numUsers = 1)
  | _ => True

variable {db db' : ReserveDataDatabase} {es : List (Event sig)}

theorem emptyLoop_runs {ps : List RecordPtr} (hd : db.data = ps)
    (h : (emptyLoop ps).Runs effect db es () db') :
    es = [] ∧ db' = { db with data := [], deadList := db.deadList ++ ps } := by
  induction ps generalizing db with
  | nil =>
    simp only [emptyLoop, Prog.pure_eq, Prog.runs_ret] at h
    obtain ⟨rfl, _, rfl⟩ := h
    exact ⟨rfl, by rw [List.append_nil, ← hd]⟩
  | cons p ps ih =>
    simp only [emptyLoop, Prog.bind_eq, hashDelete_bind, listAddTail_bind, Prog.runs_access,
      effect] at h
    obtain ⟨rfl, rfl⟩ := ih (by simp [hd]) h
    exact ⟨rfl, by simp⟩

theorem reserveDataDBEmpty_runs {r : Int32} (h : reserveDataDBEmpty.Runs effect db es r db') :
    es = [] ∧ r = 0 ∧ db' = { db with data := [], deadList := db.deadList ++ db.data } := by
  simp only [reserveDataDBEmpty, Prog.bind_eq, hashEntries_bind, Prog.runs_access, effect] at h
  rw [Prog.runs_bind (S := sig)] at h
  obtain ⟨u, mid, es₁, es₂, rfl, hl, h⟩ := h
  obtain ⟨rfl, rfl⟩ := emptyLoop_runs rfl hl
  simp only [Prog.pure_eq, Prog.runs_ret] at h
  obtain ⟨rfl, rfl, rfl⟩ := h
  exact ⟨rfl, rfl, rfl⟩

/-- When a pass destroys nothing. -/
theorem Sweep.none_iff {ps ds : List RecordPtr} {err err' : Int32}
    (h : Sweep db ps err es err' ds) :
    ds = [] ↔ (∀ p ∈ ps, (db.heap p).data.reserveCreated = true) ∧
      ∀ id a, .call (.reserveInfo id) a ∈ es → ¬(a.ret = 0 ∧ a.numUsers = 1) := by
  have hcreated := h.created_iff
  constructor
  · intro hd
    subst hd
    refine ⟨fun p hp => ?_, hcreated.mp (by simp)⟩
    cases hc : (db.heap p).data.reserveCreated with
    | true => rfl
    | false => exact absurd (h.fresh_gone p hp hc) List.not_mem_nil
  · intro hx
    obtain ⟨hall, hnone⟩ := hx
    apply List.eq_nil_iff_forall_not_mem.mpr
    intro p hp
    have hfresh := hcreated.mpr hnone p hp
    rw [hall p (h.subset p hp)] at hfresh
    cases hfresh

/-- Everything that one call has done: the change, and when it destroyed nothing. -/
theorem dbOperation_runs {d : Done sig DbOp Unit} (h : Alone dbOperation effect db d db') :
    Change db db' ∧ (db.destroyed = [] → (db'.destroyed = [] ↔ Unreclaimed db d)) := by
  obtain ⟨op, es, r⟩ := d
  cases op with
  | reserveDataDBAddEntry uid data =>
    simp only [Alone, dbOperation, Prog.bind_eq, Prog.runs_bind, Prog.pure_eq, Prog.runs_ret] at h
    obtain ⟨ret, mid, es₁, es₂, rfl, ha, rfl, -, rfl⟩ := h
    have ha := addEntry_runs ha
    have hd : db'.destroyed = db.destroyed := by cases ha <;> rfl
    exact ⟨ha.change, fun h => by simp [Unreclaimed, hd, h]⟩
  | reserveDataDBEmpty =>
    simp only [Alone, dbOperation, Prog.bind_eq, Prog.runs_bind, Prog.pure_eq, Prog.runs_ret] at h
    obtain ⟨ret, mid, es₁, es₂, rfl, he, rfl, -, rfl⟩ := h
    obtain ⟨rfl, rfl, rfl⟩ := reserveDataDBEmpty_runs he
    exact ⟨.drain, fun h => by simp [Unreclaimed, h]⟩
  | controller op =>
    simp only [Alone, dbOperation, Prog.bind_eq, Prog.runs_bind, Prog.pure_eq, Prog.runs_ret] at h
    obtain ⟨ret, mid, es₁, es₂, rfl, ho, rfl, -, rfl⟩ := h
    have ho := operation_runs ho
    refine ⟨ho.change, fun h => ?_⟩
    by_cases hop : op = .reserveDataDBClearUnused
    · subst hop
      cases ho with
      | clear hcl =>
        cases hcl with
        | busy e => simp [Unreclaimed, h]
        | done hs =>
          have := hs.none_iff
          simp [Unreclaimed, ReserveDataDatabase.bury, h, this]
    · have hd := ho.destroyed hop
      rw [hd, h]
      cases op <;> simp_all [Unreclaimed]

theorem WellFormed.listed_once (h : WellFormed db) {p : RecordPtr} (hp : p < db.next) :
    db.data.count p + db.deadList.count p = 1 := by
  rcases (h.placed p).mp hp with hd | hd
  · have : db.data.count p = 1 := by simp [h.data.count, hd]
    have := List.count_eq_zero_of_not_mem (h.apart p hd)
    omega
  · have : db.deadList.count p = 1 := by simp [h.dead.count, hd]
    have := List.count_eq_zero_of_not_mem (fun hp => h.apart p hp hd)
    omega

/-- A destroyed record is still on the dead list, so conservation holds exactly
as long as nothing has been destroyed. -/
theorem WellFormed.conserved_iff (h : WellFormed db) : Conserved db ↔ db.destroyed = [] := by
  constructor
  · intro hc
    apply List.eq_nil_iff_forall_not_mem.mpr
    intro p hp
    have hlt : p < db.next := (h.placed p).mpr (.inr (h.buried p hp))
    have hone := hc p hlt
    have := h.listed_once hlt
    have := List.count_pos_iff.mpr hp
    omega
  · intro hd p hp
    have := h.listed_once hp
    simpa [hd] using this

theorem Change.forward (h : WellFormed db) (hc : Change db db') (hd : db.destroyed = [])
    (hd' : db'.destroyed = []) : Forward db db' := by
  have hapart : ∀ p ∈ db.deadList, p ∉ db.data := fun p hp hq => h.apart p hq hp
  refine ⟨?_, ?_, by simp [hd]⟩
  · intro p hp
    cases hc with
    | insert hf => exact .inl (List.mem_append_left _ hp)
    | @remove q hq =>
      by_cases hpq : p = q
      · subst hpq
        exact .inr (by simp)
      · exact .inl ((List.mem_erase_of_ne hpq).mpr hp)
    | drain => exact .inr (List.mem_append_right _ hp)
    | _ => exact .inl hp
  · intro p hp
    cases hc with
    | insert hf =>
      refine ⟨?_, .inl hp⟩
      have hne : p ≠ db.next := Nat.ne_of_lt ((h.placed p).mpr (.inr hp))
      simp [hapart p hp, hne]
    | remove hq =>
      exact ⟨fun hm => hapart p hp (List.mem_of_mem_erase hm), .inl (List.mem_append_left _ hp)⟩
    | drain => exact ⟨List.not_mem_nil, .inl (List.mem_append_left _ hp)⟩
    | _ => exact ⟨hapart p hp, .inl hp⟩

/-- Every record is in exactly one place and moves forward only, after each step
of a run, exactly if no pass of the run meets a dead record that it may reclaim. -/
theorem lifecycle_iff_unreclaimed (ds : List (Done sig DbOp Unit)) (db : ReserveDataDatabase) :
    Run (Observed (Alone dbOperation effect) (fun u _ v => Conserved v ∧ Forward u v))
      .empty ds db ↔
    Run (Guarded (Alone dbOperation effect) Unreclaimed) .empty ds db := by
  have start : WellFormed .empty ∧ ReserveDataDatabase.empty.destroyed = [] := ⟨.empty, rfl⟩
  constructor
  · intro h
    refine Run.permitted (I := fun db => WellFormed db ∧ db.destroyed = []) ?_ h start
    intro u d v hu hs hgood
    obtain ⟨hc, hiff⟩ := dbOperation_runs hs
    have hv := hu.1.change hc
    have hnil := hv.conserved_iff.mp hgood.1
    exact ⟨⟨hv, hnil⟩, (hiff hu.2).mp hnil⟩
  · intro h
    refine (Run.observed (I := fun db => WellFormed db ∧ db.destroyed = []) ?_ h start).1
    intro u d v hu hs hok
    obtain ⟨hc, hiff⟩ := dbOperation_runs hs
    have hv := hu.1.change hc
    have hnil := (hiff hu.2).mpr hok
    exact ⟨⟨hv, hnil⟩, hv.conserved_iff.mpr hnil, hc.forward hu.1 hu.2 hnil⟩

/-- Two passes destroy the same record, which stays on the dead list. -/
theorem record_destroyed_twice : ∃ ds db, Run (Alone dbOperation effect) .empty ds db ∧
    db.data = [] ∧ db.deadList = [0] ∧ db.destroyed = [0, 0] ∧ ¬Conserved db := by
  refine ⟨[⟨.reserveDataDBAddEntry 7 ⟨false, 0, 0, 1, 5⟩,
      [.lock none, .call .malloc ⟨1, 0⟩, .call .mutexInit ⟨0, 0⟩, .unlock], ()⟩,
    ⟨.controller (.removeReserveParamsForUID 7), [.lock none, .unlock], ()⟩,
    ⟨.controller .reserveDataDBClearUnused, [.lock none, .unlock], ()⟩,
    ⟨.controller .reserveDataDBClearUnused, [.lock none, .unlock], ()⟩], _,
    ⟨_, rfl, _, rfl, _, rfl, _, rfl, rfl⟩, rfl, rfl, rfl, ?_⟩
  intro h
  have := h 0 (by decide)
  exact absurd this (by decide)

end PowerArbiter
