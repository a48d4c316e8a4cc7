import PowerArbiter.Monitor.Run
import PowerArbiter.Proofs.Controller

namespace PowerArbiter
open Monitor

/-- The one change to the database that a call makes, if any. -/
inductive Change (db : ReserveDataDatabase) : ReserveDataDatabase → Prop
  | same : Change db db
  | insert {uid data} (h : db.find uid = none) :
      Change db { db.allocate ⟨data, uid⟩ with data := db.data ++ [db.next] }
  | remove {p} (h : p ∈ db.data) :
      Change db { db with data := db.data.erase p, deadList := db.deadList ++ [p] }
  | create {p reserve tap} (h : p ∈ db.data) (hc : (db.heap p).data.reserveCreated = false) :
      Change db (db.modify p (.created reserve tap))
  | rate {p tapType tapValue} (h : p ∈ db.data) : Change db (db.modify p (.rated tapType tapValue))
  | bury {ds} (h : ∀ p ∈ ds, p ∈ db.deadList) : Change db (db.bury ds)
  | drain : Change db { db with data := [], deadList := db.deadList ++ db.data }

variable {db db' : ReserveDataDatabase} {es : List (Event sig)}

theorem find_mem {uid : Uid} {p : RecordPtr} (h : db.find uid = some p) :
    p ∈ db.data ∧ (db.heap p).uid = uid :=
  ⟨List.mem_of_find?_eq_some h, by simpa using List.find?_some h⟩

theorem find_none {uid : Uid} (h : db.find uid = none) : ∀ p ∈ db.data, (db.heap p).uid ≠ uid := by
  intro p hp
  simpa using List.find?_eq_none.mp h p hp

theorem Sweep.subset {ps ds : List RecordPtr} {err err' : Int32}
    (h : Sweep db ps err es err' ds) : ∀ p ∈ ds, p ∈ ps := by
  induction h with
  | nil => exact fun _ h => h
  | @cons p ps _ _ _ _ _ gone _ _ _ ih =>
    intro q hq
    cases gone <;> simp only [Bool.false_eq_true, ↓reduceIte, List.nil_append, List.mem_append,
      List.mem_singleton] at hq
    · exact List.mem_cons_of_mem _ (ih q hq)
    · rcases hq with rfl | hq
      · exact List.mem_cons_self
      · exact List.mem_cons_of_mem _ (ih q hq)

theorem Sweep.fresh_gone {ps ds : List RecordPtr} {err err' : Int32}
    (h : Sweep db ps err es err' ds) :
    ∀ p ∈ ps, (db.heap p).data.reserveCreated = false → p ∈ ds := by
  induction h with
  | nil => simp
  | @cons p ps _ _ _ _ _ gone _ hv _ ih =>
    intro q hq hc
    rcases List.mem_cons.mp hq with rfl | hq
    · cases hv with
      | fresh _ => exact List.mem_append_left _ List.mem_cons_self
      | failed hp _ => simp [hc] at hp
      | shared hp _ _ => simp [hc] at hp
      | last hp _ _ => simp [hc] at hp
    · exact List.mem_append_right _ (ih q hq hc)

theorem Visit.created_iff {p : RecordPtr} {err err' : Int32} {gone : Bool}
    (h : Visit db p err es err' gone) :
    (gone = true → (db.heap p).data.reserveCreated = false) ↔
      ∀ id a, .call (.reserveInfo id) a ∈ es → ¬(a.ret = 0 ∧ a.numUsers = 1) := by
  cases h with
  | fresh hc => simp [hc]
  | failed hc ha => simpa using fun h => absurd h ha
  | shared hc ha hn => simpa using fun _ => hn
  | @last a _ hc ha hn =>
    simp only [hc, Bool.true_eq_false, imp_false, not_true_eq_false, false_iff, not_forall]
    exact ⟨_, a, List.mem_cons_self, by simp [ha, hn]⟩

/-- A pass destroys a record with a reserve when a query reports one user. -/
theorem Sweep.created_iff {ps ds : List RecordPtr} {err err' : Int32}
    (h : Sweep db ps err es err' ds) :
    (∀ p ∈ ds, (db.heap p).data.reserveCreated = false) ↔
      ∀ id a, .call (.reserveInfo id) a ∈ es → ¬(a.ret = 0 ∧ a.numUsers = 1) := by
  induction h with
  | nil => simp
  | @cons p ps _ _ _ _ _ gone _ hv _ ih =>
    have hvisit := hv.created_iff
    cases gone with
    | true =>
      simp only [↓reduceIte, List.singleton_append, List.forall_mem_cons, ih]
      grind
    | false =>
      simp only [Bool.false_eq_true, ↓reduceIte, List.nil_append, ih]
      grind

theorem Added.change {uid : Uid} {data : UIDReserveData} {ret : Int32}
    (h : Added uid data db es ret db') : Change db db' := by
  cases h with
  | busy e => exact .same
  | present h => exact .same
  | failed h hr => exact .same
  | done h hr => exact .insert h

/-- What one operation changes. -/
theorem Operated.change {op : Op} {r : Outcome} (h : Operated db op es r db') : Change db db' := by
  cases h with
  | stat h =>
    cases h with
    | created hf hc hr hx =>
      cases hr
      exact .create (find_mem hf).1 hc
    | _ => exact .same
  | get h => exact .same
  | set h =>
    cases h with
    | stored hv hf hc => exact .rate (find_mem hf).1
    | accepted hv hf hc ha => exact .rate (find_mem hf).1
    | _ => exact .same
  | add h =>
    cases h with
    | invalid h => exact .same
    | valid hv h => exact h.change
  | remove h =>
    cases h with
    | done hf => exact .remove (find_mem hf).1
    | _ => exact .same
  | clear h =>
    cases h with
    | busy e => exact .same
    | done h => exact .bury h.subset

theorem Operated.destroyed {op : Op} {r : Outcome} (h : Operated db op es r db')
    (hop : op ≠ .reserveDataDBClearUnused) : db'.destroyed = db.destroyed := by
  cases h with
  | stat h =>
    cases h with
    | created hf hc hr hx => cases hr; rfl
    | _ => rfl
  | get h => rfl
  | set h => cases h <;> rfl
  | add h =>
    cases h with
    | invalid h => rfl
    | valid hv h => cases h <;> rfl
  | remove h => cases h <;> rfl
  | clear h => exact absurd rfl hop

/-- The containers agree with one another, and the table is a map. -/
structure WellFormed (db : ReserveDataDatabase) : Prop where
  data : db.data.Nodup
  dead : db.deadList.Nodup
  apart : ∀ p ∈ db.data, p ∉ db.deadList
  placed : ∀ p, p < db.next ↔ p ∈ db.data ∨ p ∈ db.deadList
  keys : ∀ p ∈ db.data, ∀ q ∈ db.data, (db.heap p).uid = (db.heap q).uid → p = q
  buried : ∀ p ∈ db.destroyed, p ∈ db.deadList

theorem WellFormed.empty : WellFormed .empty := by
  constructor <;> simp [ReserveDataDatabase.empty]

@[simp] theorem heap_modify_self (p : RecordPtr) (f : UIDReserveData → UIDReserveData) :
    ((db.modify p f).heap p).data = f (db.heap p).data := by
  simp [ReserveDataDatabase.modify]

theorem heap_modify_of_ne {p q : RecordPtr} (f : UIDReserveData → UIDReserveData) (h : q ≠ p) :
    (db.modify p f).heap q = db.heap q := by
  simp [ReserveDataDatabase.modify, h]

theorem heap_allocate_of_lt {p : RecordPtr} (record : UIDReserveRecord) (h : p < db.next) :
    (db.allocate record).heap p = db.heap p := by
  simp [ReserveDataDatabase.allocate, Nat.ne_of_lt h]

theorem heap_modify_uid (p q : RecordPtr) (f : UIDReserveData → UIDReserveData) :
    ((db.modify p f).heap q).uid = (db.heap q).uid := by
  by_cases hq : q = p
  · subst hq; simp [ReserveDataDatabase.modify]
  · simp [ReserveDataDatabase.modify, Function.update_of_ne hq]

theorem WellFormed.modify (h : WellFormed db) (p : RecordPtr)
    (f : UIDReserveData → UIDReserveData) : WellFormed (db.modify p f) where
  data := h.data
  dead := h.dead
  apart := h.apart
  placed := h.placed
  keys := by
    intro q hq r hr
    rw [heap_modify_uid, heap_modify_uid]
    exact h.keys q hq r hr
  buried := h.buried

theorem WellFormed.insert (h : WellFormed db) {uid : Uid} (data : UIDReserveData)
    (hf : db.find uid = none) :
    WellFormed { db.allocate ⟨data, uid⟩ with data := db.data ++ [db.next] } := by
  have hnew : ∀ p ∈ db.data ++ db.deadList, p ≠ db.next := by
    intro p hp
    exact Nat.ne_of_lt ((h.placed p).mpr (List.mem_append.mp hp))
  have hdata : ∀ p ∈ db.data, p ≠ db.next := fun p hp => hnew p (List.mem_append_left _ hp)
  have hdead : ∀ p ∈ db.deadList, p ≠ db.next := fun p hp => hnew p (List.mem_append_right _ hp)
  refine ⟨?_, h.dead, ?_, ?_, ?_, h.buried⟩
  · simpa [List.nodup_append, h.data] using fun p hp => hdata p hp
  · intro p hp
    rcases List.mem_append.mp hp with hp | hp
    · exact h.apart p hp
    · simp only [List.mem_singleton] at hp
      subst hp
      exact fun hd => hdead _ hd rfl
  · intro p
    simp only [ReserveDataDatabase.allocate, List.mem_append, List.mem_singleton]
    rw [or_right_comm, ← h.placed p]
    exact Nat.lt_succ_iff_lt_or_eq
  · intro p hp q hq huid
    have old : ∀ r ∈ db.data, (Function.update db.heap db.next ⟨data, uid⟩ r).uid =
        (db.heap r).uid := fun r hr => by rw [Function.update_of_ne (hdata r hr)]
    have hnone := find_none hf
    simp only [ReserveDataDatabase.allocate, List.mem_append, List.mem_singleton] at hp hq huid
    rcases hp with hp | rfl <;> rcases hq with hq | rfl
    · rw [old p hp, old q hq] at huid
      exact h.keys p hp q hq huid
    · rw [old p hp, Function.update_self] at huid
      exact absurd huid (hnone p hp)
    · rw [old q hq, Function.update_self] at huid
      exact absurd huid.symm (hnone q hq)
    · rfl

theorem WellFormed.remove (h : WellFormed db) {p : RecordPtr} (hp : p ∈ db.data) :
    WellFormed { db with data := db.data.erase p, deadList := db.deadList ++ [p] } := by
  refine ⟨h.data.erase p, ?_, ?_, ?_, ?_, ?_⟩
  · refine List.nodup_append.mpr ⟨h.dead, by simp, ?_⟩
    intro q hq r hr hqr
    rw [List.mem_singleton] at hr
    subst hr
    exact h.apart r hp (hqr ▸ hq)
  · intro q hq
    have hne := (h.data.mem_erase_iff.mp hq).1
    simp [h.apart q (List.mem_of_mem_erase hq), hne]
  · intro q
    have := h.placed q
    simp only [h.data.mem_erase_iff, List.mem_append, List.mem_singleton]
    by_cases hq : q = p
    · subst hq; simp [this, hp]
    · simp [hq, this]
  · intro q hq r hr
    exact h.keys q (List.mem_of_mem_erase hq) r (List.mem_of_mem_erase hr)
  · intro q hq
    exact List.mem_append_left _ (h.buried q hq)

theorem WellFormed.drain (h : WellFormed db) :
    WellFormed { db with data := [], deadList := db.deadList ++ db.data } := by
  refine ⟨List.nodup_nil, ?_, by simp, ?_, by simp, ?_⟩
  · refine List.nodup_append.mpr ⟨h.dead, h.data, ?_⟩
    intro p hp q hq hpq
    exact h.apart q hq (hpq ▸ hp)
  · intro p
    simpa [or_comm] using h.placed p
  · intro p hp
    exact List.mem_append_left _ (h.buried p hp)

theorem WellFormed.change (h : WellFormed db) (hc : Change db db') : WellFormed db' := by
  cases hc with
  | same => exact h
  | insert hf => exact h.insert _ hf
  | remove hp => exact h.remove hp
  | create hp _ => exact h.modify _ _
  | rate hp => exact h.modify _ _
  | bury hd =>
    refine ⟨h.data, h.dead, h.apart, h.placed, h.keys, ?_⟩
    intro p hp
    rcases List.mem_append.mp hp with hp | hp
    · exact h.buried p hp
    · exact hd p hp
  | drain => exact h.drain

/-- Nothing is written to a record on the dead list. -/
theorem Change.dead_kept (h : WellFormed db) (hc : Change db db') :
    ∀ p ∈ db.deadList, db'.heap p = db.heap p := by
  intro p hp
  have hne : ∀ q ∈ db.data, p ≠ q := fun q hq hpq => h.apart q hq (hpq ▸ hp)
  cases hc with
  | insert hf => exact heap_allocate_of_lt _ ((h.placed p).mpr (.inr hp))
  | create hq _ => exact heap_modify_of_ne _ (hne _ hq)
  | rate hq => exact heap_modify_of_ne _ (hne _ hq)
  | _ => rfl

theorem WellFormed.find_iff (h : WellFormed db) {uid : Uid} {p : RecordPtr} :
    db.find uid = some p ↔ p ∈ db.data ∧ (db.heap p).uid = uid := by
  constructor
  · exact find_mem
  · intro hx
    obtain ⟨hp, hu⟩ := hx
    cases hf : db.find uid with
    | none => exact absurd hu (find_none hf p hp)
    | some q =>
      obtain ⟨hq, hqu⟩ := find_mem hf
      rw [h.keys p hp q hq (hu.trans hqu.symm)]

/-- A record keeps its key. -/
theorem Change.uid_kept (hc : Change db db') {p : RecordPtr} (hp : p < db.next) :
    (db'.heap p).uid = (db.heap p).uid := by
  cases hc with
  | insert hf => rw [heap_allocate_of_lt _ hp]
  | create _ _ => exact heap_modify_uid _ _ _
  | rate _ => exact heap_modify_uid _ _ _
  | _ => rfl

/-- Only a removal takes records out of the table. -/
theorem Operated.stays {op : Op} {r : Outcome} (h : Operated db op es r db')
    (hop : ∀ uid, op ≠ .removeReserveParamsForUID uid) : ∀ p ∈ db.data, p ∈ db'.data := by
  intro p hp
  cases h with
  | stat h =>
    cases h with
    | created _ _ hr _ => cases hr; exact hp
    | _ => exact hp
  | get h => exact hp
  | set h => cases h <;> exact hp
  | add h =>
    cases h with
    | invalid h => exact hp
    | valid hv h =>
      cases h with
      | done hf hr => exact List.mem_append_left _ hp
      | _ => exact hp
  | remove h => exact absurd rfl (hop _)
  | clear h => cases h <;> exact hp

/-- And only an addition puts one in. -/
theorem Operated.comes {op : Op} {r : Outcome} (h : Operated db op es r db')
    (hop : ∀ tmp uid tapType tapValue, op ≠ .addReserveParamsForUID tmp uid tapType tapValue) :
    ∀ p ∈ db'.data, p ∈ db.data := by
  intro p hp
  cases h with
  | stat h =>
    cases h with
    | created _ _ hr _ => cases hr; exact hp
    | _ => exact hp
  | get h => exact hp
  | set h => cases h <;> exact hp
  | add h => exact absurd rfl (hop _ _ _ _)
  | remove h =>
    cases h with
    | done hf => exact List.mem_of_mem_erase hp
    | _ => exact hp
  | clear h => cases h <;> exact hp

end PowerArbiter
