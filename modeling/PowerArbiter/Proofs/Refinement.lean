import PowerArbiter.Mapping
import PowerArbiter.Proofs.Containers

namespace PowerArbiter
open Monitor

/-- What the users can tell of a record. The ids of a record without a reserve
are whatever the stack held, and no part of it. -/
def UIDReserveData.entry (d : UIDReserveData) : Entry :=
  ⟨d.tapType, d.tapValue, if d.reserveCreated then some (d.reserveId, d.tapId) else none⟩

def ReserveDataDatabase.abstract (db : ReserveDataDatabase) : Mapping where
  entries uid := (db.find uid).map fun p => (db.heap p).data.entry
  removed := db.deadList.map fun p => (db.heap p).data.entry.ids.map Prod.fst

variable {db db' : ReserveDataDatabase} {es : List (Event sig)}

theorem kernelCalls_append (es fs : List (Event sig)) :
    kernelCalls (es ++ fs) = kernelCalls es ++ kernelCalls fs := by
  induction es with
  | nil => rfl
  | cons e es ih =>
    cases e with
    | call c a => cases c <;> simp [kernelCalls, ih]
    | _ => simp [kernelCalls, ih]

/-- The map as a whole, from the records that it finds. -/
theorem WellFormed.find_eq (h : WellFormed db) {uid : Uid} {x : Option RecordPtr}
    (hx : ∀ p, x = some p ↔ p ∈ db.data ∧ (db.heap p).uid = uid) : db.find uid = x := by
  apply Option.ext
  intro p
  rw [h.find_iff, hx]

theorem find_modify (p : RecordPtr) (f : UIDReserveData → UIDReserveData) (uid : Uid) :
    (db.modify p f).find uid = db.find uid := by
  simp only [ReserveDataDatabase.find, heap_modify_uid]
  rfl

theorem find_insert (h : WellFormed db) {uid : Uid} {data : UIDReserveData}
    (hf : db.find uid = none) (u : Uid) :
    ({ db.allocate ⟨data, uid⟩ with data := db.data ++ [db.next] } : ReserveDataDatabase).find u =
      if u = uid then some db.next else db.find u := by
  have hlt : ∀ p ∈ db.data, p < db.next := fun p hp => (h.placed p).mpr (.inl hp)
  apply (h.insert data hf).find_eq
  intro p
  by_cases hp : p = db.next
  · subst hp
    have hold : ¬db.find u = some db.next := fun hu => Nat.lt_irrefl _ (hlt _ (find_mem hu).1)
    by_cases hu : u = uid
    · simp [hu, ReserveDataDatabase.allocate]
    · simpa [hu, Ne.symm hu, ReserveDataDatabase.allocate] using hold
  · have hmem : p ∈ db.data ++ [db.next] ↔ p ∈ db.data := by simp [hp]
    rw [hmem]
    by_cases hu : u = uid
    · simp only [hu, ↓reduceIte, Option.some.injEq]
      constructor
      · intro he
        exact absurd he.symm hp
      · intro hx
        obtain ⟨hd, he⟩ := hx
        rw [heap_allocate_of_lt _ (hlt p hd)] at he
        exact absurd he (find_none hf p hd)
    · simp only [hu, ↓reduceIte, h.find_iff]
      apply and_congr_right
      intro hd
      rw [heap_allocate_of_lt _ (hlt p hd)]

theorem find_remove (h : WellFormed db) {uid : Uid} {p : RecordPtr} (hf : db.find uid = some p)
    (u : Uid) :
    ({ db with data := db.data.erase p, deadList := db.deadList ++ [p] } :
      ReserveDataDatabase).find u = if u = uid then none else db.find u := by
  apply (h.remove (find_mem hf).1).find_eq
  intro q
  by_cases hu : u = uid
  · simp only [hu, ↓reduceIte, reduceCtorEq, false_iff, not_and]
    intro hq he
    have hq := h.data.mem_erase_iff.mp hq
    exact hq.1 (h.keys q hq.2 p (find_mem hf).1 (he.trans (find_mem hf).2.symm))
  · simp only [hu, ↓reduceIte, h.find_iff, h.data.mem_erase_iff]
    constructor
    · intro hx
      obtain ⟨hq, he⟩ := hx
      refine ⟨⟨?_, hq⟩, he⟩
      intro hqp
      subst hqp
      exact hu (he.symm.trans (find_mem hf).2)
    · intro hx
      obtain ⟨⟨_, hq⟩, he⟩ := hx
      exact ⟨hq, he⟩

theorem abstract_insert (h : WellFormed db) {uid : Uid} {data : UIDReserveData}
    (hf : db.find uid = none) (hc : data.reserveCreated = false) :
    ({ db.allocate ⟨data, uid⟩ with data := db.data ++ [db.next] } : ReserveDataDatabase).abstract =
      db.abstract.put uid (some ⟨data.tapType, data.tapValue, none⟩) := by
  simp only [ReserveDataDatabase.abstract, Mapping.put, Mapping.mk.injEq]
  constructor
  · funext u
    rw [find_insert h hf u]
    by_cases hu : u = uid
    · subst hu
      simp [ReserveDataDatabase.allocate, UIDReserveData.entry, hc]
    · simp only [hu, ↓reduceIte, Function.update_of_ne hu]
      cases hu : db.find u with
      | none => rfl
      | some p =>
        have hp : p < db.next := (h.placed p).mpr (.inl (find_mem hu).1)
        simp only [Option.map_some, heap_allocate_of_lt _ hp]
  · apply List.map_congr_left
    intro p hp
    rw [heap_allocate_of_lt _ ((h.placed p).mpr (.inr hp))]

theorem abstract_remove (h : WellFormed db) {uid : Uid} {p : RecordPtr}
    (hf : db.find uid = some p) :
    ({ db with data := db.data.erase p, deadList := db.deadList ++ [p] } :
      ReserveDataDatabase).abstract =
      { db.abstract.put uid none with
        removed := db.abstract.removed ++ [(db.heap p).data.entry.ids.map Prod.fst] } := by
  simp only [ReserveDataDatabase.abstract, Mapping.put, Mapping.mk.injEq, List.map_append,
    List.map_cons, List.map_nil, and_true]
  funext u
  rw [find_remove h hf u]
  by_cases hu : u = uid
  · subst hu
    simp
  · simp [hu]

theorem abstract_modify (h : WellFormed db) {uid : Uid} {p : RecordPtr}
    (hf : db.find uid = some p) (f : UIDReserveData → UIDReserveData) :
    (db.modify p f).abstract = db.abstract.put uid (some (f (db.heap p).data).entry) := by
  simp only [ReserveDataDatabase.abstract, Mapping.put, Mapping.mk.injEq, find_modify]
  constructor
  · funext u
    by_cases hu : u = uid
    · subst hu
      simp [hf]
    · rw [Function.update_of_ne hu]
      cases hq : db.find u with
      | none => rfl
      | some q =>
        have hne : q ≠ p := by
          intro hx
          subst hx
          exact hu ((find_mem hq).2.symm.trans (find_mem hf).2)
        simp only [Option.map_some, heap_modify_of_ne _ hne]
  · apply List.map_congr_left
    intro q hq
    have hne : q ≠ p := by
      intro hx
      subst hx
      exact h.apart q (find_mem hf).1 hq
    rw [heap_modify_of_ne _ hne]

theorem abstract_bury (ds : List RecordPtr) : (db.bury ds).abstract = db.abstract := rfl

theorem abstract_entries (uid : Uid) :
    db.abstract.entries uid = (db.find uid).map fun p => (db.heap p).data.entry := rfl

theorem Visit.pass {p : RecordPtr} {err err' : Int32} {gone : Bool}
    (h : Visit db p err es err' gone)
    (ids : List (Option Int32)) (rest : List (Call × Answer)) :
    Mapping.pass err ((db.heap p).data.entry.ids.map Prod.fst :: ids) (kernelCalls es ++ rest) =
      Mapping.pass err' ids rest := by
  cases h with
  | fresh hc => simp [UIDReserveData.entry, hc, Mapping.pass, kernelCalls]
  | failed hc ha => simp [UIDReserveData.entry, hc, Mapping.pass, kernelCalls, ha]
  | shared hc ha hn => simp [UIDReserveData.entry, hc, Mapping.pass, kernelCalls, ha, hn]
  | last hc ha hn => simp [UIDReserveData.entry, hc, Mapping.pass, kernelCalls, ha, hn]

theorem Sweep.pass {ps ds : List RecordPtr} {err err' : Int32} (h : Sweep db ps err es err' ds) :
    Mapping.pass err (ps.map fun p => (db.heap p).data.entry.ids.map Prod.fst) (kernelCalls es) =
      some (err', []) := by
  induction h with
  | nil => rfl
  | cons hv _ ih => rw [kernelCalls_append, List.map_cons, hv.pass, ih]

theorem Exposed.grant {p : RecordPtr} {pid : Pid} {r : StatResult} (h : Exposed db p pid es r) :
    Mapping.grant pid (db.heap p).data.reserveId (kernelCalls es) = some (.stat r, []) := by
  cases h with
  | refused ha => simp [Mapping.grant, kernelCalls, ha]
  | granted ha => simp [Mapping.grant, kernelCalls, ha]

theorem Created.supply_error {p : RecordPtr} {uid : Uid} {root : Int32} {err : Long}
    (h : Created db p uid root es (.error err) db') (rest : List (Call × Answer)) :
    Mapping.supply uid (db.heap p).data.tapType (db.heap p).data.tapValue root
      (kernelCalls es ++ rest) = some (.error err, rest) := by
  cases h with
  | noReserve ha => simp [Mapping.supply, kernelCalls, createCall, ha]
  | noTap ha hb => simp [Mapping.supply, kernelCalls, createCall, tapCall, ha, hb]
  | noRate ha hb hc =>
    simp [Mapping.supply, kernelCalls, createCall, tapCall, rateCall, ha, hb, hc]

theorem Created.supply_ok {p : RecordPtr} {uid : Uid} {root : Int32}
    (h : Created db p uid root es (.ok ()) db') : ∃ reserve tap,
    db' = db.modify p (.created reserve tap) ∧ ∀ rest,
      Mapping.supply uid (db.heap p).data.tapType (db.heap p).data.tapValue root
        (kernelCalls es ++ rest) = some (.ok (reserve, tap), rest) := by
  cases h with
  | done ha hb hc =>
    refine ⟨_, _, rfl, fun rest => ?_⟩
    simp [Mapping.supply, kernelCalls, createCall, tapCall, rateCall, ha, hb, hc]

theorem Stated.refines (hw : WellFormed db) {uid : Uid} {pid : Pid} {r : StatResult}
    (h : Stated db uid pid es r db') (hs : ∀ e ∈ es, ¬Refused e) :
    db.abstract.stat uid pid (kernelCalls es) = some ((.stat r, db'.abstract), []) := by
  cases h with
  | busy e => exact absurd trivial (hs (.lock (some e)) (by simp))
  | absent h => simp [Mapping.stat, abstract_entries, h, kernelCalls]
  | @recordBusy a p h e => exact absurd trivial (hs (.lockInner p (some e)) (by simp))
  | exposed h hc hx =>
    simp [Mapping.stat, abstract_entries, h, UIDReserveData.entry, hc, kernelCalls, hx.grant]
  | failed h hc hr =>
    have hsupply := hr.supply_error []
    simp only [List.append_nil] at hsupply
    simp [Mapping.stat, abstract_entries, h, UIDReserveData.entry, hc, kernelCalls,
      kernelCalls_append, hsupply]
  | created h hc hr hx =>
    obtain ⟨reserve, tap, rfl, hsupply⟩ := hr.supply_ok
    have hgrant := hx.grant
    simp only [heap_modify_self, UIDReserveData.created] at hgrant
    rw [abstract_modify hw h]
    simp [Mapping.stat, abstract_entries, h, UIDReserveData.entry, hc, kernelCalls,
      kernelCalls_append, hsupply, hgrant, UIDReserveData.created]

theorem Got.refines {uid : Uid} {r : Int32 × Option (UInt64 × Int64)} (h : Got db uid es r)
    (hs : ∀ e ∈ es, ¬Refused e) :
    db.abstract.get uid = (.get r.1 r.2, db.abstract) ∧ kernelCalls es = [] := by
  cases h with
  | busy e => exact absurd trivial (hs (.lock (some e)) (by simp))
  | absent h => simp [Mapping.get, abstract_entries, h, kernelCalls]
  | @recordBusy p h e => exact absurd trivial (hs (.lockInner p (some e)) (by simp))
  | done h => simp [Mapping.get, abstract_entries, h, UIDReserveData.entry, kernelCalls]

theorem ParamsSet.refines (hw : WellFormed db) {uid : Uid} {tapType : UInt64} {tapValue : Int64}
    {r : Int32 × UInt32} (h : ParamsSet db uid tapType tapValue es r db')
    (hs : ∀ e ∈ es, ¬Refused e) :
    db.abstract.set uid tapType tapValue (kernelCalls es) =
      some ((.set r.1 r.2, db'.abstract), []) := by
  cases h with
  | invalid h => simp [Mapping.set, h, kernelCalls]
  | busy hv e => exact absurd trivial (hs (.lock (some e)) (by simp))
  | absent hv h => simp [Mapping.set, hv, abstract_entries, h, kernelCalls]
  | @recordBusy p hv h e => exact absurd trivial (hs (.lockInner p (some e)) (by simp))
  | stored hv h hc =>
    rw [abstract_modify hw h]
    simp [Mapping.set, hv, abstract_entries, h, UIDReserveData.entry, hc, UIDReserveData.rated,
      kernelCalls]
  | refused hv h hc ha =>
    simp [Mapping.set, hv, abstract_entries, h, UIDReserveData.entry, hc, kernelCalls, rateCall,
      ha]
  | accepted hv h hc ha =>
    rw [abstract_modify hw h]
    simp [Mapping.set, hv, abstract_entries, h, UIDReserveData.entry, hc, kernelCalls, rateCall,
      ha, UIDReserveData.rated]

theorem RecordCreated.no_error {uid : Uid} {data : UIDReserveData} {err : Int32}
    (h : RecordCreated uid data db es (.error err) db') (hs : ∀ e ∈ es, ¬Refused e) : False := by
  cases h with
  | noMemory ha => exact hs _ List.mem_cons_self ha
  | noMutex ha hb => exact hs _ (List.mem_cons_of_mem _ List.mem_cons_self) hb

theorem RecordCreated.silent {uid : Uid} {data : UIDReserveData} {r : Except Int32 RecordPtr}
    (h : RecordCreated uid data db es r db') : kernelCalls es = [] := by
  cases h <;> rfl

theorem ParamsAdded.refines (hw : WellFormed db) {tmp : UIDReserveData} {uid : Uid}
    {tapType : UInt64} {tapValue : Int64} {r : Int32 × UInt32}
    (h : ParamsAdded tmp db uid tapType tapValue es r db') (hs : ∀ e ∈ es, ¬Refused e) :
    db.abstract.add uid tapType tapValue = (.add r.1 r.2, db'.abstract) ∧
      kernelCalls es = [] := by
  cases h with
  | invalid h => simp [Mapping.add, h, kernelCalls]
  | valid hv h =>
    cases h with
    | busy e => exact absurd trivial (hs (.lock (some e)) (by simp))
    | present h => simp [Mapping.add, hv, abstract_entries, h, kernelCalls]
    | failed h hr =>
      refine (hr.no_error ?_).elim
      intro e he
      exact hs e (List.mem_cons_of_mem _ (List.mem_append_left _ he))
    | done h hr =>
      have hsilent := hr.silent
      rw [abstract_insert hw h rfl]
      simp [Mapping.add, hv, abstract_entries, h, kernelCalls, kernelCalls_append, hsilent]

theorem Removed.refines (hw : WellFormed db) {uid : Uid} {ret : Int32}
    (h : Removed uid db es ret db') (hs : ∀ e ∈ es, ¬Refused e) :
    db.abstract.remove uid = (.remove ret, db'.abstract) ∧ kernelCalls es = [] := by
  cases h with
  | busy e => exact absurd trivial (hs (.lock (some e)) (by simp))
  | absent h => simp [Mapping.remove, abstract_entries, h, kernelCalls]
  | done h =>
    rw [abstract_remove hw h]
    simp [Mapping.remove, abstract_entries, h, kernelCalls]

theorem Cleared.refines {r : Int32 × Option Bool} (h : Cleared db es r db')
    (hs : ∀ e ∈ es, ¬Refused e) :
    db.abstract.clear (kernelCalls es) = some ((.clear r.1 r.2, db'.abstract), []) := by
  cases h with
  | busy e => exact absurd trivial (hs (.lock (some e)) (by simp))
  | @done fs err ds hsweep =>
    have hcalls : kernelCalls (.lock none :: (fs ++ [.unlock])) = kernelCalls fs := by
      simp [kernelCalls, kernelCalls_append]
    have hpass : Mapping.pass 0 db.abstract.removed (kernelCalls fs) = some (err, []) :=
      hsweep.pass
    have hempty : db.abstract.removed.isEmpty = db.deadList.isEmpty := List.isEmpty_map
    rw [hcalls, abstract_bury]
    simp only [Mapping.clear, Replay.bind_apply, hpass, Option.bind_some, hempty,
      Replay.pure_apply]

/-- One operation returns what the map returns, and leaves what the map becomes; and it has made
the calls that the map depends on. -/
theorem Operated.refines (hw : WellFormed db) {op : Op} {r : Outcome}
    (h : Operated db op es r db') (hs : ∀ e ∈ es, ¬Refused e) :
    (db.abstract.step op).exactly (kernelCalls es) = some (r, db'.abstract) := by
  apply Replay.exactly_of_eq
  cases h with
  | stat h => exact h.refines hw hs
  | get h =>
    obtain ⟨hget, hsilent⟩ := h.refines hs
    rw [hsilent, Mapping.step, Replay.pure_apply, hget]
  | set h => exact h.refines hw hs
  | add h =>
    obtain ⟨hadd, hsilent⟩ := h.refines hw hs
    rw [hsilent, Mapping.step, Replay.pure_apply, hadd]
  | remove h =>
    obtain ⟨hremove, hsilent⟩ := h.refines hw hs
    rw [hsilent, Mapping.step, Replay.pure_apply, hremove]
  | clear h => exact h.refines hs

theorem Serial.refines (hw : WellFormed db) {ds : List (Done sig Op Outcome)}
    (h : Serial operation effect db ds db') (hs : ∀ d ∈ ds, ∀ e ∈ d.trace, ¬Refused e) :
    db.abstract.run (ds.map fun d => (d.op, kernelCalls d.trace)) =
      some (ds.map Done.result, db'.abstract) := by
  induction ds generalizing db with
  | nil =>
    have : db' = db := h
    subst this
    rfl
  | cons d ds ih =>
    obtain ⟨mid, hd, hrest⟩ := h
    have ho := operation_runs hd
    have hstep := ho.refines hw (hs d List.mem_cons_self)
    have htail := ih (hw.change ho.change) hrest (fun e he => hs e (List.mem_cons_of_mem _ he))
    simp only [List.map_cons, Mapping.run, hstep, Option.bind_eq_bind, Option.bind_some, htail]
    rfl

/-- Every return code and output parameter of a sequence of operations is that of
the map, and the kernel is asked just what the map depends on, as long as locks, allocations
and mutex initialisations succeed. -/
theorem controller_refines_mapping {ds : List (Done sig Op Outcome)} {db : ReserveDataDatabase}
    (h : Serial operation effect .empty ds db) (hs : ∀ d ∈ ds, ∀ e ∈ d.trace, ¬Refused e) :
    Mapping.empty.run (ds.map fun d => (d.op, kernelCalls d.trace)) =
      some (ds.map Done.result, db.abstract) :=
  Serial.refines .empty h hs

/-- A user is added, granted a reserve, removed and added again while the old
record is on the dead list. -/
theorem readded_user_refines_mapping : ∃ db,
    Serial operation effect .empty [added 1 1 5, granted 1 10 0 1 5 5 3, removed 1, reaped 5,
      added 1 2 50] db ∧
    Mapping.empty.run [(.addReserveParamsForUID ⟨false, 0, 0, 0, 0⟩ 1 1 5, []),
      (.statReserve 1 10, [(.rootReserveId, ⟨0, 0⟩),
        (.createReserve (reserveName 1) (.ofNat ((reserveName 1).length + 1)), ⟨5, 0⟩),
        (.createTap (tapName 1) (.ofNat ((tapName 1).length + 1)) 0 5, ⟨3, 0⟩),
        (.setTapRate 3 (longOfType 1) (longOfValue 5), ⟨0, 0⟩),
        (.exposeReserve 10 5 CINDER_CAP_ALL, ⟨0, 0⟩)]),
      (.removeReserveParamsForUID 1, []),
      (.reserveDataDBClearUnused, [(.reserveInfo 5, ⟨0, 1⟩), (.putReserve 5, ⟨0, 0⟩)]),
      (.addReserveParamsForUID ⟨false, 0, 0, 0, 0⟩ 1 2 50, [])] =
      some ([.add 0 0, .stat ⟨0, some (5, PA_RESERVE_GRANTED)⟩, .remove 0, .clear 0 (some false),
        .add 0 0], db.abstract) := by
  have hrun : Serial operation effect .empty [added 1 1 5, granted 1 10 0 1 5 5 3, removed 1,
    reaped 5, added 1 2 50] _ := ⟨_, rfl, _, rfl, _, rfl, _, rfl, _, rfl, rfl⟩
  refine ⟨_, hrun, controller_refines_mapping hrun ?_⟩
  simp [added, granted, removed, reaped, Refused, createCall, tapCall, rateCall]

end PowerArbiter
