import PowerArbiter.Proofs.Lifecycle
import PowerArbiter.Proofs.Rates

namespace PowerArbiter
open Monitor

/-- Records are added by `addReserveParamsForUID` only. -/
def Controlled (_ : ReserveDataDatabase) (d : Done sig DbOp Unit) : Prop :=
  ∀ uid data, d.op ≠ .reserveDataDBAddEntry uid data

/-- The reserve and the tap were created by one STAT that had found the record, the tap
with the reserve as its destination. -/
def CreatedTogether (ds : List (Done sig DbOp Unit)) (p : RecordPtr) (reserve tap : Int32) : Prop :=
  ∃ before d after db uid pid root a b, ds = before ++ d :: after ∧
    Run (Alone dbOperation effect) .empty before db ∧ db.find uid = some p ∧
    d.op = .controller (.statReserve uid pid) ∧
    [createCall uid a, tapCall uid root a.ret b] <:+: d.trace ∧
    0 ≤ a.ret ∧ 0 ≤ b.ret ∧ reserve = a.ret ∧ tap = b.ret

/-- What is required of the database after the operations `ds`. -/
structure Integral (ds : List (Done sig DbOp Unit)) (db : ReserveDataDatabase) : Prop where
  keys : ∀ p ∈ db.data, ∀ q ∈ db.data, (db.heap p).uid = (db.heap q).uid → p = q
  filed : ∀ p ∈ db.data, db.find (db.heap p).uid = some p
  apart : ∀ p ∈ db.data, p ∉ db.deadList
  once : db.deadList.Nodup
  rates : ∀ p, p ∈ db.data ∨ p ∈ db.deadList →
    ((db.heap p).data.tapType = CINDER_TAP_RATE_CONSTANT ∨
      (db.heap p).data.tapType = CINDER_TAP_RATE_PROPORTIONAL) ∧
    0 ≤ (db.heap p).data.tapValue ∧
    ((db.heap p).data.tapType = CINDER_TAP_RATE_PROPORTIONAL → (db.heap p).data.tapValue ≤ 100)
  ids : ∀ p, p ∈ db.data ∨ p ∈ db.deadList → (db.heap p).data.reserveCreated = true →
    0 ≤ (db.heap p).data.reserveId ∧ 0 ≤ (db.heap p).data.tapId ∧
    CreatedTogether ds p (db.heap p).data.reserveId (db.heap p).data.tapId

/-- What a controlled operation writes to the records. -/
inductive Write (db : ReserveDataDatabase) (d : Done sig DbOp Unit) : ReserveDataDatabase → Prop
  | nothing {db'} (hh : db'.heap = db.heap) (hn : db'.next = db.next) : Write db d db'
  | insert {db' record} (hc : record.data.reserveCreated = false)
      (hv : validParams record.data.tapType record.data.tapValue = true)
      (hh : db'.heap = Function.update db.heap db.next record) (hn : db'.next = db.next + 1) :
      Write db d db'
  | rate {p tapType tapValue} (hv : validParams tapType tapValue = true) :
      Write db d (db.modify p (.rated tapType tapValue))
  | create {p uid pid root a b} (hf : db.find uid = some p)
      (hop : d.op = .controller (.statReserve uid pid))
      (ht : [createCall uid a, tapCall uid root a.ret b] <:+: d.trace) (ha : 0 ≤ a.ret)
      (hb : 0 ≤ b.ret) : Write db d (db.modify p (.created a.ret b.ret))

variable {db db' : ReserveDataDatabase} {es : List (Event sig)}

theorem Operated.write {op : Op} {r : Outcome} (h : Operated db op es r db') :
    Write db ⟨.controller op, es, ()⟩ db' := by
  cases h with
  | stat h =>
    cases h with
    | created hf hc hr hx =>
      cases hr with
      | @done a b c ha hb hrate =>
        exact .create hf rfl ⟨[_, _, _], _, rfl⟩ (Int32.not_lt.mp ha) (Int32.not_lt.mp hb)
    | _ => exact .nothing rfl rfl
  | get h => exact .nothing rfl rfl
  | set h =>
    cases h with
    | stored hv hf hc => exact .rate hv
    | accepted hv hf hc ha => exact .rate hv
    | _ => exact .nothing rfl rfl
  | add h =>
    cases h with
    | invalid h => exact .nothing rfl rfl
    | valid hv h =>
      cases h with
      | done hf hr => exact .insert rfl hv rfl rfl
      | _ => exact .nothing rfl rfl
  | remove h => cases h <;> exact .nothing rfl rfl
  | clear h => cases h <;> exact .nothing rfl rfl

theorem dbOperation_write {d : Done sig DbOp Unit} (h : Alone dbOperation effect db d db')
    (hc : Controlled db d) : Write db d db' := by
  obtain ⟨op, es, r⟩ := d
  cases op with
  | reserveDataDBAddEntry uid data => exact absurd rfl (hc uid data)
  | reserveDataDBEmpty =>
    simp only [Alone, dbOperation, Prog.bind_eq, Prog.runs_bind, Prog.pure_eq, Prog.runs_ret] at h
    obtain ⟨ret, mid, es₁, es₂, rfl, he, rfl, -, rfl⟩ := h
    obtain ⟨_, _, rfl⟩ := reserveDataDBEmpty_runs he
    exact .nothing rfl rfl
  | controller op =>
    simp only [Alone, dbOperation, Prog.bind_eq, Prog.runs_bind, Prog.pure_eq, Prog.runs_ret] at h
    obtain ⟨ret, mid, es₁, es₂, rfl, ho, rfl, -, rfl⟩ := h
    rw [List.append_nil]
    exact (operation_runs ho).write

theorem CreatedTogether.extend {ds : List (Done sig DbOp Unit)} {p : RecordPtr}
    {reserve tap : Int32} (h : CreatedTogether ds p reserve tap) (ks : List (Done sig DbOp Unit)) :
    CreatedTogether (ds ++ ks) p reserve tap := by
  obtain ⟨before, d, after, db, uid, pid, root, a, b, rfl, hx⟩ := h
  exact ⟨before, d, after ++ ks, db, uid, pid, root, a, b, by simp, hx⟩

/-- The invariant, for every record ever created. -/
structure Traced (ds : List (Done sig DbOp Unit)) (db : ReserveDataDatabase) : Prop where
  formed : WellFormed db
  valid : ∀ p < db.next, validParams (db.heap p).data.tapType (db.heap p).data.tapValue = true
  ids : ∀ p < db.next, (db.heap p).data.reserveCreated = true →
    0 ≤ (db.heap p).data.reserveId ∧ 0 ≤ (db.heap p).data.tapId ∧
    CreatedTogether ds p (db.heap p).data.reserveId (db.heap p).data.tapId

theorem Traced.empty : Traced [] .empty := by
  refine ⟨.empty, ?_, ?_⟩ <;> intro p hp <;> exact absurd hp (Nat.not_lt_zero p)

/-- What a write leaves in the records is valid. -/
theorem Write.valid {d : Done sig DbOp Unit} (h : Write db d db')
    (hv : ∀ p < db.next, validParams (db.heap p).data.tapType (db.heap p).data.tapValue = true) :
    ∀ p < db'.next, validParams (db'.heap p).data.tapType (db'.heap p).data.tapValue = true := by
  intro p hp
  cases h with
  | nothing hh hn =>
    rw [hh]
    exact hv p (hn ▸ hp)
  | insert hcr hvalid hh hn =>
    rw [hn] at hp
    rw [hh]
    by_cases hne : p = db.next
    · subst hne
      rw [Function.update_self]
      exact hvalid
    · rw [Function.update_of_ne hne]
      exact hv p (Nat.lt_of_le_of_ne (Nat.le_of_lt_succ hp) hne)
  | @rate q tapType tapValue hvalid =>
    by_cases hpq : p = q
    · subst hpq
      simpa [UIDReserveData.rated] using hvalid
    · rw [heap_modify_of_ne _ hpq]
      exact hv p hp
  | @create q uid pid root a b hf hop ht ha hb =>
    by_cases hpq : p = q
    · subst hpq
      simpa [UIDReserveData.created] using hv p hp
    · rw [heap_modify_of_ne _ hpq]
      exact hv p hp

/-- A record with a reserve had it before the write, or has got it from this STAT. -/
theorem Write.reserve {d : Done sig DbOp Unit} (h : Write db d db') {p : RecordPtr}
    (hp : p < db'.next) (hc : (db'.heap p).data.reserveCreated = true) :
    (p < db.next ∧ (db.heap p).data.reserveCreated = true ∧
      (db'.heap p).data.reserveId = (db.heap p).data.reserveId ∧
      (db'.heap p).data.tapId = (db.heap p).data.tapId) ∨
    ∃ uid pid root a b, db.find uid = some p ∧ d.op = .controller (.statReserve uid pid) ∧
      [createCall uid a, tapCall uid root a.ret b] <:+: d.trace ∧ 0 ≤ a.ret ∧ 0 ≤ b.ret ∧
      (db'.heap p).data.reserveId = a.ret ∧ (db'.heap p).data.tapId = b.ret := by
  cases h with
  | nothing hh hn =>
    rw [hh] at hc ⊢
    exact .inl ⟨hn ▸ hp, hc, rfl, rfl⟩
  | insert hcr hvalid hh hn =>
    rw [hn] at hp
    rw [hh] at hc ⊢
    by_cases hne : p = db.next
    · subst hne
      rw [Function.update_self, hcr] at hc
      cases hc
    · rw [Function.update_of_ne hne] at hc ⊢
      exact .inl ⟨Nat.lt_of_le_of_ne (Nat.le_of_lt_succ hp) hne, hc, rfl, rfl⟩
  | @rate q tapType tapValue hvalid =>
    by_cases hpq : p = q
    · subst hpq
      refine .inl ⟨hp, ?_, ?_, ?_⟩
      · simpa [UIDReserveData.rated] using hc
      · simp [UIDReserveData.rated]
      · simp [UIDReserveData.rated]
    · rw [heap_modify_of_ne _ hpq] at hc ⊢
      exact .inl ⟨hp, hc, rfl, rfl⟩
  | @create q uid pid root a b hf hop ht ha hb =>
    by_cases hpq : p = q
    · subst hpq
      simp only [heap_modify_self, UIDReserveData.created]
      exact .inr ⟨uid, pid, root, a, b, hf, hop, ht, ha, hb, rfl, rfl⟩
    · rw [heap_modify_of_ne _ hpq] at hc ⊢
      exact .inl ⟨hp, hc, rfl, rfl⟩

theorem Traced.step {ds : List (Done sig DbOp Unit)} {d : Done sig DbOp Unit}
    (h : Traced ds db) (hr : Run (Alone dbOperation effect) .empty ds db)
    (hd : Alone dbOperation effect db d db') (hc : Controlled db d) :
    Traced (ds ++ [d]) db' := by
  have hw := dbOperation_write hd hc
  refine ⟨h.formed.change (dbOperation_runs hd).1, hw.valid h.valid, ?_⟩
  intro p hp hcp
  rcases hw.reserve hp hcp with
    ⟨hlt, hold, hres, htap⟩ | ⟨uid, pid, root, a, b, hf, hop, ht, ha, hb, hres, htap⟩
  · obtain ⟨hr, ht, hx⟩ := h.ids p hlt hold
    rw [hres, htap]
    exact ⟨hr, ht, hx.extend [d]⟩
  · rw [hres, htap]
    exact ⟨ha, hb, ds, d, [], db, uid, pid, root, a, b, rfl, hr, hf, hop, ht, ha, hb, rfl, rfl⟩

theorem Traced.integral {ds : List (Done sig DbOp Unit)} (h : Traced ds db) : Integral ds db := by
  have hlt : ∀ p, p ∈ db.data ∨ p ∈ db.deadList → p < db.next := fun p => (h.formed.placed p).mpr
  refine ⟨h.formed.keys, ?_, h.formed.apart, h.formed.dead, ?_, ?_⟩
  · intro p hp
    exact h.formed.find_iff.mpr ⟨hp, rfl⟩
  · intro p hp
    exact (validParams_iff _ _).mp (h.valid p (hlt p hp))
  · intro p hp
    exact h.ids p (hlt p hp)

theorem Traced.of_run {ds : List (Done sig DbOp Unit)}
    (h : Run (Guarded (Alone dbOperation effect) Controlled) .empty ds db) : Traced ds db := by
  have hrun : Run (Alone dbOperation effect) .empty ds db ∧ Traced ds db := by
    refine h.history (P := fun ks u => Run (Alone dbOperation effect) .empty ks u ∧ Traced ks u)
      ⟨rfl, .empty⟩ ?_
    intro ks u d v _ hstep hu
    obtain ⟨hs, hc⟩ := hstep
    exact ⟨run_append.mpr ⟨u, hu.1, v, hs, rfl⟩, hu.2.step hu.1 hs hc⟩
  exact hrun.2

/-- Every run of operations through the controller, and of drains of the table, leaves
the database as it should be. -/
theorem controlled_runs_integral {ds : List (Done sig DbOp Unit)}
    (h : Run (Guarded (Alone dbOperation effect) Controlled) .empty ds db) : Integral ds db :=
  (Traced.of_run h).integral

/-- A record is added, given a reserve and moved to the dead list by the drain. -/
theorem controlled_runs_integral_drained : ∃ ds db,
    Run (Guarded (Alone dbOperation effect) Controlled) .empty ds db ∧ db.deadList = [0] ∧
    (db.heap 0).data.reserveCreated = true ∧ Integral ds db := by
  let drain : Done sig DbOp Unit := ⟨.reserveDataDBEmpty, [], ()⟩
  let act (d : Done sig Op Outcome) : Done sig DbOp Unit := ⟨.controller d.op, d.trace, ()⟩
  obtain ⟨db, hr, hdead, hc⟩ : ∃ db, Run (Guarded (Alone dbOperation effect) Controlled) .empty
      [act (added 7 1 5), act (granted 7 9 0 1 5 5 3), drain] db ∧ db.deadList = [0] ∧
      (db.heap 0).data.reserveCreated = true :=
    ⟨_, ⟨_, ⟨rfl, nofun⟩, _, ⟨rfl, nofun⟩, _, ⟨rfl, nofun⟩, rfl⟩, rfl, rfl⟩
  exact ⟨_, db, hr, hdead, hc, controlled_runs_integral hr⟩

end PowerArbiter
