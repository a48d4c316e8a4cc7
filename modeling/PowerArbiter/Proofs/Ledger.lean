import PowerArbiter.Proofs.Rates

namespace PowerArbiter
open Monitor

/-- The tap was created for the record. -/
def HasTap (db : ReserveDataDatabase) (p : RecordPtr) (tap : Int32) : Prop :=
  (db.heap p).data.reserveCreated = true ∧ (db.heap p).data.tapId = tap

/-- In the table or on the dead list, and not destroyed. -/
def Remains (db : ReserveDataDatabase) (p : RecordPtr) : Prop :=
  (p ∈ db.data ∨ p ∈ db.deadList) ∧ p ∉ db.destroyed

/-- The taps are those of the records that remain, one for each. -/
structure Ledger (w : TapWorld) : Prop where
  live : ∀ tap, (w.2 tap).isSome ↔ ∃ p, Remains w.1 p ∧ HasTap w.1 p tap
  own : ∀ p q tap, Remains w.1 p → HasTap w.1 p tap → Remains w.1 q → HasTap w.1 q tap → p = q

/-- No pass learns that the arbiter is the only user of a dead reserve. -/
def NoneReclaimed (_w : TapWorld) (d : Done sig Op Outcome) : Prop :=
  d.op = .reserveDataDBClearUnused →
    ∀ id a, .call (.reserveInfo id) a ∈ d.trace → ¬(a.ret = 0 ∧ a.numUsers = 1)

/-- What every step keeps: the taps are those of all records ever created. -/
structure Booked (w : TapWorld) : Prop where
  formed : WellFormed w.1
  live : ∀ tap, (w.2 tap).isSome ↔ ∃ p < w.1.next, HasTap w.1 p tap
  own : ∀ p < w.1.next, ∀ q < w.1.next, ∀ tap, HasTap w.1 p tap → HasTap w.1 q tap → p = q

variable {db db' : ReserveDataDatabase} {k k' : Taps} {es : List (Event sig)} {op : Op}
  {r : Outcome}

/-- The ledger is right exactly as long as no record with a tap is destroyed. -/
theorem Booked.ledger_iff (h : Booked (db, k)) :
    Ledger (db, k) ↔ ∀ p ∈ db.destroyed, (db.heap p).data.reserveCreated = false := by
  have hlt : ∀ p, Remains db p → p < db.next := fun p hp => (h.formed.placed p).mpr hp.1
  constructor
  · intro hl p hp
    cases hc : (db.heap p).data.reserveCreated with
    | false => rfl
    | true =>
      have hpn : p < db.next := (h.formed.placed p).mpr (.inr (h.formed.buried p hp))
      have hsome := (h.live _).mpr ⟨p, hpn, hc, rfl⟩
      obtain ⟨q, hq, ht⟩ := (hl.live _).mp hsome
      have hqp : q = p := h.own q (hlt q hq) p hpn _ ht ⟨hc, rfl⟩
      exact absurd hp (hqp ▸ hq.2)
  · intro hd
    refine ⟨?_, ?_⟩
    · intro tap
      rw [h.live]
      constructor
      · intro hx
        obtain ⟨p, hp, ht⟩ := hx
        refine ⟨p, ⟨(h.formed.placed p).mp hp, ?_⟩, ht⟩
        intro hm
        have := hd p hm
        rw [ht.1] at this
        cases this
      · intro hx
        obtain ⟨p, hp, ht⟩ := hx
        exact ⟨p, hlt p hp, ht⟩
    · intro p q tap hp hpt hq hqt
      exact h.own p (hlt p hp) q (hlt q hq) tap hpt hqt

theorem Booked.carry (h : Booked (db, k)) (hform : WellFormed db')
    (hsame : ∀ p tap, (p < db'.next ∧ HasTap db' p tap) ↔ (p < db.next ∧ HasTap db p tap))
    (hk : ∀ tap, (k' tap).isSome = (k tap).isSome) : Booked (db', k') := by
  refine ⟨hform, ?_, ?_⟩
  · intro tap
    simp only [hk, h.live tap, hsame]
  · intro p hp q hq tap hpt hqt
    obtain ⟨hp, hpt⟩ := (hsame p tap).mp ⟨hp, hpt⟩
    obtain ⟨hq, hqt⟩ := (hsame q tap).mp ⟨hq, hqt⟩
    exact h.own p hp q hq tap hpt hqt

theorem hasTap_rated (p q : RecordPtr) (tapType : UInt64) (tapValue : Int64) (tap : Int32) :
    HasTap (db.modify p (.rated tapType tapValue)) q tap ↔ HasTap db q tap := by
  by_cases hq : q = p
  · subst hq
    simp [HasTap, UIDReserveData.rated]
  · simp [HasTap, heap_modify_of_ne _ hq]

theorem hasTap_created (p q : RecordPtr) (reserve tap id : Int32) :
    HasTap (db.modify p (.created reserve tap)) q id ↔
      (q = p ∧ id = tap) ∨ (q ≠ p ∧ HasTap db q id) := by
  by_cases hq : q = p
  · subst hq
    simp only [HasTap, heap_modify_self, UIDReserveData.created, true_and, ne_eq,
      not_true_eq_false, false_and, or_false]
    exact eq_comm
  · simp [HasTap, heap_modify_of_ne _ hq, hq]

theorem Booked.untapped (h : Booked (db, k)) (hu : Untapped db db') : Booked (db', k) := by
  cases hu with
  | same => exact h
  | @insert uid data hf hc hv =>
    refine h.carry (h.formed.insert _ hf) ?_ (fun _ => rfl)
    intro p tap
    by_cases hp : p < db.next
    · have hp' : p < (db.allocate ⟨data, uid⟩).next := Nat.lt_succ_of_lt hp
      simp only [HasTap, heap_allocate_of_lt _ hp, hp, hp', true_and]
    · refine ⟨?_, fun hn => absurd hn.1 hp⟩
      intro hx
      obtain ⟨hlt, hn⟩ := hx
      have hpn : p = db.next := Nat.eq_of_lt_succ_of_not_lt hlt hp
      subst hpn
      have := hn.1
      simp [ReserveDataDatabase.allocate, hc] at this
  | remove hp => exact h.carry (h.formed.remove hp) (fun _ _ => Iff.rfl) (fun _ => rfl)
  | rate hp hc hv =>
    refine h.carry (h.formed.modify _ _) ?_ (fun _ => rfl)
    intro q tap
    rw [hasTap_rated]
    rfl
  | bury hd => exact h.carry (h.formed.change (.bury hd)) (fun _ _ => Iff.rfl) (fun _ => rfl)

theorem Booked.create (h : Booked (db, k)) {p : RecordPtr} {reserve tap : Int32}
    {rate : Long × Long} (hp : p ∈ db.data) (hc : (db.heap p).data.reserveCreated = false)
    (hn : k tap = none) :
    Booked (db.modify p (.created reserve tap), Function.update k tap (some rate)) := by
  have hpn : p < db.next := (h.formed.placed p).mpr (.inl hp)
  have hother : ∀ q < db.next, ¬HasTap db q tap := by
    intro q hq ht
    have := (h.live tap).mpr ⟨q, hq, ht⟩
    simp [hn] at this
  have hself : ∀ id, ¬HasTap db p id := by
    intro id ht
    rw [ht.1] at hc
    cases hc
  refine ⟨h.formed.modify _ _, ?_, ?_⟩
  · intro id
    simp only [hasTap_created]
    by_cases hid : id = tap
    · subst hid
      simp only [Function.update_self, Option.isSome_some, true_iff]
      exact ⟨p, hpn, .inl ⟨rfl, trivial⟩⟩
    · rw [Function.update_of_ne hid]
      refine (h.live id).trans ⟨?_, ?_⟩
      · intro hx
        obtain ⟨q, hq, ht⟩ := hx
        refine ⟨q, hq, .inr ⟨?_, ht⟩⟩
        intro hqp
        exact hself id (hqp ▸ ht)
      · intro hx
        obtain ⟨q, hq, ⟨_, he⟩ | ⟨_, ht⟩⟩ := hx
        · exact absurd he hid
        · exact ⟨q, hq, ht⟩
  · intro q hq q' hq' id ht ht'
    rcases (hasTap_created _ _ _ _ _).mp ht with ⟨rfl, rfl⟩ | ⟨_, hold⟩
    · rcases (hasTap_created _ _ _ _ _).mp ht' with ⟨rfl, _⟩ | ⟨_, hold'⟩
      · rfl
      · exact absurd hold' (hother q' hq')
    · rcases (hasTap_created _ _ _ _ _).mp ht' with ⟨rfl, rfl⟩ | ⟨_, hold'⟩
      · exact absurd hold (hother q hq)
      · exact h.own q hq q' hq' id hold hold'

theorem Booked.step (h : Booked (db, k)) (ho : Operated db op es r db')
    (hf : Follows deletingTapKernel k es k') : Booked (db', k') := by
  cases ho.tapping (fun _ _ _ _ h => h.1) hf with
  | quiet hu => exact h.untapped hu
  | undone hu =>
    rcases hu with hk | ⟨tap, rate, hn, hk, k₁, a, k₂, hdel, hlive, hret⟩
    · exact hk ▸ h
    · exact absurd (hdel.2 tap rfl hlive) hret
  | create hop hfind hc hn hm => exact h.create (find_mem hfind).1 hc hn
  | @rate uid p tapType tapValue a hop hv hfind hc hm =>
    refine h.carry (h.formed.modify _ _) ?_ ?_
    · intro q tap
      rw [hasTap_rated]
      rfl
    · intro tap
      by_cases ht : tap = (db.heap p).data.tapId
      · subst ht
        simp
      · rw [Function.update_of_ne ht]

/-- A step destroys no record with a tap exactly if it is permitted. -/
theorem Operated.reclaims (ho : Operated db op es r db') (hform : WellFormed db)
    (hd : ∀ p ∈ db.destroyed, (db.heap p).data.reserveCreated = false) :
    (∀ p ∈ db'.destroyed, (db'.heap p).data.reserveCreated = false) ↔
      NoneReclaimed (db, k) ⟨op, es, r⟩ := by
  have hheap : ∀ p ∈ db.destroyed, db'.heap p = db.heap p :=
    fun p hp => ho.change.dead_kept hform p (hform.buried p hp)
  by_cases hop : op = .reserveDataDBClearUnused
  · subst hop
    cases ho with
    | clear hcl =>
      cases hcl with
      | busy e => simpa [NoneReclaimed] using hd
      | @done fs err ds hs =>
        have hds := hs.created_iff
        simp only [NoneReclaimed, ReserveDataDatabase.bury, List.mem_append, List.mem_cons,
          reduceCtorEq, false_or, List.not_mem_nil, or_false, forall_const, ← hds]
        exact ⟨fun h p hp => h p (.inr hp), fun h p hp => hp.elim (hd p) (h p)⟩
  · constructor
    · intro _ hclear
      exact absurd hclear hop
    · intro _ p hp
      rw [ho.destroyed hop] at hp
      rw [hheap p hp]
      exact hd p hp

/-- What the permitted steps keep. -/
def Unspent (w : TapWorld) : Prop :=
  Booked w ∧ ∀ p ∈ w.1.destroyed, (w.1.heap p).data.reserveCreated = false

theorem Unspent.start : Unspent (.empty, noTaps) :=
  ⟨⟨.empty, by simp [noTaps, ReserveDataDatabase.empty], by simp [ReserveDataDatabase.empty]⟩,
    by simp [ReserveDataDatabase.empty]⟩

theorem Unspent.step {w w' : TapWorld} {d : Done sig Op Outcome} (h : Unspent w)
    (hs : Served operation effect deletingTapKernel w d w') :
    Booked w' ∧ (Ledger w' ↔ NoneReclaimed w d) ∧ (Ledger w' → Unspent w') := by
  have ho := operation_runs hs.1
  have hb := h.1.step ho hs.2
  have hledger := hb.ledger_iff
  exact ⟨hb, hledger.trans (ho.reclaims h.1.formed h.2), fun hl => ⟨hb, hledger.mp hl⟩⟩

/-- The ledger is right after every step of a run exactly if no pass of the run
reclaims a record with a reserve. -/
theorem tap_ledger_iff (ds : List (Done sig Op Outcome)) (w : TapWorld) :
    Run (Observed (Served operation effect deletingTapKernel) (fun _ _ w' => Ledger w'))
      (.empty, noTaps) ds w ↔
    Run (Guarded (Served operation effect deletingTapKernel) NoneReclaimed)
      (.empty, noTaps) ds w := by
  constructor
  · intro h
    refine Run.permitted (I := Unspent) ?_ h .start
    intro w d w' hw hs hgood
    obtain ⟨_, hiff, hnext⟩ := hw.step hs
    exact ⟨hnext hgood, hiff.mp hgood⟩
  · intro h
    refine (Run.observed (I := Unspent) ?_ h .start).1
    intro w d w' hw hs hok
    obtain ⟨_, hiff, hnext⟩ := hw.step hs
    exact ⟨hnext (hiff.mpr hok), hiff.mpr hok⟩

/-- A record is destroyed and its reserve put, and its tap 3 still exists. -/
theorem reclaimed_tap_leaked : ∃ w,
    Run (Served operation effect deletingTapKernel) (.empty, noTaps)
      [added 1 1 5, granted 1 10 0 1 5 5 3, removed 1, reaped 5] w ∧
    (w.2 3).isSome ∧ w.1.destroyed = [0] ∧ ¬Ledger w := by
  have hrun : (serveAll operation effect tapsAfter (.empty, noTaps)
      [added 1 1 5, granted 1 10 0 1 5 5 3, removed 1, reaped 5]).map
      (fun w => (w.1.data, w.1.deadList, w.1.destroyed, w.2 3)) =
      some ([], [0], [0], some (1, 5)) := by decide
  obtain ⟨w, hw, hv⟩ := Option.map_eq_some_iff.mp hrun
  simp only [Prod.mk.injEq] at hv
  obtain ⟨hdata, hdead, hgone, htap⟩ := hv
  refine ⟨w, run_of_serveAll tapsAfter_sound hw, by simp [htap], hgone, ?_⟩
  intro h
  obtain ⟨p, ⟨hp, hnot⟩, _⟩ := (h.live 3).mp (by simp [htap])
  simp_all

end PowerArbiter
