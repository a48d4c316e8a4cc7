import PowerArbiter.Proofs.Taps

namespace PowerArbiter
open Monitor

abbrev TapWorld := ReserveDataDatabase × Taps

/-- The kernel has this rate in force, compared as integers. -/
def InForce (k : Taps) (tap : Int32) (tapType : UInt64) (tapValue : Int64) : Prop :=
  ∃ rateType value, k tap = some (rateType, value) ∧ rateType.toInt = tapType.toNat ∧
    value.toInt = tapValue.toInt

/-- The records in the table store the rates of their taps. -/
def Agrees (w : TapWorld) : Prop :=
  ∀ p ∈ w.1.data, (w.1.heap p).data.reserveCreated = true →
    InForce w.2 (w.1.heap p).data.tapId (w.1.heap p).data.tapType (w.1.heap p).data.tapValue

/-- A successful GET of a record with a tap reports the rate in force. -/
def Reports (w : TapWorld) (d : Done sig Op Outcome) : Prop :=
  ∀ uid tapType tapValue, d.op = .getTapParams uid → d.result = .get 0 (some (tapType, tapValue)) →
    ∃ p, w.1.find uid = some p ∧ ((w.1.heap p).data.reserveCreated = true →
      InForce w.2 (w.1.heap p).data.tapId tapType tapValue)

def Nonnegative (d : Done sig Op Outcome) : Prop :=
  ∀ tap rateType value a, .call (.setTapRate tap rateType value) a ∈ d.trace →
    0 ≤ rateType.toInt ∧ 0 ≤ value.toInt

/-- The value is one of type `long`. -/
def Fits (tapValue : Int64) : Prop := tapValue.toInt ≤ 2147483647

/-- Where the operation calls `cinder_tap_set_rate`, the value it converts to
`long` fits. -/
def Narrow (w : TapWorld) (d : Done sig Op Outcome) : Prop :=
  ∀ tap rateType value a, .call (.setTapRate tap rateType value) a ∈ d.trace →
    match d.op with
    | .setTapParams _ _ tapValue => Fits tapValue
    | .statReserve uid _ => ∀ p, w.1.find uid = some p → Fits (w.1.heap p).data.tapValue
    | _ => True

theorem validParams_iff (tapType : UInt64) (tapValue : Int64) :
    validParams tapType tapValue = true ↔
      (tapType = CINDER_TAP_RATE_CONSTANT ∨ tapType = CINDER_TAP_RATE_PROPORTIONAL) ∧
      0 ≤ tapValue ∧ (tapType = CINDER_TAP_RATE_PROPORTIONAL → tapValue ≤ 100) := by
  simp only [validParams]
  grind [Int64.not_le, Int64.not_lt]

theorem longOfType_toInt {tapType : UInt64} {tapValue : Int64}
    (h : validParams tapType tapValue = true) : (longOfType tapType).toInt = tapType.toNat := by
  rcases ((validParams_iff _ _).mp h).1 with rfl | rfl
  · decide
  · decide

theorem longOfValue_toInt {tapType : UInt64} {tapValue : Int64}
    (h : validParams tapType tapValue = true) (hf : Fits tapValue) :
    (longOfValue tapValue).toInt = tapValue.toInt := by
  have hpos : 0 ≤ tapValue.toInt := Int64.le_iff_toInt_le.mp ((validParams_iff _ _).mp h).2.1
  unfold Fits at hf
  rw [longOfValue, Int64.toInt_toInt32]
  exact Int.bmod_eq_of_le (by omega) (by omega)

/-- What the permitted steps keep. -/
structure Rated (w : TapWorld) : Prop where
  formed : WellFormed w.1
  valid : ∀ p ∈ w.1.data,
    validParams (w.1.heap p).data.tapType (w.1.heap p).data.tapValue = true
  agrees : Agrees w
  own : ∀ p ∈ w.1.data, ∀ q ∈ w.1.data, (w.1.heap p).data.reserveCreated = true →
    (w.1.heap q).data.reserveCreated = true →
    (w.1.heap p).data.tapId = (w.1.heap q).data.tapId → p = q

section Step

variable {db db' : ReserveDataDatabase} {k k' : Taps} {es : List (Event sig)} {op : Op}
  {r : Outcome}

theorem InForce.isSome {tap : Int32} {tapType : UInt64} {tapValue : Int64}
    (h : InForce k tap tapType tapValue) : k tap ≠ none := by
  obtain ⟨rateType, value, hk, _⟩ := h
  simp [hk]

theorem InForce.of_long {tapType : UInt64} {tapValue : Int64} {tap : Int32}
    (hv : validParams tapType tapValue = true) (hf : Fits tapValue)
    (hk : k tap = some (longOfType tapType, longOfValue tapValue)) :
    InForce k tap tapType tapValue :=
  ⟨_, _, hk, longOfType_toInt hv, longOfValue_toInt hv hf⟩

/-- A change after which the records with taps are old ones with their old data. -/
theorem Rated.carry (h : Rated (db, k)) (hform : WellFormed db')
    (hvalid : ∀ p ∈ db'.data,
      validParams (db'.heap p).data.tapType (db'.heap p).data.tapValue = true)
    (hsame : ∀ p ∈ db'.data, (db'.heap p).data.reserveCreated = true →
      p ∈ db.data ∧ (db'.heap p).data = (db.heap p).data)
    (hk : ∀ id, k id ≠ none → k' id = k id) : Rated (db', k') := by
  refine ⟨hform, hvalid, ?_, ?_⟩
  · intro p hp hc
    obtain ⟨hp, hd⟩ := hsame p hp hc
    simp only [hd] at hc ⊢
    have hold := h.agrees p hp hc
    unfold InForce at hold ⊢
    rw [hk _ (InForce.isSome hold)]
    exact hold
  · intro p hp q hq hcp hcq ht
    obtain ⟨hp, hdp⟩ := hsame p hp hcp
    obtain ⟨hq, hdq⟩ := hsame q hq hcq
    simp only [hdp, hdq] at hcp hcq ht
    exact h.own p hp q hq hcp hcq ht

theorem Rated.untapped (h : Rated (db, k)) (hu : Untapped db db') : Rated (db', k) := by
  cases hu with
  | same => exact h
  | @insert uid data hf hc hv =>
    have hlt : ∀ p ∈ db.data, p < db.next := fun p hp => (h.formed.placed p).mpr (.inl hp)
    refine h.carry (h.formed.insert _ hf) ?_ ?_ (fun _ _ => rfl)
    · intro p hp
      rcases List.mem_append.mp hp with hp | hp
      · simp only [heap_allocate_of_lt _ (hlt p hp)]
        exact h.valid p hp
      · simp only [List.mem_singleton] at hp
        subst hp
        simpa [ReserveDataDatabase.allocate] using hv
    · intro p hp hcp
      rcases List.mem_append.mp hp with hp | hp
      · simp only [heap_allocate_of_lt _ (hlt p hp), and_true]
        exact hp
      · simp only [List.mem_singleton] at hp
        subst hp
        simp [ReserveDataDatabase.allocate, hc] at hcp
  | remove hp =>
    refine h.carry (h.formed.remove hp) ?_ ?_ (fun _ _ => rfl)
    · intro q hq
      exact h.valid q (List.mem_of_mem_erase hq)
    · intro q hq _
      exact ⟨List.mem_of_mem_erase hq, rfl⟩
  | @rate p tapType tapValue hp hc hv =>
    refine h.carry (h.formed.modify _ _) ?_ ?_ (fun _ _ => rfl)
    · intro q hq
      by_cases hqp : q = p
      · subst hqp
        simpa [UIDReserveData.rated] using hv
      · rw [heap_modify_of_ne _ hqp]
        exact h.valid q hq
    · intro q hq hcq
      by_cases hqp : q = p
      · subst hqp
        simp [UIDReserveData.rated, hc] at hcq
      · exact ⟨hq, by rw [heap_modify_of_ne _ hqp]⟩
  | bury hd =>
    exact h.carry (h.formed.change (.bury hd)) h.valid (fun p hp _ => ⟨hp, rfl⟩) (fun _ _ => rfl)

theorem Rated.create (h : Rated (db, k)) {p : RecordPtr} {reserve tap : Int32}
    (hp : p ∈ db.data) (hn : k tap = none) (hfit : Fits (db.heap p).data.tapValue) :
    Rated (db.modify p (.created reserve tap), Function.update k tap
      (some (longOfType (db.heap p).data.tapType, longOfValue (db.heap p).data.tapValue))) := by
  -- the new tap is none that a record has
  have hother : ∀ q ∈ db.data, (db.heap q).data.reserveCreated = true →
      (db.heap q).data.tapId ≠ tap := by
    intro q hq hcq ht
    exact (h.agrees q hq hcq).isSome (by simpa [ht] using hn)
  have hp_tap : ((db.modify p (.created reserve tap)).heap p).data.tapId = tap := by
    simp [UIDReserveData.created]
  refine ⟨h.formed.modify _ _, ?_, ?_, ?_⟩
  · intro q hq
    by_cases hqp : q = p
    · subst hqp
      simpa [UIDReserveData.created] using h.valid q hq
    · rw [heap_modify_of_ne _ hqp]
      exact h.valid q hq
  · intro q hq hcq
    by_cases hqp : q = p
    · subst hqp
      simp only [heap_modify_self, UIDReserveData.created]
      exact .of_long (h.valid q hp) hfit (by simp)
    · simp only [heap_modify_of_ne _ hqp] at hcq ⊢
      have hold := h.agrees q hq hcq
      unfold InForce at hold ⊢
      rw [Function.update_of_ne (hother q hq hcq)]
      exact hold
  · intro q hq q' hq' hcq hcq' ht
    by_cases hqp : q = p <;> by_cases hqp' : q' = p
    · rw [hqp, hqp']
    · subst hqp
      simp only [hp_tap, heap_modify_of_ne _ hqp'] at ht hcq'
      exact absurd ht.symm (hother q' hq' hcq')
    · subst hqp'
      simp only [hp_tap, heap_modify_of_ne _ hqp] at ht hcq
      exact absurd ht (hother q hq hcq)
    · simp only [heap_modify_of_ne _ hqp, heap_modify_of_ne _ hqp'] at ht hcq hcq'
      exact h.own q hq q' hq' hcq hcq' ht

theorem Rated.rate (h : Rated (db, k)) {p : RecordPtr} {tapType : UInt64} {tapValue : Int64}
    (hp : p ∈ db.data) (hc : (db.heap p).data.reserveCreated = true)
    (hv : validParams tapType tapValue = true) (hfit : Fits tapValue) :
    Rated (db.modify p (.rated tapType tapValue), Function.update k (db.heap p).data.tapId
      ((k (db.heap p).data.tapId).map fun _ => (longOfType tapType, longOfValue tapValue))) := by
  have hids : ∀ q, ((db.modify p (.rated tapType tapValue)).heap q).data.tapId =
        (db.heap q).data.tapId ∧
      ((db.modify p (.rated tapType tapValue)).heap q).data.reserveCreated =
        (db.heap q).data.reserveCreated := by
    intro q
    by_cases hqp : q = p
    · subst hqp
      simp [UIDReserveData.rated]
    · simp [heap_modify_of_ne _ hqp]
  refine ⟨h.formed.modify _ _, ?_, ?_, ?_⟩
  · intro q hq
    by_cases hqp : q = p
    · subst hqp
      simpa [UIDReserveData.rated] using hv
    · rw [heap_modify_of_ne _ hqp]
      exact h.valid q hq
  · intro q hq hcq
    by_cases hqp : q = p
    · subst hqp
      obtain ⟨rateType, value, hk, _⟩ := h.agrees q hp hc
      simp only [heap_modify_self, UIDReserveData.rated]
      simp only at hk
      exact .of_long hv hfit (by simp [hk])
    · simp only [heap_modify_of_ne _ hqp] at hcq ⊢
      have hold := h.agrees q hq hcq
      have hne : (db.heap q).data.tapId ≠ (db.heap p).data.tapId :=
        fun ht => hqp (h.own q hq p hp hcq hc ht)
      unfold InForce at hold ⊢
      rw [Function.update_of_ne hne]
      exact hold
  · intro q hq q' hq' hcq hcq' ht
    simp only [hids] at hcq hcq' ht
    exact h.own q hq q' hq' hcq hcq' ht

theorem Rated.step (h : Rated (db, k)) (ho : Operated db op es r db')
    (hf : Follows tapKernel k es k') (hok : Narrow (db, k) ⟨op, es, r⟩) : Rated (db', k') := by
  cases ho.tapping (fun _ _ _ _ h => h) hf with
  | quiet hu => exact h.untapped hu
  | undone hu =>
    refine h.carry h.formed h.valid (fun p hp _ => ⟨hp, rfl⟩) ?_
    intro id hid
    rcases hu with hk | ⟨tap, rate, hn, hk, _⟩
    · rw [hk]
    · have hne : id ≠ tap := fun he => hid (by rw [he]; exact hn)
      rw [hk, Function.update_of_ne hne]
  | create hop hfind hc hn hm =>
    have hfit := hok _ _ _ _ hm
    subst hop
    exact h.create (find_mem hfind).1 hn (hfit _ hfind)
  | rate hop hv hfind hc hm =>
    have hfit := hok _ _ _ _ hm
    subst hop
    exact h.rate (find_mem hfind).1 hc hv hfit

theorem Sweep.no_rate {ps ds : List RecordPtr} {err err' : Int32}
    (h : Sweep db ps err es err' ds) (tap : Int32) (rateType value : Long) (a : Answer) :
    .call (.setTapRate tap rateType value) a ∉ es := by
  intro hm
  obtain ⟨p, _, _, hc | hc⟩ := h.calls hm <;> cases hc

theorem Exposed.no_rate {p : RecordPtr} {pid : Pid} {x : StatResult} (h : Exposed db p pid es x)
    (tap : Int32) (rateType value : Long) (a : Answer) :
    .call (.setTapRate tap rateType value) a ∉ es := by
  intro hm
  cases h.calls hm

theorem Created.rate_call {p : RecordPtr} {uid : Uid} {root : Int32} {x : Except Long Unit}
    (h : Created db p uid root es x db') {tap : Int32} {rateType value : Long} {a : Answer}
    (hm : .call (.setTapRate tap rateType value) a ∈ es) :
    rateType = longOfType (db.heap p).data.tapType ∧
      value = longOfValue (db.heap p).data.tapValue := by
  cases h with
  | noReserve ha => simp [createCall] at hm
  | noTap ha hb => simp [createCall, tapCall] at hm
  | noRate ha hb hc =>
    simp only [createCall, tapCall, rateCall, List.mem_cons, Event.call.injEq, reduceCtorEq,
      false_and, Call.setTapRate.injEq, List.not_mem_nil, or_false, false_or] at hm
    exact hm.1.2
  | done ha hb hc =>
    simp only [createCall, tapCall, rateCall, List.mem_cons, Event.call.injEq, reduceCtorEq,
      false_and, Call.setTapRate.injEq, List.not_mem_nil, or_false, false_or] at hm
    exact hm.1.2

/-- The two places that call `cinder_tap_set_rate`, and what they convert. -/
theorem Operated.rate_call (h : Operated db op es r db') {tap : Int32} {rateType value : Long}
    {a : Answer} (hm : .call (.setTapRate tap rateType value) a ∈ es) :
    (∃ uid tapType tapValue, op = .setTapParams uid tapType tapValue ∧
      validParams tapType tapValue = true ∧
      rateType = longOfType tapType ∧ value = longOfValue tapValue) ∨
    (∃ uid pid p, op = .statReserve uid pid ∧ db.find uid = some p ∧
      rateType = longOfType (db.heap p).data.tapType ∧
      value = longOfValue (db.heap p).data.tapValue) := by
  cases h with
  | stat h =>
    right
    cases h with
    | exposed hf hc hx => simp [hx.no_rate] at hm
    | @failed x p fs err hf hc hr =>
      have hm : .call (.setTapRate tap rateType value) a ∈ fs := by simpa using hm
      exact ⟨_, _, p, rfl, hf, hr.rate_call hm⟩
    | @created x p fs gs y d hf hc hr hx =>
      have hm : .call (.setTapRate tap rateType value) a ∈ fs := by
        simpa [hx.no_rate] using hm
      exact ⟨_, _, p, rfl, hf, hr.rate_call hm⟩
    | _ => simp at hm
  | get h => cases h <;> simp at hm
  | set h =>
    left
    cases h with
    | refused hv hf hc ha =>
      simp only [rateCall, List.mem_cons, Event.call.injEq, reduceCtorEq, Call.setTapRate.injEq,
        List.not_mem_nil, or_false, false_or] at hm
      exact ⟨_, _, _, rfl, hv, hm.1.2⟩
    | accepted hv hf hc ha =>
      simp only [rateCall, List.mem_cons, Event.call.injEq, reduceCtorEq, Call.setTapRate.injEq,
        List.not_mem_nil, or_false, false_or] at hm
      exact ⟨_, _, _, rfl, hv, hm.1.2⟩
    | _ => simp at hm
  | add h =>
    cases h with
    | invalid h => simp at hm
    | valid hv h =>
      cases h with
      | failed h hr => cases hr <;> simp at hm
      | done h hr => cases hr; simp at hm
      | _ => simp at hm
  | remove h => cases h <;> simp at hm
  | clear h =>
    cases h with
    | busy e => simp at hm
    | done hs => simp [hs.no_rate] at hm

theorem Rated.nonnegative (h : Rated (db, k)) (ho : Operated db op es r db')
    (hok : Narrow (db, k) ⟨op, es, r⟩) : Nonnegative ⟨op, es, r⟩ := by
  have positive {tapType : UInt64} {tapValue : Int64} (hv : validParams tapType tapValue = true)
      (hfit : Fits tapValue) :
      0 ≤ (longOfType tapType).toInt ∧ 0 ≤ (longOfValue tapValue).toInt := by
    rw [longOfType_toInt hv, longOfValue_toInt hv hfit]
    exact ⟨Int.natCast_nonneg _, Int64.le_iff_toInt_le.mp ((validParams_iff _ _).mp hv).2.1⟩
  intro tap rateType value a hm
  have hfit := hok tap rateType value a hm
  rcases ho.rate_call hm with ⟨uid, tapType, tapValue, rfl, hv, rfl, rfl⟩ |
    ⟨uid, pid, p, rfl, hf, rfl, rfl⟩
  · exact positive hv hfit
  · exact positive (h.valid p (find_mem hf).1) (hfit p hf)

theorem Rated.reports (h : Rated (db, k)) (ho : Operated db op es r db') :
    Reports (db, k) ⟨op, es, r⟩ := by
  intro uid tapType tapValue hop hr
  simp only at hop hr
  subst hop hr
  generalize hx : Outcome.get 0 (some (tapType, tapValue)) = x at ho
  cases ho with
  | @get _ _ y hg =>
    simp only [Outcome.get.injEq] at hx
    cases hg with
    | @done p hf =>
      simp only [Option.some.injEq, Prod.mk.injEq, true_and] at hx
      obtain ⟨rfl, rfl⟩ := hx
      exact ⟨p, hf, fun hc => h.agrees p (find_mem hf).1 hc⟩
    | _ => simp at hx

end Step

/-- In every run in which each value that is converted for the kernel fits into a
`long`, the records agree with the rates in force after every step, every GET
reports the rate in force, and no negative rate reaches the kernel. -/
theorem rates_agree {k : Taps} {ds : List (Done sig Op Outcome)} {w : TapWorld}
    (h : Run (Guarded (Served operation effect tapKernel) Narrow) (.empty, k) ds w) :
    Run (Observed (Served operation effect tapKernel)
      (fun w d w' => Agrees w' ∧ Reports w d ∧ Nonnegative d)) (.empty, k) ds w := by
  have start : Rated (.empty, k) :=
    ⟨.empty, by simp [ReserveDataDatabase.empty], by simp [Agrees, ReserveDataDatabase.empty],
      by simp [ReserveDataDatabase.empty]⟩
  refine (Run.observed ?_ h start).1
  intro w d w' hw hs hok
  have ho := operation_runs hs.1
  have hnext := hw.step ho hs.2 hok
  exact ⟨hnext, hnext.agrees, hw.reports ho, hw.nonnegative ho hok⟩

def noTaps : Taps := fun _ => none

theorem rates_agree_first_grant : ∃ w,
    Run (Observed (Served operation effect tapKernel)
      (fun w d w' => Agrees w' ∧ Reports w d ∧ Nonnegative d)) (.empty, noTaps)
      [added 1 1 2147483647, granted 1 10 0 1 2147483647 5 3] w := by
  have hrun : (serve operation effect tapsAfter (.empty, noTaps) (added 1 1 2147483647)).bind
      (fun u => (serve operation effect tapsAfter u (granted 1 10 0 1 2147483647 5 3)).map
        (fun _ => (u.1.find 1, (u.1.heap 0).data.tapValue))) =
      some (some 0, 2147483647) := by decide
  obtain ⟨u, hu, hrest⟩ := Option.bind_eq_some_iff.mp hrun
  obtain ⟨w, hw, hv⟩ := Option.map_eq_some_iff.mp hrest
  simp only [Prod.mk.injEq] at hv
  have hsound : ∀ k c a k', tapsAfter k c a = some k' → tapKernel k c a k' :=
    fun k c a k' h => (tapsAfter_sound k c a k' h).1
  have hfirst : Narrow (.empty, noTaps) (added 1 1 2147483647) := by
    intro tap rateType value a hm
    simp [added] at hm
  have hsecond : Narrow u (granted 1 10 0 1 2147483647 5 3) := by
    intro tap rateType value a _ p hp
    have : p = 0 := by simpa [hv.1] using hp.symm
    subst this
    simp only [Fits, hv.2]
    decide
  exact ⟨w, rates_agree ⟨u, ⟨served_of_serve hsound hu, hfirst⟩,
    w, ⟨served_of_serve hsound hw, hsecond⟩, rfl⟩⟩

/-- A value of 2 to the 31 passes the checks and reaches the kernel as a negative
rate, while the record keeps it. -/
theorem wide_value_truncated : ∃ u w,
    Run (Served operation effect tapKernel) (.empty, noTaps) [added 1 1 2147483648] u ∧
    Served operation effect tapKernel u (granted 1 10 0 1 2147483648 5 3) w ∧
    ¬Agrees w ∧ ¬Nonnegative (granted 1 10 0 1 2147483648 5 3) := by
  have hrun : (serveAll operation effect tapsAfter (.empty, noTaps) [added 1 1 2147483648]).bind
      (fun u => (serve operation effect tapsAfter u (granted 1 10 0 1 2147483648 5 3)).map
        (fun w => (w.1.data, (w.1.heap 0).data, w.2 3))) =
      some ([0], ⟨true, 5, 3, 1, 2147483648⟩, some (1, -2147483648)) := by decide
  obtain ⟨u, hu, hrest⟩ := Option.bind_eq_some_iff.mp hrun
  obtain ⟨w, hw, hv⟩ := Option.map_eq_some_iff.mp hrest
  simp only [Prod.mk.injEq] at hv
  obtain ⟨hd, hr, hk⟩ := hv
  have hsound : ∀ k c a k', tapsAfter k c a = some k' → tapKernel k c a k' :=
    fun k c a k' h => (tapsAfter_sound k c a k' h).1
  refine ⟨u, w, run_of_serveAll hsound hu, served_of_serve hsound hw, ?_, ?_⟩
  · intro h
    obtain ⟨rateType, value, hin, _, hvalue⟩ := h 0 (by simp [hd]) (by simp [hr])
    simp only [hr, hk, Option.some.injEq, Prod.mk.injEq] at hin hvalue
    rw [← hin.2] at hvalue
    exact absurd hvalue (by decide)
  · intro h
    have := (h 3 (longOfType 1) (longOfValue 2147483648) ⟨0, 0⟩
      (.tail _ (.tail _ (.tail _ (.tail _ (.tail _ (.head _))))))).2
    exact absurd this (by decide)

end PowerArbiter
