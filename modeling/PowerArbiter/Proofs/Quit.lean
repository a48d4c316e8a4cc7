import PowerArbiter.Daemon
import PowerArbiter.Kernel
import PowerArbiter.Proofs.Lifecycle

namespace PowerArbiter
open Monitor

variable {db db' : ReserveDataDatabase} {es : List (Event sig)} {held held' : Held}

/-- The arbiter holds the reserve of the record, and no record before it on the
list has the same reserve. -/
def Answerable (db : ReserveDataDatabase) (held : Held) (before : List RecordPtr)
    (p : RecordPtr) : Prop :=
  (db.heap p).data.reserveCreated = true ∧ held (db.heap p).data.reserveId = true ∧
  ∀ q ∈ before, (db.heap q).data.reserveCreated = true →
    (db.heap q).data.reserveId ≠ (db.heap p).data.reserveId

theorem answerable_head {p : RecordPtr} (hc : (db.heap p).data.reserveCreated = true) :
    Answerable db held [] p ↔ held (db.heap p).data.reserveId = true := by
  simp [Answerable, hc]

section Visit

variable {p : RecordPtr} {err err' : Int32} {gone : Bool}

/-- The three ways a visit can go once the reserves are idle. -/
theorem Visit.idle (h : Visit db p err es err' gone) (hk : Follows idleKernel held es held') :
    ((db.heap p).data.reserveCreated = false ∧ gone = true ∧ err' = err ∧ held' = held) ∨
    ((db.heap p).data.reserveCreated = true ∧ held (db.heap p).data.reserveId = true ∧
      gone = true ∧ err' = 0 ∧
      held' = Function.update held (db.heap p).data.reserveId false) ∨
    ((db.heap p).data.reserveCreated = true ∧ held (db.heap p).data.reserveId = false ∧
      gone = false ∧ err' ≠ 0 ∧ held' = held) := by
  cases h with
  | fresh hc => exact .inl ⟨hc, rfl, rfl, hk⟩
  | failed hc ha =>
    obtain ⟨_, ⟨hq, rfl⟩, rfl⟩ := hk
    have hp : held' (db.heap p).data.reserveId = false := by grind
    exact .inr (.inr ⟨hc, hp, rfl, ha, rfl⟩)
  | shared hc ha hn =>
    obtain ⟨_, ⟨hq, rfl⟩, rfl⟩ := hk
    grind
  | last hc ha hn =>
    obtain ⟨held₁, ⟨hq, rfl⟩, _, hput, rfl⟩ := hk
    have hp : held₁ (db.heap p).data.reserveId = true := by grind
    simp only [idleKernel, hp, ↓reduceIte] at hput
    exact .inr (.inl ⟨hc, hp, rfl, rfl, hput.2⟩)

/-- What a visit leaves to the records after it. -/
theorem Visit.answerable (h : Visit db p err es err' gone) (hk : Follows idleKernel held es held')
    (before : List RecordPtr) (q : RecordPtr) :
    Answerable db held (p :: before) q ↔ Answerable db held' before q := by
  rcases h.idle hk with ⟨hc, _, _, rfl⟩ | ⟨hc, hp, _, _, rfl⟩ | ⟨hc, hp, _, _, rfl⟩
  · simp [Answerable, hc]
  · by_cases hid : (db.heap q).data.reserveId = (db.heap p).data.reserveId
    · simp [Answerable, hc, hid]
    · simp [Answerable, Function.update_of_ne hid, Ne.symm hid]
  · unfold Answerable
    grind

theorem Visit.gone_answerable (h : Visit db p err es err' gone)
    (hk : Follows idleKernel held es held') :
    gone = true ↔ (db.heap p).data.reserveCreated = false ∨ Answerable db held [] p := by
  rcases h.idle hk with ⟨hc, rfl, _⟩ | ⟨hc, hp, rfl, _⟩ | ⟨hc, hp, rfl, _⟩
  · simp [hc]
  · simp [answerable_head hc, hp]
  · simp [answerable_head hc, hp, hc]

theorem Visit.error_answerable (h : Visit db p err es err' gone)
    (hk : Follows idleKernel held es held') :
    err' ≠ 0 ↔ ((db.heap p).data.reserveCreated = false ∧ err ≠ 0) ∨
      ((db.heap p).data.reserveCreated = true ∧ ¬Answerable db held [] p) := by
  rcases h.idle hk with ⟨hc, _, rfl, _⟩ | ⟨hc, hp, _, rfl, _⟩ | ⟨hc, hp, _, herr, _⟩
  · simp [hc]
  · simp [answerable_head hc, hp, hc]
  · simp [answerable_head hc, hp, hc, herr]

end Visit

/-- A property of the places in a list, split off at its head. -/
theorem exists_place_cons {α : Type} {P : List α → α → List α → Prop} {x : α} {xs : List α} :
    (∃ before y after, x :: xs = before ++ y :: after ∧ P before y after) ↔
      P [] x xs ∨ ∃ before y after, xs = before ++ y :: after ∧ P (x :: before) y after := by
  constructor
  · intro hx
    obtain ⟨before, y, after, hxs, hp⟩ := hx
    cases before with
    | nil =>
      obtain ⟨rfl, rfl⟩ := List.cons.inj hxs
      exact .inl hp
    | cons z before =>
      obtain ⟨rfl, rfl⟩ := List.cons.inj hxs
      exact .inr ⟨before, y, after, rfl, hp⟩
  · intro hx
    rcases hx with hp | ⟨before, y, after, rfl, hp⟩
    · exact ⟨[], x, xs, rfl, hp⟩
    · exact ⟨x :: before, y, after, rfl, hp⟩

section Sweep

variable {ps ds : List RecordPtr} {err err' : Int32}

/-- A pass destroys the records without a reserve and the answerable ones. -/
theorem Sweep.gone_iff (h : Sweep db ps err es err' ds) (hk : Follows idleKernel held es held')
    (q : RecordPtr) : q ∈ ds ↔ ∃ before p after, ps = before ++ p :: after ∧
      p = q ∧ ((db.heap q).data.reserveCreated = false ∨ Answerable db held before q) := by
  induction h generalizing held with
  | nil => simp
  | @cons p ps _ _ _ _ _ gone ds hv _ ih =>
    obtain ⟨mid, hk, hk'⟩ := follows_append.mp hk
    have hgone := hv.gone_answerable hk
    rw [exists_place_cons, List.mem_append, ih hk']
    simp only [hv.answerable hk]
    refine or_congr ?_ Iff.rfl
    cases gone with
    | false => grind
    | true => grind

/-- The return code of a pass is that of its last query, which fails unless the
record is answerable. -/
theorem Sweep.error_iff (h : Sweep db ps err es err' ds) (hk : Follows idleKernel held es held') :
    err' ≠ 0 ↔ (err ≠ 0 ∧ ∀ p ∈ ps, (db.heap p).data.reserveCreated = false) ∨
      ∃ before p after, ps = before ++ p :: after ∧
        (db.heap p).data.reserveCreated = true ∧
        (∀ q ∈ after, (db.heap q).data.reserveCreated = false) ∧ ¬Answerable db held before p := by
  induction h generalizing held with
  | nil => simp
  | @cons p ps _ _ _ _ _ gone ds hv _ ih =>
    obtain ⟨mid, hk, hk'⟩ := follows_append.mp hk
    have herr := hv.error_answerable hk
    rw [exists_place_cons, ih hk', herr]
    simp only [hv.answerable hk, List.forall_mem_cons]
    grind

end Sweep

/-- A turn is a pass and the decision after it. -/
theorem reaperTurn_runs {quit left : Bool} (h : (reaperTurn quit).Runs effect db es left db') :
    ∃ err isEmpty, reserveDataDBClearUnused.Runs effect db es (err, isEmpty) db' ∧
      left = leavesLoop quit err (isEmpty = some true) := by
  simp only [reaperTurn, Prog.bind_eq, Prog.pure_eq] at h
  rw [Prog.runs_bind (S := sig)] at h
  obtain ⟨⟨err, isEmpty⟩, mid, es₁, es₂, rfl, hc, h⟩ := h
  simp only [Prog.runs_ret] at h
  obtain ⟨rfl, rfl, rfl⟩ := h
  rw [List.append_nil]
  exact ⟨err, isEmpty, hc, rfl⟩

section Daemon

variable {s : Daemon} {quit : Bool}

def place (db : ReserveDataDatabase) (i : Nat) : Option Nat :=
  if i < db.deadList.length then some i else none

/-- The reaper at the `i`-th record of the pass. -/
def visiting (db : ReserveDataDatabase) (quit : Bool) (err : Int32) (i : Nat) : ReaperPc :=
  .visit quit err (place db i) ((place db i).bind (nextOnDeadList db))

/-- One iteration of the pass is one step of the reaper. -/
theorem Daemon.visit {p : RecordPtr} {err err' : Int32} {i : Nat} (hm : s.main ≠ .exited)
    (hp : s.db.deadList[i]? = some p) (hs : s.reaper = visiting s.db quit err i)
    (h : (clearUnusedEntry err p).Runs effect s.db es err' db') :
    db'.deadList = s.db.deadList ∧ Advances s (.reaper none es)
      { s with db := db', reaper := visiting db' quit err' (i + 1) } := by
  obtain ⟨gone, _, hdb⟩ := clearUnusedEntry_runs h
  have hdead : db'.deadList = s.db.deadList := by rw [hdb]; rfl
  have hsome : place s.db i = some i := if_pos (List.getElem?_eq_some_iff.mp hp).1
  have hnext : nextOnDeadList s.db i = place db' (i + 1) := by
    simp [nextOnDeadList, place, hdead]
  unfold Prog.Runs at h
  refine ⟨hdead, ?_⟩
  simp [Advances, Daemon.step, hm, Daemon.reaperStep, Daemon.visitStep, hs, visiting, hsome, hp, h,
    hnext]

theorem Daemon.visits {ps : List RecordPtr} {err err' : Int32} (hm : s.main ≠ .exited) (i : Nat)
    (hps : s.db.deadList.drop i = ps) (hs : s.reaper = visiting s.db quit err i)
    (h : (clearUnusedLoop err ps).Runs effect s.db es err' db') :
    ∃ ls, Run Advances s ls { s with db := db', reaper := .visit quit err' none none } := by
  induction ps generalizing s i err es with
  | nil =>
    simp only [clearUnusedLoop, Prog.pure_eq, Prog.runs_ret] at h
    obtain ⟨rfl, rfl, rfl⟩ := h
    have hlen : ¬i < s.db.deadList.length := by
      have := List.drop_eq_nil_iff.mp hps
      omega
    have hnone : place s.db i = none := if_neg hlen
    unfold visiting at hs
    rw [hnone] at hs
    exact ⟨[], by rw [run_nil]; cases s; simp_all⟩
  | cons p ps ih =>
    have hp : s.db.deadList[i]? = some p := by
      rw [← List.head?_drop, hps]
      rfl
    have hrest : s.db.deadList.drop (i + 1) = ps := by
      rw [← List.tail_drop, hps]
      rfl
    simp only [clearUnusedLoop, Prog.bind_eq] at h
    rw [Prog.runs_bind (S := sig)] at h
    obtain ⟨e, mid, es₁, es₂, rfl, he, hl⟩ := h
    obtain ⟨hdead, hstep⟩ := Daemon.visit hm hp hs he
    let t : Daemon := { s with db := mid, reaper := visiting mid quit e (i + 1) }
    obtain ⟨ls, hr⟩ := ih (s := t) hm (i + 1) (by simpa [t, hdead] using hrest) rfl hl
    exact ⟨_ :: ls, t, hstep, hr⟩

/-- A turn that no other thread interrupts is `reaperTurn`. -/
theorem Daemon.turn {left : Bool} (hm : s.main ≠ .exited) (hs : s.reaper = .lockDatabase quit)
    (h : (reaperTurn quit).Runs effect s.db es left db') :
    ∃ ls, Run Advances s ls
      { s with db := db', reaper := if left then .post else .checkExit } := by
  obtain ⟨err, isEmpty, hc, rfl⟩ := reaperTurn_runs h
  rcases clearUnused_split hc with ⟨e, rfl, hr, rfl⟩ | ⟨fs, _, rfl, hl, hr⟩
  · cases hr
    let t : Daemon := { s with reaper := .decide quit e.code false }
    have hlock : Advances s (.reaper (some e) []) t := by
      simp [Advances, Daemon.step, hm, Daemon.reaperStep, hs, t]
    refine ⟨[.reaper (some e) [], .reaper none []], t, hlock, _, ?_, rfl⟩
    simp [Advances, Daemon.step, hm, Daemon.reaperStep, t]
  · cases hr
    let t : Daemon := { s with reaper := visiting s.db quit 0 0 }
    have hlock : Advances s (.reaper none []) t := by
      simp [Advances, Daemon.step, hm, Daemon.reaperStep, hs, t, visiting, place,
        List.length_pos_iff]
    obtain ⟨ls, hv⟩ := Daemon.visits (s := t) hm 0 rfl rfl hl
    let u : Daemon := { s with db := db', reaper := .decide quit err db'.deadList.isEmpty }
    refine ⟨_ :: (ls ++ [.reaper none [], .reaper none []]), t, hlock, run_append.mpr ⟨_, hv, ?_⟩⟩
    refine ⟨u, ?_, _, ?_, rfl⟩
    · simp [Advances, Daemon.step, hm, Daemon.reaperStep, t, u]
    · have hempty : decide (db'.deadList = []) = db'.deadList.isEmpty := by
        cases db'.deadList <;> rfl
      simp [Advances, Daemon.step, hm, Daemon.reaperStep, u, hempty]

/-- After its last turn the main thread gets past `__wait_reaper_thread_quit`. -/
theorem Daemon.turn_returns (hm : s.main = .waitReaperThreadQuit)
    (hs : s.reaper = .lockDatabase true) (h : (reaperTurn true).Runs effect s.db es true db') :
    ∃ ls t, Run Advances s ls t ∧ t.main = .reserveDataDBDestroy ∧ t.db = db' := by
  obtain ⟨ls, hturn⟩ := Daemon.turn (by simp [hm]) hs h
  let u : Daemon := { s with
    db := db'
    reaper := .returned
    reaperThreadExited := s.reaperThreadExited + 1 }
  let t : Daemon := { s with db := db', reaper := .returned, main := .reserveDataDBDestroy }
  refine ⟨ls ++ [.reaper none [], .main none], t, run_append.mpr ⟨_, hturn, u, ?_, t, ?_, rfl⟩,
    rfl, rfl⟩
  · simp [Advances, Daemon.step, hm, Daemon.reaperStep, u]
  · simp [Advances, Daemon.step, hm, Daemon.mainStep, u, t]

end Daemon

/-- Every dead record not yet destroyed can be, and the last query fails. -/
structure QuitsClean (db : ReserveDataDatabase) (held : Held) : Prop where
  remaining : ∀ p ∈ db.deadList, p ∉ db.destroyed → (db.heap p).data.reserveCreated = true →
    ∃ before after, db.deadList = before ++ p :: after ∧ Answerable db held before p
  last : db.deadList = [] ∨ ∃ before p after, db.deadList = before ++ p :: after ∧
    (db.heap p).data.reserveCreated = true ∧
    (∀ q ∈ after, (db.heap q).data.reserveCreated = false) ∧ ¬Answerable db held before p

theorem Sweep.quits_iff {err : Int32} {ds : List RecordPtr}
    (h : Sweep db db.deadList 0 es err ds) (hk : Follows idleKernel held es held') :
    ((err ≠ 0 ∨ db.deadList = []) ∧ ∀ p ∈ db.deadList, p ∈ db.destroyed ++ ds) ↔
      QuitsClean db held := by
  have hgone := h.gone_iff hk
  have herr := h.error_iff hk
  simp only [ne_eq, not_true_eq_false, false_and, false_or] at herr
  constructor
  · intro hx
    obtain ⟨hleft, hall⟩ := hx
    refine ⟨?_, ?_⟩
    · intro p hp hnot hc
      rcases List.mem_append.mp (hall p hp) with hd | hd
      · exact absurd hd hnot
      · obtain ⟨before, r, after, hsplit, rfl, hr⟩ := (hgone p).mp hd
        rw [hc] at hr
        exact ⟨before, after, hsplit, hr.resolve_left (by simp)⟩
    · rcases hleft with hne | hnil
      · exact .inr (herr.mp hne)
      · exact .inl hnil
  · intro hq
    refine ⟨?_, ?_⟩
    · rcases hq.last with hnil | hlast
      · exact .inr hnil
      · exact .inl (herr.mpr hlast)
    · intro p hp
      rw [List.mem_append]
      by_cases hd : p ∈ db.destroyed
      · exact .inl hd
      · refine .inr ((hgone p).mpr ?_)
        cases hc : (db.heap p).data.reserveCreated with
        | false =>
          obtain ⟨before, after, hsplit⟩ := List.append_of_mem hp
          exact ⟨before, p, after, hsplit, rfl, .inl rfl⟩
        | true =>
          obtain ⟨before, after, hsplit, ha⟩ := hq.remaining p hp hd hc
          exact ⟨before, p, after, hsplit, rfl, .inr ha⟩

/-- A turn that reads `should_quit` leaves the loop with every dead record destroyed
exactly if the dead list is as `QuitsClean` says, or, where the attempt to lock the
database fails, if an earlier turn has already destroyed them all. A turn that leaves the
loop lets the main thread go on. -/
theorem reaper_turn_quits_iff {left : Bool} (h : (reaperTurn true).Runs effect db es left db')
    (hk : Follows idleKernel held es held') :
    ((left = true ∧ ∀ p ∈ db.deadList, p ∈ db'.destroyed) ↔
      (.lock none ∈ es → QuitsClean db held) ∧
      (.lock none ∉ es → ∀ p ∈ db.deadList, p ∈ db.destroyed)) ∧
    (left = true → ∀ s : Daemon, s.db = db → s.main = .waitReaperThreadQuit →
      s.reaper = .lockDatabase true →
      ∃ ls t, Run Advances s ls t ∧ t.main = .reserveDataDBDestroy ∧ t.db = db') := by
  constructor
  swap
  · intro hleft s hdb hm hs
    subst hleft hdb
    exact Daemon.turn_returns hm hs h
  obtain ⟨err, isEmpty, hc, rfl⟩ := reaperTurn_runs h
  cases clearUnused_runs hc with
  | busy e => simp [leavesLoop, e.nonzero]
  | @done fs err ds hs =>
    rw [follows_lock] at hk
    obtain ⟨_, hk, _⟩ := follows_append.mp hk
    have hiff := hs.quits_iff hk
    simp only [ReserveDataDatabase.bury]
    rw [← hiff]
    simp [leavesLoop]

/-- The one dead record was destroyed by an earlier turn, so the query for its reserve
fails. -/
theorem reaper_turn_quits_reclaimed :
    let db : ReserveDataDatabase := ⟨[], [0], fun _ => ⟨⟨true, 5, 3, 1, 5⟩, 1⟩, 1, [0]⟩
    (∃ es, (reaperTurn true).Runs effect db es true db) ∧ QuitsClean db (fun _ => false) := by
  intro db
  let es : List (Event sig) := [.lock none, .call (.reserveInfo 5) ⟨-1, 0⟩, .unlock]
  have hr : (reaperTurn true).Runs effect db es true db := rfl
  have hk : Follows idleKernel (fun _ => false) es (fun _ => false) :=
    ⟨_, ⟨by decide, rfl⟩, rfl⟩
  have hiff := (reaper_turn_quits_iff hr hk).1
  exact ⟨⟨es, hr⟩, (hiff.mp ⟨rfl, by decide⟩).1 (by simp [es])⟩

/-- Records that never had a reserve keep the reaper in its loop. -/
def Stuck (db : ReserveDataDatabase) : Prop :=
  db.deadList ≠ [] ∧ ∀ p ∈ db.deadList, (db.heap p).data.reserveCreated = false

theorem Sweep.fresh_error {ps ds : List RecordPtr} {err err' : Int32}
    (h : Sweep db ps err es err' ds) (hf : ∀ p ∈ ps, (db.heap p).data.reserveCreated = false) :
    err' = err := by
  induction h with
  | nil => rfl
  | cons hv _ ih =>
    obtain ⟨hp, hf⟩ := List.forall_mem_cons.mp hf
    rw [ih hf]
    cases hv with
    | fresh _ => rfl
    | failed hc _ => exact absurd hc (by simp [hp])
    | shared hc _ _ => exact absurd hc (by simp [hp])
    | last hc _ _ => exact absurd hc (by simp [hp])

/-- One turn that reads `should_quit`, with its events and whether it is the last. -/
def Turn (db : ReserveDataDatabase) (l : List (Event sig) × Bool) (db' : ReserveDataDatabase) :
    Prop := (reaperTurn true).Runs effect db l.1 l.2 db'

theorem Stuck.turn {l : List (Event sig) × Bool} (h : Stuck db) (ht : Turn db l db')
    (hl : .lock none ∈ l.1) : l.2 = false ∧ Stuck db' := by
  obtain ⟨es, left⟩ := l
  obtain ⟨err, isEmpty, hc, hleft⟩ := reaperTurn_runs ht
  simp only at hl hleft ⊢
  cases clearUnused_runs hc with
  | busy e => simp at hl
  | done hs =>
    have herr := hs.fresh_error h.2
    refine ⟨?_, h⟩
    subst herr hleft
    simp [leavesLoop, h.1]

/-- No turn is the last as long as the database can be locked. -/
theorem Stuck.turns {ls : List (List (Event sig) × Bool)} (h : Stuck db) (hr : Run Turn db ls db')
    (hl : ∀ l ∈ ls, .lock none ∈ l.1) : ∀ l ∈ ls, l.2 = false := by
  induction ls generalizing db with
  | nil => simp
  | cons l ls ih =>
    obtain ⟨mid, ht, hr⟩ := hr
    obtain ⟨hlock, hl⟩ := List.forall_mem_cons.mp hl
    obtain ⟨hleft, hmid⟩ := h.turn ht hlock
    exact List.forall_mem_cons.mpr ⟨hleft, ih hmid hr hl⟩

/-- One record that was never given a reserve: the first turn destroys it and does
not leave the loop, and no later turn does. -/
theorem reaper_never_quits : ∃ ds db, Run (Alone dbOperation effect) .empty ds db ∧
    db.data = [] ∧ db.deadList = [0] ∧
    (∃ left db' es, (reaperTurn true).Runs effect db es left db' ∧
      Follows idleKernel (fun _ => false) es (fun _ => false) ∧
      ¬(left = true ∧ ∀ p ∈ db.deadList, p ∈ db'.destroyed)) ∧
    ∀ ls db', Run Turn db ls db' → (∀ l ∈ ls, .lock none ∈ l.1) → ∀ l ∈ ls, l.2 = false := by
  refine ⟨[⟨.reserveDataDBAddEntry 7 ⟨false, 0, 0, 1, 5⟩,
      [.lock none, .call .malloc ⟨1, 0⟩, .call .mutexInit ⟨0, 0⟩, .unlock], ()⟩,
    ⟨.reserveDataDBEmpty, [], ()⟩], _, ⟨_, rfl, _, rfl, rfl⟩, rfl, rfl,
    ⟨false, _, [.lock none, .unlock], rfl, rfl, by simp⟩, ?_⟩
  intro ls db' hr hl
  have hstuck : Stuck { ReserveDataDatabase.empty.allocate ⟨⟨false, 0, 0, 1, 5⟩, 7⟩ with
      data := [], deadList := [0] } := by
    simp [Stuck, ReserveDataDatabase.allocate, ReserveDataDatabase.empty]
  exact Stuck.turns hstuck hr hl

end PowerArbiter
