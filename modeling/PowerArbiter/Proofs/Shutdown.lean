import PowerArbiter.Monitor.Run
import PowerArbiter.Proofs.Daemon

namespace PowerArbiter
open Monitor

variable {s t : Daemon}

theorem nextInTable_head (db : ReserveDataDatabase) :
    db.data.head?.bind (nextInTable db) = db.data.tail.head? := by
  cases hd : db.data with
  | nil => rfl
  | cons p rest => simp [nextInTable, hd, List.head?_eq_getElem?]

/-- How far the emptying of the table has come. -/
def Emptying (db₀ : ReserveDataDatabase) (s : Daemon) : Prop :=
  match s.main with
  | .reserveDataDBEmpty => s.db.data = db₀.data ∧ s.db.deadList = db₀.deadList
  | .hashIter record tmp => record = s.db.data.head? ∧ tmp = s.db.data.tail.head? ∧
      s.db.deadList ++ s.db.data = db₀.deadList ++ db₀.data
  | .signalReaperExit | .waitReaperThreadQuit | .reserveDataDBDestroy | .freeContext
  | .returned => s.db.data = [] ∧ s.db.deadList = db₀.deadList ++ db₀.data
  | .exited => True
  | _ => False

theorem Emptying.hashIter {db₀ db : ReserveDataDatabase} {p : RecordPtr} {tmp : Option RecordPtr}
    (hp : some p = db.data.head?) (htmp : tmp = db.data.tail.head?)
    (hall : db.deadList ++ db.data = db₀.deadList ++ db₀.data) :
    let db' := { db with data := db.data.erase p, deadList := db.deadList ++ [p] }
    tmp = db'.data.head? ∧ tmp.bind (nextInTable db') = db'.data.tail.head? ∧
      db'.deadList ++ db'.data = db₀.deadList ++ db₀.data := by
  obtain ⟨rest, hrest⟩ := List.head?_eq_some_iff.mp hp.symm
  simp only [hrest, List.erase_cons_head, List.tail_cons] at htmp hall ⊢
  subst htmp
  refine ⟨rfl, ?_, by simpa using hall⟩
  exact nextInTable_head { db with data := rest, deadList := db.deadList ++ [p] }

theorem Emptying.mainStep {db₀ : ReserveDataDatabase} {r : Option Errno} (h : Emptying db₀ s)
    (hs : s.mainStep r = some t) : Emptying db₀ t := by
  unfold Daemon.mainStep at hs
  split at hs
  case h_1 hm | h_2 hm | h_3 hm | h_4 hm => simp [Emptying, hm] at h
  case h_5 hm =>
    simp only [Emptying, hm] at h
    obtain ⟨hdata, hdead⟩ := h
    cases hs
    exact ⟨rfl, nextInTable_head s.db, by rw [hdata, hdead]⟩
  case h_6 hm =>
    simp only [Emptying, hm] at h
    obtain ⟨hrecord, _, hall⟩ := h
    have hnil : s.db.data = [] := List.head?_eq_none_iff.mp hrecord.symm
    cases hs
    exact ⟨hnil, by simpa [hnil] using hall⟩
  case h_7 hm =>
    simp only [Emptying, hm] at h
    obtain ⟨hrecord, htmp, hall⟩ := h
    cases hs
    exact Emptying.hashIter hrecord htmp hall
  case h_9 hm =>
    simp only [Emptying, hm] at h
    split at hs
    · cases hs
    · cases hs
      exact h
  case h_8 hm | h_10 hm | h_11 hm =>
    simp only [Emptying, hm] at h
    cases hs
    exact h
  -- an error, after which the process exits
  all_goals first
    | (cases hs; done)
    | (cases hs; trivial)

theorem Emptying.of_lists {db₀ : ReserveDataDatabase} (h : Emptying db₀ s)
    (hmain : t.main = s.main) (hdata : t.db.data = s.db.data)
    (hdead : t.db.deadList = s.db.deadList) : Emptying db₀ t := by
  unfold Emptying at h ⊢
  rw [hmain]
  cases hm : s.main <;> simp_all

/-- No thread but a handler in the middle of a request disturbs the emptying. -/
theorem Emptying.step {db₀ : ReserveDataDatabase} {l : Label} (h : Emptying db₀ s)
    (hq : ∀ d, l ≠ .request d) (hs : Advances s l t) : Emptying db₀ t := by
  obtain ⟨_, hs⟩ := advances_iff.mp hs
  cases l with
  | main r => exact h.mainStep hs
  | receiver r =>
    obtain ⟨_, pc, n, rfl, _⟩ := receiverStep_frame hs
    exact h
  | reaper r es =>
    obtain ⟨db, pc, n, rfl, hdata, hdead⟩ := reaperStep_frame hs
    exact h.of_lists rfl hdata hdead
  | request d => exact absurd rfl (hq d)
  | hangUp =>
    obtain ⟨_, rfl⟩ := hs
    exact h

theorem Emptying.run {db₀ : ReserveDataDatabase} {ls : List Label} (h : Emptying db₀ s)
    (hq : ∀ l ∈ ls, ∀ d, l ≠ .request d) (hr : Run Advances s ls t) : Emptying db₀ t := by
  apply hr.preserves_on ?_ h
  intro u l hl v hu hs
  exact hu.step (hq l hl) hs

/-- Where no request is served once the table is being emptied, the assertions of
`reserveDataDBDestroy` hold exactly if there was nothing to empty: neither a record
in the table nor one on the dead list. -/
theorem shutdown_asserts_iff {ls : List Label} (hs : s.main = .reserveDataDBEmpty)
    (h : Run Advances s ls t) (hq : ∀ l ∈ ls, ∀ d, l ≠ .request d)
    (ht : t.main = .reserveDataDBDestroy) :
    (t.db.data = [] ∧ t.db.deadList = []) ↔ (s.db.data = [] ∧ s.db.deadList = []) := by
  have hstart : Emptying s.db s := by simp [Emptying, hs]
  have hend := hstart.run hq h
  simp only [Emptying, ht] at hend
  rw [hend.2]
  simp [hend.1, and_comm]

/-- A client has a reserve for its user and leaves, and then SIGTERM arrives. -/
def sigtermRun : List Label :=
  List.replicate 4 (.receiver none) ++ [.request (added 1 1 5), .request (granted 1 10 0 1 5 5 3),
    .hangUp] ++ List.replicate 4 (.main none)

/-- The table is emptied, and the reaper leaves its loop at the first pass after
that, since the kernel does not answer its query. -/
def teardownRun : List Label :=
  List.replicate 4 (.main none) ++ List.replicate 2 (.reaper none []) ++
    [.reaper none [.call (.reserveInfo 5) ⟨-1, 0⟩]] ++ List.replicate 3 (.reaper none []) ++
    [.main none]

theorem teardownRun_quiet : ∀ l ∈ teardownRun, ∀ d, l ≠ .request d := by
  simp [teardownRun]

theorem teardownRun_runs : ∃ s t, Run Advances .start sigtermRun s ∧
    Run Advances s teardownRun t ∧ s.main = .reserveDataDBEmpty ∧ s.db.data = [0] ∧
    t.main = .reserveDataDBDestroy ∧ t.db.deadList = [0] ∧ t.db.destroyed = [] := by
  have hrun : ((walk Daemon.step .start sigtermRun).bind fun s =>
      (walk Daemon.step s teardownRun).map fun t =>
        (s.main, s.db.data, t.main, t.db.deadList, t.db.destroyed)) =
      some (.reserveDataDBEmpty, [0], .reserveDataDBDestroy, [0], []) := by decide
  obtain ⟨s, hs, hv⟩ := Option.bind_eq_some_iff.mp hrun
  obtain ⟨t, ht, hv⟩ := Option.map_eq_some_iff.mp hv
  simp only [Prod.mk.injEq] at hv
  exact ⟨s, t, run_of_walk hs, run_of_walk ht, hv⟩

/-- The second assertion would fail: the record is neither destroyed nor freed. -/
theorem shutdown_abandons_record : ∃ s t, Run Advances .start sigtermRun s ∧
    s.main = .reserveDataDBEmpty ∧ Run Advances s teardownRun t ∧
    (∀ l ∈ teardownRun, ∀ d, l ≠ .request d) ∧ t.main = .reserveDataDBDestroy ∧
    t.db.destroyed = [] ∧ ¬(t.db.data = [] ∧ t.db.deadList = []) := by
  obtain ⟨s, t, hs, ht, hmain, _, hdestroy, hdead, hgone⟩ := teardownRun_runs
  exact ⟨s, t, hs, hmain, ht, teardownRun_quiet, hdestroy, hgone, by simp [hdead]⟩

/-- The same run has something to empty. -/
theorem shutdown_asserts_sigterm : ∃ s t, Run Advances s teardownRun t ∧ s.db.data = [0] ∧
    ((t.db.data = [] ∧ t.db.deadList = []) ↔ (s.db.data = [] ∧ s.db.deadList = [])) := by
  obtain ⟨s, t, _, ht, hmain, hdata, hdestroy, _, _⟩ := teardownRun_runs
  exact ⟨s, t, ht, hdata, shutdown_asserts_iff hmain ht teardownRun_quiet hdestroy⟩

end PowerArbiter
