import PowerArbiter.Monitor.Run
import PowerArbiter.Proofs.Daemon

namespace PowerArbiter
open Monitor

variable {s t : Daemon}

/-- `powerArbiterDestroy` has got past `__wait_for_client_exit`. -/
def PastClientExit : MainPc → Prop
  | .reserveDataDBEmpty | .hashIter .. | .signalReaperExit | .waitReaperThreadQuit
  | .reserveDataDBDestroy | .freeContext | .returned => True
  | _ => False

/-- The steps of a handler or of the receiver that use `progctx` or its database. -/
def UsesContext (s : Daemon) : Label → Prop
  | .request _ => True
  | .receiver _ => s.receiver = .checkActive ∨ s.receiver = .callAccept
  | _ => False

/-- Whatever the threads do from here, no handler runs, and neither a handler nor
the receiver uses `progctx`. -/
def Quiescent (s : Daemon) : Prop :=
  ∀ ls t, Run Advances s ls t → t.handlers = 0 ∧ ∀ l u, Advances t l u → ¬UsesContext t l

/-- No handler is started, and the main thread stops waiting only once the receiver
has returned. -/
def Unserved (s : Daemon) : Label → Prop
  | .receiver none => s.receiver ≠ .handleRemoteClient
  | .main none => s.main = .waitForClientExit → s.ctx.numUsers = 0 → s.receiver = .returned
  | _ => True

/-- No client is served, and none can be. -/
def Idle (s : Daemon) : Prop := s.handlers = 0 ∧ s.receiver = .returned

theorem Idle.step {l : Label} (h : Idle s) (hs : Advances s l t) : Idle t := by
  obtain ⟨_, hs⟩ := advances_iff.mp hs
  cases l with
  | main r =>
    obtain ⟨hr, hn, _⟩ := mainStep_frame hs
    exact ⟨hn.trans h.1, hr.trans h.2⟩
  | receiver r => exact absurd h.2 (receiverStep_frame hs).1
  | reaper r es =>
    obtain ⟨db, pc, n, rfl, _⟩ := reaperStep_frame hs
    exact h
  | request d => exact absurd h.1 (requestStep_frame hs).1
  | hangUp => exact absurd h.1 hs.1

theorem Idle.quiescent (h : Idle s) : Quiescent s := by
  intro ls t hr
  have ht : Idle t := hr.preserves (fun _ _ _ hi hs => hi.step hs) h
  refine ⟨ht.1, fun l u hs hu => ?_⟩
  obtain ⟨_, hs⟩ := advances_iff.mp hs
  cases l with
  | request d => exact absurd ht.1 (requestStep_frame hs).1
  | receiver r => exact absurd ht.2 (receiverStep_frame hs).1
  | _ => exact hu

/-- A receiver that has not returned reads `active` again, or calls `accept`. -/
theorem Quiescent.idle (h : Quiescent s) (hm : s.main ≠ .exited) : Idle s := by
  have hnow := h [] s rfl
  refine ⟨hnow.1, ?_⟩
  have check : ∀ l, Advances s l { s with receiver := .checkActive } → False := by
    intro l hl
    have hnext := h [l] { s with receiver := .checkActive } ⟨_, hl, rfl⟩
    refine hnext.2 (.receiver none) _ (advances_iff.mpr ⟨hm, rfl⟩) (.inl rfl)
  cases hr : s.receiver with
  | returned => rfl
  | checkActive =>
    have hs : Advances s (.receiver none)
        { s with receiver := if s.ctx.active then .callAccept else .returned } :=
      advances_iff.mpr ⟨hm, by simp [Daemon.receiverStep, hr]⟩
    exact absurd (.inl hr) (hnow.2 _ _ hs)
  | callAccept =>
    have hs : Advances s (.receiver none) { s with receiver := .accept s.listening } :=
      advances_iff.mpr ⟨hm, by simp [Daemon.receiverStep, hr]⟩
    exact absurd (.inr hr) (hnow.2 _ _ hs)
  | accept listening =>
    refine (check (.receiver (some ⟨1, by decide⟩)) (advances_iff.mpr ⟨hm, ?_⟩)).elim
    simp [Daemon.receiverStep, hr]
  | handleRemoteClient =>
    refine (check (.receiver (some ⟨1, by decide⟩)) (advances_iff.mpr ⟨hm, ?_⟩)).elim
    simp [Daemon.receiverStep, hr]

theorem mainStep_past {r : Option Errno} (hs : s.mainStep r = some t)
    (ht : PastClientExit t.main) : PastClientExit s.main ∨
      (s.main = .waitForClientExit ∧ s.ctx.numUsers = 0 ∧ r = none) := by
  unfold Daemon.mainStep at hs
  split at hs
  case h_4 hm =>
    split at hs
    · rename_i hn
      exact .inr ⟨hm, hn, rfl⟩
    · cases hs
      simp [hm, PastClientExit] at ht
  case h_1 | h_2 | h_3 =>
    cases hs
    exact ht.elim
  case h_5 hm | h_6 hm | h_7 hm | h_8 hm | h_9 hm | h_10 hm | h_11 hm =>
    rw [hm]
    exact .inl trivial
  all_goals first
    | (cases hs; done)
    | (cases hs; exact ht.elim)

/-- `num_users` counts the running handlers, and past the wait for the clients there
are none and will be none. -/
structure ClientsGone (s : Daemon) : Prop where
  counted : s.ctx.numUsers.toInt = s.handlers
  quiescent : PastClientExit s.main → Quiescent s

/-- `num_users` is zero forever, so this is what counting the handlers amounts to. -/
structure NeverServed (s : Daemon) : Prop where
  numUsers : s.ctx.numUsers = 0
  handlers : s.handlers = 0
  past : PastClientExit s.main → s.receiver = .returned

theorem NeverServed.start : NeverServed .start := ⟨rfl, rfl, fun h => h.elim⟩

theorem NeverServed.gone (h : NeverServed s) : ClientsGone s := by
  refine ⟨?_, fun hp => Idle.quiescent ⟨h.handlers, h.past hp⟩⟩
  rw [h.numUsers, h.handlers]
  rfl

theorem NeverServed.step {l : Label} (h : NeverServed s) (hs : Advances s l t)
    (hl : Unserved s l) : NeverServed t := by
  obtain ⟨_, hs⟩ := advances_iff.mp hs
  cases l with
  | main r =>
    obtain ⟨hrec, hhan, hnum⟩ := mainStep_frame hs
    refine ⟨hnum.trans h.numUsers, hhan.trans h.handlers, fun hp => hrec.trans ?_⟩
    rcases mainStep_past hs hp with hp | ⟨hm, hn, rfl⟩
    · exact h.past hp
    · exact hl hm hn
  | receiver r =>
    obtain ⟨hnot, pc, n, rfl, hn⟩ := receiverStep_frame hs
    refine ⟨h.numUsers, ?_, fun hp => absurd (h.past hp) hnot⟩
    rcases hn with rfl | ⟨hpc, rfl, _⟩
    · exact h.handlers
    · exact absurd hpc hl
  | reaper r es =>
    obtain ⟨db, pc, n, rfl, _⟩ := reaperStep_frame hs
    exact ⟨h.numUsers, h.handlers, h.past⟩
  | request d => exact absurd h.handlers (requestStep_frame hs).1
  | hangUp => exact absurd h.handlers hs.1

theorem NeverServed.unserved {l : Label} (h : NeverServed s) (hs : Advances s l t)
    (ht : ClientsGone t) : Unserved s l := by
  obtain ⟨_, hs⟩ := advances_iff.mp hs
  cases l with
  | receiver r =>
    cases r with
    | some e => trivial
    | none =>
      intro hpc
      -- a handler would run that `num_users` does not count
      simp only [Daemon.receiverStep, hpc, Option.some.injEq] at hs
      subst hs
      have hcount := ht.counted
      simp [h.numUsers, h.handlers] at hcount
  | main r =>
    cases r with
    | some e => trivial
    | none =>
      intro hm hn
      simp only [Daemon.mainStep, hm, hn, ↓reduceIte, Option.some.injEq] at hs
      subst hs
      exact ((ht.quiescent trivial).idle (by simp)).2
  | _ => trivial

/-- The clients are counted, and gone when the teardown begins, in every state of a
run exactly if no client is served and the main thread happens to wait for the
receiver. -/
theorem clients_gone_iff (ls : List Label) (t : Daemon) :
    Run (Observed Advances (fun _ _ u => ClientsGone u)) .start ls t ↔
    Run (Guarded Advances Unserved) .start ls t := by
  constructor
  · intro h
    refine Run.permitted (I := NeverServed) ?_ h .start
    intro s l t hi hs hgood
    have hl := hi.unserved hs hgood
    exact ⟨hi.step hs hl, hl⟩
  · intro h
    refine (Run.observed (I := NeverServed) ?_ h .start).1
    intro s l t hi hs hl
    have ht := hi.step hs hl
    exact ⟨ht, ht.gone⟩

/-- The main thread starts to empty the table while a client is served: the next
request changes the database. -/
theorem client_outlives_wait : ∃ ls s t, Run Advances .start ls s ∧
    s.main = .reserveDataDBEmpty ∧ s.ctx.numUsers = 0 ∧ s.handlers = 1 ∧
    Advances s (.request (added 1 1 5)) t ∧ t.db.data = [0] ∧ ¬ClientsGone s := by
  have hrun : ((walk Daemon.step .start (List.replicate 4 (.receiver none) ++
      List.replicate 4 (.main none))).bind fun s => (s.step (.request (added 1 1 5))).map
        fun t => (s.main, s.ctx.numUsers, s.handlers, t.db.data)) =
      some (.reserveDataDBEmpty, 0, 1, [0]) := by decide
  obtain ⟨s, hs, hv⟩ := Option.bind_eq_some_iff.mp hrun
  obtain ⟨t, ht, hv⟩ := Option.map_eq_some_iff.mp hv
  simp only [Prod.mk.injEq] at hv
  obtain ⟨hmain, hnum, hhan, hdata⟩ := hv
  refine ⟨_, s, t, run_of_walk hs, hmain, hnum, hhan, ht, hdata, fun h => ?_⟩
  have hcount := h.counted
  rw [hnum, hhan] at hcount
  exact absurd hcount (by decide)

end PowerArbiter
