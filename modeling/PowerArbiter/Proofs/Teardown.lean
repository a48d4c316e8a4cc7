import PowerArbiter.Proofs.Shutdown

namespace PowerArbiter
open Monitor

variable {s t : Daemon} {r : Option Errno} {ls : List Label}

/-- `powerArbiterDestroy` has got past `__wait_reaper_thread_quit`. -/
def PastReaperExit : MainPc → Prop
  | .reserveDataDBDestroy | .freeContext | .returned => True
  | _ => False

/-- The reaper goes by a `reaper_should_exit` that it has found set. -/
def ReaperPc.Told : ReaperPc → Prop
  | .lockDatabase quit | .visit quit .. | .decide quit .. => quit = true
  | .post => True
  | .checkExit | .returned => False

/-- What the main thread tells the others it does not take back, and it consumes what the
reaper has posted. -/
theorem mainStep_signals (h : s.mainStep r = some t) :
    t.reaper = s.reaper ∧ (t.ctx.active = true → s.ctx.active = true) ∧
    (t.listening = true → s.listening = true) ∧
    (s.ctx.reaperShouldExit = true → t.ctx.reaperShouldExit = true) ∧
    (t.reaperThreadExited ≠ 0 ∨ PastReaperExit t.main →
      s.reaperThreadExited ≠ 0 ∨ PastReaperExit s.main) := by
  unfold Daemon.mainStep at h
  split at h
  case h_4 hm =>
    split at h <;> (cases h; simp [hm, PastReaperExit])
  case h_9 hm =>
    split at h
    · cases h
    · rename_i hposted
      cases h
      simp [hposted]
  all_goals first
    | (cases h; done)
    | (rename_i hm; cases h; simp [hm, PastReaperExit])

/-- The reaper posts when it leaves its loop, and leaves it only as told. -/
theorem reaperStep_told {es : List (Event sig)} (h : s.reaperStep r es = some t) :
    t.main = s.main ∧ t.ctx = s.ctx ∧
    (t.reaper.Told → s.reaper.Told ∨ s.ctx.reaperShouldExit = true) ∧
    (t.reaperThreadExited = s.reaperThreadExited ∨ s.reaper.Told ∧ t.reaper = .returned) ∧
    (t.reaper = .returned → s.reaper = .post ∨ s.reaper = .checkExit ∧ r ≠ none) := by
  obtain ⟨db, pc, n, rfl, _⟩ := reaperStep_frame h
  refine ⟨rfl, rfl, ?_⟩
  unfold Daemon.reaperStep at h
  cases hpc : s.reaper with
  | checkExit =>
    simp only [hpc] at h
    cases r with
    | none =>
      cases h
      simp [ReaperPc.Told]
    | some e =>
      cases h
      simp [ReaperPc.Told]
  | lockDatabase quit =>
    simp only [hpc] at h
    cases r <;> (cases h; simp_all [ReaperPc.Told])
  | visit quit err pos n =>
    cases pos with
    | none =>
      simp only [hpc] at h
      cases h
      simp_all [ReaperPc.Told]
    | some i =>
      simp only [hpc, Daemon.visitStep] at h
      split at h
      · cases h
      · split at h
        · cases h
          simp only [ReaperPc.Told, reduceCtorEq, false_implies, true_or, and_true]
          exact .inl
        · cases h
  | decide quit err isEmpty =>
    simp only [hpc] at h
    cases h
    cases hl : leavesLoop quit err isEmpty with
    | true =>
      have hquit : quit = true := (Bool.and_eq_true_iff.mp hl).1
      simp [ReaperPc.Told, hquit]
    | false => simp [ReaperPc.Told]
  | post =>
    simp only [hpc] at h
    cases h
    simp [ReaperPc.Told]
  | returned => simp [hpc] at h

/-- What the reaper goes by is set, and a reaper that has posted is gone. -/
structure Handshake (s : Daemon) : Prop where
  told : s.reaper.Told → s.ctx.reaperShouldExit = true
  posted : s.reaperThreadExited ≠ 0 ∨ PastReaperExit s.main →
    s.reaper = .returned ∧ s.ctx.reaperShouldExit = true

theorem Handshake.start : Handshake .start :=
  ⟨fun h => h.elim, fun h => h.elim (fun h => absurd rfl h) (fun h => h.elim)⟩

theorem Handshake.step {l : Label} (h : Handshake s) (hs : Advances s l t) : Handshake t := by
  obtain ⟨_, hs⟩ := advances_iff.mp hs
  cases l with
  | main r =>
    obtain ⟨hreaper, _, _, hset, hposted⟩ := mainStep_signals hs
    refine ⟨fun ht => hset (h.told (hreaper ▸ ht)), fun ht => ?_⟩
    obtain ⟨hret, hexit⟩ := h.posted (hposted ht)
    exact ⟨hreaper.trans hret, hset hexit⟩
  | receiver r =>
    obtain ⟨_, pc, n, rfl, _⟩ := receiverStep_frame hs
    exact ⟨h.told, h.posted⟩
  | reaper r es =>
    obtain ⟨hmain, hctx, htold, hpost, _⟩ := reaperStep_told hs
    refine ⟨fun ht => ?_, fun ht => ?_⟩
    · rw [hctx]
      exact (htold ht).elim h.told id
    · rw [hmain] at ht
      rw [hctx]
      rcases hpost with hsame | ⟨ht', hret⟩
      · -- a reaper that takes a step has not returned
        rw [hsame] at ht
        have hstuck := (h.posted ht).1
        simp [Daemon.reaperStep, hstuck] at hs
      · exact ⟨hret, h.told ht'⟩
  | request d =>
    obtain ⟨_, db, rfl⟩ := requestStep_frame hs
    exact ⟨h.told, h.posted⟩
  | hangUp =>
    obtain ⟨_, rfl⟩ := hs
    exact ⟨h.told, h.posted⟩

theorem Handshake.run (h : Run Advances .start ls t) : Handshake t :=
  h.preserves (fun _ _ _ hi hs => hi.step hs) .start

/-- A thread that has returned stays where it is. -/
theorem reaper_returned {l : Label} (h : s.reaper = .returned) (hs : Advances s l t) :
    t.reaper = .returned ∧ ∀ r es, l ≠ .reaper r es := by
  obtain ⟨_, hs⟩ := advances_iff.mp hs
  cases l with
  | main r =>
    exact ⟨(mainStep_signals hs).1.trans h, fun r es => Label.noConfusion⟩
  | receiver r =>
    obtain ⟨_, pc, n, rfl, _⟩ := receiverStep_frame hs
    exact ⟨h, fun r es => Label.noConfusion⟩
  | reaper r es => simp [Daemon.reaperStep, h] at hs
  | request d =>
    obtain ⟨_, db, rfl⟩ := requestStep_frame hs
    exact ⟨h, fun r es => Label.noConfusion⟩
  | hangUp =>
    obtain ⟨_, rfl⟩ := hs
    exact ⟨h, fun r es => Label.noConfusion⟩

theorem reaper_gone (h : s.reaper = .returned) (hr : Run Advances s ls t) :
    ∀ r es, Label.reaper r es ∉ ls := by
  induction ls generalizing s with
  | nil => exact fun r es => List.not_mem_nil
  | cons l ls ih =>
    obtain ⟨u, hs, hr⟩ := hr
    obtain ⟨hu, hl⟩ := reaper_returned h hs
    intro r es hmem
    rcases List.mem_cons.mp hmem with hhead | htail
    · exact hl r es hhead.symm
    · exact ih hu hr r es htail

/-- Unless a call fails, the reaper returns only as told. -/
theorem reaper_serves (h : Run Advances .start ls t) (hls : ∀ e es, Label.reaper (some e) es ∉ ls)
    (ht : t.ctx.reaperShouldExit = false) : t.reaper ≠ .post ∧ t.reaper ≠ .returned := by
  have hinv : Handshake t ∧ (t.reaper = .returned → t.ctx.reaperShouldExit = true) := by
    apply h.preserves_on (P := fun u =>
      Handshake u ∧ (u.reaper = .returned → u.ctx.reaperShouldExit = true)) ?_
      ⟨.start, fun hr => nomatch hr⟩
    rintro u l hl v ⟨hshake, hu⟩ hs
    refine ⟨hshake.step hs, ?_⟩
    obtain ⟨_, hs⟩ := advances_iff.mp hs
    cases l with
    | main r =>
      obtain ⟨hreaper, _, _, hset, _⟩ := mainStep_signals hs
      exact fun hv => hset (hu (hreaper ▸ hv))
    | receiver r =>
      obtain ⟨_, pc, n, rfl, _⟩ := receiverStep_frame hs
      exact hu
    | reaper r es =>
      obtain ⟨_, hctx, _, _, hret⟩ := reaperStep_told hs
      intro hv
      rw [hctx]
      rcases hret hv with hpost | ⟨_, hr⟩
      · apply hshake.told
        rw [hpost]
        trivial
      · obtain ⟨e, rfl⟩ := Option.ne_none_iff_exists'.mp hr
        exact absurd hl (hls e es)
    | request d =>
      obtain ⟨_, db, rfl⟩ := requestStep_frame hs
      exact hu
    | hangUp =>
      obtain ⟨_, rfl⟩ := hs
      exact hu
  constructor
  · intro hpost
    have htold := hinv.1.told (by rw [hpost]; trivial)
    rw [ht] at htold
    cases htold
  · intro hret
    have htold := hinv.2 hret
    rw [ht] at htold
    cases htold

/-- The reaper works until it is told to stop, and nothing of the context goes while it
works. -/
theorem reaper_handshake (h : Run Advances .start ls t) :
    ((∀ e es, Label.reaper (some e) es ∉ ls) → t.ctx.reaperShouldExit = false →
      t.reaper ≠ .post ∧ t.reaper ≠ .returned) ∧
    (PastReaperExit t.main → t.ctx.reaperShouldExit = true ∧
      ∀ ks u, Run Advances t ks u → ∀ r es, Label.reaper r es ∉ ks) := by
  constructor
  · exact reaper_serves h
  · intro hpast
    obtain ⟨hret, htold⟩ := (Handshake.run h).posted (.inr hpast)
    exact ⟨htold, fun ks u hr => reaper_gone hret hr⟩

/-- The context is to be destroyed, with a record still on the dead list. -/
theorem reaper_handshake_sigterm : ∃ t, Run Advances .start (sigtermRun ++ teardownRun) t ∧
    t.db.deadList = [0] ∧ t.ctx.reaperShouldExit = true ∧
      ∀ ks u, Run Advances t ks u → ∀ r es, Label.reaper r es ∉ ks := by
  obtain ⟨s, t, hs, ht, _, _, hmain, hdead, _⟩ := teardownRun_runs
  have hrun := run_append.mpr ⟨s, hs, ht⟩
  refine ⟨t, hrun, hdead, (reaper_handshake hrun).2 ?_⟩
  rw [hmain]
  trivial

/-- How many more clients it can take once `active` is cleared. -/
def Daemon.owed (s : Daemon) : Nat :=
  match s.receiver with
  | .callAccept => if s.listening then 1 else 0
  | .accept listening => if listening then 1 else 0
  | .handleRemoteClient => 1
  | .checkActive | .returned => 0

def Label.isHangUp : Label → Bool
  | .hangUp => true
  | _ => false

theorem receiverStep_owed (ha : s.ctx.active = false) (h : s.receiverStep r = some t) :
    t.ctx = s.ctx ∧ t.handlers + t.owed ≤ s.handlers + s.owed := by
  unfold Daemon.receiverStep at h
  split at h
  all_goals first
    | (cases h; done)
    | (rename_i hpc; cases h; simp [Daemon.owed, hpc, ha])

theorem mainStep_owed (h : s.mainStep r = some t) : t.owed ≤ s.owed := by
  obtain ⟨hreceiver, _, _⟩ := mainStep_frame h
  obtain ⟨_, _, hlisten, _⟩ := mainStep_signals h
  unfold Daemon.owed
  rw [hreceiver]
  cases s.receiver with
  | callAccept =>
    cases ht : t.listening with
    | true => simp [hlisten ht]
    | false => simp
  | _ => exact Nat.le_refl _

/-- Those that are served, those that have gone, and those that may still come. -/
theorem closing_step {l : Label} (ha : s.ctx.active = false) (hs : Advances s l t) :
    t.ctx.active = false ∧
      t.handlers + [l].countP Label.isHangUp + t.owed ≤ s.handlers + s.owed := by
  obtain ⟨_, hs⟩ := advances_iff.mp hs
  cases l with
  | main r =>
    obtain ⟨_, hhandlers, _⟩ := mainStep_frame hs
    obtain ⟨_, hactive, _⟩ := mainStep_signals hs
    constructor
    · rw [Bool.eq_false_iff]
      exact fun ht => absurd (hactive ht) (by simp [ha])
    · rw [hhandlers]
      exact Nat.add_le_add_left (mainStep_owed hs) _
  | receiver r =>
    obtain ⟨hctx, howed⟩ := receiverStep_owed ha hs
    exact ⟨hctx ▸ ha, howed⟩
  | reaper r es =>
    obtain ⟨db, pc, n, rfl, _⟩ := reaperStep_frame hs
    exact ⟨ha, Nat.le_refl _⟩
  | request d =>
    obtain ⟨_, db, rfl⟩ := requestStep_frame hs
    exact ⟨ha, Nat.le_refl _⟩
  | hangUp =>
    obtain ⟨hserved, rfl⟩ := hs
    refine ⟨ha, ?_⟩
    simp [Label.isHangUp, Daemon.owed]
    omega

theorem owed_le_one (s : Daemon) : s.owed ≤ 1 := by
  unfold Daemon.owed
  cases s.receiver with
  | callAccept => cases s.listening <;> simp
  | accept listening => cases listening <;> simp
  | _ => simp

/-- After `active` is cleared, at most one more client is served, and none if the receiver
was not about to accept one. -/
theorem closing_serves_one (ha : s.ctx.active = false) (h : Run Advances s ls t) :
    t.handlers + ls.countP Label.isHangUp + t.owed ≤ s.handlers + s.owed ∧ s.owed ≤ 1 := by
  refine ⟨?_, owed_le_one s⟩
  induction ls generalizing s with
  | nil => exact h ▸ Nat.le_refl _
  | cons l ls ih =>
    obtain ⟨u, hs, h⟩ := h
    obtain ⟨hu, hstep⟩ := closing_step ha hs
    have hrest := ih hu h
    rw [List.countP_cons]
    rw [List.countP_singleton] at hstep
    omega

/-- A client that comes between the signal and the closing of the socket is served. -/
theorem closing_serves_one_late : ∃ s t,
    Run Advances .start [.receiver none, .main none, .main none, .receiver none] s ∧
    Run Advances s [.receiver none, .main none, .receiver none, .hangUp, .receiver none] t ∧
    s.owed = 1 ∧ t.receiver = .returned ∧ t.handlers + 1 + t.owed ≤ s.handlers + s.owed := by
  have hrun : ((walk Daemon.step .start [.receiver none, .main none, .main none,
      .receiver none]).bind fun s => (walk Daemon.step s [.receiver none, .main none,
        .receiver none, .hangUp, .receiver none]).map
          fun t => (s.ctx.active, s.owed, t.receiver)) = some (false, 1, .returned) := by decide
  obtain ⟨s, hs, hv⟩ := Option.bind_eq_some_iff.mp hrun
  obtain ⟨t, ht, hv⟩ := Option.map_eq_some_iff.mp hv
  simp only [Prod.mk.injEq] at hv
  obtain ⟨hactive, howed, hreceiver⟩ := hv
  refine ⟨s, t, run_of_walk hs, run_of_walk ht, howed, hreceiver, ?_⟩
  exact (closing_serves_one hactive (run_of_walk ht)).1

end PowerArbiter
