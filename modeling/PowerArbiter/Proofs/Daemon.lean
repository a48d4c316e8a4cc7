import PowerArbiter.Daemon
import PowerArbiter.Proofs.Controller

namespace PowerArbiter
open Monitor

variable {s t : Daemon} {r : Option Errno}

theorem advances_iff {l : Label} : Advances s l t ↔ s.main ≠ .exited ∧
    match l with
    | .main r => s.mainStep r = some t
    | .receiver r => s.receiverStep r = some t
    | .reaper r es => s.reaperStep r es = some t
    | .request d => s.requestStep d = some t
    | .hangUp => s.handlers ≠ 0 ∧ t = { s with handlers := s.handlers - 1 } := by
  unfold Advances Daemon.step
  by_cases hm : s.main = .exited
  · simp [hm]
  · cases l <;> simp [hm, eq_comm]

/-- A visit may destroy its record, and unlinks nothing. -/
theorem visitStep_frame {quit : Bool} {err : Int32} {i : Nat} {n : Option Nat}
    {es : List (Event sig)} (h : s.visitStep quit err i n es = some t) :
    ∃ db pc, t = { s with db := db, reaper := pc } ∧
      db.data = s.db.data ∧ db.deadList = s.db.deadList := by
  unfold Daemon.visitStep at h
  cases hrecord : s.db.deadList[i]? with
  | none => simp [hrecord] at h
  | some record =>
    simp only [hrecord] at h
    split at h
    · rename_i err' db hx
      obtain ⟨gone, _, rfl⟩ := clearUnusedEntry_runs hx
      cases h
      exact ⟨_, _, rfl, rfl, rfl⟩
    · cases h

/-- The reaper destroys records, and changes neither list. -/
theorem reaperStep_frame {es : List (Event sig)} (h : s.reaperStep r es = some t) :
    ∃ db pc n, t = { s with db := db, reaper := pc, reaperThreadExited := n } ∧
      db.data = s.db.data ∧ db.deadList = s.db.deadList := by
  unfold Daemon.reaperStep at h
  cases hpc : s.reaper with
  | visit quit err pos n =>
    cases pos with
    | none =>
      simp only [hpc, Option.some.injEq] at h
      subst h
      exact ⟨_, _, _, rfl, rfl, rfl⟩
    | some i =>
      simp only [hpc] at h
      obtain ⟨db, pc, rfl, hdata, hdead⟩ := visitStep_frame h
      exact ⟨db, pc, _, rfl, hdata, hdead⟩
  | returned => simp [hpc] at h
  | _ =>
    simp only [hpc] at h
    cases r <;> (cases h; exact ⟨_, _, _, rfl, rfl, rfl⟩)

/-- The receiver only moves on, and starts a handler for a client it has accepted. -/
theorem receiverStep_frame (h : s.receiverStep r = some t) : s.receiver ≠ .returned ∧
    ∃ pc n, t = { s with receiver := pc, handlers := n } ∧
      (n = s.handlers ∨ (s.receiver = .handleRemoteClient ∧ r = none ∧ n = s.handlers + 1)) := by
  unfold Daemon.receiverStep at h
  split at h
  case h_6 hs =>
    cases h
    exact ⟨by simp [hs], _, _, rfl, .inr ⟨hs, rfl, rfl⟩⟩
  case h_7 => cases h
  all_goals
    rename_i hs
    cases h
    exact ⟨by simp [hs], _, _, rfl, .inl rfl⟩

theorem requestStep_frame {d : Done sig Op Outcome} (h : s.requestStep d = some t) :
    s.handlers ≠ 0 ∧ ∃ db, t = { s with db := db } := by
  unfold Daemon.requestStep at h
  split at h
  · cases h
  · rename_i hs
    split at h
    · split at h
      · cases h
        exact ⟨by simp_all, _, rfl⟩
      · cases h
    · cases h

theorem mainStep_frame (h : s.mainStep r = some t) :
    t.receiver = s.receiver ∧ t.handlers = s.handlers ∧ t.ctx.numUsers = s.ctx.numUsers := by
  unfold Daemon.mainStep at h
  split at h
  case h_4 =>
    split at h <;> (cases h; exact ⟨rfl, rfl, rfl⟩)
  case h_9 =>
    split at h
    · cases h
    · cases h
      exact ⟨rfl, rfl, rfl⟩
  all_goals first
    | (cases h; done)
    | (cases h; exact ⟨rfl, rfl, rfl⟩)

end PowerArbiter
