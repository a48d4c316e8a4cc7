import PowerArbiter.Proofs.Handlers
import PowerArbiter.Proofs.Refinement
import Mathlib.Data.List.Nodup

namespace PowerArbiter
open Monitor

/-- What one request or pass has done, in terms of the controller. -/
inductive Handled (db : ReserveDataDatabase) :
    Task → List (Event sig) → Option Response → ReserveDataDatabase → Prop
  | stat {ctx stack q fs r d x} (h : Stated db q.uid.toUInt32 ctx.pid fs r d)
      (hx : x = if r.ret ≠ 0 then ⟨0, 0, PA_FAILURE⟩ else
        ⟨(r.out.getD (stack.rid, stack.flags)).1, (r.out.getD (stack.rid, stack.flags)).2,
          PA_NO_ERROR⟩) : Handled db (.request ctx stack (.stat q)) fs (some (.stat x)) d
  | get {ctx stack q fs r x} (h : Got db q.uid.toUInt32 fs r) :
      Handled db (.request ctx stack (.get q)) fs (some (.get x)) db
  | set {ctx stack q fs r d x} (h : ParamsSet db q.uid.toUInt32 q.tapType q.tapValue fs r d) :
      Handled db (.request ctx stack (.set q)) fs (some (.set x)) d
  | add {ctx stack q fs r d x}
      (h : ParamsAdded stack.tmp db q.uid.toUInt32 q.tapType q.tapValue fs r d)
      (hx : x.error = PA_NO_ERROR ↔ r.1 = 0) :
      Handled db (.request ctx stack (.add q)) fs (some (.add x)) d
  | remove {ctx stack q fs r d x} (h : Removed q.uid.toUInt32 db fs r d)
      (hx : x.error = PA_NO_ERROR ↔ r = 0) :
      Handled db (.request ctx stack (.remove q)) fs (some (.remove x)) d
  | pass {fs r d} (h : Cleared db fs r d) : Handled db .pass fs none d

variable {db db' : ReserveDataDatabase} {es : List (Event sig)}

theorem task_runs {t : Task} {r : Option Response} (h : (task t).Runs effect db es r db') :
    Handled db t es r db' := by
  rcases t with ⟨ctx, stack, q | q | q | q | q⟩ | _
  all_goals
    simp only [task, handleClient, handleStatReserve, handleGetTapParams, handleSetTapParams,
      handleAddParamsForUid, handleRemoveParamsForUid, removeReserveParamsForUID, Prog.bind_eq,
      Prog.pure_eq, Prog.bind_assoc, Prog.ret_bind] at h
    rw [Prog.runs_bind (S := sig)] at h
    obtain ⟨x, mid, es₁, es₂, rfl, hx, h⟩ := h
    simp only [Prog.runs_ret] at h
    obtain ⟨rfl, rfl, rfl⟩ := h
    rw [List.append_nil]
  · exact .stat (statReserve_runs hx) rfl
  · obtain ⟨hg, rfl⟩ := getTapParams_runs hx
    exact .get hg
  · exact .set (setTapParams_runs hx)
  · refine .add (addReserveParamsForUID_runs hx) ?_
    grind [PA_NO_ERROR, PA_UID_EXISTS, PA_INVALID_INPUT, PA_BAD_PERMISSIONS, PA_FAILURE, EEXIST,
      EINVAL, EPERM]
  · refine .remove (removeEntry_runs hx) ?_
    grind [PA_NO_ERROR, PA_UID_NOT_FOUND, PA_BAD_PERMISSIONS, PA_FAILURE, ENOENT, EPERM]
  · exact .pass (clearUnused_runs hx)

theorem Handled.change {t : Task} {r : Option Response} (h : Handled db t es r db') :
    Change db db' := by
  cases h with
  | stat h hx => exact (Operated.stat h).change
  | get h => exact .same
  | set h => exact (Operated.set h).change
  | add h hx => exact (Operated.add h).change
  | remove h hx => exact (Operated.remove h).change
  | pass h => exact (Operated.clear h).change

abbrev Request := Done sig Task (Option Response)

/-- A successful ADD, and a successful REMOVE, of a user. -/
def Adds (d : Request) (uid : Uid) : Prop :=
  ∃ ctx stack q x, d.op = .request ctx stack (.add q) ∧ q.uid.toUInt32 = uid ∧
    d.result = some (.add x) ∧ x.error = PA_NO_ERROR

def Removes (d : Request) (uid : Uid) : Prop :=
  ∃ ctx stack q x, d.op = .request ctx stack (.remove q) ∧ q.uid.toUInt32 = uid ∧
    d.result = some (.remove x) ∧ x.error = PA_NO_ERROR

/-- A STAT for a user by the client `ctx`, answered without an error. -/
def Answers (d : Request) (uid : Uid) (ctx : ClientData) (rid : Int32) (flags : UInt32) : Prop :=
  ∃ stack q, d.op = .request ctx stack (.stat q) ∧ q.uid.toUInt32 = uid ∧
    d.result = some (.stat ⟨rid, flags, PA_NO_ERROR⟩)

/-- The kernel has accepted to expose this reserve to this process. -/
def Accepted (d : Request) (pid : Pid) (rid : Int32) : Prop :=
  ∃ a, .call (.exposeReserve pid rid CINDER_CAP_ALL) a ∈ d.trace ∧ a.ret = 0

/-- A record that has a reserve and a tap keeps them. -/
def Kept (db db' : ReserveDataDatabase) : Prop :=
  db.next ≤ db'.next ∧ ∀ p < db.next, (db.heap p).data.reserveCreated = true →
    (db'.heap p).data.reserveCreated = true ∧
    (db'.heap p).data.reserveId = (db.heap p).data.reserveId ∧
    (db'.heap p).data.tapId = (db.heap p).data.tapId

theorem Kept.refl (db : ReserveDataDatabase) : Kept db db :=
  ⟨Nat.le_refl _, fun _ _ hc => ⟨hc, rfl, rfl⟩⟩

theorem Kept.trans {u v w : ReserveDataDatabase} (h : Kept u v) (h' : Kept v w) : Kept u w := by
  refine ⟨Nat.le_trans h.1 h'.1, fun p hp hc => ?_⟩
  obtain ⟨hc₁, hr₁, ht₁⟩ := h.2 p hp hc
  obtain ⟨hc₂, hr₂, ht₂⟩ := h'.2 p (Nat.lt_of_lt_of_le hp h.1) hc₁
  exact ⟨hc₂, hr₂.trans hr₁, ht₂.trans ht₁⟩

theorem Change.kept (h : Change db db') : Kept db db' := by
  cases h with
  | insert hf =>
    refine ⟨Nat.le_succ _, fun p hp hc => ?_⟩
    simp only [heap_allocate_of_lt _ hp, and_self, and_true]
    exact hc
  | @create p reserve tap hp hc =>
    refine ⟨Nat.le_refl _, fun q hq hcq => ?_⟩
    have hne : q ≠ p := by
      intro hqp
      rw [hqp, hc] at hcq
      cases hcq
    rw [heap_modify_of_ne _ hne]
    exact ⟨hcq, rfl, rfl⟩
  | @rate p tapType tapValue hp =>
    refine ⟨Nat.le_refl _, fun q hq hcq => ?_⟩
    by_cases hqp : q = p
    · subst hqp
      simpa [UIDReserveData.rated] using hcq
    · rw [heap_modify_of_ne _ hqp]
      exact ⟨hcq, rfl, rfl⟩
  | _ => exact Kept.refl _

theorem lt_zero_ne {x : Int32} (h : x < 0) : x ≠ 0 := by
  intro hx
  subst hx
  exact absurd h (by decide)

theorem Created.error_ne {p : RecordPtr} {uid : Uid} {root : Int32} {err : Long}
    (h : Created db p uid root es (.error err) db') : err ≠ 0 := by
  cases h with
  | noReserve ha => exact lt_zero_ne ha
  | noTap ha hb => exact lt_zero_ne hb
  | noRate ha hb hc => exact hc

theorem Exposed.success {p : RecordPtr} {pid : Pid} {r : StatResult} (h : Exposed db p pid es r)
    (hr : r.ret = 0) : r.out = some ((db.heap p).data.reserveId, PA_RESERVE_GRANTED) ∧
      ∃ a, .call (.exposeReserve pid (db.heap p).data.reserveId CINDER_CAP_ALL) a ∈ es ∧
        a.ret = 0 := by
  cases h with
  | refused ha => exact absurd hr ha
  | granted ha => exact ⟨rfl, _, List.mem_cons_self, ha⟩

/-- A STAT that returns 0 found no record, or has exposed the reserve of the
record it found. -/
theorem Stated.success {uid : Uid} {pid : Pid} {r : StatResult} (h : Stated db uid pid es r db')
    (hr : r.ret = 0) :
    (db.find uid = none ∧ ∃ root, r.out = some (root, PA_USE_ROOT_RESERVE)) ∨
    ∃ p rid, db.find uid = some p ∧ r.out = some (rid, PA_RESERVE_GRANTED) ∧
      (db'.heap p).data.reserveCreated = true ∧ (db'.heap p).data.reserveId = rid ∧
      ∃ a, .call (.exposeReserve pid rid CINDER_CAP_ALL) a ∈ es ∧ a.ret = 0 := by
  cases h with
  | busy e => exact absurd hr e.nonzero
  | @absent a h => exact .inl ⟨h, a.ret, rfl⟩
  | recordBusy h e => exact absurd hr e.nonzero
  | @exposed a p fs r h hc hx =>
    obtain ⟨hout, b, hb, hret⟩ := hx.success hr
    exact .inr ⟨p, _, h, hout, hc, rfl, b, by simp [hb], hret⟩
  | failed h hc hcr => exact absurd hr hcr.error_ne
  | @created a p fs gs r d h hc hcr hx =>
    obtain ⟨hout, b, hb, hret⟩ := hx.success hr
    cases hcr with
    | done _ _ _ =>
      exact .inr ⟨p, _, h, hout, by simp [UIDReserveData.created], rfl, b,
        .tail _ (.tail _ (.tail _ (List.mem_append_right _ hb))), hret⟩

theorem Answers.sound {d : Request} {uid : Uid} {ctx : ClientData} {rid : Int32} {flags : UInt32}
    (hd : Alone task effect db d db') (h : Answers d uid ctx rid flags) :
    (db.find uid = none ∧ flags = PA_USE_ROOT_RESERVE) ∨
    ∃ p, db.find uid = some p ∧ flags = PA_RESERVE_GRANTED ∧
      (db'.heap p).data.reserveCreated = true ∧ (db'.heap p).data.reserveId = rid ∧
      Accepted d ctx.pid rid := by
  obtain ⟨stack, q, hop, rfl, hres⟩ := h
  have hh := task_runs hd
  rw [hop, hres] at hh
  cases hh with
  | @stat _ _ _ _ r _ _ hs hx =>
    by_cases hr : r.ret = 0
    · simp only [hr, ne_eq, not_true_eq_false, ↓reduceIte, PAStatReserveResponse.mk.injEq,
        and_true] at hx
      obtain ⟨hrid, hflags⟩ := hx
      rcases hs.success hr with ⟨hf, root, hout⟩ | ⟨p, i, hf, hout, hc, hi, ha⟩
      · simp only [hout, Option.getD_some] at hflags
        exact .inl ⟨hf, hflags⟩
      · simp only [hout, Option.getD_some] at hrid hflags
        subst hrid
        exact .inr ⟨p, hf, hflags, hc, hi, ha⟩
    · simp only [hr, ne_eq, not_false_eq_true, ↓reduceIte, PAStatReserveResponse.mk.injEq] at hx
      exact absurd hx.2.2 (by decide)

theorem Adds.found {d : Request} {uid : Uid} (hw : WellFormed db)
    (hd : Alone task effect db d db') (h : Adds d uid) : ∃ p, db'.find uid = some p := by
  obtain ⟨ctx, stack, q, x, hop, rfl, hres, herr⟩ := h
  obtain ⟨op, es, result⟩ := d
  have hh := task_runs hd
  simp only at hop hres hh
  subst hop hres
  have hw' := hw.change hh.change
  cases hh with
  | add ha hx =>
    have hret := hx.mp herr
    cases ha with
    | invalid hv => exact absurd hret (by decide)
    | valid hv ha =>
      simp only at hret
      cases ha with
      | busy e => exact absurd hret e.nonzero
      | present hp => exact absurd hret (by decide)
      | failed hf hr =>
        cases hr with
        | noMemory _ => exact absurd hret (by decide)
        | noMutex _ hb => exact absurd hret hb
      | done hf hr =>
        refine ⟨db.next, hw'.find_iff.mpr ⟨by simp, ?_⟩⟩
        simp [ReserveDataDatabase.allocate]

/-- A record stays where a lookup finds it until it is removed. -/
theorem find_kept {d : Request} {uid : Uid} {p : RecordPtr} (hw : WellFormed db)
    (hd : Alone task effect db d db') (hf : db.find uid = some p) (hnot : ¬Removes d uid) :
    db'.find uid = some p := by
  obtain ⟨op, es, result⟩ := d
  have hh := task_runs hd
  simp only at hh
  have hw' := hw.change hh.change
  obtain ⟨hp, hu⟩ := find_mem hf
  have huid := hh.change.uid_kept ((hw.placed p).mpr (.inl hp))
  suffices p ∈ db'.data from hw'.find_iff.mpr ⟨this, huid.trans hu⟩
  cases hh with
  | stat h hx => exact (Operated.stat h).stays (by simp) p hp
  | get h => exact hp
  | set h => exact (Operated.set h).stays (by simp) p hp
  | add h hx => exact (Operated.add h).stays (by simp) p hp
  | pass h => exact (Operated.clear h).stays (by simp) p hp
  | @remove ctx stack q _ _ _ x h hx =>
    cases h with
    | busy e => exact hp
    | absent _ => exact hp
    | @done r hr =>
      have hne : p ≠ r := by
        intro hpr
        subst hpr
        exact hnot ⟨ctx, stack, q, x, rfl, (find_mem hr).2.symm.trans hu, rfl, hx.mpr rfl⟩
      exact (List.mem_erase_of_ne hne).mpr hp

/-- A lookup that finds nothing finds nothing until the user is added. -/
theorem find_absent {d : Request} {uid : Uid} (hw : WellFormed db)
    (hd : Alone task effect db d db') (hf : db.find uid = none) (hnot : ¬Adds d uid) :
    db'.find uid = none := by
  obtain ⟨op, es, result⟩ := d
  have hh := task_runs hd
  simp only at hh
  cases hf' : db'.find uid with
  | none => rfl
  | some p =>
    exfalso
    obtain ⟨hp, hu⟩ := find_mem hf'
    have hold : p ∉ db.data := by
      intro hmem
      have huid := hh.change.uid_kept ((hw.placed p).mpr (.inl hmem))
      exact find_none hf p hmem (huid.symm.trans hu)
    cases hh with
    | stat h hx => exact hold ((Operated.stat h).comes (by simp) p hp)
    | get h => exact hold hp
    | set h => exact hold ((Operated.set h).comes (by simp) p hp)
    | remove h hx => exact hold ((Operated.remove h).comes (by simp) p hp)
    | pass h => exact hold ((Operated.clear h).comes (by simp) p hp)
    | @add ctx stack q _ _ _ x h hx =>
      cases h with
      | invalid hv => exact hold hp
      | valid hv h =>
        cases h with
        | busy e => exact hold hp
        | present _ => exact hold hp
        | failed _ hr => exact hold hp
        | done hnone hr =>
          rcases List.mem_append.mp hp with hp | hp
          · exact hold hp
          · obtain rfl := List.mem_singleton.mp hp
            have hkey : q.uid.toUInt32 = uid := by
              simpa [ReserveDataDatabase.allocate] using hu
            exact hnot ⟨ctx, stack, q, x, rfl, hkey, rfl, hx.mpr rfl⟩

theorem Removes.absent {d : Request} {uid : Uid} (hw : WellFormed db)
    (hd : Alone task effect db d db') (h : Removes d uid) : db'.find uid = none := by
  obtain ⟨ctx, stack, q, x, hop, rfl, hres, herr⟩ := h
  obtain ⟨op, es, result⟩ := d
  have hh := task_runs hd
  simp only at hop hres hh
  subst hop hres
  cases hh with
  | remove hr hx =>
    have hret := hx.mp herr
    cases hr with
    | busy e => exact absurd hret e.nonzero
    | absent hf => exact absurd hret (by decide)
    | done hf =>
      rw [find_remove hw hf, if_pos rfl]

/-- What holds from one request to the next, over a sequence of requests. -/
theorem Serial.kept {ds : List Request} (h : Serial task effect db ds db') : Kept db db' := by
  have hr : Run (Alone task effect) db ds db' := (serial_iff_run (S := sig)).mp h
  apply hr.relates Kept.refl (fun _ _ _ => Kept.trans)
  intro u d v hd
  exact (task_runs hd).change.kept

theorem Serial.formed {ds : List Request} (hw : WellFormed db) (h : Serial task effect db ds db') :
    WellFormed db' := by
  have hr : Run (Alone task effect) db ds db' := (serial_iff_run (S := sig)).mp h
  apply hr.preserves ?_ hw
  intro u d v hu hd
  exact hu.change (task_runs hd).change

/-- While a record is in the table, every STAT for it names the reserve that the
record ends up with. -/
theorem Serial.answers {ds : List Request} {uid : Uid} {p : RecordPtr} (hw : WellFormed db)
    (h : Serial task effect db ds db') (hf : db.find uid = some p)
    (hnot : ∀ d ∈ ds, ¬Removes d uid) :
    ∀ d ∈ ds, ∀ ctx rid flags, Answers d uid ctx rid flags →
      flags = PA_RESERVE_GRANTED ∧ rid = (db'.heap p).data.reserveId := by
  induction ds generalizing db with
  | nil => simp
  | cons d ds ih =>
    obtain ⟨mid, hd, h⟩ := h
    have hw' := hw.change (task_runs hd).change
    have hf' := find_kept hw hd hf (hnot d List.mem_cons_self)
    intro e he ctx rid flags ha
    rcases List.mem_cons.mp he with rfl | he
    · rcases ha.sound hd with ⟨hnone, _⟩ | ⟨q, hq, hflags, hc, hrid, _⟩
      · rw [hnone] at hf
        cases hf
      · have hqp : q = p := by
          rw [hf] at hq
          exact (Option.some.inj hq).symm
        subst hqp
        have hlt : q < mid.next := (hw'.placed q).mpr (.inl (find_mem hf').1)
        have hkept := (Serial.kept h).2 q hlt hc
        exact ⟨hflags, by rw [hkept.2.1, hrid]⟩
    · exact ih hw' h hf' (fun x hx => hnot x (List.mem_cons_of_mem _ hx)) e he ctx rid flags ha

/-- While a user has no record, no STAT for it is granted a reserve. -/
theorem Serial.denies {ds : List Request} {uid : Uid} (hw : WellFormed db)
    (h : Serial task effect db ds db') (hf : db.find uid = none) (hnot : ∀ d ∈ ds, ¬Adds d uid) :
    ∀ d ∈ ds, ∀ ctx rid flags, Answers d uid ctx rid flags → flags ≠ PA_RESERVE_GRANTED := by
  induction ds generalizing db with
  | nil => simp
  | cons d ds ih =>
    obtain ⟨mid, hd, h⟩ := h
    have hw' := hw.change (task_runs hd).change
    have hf' := find_absent hw hd hf (hnot d List.mem_cons_self)
    intro e he ctx rid flags ha
    rcases List.mem_cons.mp he with rfl | he
    · rcases ha.sound hd with ⟨_, hflags⟩ | ⟨q, hq, _⟩
      · rw [hflags]
        decide
      · rw [hf] at hq
        cases hq
    · exact ih hw' h hf' (fun x hx => hnot x (List.mem_cons_of_mem _ hx)) e he ctx rid flags ha

/-- Requests and passes that have been carried out from one state to another, one after the other
or by any number of threads that run concurrently. -/
inductive Carried (u : ReserveDataDatabase) (ds : List Request) (v : ReserveDataDatabase) :
    Prop where
  | serial (h : Serial task effect u ds v)
  | concurrent {τ : Type} [DecidableEq τ]
    {c : Conf sig ReserveDataDatabase τ Task (Option Response)}
    (h : Interleaved task effect (Conf.start u) c) (idle : ∀ t, c.threads t = none)
    (done : c.finished.map Finished.toDone = ds) (shared : c.shared = v)

/-- Those that have had the lock have an order, and the others do nothing. -/
theorem Carried.ordered {ds : List Request} (h : Carried db ds db') : ∃ es : List Request,
    Serial task effect db es db' ∧ (∀ d ∈ es, d ∈ ds) ∧
      ∀ d ∈ ds, d ∈ es ∨ ∀ s, Alone task effect s d s := by
  cases h with
  | serial h => exact ⟨ds, h, fun _ hd => hd, fun _ hd => .inl hd⟩
  | concurrent h idle done shared =>
    subst done shared
    obtain ⟨-, hnodup, ⟨fs, hinst, hmem, hserial⟩, hrest⟩ := h.serializable task_balanced idle
    refine ⟨fs.map Finished.toDone, hserial, ?_, ?_⟩
    · intro d hd
      obtain ⟨f, hf, rfl⟩ := List.mem_map.mp hd
      exact List.mem_map_of_mem (hmem f hf)
    · intro d hd
      obtain ⟨f, hf, rfl⟩ := List.mem_map.mp hd
      by_cases ho : f.inst ∈ fs.map Finished.inst
      · obtain ⟨g, hg, hfg⟩ := List.mem_map.mp ho
        rw [List.inj_on_of_nodup_map hnodup hf (hmem g hg) hfg.symm]
        exact .inl (List.mem_map_of_mem hg)
      · exact .inr (hrest f hf (hinst ▸ ho))

/-- A state that requests and passes have brought about. -/
def Reached (db : ReserveDataDatabase) : Prop := ∃ ds : List Request, Carried .empty ds db

/-- A request that does nothing whatever the state is not answered. -/
theorem Answers.not_idle {d : Request} {uid : Uid} {ctx : ClientData} {rid : Int32}
    {flags : UInt32} {p : RecordPtr} (hf : db.find uid = some p)
    (hd : ∀ s, Alone task effect s d s) (h : Answers d uid ctx rid flags) : False := by
  rcases h.sound (hd .empty) with ⟨_, hflags⟩ | ⟨q, hq, _⟩
  · rcases h.sound (hd db) with ⟨hnone, _⟩ | ⟨_, _, hflags', _⟩
    · rw [hf] at hnone
      cases hnone
    · exact absurd (hflags.symm.trans hflags') (by decide)
  · cases hq

/-- From any reachable state: between an ADD and the REMOVE of the record, all
STATs grant one and the same reserve; a record keeps its first reserve and tap; a
granted reserve has been exposed to the requesting process in the same request;
a user without a record is granted nothing, and a user that has been removed is
granted nothing before it is added again. -/
theorem grants_stable_sound {u : ReserveDataDatabase} (hu : Reached u) :
    (∀ add mid v t uid, Alone task effect u add v → Adds add uid → Carried v mid t →
      (∀ d ∈ mid, ¬Removes d uid) → ∃ rid₀, ∀ d ∈ mid, ∀ ctx rid flags,
        Answers d uid ctx rid flags → flags = PA_RESERVE_GRANTED ∧ rid = rid₀) ∧
    (∀ ds t, Carried u ds t → Kept u t) ∧
    (∀ d v uid ctx rid, Alone task effect u d v → Answers d uid ctx rid PA_RESERVE_GRANTED →
      Accepted d ctx.pid rid) ∧
    (∀ d v uid ctx rid flags, Alone task effect u d v → Answers d uid ctx rid flags →
      u.find uid = none → flags ≠ PA_RESERVE_GRANTED) ∧
    (∀ remove mid v t uid, Alone task effect u remove v → Removes remove uid → Carried v mid t →
      (∀ d ∈ mid, ¬Adds d uid) → ∀ d ∈ mid, ∀ ctx rid flags,
        Answers d uid ctx rid flags → flags ≠ PA_RESERVE_GRANTED) := by
  obtain ⟨ds₀, h₀⟩ := hu
  obtain ⟨es₀, hserial₀, -⟩ := h₀.ordered
  have hw := Serial.formed .empty hserial₀
  refine ⟨?_, ?_, ?_, ?_, ?_⟩
  · intro add mid v t uid hadd hok hmid hnot
    obtain ⟨p, hp⟩ := hok.found hw hadd
    have hv := hw.change (task_runs hadd).change
    obtain ⟨es, hserial, hsub, hall⟩ := hmid.ordered
    refine ⟨(t.heap p).data.reserveId, fun d hd ctx rid flags ha => ?_⟩
    rcases hall d hd with he | hidle
    · exact Serial.answers hv hserial hp (fun x hx => hnot x (hsub x hx)) d he ctx rid flags ha
    · exact (ha.not_idle hp hidle).elim
  · intro ds t h
    obtain ⟨es, hserial, -⟩ := h.ordered
    exact Serial.kept hserial
  · intro d v uid ctx rid hd ha
    rcases ha.sound hd with ⟨_, hflags⟩ | ⟨p, _, _, _, _, hacc⟩
    · exact absurd hflags (by decide)
    · exact hacc
  · intro d v uid ctx rid flags hd ha hnone
    rcases ha.sound hd with ⟨_, hflags⟩ | ⟨p, hp, _⟩
    · rw [hflags]
      decide
    · rw [hnone] at hp
      cases hp
  · intro remove mid v t uid hremove hok hmid hnot d hd ctx rid flags ha
    have hv := hw.change (task_runs hremove).change
    have hnone := hok.absent hw hremove
    obtain ⟨es, hserial, hsub, hall⟩ := hmid.ordered
    rcases hall d hd with he | hidle
    · exact Serial.denies hv hserial hnone (fun x hx => hnot x (hsub x hx)) d he ctx rid flags ha
    · rcases ha.sound (hidle v) with ⟨_, hflags⟩ | ⟨p, hp, _⟩
      · rw [hflags]
        decide
      · rw [hnone] at hp
        cases hp

def addRequest : Request :=
  ⟨.request ⟨9, 0, 0⟩ noLocals (.add ⟨1, 5, 1⟩), (added 1 1 5).trace, some (.add ⟨PA_NO_ERROR⟩)⟩

/-- The kernel has no tap, and the reserve is put again. -/
def failedStat : Request where
  op := .request ⟨10, 1, 1⟩ noLocals (.stat ⟨1⟩)
  trace := [.call .rootReserveId ⟨0, 0⟩, .lock none, .lockInner 0 none, createCall 1 ⟨5, 0⟩,
    tapCall 1 0 5 ⟨-12, 0⟩, .call (.putReserve 5) ⟨0, 0⟩, .unlockInner 0, .unlock]
  result := some (.stat ⟨0, 0, PA_FAILURE⟩)

def firstStat : Request where
  op := .request ⟨10, 1, 1⟩ noLocals (.stat ⟨1⟩)
  trace := (granted 1 10 0 1 5 6 3).trace
  result := some (.stat ⟨6, PA_RESERVE_GRANTED, PA_NO_ERROR⟩)

def setRequest : Request where
  op := .request ⟨9, 0, 0⟩ noLocals (.set ⟨1, 2, 50⟩)
  trace := [.lock none, .lockInner 0 none, rateCall 3 2 50 ⟨0, 0⟩, .unlockInner 0, .unlock]
  result := some (.set ⟨PA_NO_ERROR⟩)

def secondStat : Request where
  op := .request ⟨11, 2, 2⟩ noLocals (.stat ⟨1⟩)
  trace := [.call .rootReserveId ⟨0, 0⟩, .lock none, .lockInner 0 none,
    .call (.exposeReserve 11 6 CINDER_CAP_ALL) ⟨0, 0⟩, .unlockInner 0, .unlock]
  result := some (.stat ⟨6, PA_RESERVE_GRANTED, PA_NO_ERROR⟩)

def removeRequest : Request :=
  ⟨.request ⟨9, 0, 0⟩ noLocals (.remove ⟨1⟩), [.lock none, .unlock], some (.remove ⟨PA_NO_ERROR⟩)⟩

def lateStat : Request where
  op := .request ⟨11, 2, 2⟩ noLocals (.stat ⟨1⟩)
  trace := [.call .rootReserveId ⟨0, 0⟩, .lock none, .unlock]
  result := some (.stat ⟨0, PA_USE_ROOT_RESERVE, PA_NO_ERROR⟩)

def thirdStat : Request where
  op := .request ⟨11, 2, 2⟩ noLocals (.stat ⟨1⟩)
  trace := (granted 1 11 1 1 5 7 4).trace
  result := some (.stat ⟨7, PA_RESERVE_GRANTED, PA_NO_ERROR⟩)

/-- A user is removed and added again, with a failed STAT and a SET between two that succeed. -/
theorem grants_stable_sound_readded : ∃ u v w x y z, Alone task effect .empty addRequest u ∧
    Serial task effect u [failedStat, firstStat, setRequest, secondStat] v ∧
    Alone task effect v removeRequest w ∧ Serial task effect w [lateStat] x ∧
    Alone task effect x addRequest y ∧ Serial task effect y [thirdStat] z ∧
    (∃ rid₀, ∀ d ∈ [failedStat, firstStat, setRequest, secondStat], ∀ ctx rid flags,
      Answers d 1 ctx rid flags → flags = PA_RESERVE_GRANTED ∧ rid = rid₀) ∧
    (∀ d ∈ [lateStat], ∀ ctx rid flags, Answers d 1 ctx rid flags → flags ≠ PA_RESERVE_GRANTED) ∧
    ∃ rid₁, ∀ d ∈ [thirdStat], ∀ ctx rid flags, Answers d 1 ctx rid flags →
      flags = PA_RESERVE_GRANTED ∧ rid = rid₁ := by
  obtain ⟨u, v, w, x, y, z, hu, hv, hw, hx, hy, hz⟩ : ∃ u v w x y z,
      Alone task effect .empty addRequest u ∧
      Serial task effect u [failedStat, firstStat, setRequest, secondStat] v ∧
      Alone task effect v removeRequest w ∧ Serial task effect w [lateStat] x ∧
      Alone task effect x addRequest y ∧ Serial task effect y [thirdStat] z :=
    ⟨_, _, _, _, _, _, rfl, ⟨_, rfl, _, rfl, _, rfl, _, rfl, rfl⟩, rfl, ⟨_, rfl, rfl⟩, rfl, _, rfl,
      rfl⟩
  have hadds : Adds addRequest 1 := ⟨_, _, _, _, rfl, rfl, rfl, rfl⟩
  have hfirst : Serial task effect .empty
      [addRequest, failedStat, firstStat, setRequest, secondStat] v := ⟨u, hu, hv⟩
  have hsecond : Serial task effect .empty
      [addRequest, failedStat, firstStat, setRequest, secondStat, removeRequest, lateStat] x := by
    obtain ⟨a, ha, b, hb, c, hc, d, hd, rfl⟩ := hv
    exact ⟨u, hu, a, ha, b, hb, c, hc, v, hd, w, hw, hx⟩
  refine ⟨u, v, w, x, y, z, hu, hv, hw, hx, hy, hz, ?_, ?_, ?_⟩
  · refine (grants_stable_sound ⟨[], .serial rfl⟩).1 addRequest _ u v 1 hu hadds (.serial hv) ?_
    simp [Removes, failedStat, firstStat, setRequest, secondStat]
  · refine (grants_stable_sound ⟨_, .serial hfirst⟩).2.2.2.2 removeRequest _ w x 1 hw
      ⟨_, _, _, _, rfl, rfl, rfl, rfl⟩ (.serial hx) ?_
    simp [Adds, lateStat]
  · refine (grants_stable_sound ⟨_, .serial hsecond⟩).1 addRequest _ y z 1 hy hadds (.serial hz) ?_
    simp [Removes, thirdStat]

end PowerArbiter
