import PowerArbiter.Proofs.Integrity
import PowerArbiter.Proofs.Rollback

namespace PowerArbiter
open Monitor

/-- The kernel has created a reserve with this id. -/
def Provides (es : List (Event sig)) (rid : Int32) : Prop :=
  ∃ name len a, .call (.createReserve name len) a ∈ es ∧ a.ret = rid

/-- The reserve of the active record, which this STAT or an operation before has created. -/
def OwnReserve (ds : List (Done sig DbOp Unit)) (db : ReserveDataDatabase) (uid : Uid)
    (es : List (Event sig)) (rid : Int32) (db' : ReserveDataDatabase) : Prop :=
  ∃ p, db.find uid = some p ∧ (db'.heap p).data.reserveCreated = true ∧
    (db'.heap p).data.reserveId = rid ∧ (Provides es rid ∨ ∃ d ∈ ds, Provides d.trace rid)

def CreatesTap (es : List (Event sig)) : Prop :=
  ∃ name len src dest a, .call (.createTap name len src dest) a ∈ es

/-- What a STAT that follows the operations `ds` may report and use. -/
structure Founded (ds : List (Done sig DbOp Unit)) (db : ReserveDataDatabase) (uid : Uid)
    (es : List (Event sig)) (x : PAStatReserveResponse) (db' : ReserveDataDatabase) : Prop where
  rid : x.error = PA_NO_ERROR → 0 ≤ x.rid ∧
    ((x.flags = PA_USE_ROOT_RESERVE ∧ ∃ a, .call .rootReserveId a ∈ es ∧ a.ret = x.rid) ∨
      (x.flags = PA_RESERVE_GRANTED ∧ OwnReserve ds db uid es x.rid db'))
  taps : ∀ name len src dest a, .call (.createTap name len src dest) a ∈ es → 0 ≤ src ∧ 0 ≤ dest
  unobtained : ∀ a, .call .rootReserveId a ∈ es → a.ret < 0 →
    x.error ≠ PA_NO_ERROR ∧ ¬CreatesTap es

def RootObtained (es : List (Event sig)) : Prop := ∀ a, .call .rootReserveId a ∈ es → 0 ≤ a.ret

/-- Before the id of the root reserve is needed, a lock cannot be taken, the kernel does
not create a reserve for the record, or it does not expose the one that the record has. -/
def FailsBeforeRoot (db : ReserveDataDatabase) (uid : Uid) (es : List (Event sig)) : Prop :=
  ¬LocksSucceed es ∨ ∃ p, db.find uid = some p ∧
    (((db.heap p).data.reserveCreated = false ∧
      ∃ name len a, .call (.createReserve name len) a ∈ es ∧ a.ret < 0) ∨
    ((db.heap p).data.reserveCreated = true ∧
      ∃ pid id caps a, .call (.exposeReserve pid id caps) a ∈ es ∧ a.ret ≠ 0))

variable {db db' : ReserveDataDatabase} {es : List (Event sig)} {uid : Uid} {pid : Pid}

theorem Exposed.no_tap {p : RecordPtr} {r : StatResult} (h : Exposed db p pid es r) :
    ¬CreatesTap es := by
  intro hx
  obtain ⟨name, len, src, dest, a, hm⟩ := hx
  cases h.calls hm

theorem Exposed.no_root {p : RecordPtr} {r : StatResult} (h : Exposed db p pid es r) (b : Answer) :
    .call .rootReserveId b ∉ es := by
  intro hm
  cases h.calls hm

theorem Created.no_root {p : RecordPtr} {root : Int32} {x : Except Long Unit}
    (h : Created db p uid root es x db') (b : Answer) : .call .rootReserveId b ∉ es := by
  cases h <;> simp [createCall, tapCall, rateCall]

/-- The tap is between the root reserve and the reserve just created. -/
theorem Created.tap {p : RecordPtr} {root : Int32} {x : Except Long Unit}
    (h : Created db p uid root es x db') {name : List Char} {len src dest : Int32} {b : Answer}
    (hm : .call (.createTap name len src dest) b ∈ es) : src = root ∧ 0 ≤ dest := by
  cases h with
  | noReserve ha => simp [createCall] at hm
  | noTap ha hb =>
    simp [createCall, tapCall] at hm
    obtain ⟨⟨_, _, rfl, rfl⟩, _⟩ := hm
    exact ⟨rfl, Int32.not_lt.mp ha⟩
  | noRate ha hb hc =>
    simp [createCall, tapCall, rateCall] at hm
    obtain ⟨⟨_, _, rfl, rfl⟩, _⟩ := hm
    exact ⟨rfl, Int32.not_lt.mp ha⟩
  | done ha hb hc =>
    simp [createCall, tapCall, rateCall] at hm
    obtain ⟨⟨_, _, rfl, rfl⟩, _⟩ := hm
    exact ⟨rfl, Int32.not_lt.mp ha⟩

/-- The tap is not asked for if there is no reserve, and only then. -/
theorem Created.createsTap_iff {p : RecordPtr} {root : Int32} {x : Except Long Unit}
    (h : Created db p uid root es x db') :
    ¬CreatesTap es ↔ ∃ name len a, .call (.createReserve name len) a ∈ es ∧ a.ret < 0 := by
  cases h with
  | noReserve ha =>
    refine iff_of_true ?_ ⟨_, _, _, List.mem_cons_self, ha⟩
    simp [CreatesTap, createCall]
  | noTap ha hb =>
    refine iff_of_false (fun hx => hx ⟨_, _, _, _, _, .tail _ List.mem_cons_self⟩) ?_
    simpa [createCall, tapCall] using ha
  | noRate ha hb hc =>
    refine iff_of_false (fun hx => hx ⟨_, _, _, _, _, .tail _ List.mem_cons_self⟩) ?_
    simpa [createCall, tapCall, rateCall] using ha
  | done ha hb hc =>
    refine iff_of_false (fun hx => hx ⟨_, _, _, _, _, .tail _ List.mem_cons_self⟩) ?_
    simpa [createCall, tapCall, rateCall] using ha

theorem Created.createsTap {p : RecordPtr} {root : Int32}
    (h : Created db p uid root es (.ok ()) db') : CreatesTap es := by
  cases h with
  | done ha hb hc => exact ⟨_, _, _, _, _, .tail _ List.mem_cons_self⟩

/-- There is one call for the id of the root reserve. -/
theorem Stated.root {r : StatResult} (h : Stated db uid pid es r db') :
    ∃ a, ∀ b, .call .rootReserveId b ∈ es ↔ b = a := by
  cases h with
  | @busy a e => exact ⟨a, by simp⟩
  | @absent a hf => exact ⟨a, by simp⟩
  | @recordBusy a p hf e => exact ⟨a, by simp⟩
  | @exposed a p fs r hf hc hx => exact ⟨a, by simp [hx.no_root]⟩
  | @failed a p fs err hf hc hr => exact ⟨a, by simp [hr.no_root]⟩
  | @created a p fs gs r d hf hc hr hx => exact ⟨a, by simp [hr.no_root, hx.no_root]⟩

theorem Exposed.locksSucceed {p : RecordPtr} {r : StatResult} (h : Exposed db p pid es r) :
    LocksSucceed es := by
  cases h <;> (intro e; simp)

theorem Created.locksSucceed {p : RecordPtr} {root : Int32} {x : Except Long Unit}
    (h : Created db p uid root es x db') : LocksSucceed es := by
  cases h <;> (intro e; simp [createCall, tapCall, rateCall])

/-- What can go wrong with the record of the user once the locks are taken. -/
theorem failsBeforeRoot_iff {p : RecordPtr} (hl : LocksSucceed es) (hf : db.find uid = some p) :
    FailsBeforeRoot db uid es ↔
      ((db.heap p).data.reserveCreated = false ∧
        ∃ name len a, .call (.createReserve name len) a ∈ es ∧ a.ret < 0) ∨
      ((db.heap p).data.reserveCreated = true ∧
        ∃ pid id caps a, .call (.exposeReserve pid id caps) a ∈ es ∧ a.ret ≠ 0) := by
  constructor
  · intro h
    rcases h with h | ⟨q, hq, h⟩
    · exact absurd hl h
    · rw [hf] at hq
      cases hq
      exact h
  · intro h
    exact .inr ⟨p, hf, h⟩

/-- A STAT that neither succeeds nor asks for a tap has failed before the root reserve is
needed. -/
theorem Stated.silent_iff {r : StatResult} (h : Stated db uid pid es r db') :
    (r.ret ≠ 0 ∧ ¬CreatesTap es) ↔ FailsBeforeRoot db uid es := by
  cases h with
  | busy e =>
    refine iff_of_true ⟨e.nonzero, ?_⟩ (.inl (fun hl => hl.lock (.tail _ List.mem_cons_self)))
    simp [CreatesTap]
  | absent hf =>
    refine iff_of_false (fun hx => hx.1 rfl) ?_
    intro hx
    rcases hx with hx | ⟨p, hp, _⟩
    · exact hx (by intro e; simp)
    · rw [hf] at hp
      cases hp
  | recordBusy hf e =>
    refine iff_of_true ⟨e.nonzero, ?_⟩
      (.inl (fun hl => hl.lockInner (.tail _ (.tail _ List.mem_cons_self))))
    simp [CreatesTap]
  | @exposed a p fs r hf hc hx =>
    have hl : LocksSucceed (.call .rootReserveId a :: .lock none :: .lockInner p none :: fs) := by
      intro e
      simpa using hx.locksSucceed e
    rw [failsBeforeRoot_iff hl hf]
    have hno := hx.no_tap
    cases hx with
    | refused ha =>
      refine iff_of_true ⟨ha, ?_⟩ (.inr ⟨hc, _, _, _, _,
        .tail _ (.tail _ (.tail _ List.mem_cons_self)), ha⟩)
      simp [CreatesTap]
    | granted ha =>
      refine iff_of_false (fun hx => hx.1 rfl) ?_
      simp [hc, ha]
  | @failed a p fs err hf hc hr =>
    have hl : LocksSucceed (.call .rootReserveId a :: .lock none :: .lockInner p none ::
        (fs ++ [.unlockInner p, .unlock])) := by
      intro e
      simpa using hr.locksSucceed e
    rw [failsBeforeRoot_iff hl hf]
    have hiff := hr.createsTap_iff
    simp [hc, hr.error_ne, CreatesTap] at hiff ⊢
    exact hiff
  | @created a p fs gs r d hf hc hr hx =>
    have hl : LocksSucceed (.call .rootReserveId a :: .lock none :: .lockInner p none ::
        (fs ++ gs)) := by
      intro e
      simp [(hr.locksSucceed e).1, (hr.locksSucceed e).2, (hx.locksSucceed e).1,
        (hx.locksSucceed e).2]
    rw [failsBeforeRoot_iff hl hf]
    have htap := hr.createsTap
    refine iff_of_false (fun hno => hno.2 ?_) ?_
    · obtain ⟨name, len, src, dest, b, hm⟩ := htap
      exact ⟨name, len, src, dest, b, by simp [hm]⟩
    · intro hfail
      rcases hfail with ⟨_, name, len, b, hm, hb⟩ | ⟨hcr, _⟩
      · have hm' : .call (.createReserve name len) b ∈ fs ∨
            .call (.createReserve name len) b ∈ gs := by simpa using hm
        rcases hm' with hm' | hm'
        · exact hr.createsTap_iff.mpr ⟨name, len, b, hm', hb⟩ htap
        · cases hx.calls hm'
      · rw [hc] at hcr
        cases hcr

theorem CreatedTogether.provides {ds : List (Done sig DbOp Unit)} {p : RecordPtr}
    {reserve tap : Int32} (h : CreatedTogether ds p reserve tap) :
    ∃ d ∈ ds, Provides d.trace reserve := by
  obtain ⟨before, d, after, db, uid, pid, root, a, b, rfl, _, _, _, hm, _, _, rfl, _⟩ := h
  refine ⟨d, by simp, _, _, a, hm.subset List.mem_cons_self, rfl⟩

/-- A STAT that succeeds reports an id that the kernel has given, if the one of the root
reserve is such an id. -/
theorem Stated.provided {ds : List (Done sig DbOp Unit)} (ht : Traced ds db) {r : StatResult}
    (h : Stated db uid pid es r db') (hroot : RootObtained es) (hr : r.ret = 0) :
    ∃ rid flags, r.out = some (rid, flags) ∧ 0 ≤ rid ∧
      ((flags = PA_USE_ROOT_RESERVE ∧ ∃ a, .call .rootReserveId a ∈ es ∧ a.ret = rid) ∨
        (flags = PA_RESERVE_GRANTED ∧ OwnReserve ds db uid es rid db')) := by
  cases h with
  | busy e => exact absurd hr e.nonzero
  | recordBusy hf e => exact absurd hr e.nonzero
  | failed hf hc hcr => exact absurd hr hcr.error_ne
  | @absent a hf =>
    exact ⟨a.ret, PA_USE_ROOT_RESERVE, rfl, hroot a List.mem_cons_self,
      .inl ⟨rfl, a, List.mem_cons_self, rfl⟩⟩
  | @exposed a p fs r hf hc hx =>
    obtain ⟨hout, _⟩ := hx.success hr
    have hlt : p < db.next := (ht.formed.placed p).mpr (.inl (find_mem hf).1)
    obtain ⟨hnonneg, _, htogether⟩ := ht.ids p hlt hc
    exact ⟨_, _, hout, hnonneg, .inr ⟨rfl, p, hf, hc, rfl, .inr htogether.provides⟩⟩
  | @created a p fs gs r d hf hc hcr hx =>
    obtain ⟨hout, _⟩ := hx.success hr
    cases hcr with
    | @done x y z ha hb hrate =>
      have hid : ((db.modify p (.created x.ret y.ret)).heap p).data.reserveId = x.ret := by
        rw [heap_modify_self]
        rfl
      have hcall : createCall uid x ∈ .call .rootReserveId a :: .lock none ::
          .lockInner p none :: ([createCall uid x, tapCall uid a.ret x.ret y,
            rateCall y.ret (db.heap p).data.tapType (db.heap p).data.tapValue z] ++ gs) :=
        .tail _ (.tail _ (.tail _ List.mem_cons_self))
      refine ⟨_, _, hout, ?_, .inr ⟨rfl, p, hf, ?_, rfl, .inl ⟨_, _, x, hcall, hid.symm⟩⟩⟩
      · rw [hid]
        exact Int32.not_lt.mp ha
      · rw [heap_modify_self]
        rfl

theorem Stated.tap {r : StatResult} (h : Stated db uid pid es r db') {name : List Char}
    {len src dest : Int32} {b : Answer} (hm : .call (.createTap name len src dest) b ∈ es) :
    0 ≤ dest ∧ ∃ a, .call .rootReserveId a ∈ es ∧ src = a.ret := by
  cases h with
  | busy e => simp at hm
  | absent hf => simp at hm
  | recordBusy hf e => simp at hm
  | @exposed a p fs r hf hc hx =>
    have hm' : .call (.createTap name len src dest) b ∈ fs := by simpa using hm
    exact absurd ⟨_, _, _, _, _, hm'⟩ hx.no_tap
  | @failed a p fs err hf hc hr =>
    have hm' : .call (.createTap name len src dest) b ∈ fs := by simpa using hm
    obtain ⟨hsrc, hdest⟩ := hr.tap hm'
    exact ⟨hdest, a, List.mem_cons_self, hsrc⟩
  | @created a p fs gs r d hf hc hr hx =>
    have hm' : .call (.createTap name len src dest) b ∈ fs ∨
        .call (.createTap name len src dest) b ∈ gs := by simpa using hm
    rcases hm' with hm' | hm'
    · obtain ⟨hsrc, hdest⟩ := hr.tap hm'
      exact ⟨hdest, a, List.mem_cons_self, hsrc⟩
    · exact absurd ⟨_, _, _, _, _, hm'⟩ hx.no_tap

/-- In every reachable database, a STAT reports and uses ids of the kernel only, if and only
if the kernel names the root reserve or the STAT fails before it needs to know. -/
theorem stat_founded_iff {ds : List (Done sig DbOp Unit)}
    (h : Run (Guarded (Alone dbOperation effect) Controlled) .empty ds db) {ctx : ClientData}
    {stack : Locals} {q : PAStatReserveQuery} {x : PAStatReserveResponse}
    (hrun : (handleStatReserve ctx stack q).Runs effect db es x db') :
    Founded ds db q.uid.toUInt32 es x db' ↔
      RootObtained es ∨ FailsBeforeRoot db q.uid.toUInt32 es := by
  obtain ⟨r, hr, rfl⟩ := (Prog.runs_map (S := sig)).mp hrun
  have hs := statReserve_runs hr
  have ht := Traced.of_run h
  rw [← hs.silent_iff]
  by_cases hret : r.ret = 0
  · simp only [hret, ne_eq, not_true_eq_false, ↓reduceIte, false_and, or_false]
    constructor
    · intro hx a ha
      by_contra hneg
      exact (hx.unobtained a ha (Int32.not_le.mp hneg)).1 rfl
    · intro hroot
      obtain ⟨rid, flags, hout, hnonneg, hflags⟩ := hs.provided ht hroot hret
      rw [hout]
      refine ⟨fun _ => ⟨hnonneg, hflags⟩, ?_, ?_⟩
      · intro name len src dest b hm
        obtain ⟨hdest, a, ha, rfl⟩ := hs.tap hm
        exact ⟨hroot a ha, hdest⟩
      · intro a ha hneg
        exact absurd (hroot a ha) (Int32.not_le.mpr hneg)
  · simp only [hret, ne_eq, not_false_eq_true, ↓reduceIte, true_and]
    have hfailed : PA_FAILURE ≠ PA_NO_ERROR := by decide
    constructor
    · intro hx
      obtain ⟨a, ha⟩ := hs.root
      by_cases hneg : a.ret < 0
      · exact .inr (hx.unobtained a ((ha a).mpr rfl) hneg).2
      · refine .inl fun b hb => ?_
        rw [(ha b).mp hb]
        exact Int32.not_lt.mp hneg
    · intro hor
      refine ⟨fun he => absurd he hfailed, ?_, ?_⟩
      · intro name len src dest b hm
        obtain ⟨hdest, a, ha, rfl⟩ := hs.tap hm
        rcases hor with hroot | hno
        · exact ⟨hroot a ha, hdest⟩
        · exact absurd ⟨_, _, _, _, _, hm⟩ hno
      · intro a ha hneg
        rcases hor with hroot | hno
        · exact absurd (hroot a ha) (Int32.not_le.mpr hneg)
        · exact ⟨hfailed, hno⟩

/-- The first STAT of user 7, with 0 as the root reserve. -/
theorem stat_founded_first : ∃ ds db es x db',
    Run (Guarded (Alone dbOperation effect) Controlled) .empty ds db ∧
    (handleStatReserve ⟨9, 0, 0⟩ noLocals ⟨7⟩).Runs effect db es x db' ∧
    x = ⟨5, PA_RESERVE_GRANTED, PA_NO_ERROR⟩ ∧ Founded ds db 7 es x db' := by
  obtain ⟨db, db', hr, hrun⟩ : ∃ db db', Run (Guarded (Alone dbOperation effect) Controlled)
      .empty [⟨.controller (added 7 1 5).op, (added 7 1 5).trace, ()⟩] db ∧
      (handleStatReserve ⟨9, 0, 0⟩ noLocals ⟨7⟩).Runs effect db (granted 7 9 0 1 5 5 3).trace
        ⟨5, PA_RESERVE_GRANTED, PA_NO_ERROR⟩ db' :=
    ⟨_, _, ⟨_, ⟨rfl, nofun⟩, rfl⟩, rfl⟩
  have hroot : RootObtained (granted 7 9 0 1 5 5 3).trace := by
    intro a ha
    simp [granted, createCall, tapCall, rateCall] at ha
    rw [ha]
    decide
  exact ⟨_, db, _, _, db', hr, hrun, rfl, (stat_founded_iff hr hrun).mpr (.inl hroot)⟩

/-- The kernel does not name the root reserve, and the client is told that it is -1. -/
theorem missing_root_reported : ∃ es x db',
    (handleStatReserve ⟨9, 0, 0⟩ noLocals ⟨7⟩).Runs effect .empty es x db' ∧
    .call .rootReserveId ⟨-1, 0⟩ ∈ es ∧ x = ⟨-1, PA_USE_ROOT_RESERVE, PA_NO_ERROR⟩ ∧
    ¬Founded [] .empty 7 es x db' := by
  refine ⟨[.call .rootReserveId ⟨-1, 0⟩, .lock none, .unlock], _, _, rfl, List.mem_cons_self,
    rfl, ?_⟩
  intro h
  exact absurd (h.rid rfl).1 (by decide)

end PowerArbiter
