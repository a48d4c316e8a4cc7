import PowerArbiter.Proofs.Quit

namespace PowerArbiter
open Monitor

/-- What the query for the reserve of a record is answered. -/
abbrev Survey := RecordPtr → Answer

/-- The dead records that a pass asks about, in its order. -/
def queried (db : ReserveDataDatabase) (ps : List RecordPtr) : List RecordPtr :=
  ps.filter (fun p => (db.heap p).data.reserveCreated)

/-- The record keeps its place: the query failed, or reported other users. -/
def spared (db : ReserveDataDatabase) (survey : Survey) (p : RecordPtr) : Bool :=
  (db.heap p).data.reserveCreated && ((survey p).ret ≠ 0 || (survey p).numUsers > 1)

/-- What the code looks at instead. -/
def remains (db : ReserveDataDatabase) (survey : Survey) (p : RecordPtr) : Bool :=
  (db.heap p).data.reserveCreated && ((survey p).ret ≠ 0 || (survey p).numUsers ≠ 1)

/-- The reserves that were queried, and put, in the order of the calls. -/
def queries (es : List (Event sig)) : List Int32 :=
  es.filterMap fun
    | .call (.reserveInfo id) _ => some id
    | _ => none

def puts (es : List (Event sig)) : List Int32 :=
  es.filterMap fun
    | .call (.putReserve id) _ => some id
    | _ => none

/-- A pass reclaims the records that are not spared, and nothing else. -/
structure Reclaims (db : ReserveDataDatabase) (survey : Survey) (es : List (Event sig))
    (r : Int32 × Option Bool) (db' : ReserveDataDatabase) : Prop where
  dead : db'.deadList = db.deadList.filter (spared db survey)
  destroyed : db'.destroyed = db.destroyed ++ db.deadList.filter (fun p => !spared db survey p)
  queries : queries es = (queried db db.deadList).map (fun p => (db.heap p).data.reserveId)
  puts : puts es = (queried db (db.deadList.filter (fun p => !spared db survey p))).map
    (fun p => (db.heap p).data.reserveId)
  table : db'.data = db.data ∧ db'.heap = db.heap
  isEmpty : r.2 = some db'.deadList.isEmpty

variable {db db' : ReserveDataDatabase} {es : List (Event sig)} {survey : Survey}

@[simp] theorem queries_append (es fs : List (Event sig)) :
    queries (es ++ fs) = queries es ++ queries fs := List.filterMap_append

@[simp] theorem puts_append (es fs : List (Event sig)) :
    puts (es ++ fs) = puts es ++ puts fs := List.filterMap_append

theorem queried_cons (p : RecordPtr) (ps : List RecordPtr) :
    queried db (p :: ps) = queried db [p] ++ queried db ps := List.filter_append [p] ps

section Visit

variable {p : RecordPtr} {err err' : Int32} {gone : Bool}

/-- One visit, once it is known what its query is answered. -/
structure Visited (db : ReserveDataDatabase) (survey : Survey) (p : RecordPtr) (err : Int32)
    (es : List (Event sig)) (err' : Int32) (gone : Bool) : Prop where
  gone : gone = !remains db survey p
  err : err' = if (db.heap p).data.reserveCreated then (survey p).ret else err
  queries : queries es = (queried db [p]).map (fun p => (db.heap p).data.reserveId)
  puts : puts es = if remains db survey p then [] else
    (queried db [p]).map (fun p => (db.heap p).data.reserveId)

theorem Visit.surveyed (h : Visit db p err es err' gone)
    {script rest : List Answer}
    (hk : Follows surveyKernel ((queried db [p]).map survey ++ script) es rest) :
    rest = script ∧ Visited db survey p err es err' gone := by
  cases h with
  | fresh hc =>
    have hq : queried db [p] = [] := by simp [queried, hc]
    rw [hq] at hk
    refine ⟨hk, ?_, ?_, ?_, ?_⟩ <;> simp [remains, queries, puts, hc, hq]
  | @failed a hc ha =>
    have hq : queried db [p] = [p] := by simp [queried, hc]
    rw [hq] at hk
    obtain ⟨mid, hk, rfl⟩ := hk
    obtain ⟨rfl, rfl⟩ := List.cons.inj hk
    refine ⟨rfl, ?_, ?_, ?_, ?_⟩ <;> simp [remains, queries, puts, hc, ha, hq]
  | @shared a hc ha hn =>
    have hq : queried db [p] = [p] := by simp [queried, hc]
    rw [hq] at hk
    obtain ⟨mid, hk, rfl⟩ := hk
    obtain ⟨rfl, rfl⟩ := List.cons.inj hk
    refine ⟨rfl, ?_, ?_, ?_, ?_⟩ <;> simp [remains, queries, puts, hc, ha, hq, hn]
  | @last a b hc ha hn =>
    have hq : queried db [p] = [p] := by simp [queried, hc]
    rw [hq] at hk
    obtain ⟨mid, hk, mid', rfl, rfl⟩ := hk
    obtain ⟨rfl, rfl⟩ := List.cons.inj hk
    refine ⟨rfl, ?_, ?_, ?_, ?_⟩ <;> simp [remains, queries, puts, hc, ha, hq, hn]

end Visit

theorem remains_eq_spared {p : RecordPtr}
    (hu : (survey p).ret = 0 → 1 ≤ (survey p).numUsers) :
    remains db survey p = spared db survey p := by
  unfold remains spared
  grind

theorem elim_getLast?_cons {α β : Type} (x : α) (xs : List α) (e : β) (f : α → β) :
    (x :: xs).getLast?.elim e f = xs.getLast?.elim (f x) f := by
  rw [List.getLast?_cons]
  cases xs.getLast? <;> rfl

/-- A whole loop, once it is known what its queries are answered. -/
structure Swept (db : ReserveDataDatabase) (survey : Survey) (ps : List RecordPtr) (err : Int32)
    (es : List (Event sig)) (err' : Int32) (ds : List RecordPtr) : Prop where
  gone : ds = ps.filter (fun p => !remains db survey p)
  err : err' = (queried db ps).getLast?.elim err (fun p => (survey p).ret)
  queries : queries es = (queried db ps).map (fun p => (db.heap p).data.reserveId)
  puts : puts es = (queried db ds).map (fun p => (db.heap p).data.reserveId)

theorem Sweep.surveyed {ps ds : List RecordPtr} {err err' : Int32}
    (h : Sweep db ps err es err' ds) {script rest : List Answer}
    (hk : Follows surveyKernel ((queried db ps).map survey ++ script) es rest) :
    rest = script ∧ Swept db survey ps err es err' ds := by
  induction h with
  | nil => exact ⟨hk, rfl, rfl, rfl, rfl⟩
  | @cons p ps err fs err' gs err'' gone ds hv hs ih =>
    rw [queried_cons, List.map_append, List.append_assoc] at hk
    obtain ⟨mid, hk, hk'⟩ := follows_append.mp hk
    obtain ⟨rfl, hvis⟩ := hv.surveyed hk
    obtain ⟨rfl, hrest⟩ := ih hk'
    refine ⟨rfl, ?_, ?_, ?_, ?_⟩
    · rw [hvis.gone, hrest.gone, List.filter_cons]
      cases remains db survey p <;> rfl
    · rw [hrest.err, hvis.err]
      cases hc : (db.heap p).data.reserveCreated with
      | false => simp [queried, hc]
      | true =>
        have hq : queried db (p :: ps) = p :: queried db ps := by simp [queried, hc]
        rw [hq, elim_getLast?_cons]
        rfl
    · rw [queries_append, hvis.queries, hrest.queries, queried_cons p ps, List.map_append]
    · rw [puts_append, hvis.puts, hrest.puts, hvis.gone]
      cases remains db survey p with
      | false =>
        simp only [Bool.not_false, Bool.false_eq_true, ↓reduceIte, List.singleton_append]
        rw [queried_cons p ds, List.map_append]
      | true => rfl

/-- A pass reclaims what it should, exactly when it could lock the database and there
is nothing to reclaim: it unlinks no record. -/
theorem clearUnused_reclaims_iff {r : Int32 × Option Bool} {rest : List Answer}
    (h : reserveDataDBClearUnused.Runs effect db es r db')
    (hu : ∀ p, (survey p).ret = 0 → 1 ≤ (survey p).numUsers)
    (hk : Follows surveyKernel ((queried db db.deadList).map survey) es rest) :
    Reclaims db survey es r db' ↔
      .lock none ∈ es ∧ ∀ p ∈ db.deadList, spared db survey p = true := by
  cases clearUnused_runs h with
  | busy e =>
    constructor
    · intro hr
      cases hr.isEmpty
    · intro hx
      simp at hx
  | @done fs err ds hs =>
    rw [follows_lock] at hk
    obtain ⟨mid, hk, _⟩ := follows_append.mp hk
    rw [← List.append_nil ((queried db db.deadList).map survey)] at hk
    obtain ⟨_, hswept⟩ := hs.surveyed hk
    have heq : ∀ p, remains db survey p = spared db survey p := fun p => remains_eq_spared (hu p)
    have hgone : ds = db.deadList.filter (fun p => !spared db survey p) := by
      simp only [hswept.gone, heq]
    constructor
    · intro hr
      exact ⟨List.mem_cons_self, List.filter_eq_self.mp hr.dead.symm⟩
    · intro hx
      have hall := List.filter_eq_self.mpr hx.2
      refine ⟨hall.symm, ?_, ?_, ?_, ⟨rfl, rfl⟩, rfl⟩
      · rw [← hgone]
        rfl
      · have hq := hswept.queries
        simpa [queries] using hq
      · have hp := hswept.puts
        rw [hgone] at hp
        simpa [puts] using hp

/-- The query for the first of three dead records fails, and the other two are still in
use. -/
theorem clearUnused_reclaims_shared :
    let db : ReserveDataDatabase :=
      ⟨[], [0, 1, 2], fun p => ⟨⟨true, .ofNat (p + 5), 3, 1, 5⟩, .ofNat p⟩, 3, []⟩
    let survey : Survey := fun p => if p = 0 then ⟨-1, 0⟩ else ⟨0, 2⟩
    let es : List (Event sig) := [.lock none, .call (.reserveInfo 5) ⟨-1, 0⟩,
      .call (.reserveInfo 6) ⟨0, 2⟩, .call (.reserveInfo 7) ⟨0, 2⟩, .unlock]
    Reclaims db survey es (0, some false) db := by
  intro db survey es
  have hr : reserveDataDBClearUnused.Runs effect db es (0, some false) db := rfl
  have hk : Follows surveyKernel ((queried db db.deadList).map survey) es [] :=
    ⟨_, rfl, _, rfl, _, rfl, rfl⟩
  have hu : ∀ p, (survey p).ret = 0 → 1 ≤ (survey p).numUsers := by
    intro p hp
    by_cases h0 : p = 0
    · subst h0
      cases hp
    · simp only [survey, h0, ↓reduceIte]
      decide
  exact (clearUnused_reclaims_iff hr hu hk).mpr ⟨by simp [es], by decide⟩

/-- A record that was added and removed again is destroyed by the pass, and stays on the
dead list. -/
theorem reclaimed_record_listed : ∃ ds db es r db', Run (Alone dbOperation effect) .empty ds db ∧
    reserveDataDBClearUnused.Runs effect db es r db' ∧
    Follows surveyKernel ((queried db db.deadList).map fun _ => ⟨0, 1⟩) es [] ∧
    db'.deadList = [0] ∧ db'.destroyed = [0] ∧ ¬Reclaims db (fun _ => ⟨0, 1⟩) es r db' := by
  refine ⟨[⟨.controller (.addReserveParamsForUID ⟨false, 0, 0, 0, 0⟩ 7 1 5),
      [.lock none, .call .malloc ⟨1, 0⟩, .call .mutexInit ⟨0, 0⟩, .unlock], ()⟩,
    ⟨.controller (.removeReserveParamsForUID 7), [.lock none, .unlock], ()⟩], _,
    [.lock none, .unlock], _, _, ⟨_, rfl, _, rfl, rfl⟩, rfl, rfl, rfl, rfl, ?_⟩
  intro hr
  have hdead := hr.dead
  revert hdead
  decide

/-- A pass that locks the database, and whose queries are answered as in the survey,
returns `r`. -/
def Passes (db : ReserveDataDatabase) (survey : Survey) (r : Int32 × Option Bool) : Prop :=
  ∃ es db', reserveDataDBClearUnused.Runs effect db es r db' ∧ .lock none ∈ es ∧
    Follows surveyKernel ((queried db db.deadList).map survey) es []

/-- The pass reports an error exactly if one of its queries failed. -/
def ReportsFailure (db : ReserveDataDatabase) (survey : Survey) (r : Int32 × Option Bool) : Prop :=
  r.1 ≠ 0 ↔ ∃ p ∈ queried db db.deadList, (survey p).ret ≠ 0

/-- In whatever order the dead list is, the pass reports an error or not, and the reaper
that was told to exit leaves its loop or not. -/
def OrderFree (db : ReserveDataDatabase) (survey : Survey) (r : Int32 × Option Bool) : Prop :=
  ∀ ps : List RecordPtr, ps.Perm db.deadList →
    ∀ r', Passes { db with deadList := ps } survey r' →
      (r'.1 ≠ 0 ↔ r.1 ≠ 0) ∧
      leavesLoop true r'.1 (r'.2 = some true) = leavesLoop true r.1 (r.2 = some true)

theorem Passes.result {r : Int32 × Option Bool} (h : Passes db survey r) :
    r = ((queried db db.deadList).getLast?.elim 0 (fun p => (survey p).ret),
      some db.deadList.isEmpty) := by
  obtain ⟨es, db', hr, hlock, hk⟩ := h
  cases clearUnused_runs hr with
  | busy e => simp at hlock
  | @done fs err ds hs =>
    rw [follows_lock] at hk
    obtain ⟨mid, hk, _⟩ := follows_append.mp hk
    rw [← List.append_nil ((queried db db.deadList).map survey)] at hk
    obtain ⟨_, hswept⟩ := hs.surveyed hk
    rw [hswept.err]

theorem clearUnusedEntry_exists (db : ReserveDataDatabase) (survey : Survey) (err : Int32)
    (p : RecordPtr) : ∃ es err' ds, (clearUnusedEntry err p).Runs effect db es err' (db.bury ds) ∧
      ∀ script, Follows surveyKernel ((queried db [p]).map survey ++ script) es script := by
  cases hc : (db.heap p).data.reserveCreated with
  | false =>
    refine ⟨[], err, [p], ?_, fun script => by simp [queried, hc]⟩
    simp [clearUnusedEntry, reserveRecordDestroy, effect, hc, ReserveDataDatabase.bury, Prog.bind]
  | true =>
    have hq : queried db [p] = [p] := by simp [queried, hc]
    rw [hq]
    by_cases ha : (survey p).ret = 0
    · by_cases hn : (survey p).numUsers = 1
      · refine ⟨[.call (.reserveInfo (db.heap p).data.reserveId) (survey p),
          .call (.putReserve (db.heap p).data.reserveId) ⟨0, 0⟩], 0, [p], ?_,
          fun script => ⟨_, rfl, _, rfl, rfl⟩⟩
        simp [clearUnusedEntry, cinderGetNumReserveUsers, reserveRecordDestroy, cinderPutReserve,
          effect, hc, ha, hn, ReserveDataDatabase.bury, Prog.bind]
      · refine ⟨[.call (.reserveInfo (db.heap p).data.reserveId) (survey p)], 0, [], ?_,
          fun script => ⟨_, rfl, rfl⟩⟩
        simp [clearUnusedEntry, cinderGetNumReserveUsers, effect, hc, ha, hn,
          ReserveDataDatabase.bury, Prog.bind]
    · refine ⟨[.call (.reserveInfo (db.heap p).data.reserveId) (survey p)], (survey p).ret, [], ?_,
        fun script => ⟨_, rfl, rfl⟩⟩
      simp [clearUnusedEntry, cinderGetNumReserveUsers, effect, hc, ha, ReserveDataDatabase.bury,
        Prog.bind]

theorem clearUnusedLoop_exists (db : ReserveDataDatabase) (survey : Survey) (err : Int32)
    (ps : List RecordPtr) :
    ∃ es err' ds, (clearUnusedLoop err ps).Runs effect db es err' (db.bury ds) ∧
      ∀ script, Follows surveyKernel ((queried db ps).map survey ++ script) es script := by
  induction ps generalizing db err with
  | nil => exact ⟨[], err, [], by simp [clearUnusedLoop, ReserveDataDatabase.bury], fun _ => rfl⟩
  | cons p ps ih =>
    obtain ⟨es, err₁, ds, hr, hk⟩ := clearUnusedEntry_exists db survey err p
    obtain ⟨fs, err₂, ds', hr', hk'⟩ := ih (db.bury ds) err₁
    refine ⟨es ++ fs, err₂, ds ++ ds', ?_, fun script => ?_⟩
    · simp only [clearUnusedLoop, Prog.bind_eq]
      rw [Prog.runs_bind (S := sig)]
      refine ⟨err₁, _, es, fs, rfl, hr, ?_⟩
      simpa [ReserveDataDatabase.bury, List.append_assoc] using hr'
    · rw [queried_cons, List.map_append, List.append_assoc]
      exact follows_append.mpr ⟨_, hk _, hk' script⟩

theorem passes_exists (db : ReserveDataDatabase) (survey : Survey) : ∃ r, Passes db survey r := by
  obtain ⟨es, err, ds, hr, hk⟩ := clearUnusedLoop_exists db survey 0 db.deadList
  refine ⟨(err, some db.deadList.isEmpty), .lock none :: (es ++ [.unlock]), db.bury ds, ?_,
    List.mem_cons_self, ?_⟩
  · simp only [reserveDataDBClearUnused, Prog.bind_eq, Prog.pure_eq, readLock_bind,
      listEntries_bind, Prog.runs_lock]
    refine ⟨none, _, rfl, ?_⟩
    simp only [ne_eq, not_true_eq_false, ↓reduceIte, Prog.runs_access, effect]
    rw [Prog.runs_bind (S := sig)]
    exact ⟨err, _, es, [.unlock], rfl, hr, by simp [effect, ReserveDataDatabase.bury]⟩
  · rw [follows_lock]
    exact follows_append.mpr ⟨_, by simpa using hk [], rfl⟩

/-- Any dead record can come last. -/
theorem exists_order_last {ps : List RecordPtr} {p : RecordPtr} (hp : p ∈ queried db ps) :
    ∃ qs : List RecordPtr, qs.Perm ps ∧ (queried db qs).getLast? = some p := by
  obtain ⟨hp, hc⟩ := List.mem_filter.mp hp
  refine ⟨ps.erase p ++ [p], ?_, ?_⟩
  · exact (List.perm_append_comm).trans (List.perm_cons_erase hp).symm
  · unfold queried
    rw [List.filter_append, List.getLast?_append]
    simp [hc]

theorem Passes.reports_iff {r : Int32 × Option Bool} (h : Passes db survey r) :
    ReportsFailure db survey r ↔ (∀ p ∈ queried db db.deadList, (survey p).ret = 0) ∨
      ∃ p, (queried db db.deadList).getLast? = some p ∧ (survey p).ret ≠ 0 := by
  have herr : r.1 ≠ 0 ↔
      ∃ p, (queried db db.deadList).getLast? = some p ∧ (survey p).ret ≠ 0 := by
    rw [h.result]
    cases (queried db db.deadList).getLast? <;> simp
  unfold ReportsFailure
  rw [herr]
  constructor
  · intro hiff
    by_cases hall : ∀ p ∈ queried db db.deadList, (survey p).ret = 0
    · exact .inl hall
    · push Not at hall
      exact .inr (hiff.mpr hall)
  · intro hx
    constructor
    · intro hl
      obtain ⟨p, hp, hne⟩ := hl
      exact ⟨p, List.mem_of_getLast? hp, hne⟩
    · intro hf
      obtain ⟨p, hp, hne⟩ := hf
      rcases hx with hall | hlast
      · exact absurd (hall p hp) hne
      · exact hlast

/-- All queries fail, or none. -/
def Unmixed (survey : Survey) (qs : List RecordPtr) : Prop :=
  (∀ p ∈ qs, (survey p).ret = 0) ∨ ∀ p ∈ qs, (survey p).ret ≠ 0

theorem Passes.reports_of_unmixed {r : Int32 × Option Bool} (h : Passes db survey r)
    (hx : Unmixed survey (queried db db.deadList)) : ReportsFailure db survey r := by
  apply h.reports_iff.mpr
  rcases hx with hall | hall
  · exact .inl hall
  · cases hl : (queried db db.deadList).getLast? with
    | none => exact .inl fun p hp => by simp [List.getLast?_eq_none_iff.mp hl] at hp
    | some p => exact .inr ⟨p, rfl, hall p (List.mem_of_getLast? hl)⟩

theorem Passes.orderFree_iff {r : Int32 × Option Bool} (h : Passes db survey r) :
    OrderFree db survey r ↔ Unmixed survey (queried db db.deadList) := by
  constructor
  · intro hfree
    have hlast : ∀ p ∈ queried db db.deadList, (survey p).ret ≠ 0 ↔ r.1 ≠ 0 := by
      intro p hp
      obtain ⟨ps, hperm, hl⟩ := exists_order_last hp
      obtain ⟨r', hr'⟩ := passes_exists { db with deadList := ps } survey
      rw [← (hfree ps hperm r' hr').1, hr'.result]
      change _ ↔ (queried db ps).getLast?.elim 0 _ ≠ 0
      rw [hl]
      rfl
    by_cases hr : r.1 = 0
    · exact .inl fun p hp => by simpa [hr] using hlast p hp
    · exact .inr fun p hp => (hlast p hp).mpr hr
  · intro hx ps hperm r' hr'
    have hmem : ∀ p, p ∈ queried db ps ↔ p ∈ queried db db.deadList :=
      fun p => (hperm.filter _).mem_iff
    have hx' : Unmixed survey (queried db ps) := by
      unfold Unmixed at hx ⊢
      simpa only [hmem] using hx
    have hsame : r'.1 ≠ 0 ↔ r.1 ≠ 0 := by
      refine (hr'.reports_of_unmixed hx').trans (Iff.trans ?_ (h.reports_of_unmixed hx).symm)
      exact exists_congr fun p => and_congr_left fun _ => hmem p
    have hempty : ps.isEmpty = db.deadList.isEmpty := by
      rw [Bool.eq_iff_iff, List.isEmpty_iff, List.isEmpty_iff]
      constructor
      · intro hp
        exact List.nil_perm.mp (hp ▸ hperm)
      · intro hp
        exact List.perm_nil.mp (hp ▸ hperm)
    refine ⟨hsame, ?_⟩
    have hr : r.2 = some db.deadList.isEmpty := by rw [h.result]
    have hr2 : r'.2 = some ps.isEmpty := by rw [hr'.result]
    rw [hr, hr2, hempty]
    unfold leavesLoop
    simp only [hsame]

/-- A pass reports its failures if none of its queries failed or the last one did, and
only then. What it returns does not depend on the order of the dead list if none of the
queries failed or all of them did, and only then. -/
theorem clearUnused_failure_iff {r : Int32 × Option Bool} (h : Passes db survey r) :
    (ReportsFailure db survey r ↔ (∀ p ∈ queried db db.deadList, (survey p).ret = 0) ∨
      ∃ p, (queried db db.deadList).getLast? = some p ∧ (survey p).ret ≠ 0) ∧
    (OrderFree db survey r ↔ Unmixed survey (queried db db.deadList)) :=
  ⟨h.reports_iff, h.orderFree_iff⟩

/-- Two dead records, both of which the kernel does not know any more. -/
theorem clearUnused_failure_reported :
    let db : ReserveDataDatabase :=
      ⟨[], [0, 1], fun p => ⟨⟨true, .ofNat (p + 5), 3, 1, 5⟩, .ofNat p⟩, 2, []⟩
    ReportsFailure db (fun _ => ⟨-1, 0⟩) (-1, some false) ∧
      OrderFree db (fun _ => ⟨-1, 0⟩) (-1, some false) := by
  intro db
  have hp : Passes db (fun _ => ⟨-1, 0⟩) (-1, some false) :=
    ⟨[.lock none, .call (.reserveInfo 5) ⟨-1, 0⟩, .call (.reserveInfo 6) ⟨-1, 0⟩, .unlock], db, rfl,
      List.mem_cons_self, _, rfl, _, rfl, rfl⟩
  have hne : (-1 : Int32) ≠ 0 := by decide
  obtain ⟨hreports, hfree⟩ := clearUnused_failure_iff hp
  exact ⟨hreports.mpr (.inr ⟨1, rfl, hne⟩), hfree.mpr (.inr fun _ _ => hne)⟩

/-- The query for the first of two dead records fails, the one for the second does not,
and the pass returns 0. -/
theorem masked_failure : ∃ ds db survey r, Run (Alone dbOperation effect) .empty ds db ∧
    db.deadList = [0, 1] ∧ Passes db survey r ∧ r.1 = 0 ∧ (survey 0).ret ≠ 0 ∧
    ¬ReportsFailure db survey r ∧ ¬OrderFree db survey r := by
  let survey : Survey := fun p => if p = 0 then ⟨-1, 0⟩ else ⟨0, 2⟩
  let add (uid : Uid) : Done sig DbOp Unit :=
    ⟨.controller (added uid 1 5).op, (added uid 1 5).trace, ()⟩
  let stat (uid : Uid) (p : RecordPtr) (reserve tap : Int32) : Done sig DbOp Unit :=
    ⟨.controller (granted uid 9 p 1 5 reserve tap).op, (granted uid 9 p 1 5 reserve tap).trace, ()⟩
  let remove (uid : Uid) : Done sig DbOp Unit :=
    ⟨.controller (removed uid).op, (removed uid).trace, ()⟩
  have hne : (survey 0).ret ≠ 0 := by decide
  obtain ⟨db, hrun, hdead, hq, hp⟩ : ∃ db, Run (Alone dbOperation effect) .empty
      [add 7, add 8, stat 7 0 5 3, stat 8 1 6 4, remove 7, remove 8] db ∧ db.deadList = [0, 1] ∧
      queried db db.deadList = [0, 1] ∧ Passes db survey (0, some false) :=
    ⟨_, ⟨_, rfl, _, rfl, _, rfl, _, rfl, _, rfl, _, rfl, rfl⟩, rfl, rfl,
      [.lock none, .call (.reserveInfo 5) ⟨-1, 0⟩, .call (.reserveInfo 6) ⟨0, 2⟩, .unlock], _,
      rfl, List.mem_cons_self, _, rfl, _, rfl, rfl⟩
  refine ⟨_, db, survey, _, hrun, hdead, hp, rfl, hne, ?_, ?_⟩
  · intro h
    exact absurd rfl (h.mpr ⟨0, by simp [hq], hne⟩)
  · intro h
    rcases hp.orderFree_iff.mp h with hall | hall
    · exact hne (hall 0 (by simp [hq]))
    · exact hall 1 (by simp [hq]) rfl

end PowerArbiter
