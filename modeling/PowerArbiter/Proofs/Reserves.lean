import PowerArbiter.Monitor.Run
import PowerArbiter.Kernel
import PowerArbiter.Proofs.Containers

namespace PowerArbiter
open Monitor

abbrev World := ReserveDataDatabase × Reserves

/-- Record `p` names the reserve `id`. -/
def Names (db : ReserveDataDatabase) (p : RecordPtr) (id : Int32) : Prop :=
  (db.heap p).data.reserveCreated = true ∧ (db.heap p).data.reserveId = id

/-- The records in the table name reserves that the arbiter still holds. -/
def Backed (w : World) : Prop :=
  ∀ p ∈ w.1.data, ∀ id, Names w.1 p id → (w.2 id).arbiter = true

/-- A pass of the reaper puts no reserve that a record in the table names. -/
def SparesActive (w : World) (d : Done sig Op Outcome) : Prop :=
  d.op = .reserveDataDBClearUnused → ∀ id a, .call (.putReserve id) a ∈ d.trace →
    ∀ p ∈ w.1.data, ¬Names w.1 p id

/-- A STAT that stores a new reserve is not given an id that a record on the
dead list names. -/
def Unrecycled (w : World) (d : Done sig Op Outcome) : Prop :=
  ∀ name len a tap rateType value c, .call (.createReserve name len) a ∈ d.trace →
    .call (.setTapRate tap rateType value) c ∈ d.trace → c.ret = 0 →
    ∀ p ∈ w.1.deadList, ¬Names w.1 p a.ret

/-- What the permitted steps keep. -/
structure Entitled (w : World) : Prop where
  formed : WellFormed w.1
  backed : Backed w
  own : ∀ p ∈ w.1.data, ∀ q ∈ w.1.data, ∀ id, Names w.1 p id → Names w.1 q id → p = q
  apart : ∀ p ∈ w.1.data, ∀ q ∈ w.1.deadList, ∀ id, Names w.1 p id → ¬Names w.1 q id

section Kernel

variable {k k' : Reserves} {es : List (Event sig)} {c : Call} {a : Answer} {id : Int32}

/-- The arbiter loses a reserve only by putting it. -/
theorem reserveKernel_keeps (h : reserveKernel k c a k') (hput : c ≠ .putReserve id)
    (hk : (k id).arbiter = true) : (k' id).arbiter = true := by
  obtain ⟨k₁, hm, h⟩ := h
  have hk₁ : (k₁ id).arbiter = true := by rw [hm id]; exact hk
  cases c with
  | createReserve name len =>
    simp only at h
    split at h
    · rw [h]; exact hk₁
    · rw [h.2]
      by_cases hi : id = a.ret
      · subst hi; simp
      · simpa [Function.update_of_ne hi] using hk₁
  | putReserve r =>
    have hne : id ≠ r := fun hi => hput (by rw [hi])
    simp only at h
    split at h
    · rw [h.2, Function.update_of_ne hne]; exact hk₁
    · rw [h.2]; exact hk₁
  | reserveInfo r => rw [h.2]; exact hk₁
  | _ => rw [h]; exact hk₁

theorem follows_keeps (h : Follows reserveKernel k es k')
    (hput : ∀ a, .call (.putReserve id) a ∉ es) (hk : (k id).arbiter = true) :
    (k' id).arbiter = true := by
  induction es generalizing k with
  | nil => exact h ▸ hk
  | cons e es ih =>
    have htail : ∀ a, .call (.putReserve id) a ∉ es := fun a ha =>
      hput a (List.mem_cons_of_mem _ ha)
    cases e with
    | call c a =>
      obtain ⟨k₁, hc, h⟩ := h
      apply ih h htail
      apply reserveKernel_keeps hc ?_ hk
      intro he
      subst he
      exact hput a List.mem_cons_self
    | _ => exact ih h htail hk

/-- A new reserve is none that the arbiter holds already. -/
theorem follows_create {pre post : List (Event sig)} {name : List Char} {len : UInt32}
    (h : Follows reserveKernel k (pre ++ .call (.createReserve name len) a :: post) k')
    (ha : ¬a.ret < 0) :
    (∀ id, (∀ b, .call (.putReserve id) b ∉ pre) → (k id).arbiter = true → id ≠ a.ret) ∧
    ((∀ b, .call (.putReserve a.ret) b ∉ post) → (k' a.ret).arbiter = true) := by
  obtain ⟨k₁, hpre, k₂, hc, hpost⟩ := follows_append.mp h
  obtain ⟨k₃, hm, hcreate⟩ := hc
  simp only [ha, ↓reduceIte] at hcreate
  obtain ⟨hcount, rfl⟩ := hcreate
  constructor
  · intro id hput hk hid
    subst hid
    have : (k₃ a.ret).arbiter = true := by rw [hm]; exact follows_keeps hpre hput hk
    simp [Holders.count, this] at hcount
  · intro hput
    exact follows_keeps hpost hput (by simp)

end Kernel

section Puts

variable {db db' : ReserveDataDatabase} {es : List (Event sig)}

theorem Cleared.puts {r : Int32 × Option Bool} (h : Cleared db es r db') {id : Int32} {a : Answer}
    (hm : .call (.putReserve id) a ∈ es) : ∃ p ∈ db.deadList, Names db p id := by
  cases h with
  | busy e => simp at hm
  | done hs =>
    simp only [List.mem_cons, reduceCtorEq, List.mem_append, List.not_mem_nil, or_false,
      false_or] at hm
    obtain ⟨p, hp, hc, hcall⟩ := hs.calls hm
    rcases hcall with hcall | hcall
    · cases hcall
    · cases hcall
      exact ⟨p, hp, hc, rfl⟩

theorem RecordCreated.no_puts {uid : Uid} {data : UIDReserveData} {r : Except Int32 RecordPtr}
    (h : RecordCreated uid data db es r db') (id : Int32) (a : Answer) :
    .call (.putReserve id) a ∉ es := by
  intro hm
  rcases h.calls hm with hc | hc <;> cases hc

theorem Exposed.no_puts {p : RecordPtr} {pid : Pid} {r : StatResult} (h : Exposed db p pid es r)
    (id : Int32) (a : Answer) : .call (.putReserve id) a ∉ es := by
  intro hm
  cases h.calls hm

/-- The reserve that a call of the controller puts is one that it has created. -/
theorem Operated.puts {op : Op} {r : Outcome} (h : Operated db op es r db')
    (hop : op ≠ .reserveDataDBClearUnused) {id : Int32} {b : Answer}
    (hm : .call (.putReserve id) b ∈ es) :
    ∃ pre name len a post, es = pre ++ .call (.createReserve name len) a :: post ∧
      ¬a.ret < 0 ∧ id = a.ret ∧ ∀ i x, .call (.putReserve i) x ∉ pre := by
  cases h with
  | stat h =>
    cases h with
    | @failed a p fs err hf hc hr =>
      cases hr with
      | noReserve ha => simp [createCall] at hm
      | noTap ha hb =>
        simp only [createCall, tapCall, List.mem_cons, reduceCtorEq, Event.call.injEq,
          false_and, false_or, Call.putReserve.injEq, List.not_mem_nil,
          or_false, List.cons_append, List.nil_append] at hm
        exact ⟨[_, _, _], _, _, _, _, rfl, ha, hm.1, by simp⟩
      | noRate ha hb hc =>
        simp only [createCall, tapCall, rateCall, List.mem_cons, reduceCtorEq, Event.call.injEq,
          false_and, false_or, Call.putReserve.injEq, List.not_mem_nil,
          or_false, List.cons_append, List.nil_append] at hm
        exact ⟨[_, _, _], _, _, _, _, rfl, ha, hm.1, by simp⟩
    | exposed hf hc hx =>
      have := hx.no_puts id b
      simp_all
    | created hf hc hr hx =>
      have := hx.no_puts id b
      cases hr
      simp_all [createCall, tapCall, rateCall]
    | _ => simp at hm
  | get h => cases h <;> simp at hm
  | set h => cases h <;> simp [rateCall] at hm
  | add h =>
    cases h with
    | invalid h => simp at hm
    | valid hv h =>
      cases h with
      | busy e => simp at hm
      | present h => simp at hm
      | failed h hr =>
        have := hr.no_puts id b
        simp_all
      | done h hr =>
        have := hr.no_puts id b
        simp_all
  | remove h => cases h <;> simp at hm
  | clear h => exact absurd rfl hop

end Puts

section Step

variable {db db' : ReserveDataDatabase} {k k' : Reserves} {es : List (Event sig)} {op : Op}
  {r : Outcome}

/-- The arbiter keeps the reserves of the table across every call. -/
theorem Entitled.retained (h : Entitled (db, k)) (ho : Operated db op es r db')
    (hf : Follows reserveKernel k es k') :
    ∀ p ∈ db.data, ∀ id, Names db p id → (k' id).arbiter = true := by
  intro p hp id hn
  have hk : (k id).arbiter = true := h.backed p hp id hn
  apply follows_keeps hf ?_ hk
  intro b hb
  by_cases hop : op = .reserveDataDBClearUnused
  · subst hop
    cases ho with
    | clear hc =>
      obtain ⟨q, hq, hnq⟩ := hc.puts hb
      exact h.apart p hp q hq id hn hnq
  · obtain ⟨pre, name, len, a, post, rfl, ha, hid, hpre⟩ := ho.puts hop hb
    exact (follows_create hf ha).1 id (hpre id) hk hid

theorem Entitled.spares (h : Entitled (db, k)) (ho : Operated db op es r db') :
    SparesActive (db, k) ⟨op, es, r⟩ := by
  intro hop id a hm p hp hn
  simp only at hop hm
  subst hop
  cases ho with
  | clear hc =>
    obtain ⟨q, hq, hnq⟩ := hc.puts hm
    exact h.apart p hp q hq id hn hnq

/-- A change of the database in which no record of the table takes a new reserve. -/
theorem Entitled.carry (h : Entitled (db, k)) (hform : WellFormed db')
    (hkept : ∀ p ∈ db.data, ∀ id, Names db p id → (k' id).arbiter = true)
    (hdead : db'.deadList = db.deadList)
    (hdata : ∀ p ∈ db'.data, ∀ id, Names db' p id → p ∈ db.data ∧ Names db p id)
    (hnames : ∀ p ∈ db.deadList, ∀ id, Names db' p id → Names db p id) : Entitled (db', k') := by
  refine ⟨hform, ?_, ?_, ?_⟩
  · intro p hp id hn
    obtain ⟨hp, hn⟩ := hdata p hp id hn
    exact hkept p hp id hn
  · intro p hp q hq id hnp hnq
    obtain ⟨hp, hnp⟩ := hdata p hp id hnp
    obtain ⟨hq, hnq⟩ := hdata q hq id hnq
    exact h.own p hp q hq id hnp hnq
  · intro p hp q hq id hnp hnq
    obtain ⟨hp, hnp⟩ := hdata p hp id hnp
    simp only [hdead] at hq
    exact h.apart p hp q hq id hnp (hnames q hq id hnq)

theorem names_rated (p q : RecordPtr) (tapType : UInt64) (tapValue : Int64) (id : Int32) :
    Names (db.modify p (.rated tapType tapValue)) q id ↔ Names db q id := by
  by_cases hq : q = p
  · subst hq
    simp [Names, ReserveDataDatabase.modify, UIDReserveData.rated]
  · simp [Names, ReserveDataDatabase.modify, Function.update_of_ne hq]

theorem names_created (p q : RecordPtr) (reserve tap id : Int32) :
    Names (db.modify p (.created reserve tap)) q id ↔
      (q = p ∧ id = reserve) ∨ (q ≠ p ∧ Names db q id) := by
  by_cases hq : q = p
  · subst hq
    simp only [Names, ReserveDataDatabase.modify, Function.update_self, UIDReserveData.created,
      true_and, ne_eq, not_true_eq_false, false_and, or_false]
    exact eq_comm
  · simp [Names, ReserveDataDatabase.modify, hq]

theorem Entitled.insert (h : Entitled (db, k)) {uid : Uid} {data : UIDReserveData}
    (hc : data.reserveCreated = false) (hf : db.find uid = none)
    (hkept : ∀ p ∈ db.data, ∀ id, Names db p id → (k' id).arbiter = true) :
    Entitled ({ db.allocate ⟨data, uid⟩ with data := db.data ++ [db.next] }, k') := by
  have old : ∀ p < db.next, ∀ id,
      Names { db.allocate ⟨data, uid⟩ with data := db.data ++ [db.next] } p id → Names db p id := by
    intro p hp id hn
    simpa [Names, ReserveDataDatabase.allocate, Function.update_of_ne (Nat.ne_of_lt hp)] using hn
  refine h.carry (h.formed.insert data hf) hkept rfl ?_ ?_
  · intro p hp id hn
    rcases List.mem_append.mp hp with hp | hp
    · exact ⟨hp, old p ((h.formed.placed p).mpr (.inl hp)) id hn⟩
    · -- the new record has no reserve
      simp only [List.mem_singleton] at hp
      subst hp
      have := hn.1
      simp [ReserveDataDatabase.allocate, hc] at this
  · intro p hp id hn
    exact old p ((h.formed.placed p).mpr (.inr hp)) id hn

theorem Entitled.remove (h : Entitled (db, k)) {p : RecordPtr} (hp : p ∈ db.data)
    (hkept : ∀ p ∈ db.data, ∀ id, Names db p id → (k' id).arbiter = true) :
    Entitled ({ db with data := db.data.erase p, deadList := db.deadList ++ [p] }, k') := by
  refine ⟨h.formed.remove hp, ?_, ?_, ?_⟩
  · intro q hq id hn
    exact hkept q (List.mem_of_mem_erase hq) id hn
  · intro q hq r hr id hnq hnr
    exact h.own q (List.mem_of_mem_erase hq) r (List.mem_of_mem_erase hr) id hnq hnr
  · intro q hq r hr id hnq hnr
    have hq' := h.formed.data.mem_erase_iff.mp hq
    rcases List.mem_append.mp hr with hr | hr
    · exact h.apart q hq'.2 r hr id hnq hnr
    · simp only [List.mem_singleton] at hr
      subst hr
      exact hq'.1 (h.own q hq'.2 r hp id hnq hnr)

/-- The step that stores a new reserve: the kernel has not handed out one that
the table names, and the condition on ids takes care of the dead list. -/
theorem Entitled.create (h : Entitled (db, k)) {p : RecordPtr} {reserve tap : Int32}
    (hp : p ∈ db.data) (hkept : ∀ p ∈ db.data, ∀ id, Names db p id → (k' id).arbiter = true)
    (hnew : (k' reserve).arbiter = true)
    (hother : ∀ id, (k id).arbiter = true → id ≠ reserve)
    (hdead : ∀ q ∈ db.deadList, ¬Names db q reserve) :
    Entitled (db.modify p (.created reserve tap), k') := by
  have hfresh : ∀ q ∈ db.data, ¬Names db q reserve :=
    fun q hq hn => hother reserve (h.backed q hq reserve hn) rfl
  refine ⟨h.formed.modify _ _, ?_, ?_, ?_⟩
  · intro q hq id hn
    rcases (names_created _ _ _ _ _).mp hn with ⟨_, rfl⟩ | ⟨_, hn⟩
    · exact hnew
    · exact hkept q hq id hn
  · intro q hq r hr id hnq hnr
    rcases (names_created _ _ _ _ _).mp hnq with ⟨rfl, rfl⟩ | ⟨_, hq'⟩
    · rcases (names_created _ _ _ _ _).mp hnr with ⟨rfl, _⟩ | ⟨_, hr'⟩
      · rfl
      · exact absurd hr' (hfresh r hr)
    · rcases (names_created _ _ _ _ _).mp hnr with ⟨rfl, rfl⟩ | ⟨_, hr'⟩
      · exact absurd hq' (hfresh q hq)
      · exact h.own q hq r hr id hq' hr'
  · intro q hq r hr id hnq hnr
    have hne : r ≠ p := fun he => h.formed.apart p hp (he ▸ hr)
    have hr' : Names db r id := by
      rcases (names_created _ _ _ _ _).mp hnr with ⟨he, _⟩ | ⟨_, hr'⟩
      · exact absurd he hne
      · exact hr'
    rcases (names_created _ _ _ _ _).mp hnq with ⟨_, rfl⟩ | ⟨_, hq'⟩
    · exact hdead r hr hr'
    · exact h.apart q hq r hr id hq' hr'

theorem Entitled.step (h : Entitled (db, k)) (ho : Operated db op es r db')
    (hf : Follows reserveKernel k es k') (hok : Unrecycled (db, k) ⟨op, es, r⟩) :
    Entitled (db', k') := by
  have hkept := h.retained ho hf
  have same : Entitled (db, k') :=
    h.carry h.formed hkept rfl (fun p hp id hn => ⟨hp, hn⟩) (fun _ _ _ hn => hn)
  have rate (p : RecordPtr) (tapType : UInt64) (tapValue : Int64) :
      Entitled (db.modify p (.rated tapType tapValue), k') :=
    h.carry (h.formed.modify _ _) hkept rfl
      (fun q hq id hn => ⟨hq, (names_rated p q _ _ id).mp hn⟩)
      (fun q _ id hn => (names_rated p q _ _ id).mp hn)
  cases ho with
  | stat h' =>
    cases h' with
    | @created a p fs gs r d hfind hc hr hx =>
      cases hr with
      | @done a' b c ha hb hc' =>
        have hgs : ∀ b, .call (.putReserve a'.ret) b ∉ gs := hx.no_puts a'.ret
        have hf : Follows reserveKernel k
            ([.call .rootReserveId a, .lock none, .lockInner p none] ++
              .call (.createReserve _ _) a' :: ([_, _] ++ gs)) k' := hf
        obtain ⟨hother, hnew⟩ := follows_create hf ha
        refine h.create (find_mem hfind).1 hkept (hnew ?_) (fun id hid => hother id ?_ hid) ?_
        · simpa [tapCall, rateCall] using hgs
        · simp
        · exact hok _ _ a' _ _ _ c (.tail _ (.tail _ (.tail _ (.head _))))
            (.tail _ (.tail _ (.tail _ (.tail _ (.tail _ (.head _)))))) hc'
    | _ => exact same
  | get h => exact same
  | set h' =>
    cases h' with
    | stored hv hf hc => exact rate _ _ _
    | accepted hv hf hc ha => exact rate _ _ _
    | _ => exact same
  | add h' =>
    cases h' with
    | invalid h => exact same
    | valid hv ha =>
      cases ha with
      | done hfind hr => exact h.insert rfl hfind hkept
      | _ => exact same
  | remove h' =>
    cases h' with
    | done hfind => exact h.remove (find_mem hfind).1 hkept
    | _ => exact same
  | clear h' =>
    cases h' with
    | busy e => exact same
    | done hs =>
      exact h.carry (h.formed.change (.bury hs.subset)) hkept rfl (fun p hp id hn => ⟨hp, hn⟩)
        (fun _ _ _ hn => hn)

end Step

/-- In every run in which no STAT stores a reserve under an id that a dead record
still names, the arbiter holds the reserves of the table after every step, and no
pass puts one of them. -/
theorem active_reserves_backed {k : Reserves} {ds : List (Done sig Op Outcome)} {w : World}
    (h : Run (Guarded (Served operation effect reserveKernel) Unrecycled) (.empty, k) ds w) :
    Run (Observed (Served operation effect reserveKernel)
      (fun w d w' => Backed w' ∧ SparesActive w d)) (.empty, k) ds w := by
  have start : Entitled (.empty, k) :=
    ⟨.empty, by simp [Backed, ReserveDataDatabase.empty], by simp [ReserveDataDatabase.empty],
      by simp [ReserveDataDatabase.empty]⟩
  refine (Run.observed ?_ h start).1
  intro w d w' hw hs hok
  have ho := operation_runs hs.1
  have hnext := hw.step ho hs.2 hok
  exact ⟨hnext, hnext.backed, hw.spares ho⟩

def noReserves : Reserves := fun _ => ⟨false, 0⟩

/-- The check of this condition for a run that is given. -/
def notRecycled (w : World) (d : Done sig Op Outcome) : Bool :=
  d.trace.all fun
    | .call (.createReserve _ _) a => w.1.deadList.all fun p =>
      !((w.1.heap p).data.reserveCreated && (w.1.heap p).data.reserveId = a.ret)
    | _ => true

theorem unrecycled_of_check {w : World} {d : Done sig Op Outcome} (h : notRecycled w d = true) :
    Unrecycled w d := by
  intro name len a tap rateType value c hcreate _ _ p hp hn
  have hdead := List.all_eq_true.mp (List.all_eq_true.mp h _ hcreate) p hp
  simp [hn.1, hn.2] at hdead

/-- User 1 is removed, its reserve put and its id left on the dead list, and then added again and
given another reserve, at whose creation the first tap fails. -/
def regranted : List (Done sig Op Outcome) :=
  [added 1 1 5, granted 1 10 0 1 5 5 3, removed 1, reaped 5, added 1 2 50,
    ⟨.statReserve 1 10, [.call .rootReserveId ⟨0, 0⟩, .lock none, .lockInner 1 none,
      createCall 1 ⟨6, 0⟩, tapCall 1 0 6 ⟨-12, 0⟩, .call (.putReserve 6) ⟨0, 0⟩, .unlockInner 1,
      .unlock], .stat ⟨-12, none⟩⟩, granted 1 10 1 2 50 6 3]

theorem active_reserves_backed_regranted : ∃ w,
    Run (Observed (Served operation effect reserveKernel)
      (fun w d w' => Backed w' ∧ SparesActive w d)) (.empty, noReserves) regranted w ∧
    w.1.deadList = [0] ∧ w.1.data = [1] ∧ Names w.1 0 5 ∧ Names w.1 1 6 := by
  have hrun : ∃ w, Run (Guarded (Served operation effect reserveKernel) Unrecycled)
      (.empty, noReserves) regranted w ∧ w.1.deadList = [0] ∧ w.1.data = [1] ∧ Names w.1 0 5 ∧
      Names w.1 1 6 := by
    refine ⟨_, ⟨_, ⟨served_of_serve reservesAfter_sound rfl, unrecycled_of_check rfl⟩,
      _, ⟨served_of_serve reservesAfter_sound rfl, unrecycled_of_check rfl⟩,
      _, ⟨served_of_serve reservesAfter_sound rfl, unrecycled_of_check rfl⟩,
      _, ⟨served_of_serve reservesAfter_sound rfl, unrecycled_of_check rfl⟩,
      _, ⟨served_of_serve reservesAfter_sound rfl, unrecycled_of_check rfl⟩,
      _, ⟨served_of_serve reservesAfter_sound rfl, unrecycled_of_check rfl⟩,
      _, ⟨served_of_serve reservesAfter_sound rfl, unrecycled_of_check rfl⟩, rfl⟩,
      rfl, rfl, ⟨rfl, rfl⟩, rfl, rfl⟩
  obtain ⟨w, hw, hstate⟩ := hrun
  exact ⟨w, active_reserves_backed hw, hstate⟩

/-- After the reserve of user 1 is reclaimed, the kernel gives its id to user 2.
The record of user 1 is still on the dead list, and the next pass puts the id
once more. -/
def recycled : List (Done sig Op Outcome) :=
  [added 1 1 5, granted 1 10 0 1 5 5 3, removed 1, reaped 5, added 2 1 5, granted 2 11 1 1 5 5 4]

theorem recycled_reserve_lost : ∃ u w,
    Run (Served operation effect reserveKernel) (.empty, noReserves) recycled u ∧
    Served operation effect reserveKernel u (reaped 5) w ∧
    ¬SparesActive u (reaped 5) ∧ ¬Backed w := by
  have hrun : (serveAll operation effect reservesAfter (.empty, noReserves) recycled).bind
      (fun u => (serve operation effect reservesAfter u (reaped 5)).map
        (fun w => (u.1.data, (u.1.heap 1).data, w.1.data, (w.1.heap 1).data, (w.2 5).arbiter))) =
      some ([1], ⟨true, 5, 4, 1, 5⟩, [1], ⟨true, 5, 4, 1, 5⟩, false) := by decide
  obtain ⟨u, hu, hrest⟩ := Option.bind_eq_some_iff.mp hrun
  obtain ⟨w, hw, hv⟩ := Option.map_eq_some_iff.mp hrest
  simp only [Prod.mk.injEq] at hv
  obtain ⟨hud, hur, hwd, hwr, hwk⟩ := hv
  refine ⟨u, w, run_of_serveAll reservesAfter_sound hu,
    served_of_serve reservesAfter_sound hw, ?_, ?_⟩
  · intro h
    exact h rfl 5 ⟨0, 0⟩ (by simp [reaped]) 1 (by simp [hud]) (by simp [Names, hur])
  · intro h
    have := h 1 (by simp [hwd]) 5 (by simp [Names, hwr])
    rw [hwk] at this
    exact absurd this (by decide)

end PowerArbiter
