import PowerArbiter.Storage
import PowerArbiter.Monitor.Simulation
import PowerArbiter.Proofs.Uthash
import PowerArbiter.Proofs.Lists
import PowerArbiter.Proofs.Refinement

namespace PowerArbiter
open Monitor Memory

structure Represents (alloc : Uthash.Allocator) (s : Storage) (db : ReserveDataDatabase) :
    Prop where
  table : Uthash.Rep (setting alloc db.heap) s.table db.data
  links : Lists.Listed s.links .deadList (db.deadList.map .deadLink)
  heap : s.heap = db.heap
  next : s.next = db.next
  destroyed : s.destroyed = db.destroyed
  ended : s.ended = none
  below : ∀ p ∈ db.data ++ db.deadList, p < db.next

/-- What the code of an access relies on: records are in the table and on the dead list at
most once, a deleted one is in the table, and a search finds one record at most. -/
def Safe (db : ReserveDataDatabase) : Access → Prop
  | .hashFind uid => ∀ p ∈ db.data, ∀ q ∈ db.data, (db.heap p).uid = uid → (db.heap q).uid = uid →
    p = q
  | .hashAdd p => p ∉ db.data ∧ p < db.next
  | .hashDelete p => p ∈ db.data
  | .listAddTail p => p ∉ db.deadList ∧ p < db.next
  | _ => True

variable {alloc : Uthash.Allocator} {s : Storage} {db : ReserveDataDatabase} {p : RecordPtr}

theorem length_le_of_below {ps : List RecordPtr} {n : Nat} (h : ps.Nodup) (hlt : ∀ p ∈ ps, p < n) :
    ps.length ≤ n := by
  have := List.Nodup.length_le_of_subset h (fun p hp => List.mem_range.mpr (hlt p hp))
  rwa [List.length_range] at this

namespace Represents

theorem data_nodup (h : Represents alloc s db) : db.data.Nodup := h.table.nodup

theorem dead_nodup (h : Represents alloc s db) : db.deadList.Nodup :=
  List.Nodup.of_map _ (List.nodup_cons.mp h.links.nodup).2

theorem data_length (h : Represents alloc s db) : db.data.length ≤ s.next := by
  rw [h.next]
  exact length_le_of_below h.data_nodup fun p hp => h.below p (List.mem_append_left _ hp)

theorem dead_length (h : Represents alloc s db) : db.deadList.length ≤ s.next := by
  rw [h.next]
  exact length_le_of_below h.dead_nodup fun p hp => h.below p (List.mem_append_right _ hp)

/-- A record that is in the table nowhere leaves room for itself. -/
theorem data_room (h : Represents alloc s db) (hp : p ∉ db.data) (hlt : p < db.next) :
    db.data.length < s.next := by
  have hnd : (p :: db.data).Nodup := List.nodup_cons.mpr ⟨hp, h.data_nodup⟩
  have hbelow : ∀ q ∈ p :: db.data, q < db.next := by
    intro q hq
    rcases List.mem_cons.mp hq with rfl | hq
    · exact hlt
    · exact h.below q (List.mem_append_left _ hq)
  rw [h.next]
  exact length_le_of_below hnd hbelow

/-- Other data in the same records. -/
theorem modify (h : Represents alloc s db) (p : RecordPtr) (f : UIDReserveData → UIDReserveData) :
    Represents alloc (s.modify p f) (db.modify p f) where
  table := h.table.rekey rfl rfl fun q _ => heap_modify_uid p q f
  links := h.links
  heap := by simp [Storage.modify, ReserveDataDatabase.modify, h.heap]
  next := h.next
  destroyed := h.destroyed
  ended := h.ended
  below := h.below

end Represents

/-- The walk over the dead list gives its records. -/
theorem noteEntries_spec {links : Lists.Mem Link} {ps : List RecordPtr}
    (h : Lists.Listed links .deadList (ps.map .deadLink)) {fuel : Nat} (hf : ps.length ≤ fuel) :
    Meets Never (Lists.listForEachEntrySafe fuel .deadList noteEntry []) links
      (fun qs links' => links' = links ∧ qs = ps) := by
  have hnd := (List.nodup_cons.mp h.nodup).1
  refine (Lists.meets_listForEachEntrySafe
    (I := fun rest acc links' => links' = links ∧
      ∃ qs : List RecordPtr, rest = qs.map .deadLink ∧ ps = acc ++ qs)
    ?_ ?_ ⟨rfl, ps, rfl, rfl⟩ (by simpa using hf) h.next_head).mono ?_
  · rintro y rest acc _ ⟨rfl, qs, hqs, hps⟩
    have hsplit : ps.map Link.deadLink = acc.map .deadLink ++ y :: rest := by
      rw [hps, List.map_append, hqs]
    refine ⟨h.next_of_suffix hsplit, fun he => hnd ?_⟩
    rw [hsplit, he]
    simp
  · rintro y rest acc _ ⟨rfl, qs, hqs, hps⟩
    cases qs with
    | nil => cases hqs
    | cons q qs =>
      obtain ⟨rfl, rfl⟩ := List.cons.inj hqs
      simp only [noteEntry, meets_pure]
      exact ⟨trivial, qs, rfl, by simpa using hps⟩
  · rintro acc _ ⟨rfl, qs, hqs, hps⟩
    have hnil : qs = [] := List.map_eq_nil_iff.mp hqs.symm
    exact ⟨rfl, by simpa [hnil] using hps.symm⟩

/-- The walk over the table gives its records. -/
theorem hashEntries_spec (h : Represents alloc s db) :
    Meets Never (Access.hashEntries.code alloc) s (fun ps s' => s' = s ∧ ps = db.data) := by
  simp only [Access.code, meets_bind, meets_get, meets_zoom]
  refine (h.table.iter h.data_length).mono fun ps t hps => ?_
  obtain ⟨rfl, rfl⟩ := hps
  exact ⟨rfl, rfl⟩

theorem hashFind_spec (h : Represents alloc s db) {uid : Uid} (hok : Safe db (.hashFind uid)) :
    Meets Never ((Access.hashFind uid).code alloc) s (fun r s' => s' = s ∧ r = db.find uid) := by
  simp only [Access.code, meets_bind, meets_get, meets_zoom, h.heap]
  refine (h.table.find h.data_length).mono fun r t hr => ?_
  obtain ⟨rfl, hsome, hnone⟩ := hr
  refine ⟨Part.set_get _ s, ?_⟩
  cases r with
  | none =>
    refine (List.find?_eq_none.mpr fun q hq => ?_).symm
    have : (db.heap q).uid ≠ uid := hnone rfl q hq
    simpa using this
  | some q =>
    obtain ⟨hq, hkey⟩ := hsome q rfl
    cases hf : db.find uid with
    | none => exact absurd hkey (find_none hf q hq)
    | some q' =>
      obtain ⟨hq', hkey'⟩ := find_mem hf
      rw [hok q hq q' hq' hkey hkey']

/-- Every access does in memory what it does to the database, unless there is not the memory
for it. -/
theorem Represents.access (h : Represents alloc s db) {i : Access} (hok : Safe db i)
    (hsize : db.next < UInt32.size) : Meets Exits (i.code alloc) s
      (fun v s' => v = (effect i db).1 ∧ Represents alloc s' (effect i db).2) := by
  cases i with
  | hashFind uid =>
    refine (hashFind_spec h hok).weaken.mono fun r s' hr => ?_
    obtain ⟨rfl, rfl⟩ := hr
    exact ⟨rfl, h⟩
  | hashAdd p =>
    have hroom := h.data_room hok.1 hok.2
    simp only [Access.code, meets_bind, meets_get, meets_zoom, h.heap]
    refine (h.table.add hok.1 ?_ hroom).mono fun _ t ht => ⟨trivial, ?_⟩
    · rw [h.next] at hroom
      exact Nat.lt_of_le_of_lt hroom hsize
    refine ⟨ht, h.links, h.heap, h.next, h.destroyed, h.ended, fun q hq => ?_⟩
    simp only [effect, List.mem_append, List.mem_singleton] at hq
    rcases hq with (hq | rfl) | hq
    · exact h.below q (List.mem_append_left _ hq)
    · exact hok.2
    · exact h.below q (List.mem_append_right _ hq)
  | hashDelete p =>
    simp only [Access.code, meets_zoom]
    refine (h.table.delete hok).weaken.mono fun _ t ht => ⟨trivial, ?_⟩
    refine ⟨ht, h.links, h.heap, h.next, h.destroyed, h.ended, fun q hq => h.below q ?_⟩
    simp only [effect, List.mem_append] at hq ⊢
    exact hq.imp_left List.mem_of_mem_erase
  | hashEntries =>
    refine (hashEntries_spec h).weaken.mono fun ps s' hps => ?_
    obtain ⟨rfl, rfl⟩ := hps
    exact ⟨rfl, h⟩
  | listAddTail p =>
    simp only [Access.code, meets_zoom]
    have hnew : Link.deadLink p ∉ .deadList :: db.deadList.map .deadLink := by simpa using hok.1
    refine (Lists.listAddTail_spec h.links hnew).weaken.mono fun _ l hl => ⟨trivial, ?_⟩
    refine ⟨h.table, ?_, h.heap, h.next, h.destroyed, h.ended, fun q hq => ?_⟩
    · simpa [effect, Storage.linksPart] using hl.1
    · simp only [effect, List.mem_append, List.mem_singleton] at hq
      rcases hq with hq | hq | rfl
      · exact h.below q (List.mem_append_left _ hq)
      · exact h.below q (List.mem_append_right _ hq)
      · exact hok.2
  | listEntries =>
    simp only [Access.code, meets_bind, meets_get, meets_zoom]
    refine (noteEntries_spec h.links h.dead_length).weaken.mono fun ps l hl => ?_
    obtain ⟨rfl, rfl⟩ := hl
    exact ⟨rfl, h⟩
  | listEmpty =>
    simp only [Access.code, meets_zoom]
    refine (Lists.listEmpty_spec h.links).weaken.mono fun b l hl => ?_
    obtain ⟨rfl, rfl⟩ := hl
    exact ⟨by simp [effect], h⟩
  | recordInit uid data =>
    have hlt : ∀ q ∈ db.data, q < db.next := fun q hq => h.below q (List.mem_append_left _ hq)
    simp only [Access.code, meets_bind, meets_get, meets_set, meets_pure]
    refine ⟨h.next, h.table.rekey rfl rfl fun q hq => ?_, h.links, ?_, ?_, h.destroyed, h.ended, ?_⟩
    · exact congrArg UIDReserveRecord.uid (heap_allocate_of_lt ⟨data, uid⟩ (hlt q hq))
    · simp [effect, ReserveDataDatabase.allocate, h.heap, h.next]
    · simp [effect, ReserveDataDatabase.allocate, h.next]
    · exact fun q hq => Nat.lt_succ_of_lt (h.below q hq)
  | load p =>
    simp only [Access.code, meets_bind, meets_get, meets_pure]
    exact ⟨congrArg UIDReserveRecord.data (congrFun h.heap p), h⟩
  | store p field =>
    simp only [Access.code, meets_modify]
    exact ⟨trivial, h.modify p field.set⟩
  | mutexDestroy p =>
    simp only [Access.code, meets_modify]
    exact ⟨trivial, h.table, h.links, h.heap, h.next, congrArg (· ++ [p]) h.destroyed, h.ended,
      h.below⟩

theorem createEmptyStorage_spec (alloc : Uthash.Allocator) (h : s.Blank) :
    Meets Never createEmptyStorage s (fun _ s' => Represents alloc s' .empty) := by
  simp only [createEmptyStorage, meets_bind, meets_zoom, Uthash.meets_setHead]
  refine (Lists.initListHead_spec Link.deadList).mono fun _ l hl => ?_
  exact ⟨.empty rfl h.tables h.arrays, hl.1, h.heap, h.next, h.destroyed, h.ended, by
    simp [ReserveDataDatabase.empty]⟩

/-- The process has ended for want of memory, or there are more records than addresses. -/
def Storage.Lost (s : Storage) : Prop := s.ended = some .exited ∨ UInt32.size ≤ s.next

/-- However the code ends, there are not fewer records than before. -/
theorem code_next (alloc : Uthash.Allocator) (i : Access) (s : Storage) :
    s.next ≤ (after (i.code alloc s)).next := by
  have htable : ∀ {β : Type} (c : Code (Uthash.Mem RecordPtr) β),
      s.next ≤ (after (zoom Storage.tablePart c s)).next := by
    intro β c
    rw [after_zoom]
    exact Nat.le_refl _
  have hlinks : ∀ {β : Type} (c : Code (Lists.Mem Link) β),
      s.next ≤ (after (zoom Storage.linksPart c s)).next := by
    intro β c
    rw [after_zoom]
    exact Nat.le_refl _
  cases i with
  | hashFind uid => exact htable _
  | hashAdd p => exact htable _
  | hashDelete p => exact htable _
  | hashEntries => exact htable _
  | listAddTail p => exact hlinks _
  | listEntries => exact hlinks _
  | listEmpty => exact hlinks (Lists.listEmpty .deadList)
  | recordInit uid data => exact Nat.le_succ _
  | load p => exact Nat.le_refl _
  | store p field => exact Nat.le_refl _
  | mutexDestroy p => exact Nat.le_refl _

theorem storage_next (alloc : Uthash.Allocator) (i : Access) (s : Storage) :
    s.next ≤ (storage alloc i s).2.next := by
  have hnext := code_next alloc i s
  simp only [storage]
  cases s.ended with
  | some e => exact Nat.le_refl _
  | none =>
    dsimp only
    cases hc : i.code alloc s with
    | ok v s' => rwa [hc] at hnext
    | error e s' => rwa [hc] at hnext

theorem Storage.Lost.storage (alloc : Uthash.Allocator) (i : Access) (h : s.Lost) :
    (PowerArbiter.storage alloc i s).2.Lost := by
  rcases h with h | h
  · left
    simp only [PowerArbiter.storage, h]
  · exact .inr (Nat.le_trans h (storage_next alloc i s))

theorem Represents.storage (h : Represents alloc s db) {i : Access} (hok : Safe db i) :
    (storage alloc i s).2.Lost ∨
      ((storage alloc i s).1 = (effect i db).1 ∧
        Represents alloc (storage alloc i s).2 (effect i db).2) := by
  by_cases hsize : db.next < UInt32.size
  · have hcode := h.access hok hsize
    simp only [Meets] at hcode
    simp only [PowerArbiter.storage, h.ended]
    cases hc : i.code alloc s with
    | ok v s' =>
      simp only [hc] at hcode
      exact .inr hcode
    | error e s' =>
      simp only [hc, Exits] at hcode
      exact .inl (.inl (congrArg some hcode))
  · refine .inl (Storage.Lost.storage alloc i (.inr ?_))
    rw [h.next]
    exact Nat.le_of_not_lt hsize

/-- The memory implements the database. -/
theorem storage_implements (alloc : Uthash.Allocator) :
    Implements (storage alloc) effect Safe (Represents alloc) Storage.Lost :=
  ⟨fun _ _ _ h hok => h.storage hok, fun i _ h => h.storage alloc i⟩

end PowerArbiter
