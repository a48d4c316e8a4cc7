import PowerArbiter.Wire.Talk

namespace Wire

variable {E : Type}

/-- What a number of bytes comes to that is asked for until it is complete: the bytes, or what
there is of them at the end, or the error that comes first; and the arrivals after that. -/
def gather : List (Arrival E) → Nat → Except E (List Byte) × List (Arrival E)
  | arrivals, 0 => (.ok [], arrivals)
  | [], _ + 1 => (.ok [], [])
  | .error e :: later, _ + 1 => (.error e, later)
  | .data b bs :: later, n + 1 =>
    if n < bs.length then (.ok (b :: bs.take n), putBack (bs.drop n) later)
    else
      ((gather later (n - bs.length)).1.map (fun x => b :: (bs ++ x)),
        (gather later (n - bs.length)).2)

/-- The departures after the bytes, or the error that comes before. -/
def deliver : List (Departure E) → Nat → Except E (List (Departure E))
  | departures, 0 => .ok departures
  | [], _ + 1 => .ok []
  | .error e :: _, _ + 1 => .error e
  | .room more :: later, n + 1 => deliver later (n - more)

theorem gather_zero (arrivals : List (Arrival E)) : gather arrivals 0 = (.ok [], arrivals) := by
  cases arrivals <;> rfl

theorem deliver_zero (departures : List (Departure E)) :
    deliver departures 0 = .ok departures := by
  cases departures <;> rfl

theorem stream_putBack (bs : List Byte) (later : List (Arrival E)) :
    stream (putBack bs later) = bs ++ stream later := by
  cases bs <;> rfl

theorem error_mem_putBack {e : E} {bs : List Byte} {later : List (Arrival E)} :
    .error e ∈ putBack bs later ↔ .error e ∈ later := by
  cases bs <;> simp [putBack]

theorem gather_data {b : Byte} {bs : List Byte} {later : List (Arrival E)} {n : Nat}
    (h : bs.length ≤ n) : gather (.data b bs :: later) (n + 1) =
      ((gather later (n - bs.length)).1.map (fun x => b :: (bs ++ x)),
        (gather later (n - bs.length)).2) := by
  rw [gather, if_neg (Nat.not_lt.mpr h)]

theorem gather_within {b : Byte} {bs : List Byte} {later : List (Arrival E)} {n : Nat}
    (h : n < bs.length) : gather (.data b bs :: later) (n + 1) =
      (.ok (b :: bs.take n), putBack (bs.drop n) later) := by
  rw [gather, if_pos h]

/-- One call of `recv`, and then the others. -/
theorem gather_part (b : Byte) (bs : List Byte) (later : List (Arrival E)) (n : Nat) :
    gather (.data b bs :: later) (n + 1) =
      ((gather (putBack (bs.drop n) later) (n - (bs.take n).length)).1.map (b :: bs.take n ++ ·),
        (gather (putBack (bs.drop n) later) (n - (bs.take n).length)).2) := by
  by_cases h : n < bs.length
  · have hzero : n - (bs.take n).length = 0 := by
      rw [List.length_take]
      omega
    rw [gather_within h, hzero, gather_zero]
    simp [Except.map]
  · have hle := Nat.not_lt.mp h
    rw [gather_data hle, List.take_of_length_le hle, List.drop_of_length_le hle]
    rfl

theorem map_eq_ok {α β : Type} {f : α → β} {x : Except E α} {b : β} (h : x.map f = .ok b) :
    ∃ a, x = .ok a ∧ f a = b := by
  cases x with
  | error e => cases h
  | ok a => exact ⟨a, rfl, Except.ok.inj h⟩

theorem map_eq_error {α β : Type} {f : α → β} {x : Except E α} {e : E}
    (h : x.map f = .error e) : x = .error e := by
  cases x with
  | error e' => exact congrArg _ (Except.error.inj h)
  | ok a => cases h

/-- What is gathered are the first bytes of the stream, and the others are left. -/
theorem gather_ok {arrivals : List (Arrival E)} {n : Nat} {bytes : List Byte}
    (h : (gather arrivals n).1 = .ok bytes) :
    bytes = (stream arrivals).take n ∧
      stream (gather arrivals n).2 = (stream arrivals).drop n := by
  induction arrivals generalizing n bytes with
  | nil =>
    cases n with
    | zero => exact ⟨(Except.ok.inj h).symm, rfl⟩
    | succ n => exact ⟨(Except.ok.inj h).symm, rfl⟩
  | cons x later ih =>
    cases n with
    | zero => exact ⟨(Except.ok.inj h).symm, rfl⟩
    | succ n =>
      cases x with
      | error e => cases h
      | data b bs =>
        by_cases hlt : n < bs.length
        · rw [gather_within hlt] at h ⊢
          obtain rfl := Except.ok.inj h
          simp [stream, stream_putBack, List.take_append, List.drop_append,
            Nat.sub_eq_zero_of_le (Nat.le_of_lt hlt)]
        · rw [gather_data (Nat.not_lt.mp hlt)] at h ⊢
          obtain ⟨rest, hrest, rfl⟩ := map_eq_ok h
          obtain ⟨htake, hdrop⟩ := ih hrest
          simp [stream, hdrop, List.take_append, List.drop_append, Nat.not_lt.mp hlt, ← htake,
            List.take_of_length_le (Nat.not_lt.mp hlt)]

/-- An error comes before the bytes are complete. -/
theorem gather_error {arrivals : List (Arrival E)} {n : Nat} {e : E}
    (h : (gather arrivals n).1 = .error e) :
    (stream arrivals).length < n ∧ .error e ∈ arrivals := by
  induction arrivals generalizing n with
  | nil => cases n <;> cases h
  | cons x later ih =>
    cases n with
    | zero => cases h
    | succ n =>
      cases x with
      | error e' =>
        obtain rfl := Except.error.inj h
        exact ⟨Nat.zero_lt_succ n, List.mem_cons_self⟩
      | data b bs =>
        by_cases hlt : n < bs.length
        · rw [gather_within hlt] at h
          cases h
        · rw [gather_data (Nat.not_lt.mp hlt)] at h
          obtain ⟨hshort, hm⟩ := ih (map_eq_error h)
          refine ⟨?_, List.mem_cons_of_mem _ hm⟩
          simp only [stream, List.length_cons, List.length_append]
          omega

/-- Bytes are missing without an error only if the other end has shut down. -/
theorem gather_short {arrivals : List (Arrival E)} {n : Nat} {bytes : List Byte}
    (h : (gather arrivals n).1 = .ok bytes) (hshort : (stream arrivals).length < n) (e : E) :
    .error e ∉ arrivals := by
  induction arrivals generalizing n bytes with
  | nil => exact List.not_mem_nil
  | cons x later ih =>
    cases n with
    | zero => cases hshort
    | succ n =>
      cases x with
      | error e => cases h
      | data b bs =>
        simp only [stream, List.length_cons, List.length_append] at hshort
        rw [gather_data (by omega)] at h
        obtain ⟨rest, hrest, _⟩ := map_eq_ok h
        intro hm
        rcases List.mem_cons.mp hm with hm | hm
        · cases hm
        · exact ih hrest (by omega) hm

/-- No error is left that was not there. -/
theorem gather_errors {arrivals : List (Arrival E)} {n : Nat} {e : E}
    (h : .error e ∈ (gather arrivals n).2) : .error e ∈ arrivals := by
  induction arrivals generalizing n with
  | nil => cases n <;> cases h
  | cons x later ih =>
    cases n with
    | zero => exact h
    | succ n =>
      cases x with
      | error e' => exact List.mem_cons_of_mem _ h
      | data b bs =>
        by_cases hlt : n < bs.length
        · rw [gather_within hlt] at h
          exact List.mem_cons_of_mem _ (error_mem_putBack.mp h)
        · rw [gather_data (Nat.not_lt.mp hlt)] at h
          exact List.mem_cons_of_mem _ (ih h)

/-- One call of `send` takes the first part of the bytes, unless it fails. -/
theorem send_part (c : Conn E) {bytes : List Byte} (h : 0 < bytes.length) :
    (∃ e later, c.send bytes = (.error e, { c with outgoing := later }) ∧
      deliver c.outgoing bytes.length = .error e) ∨
    ∃ n later, 0 < n ∧ n ≤ bytes.length ∧
      c.send bytes = (.ok n, { c with outgoing := later, sent := c.sent ++ bytes.take n }) ∧
      deliver c.outgoing bytes.length = deliver later (bytes.drop n).length := by
  obtain ⟨incoming, outgoing, sent⟩ := c
  obtain ⟨m, hm⟩ : ∃ m, bytes.length = m + 1 := ⟨bytes.length - 1, by omega⟩
  cases outgoing with
  | nil =>
    refine .inr ⟨bytes.length, [], h, Nat.le_refl _, ?_, ?_⟩
    · rw [List.take_length]
      rfl
    · rw [List.drop_length]
      cases bytes <;> rfl
  | cons x later =>
    cases x with
    | error e =>
      refine .inl ⟨e, later, rfl, ?_⟩
      rw [hm]
      rfl
    | room more =>
      refine .inr ⟨min (more + 1) bytes.length, later, by omega, Nat.min_le_right _ _, ?_, ?_⟩
      · rw [← List.take_eq_take_min]
        rfl
      · have hrest : (bytes.drop (min (more + 1) bytes.length)).length = m - more := by
          rw [List.length_drop]
          omega
        rw [hrest, hm]
        rfl

theorem deliver_error {departures : List (Departure E)} {n : Nat} {e : E}
    (h : deliver departures n = .error e) : .error e ∈ departures := by
  induction departures generalizing n with
  | nil => cases n <;> cases h
  | cons x later ih =>
    cases n with
    | zero => cases h
    | succ n =>
      cases x with
      | error e' =>
        obtain rfl := Except.error.inj h
        exact List.mem_cons_self
      | room more => exact List.mem_cons_of_mem _ (ih h)

theorem deliver_errors {departures later : List (Departure E)} {n : Nat}
    (h : deliver departures n = .ok later) {e : E} (he : .error e ∈ later) :
    .error e ∈ departures := by
  induction departures generalizing n with
  | nil =>
    cases n <;> (obtain rfl := Except.ok.inj h; exact he)
  | cons x rest ih =>
    cases n with
    | zero =>
      obtain rfl := Except.ok.inj h
      exact he
    | succ n =>
      cases x with
      | error e' => cases h
      | room more => exact List.mem_cons_of_mem _ (ih h)

end Wire
