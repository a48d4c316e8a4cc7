import PowerArbiter.Transfer
import PowerArbiter.Proofs.Sock

namespace PowerArbiter
open Monitor Wire

theorem toUInt32_le (x : UInt64) : x.toUInt32.toNat ≤ x.toNat := by
  rw [UInt64.toNat_toUInt32]
  exact Nat.mod_le _ _

theorem overwrite_below {memory : Nat → Byte} {offset i : Nat} (bytes : List Byte)
    (h : i < offset) : overwrite memory offset bytes i = memory i := if_pos h

theorem overwrite_above {memory : Nat → Byte} {offset i : Nat} {bytes : List Byte}
    (h : offset + bytes.length ≤ i) : overwrite memory offset bytes i = memory i := by
  have hnone : bytes[i - offset]? = none := List.getElem?_eq_none (by omega)
  unfold overwrite
  rw [if_neg (by omega), List.getD_eq_getElem?_getD, hnone, Option.getD_none]

theorem overwrite_at (memory : Nat → Byte) (offset : Nat) {bytes : List Byte} {i : Nat}
    (h : i < bytes.length) : overwrite memory offset bytes (offset + i) = bytes[i] := by
  unfold overwrite
  rw [if_neg (by omega), Nat.add_sub_cancel_left, List.getD_eq_getElem?_getD,
    List.getElem?_eq_getElem h, Option.getD_some]

/-- The bytes come right behind what was there. -/
theorem map_overwrite (memory : Nat → Byte) (offset : Nat) (bytes : List Byte) :
    (List.range (offset + bytes.length)).map (overwrite memory offset bytes) =
      (List.range offset).map memory ++ bytes := by
  rw [List.range_add, List.map_append, List.map_map]
  congr 1
  · apply List.map_congr_left
    intro i hi
    exact overwrite_below bytes (List.mem_range.mp hi)
  · apply List.ext_getElem
    · simp
    · intro i h₁ h₂
      rw [List.getElem_map, List.getElem_range]
      exact overwrite_at memory offset h₂

/-- The bytes of the stream that the calls have returned. -/
def received (xs : List (Except Errno (List Byte))) : List Byte :=
  xs.flatMap fun
    | .ok bytes => bytes
    | .error _ => []

theorem received_append (xs : List (Except Errno (List Byte))) (x : Except Errno (List Byte)) :
    received (xs ++ [x]) = received xs ++ received [x] := List.flatMap_append

theorem received_ok (xs : List (Except Errno (List Byte))) (bytes : List Byte) :
    received (xs ++ [.ok bytes]) = received xs ++ bytes := by
  rw [received_append]
  exact congrArg _ (List.append_nil bytes)

theorem received_error (xs : List (Except Errno (List Byte))) (e : Errno) :
    received (xs ++ [.error e]) = received xs := by
  rw [received_append]
  exact List.append_nil _

namespace Reading

/-- The invariant of the loop, with the bytes `got` received. Less than 4 GiB, which is
all that an address space has room for, are asked for in full. -/
structure Placed (toRead : UInt64) (memory : Nat → Byte) (got : List Byte) (s : Reading) :
    Prop where
  sum : s.rcvd.toNat + s.remaining.toNat = toRead.toNat
  count : s.rcvd.toNat = got.length
  offset : s.bufOffset = s.rcvd.toNat
  within : s.bufOffset + s.remaining.toUInt32.toNat ≤ toRead.toNat
  asked : toRead.toNat < 4294967296 → s.remaining.toUInt32.toNat = s.remaining.toNat
  beyond : ∀ i, s.rcvd.toNat ≤ i → s.memory i = memory i
  placed : (List.range s.rcvd.toNat).map s.memory = got

variable {toRead prior : UInt64} {memory : Nat → Byte} {got bytes : List Byte} {s : Reading}

theorem Placed.start (toRead prior : UInt64) (memory : Nat → Byte) :
    Placed toRead memory [] ⟨0, toRead, 0, memory, prior, none⟩ where
  sum := Nat.zero_add _
  count := rfl
  offset := rfl
  within := by
    rw [Nat.zero_add]
    exact toUInt32_le toRead
  asked := size_t_toNat
  beyond _ _ := rfl
  placed := rfl

theorem Placed.leave (h : Placed toRead memory got s) : Placed toRead memory got s.leave :=
  { h with }

theorem Placed.store (h : Placed toRead memory got s)
    (hfits : RecvFits s.remaining.toUInt32 (.ok bytes)) :
    Placed toRead memory (got ++ bytes) (s.store bytes) := by
  have hle : bytes.length ≤ s.remaining.toNat := Nat.le_trans hfits (toUInt32_le s.remaining)
  have hsum := h.sum
  have hsize := UInt64.toNat_lt toRead
  have hadd := toNat_add_count (x := s.rcvd) (n := bytes.length) (by omega)
  have hsub := toNat_sub_count (x := s.remaining) hle
  have hsum' : (s.store bytes).rcvd.toNat + (s.store bytes).remaining.toNat = toRead.toNat := by
    simp only [Reading.store, hadd, hsub]
    omega
  have hoffset : (s.store bytes).bufOffset = (s.store bytes).rcvd.toNat := by
    simp only [Reading.store, hadd, h.offset]
  refine ⟨hsum', ?_, hoffset, ?_, fun hsmall => size_t_toNat (by omega), ?_, ?_⟩
  · rw [List.length_append, ← h.count]
    exact hadd
  · rw [hoffset, ← hsum']
    exact Nat.add_le_add_left (toUInt32_le _) _
  · intro i hi
    simp only [Reading.store, hadd] at hi ⊢
    rw [overwrite_above (by rw [h.offset]; exact hi), h.beyond i (by omega)]
  · simp only [Reading.store, hadd, h.offset]
    rw [map_overwrite, h.placed]

/-- What holds of `streamsock_read` when the calls of `recv` have returned `xs`. -/
structure Exact (toRead : UInt64) (memory : Nat → Byte) (prior : UInt64)
    (xs : List (Except Errno (List Byte))) (s : Reading) : Prop
    extends Placed toRead memory (received xs) s where
  running : s.ret = none → s.rcvd < toRead ∧ s.numBytesRead = prior ∧ xs.length ≤ s.rcvd.toNat
  finished : s.ret = some 0 → s.numBytesRead = s.rcvd ∧
    (s.rcvd = toRead ∨ s.rcvd < toRead ∧ xs.getLast? = some (.ok []))
  failed : ∀ code, s.ret = some code → code ≠ 0 → s.numBytesRead = prior ∧
    ∃ errno : Errno, xs.getLast? = some (.error errno) ∧ code = errno.code

variable {xs : List (Except Errno (List Byte))} {x : Except Errno (List Byte)}

theorem Exact.live (h : Placed toRead memory (received xs) s) (hret : s.ret = none)
    (hlt : s.rcvd < toRead) (hprior : s.numBytesRead = prior) (hcalls : xs.length ≤ s.rcvd.toNat) :
    Exact toRead memory prior xs s where
  toPlaced := h
  running _ := ⟨hlt, hprior, hcalls⟩
  finished h0 := by
    rw [hret] at h0
    contradiction
  failed code hcode := by
    rw [hret] at hcode
    contradiction

theorem Exact.left (h : Placed toRead memory (received xs) s)
    (hend : s.rcvd = toRead ∨ s.rcvd < toRead ∧ xs.getLast? = some (.ok [])) :
    Exact toRead memory prior xs s.leave where
  toPlaced := h.leave
  running := nofun
  finished _ := ⟨rfl, hend⟩
  failed _ hcode hnz := absurd (Option.some.inj hcode).symm hnz

/-- At the condition of the loop. -/
theorem Exact.test (h : Placed toRead memory (received xs) s) (hret : s.ret = none)
    (hprior : s.numBytesRead = prior) (hcalls : xs.length ≤ s.rcvd.toNat) :
    Exact toRead memory prior xs (s.test toRead) := by
  unfold Reading.test
  split
  · rename_i hlt
    exact .live h hret hlt hprior hcalls
  · rename_i hge
    have hle := UInt64.le_iff_toNat_le.mp (UInt64.not_lt.mp hge)
    have hsum := h.sum
    exact .left h (.inl (UInt64.toNat.inj (by omega)))

theorem Exact.enter {bufsiz : UInt64} (hroom : toRead ≤ bufsiz) (memory : Nat → Byte)
    (prior : UInt64) : Exact toRead memory prior [] (.enter bufsiz toRead memory prior) := by
  have hle : ¬ toRead > bufsiz := UInt64.not_lt.mpr hroom
  unfold Reading.enter
  rw [if_neg hle]
  exact Exact.test (Placed.start toRead prior memory) rfl rfl (Nat.zero_le _)

/-- One call of `recv`. -/
theorem Exact.step {s' : Reading} (h : Exact toRead memory prior xs s) (hs : Step toRead s x s') :
    Exact toRead memory prior (xs ++ [x]) s' := by
  obtain ⟨hret, hfits, rfl⟩ := hs
  obtain ⟨hlt, hprior, hcalls⟩ := h.running hret
  have hplaced := h.toPlaced
  match x with
  | .error e =>
    rw [← received_error xs e] at hplaced
    have hcode : some e.code ≠ some 0 := fun h0 => e.nonzero (Option.some.inj h0)
    refine ⟨{ hplaced with }, nofun, fun h0 => absurd h0 hcode, ?_⟩
    intro code hcode _
    exact ⟨hprior, e, List.getLast?_concat, (Option.some.inj hcode).symm⟩
  | .ok [] =>
    rw [← List.append_nil (received xs), ← received_ok] at hplaced
    exact .left hplaced (.inr ⟨hlt, List.getLast?_concat⟩)
  | .ok (b :: bs) =>
    have hstored := hplaced.store hfits
    rw [← received_ok] at hstored
    have hcount := hstored.count
    rw [received_ok, List.length_append, ← h.count, List.length_cons] at hcount
    apply Exact.test hstored hret hprior
    rw [List.length_append, List.length_singleton]
    omega

theorem Exact.run {bufsiz : UInt64} (hroom : toRead ≤ bufsiz)
    (h : Run (Step toRead) (.enter bufsiz toRead memory prior) xs s) :
    Exact toRead memory prior xs s :=
  h.history (Exact.enter hroom memory prior) (fun _ _ _ _ _ hs hx => hx.step hs)

theorem stops {bufsiz : UInt64} (hroom : toRead ≤ bufsiz) (memory : Nat → Byte) (prior : UInt64) :
    Stops (Step toRead) (fun s => RecvFits s.remaining.toUInt32) (fun s => s.ret = none)
      (.enter bufsiz toRead memory prior) := by
  apply stops_of_bound toRead.toNat
  · intro s x hret hfits
    exact ⟨_, hret, hfits, rfl⟩
  · intro xs s h hret
    obtain ⟨hlt, -, hcalls⟩ := (Exact.run hroom h).running hret
    exact Nat.lt_of_le_of_lt hcalls (UInt64.lt_iff_toNat_lt.mp hlt)

theorem Step.stopped {code : Int32} (hret : s.ret = some code) (x : Except Errno (List Byte))
    (s' : Reading) : ¬ Step toRead s x s' := by
  intro hs
  have hlive := hs.1
  rw [hret] at hlive
  contradiction

variable {Q R : Type} {calls : Nat} {code : Int32} {t : Reading}

theorem loop_done {rcvd remaining : UInt64} (h : ¬ rcvd < toRead) :
    streamsockRead.loop toRead calls rcvd remaining got =
      (.ret (.ok (rcvd, got)) : Talk Errno Q R _) := by
  cases calls with
  | zero => rfl
  | succ calls => rw [streamsockRead.loop, if_neg h]

/-- The loop comes to what `streamsockRead` says when its calls return the same. -/
theorem Placed.fed (h : Placed toRead memory got s) (hret : s.ret = none)
    (hcalls : s.remaining.toNat ≤ calls) (hrun : Run (Step toRead) (s.test toRead) xs t)
    (ht : t.ret = some code) :
    (streamsockRead.loop toRead calls s.rcvd s.remaining got : Talk Errno Q R _).fed xs =
      some (t.outcome code) := by
  induction xs generalizing s got calls with
  | nil =>
    obtain rfl : t = s.test toRead := hrun
    by_cases hlt : s.rcvd < toRead
    · rw [Reading.test, if_pos hlt, hret] at ht
      contradiction
    · rw [Reading.test, if_neg hlt] at ht ⊢
      obtain rfl := Option.some.inj ht
      rw [loop_done hlt]
      simp [Talk.fed, outcome, Reading.leave, h.placed]
  | cons x xs ih =>
    obtain ⟨s', ⟨hlive, hfits, rfl⟩, hrest⟩ := hrun
    by_cases hlt : s.rcvd < toRead
    · rw [Reading.test, if_pos hlt] at hlive hfits hrest
      have hsum := h.sum
      have hlt' := UInt64.lt_iff_toNat_lt.mp hlt
      obtain ⟨calls, rfl⟩ : ∃ k, calls = k + 1 := ⟨calls - 1, by omega⟩
      rw [streamsockRead.loop, if_pos hlt]
      match x with
      | .error e =>
        obtain ⟨rfl, rfl⟩ := hrest.halted (Step.stopped rfl)
        obtain rfl := Option.some.inj ht
        simp [Talk.fed, outcome, e.nonzero]
      | .ok [] =>
        obtain ⟨rfl, rfl⟩ := hrest.halted (Step.stopped rfl)
        obtain rfl := Option.some.inj ht
        simp [Talk.fed, outcome, Reading.iterate, Reading.leave, h.placed]
      | .ok (b :: bs) =>
        have hle : (b :: bs).length ≤ s.remaining.toNat :=
          Nat.le_trans hfits (toUInt32_le s.remaining)
        have hsub := toNat_sub_count (x := s.remaining) hle
        have hpos : 0 < (b :: bs).length := Nat.zero_lt_succ _
        apply ih (h.store hfits) hret _ hrest
        simp only [Reading.store, hsub]
        omega
    · rw [Reading.test, if_neg hlt] at hlive
      contradiction

/-- The loop with all its variables and the one over a `Talk` agree. -/
theorem streamsockRead_fed {bufsiz : UInt64}
    (hrun : Run (Step toRead) (.enter bufsiz toRead memory prior) xs t) (ht : t.ret = some code) :
    (streamsockRead bufsiz toRead : Talk Errno Q R _).fed xs = some (t.outcome code) := by
  unfold Reading.enter at hrun
  unfold streamsockRead
  split at hrun
  · rename_i hgt
    obtain ⟨rfl, rfl⟩ := hrun.halted (Step.stopped rfl)
    obtain rfl := Option.some.inj ht
    rw [if_pos hgt]
    rfl
  · rename_i hle
    rw [if_neg hle]
    exact (Placed.start toRead prior memory).fed rfl (Nat.le_refl _) hrun ht

end Reading

/-- How many bytes the calls have taken. -/
def departed : List (Except Errno Nat) → Nat
  | [] => 0
  | .ok n :: xs => n + departed xs
  | .error _ :: xs => departed xs

theorem departed_append (xs : List (Except Errno Nat)) (x : Except Errno Nat) :
    departed (xs ++ [x]) = departed xs + departed [x] := by
  induction xs with
  | nil => exact (Nat.zero_add _).symm
  | cons y xs ih =>
    cases y with
    | error e => exact ih
    | ok n =>
      simp only [List.cons_append, departed, ih]
      rw [Nat.add_assoc]

namespace Sending

/-- The invariant of the loop, with `n` bytes taken. -/
structure Gone (toSend : UInt64) (buf : Nat → Byte) (n : Nat) (s : Sending) : Prop where
  sum : s.sent.toNat + s.remaining.toNat = toSend.toNat
  count : s.sent.toNat = n
  offset : s.bufOffset = s.sent.toNat
  within : s.bufOffset + s.remaining.toUInt32.toNat ≤ toSend.toNat
  output : s.output = (List.range n).map buf

variable {toSend prior : UInt64} {buf : Nat → Byte} {n : Nat} {s : Sending}

theorem Gone.start (toSend prior : UInt64) (buf : Nat → Byte) :
    Gone toSend buf 0 ⟨0, toSend, 0, [], prior, none⟩ where
  sum := Nat.zero_add _
  count := rfl
  offset := rfl
  within := by
    rw [Nat.zero_add]
    exact toUInt32_le toSend
  output := rfl

theorem Gone.take {k : Nat} (h : Gone toSend buf n s) (hle : k ≤ s.remaining.toUInt32.toNat) :
    Gone toSend buf (n + k) (s.take buf k) := by
  have hle' : k ≤ s.remaining.toNat := Nat.le_trans hle (toUInt32_le s.remaining)
  have hsum := h.sum
  have hcount := h.count
  have hsize := UInt64.toNat_lt toSend
  have hadd := toNat_add_count (x := s.sent) (n := k) (by omega)
  have hsub := toNat_sub_count (x := s.remaining) hle'
  have hsum' : (s.take buf k).sent.toNat + (s.take buf k).remaining.toNat = toSend.toNat := by
    simp only [Sending.take, hadd, hsub]
    omega
  have hoffset : (s.take buf k).bufOffset = (s.take buf k).sent.toNat := by
    simp only [Sending.take, hadd, h.offset]
  refine ⟨hsum', ?_, hoffset, ?_, ?_⟩
  · simp only [Sending.take, hadd, hcount]
  · rw [hoffset, ← hsum']
    exact Nat.add_le_add_left (toUInt32_le _) _
  · simp only [Sending.take, h.output, h.offset, hcount]
    rw [List.range_add, List.map_append, List.map_map]
    rfl

/-- What holds of `streamsock_send` when the calls of `send` have returned `xs`. -/
structure Exact (toSend : UInt64) (buf : Nat → Byte) (prior : UInt64)
    (xs : List (Except Errno Nat)) (s : Sending) : Prop
    extends Gone toSend buf (departed xs) s where
  running : s.ret = none → s.sent < toSend ∧ s.numBytesSent = prior ∧ xs.length ≤ s.sent.toNat
  finished : s.ret = some 0 →
    s.numBytesSent = toSend ∧ s.output = (List.range toSend.toNat).map buf
  failed : ∀ code, s.ret = some code → code ≠ 0 → s.numBytesSent = prior ∧
    ∃ errno : Errno, xs.getLast? = some (.error errno) ∧ code = errno.code

variable {xs : List (Except Errno Nat)} {x : Except Errno Nat}

/-- At the condition of the loop. -/
theorem Exact.test (h : Gone toSend buf (departed xs) s) (hret : s.ret = none)
    (hprior : s.numBytesSent = prior) (hcalls : xs.length ≤ s.sent.toNat) :
    Exact toSend buf prior xs (s.test toSend) := by
  unfold Sending.test
  split
  · rename_i hlt
    refine ⟨h, fun _ => ⟨hlt, hprior, hcalls⟩, fun h0 => ?_, fun code hcode => ?_⟩
    · rw [hret] at h0
      contradiction
    · rw [hret] at hcode
      contradiction
  · rename_i hge
    have hle := UInt64.le_iff_toNat_le.mp (UInt64.not_lt.mp hge)
    have hsum := h.sum
    have hfull : s.sent = toSend := UInt64.toNat.inj (by omega)
    have hall : s.output = (List.range toSend.toNat).map buf := by
      rw [h.output, ← h.count, hfull]
    exact ⟨{ h with }, nofun, fun _ => ⟨hfull, hall⟩,
      fun code hcode hnz => absurd (Option.some.inj hcode).symm hnz⟩

theorem Exact.enter (toSend : UInt64) (buf : Nat → Byte) (prior : UInt64) :
    Exact toSend buf prior [] (.enter toSend prior) :=
  Exact.test (Gone.start toSend prior buf) rfl rfl (Nat.zero_le _)

/-- One call of `send`. -/
theorem Exact.step {s' : Sending} (h : Exact toSend buf prior xs s)
    (hs : Step toSend buf s x s') : Exact toSend buf prior (xs ++ [x]) s' := by
  obtain ⟨hret, hfits, rfl⟩ := hs
  obtain ⟨hlt, hprior, hcalls⟩ := h.running hret
  match x with
  | .error e =>
    have hgone : Gone toSend buf (departed (xs ++ [.error e])) s := by
      rw [departed_append]
      exact h.toGone
    have hcode : some e.code ≠ some 0 := fun h0 => e.nonzero (Option.some.inj h0)
    refine ⟨{ hgone with }, nofun, fun h0 => absurd h0 hcode, ?_⟩
    intro code hcode _
    exact ⟨hprior, e, List.getLast?_concat, (Option.some.inj hcode).symm⟩
  | .ok n =>
    obtain ⟨hpos, hle⟩ := hfits
    have hgone : Gone toSend buf (departed (xs ++ [.ok n])) (s.take buf n) := by
      rw [departed_append]
      exact h.take hle
    have hcount := hgone.count
    rw [departed_append, ← h.count] at hcount
    apply Exact.test hgone hret hprior
    rw [hcount, List.length_append, List.length_singleton]
    exact Nat.add_le_add hcalls hpos

theorem Exact.run (h : Run (Step toSend buf) (.enter toSend prior) xs s) :
    Exact toSend buf prior xs s :=
  h.history (Exact.enter toSend buf prior) (fun _ _ _ _ _ hs hx => hx.step hs)

theorem stops (toSend : UInt64) (buf : Nat → Byte) (prior : UInt64) :
    Stops (Step toSend buf) (fun s => SendFits s.remaining.toUInt32) (fun s => s.ret = none)
      (.enter toSend prior) := by
  apply stops_of_bound toSend.toNat
  · intro s x hret hfits
    exact ⟨_, hret, hfits, rfl⟩
  · intro xs s h hret
    obtain ⟨hlt, -, hcalls⟩ := (Exact.run h).running hret
    exact Nat.lt_of_le_of_lt hcalls (UInt64.lt_iff_toNat_lt.mp hlt)

theorem Step.stopped {code : Int32} (hret : s.ret = some code) (x : Except Errno Nat)
    (s' : Sending) : ¬ Step toSend buf s x s' := by
  intro hs
  have hlive := hs.1
  rw [hret] at hlive
  contradiction

variable {Q R : Type} {calls : Nat} {code : Int32} {t : Sending}

theorem loop_done {sent remaining : UInt64} {bytes : List Byte} (h : ¬ sent < toSend) :
    streamsockSend.loop toSend calls sent remaining bytes =
      (.ret (.ok sent) : Talk Errno Q R _) := by
  cases calls with
  | zero => rfl
  | succ calls => rw [streamsockSend.loop, if_neg h]

/-- What `buf_offset` points at. -/
def rest (buf : Nat → Byte) (s : Sending) : List Byte :=
  (List.range s.remaining.toNat).map (fun i => buf (s.bufOffset + i))

theorem take_rest {k : Nat} (h : k ≤ s.remaining.toNat) :
    (s.rest buf).take k = (List.range k).map (fun i => buf (s.bufOffset + i)) := by
  rw [rest, ← List.map_take, List.take_range, Nat.min_eq_left h]

theorem drop_rest {k : Nat} (h : k ≤ s.remaining.toNat) :
    (s.rest buf).drop k = (s.take buf k).rest buf := by
  have hsub := toNat_sub_count (x := s.remaining) h
  simp only [rest, Sending.take, hsub]
  apply List.ext_getElem
  · simp
  · intro i h₁ h₂
    simp [Nat.add_assoc]

/-- The loop sends what `streamsockSend` sends, and comes to the same. -/
theorem Gone.drained (h : Gone toSend buf n s) (hret : s.ret = none)
    (hcalls : s.remaining.toNat ≤ calls) (hrun : Run (Step toSend buf) (s.test toSend) xs t)
    (ht : t.ret = some code) :
    ∃ out, t.output = s.output ++ out ∧
      (streamsockSend.loop toSend calls s.sent s.remaining (s.rest buf) : Talk Errno Q R _).drained
        xs = some (out, t.outcome code) := by
  induction xs generalizing s n calls with
  | nil =>
    obtain rfl : t = s.test toSend := hrun
    by_cases hlt : s.sent < toSend
    · rw [Sending.test, if_pos hlt, hret] at ht
      contradiction
    · rw [Sending.test, if_neg hlt] at ht ⊢
      obtain rfl := Option.some.inj ht
      rw [loop_done hlt]
      exact ⟨[], (List.append_nil _).symm, rfl⟩
  | cons x xs ih =>
    obtain ⟨s', ⟨hlive, hfits, rfl⟩, hrest⟩ := hrun
    by_cases hlt : s.sent < toSend
    · rw [Sending.test, if_pos hlt] at hlive hfits hrest
      have hsum := h.sum
      have hlt' := UInt64.lt_iff_toNat_lt.mp hlt
      obtain ⟨calls, rfl⟩ : ∃ k, calls = k + 1 := ⟨calls - 1, by omega⟩
      rw [streamsockSend.loop, if_pos hlt]
      match x with
      | .error e =>
        obtain ⟨rfl, rfl⟩ := hrest.halted (Step.stopped rfl)
        obtain rfl := Option.some.inj ht
        refine ⟨[], (List.append_nil _).symm, ?_⟩
        simp [Talk.drained, Talk.gone, outcome, e.nonzero]
      | .ok k =>
        obtain ⟨hpos, hle⟩ := hfits
        have hle' : k ≤ s.remaining.toNat := Nat.le_trans hle (toUInt32_le s.remaining)
        have hsub := toNat_sub_count (x := s.remaining) hle'
        have hfuel : (s.take buf k).remaining.toNat ≤ calls := by
          simp only [Sending.take, hsub]
          omega
        obtain ⟨out, hout, hd⟩ := ih (h.take hle) hret hfuel hrest
        refine ⟨(s.rest buf).take k ++ out, ?_, ?_⟩
        · rw [hout, take_rest hle', ← List.append_assoc]
          rfl
        · rw [← drop_rest hle'] at hd
          simp only [Talk.drained, Talk.gone, List.take_take, Nat.min_eq_left hle]
          exact congrArg _ hd
    · rw [Sending.test, if_neg hlt] at hlive
      contradiction

theorem streamsockSend_drained (hrun : Run (Step toSend buf) (.enter toSend prior) xs t)
    (ht : t.ret = some code) :
    (streamsockSend ((List.range toSend.toNat).map buf) toSend : Talk Errno Q R _).drained xs =
      some (t.output, t.outcome code) := by
  obtain ⟨out, hout, hd⟩ :=
    (Gone.start toSend prior buf).drained (Q := Q) (R := R) rfl (Nat.le_refl _) hrun ht
  have hrest : rest buf ⟨0, toSend, 0, [], prior, none⟩ = (List.range toSend.toNat).map buf := by
    simp only [rest, Nat.zero_add]
  rw [hrest] at hd
  rw [hout]
  exact hd

end Sending

/-- Whatever the calls return, both loops come to their end, and transfer exactly what they
are asked for. The sessions and the commands, which run the loops as `streamsockRead` and
`streamsockSend`, are given the same. -/
theorem stream_loops_exact (Q R : Type) :
    (∀ (bufsiz toRead : UInt64) (memory : Nat → Byte) (prior : UInt64), toRead ≤ bufsiz →
      (∀ xs s, Run (Reading.Step toRead) (.enter bufsiz toRead memory prior) xs s →
        s.Exact toRead memory prior xs ∧ ∀ code, s.ret = some code →
          (streamsockRead bufsiz toRead : Talk Errno Q R _).fed xs = some (s.outcome code)) ∧
      Stops (Reading.Step toRead) (fun s => RecvFits s.remaining.toUInt32)
        (fun s => s.ret = none) (.enter bufsiz toRead memory prior)) ∧
    (∀ (toSend : UInt64) (buf : Nat → Byte) (prior : UInt64),
      (∀ xs s, Run (Sending.Step toSend buf) (.enter toSend prior) xs s →
        s.Exact toSend buf prior xs ∧ ∀ code, s.ret = some code →
          (streamsockSend ((List.range toSend.toNat).map buf) toSend : Talk Errno Q R _).drained
            xs = some (s.output, s.outcome code)) ∧
      Stops (Sending.Step toSend buf) (fun s => SendFits s.remaining.toUInt32)
        (fun s => s.ret = none) (.enter toSend prior)) := by
  constructor
  · intro bufsiz toRead memory prior hroom
    refine ⟨fun xs s h => ⟨Reading.Exact.run hroom h, fun code hcode => ?_⟩,
      Reading.stops hroom memory prior⟩
    exact Reading.streamsockRead_fed h hcode
  · intro toSend buf prior
    refine ⟨fun xs s h => ⟨Sending.Exact.run h, fun code hcode => ?_⟩,
      Sending.stops toSend buf prior⟩
    exact Sending.streamsockSend_drained h hcode

/-- Three bytes that come in two pieces, and three that go in two. -/
theorem stream_loops_exact_split :
    (∃ s, Run (Reading.Step 3) (.enter 8 3 (fun _ => 0) 0) [.ok [7], .ok [8, 9]] s ∧
      s.ret = some 0 ∧ s.Exact 3 (fun _ => 0) 0 [.ok [7], .ok [8, 9]]) ∧
    (∃ s, Run (Sending.Step 3 UInt8.ofNat) (.enter 3 0) [.ok 1, .ok 2] s ∧ s.ret = some 0 ∧
      s.output = [0, 1, 2] ∧ s.Exact 3 UInt8.ofNat 0 [.ok 1, .ok 2]) := by
  constructor
  · have hrun : Run (Reading.Step 3) (.enter 8 3 (fun _ => 0) 0) [.ok [7], .ok [8, 9]]
        (((Reading.enter 8 3 (fun _ => 0) 0).iterate 3 (.ok [7])).iterate 3 (.ok [8, 9])) :=
      ⟨_, ⟨rfl, by decide, rfl⟩, _, ⟨rfl, by decide, rfl⟩, rfl⟩
    have hexact := ((stream_loops_exact Empty Empty).1 8 3 _ 0 (by decide)).1 _ _ hrun
    exact ⟨_, hrun, rfl, hexact.1⟩
  · have hrun : Run (Sending.Step 3 UInt8.ofNat) (.enter 3 0) [.ok 1, .ok 2]
        (((Sending.enter 3 0).iterate 3 UInt8.ofNat (.ok 1)).iterate 3 UInt8.ofNat (.ok 2)) :=
      ⟨_, ⟨rfl, by decide, rfl⟩, _, ⟨rfl, by decide, rfl⟩, rfl⟩
    have hexact := ((stream_loops_exact Empty Empty).2 3 UInt8.ofNat 0).1 _ _ hrun
    exact ⟨_, hrun, rfl, rfl, hexact.1⟩

end PowerArbiter
