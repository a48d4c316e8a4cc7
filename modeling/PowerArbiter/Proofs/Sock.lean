import PowerArbiter.Sock
import PowerArbiter.Wire.Stream

namespace PowerArbiter
open Wire

variable {Q R α β : Type}

/-- Without asking for anything, `t` turns the connection into `c'` and comes to `a`. -/
def Yields (t : Talk Errno Q R α) (c : Conn Errno) (a : α) (c' : Conn Errno) : Prop :=
  ∀ (m : Type → Type) [Monad m] [LawfulMonad m] (serve : Q → m R), t.play serve c = pure (a, c')

theorem Yields.ret (a : α) (c : Conn Errno) : Yields (Talk.ret a : Talk Errno Q R α) c a c :=
  fun _ _ _ _ => rfl

theorem Yields.play_bind {t : Talk Errno Q R α} {c c' : Conn Errno} {a : α} (h : Yields t c a c')
    {m : Type → Type} [Monad m] [LawfulMonad m] (serve : Q → m R) (f : α → Talk Errno Q R β) :
    (t.bind f).play serve c = (f a).play serve c' := by
  rw [Talk.play_bind, h m serve, LawfulMonad.pure_bind]

theorem Yields.recv {len : Nat} {k : Except Errno (List Byte) → Talk Errno Q R α}
    {c c₁ c' : Conn Errno} {x : Except Errno (List Byte)} {a : α} (hx : c.recv len = (x, c₁))
    (h : Yields (k x) c₁ a c') : Yields (.recv len k) c a c' := by
  intro m _ _ serve
  simp only [Talk.play, hx]
  exact h m serve

theorem Yields.send {bytes : List Byte} {k : Except Errno Nat → Talk Errno Q R α}
    {c c₁ c' : Conn Errno} {x : Except Errno Nat} {a : α} (hx : c.send bytes = (x, c₁))
    (h : Yields (k x) c₁ a c') : Yields (.send bytes k) c a c' := by
  intro m _ _ serve
  simp only [Talk.play, hx]
  exact h m serve

theorem Yields.bind {t : Talk Errno Q R α} {c c' c'' : Conn Errno} {a : α} {b : β}
    {f : α → Talk Errno Q R β} (h : Yields t c a c') (hf : Yields (f a) c' b c'') :
    Yields (t.bind f) c b c'' := by
  intro m _ _ serve
  rw [h.play_bind serve, hf m serve]

/-- Any bytes can arrive without a failure. -/
theorem exists_smooth (s : List Byte) :
    ∃ c : Conn Errno, c.Smooth ∧ stream c.incoming = s ∧ c.sent = [] := by
  refine ⟨⟨putBack s [], [], []⟩, ⟨?_, ?_⟩, ?_, rfl⟩
  · intro e he
    exact absurd (error_mem_putBack.mp he) List.not_mem_nil
  · intro e he
    exact absurd he List.not_mem_nil
  · exact (stream_putBack s []).trans (List.append_nil s)

/-- What reading up to `n` bytes comes to. -/
inductive Received (c : Conn Errno) (n : Nat) (got : List Byte) :
    Except Int32 (UInt64 × List Byte) → Conn Errno → Prop where
  | read (k : UInt64) (c' : Conn Errno)
    (count : k.toNat = (got ++ (stream c.incoming).take n).length)
    (rest : stream c'.incoming = (stream c.incoming).drop n)
    (errors : ∀ e, .error e ∈ c'.incoming → .error e ∈ c.incoming)
    (outgoing : c'.outgoing = c.outgoing) (sent : c'.sent = c.sent) :
    Received c n got (.ok (k, got ++ (stream c.incoming).take n)) c'
  | failed (e : Errno) (c' : Conn Errno)
    (early : (stream c.incoming).length < n) (error : .error e ∈ c.incoming)
    (outgoing : c'.outgoing = c.outgoing) (sent : c'.sent = c.sent) :
    Received c n got (.error e.code) c'

/-- What sending the bytes `buf`, the last of `toSend`, comes to. -/
inductive Sent (c : Conn Errno) (toSend : UInt64) (buf : List Byte) :
    Except Int32 UInt64 → Conn Errno → Prop where
  | all (c' : Conn Errno) (sent : c'.sent = c.sent ++ buf)
    (errors : ∀ e, .error e ∈ c'.outgoing → .error e ∈ c.outgoing)
    (incoming : c'.incoming = c.incoming) : Sent c toSend buf (.ok toSend) c'
  | failed (e : Errno) (c' : Conn Errno) (error : .error e ∈ c.outgoing)
    (incoming : c'.incoming = c.incoming) : Sent c toSend buf (.error e.code) c'

theorem toNat_add_count {x : UInt64} {n : Nat} (h : x.toNat + n < 18446744073709551616) :
    (x + .ofNat n).toNat = x.toNat + n := by
  rw [UInt64.toNat_add, UInt64.toNat_ofNat']
  omega

theorem toNat_sub_count {x : UInt64} {n : Nat} (h : n ≤ x.toNat) :
    (x - .ofNat n).toNat = x.toNat - n := by
  have hx := UInt64.toNat_lt x
  rw [UInt64.toNat_sub, UInt64.toNat_ofNat']
  omega

theorem size_t_toNat {x : UInt64} (h : x.toNat < 4294967296) : x.toUInt32.toNat = x.toNat := by
  rw [UInt64.toNat_toUInt32]
  omega

theorem ofNat_length {k : UInt64} {got : List Byte} (h : k.toNat = got.length) :
    UInt64.ofNat got.length = k := by
  rw [← h, UInt64.ofNat_toNat]

/-- What `streamsock_read` makes of the bytes that were gathered after `got`. -/
def readResult (got : List Byte) : Except Errno (List Byte) → Except Int32 (UInt64 × List Byte)
  | .error errno => .error errno.code
  | .ok bytes => .ok (.ofNat (got ++ bytes).length, got ++ bytes)

theorem readResult_map (got bytes : List Byte) (x : Except Errno (List Byte)) :
    readResult got (x.map (bytes ++ ·)) = readResult (got ++ bytes) x := by
  cases x with
  | error e => rfl
  | ok more => simp [Except.map, readResult]

theorem readResult_nil {rcvd : UInt64} {got : List Byte} (h : rcvd.toNat = got.length) :
    readResult got (.ok []) = .ok (rcvd, got) := by
  simp [readResult, ofNat_length h]

/-- The loop of `streamsock_read`, `remaining` bytes before its end. -/
theorem readLoop_yields {toRead : UInt64} (hsize : toRead.toNat < 4294967296) (calls : Nat)
    (rcvd remaining : UInt64) (got : List Byte) (c : Conn Errno)
    (hsum : rcvd.toNat + remaining.toNat = toRead.toNat) (hcalls : remaining.toNat ≤ calls)
    (hgot : rcvd.toNat = got.length) :
    Yields (streamsockRead.loop toRead calls rcvd remaining got : Talk Errno Q R _) c
      (readResult got (gather c.incoming remaining.toNat).1)
      { c with incoming := (gather c.incoming remaining.toNat).2 } := by
  induction calls generalizing rcvd remaining got c with
  | zero =>
    rw [Nat.le_zero.mp hcalls, gather_zero, readResult_nil hgot]
    exact Yields.ret _ _
  | succ calls ih =>
    unfold streamsockRead.loop
    by_cases hlt : rcvd < toRead
    · have hlt' : rcvd.toNat < toRead.toNat := UInt64.lt_iff_toNat_lt.mp hlt
      obtain ⟨n, hn⟩ : ∃ n, remaining.toNat = n + 1 := ⟨remaining.toNat - 1, by omega⟩
      simp only [hlt, ↓reduceIte, size_t_toNat (x := remaining) (by omega), hn]
      obtain ⟨incoming, outgoing, sent⟩ := c
      cases incoming with
      | nil =>
        have hnil : gather ([] : List (Arrival Errno)) (n + 1) = (.ok [], []) := rfl
        rw [hnil, readResult_nil hgot]
        exact Yields.recv rfl (Yields.ret _ _)
      | cons x later =>
        cases x with
        | error e => exact Yields.recv rfl (Yields.ret _ _)
        | data b bs =>
          have hcount : (b :: bs.take n).length ≤ remaining.toNat := by
            rw [List.length_cons, List.length_take]
            omega
          have hadd := toNat_add_count (x := rcvd) (n := (b :: bs.take n).length) (by omega)
          have hsub := toNat_sub_count (x := remaining) hcount
          have hpos : 0 < (b :: bs.take n).length := Nat.zero_lt_succ _
          have hrest := ih (rcvd + .ofNat (b :: bs.take n).length)
            (remaining - .ofNat (b :: bs.take n).length) (got ++ (b :: bs.take n))
            ⟨putBack (bs.drop n) later, outgoing, sent⟩ (by omega) (by omega)
            (by rw [hadd, List.length_append, hgot])
          rw [hsub, hn, List.length_cons, Nat.add_sub_add_right] at hrest
          rw [gather_part, readResult_map]
          exact Yields.recv rfl hrest
    · have hle := UInt64.le_iff_toNat_le.mp (UInt64.not_lt.mp hlt)
      have hzero : remaining.toNat = 0 := by omega
      rw [hzero, gather_zero, readResult_nil hgot]
      simp only [hlt, ↓reduceIte]
      exact Yields.ret _ _

theorem streamsockRead_gathers {toRead : UInt64} (hsize : toRead.toNat < 4294967296)
    (c : Conn Errno) :
    Yields (streamsockRead toRead toRead : Talk Errno Q R _) c
      (readResult [] (gather c.incoming toRead.toNat).1)
      { c with incoming := (gather c.incoming toRead.toNat).2 } := by
  have hle : ¬ toRead > toRead := UInt64.lt_irrefl _
  unfold streamsockRead
  simp only [hle, ↓reduceIte]
  exact readLoop_yields hsize _ 0 toRead [] c (Nat.zero_add _) (Nat.le_refl _) rfl

theorem streamsockRead_yields {toRead : UInt64} (hsize : toRead.toNat < 4294967296)
    (c : Conn Errno) :
    ∃ r c', Yields (streamsockRead toRead toRead : Talk Errno Q R _) c r c' ∧
      Received c toRead.toNat [] r c' := by
  refine ⟨_, _, streamsockRead_gathers hsize c, ?_⟩
  cases hg : (gather c.incoming toRead.toNat).1 with
  | error e =>
    obtain ⟨early, error⟩ := gather_error hg
    exact .failed e _ early error rfl rfl
  | ok bytes =>
    obtain ⟨rfl, rest⟩ := gather_ok hg
    refine .read _ _ ?_ rest (fun _ he => gather_errors he) rfl rfl
    rw [UInt64.toNat_ofNat', List.nil_append, List.length_take]
    omega

/-- What sending the bytes `buf` comes to, and how much of them goes out. -/
inductive Delivers (c : Conn Errno) (toSend : UInt64) (buf : List Byte) :
    Except Int32 UInt64 → Conn Errno → Prop where
  | all (later : List (Departure Errno)) (taken : deliver c.outgoing buf.length = .ok later) :
    Delivers c toSend buf (.ok toSend) { c with outgoing := later, sent := c.sent ++ buf }
  | failed (e : Errno) (k : Nat) (later : List (Departure Errno))
    (early : deliver c.outgoing buf.length = .error e) :
    Delivers c toSend buf (.error e.code) { c with outgoing := later, sent := c.sent ++ buf.take k }

/-- The bytes of one call come before those of the calls after it. -/
theorem Delivers.extend {c c' : Conn Errno} {n : Nat} {toSend : UInt64} {buf : List Byte}
    {later : List (Departure Errno)} {r : Except Int32 UInt64}
    (h : Delivers { c with outgoing := later, sent := c.sent ++ buf.take n } toSend (buf.drop n)
      r c')
    (hd : deliver c.outgoing buf.length = deliver later (buf.drop n).length) :
    Delivers c toSend buf r c' := by
  cases h with
  | all rest taken =>
    rw [List.append_assoc, List.take_append_drop]
    exact .all rest (hd.trans taken)
  | failed e k rest early =>
    rw [List.append_assoc, ← List.take_add]
    exact .failed e (n + k) rest (hd.trans early)

theorem Delivers.nothing {c : Conn Errno} {toSend k : UInt64} {buf : List Byte}
    (h : buf.length = 0) (hk : k.toNat = toSend.toNat) : Delivers c toSend buf (.ok k) c := by
  obtain rfl : buf = [] := List.eq_nil_of_length_eq_zero h
  obtain rfl : k = toSend := UInt64.toNat.inj hk
  have hd : Delivers c k [] (.ok k) { c with sent := c.sent ++ [] } :=
    .all c.outgoing (deliver_zero _)
  rwa [List.append_nil] at hd

theorem Delivers.sent {c c' : Conn Errno} {toSend : UInt64} {buf : List Byte}
    {r : Except Int32 UInt64} (h : Delivers c toSend buf r c') : Sent c toSend buf r c' := by
  cases h with
  | all later taken => exact .all _ rfl (fun _ he => deliver_errors taken he) rfl
  | failed e k later early => exact .failed e _ (deliver_error early) rfl

/-- The loop of `streamsock_send`, with `buf` left to send. -/
theorem sendLoop_yields {toSend : UInt64} (hsize : toSend.toNat < 4294967296) (calls : Nat)
    (sent remaining : UInt64) (buf : List Byte) (c : Conn Errno)
    (hsum : sent.toNat + remaining.toNat = toSend.toNat) (hcalls : remaining.toNat ≤ calls)
    (hbuf : buf.length = remaining.toNat) :
    ∃ r c', Yields (streamsockSend.loop toSend calls sent remaining buf : Talk Errno Q R _) c r c' ∧
      Delivers c toSend buf r c' := by
  induction calls generalizing sent remaining buf c with
  | zero => exact ⟨_, c, Yields.ret _ _, .nothing (by omega) (by omega)⟩
  | succ calls ih =>
    unfold streamsockSend.loop
    by_cases hlt : sent < toSend
    · have hlt' : sent.toNat < toSend.toNat := UInt64.lt_iff_toNat_lt.mp hlt
      have htake : buf.take remaining.toUInt32.toNat = buf := by
        rw [size_t_toNat (by omega)]
        exact List.take_of_length_le (by omega)
      simp only [hlt, ↓reduceIte, htake]
      have hpos : 0 < buf.length := by omega
      rcases send_part c hpos with
        ⟨e, later, hsend, hdeliver⟩ | ⟨n, later, hn, hle, hsend, hdeliver⟩
      · have hd : Delivers c toSend buf (.error e.code)
            { c with outgoing := later, sent := c.sent ++ buf.take 0 } := .failed e 0 later hdeliver
        rw [List.take_zero, List.append_nil] at hd
        exact ⟨_, _, Yields.send hsend (Yields.ret _ _), hd⟩
      · have hadd := toNat_add_count (x := sent) (n := n) (by omega)
        have hsub := toNat_sub_count (x := remaining) (n := n) (by omega)
        obtain ⟨r, c', hy, hd⟩ := ih (sent + .ofNat n) (remaining - .ofNat n) (buf.drop n)
          { c with outgoing := later, sent := c.sent ++ buf.take n } (by omega) (by omega)
          (by rw [List.length_drop]; omega)
        exact ⟨r, c', Yields.send hsend hy, hd.extend hdeliver⟩
    · have hle := UInt64.le_iff_toNat_le.mp (UInt64.not_lt.mp hlt)
      simp only [hlt, ↓reduceIte]
      exact ⟨_, c, Yields.ret _ _, .nothing (by omega) (by omega)⟩

theorem streamsockSend_delivers {buf : List Byte} (hsize : buf.length < 4294967296)
    (c : Conn Errno) :
    ∃ r c', Yields (streamsockSend buf (.ofNat buf.length) : Talk Errno Q R _) c r c' ∧
      Delivers c (.ofNat buf.length) buf r c' := by
  have hlen : (UInt64.ofNat buf.length).toNat = buf.length := by
    rw [UInt64.toNat_ofNat']
    omega
  unfold streamsockSend
  exact sendLoop_yields (by omega) _ 0 _ buf c (Nat.zero_add _) (Nat.le_refl _) hlen.symm

theorem streamsockSend_yields {buf : List Byte} (hsize : buf.length < 4294967296)
    (c : Conn Errno) :
    ∃ r c', Yields (streamsockSend buf (.ofNat buf.length) : Talk Errno Q R _) c r c' ∧
      Sent c (.ofNat buf.length) buf r c' := by
  obtain ⟨r, c', hy, hd⟩ := streamsockSend_delivers (Q := Q) (R := R) hsize c
  exact ⟨r, c', hy, hd.sent⟩

end PowerArbiter
