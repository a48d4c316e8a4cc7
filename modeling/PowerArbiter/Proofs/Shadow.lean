import PowerArbiter.Proofs.Endings

namespace PowerArbiter
open Monitor Wire

/-- The session calls `send`. -/
def Act.Sends : Act → Prop
  | .send _ | .sendFails _ | .sigpipe => True
  | _ => False

/-- A response is sent only to a client that has not closed its end. -/
def Attended (s : Service) (l : ServiceLabel) : Prop :=
  ∀ i a c, l = .act i a → a.Sends → s.conns i = some c → c.isOpen = true

def ServiceLabel.conn : ServiceLabel → Nat
  | .accept i => i
  | .act i _ => i

/-- What happens on the other connections. -/
def others (m : Nat) (ls : List ServiceLabel) : List ServiceLabel :=
  ls.filter (fun l => l.conn ≠ m)

def Act.said : Act → List Byte
  | .say bytes => bytes
  | _ => []

def ServiceLabel.said (m : Nat) : ServiceLabel → List Byte
  | .accept _ => []
  | .act i a => if i = m then a.said else []

/-- What the client of the connection `m` sends. -/
def said (m : Nat) (ls : List ServiceLabel) : List Byte := ls.flatMap (ServiceLabel.said m)

def requests (qs : List Query) : List Byte := (qs.map Query.message).flatten

/-- Of the complete requests, `due` is to come when `got` has been received of the next. -/
inductive Due : List Byte → List Byte → Prop where
  | between (qs : List Query) : Due [] (requests qs)
  | within (q : Query) (qs : List Query) (got rest : List Byte) (part : got ++ rest = q.message) :
    Due got (rest ++ requests qs)

theorem requests_cons (q : Query) (qs : List Query) :
    requests (q :: qs) = q.message ++ requests qs := by
  unfold requests
  rw [List.map_cons, List.flatten_cons]

/-- What a call of `recv` finds belongs to the next request, unless none is due. -/
theorem Due.recv {got due bytes later tail : List Byte} {len : Nat}
    {k : Except Errno (List Byte) → Session (Option Int32)} (h : Due got due)
    (hlistens : Listens (.recv len k) got) (hbound : bytes.length ≤ len)
    (hsplit : bytes ++ later = due ++ tail) :
    (got = [] ∧ due = []) ∨ ∃ due', due = bytes ++ due' ∧ Due (got ++ bytes) due' := by
  obtain ⟨_, hmessage, _⟩ := hlistens
  have hwithin : ∀ (q : Query) qs rest, got ++ rest = q.message → due = rest ++ requests qs →
      ∃ due', due = bytes ++ due' ∧ Due (got ++ bytes) due' := by
    intro q qs rest hpart hdue
    have hle := hmessage q rest hpart
    rw [hdue, List.append_assoc] at hsplit
    obtain ⟨rest', rfl⟩ : bytes <+: rest :=
      List.prefix_of_prefix_length_le ⟨later, hsplit⟩ ⟨_, rfl⟩ (by omega)
    refine ⟨rest' ++ requests qs, by rw [hdue, List.append_assoc], .within q qs _ rest' ?_⟩
    rw [List.append_assoc, hpart]
  cases h with
  | between qs =>
    cases qs with
    | nil => exact .inl ⟨rfl, rfl⟩
    | cons q qs => exact .inr (hwithin q qs q.message (List.nil_append _) (requests_cons q qs))
  | within q qs _ rest part => exact .inr (hwithin q qs rest part rfl)

theorem Due.ask {due : List Byte} {q : Query} (h : Due q.message due) : Due [] due := by
  generalize hgot : q.message = got at h
  cases h with
  | between qs => exact .between qs
  | within q' qs _ rest part =>
    rw [← hgot, ← List.append_nil q'.message] at part
    obtain ⟨_, rfl⟩ := message_append_inj part
    exact .between qs

/-- A session that carries out no request any more. -/
inductive Doomed (coming : List Byte) : Connection → Prop where
  | past {c : Connection} (past : c.stage.Past) : Doomed coming c
  | leaving {c : Connection} {ctx : ClientData} {err : Int32}
    (stage : c.stage = .talking ctx (.ret (some err))) : Doomed coming c
  | listens {c : Connection} {ctx : ClientData} {t : Session (Option Int32)} {got : List Byte}
    {code : Int32} (stage : c.stage = .talking ctx t) (listens : Listens t got)
    (closing : Closing (got ++ (c.inbox ++ coming)) code) : Doomed coming c

variable {i m : Nat} {w w' : Shared} {c c' d : Connection} {a : Act} {coming owed : List Byte}

theorem Doomed.step (h : Doomed (a.said ++ coming) c) (hstep : c.Step i w a w' c') :
    Doomed coming c' ∧ w' = w := by
  cases h with
  | past hpast =>
    cases hstep with
    | say | hangUp => exact ⟨.past hpast, rfl⟩
    | sigpipe => exact ⟨.past hpast, rfl⟩
    | _ => simp_all [Stage.Past]
  | leaving hs =>
    cases hstep with
    | say | hangUp => exact ⟨.leaving hs, rfl⟩
    | out => exact ⟨.past trivial, rfl⟩
    | _ => simp_all
  | @listens ctx t got code hs hlistens hclose =>
    cases hstep with
    | say bytes =>
      refine ⟨.listens hs hlistens (?_ : Closing _ code), rfl⟩
      simpa only [Act.said, List.append_assoc] using hclose
    | hangUp => exact ⟨.listens hs hlistens hclose, rfl⟩
    | recv bytes stage inbox pos bound =>
      rw [hs] at stage
      cases stage
      obtain ⟨_, _, _, _, hnext⟩ := hlistens
      refine ⟨.listens rfl (hnext bytes pos bound) (?_ : Closing _ code), rfl⟩
      rw [inbox] at hclose
      simpa only [Act.said, List.nil_append, List.append_assoc] using hclose
    | shutdown stage =>
      rw [hs] at stage
      cases stage
      obtain ⟨_, _, ⟨err, hend⟩, _⟩ := hlistens
      exact ⟨.leaving (by rw [hend]), rfl⟩
    | recvFails e stage =>
      rw [hs] at stage
      cases stage
      obtain ⟨_, _, _, herror, _⟩ := hlistens
      obtain ⟨err, hend⟩ := herror e
      exact ⟨.leaving (by rw [hend]), rfl⟩
    | send n stage | sendFails e stage | sigpipe stage =>
      rw [hs] at stage
      cases stage
      exact absurd hlistens not_false
    | ask stage =>
      rw [hs] at stage
      cases stage
      obtain ⟨rfl, _⟩ := hlistens
      exact absurd hclose Closing.not_message
    | turn frame stage =>
      rw [hs] at stage
      cases stage
      obtain ⟨err, he⟩ := hlistens
      cases he
    | out => exact ⟨.past trivial, rfl⟩
    | _ => simp_all

/-- The connection of a client that has sent `n` of the bytes in the inbox only, and
does not close its end. -/
def Connection.cut (n : Nat) (c : Connection) : Connection :=
  { c with inbox := c.inbox.take n, isOpen := true }

/-- A client and what it would be if it sent only its complete requests. `coming` is
what it is yet to send, and `owed` the part of that which belongs to complete requests. -/
inductive Pair (coming : List Byte) : List Byte → Connection → Connection → Prop where
  | together {c : Connection} {got due tail : List Byte} {code : Int32}
    (closing : Closing tail code) (mannered : Mannered got c.stage) (pending : Due got due)
    (split : c.inbox ++ coming = due ++ tail) :
    Pair coming (coming.take (due.length - c.inbox.length)) c (c.cut due.length)
  | apart {c : Connection} (doomed : Doomed coming c) (d : Connection) : Pair coming [] c d

/-- The acts that do not touch the inbox and are not the client's. -/
def Act.Inner : Act → Prop
  | .say _ | .hangUp | .recv _ | .sigpipe => False
  | _ => True

theorem Connection.Step.cut (h : c.Step i w a w' c') (ha : a.Inner) (n : Nat) :
    (c.cut n).Step i w a w' (c'.cut n) ∧ c'.inbox = c.inbox := by
  cases h with
  | say | hangUp | recv | shutdown | sigpipe => exact absurd ha not_false
  | handle stage => exact ⟨.handle stage, rfl⟩
  | recvFails e stage => exact ⟨.recvFails e stage, rfl⟩
  | send n stage isOpen pos bound => exact ⟨.send n stage rfl pos bound, rfl⟩
  | sendFails e stage => exact ⟨.sendFails e stage rfl, rfl⟩
  | ask stage => exact ⟨.ask stage, rfl⟩
  | operate stage move => exact ⟨.operate stage move, rfl⟩
  | answer stage => exact ⟨.answer stage, rfl⟩
  | turn frame stage => exact ⟨.turn frame stage, rfl⟩
  | out stage => exact ⟨.out stage, rfl⟩

/-- The client that sends only its complete requests takes a step too, or waits. -/
inductive Pair.Next (m : Nat) (coming owed : List Byte) (w w' : Shared) (c' d : Connection) :
    Prop where
  | step (b : Act) (d' : Connection) (owed' : List Byte) (step : d.Step m w b w' d')
    (stays : b ≠ .hangUp) (split : owed = b.said ++ owed') (pair : Pair coming owed' c' d')
  | waits (same : w' = w) (pair : Pair coming owed c' d)

theorem Pair.together_inner {got due tail : List Byte} {code : Int32} (hclose : Closing tail code)
    (hm : Mannered got c.stage) (hdue : Due got due) (hsplit : c.inbox ++ coming = due ++ tail)
    (hstep : c.Step m w a w' c') (ha : a.Inner) :
    Pair.Next m coming (coming.take (due.length - c.inbox.length)) w w' c' (c.cut due.length) := by
  obtain ⟨hcut, hinbox⟩ := hstep.cut ha due.length
  have hdue' : Due (a.received got) due := by
    cases hstep with
    | recv | shutdown => exact absurd ha not_false
    | ask stage =>
      rw [stage] at hm
      obtain ⟨rfl, _⟩ := hm.ask
      exact hdue.ask
    | _ => exact hdue
  have hpair := Pair.together hclose (hstep.mannered hm) hdue' (hinbox ▸ hsplit)
  rw [hinbox] at hpair
  refine .step a _ _ hcut ?_ ?_ hpair
  · rintro rfl
    exact ha
  · cases hstep <;> first | rfl | exact absurd ha not_false

theorem Pair.step (h : Pair (a.said ++ coming) owed c d) (hstep : c.Step m w a w' c')
    (hok : a.Sends → c.isOpen = true) (hsilent : c.isOpen = false → a.said ++ coming = []) :
    Pair.Next m coming owed w w' c' d := by
  cases h with
  | apart doomed d =>
    obtain ⟨hdoomed, hw⟩ := doomed.step hstep
    exact .waits hw (.apart hdoomed d)
  | @together _ got due tail code hclose hm hdue hsplit =>
    have hstep' := hstep
    cases hstep with
    | say bytes isOpen =>
      have hsplit' : (c.inbox ++ bytes) ++ coming = due ++ tail := by
        rw [List.append_assoc]
        exact hsplit
      have hcut : ({ c with inbox := c.inbox ++ bytes } : Connection).cut due.length =
          { c.cut due.length with
            inbox := (c.cut due.length).inbox ++ bytes.take (due.length - c.inbox.length) } := by
        simp only [Connection.cut, List.take_append]
      have hpair := Pair.together (c := { c with inbox := c.inbox ++ bytes }) hclose hm hdue hsplit'
      rw [hcut] at hpair
      refine .step (.say (bytes.take (due.length - c.inbox.length))) _ _ (.say _ rfl)
        (fun he => nomatch he) ?_ hpair
      simp only [Act.said, List.take_append, List.length_append, Nat.sub_sub]
    | hangUp =>
      have hpair := Pair.together (c := { c with isOpen := false }) hclose hm hdue hsplit
      exact .waits rfl hpair
    | @recv ctx len k later bytes stage inbox pos bound =>
      rw [stage] at hm
      have hlistens := hm.recv
      obtain ⟨_, _, _, _, hnext⟩ := hlistens
      rw [inbox, List.append_assoc] at hsplit
      rcases hdue.recv hm.recv bound hsplit with ⟨rfl, rfl⟩ | ⟨due', rfl, hdue'⟩
      · -- what arrives is not part of a complete request
        rw [List.length_nil, Nat.zero_sub, List.take_zero]
        refine .waits rfl (.apart (.listens rfl (hnext bytes pos bound) (?_ : Closing _ code)) _)
        have htail : bytes ++ (later ++ coming) = tail := hsplit
        rw [List.nil_append, htail]
        exact hclose
      · have hrest : later ++ coming = due' ++ tail := by
          rw [List.append_assoc] at hsplit
          exact List.append_cancel_left hsplit
        have hcut : (c.cut (bytes ++ due').length).inbox = bytes ++ later.take due'.length := by
          unfold Connection.cut
          rw [inbox, List.length_append, List.take_length_add_append]
        have hpair := Pair.together
          (c := { c with inbox := later, stage := .talking ctx (k (.ok bytes)) }) hclose
          (.listens ctx (hnext bytes pos bound)) hdue' hrest
        refine .step (.recv bytes) _ _ (.recv bytes stage hcut pos bound) (fun he => nomatch he) ?_
          hpair
        rw [inbox, List.length_append, List.length_append, Nat.add_sub_add_left]
        rfl
    | shutdown stage inbox closed =>
      obtain rfl : coming = [] := hsilent closed
      rw [stage] at hm
      obtain ⟨_, _, ⟨err, hend⟩, _⟩ := hm.recv
      simp only [Act.said, List.append_nil, List.take_nil]
      exact .waits rfl (.apart (.leaving (by rw [hend])) _)
    | sigpipe stage closed =>
      have hopen := hok trivial
      rw [closed] at hopen
      cases hopen
    | _ => exact Pair.together_inner hclose hm hdue hsplit hstep' trivial

theorem Connection.Step.closed (h : c.Step i w a w' c') (hclosed : c.isOpen = false) :
    a.said = [] ∧ c'.isOpen = false := by
  cases h with
  | say _ ho | hangUp ho => simp_all
  | _ => exact ⟨rfl, hclosed⟩

theorem Connection.Step.isOpen (h : c.Step i w a w' c') (ha : a ≠ .hangUp) :
    c'.isOpen = c.isOpen := by
  cases h with
  | hangUp => exact absurd rfl ha
  | _ => rfl

theorem Connection.Step.survived (h : c.Step i w a w' c') (ha : a.Sends → c.isOpen = true) :
    a.survived = true := by
  cases h with
  | sigpipe stage closed =>
    rw [ha trivial] at closed
    cases closed
  | _ => rfl

variable {db : ReserveDataDatabase} {s s' t : Service} {l : ServiceLabel} {ls : List ServiceLabel}

theorem said_other (h : l.conn ≠ m) : l.said m = [] := by
  cases l with
  | accept i => rfl
  | act i a => exact if_neg h

theorem Service.Step.conns_other (h : s.Step l s') (hl : l.conn ≠ m) : s'.conns m = s.conns m := by
  cases h <;> exact Function.update_of_ne (Ne.symm hl) _ _

theorem said_cons : said m (l :: ls) = l.said m ++ said m ls := rfl

theorem Service.Step.closed (h : s.Step l s') (hc : s.conns m = some c)
    (hclosed : c.isOpen = false) :
    l.said m = [] ∧ ∃ c', s'.conns m = some c' ∧ c'.isOpen = false := by
  cases h with
  | accept i alive new =>
    have hne : m ≠ i := fun he => by rw [he, new] at hc; cases hc
    exact ⟨rfl, c, by simpa [Function.update_of_ne hne] using hc, hclosed⟩
  | @act i c₀ a w c₁ alive conn step =>
    by_cases hi : i = m
    · subst hi
      rw [conn] at hc
      cases hc
      obtain ⟨hsaid, hclosed'⟩ := step.closed hclosed
      exact ⟨by simpa [ServiceLabel.said] using hsaid, c₁, by simp, hclosed'⟩
    · refine ⟨if_neg hi, c, ?_, hclosed⟩
      simpa [Function.update_of_ne (Ne.symm hi)] using hc

/-- A client that has closed its end sends nothing more. -/
theorem said_of_closed (h : Run (Guarded Service.Step Attended) s ls s') (hc : s.conns m = some c)
    (hclosed : c.isOpen = false) : said m ls = [] := by
  induction ls generalizing s c with
  | nil => rfl
  | cons l ls ih =>
    obtain ⟨s₁, ⟨hstep, _⟩, hrun⟩ := h
    obtain ⟨hsaid, c₁, hc₁, hclosed₁⟩ := hstep.closed hc hclosed
    rw [said_cons, hsaid, ih hrun hc₁ hclosed₁]
    rfl

/-- The service with another client at the end of the connection `m`. -/
def Service.exchange (m : Nat) (d : Connection) (s : Service) : Service :=
  { s with conns := Function.update s.conns m (some d) }

/-- The service, and what it would be if the client of `m` sent only its complete
requests. -/
inductive Shadow (m : Nat) (coming : List Byte) : List Byte → Service → Service → Prop where
  | before {s : Service} {qs : List Query} {tail : List Byte} {code : Int32}
    (closing : Closing tail code) (new : s.conns m = none) (split : coming = requests qs ++ tail) :
    Shadow m coming (requests qs) s s
  | joined {s : Service} {owed : List Byte} {c d : Connection} (conn : s.conns m = some c)
    (isOpen : d.isOpen = true) (pair : Pair coming owed c d) :
    Shadow m coming owed s (s.exchange m d)

theorem exchange_conns {j : Nat} (h : j ≠ m) : (s.exchange m d).conns j = s.conns j :=
  Function.update_of_ne h _ _

theorem exchange_self : (s.exchange m d).conns m = some d := Function.update_self _ _ _

theorem exchange_eq (h : s.conns m = some d) : s.exchange m d = s := by
  unfold Service.exchange
  rw [← h, Function.update_eq_self]

theorem exchange_comm {j : Nat} (hj : j ≠ m) (w : Shared) (b : Bool)
    (f : Nat → Option Connection) (x : Option Connection) :
    (Service.mk w b (Function.update f j x)).exchange m d =
      ⟨w, b, Function.update (Function.update f m (some d)) j x⟩ :=
  congrArg (Service.mk w b) (Function.update_comm hj _ _ _)

/-- A step on another connection is possible with either client. -/
theorem Service.Step.exchange (h : s.Step l s') (hl : l.conn ≠ m) :
    (s.exchange m d).Step l (s'.exchange m d) := by
  cases h with
  | accept i alive new =>
    have hi : i ≠ m := hl
    rw [exchange_comm hi]
    exact .accept i alive ((exchange_conns hi).trans new)
  | @act i c a w c' alive conn step =>
    have hi : i ≠ m := hl
    rw [exchange_comm hi]
    exact .act alive ((exchange_conns hi).trans conn) step

theorem exchange_act (halive : s.alive = true) (hopen : d.isOpen = true)
    (hstep : d.Step m s.shared a w c') : Guarded Service.Step Attended (s.exchange m d) (.act m a)
      ⟨w, true, Function.update s.conns m (some c')⟩ := by
  have ha : a.survived = true := hstep.survived (fun _ => hopen)
  have hidem : Function.update (s.exchange m d).conns m (some c') =
      Function.update s.conns m (some c') := Function.update_idem _ _ _
  have hact := Service.Step.act (s := s.exchange m d) halive exchange_self hstep
  rw [ha, hidem] at hact
  refine ⟨hact, ?_⟩
  rintro i x e he _ hc
  cases he
  rw [exchange_self] at hc
  cases hc
  exact hopen

theorem Attended.exchange (h : Attended s l) (hl : l.conn ≠ m) : Attended (s.exchange m d) l := by
  rintro i a c rfl ha hc
  exact h i a c rfl ha ((exchange_conns hl).symm.trans hc)

/-- The other run can follow the step `l`. -/
def Followed (m : Nat) (l : ServiceLabel) (coming owed : List Byte) (s' t : Service) : Prop :=
  ∃ ks t' owed', Run (Guarded Service.Step Attended) t ks t' ∧ others m ks = others m [l] ∧
    .act m .hangUp ∉ ks ∧ owed = said m ks ++ owed' ∧ Shadow m coming owed' s' t'

theorem follow_other {t' : Service} (hl : l.conn ≠ m) (hstep : t.Step l t') (hok : Attended t l)
    (h : Shadow m coming owed s' t') : Followed m l coming owed s' t := by
  refine ⟨[l], t', owed, ⟨t', ⟨hstep, hok⟩, rfl⟩, rfl, ?_, ?_, h⟩
  · intro hmem
    obtain rfl := List.mem_singleton.mp hmem
    exact hl rfl
  · rw [said_cons, said_other hl]
    rfl

theorem Shadow.before_step {qs : List Query} {tail : List Byte} {code : Int32}
    (hclose : Closing tail code) (hnew : s.conns m = none)
    (hsplit : l.said m ++ coming = requests qs ++ tail)
    (hstep : s.Step l s') (hok : Attended s l) : Followed m l coming (requests qs) s' s := by
  have hstep' := hstep
  cases hstep with
  | accept i alive new =>
    by_cases hi : i = m
    · subst hi
      have hpair := Pair.together (c := .start) hclose .accepted (.between qs) hsplit
      have howed : coming.take ((requests qs).length - Connection.start.inbox.length) =
          requests qs := by
        have hcoming : coming = requests qs ++ tail := hsplit
        rw [hcoming]
        exact List.take_left
      have hjoined : ∀ s' : Service, s'.conns i = some .start →
          Shadow i coming (requests qs) s' s' := by
        intro s' hs'
        have hshadow := Shadow.joined hs' rfl hpair
        have hcut : Connection.start.cut (requests qs).length = .start := by
          simp [Connection.cut, Connection.start]
        rw [hcut, exchange_eq hs'] at hshadow
        rwa [howed] at hshadow
      refine ⟨[.accept i], _, requests qs, ⟨_, ⟨hstep', hok⟩, rfl⟩, rfl, by simp, rfl, ?_⟩
      exact hjoined _ (Function.update_self _ _ _)
    · exact follow_other hi hstep' hok
        (.before hclose ((hstep'.conns_other hi).trans hnew) hsplit)
  | @act i c a w c' alive conn step =>
    have hi : i ≠ m := by
      rintro rfl
      rw [hnew] at conn
      cases conn
    rw [ServiceLabel.said, if_neg hi] at hsplit
    exact follow_other hi hstep' hok (.before hclose ((hstep'.conns_other hi).trans hnew) hsplit)

theorem exchange_exchange (w : Shared) (b : Bool) (f : Nat → Option Connection)
    (x : Option Connection) :
    (Service.mk w b (Function.update f m x)).exchange m d =
      ⟨w, b, Function.update f m (some d)⟩ :=
  congrArg (Service.mk w b) (Function.update_idem _ _ _)

/-- How the other run follows what the session of `m` or its client does. -/
theorem Pair.follow (pair : Pair (a.said ++ coming) owed c d) (isOpen : d.isOpen = true)
    (alive : s.alive = true) (step : c.Step m s.shared a w c')
    (hok : a.Sends → c.isOpen = true) (hsilent : c.isOpen = false → a.said ++ coming = []) :
    Followed m (.act m a) coming owed ⟨w, a.survived, Function.update s.conns m (some c')⟩
      (s.exchange m d) := by
  have hothers : ∀ b, others m [.act m b] = [] := fun b => by simp [others, ServiceLabel.conn]
  have hself := Function.update_self m (some c') s.conns
  rw [step.survived hok]
  cases pair.step step hok hsilent with
  | step b d' owed' stepb stays split pair =>
    have hshadow := Shadow.joined (s := ⟨w, true, Function.update s.conns m (some c')⟩)
      hself ((stepb.isOpen stays).trans isOpen) pair
    rw [exchange_exchange] at hshadow
    refine ⟨[.act m b], _, owed', ⟨_, exchange_act alive isOpen stepb, rfl⟩,
      (hothers b).trans (hothers a).symm, ?_, ?_, hshadow⟩
    · simpa using Ne.symm stays
    · simpa [said, ServiceLabel.said] using split
  | waits same pair =>
    have hshadow := Shadow.joined (s := ⟨w, true, Function.update s.conns m (some c')⟩)
      hself isOpen pair
    have he : s.exchange m d = ⟨w, true, Function.update s.conns m (some d)⟩ := by
      rw [same, ← alive]
      rfl
    rw [exchange_exchange, ← he] at hshadow
    exact ⟨[], _, owed, rfl, (hothers a).symm, List.not_mem_nil, rfl, hshadow⟩

theorem Shadow.step (h : Shadow m (l.said m ++ coming) owed s t) (hstep : s.Step l s')
    (hok : Attended s l)
    (hsilent : ∀ c, s.conns m = some c → c.isOpen = false → l.said m ++ coming = []) :
    Followed m l coming owed s' t := by
  cases h with
  | before hclose hnew hsplit => exact Shadow.before_step hclose hnew hsplit hstep hok
  | @joined _ _ c d conn isOpen pair =>
    by_cases hl : l.conn ≠ m
    · rw [said_other hl] at pair
      exact follow_other hl (hstep.exchange hl) (hok.exchange hl)
        (.joined ((hstep.conns_other hl).trans conn) isOpen pair)
    cases hstep with
    | accept i alive new =>
      obtain rfl : i = m := not_not.mp hl
      rw [new] at conn
      cases conn
    | @act i c₀ a w c' alive conn' step =>
      obtain rfl : i = m := not_not.mp hl
      obtain rfl : c₀ = c := Option.some.inj (conn'.symm.trans conn)
      have hsaid : ServiceLabel.said i (.act i a) = a.said := if_pos rfl
      rw [hsaid] at pair
      exact pair.follow isOpen alive step (fun ha => hok i a _ rfl ha conn)
        (fun hc => hsaid ▸ hsilent _ conn hc)

theorem Shadow.settled (h : Shadow m [] owed s t) : owed = [] := by
  cases h with
  | before closing new split => exact (List.append_eq_nil_iff.mp split.symm).1
  | joined conn isOpen pair =>
    cases pair with
    | together => exact List.take_nil
    | apart => rfl

theorem Shadow.run (h : Shadow m (said m ls) owed s t)
    (hrun : Run (Guarded Service.Step Attended) s ls s') :
    ∃ ks t', Run (Guarded Service.Step Attended) t ks t' ∧ others m ks = others m ls ∧
      .act m .hangUp ∉ ks ∧ said m ks = owed ∧ Shadow m [] [] s' t' := by
  induction ls generalizing s t owed with
  | nil =>
    obtain rfl := h.settled
    obtain rfl : s' = s := hrun
    exact ⟨[], t, rfl, rfl, List.not_mem_nil, rfl, h⟩
  | cons l ls ih =>
    have hsilent : ∀ c, s.conns m = some c → c.isOpen = false → said m (l :: ls) = [] :=
      fun c hc hclosed => said_of_closed hrun hc hclosed
    obtain ⟨s₁, ⟨hstep, hok⟩, hrun⟩ := hrun
    obtain ⟨ks, t₁, owed', hks, hothers, hstays, rfl, h₁⟩ := h.step hstep hok hsilent
    obtain ⟨ks', t', hks', hothers', hstays', rfl, h'⟩ := ih h₁ hrun
    refine ⟨ks ++ ks', t', run_append.mpr ⟨t₁, hks, hks'⟩, ?_, ?_, List.flatMap_append, h'⟩
    · unfold others at hothers hothers' ⊢
      rw [List.filter_append, hothers, hothers', ← List.filter_append]
      rfl
    · intro hmem
      rcases List.mem_append.mp hmem with hmem | hmem
      · exact hstays hmem
      · exact hstays' hmem

theorem Shadow.exchange_of (h : Shadow m coming owed s t) (hc : s.conns m = some c) :
    ∃ d : Connection, d.isOpen = true ∧ t = s.exchange m d := by
  cases h with
  | before closing new split =>
    rw [new] at hc
    cases hc
  | joined conn isOpen pair => exact ⟨_, isOpen, rfl⟩

/-- The client says something more and closes its end. -/
theorem exists_hangUp (hopen : d.isOpen = true) (halive : s.alive = true) (m : Nat)
    (bytes : List Byte) : ∃ d', Run (Guarded Service.Step Attended) (s.exchange m d)
      [.act m (.say bytes), .act m .hangUp] (s.exchange m d') := by
  have he : ∀ d' : Connection, (⟨s.shared, true, Function.update s.conns m (some d')⟩ : Service) =
      s.exchange m d' := by
    intro d'
    rw [← halive]
    rfl
  have hsay := exchange_act halive hopen (.say (i := m) (w := s.shared) bytes hopen)
  have hhang := exchange_act (s := s) (d := { d with inbox := d.inbox ++ bytes }) halive hopen
    (.hangUp (i := m) (w := s.shared) hopen)
  rw [he] at hsay hhang
  exact ⟨_, _, hsay, _, hhang, rfl⟩

end PowerArbiter
