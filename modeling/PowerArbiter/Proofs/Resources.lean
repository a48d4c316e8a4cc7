import PowerArbiter.Service

namespace PowerArbiter
open Monitor Wire

/-- The arbiter is done with the connection. -/
def Stage.Past : Stage → Prop
  | .refused _ | .ended _ => True
  | _ => False

def Stage.Ended : Stage → Prop
  | .ended _ => True
  | _ => False

/-- What was taken for a connection was given back, each thing once. -/
structure Connection.GivenBack (c : Connection) : Prop where
  socket : c.ledger.count .close = 1
  context : c.ledger.count .free = if .malloc ∈ c.ledger then 1 else 0
  thread : c.ledger.count .pthreadJoin + c.ledger.count .pthreadDetach =
    if .pthreadCreate ∈ c.ledger then 1 else 0

/-- What is held for a connection: sockets, contexts and threads. -/
def Connection.held (c : Connection) : Int × Int × Int :=
  (c.ledger.count .accept - c.ledger.count .close,
    c.ledger.count .malloc - c.ledger.count .free,
    c.ledger.count .pthreadCreate -
      (c.ledger.count .pthreadJoin + c.ledger.count .pthreadDetach))

/-- No client is connected. -/
def Service.Idle (s : Service) : Prop := ∀ i c, s.conns i = some c → c.stage.Past

/-- Past sessions have given back what they took, and without clients nothing is held. -/
structure Service.GivesBack (s : Service) : Prop where
  past : ∀ i c, s.conns i = some c → c.stage.Past → c.GivenBack
  idle : s.Idle → ∀ i c, s.conns i = some c → c.held = (0, 0, 0)

/-- What the ledger of a connection holds at each stage. -/
inductive Charged : Stage → List Action → Prop where
  | accepted : Charged .accepted [.accept]
  | refused (getPeerId : Option Errno) (memory : Bool) (thread : Option Errno)
    (failed : (handleRemoteClient getPeerId memory thread).1 ≠ 0) :
    Charged (.refused (handleRemoteClient getPeerId memory thread).1)
      (.accept :: (handleRemoteClient getPeerId memory thread).2)
  | talking (ctx : ClientData) (t : Session (Option Int32)) :
    Charged (.talking ctx t) [.accept, .malloc, .pthreadCreate]
  | operating (ctx : ClientData) (p : Program Response) (k : Response → Session (Option Int32)) :
    Charged (.operating ctx p k) [.accept, .malloc, .pthreadCreate]
  | ended (err : Int32) : Charged (.ended err) [.accept, .malloc, .pthreadCreate, .close, .free]

/-- `handle_remote_client` succeeds by creating the thread. -/
theorem handleRemoteClient_success {getPeerId : Option Errno} {memory : Bool}
    {thread : Option Errno} (h : (handleRemoteClient getPeerId memory thread).1 = 0) :
    (handleRemoteClient getPeerId memory thread).2 = [.malloc, .pthreadCreate] := by
  cases getPeerId with
  | some err => exact absurd h err.nonzero
  | none =>
    cases memory with
    | false => cases h
    | true =>
      cases thread with
      | some err => exact absurd h err.nonzero
      | none => rfl

theorem handleRemoteClient_failure {getPeerId : Option Errno} {memory : Bool}
    {thread : Option Errno} (h : (handleRemoteClient getPeerId memory thread).1 ≠ 0) :
    (handleRemoteClient getPeerId memory thread).2 = [.close] ∨
      (handleRemoteClient getPeerId memory thread).2 = [.malloc, .close, .free] := by
  cases getPeerId with
  | some err => exact .inl rfl
  | none =>
    cases memory with
    | false => exact .inl rfl
    | true =>
      cases thread with
      | some err => exact .inr rfl
      | none => exact absurd rfl h

variable {i : Nat} {w w' : Shared} {c c' : Connection} {a : Act}

theorem Connection.Step.charged (h : c.Step i w a w' c') (hc : Charged c.stage c.ledger) :
    Charged c'.stage c'.ledger := by
  cases h with
  | say | hangUp => exact hc
  | @handle getPeerId memory thread ctx frame stage =>
    rw [stage] at hc
    generalize c.ledger = ledger at hc
    cases hc
    by_cases hret : (handleRemoteClient getPeerId memory thread).1 = 0
    · simp only [hret, ↓reduceIte, handleRemoteClient_success hret]
      exact .talking ctx (Session.turn frame)
    · simp only [hret, ↓reduceIte]
      exact .refused getPeerId memory thread hret
  | recv _ stage | shutdown stage | recvFails _ stage | send _ stage | sendFails _ stage
  | ask stage | turn _ stage =>
    rw [stage] at hc
    generalize c.ledger = ledger at hc
    cases hc
    constructor
  | sigpipe => exact hc
  | operate stage | answer stage =>
    rw [stage] at hc
    generalize c.ledger = ledger at hc
    cases hc
    constructor
  | out stage =>
    rw [stage] at hc
    generalize c.ledger = ledger at hc
    cases hc
    exact .ended _

/-- Only the step at `out` ends a session. -/
theorem Connection.Step.ended_iff (h : c.Step i w a w' c') :
    c'.stage.Ended ↔ c.stage.Ended ∨ a = .out := by
  cases h with
  | say | hangUp | sigpipe => simp
  | @handle getPeerId memory thread ctx frame stage =>
    by_cases hret : (handleRemoteClient getPeerId memory thread).1 = 0
    · simp [stage, hret, Stage.Ended]
    · simp [stage, hret, Stage.Ended]
  | recv _ stage | shutdown stage | recvFails _ stage | send _ stage | sendFails _ stage
  | ask stage | operate stage | answer stage | turn _ stage | out stage =>
    simp [stage, Stage.Ended]

/-- The ledgers of past connections. -/
theorem Charged.past (h : Charged c.stage c.ledger) (hpast : c.stage.Past) :
    (¬ c.stage.Ended ∧
      (c.ledger = [.accept, .close] ∨ c.ledger = [.accept, .malloc, .close, .free])) ∨
    (c.stage.Ended ∧ c.ledger = [.accept, .malloc, .pthreadCreate, .close, .free]) := by
  generalize c.stage = stage at h hpast
  generalize c.ledger = ledger at h
  cases h with
  | accepted | talking ctx t | operating ctx p k => exact absurd hpast not_false
  | refused getPeerId memory thread failed =>
    refine .inl ⟨not_false, ?_⟩
    rcases handleRemoteClient_failure failed with hx | hx
    · exact .inl (by rw [hx])
    · exact .inr (by rw [hx])
  | ended err => exact .inr ⟨trivial, rfl⟩

theorem Charged.givenBack_iff (h : Charged c.stage c.ledger) (hpast : c.stage.Past) :
    c.GivenBack ↔ ¬ c.stage.Ended := by
  constructor
  · intro hgiven hend
    rcases h.past hpast with ⟨hn, _⟩ | ⟨_, hx⟩
    · exact hn hend
    · have hthread := hgiven.thread
      rw [hx] at hthread
      exact absurd hthread (by decide)
  · intro hn
    rcases h.past hpast with ⟨_, hx | hx⟩ | ⟨hend, _⟩
    · constructor <;> rw [hx] <;> rfl
    · constructor <;> rw [hx] <;> rfl
    · exact absurd hend hn

/-- Socket and context of a past connection are given back in any case, the thread in none. -/
theorem Charged.held_of_over (h : Charged c.stage c.ledger) (hpast : c.stage.Past) :
    (¬ c.stage.Ended ∧ c.held = (0, 0, 0)) ∨ (c.stage.Ended ∧ c.held = (0, 0, 1)) := by
  unfold Connection.held
  rcases h.past hpast with ⟨hn, hx | hx⟩ | ⟨hend, hx⟩
  · exact .inl ⟨hn, by rw [hx]; rfl⟩
  · exact .inl ⟨hn, by rw [hx]; rfl⟩
  · exact .inr ⟨hend, by rw [hx]; rfl⟩

variable {db : ReserveDataDatabase} {ls : List ServiceLabel} {s s' : Service} {l : ServiceLabel}

/-- What holds of new connections and is kept by every step on one holds of all. -/
theorem Service.Step.all_conns {P : Connection → Prop} (h : s.Step l s') (start : P .start)
    (keep : ∀ i w c a w' c', P c → Connection.Step i w c a w' c' → P c')
    (hs : ∀ i c, s.conns i = some c → P c) : ∀ i c, s'.conns i = some c → P c := by
  intro j c hj
  cases h with
  | accept i alive new =>
    rcases update_some hj with ⟨_, he⟩ | ⟨_, hj⟩
    · exact Option.some.inj he ▸ start
    · exact hs j c hj
  | act alive conn step =>
    rcases update_some hj with ⟨_, he⟩ | ⟨_, hj⟩
    · exact Option.some.inj he ▸ keep _ _ _ _ _ _ (hs _ _ conn) step
    · exact hs j c hj

/-- The session of the connection `i` has ended. -/
def Service.Ended (s : Service) (i : Nat) : Prop := ∃ c, s.conns i = some c ∧ c.stage.Ended

theorem Service.Step.ended_iff (h : s.Step l s') (i : Nat) :
    s'.Ended i ↔ s.Ended i ∨ l = .act i .out := by
  unfold Service.Ended
  cases h with
  | accept j alive new =>
    by_cases hj : i = j
    · subst hj
      simp [new, Connection.start, Stage.Ended]
    · simp [Function.update_of_ne hj]
  | @act j c a w c' alive conn step =>
    by_cases hj : i = j
    · subst hj
      simp [conn, step.ended_iff]
    · have hne : ServiceLabel.act j a ≠ .act i .out := by
        intro he
        injection he with he
        exact hj he.symm
      simp [Function.update_of_ne hj, hne]

theorem ended_iff_out (h : Run Service.Step (.start db) ls s) (i : Nat) :
    s.Ended i ↔ .act i .out ∈ ls := by
  refine h.history (P := fun ls s => s.Ended i ↔ .act i .out ∈ ls) ?_ ?_
  · simp [Service.Ended, Service.start]
  · intro ks u l v _ hl hu
    rw [hl.ended_iff, hu, List.mem_append, List.mem_singleton, eq_comm (a := l)]

theorem charged_of_run (h : Run Service.Step (.start db) ls s) :
    ∀ i c, s.conns i = some c → Charged c.stage c.ledger := by
  refine h.preserves (P := fun s => ∀ i c, s.conns i = some c → Charged c.stage c.ledger) ?_ ?_
  · intro u l v hu hl
    exact hl.all_conns .accepted (fun _ _ _ _ _ _ hc hstep => hstep.charged hc) hu
  · intro i c hc
    cases hc

/-- Past sessions have given back everything exactly if no session has come to its end:
no handler thread is joined or detached. -/
theorem sessions_give_back_iff (h : Run Service.Step (.start db) ls s) :
    s.GivesBack ↔ ∀ i, .act i .out ∉ ls := by
  have hcharged := charged_of_run h
  have hended := ended_iff_out h
  constructor
  · intro hback i hout
    obtain ⟨c, hc, hend⟩ := (hended i).mpr hout
    have hpast : c.stage.Past := by
      revert hend
      cases c.stage <;> simp [Stage.Ended, Stage.Past]
    exact ((hcharged i c hc).givenBack_iff hpast).mp (hback.past i c hc hpast) hend
  · intro hnone
    have hgiven : ∀ i c, s.conns i = some c → c.stage.Past → c.GivenBack := by
      intro i c hc hpast
      apply ((hcharged i c hc).givenBack_iff hpast).mpr
      intro hend
      exact hnone i ((hended i).mp ⟨c, hc, hend⟩)
    refine ⟨hgiven, ?_⟩
    intro hidle i c hc
    have hpast := hidle i c hc
    rcases (hcharged i c hc).held_of_over hpast with ⟨_, hx⟩ | ⟨hend, _⟩
    · exact hx
    · exact absurd hend (((hcharged i c hc).givenBack_iff hpast).mp (hgiven i c hc hpast))

/-- A connection whose peer is not known is closed at once. -/
theorem sessions_give_back_refused : ∃ s, Run Service.Step (.start .empty)
    [.accept 0, .act 0 (.handle (some ⟨1, by decide⟩) true none ⟨1, 1000, 1000⟩ someFrame)] s ∧
    s.GivesBack := by
  have hrun : ∃ s, Run Service.Step (.start .empty)
      [.accept 0, .act 0 (.handle (some ⟨1, by decide⟩) true none ⟨1, 1000, 1000⟩ someFrame)] s :=
    ⟨_, _, .accept 0 rfl rfl, _, .act rfl rfl (.handle rfl), rfl⟩
  obtain ⟨s, h⟩ := hrun
  exact ⟨s, h, (sessions_give_back_iff h).mpr (fun i hi => by simp at hi)⟩

/-- The thread of a client that says goodbye is not given back. -/
theorem goodbye_keeps_thread : ∃ s, Run Service.Step (.start .empty)
    [.accept 0, .act 0 (.handle none true none ⟨1, 1000, 1000⟩ someFrame),
      .act 0 (.say (PARequest.codec.encode ⟨PA_GOODBYE⟩)),
      .act 0 (.recv (PARequest.codec.encode ⟨PA_GOODBYE⟩)), .act 0 .out] s ∧
    ¬ s.GivesBack := by
  have hpos : PARequest.codec.encode ⟨PA_GOODBYE⟩ ≠ [] := by decide
  refine ⟨_, ⟨_, .accept 0 rfl rfl, _, .act rfl rfl (.handle rfl), _, .act rfl rfl (.say _ rfl), _,
    .act rfl rfl (.recv _ rfl (List.append_nil _).symm hpos (by decide)), _,
    .act rfl rfl (.out rfl), rfl⟩, ?_⟩
  intro hback
  have hgiven := (hback.past 0 _ rfl trivial).thread
  cases hgiven

end PowerArbiter
