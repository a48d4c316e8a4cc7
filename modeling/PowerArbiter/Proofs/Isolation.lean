import PowerArbiter.Proofs.Shadow

namespace PowerArbiter
open Monitor Wire

/-- The client of `m` issues the requests `qs` and then disconnects. -/
def Disconnects (m : Nat) (qs : List Query) (ls : List ServiceLabel) : Prop :=
  ∃ before, ls = before ++ [.act m (.say (PARequest.codec.encode ⟨PA_GOODBYE⟩)), .act m .hangUp] ∧
    said m before = requests qs ∧ .act m .hangUp ∉ before

/-- No client has kept the service from the others. For each there is a run in which it
makes its complete requests and disconnects, and that is the same for all others. -/
structure Isolated (db : ReserveDataDatabase) (ls : List ServiceLabel) (s : Service) : Prop where
  alive : s.alive = true
  closed : ∀ i c, s.conns i = some c → c.stage.Past → c.ledger.count .close = 1
  finishes : ∀ i c, s.conns i = some c → c.isOpen = false → c.Finishes i
  unaffected : ∀ m c (f : Framing (said m ls)), s.conns m = some c → ∃ ks t,
    Run (Guarded Service.Step Attended) (.start db) ks t ∧ Disconnects m f.messages ks ∧
      others m ks = others m ls ∧ t.alive = true ∧ t.shared = s.shared ∧
      ∀ j, j ≠ m → t.conns j = s.conns j

variable {i m : Nat} {a : Act} {db : ReserveDataDatabase} {s s' : Service} {l : ServiceLabel}
  {ls : List ServiceLabel}

theorem alive_of_run (h : Run (Guarded Service.Step Attended) (.start db) ls s) :
    s.alive = true := by
  refine h.preserves (P := fun s => s.alive = true) ?_ rfl
  rintro s l s' hs ⟨hstep, hok⟩
  cases hstep with
  | accept => exact hs
  | act alive conn step => exact step.survived (fun ha => hok _ _ _ rfl ha conn)

theorem mannered_of_run (h : Run (Guarded Service.Step Attended) (.start db) ls s) :
    ∀ i c, s.conns i = some c → ∃ got, Mannered got c.stage := by
  refine h.preserves (P := fun s => ∀ i c, s.conns i = some c → ∃ got, Mannered got c.stage) ?_ ?_
  · rintro s l s' hs ⟨hstep, _⟩
    refine hstep.all_conns ⟨[], .accepted⟩ ?_ hs
    rintro i w c a w' c' ⟨got, hc⟩ h
    exact ⟨_, h.mannered hc⟩
  · intro i c hc
    cases hc

theorem isolated_of_attended (h : Run (Guarded Service.Step Attended) (.start db) ls s) :
    Isolated db ls s := by
  have hcharged := charged_of_run (h.mono (fun _ _ _ hstep => hstep.1))
  have halive := alive_of_run h
  refine ⟨halive, ?_, ?_, ?_⟩
  · intro i c hc hpast
    exact (hcharged i c hc).closed hpast
  · intro i c hc hclosed
    obtain ⟨got, hm⟩ := mannered_of_run h i c hc
    exact HungUp.finishes ⟨hclosed, hcharged i c hc⟩ hm
  · rintro m c ⟨qs, tail, code, hsplit, hclose⟩ hc
    obtain ⟨ks, t, hks, hothers, hstays, hsaid, hshadow⟩ :=
      Shadow.run (.before hclose rfl hsplit) h
    obtain ⟨d, hopen, rfl⟩ := hshadow.exchange_of hc
    obtain ⟨d', hlast⟩ := exists_hangUp hopen halive m (PARequest.codec.encode ⟨PA_GOODBYE⟩)
    refine ⟨_, _, run_append.mpr ⟨_, hks, hlast⟩, ⟨ks, rfl, hsaid, hstays⟩, ?_, halive, rfl,
      fun j hj => exchange_conns hj⟩
    rw [← hothers]
    simp [others, ServiceLabel.conn]

theorem Service.Step.attended (h : s.Step l s') (hs : s'.alive = true) : Attended s l := by
  rintro i a c rfl ha hc
  cases h with
  | @act _ c₀ _ w c' alive conn step =>
    obtain rfl : c₀ = c := Option.some.inj (conn.symm.trans hc)
    cases step with
    | send n stage isOpen => exact isOpen
    | sendFails e stage isOpen => exact isOpen
    | sigpipe => cases hs
    | _ => exact absurd ha not_false

/-- A process that is there at the end of a run has been there all the time. -/
theorem attended_of_alive (h : Run Service.Step s ls s') (hs : s'.alive = true) :
    s.alive = true ∧ Run (Guarded Service.Step Attended) s ls s' := by
  induction ls generalizing s with
  | nil =>
    obtain rfl : s' = s := h
    exact ⟨hs, rfl⟩
  | cons l ls ih =>
    obtain ⟨s₁, hstep, hrun⟩ := h
    obtain ⟨hs₁, hguarded⟩ := ih hrun
    have hok := hstep.attended hs₁
    refine ⟨?_, s₁, ⟨hstep, hok⟩, hguarded⟩
    cases hstep with
    | accept _ alive => exact alive
    | act alive => exact alive

/-- The service withstands its clients exactly if no response is sent to one that has
closed its end. -/
theorem clients_isolated_iff (h : Run Service.Step (.start db) ls s) :
    Isolated db ls s ↔ Run (Guarded Service.Step Attended) (.start db) ls s := by
  constructor
  · intro hs
    exact (attended_of_alive h hs.alive).2
  · exact isolated_of_attended

theorem attended_accept (i : Nat) : Attended s (.accept i) := by
  rintro j a c he
  cases he

theorem attended_act (ha : ¬ a.Sends) : Attended s (.act i a) := by
  rintro j b c he hb
  cases he
  exact absurd hb ha

theorem attended_send {n : Nat} {c : Connection} (hc : s.conns i = some c)
    (isOpen : c.isOpen = true) : Attended s (.act i (.send n)) := by
  rintro j b d he _ hd
  cases he
  obtain rfl : c = d := Option.some.inj (hc.symm.trans hd)
  exact isOpen

/-- A client closes its end after one byte of its second request, while another one is served. -/
def oneByteRun : List ServiceLabel :=
  [.accept 0, .act 0 (.handle none true none ⟨1, 1000, 1000⟩ someFrame), .accept 1,
    .act 1 (.handle none true none ⟨2, 1001, 1001⟩ someFrame),
    .act 0 (.say (Query.remove ⟨5⟩).message), .act 1 (.say (Query.add ⟨7, 5, 1⟩).message),
    .act 0 (.recv (PARequest.codec.encode ⟨PA_REMOVE_UID_PARAMS⟩)),
    .act 1 (.recv (PARequest.codec.encode ⟨PA_ADD_UID_PARAMS⟩)),
    .act 1 (.recv (PAAddUIDParamsQuery.codec.encode ⟨7, 5, 1⟩)), .act 1 .ask,
    .act 0 (.recv (PARemoveUIDParamsQuery.codec.encode ⟨5⟩)), .act 0 .ask,
    .act 1 (.operate [.lock none]), .act 1 (.operate []), .act 1 (.operate [.call .malloc ⟨1, 0⟩]),
    .act 1 (.operate [.call .mutexInit ⟨0, 0⟩]), .act 1 (.operate []), .act 1 (.operate []),
    .act 1 (.operate [.unlock]), .act 0 (.operate [.lock none]), .act 0 (.operate []),
    .act 0 (.operate [.unlock]), .act 0 .answer, .act 0 (.send 4), .act 0 (.turn someFrame),
    .act 0 (.say [5]), .act 0 .hangUp, .act 1 .answer, .act 0 (.recv [5]), .act 0 (.recv []),
    .act 1 (.send 4), .act 0 .out]

theorem oneByteRun_attended : ∃ s c,
    Run (Guarded Service.Step Attended) (.start .empty) oneByteRun s ∧ s.conns 1 = some c ∧
    c.outbox = (Response.add ⟨PA_NO_ERROR⟩).image someFrame.response := by
  have quiet : ∀ {s : Service} {i : Nat} {a : Act}, ¬a.Sends → Attended s (.act i a) := attended_act
  unfold oneByteRun
  exact ⟨_, _, ⟨_, ⟨.accept 0 rfl rfl, attended_accept 0⟩,
    _, ⟨.act rfl rfl (.handle rfl), quiet not_false⟩, _, ⟨.accept 1 rfl rfl, attended_accept 1⟩,
    _, ⟨.act rfl rfl (.handle rfl), quiet not_false⟩,
    _, ⟨.act rfl rfl (.say _ rfl), quiet not_false⟩,
    _, ⟨.act rfl rfl (.say _ rfl), quiet not_false⟩,
    _, ⟨.act rfl rfl (.recv _ rfl rfl (List.cons_ne_nil _ _) (Nat.le_refl 4)), quiet not_false⟩,
    _, ⟨.act rfl rfl (.recv _ rfl rfl (List.cons_ne_nil _ _) (Nat.le_refl 4)), quiet not_false⟩,
    _, ⟨.act rfl rfl (.recv _ rfl (List.append_nil _).symm (List.cons_ne_nil _ _)
      (Nat.le_refl 24)), quiet not_false⟩,
    _, ⟨.act rfl rfl (.ask rfl), quiet not_false⟩,
    _, ⟨.act rfl rfl (.recv _ rfl (List.append_nil _).symm (List.cons_ne_nil _ _)
      (Nat.le_refl 8)), quiet not_false⟩,
    _, ⟨.act rfl rfl (.ask rfl), quiet not_false⟩,
    _, ⟨.act rfl rfl (.operate rfl (.lock rfl)), quiet not_false⟩,
    _, ⟨.act rfl rfl (.operate rfl .access), quiet not_false⟩,
    _, ⟨.act rfl rfl (.operate rfl (.call _)), quiet not_false⟩,
    _, ⟨.act rfl rfl (.operate rfl (.call _)), quiet not_false⟩,
    _, ⟨.act rfl rfl (.operate rfl .access), quiet not_false⟩,
    _, ⟨.act rfl rfl (.operate rfl .access), quiet not_false⟩,
    _, ⟨.act rfl rfl (.operate rfl .unlock), quiet not_false⟩,
    _, ⟨.act rfl rfl (.operate rfl (.lock rfl)), quiet not_false⟩,
    _, ⟨.act rfl rfl (.operate rfl .access), quiet not_false⟩,
    _, ⟨.act rfl rfl (.operate rfl .unlock), quiet not_false⟩,
    _, ⟨.act rfl rfl (.answer rfl), quiet not_false⟩,
    _, ⟨.act rfl rfl (.send 4 rfl rfl (by decide) (by decide)), attended_send rfl rfl⟩,
    _, ⟨.act rfl rfl (.turn _ rfl), quiet not_false⟩,
    _, ⟨.act rfl rfl (.say _ rfl), quiet not_false⟩,
    _, ⟨.act rfl rfl (.hangUp rfl), quiet not_false⟩,
    _, ⟨.act rfl rfl (.answer rfl), quiet not_false⟩,
    _, ⟨.act rfl rfl (.recv [5] rfl (List.append_nil _).symm (List.cons_ne_nil _ _) (by decide)),
      quiet not_false⟩,
    _, ⟨.act rfl rfl (.shutdown rfl rfl rfl), quiet not_false⟩,
    _, ⟨.act rfl rfl (.send 4 rfl rfl (by decide) (by decide)), attended_send rfl rfl⟩,
    _, ⟨.act rfl rfl (.out rfl), quiet not_false⟩, rfl⟩, rfl, rfl⟩

theorem clients_isolated_one_byte : ∃ s c, Run Service.Step (.start .empty) oneByteRun s ∧
    s.conns 1 = some c ∧ c.outbox = (Response.add ⟨PA_NO_ERROR⟩).image someFrame.response ∧
    Isolated .empty oneByteRun s := by
  obtain ⟨s, c, h, hc, hsent⟩ := oneByteRun_attended
  have hrun := h.mono (fun _ _ _ hstep => hstep.1)
  exact ⟨s, c, hrun, hc, hsent, (clients_isolated_iff hrun).mpr h⟩

/-- A client asks for a removal and closes its end before it is answered. -/
def abandonedRun : List ServiceLabel :=
  [.accept 0, .act 0 (.handle none true none ⟨1, 1000, 1000⟩ someFrame),
    .act 0 (.say (Query.remove ⟨5⟩).message),
    .act 0 (.recv (PARequest.codec.encode ⟨PA_REMOVE_UID_PARAMS⟩)),
    .act 0 (.recv (PARemoveUIDParamsQuery.codec.encode ⟨5⟩)), .act 0 .hangUp, .act 0 .ask,
    .act 0 (.operate [.lock none]), .act 0 (.operate []), .act 0 (.operate [.unlock]),
    .act 0 .answer, .act 0 .sigpipe]

theorem sigpipe_stops_service :
    ∃ s, Run Service.Step (.start .empty) abandonedRun s ∧ ¬ Isolated .empty abandonedRun s := by
  have hrun : ∃ s, Run Service.Step (.start .empty) abandonedRun s ∧ s.alive = false := by
    unfold abandonedRun
    exact ⟨_, ⟨_, .accept 0 rfl rfl, _, .act rfl rfl (.handle rfl), _, .act rfl rfl (.say _ rfl),
      _, .act rfl rfl (.recv _ rfl rfl (by decide) (by decide)),
      _, .act rfl rfl (.recv _ rfl (List.append_nil _).symm (by decide) (by decide)),
      _, .act rfl rfl (.hangUp rfl), _, .act rfl rfl (.ask rfl),
      _, .act rfl rfl (.operate rfl (.lock rfl)), _, .act rfl rfl (.operate rfl .access),
      _, .act rfl rfl (.operate rfl .unlock), _, .act rfl rfl (.answer rfl),
      _, .act rfl rfl (.sigpipe rfl rfl), rfl⟩, rfl⟩
  obtain ⟨s, h, hdead⟩ := hrun
  refine ⟨s, h, ?_⟩
  intro hs
  rw [hs.alive] at hdead
  cases hdead

end PowerArbiter
