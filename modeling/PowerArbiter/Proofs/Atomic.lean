import PowerArbiter.Monitor.Linear
import PowerArbiter.Proofs.Conversation
import PowerArbiter.Proofs.Discipline
import PowerArbiter.Proofs.Refinement
import PowerArbiter.Proofs.Shadow

namespace PowerArbiter
open Monitor Wire

/-- The requests as the map answers them, each with the calls that the kernel has seen. -/
def Mapping.serve (m : Mapping) :
    List (Asked × List (Call × Answer)) → Option (List Response × Mapping)
  | [] => some ([], m)
  | (a, calls) :: rest => do
    let (outcome, m) ← (m.step (a.query.op a.ctx a.frame.locals)).exactly calls
    let (responses, m) ← m.serve rest
    return (a.query.respond a.frame.locals outcome :: responses, m)

/-- A response could not be sent. -/
def Failed (i : Nat) (ls : List ServiceLabel) : Prop := ∃ e, .act i (.sendFails e) ∈ ls

/-- A request that the arbiter has received is to be carried out, and has been. -/
def ServiceLabel.asks (i : Nat) : ServiceLabel → Bool
  | .act j .ask => j = i
  | _ => false

def ServiceLabel.answers (i : Nat) : ServiceLabel → Bool
  | .act j .answer => j = i
  | _ => false

/-- What the client of `i` has said so far and what it was sent, when the requests `done` of it
were carried out, and the one in progress. -/
structure Conversed (i : Nat) (ls : List ServiceLabel)
    (done : List (Finished sig Asked Response)) (act : Option (Active sig Asked Response))
    (got owed : List Byte) (conn : Connection) : Prop where
  stands : Stands (Failed i ls) act got owed conn.stage
  heard : said i ls = requests (done.map (fun f => f.op.query)) ++
    (requests (act.toList.map (fun a => a.op.query)) ++ (got ++ conn.inbox))
  sent : conn.outbox ++ owed = done.flatMap (fun f => f.result.image f.op.frame.response)
  asked : ls.countP (ServiceLabel.asks i) = done.length + act.toList.length
  answered : ls.countP (ServiceLabel.answers i) = done.length

/-- The requests that are being carried out, as an interleaving over the database. -/
abbrev Serving := Conf sig ReserveDataDatabase Nat Asked Response

/-- The interleaving has come as far as the connection `i`. -/
def Abreast (ls : List ServiceLabel) (x : Serving) (i : Nat) : Option Connection → Prop
  | none => x.threads i = none ∧ x.returned Asked.conn i = [] ∧ said i ls = [] ∧
    ls.countP (ServiceLabel.asks i) = 0 ∧ ls.countP (ServiceLabel.answers i) = 0
  | some conn => ∃ got owed,
    Conversed i ls (x.returned Asked.conn i) (x.threads i) got owed conn

variable {i : Nat} {ls : List ServiceLabel} {done : List (Finished sig Asked Response)}
  {act : Option (Active sig Asked Response)} {got owed : List Byte} {conn conn' : Connection}
  {w w' : Shared} {a : Act} {x : Serving}

theorem said_snoc (i : Nat) (ls : List ServiceLabel) (l : ServiceLabel) :
    said i (ls ++ [l]) = said i ls ++ l.said i := by
  simp [said]

theorem countP_snoc (p : ServiceLabel → Bool) (ls : List ServiceLabel) (l : ServiceLabel) :
    (ls ++ [l]).countP p = ls.countP p + (p l).toNat := by
  cases hp : p l <;> simp [hp]

theorem ServiceLabel.asks_other (l : ServiceLabel) (h : l.conn ≠ i) : l.asks i = false := by
  cases l with
  | accept j => rfl
  | act j a => cases a <;> first | rfl | exact decide_eq_false h

theorem ServiceLabel.answers_other (l : ServiceLabel) (h : l.conn ≠ i) : l.answers i = false := by
  cases l with
  | accept j => rfl
  | act j a => cases a <;> first | rfl | exact decide_eq_false h

theorem Failed.snoc (h : Failed i ls) (l : ServiceLabel) : Failed i (ls ++ [l]) :=
  h.imp fun _ he => List.mem_append_left _ he

/-- An act that carries out no request. -/
theorem Conversed.next (h : Conversed i ls done act got owed conn) {got' owed' : List Byte}
    (hstands : Stands (Failed i (ls ++ [.act i a])) act got' owed' conn'.stage)
    (hin : got ++ (conn.inbox ++ a.said) = got' ++ conn'.inbox)
    (hout : conn'.outbox ++ owed' = conn.outbox ++ owed) (ha : a ≠ .ask ∧ a ≠ .answer) :
    Conversed i (ls ++ [.act i a]) done act got' owed' conn' := by
  have hasks : (ServiceLabel.act i a).asks i = false := by
    cases a <;> first | rfl | exact absurd rfl ha.1
  have hanswers : (ServiceLabel.act i a).answers i = false := by
    cases a <;> first | rfl | exact absurd rfl ha.2
  refine ⟨hstands, ?_, hout.trans h.sent, ?_, ?_⟩
  · rw [said_snoc, h.heard, ← hin]
    simp only [ServiceLabel.said, ↓reduceIte, List.append_assoc]
  · rw [countP_snoc, hasks, h.asked]
    rfl
  · rw [countP_snoc, hanswers, h.answered]
    rfl

/-- The interleaving can follow an act on the connection. -/
def KeepsUp (ls : List ServiceLabel) (x : Serving) (i : Nat) (w : Shared) (conn : Connection) :
    Prop :=
  ∃ ts y, Run (TaggedStep Asked.conn Asked.code effect) x ts y ∧ y.shared = w.1 ∧
    y.locks = w.2 ∧ Abreast ls y i (some conn) ∧
    ∀ j, j ≠ i → y.threads j = x.threads j ∧ y.returned Asked.conn j = x.returned Asked.conn j

/-- Nothing happens in the interleaving. -/
theorem Conversed.stays (h : Conversed i ls (x.returned Asked.conn i) (x.threads i) got owed conn)
    (hshared : x.shared = w.1) (hlocks : x.locks = w.2) {got' owed' : List Byte}
    (ha : a ≠ .ask ∧ a ≠ .answer) (hw : w' = w)
    (hstands : Stands (Failed i (ls ++ [.act i a])) (x.threads i) got' owed' conn'.stage)
    (hin : got ++ (conn.inbox ++ a.said) = got' ++ conn'.inbox)
    (hout : conn'.outbox ++ owed' = conn.outbox ++ owed) :
    KeepsUp (ls ++ [.act i a]) x i w' conn' :=
  ⟨[], x, rfl, hw ▸ hshared, hw ▸ hlocks, ⟨got', owed', h.next hstands hin hout ha⟩,
    fun _ _ => ⟨rfl, rfl⟩⟩

/-- The interleaving starts the request. -/
theorem Abreast.ask (hx : Abreast ls x i (some conn)) (htag : Tagged Asked.conn x)
    (hshared : x.shared = w.1) (hlocks : x.locks = w.2) {ctx : ClientData} {q : Locals × Query}
    {k : Response → Session (Option Int32)} (stage : conn.stage = .talking ctx (.ask q k)) :
    KeepsUp (ls ++ [.act i .ask]) x i w
      { conn with stage := .operating ctx (handleClient ctx q.1 q.2) k } := by
  obtain ⟨got, owed, hconv⟩ := hx
  have hst := hconv.stands
  rw [stage] at hst
  generalize hact : x.threads i = act at hst
  cases hst with
  | owes _ owes => exact absurd owes not_false
  | asks _ frame locals owes =>
    have hstep : Monitor.Step Asked.code effect x i _ := .start hact ⟨i, ctx, frame, q.2⟩
    refine ⟨[i], _, ⟨_, ⟨hstep, ?_⟩, rfl⟩, hshared, hlocks, ⟨[], [], ?_, ?_, ?_, ?_, ?_⟩,
      fun j hj => ⟨Function.update_of_ne hj .., rfl⟩⟩
    · apply htag.update
      rfl
    · simp only [Function.update_self, locals]
      exact .operating ctx ⟨x.next, ⟨i, ctx, frame, q.2⟩, _, []⟩ owes
    · rw [said_snoc, hconv.heard, hact]
      simp [requests, ServiceLabel.said, Act.said, Conf.returned]
    · exact hconv.sent
    · rw [countP_snoc, hconv.asked, hact]
      simp [ServiceLabel.asks, Conf.returned]
    · rw [countP_snoc, hconv.answered]
      simp [ServiceLabel.answers, Conf.returned]

/-- It takes the same step. -/
theorem Abreast.operate (hx : Abreast ls x i (some conn)) (htag : Tagged Asked.conn x)
    (hshared : x.shared = w.1) (hlocks : x.locks = w.2) {ctx : ClientData}
    {p p' : Program Response} {k : Response → Session (Option Int32)} {db : ReserveDataDatabase}
    {L : Locks sig Nat} {es : List (Event sig)} (stage : conn.stage = .operating ctx p k)
    (move : Move (S := sig) effect i p w.1 w.2 es p' db L) :
    KeepsUp (ls ++ [.act i (.operate es)]) x i (db, L)
      { conn with stage := .operating ctx p' k } := by
  obtain ⟨got, owed, hconv⟩ := hx
  have hst := hconv.stands
  rw [stage] at hst
  generalize hact : x.threads i = act at hst
  cases hst with
  | operating _ act owes =>
    rw [← hshared, ← hlocks] at move
    have hstep : Monitor.Step Asked.code effect x i _ := .move hact move
    refine ⟨[i], _, ⟨_, ⟨hstep, ?_⟩, rfl⟩, rfl, rfl, ⟨[], [], ?_, ?_, ?_, ?_, ?_⟩,
      fun j hj => ⟨Function.update_of_ne hj .., rfl⟩⟩
    · apply htag.update
      exact htag i act hact
    · simp only [Function.update_self]
      exact .operating ctx ⟨act.inst, act.op, p', act.trace ++ es⟩ owes
    · rw [said_snoc, hconv.heard, hact]
      simp [requests, ServiceLabel.said, Act.said, Conf.returned]
    · exact hconv.sent
    · rw [countP_snoc, hconv.asked, hact]
      simp [ServiceLabel.asks, Conf.returned]
    · rw [countP_snoc, hconv.answered]
      simp [ServiceLabel.answers, Conf.returned]

/-- It finishes the request. -/
theorem Abreast.answer (hx : Abreast ls x i (some conn)) (htag : Tagged Asked.conn x)
    (hshared : x.shared = w.1) (hlocks : x.locks = w.2) {ctx : ClientData} {r : Response}
    {k : Response → Session (Option Int32)} (stage : conn.stage = .operating ctx (.ret r) k) :
    KeepsUp (ls ++ [.act i .answer]) x i w { conn with stage := .talking ctx (k r) } := by
  obtain ⟨got, owed, hconv⟩ := hx
  have hst := hconv.stands
  rw [stage] at hst
  generalize hact : x.threads i = act at hst
  generalize hprog : Prog.ret r = p at hst
  cases hst with
  | operating _ act owes =>
    obtain ⟨n, op, p, tr⟩ := act
    subst hprog
    have hop : op.conn = i := htag i _ hact
    have hstep : Monitor.Step Asked.code effect x i _ := .finish hact
    refine ⟨[i], _, ⟨_, ⟨hstep, htag.clear⟩, rfl⟩, hshared, hlocks,
      ⟨[], r.image op.frame.response, ?_, ?_, ?_, ?_, ?_⟩,
      fun j hj => ⟨Function.update_of_ne hj .., ?_⟩⟩
    · simp only [Function.update_self]
      exact .owes ctx (owes r)
    · rw [said_snoc, hconv.heard, hact]
      simp [requests, ServiceLabel.said, Act.said, Conf.returned, hop]
    · have hsent := hconv.sent
      simp only [Conf.returned, List.filter_append, List.flatMap_append] at hsent ⊢
      simp [hop, ← hsent]
    · rw [countP_snoc, hconv.asked, hact]
      simp [ServiceLabel.asks, Conf.returned, hop]
    · rw [countP_snoc, hconv.answered]
      simp [ServiceLabel.answers, Conf.returned, hop]
    · simp [Conf.returned, hop, Ne.symm hj]

theorem Connection.Step.abreast (h : conn.Step i w a w' conn')
    (hx : Abreast ls x i (some conn)) (htag : Tagged Asked.conn x) (hshared : x.shared = w.1)
    (hlocks : x.locks = w.2) : KeepsUp (ls ++ [.act i a]) x i w' conn' := by
  obtain ⟨got, owed, hconv⟩ := id hx
  have hst := hconv.stands
  have stays (got' owed' : List Byte) :=
    @Conversed.stays i ls got owed conn conn' w w' a x hconv hshared hlocks got' owed'
  have hmono : Failed i ls → Failed i (ls ++ [.act i a]) := fun hf => hf.snoc _
  cases h with
  | say bytes isOpen => exact stays _ _ (by simp) rfl (hst.mono hmono) rfl rfl
  | hangUp isOpen =>
    refine stays _ _ (by simp) rfl (hst.mono hmono) ?_ rfl
    simp [Act.said]
  | sigpipe stage closed =>
    refine stays _ _ (by simp) rfl (hst.mono hmono) ?_ rfl
    simp [Act.said]
  | @handle getPeerId memory thread ctx frame stage =>
    rw [stage] at hst
    generalize hact : x.threads i = act at hst stays
    cases hst
    refine stays [] [] (by simp) rfl ?_ ?_ rfl
    · by_cases hret : (handleRemoteClient getPeerId memory thread).1 = 0
      · simp only [hret, ↓reduceIte]
        exact .turn ctx frame
      · simp only [hret, ↓reduceIte]
        exact .refused _
    · simp [Act.said]
  | recv bytes stage inbox pos bound =>
    rw [stage] at hst
    generalize hact : x.threads i = act at hst stays
    cases hst with
    | owes _ owes => exact absurd owes not_false
    | hears _ frame listens responds part =>
      obtain ⟨_, _, _, _, hnext⟩ := id listens
      refine stays _ _ (by simp) rfl (.within _ (hnext bytes pos bound) (responds bytes pos bound)
        fun q rest he => part.recv listens bound he) ?_ rfl
      simp [Act.said, inbox]
  | shutdown stage inbox closed =>
    rw [stage] at hst
    generalize hact : x.threads i = act at hst stays
    cases hst with
    | owes _ owes => exact absurd owes not_false
    | hears _ frame listens responds part =>
      obtain ⟨_, _, ⟨err, hend⟩, _⟩ := listens
      refine stays got [] (by simp) rfl ?_ ?_ rfl
      · rw [hend]
        exact .leaves _ err part (.inl rfl)
      · simp [Act.said]
  | recvFails e stage =>
    rw [stage] at hst
    generalize hact : x.threads i = act at hst stays
    cases hst with
    | owes _ owes => exact absurd owes not_false
    | hears _ frame listens responds part =>
      obtain ⟨_, _, _, herror, _⟩ := listens
      obtain ⟨err, hend⟩ := herror e
      refine stays got [] (by simp) rfl ?_ ?_ rfl
      · rw [hend]
        exact .leaves _ err part (.inl rfl)
      · simp [Act.said]
  | send n stage isOpen pos bound =>
    rw [stage] at hst
    generalize hact : x.threads i = act at hst stays
    cases hst with
    | owes _ owes =>
      obtain ⟨rfl, -, hnext⟩ := owes
      refine stays _ _ (by simp) rfl (.owes _ (hnext n pos bound)) ?_ ?_
      · simp [Act.said]
      · rw [List.append_assoc, List.take_append_drop]
  | sendFails e stage isOpen =>
    rw [stage] at hst
    generalize hact : x.threads i = act at hst stays
    cases hst with
    | owes _ owes =>
      obtain ⟨rfl, herror, -⟩ := owes
      obtain ⟨err, hend⟩ := herror e
      refine stays [] _ (by simp) rfl ?_ ?_ rfl
      · rw [hend]
        exact .leaves _ err partial_nil
          (.inr ⟨e, List.mem_append_right _ (List.mem_singleton_self _)⟩)
      · simp [Act.said]
  | turn frame stage =>
    rw [stage] at hst
    generalize hact : x.threads i = act at hst stays
    cases hst with
    | owes _ owes =>
      obtain ⟨-, rfl⟩ := owes
      refine stays _ _ (by simp) rfl (.turn _ frame) ?_ rfl
      simp [Act.said]
  | out stage =>
    rw [stage] at hst
    generalize hact : x.threads i = act at hst stays
    cases hst with
    | owes _ owes =>
      obtain ⟨he, -⟩ := owes
      cases he
    | leaves _ _ part excuse =>
      refine stays _ _ (by simp) rfl (.ended _ part (excuse.imp_right hmono)) ?_ rfl
      simp [Act.said]
  | ask stage => exact Abreast.ask hx htag hshared hlocks stage
  | operate stage move => exact Abreast.operate hx htag hshared hlocks stage move
  | answer stage => exact Abreast.answer hx htag hshared hlocks stage

/-- Other connections do not notice. -/
theorem Abreast.other {y : Serving} {j : Nat} {c : Option Connection} {l : ServiceLabel}
    (h : Abreast ls x j c) (hl : l.conn ≠ j) (hthreads : y.threads j = x.threads j)
    (hreturned : y.returned Asked.conn j = x.returned Asked.conn j) :
    Abreast (ls ++ [l]) y j c := by
  have hsaid : said j (ls ++ [l]) = said j ls := by
    rw [said_snoc, said_other hl, List.append_nil]
  have hasks : (ls ++ [l]).countP (ServiceLabel.asks j) = ls.countP (ServiceLabel.asks j) := by
    rw [countP_snoc, l.asks_other hl, Bool.toNat_false, Nat.add_zero]
  have hanswers : (ls ++ [l]).countP (ServiceLabel.answers j) =
      ls.countP (ServiceLabel.answers j) := by
    rw [countP_snoc, l.answers_other hl, Bool.toNat_false, Nat.add_zero]
  cases c with
  | none =>
    obtain ⟨hidle, hnone, hsilent, hasked, hanswered⟩ := h
    exact ⟨hthreads.trans hidle, hreturned.trans hnone, hsaid.trans hsilent, hasks.trans hasked,
      hanswers.trans hanswered⟩
  | some conn =>
    obtain ⟨got, owed, hconv⟩ := h
    rw [← hthreads, ← hreturned] at hconv
    exact ⟨got, owed, hconv.stands.mono fun hf => hf.snoc l, hsaid.trans hconv.heard, hconv.sent,
      hasks.trans hconv.asked, hanswers.trans hconv.answered⟩

/-- The service, and the interleaving of its requests. -/
structure Mirrored (ls : List ServiceLabel) (s : Service) (x : Serving) : Prop where
  shared : x.shared = s.shared.1
  locks : x.locks = s.shared.2
  abreast : ∀ i, Abreast ls x i (s.conns i)

variable {db : ReserveDataDatabase} {s s' : Service} {l : ServiceLabel}

theorem Mirrored.step (h : Mirrored ls s x) (htag : Tagged Asked.conn x) (hs : s.Step l s') :
    ∃ ts y, Run (TaggedStep Asked.conn Asked.code effect) x ts y ∧ Mirrored (ls ++ [l]) s' y := by
  cases hs with
  | accept i alive new =>
    refine ⟨[], x, rfl, h.shared, h.locks, fun j => ?_⟩
    dsimp only
    have hj := h.abreast j
    by_cases hij : j = i
    · subst hij
      rw [new] at hj
      obtain ⟨hidle, hnone, hsilent, hasked, hanswered⟩ := hj
      rw [Function.update_self]
      refine ⟨[], [], ?_, ?_, ?_, ?_, ?_⟩
      · rw [hidle]
        exact .accepted
      · rw [said_snoc, hsilent, hnone, hidle]
        rfl
      · rw [hnone]
        rfl
      · rw [countP_snoc, hasked, hnone, hidle]
        rfl
      · rw [countP_snoc, hanswered, hnone]
        rfl
    · rw [Function.update_of_ne hij]
      exact hj.other (Ne.symm hij) rfl rfl
  | @act i conn a w conn' alive hconn step =>
    have hi := h.abreast i
    rw [hconn] at hi
    obtain ⟨ts, y, hrun, hshared, hlocks, hy, hothers⟩ :=
      step.abreast hi htag h.shared h.locks
    refine ⟨ts, y, hrun, hshared, hlocks, fun j => ?_⟩
    dsimp only
    by_cases hij : j = i
    · subst hij
      rw [Function.update_self]
      exact hy
    · rw [Function.update_of_ne hij]
      exact (h.abreast j).other (Ne.symm hij) (hothers j hij).1 (hothers j hij).2

end PowerArbiter
