import PowerArbiter.Proofs.Manners
import PowerArbiter.Proofs.Resources

namespace PowerArbiter
open Monitor Wire

/-- A call fails. -/
def Act.Fails : Act → Prop
  | .recvFails _ | .sendFails _ | .sigpipe => True
  | .operate es => ∃ e, .lock (some e) ∈ es ∨ ∃ p, .lockInner p (some e) ∈ es
  | _ => False

/-- A session that the client has left comes to its end and closes its socket, whatever
other sessions do to the database between its steps, or it gets to a `send`. While no
lock is taken it can take a step without a failure. -/
inductive Connection.Finishes (i : Nat) : Connection → Prop where
  | past {c : Connection} (past : c.stage.Past) (closed : c.ledger.count .close = 1) : Finishes i c
  | sending {c : Connection} {ctx : ClientData} {bytes : List Byte}
    {k : Except Errno Nat → Session (Option Int32)}
    (stage : c.stage = .talking ctx (.send bytes k)) : Finishes i c
  | step {c : Connection} (able : ∀ db, ∃ a w c', c.Step i (db, .free) a w c' ∧ ¬ a.Fails)
    (next : ∀ w a w' c', c.Step i w a w' c' → Finishes i c') : Finishes i c

theorem Charged.closed {c : Connection} (h : Charged c.stage c.ledger) (hpast : c.stage.Past) :
    c.ledger.count .close = 1 := by
  rcases h.past hpast with ⟨_, hx | hx⟩ | ⟨_, hx⟩ <;> rw [hx] <;> rfl

/-- The client has closed its end. -/
structure HungUp (c : Connection) : Prop where
  closed : c.isOpen = false
  charged : Charged c.stage c.ledger

variable {i : Nat} {w w' : Shared} {c c' : Connection} {a : Act} {ctx : ClientData}

theorem Connection.Step.hungUp (h : c.Step i w a w' c') (hc : HungUp c) : HungUp c' := by
  refine ⟨?_, h.charged hc.charged⟩
  have hclosed := hc.closed
  cases h with
  | hangUp => rfl
  | _ => simp_all

theorem HungUp.past (h : HungUp c) (hpast : c.stage.Past) : c.Finishes i :=
  .past hpast (h.charged.closed hpast)

theorem HungUp.leaving {err : Int32} (h : HungUp c)
    (hs : c.stage = .talking ctx (.ret (some err))) : c.Finishes i := by
  refine .step (fun db => ⟨.out, _, _, .out hs, not_false⟩) ?_
  intro w a w' c' hstep
  have h' := hstep.hungUp h
  have hclosed := h.closed
  cases hstep with
  | out => exact h'.past trivial
  | _ => simp_all

/-- A step of the operation that the session carries out. -/
theorem HungUp.operates {p : Program Response} {k : Response → Session (Option Int32)}
    (h : HungUp c) (hs : c.stage = .operating ctx p k)
    (able : ∀ db, ∃ es p' db' L, Move (S := sig) effect i p db .free es p' db' L ∧
      ¬ (Act.operate es).Fails)
    (next : ∀ c' (w : Shared) es p' db L, Move (S := sig) effect i p w.1 w.2 es p' db L →
      HungUp c' → c'.inbox = c.inbox → c'.stage = .operating ctx p' k → c'.Finishes i) :
    c.Finishes i := by
  refine .step ?_ ?_
  · intro db
    obtain ⟨es, p', db', L, hmove, hok⟩ := able db
    exact ⟨.operate es, _, _, .operate hs hmove, hok⟩
  · intro w a w' c' hstep
    have h' := hstep.hungUp h
    have hclosed := h.closed
    cases hstep with
    | operate stage move =>
      rw [hs] at stage
      cases stage
      exact next _ w _ _ _ _ move h' rfl rfl
    | answer stage =>
      rw [hs] at stage
      cases stage
      obtain ⟨es, p', db', L, hmove, _⟩ := able .empty
      cases hmove
    | _ => simp_all

section Turns

variable {n : Nat} (turns : ∀ c, HungUp c → c.inbox.length < n →
  ∀ ctx frame, c.stage = .talking ctx (Session.turn frame) → c.Finishes i)

include turns

theorem HungUp.sends {t : Session (Option Int32)} (h : HungUp c) (hn : c.inbox.length < n)
    (hs : c.stage = .talking ctx t) (ht : Sends t) : c.Finishes i := by
  have hclosed := h.closed
  cases t with
  | recv len k | ask x k => exact absurd ht not_false
  | send bytes k => exact .sending hs
  | ret x =>
    cases x with
    | some err => exact h.leaving hs
    | none =>
      refine .step (fun db => ⟨.turn someFrame, _, _, .turn someFrame hs, not_false⟩) ?_
      intro w a w' c' hstep
      have h' := hstep.hungUp h
      cases hstep with
      | turn frame => exact turns _ h' hn _ frame rfl
      | _ => simp_all

theorem HungUp.operating {p : Program Response} {k : Response → Session (Option Int32)}
    (h : HungUp c) (hn : c.inbox.length < n) (hs : c.stage = .operating ctx p k)
    (hk : ∀ r, Sends (k r)) : c.Finishes i := by
  induction p generalizing c with
  | ret r =>
    refine .step (fun db => ⟨.answer, _, _, .answer hs, not_false⟩) ?_
    intro w a w' c' hstep
    have h' := hstep.hungUp h
    have hclosed := h.closed
    cases hstep with
    | answer stage =>
      rw [hs] at stage
      cases stage
      exact h'.sends turns hn rfl (hk _)
    | operate stage move =>
      rw [hs] at stage
      cases stage
      cases move
    | _ => simp_all
  | lock k' ih =>
    refine h.operates hs (fun db => ⟨_, _, _, _, .lock rfl, by simp [Act.Fails]⟩) ?_
    intro c' w es p' db L hmove h' hinbox hs'
    cases hmove <;> exact ih _ h' (hinbox ▸ hn) hs'
  | unlock k' ih =>
    refine h.operates hs (fun db => ⟨_, _, _, _, .unlock, by simp [Act.Fails]⟩) ?_
    intro c' w es p' db L hmove h' hinbox hs'
    cases hmove
    exact ih h' (hinbox ▸ hn) hs'
  | lockInner p k' ih =>
    refine h.operates hs (fun db => ⟨_, _, _, _, .lockInner rfl, by simp [Act.Fails]⟩) ?_
    intro c' w es p' db L hmove h' hinbox hs'
    cases hmove <;> exact ih _ h' (hinbox ▸ hn) hs'
  | unlockInner p k' ih =>
    refine h.operates hs (fun db => ⟨_, _, _, _, .unlockInner, by simp [Act.Fails]⟩) ?_
    intro c' w es p' db L hmove h' hinbox hs'
    cases hmove
    exact ih h' (hinbox ▸ hn) hs'
  | call x k' ih =>
    refine h.operates hs (fun db => ⟨_, _, _, _, .call (⟨0, 0⟩ : Answer), by simp [Act.Fails]⟩) ?_
    intro c' w es p' db L hmove h' hinbox hs'
    cases hmove
    exact ih _ h' (hinbox ▸ hn) hs'
  | access x k' ih =>
    refine h.operates hs (fun db => ⟨_, _, _, _, .access, by simp [Act.Fails]⟩) ?_
    intro c' w es p' db L hmove h' hinbox hs'
    cases hmove
    exact ih _ h' (hinbox ▸ hn) hs'

/-- The iteration in progress: it has received `got`, and not more than is left can follow. -/
theorem HungUp.listens {t : Session (Option Int32)} {got : List Byte} (h : HungUp c)
    (hn : got.length + c.inbox.length ≤ n) (hs : c.stage = .talking ctx t) (ht : Listens t got) :
    c.Finishes i := by
  induction t generalizing got c with
  | ret x =>
    obtain ⟨err, rfl⟩ := ht
    exact h.leaving hs
  | send bytes k => exact absurd ht not_false
  | recv len k ih =>
    obtain ⟨hpos, _, ⟨err, hend⟩, herror, hnext⟩ := ht
    refine .step ?_ ?_
    · intro db
      cases hin : c.inbox with
      | nil => exact ⟨.recv [], _, _, .shutdown hs hin h.closed, not_false⟩
      | cons b later =>
        exact ⟨.recv [b], _, _, .recv [b] hs hin (List.cons_ne_nil _ _) hpos, not_false⟩
    · intro w a w' c' hstep
      have h' := hstep.hungUp h
      have hclosed := h.closed
      cases hstep with
      | recv bytes stage inbox pos bound =>
        rw [hs] at stage
        cases stage
        refine ih _ h' ?_ rfl (hnext bytes pos bound)
        rw [inbox] at hn
        simp only [List.length_append] at hn ⊢
        omega
      | shutdown stage =>
        rw [hs] at stage
        cases stage
        exact h'.leaving (by rw [hend])
      | recvFails e stage =>
        rw [hs] at stage
        cases stage
        obtain ⟨err, hfail⟩ := herror e
        exact h'.leaving (by rw [hfail])
      | _ => simp_all
  | ask x k ih =>
    obtain ⟨rfl, hk⟩ := ht
    refine .step (fun db => ⟨.ask, _, _, .ask hs, not_false⟩) ?_
    intro w a w' c' hstep
    have h' := hstep.hungUp h
    have hclosed := h.closed
    cases hstep with
    | ask stage =>
      rw [hs] at stage
      cases stage
      have hpos := message_length x.2
      refine h'.operating turns ?_ rfl hk
      simp only
      omega
    | _ => simp_all

end Turns

theorem HungUp.turn (n : Nat) (h : HungUp c) (hn : c.inbox.length < n) (frame : Frame)
    (hs : c.stage = .talking ctx (Session.turn frame)) : c.Finishes i := by
  induction n generalizing c ctx frame with
  | zero => exact absurd hn (Nat.not_lt_zero _)
  | succ n ih =>
    refine h.listens (n := n) (fun c' h' hn' ctx frame hs' => ih h' hn' frame hs') ?_ hs
      (turn_listens frame)
    rw [List.length_nil]
    omega

/-- A session whose client has closed its end finishes, wherever it stands. -/
theorem HungUp.finishes {got : List Byte} (h : HungUp c) (hc : Mannered got c.stage) :
    c.Finishes i := by
  have hturns : ∀ n c, HungUp c → c.inbox.length < n →
      ∀ ctx frame, c.stage = .talking ctx (Session.turn frame) → c.Finishes i :=
    fun n c h hn ctx frame hs => h.turn n hn frame hs
  generalize hs : c.stage = stage at hc
  cases hc with
  | refused | ended => exact h.past (by rw [hs]; exact trivial)
  | listens ctx ht => exact h.listens (hturns _) (Nat.le_refl _) hs ht
  | sends ctx ht => exact h.sends (hturns _) (Nat.lt_succ_self _) hs ht
  | operating ctx p hk => exact h.operating (hturns _) (Nat.lt_succ_self _) hs hk
  | accepted =>
    refine .step (fun db => ⟨.handle none true none ⟨0, 0, 0⟩ someFrame, _, _, .handle hs,
      not_false⟩) ?_
    intro w a w' c' hstep
    have h' := hstep.hungUp h
    have hclosed := h.closed
    cases hstep with
    | @handle getPeerId memory thread ctx frame stage =>
      by_cases hret : (handleRemoteClient getPeerId memory thread).1 = 0
      · simp only [hret, ↓reduceIte] at h' ⊢
        exact h'.turn _ (Nat.lt_succ_self _) frame rfl
      · exact h'.past (by simp only [hret, ↓reduceIte]; exact trivial)
    | _ => simp_all

end PowerArbiter
