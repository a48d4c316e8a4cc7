import PowerArbiter.Proofs.Transact

namespace PowerArbiter
open Wire PAController

/-- The server takes the request, and shuts down in order before it has sent all of the
response. -/
structure ClosesEarly (q : Query) (c : Conn Errno) : Prop where
  taken : Taken q c
  missing : (stream c.incoming).length < q.responseSize
  orderly : ∀ e, .error e ∉ c.incoming

/-- The whole request has been sent, and a whole response received. -/
structure Complete (q : Query) (c c' : Conn Errno) : Prop where
  sent : c'.sent = c.sent ++ q.message
  received : ∃ image, image.length = q.responseSize ∧
    stream c.incoming = image ++ stream c'.incoming

def goodbye : List Byte := PARequest.codec.encode ⟨PA_GOODBYE⟩

theorem disconnectFromServer_yields (c : Conn Errno) : ∃ ret c' k,
    Yields disconnectFromServer c ret c' ∧ c'.incoming = c.incoming ∧
      c'.sent = c.sent ++ goodbye.take k := by
  have hsize : goodbye.length < 4294967296 := by decide
  obtain ⟨r, c', hy, hd⟩ := streamsockSend_delivers (Q := Empty) (R := Empty) hsize c
  cases hd with
  | all later taken =>
    refine ⟨0, { c with outgoing := later, sent := c.sent ++ goodbye }, goodbye.length,
      hy.bind ?_, rfl, ?_⟩
    · simp only [ite_self]
      exact Yields.ret _ _
    · rw [List.take_length]
  | failed e k later early => exact ⟨e.code, _, k, hy.bind (Yields.ret _ _), rfl, rfl⟩

/-- After this command `main` sends PA_GOODBYE, as far as the connection takes it, and
nothing else, whatever was still to be entered. -/
def SaysGoodbye (cmd : Command) (c : Conn Errno) (x : Reported) (c' : Conn Errno) : Prop :=
  ∀ cmds, ∃ c'' k, (main (cmd :: cmds)).play (m := Id) Empty.elim c = ([x], c'') ∧
    c''.incoming = c'.incoming ∧ c''.sent = c'.sent ++ goodbye.take k

theorem saysGoodbye_of_failure {cmd : Command} {c c' : Conn Errno} {x : Reported}
    (hy : Yields cmd.handle c x c') (hx : x.1 ≠ 0) : SaysGoodbye cmd c x c' := by
  intro cmds
  obtain ⟨ret, c'', k, hbye, hin, hsent⟩ := disconnectFromServer_yields c'
  have hmain : Yields (main (cmd :: cmds)) c [x] c'' := by
    refine hy.bind ?_
    simp only [hx, ne_eq, not_false_eq_true, ↓reduceIte]
    exact hbye.bind (Yields.ret _ _)
  exact ⟨c'', k, hmain Id Empty.elim, hin, hsent⟩

/-- A command succeeds only with a complete exchange, and ends the session without one. -/
structure Reliable (cmd : Command) (q : Query) (c : Conn Errno) (x : Reported)
    (c' : Conn Errno) : Prop where
  success : x.1 = 0 → Complete q c c'
  failure : ¬Complete q c c' → x.1 ≠ 0 ∧ SaysGoodbye cmd c x c'

/-- On every connection, a command is reliable if and only if the server does not shut
down early. -/
theorem command_reliable_iff {cmd : Command} {q : Query} (h : Requests cmd q)
    {c c' : Conn Errno} {x : Reported}
    (hrun : cmd.handle.play (m := Id) Empty.elim c = (x, c')) :
    Reliable cmd q c x c' ↔ ¬ClosesEarly q c := by
  obtain ⟨y, d, hy, ht⟩ := handle_outcome h c
  obtain ⟨rfl, rfl⟩ : y = x ∧ d = c' := by
    have he : (x, c') = (y, d) := hrun.symm.trans (hy Id Empty.elim)
    exact Prod.mk.inj he.symm
  have hfailed : y.1 ≠ 0 → Reliable cmd q c y d := by
    intro hne
    exact ⟨fun h0 => absurd h0 hne, fun _ => ⟨hne, saysGoodbye_of_failure hy hne⟩⟩
  cases ht with
  | unsent e _ early => exact iff_of_true (hfailed e.nonzero) (fun hx => early hx.taken)
  | unread e _ error => exact iff_of_true (hfailed e.nonzero) (fun hx => hx.orderly e error)
  | short _ taken sent missing orderly rest =>
    refine iff_of_false (fun hr => ?_) (fun hn => hn ⟨taken, missing, orderly⟩)
    obtain ⟨image, hlen, himage⟩ := (hr.success rfl).received
    rw [himage, rest, List.append_nil, hlen] at missing
    exact Nat.lt_irrefl _ missing
  | whole r _ sent size read rest =>
    have hcomplete : Complete q c d := by
      refine ⟨sent, _, List.length_take_of_le size, ?_⟩
      rw [rest, List.take_append_drop]
    refine iff_of_true ⟨fun _ => hcomplete, fun hn => absurd hcomplete hn⟩ ?_
    intro hx
    exact Nat.not_le.mpr hx.missing size

/-- A REMOVE of user 5, answered by four bytes. -/
theorem command_reliable_remove : ∃ x c',
    (Command.del 5).handle.play (m := Id) Empty.elim ⟨[.data 0 [0, 0, 0]], [], []⟩ = (x, c') ∧
    Reliable (.del 5) (.remove ⟨5⟩) ⟨[.data 0 [0, 0, 0]], [], []⟩ x c' := by
  refine ⟨_, _, rfl, (command_reliable_iff (.del 5) rfl).mpr ?_⟩
  intro hx
  exact absurd hx.missing (by decide)

/-- The server closes without an answer, and the command succeeds. -/
theorem early_close_succeeds : ∃ c',
    (Command.del 5).handle.play (m := Id) Empty.elim ⟨[], [], []⟩ = ((0, none), c') ∧
    ¬Reliable (.del 5) (.remove ⟨5⟩) ⟨[], [], []⟩ (0, none) c' := by
  refine ⟨_, rfl, ?_⟩
  intro h
  obtain ⟨image, hlen, himage⟩ := (h.success rfl).received
  have hnil : image = [] := (List.append_eq_nil_iff.mp himage.symm).1
  rw [hnil] at hlen
  exact absurd hlen (by decide)

end PowerArbiter
