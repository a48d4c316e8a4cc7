import PowerArbiter.Wire.Codec

namespace Wire

/-- A program at one end of a byte stream. A `recv` answered by no bytes found that
the other end has shut down, a `send` is answered by the number of bytes taken, and
`ask` is a request to what the program is the front of. -/
inductive Talk (E Q R α : Type) : Type where
  | ret (a : α)
  | recv (len : Nat) (k : Except E (List Byte) → Talk E Q R α)
  | send (bytes : List Byte) (k : Except E Nat → Talk E Q R α)
  | ask (q : Q) (k : R → Talk E Q R α)

/-- What a call of `recv` finds: bytes, at least one of them, or an error. -/
inductive Arrival (E : Type) where
  | data (first : Byte) (rest : List Byte)
  | error (e : E)

/-- What a call of `send` meets: room for one byte and `more`, or an error. -/
inductive Departure (E : Type) where
  | room (more : Nat)
  | error (e : E)

/-- One end of a connection, with the answers of all coming calls. After the last
arrival the other end has shut down; after the last departure there is room for all. -/
structure Conn (E : Type) where
  incoming : List (Arrival E)
  outgoing : List (Departure E)
  sent : List Byte

variable {E Q R α β γ : Type}

/-- Bytes that were not asked for are there for the next call. -/
def putBack : List Byte → List (Arrival E) → List (Arrival E)
  | [], later => later
  | b :: bs, later => .data b bs :: later

/-- All bytes that arrive before the first error. -/
def stream : List (Arrival E) → List Byte
  | [] => []
  | .data b bs :: later => b :: (bs ++ stream later)
  | .error _ :: _ => []

namespace Conn

def recv (c : Conn E) (len : Nat) : Except E (List Byte) × Conn E :=
  match c.incoming with
  | [] => (.ok [], c)
  | .error e :: later => (.error e, { c with incoming := later })
  | .data b bs :: later => (.ok ((b :: bs).take len),
      { c with incoming := putBack ((b :: bs).drop len) later })

def send (c : Conn E) (bytes : List Byte) : Except E Nat × Conn E :=
  match c.outgoing with
  | [] => (.ok bytes.length, { c with sent := c.sent ++ bytes })
  | .error e :: later => (.error e, { c with outgoing := later })
  | .room more :: later => (.ok (min (more + 1) bytes.length),
      { c with outgoing := later, sent := c.sent ++ bytes.take (more + 1) })

/-- No call fails. -/
structure Smooth (c : Conn E) : Prop where
  incoming : ∀ e, .error e ∉ c.incoming
  outgoing : ∀ e, .error e ∉ c.outgoing

end Conn

namespace Talk

def bind : Talk E Q R α → (α → Talk E Q R β) → Talk E Q R β
  | .ret a, f => f a
  | .recv len k, f => .recv len (fun x => (k x).bind f)
  | .send bytes k, f => .send bytes (fun x => (k x).bind f)
  | .ask q k, f => .ask q (fun r => (k r).bind f)

instance : Monad (Talk E Q R) where
  pure := .ret
  bind := .bind

@[simp] theorem pure_eq (a : α) : (pure a : Talk E Q R α) = .ret a := rfl
@[simp] theorem bind_eq (t : Talk E Q R α) (f : α → Talk E Q R β) : t >>= f = t.bind f := rfl
@[simp] theorem ret_bind (a : α) (f : α → Talk E Q R β) : (Talk.ret a).bind f = f a := rfl

theorem bind_assoc (t : Talk E Q R α) (f : α → Talk E Q R β) (g : β → Talk E Q R γ) :
    (t.bind f).bind g = t.bind (fun a => (f a).bind g) := by
  induction t with
  | ret a => rfl
  | recv len k ih => simp only [bind, ih]
  | send bytes k ih => simp only [bind, ih]
  | ask q k ih => simp only [bind, ih]

/-- What it comes to when its calls of `recv` return `xs` in turn and it makes no others. -/
def fed : Talk E Q R α → List (Except E (List Byte)) → Option α
  | .ret a, [] => some a
  | .recv _ k, x :: xs => (k x).fed xs
  | _, _ => none

/-- What goes out when a call of `send` returns. -/
def gone (bytes : List Byte) : Except E Nat → List Byte
  | .error _ => []
  | .ok n => bytes.take n

/-- What goes out and what it comes to when its calls of `send` return `xs` in turn and
it makes no others. -/
def drained : Talk E Q R α → List (Except E Nat) → Option (List Byte × α)
  | .ret a, [] => some ([], a)
  | .send bytes k, x :: xs => ((k x).drained xs).map (fun r => (gone bytes x ++ r.1, r.2))
  | _, _ => none

/-- The same among programs that make requests. -/
def among : Talk E Empty Empty α → Talk E Q R α
  | .ret a => .ret a
  | .recv len k => .recv len (fun x => (k x).among)
  | .send bytes k => .send bytes (fun x => (k x).among)
  | .ask q _ => q.elim

section Play

variable {m : Type → Type} [Monad m] (serve : Q → m R)

/-- Run on a connection, with the requests served in turn. -/
def play : Talk E Q R α → Conn E → m (α × Conn E)
  | .ret a, c => pure (a, c)
  | .recv len k, c => (k (c.recv len).1).play (c.recv len).2
  | .send bytes k, c => (k (c.send bytes).1).play (c.send bytes).2
  | .ask q k, c => do
    let r ← serve q
    (k r).play c

@[simp] theorem play_ret (a : α) (c : Conn E) :
    (Talk.ret a : Talk E Q R α).play serve c = pure (a, c) := rfl

theorem play_bind [LawfulMonad m] (t : Talk E Q R α) (f : α → Talk E Q R β) (c : Conn E) :
    (t.bind f).play serve c = t.play serve c >>= fun x => (f x.1).play serve x.2 := by
  induction t generalizing c with
  | ret a => simp [Talk.bind]
  | recv len k ih => exact ih _ _
  | send bytes k ih => exact ih _ _
  | ask q k ih => simp only [Talk.bind, play, LawfulMonad.bind_assoc, ih]

/-- What makes no requests runs alike wherever it is run. -/
theorem play_among (t : Talk E Empty Empty α) (c : Conn E) :
    (t.among : Talk E Q R α).play serve c = pure (t.play (m := Id) Empty.elim c) := by
  induction t generalizing c with
  | ret a => rfl
  | recv len k ih => exact ih _ _
  | send bytes k ih => exact ih _ _
  | ask q k ih => exact q.elim

end Play

end Talk

end Wire
