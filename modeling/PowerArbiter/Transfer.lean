import PowerArbiter.Sock
import PowerArbiter.Monitor.Run

namespace PowerArbiter
open Monitor Wire

/-- What `recv` can return when it is asked for `size` bytes: a failure, or some of them,
and none at an orderly shutdown. -/
def RecvFits (size : UInt32) : Except Errno (List Byte) → Prop
  | .error _ => True
  | .ok bytes => bytes.length ≤ size.toNat

/-- What `send` can return when it is given `size` bytes. -/
def SendFits (size : UInt32) : Except Errno Nat → Prop
  | .error _ => True
  | .ok n => 1 ≤ n ∧ n ≤ size.toNat

instance (size : UInt32) (x : Except Errno (List Byte)) : Decidable (RecvFits size x) :=
  match x with
  | .error _ => isTrue trivial
  | .ok bytes => inferInstanceAs (Decidable (bytes.length ≤ size.toNat))

instance (size : UInt32) (x : Except Errno Nat) : Decidable (SendFits size x) :=
  match x with
  | .error _ => isTrue trivial
  | .ok n => inferInstanceAs (Decidable (1 ≤ n ∧ n ≤ size.toNat))

def overwrite (memory : Nat → Byte) (offset : Nat) (bytes : List Byte) : Nat → Byte :=
  fun i => if i < offset then memory i else bytes.getD (i - offset) (memory i)

/-- The variables of `streamsock_read`, with the memory that its buffer is in, and what it has
returned. Addresses are counted from `buf`. -/
structure Reading where
  rcvd : UInt64
  remaining : UInt64
  bufOffset : Nat
  memory : Nat → Byte
  numBytesRead : UInt64
  ret : Option Int32

namespace Reading

/-- After the loop. -/
def leave (s : Reading) : Reading := { s with numBytesRead := s.rcvd, ret := some 0 }

/-- The condition of the loop. -/
def test (toRead : UInt64) (s : Reading) : Reading := if s.rcvd < toRead then s else s.leave

def enter (bufsiz toRead : UInt64) (memory : Nat → Byte) (numBytesRead : UInt64) : Reading :=
  if toRead > bufsiz then ⟨0, toRead, 0, memory, numBytesRead, some (-EINVAL)⟩
  else test toRead ⟨0, toRead, 0, memory, numBytesRead, none⟩

def store (s : Reading) (bytes : List Byte) : Reading := { s with
  memory := overwrite s.memory s.bufOffset bytes
  rcvd := s.rcvd + .ofNat bytes.length
  remaining := s.remaining - .ofNat bytes.length
  bufOffset := s.bufOffset + bytes.length }

/-- The body of the loop from the return of `recv` on. -/
def iterate (toRead : UInt64) (s : Reading) : Except Errno (List Byte) → Reading
  | .error errno => { s with ret := some errno.code }
  -- orderly shutdown
  | .ok [] => s.leave
  | .ok (b :: bs) => (s.store (b :: bs)).test toRead

def Step (toRead : UInt64) (s : Reading) (x : Except Errno (List Byte)) (s' : Reading) : Prop :=
  s.ret = none ∧ RecvFits s.remaining.toUInt32 x ∧ s' = s.iterate toRead x

/-- What the caller has after the return. -/
def outcome (s : Reading) (code : Int32) : Except Int32 (UInt64 × List Byte) :=
  if code = 0 then .ok (s.numBytesRead, (List.range s.rcvd.toNat).map s.memory) else .error code

end Reading

/-- The variables of `streamsock_send`, what has gone out, and what it has returned. -/
structure Sending where
  sent : UInt64
  remaining : UInt64
  bufOffset : Nat
  output : List Byte
  numBytesSent : UInt64
  ret : Option Int32

namespace Sending

def test (toSend : UInt64) (s : Sending) : Sending :=
  if s.sent < toSend then s else { s with numBytesSent := s.sent, ret := some 0 }

def enter (toSend : UInt64) (numBytesSent : UInt64) : Sending :=
  test toSend ⟨0, toSend, 0, [], numBytesSent, none⟩

def take (buf : Nat → Byte) (s : Sending) (n : Nat) : Sending := { s with
  output := s.output ++ (List.range n).map (fun i => buf (s.bufOffset + i))
  sent := s.sent + .ofNat n
  remaining := s.remaining - .ofNat n
  bufOffset := s.bufOffset + n }

/-- The body of the loop from the return of `send` on. -/
def iterate (toSend : UInt64) (buf : Nat → Byte) (s : Sending) : Except Errno Nat → Sending
  | .error errno => { s with ret := some errno.code }
  | .ok n => (s.take buf n).test toSend

def Step (toSend : UInt64) (buf : Nat → Byte) (s : Sending) (x : Except Errno Nat)
    (s' : Sending) : Prop :=
  s.ret = none ∧ SendFits s.remaining.toUInt32 x ∧ s' = s.iterate toSend buf x

def outcome (s : Sending) (code : Int32) : Except Int32 UInt64 :=
  if code = 0 then .ok s.numBytesSent else .error code

end Sending

end PowerArbiter
