import PowerArbiter.Records
import PowerArbiter.Wire.Talk

namespace PowerArbiter
open Wire

variable {Q R : Type}

/-- `buf` is what was placed in the buffer so far. The calls of a loop number at most as many as
the bytes to transfer, so that many iterations are allowed. A `size_t` is 32 bits wide. -/
def streamsockRead.loop (toRead : UInt64) : Nat → UInt64 → UInt64 → List Byte →
    Talk Errno Q R (Except Int32 (UInt64 × List Byte))
  | 0, rcvd, _, buf => .ret (.ok (rcvd, buf))
  | calls + 1, rcvd, remaining, buf =>
    if rcvd < toRead then
      .recv remaining.toUInt32.toNat fun
        | .error errno => .ret (.error errno.code)
        -- orderly shutdown
        | .ok [] => .ret (.ok (rcvd, buf))
        | .ok bytes => loop toRead calls (rcvd + .ofNat bytes.length)
            (remaining - .ofNat bytes.length) (buf ++ bytes)
    else
      .ret (.ok (rcvd, buf))

/-- The error code, or `*num_bytes_read` and what the buffer received. The arbiter and the
controller have a copy each. -/
def streamsockRead (bufsiz toRead : UInt64) : Talk Errno Q R (Except Int32 (UInt64 × List Byte)) :=
  if toRead > bufsiz then .ret (.error (-EINVAL))
  else streamsockRead.loop toRead toRead.toNat 0 toRead []

/-- `buf` is what `buf_offset` points at. -/
def streamsockSend.loop (toSend : UInt64) : Nat → UInt64 → UInt64 → List Byte →
    Talk Errno Q R (Except Int32 UInt64)
  | 0, sent, _, _ => .ret (.ok sent)
  | calls + 1, sent, remaining, buf =>
    if sent < toSend then
      .send (buf.take remaining.toUInt32.toNat) fun
        | .error errno => .ret (.error errno.code)
        | .ok n => loop toSend calls (sent + .ofNat n) (remaining - .ofNat n) (buf.drop n)
    else
      .ret (.ok sent)

/-- The error code, or `*num_bytes_sent`. -/
def streamsockSend (buf : List Byte) (toSend : UInt64) : Talk Errno Q R (Except Int32 UInt64) :=
  streamsockSend.loop toSend toSend.toNat 0 toSend buf

end PowerArbiter
