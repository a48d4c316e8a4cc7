import PowerArbiter.PAController

namespace PowerArbiter.PAController
open Wire

def INPUT_SIZE : Nat := 30

/-- Standard input: what is left of it, and whether an error comes after that instead of the
end of the file. Every `Char` is one byte. -/
structure Stdin where
  text : List Char
  broken : Bool

/-- Up to `n` characters, and no further than to the end of a line. -/
def scanLine : Nat → List Char → List Char × List Char
  | 0, text => ([], text)
  | _, [] => ([], [])
  | n + 1, c :: text =>
    if c = '\n' then ([c], text)
    else
      let (line, rest) := scanLine n text
      (c :: line, rest)

/-- `fgets` into a buffer of this size. Nothing stands for `NULL`: the end of the file came first,
or an error did before the line was complete. -/
def fgets (size : Nat) (s : Stdin) : Option (List Char) × Stdin :=
  let (line, rest) := scanLine (size - 1) s.text
  let stopped := line.length < size - 1 ∧ line.getLast? ≠ some '\n'
  (if stopped ∧ (s.broken ∨ line = []) then none else some line, { s with text := rest })

/-- The string in a buffer after `chomp`: up to a null character or a newline. -/
def chomp (str : List Char) : List Char := str.takeWhile fun c => c ≠ '\x00' ∧ c ≠ '\n'

def isSpace (c : Char) : Bool := c = ' ' ∨ ('\t' ≤ c ∧ c ≤ '\r')

/-- The value of the digits at the front. -/
def digitsValue (str : List Char) : Nat :=
  (str.takeWhile Char.isDigit).foldl (fun n c => 10 * n + (c.toNat - '0'.toNat)) 0

/-- A `long` has 32 bits, and values beyond it become the last within. -/
def clampLong (z : Int) : Long :=
  if z < -0x80000000 then -0x80000000 else if 0x7fffffff < z then 0x7fffffff else .ofInt z

/-- `atol`, and `atoi`, which is the same for a `long` of this size. -/
def atol (str : List Char) : Long :=
  match str.dropWhile isSpace with
  | '-' :: digits => clampLong (-digitsValue digits)
  | '+' :: digits => clampLong (digitsValue digits)
  | digits => clampLong (digitsValue digits)

/-- A number for the buffer `amount_str`. -/
def readAmount (s : Stdin) : Option Long × Stdin :=
  let (line, s) := fgets 22 s
  (line.map atol, s)

/-- What the handlers of `del`, `get` and `connect` ask for. Without it they return -EINVAL. -/
def readUid (command : Uid → Command) (s : Stdin) : Option Command × Stdin :=
  let (uid, s) := readAmount s
  (uid.map fun uid => command uid.toUInt32, s)

/-- What the handlers of `add` and `set` ask for. A negative value is refused before the type is
asked for. -/
def readMapping (command : Uid → Long → List Char → Command) (s : Stdin) :
    Option Command × Stdin :=
  match readAmount s with
  | (none, s) => (none, s)
  | (some uid, s) =>
    match readAmount s with
    | (none, s) => (none, s)
    | (some tapValue, s) =>
      if tapValue < 0 then
        (some (command uid.toUInt32 tapValue []), s)
      else
        let (input, s) := fgets 22 s
        (input.map fun input => command uid.toUInt32 tapValue (chomp input), s)

/-- System calls of the client itself. -/
inductive KernelCall where
  | numReserves
  | getReserve (index : Long)
  | putReserve (reserveId : Long)
  | reserveInfo (reserveId : Long)

abbrev Console (α : Type) := Talk Errno KernelCall Long α

/-- The loop of `handle_list_reserves` from `index` on, `n` times. -/
def listReserves : Long → Nat → Console (List Long)
  | _, 0 => return []
  | index, n + 1 => .ask (.getReserve index) fun reserve => do
    return reserve :: (← listReserves (index + 1) n)

/-- The return code, and the ids that are printed. -/
def handleListReserves : Console (Long × List Long) :=
  .ask .numReserves fun num => do
    if num < 0 then
      return (num, [])
    return (0, ← listReserves 0 num.toNatClampNeg)

/-- `handle_put_reserve` and `handle_info_reserve`: one system call for the id in a buffer of
twelve. -/
def handleReserve (call : Long → KernelCall) (s : Stdin) : Console Long × Stdin :=
  match fgets 12 s with
  | (none, s) => (return -EINVAL, s)
  | (some id, s) => (.ask (call (atol id)) fun ret => return ret, s)

/-- A handler with its input; there may be none. -/
def handled : Option Command → Client Reported
  | none => return (-EINVAL, none)
  | some command => command.handle

/-- What `main` does for a line. -/
inductive Order where
  | request (read : Stdin → Option Command × Stdin)
  | kernel (handle : Stdin → Console Unit × Stdin)
  | nothing

/-- The comparisons of `main`. -/
def orderOf (input : List Char) : Order :=
  if input = ['a', 'd', 'd'] then .request (readMapping .add)
  else if input = ['d', 'e', 'l'] then .request (readUid .del)
  else if input = ['g', 'e', 't'] then .request (readUid .get)
  else if input = ['s', 'e', 't'] then .request (readMapping .set)
  else if input = ['c', 'o', 'n', 'n', 'e', 'c', 't'] then .request (readUid .connect)
  else if input = ['l', 'i', 's', 't'] then .kernel fun s => (do let _ ← handleListReserves, s)
  else if input = ['p', 'u', 't'] then .kernel fun s =>
    let (handle, s) := handleReserve .putReserve s
    (do let _ ← handle, s)
  else if input = ['i', 'n', 'f', 'o'] then .kernel fun s =>
    let (handle, s) := handleReserve .reserveInfo s
    (do let _ ← handle, s)
  else .nothing

/-- The loop of `main`: what the handlers that use the connection return, until one has failed or
there is no more input. -/
def console : Nat → Stdin → Console (List Reported)
  | 0, _ => return []
  | turns + 1, s =>
    match fgets INPUT_SIZE s with
    | (none, _) => return []
    | (some input, s) =>
      match orderOf (chomp input) with
      | .nothing => console turns s
      | .kernel handle => do
        (handle s).1
        console turns (handle s).2
      | .request read => do
        let reported ← (handled (read s).1).among
        if reported.1 ≠ 0 then
          let _ ← disconnectFromServer.among
          return [reported]
        return reported :: (← console turns (read s).2)

end PowerArbiter.PAController
