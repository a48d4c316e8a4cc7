import Mathlib.Data.List.TakeWhile
import PowerArbiter.Terminal
import PowerArbiter.Proofs.Commands

namespace PowerArbiter.PAController
open Wire

theorem scanLine_append (n : Nat) (text : List Char) :
    (scanLine n text).1 ++ (scanLine n text).2 = text := by
  induction n generalizing text with
  | zero => rfl
  | succ n ih =>
    cases text with
    | nil => rfl
    | cons c text =>
      simp only [scanLine]
      split
      · rfl
      · exact congrArg (c :: ·) (ih text)

/-- A line that fits is read with its newline. -/
theorem scanLine_line {n : Nat} {line rest : List Char} (hline : '\n' ∉ line)
    (hn : line.length < n) : scanLine n (line ++ '\n' :: rest) = (line ++ ['\n'], rest) := by
  induction line generalizing n with
  | nil =>
    cases n with
    | zero => simp at hn
    | succ n => simp [scanLine]
  | cons c line ih =>
    cases n with
    | zero => simp at hn
    | succ n =>
      simp only [List.mem_cons, not_or] at hline
      simp only [List.cons_append, scanLine, Ne.symm hline.1, if_false,
        ih hline.2 (by simpa using hn)]

theorem fgets_line {size : Nat} {line rest : List Char} {broken : Bool} (hline : '\n' ∉ line)
    (hsize : line.length + 2 ≤ size) :
    fgets size ⟨line ++ '\n' :: rest, broken⟩ = (some (line ++ ['\n']), ⟨rest, broken⟩) := by
  simp only [fgets, scanLine_line hline (show line.length < size - 1 by omega)]
  simp

/-- No text comes back, and what is read is taken off it. -/
theorem fgets_le (size : Nat) (s : Stdin) : (fgets size s).2.text.length ≤ s.text.length := by
  have := congrArg List.length (scanLine_append (size - 1) s.text)
  rw [List.length_append] at this
  simp only [fgets]
  omega

theorem fgets_lt {size : Nat} (hsize : 2 ≤ size) {s t : Stdin} {line : List Char}
    (h : fgets size s = (some line, t)) : t.text.length < s.text.length := by
  have hlen := congrArg List.length (scanLine_append (size - 1) s.text)
  simp only [fgets, Prod.mk.injEq] at h
  obtain ⟨hline, rfl⟩ := h
  rw [List.length_append] at hlen
  cases hr : (scanLine (size - 1) s.text).1 with
  | cons c cs =>
    rw [hr, List.length_cons] at hlen
    show (scanLine (size - 1) s.text).2.length < s.text.length
    omega
  | nil =>
    rw [hr] at hline
    simp [show 0 < size - 1 by omega] at hline

theorem readAmount_le (s : Stdin) : (readAmount s).2.text.length ≤ s.text.length := fgets_le 22 s

theorem readUid_le (command : Uid → Command) (s : Stdin) :
    (readUid command s).2.text.length ≤ s.text.length := readAmount_le s

theorem readMapping_le (command : Uid → Long → List Char → Command) (s : Stdin) :
    (readMapping command s).2.text.length ≤ s.text.length := by
  have huid := readAmount_le s
  simp only [readMapping]
  split
  · rename_i t h
    rwa [h] at huid
  · rename_i uid t h
    rw [h] at huid
    have hvalue := readAmount_le t
    split
    · rename_i u h
      rw [h] at hvalue
      exact Nat.le_trans hvalue huid
    · rename_i value u h
      rw [h] at hvalue
      split
      · exact Nat.le_trans hvalue huid
      · exact Nat.le_trans (fgets_le 22 u) (Nat.le_trans hvalue huid)

/-- What an order leaves of the input. -/
def Order.rest : Order → Stdin → Stdin
  | .request read, s => (read s).2
  | .kernel handle, s => (handle s).2
  | .nothing, s => s

theorem orderOf_le (input : List Char) (s : Stdin) :
    ((orderOf input).rest s).text.length ≤ s.text.length := by
  have hreserve : ∀ call, (handleReserve call s).2.text.length ≤ s.text.length := by
    intro call
    have := fgets_le 12 s
    simp only [handleReserve]
    split <;> rename_i h <;> rwa [h] at this
  simp only [orderOf]
  repeat' split
  · exact readMapping_le _ s
  · exact readUid_le _ s
  · exact readUid_le _ s
  · exact readMapping_le _ s
  · exact readUid_le _ s
  · exact Nat.le_refl _
  · exact hreserve _
  · exact hreserve _
  · exact Nat.le_refl _

/-- The commands for the arbiter in a text; nothing stands for one that is given up. -/
def commandsOf : Nat → Stdin → List (Option Command)
  | 0, _ => []
  | turns + 1, s =>
    match fgets INPUT_SIZE s with
    | (none, _) => []
    | (some input, s) =>
      match orderOf (chomp input) with
      | .nothing => commandsOf turns s
      | .kernel handle => commandsOf turns (handle s).2
      | .request read => (read s).1 :: commandsOf turns (read s).2

def Stdin.commands (s : Stdin) : List (Option Command) := commandsOf (s.text.length + 1) s

/-- The loop of `main` over commands that may be given up. -/
def mainOf : List (Option Command) → Client (List Reported)
  | [] => return []
  | cmd :: cmds => do
    let reported ← handled cmd
    if reported.1 ≠ 0 then
      let _ ← disconnectFromServer
      return [reported]
    return reported :: (← mainOf cmds)

theorem mainOf_some (cmds : List Command) : mainOf (cmds.map some) = main cmds := by
  induction cmds with
  | nil => rfl
  | cons cmd cmds ih => simp only [List.map_cons, mainOf, main, handled, ih]

/-- More turns than there is text make no difference. -/
theorem commandsOf_eq {n k : Nat} {s : Stdin} (hn : s.text.length < n) (hk : s.text.length < k) :
    commandsOf n s = commandsOf k s := by
  induction n generalizing k s with
  | zero => exact absurd hn (Nat.not_lt_zero _)
  | succ n ih =>
    cases k with
    | zero => exact absurd hk (Nat.not_lt_zero _)
    | succ k =>
      simp only [commandsOf]
      cases hf : fgets INPUT_SIZE s with
      | mk input t =>
        cases input with
        | none => rfl
        | some input =>
          have hlt := fgets_lt (by decide) hf
          have hle := orderOf_le (chomp input) t
          dsimp only
          cases ho : orderOf (chomp input) with
          | nothing => exact ih (by omega) (by omega)
          | kernel handle =>
            rw [ho] at hle
            simp only [Order.rest] at hle
            exact ih (by omega) (by omega)
          | request read =>
            rw [ho] at hle
            simp only [Order.rest] at hle
            exact congrArg ((read t).1 :: ·) (ih (by omega) (by omega))

section Play

variable {m : Type → Type} [Monad m] [LawfulMonad m] (serve : KernelCall → m Long)

/-- The program leaves the connection alone. -/
def Aside {α : Type} (t : Console α) : Prop :=
  ∀ c, ∃ k : m α, t.play serve c = k >>= fun a => pure (a, c)

variable {serve} {α β : Type}

theorem Aside.ret (a : α) : Aside serve (Talk.ret a : Console α) := fun c => ⟨pure a, by simp⟩

theorem Aside.bind {t : Console α} {f : α → Console β} (h : Aside serve t)
    (hf : ∀ a, Aside serve (f a)) : Aside serve (t >>= f) := by
  intro c
  obtain ⟨k, hk⟩ := h c
  choose ks hks using fun a => hf a c
  refine ⟨k >>= ks, ?_⟩
  rw [Talk.bind_eq, Talk.play_bind, hk]
  simp [hks]

theorem Aside.ask (call : KernelCall) {f : Long → Console α} (hf : ∀ r, Aside serve (f r)) :
    Aside serve (.ask call f) := by
  intro c
  choose ks hks using fun a => hf a c
  refine ⟨serve call >>= ks, ?_⟩
  simp [Talk.play, hks]

theorem listReserves_aside (index : Long) (n : Nat) : Aside serve (listReserves index n) := by
  induction n generalizing index with
  | zero => exact .ret _
  | succ n ih => exact .ask _ fun reserve => (ih _).bind fun _ => .ret _

theorem handleReserve_aside (call : Long → KernelCall) (s : Stdin) :
    Aside serve (handleReserve call s).1 := by
  simp only [handleReserve]
  split
  · exact .ret _
  · exact .ask _ fun _ => .ret _

variable (serve) in
theorem orderOf_aside {input : List Char} {handle : Stdin → Console Unit × Stdin}
    (h : orderOf input = .kernel handle) (s : Stdin) : Aside serve (handle s).1 := by
  simp only [orderOf] at h
  repeat' split at h
  all_goals cases h
  · refine Aside.bind (.ask _ fun num => ?_) fun _ => .ret _
    split
    · exact .ret _
    · exact (listReserves_aside _ _).bind fun _ => .ret _
  · exact (handleReserve_aside _ s).bind fun _ => .ret _
  · exact (handleReserve_aside _ s).bind fun _ => .ret _

/-- What the client comes to on a connection, and what is left of that. -/
abbrev played {α : Type} (t : Client α) (c : Conn Errno) : α × Conn Errno :=
  t.play (m := Id) Empty.elim c

omit [LawfulMonad m] in
theorem played_bind (t : Client α) (f : α → Client β) (c : Conn Errno) :
    played (t >>= f) c = played (f (played t c).1) (played t c).2 := Talk.play_bind _ t f c

theorem play_among_bind (t : Client α) (f : α → Console β) (c : Conn Errno) :
    ((t.among : Console α) >>= f).play serve c =
      (f (played t c).1).play serve (played t c).2 := by
  rw [Talk.bind_eq, Talk.play_bind, Talk.play_among, pure_bind]

variable (serve) in
/-- On the connection the client does what the commands in its text ask for, whatever is typed
and whatever the kernel answers. -/
theorem console_play (n : Nat) (s : Stdin) (c : Conn Errno) :
    ∃ k : m Unit, (console n s).play serve c =
      k >>= fun _ => pure (played (mainOf (commandsOf n s)) c) := by
  induction n generalizing s c with
  | zero => exact ⟨pure (), by rw [pure_bind]; rfl⟩
  | succ n ih =>
    simp only [console, commandsOf]
    cases hf : fgets INPUT_SIZE s with
    | mk input t =>
      cases input with
      | none => exact ⟨pure (), by rw [pure_bind]; rfl⟩
      | some input =>
        dsimp only
        cases ho : orderOf (chomp input) with
        | nothing => exact ih t c
        | kernel handle =>
          obtain ⟨k, hk⟩ := orderOf_aside serve ho t c
          obtain ⟨k', hk'⟩ := ih (handle t).2 c
          refine ⟨k >>= fun _ => k', ?_⟩
          dsimp only
          rw [Talk.bind_eq, Talk.play_bind, hk]
          simp [hk']
        | request read =>
          dsimp only
          rw [play_among_bind, mainOf, played_bind]
          generalize hx : played (handled (read t).1) c = x
          split
          · refine ⟨pure (), ?_⟩
            rw [play_among_bind, played_bind, pure_bind]
            rfl
          · obtain ⟨k, hk⟩ := ih (read t).2 x.2
            refine ⟨k, ?_⟩
            rw [Talk.bind_eq, Talk.play_bind, hk, played_bind]
            simp only [bind_assoc, pure_bind]
            rfl

end Play

theorem chomp_line {line : List Char} (hline : '\n' ∉ line) (hnul : '\x00' ∉ line) :
    chomp (line ++ ['\n']) = line := by
  have hall : ∀ c ∈ line, decide (c ≠ '\x00' ∧ c ≠ '\n') = true := by
    intro c hc
    simp only [decide_eq_true_eq]
    exact ⟨fun he => hnul (he ▸ hc), fun he => hline (he ▸ hc)⟩
  rw [chomp, List.takeWhile_append_of_pos hall]
  simp

theorem digitsValue_newline (digits : List Char) :
    digitsValue (digits ++ ['\n']) = digitsValue digits := by
  have htake : (digits ++ ['\n']).takeWhile Char.isDigit = digits.takeWhile Char.isDigit := by
    rw [List.takeWhile_append]
    split
    · rename_i h
      rw [(List.takeWhile_prefix Char.isDigit).eq_of_length h]
      exact List.append_nil digits
    · rfl
  rw [digitsValue, htake, digitsValue]

/-- The newline that is read with a number does not matter. -/
theorem atol_newline (line : List Char) : atol (line ++ ['\n']) = atol line := by
  cases h : line.dropWhile isSpace with
  | nil =>
    have hboth : (line ++ ['\n']).dropWhile isSpace = [] := by
      rw [List.dropWhile_append, h]
      rfl
    rw [atol, hboth, atol, h]
  | cons c digits =>
    have hboth : (line ++ ['\n']).dropWhile isSpace = c :: (digits ++ ['\n']) := by
      rw [List.dropWhile_append, h]
      rfl
    rw [atol, hboth, atol, h]
    by_cases hm : c = '-'
    · subst hm
      simp only [digitsValue_newline]
    · by_cases hp : c = '+'
      · subst hp
        simp only [digitsValue_newline]
      · have := digitsValue_newline (c :: digits)
        rw [List.cons_append] at this
        simp [hm, hp, this]

/-- A line for a buffer of 22: there is room for it, its newline and the null character. -/
structure Fits (line : List Char) : Prop where
  newline : '\n' ∉ line
  null : '\x00' ∉ line
  short : line.length ≤ 20

instance (line : List Char) : Decidable (Fits line) :=
  decidable_of_iff ('\n' ∉ line ∧ '\x00' ∉ line ∧ line.length ≤ 20)
    ⟨fun h => ⟨h.1, h.2.1, h.2.2⟩, fun h => ⟨h.newline, h.null, h.short⟩⟩

/-- What is typed for a command, line by line. -/
inductive Typed where
  | add (uid tapValue tapType : List Char)
  | del (uid : List Char)
  | get (uid : List Char)
  | set (uid tapValue tapType : List Char)
  | connect (uid : List Char)

namespace Typed

def lines : Typed → List (List Char)
  | .add uid tapValue tapType => [['a', 'd', 'd'], uid, tapValue, tapType]
  | .del uid => [['d', 'e', 'l'], uid]
  | .get uid => [['g', 'e', 't'], uid]
  | .set uid tapValue tapType => [['s', 'e', 't'], uid, tapValue, tapType]
  | .connect uid => [['c', 'o', 'n', 'n', 'e', 'c', 't'], uid]

def text (t : Typed) : List Char := t.lines.flatMap (· ++ ['\n'])

def command : Typed → Command
  | .add uid tapValue tapType => .add (atol uid).toUInt32 (atol tapValue) tapType
  | .del uid => .del (atol uid).toUInt32
  | .get uid => .get (atol uid).toUInt32
  | .set uid tapValue tapType => .set (atol uid).toUInt32 (atol tapValue) tapType
  | .connect uid => .connect (atol uid).toUInt32

/-- Nothing is too long, and a type is asked for. -/
def Accepted (t : Typed) : Prop :=
  (∀ line ∈ t.lines, PAController.Fits line) ∧
    match t with
    | .add _ tapValue _ | .set _ tapValue _ => ¬atol tapValue < 0
    | _ => True

end Typed

theorem lines_text (line : List Char) (lines : List (List Char)) (rest : List Char) :
    (line :: lines).flatMap (· ++ ['\n']) ++ rest =
      line ++ '\n' :: (lines.flatMap (· ++ ['\n']) ++ rest) := by
  simp

section Typed

variable {line rest : List Char} {broken : Bool}

theorem readAmount_line (h : Fits line) :
    readAmount ⟨line ++ '\n' :: rest, broken⟩ = (some (atol line), ⟨rest, broken⟩) := by
  simp only [readAmount, fgets_line h.newline (Nat.add_le_add_right h.short 2), Option.map_some,
    atol_newline]

theorem readUid_lines (command : Uid → Command) {uid : List Char} (h : Fits uid) :
    readUid command ⟨[uid].flatMap (· ++ ['\n']) ++ rest, broken⟩ =
      (some (command (atol uid).toUInt32), ⟨rest, broken⟩) := by
  rw [lines_text, readUid, readAmount_line h]
  rfl

theorem readMapping_lines (command : Uid → Long → List Char → Command)
    {uid tapValue tapType : List Char} (huid : Fits uid) (hvalue : Fits tapValue)
    (htype : Fits tapType) (hnonneg : ¬atol tapValue < 0) :
    readMapping command ⟨[uid, tapValue, tapType].flatMap (· ++ ['\n']) ++ rest, broken⟩ =
      (some (command (atol uid).toUInt32 (atol tapValue) tapType), ⟨rest, broken⟩) := by
  rw [lines_text, lines_text, lines_text]
  simp only [readMapping, readAmount_line huid, readAmount_line hvalue, hnonneg, if_false,
    fgets_line htype.newline (Nat.add_le_add_right htype.short 2), Option.map_some,
    chomp_line htype.newline htype.null]
  rfl

theorem commandsOf_request {word : List Char} {lines : List (List Char)} {cmd : Option Command}
    {read : Stdin → Option Command × Stdin} (hword : Fits word)
    (horder : orderOf word = .request read)
    (hread : read ⟨lines.flatMap (· ++ ['\n']) ++ rest, broken⟩ = (cmd, ⟨rest, broken⟩)) (n : Nat) :
    commandsOf (n + 1) ⟨(word :: lines).flatMap (· ++ ['\n']) ++ rest, broken⟩ =
      cmd :: commandsOf n ⟨rest, broken⟩ := by
  have hsize : word.length + 2 ≤ INPUT_SIZE :=
    Nat.le_trans (Nat.add_le_add_right hword.short 2) (by decide)
  rw [lines_text]
  simp only [commandsOf, fgets_line hword.newline hsize, chomp_line hword.newline hword.null,
    horder, hread]

/-- A command that is typed in full is the next of the text. -/
theorem commandsOf_typed {t : Typed} (h : t.Accepted) (n : Nat) :
    commandsOf (n + 1) ⟨t.text ++ rest, broken⟩ =
      some t.command :: commandsOf n ⟨rest, broken⟩ := by
  obtain ⟨hfits, hvalue⟩ := h
  cases t with
  | add uid tapValue tapType =>
    simp only [Typed.lines, List.forall_mem_cons] at hfits
    obtain ⟨hword, huid, htapValue, htapType, -⟩ := hfits
    exact commandsOf_request hword rfl (readMapping_lines _ huid htapValue htapType hvalue) n
  | del uid =>
    simp only [Typed.lines, List.forall_mem_cons] at hfits
    exact commandsOf_request hfits.1 rfl (readUid_lines _ hfits.2.1) n
  | get uid =>
    simp only [Typed.lines, List.forall_mem_cons] at hfits
    exact commandsOf_request hfits.1 rfl (readUid_lines _ hfits.2.1) n
  | set uid tapValue tapType =>
    simp only [Typed.lines, List.forall_mem_cons] at hfits
    obtain ⟨hword, huid, htapValue, htapType, -⟩ := hfits
    exact commandsOf_request hword rfl (readMapping_lines _ huid htapValue htapType hvalue) n
  | connect uid =>
    simp only [Typed.lines, List.forall_mem_cons] at hfits
    exact commandsOf_request hfits.1 rfl (readUid_lines _ hfits.2.1) n

theorem text_pos (t : Typed) : 0 < t.text.length := by
  cases t <;> simp [Typed.text, Typed.lines]

theorem commands_typed {ts : List Typed} (h : ∀ t ∈ ts, t.Accepted) (broken : Bool) :
    Stdin.commands ⟨ts.flatMap Typed.text, broken⟩ = (ts.map Typed.command).map some := by
  induction ts with
  | nil => simp [Stdin.commands, commandsOf, fgets, scanLine, INPUT_SIZE]
  | cons t ts ih =>
    rw [List.forall_mem_cons] at h
    have hpos := text_pos t
    rw [Stdin.commands, List.flatMap_cons, commandsOf_typed h.1, List.map_cons, List.map_cons,
      ← ih h.2]
    refine congrArg (some t.command :: ·) (commandsOf_eq ?_ (Nat.lt_succ_self _))
    simp only [List.length_append]
    omega

theorem digit_plain {c : Char} (h : c.isDigit = true) :
    isSpace c = false ∧ c ≠ '-' ∧ c ≠ '+' := by
  have hne : ∀ d : Char, d.isDigit = false → c ≠ d := by
    intro d hd he
    rw [he, hd] at h
    cases h
  refine ⟨?_, hne _ (by decide), hne _ (by decide)⟩
  simp only [Char.isDigit, Bool.and_eq_true, decide_eq_true_eq] at h
  simp only [isSpace, hne ' ' (by decide), false_or, decide_eq_false_iff_not, not_and]
  intro _ hle
  exact absurd (UInt32.le_trans h.1 hle) (by decide)

theorem clampLong_nat (n : Nat) : (clampLong n).toUInt32.toNat = min n 0x7fffffff := by
  unfold clampLong
  rw [if_neg (by omega)]
  split
  · rw [Nat.min_eq_right (by omega)]
    rfl
  · rw [Nat.min_eq_left (by omega), Int32.ofInt_eq_ofNat]
    show (UInt32.ofNat n).toNat = n
    rw [UInt32.toNat_ofNat']
    omega

/-- A number that is typed in decimal. -/
theorem atol_decimal (n : Nat) : atol (Nat.toDigits 10 n) = clampLong n := by
  have hdigit : ∀ c ∈ Nat.toDigits 10 n, c.isDigit = true := fun c hc =>
    Nat.isDigit_of_mem_toDigits (by decide) (by decide) hc
  have hvalue : digitsValue (Nat.toDigits 10 n) = n := by
    rw [digitsValue, List.takeWhile_eq_self_iff.mpr hdigit]
    exact Nat.ofDigitChars_ten_toDigits
  cases hd : Nat.toDigits 10 n with
  | nil => exact absurd hd Nat.toDigits_ne_nil
  | cons c cs =>
    obtain ⟨hspace, hminus, hplus⟩ := digit_plain (hdigit c (hd ▸ List.mem_cons_self))
    rw [hd] at hvalue
    simp [atol, hspace, hminus, hplus, hvalue]

/-- The line of the user. -/
def Typed.uid : Typed → List Char
  | .add uid _ _ | .del uid | .get uid | .set uid _ _ | .connect uid => uid

/-- The user that a command is about. -/
def Command.uid : Command → Uid
  | .add uid _ _ | .del uid | .get uid | .set uid _ _ | .connect uid => uid

theorem command_uid {t : Typed} {n : Nat} (h : t.uid = Nat.toDigits 10 n) :
    t.command.uid.toNat = min n 0x7fffffff := by
  rw [← clampLong_nat, ← atol_decimal, ← h]
  cases t <;> rfl

/-- Commands that are typed in full are carried out as they are typed, one after the other, with
whatever the kernel answers; but users whose number does not fit into a `long` all become the
same one. -/
theorem typed_carried_out {m : Type → Type} [Monad m] [LawfulMonad m]
    (serve : KernelCall → m Long) {ts : List Typed} (h : ∀ t ∈ ts, t.Accepted) (broken : Bool)
    {turns : Nat} (hturns : (ts.flatMap Typed.text).length < turns) (c : Conn Errno) :
    (∃ k : m Unit, (console turns ⟨ts.flatMap Typed.text, broken⟩).play serve c =
      k >>= fun _ => pure (played (main (ts.map Typed.command)) c)) ∧
    ∀ t ∈ ts, ∀ n, t.uid = Nat.toDigits 10 n →
      t.command.uid.toNat = min n 0x7fffffff := by
  refine ⟨?_, fun t _ n ht => command_uid ht⟩
  obtain ⟨k, hk⟩ := console_play serve turns ⟨ts.flatMap Typed.text, broken⟩ c
  rw [commandsOf_eq hturns (Nat.lt_succ_self _)] at hk
  have hcommands := commands_typed h broken
  rw [Stdin.commands] at hcommands
  rw [hcommands, mainOf_some] at hk
  exact ⟨k, hk⟩

/-- A user is added whose number is 2³², and looked up. -/
def addLarge : List Typed :=
  [.add (Nat.toDigits 10 4294967296) ['5'] ['c'], .get (Nat.toDigits 10 4294967296)]

theorem addLarge_carried_out : ∃ k : Id Unit,
    (console 60 ⟨addLarge.flatMap Typed.text, false⟩).play (m := Id) (fun _ => 0) ⟨[], [], []⟩ =
      (k >>= fun _ => pure (played (main (addLarge.map Typed.command)) ⟨[], [], []⟩)) ∧
    ∀ t ∈ addLarge, t.command.uid.toNat = 0x7fffffff := by
  have haccepted : ∀ t ∈ addLarge, t.Accepted := by
    intro t ht
    simp only [addLarge, List.mem_cons, List.not_mem_nil, or_false] at ht
    rcases ht with rfl | rfl
    · exact ⟨by decide, by decide⟩
    · exact ⟨by decide, trivial⟩
  obtain ⟨⟨k, hk⟩, huid⟩ := typed_carried_out (m := Id) (fun _ => 0) haccepted false
    (show (addLarge.flatMap Typed.text).length < 60 by decide) ⟨[], [], []⟩
  refine ⟨k, hk, fun t ht => huid t ht 4294967296 ?_⟩
  simp only [addLarge, List.mem_cons, List.not_mem_nil, or_false] at ht
  rcases ht with rfl | rfl <;> rfl

end Typed

/-- A send or a receive is going to fail. -/
def Refuses (c : Conn Errno) : Prop := ∃ e, .error e ∈ c.outgoing
def Breaks (c : Conn Errno) : Prop := ∃ e, .error e ∈ c.incoming

/-- The message, or a part of it if the connection refuses the rest. -/
def Portion (refuses : Prop) (message bytes : List Byte) : Prop :=
  bytes <+: message ∧ (bytes = message ∨ refuses)

/-- Between the two the message goes out, and nothing else. -/
structure Emits (message bytes : List Byte) (c c' : Conn Errno) : Prop where
  part : Portion (Refuses c) message bytes
  sent : c'.sent = c.sent ++ bytes
  refuses : Refuses c' → Refuses c
  breaks : Breaks c' → Breaks c

/-- Reading a response sends nothing, and fails with an error only if the connection does. -/
theorem receive_keeps {α : Type} (codec : Codec α) (hlt : codec.sizeof < 4294967296)
    (c : Conn Errno) : ∃ r c', Yields (receive codec) c r c' ∧ Emits [] [] c c' ∧
      (∀ ret, r = .error ret → ret = 0 ∨ Breaks c) := by
  have hsize : (UInt64.ofNat codec.sizeof).toNat < 4294967296 := by
    rw [UInt64.toNat_ofNat']
    omega
  have hread := streamsockRead_gathers (Q := Empty) (R := Empty) hsize c
  have hsends : Emits [] [] c { c with
      incoming := (gather c.incoming (UInt64.ofNat codec.sizeof).toNat).2 } := by
    refine ⟨⟨List.prefix_rfl, .inl rfl⟩, (List.append_nil _).symm, id, fun hb => ?_⟩
    obtain ⟨e, he⟩ := hb
    exact ⟨e, gather_errors he⟩
  cases hg : (gather c.incoming (UInt64.ofNat codec.sizeof).toNat).1 with
  | error e =>
    rw [hg] at hread
    exact ⟨_, _, hread.bind (Yields.ret _ _), hsends, fun _ _ => .inr ⟨e, (gather_error hg).2⟩⟩
  | ok bytes =>
    rw [hg] at hread
    by_cases hcount : UInt64.ofNat ([] ++ bytes).length = .ofNat codec.sizeof
    · refine ⟨.ok (codec.fields ([] ++ bytes)), _, hread.bind ?_, hsends, fun ret h => ?_⟩
      · simp only [readResult, hcount, ne_eq, not_true_eq_false, ↓reduceIte]
        exact Yields.ret _ _
      · cases h
    · refine ⟨.error 0, _, hread.bind ?_, hsends, fun ret h => ?_⟩
      · simp only [readResult, hcount, ne_eq, not_false_eq_true, ↓reduceIte]
        exact Yields.ret _ _
      · cases h
        exact .inl rfl

/-- What one call of `streamsock_send` adds to the bytes that are out. -/
theorem send_adds {buf : List Byte} (hsize : buf.length < 4294967296) (c : Conn Errno) :
    (∃ (e : Errno) (c' : Conn Errno) (bytes : List Byte),
      Yields (streamsockSend buf (.ofNat buf.length) : Client _) c (.error e.code) c' ∧
      Refuses c ∧ Emits buf bytes c c') ∨
    ∃ c', Yields (streamsockSend buf (.ofNat buf.length) : Client _) c
      (.ok (.ofNat buf.length)) c' ∧ Emits buf buf c c' := by
  obtain ⟨r, c', hy, hd⟩ := streamsockSend_delivers (Q := Empty) (R := Empty) hsize c
  cases hd with
  | all later taken =>
    refine .inr ⟨_, hy, ⟨List.prefix_rfl, .inl rfl⟩, rfl, fun hr => ?_, id⟩
    obtain ⟨e, he⟩ := hr
    exact ⟨e, deliver_errors taken he⟩
  | failed e k later early =>
    have hrefuses : Refuses c := ⟨e, deliver_error early⟩
    exact .inl ⟨e, _, _, hy, hrefuses,
      ⟨⟨List.take_prefix _ _, .inr hrefuses⟩, rfl, fun _ => hrefuses, id⟩⟩

theorem Emits.append {c c' c'' : Conn Errno} {message rest bytes : List Byte}
    (h : Emits message message c c') (hrest : Emits rest bytes c' c'') :
    Emits (message ++ rest) (message ++ bytes) c c'' where
  part := ⟨(List.prefix_append_right_inj _).mpr hrest.part.1,
    hrest.part.2.imp (congrArg (message ++ ·)) h.refuses⟩
  sent := by rw [hrest.sent, h.sent, List.append_assoc]
  refuses := h.refuses ∘ hrest.refuses
  breaks := h.breaks ∘ hrest.breaks

/-- A transaction sends its request as far as the connection takes it. If it does not come to a
response, it is for want of one or because the connection has failed. -/
theorem transact_sends {α : Type} (q : Query) (codec : Codec α)
    (hlt : codec.sizeof < 4294967296) (c : Conn Errno) :
    ∃ r c' bytes, Yields (transact q codec) c r c' ∧ Emits q.message bytes c c' ∧
      (bytes = q.message ∨ ∃ e : Errno, r = .error e.code) ∧
      ∀ ret, r = .error ret → ret = 0 ∨ Refuses c ∨ Breaks c := by
  have hrequest : (PARequest.codec.encode ⟨q.requestType⟩).length < 4294967296 :=
    lt_of_eq_of_lt (PARequest.codec.length_encode ⟨q.requestType⟩) (by decide)
  rcases send_adds hrequest c with ⟨e, c₁, bytes, hy₁, hrefuses, hsent₁⟩ | ⟨c₁, hy₁, hsent₁⟩
  · refine ⟨.error e.code, c₁, bytes, hy₁.bind (Yields.ret _ _), ?_, .inr ⟨e, rfl⟩,
      fun _ _ => .inr (.inl hrefuses)⟩
    exact ⟨⟨hsent₁.part.1.trans (List.prefix_append _ _), .inr hrefuses⟩, hsent₁.sent,
      hsent₁.refuses, hsent₁.breaks⟩
  rcases send_adds (encode_length_lt q) c₁ with
    ⟨e, c₂, bytes, hy₂, hrefuses, hsent₂⟩ | ⟨c₂, hy₂, hsent₂⟩
  · refine ⟨.error e.code, c₂, _, hy₁.bind ?_, hsent₁.append hsent₂, .inr ⟨e, rfl⟩,
      fun _ _ => .inr (.inl (hsent₁.refuses hrefuses))⟩
    simp only [ne_eq, not_true_eq_false, ↓reduceIte]
    exact hy₂.bind (Yields.ret _ _)
  have hsent := hsent₁.append hsent₂
  obtain ⟨r₃, c₃, hy₃, hsent₃, hret⟩ := receive_keeps codec hlt c₂
  have hall := hsent.append hsent₃
  rw [List.append_nil] at hall
  refine ⟨r₃, c₃, q.message, hy₁.transact hy₂ hy₃, hall, .inl rfl, fun ret h => ?_⟩
  exact (hret ret h).imp_right fun hb => .inr (hsent.breaks hb)

/-- How a handler that has a request to make comes to its end: it sends this, and if it does not
succeed, the connection has failed or the response does not please it. -/
structure HandlerSends (q : Query) (c : Conn Errno) (x : Reported × Conn Errno)
    (bytes : List Byte) : Prop where
  sends : Emits q.message bytes c x.2
  success : x.1.1 = 0 → bytes = q.message
  failure : x.1.1 ≠ 0 → Refuses c ∨ Breaks c ∨ ∃ r : Response, x.1 = (r.verdict, some r)

theorem transact_bind_sends {α : Type} (q : Query) (codec : Codec α)
    (hlt : codec.sizeof < 4294967296) {f : Except Int32 α → Client Reported}
    (herr : ∀ ret, f (.error ret) = .ret (ret, none))
    (hok : ∀ a, ∃ r : Response, f (.ok a) = .ret (r.verdict, some r)) (c : Conn Errno) :
    ∃ bytes, HandlerSends q c (played (Talk.bind (transact q codec) f) c) bytes := by
  obtain ⟨r, c', bytes, hy, hsends, hwhole, hfail⟩ := transact_sends q codec hlt c
  have hplay : ∀ x, f r = .ret x → played (Talk.bind (transact q codec) f) c = (x, c') :=
    fun x hx => hy.bind (hx ▸ Yields.ret x c') Id Empty.elim
  refine ⟨bytes, ?_⟩
  cases r with
  | error ret =>
    rw [hplay _ (herr ret)]
    refine ⟨hsends, fun h0 => hwhole.resolve_right fun he => ?_, fun hne => ?_⟩
    · obtain ⟨e, he⟩ := he
      cases he
      exact e.nonzero h0
    · exact ((hfail ret rfl).resolve_left hne).imp_right .inl
  | ok a =>
    obtain ⟨response, hresponse⟩ := hok a
    rw [hplay _ hresponse]
    refine ⟨hsends, fun _ => hwhole.resolve_right fun he => ?_, fun _ => .inr (.inr ⟨_, rfl⟩)⟩
    obtain ⟨e, he⟩ := he
    cases he

theorem requests_sends {command : Command} {q : Query} (h : Requests command q) (c : Conn Errno) :
    ∃ bytes, HandlerSends q c (played command.handle c) bytes := by
  cases h with
  | add uid tapValue input tapType nonneg type =>
    simp only [Command.handle, handleAddReserveMapping, nonneg, ↓reduceIte, type]
    exact transact_bind_sends _ PAAddUIDParamsResponse.codec (by decide) (fun _ => rfl)
      (fun response => ⟨.add response, rfl⟩) c
  | del uid =>
    exact transact_bind_sends _ PARemoveUIDParamsResponse.codec (by decide) (fun _ => rfl)
      (fun response => ⟨.remove response, rfl⟩) c
  | get uid =>
    exact transact_bind_sends _ PAGetTapParamsResponse.codec (by decide) (fun _ => rfl)
      (fun response => ⟨.get response, rfl⟩) c
  | set uid tapValue input tapType nonneg type =>
    simp only [Command.handle, handleSetReserveMappingData, nonneg, ↓reduceIte, type]
    exact transact_bind_sends _ PASetTapParamsResponse.codec (by decide) (fun _ => rfl)
      (fun response => ⟨.set response, rfl⟩) c
  | connect uid =>
    exact transact_bind_sends _ PAStatReserveResponse.codec (by decide) (fun _ => rfl)
      (fun response => ⟨.stat response, rfl⟩) c

/-- Input that makes no request is refused, and the connection stays as it is. -/
theorem handled_refuses {cmd : Option Command} (h : ∀ command ∈ cmd, ∀ q, ¬Requests command q)
    (c : Conn Errno) : played (handled cmd) c = ((-EINVAL, none), c) := by
  cases cmd with
  | none => rfl
  | some command =>
    have hnone := h command rfl
    cases command with
    | add uid tapValue input =>
      simp only [handled, Command.handle, handleAddReserveMapping]
      split
      · rfl
      · rename_i hvalue
        cases htype : tapTypeOf input with
        | none => rfl
        | some tapType => exact absurd (.add uid tapValue input tapType hvalue htype) (hnone _)
    | del uid => exact absurd (.del uid) (hnone _)
    | get uid => exact absurd (.get uid) (hnone _)
    | set uid tapValue input =>
      simp only [handled, Command.handle, handleSetReserveMappingData]
      split
      · rfl
      · rename_i hvalue
        cases htype : tapTypeOf input with
        | none => rfl
        | some tapType => exact absurd (.set uid tapValue input tapType hvalue htype) (hnone _)
    | connect uid => exact absurd (.connect uid) (hnone _)

/-- What the client reports and sends for its commands, on a connection that may refuse a send or
break while a response is read. Where a handler returns 0, its whole request is out, and the next
command follows. Where it does not, there is its request, unless the input is refused, and a
goodbye, both as far as the connection takes them. -/
inductive Uttered (refuses breaks : Prop) :
    List (Option Command) → List Reported → List Byte → Prop
  | ended : Uttered refuses breaks [] [] []
  | refused (cmd : Option Command) (cmds : List (Option Command)) (bye : List Byte)
    (silent : ∀ command ∈ cmd, ∀ q, ¬Requests command q) (left : Portion refuses goodbye bye) :
    Uttered refuses breaks (cmd :: cmds) [(-EINVAL, none)] bye
  | failed (command : Command) (q : Query) (requests : Requests command q)
    (cmds : List (Option Command)) (reported : Reported) (bytes bye : List Byte)
    (nonzero : reported.1 ≠ 0)
    (cause : refuses ∨ breaks ∨ ∃ r : Response, reported = (r.verdict, some r))
    (part : Portion refuses q.message bytes) (left : Portion refuses goodbye bye) :
    Uttered refuses breaks (some command :: cmds) [reported] (bytes ++ bye)
  | next (command : Command) (q : Query) (requests : Requests command q)
    (cmds : List (Option Command)) (reported : Reported) (reports : List Reported)
    (bytes : List Byte) (zero : reported.1 = 0)
    (later : Uttered refuses breaks cmds reports bytes) :
    Uttered refuses breaks (some command :: cmds) (reported :: reports) (q.message ++ bytes)

theorem Portion.mono {refuses refuses' : Prop} {message bytes : List Byte}
    (h : Portion refuses message bytes) (himp : refuses → refuses') :
    Portion refuses' message bytes := ⟨h.1, h.2.imp_right himp⟩

theorem disconnectFromServer_sends (c : Conn Errno) :
    ∃ bye, Emits goodbye bye c (played disconnectFromServer c).2 := by
  have hsize : goodbye.length < 4294967296 := by decide
  rcases send_adds hsize c with ⟨e, c', bye, hy, -, hsends⟩ | ⟨c', hy, hsends⟩
  · have hbye : Yields disconnectFromServer c e.code c' := hy.bind (Yields.ret _ _)
    have hplay : played disconnectFromServer c = (e.code, c') := hbye Id Empty.elim
    exact ⟨bye, hplay ▸ hsends⟩
  · have hbye : Yields disconnectFromServer c 0 c' := by
      refine hy.bind ?_
      simp only [ite_self]
      exact Yields.ret _ _
    have hplay : played disconnectFromServer c = (0, c') := hbye Id Empty.elim
    exact ⟨goodbye, hplay ▸ hsends⟩

/-- After a command that fails there is only the goodbye. -/
theorem mainOf_failed {cmd : Option Command} {c : Conn Errno}
    (h : (played (handled cmd) c).1.1 ≠ 0) (cmds : List (Option Command)) :
    (played (mainOf (cmd :: cmds)) c).1 = [(played (handled cmd) c).1] ∧
      ∃ bye, Emits goodbye bye (played (handled cmd) c).2 (played (mainOf (cmd :: cmds)) c).2 := by
  obtain ⟨bye, hsends⟩ := disconnectFromServer_sends (played (handled cmd) c).2
  rw [mainOf, played_bind]
  simp only [h, ne_eq, not_false_eq_true, ↓reduceIte]
  rw [played_bind]
  exact ⟨rfl, bye, hsends⟩

theorem mainOf_succeeded {cmd : Option Command} {c : Conn Errno}
    (h : (played (handled cmd) c).1.1 = 0) (cmds : List (Option Command)) :
    played (mainOf (cmd :: cmds)) c =
      ((played (handled cmd) c).1 :: (played (mainOf cmds) (played (handled cmd) c).2).1,
        (played (mainOf cmds) (played (handled cmd) c).2).2) := by
  rw [mainOf, played_bind]
  simp only [h, ne_eq, not_true_eq_false, ↓reduceIte]
  rw [played_bind]
  rfl

theorem mainOf_sends (cmds : List (Option Command)) {refuses breaks : Prop} (c : Conn Errno)
    (hr : Refuses c → refuses) (hb : Breaks c → breaks) :
    ∃ bytes, (played (mainOf cmds) c).2.sent = c.sent ++ bytes ∧
      Uttered refuses breaks cmds (played (mainOf cmds) c).1 bytes := by
  induction cmds generalizing c with
  | nil => exact ⟨[], (List.append_nil _).symm, .ended⟩
  | cons cmd cmds ih =>
    by_cases hsilent : ∀ command ∈ cmd, ∀ q, ¬Requests command q
    · have href := handled_refuses hsilent c
      have hne : (played (handled cmd) c).1.1 ≠ 0 := by
        rw [href]
        exact show (-EINVAL : Int32) ≠ 0 by decide
      obtain ⟨hreport, bye, hbye⟩ := mainOf_failed hne cmds
      rw [href] at hreport hbye
      rw [hreport]
      exact ⟨bye, hbye.sent, .refused cmd cmds bye hsilent (hbye.part.mono hr)⟩
    · push Not at hsilent
      obtain ⟨command, rfl, q, hq⟩ := hsilent
      obtain ⟨bytes, h⟩ : ∃ bytes, HandlerSends q c (played (handled (some command)) c) bytes :=
        requests_sends hq c
      by_cases h0 : (played (handled (some command)) c).1.1 = 0
      · obtain ⟨later, hlater, hutter⟩ := ih (played (handled (some command)) c).2
          (hr ∘ h.sends.refuses) (hb ∘ h.sends.breaks)
        rw [mainOf_succeeded h0]
        refine ⟨q.message ++ later, ?_, .next command q hq cmds _ _ later h0 hutter⟩
        rw [hlater, h.sends.sent, h.success h0, List.append_assoc]
      · obtain ⟨hreport, bye, hbye⟩ := mainOf_failed h0 cmds
        rw [hreport]
        refine ⟨bytes ++ bye, ?_, .failed command q hq cmds _ bytes bye h0 ?_
          (h.sends.part.mono hr) (hbye.part.mono (hr ∘ h.sends.refuses))⟩
        · rw [hbye.sent, h.sends.sent, List.append_assoc]
        · exact (h.failure h0).imp hr (Or.imp_left hb)

/-- Whatever is typed, whatever the kernel answers and whatever becomes of the connection: the
client comes to its end, with what its handlers return for the commands in the text, and has sent
their requests in order, up to the first command that fails. -/
theorem console_sends {m : Type → Type} [Monad m] [LawfulMonad m] (serve : KernelCall → m Long)
    (s : Stdin) {turns : Nat} (hturns : s.text.length < turns) (c : Conn Errno) :
    ∃ (k : m Unit) (reports : List Reported) (c' : Conn Errno) (bytes : List Byte),
      (console turns s).play serve c = k >>= (fun _ => pure (reports, c')) ∧
      played (mainOf s.commands) c = (reports, c') ∧
      c'.sent = c.sent ++ bytes ∧ Uttered (Refuses c) (Breaks c) s.commands reports bytes := by
  obtain ⟨k, hk⟩ := console_play serve turns s c
  rw [commandsOf_eq hturns (Nat.lt_succ_self _)] at hk
  obtain ⟨bytes, hsent, hutter⟩ := mainOf_sends s.commands c id id
  exact ⟨k, _, _, bytes, hk, rfl, hsent, hutter⟩

/-- A server that answers one request after another, in two pieces. -/
def answering : Conn Errno :=
  ⟨[.data 5 [0, 0, 0, 1, 0, 0, 0], .data 0 [0, 0, 0, 0, 0, 0, 0]], [.room 2], []⟩

/-- A reserve is asked for and a user removed, and the input ends before a third one is named. -/
theorem endOfFile_sends : ∃ (k : Id Unit) (c' : Conn Errno) (bytes : List Byte),
    (console 40 ⟨"connect\n7\nput\n3\ndel\n9\nget\n".toList, false⟩).play (m := Id) (fun _ => 0)
      answering = (k >>= fun _ => pure ([(0, some (.stat ⟨5, 1, 0⟩)), (0, some (.remove ⟨0⟩)),
        (-EINVAL, none)], c')) ∧
    c'.sent = [] ++ bytes ∧
    Uttered (Refuses answering) (Breaks answering) [some (.connect 7), some (.del 9), none]
      [(0, some (.stat ⟨5, 1, 0⟩)), (0, some (.remove ⟨0⟩)), (-EINVAL, none)] bytes := by
  obtain ⟨k, reports, c', bytes, hplay, hreports, hsent, hutter⟩ := console_sends (m := Id)
    (fun _ => 0) ⟨"connect\n7\nput\n3\ndel\n9\nget\n".toList, false⟩
    (show "connect\n7\nput\n3\ndel\n9\nget\n".toList.length < 40 by decide) answering
  obtain rfl : reports = [(0, some (.stat ⟨5, 1, 0⟩)), (0, some (.remove ⟨0⟩)),
    (-EINVAL, none)] := (congrArg Prod.fst hreports).symm.trans rfl
  exact ⟨k, c', bytes, hplay, hsent, hutter⟩

end PowerArbiter.PAController
