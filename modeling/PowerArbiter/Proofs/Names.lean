import PowerArbiter.Controller
import Mathlib.Data.List.Basic

namespace PowerArbiter

def userReserve : List Char :=
  ['_', 'U', 's', 'e', 'r', '_', 'R', 'e', 's', 'e', 'r', 'v', 'e']

def userTap : List Char := ['_', 'U', 's', 'e', 'r', '_', 'T', 'a', 'p']

theorem takeWhile_delimited {α : Type} [DecidableEq α] {d : α} {xs : List α} (h : d ∉ xs)
    (rest : List α) : (xs ++ d :: rest).takeWhile (· ≠ d) = xs := by
  have hall : ∀ x ∈ xs, decide (x ≠ d) = true := by
    intro x hx
    exact decide_eq_true (fun he => h (he ▸ hx))
  rw [List.takeWhile_append_of_pos hall, List.takeWhile_cons_of_neg (by simp), List.append_nil]

/-- A delimiter that occurs in neither of two prefixes separates them from what follows. -/
theorem delimited_inj {α : Type} [DecidableEq α] {d : α} {xs ys s t : List α} (hx : d ∉ xs)
    (hy : d ∉ ys) (h : xs ++ d :: s = ys ++ d :: t) : xs = ys ∧ s = t := by
  have hxy : xs = ys := by
    rw [← takeWhile_delimited hx s, h, takeWhile_delimited hy t]
  subst hxy
  exact ⟨rfl, (List.cons.inj (List.append_cancel_left h)).2⟩

/-- A print consists of digits, after a sign or not. -/
theorem mem_decimal {n : Int} {c : Char} (h : c ∈ decimal n) : c = '-' ∨ c.isDigit = true := by
  unfold decimal at h
  split at h
  · rcases List.mem_cons.mp h with rfl | hm
    · exact .inl rfl
    · exact .inr (Nat.isDigit_of_mem_toDigits (by decide) (by decide) hm)
  · exact .inr (Nat.isDigit_of_mem_toDigits (by decide) (by decide) h)

theorem not_mem_decimal {n : Int} {c : Char} (sign : c ≠ '-') (digit : c.isDigit = false) :
    c ∉ decimal n := by
  intro hm
  rcases mem_decimal hm with h | h
  · exact sign h
  · rw [digit] at h
    cases h

theorem toDigits_inj {m n : Nat} (h : Nat.toDigits 10 m = Nat.toDigits 10 n) : m = n := by
  have hread := congrArg (fun ds => Nat.ofDigitChars 10 ds 0) h
  simpa only [Nat.ofDigitChars_ten_toDigits] using hread

theorem sign_ne_toDigits {m n : Nat} : '-' :: Nat.toDigits 10 m ≠ Nat.toDigits 10 n := by
  intro h
  have hm : '-' ∈ Nat.toDigits 10 n := h ▸ List.mem_cons_self
  have hd := Nat.isDigit_of_mem_toDigits (by decide) (by decide) hm
  revert hd
  decide

theorem decimal_inj {m n : Int} (h : decimal m = decimal n) : m = n := by
  unfold decimal at h
  split at h <;> split at h
  · have := toDigits_inj (List.cons.inj h).2
    omega
  · exact absurd h sign_ne_toDigits
  · exact absurd h.symm sign_ne_toDigits
  · have := toDigits_inj h
    omega

/-- The longest print is that of the least `int`. -/
theorem length_decimal_le (n : Int32) : (decimal n.toInt).length ≤ 11 := by
  have hlow := n.le_toInt
  have hhigh := n.toInt_lt
  have hdigits : (Nat.toDigits 10 n.toInt.natAbs).length ≤ 10 := by
    rw [Nat.length_toDigits_le_iff (by decide) (by decide)]
    omega
  unfold decimal
  split
  · rw [List.length_cons]
    omega
  · omega

theorem printed_inj {u v : Uid} (h : decimal u.toInt32.toInt = decimal v.toInt32.toInt) :
    u = v := by
  have hs : u.toInt32 = v.toInt32 := Int32.toInt_inj.mp (decimal_inj h)
  rw [← UInt32.toUInt32_toInt32 u, hs, UInt32.toUInt32_toInt32]

/-- The cut is behind the delimiter, and leaves at least seven more characters. -/
theorem kernelName_eq (uid : Uid) (rest : List Char) :
    ∃ n, kernelName uid ('_' :: rest) = decimal uid.toInt32.toInt ++ '_' :: rest.take (n + 7) := by
  have hlen := length_decimal_le uid.toInt32
  have hsplit : CINDER_MAX_NAMELEN - 1 = (decimal uid.toInt32.toInt).length +
      (11 - (decimal uid.toInt32.toInt).length + 7 + 1) := by
    have hmax : CINDER_MAX_NAMELEN - 1 = 19 := rfl
    omega
  refine ⟨11 - (decimal uid.toInt32.toInt).length, ?_⟩
  unfold kernelName
  rw [hsplit, List.take_length_add_append, List.take_succ_cons]

/-- Names are equal only if the uids are, and the suffixes in what is always kept. -/
theorem kernelName_inj {u v : Uid} {s t : List Char}
    (h : kernelName u ('_' :: s) = kernelName v ('_' :: t)) : u = v ∧ s.take 7 = t.take 7 := by
  obtain ⟨m, hu⟩ := kernelName_eq u s
  obtain ⟨n, hv⟩ := kernelName_eq v t
  rw [hu, hv] at h
  obtain ⟨hprint, hrest⟩ := delimited_inj (not_mem_decimal (by decide) (by decide))
    (not_mem_decimal (by decide) (by decide)) h
  have hseven := congrArg (List.take 7) hrest
  rw [List.take_take, List.take_take, Nat.min_eq_left (by omega), Nat.min_eq_left (by omega)]
    at hseven
  exact ⟨printed_inj hprint, hseven⟩

def NUL : Char := Char.ofNat 0

theorem nul_not_printed (uid : Uid) {suffix : List Char} (h : NUL ∉ suffix) :
    NUL ∉ decimal uid.toInt32.toInt ++ suffix := by
  intro hm
  rcases List.mem_append.mp hm with hd | hs
  · exact not_mem_decimal (by decide) (by decide) hd
  · exact h hs

/-- What `rsv_name` and `tap_name` are. -/
structure NameArray where
  chars : List Char
  size : chars.length = CINDER_MAX_NAMELEN

theorem set_delimiter {α : Type} (d : α) (xs rest : List α) {n : Nat} (h : xs.length ≤ n) :
    ∃ rest', (xs ++ d :: rest).set n d = xs ++ d :: rest' := by
  rw [List.set_append_right n d h]
  cases n - xs.length with
  | zero => exact ⟨rest, rfl⟩
  | succ k => exact ⟨rest.set k d, rfl⟩

namespace NameArray

/-- `snprintf` of a format that comes to `text`, and then the assignment of the last
character. -/
def print (a : NameArray) (text : List Char) : NameArray where
  chars :=
    let kept := text.take (CINDER_MAX_NAMELEN - 1)
    (kept ++ NUL :: a.chars.drop (kept.length + 1)).set (CINDER_MAX_NAMELEN - 1) NUL
  size := by
    have hlen : (text.take (CINDER_MAX_NAMELEN - 1)).length ≤ CINDER_MAX_NAMELEN - 1 :=
      List.length_take_le _ _
    have hmax : CINDER_MAX_NAMELEN - 1 + 1 = CINDER_MAX_NAMELEN := rfl
    have hsize := a.size
    simp only [List.length_set, List.length_append, List.length_cons, List.length_drop]
    omega

/-- What a callee reads. -/
def cString (a : NameArray) : List Char := a.chars.takeWhile (· ≠ NUL)

def strlen (a : NameArray) : Nat := a.cString.length

structure Terminated (a : NameArray) : Prop where
  nul : NUL ∈ a.chars
  fits : a.strlen + 1 ≤ CINDER_MAX_NAMELEN

def printReserveName (a : NameArray) (uid : Uid) : NameArray :=
  a.print (decimal uid.toInt32.toInt ++ userReserve)

def printTapName (a : NameArray) (uid : Uid) : NameArray :=
  a.print (decimal uid.toInt32.toInt ++ userTap)

theorem print_eq (a : NameArray) (text : List Char) :
    ∃ rest, (a.print text).chars = text.take (CINDER_MAX_NAMELEN - 1) ++ NUL :: rest :=
  set_delimiter NUL _ _ (List.length_take_le _ _)

theorem cString_print (a : NameArray) {text : List Char} (h : NUL ∉ text) :
    (a.print text).cString = text.take (CINDER_MAX_NAMELEN - 1) := by
  obtain ⟨rest, he⟩ := a.print_eq text
  have hkept : NUL ∉ text.take (CINDER_MAX_NAMELEN - 1) := fun hm => h (List.mem_of_mem_take hm)
  unfold cString
  rw [he, takeWhile_delimited hkept]

theorem terminated_print (a : NameArray) {text : List Char} (h : NUL ∉ text) :
    (a.print text).Terminated := by
  obtain ⟨rest, he⟩ := a.print_eq text
  constructor
  · rw [he]
    exact List.mem_append_right _ List.mem_cons_self
  · have hlen := List.length_take_le (CINDER_MAX_NAMELEN - 1) text
    have hmax : CINDER_MAX_NAMELEN - 1 + 1 = CINDER_MAX_NAMELEN := rfl
    unfold strlen
    rw [a.cString_print h]
    omega

theorem cString_printReserveName (a : NameArray) (uid : Uid) :
    (a.printReserveName uid).cString = reserveName uid :=
  a.cString_print (nul_not_printed uid (by decide))

theorem cString_printTapName (a : NameArray) (uid : Uid) :
    (a.printTapName uid).cString = tapName uid :=
  a.cString_print (nul_not_printed uid (by decide))

end NameArray

/-- The two names are terminated within their arrays, no two uids share a name, and no
reserve is named like a tap. -/
theorem kernelNames_identify (a b : NameArray) (u v : Uid) :
    ((a.printReserveName u).Terminated ∧ (a.printReserveName u).cString = reserveName u) ∧
    ((a.printTapName u).Terminated ∧ (a.printTapName u).cString = tapName u) ∧
    (u ≠ v → (a.printReserveName u).cString ≠ (b.printReserveName v).cString ∧
      (a.printTapName u).cString ≠ (b.printTapName v).cString) ∧
    (a.printReserveName u).cString ≠ (b.printTapName v).cString := by
  refine ⟨⟨a.terminated_print (nul_not_printed u (by decide)), a.cString_printReserveName u⟩,
    ⟨a.terminated_print (nul_not_printed u (by decide)), a.cString_printTapName u⟩, ?_, ?_⟩
  all_goals
    simp only [NameArray.cString_printReserveName, NameArray.cString_printTapName]
  · intro hne
    exact ⟨fun h => hne (kernelName_inj h).1, fun h => hne (kernelName_inj h).1⟩
  · intro h
    have hseven := (kernelName_inj h).2
    revert hseven
    decide

example : reserveName 2147483648 = "-2147483648_User_Re".toList ∧
    tapName 2147483648 = "-2147483648_User_Ta".toList := by
  decide

end PowerArbiter
