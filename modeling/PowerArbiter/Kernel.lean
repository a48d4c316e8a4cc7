import PowerArbiter.Syscall
import Mathlib.Logic.Function.Basic

namespace PowerArbiter

/-- Who holds a reserve: the arbiter or not, and how many other tasks. -/
structure Holders where
  arbiter : Bool
  others : Nat

def Holders.count (h : Holders) : Nat := h.arbiter.toNat + h.others

/-- A reserve exists as long as somebody holds it. -/
abbrev Reserves := Int32 → Holders

/-- Other tasks create, share and put reserves at any time. -/
def OthersMove (k k' : Reserves) : Prop := ∀ id, (k' id).arbiter = (k id).arbiter

/-- The reserves across one call. A create may hand out the id of any reserve
that does not exist. -/
def reserveKernel (k : Reserves) (c : Call) (a : Answer) (k' : Reserves) : Prop :=
  ∃ k₁, OthersMove k k₁ ∧
    match c with
    | .createReserve _ _ =>
      if a.ret < 0 then k' = k₁
      else (k₁ a.ret).count = 0 ∧ k' = Function.update k₁ a.ret ⟨true, 0⟩
    | .putReserve id =>
      if (k₁ id).arbiter then
        a.ret = 0 ∧ k' = Function.update k₁ id { k₁ id with arbiter := false }
      else ((k₁ id).count = 0 → a.ret ≠ 0) ∧ k' = k₁
    | .reserveInfo id =>
      (a.ret = 0 → (k₁ id).count ≠ 0 ∧ a.numUsers.toInt = (k₁ id).count) ∧ k' = k₁
    | _ => k' = k₁

/-- The same kernel while no other task moves. -/
def reservesAfter (k : Reserves) (c : Call) (a : Answer) : Option Reserves :=
  match c with
  | .createReserve _ _ =>
    if a.ret < 0 then some k
    else if (k a.ret).count = 0 then some (Function.update k a.ret ⟨true, 0⟩) else none
  | .putReserve id =>
    if (k id).arbiter then
      if a.ret = 0 then some (Function.update k id { k id with arbiter := false }) else none
    else if (k id).count = 0 ∧ a.ret = 0 then none else some k
  | .reserveInfo id =>
    if a.ret ≠ 0 ∨ ((k id).count ≠ 0 ∧ a.numUsers.toInt = (k id).count) then some k else none
  | _ => some k

theorem reservesAfter_sound (k : Reserves) (c : Call) (a : Answer) (k' : Reserves)
    (h : reservesAfter k c a = some k') : reserveKernel k c a k' := by
  refine ⟨k, fun _ => rfl, ?_⟩
  cases c <;> simp only [reservesAfter, Option.some.injEq] at h ⊢ <;> grind

/-- The taps that exist, each with the rate in force. -/
abbrev Taps := Int32 → Option (Long × Long)

/-- The taps across one call. A new tap has an id that no other tap has, and some
rate. A call that returns an error changes nothing. -/
def tapKernel (k : Taps) (c : Call) (a : Answer) (k' : Taps) : Prop :=
  match c with
  | .createTap _ _ _ _ =>
    if a.ret < 0 then k' = k
    else k a.ret = none ∧ ∃ rate, k' = Function.update k a.ret (some rate)
  | .setTapRate id rateType value =>
    if a.ret = 0 then k' = Function.update k id ((k id).map fun _ => (rateType, value))
    else k' = k
  | .deleteTap id => if a.ret = 0 then k' = Function.update k id none else k' = k
  | _ => k' = k

/-- The same kernel, which never fails to delete a tap that exists. -/
def deletingTapKernel (k : Taps) (c : Call) (a : Answer) (k' : Taps) : Prop :=
  tapKernel k c a k' ∧ ∀ id, c = .deleteTap id → (k id).isSome → a.ret = 0

/-- The kernel as a function, where a new tap has the rate zero. -/
def tapsAfter (k : Taps) (c : Call) (a : Answer) : Option Taps :=
  match c with
  | .createTap _ _ _ _ =>
    if a.ret < 0 then some k
    else if k a.ret = none then some (Function.update k a.ret (some (0, 0))) else none
  | .setTapRate id rateType value =>
    if a.ret = 0 then some (Function.update k id ((k id).map fun _ => (rateType, value)))
    else some k
  | .deleteTap id =>
    if a.ret = 0 then some (Function.update k id none)
    else if (k id).isSome then none else some k
  | _ => some k

theorem tapsAfter_sound (k : Taps) (c : Call) (a : Answer) (k' : Taps)
    (h : tapsAfter k c a = some k') : deletingTapKernel k c a k' := by
  constructor
  · cases c <;> simp only [tapsAfter, tapKernel, Option.some.injEq] at h ⊢ <;> grind
  · rintro id rfl hid
    simp only [tapsAfter] at h
    grind

/-- Which reserves the arbiter holds. -/
abbrev Held := Int32 → Bool

/-- The reserves when nobody but the arbiter holds any: a query or a put of a reserve
that it holds succeeds, and any other fails. -/
def idleKernel (held : Held) (c : Call) (a : Answer) (held' : Held) : Prop :=
  match c with
  | .reserveInfo id => (if held id then a.ret = 0 ∧ a.numUsers = 1 else a.ret ≠ 0) ∧ held' = held
  | .putReserve id =>
    if held id then a.ret = 0 ∧ held' = Function.update held id false
    else a.ret ≠ 0 ∧ held' = held
  | _ => held' = held

/-- A kernel of which only the answers to the user-count queries are known, in the order
of the queries. -/
def surveyKernel (script : List Answer) (c : Call) (a : Answer) (rest : List Answer) : Prop :=
  match c with
  | .reserveInfo _ => script = a :: rest
  | _ => rest = script

end PowerArbiter
