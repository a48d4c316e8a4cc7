import Mathlib.Tactic.Common

namespace Monitor

/-- A computation that makes calls `C`, and is told by a record of calls what they have
answered. It comes to nothing where the record has another call. -/
abbrev Replay (C A : Type) := StateT (List (C × A)) Option

namespace Replay

variable {C A α β : Type} {calls : List (C × A)}

def call [DecidableEq C] (c : C) : Replay C A A
  | [] => none
  | (c', a) :: rest => if c' = c then some (a, rest) else none

/-- These calls have been made, and no others. -/
def exactly (x : Replay C A α) (calls : List (C × A)) : Option α :=
  match x calls with
  | some (a, []) => some a
  | _ => none

@[simp] theorem pure_apply (a : α) : (pure a : Replay C A α) calls = some (a, calls) := rfl

@[simp] theorem bind_apply (x : Replay C A α) (f : α → Replay C A β) :
    (x >>= f) calls = (x calls).bind fun p => f p.1 p.2 := by
  cases hx : x calls with
  | none => simp [Bind.bind, StateT.bind, hx]
  | some p => simp [Bind.bind, StateT.bind, hx]

@[simp] theorem map_apply (f : α → β) (x : Replay C A α) :
    (f <$> x) calls = (x calls).map fun p => (f p.1, p.2) := by
  cases hx : x calls with
  | none => simp [Functor.map, StateT.map, hx]
  | some p => simp [Functor.map, StateT.map, hx]

@[simp] theorem ite_apply {p : Prop} [Decidable p] (x y : Replay C A α) :
    (if p then x else y) calls = if p then x calls else y calls := by
  split <;> rfl

@[simp] theorem call_cons [DecidableEq C] (c : C) (a : A) :
    call c ((c, a) :: calls) = some (a, calls) := if_pos rfl

theorem exactly_of_eq {x : Replay C A α} {a : α} (h : x calls = some (a, [])) :
    x.exactly calls = some a := by
  rw [exactly, h]

end Replay

end Monitor
