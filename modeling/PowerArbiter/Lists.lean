import PowerArbiter.Memory.Code
import Mathlib.Logic.Function.Basic

namespace PowerArbiter.Lists
open Memory

@[ext] structure ListHead (ν : Type) where
  next : Option ν
  prev : Option ν

/-- The `list_head`s at their addresses. An entry has one of them, whose address also
stands for that of the entry, and `list_entry` is the identity. -/
abbrev Mem (ν : Type) := ν → ListHead ν

variable {ν β : Type} [DecidableEq ν]

def nextOf (p : Option ν) : Code (Mem ν) (Option ν) := do
  let x ← deref p
  return ((← get) x).next

def prevOf (p : Option ν) : Code (Mem ν) (Option ν) := do
  let x ← deref p
  return ((← get) x).prev

def setNext (p next : Option ν) : Code (Mem ν) Unit := do
  let x ← deref p
  modify fun m => Function.update m x { m x with next := next }

def setPrev (p prev : Option ν) : Code (Mem ν) Unit := do
  let x ← deref p
  modify fun m => Function.update m x { m x with prev := prev }

def initListHead (ptr : ν) : Code (Mem ν) Unit := do
  setNext ptr ptr
  setPrev ptr ptr

/-- `__list_add` -/
def listAddBetween (new : ν) (prev next : Option ν) : Code (Mem ν) Unit := do
  setPrev next new
  setNext new next
  setPrev new prev
  setNext prev new

def listAdd (new head : ν) : Code (Mem ν) Unit := do
  listAddBetween new head (← nextOf head)

def listAddTail (new head : ν) : Code (Mem ν) Unit := do
  listAddBetween new (← prevOf head) head

/-- `__list_del` -/
def listJoin (prev next : Option ν) : Code (Mem ν) Unit := do
  setPrev next prev
  setNext prev next

def listDel (entry : ν) : Code (Mem ν) Unit := do
  listJoin (← prevOf entry) (← nextOf entry)
  setNext entry none
  setPrev entry none

def listDelInit (entry : ν) : Code (Mem ν) Unit := do
  listJoin (← prevOf entry) (← nextOf entry)
  initListHead entry

def listMove (list head : ν) : Code (Mem ν) Unit := do
  listJoin (← prevOf list) (← nextOf list)
  listAdd list head

def listMoveTail (list head : ν) : Code (Mem ν) Unit := do
  listJoin (← prevOf list) (← nextOf list)
  listAddTail list head

def listEmpty (head : ν) : Code (Mem ν) Bool := do
  return (← nextOf head) = some head

/-- `__list_splice` -/
def listSpliceFull (list head : ν) : Code (Mem ν) Unit := do
  let first ← nextOf list
  let last ← prevOf list
  let next ← nextOf head
  setPrev first head
  setNext head first
  setNext last next
  setPrev next last

def listSpliceInit (list head : ν) : Code (Mem ν) Unit := do
  if !(← listEmpty list) then
    listSpliceFull list head
    initListHead list

/-- The loop of `list_for_each_entry_safe` from `pos` on, with `n` read ahead. What the body
carries from one entry to the next is `acc`. -/
def eachEntrySafe (head : ν) (body : β → ν → Code (Mem ν) β) :
    Nat → Option ν → Option ν → β → Code (Mem ν) β
  | fuel, pos, n, acc => do
    if pos = some head then
      return acc
    match fuel with
    | 0 => throw .endless
    | fuel + 1 =>
      let acc ← body acc (← deref pos)
      eachEntrySafe head body fuel n (← nextOf n) acc

def listForEachEntrySafe (fuel : Nat) (head : ν) (body : β → ν → Code (Mem ν) β) (acc : β) :
    Code (Mem ν) β := do
  let pos ← nextOf head
  eachEntrySafe head body fuel pos (← nextOf pos) acc

end PowerArbiter.Lists
