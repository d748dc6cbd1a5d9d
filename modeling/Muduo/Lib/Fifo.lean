import Mathlib.Data.List.Basic

/-!
# Muduo.Lib.Fifo

A first-in first-out queue that remembers what went through it.  What was
taken out is always an initial part of what was put in, in the same order
and with the same multiplicity: a queue loses, repeats and reorders nothing.
-/

namespace Lib

/-- A queue: what was taken out, and what waits. -/
structure Fifo (α : Type u) where
  popped : List α
  waiting : List α
deriving DecidableEq

namespace Fifo

variable {α : Type u}

def empty : Fifo α := ⟨[], []⟩

def push (q : Fifo α) (x : α) : Fifo α := ⟨q.popped, q.waiting ++ [x]⟩

/-- Take the first element out; an empty queue stays as it is. -/
def pop (q : Fifo α) : Fifo α :=
  match q.waiting with
  | [] => q
  | x :: xs => ⟨q.popped ++ [x], xs⟩

/-- Everything that was put in. -/
def pushed (q : Fifo α) : List α := q.popped ++ q.waiting

@[simp] theorem pushed_push (q : Fifo α) (x : α) : (q.push x).pushed = q.pushed ++ [x] := by
  simp [pushed, push]

@[simp] theorem pushed_pop (q : Fifo α) : q.pop.pushed = q.pushed := by
  unfold pop
  split
  · rfl
  · rename_i x xs hwaiting
    simp [pushed, hwaiting]

@[simp] theorem waiting_push (q : Fifo α) (x : α) : (q.push x).waiting = q.waiting ++ [x] := rfl

theorem waiting_pop {q : Fifo α} {x : α} {xs : List α} (h : q.waiting = x :: xs) :
    q.pop.waiting = xs := by
  simp [pop, h]

end Fifo

end Lib
