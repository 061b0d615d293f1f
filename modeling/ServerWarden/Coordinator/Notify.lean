/-
# Waking a waiter

A waker that tasks can wait on.  A notification goes to the task that has waited longest; if none
waits it is kept as a permit, of which there is at most one, and the next task that would wait uses
it up instead.  A task that gives up waiting after it was chosen, but before it ran, passes the
notification on.
-/

namespace ServerWarden

/-- A waiting task's number. -/
abbrev WaiterId := Nat

structure Notify where
  permit : Bool
  /-- The tasks that wait, the oldest first. -/
  waiting : List WaiterId
  /-- The tasks that were chosen and have not run since. -/
  chosen : List WaiterId
  deriving DecidableEq, Repr

namespace Notify

def empty : Notify := ⟨false, [], []⟩

/-- Chooses the oldest waiting task, or keeps a permit. -/
def notifyOne (n : Notify) : Notify :=
  match n.waiting with
  | [] => { n with permit := true }
  | w :: rest => { n with waiting := rest, chosen := w :: n.chosen }

/-- Uses up a permit, if there is one. -/
def usePermit? (n : Notify) : Option Notify :=
  if n.permit then some { n with permit := false } else none

/-- Makes a task wait. -/
def enroll (n : Notify) (w : WaiterId) : Notify :=
  { n with waiting := n.waiting ++ [w] }

def isChosen (n : Notify) (w : WaiterId) : Bool := n.chosen.contains w

/-- A chosen task runs. -/
def resume (n : Notify) (w : WaiterId) : Notify :=
  { n with chosen := n.chosen.erase w }

/-- A task gives up waiting. -/
def abandon (n : Notify) (w : WaiterId) : Notify :=
  if n.isChosen w then (n.resume w).notifyOne
  else { n with waiting := n.waiting.erase w }

end Notify
end ServerWarden
