import Mathlib.Logic.Basic

/-!
# A notification for one consumer

A cell by which any number of threads wake one consumer. `notifyOne` wakes the consumer if
it waits, and else stores a permit, of which the cell holds at most one. The consumer
`poll`s: it goes on if there is a permit for it, and else registers as waiting; once it was
woken, its next poll goes on. A consumer that stops waiting without a poll (`cancel`) gives
a notification it was woken by back to the cell.

A notification that was not consumed is never lost: `held` says that there is one, in the
cell or with the consumer, and the operations are described by what they do to it
(`held_notifyOne`, `held_cancel`, `poll_eq_held`).
-/

namespace Peashape.Foundation

/-- Where the consumer is. -/
inductive Waiter where
  /-- It does not wait. -/
  | absent
  /-- It waits. -/
  | waiting
  /-- It was woken, and has not gone on yet. -/
  | notified
  deriving DecidableEq

/-- A notification cell and its consumer. -/
structure Notify where
  /-- Whether a permit is stored. -/
  stored : Bool := false
  /-- Where the consumer is. -/
  waiter : Waiter := .absent
  /-- Nobody waits while a permit is stored. -/
  stored_of_waiting : waiter = .waiting → stored = false := by simp
  deriving DecidableEq

namespace Notify

/-- A new cell: nothing stored, and nobody waiting. -/
def new : Notify := {}

/-- There is a notification that was not consumed. -/
def held (n : Notify) : Bool := n.stored || decide (n.waiter = .notified)

/-- Wake the consumer if it waits, and else store a permit. -/
def notifyOne (n : Notify) : Notify :=
  match n.waiter with
  | .waiting => { stored := n.stored, waiter := .notified }
  | .absent => { stored := true, waiter := .absent }
  | .notified => { stored := true, waiter := .notified }

/-- The consumer looks: whether it goes on, and the cell afterwards. -/
def poll (n : Notify) : Bool × Notify :=
  match n.waiter with
  | .absent => if n.stored then (true, { stored := false }) else (false, { stored := false, waiter := .waiting })
  | .waiting => (false, n)
  | .notified => (true, { stored := n.stored, waiter := .absent })

/-- The consumer stops waiting. -/
def cancel (n : Notify) : Notify :=
  match n.waiter with
  | .absent | .waiting => { stored := n.stored, waiter := .absent }
  | .notified => { stored := true, waiter := .absent }

@[simp] theorem waiter_new : new.waiter = .absent := rfl

variable (n : Notify)

@[simp] theorem held_notifyOne : n.notifyOne.held = true := by
  unfold notifyOne
  split <;> simp [held]

/-- A notification does not make the consumer come or go. -/
@[simp] theorem waiter_notifyOne : n.notifyOne.waiter = .absent ↔ n.waiter = .absent := by
  unfold notifyOne
  split <;> rename_i h <;> simp [h]

@[simp] theorem waiter_cancel : n.cancel.waiter = .absent := by
  unfold cancel
  split <;> rfl

/-- What the consumer was woken by is not lost when it stops waiting. -/
@[simp] theorem held_cancel : n.cancel.held = n.held := by
  unfold cancel
  split <;> rename_i h <;> simp [held, h]

/-- The consumer goes on exactly if there is a notification. -/
theorem poll_eq_held : n.poll.1 = n.held := by
  unfold poll
  split <;> rename_i h
  · cases hs : n.stored <;> simp [held, h, hs]
  · simp [held, h, n.stored_of_waiting h]
  · simp [held, h]

variable {n}

/-- A consumer that goes on waits no more. -/
theorem waiter_poll_of_held (hh : n.held = true) : n.poll.2.waiter = .absent := by
  unfold poll
  split <;> rename_i h
  · have hs : n.stored = true := by simpa [held, h] using hh
    simp [hs]
  · simp [held, h, n.stored_of_waiting h] at hh
  · rfl

/-- One that does not waits, and there is still nothing for it. -/
theorem poll_of_not_held (hh : n.held = false) : n.poll.2.waiter = .waiting ∧ n.poll.2.held = false := by
  unfold poll
  split <;> rename_i h
  · have hs : n.stored = false := by simpa [held, h] using hh
    simp [hs, held]
  · exact ⟨h, hh⟩
  · simp [held, h] at hh

/-- While nobody waits, a notification is a stored permit. -/
theorem stored_of_absent (h : n.waiter = .absent) (hh : n.held = true) : n.stored = true := by
  simpa [held, h] using hh

end Notify

end Peashape.Foundation
