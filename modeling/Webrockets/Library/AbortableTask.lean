import Mathlib.Data.Option.Basic

/-! Tasks of a runtime that polls them.

A task runs from one suspension to the next. An abort does not interrupt it: the
runtime drops the task when it next takes it up or when it next suspends, so a
task that is being polled goes on, and may even finish. -/

inductive AbortableTask.Status where
  | idle
  | polled
  | finished
  | cancelled
  deriving DecidableEq, Repr

structure AbortableTask where
  status : AbortableTask.Status
  aborted : Bool
  deriving DecidableEq, Repr

namespace AbortableTask

def spawned : AbortableTask := ⟨.idle, false⟩

def isPolled (t : AbortableTask) : Bool := t.status = .polled

/-- What a handle that is awaited reports. -/
def ended (t : AbortableTask) : Bool := t.status = .finished || t.status = .cancelled

/-- Aborting a task that has ended does nothing. -/
def abort (t : AbortableTask) : AbortableTask := if t.ended then t else { t with aborted := true }

def finish (t : AbortableTask) : AbortableTask := { t with status := .finished }

def wake (t : AbortableTask) : Option AbortableTask :=
  if t.status = .idle then some { t with status := if t.aborted then .cancelled else .polled }
  else none

def suspend (t : AbortableTask) : Option AbortableTask :=
  if t.isPolled then some { t with status := if t.aborted then .cancelled else .idle } else none

variable {t u : AbortableTask}

@[simp] theorem ended_abort : t.abort.ended = t.ended := by
  rw [abort]
  split <;> rfl

@[simp] theorem ended_finish : t.finish.ended = true := rfl

theorem not_ended_of_polled (h : t.isPolled = true) : t.ended = false := by
  simp only [isPolled, decide_eq_true_eq] at h
  simp [ended, h]

theorem not_polled_of_ended (h : t.ended = true) : t.isPolled = false := by
  cases hp : t.isPolled with
  | false => rfl
  | true => rw [not_ended_of_polled hp] at h; cases h

/-- A task that has ended is not taken up again. -/
theorem wake_of_ended (h : t.ended = true) : t.wake = none := by
  apply if_neg
  intro hidle
  simp [ended, hidle] at h

theorem suspend_of_ended (h : t.ended = true) : t.suspend = none := by
  rw [suspend, not_polled_of_ended h]
  rfl

end AbortableTask
