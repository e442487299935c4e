import Mathlib.Data.Option.Basic

/-! Watch channels: one value that is replaced, and receivers that notice that it was.

A receiver remembers the version it has seen. A value that was sent before it looked is
not a change for it: `markUnchanged` takes everything so far as seen, and a receiver that
is cloned has seen what the one it was cloned from has. -/

structure Watch (α : Type) where
  value : α
  version : Nat
  deriving DecidableEq, Repr

structure Watch.Receiver where
  seen : Nat
  deriving DecidableEq, Repr

namespace Watch
variable {α : Type}

def channel (a : α) : Watch α × Receiver := (⟨a, 0⟩, ⟨0⟩)

def send (w : Watch α) (a : α) : Watch α := ⟨a, w.version + 1⟩

def Receiver.markUnchanged (_ : Receiver) (w : Watch α) : Receiver := ⟨w.version⟩

def Receiver.hasChanged (rx : Receiver) (w : Watch α) : Bool := rx.seen < w.version

/-- `changed`, where it does not wait. -/
def Receiver.changed (rx : Receiver) (w : Watch α) : Option Receiver :=
  if rx.hasChanged w then some (rx.markUnchanged w) else none

variable {w : Watch α} {rx : Receiver}

@[simp] theorem hasChanged_markUnchanged : (rx.markUnchanged w).hasChanged w = false := by
  simp [Receiver.hasChanged, Receiver.markUnchanged]

/-- What was sent last is a change for whoever has not seen more than there was. -/
theorem hasChanged_send (h : rx.seen ≤ w.version) (a : α) : rx.hasChanged (w.send a) = true := by
  have hlt : rx.seen < w.version + 1 := by omega
  exact decide_eq_true hlt

/-- Sending again does not take a change back. -/
theorem hasChanged_mono (h : rx.hasChanged w = true) (a : α) : rx.hasChanged (w.send a) = true := by
  have hlt : rx.seen < w.version := of_decide_eq_true h
  exact hasChanged_send (Nat.le_of_lt hlt) a

end Watch
