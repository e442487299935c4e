import Mathlib.Data.List.Basic

/-! A bounded channel of many senders and one receiver, its capacity counted out in permits.

A value enters the queue on a permit, and the receiver gives the permit back when
it takes the value out. `trySend` takes a free permit or fails at once. A send
that may wait is polled: it takes a free permit, or else parks behind the sends
that parked before it. A permit given back goes to the first parked send and not
to the free ones, but that send puts its value in the queue only when it is next
polled. Sends are told apart by a ticket. -/

/-- `waiting` are the parked sends in the order they parked, `granted` the ones
that were handed a permit and have not been polled since. -/
structure Mpsc (capacity : Nat) (T α : Type) where
  queue : List α
  permits : Nat
  waiting : List T
  granted : List T
  closed : Bool
  /-- Every permit is free, held by a granted send, or behind a queued value. -/
  accounted : closed = false → queue.length + granted.length + permits = capacity
  /-- No permit is free while a send is parked. -/
  fair : waiting ≠ [] → permits = 0

namespace Mpsc
variable {capacity : Nat} {T α : Type}

inductive TrySendError where
  | full
  | closed
  deriving DecidableEq, Repr

/-- What polling a send that may wait comes to. -/
inductive Poll where
  | sent
  | pending
  | closed
  deriving DecidableEq, Repr

def new : Mpsc capacity T α where
  queue := []
  permits := capacity
  waiting := []
  granted := []
  closed := false
  accounted := fun _ => by simp
  fair := fun h => absurd rfl h

instance : Inhabited (Mpsc capacity T α) := ⟨new⟩

/-- A value on a free permit. -/
def push (ch : Mpsc capacity T α) (a : α) (h : 0 < ch.permits) : Mpsc capacity T α :=
  { ch with
    queue := ch.queue ++ [a]
    permits := ch.permits - 1
    accounted := fun hc => by
      have := ch.accounted hc
      simp only [List.length_append, List.length_singleton]
      omega
    fair := fun hw => by
      have := ch.fair hw
      omega }

def trySend (ch : Mpsc capacity T α) (a : α) : Except TrySendError (Mpsc capacity T α) :=
  if ch.closed then .error .closed
  else if h : 0 < ch.permits then .ok (ch.push a h)
  else .error .full

/-- The receiver takes the first value; its permit goes to the first parked send
or becomes free. -/
def recv (ch : Mpsc capacity T α) : Option (α × Mpsc capacity T α) :=
  match hq : ch.queue with
  | [] => none
  | a :: rest =>
    match hw : ch.waiting with
    | [] => some (a, { ch with
        queue := rest
        permits := ch.permits + 1
        accounted := fun hc => by
          have := ch.accounted hc
          rw [hq, List.length_cons] at this
          omega
        fair := fun h => absurd hw h })
    | t :: parked => some (a, { ch with
        queue := rest
        waiting := parked
        granted := ch.granted ++ [t]
        accounted := fun hc => by
          have := ch.accounted hc
          rw [hq, List.length_cons] at this
          simp only [List.length_append, List.length_singleton]
          omega
        fair := fun _ => ch.fair (by rw [hw]; exact List.cons_ne_nil t parked) })

/-- The receiver is gone: what was queued is dropped, and so is every send still waiting. -/
def close (_ : Mpsc capacity T α) : Mpsc capacity T α :=
  { queue := []
    permits := 0
    waiting := []
    granted := []
    closed := true
    accounted := fun h => absurd h (by decide)
    fair := fun _ => rfl }

/-! ### Sending at once and receiving -/

theorem trySend_ok {ch ch' : Mpsc capacity T α} {a : α} (h : ch.trySend a = .ok ch') :
    ch.closed = false ∧ 0 < ch.permits ∧ ch'.closed = false ∧ ch'.queue = ch.queue ++ [a] ∧
      ch'.permits + 1 = ch.permits := by
  unfold trySend at h
  split at h
  · cases h
  · next hc =>
    split at h
    · next hp =>
      cases h
      have hcf : ch.closed = false := by simpa using hc
      exact ⟨hcf, hp, hcf, rfl, Nat.succ_pred_eq_of_pos hp⟩
    · cases h

theorem trySend_open {ch : Mpsc capacity T α} (a : α) (hc : ch.closed = false)
    (hp : 0 < ch.permits) : ch.trySend a = .ok (ch.push a hp) := by
  unfold trySend
  rw [hc, dif_pos hp]
  rfl

theorem trySend_full {ch : Mpsc capacity T α} (a : α) :
    ch.trySend a = .error .full ↔ ch.closed = false ∧ ch.permits = 0 := by
  unfold trySend
  cases hc : ch.closed
  · by_cases hp : 0 < ch.permits
    · simp [hp, Nat.ne_of_gt hp]
    · simp [Nat.eq_zero_of_not_pos hp]
  · simp

theorem trySend_closed {ch : Mpsc capacity T α} (a : α) :
    ch.trySend a = .error .closed ↔ ch.closed = true := by
  unfold trySend
  cases hc : ch.closed
  · by_cases hp : 0 < ch.permits <;> simp [hp]
  · simp

theorem recv_some {ch ch' : Mpsc capacity T α} {a : α} (h : ch.recv = some (a, ch')) :
    ch.queue = a :: ch'.queue ∧ ch'.closed = ch.closed := by
  unfold recv at h
  split at h
  · cases h
  · next b rest hq =>
    split at h <;>
    · cases h
      exact ⟨hq, rfl⟩

/-- With no send parked, the permit becomes free. -/
theorem recv_free {ch : Mpsc capacity T α} {a : α} {rest : List α} (hq : ch.queue = a :: rest)
    (hw : ch.waiting = []) : ∃ ch', ch.recv = some (a, ch') ∧ ch'.queue = rest ∧
      ch'.permits = ch.permits + 1 ∧ ch'.waiting = [] ∧ ch'.closed = ch.closed := by
  obtain ⟨queue, permits, waiting, granted, closed, accounted, fair⟩ := ch
  subst hq hw
  exact ⟨_, rfl, rfl, rfl, rfl, rfl⟩

/-! ### Sends that wait -/

variable [DecidableEq T]

/-- One poll of the send `t` of the value `a`. -/
def poll (ch : Mpsc capacity T α) (t : T) (a : α) : Poll × Mpsc capacity T α :=
  if ch.closed then (.closed, ch)
  else if hg : t ∈ ch.granted then
    (.sent, { ch with
      queue := ch.queue ++ [a]
      granted := ch.granted.erase t
      accounted := fun hc => by
        have := ch.accounted hc
        have hpos := List.length_pos_of_mem hg
        simp only [List.length_append, List.length_singleton, List.length_erase_of_mem hg]
        omega })
  else if t ∈ ch.waiting then (.pending, ch)
  else if h : 0 < ch.permits then (.sent, ch.push a h)
  else (.pending, { ch with waiting := ch.waiting ++ [t], fair := fun _ => by omega })

/-- The send `t` is dropped before it went through. A permit it held goes on to
the first parked send or becomes free. -/
def cancel (ch : Mpsc capacity T α) (t : T) : Mpsc capacity T α :=
  if hg : t ∈ ch.granted then
    match hw : ch.waiting with
    | [] => { ch with
        granted := ch.granted.erase t
        permits := ch.permits + 1
        accounted := fun hc => by
          have := ch.accounted hc
          have hpos := List.length_pos_of_mem hg
          rw [List.length_erase_of_mem hg]
          omega
        fair := fun h => absurd hw h }
    | u :: parked => { ch with
        waiting := parked
        granted := ch.granted.erase t ++ [u]
        accounted := fun hc => by
          have := ch.accounted hc
          have hpos := List.length_pos_of_mem hg
          simp only [List.length_append, List.length_singleton, List.length_erase_of_mem hg]
          omega
        fair := fun _ => ch.fair (by rw [hw]; exact List.cons_ne_nil u parked) }
  else { ch with
    waiting := ch.waiting.erase t
    fair := fun h => ch.fair fun hn => h (by rw [hn]; rfl) }

/-- A send that goes through puts its value at the end of the queue. -/
theorem poll_sent {ch ch' : Mpsc capacity T α} {t : T} {a : α} (h : ch.poll t a = (.sent, ch')) :
    ch'.queue = ch.queue ++ [a] ∧ ch'.closed = ch.closed ∧ ch.closed = false := by
  simp only [poll] at h
  split at h
  · cases h
  · next hc =>
    have hf : ch.closed = false := by simpa using hc
    split at h
    · cases h
      exact ⟨rfl, rfl, hf⟩
    · split at h
      · cases h
      · split at h
        · cases h
          exact ⟨rfl, rfl, hf⟩
        · cases h

/-- It parks nothing. -/
theorem poll_sent_waiting {ch ch' : Mpsc capacity T α} {t : T} {a : α}
    (h : ch.poll t a = (.sent, ch')) : ch'.waiting = ch.waiting := by
  simp only [poll] at h
  split at h
  · cases h
  · split at h
    · cases h
      rfl
    · split at h
      · cases h
      · split at h
        · cases h
          rfl
        · cases h

/-- A send goes through on a permit: one it was handed or a free one. -/
theorem poll_sent_iff {ch : Mpsc capacity T α} {t : T} {a : α} :
    (ch.poll t a).1 = .sent ↔ ch.closed = false ∧ (t ∈ ch.granted ∨ 0 < ch.permits) := by
  simp only [poll]
  by_cases hc : ch.closed = true
  · simp [hc]
  · by_cases hg : t ∈ ch.granted
    · simp [hc, hg]
    · by_cases hw : t ∈ ch.waiting
      · have hnone := ch.fair (List.ne_nil_of_mem hw)
        simp [hc, hg, hw, hnone]
      · by_cases hp : 0 < ch.permits <;> simp [hc, hg, hw, hp]

omit [DecidableEq T] in
/-- On an open channel there is then a place in the queue. -/
theorem length_lt_of_permit {ch : Mpsc capacity T α} (hopen : ch.closed = false) {t : T}
    (h : t ∈ ch.granted ∨ 0 < ch.permits) : ch.queue.length < capacity := by
  have hsum := ch.accounted hopen
  rcases h with h | h
  · have hpos := List.length_pos_of_mem h
    omega
  · omega

/-- A send that waits leaves the queue as it is. -/
theorem poll_pending {ch ch' : Mpsc capacity T α} {t : T} {a : α} (h : ch.poll t a = (.pending, ch')) :
    ch'.queue = ch.queue ∧ ch'.closed = ch.closed := by
  simp only [poll] at h
  split at h
  · cases h
  · split at h
    · cases h
    · split at h
      · cases h
        exact ⟨rfl, rfl⟩
      · split at h <;> cases h
        exact ⟨rfl, rfl⟩

/-- Only a closed channel refuses a send. -/
theorem poll_closed {ch ch' : Mpsc capacity T α} {t : T} {a : α} (h : ch.poll t a = (.closed, ch')) :
    ch.closed = true ∧ ch' = ch := by
  simp only [poll] at h
  split at h
  · next hc =>
    cases h
    exact ⟨hc, rfl⟩
  · split at h
    · cases h
    · split at h
      · cases h
      · split at h <;> cases h

theorem cancel_queue (ch : Mpsc capacity T α) (t : T) :
    (ch.cancel t).queue = ch.queue ∧ (ch.cancel t).closed = ch.closed := by
  unfold cancel
  split
  · split <;> exact ⟨rfl, rfl⟩
  · exact ⟨rfl, rfl⟩

end Mpsc
