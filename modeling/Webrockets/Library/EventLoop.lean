import Mathlib.Data.List.Forall2

/-! Loops that wait for an event, act on it, and go on or leave.

A loop is given by what it does with one event. It is run on the events that it has been
handed so far; where it has not left, it waits for the next one. -/
namespace EventLoop
variable {I J E R : Type}

/-- What a loop does with one event: its effects, and how it leaves the loop if it does. -/
structure Turn (E R : Type) where
  effects : List E
  exit : Option R
  deriving DecidableEq, Repr

def loop (turn : I → Turn E R) : List I → Turn E R
  | [] => ⟨[], none⟩
  | i :: rest =>
    match (turn i).exit with
    | some r => ⟨(turn i).effects, some r⟩
    | none => ⟨(turn i).effects ++ (loop turn rest).effects, (loop turn rest).exit⟩

variable {turn : I → Turn E R}

/-- A loop that no event leaves waits, and has done all that the events ask for. -/
theorem loop_waits {events : List I} (h : ∀ i ∈ events, (turn i).exit = none) :
    loop turn events = ⟨events.flatMap fun i => (turn i).effects, none⟩ := by
  induction events with
  | nil => rfl
  | cons i rest ih =>
    have hi : (turn i).exit = none := h i List.mem_cons_self
    have hrest := ih fun j hj => h j (List.mem_cons_of_mem _ hj)
    simp only [loop, hi, hrest, List.flatMap_cons]

/-- Two loops that act alike on related events act alike. -/
theorem loop_agree {other : J → Turn E R} {r : I → J → Prop} (hturn : ∀ i j, r i j → turn i = other j)
    {events : List I} {others : List J} (h : List.Forall₂ r events others) :
    loop turn events = loop other others := by
  induction h with
  | nil => rfl
  | cons hij _ ih => simp only [loop, hturn _ _ hij, ih]

end EventLoop
