import Mathlib.Data.List.Induction
import Mathlib.Data.Set.Insert

/-! Relations between individuals and groups that change in time.

A change lets an individual join a group, leave it, or leave all groups. What a sequence of
changes makes of the empty relation is `after`. Of a pair it keeps what the last change said
that had something to say about it: `mem_after`. -/
namespace PairSet
variable {I G : Type}

inductive Change (I G : Type) where
  | join (i : I) (g : G)
  | leave (i : I) (g : G)
  /-- Leaves all groups. -/
  | clear (i : I)
  deriving DecidableEq, Repr

namespace Change

def subject : Change I G → I
  | .join i _ | .leave i _ | .clear i => i

def apply (c : Change I G) (r : Set (I × G)) : Set (I × G) :=
  match c with
  | .join i g => insert (i, g) r
  | .leave i g => r \ {(i, g)}
  | .clear i => {p ∈ r | p.1 ≠ i}

variable [DecidableEq I] [DecidableEq G]

/-- What a change says about a pair, if anything. -/
def decides (i : I) (g : G) : Change I G → Option Bool
  | .join j h => if j = i ∧ h = g then some true else none
  | .leave j h => if j = i ∧ h = g then some false else none
  | .clear j => if j = i then some false else none

theorem mem_apply {c : Change I G} {r : Set (I × G)} {i : I} {g : G} :
    (i, g) ∈ c.apply r ↔ c.decides i g = some true ∨ c.decides i g = none ∧ (i, g) ∈ r := by
  cases c with
  | join j h =>
    by_cases hp : j = i ∧ h = g
    · obtain ⟨rfl, rfl⟩ := hp
      simp [apply, decides]
    · have hne : (i, g) ≠ (j, h) := by
        rintro heq
        cases heq
        exact hp ⟨rfl, rfl⟩
      simp [apply, decides, hp, hne]
  | leave j h =>
    by_cases hp : j = i ∧ h = g
    · obtain ⟨rfl, rfl⟩ := hp
      simp [apply, decides]
    · have hne : (i, g) ≠ (j, h) := by
        rintro heq
        cases heq
        exact hp ⟨rfl, rfl⟩
      simp [apply, decides, hp, hne]
  | clear j =>
    by_cases hj : j = i
    · subst hj
      simp [apply, decides]
    · simp [apply, decides, hj, Ne.symm hj]

/-- A change says nothing about others. -/
theorem decides_of_ne {c : Change I G} {i : I} (h : c.subject ≠ i) (g : G) :
    c.decides i g = none := by
  cases c <;> simp_all [subject, decides]

end Change

def after (changes : List (Change I G)) : Set (I × G) := changes.foldl (fun r c => c.apply r) ∅

theorem after_concat (changes : List (Change I G)) (c : Change I G) :
    after (changes ++ [c]) = c.apply (after changes) := by
  simp only [after, List.foldl_append, List.foldl_cons, List.foldl_nil]

variable [DecidableEq I] [DecidableEq G]

/-- Whether the last change that says something about a pair lets it in. -/
def latest (changes : List (Change I G)) (i : I) (g : G) : Bool :=
  (changes.reverse.findSome? (·.decides i g)).getD false

theorem latest_concat (changes : List (Change I G)) (c : Change I G) (i : I) (g : G) :
    latest (changes ++ [c]) i g = (c.decides i g).getD (latest changes i g) := by
  simp only [latest, List.reverse_append, List.reverse_singleton, List.singleton_append,
    List.findSome?_cons]
  cases c.decides i g <;> rfl

/-- A pair is in exactly if the last change about it says so. -/
theorem mem_after {changes : List (Change I G)} {i : I} {g : G} :
    (i, g) ∈ after changes ↔ latest changes i g = true := by
  induction changes using List.reverseRecOn with
  | nil => simp [after, latest]
  | append_singleton changes c ih =>
    rw [after_concat, latest_concat, Change.mem_apply, ih]
    cases c.decides i g <;> simp

/-- What happens to one says nothing of another. -/
theorem mem_apply_of_ne {c : Change I G} {r : Set (I × G)} {i : I} (h : c.subject ≠ i) (g : G) :
    (i, g) ∈ c.apply r ↔ (i, g) ∈ r := by
  rw [Change.mem_apply, Change.decides_of_ne h]
  simp

end PairSet
