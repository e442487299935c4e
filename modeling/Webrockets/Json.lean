import Mathlib.Data.List.Basic

/-! JSON values as `serde_json` holds them.

A number is kept as an unsigned integer, a negative integer or a float. What the
parser and the printer do is a parameter of what uses them: they are not part of
the repository. -/
namespace Webrockets

/-- `serde_json::Number`; a float by its bits. -/
inductive Number where
  | posInt (n : UInt64)
  | negInt (n : Int64)
  | float (bits : UInt64)
  deriving DecidableEq, Repr

/-- The integer a number stands for, if it is held as one. -/
def Number.integer : Number → Option Int
  | .posInt n => some n.toNat
  | .negInt n => some n.toInt
  | .float _ => none

def Number.asI64 : Number → Option Int64
  | .posInt n => if (n.toNat : Int) ≤ Int64.maxValue.toInt then some (Int64.ofInt n.toNat) else none
  | .negInt n => some n
  | .float _ => none

inductive Json where
  | null
  | bool (b : Bool)
  | number (n : Number)
  | string (s : String)
  | array (elems : List Json)
  | object (members : List (String × Json))

namespace Json

/-- `Value::get` with a string: only an object has members. -/
def get (json : Json) (key : String) : Option Json :=
  match json with
  | .object members => (members.find? (·.1 = key)).map Prod.snd
  | _ => none

/-- `Map::remove` on the map of an object; anything else is left alone. -/
def remove (json : Json) (key : String) : Json :=
  match json with
  | .object members => .object (members.filter (·.1 ≠ key))
  | _ => json

theorem get_some {json : Json} {key : String} {x : Json} (h : json.get key = some x) :
    ∃ members, json = .object members ∧ (key, x) ∈ members := by
  cases json with
  | object members =>
    obtain ⟨e, he, rfl⟩ := Option.map_eq_some_iff.mp h
    have hk : e.1 = key := by simpa using List.find?_some he
    refine ⟨members, rfl, ?_⟩
    rw [← hk]
    exact List.mem_of_find?_eq_some he
  | _ => cases h

end Json

/-- What is used of `serde_json`: `from_str` and `to_string` for values. -/
structure Serde where
  fromStr : String → Option Json
  toString : Json → Option String

/-- `as_i64` is the integer a number stands for, where `i64` has it. -/
theorem Number.asI64_eq_some {n : Number} {i : Int64} :
    n.asI64 = some i ↔ n.integer = some i.toInt := by
  cases n with
  | posInt n =>
    simp only [asI64, integer, Option.some.injEq]
    refine ⟨fun h => ?_, fun h => ?_⟩
    · split at h
      · next hle =>
        have hmax : (n.toNat : Int) < 9223372036854775808 := Int.lt_of_le_of_lt hle (by decide)
        rw [← Option.some.inj h, Int64.toInt_ofInt_of_le (by omega) (by omega)]
      · cases h
    · rw [h, if_pos i.toInt_le, Int64.ofInt_toInt]
  | negInt n => simp [asI64, integer, Int64.toInt_inj]
  | float bits => simp [asI64, integer]

end Webrockets
