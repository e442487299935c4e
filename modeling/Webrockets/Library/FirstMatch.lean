import Mathlib.Data.List.Basic

/-! First-match search, over rules one by one and over rules filed under keys.

A rule lists keys, and it may accept something through any of them. `flat` takes
the first rule that accepts at all. `filed` goes through the keys in the order in
which the rules first list them, and takes the first rule that accepts through
the key it has come to. `filed_eq_flat_iff` says when the two agree. -/
namespace FirstMatch
variable {R K α β : Type}

/-! ### Searching lists -/

theorem findSome?_flatMap (l : List α) (g : α → List R) (f : R → Option β) :
    (l.flatMap g).findSome? f = l.findSome? fun a => (g a).findSome? f := by
  induction l with
  | nil => rfl
  | cons a rest ih =>
    rw [List.flatMap_cons, List.findSome?_append, ih, List.findSome?_cons]
    cases (g a).findSome? f <;> rfl

theorem findSome?_const {l : List α} (hl : l ≠ []) (o : Option β) : l.findSome? (fun _ => o) = o := by
  cases o with
  | none => exact List.findSome?_eq_none_iff.mpr fun _ _ => rfl
  | some b =>
    cases l with
    | nil => exact absurd rfl hl
    | cons a rest => rfl

theorem findSome?_ite (l : List α) (p : α → Bool) (f : α → β) :
    (l.findSome? fun a => if p a then some (f a) else none) = (l.find? p).map f := by
  induction l with
  | nil => rfl
  | cons a rest ih =>
    rw [List.findSome?_cons, List.find?_cons]
    cases p a with
    | true => rfl
    | false => exact ih

/-- A search that can only end in one way, and does end. -/
theorem findSome?_eq {l : List α} {f : α → Option β} {b : β} (hs : ∃ a ∈ l, f a = some b)
    (hb : ∀ a ∈ l, ∀ b', f a = some b' → b' = b) : l.findSome? f = some b := by
  obtain ⟨a, ha, hab⟩ := hs
  cases hr : l.findSome? f with
  | none => rw [List.findSome?_eq_none_iff.mp hr a ha] at hab; cases hab
  | some b' =>
    obtain ⟨a', ha', hf⟩ := List.exists_of_findSome?_eq_some hr
    rw [hb a' ha' b' hf]

/-- The first of many, if it is one of the few, is the first of these. -/
theorem find?_of_imp {l : List α} {p q : α → Bool} {a : α} (himp : ∀ x, q x = true → p x = true)
    (hp : l.find? p = some a) (hq : q a = true) : l.find? q = some a := by
  obtain ⟨_, before, after, rfl, hbefore⟩ := List.find?_eq_some_iff_append.mp hp
  apply List.find?_eq_some_iff_append.mpr
  refine ⟨hq, before, after, rfl, fun x hx => ?_⟩
  cases hqx : q x with
  | false => rfl
  | true =>
    have hno := hbefore x hx
    rw [himp x hqx] at hno
    cases hno

/-! ### Rules with keys -/

variable (keys : R → List K) (acceptsAt : R → K → Bool)

def flat (rules : List R) : Option R := rules.find? fun r => (keys r).any (acceptsAt r)

/-- The first key through which some rule accepts. -/
def firstKey (rules : List R) : Option K :=
  (rules.flatMap keys).find? fun k => rules.any fun r => acceptsAt r k

def filed (rules : List R) : Option R :=
  (rules.flatMap keys).findSome? fun k => rules.find? fun r => acceptsAt r k

theorem filed_eq (rules : List R) :
    filed keys acceptsAt rules =
      (firstKey keys acceptsAt rules).bind fun k => rules.find? fun r => acceptsAt r k := by
  rw [filed, firstKey]
  induction rules.flatMap keys with
  | nil => rfl
  | cons k rest ih =>
    rw [List.findSome?_cons, List.find?_cons]
    cases hk : rules.find? fun r => acceptsAt r k with
    | some r =>
      have hr : acceptsAt r k = true := List.find?_some (p := fun r => acceptsAt r k) hk
      have hany : (rules.any fun r => acceptsAt r k) = true :=
        List.any_eq_true.mpr ⟨r, List.mem_of_find?_eq_some hk, hr⟩
      rw [hany]
      exact hk.symm
    | none =>
      have hany : (rules.any fun r => acceptsAt r k) = false := by
        rw [List.any_eq_false]
        exact List.find?_eq_none.mp hk
      rw [hany]
      exact ih

theorem mem_of_filed {rules : List R} {r : R} (h : filed keys acceptsAt rules = some r) :
    r ∈ rules := by
  obtain ⟨k, _, hk⟩ := List.exists_of_findSome?_eq_some h
  exact List.mem_of_find?_eq_some hk

variable {keys acceptsAt} (hkeys : ∀ r k, acceptsAt r k = true → k ∈ keys r)
include hkeys

theorem flat_of_at {r : R} {k : K} (h : acceptsAt r k = true) : (keys r).any (acceptsAt r) = true :=
  List.any_eq_true.mpr ⟨k, hkeys r k h, h⟩

/-- One search comes to a rule exactly when the other does. -/
theorem firstKey_isSome (rules : List R) :
    (firstKey keys acceptsAt rules).isSome = (flat keys acceptsAt rules).isSome := by
  rw [Bool.eq_iff_iff, firstKey, flat, List.find?_isSome, List.find?_isSome]
  refine ⟨fun h => ?_, fun h => ?_⟩
  · obtain ⟨k, _, hk⟩ := h
    obtain ⟨r, hr, ha⟩ := List.any_eq_true.mp hk
    exact ⟨r, hr, flat_of_at hkeys ha⟩
  · obtain ⟨r, hr, ha⟩ := h
    obtain ⟨k, hk, hat⟩ := List.any_eq_true.mp ha
    exact ⟨k, List.mem_flatMap.mpr ⟨r, hr, hk⟩, List.any_eq_true.mpr ⟨r, hr, hat⟩⟩

/-- **Filing keeps the order exactly if the first rule to accept does so through the first
key through which anything is accepted.** -/
theorem filed_eq_flat_iff (rules : List R) :
    filed keys acceptsAt rules = flat keys acceptsAt rules ↔
      ∀ k, firstKey keys acceptsAt rules = some k →
        ∀ r, flat keys acceptsAt rules = some r → acceptsAt r k = true := by
  rw [filed_eq]
  have hsome := firstKey_isSome hkeys rules
  cases hk : firstKey keys acceptsAt rules with
  | none =>
    rw [hk] at hsome
    rw [Option.not_isSome_iff_eq_none.mp (Bool.eq_false_iff.mp hsome.symm)]
    simp
  | some k =>
    rw [hk] at hsome
    obtain ⟨r, hr⟩ := Option.isSome_iff_exists.mp hsome.symm
    rw [hr]
    show rules.find? _ = some r ↔ _
    refine ⟨fun h k' hk' r' hr' => ?_, fun h => ?_⟩
    · cases hk'
      cases hr'
      exact List.find?_some (p := fun r => acceptsAt r k) h
    · exact find?_of_imp (fun x => flat_of_at hkeys) hr (h k rfl r rfl)

end FirstMatch
