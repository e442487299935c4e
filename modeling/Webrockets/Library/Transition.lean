import Mathlib.Data.List.Induction

/-! Runs of a machine given by a partial step function.

`step a s` is what action `a` makes of state `s`, and `none` where `a` is not
enabled. A *schedule* is a list of actions. `run` is the state a schedule leads
to; `Always` speaks of every state it passes through, `Meets` of every action it
takes. The rules below are the inductions over schedules that a development on
top of a machine needs: what one step keeps, a run keeps. -/
namespace Transition
variable {A S : Type}

/-- The state after a schedule, if every action of it is enabled when its turn comes. -/
def run (step : A → S → Option S) (s : S) : List A → Option S
  | [] => some s
  | a :: rest => (step a s).bind fun t => run step t rest

/-- Every state the schedule passes through, the first and the last included, satisfies `P`. -/
def Always (step : A → S → Option S) (P : S → Prop) (s : S) : List A → Prop
  | [] => P s
  | a :: rest => P s ∧ ∀ t, step a s = some t → Always step P t rest

/-- Every action meets `G` in the state in which it is taken. -/
def Meets (step : A → S → Option S) (G : A → S → Prop) (s : S) : List A → Prop
  | [] => True
  | a :: rest => G a s ∧ ∀ t, step a s = some t → Meets step G t rest

variable {step : A → S → Option S} {P Q : S → Prop} {G : A → S → Prop} {s t : S}

theorem run_cons {a : A} {rest : List A} :
    run step s (a :: rest) = some t ↔ ∃ m, step a s = some m ∧ run step m rest = some t := by
  simp only [run, Option.bind_eq_some_iff]

theorem run_singleton {a : A} (h : step a s = some t) : run step s [a] = some t :=
  run_cons.mpr ⟨t, h, rfl⟩

theorem run_append (s : S) (a b : List A) :
    run step s (a ++ b) = (run step s a).bind fun t => run step t b := by
  induction a generalizing s with
  | nil => rfl
  | cons x rest ih =>
    simp only [List.cons_append, run]
    cases step x s with
    | none => rfl
    | some m => exact ih m

theorem run_split {a b : List A} (h : run step s (a ++ b) = some t) :
    ∃ m, run step s a = some m ∧ run step m b = some t := by
  rw [run_append] at h
  exact Option.bind_eq_some_iff.mp h

theorem run_join {a b : List A} {m : S} (ha : run step s a = some m) (hb : run step m b = some t) :
    run step s (a ++ b) = some t := by
  rw [run_append, ha]
  exact hb

theorem meets_cons {a : A} {rest : List A} (h : step a s = some t) :
    Meets step G s (a :: rest) ↔ G a s ∧ Meets step G t rest := by
  refine and_congr_right fun _ => ⟨fun hall => hall t h, fun hrest m hm => ?_⟩
  obtain rfl : t = m := Option.some.inj (h.symm.trans hm)
  exact hrest

theorem meets_singleton {a : A} (h : G a s) : Meets step G s [a] := ⟨h, fun _ _ => trivial⟩

theorem meets_join {a b : List A} {m : S} (ha : run step s a = some m) (hg : Meets step G s a)
    (hb : Meets step G m b) : Meets step G s (a ++ b) := by
  induction a generalizing s with
  | nil =>
    obtain rfl : s = m := by simpa [run] using ha
    exact hb
  | cons x rest ih =>
    obtain ⟨t, ht, hrest⟩ := run_cons.mp ha
    exact (meets_cons ht).mpr ⟨hg.1, ih hrest (hg.2 t ht)⟩

/-- Whether a schedule keeps to a guard can be computed. -/
instance [∀ a s, Decidable (G a s)] : ∀ (s : S) (actions : List A), Decidable (Meets step G s actions)
  | _, [] => isTrue trivial
  | s, a :: rest =>
    match h : step a s with
    | none => decidable_of_iff (G a s) ⟨fun hg => ⟨hg, fun _ ht => nomatch h.symm.trans ht⟩, And.left⟩
    | some t =>
      have := instDecidableMeets t rest
      decidable_of_iff (G a s ∧ Meets step G t rest) (meets_cons h).symm

theorem always_cons {a : A} {rest : List A} (h : step a s = some t) :
    Always step P s (a :: rest) ↔ P s ∧ Always step P t rest := by
  refine and_congr_right fun _ => ⟨fun hall => hall t h, fun hrest m hm => ?_⟩
  obtain rfl : t = m := Option.some.inj (h.symm.trans hm)
  exact hrest

/-- Whether it holds all along, too. -/
instance [∀ s, Decidable (P s)] : ∀ (s : S) (actions : List A), Decidable (Always step P s actions)
  | s, [] => inferInstanceAs (Decidable (P s))
  | s, a :: rest =>
    match h : step a s with
    | none => decidable_of_iff (P s) ⟨fun hs => ⟨hs, fun _ ht => nomatch h.symm.trans ht⟩, And.left⟩
    | some t =>
      have := instDecidableAlways t rest
      decidable_of_iff (P s ∧ Always step P t rest) (always_cons h).symm

/-- What every step keeps, every run keeps. -/
theorem run_invariant (hstep : ∀ a s t, P s → step a s = some t → P t) (actions : List A)
    (h : run step s actions = some t) (hs : P s) : P t := by
  induction actions generalizing s with
  | nil =>
    obtain rfl : s = t := by simpa [run] using h
    exact hs
  | cons a rest ih =>
    obtain ⟨m, hm, hrest⟩ := run_cons.mp h
    exact ih hrest (hstep a s m hs hm)

/-- What speaks of the schedule as well. -/
theorem run_history {P : List A → S → Prop} (hnil : P [] s)
    (hstep : ∀ actions a m t, run step s actions = some m → P actions m → step a m = some t →
      P (actions ++ [a]) t)
    (actions : List A) (h : run step s actions = some t) : P actions t := by
  induction actions using List.reverseRecOn generalizing t with
  | nil =>
    obtain rfl : s = t := by simpa [run] using h
    exact hnil
  | append_singleton actions a ih =>
    obtain ⟨m, hm, hlast⟩ := run_split h
    obtain ⟨u, hu, hend⟩ := run_cons.mp hlast
    obtain rfl : u = t := by simpa [run] using hend
    exact hstep actions a m u hm (ih hm) hu

/-- All along a run too. -/
theorem always_of_invariant (hstep : ∀ a s t, P s → step a s = some t → P t) (actions : List A)
    (hs : P s) : Always step P s actions := by
  induction actions generalizing s with
  | nil => exact hs
  | cons a rest ih => exact ⟨hs, fun m hm => ih (hstep a s m hs hm)⟩

theorem always_start {actions : List A} (h : Always step P s actions) : P s := by
  cases actions with
  | nil => exact h
  | cons a rest => exact h.1

theorem always_last {actions : List A} (h : Always step P s actions)
    (hr : run step s actions = some t) : P t := by
  induction actions generalizing s with
  | nil =>
    obtain rfl : s = t := by simpa [run] using hr
    exact h
  | cons a rest ih =>
    obtain ⟨m, hm, hrest⟩ := run_cons.mp hr
    exact ih (h.2 m hm) hrest

theorem always_concat {a : A} {actions : List A} (h : Always step P s actions)
    (ha : ∀ t, run step s actions = some t → ∀ u, step a t = some u → P u) :
    Always step P s (actions ++ [a]) := by
  induction actions generalizing s with
  | nil => exact ⟨h, ha s rfl⟩
  | cons b rest ih =>
    exact ⟨h.1, fun m hm => ih (h.2 m hm) fun t ht => ha t (run_cons.mpr ⟨m, hm, ht⟩)⟩

theorem always_drop {a b : List A} {m : S} (h : Always step P s (a ++ b))
    (ha : run step s a = some m) : Always step P m b := by
  induction a generalizing s with
  | nil =>
    obtain rfl : s = m := by simpa [run] using ha
    exact h
  | cons x rest ih =>
    obtain ⟨t, ht, hrest⟩ := run_cons.mp ha
    exact ih (h.2 t ht) hrest

theorem always_mono (hpq : ∀ s, P s → Q s) {actions : List A} (h : Always step P s actions) :
    Always step Q s actions := by
  induction actions generalizing s with
  | nil => exact hpq s h
  | cons a rest ih => exact ⟨hpq s h.1, fun m hm => ih (h.2 m hm)⟩

theorem always_and {actions : List A} (hp : Always step P s actions)
    (hq : Always step Q s actions) : Always step (fun s => P s ∧ Q s) s actions := by
  induction actions generalizing s with
  | nil => exact ⟨hp, hq⟩
  | cons a rest ih => exact ⟨⟨hp.1, hq.1⟩, fun m hm => ih (hp.2 m hm) (hq.2 m hm)⟩

theorem always_forall {I : Sort*} {P : I → S → Prop} {actions : List A}
    (h : ∀ i, Always step (P i) s actions) : Always step (fun s => ∀ i, P i s) s actions := by
  induction actions generalizing s with
  | nil => exact h
  | cons a rest ih => exact ⟨fun i => (h i).1, fun m hm => ih fun i => (h i).2 m hm⟩

theorem meets_of_forall {actions : List A} (h : ∀ a ∈ actions, ∀ s, G a s) (s : S) :
    Meets step G s actions := by
  induction actions generalizing s with
  | nil => trivial
  | cons a rest ih =>
    exact ⟨h a List.mem_cons_self s, fun t _ => ih (fun b hb => h b (List.mem_cons_of_mem _ hb)) t⟩

/-- A guarded step invariant holds all along a schedule that keeps to the guard. -/
theorem always_of_meets (hstep : ∀ a s t, P s → G a s → step a s = some t → P t)
    (actions : List A) (hg : Meets step G s actions) (hs : P s) : Always step P s actions := by
  induction actions generalizing s with
  | nil => exact hs
  | cons a rest ih => exact ⟨hs, fun m hm => ih (hg.2 m hm) (hstep a s m hs hg.1 hm)⟩

/-- Where the state after a step shows that the step kept to the guard, a run
that is good all along kept to it all along. -/
theorem meets_of_always (hback : ∀ a s t, P s → step a s = some t → P t → G a s)
    (actions : List A) (hr : run step s actions = some t) (h : Always step P s actions) :
    Meets step G s actions := by
  induction actions generalizing s with
  | nil => trivial
  | cons a rest ih =>
    obtain ⟨m, hm, hrest⟩ := run_cons.mp hr
    refine ⟨hback a s m h.1 hm (always_start (h.2 m hm)), fun m' hm' => ?_⟩
    obtain rfl : m = m' := Option.some.inj (hm.symm.trans hm')
    exact ih hrest (h.2 m hm)

/-- A guard that carries an invariant along carries along what the two give. -/
theorem meets_of_guarded {H : A → S → Prop} (hstep : ∀ a s t, P s → G a s → step a s = some t → P t)
    (hguard : ∀ a s, P s → G a s → H a s) (actions : List A) (hg : Meets step G s actions)
    (hs : P s) : Meets step H s actions := by
  induction actions generalizing s with
  | nil => trivial
  | cons a rest ih =>
    exact ⟨hguard a s hs hg.1, fun m hm => ih (hg.2 m hm) (hstep a s m hs hg.1 hm)⟩

theorem meets_of_invariant (hstep : ∀ a s t, P s → step a s = some t → P t)
    (hguard : ∀ a s, P s → G a s) (actions : List A) (hs : P s) : Meets step G s actions := by
  induction actions generalizing s with
  | nil => trivial
  | cons a rest ih => exact ⟨hguard a s hs, fun m hm => ih (hstep a s m hs hm)⟩

/-- What is good after a step exactly where it was good before and the step keeps to the
guard, is good after a run exactly where it was good before and the run keeps to it. -/
theorem last_iff_meets (hstep : ∀ a s t, P s → step a s = some t → P t)
    (hiff : ∀ a s t, P s → step a s = some t → (Q t ↔ Q s ∧ G a s)) (actions : List A)
    (hr : run step s actions = some t) (hs : P s) : Q t ↔ Q s ∧ Meets step G s actions := by
  induction actions generalizing s with
  | nil =>
    obtain rfl : s = t := by simpa [run] using hr
    exact (and_iff_left trivial).symm
  | cons a rest ih =>
    obtain ⟨m, hm, hrest⟩ := run_cons.mp hr
    rw [ih hrest (hstep a s m hs hm), hiff a s m hs hm, meets_cons hm, and_assoc]

end Transition
