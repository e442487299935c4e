import Webrockets.Library.Transition

/-! What the steps of a machine emit, and machines that follow one another.

Where a machine follows another one step by step, it follows its runs; what it emits, and what
holds all along, can be read off the one that is followed. -/
namespace Transition
variable {A B S T E F : Type}

/-- What is emitted along a schedule. -/
def emitted (step : A → S → Option S) (out : A → S → List E) (s : S) : List A → List E
  | [] => []
  | a :: rest => out a s ++ (step a s).elim [] fun t => emitted step out t rest

variable {step : A → S → Option S} {next : B → T → Option T} {out : A → S → List E}
  {event : A → S → List B} {s t : S}

theorem emitted_cons {a : A} {rest : List A} (h : step a s = some t) :
    emitted step out s (a :: rest) = out a s ++ emitted step out t rest := by
  rw [emitted, h, Option.elim_some]

theorem emitted_singleton (a : A) (s : S) : emitted step out s [a] = out a s := by
  show out a s ++ (step a s).elim [] (fun _ => []) = _
  cases step a s <;> exact List.append_nil _

theorem emitted_concat {actions : List A} (h : run step s actions = some t) (a : A) :
    emitted step out s (actions ++ [a]) = emitted step out s actions ++ out a t := by
  induction actions generalizing s with
  | nil =>
    cases h
    exact emitted_singleton a t
  | cons b rest ih =>
    obtain ⟨m, hm, hrest⟩ := run_cons.mp h
    rw [List.cons_append, emitted_cons hm, emitted_cons hm, ih hrest, List.append_assoc]

theorem emitted_append {a b : List A} (h : run step s a = some t) :
    emitted step out s (a ++ b) = emitted step out s a ++ emitted step out t b := by
  induction a generalizing s with
  | nil =>
    cases h
    rfl
  | cons x rest ih =>
    obtain ⟨m, hm, hrest⟩ := run_cons.mp h
    rw [List.cons_append, emitted_cons hm, emitted_cons hm, ih hrest, List.append_assoc]

theorem emitted_filter (P : E → Bool) (s : S) (actions : List A) :
    emitted step (fun a s => (out a s).filter P) s actions = (emitted step out s actions).filter P := by
  induction actions generalizing s with
  | nil => rfl
  | cons a rest ih =>
    rw [emitted, emitted, List.filter_append]
    cases step a s with
    | none => rfl
    | some t => exact congrArg _ (ih t)

theorem emitted_map (f : E → F) (s : S) (actions : List A) :
    emitted step (fun a s => (out a s).map f) s actions = (emitted step out s actions).map f := by
  induction actions generalizing s with
  | nil => rfl
  | cons a rest ih =>
    rw [emitted, emitted, List.map_append]
    cases step a s with
    | none => rfl
    | some t => exact congrArg _ (ih t)

/-- What is emitted is emitted in a step. -/
theorem mem_emitted {actions : List A} (h : run step s actions = some t) {x : E}
    (hx : x ∈ emitted step out s actions) :
    ∃ first a rest m u, actions = first ++ a :: rest ∧ run step s first = some m ∧
      step a m = some u ∧ x ∈ out a m := by
  induction actions generalizing s with
  | nil => cases hx
  | cons a rest ih =>
    obtain ⟨m, hm, hrest⟩ := run_cons.mp h
    rw [emitted_cons hm] at hx
    rcases List.mem_append.mp hx with hx | hx
    · exact ⟨[], a, rest, s, m, rfl, rfl, hm, hx⟩
    · obtain ⟨first, b, after, m', u, rfl, hm', hu, hx⟩ := ih hrest hx
      exact ⟨a :: first, b, after, m', u, rfl, run_cons.mpr ⟨m, hm, hm'⟩, hu, hx⟩

/-- A machine that follows another one, step by step, follows its runs. -/
theorem run_follows {R : S → T → Prop}
    (hstep : ∀ a s s' t, R s t → step a s = some s' →
      ∃ t', run next t (event a s) = some t' ∧ R s' t')
    (actions : List A) {s s' : S} {t : T} (hR : R s t) (h : run step s actions = some s') :
    ∃ t', run next t (emitted step event s actions) = some t' ∧ R s' t' := by
  induction actions generalizing s t with
  | nil =>
    cases h
    exact ⟨t, rfl, hR⟩
  | cons a rest ih =>
    obtain ⟨m, hm, hrest⟩ := run_cons.mp h
    obtain ⟨u, hu, hRm⟩ := hstep a s m t hR hm
    obtain ⟨t', ht', hR'⟩ := ih hRm hrest
    exact ⟨t', by rw [emitted_cons hm]; exact run_join hu ht', hR'⟩

/-- Whatever is emitted, read off the machine that is followed. -/
theorem emitted_follows {R : S → T → Prop} {heard : B → T → List F} {f : F → Option E}
    (hstep : ∀ a s s' t, R s t → step a s = some s' →
      ∃ t', run next t (event a s) = some t' ∧ R s' t')
    (hout : ∀ a s s' t, R s t → step a s = some s' →
      out a s = (emitted next heard t (event a s)).filterMap f)
    (actions : List A) {s s' : S} {t : T} (hR : R s t) (h : run step s actions = some s') :
    emitted step out s actions =
      (emitted next heard t (emitted step event s actions)).filterMap f := by
  induction actions generalizing s t with
  | nil => rfl
  | cons a rest ih =>
    obtain ⟨m, hm, hrest⟩ := run_cons.mp h
    obtain ⟨u, hu, hRm⟩ := hstep a s m t hR hm
    rw [emitted_cons hm, emitted_cons hm, emitted_append hu, List.filterMap_append,
      ← hout a s m t hR hm, ih hRm hrest]

/-- What the followed machine emits, it emits in a step of the one that follows. -/
theorem mem_emitted_follows {R : S → T → Prop} {heard : B → T → List F}
    (hstep : ∀ a s s' t, R s t → step a s = some s' →
      ∃ t', run next t (event a s) = some t' ∧ R s' t')
    (actions : List A) {s s' : S} {t : T} (hR : R s t) (h : run step s actions = some s') {x : F}
    (hx : x ∈ emitted next heard t (emitted step event s actions)) :
    ∃ first a rest m u n, actions = first ++ a :: rest ∧ run step s first = some m ∧
      step a m = some u ∧ R m n ∧ x ∈ emitted next heard n (event a m) := by
  induction actions generalizing s t with
  | nil => cases hx
  | cons a rest ih =>
    obtain ⟨m, hm, hrest⟩ := run_cons.mp h
    obtain ⟨u, hu, hRm⟩ := hstep a s m t hR hm
    rw [emitted_cons hm, emitted_append hu] at hx
    rcases List.mem_append.mp hx with hx | hx
    · exact ⟨[], a, rest, s, m, t, rfl, rfl, hm, hR, hx⟩
    · obtain ⟨first, b, after, m', u', n, rfl, hm', hu', hRn, hx⟩ := ih hRm hrest hx
      exact ⟨a :: first, b, after, m', u', n, rfl, run_cons.mpr ⟨m, hm, hm'⟩, hu', hRn, hx⟩

/-- What holds all along of a machine that follows in single steps holds of the one followed. -/
theorem always_follows {R : S → T → Prop} {P : S → Prop} {Q : T → Prop}
    (hstep : ∀ a s s' t, R s t → step a s = some s' →
      ∃ t', run next t (event a s) = some t' ∧ R s' t')
    (hone : ∀ a s, event a s = [] ∨ ∃ b, event a s = [b]) (hPQ : ∀ s t, R s t → P s → Q t)
    (actions : List A) {s s' : S} {t : T} (hR : R s t) (h : run step s actions = some s')
    (hP : Always step P s actions) : Always next Q t (emitted step event s actions) := by
  induction actions generalizing s t with
  | nil => exact hPQ s t hR hP
  | cons a rest ih =>
    obtain ⟨m, hm, hrest⟩ := run_cons.mp h
    obtain ⟨u, hu, hRm⟩ := hstep a s m t hR hm
    have hlater := ih hRm hrest (hP.2 m hm)
    rw [emitted_cons hm]
    rcases hone a s with hnil | ⟨b, hb⟩
    · rw [hnil] at hu ⊢
      obtain rfl := Option.some.inj hu
      exact hlater
    · rw [hb] at hu ⊢
      obtain ⟨u', hu', hend⟩ := run_cons.mp hu
      obtain rfl := Option.some.inj hend
      exact (always_cons hu').mpr ⟨hPQ s t hR hP.1, hlater⟩

end Transition
