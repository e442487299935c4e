import Webrockets.Publication

/-! When a broadcaster is given up on a worker (`broadcaster.rs`).

The runtime of a broadcaster goes with its last handle, and a worker of another runtime panics
where it drops one. A call that does so has its answer and tells its caller that it has
panicked. An `abroadcast` whose future is cancelled tells of that alone. A setup or a reset does
so while it holds the lock, and no later call gets a broadcaster: `nothing_panics`. -/
namespace Webrockets.Broadcasting
open Transition JsonText

variable {codec : Codec} {castError : DictValue → PyErr} {s t : Broadcasting}

/-! ### Where a runtime is dropped -/

theorem Counted.last_in_slot {b : Nat} (hs : Counted s) (hslot : s.slot = some b) :
    (s.broadcaster b).strong = 1 ↔ ¬ ∃ k, (s.call k).Holds b := by
  obtain ⟨calls, husers, hstrong⟩ := hs.strong b
  rw [hstrong, kept, if_pos hslot]
  have hcard : calls.card = 0 ↔ ¬ ∃ k, (s.call k).Holds b := by
    rw [Finset.card_eq_zero, Finset.eq_empty_iff_forall_notMem, not_exists]
    exact forall_congr' fun k => not_congr (husers k)
  rw [← hcard]
  omega

theorem Counted.last_in_call {k : Nat} {p : Publication} (hs : Counted s)
    (hk : s.call k = .sending p) : (s.broadcaster p.broadcaster).strong = 1 ↔
      ¬ (s.slot = some p.broadcaster ∨ ∃ j, j ≠ k ∧ (s.call j).Holds p.broadcaster) := by
  obtain ⟨calls, husers, hstrong⟩ := hs.strong p.broadcaster
  have hmem : k ∈ calls := by
    rw [husers, hk]
    rfl
  have hpos := Finset.card_pos.mpr ⟨k, hmem⟩
  have hcard : calls.card = 1 ↔ ¬ ∃ j, j ≠ k ∧ (s.call j).Holds p.broadcaster := by
    constructor
    · rintro hone ⟨j, hj, hholds⟩
      exact hj (Finset.card_le_one.mp (Nat.le_of_eq hone) j ((husers j).mpr hholds) k hmem)
    · intro hnone
      refine Nat.le_antisymm (Finset.card_le_one.mpr fun i hi j hj => ?_) hpos
      have honly : ∀ j ∈ calls, j = k := fun j hj => by
        by_contra hne
        exact hnone ⟨j, hne, (husers j).mp hj⟩
      rw [honly i hi, honly j hj]
  rw [hstrong, kept, not_or, ← hcard]
  by_cases hslot : s.slot = some p.broadcaster
  · simp only [hslot, if_true, not_true_eq_false, false_and, iff_false]
    omega
  · simp [hslot]

/-- Somebody else has a handle of what a step on a worker gives up and has to report. -/
def Shared (castError : DictValue → PyErr) : Action → Broadcasting → Prop
  | .setup ctx dict runtime, s => ctx.hasRuntime = true →
      (∃ x, Broadcaster.new castError dict runtime = .ok x) →
        ∀ b, s.slot = some b → ∃ k, (s.call k).Holds b
  | .reset ctx, s => ctx.hasRuntime = true → ∀ b, s.slot = some b → ∃ k, (s.call k).Holds b
  | .finish k, s => ∀ p, s.call k = .sending p → p.ctx.hasRuntime = true →
      s.slot = some p.broadcaster ∨ ∃ j, j ≠ k ∧ (s.call j).Holds p.broadcaster
  | _, _ => True

/-- The lock can be taken, and every call has come back to its caller. -/
def Unharmed (s : Broadcasting) : Prop :=
  s.poisoned = false ∧ ∀ k p, s.call k ≠ .done p .panicked

theorem init_unharmed : Unharmed init := ⟨rfl, fun _ _ h => nomatch h⟩

theorem dropPanics_eq_false {ctx : Context} {b : Nat} :
    s.dropPanics ctx b = false ↔ (ctx.hasRuntime = true → (s.broadcaster b).strong ≠ 1) := by
  unfold dropPanics
  cases ctx.hasRuntime <;> simp

theorem poisoned_replace (hlock : s.poisoned = false) (ctx : Context) (slot : Option Nat) :
    (s.replace ctx slot).2.poisoned = false ↔ ∀ b, s.slot = some b → s.dropPanics ctx b = false := by
  unfold replace
  cases hslot : s.slot with
  | none => simpa using hlock
  | some old => simp

/-- A call that begins does no harm. -/
theorem unharmed_begin (stage : Publication.Stage) (hs : Counted s)
    (hstage : ∀ p, stage ≠ .done p .panicked) (hcall : t.call = Server.set s.call s.called stage)
    (hlock : t.poisoned = s.poisoned) : Unharmed t ↔ Unharmed s := by
  rw [Unharmed, Unharmed, hlock, hcall]
  refine and_congr_right fun _ => forall_congr' fun k => forall_congr' fun p => not_congr ?_
  by_cases hk : k = s.called
  · subst hk
    rw [Server.set_self, hs.called _ (Nat.le_refl _)]
    exact ⟨fun h => absurd h (hstage p), fun h => nomatch h⟩
  · rw [Server.set_of_ne _ hk]

theorem Counted.unharmed_refuse (hs : Counted s) (e : PyErr) :
    Unharmed (s.refuse e) ↔ Unharmed s :=
  unharmed_begin (.refused e) hs (fun _ h => by cases h) rfl rfl

theorem Counted.unharmed_lend (hs : Counted s) (p : Publication) :
    Unharmed (s.lend p) ↔ Unharmed s :=
  unharmed_begin (.sending p) hs (fun _ h => by cases h) rfl rfl

theorem Counted.unharmed_replace (hs : Counted s) {r : Broadcasting} {ctx : Context}
    {slot : Option Nat} (hlock : s.poisoned = false) (hr : r.poisoned = s.poisoned)
    (hcall : r.call = s.call) (hslot : r.slot = s.slot)
    (hstrong : ∀ b, s.slot = some b → (r.broadcaster b).strong = (s.broadcaster b).strong) :
    Unharmed (r.replace ctx slot).2 ↔ Unharmed s ∧
      (ctx.hasRuntime = true → ∀ b, s.slot = some b → ∃ k, (s.call k).Holds b) := by
  have hpanics : (r.replace ctx slot).2.poisoned = false ↔
      (ctx.hasRuntime = true → ∀ b, s.slot = some b → ∃ k, (s.call k).Holds b) := by
    rw [poisoned_replace (hr.trans hlock), hslot]
    constructor
    · intro h hctx b hb
      have hne := dropPanics_eq_false.mp (h b hb) hctx
      rw [hstrong b hb, ne_eq, hs.last_in_slot hb, not_not] at hne
      exact hne
    · intro h b hb
      refine dropPanics_eq_false.mpr fun hctx => ?_
      rw [hstrong b hb, ne_eq, hs.last_in_slot hb, not_not]
      exact h hctx b hb
  obtain ⟨_, hcall', _⟩ := replace_kept r ctx slot
  rw [Unharmed, hpanics, hcall', hcall, Unharmed]
  exact ⟨fun h => ⟨⟨hlock, h.2⟩, h.1⟩, fun h => ⟨h.2, h.1.2⟩⟩

/-- A call that ends does harm where it ends in a panic. -/
theorem unharmed_conclude {k : Nat} {p : Publication} (hk : s.call k = .sending p)
    (outcome : Outcome) : Unharmed (s.conclude k p outcome) ↔ Unharmed s ∧ outcome ≠ .panicked := by
  have hself : (s.conclude k p outcome).call k = .done p outcome := setCall_self _ _ _
  have hother {j : Nat} (hj : j ≠ k) : (s.conclude k p outcome).call j = s.call j :=
    setCall_of_ne (s.dropHandle p.broadcaster) hj _
  rw [Unharmed, Unharmed, and_assoc]
  refine and_congr_right fun _ => ⟨fun h => ⟨fun j q hj => ?_, ?_⟩, fun h j q hj => ?_⟩
  · have hne : j ≠ k := by
      rintro rfl
      rw [hk] at hj
      cases hj
    exact h j q ((hother hne).trans hj)
  · rintro rfl
    exact h k p hself
  · by_cases hne : j = k
    · subst hne
      exact h.2 (Publication.Stage.done.inj (hself.symm.trans hj)).2
    · exact h.1 j q ((hother hne).symm.trans hj)

theorem Counted.outcomeOf_panicked (hs : Counted s) {k : Nat} {p : Publication} {answer : Answer}
    (hk : s.call k = .sending p) :
    s.outcomeOf p answer ≠ .panicked ↔ (p.ctx.hasRuntime = true →
      s.slot = some p.broadcaster ∨ ∃ j, j ≠ k ∧ (s.call j).Holds p.broadcaster) := by
  have hpanics : s.dropPanics p.ctx p.broadcaster = false ↔ (p.ctx.hasRuntime = true →
      s.slot = some p.broadcaster ∨ ∃ j, j ≠ k ∧ (s.call j).Holds p.broadcaster) := by
    rw [dropPanics_eq_false, ne_eq, hs.last_in_call hk, not_not]
  have hanswer : answer.outcome ≠ .panicked := by cases answer <;> exact fun h => nomatch h
  rw [← hpanics, outcomeOf]
  cases s.dropPanics p.ctx p.broadcaster with
  | false => simpa using hanswer
  | true => simp

theorem step_unharmed (a : Action) (s t : Broadcasting) (hs : Counted s)
    (h : step codec castError a s = some t) :
    Unharmed t ↔ Unharmed s ∧ Shared castError a s := by
  cases step_effect h with
  | failed why =>
    refine (and_iff_left_of_imp fun hu _ hnew => ?_).symm
    obtain ⟨x, hx⟩ := hnew
    rcases why with hlock | ⟨e, he⟩
    · rw [hu.1] at hlock
      cases hlock
    · rw [he] at hx
      cases hx
  | stuck lock =>
    refine (and_iff_left_of_imp fun hu => ?_).symm
    rw [hu.1] at lock
    cases lock
  | @installed ctx dict runtime x lock new =>
    refine (hs.unharmed_replace (r := s.add x) lock rfl rfl rfl fun b hb => ?_).trans ?_
    · rw [add, setBroadcaster_of_ne _ (Nat.ne_of_lt (hs.slot b hb))]
    · exact and_congr_right fun _ => forall_congr' fun _ => ⟨fun h _ => h, fun h => h ⟨x, new⟩⟩
  | reset lock => exact hs.unharmed_replace lock rfl rfl rfl fun _ _ => rfl
  | refused _ => exact (hs.unharmed_refuse _).trans (and_iff_left trivial).symm
  | arefused _ => exact (hs.unharmed_refuse _).trans (and_iff_left trivial).symm
  | begun _ => exact (hs.unharmed_lend _).trans (and_iff_left trivial).symm
  | abegun _ => exact (hs.unharmed_lend _).trans (and_iff_left trivial).symm
  | moved drives _ =>
    cases drives <;> exact (and_iff_left trivial).symm
  | published _ _ _ => exact (and_iff_left trivial).symm
  | @finished k p answer call _ =>
    refine (unharmed_conclude call _).trans (and_congr_right fun _ => ?_)
    rw [hs.outcomeOf_panicked call]
    refine ⟨fun h q hq => ?_, fun h => h p call⟩
    obtain rfl := Publication.Stage.sending.inj (call.symm.trans hq)
    exact h
  | @cancelled k p q call _ _ =>
    have hcall : (s.setPublisher p.broadcaster q).call k = .sending p := call
    refine (unharmed_conclude hcall _).trans (and_congr_right fun _ => ?_)
    exact iff_of_true (fun h => by cases h) trivial

/-- The lock is poisoned, and has been since `n` calls were made. -/
structure Stuck (n : Nat) (s : Broadcasting) : Prop where
  counted : Counted s
  lock : s.poisoned = true
  calls : ∀ k, n ≤ k → k < s.called → s.call k = .refused lockPoisoned

theorem Stuck.unavailable {n : Nat} (hs : Stuck n s) : s.getBroadcaster = .error lockPoisoned := by
  rw [getBroadcaster, if_pos hs.lock]

theorem Stuck.refuse {n : Nat} (hs : Stuck n s) : Stuck n (s.refuse lockPoisoned) := by
  refine ⟨hs.counted.refuse _, hs.lock, fun k hn hk => ?_⟩
  by_cases hne : k = s.called
  · subst hne
    exact setCall_self _ _ _
  · have hlt : k < s.called := Nat.lt_of_le_of_ne (Nat.le_of_lt_succ hk) hne
    exact (setCall_of_ne s hne _).trans (hs.calls k hn hlt)

theorem Stuck.conclude {n k : Nat} {p : Publication} {outcome : Outcome} (hs : Stuck n s)
    (hk : s.call k = .sending p) (ht : Counted (s.conclude k p outcome)) :
    Stuck n (s.conclude k p outcome) := by
  refine ⟨ht, hs.lock, fun j hn hj => ?_⟩
  have hcall := hs.calls j hn hj
  have hne : j ≠ k := by
    rintro rfl
    rw [hk] at hcall
    cases hcall
  exact (setCall_of_ne (s.dropHandle p.broadcaster) hne _).trans hcall

theorem step_stuck {n : Nat} (a : Action) (s t : Broadcasting) (hs : Stuck n s)
    (h : step codec castError a s = some t) : Stuck n t := by
  have ht := step_counted a s t hs.counted h
  have hget := hs.unavailable
  cases step_effect h with
  | failed _ | stuck _ => exact hs
  | installed lock _ | reset lock =>
    rw [hs.lock] at lock
    cases lock
  | refused why =>
    obtain rfl := Except.error.inj (hget.symm.trans why)
    exact hs.refuse
  | arefused why =>
    rcases why with why | ⟨⟨b, hb⟩, _⟩
    · obtain rfl := Except.error.inj (hget.symm.trans why)
      exact hs.refuse
    · rw [hget] at hb
      cases hb
  | begun has | abegun has =>
    rw [hget] at has
    cases has
  | moved _ _ | published _ _ _ => exact ⟨ht, hs.lock, hs.calls⟩
  | finished call _ => exact hs.conclude call ht
  | @cancelled k p q call _ _ =>
    have hmoved : Stuck n (s.setPublisher p.broadcaster q) :=
      ⟨hs.counted.setPublisher _ _, hs.lock, hs.calls⟩
    exact hmoved.conclude call ht

/-- **When nothing panics.** In every run the lock stays sound and every call comes back to its
caller, exactly where of whatever a setup, a reset or a call that is not cancelled gives up on a worker,
somebody else has a handle. Once the lock is poisoned, every later call is refused and publishes nothing. -/
theorem nothing_panics (codec : Codec) (castError : DictValue → PyErr) (actions : List Action)
    (s : Broadcasting) (h : run (step codec castError) init actions = some s) :
    ((s.poisoned = false ∧ ∀ k p, s.call k ≠ .done p .panicked) ↔
      Meets (step codec castError) (Shared castError) init actions) ∧
    (s.poisoned = true → ∀ after t, run (step codec castError) s after = some t →
      t.poisoned = true ∧
      ∀ k, s.called ≤ k → k < t.called → t.call k = .refused lockPoisoned ∧ t.count k = 0) := by
  have hiff := last_iff_meets (Q := Unharmed) step_counted step_unharmed actions h init_counted
  refine ⟨hiff.trans (and_iff_right init_unharmed), fun hlock after t ht => ?_⟩
  have htracked := run_invariant step_tracked actions h (init_tracked codec)
  have hstuck := run_invariant step_stuck after ht
    ⟨htracked.counted, hlock, fun k hn hk => absurd hk (Nat.not_lt.mpr hn)⟩
  refine ⟨hstuck.lock, fun k hn hk => ⟨hstuck.calls k hn hk, ?_⟩⟩
  refine (run_invariant step_tracked after ht htracked).count_eq_zero ?_
  rw [hstuck.calls k hn hk]
  rfl

/-- The broadcaster is reset while a coroutine waits for it. The message is published, and
what the coroutine gets is a panic. -/
theorem nothing_panics_reset :
    ∃ s, run (step .shortest fun _ => .typeError "not a str") init
        (broadcasting (.abroadcast .eventLoop ["room"] "hi") [.reset .thread]) = some s ∧
      s.call 0 = .done ⟨0, .worker, ["room"], "hi", true⟩ .panicked ∧ s.count 0 = 1 ∧
      ¬ Meets (step .shortest fun _ => .typeError "not a str")
        (Shared fun _ => .typeError "not a str") init
        (broadcasting (.abroadcast .eventLoop ["room"] "hi") [.reset .thread]) := by
  refine ⟨_, rfl, rfl, rfl, fun hmeets => ?_⟩
  have hfine := (nothing_panics .shortest (fun _ => .typeError "not a str")
    (broadcasting (.abroadcast .eventLoop ["room"] "hi") [.reset .thread]) _ rfl).1.mpr hmeets
  exact hfine.2 0 ⟨0, .worker, ["room"], "hi", true⟩ rfl

end Webrockets.Broadcasting
