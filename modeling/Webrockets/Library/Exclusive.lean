import Mathlib.Logic.Function.Basic
import Webrockets.Library.Follow

/-! Exclusive queues: a queue belongs to the connection that has declared it.

Connections declare queues under names and bind them to exchanges. A name that is in use is not
to be had, whatever connection asks; it is free again when the connection that has it is closed.
What is published to an exchange goes to the queues that are bound to it, and from there to the
connections, also to those that have been closed meanwhile and still have something to take. So
of all connections that use one name, none takes what another one has taken (`run_once`), and as
long as one of them holds the queue the others get nothing (`run_held`). -/
open Transition

/-- A queue is listed with the connection that it belongs to, and whether it is bound. -/
structure Exclusive (C N X M : Type) where
  log : List (X × M)
  queue : N → Option (C × Bool)
  inbox : C → List (M × Nat)

namespace Exclusive
variable {C N X M : Type}

def new : Exclusive C N X M := ⟨[], fun _ => none, fun _ => []⟩

inductive Event (C X M : Type) where
  | declare (c : C)
  | bind (c : C)
  | publish (x : X) (m : M)
  | take (c : C)
  | close (c : C)

def published (events : List (Event C X M)) : List (X × M) :=
  events.filterMap fun
    | .publish x m => some (x, m)
    | _ => none

/-- What a connection takes in an event. -/
def taken : Event C X M → Exclusive C N X M → List (C × M × Nat)
  | .take c, s => ((s.inbox c).take 1).map (c, ·)
  | _, _ => []

theorem published_cons (e : Event C X M) (events : List (Event C X M)) :
    published (e :: events) = published [e] ++ published events := by
  rw [published, published, published, ← List.filterMap_append, List.singleton_append]

section Machine
variable [DecidableEq C] [DecidableEq N] [DecidableEq X] (name : C → N) (exchange : C → X)

/-- The queue is the connection's and is bound. -/
def Holds (c : C) (s : Exclusive C N X M) : Prop := s.queue (name c) = some (c, true)

instance (c : C) (s : Exclusive C N X M) : Decidable (Holds name c s) :=
  inferInstanceAs (Decidable (_ = _))

def setQueue (s : Exclusive C N X M) (n : N) (q : Option (C × Bool)) : Exclusive C N X M :=
  { s with queue := Function.update s.queue n q }

def setInbox (s : Exclusive C N X M) (c : C) (l : List (M × Nat)) : Exclusive C N X M :=
  { s with inbox := Function.update s.inbox c l }

def publish (s : Exclusive C N X M) (x : X) (m : M) : Exclusive C N X M := { s with
  log := s.log ++ [(x, m)]
  inbox := fun c =>
    if Holds name c s ∧ exchange c = x then s.inbox c ++ [(m, s.log.length)] else s.inbox c }

def step : Event C X M → Exclusive C N X M → Option (Exclusive C N X M)
  | .declare c, s =>
    if s.queue (name c) = none then some (s.setQueue (name c) (some (c, false))) else none
  | .bind c, s =>
    if (s.queue (name c)).map Prod.fst = some c then some (s.setQueue (name c) (some (c, true)))
    else none
  | .publish x m, s => some (s.publish name exchange x m)
  | .take c, s =>
    match s.inbox c with
    | _ :: rest => some (s.setInbox c rest)
    | [] => none
  | .close c, s =>
    some (if (s.queue (name c)).map Prod.fst = some c then s.setQueue (name c) none else s)

/-- What each event requires and does. -/
inductive Moves (s : Exclusive C N X M) : Event C X M → Exclusive C N X M → Prop where
  | declare (c : C) (h : s.queue (name c) = none) :
      Moves s (.declare c) (s.setQueue (name c) (some (c, false)))
  | bind (c : C) (bound : Bool) (h : s.queue (name c) = some (c, bound)) :
      Moves s (.bind c) (s.setQueue (name c) (some (c, true)))
  | publish (x : X) (m : M) : Moves s (.publish x m) (s.publish name exchange x m)
  | take (c : C) (x : M × Nat) (rest : List (M × Nat)) (h : s.inbox c = x :: rest) :
      Moves s (.take c) (s.setInbox c rest)
  | close (c : C) (bound : Bool) (h : s.queue (name c) = some (c, bound)) :
      Moves s (.close c) (s.setQueue (name c) none)
  | closed (c : C) : Moves s (.close c) s

/-- What the queue of `c` gets in an event. -/
def gets (c : C) : Event C X M → Exclusive C N X M → List (M × Nat)
  | .publish x m, s => if Holds name c s ∧ exchange c = x then [(m, s.log.length)] else []
  | _, _ => []

/-- All that the connections take. -/
def takes (s : Exclusive C N X M) (events : List (Event C X M)) : List (C × M × Nat) :=
  emitted (step name exchange) taken s events

/-- What `c` takes. -/
def takesOf (c : C) (s : Exclusive C N X M) (events : List (Event C X M)) : List (M × Nat) :=
  ((takes name exchange s events).filter fun x => x.1 = c).map Prod.snd

def given (c : C) (s : Exclusive C N X M) (events : List (Event C X M)) : List (M × Nat) :=
  emitted (step name exchange) (gets name exchange c) s events

end Machine

variable {name : C → N} {exchange : C → X} {s t : Exclusive C N X M} {e : Event C X M}
  {events : List (Event C X M)} {c d : C}

theorem owner_eq_some {n : N} (h : (s.queue n).map Prod.fst = some c) :
    ∃ bound, s.queue n = some (c, bound) := by
  obtain ⟨⟨d, bound⟩, hd, rfl⟩ := Option.map_eq_some_iff.mp h
  exact ⟨bound, hd⟩

/-- A queue after one has been given away, or freed. -/
theorem queue_setQueue [DecidableEq N] {n m : N} {q : Option (C × Bool)} {x : C × Bool}
    (h : (s.setQueue n q).queue m = some x) : m = n ∧ q = some x ∨ s.queue m = some x := by
  have hupdate : Function.update s.queue n q m = some x := h
  by_cases hm : m = n
  · subst hm
    rw [Function.update_self] at hupdate
    exact .inl ⟨rfl, hupdate⟩
  · rw [Function.update_of_ne hm] at hupdate
    exact .inr hupdate

theorem Holds.unique (hc : Holds name c s) (hname : name d = name c) (hne : d ≠ c) :
    ¬ Holds name d s := by
  intro hd
  rw [Holds, hname, hc] at hd
  exact hne (Prod.mk.inj (Option.some.inj hd)).1.symm

variable [DecidableEq X]

/-- What is published to an exchange, with its places. -/
def arriving (x : X) (start : Nat) (events : List (Event C X M)) : List (M × Nat) :=
  ((published events).zipIdx start).filterMap fun e =>
    if e.1.1 = x then some (e.1.2, e.2) else none

theorem arriving_cons (x : X) (start : Nat) (e : Event C X M) (events : List (Event C X M)) :
    arriving x start (e :: events) =
      arriving x start [e] ++ arriving x (start + (published [e]).length) events := by
  rw [arriving, arriving, arriving, published_cons, List.zipIdx_append, List.filterMap_append]

variable [DecidableEq C]

theorem mem_gets {x : M × Nat} : x ∈ gets name exchange c e s ↔
    e = .publish (exchange c) x.1 ∧ Holds name c s ∧ x.2 = s.log.length := by
  obtain ⟨m, n⟩ := x
  cases e with
  | publish y m' =>
    by_cases h : Holds name c s ∧ exchange c = y
    · simp [gets, h, eq_comm]
    · simp only [gets, if_neg h, List.not_mem_nil, false_iff, Event.publish.injEq]
      rintro ⟨⟨rfl, _⟩, hholds, _⟩
      exact h ⟨hholds, rfl⟩
  | declare d | bind d | take d | close d => simp [gets]

theorem gets_of_holds (hc : Holds name c s) :
    gets name exchange c e s = arriving (exchange c) s.log.length [e] := by
  cases e with
  | publish x m =>
    simp only [gets, hc, true_and]
    by_cases hx : exchange c = x
    · simp [arriving, published, hx]
    · simp [arriving, published, hx, Ne.symm hx]
  | declare d | bind d | take d | close d => rfl

theorem gets_eq_nil (hc : ¬ Holds name c s) : gets name exchange c e s = [] := by
  rw [List.eq_nil_iff_forall_not_mem]
  exact fun x hx => hc (mem_gets.mp hx).2.1

variable [DecidableEq N]

/-! ### Events -/

theorem step_moves (h : step name exchange e s = some t) : Moves name exchange s e t := by
  cases e with
  | declare c =>
    simp only [step] at h
    split at h
    · next hfree =>
      obtain rfl := Option.some.inj h
      exact .declare c hfree
    · cases h
  | bind c =>
    simp only [step] at h
    split at h
    · next howner =>
      obtain rfl := Option.some.inj h
      obtain ⟨bound, hbound⟩ := owner_eq_some howner
      exact .bind c bound hbound
    · cases h
  | publish x m =>
    obtain rfl := Option.some.inj h
    exact .publish x m
  | take c =>
    simp only [step] at h
    split at h
    · next x rest hinbox =>
      obtain rfl := Option.some.inj h
      exact .take c x rest hinbox
    · cases h
  | close c =>
    simp only [step] at h
    split at h
    · next howner =>
      obtain rfl := Option.some.inj h
      obtain ⟨bound, hbound⟩ := owner_eq_some howner
      exact .close c bound hbound
    · obtain rfl := Option.some.inj h
      exact .closed c

theorem step_log (h : step name exchange e s = some t) : t.log = s.log ++ published [e] := by
  cases step_moves h with
  | publish x m => rfl
  | declare c h | bind c bound h | take c x rest h | close c bound h | closed c =>
    exact (List.append_nil _).symm

theorem run_log (h : run (step name exchange) s events = some t) :
    t.log = s.log ++ published events := by
  induction events generalizing s with
  | nil =>
    cases h
    exact (List.append_nil _).symm
  | cons e rest ih =>
    obtain ⟨m, hm, hrest⟩ := run_cons.mp h
    rw [ih hrest, step_log hm, published_cons e rest, List.append_assoc]

/-! ### What is given and taken -/

/-- What the queue of a connection gets comes to the connection, and stays until it is taken. -/
theorem step_inbox (h : step name exchange e s = some t) (c : C) :
    s.inbox c ++ gets name exchange c e s =
      ((taken e s).filter fun x => x.1 = c).map Prod.snd ++ t.inbox c := by
  cases step_moves h with
  | declare d h | bind d bound h | close d bound h | closed d => exact List.append_nil _
  | publish x m =>
    show s.inbox c ++ (if Holds name c s ∧ exchange c = x then [(m, s.log.length)] else []) =
      if Holds name c s ∧ exchange c = x then s.inbox c ++ [(m, s.log.length)] else s.inbox c
    split
    · rfl
    · exact List.append_nil _
  | take d x rest hinbox =>
    show s.inbox c ++ [] = _
    rw [List.append_nil, taken, hinbox]
    by_cases hd : d = c
    · subst hd
      simp [hinbox, setInbox]
    · simp [hd, setInbox, Function.update_of_ne (Ne.symm hd)]

/-- **Every message is accounted for.** -/
theorem run_inbox (h : run (step name exchange) s events = some t) (c : C) :
    s.inbox c ++ given name exchange c s events = takesOf name exchange c s events ++ t.inbox c := by
  induction events generalizing s with
  | nil =>
    cases h
    exact List.append_nil _
  | cons e rest ih =>
    obtain ⟨m, hm, hrest⟩ := run_cons.mp h
    have hgiven : given name exchange c s (e :: rest) = gets name exchange c e s ++ _ := emitted_cons hm
    have htakes : takes name exchange s (e :: rest) = taken e s ++ _ := emitted_cons hm
    rw [hgiven, ← List.append_assoc, step_inbox hm, List.append_assoc]
    show _ ++ (m.inbox c ++ given name exchange c m rest) = _
    rw [ih hrest, takesOf, takesOf, htakes, List.filter_append, List.map_append, List.append_assoc]
    rfl

/-- Only taking takes. -/
theorem takes_eq_nil (h : ∀ e ∈ events, ∀ c, e ≠ .take c) (s : Exclusive C N X M) :
    takes name exchange s events = [] := by
  induction events generalizing s with
  | nil => rfl
  | cons e rest ih =>
    have hfirst : taken e s = [] := by
      cases e with
      | take c => exact absurd rfl (h _ List.mem_cons_self c)
      | declare c | bind c | publish x m | close c => rfl
    show taken e s ++ (step name exchange e s).elim [] (fun u => takes name exchange u rest) = []
    rw [hfirst, List.nil_append]
    cases step name exchange e s with
    | none => rfl
    | some u => exact ih (fun e' he' => h e' (List.mem_cons_of_mem _ he')) u

/-- What was given is in the log, in its order, and different from what other connections were
given under the same name. -/
structure Apart (name : C → N) (exchange : C → X) (events : List (Event C X M))
    (s : Exclusive C N X M) : Prop where
  logged : ∀ c, ∀ x ∈ given name exchange c new events, s.log[x.2]? = some (exchange c, x.1)
  increasing : ∀ c, (given name exchange c new events).Pairwise fun x y => x.2 < y.2
  apart : ∀ c d, name c = name d → c ≠ d → ∀ x ∈ given name exchange c new events,
    ∀ y ∈ given name exchange d new events, x.2 ≠ y.2

theorem run_apart (h : run (step name exchange) new events = some s) :
    Apart name exchange events s := by
  refine run_history (P := Apart name exchange) ⟨fun _ _ h => (nomatch h),
    fun _ => .nil, fun _ _ _ _ _ h => (nomatch h)⟩ ?_ events h
  intro events e s t hs ih he
  have hgiven (c : C) : given name exchange c new (events ++ [e]) =
      given name exchange c new events ++ gets name exchange c e s := emitted_concat hs e
  have hold {c : C} {x : M × Nat} (hx : x ∈ given name exchange c new events) :
      x.2 < s.log.length := (List.getElem?_eq_some_iff.mp (ih.logged c x hx)).1
  refine ⟨fun c x hx => ?_, fun c => ?_, fun c d hname hcd x hx y hy => ?_⟩
  · rw [step_log he]
    rw [hgiven] at hx
    rcases List.mem_append.mp hx with hx | hx
    · rw [List.getElem?_append_left (hold hx)]
      exact ih.logged c x hx
    · obtain ⟨rfl, _, hserial⟩ := mem_gets.mp hx
      rw [hserial, List.getElem?_append_right (Nat.le_refl _), Nat.sub_self]
      rfl
  · rw [hgiven]
    refine List.pairwise_append.mpr ⟨ih.increasing c, ?_, fun x hx y hy => ?_⟩
    · unfold gets
      split
      · split
        · exact List.pairwise_singleton _ _
        · exact .nil
      · exact .nil
    · rw [(mem_gets.mp hy).2.2]
      exact hold hx
  · rw [hgiven] at hx hy
    rcases List.mem_append.mp hx with hx | hx <;> rcases List.mem_append.mp hy with hy | hy
    · exact ih.apart c d hname hcd x hx y hy
    · rw [(mem_gets.mp hy).2.2]
      exact Nat.ne_of_lt (hold hx)
    · rw [(mem_gets.mp hx).2.2]
      exact Nat.ne_of_gt (hold hy)
    · -- the queue is one connection's
      have hc : s.queue (name c) = some (c, true) := (mem_gets.mp hx).2.1
      have hd : s.queue (name d) = some (d, true) := (mem_gets.mp hy).2.1
      rw [hname, hd] at hc
      exact absurd (Prod.mk.inj (Option.some.inj hc)).1.symm hcd

theorem mem_takesOf {x : M × Nat} :
    x ∈ takesOf name exchange c s events ↔ (c, x) ∈ takes name exchange s events := by
  simp only [takesOf, List.mem_map, List.mem_filter, decide_eq_true_eq]
  constructor
  · rintro ⟨⟨d, y⟩, ⟨hy, rfl⟩, rfl⟩
    exact hy
  · exact fun hx => ⟨(c, x), ⟨hx, rfl⟩, rfl⟩

/-- A list in which what belongs to one is in order, and what belongs to two is different. -/
theorem pairwise_of_groups {R : C → C → Prop} {l : List (C × M × Nat)}
    (hone : ∀ c, ((l.filter fun x => x.1 = c).map Prod.snd).Pairwise fun x y => x.2 < y.2)
    (htwo : ∀ x ∈ l, ∀ y ∈ l, R x.1 y.1 → x.1 ≠ y.1 → x.2.2 ≠ y.2.2) :
    l.Pairwise fun x y => R x.1 y.1 → x.2.2 ≠ y.2.2 := by
  induction l with
  | nil => exact .nil
  | cons x rest ih =>
    refine List.pairwise_cons.mpr ⟨fun y hy hname => ?_, ih (fun c => ?_) fun a ha b hb =>
      htwo a (List.mem_cons_of_mem _ ha) b (List.mem_cons_of_mem _ hb)⟩
    · by_cases hxy : x.1 = y.1
      · have hfirst := hone y.1
        rw [List.filter_cons_of_pos (by simpa using hxy), List.map_cons] at hfirst
        refine Nat.ne_of_lt ((List.pairwise_cons.mp hfirst).1 y.2 ?_)
        exact List.mem_map_of_mem (List.mem_filter.mpr ⟨hy, by simp⟩)
      · exact htwo x List.mem_cons_self y (List.mem_cons_of_mem _ hy) hname hxy
    · refine (hone c).sublist (List.Sublist.map _ ?_)
      exact (List.sublist_cons_self x rest).filter _

/-- **No message is taken twice under one name**, by whatever connections, and each as it was
published to the exchange of who takes it. -/
theorem run_once (h : run (step name exchange) new events = some s) :
    ((takes name exchange new events).Pairwise fun x y =>
      name x.1 = name y.1 → x.2.2 ≠ y.2.2) ∧
    ∀ x ∈ takes name exchange new events, s.log[x.2.2]? = some (exchange x.1, x.2.1) := by
  have hapart := run_apart h
  have hgiven (c : C) : given name exchange c new events =
      takesOf name exchange c new events ++ s.inbox c := run_inbox h c
  have htaken {x : C × M × Nat} (hx : x ∈ takes name exchange new events) :
      x.2 ∈ given name exchange x.1 new events := by
    rw [hgiven]
    exact List.mem_append_left _ (mem_takesOf.mpr hx)
  refine ⟨pairwise_of_groups (R := fun c d => name c = name d) (fun c => ?_)
    (fun x hx y hy hname hne => ?_), fun x hx => hapart.logged x.1 x.2 (htaken hx)⟩
  · have hincreasing := hapart.increasing c
    rw [hgiven] at hincreasing
    exact (List.pairwise_append.mp hincreasing).1
  · exact hapart.apart x.1 y.1 hname hne x.2 (htaken hx) y.2 (htaken hy)

/-! ### A queue that is held -/

/-- **Who holds a queue gets everything, and the others nothing.** -/
theorem run_held (h : run (step name exchange) s events = some t)
    (hc : Always (step name exchange) (Holds name c) s events) :
    s.inbox c ++ arriving (exchange c) s.log.length events =
        takesOf name exchange c s events ++ t.inbox c ∧
      ∀ d, name d = name c → d ≠ c →
        s.inbox d = takesOf name exchange d s events ++ t.inbox d := by
  have hboth : given name exchange c s events = arriving (exchange c) s.log.length events ∧
      ∀ d, name d = name c → d ≠ c → given name exchange d s events = [] := by
    induction events generalizing s with
    | nil => exact ⟨rfl, fun _ _ _ => rfl⟩
    | cons e rest ih =>
      obtain ⟨m, hm, hrest⟩ := run_cons.mp h
      have hholds := always_start hc
      obtain ⟨hself, hothers⟩ := ih hrest (hc.2 m hm)
      have hgiven (d : C) : given name exchange d s (e :: rest) =
          gets name exchange d e s ++ given name exchange d m rest := emitted_cons hm
      refine ⟨?_, fun d hname hne => ?_⟩
      · rw [hgiven, hself, gets_of_holds hholds, arriving_cons _ _ e rest, step_log hm,
          List.length_append]
      · rw [hgiven, hothers d hname hne, gets_eq_nil (hholds.unique hname hne), List.append_nil]
  refine ⟨?_, fun d hname hne => ?_⟩
  · rw [← hboth.1]
    exact run_inbox h c
  · rw [← run_inbox h d, hboth.2 d hname hne, List.append_nil]

end Exclusive
