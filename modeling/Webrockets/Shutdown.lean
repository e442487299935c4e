import Webrockets.Restart

/-! When a `stop` is heard (`start`, `stop` and `runserver` of `server.rs`, and `listen`).

A call of `start` first sees to the event loop of Python and then enters `runserver`, which
takes the signals so far as seen. The listener that it spawns has a receiver of its own, and
takes the signals so far as seen when it first runs. So a `stop` that comes between the call
and either of these moments is lost on the one that comes later: `stop_heard`. -/
namespace Webrockets
open Transition JsonText

/-- A call of `start`. `failed` is one that finds no event loop, and `running` one that has come
to `runserver`, which is a runner of `Restarts`. -/
inductive StartCall where
  | uncalled
  | entered
  | failed
  | running (runner : Nat)
  deriving DecidableEq, Repr

/-- A server, the calls of its `start`, and which listener each of its runners has spawned. -/
structure Process where
  server : Restarts
  call : Nat → StartCall
  listenerOf : Nat → Option Nat

namespace Process

def init (broker : Bool) : Process := ⟨.init broker, fun _ => .uncalled, fun _ => none⟩

inductive Action where
  | call (j : Nat)
  /-- `start_python_event_loop` raises. -/
  | fail (j : Nat)
  | runserver (j : Nat)
  | server (a : Restarts.Action)

def stop : Action := .server .stop

/-- The listener of a runner, if it spawns one. -/
def spawns (p : Process) : Restarts.Action → Nat → Option Nat
  | .spawn k => if p.server.broker then Server.set p.listenerOf k (some p.server.spawned)
    else p.listenerOf
  | _ => p.listenerOf

def step (codec : Codec) : Action → Process → Option Process
  | .call j, p =>
    match p.call j with
    | .uncalled => some { p with call := Server.set p.call j .entered }
    | _ => none
  | .fail j, p =>
    match p.call j with
    | .entered => some { p with call := Server.set p.call j .failed }
    | _ => none
  | .runserver j, p =>
    match p.call j with
    | .entered => (Restarts.step codec .start p.server).map fun s =>
      { p with server := s, call := Server.set p.call j (.running p.server.starts) }
    | _ => none
  -- nobody but a call of `start` enters `runserver`
  | .server .start, _ => none
  | .server a, p => (Restarts.step codec a p.server).map fun s =>
    { p with server := s, listenerOf := p.spawns a }

/-! ### What a step does -/

/-- What an action makes of a process. -/
inductive Effect (codec : Codec) (p : Process) : Action → Process → Prop where
  | call {j : Nat} (uncalled : p.call j = .uncalled) :
      Effect codec p (.call j) { p with call := Server.set p.call j .entered }
  | fail {j : Nat} (entered : p.call j = .entered) :
      Effect codec p (.fail j) { p with call := Server.set p.call j .failed }
  | runserver {j : Nat} {s : Restarts} (entered : p.call j = .entered)
      (starts : Restarts.step codec .start p.server = some s) :
      Effect codec p (.runserver j)
        { p with server := s, call := Server.set p.call j (.running p.server.starts) }
  | server {a : Restarts.Action} {s : Restarts} (other : a ≠ .start)
      (steps : Restarts.step codec a p.server = some s) :
      Effect codec p (.server a) { p with server := s, listenerOf := p.spawns a }

variable {codec : Codec} {p q : Process} {j k : Nat}

theorem step_server (codec : Codec) (p : Process) {a : Restarts.Action} (h : a ≠ .start) :
    step codec (.server a) p = (Restarts.step codec a p.server).map fun s =>
      { p with server := s, listenerOf := p.spawns a } := by
  cases a with
  | start => exact absurd rfl h
  | _ => rfl

theorem step_effect {a : Action} (h : step codec a p = some q) : Effect codec p a q := by
  cases a with
  | call j =>
    simp only [step] at h
    split at h
    · next huncalled =>
      cases h
      exact .call huncalled
    · cases h
  | fail j =>
    simp only [step] at h
    split at h
    · next hentered =>
      cases h
      exact .fail hentered
    · cases h
  | runserver j =>
    simp only [step] at h
    split at h
    · next hentered =>
      obtain ⟨s, hs, rfl⟩ := Option.map_eq_some_iff.mp h
      exact .runserver hentered hs
    · cases h
  | server a =>
    by_cases hstart : a = .start
    · subst hstart
      cases h
    · rw [step_server codec p hstart] at h
      obtain ⟨s, hs, rfl⟩ := Option.map_eq_some_iff.mp h
      exact .server hstart hs

end Process

/-! ### Runners and their receivers -/

namespace Runner

/-- What a runner looks at the signal with, until it has taken it up. -/
def receiver : Runner → Option Watch.Receiver
  | .entered rx | .binding rx | .serving rx => some rx
  | _ => none

/-- A runner that has not come to its listener. -/
def early : Runner → Bool
  | .uncalled | .entered _ => true
  | _ => false

end Runner

namespace Restarts
variable {codec : Codec} {s t : Restarts}

/-- The next stage of runner `k`. -/
inductive Next (k : Nat) : Action → Runner → Runner → Prop where
  | spawn (rx : Watch.Receiver) : Next k (.spawn k) (.entered rx) (.binding rx)
  | bind (rx : Watch.Receiver) (ok : Bool) :
      Next k (.bind k ok) (.binding rx) (if ok then .serving rx else .returned false)
  | signal (rx : Watch.Receiver) (ctrlC : Bool) : Next k (.signal k ctrlC) (.serving rx) .draining
  | finish : Next k (.finish k) .draining (.returned true)

theorem runner_cases {a : Action} (h : step codec a s = some t) (ha : a ≠ .start) :
    t.runner = s.runner ∨
      ∃ k r, Next k a (s.runner k) r ∧ t.runner = Server.set s.runner k r := by
  cases a with
  | start => exact absurd rfl ha
  | spawn k =>
    simp only [step] at h
    split at h
    · next rx hrx =>
      have hr : t.runner = Server.set s.runner k (.binding rx) := by
        split at h <;> (cases h; rfl)
      exact .inr ⟨k, _, hrx ▸ .spawn rx, hr⟩
    · cases h
  | bind k ok =>
    simp only [step] at h
    split at h
    · next rx hrx =>
      cases h
      exact .inr ⟨k, _, hrx ▸ .bind rx ok, rfl⟩
    · cases h
  | signal k ctrlC =>
    simp only [step] at h
    split at h
    · next rx hrx =>
      split at h
      · cases h
        exact .inr ⟨k, _, hrx ▸ .signal rx ctrlC, rfl⟩
      · cases h
    · cases h
  | finish k =>
    simp only [step] at h
    split at h
    · next hdraining =>
      cases h
      exact .inr ⟨k, _, hdraining ▸ .finish, rfl⟩
    · cases h
  | turn i turn =>
    obtain ⟨l, _, rfl⟩ := Option.map_eq_some_iff.mp h
    exact .inl rfl
  | receive i =>
    simp only [step] at h
    split at h
    · cases h
      exact .inl rfl
    · cases h
  | stop | publish payload | serve channels outgoing =>
    cases h
    exact .inl rfl

/-- A runner keeps its receiver until it lets go of it. -/
theorem runner_step {a : Action} (h : step codec a s = some t) (ha : a ≠ .start) (k : Nat) :
    ((t.runner k).receiver = (s.runner k).receiver ∨ (t.runner k).receiver = none) ∧
      (t.runner k = .uncalled ↔ s.runner k = .uncalled) ∧
      (a ≠ .spawn k → (t.runner k).early = (s.runner k).early) := by
  rcases runner_cases h ha with hsame | ⟨j, r, hnext, hset⟩
  · rw [hsame]
    exact ⟨.inl rfl, Iff.rfl, fun _ => rfl⟩
  · rw [hset]
    by_cases hk : k = j
    · subst hk
      rw [Server.set_self]
      generalize s.runner k = old at hnext
      cases hnext with
      | spawn rx => exact ⟨.inl rfl, by simp, fun hne => absurd rfl hne⟩
      | bind rx ok => cases ok <;> simp [Runner.receiver, Runner.early]
      | signal rx ctrlC => simp [Runner.receiver, Runner.early]
      | finish => simp [Runner.receiver, Runner.early]
    · rw [Server.set_of_ne _ hk]
      exact ⟨.inl rfl, Iff.rfl, fun _ => rfl⟩

theorem spawn_early {k : Nat} (h : step codec (.spawn k) s = some t) :
    (s.runner k).early = true ∧ (t.runner k).early = false := by
  simp only [step] at h
  split at h
  · next rx hrx =>
    have hr : t.runner k = .binding rx := by
      split at h <;> (cases h; exact Server.set_self _ _ _)
    rw [hrx, hr]
    exact ⟨rfl, rfl⟩
  · cases h

/-- What most steps leave alone. -/
theorem frame_step {a : Action} (h : step codec a s = some t) : t.broker = s.broker ∧
    (a ≠ .start → t.starts = s.starts) ∧ (a ≠ .stop → t.shutdown = s.shutdown) := by
  cases a with
  | start =>
    cases h
    exact ⟨rfl, fun hne => absurd rfl hne, fun _ => rfl⟩
  | stop =>
    cases h
    exact ⟨rfl, fun _ => rfl, fun hne => absurd rfl hne⟩
  | publish payload | serve channels outgoing =>
    cases h
    exact ⟨rfl, fun _ => rfl, fun _ => rfl⟩
  | turn i turn =>
    obtain ⟨l, _, rfl⟩ := Option.map_eq_some_iff.mp h
    exact ⟨rfl, fun _ => rfl, fun _ => rfl⟩
  | spawn k | signal k ctrlC =>
    simp only [step] at h
    split at h
    · split at h <;> cases h <;> exact ⟨rfl, fun _ => rfl, fun _ => rfl⟩
    · cases h
  | bind k ok | finish k | receive i =>
    simp only [step] at h
    split at h <;> cases h
    exact ⟨rfl, fun _ => rfl, fun _ => rfl⟩

theorem version_step {a : Action} (h : step codec a s = some t) :
    s.shutdown.version ≤ t.shutdown.version := by
  by_cases ha : a = .stop
  · subst ha
    cases h
    exact Nat.le_succ _
  · rw [(frame_step h).2.2 ha]

/-- A task that was spawned stays one. -/
theorem spawned_step {a : Action} (h : step codec a s = some t) {i : Nat}
    (hi : (s.listener i).stage ≠ .unspawned) : (t.listener i).stage ≠ .unspawned := by
  cases step_effect h with
  | same listener _ _ _ _ _ => rwa [listener]
  | spawn runner _ eq =>
    subst eq
    by_cases hne : i = s.spawned
    · subst hne
      simp [Listener.new]
    · rwa [setListener_of_ne hne]
  | turn j turn l turned eq =>
    subst eq
    by_cases hne : i = j
    · subst hne
      rw [setListener_self]
      exact (shutdown_turn turned).1.1
    · rwa [setListener_of_ne hne]
  | receive j d inbox stage eq =>
    subst eq
    by_cases hne : i = j
    · subst hne
      simp
    · rwa [receives_of_ne hne]
  | publish payload _ eq =>
    subst eq
    show ((s.listener i).deliver _).stage ≠ .unspawned
    generalize s.listener i = l at hi
    obtain ⟨stage, shutdown, backoff⟩ := l
    cases stage <;> simp_all [Listener.deliver]

theorem step_spawn (codec : Codec) {k : Nat} {rx : Watch.Receiver} (hk : s.runner k = .entered rx) :
    ∃ t, step codec (.spawn k) s = some t ∧ t.shutdown = s.shutdown ∧
      t.runner = Server.set s.runner k (.binding rx) ∧
      (s.broker = true → t.listener s.spawned = .new s.shutdownRx) := by
  cases hb : s.broker with
  | false =>
    refine ⟨{ s with runner := Server.set s.runner k (.binding rx) }, ?_, rfl, rfl,
      fun h => nomatch h⟩
    simp [step, hk, hb]
  | true =>
    refine ⟨({ s with runner := Server.set s.runner k (.binding rx), spawned := s.spawned + 1 } :
      Restarts).setListener s.spawned (.new s.shutdownRx), ?_, rfl, rfl, fun _ => setListener_self⟩
    simp [step, hk, hb]

end Restarts

/-! ### How calls, runners and listeners are linked -/

namespace Process
variable {codec : Codec} {p q : Process} {i j k : Nat}

structure Linked (p : Process) : Prop where
  numbered : Restarts.Numbered p.server
  seen : Restarts.Seen p.server
  /-- Nobody has seen a signal that was not sent. -/
  receiver : ∀ k rx, (p.server.runner k).receiver = some rx → rx.seen ≤ p.server.shutdown.version
  uncalled : ∀ k, p.server.runner k = .uncalled ↔ p.server.starts ≤ k
  called : ∀ j k, p.call j = .running k → k < p.server.starts
  early : ∀ k, (p.server.runner k).early = true → p.listenerOf k = none
  late : p.server.broker = true → ∀ k, (p.server.runner k).early = false → ∃ i, p.listenerOf k = some i
  brokerless : p.server.broker = false → ∀ k, p.listenerOf k = none
  spawned : ∀ k i, p.listenerOf k = some i → (p.server.listener i).stage ≠ .unspawned

theorem init_linked (broker : Bool) : Linked (init broker) where
  numbered := Restarts.init_numbered broker
  seen := Restarts.init_seen broker
  receiver := fun _ _ h => nomatch h
  uncalled := fun k => ⟨fun _ => Nat.zero_le k, fun _ => rfl⟩
  called := fun _ _ h => nomatch h
  early := fun _ _ => rfl
  late := fun _ _ h => nomatch h
  brokerless := fun _ _ => rfl
  spawned := fun _ _ h => nomatch h

/-- Only the step that spawns it changes which listener a runner has. -/
theorem spawns_of_ne {a : Restarts.Action} (h : a ≠ .spawn k) : p.spawns a k = p.listenerOf k := by
  cases a with
  | spawn other =>
    have hne : k ≠ other := by
      rintro rfl
      exact h rfl
    simp only [spawns]
    split
    · exact Server.set_of_ne _ hne _
    · rfl
  | _ => rfl

theorem spawns_spawn (hbroker : p.server.broker = true) :
    p.spawns (.spawn k) k = some p.server.spawned := by
  simp only [spawns, hbroker, if_true, Server.set_self]

/-- A listener that was spawned before, or now. -/
theorem spawns_cases {a : Restarts.Action} (h : p.spawns a k = some i) :
    p.listenerOf k = some i ∨ a = .spawn k ∧ p.server.broker = true ∧ i = p.server.spawned := by
  by_cases ha : a = .spawn k
  · subst ha
    simp only [spawns] at h
    split at h
    · next hbroker =>
      rw [Server.set_self, Option.some.injEq] at h
      exact .inr ⟨rfl, hbroker, h.symm⟩
    · exact .inl h
  · rw [spawns_of_ne ha] at h
    exact .inl h

/-- A call that comes to `runserver` has a runner of its own. -/
theorem start_linked {s : Restarts} (hp : Linked p) (hcall : p.call j = .entered)
    (h : Restarts.step codec .start p.server = some s) :
    Linked { p with server := s, call := Server.set p.call j (.running p.server.starts) } := by
  have hnumbered := Restarts.step_numbered _ _ _ hp.numbered h
  have hseen := Restarts.step_seen _ _ _ hp.seen h
  have hnew : p.listenerOf p.server.starts = none := by
    apply hp.early
    rw [(hp.uncalled _).mpr (Nat.le_refl _)]
    rfl
  cases h
  refine ⟨hnumbered, hseen, fun k rx hrx => ?_, fun k => ?_, fun i k hk => ?_, fun k hk => ?_,
    fun hbroker k hk => ?_, hp.brokerless, hp.spawned⟩
  · by_cases hk : k = p.server.starts
    · subst hk
      simp only [Server.set_self, Runner.receiver, Option.some.injEq] at hrx
      subst hrx
      exact Nat.le_refl _
    · simp only [Server.set_of_ne _ hk] at hrx
      exact hp.receiver k rx hrx
  · show Server.set p.server.runner p.server.starts _ k = .uncalled ↔ p.server.starts + 1 ≤ k
    by_cases hk : k = p.server.starts
    · subst hk
      simp
    · rw [Server.set_of_ne _ hk, hp.uncalled]
      omega
  · show k < p.server.starts + 1
    by_cases hi : i = j
    · subst hi
      simp only [Server.set_self, StartCall.running.injEq] at hk
      omega
    · simp only [Server.set_of_ne _ hi] at hk
      exact Nat.lt_succ_of_lt (hp.called i k hk)
  · by_cases hne : k = p.server.starts
    · subst hne
      exact hnew
    · simp only [Server.set_of_ne _ hne] at hk
      exact hp.early k hk
  · by_cases hne : k = p.server.starts
    · subst hne
      simp only [Server.set_self, Runner.early, Bool.true_eq_false] at hk
    · simp only [Server.set_of_ne _ hne] at hk
      exact hp.late hbroker k hk

theorem server_linked {a : Restarts.Action} {s : Restarts} (hp : Linked p) (ha : a ≠ .start)
    (h : Restarts.step codec a p.server = some s) :
    Linked { p with server := s, listenerOf := p.spawns a } := by
  obtain ⟨hbroker, hstarts, _⟩ := Restarts.frame_step h
  refine ⟨Restarts.step_numbered _ _ _ hp.numbered h, Restarts.step_seen _ _ _ hp.seen h,
    fun k rx hrx => ?_, fun k => ?_, fun i k hk => ?_, fun k hk => ?_, fun hb k hk => ?_,
    fun hb k => ?_, fun k i hi => ?_⟩
  · rcases (Restarts.runner_step h ha k).1 with hsame | hnone
    · exact Nat.le_trans (hp.receiver k rx (hsame ▸ hrx)) (Restarts.version_step h)
    · rw [hnone] at hrx
      cases hrx
  · rw [(Restarts.runner_step h ha k).2.1, hp.uncalled, hstarts ha]
  · rw [hstarts ha]
    exact hp.called i k hk
  · by_cases hspawn : a = .spawn k
    · subst hspawn
      rw [(Restarts.spawn_early h).2] at hk
      cases hk
    · rw [(Restarts.runner_step h ha k).2.2 hspawn] at hk
      exact (spawns_of_ne hspawn).trans (hp.early k hk)
  · rw [hbroker] at hb
    by_cases hspawn : a = .spawn k
    · subst hspawn
      exact ⟨_, spawns_spawn hb⟩
    · rw [(Restarts.runner_step h ha k).2.2 hspawn] at hk
      obtain ⟨i, hi⟩ := hp.late hb k hk
      exact ⟨i, (spawns_of_ne hspawn).trans hi⟩
  · rw [hbroker] at hb
    cases hi : p.spawns a k with
    | none => exact hi
    | some i =>
      rcases spawns_cases hi with hold | ⟨_, htrue, _⟩
      · rw [hp.brokerless hb k] at hold
        cases hold
      · rw [hb] at htrue
        cases htrue
  · rcases spawns_cases hi with hold | ⟨rfl, htrue, rfl⟩
    · exact Restarts.spawned_step h (hp.spawned k i hold)
    · -- the one that this step spawns
      simp only [Restarts.step] at h
      split at h
      · simp only [htrue, if_true, Option.some.injEq] at h
        subst h
        simp [Listener.new]
      · cases h

theorem step_linked (a : Action) (p q : Process) (hp : Linked p) (h : step codec a p = some q) :
    Linked q := by
  have hcalled (j : Nat) (c : StartCall) (hc : ∀ k, c ≠ .running k) :
      Linked { p with call := Server.set p.call j c } := by
    refine ⟨hp.numbered, hp.seen, hp.receiver, hp.uncalled, fun i k hk => ?_, hp.early, hp.late,
      hp.brokerless, hp.spawned⟩
    by_cases hi : i = j
    · subst hi
      exact absurd ((Server.set_self _ _ _).symm.trans hk) (hc k)
    · exact hp.called i k ((Server.set_of_ne _ hi _).symm.trans hk)
  cases step_effect h with
  | call uncalled => exact hcalled _ _ (by simp)
  | fail entered => exact hcalled _ _ (by simp)
  | runserver entered starts => exact start_linked hp entered starts
  | server other steps => exact server_linked hp other steps

/-! ### Whom a `stop` is heard by -/

/-- The serve loop of a call, and the listener that it has spawned, find the signal when they
next look. -/
structure Heard (p : Process) (j : Nat) : Prop where
  serve : ∀ k rx, p.call j = .running k → p.server.runner k = .serving rx →
    rx.hasChanged p.server.shutdown = true
  listener : ∀ k i inbox, p.call j = .running k → p.listenerOf k = some i →
    (p.server.listener i).stage = .listening inbox →
    (p.server.listener i).shutdown.hasChanged p.server.shutdown = true

/-- A call has come to `runserver`, and the listener that goes with it, if there is a broker,
has run. -/
def Attentive (p : Process) (j : Nat) : Prop :=
  match p.call j with
  | .uncalled | .entered => False
  | .failed => True
  | .running k => p.server.broker = true →
    ∃ i, p.listenerOf k = some i ∧ Restarts.Polled (p.server.listener i)

/-- Runner `k` has been told to stop, and its listener too. -/
structure Notified (k : Nat) (p : Process) : Prop where
  serve : ∀ rx, (p.server.runner k).receiver = some rx → rx.hasChanged p.server.shutdown = true
  listener : ∀ i, p.listenerOf k = some i → Restarts.Told p.server.shutdown (p.server.listener i)
  spawned : p.server.broker = true → ∃ i, p.listenerOf k = some i

theorem Notified.heard (hk : p.call j = .running k) (hp : Notified k p) : Heard p j := by
  refine ⟨fun other rx hother hrx => ?_, fun other i inbox hother hi hstage => ?_⟩
  · obtain rfl : k = other := StartCall.running.inj (hk.symm.trans hother)
    exact hp.serve rx (by rw [hrx]; rfl)
  · obtain rfl : k = other := StartCall.running.inj (hk.symm.trans hother)
    refine (hp.listener i hi).2.resolve_right fun hstopped => ?_
    rw [hstage] at hstopped
    cases hstopped

theorem hasChanged_step {a : Restarts.Action} {s t : Restarts}
    (h : Restarts.step codec a s = some t) {rx : Watch.Receiver}
    (hrx : rx.hasChanged s.shutdown = true) : rx.hasChanged t.shutdown = true := by
  have hlt : rx.seen < s.shutdown.version := of_decide_eq_true hrx
  exact decide_eq_true (Nat.lt_of_lt_of_le hlt (Restarts.version_step h))

theorem step_notified (a : Action) (p q : Process)
    (hp : Linked p ∧ p.call j = .running k ∧ Notified k p) (h : step codec a p = some q) :
    Linked q ∧ q.call j = .running k ∧ Notified k q := by
  obtain ⟨hlinked, hcall, hserve, hlistener, hspawned⟩ := hp
  refine ⟨step_linked a p q hlinked h, ?_⟩
  have hkept {i : Nat} {c : StartCall} (hi : p.call i ≠ .running k) :
      Server.set p.call i c j = .running k := by
    have hne : j ≠ i := by
      rintro rfl
      exact hi hcall
    rw [Server.set_of_ne _ hne, hcall]
  cases step_effect h with
  | call uncalled => exact ⟨hkept (by simp [uncalled]), hserve, hlistener, hspawned⟩
  | fail entered => exact ⟨hkept (by simp [entered]), hserve, hlistener, hspawned⟩
  | runserver entered starts =>
    have hne : k ≠ p.server.starts := Nat.ne_of_lt (hlinked.called j k hcall)
    cases starts
    refine ⟨hkept (by simp [entered]), fun rx hrx => ?_, hlistener, hspawned⟩
    simp only [Server.set_of_ne _ hne] at hrx
    exact hserve rx hrx
  | @server a s other steps =>
    have hbroker := (Restarts.frame_step steps).1
    -- the listener has been spawned before
    have hsame : p.spawns a k = p.listenerOf k := by
      by_cases ha : a = .spawn k
      · subst ha
        have hnone := hlinked.early k (Restarts.spawn_early steps).1
        cases hb : p.server.broker with
        | true =>
          obtain ⟨i, hi⟩ := hspawned hb
          rw [hnone] at hi
          cases hi
        | false => simp [spawns, hb]
      · exact spawns_of_ne ha
    refine ⟨hcall, fun rx hrx => ?_, fun i hi => ?_, fun hb => ?_⟩
    · rcases (Restarts.runner_step steps other k).1 with hkeep | hnone
      · exact hasChanged_step steps (hserve rx (hkeep ▸ hrx))
      · rw [hnone] at hrx
        cases hrx
    · have htold := hlistener i (hsame ▸ hi)
      exact (Restarts.step_told _ _ _ ⟨hlinked.numbered, htold⟩ steps).2
    · obtain ⟨i, hi⟩ := hspawned (hbroker ▸ hb)
      exact ⟨i, hsame.trans hi⟩

/-- Who is attentive when `stop` is called, hears it. -/
theorem notified_of_stop (hp : Linked p) (hk : p.call j = .running k) (hready : Attentive p j)
    (h : step codec stop p = some q) : Linked q ∧ q.call j = .running k ∧ Notified k q := by
  refine ⟨step_linked _ p q hp h, ?_⟩
  rw [Attentive, hk] at hready
  cases h
  refine ⟨hk, fun rx hrx => ?_, fun i hi => ?_, fun hbroker => ?_⟩
  · exact Watch.hasChanged_send (hp.receiver k rx hrx) true
  · cases hbroker : p.server.broker with
    | false =>
      have hnone := hp.brokerless hbroker k
      rw [show p.listenerOf k = some i from hi] at hnone
      cases hnone
    | true =>
      obtain ⟨i', hi', hpolled⟩ := hready hbroker
      obtain rfl : i' = i := Option.some.inj (hi'.symm.trans hi)
      exact ⟨hpolled, .inl (Watch.hasChanged_send (hp.seen.listener i') true)⟩
  · obtain ⟨i, hi, _⟩ := hready hbroker
    exact ⟨i, hi⟩

/-! ### Whom it is not heard by -/

theorem step_spawn (codec : Codec) {rx : Watch.Receiver} (hk : p.server.runner k = .entered rx) :
    ∃ q, step codec (.server (.spawn k)) p = some q ∧ q.call = p.call ∧
      q.server.shutdown = p.server.shutdown ∧ q.server.runner k = .binding rx ∧
      (p.server.broker = true → q.listenerOf k = some p.server.spawned ∧
        q.server.listener p.server.spawned = .new p.server.shutdownRx) := by
  obtain ⟨s, hs, hshutdown, hrunner, hlistener⟩ := Restarts.step_spawn codec hk
  refine ⟨{ p with server := s, listenerOf := p.spawns (.spawn k) }, ?_, rfl, hshutdown, ?_,
    fun hb => ⟨spawns_spawn hb, hlistener hb⟩⟩
  · rw [step_server codec p (by simp), hs]
    rfl
  · show s.runner k = _
    rw [hrunner, Server.set_self]

/-- A call that has not come to `runserver` serves without having heard. -/
theorem serves_after (codec : Codec) (hj : p.call j = .entered) :
    ∃ after q, run (step codec) p after = some q ∧ ¬ Heard q j := by
  have hstart : step codec (.runserver j) p = some { p with
      server := { p.server with
        starts := p.server.starts + 1
        runner := Server.set p.server.runner p.server.starts
          (.entered (p.server.shutdownRx.markUnchanged p.server.shutdown)) }
      call := Server.set p.call j (.running p.server.starts) } := by
    simp only [step, hj, Restarts.step, Option.map_some]
  obtain ⟨m, hm, hcall, hshutdown, hbinding, _⟩ := step_spawn codec (k := p.server.starts)
    (p := { p with
      server := { p.server with
        starts := p.server.starts + 1
        runner := Server.set p.server.runner p.server.starts
          (.entered (p.server.shutdownRx.markUnchanged p.server.shutdown)) }
      call := Server.set p.call j (.running p.server.starts) }) (Server.set_self _ _ _)
  refine ⟨[.runserver j, .server (.spawn p.server.starts), .server (.bind p.server.starts true)],
    { m with server := { m.server with
        runner := Server.set m.server.runner p.server.starts
          (.serving (p.server.shutdownRx.markUnchanged p.server.shutdown)) } }, ?_, fun hheard => ?_⟩
  · rw [run_cons]
    refine ⟨_, hstart, run_cons.mpr ⟨m, hm, run_cons.mpr ⟨_, ?_, rfl⟩⟩⟩
    rw [step_server codec m (by simp)]
    simp only [Restarts.step, hbinding, Option.map_some]
    rfl
  · have hserve := hheard.serve p.server.starts _ (by simp [hcall]) (Server.set_self _ _ _)
    simp [hshutdown] at hserve

/-- A listener that has not run listens without having heard. -/
theorem listens_after (codec : Codec) (hj : p.call j = .running k) (hi : p.listenerOf k = some i)
    (hstage : (p.server.listener i).stage = .spawned) :
    ∃ after q, run (step codec) p after = some q ∧ ¬ Heard q j := by
  let l : Listener := ⟨.listening [], (p.server.listener i).shutdown.markUnchanged p.server.shutdown,
    minBackoff⟩
  refine ⟨[.server (.turn i .firstPoll), .server (.turn i .subscribed), .server (.turn i .ready)],
    { p with server := p.server.setListener i l }, ?_, fun hheard => ?_⟩
  · simp [run, step, Restarts.step, Listener.turn, hstage, Restarts.setListener, spawns, l]
  · have hquiet : l.shutdown.hasChanged p.server.shutdown = false := by simp [l]
    have hlistens := hheard.listener k i [] hj hi (by simp [l])
    simp only [Restarts.setListener_self] at hlistens
    exact Bool.noConfusion (hlistens.symm.trans hquiet)

/-- After a `stop` that it is not attentive to, a call can still go on as if there had been none. -/
theorem unheard (codec : Codec) (hp : Linked p) (hj : p.call j ≠ .uncalled)
    (h : ¬ Attentive p j) : ∃ after q, run (step codec) p after = some q ∧ ¬ Heard q j := by
  cases hcall : p.call j with
  | uncalled => exact absurd hcall hj
  | entered => exact serves_after codec hcall
  | failed => exact absurd (by simp [Attentive, hcall]) h
  | running k =>
    simp only [Attentive, hcall, Classical.not_imp] at h
    obtain ⟨hbroker, hdeaf⟩ := h
    cases hearly : (p.server.runner k).early with
    | false =>
      obtain ⟨i, hi⟩ := hp.late hbroker k hearly
      refine listens_after codec hcall hi ?_
      by_contra hstage
      exact hdeaf ⟨i, hi, hp.spawned k i hi, hstage⟩
    | true =>
      obtain ⟨rx, hrx⟩ : ∃ rx, p.server.runner k = .entered rx := by
        have hcalled := hp.called j k hcall
        have hnot := (not_congr (hp.uncalled k)).mpr (by omega)
        cases hr : p.server.runner k with
        | entered rx => exact ⟨rx, rfl⟩
        | uncalled => exact absurd hr hnot
        | _ => simp [hr, Runner.early] at hearly
      obtain ⟨m, hm, hkept, _, _, hlistener⟩ := step_spawn codec hrx
      obtain ⟨hi, hnew⟩ := hlistener hbroker
      obtain ⟨after, q, hq, hquiet⟩ := listens_after codec (hkept ▸ hcall) hi (by rw [hnew]; rfl)
      exact ⟨_ :: after, q, run_cons.mpr ⟨m, hm, hq⟩, hquiet⟩

/-! ### A `stop` that came before the call -/

/-- Neither the serve loop of a call nor its listener finds a signal. -/
structure Unheard (j : Nat) (p : Process) : Prop where
  serve : ∀ k rx, p.call j = .running k → (p.server.runner k).receiver = some rx →
    rx.hasChanged p.server.shutdown = false
  listener : ∀ k i, p.call j = .running k → p.listenerOf k = some i →
    Restarts.Polled (p.server.listener i) →
    (p.server.listener i).shutdown.hasChanged p.server.shutdown = false

theorem polled_deliver {d : Delivery} {l : Listener} :
    Restarts.Polled (l.deliver d) ↔ Restarts.Polled l := by
  obtain ⟨stage, shutdown, backoff⟩ := l
  cases stage <;> simp [Listener.deliver, Restarts.Polled]

/-- The first turn takes the signals so far as seen. -/
theorem firstTurn {w : Watch Bool} {turn : Listener.Turn} {l m : Listener}
    (h : l.turn w turn = some m) (hstage : l.stage = .spawned) :
    m.shutdown = l.shutdown.markUnchanged w := by
  cases turn with
  | firstPoll =>
    simp only [Listener.turn, hstage, Option.some.injEq] at h
    subst h
    rfl
  | _ => simp only [Listener.turn, hstage, reduceCtorEq] at h

/-- A listener that runs sees no signal where none is sent. -/
theorem quiet_step {a : Restarts.Action} {s t : Restarts} (h : Restarts.step codec a s = some t)
    (ha : a ≠ .stop) (hspawned : (s.listener i).stage ≠ .unspawned)
    (hs : Restarts.Polled (s.listener i) → (s.listener i).shutdown.hasChanged s.shutdown = false)
    (ht : Restarts.Polled (t.listener i)) :
    (t.listener i).shutdown.hasChanged t.shutdown = false := by
  rw [(Restarts.frame_step h).2.2 ha]
  cases Restarts.step_effect h with
  | same listener _ _ _ _ _ =>
    rw [listener] at ht ⊢
    exact hs ht
  | spawn runner _ eq =>
    subst eq
    by_cases hi : i = s.spawned
    · subst hi
      simp [Restarts.Polled, Listener.new] at ht
    · simp only [Restarts.setListener_of_ne hi] at ht ⊢
      exact hs ht
  | turn j turn l turned eq =>
    subst eq
    by_cases hi : i = j
    · subst hi
      rw [Restarts.setListener_self]
      by_cases hfirst : (s.listener i).stage = .spawned
      · rw [firstTurn turned hfirst]
        exact Watch.hasChanged_markUnchanged
      · obtain ⟨_, hsame | ⟨hmarked, _⟩⟩ := Restarts.shutdown_turn turned
        · rw [hsame]
          exact hs ⟨hspawned, hfirst⟩
        · rw [hmarked]
          exact Watch.hasChanged_markUnchanged
    · simp only [Restarts.setListener_of_ne hi] at ht ⊢
      exact hs ht
  | receive j d inbox stage eq =>
    subst eq
    by_cases hi : i = j
    · subst hi
      rw [Restarts.receives_self]
      exact hs ⟨hspawned, by simp [stage]⟩
    · rw [Restarts.receives_of_ne hi] at ht ⊢
      exact hs ht
  | publish payload _ eq =>
    subst eq
    have hpolled : Restarts.Polled (s.listener i) := polled_deliver.mp ht
    show ((s.listener i).deliver _).shutdown.hasChanged s.shutdown = false
    rw [Restarts.shutdown_deliver]
    exact hs hpolled

theorem step_unheard (a : Action) (p q : Process) (ha : a ≠ stop) (hp : Linked p ∧ Unheard j p)
    (h : step codec a p = some q) : Linked q ∧ Unheard j q := by
  obtain ⟨hlinked, hserve, hlistener⟩ := hp
  refine ⟨step_linked a p q hlinked h, ?_⟩
  -- a call that has not come to `runserver` before has no runner
  have hcalled {i k : Nat} {c : StartCall} (hc : ∀ k, c ≠ .running k)
      (hk : Server.set p.call i c j = .running k) : p.call j = .running k := by
    by_cases hi : j = i
    · subst hi
      exact absurd ((Server.set_self _ _ _).symm.trans hk) (hc k)
    · exact (Server.set_of_ne _ hi _).symm.trans hk
  cases step_effect h with
  | call uncalled =>
    exact ⟨fun k rx hk => hserve k rx (hcalled (by simp) hk),
      fun k i hk => hlistener k i (hcalled (by simp) hk)⟩
  | fail entered =>
    exact ⟨fun k rx hk => hserve k rx (hcalled (by simp) hk),
      fun k i hk => hlistener k i (hcalled (by simp) hk)⟩
  | @runserver i s entered starts =>
    have hnone : p.listenerOf p.server.starts = none := by
      apply hlinked.early
      rw [(hlinked.uncalled _).mpr (Nat.le_refl _)]
      rfl
    cases starts
    by_cases hi : j = i
    · subst hi
      refine ⟨fun k rx hk hrx => ?_, fun k i hk hi => ?_⟩
      · simp only [Server.set_self, StartCall.running.injEq] at hk
        subst hk
        simp only [Server.set_self, Runner.receiver, Option.some.injEq] at hrx
        subst hrx
        exact Watch.hasChanged_markUnchanged
      · simp only [Server.set_self, StartCall.running.injEq] at hk
        subst hk
        rw [hnone] at hi
        cases hi
    · refine ⟨fun k rx hk hrx => ?_, fun k i hk => ?_⟩
      · simp only [Server.set_of_ne _ hi] at hk
        have hne : k ≠ p.server.starts := Nat.ne_of_lt (hlinked.called j k hk)
        simp only [Server.set_of_ne _ hne] at hrx
        exact hserve k rx hk hrx
      · simp only [Server.set_of_ne _ hi] at hk
        exact hlistener k i hk
  | @server b s other steps =>
    have hb : b ≠ .stop := by
      rintro rfl
      exact ha rfl
    refine ⟨fun k rx hk hrx => ?_, fun k i hk hi hpolled => ?_⟩
    · rw [(Restarts.frame_step steps).2.2 hb]
      rcases (Restarts.runner_step steps other k).1 with hsame | hnone
      · exact hserve k rx hk (hsame ▸ hrx)
      · rw [hnone] at hrx
        cases hrx
    · rcases spawns_cases hi with hold | ⟨rfl, htrue, rfl⟩
      · exact quiet_step steps hb (hlinked.spawned k i hold) (hlistener k i hk hold) hpolled
      · -- the one that this step spawns has not run
        obtain ⟨rx, hrx⟩ : ∃ rx, p.server.runner k = .entered rx := by
          simp only [Restarts.step] at steps
          split at steps
          · next rx hrx => exact ⟨rx, hrx⟩
          · cases steps
        obtain ⟨t, ht, _, _, hnew⟩ := Restarts.step_spawn codec hrx
        obtain rfl : t = s := Option.some.inj (ht.symm.trans steps)
        have hstage : (t.listener p.server.spawned).stage = .spawned := by
          rw [hnew htrue]
          rfl
        exact absurd hstage hpolled.2

/-- A call that has failed stays so. -/
theorem step_failed (a : Action) (p q : Process) (hp : p.call j = .failed)
    (h : step codec a p = some q) : q.call j = .failed := by
  have hkept {i : Nat} {c : StartCall} (hi : p.call i ≠ .failed) :
      Server.set p.call i c j = .failed := by
    have hne : j ≠ i := by
      rintro rfl
      exact hi hp
    rw [Server.set_of_ne _ hne, hp]
  cases step_effect h with
  | call uncalled => exact hkept (by simp [uncalled])
  | fail entered => exact hkept (by simp [entered])
  | runserver entered starts => exact hkept (by simp [entered])
  | server other steps => exact hp

/-- **Which signals are heard.** A `stop` is heard by a call of `start` that is running, and by
the listener that this has spawned, exactly where the call has come to `runserver` before it,
and the listener, if there is a broker, has run. A `stop` that comes before the call is not. -/
theorem stop_heard (codec : Codec) (broker : Bool) (before : List Action) (p : Process)
    (h : run (step codec) (init broker) before = some p) (j : Nat) :
    (p.call j ≠ .uncalled →
      ((∀ after q, run (step codec) p (stop :: after) = some q → Heard q j) ↔ Attentive p j)) ∧
    (p.call j = .uncalled →
      ∀ after q, stop ∉ after → run (step codec) p after = some q → Unheard j q) := by
  have hlinked := run_invariant step_linked before h (init_linked broker)
  refine ⟨fun hj => ⟨fun hall => ?_, fun hready after q hq => ?_⟩, fun hj after q hafter hq => ?_⟩
  · by_contra hdeaf
    obtain ⟨m, hm⟩ : ∃ m, step codec stop p = some m := ⟨_, rfl⟩
    have hsame : m.call = p.call ∧ (Attentive m j ↔ Attentive p j) := by
      cases hm
      exact ⟨rfl, Iff.rfl⟩
    obtain ⟨after, q, hq, hquiet⟩ := unheard codec (step_linked _ p m hlinked hm)
      (hsame.1 ▸ hj) (fun hready => hdeaf (hsame.2.mp hready))
    exact hquiet (hall after q (run_cons.mpr ⟨m, hm, hq⟩))
  · cases hcall : p.call j with
    | uncalled => exact absurd hcall hj
    | entered => simp [Attentive, hcall] at hready
    | failed =>
      have hfailed := run_invariant step_failed (stop :: after) hq hcall
      exact ⟨fun k rx hk => by simp [hfailed] at hk, fun k i inbox hk => by simp [hfailed] at hk⟩
    | running k =>
      obtain ⟨m, hm, hrest⟩ := run_cons.mp hq
      have hnotified := notified_of_stop hlinked hcall hready hm
      obtain ⟨_, hrunning, hheard⟩ := run_invariant step_notified after hrest hnotified
      exact hheard.heard hrunning
  · have hquiet : Unheard j p :=
      ⟨fun k rx hk => by simp [hj] at hk, fun k i hk => by simp [hj] at hk⟩
    have hmeets : Meets (step codec) (fun a _ => a ≠ stop) p after :=
      meets_of_forall (fun a ha _ => ne_of_mem_of_not_mem ha hafter) p
    have halways := always_of_meets (fun a s t hs ha ht => step_unheard a s t ha hs ht) after hmeets
      ⟨hlinked, hquiet⟩
    exact (always_last halways hq).2


/-- A call that serves, and a listener that listens. -/
def served : List Action :=
  [.call 0, .runserver 0, .server (.spawn 0), .server (.bind 0 true),
    .server (.turn 0 .firstPoll), .server (.turn 0 .subscribed), .server (.turn 0 .ready)]

/-- The server is stopped while it serves, and started again. -/
theorem stop_heard_serving :
    ∃ p, run (step .shortest) (init true) served = some p ∧
      (∀ after q, run (step .shortest) p (stop :: after) = some q → Heard q 0) ∧
      ∀ q, run (step .shortest) p [stop, .server (.signal 0 false), .call 1, .runserver 1] = some q →
        Unheard 1 q := by
  obtain ⟨p, hp, hcall, hlistener, hstage⟩ : ∃ p, run (step .shortest) (init true) served = some p ∧
      p.call 0 = .running 0 ∧ p.listenerOf 0 = some 0 ∧
      (p.server.listener 0).stage = .listening [] := ⟨_, rfl, rfl, rfl, rfl⟩
  refine ⟨p, hp, ((stop_heard .shortest true served p hp 0).1 (by simp [hcall])).mpr ?_, ?_⟩
  · rw [Attentive, hcall]
    exact fun _ => ⟨0, hlistener, by simp [Restarts.Polled, hstage]⟩
  · intro q hq
    obtain ⟨m, hm, hlater⟩ := run_split (a := [stop, .server (.signal 0 false)]) hq
    have hrun := run_join hp hm
    refine (stop_heard .shortest true _ m hrun 1).2 ?_ [.call 1, .runserver 1] q (by simp [stop]) hlater
    have hagain : run (step .shortest) (init true)
        (served ++ [stop, .server (.signal 0 false)]) = some m := hrun
    have huncalled : (run (step .shortest) (init true)
        (served ++ [stop, .server (.signal 0 false)])).map (fun m => m.call 1) = some .uncalled := rfl
    rw [hagain] at huncalled
    exact Option.some.inj huncalled

/-- A `stop` that comes as soon as `start` is called is lost on the serve loop, and one that comes
before the listener has run is lost on the listener. -/
theorem stop_lost :
    (∃ q, run (step .shortest) (init false)
        [.call 0, stop, .runserver 0, .server (.spawn 0), .server (.bind 0 true)] = some q ∧
      ¬ Heard q 0) ∧
    (∃ q, run (step .shortest) (init true) (served.take 4 ++ stop :: served.drop 4) = some q ∧
      ¬ Heard q 0) ∧
    ¬ ∀ (broker : Bool) (before after : List Action) (p q : Process) (j : Nat),
      run (step .shortest) (init broker) before = some p → p.call j ≠ .uncalled →
      run (step .shortest) p (stop :: after) = some q → Heard q j := by
  have hserve : ∃ p q, run (step .shortest) (init false) [.call 0] = some p ∧
      p.call 0 ≠ .uncalled ∧ run (step .shortest) p
        [stop, .runserver 0, .server (.spawn 0), .server (.bind 0 true)] = some q ∧
      ¬ Heard q 0 := by
    refine ⟨_, _, rfl, by simp, rfl, fun hheard => ?_⟩
    have hserve := hheard.serve 0 ⟨1⟩ rfl rfl
    exact Bool.noConfusion (show false = true from hserve)
  refine ⟨?_, ⟨_, rfl, fun hheard => ?_⟩, fun hall => ?_⟩
  · obtain ⟨p, q, hp, _, hq, hlost⟩ := hserve
    exact ⟨q, run_join hp hq, hlost⟩
  · have hlistens := hheard.listener 0 0 [] rfl rfl rfl
    exact Bool.noConfusion (show false = true from hlistens)
  · obtain ⟨p, q, hp, hcalled, hq, hlost⟩ := hserve
    exact hlost (hall false _ _ p q 0 hp hcalled hq)

end Process
end Webrockets
