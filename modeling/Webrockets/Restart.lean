import Webrockets.Broker
import Webrockets.Library.Watch

/-! Servers that are started, stopped and started again (`runserver`, and `listen` of
`broker/redis.rs` and `broker/amqp.rs`).

Every `start` spawns a listener on the runtime of the server, before it binds its address.
The listener outlives the `start`: it ends only where it takes up the shutdown signal, and
it looks at that only while it is subscribed. A signal that was sent before it first ran, it
does not see at all. So a server can have several listeners, and what the broker publishes
while two of them are subscribed is dispatched twice.

`listen` is written twice, once for each kind of broker, and the two differ in how they
connect: `pubsub.subscribe` and the binding of a queue are the step `subscribed`, everything
before that is `connecting`, and what comes after it, up to the inner loop, `subscribing`. -/
namespace Webrockets
open Transition JsonText

/-- What the broker sends a listener, by the number of its publication. -/
structure Delivery where
  serial : Nat
  payload : ByteArray

/-! ### Listeners -/

inductive Listener.Stage where
  | unspawned
  /-- The task has not run yet. -/
  | spawned
  | connecting
  /-- The broker knows of the subscription, the listener not yet. -/
  | subscribing (inbox : List Delivery)
  /-- The inner loop. -/
  | listening (inbox : List Delivery)
  | backingOff
  | stopped

/-- `backoff` is in milliseconds. -/
structure Listener where
  stage : Listener.Stage
  shutdown : Watch.Receiver
  backoff : Nat

def minBackoff : Nat := 100

def maxBackoff : Nat := 30000

namespace Listener

def unspawned : Listener := ⟨.unspawned, ⟨0⟩, minBackoff⟩

/-- The listener has a receiver of its own. -/
def new (shutdown : Watch.Receiver) : Listener := ⟨.spawned, shutdown, minBackoff⟩

def inbox (l : Listener) : List Delivery :=
  match l.stage with
  | .subscribing inbox | .listening inbox => inbox
  | _ => []

/-- The broker sends it what is published. -/
def subscribed (l : Listener) : Bool :=
  match l.stage with
  | .subscribing _ | .listening _ => true
  | _ => false

def deliver (d : Delivery) (l : Listener) : Listener :=
  match l.stage with
  | .subscribing inbox => { l with stage := .subscribing (inbox ++ [d]) }
  | .listening inbox => { l with stage := .listening (inbox ++ [d]) }
  | _ => l

/-- The turns of a listener in which it reads no message. -/
inductive Turn where
  | firstPoll
  | subscribed
  | ready
  /-- The connection or the subscription fails. -/
  | failed
  /-- `sleep` is over. -/
  | slept
  /-- The stream ends. -/
  | ended
  /-- The `select` takes up the shutdown signal. -/
  | shutdown
  deriving DecidableEq, Repr

def turn (shutdown : Watch Bool) (l : Listener) (turn : Turn) : Option Listener :=
  match turn, l.stage with
  | .firstPoll, .spawned => some { l with
      stage := .connecting
      shutdown := l.shutdown.markUnchanged shutdown
      backoff := minBackoff }
  | .subscribed, .connecting => some { l with stage := .subscribing [] }
  | .ready, .subscribing inbox => some { l with stage := .listening inbox, backoff := minBackoff }
  | .failed, .connecting => some { l with stage := .backingOff }
  | .failed, .subscribing _ => some { l with stage := .backingOff }
  | .slept, .backingOff => some { l with
      stage := .connecting
      backoff := min (l.backoff * 2) maxBackoff }
  -- without a pause, and without a look at the signal
  | .ended, .listening _ => some { l with stage := .connecting }
  | .shutdown, .listening _ =>
    (l.shutdown.changed shutdown).map fun rx => { l with stage := .stopped, shutdown := rx }
  | _, _ => none

end Listener

/-! ### The server -/

/-- A call of `start`. -/
inductive Runner where
  | uncalled
  | entered (shutdown : Watch.Receiver)
  | binding (shutdown : Watch.Receiver)
  | serving (shutdown : Watch.Receiver)
  /-- The server takes no more connections and waits for those it has. -/
  | draining
  | returned (ok : Bool)
  deriving DecidableEq, Repr

/-- A server over its restarts. `channels` and `outgoing` are those of its one channel store;
`dispatched` are the serials of the messages that were dispatched to it. -/
structure Restarts where
  broker : Bool
  shutdown : Watch Bool
  shutdownRx : Watch.Receiver
  starts : Nat
  runner : Nat → Runner
  spawned : Nat
  listener : Nat → Listener
  published : Nat
  channels : ChannelStore
  outgoing : Outgoing
  dispatched : List Nat

namespace Restarts

def init (broker : Bool) : Restarts where
  broker := broker
  shutdown := (Watch.channel false).1
  shutdownRx := (Watch.channel false).2
  starts := 0
  runner := fun _ => .uncalled
  spawned := 0
  listener := fun _ => .unspawned
  published := 0
  channels := .new
  outgoing := Outbox.new
  dispatched := []

inductive Action where
  | start
  /-- `runserver` spawns the listener, if there is a broker. -/
  | spawn (k : Nat)
  | bind (k : Nat) (ok : Bool)
  /-- The shutdown future of `axum::serve` is done. -/
  | signal (k : Nat) (ctrlC : Bool)
  | finish (k : Nat)
  | stop
  | turn (i : Nat) (turn : Listener.Turn)
  /-- The inner loop of a listener comes to its next message. -/
  | receive (i : Nat)
  /-- A message is published. -/
  | publish (payload : ByteArray)
  /-- The server goes on with its connections. -/
  | serve (channels : ChannelStore) (outgoing : Outgoing)

def setListener (s : Restarts) (i : Nat) (l : Listener) : Restarts :=
  { s with listener := Server.set s.listener i l }

/-- The listener takes a message from its inbox. -/
def receives (codec : Codec) (i : Nat) (d : Delivery) (inbox : List Delivery) (s : Restarts) :
    Restarts := { s.setListener i { s.listener i with stage := .listening inbox } with
  outgoing := (listened codec d.payload s.channels s.dispatched.length i s.outgoing).2
  dispatched := if (BrokerMessage.ofPayload codec d.payload).isSome then s.dispatched ++ [d.serial]
    else s.dispatched }

/-- The broker sends it to each listener that is subscribed. -/
def publishes (payload : ByteArray) (s : Restarts) : Restarts := { s with
  published := s.published + 1
  listener := fun i => (s.listener i).deliver ⟨s.published, payload⟩ }

def step (codec : Codec) : Action → Restarts → Option Restarts
  | .start, s => some { s with
      starts := s.starts + 1
      runner := Server.set s.runner s.starts (.entered (s.shutdownRx.markUnchanged s.shutdown)) }
  | .spawn k, s =>
    match s.runner k with
    | .entered shutdown =>
      let s := { s with runner := Server.set s.runner k (.binding shutdown) }
      if s.broker then
        some (({ s with spawned := s.spawned + 1 } : Restarts).setListener s.spawned
          (.new s.shutdownRx))
      else some s
    | _ => none
  | .bind k ok, s =>
    match s.runner k with
    | .binding shutdown => some { s with
        runner := Server.set s.runner k (if ok then .serving shutdown else .returned false) }
    | _ => none
  | .signal k ctrlC, s =>
    match s.runner k with
    | .serving shutdown =>
      if ctrlC ∨ shutdown.hasChanged s.shutdown then
        some { s with runner := Server.set s.runner k .draining }
      else none
    | _ => none
  | .finish k, s =>
    match s.runner k with
    | .draining => some { s with runner := Server.set s.runner k (.returned true) }
    | _ => none
  | .stop, s => some { s with shutdown := s.shutdown.send true }
  | .turn i turn, s => ((s.listener i).turn s.shutdown turn).map (s.setListener i)
  | .receive i, s =>
    match (s.listener i).stage with
    | .listening (d :: inbox) => some (s.receives codec i d inbox)
    | _ => none
  | .publish payload, s => some (s.publishes payload)
  | .serve channels outgoing, s => some { s with channels := channels, outgoing := outgoing }

section Update
variable {s : Restarts} {codec : Codec} {i j : Nat} {l : Listener} {d : Delivery}
  {inbox : List Delivery}

@[simp] theorem setListener_self : (s.setListener i l).listener i = l := Server.set_self _ _ _

theorem setListener_of_ne (h : j ≠ i) : (s.setListener i l).listener j = s.listener j :=
  Server.set_of_ne _ h _

@[simp] theorem receives_self :
    (s.receives codec i d inbox).listener i = { s.listener i with stage := .listening inbox } :=
  setListener_self

/-- What holds of all listeners and of the new one holds of all. -/
theorem setListener_all {P : Listener → Prop} (hs : ∀ j, P (s.listener j)) (hl : P l) (j : Nat) :
    P ((s.setListener i l).listener j) := by
  by_cases hj : j = i
  · subst hj
    rwa [setListener_self]
  · rw [setListener_of_ne hj]
    exact hs j

theorem receives_of_ne (h : j ≠ i) : (s.receives codec i d inbox).listener j = s.listener j :=
  setListener_of_ne h

end Update

/-! ### What a step does to the listeners -/

/-- Most steps leave the listeners alone; `stop` sends them the signal. -/
inductive Effect (codec : Codec) (a : Action) (s t : Restarts) : Prop where
  | same (listener : t.listener = s.listener) (spawned : t.spawned = s.spawned)
    (published : t.published = s.published) (dispatched : t.dispatched = s.dispatched)
    (shutdown : t.shutdown = s.shutdown ∨ t.shutdown = s.shutdown.send true)
    (shutdownRx : t.shutdownRx = s.shutdownRx)
  | spawn (runner : Nat → Runner) (action : ∃ k, a = .spawn k) (eq :
      t = ({ s with runner := runner, spawned := s.spawned + 1 } : Restarts).setListener s.spawned
        (.new s.shutdownRx))
  | turn (i : Nat) (turn : Listener.Turn) (l : Listener)
    (turned : (s.listener i).turn s.shutdown turn = some l) (eq : t = s.setListener i l)
  | receive (i : Nat) (d : Delivery) (inbox : List Delivery)
    (stage : (s.listener i).stage = .listening (d :: inbox)) (eq : t = s.receives codec i d inbox)
  | publish (payload : ByteArray) (action : a = .publish payload) (eq : t = s.publishes payload)

theorem Effect.runner (codec : Codec) (a : Action) (s : Restarts) (runner : Nat → Runner) :
    Effect codec a s { s with runner := runner } :=
  .same rfl rfl rfl rfl (.inl rfl) rfl

theorem step_effect {codec : Codec} {a : Action} {s t : Restarts} (h : step codec a s = some t) :
    Effect codec a s t := by
  cases a with
  | start | serve channels outgoing =>
    cases h
    exact .same rfl rfl rfl rfl (.inl rfl) rfl
  | stop =>
    cases h
    exact .same rfl rfl rfl rfl (.inr rfl) rfl
  | spawn k =>
    simp only [step] at h
    split at h
    · split at h
      · cases h
        exact .spawn _ ⟨k, rfl⟩ rfl
      · cases h
        exact .runner codec _ s _
    · cases h
  | bind k ok | finish k =>
    simp only [step] at h
    split at h
    · cases h
      exact .runner codec _ s _
    · cases h
  | signal k ctrlC =>
    simp only [step] at h
    split at h
    · split at h
      · cases h
        exact .runner codec _ s _
      · cases h
    · cases h
  | turn i turn =>
    obtain ⟨l, hl, rfl⟩ := Option.map_eq_some_iff.mp h
    exact .turn i turn l hl rfl
  | receive i =>
    simp only [step] at h
    split at h
    · next d inbox hstage =>
      cases h
      exact .receive i d inbox hstage rfl
    · cases h
  | publish payload =>
    cases h
    exact .publish payload rfl rfl

/-! ### Turns -/

theorem inbox_turn {w : Watch Bool} {turn : Listener.Turn} {l m : Listener}
    (h : l.turn w turn = some m) : m.inbox = l.inbox ∨ m.inbox = [] := by
  unfold Listener.turn at h
  split at h
  case h_3 inbox hstage =>
    cases h
    exact .inl (by simp only [Listener.inbox, hstage])
  case h_8 =>
    obtain ⟨rx, _, rfl⟩ := Option.map_eq_some_iff.mp h
    exact .inr rfl
  case h_9 => cases h
  all_goals
    cases h
    exact .inr rfl

theorem inbox_deliver (d : Delivery) (l : Listener) :
    (l.deliver d).inbox = l.inbox ++ if l.subscribed then [d] else [] := by
  obtain ⟨stage, shutdown, backoff⟩ := l
  cases stage <;> simp [Listener.deliver, Listener.inbox, Listener.subscribed]

theorem subscribed_deliver (d : Delivery) (l : Listener) : (l.deliver d).subscribed = l.subscribed := by
  obtain ⟨stage, shutdown, backoff⟩ := l
  cases stage <;> rfl

/-- Only a task that was spawned and has not ended has turns. -/
theorem live_of_turn {w : Watch Bool} {turn : Listener.Turn} {l m : Listener}
    (h : l.turn w turn = some m) : l.stage ≠ .unspawned ∧ l.stage ≠ .stopped := by
  constructor <;>
    intro hstage <;>
    simp only [Listener.turn, hstage, reduceCtorEq] at h

/-! ### Pauses -/

/-- A pause is neither too short nor too long. -/
def Bounded (l : Listener) : Prop := minBackoff ≤ l.backoff ∧ l.backoff ≤ maxBackoff

theorem bounded_min (stage : Listener.Stage) (shutdown : Watch.Receiver) :
    Bounded ⟨stage, shutdown, minBackoff⟩ := by
  show minBackoff ≤ minBackoff ∧ minBackoff ≤ maxBackoff
  decide

theorem bounded_turn {w : Watch Bool} {turn : Listener.Turn} {l m : Listener} (hl : Bounded l)
    (h : l.turn w turn = some m) : Bounded m := by
  unfold Listener.turn at h
  split at h
  case h_6 =>
    cases h
    have hle : minBackoff ≤ maxBackoff := by decide
    obtain ⟨hmin, _⟩ := hl
    show minBackoff ≤ min (l.backoff * 2) maxBackoff ∧ min (l.backoff * 2) maxBackoff ≤ maxBackoff
    omega
  case h_8 =>
    obtain ⟨rx, _, rfl⟩ := Option.map_eq_some_iff.mp h
    exact hl
  case h_9 => cases h
  all_goals
    cases h
    first | exact bounded_min _ _ | exact hl

theorem bounded_deliver {d : Delivery} {l : Listener} (hl : Bounded l) : Bounded (l.deliver d) := by
  unfold Listener.deliver
  split <;> exact hl

theorem step_bounded {codec : Codec} (a : Action) (s t : Restarts)
    (hs : ∀ i, Bounded (s.listener i)) (h : step codec a s = some t) :
    ∀ i, Bounded (t.listener i) := by
  cases step_effect h with
  | same listener _ _ _ _ _ => rwa [listener]
  | spawn runner _ eq => exact eq ▸ setListener_all hs (bounded_min _ _)
  | turn i turn l turned eq => exact eq ▸ setListener_all hs (bounded_turn (hs i) turned)
  | receive i d inbox stage eq =>
    have hi : Bounded { s.listener i with stage := .listening inbox } := hs i
    exact eq ▸ setListener_all hs hi
  | publish payload _ eq =>
    subst eq
    exact fun i => bounded_deliver (hs i)

/-- However often a listener fails to connect, its pauses stay within the bounds. -/
theorem backoff_bounded {codec : Codec} {broker : Bool} {actions : List Action} {s : Restarts}
    (h : run (step codec) (init broker) actions = some s) (i : Nat) : Bounded (s.listener i) :=
  run_invariant step_bounded actions h (fun _ => bounded_min _ _) i

/-! ### What a step does to the messages -/

/-- What a listener has been sent and has not read. -/
def inbox (s : Restarts) (i : Nat) : List Delivery := (s.listener i).inbox

/-- A step keeps or drops what a listener has been sent, or publishes, or reads. -/
inductive Moves (codec : Codec) (s t : Restarts) : Prop where
  | quiet (published : t.published = s.published) (dispatched : t.dispatched = s.dispatched)
    (inbox : ∀ i, t.inbox i = s.inbox i ∨ t.inbox i = [])
  | publish (payload : ByteArray) (published : t.published = s.published + 1)
    (dispatched : t.dispatched = s.dispatched)
    (inbox : ∀ i, t.inbox i = s.inbox i ++
      if (s.listener i).subscribed then [⟨s.published, payload⟩] else [])
  | receive (i : Nat) (d : Delivery) (published : t.published = s.published)
    (dispatched : t.dispatched = if (BrokerMessage.ofPayload codec d.payload).isSome then
      s.dispatched ++ [d.serial] else s.dispatched)
    (inbox : s.inbox i = d :: t.inbox i) (others : ∀ j, j ≠ i → t.inbox j = s.inbox j)

/-- One listener is another one. -/
theorem Moves.of_set {codec : Codec} {s t : Restarts} {i : Nat} {l : Listener}
    (published : t.published = s.published) (dispatched : t.dispatched = s.dispatched)
    (listener : t.listener = Server.set s.listener i l) (h : l.inbox = s.inbox i ∨ l.inbox = []) :
    Moves codec s t := by
  refine .quiet published dispatched fun j => ?_
  rw [inbox, listener]
  by_cases hj : j = i
  · subst hj
    rwa [Server.set_self]
  · rw [Server.set_of_ne _ hj]
    exact .inl rfl

theorem Effect.moves {codec : Codec} {a : Action} {s t : Restarts} (h : Effect codec a s t) :
    Moves codec s t := by
  cases h with
  | same listener _ published dispatched _ _ =>
    exact .quiet published dispatched fun i => .inl (by rw [inbox, listener, inbox])
  | spawn runner _ eq =>
    subst eq
    exact .of_set rfl rfl rfl (.inr rfl)
  | turn i turn l turned eq =>
    subst eq
    exact .of_set rfl rfl rfl (inbox_turn turned)
  | receive i d rest stage eq =>
    subst eq
    refine .receive i d rfl rfl ?_ fun j hj => by rw [inbox, receives_of_ne hj, inbox]
    simp only [inbox, receives_self, Listener.inbox, stage]
  | publish payload _ eq =>
    subst eq
    exact .publish payload rfl rfl fun i => inbox_deliver _ _

/-- Listeners are numbered as they are spawned, messages as they are published. -/
structure Numbered (s : Restarts) : Prop where
  listener : ∀ i, s.spawned ≤ i → (s.listener i).stage = .unspawned
  pending : ∀ i, ∀ d ∈ s.inbox i, d.serial < s.published
  dispatched : ∀ n ∈ s.dispatched, n < s.published

theorem init_numbered (broker : Bool) : Numbered (init broker) :=
  ⟨fun _ _ => rfl, fun _ _ hd => (nomatch hd), fun _ hn => (nomatch hn)⟩

theorem Effect.unspawned {codec : Codec} {a : Action} {s t : Restarts} (h : Effect codec a s t)
    (hs : ∀ i, s.spawned ≤ i → (s.listener i).stage = .unspawned) :
    ∀ i, t.spawned ≤ i → (t.listener i).stage = .unspawned := by
  cases h with
  | same listener spawned _ _ _ _ => rwa [listener, spawned]
  | spawn runner _ eq =>
    subst eq
    intro i hi
    have hne : i ≠ s.spawned := by
      intro hi'
      subst hi'
      exact absurd hi (Nat.not_succ_le_self _)
    rw [setListener_of_ne hne]
    exact hs i (Nat.le_of_succ_le hi)
  | turn j turn l turned eq =>
    subst eq
    intro i hi
    have hne : i ≠ j := by
      intro hi'
      subst hi'
      exact (live_of_turn turned).1 (hs i hi)
    rw [setListener_of_ne hne]
    exact hs i hi
  | receive j d rest stage eq =>
    subst eq
    intro i hi
    have hne : i ≠ j := by
      intro hi'
      subst hi'
      rw [hs i hi] at stage
      cases stage
    rw [receives_of_ne hne]
    exact hs i hi
  | publish payload _ eq =>
    subst eq
    intro i hi
    have hstage := hs i hi
    show ((s.listener i).deliver _).stage = _
    simp only [Listener.deliver, hstage]

theorem Moves.numbered {codec : Codec} {s t : Restarts} (h : Moves codec s t)
    (hpending : ∀ i, ∀ d ∈ s.inbox i, d.serial < s.published)
    (hdispatched : ∀ n ∈ s.dispatched, n < s.published) :
    (∀ i, ∀ d ∈ t.inbox i, d.serial < t.published) ∧ ∀ n ∈ t.dispatched, n < t.published := by
  cases h with
  | quiet published dispatched inbox =>
    rw [published, dispatched]
    refine ⟨fun i d hd => ?_, hdispatched⟩
    rcases inbox i with hi | hi
    · exact hpending i d (hi ▸ hd)
    · rw [hi] at hd
      cases hd
  | publish payload published dispatched inbox =>
    rw [published, dispatched]
    refine ⟨fun i d hd => ?_, fun n hn => Nat.lt_succ_of_lt (hdispatched n hn)⟩
    rw [inbox i] at hd
    rcases List.mem_append.mp hd with hd | hd
    · exact Nat.lt_succ_of_lt (hpending i d hd)
    · split at hd
      · rw [List.mem_singleton.mp hd]
        exact Nat.lt_succ_self _
      · cases hd
  | receive i d published dispatched inbox others =>
    have hd : d.serial < s.published := hpending i d (by rw [inbox]; exact List.mem_cons_self)
    rw [published, dispatched]
    refine ⟨fun j e he => ?_, fun n hn => ?_⟩
    · by_cases hj : j = i
      · subst hj
        exact hpending j e (by rw [inbox]; exact List.mem_cons_of_mem _ he)
      · exact hpending j e (others j hj ▸ he)
    · split at hn
      · rcases List.mem_append.mp hn with hn | hn
        · exact hdispatched n hn
        · rw [List.mem_singleton.mp hn]
          exact hd
      · exact hdispatched n hn

theorem step_numbered {codec : Codec} (a : Action) (s t : Restarts) (hs : Numbered s)
    (h : step codec a s = some t) : Numbered t := by
  have heffect := step_effect h
  obtain ⟨hpending, hdispatched⟩ := heffect.moves.numbered hs.pending hs.dispatched
  exact ⟨heffect.unspawned hs.listener, hpending, hdispatched⟩

/-! ### A message is dispatched once if it is in one inbox at most -/

def serials (s : Restarts) (i : Nat) : List Nat := (s.inbox i).map Delivery.serial

/-- The message has been published, and is in one inbox at most, once and not dispatched, or
dispatched and in no inbox. -/
structure Alone (n : Nat) (s : Restarts) : Prop where
  published : n < s.published
  place : ∃ k, (∀ i, i ≠ k → n ∉ s.serials i) ∧ s.dispatched.count n + (s.serials k).count n ≤ 1

/-- The message cannot be read, and so will not be dispatched. -/
structure Unreadable (codec : Codec) (n : Nat) (s : Restarts) : Prop where
  published : n < s.published
  payload : ∀ i, ∀ d ∈ s.inbox i, d.serial = n → BrokerMessage.ofPayload codec d.payload = none
  dispatched : n ∉ s.dispatched

theorem Moves.alone {codec : Codec} {n : Nat} {s t : Restarts} (h : Moves codec s t)
    (hs : Alone n s) : Alone n t := by
  obtain ⟨hn, k, hothers, hcount⟩ := hs
  cases h with
  | quiet published dispatched inbox =>
    refine ⟨published ▸ hn, k, fun i hi => ?_, ?_⟩
    · rcases inbox i with hi' | hi'
      · rw [serials, hi']
        exact hothers i hi
      · rw [serials, hi']
        exact List.not_mem_nil
    · rw [dispatched, serials]
      rcases inbox k with hk | hk
      · rwa [hk]
      · rw [hk, List.map_nil, List.count_nil]
        omega
  | publish payload published dispatched inbox =>
    -- a message that is published later has another serial
    have hserials : ∀ i, (t.serials i).count n = (s.serials i).count n := by
      intro i
      rw [serials, inbox i, List.map_append, List.count_append]
      have hne : ¬ s.published = n := by omega
      split <;> simp [serials, hne]
    refine ⟨by rw [published]; omega, k, fun i hi => ?_, ?_⟩
    · rw [← List.count_eq_zero, hserials, List.count_eq_zero]
      exact hothers i hi
    · rwa [dispatched, hserials]
  | receive i d published dispatched inbox others =>
    have hsplit : s.serials i = d.serial :: t.serials i := by
      rw [serials, inbox, List.map_cons, serials]
    have hle : t.dispatched.count n ≤ s.dispatched.count n + [d.serial].count n := by
      rw [dispatched]
      split
      · rw [List.count_append]
      · omega
    refine ⟨published ▸ hn, k, fun j hj => ?_, ?_⟩
    · by_cases hji : j = i
      · subst hji
        have := hothers j hj
        rw [hsplit] at this
        exact fun hmem => this (List.mem_cons_of_mem _ hmem)
      · rw [serials, others j hji]
        exact hothers j hj
    · by_cases hki : k = i
      · subst hki
        rw [hsplit, List.count_cons] at hcount
        rw [List.count_singleton] at hle
        omega
      · have hne := hothers i (Ne.symm hki)
        rw [hsplit] at hne
        have hzero : [d.serial].count n = 0 := by
          rw [List.count_eq_zero, List.mem_singleton]
          exact fun h => hne (h ▸ List.mem_cons_self)
        rw [serials, others k hki]
        rw [serials] at hcount
        omega

theorem Moves.unreadable {codec : Codec} {n : Nat} {s t : Restarts} (h : Moves codec s t)
    (hs : Unreadable codec n s) : Unreadable codec n t := by
  obtain ⟨hn, hpayload, hdispatched⟩ := hs
  cases h with
  | quiet published dispatched inbox =>
    refine ⟨published ▸ hn, fun i d hd => ?_, dispatched ▸ hdispatched⟩
    rcases inbox i with hi | hi
    · exact hpayload i d (hi ▸ hd)
    · rw [hi] at hd
      cases hd
  | publish payload published dispatched inbox =>
    refine ⟨by rw [published]; omega, fun i d hd hserial => ?_, dispatched ▸ hdispatched⟩
    rw [inbox i] at hd
    rcases List.mem_append.mp hd with hd | hd
    · exact hpayload i d hd hserial
    · split at hd
      · rw [List.mem_singleton.mp hd] at hserial
        exact absurd hserial (Nat.ne_of_gt hn)
      · cases hd
  | receive i d published dispatched inbox others =>
    have hd : d ∈ s.inbox i := by rw [inbox]; exact List.mem_cons_self
    refine ⟨published ▸ hn, fun j e he => ?_, ?_⟩
    · by_cases hj : j = i
      · subst hj
        exact hpayload j e (by rw [inbox]; exact List.mem_cons_of_mem _ he)
      · exact hpayload j e (others j hj ▸ he)
    · rw [dispatched]
      split
      · next hsome =>
        intro hmem
        rcases List.mem_append.mp hmem with hmem | hmem
        · exact hdispatched hmem
        · rw [hpayload i d hd (List.mem_singleton.mp hmem).symm] at hsome
          cases hsome
      · exact hdispatched

def Once (codec : Codec) (n : Nat) (s : Restarts) : Prop := Alone n s ∨ Unreadable codec n s

theorem Once.count_le {codec : Codec} {n : Nat} {s : Restarts} (h : Once codec n s) :
    s.dispatched.count n ≤ 1 := by
  rcases h with ⟨_, k, _, hcount⟩ | ⟨_, _, hdispatched⟩
  · omega
  · rw [List.count_eq_zero.mpr hdispatched]
    omega

theorem step_once {codec : Codec} {n : Nat} (a : Action) (s t : Restarts) (hs : Once codec n s)
    (h : step codec a s = some t) : Once codec n t :=
  hs.imp (step_effect h).moves.alone (step_effect h).moves.unreadable

/-! ### Who is subscribed when it is published -/

def OneSubscribed (s : Restarts) : Prop :=
  ∀ i < s.spawned, ∀ j < s.spawned,
    (s.listener i).subscribed = true → (s.listener j).subscribed = true → i = j

instance (s : Restarts) : Decidable (OneSubscribed s) :=
  inferInstanceAs (Decidable (∀ i < s.spawned, ∀ j < s.spawned, _ → _ → _))

/-- Whether the message, published now, is sure to be dispatched once at most. -/
def Unshared (codec : Codec) (payload : ByteArray) (s : Restarts) : Prop :=
  BrokerMessage.ofPayload codec payload = none ∨ OneSubscribed s

instance (codec : Codec) (payload : ByteArray) (s : Restarts) : Decidable (Unshared codec payload s) :=
  inferInstanceAs (Decidable (_ ∨ _))

theorem Numbered.lt_of_subscribed {s : Restarts} (hs : Numbered s) {i : Nat}
    (h : (s.listener i).subscribed = true) : i < s.spawned := by
  by_contra hi
  rw [Listener.subscribed, hs.listener i (Nat.le_of_not_lt hi)] at h
  cases h

theorem inbox_publishes (payload : ByteArray) (s : Restarts) (i : Nat) :
    (s.publishes payload).inbox i =
      s.inbox i ++ if (s.listener i).subscribed then [⟨s.published, payload⟩] else [] :=
  inbox_deliver _ _

theorem serials_publishes (payload : ByteArray) (s : Restarts) (i : Nat) :
    (s.publishes payload).serials i =
      s.serials i ++ if (s.listener i).subscribed then [s.published] else [] := by
  rw [serials, inbox_publishes, List.map_append, serials]
  split <;> rfl

theorem Numbered.not_mem_serials {s : Restarts} (hs : Numbered s) (i : Nat) :
    s.published ∉ s.serials i := by
  intro hmem
  obtain ⟨d, hd, hserial⟩ := List.mem_map.mp hmem
  exact absurd hserial (Nat.ne_of_lt (hs.pending i d hd))

theorem Numbered.not_dispatched {s : Restarts} (hs : Numbered s) : s.published ∉ s.dispatched :=
  fun hmem => Nat.lt_irrefl _ (hs.dispatched _ hmem)

/-- A message that is sent to one listener at most is in one inbox at most. -/
theorem publishes_alone {s : Restarts} (hs : Numbered s) (hone : OneSubscribed s)
    (payload : ByteArray) : Alone s.published (s.publishes payload) := by
  obtain ⟨k, hk⟩ : ∃ k, ∀ i, i ≠ k → (s.listener i).subscribed = false := by
    by_cases h : ∃ k, (s.listener k).subscribed = true
    · obtain ⟨k, hk⟩ := h
      refine ⟨k, fun i hi => Bool.eq_false_iff.mpr fun hi' => hi ?_⟩
      exact hone i (hs.lt_of_subscribed hi') k (hs.lt_of_subscribed hk) hi' hk
    · exact ⟨0, fun i _ => Bool.eq_false_iff.mpr fun hi => h ⟨i, hi⟩⟩
  refine ⟨Nat.lt_succ_self _, k, fun i hi => ?_, ?_⟩
  · rw [serials_publishes, hk i hi]
    simpa using hs.not_mem_serials i
  · have hdispatched := List.count_eq_zero.mpr hs.not_dispatched
    have hserials := List.count_eq_zero.mpr (hs.not_mem_serials k)
    show s.dispatched.count _ + _ ≤ 1
    rw [serials_publishes, List.count_append, hdispatched, hserials]
    split <;> simp

theorem publishes_unreadable {codec : Codec} {s : Restarts} (hs : Numbered s) {payload : ByteArray}
    (h : BrokerMessage.ofPayload codec payload = none) :
    Unreadable codec s.published (s.publishes payload) := by
  refine ⟨Nat.lt_succ_self _, fun i d hd hserial => ?_, hs.not_dispatched⟩
  rw [inbox_publishes] at hd
  rcases List.mem_append.mp hd with hd | hd
  · exact absurd hserial (Nat.ne_of_lt (hs.pending i d hd))
  · split at hd
    · rw [List.mem_singleton.mp hd]
      exact h
    · cases hd

theorem publishes_once {codec : Codec} {s : Restarts} (hs : Numbered s) {payload : ByteArray}
    (h : Unshared codec payload s) : Once codec s.published (s.publishes payload) := by
  rcases h with h | h
  · exact .inr (publishes_unreadable hs h)
  · exact .inl (publishes_alone hs h payload)

/-! ### Two listeners that are subscribed dispatch it twice -/

/-- The serials of the messages that are dispatched when an inbox is read. -/
def dispatches (codec : Codec) (inbox : List Delivery) : List Nat :=
  (inbox.filter fun d => (BrokerMessage.ofPayload codec d.payload).isSome).map Delivery.serial

theorem dispatches_cons (codec : Codec) (d : Delivery) (rest : List Delivery) :
    dispatches codec (d :: rest) =
      (if (BrokerMessage.ofPayload codec d.payload).isSome then [d.serial] else []) ++
        dispatches codec rest := by
  simp only [dispatches, List.filter_cons]
  split <;> rfl

theorem dispatches_append (codec : Codec) (a b : List Delivery) :
    dispatches codec (a ++ b) = dispatches codec a ++ dispatches codec b := by
  rw [dispatches, List.filter_append, List.map_append, dispatches, dispatches]

/-- A listener in its inner loop can read all it has been sent. -/
theorem reads_all (codec : Codec) {i : Nat} {inbox : List Delivery} {s : Restarts}
    (h : (s.listener i).stage = .listening inbox) :
    ∃ t, run (step codec) s (List.replicate inbox.length (.receive i)) = some t ∧
      (∀ j, j ≠ i → t.listener j = s.listener j) ∧
      t.dispatched = s.dispatched ++ dispatches codec inbox := by
  induction inbox generalizing s with
  | nil => exact ⟨s, rfl, fun _ _ => rfl, (List.append_nil _).symm⟩
  | cons d rest ih =>
    have hstep : step codec (.receive i) s = some (s.receives codec i d rest) := by
      simp only [step, h]
    have hstage : ((s.receives codec i d rest).listener i).stage = .listening rest := by
      rw [receives_self]
    obtain ⟨t, hrun, hothers, hdispatched⟩ := ih hstage
    refine ⟨t, ?_, fun j hj => ?_, ?_⟩
    · rw [List.length_cons, List.replicate_succ]
      exact run_cons.mpr ⟨_, hstep, hrun⟩
    · rw [hothers j hj, receives_of_ne hj]
    · rw [hdispatched, dispatches_cons]
      show (if _ then s.dispatched ++ [d.serial] else s.dispatched) ++ _ = _
      split
      · rw [List.append_assoc]
      · rw [List.nil_append]

/-- So can one that is subscribed. -/
theorem reads_subscribed (codec : Codec) {i : Nat} {s : Restarts}
    (h : (s.listener i).subscribed = true) :
    ∃ actions t, run (step codec) s actions = some t ∧
      (∀ j, j ≠ i → t.listener j = s.listener j) ∧
      t.dispatched = s.dispatched ++ dispatches codec (s.inbox i) := by
  cases hstage : (s.listener i).stage with
  | listening inbox =>
    have hinbox : s.inbox i = inbox := by simp only [Restarts.inbox, Listener.inbox, hstage]
    obtain ⟨t, hrun, hrest⟩ := reads_all codec hstage
    exact ⟨_, t, hrun, hinbox ▸ hrest⟩
  | subscribing inbox =>
    have hinbox : s.inbox i = inbox := by simp only [Restarts.inbox, Listener.inbox, hstage]
    have hready : step codec (.turn i .ready) s = some (s.setListener i
        { s.listener i with stage := .listening inbox, backoff := minBackoff }) := by
      simp only [step, Listener.turn, hstage, Option.map_some]
    obtain ⟨t, hrun, hothers, hdispatched⟩ := reads_all codec (s := s.setListener i
      { s.listener i with stage := .listening inbox, backoff := minBackoff }) (i := i)
      (by rw [setListener_self])
    refine ⟨_, t, run_cons.mpr ⟨_, hready, hrun⟩, fun j hj => ?_, hinbox ▸ hdispatched⟩
    rw [hothers j hj, setListener_of_ne hj]
  | _ =>
    simp only [Listener.subscribed, hstage] at h
    cases h

/-- Each of the two reads what is published now. -/
theorem dispatched_twice {codec : Codec} {s : Restarts} {i j : Nat} (hij : i ≠ j)
    (hi : (s.listener i).subscribed = true) (hj : (s.listener j).subscribed = true)
    {payload : ByteArray} (hpayload : (BrokerMessage.ofPayload codec payload).isSome = true) :
    ∃ after t, run (step codec) s (.publish payload :: after) = some t ∧
      2 ≤ t.dispatched.count s.published := by
  have hsubscribed (k : Nat) (hk : (s.listener k).subscribed = true) :
      ((s.publishes payload).listener k).subscribed = true :=
    (subscribed_deliver _ _).trans hk
  have hone (k : Nat) (hk : (s.listener k).subscribed = true) :
      1 ≤ (dispatches codec ((s.publishes payload).inbox k)).count s.published := by
    have hlast : dispatches codec [⟨s.published, payload⟩] = [s.published] := by
      rw [dispatches_cons, if_pos hpayload]
      rfl
    rw [inbox_publishes, hk, if_pos rfl, dispatches_append, hlast, List.count_append,
      List.count_singleton_self]
    omega
  obtain ⟨first, t, hfirst, hothers, ht⟩ := reads_subscribed codec (hsubscribed i hi)
  have hjt : (t.listener j).subscribed = true := by
    rw [hothers j (Ne.symm hij)]
    exact hsubscribed j hj
  obtain ⟨second, u, hsecond, _, hu⟩ := reads_subscribed codec hjt
  refine ⟨first ++ second, u, run_cons.mpr ⟨_, rfl, run_join hfirst hsecond⟩, ?_⟩
  have hinbox : t.inbox j = (s.publishes payload).inbox j := by
    rw [inbox, hothers j (Ne.symm hij), inbox]
  have h1 := hone i hi
  have h2 := hone j hj
  rw [hu, hinbox, ht, List.count_append, List.count_append]
  omega

/-! ### Every message at most once -/

/-- What is published is not shared by two listeners. -/
def Guard (codec : Codec) : Action → Restarts → Prop
  | .publish payload, s => Unshared codec payload s
  | _, _ => True

instance (codec : Codec) : ∀ (a : Action) (s : Restarts), Decidable (Guard codec a s)
  | .publish payload, s => inferInstanceAs (Decidable (Unshared codec payload s))
  | .start, _ | .spawn _, _ | .bind _ _, _ | .signal _ _, _ | .finish _, _ | .stop, _ | .turn _ _, _
  | .receive _, _ | .serve _ _, _ => isTrue trivial

/-- All that was published is dispatched once at most, from here on too. -/
structure Settled (codec : Codec) (s : Restarts) : Prop where
  numbered : Numbered s
  once : ∀ n < s.published, Once codec n s

theorem init_settled (codec : Codec) (broker : Bool) : Settled codec (init broker) :=
  ⟨init_numbered broker, fun _ hn => (nomatch hn)⟩

theorem Effect.published {codec : Codec} {a : Action} {s t : Restarts} (h : Effect codec a s t) :
    t.published = s.published ∨ ∃ payload, a = .publish payload ∧ t = s.publishes payload := by
  cases h with
  | same _ _ published _ _ _ => exact .inl published
  | publish payload action eq => exact .inr ⟨payload, action, eq⟩
  | spawn _ _ eq | turn _ _ _ _ eq | receive _ _ _ _ eq => exact .inl (by rw [eq]; rfl)

theorem step_settled {codec : Codec} (a : Action) (s t : Restarts) (hs : Settled codec s)
    (hg : Guard codec a s) (h : step codec a s = some t) : Settled codec t := by
  refine ⟨step_numbered a s t hs.numbered h, fun n hn => ?_⟩
  by_cases hold : n < s.published
  · exact step_once a s t (hs.once n hold) h
  · rcases (step_effect h).published with hp | ⟨payload, rfl, rfl⟩
    · exact absurd (hp ▸ hn) hold
    · have hlast : n = s.published := Nat.le_antisymm (Nat.le_of_lt_succ hn) (Nat.le_of_not_lt hold)
      rw [hlast]
      exact publishes_once hs.numbered hg

theorem Settled.count_le {codec : Codec} {s : Restarts} (hs : Settled codec s) (n : Nat) :
    s.dispatched.count n ≤ 1 := by
  by_cases hn : n < s.published
  · exact (hs.once n hn).count_le
  · rw [List.count_eq_zero.mpr fun hmem => hn (hs.numbered.dispatched n hmem)]
    omega

/-- **A message is dispatched at most once if it is sent to at most one listener**: in every
run that publishes only such messages, and of any message by whether it is one. -/
theorem dispatched_once (codec : Codec) (broker : Bool) :
    (∀ actions, Meets (step codec) (Guard codec) (init broker) actions →
      Always (step codec) (fun s => ∀ n, s.dispatched.count n ≤ 1) (init broker) actions) ∧
    ∀ before s, run (step codec) (init broker) before = some s → ∀ payload,
      ((∀ after t, run (step codec) s (.publish payload :: after) = some t →
        t.dispatched.count s.published ≤ 1) ↔ Unshared codec payload s) := by
  refine ⟨fun actions hg => ?_, fun before s hrun payload => ⟨fun h => ?_, fun h after t ht => ?_⟩⟩
  · exact always_mono (fun s hs => hs.count_le)
      (always_of_meets step_settled actions hg (init_settled codec broker))
  · by_contra hshared
    obtain ⟨hread, hsubscribed⟩ := not_or.mp hshared
    simp only [OneSubscribed, not_forall] at hsubscribed
    obtain ⟨i, _, j, _, hi, hj, hij⟩ := hsubscribed
    obtain ⟨after, t, ht, htwice⟩ :=
      dispatched_twice hij hi hj (Option.isSome_iff_ne_none.mpr hread)
    have hle := h after t ht
    omega
  · have hs := run_invariant step_numbered before hrun (init_numbered broker)
    obtain ⟨m, hm, hafter⟩ := run_cons.mp ht
    cases hm
    exact (run_invariant step_once after hafter (publishes_once hs h)).count_le

def startup (k : Nat) (bound : Bool) : List Action := [.start, .spawn k, .bind k bound]

def stopped (k : Nat) : List Action := [.stop, .signal k false, .finish k]

/-- The turns of a listener that finds the broker at once. -/
def connects (i : Nat) : List Action := [.turn i .firstPoll, .turn i .subscribed, .turn i .ready]

def greeting : ByteArray := (makePayload .shortest ["chat"] "hi").toUTF8

def greets (readers : List Nat) : List Action := .publish greeting :: readers.map .receive

/-- The server is stopped, its listener ends, and then it is started again. -/
theorem dispatched_once_restart :
    Always (step .shortest) (fun s => ∀ n, s.dispatched.count n ≤ 1) (init true)
      (startup 0 true ++ connects 0 ++ greets [0] ++ stopped 0 ++
        Action.turn 0 .shutdown :: (startup 1 true ++ connects 1 ++ greets [1])) ∧
    ∃ s, run (step .shortest) (init true) (startup 0 true ++ connects 0) = some s ∧
      ∀ after t, run (step .shortest) s (.publish greeting :: after) = some t →
        t.dispatched.count s.published ≤ 1 := by
  refine ⟨(dispatched_once .shortest true).1 _ (by decide), _, rfl, ?_⟩
  exact ((dispatched_once .shortest true).2 (startup 0 true ++ connects 0) _ rfl greeting).mpr
    (.inr (by decide))

/-- A listener that has not run when the server is stopped does not notice, nor does one whose
`start` found its address taken. The listener of the next `start` is the second one. -/
theorem dispatched_again :
    (run (step .shortest) (init true) (startup 0 true ++ stopped 0 ++ connects 0 ++
      startup 1 true ++ connects 1 ++ greets [0, 1])).map dispatched = some [0, 0] ∧
    (run (step .shortest) (init true) (startup 0 false ++ connects 0 ++
      startup 1 true ++ connects 1 ++ greets [0, 1])).map dispatched = some [0, 0] := by
  constructor <;> decide

/-! ### Restarts that do not overlap -/

/-- A listener is spawned only where all the earlier ones have ended. -/
def Apart : Action → Restarts → Prop
  | .spawn _, s => ∀ i < s.spawned, (s.listener i).stage = .stopped
  | _, _ => True

def Idle (l : Listener) : Prop := l.stage = .unspawned ∨ l.stage = .stopped

structure OneLive (s : Restarts) : Prop where
  numbered : Numbered s
  live : ∃ k, ∀ i, i ≠ k → Idle (s.listener i)

theorem not_idle_of_turn {w : Watch Bool} {turn : Listener.Turn} {l m : Listener}
    (h : l.turn w turn = some m) : ¬ Idle l :=
  not_or.mpr (live_of_turn h)

theorem idle_deliver {d : Delivery} {l : Listener} (h : Idle l) : Idle (l.deliver d) := by
  obtain ⟨stage, shutdown, backoff⟩ := l
  rcases h with rfl | rfl
  · exact .inl rfl
  · exact .inr rfl

theorem step_oneLive {codec : Codec} (a : Action) (s t : Restarts) (hs : OneLive s) (hg : Apart a s)
    (h : step codec a s = some t) : OneLive t := by
  obtain ⟨hnumbered, k, hk⟩ := hs
  refine ⟨step_numbered a s t hnumbered h, ?_⟩
  cases step_effect h with
  | same listener _ _ _ _ _ => exact ⟨k, listener ▸ hk⟩
  | spawn runner action eq =>
    obtain ⟨_, rfl⟩ := action
    subst eq
    refine ⟨s.spawned, fun i hi => ?_⟩
    rw [setListener_of_ne hi]
    by_cases hlt : i < s.spawned
    · exact .inr (hg i hlt)
    · exact .inl (hnumbered.listener i (Nat.le_of_not_lt hlt))
  | turn j turn l turned eq =>
    subst eq
    -- only the one that is live has turns
    have hj : j = k := by_contra fun hne => not_idle_of_turn turned (hk j hne)
    subst hj
    refine ⟨j, fun i hi => ?_⟩
    rw [setListener_of_ne hi]
    exact hk i hi
  | receive j d inbox stage eq =>
    subst eq
    have hj : j = k := by
      by_contra hne
      rcases hk j hne with h | h <;> rw [h] at stage <;> cases stage
    subst hj
    refine ⟨j, fun i hi => ?_⟩
    rw [receives_of_ne hi]
    exact hk i hi
  | publish payload _ eq =>
    subst eq
    exact ⟨k, fun i hi => idle_deliver (hk i hi)⟩

theorem OneLive.oneSubscribed {s : Restarts} (hs : OneLive s) : OneSubscribed s := by
  obtain ⟨_, k, hk⟩ := hs
  have hlive : ∀ i, (s.listener i).subscribed = true → i = k := by
    intro i hi
    by_contra hne
    rcases hk i hne with h | h <;> simp [Listener.subscribed, h] at hi
  exact fun i _ j _ hi hj => (hlive i hi).trans (hlive j hj).symm

/-- A server that is started again only after its listeners have ended never shares a message. -/
theorem apart_unshared {codec : Codec} {broker : Bool} {actions : List Action}
    (h : Meets (step codec) Apart (init broker) actions) :
    Meets (step codec) (Guard codec) (init broker) actions := by
  have hinit : OneLive (init broker) := ⟨init_numbered broker, 0, fun _ _ => .inl rfl⟩
  refine meets_of_guarded step_oneLive (fun a s hs _ => ?_) actions h hinit
  unfold Guard
  split
  · exact .inr hs.oneSubscribed
  · trivial

/-! ### Whom a `stop` reaches -/

/-- The task has run, so it has its own view of the signal. -/
def Polled (l : Listener) : Prop := l.stage ≠ .unspawned ∧ l.stage ≠ .spawned

/-- The listener ends when it next looks at the signal, or has ended. -/
def Told (w : Watch Bool) (l : Listener) : Prop :=
  Polled l ∧ (l.shutdown.hasChanged w = true ∨ l.stage = .stopped)

/-- A turn takes the signal as seen where it is the first, and where it is the last. -/
theorem shutdown_turn {w : Watch Bool} {turn : Listener.Turn} {l m : Listener}
    (h : l.turn w turn = some m) : Polled m ∧ (m.shutdown = l.shutdown ∨
      m.shutdown = l.shutdown.markUnchanged w ∧ (l.stage = .spawned ∨ m.stage = .stopped)) := by
  unfold Listener.turn at h
  split at h
  case h_1 hstage =>
    cases h
    exact ⟨by simp [Polled], .inr ⟨rfl, .inl hstage⟩⟩
  case h_8 =>
    obtain ⟨rx, hrx, rfl⟩ := Option.map_eq_some_iff.mp h
    unfold Watch.Receiver.changed at hrx
    split at hrx
    · cases hrx
      exact ⟨by simp [Polled], .inr ⟨rfl, .inr rfl⟩⟩
    · cases hrx
  case h_9 => cases h
  all_goals
    cases h
    exact ⟨by simp [Polled], .inl rfl⟩

/-- A signal sent before the first turn is not noticed. -/
theorem not_told_firstPoll {w : Watch Bool} {l m : Listener} (h : l.turn w .firstPoll = some m) :
    ¬ Told w m := by
  rintro ⟨_, htold⟩
  cases hstage : l.stage with
  | spawned =>
    simp only [Listener.turn, hstage, Option.some.injEq] at h
    subst h
    simp at htold
  | _ => simp only [Listener.turn, hstage, reduceCtorEq] at h

theorem told_turn {w : Watch Bool} {turn : Listener.Turn} {l m : Listener} (hl : Told w l)
    (h : l.turn w turn = some m) : Told w m := by
  obtain ⟨hpolled, htold⟩ := hl
  obtain ⟨hm, hsame | ⟨_, hspawned | hstopped⟩⟩ := shutdown_turn h
  · have hchanged := htold.resolve_right (live_of_turn h).2
    exact ⟨hm, .inl (hsame ▸ hchanged)⟩
  · exact absurd hspawned hpolled.2
  · exact ⟨hm, .inr hstopped⟩

theorem shutdown_deliver (d : Delivery) (l : Listener) : (l.deliver d).shutdown = l.shutdown := by
  obtain ⟨stage, shutdown, backoff⟩ := l
  cases stage <;> rfl

theorem told_deliver {w : Watch Bool} {d : Delivery} {l : Listener} :
    Told w (l.deliver d) ↔ Told w l := by
  obtain ⟨stage, shutdown, backoff⟩ := l
  cases stage <;> simp [Listener.deliver, Told, Polled]

theorem told_listening {w : Watch Bool} {l : Listener} {a b : List Delivery}
    (hstage : l.stage = .listening a) (h : Told w l) : Told w { l with stage := .listening b } := by
  refine ⟨by simp [Polled], .inl (h.2.resolve_right ?_)⟩
  rw [hstage]
  exact Listener.Stage.noConfusion

/-- Who has been told stays told. -/
theorem step_told {codec : Codec} {i : Nat} (a : Action) (s t : Restarts)
    (hs : Numbered s ∧ Told s.shutdown (s.listener i)) (h : step codec a s = some t) :
    Numbered t ∧ Told t.shutdown (t.listener i) := by
  obtain ⟨hnumbered, htold⟩ := hs
  refine ⟨step_numbered a s t hnumbered h, ?_⟩
  cases step_effect h with
  | same listener _ _ _ shutdown _ =>
    rw [listener]
    rcases shutdown with hw | hw
    · rwa [hw]
    · rw [hw]
      exact ⟨htold.1, htold.2.imp_left fun hchanged => Watch.hasChanged_mono hchanged true⟩
  | spawn runner _ eq =>
    subst eq
    have hne : i ≠ s.spawned := by
      intro hi
      exact htold.1.1 (hnumbered.listener i (Nat.le_of_eq hi.symm))
    rwa [setListener_of_ne hne]
  | turn j turn l turned eq =>
    subst eq
    by_cases hij : i = j
    · subst hij
      rw [setListener_self]
      exact told_turn htold turned
    · rwa [setListener_of_ne hij]
  | receive j d inbox stage eq =>
    subst eq
    by_cases hij : i = j
    · subst hij
      rw [receives_self]
      exact told_listening stage htold
    · rwa [receives_of_ne hij]
  | publish payload _ eq =>
    subst eq
    exact told_deliver.mpr htold

/-- Nobody has seen a signal that was not sent. -/
structure Seen (s : Restarts) : Prop where
  shutdownRx : s.shutdownRx.seen ≤ s.shutdown.version
  listener : ∀ i, (s.listener i).shutdown.seen ≤ s.shutdown.version

theorem init_seen (broker : Bool) : Seen (init broker) :=
  ⟨Nat.le_refl 0, fun _ => Nat.le_refl 0⟩

theorem Seen.setListener {s : Restarts} (hs : Seen s) (i : Nat) {l : Listener}
    (h : l.shutdown.seen ≤ s.shutdown.version) : Seen (s.setListener i l) :=
  ⟨hs.shutdownRx, setListener_all (P := fun l => l.shutdown.seen ≤ s.shutdown.version) hs.listener h⟩

theorem step_seen {codec : Codec} (a : Action) (s t : Restarts) (hs : Seen s)
    (h : step codec a s = some t) : Seen t := by
  cases step_effect h with
  | same listener _ _ _ shutdown shutdownRx =>
    have hversion : s.shutdown.version ≤ t.shutdown.version := by
      rcases shutdown with hw | hw
      · rw [hw]
      · rw [hw]
        exact Nat.le_succ _
    refine ⟨?_, fun i => ?_⟩
    · rw [shutdownRx]
      exact Nat.le_trans hs.shutdownRx hversion
    · rw [listener]
      exact Nat.le_trans (hs.listener i) hversion
  | spawn runner _ eq =>
    subst eq
    have hrunner : Seen { s with runner := runner, spawned := s.spawned + 1 } :=
      ⟨hs.shutdownRx, hs.listener⟩
    exact hrunner.setListener _ hs.shutdownRx
  | turn j turn l turned eq =>
    subst eq
    apply hs.setListener
    rcases (shutdown_turn turned).2 with hsame | ⟨hmarked, _⟩
    · rw [hsame]
      exact hs.listener j
    · rw [hmarked]
      exact Nat.le_refl _
  | receive j d inbox stage eq =>
    subst eq
    have hset := hs.setListener j (l := { s.listener j with stage := .listening inbox })
      (hs.listener j)
    exact ⟨hset.shutdownRx, hset.listener⟩
  | publish payload _ eq =>
    subst eq
    refine ⟨hs.shutdownRx, fun i => ?_⟩
    show ((s.listener i).deliver _).shutdown.seen ≤ _
    rw [shutdown_deliver]
    exact hs.listener i

/-- A `stop` reaches the listeners that have run: whatever comes after it, they end when they
next look. One that runs for the first time after it does not notice. -/
theorem stop_reaches {codec : Codec} {broker : Bool} {before : List Action} {s : Restarts}
    (hrun : run (step codec) (init broker) before = some s) (i : Nat) :
    (Polled (s.listener i) → ∀ after t, run (step codec) s (.stop :: after) = some t →
      Told t.shutdown (t.listener i)) ∧
    ∀ t, step codec (.turn i .firstPoll) s = some t → ¬ Told t.shutdown (t.listener i) := by
  refine ⟨fun hpolled after t ht => ?_, fun t ht htold => ?_⟩
  · obtain ⟨m, hm, hafter⟩ := run_cons.mp ht
    have hs := run_invariant step_numbered before hrun (init_numbered broker)
    have hnumbered := step_numbered _ s m hs hm
    have hseen := run_invariant step_seen before hrun (init_seen _)
    cases hm
    have htold : Told (s.shutdown.send true) (s.listener i) :=
      ⟨hpolled, .inl (Watch.hasChanged_send (hseen.listener i) true)⟩
    exact (run_invariant step_told after hafter ⟨hnumbered, htold⟩).2
  · obtain ⟨l, hl, rfl⟩ := Option.map_eq_some_iff.mp ht
    rw [setListener_self] at htold
    exact not_told_firstPoll hl htold

end Restarts

end Webrockets
