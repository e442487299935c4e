import Webrockets.Fleet
import Webrockets.Library.Exclusive

/-! Servers that listen over AMQP (`setup` and `listen` of `broker/amqp.rs`).

`setup` opens a connection, declares an exclusive queue and binds it to the exchange. A queue that
is named in the configuration is the same for all servers that name it, and at most one
connection can have it; a server that comes second fails to declare it and tries again. The AMQP
server may notice late that a connection is gone, and the listener too. To the listeners the AMQP
server is an `Exclusive`, which the cluster follows step by step. That it is one is assumed: no code
of the AMQP server is modelled, a queue is exclusive as the protocol has it, and a message that is
published comes to all queues bound to its exchange in one step. -/
namespace Webrockets
open Transition JsonText

/-- Beside the processes that publish, and whoever listens over Redis. A connection is listed by
the listener that has opened it and its number, a queue by its URL and name. -/
structure Cluster where
  fleet : Fleet
  server : Nat → Restarts
  connections : Nat
  /-- The connection that a listener has. -/
  connection : Nat × Nat → Option Nat
  queue : String × String → Option (((Nat × Nat) × Nat) × Bool)
  published : Nat

namespace Cluster

def init (fleetBroker broker : Nat → Bool) : Cluster where
  fleet := .init fleetBroker
  server := fun p => .init (broker p)
  connections := 0
  connection := fun _ => none
  queue := fun _ => none
  published := 0

inductive Action where
  | fleet (a : Fleet.Action)
  /-- Another program publishes. -/
  | foreign (dest : AmqpConfig) (payload : ByteArray)
  | server (p : Nat) (a : Restarts.Action)
  /-- `setup` up to the declaration of the exchange. -/
  | connect (l : Nat × Nat)
  /-- `queue_declare` succeeds. -/
  | declare (l : Nat × Nat)
  /-- The AMQP server closes a connection, or notices that it is closed. -/
  | close (c : (Nat × Nat) × Nat)

def listener (s : Cluster) (l : Nat × Nat) : Listener := (s.server l.1).listener l.2

def setServer (s : Cluster) (p : Nat) (r : Restarts) : Cluster :=
  { s with server := Server.set s.server p r }

def setConnection (s : Cluster) (l : Nat × Nat) (c : Option Nat) : Cluster :=
  { s with connection := Function.update s.connection l c }

def setQueue (s : Cluster) (n : String × String) (q : Option (((Nat × Nat) × Nat) × Bool)) : Cluster :=
  { s with queue := Function.update s.queue n q }

/-- What `setup` gives the queue as a name if there is none in the configuration. -/
def generated (uuid : String) : String := "ws_server_" ++ uuid

section Machine
variable (codec : Codec) (castError : DictValue → PyErr) (redis : Nat → RedisConfig)
  (config : Nat → AmqpConfig) (uuid : Nat → String)

def queueName (c : (Nat × Nat) × Nat) : String × String :=
  ((config c.1.1).url, (config c.1.1).queue.getD (generated (uuid c.2)))

def exchange (c : (Nat × Nat) × Nat) : String × String :=
  ((config c.1.1).url, (config c.1.1).exchange)

/-- The queue of the listener is there and bound. -/
def bound (s : Cluster) (l : Nat × Nat) : Bool :=
  (s.connection l).any fun c => s.queue (queueName config uuid (l, c)) = some ((l, c), true)

/-- The AMQP server sends a message to the listeners of its exchange. The exchange is a fanout:
routing keys have no part in it. -/
def deliver (s : Cluster) (dest : AmqpConfig) (m : Posted) : Cluster := { s with
  published := s.published + 1
  server := fun p => { s.server p with
    listener := fun i =>
      if s.bound config uuid (p, i) ∧ (config p).url = dest.url ∧ (config p).exchange = dest.exchange
      then ((s.server p).listener i).deliver ⟨s.published, m.payload⟩
      else (s.server p).listener i } }

def post (s : Cluster) (m : Posted) : Cluster :=
  match m.dest with
  | .amqp dest => s.deliver config uuid dest m
  | .redis _ => s

/-- A listener takes a turn; where it gives up, its connection goes. -/
def turn (p i : Nat) (t : Listener.Turn) (s : Cluster) : Option Cluster :=
  (Restarts.step codec (.turn i t) (s.server p)).bind fun r =>
    match t with
    | .subscribed =>
      match s.connection (p, i) with
      | some c =>
        let n := queueName config uuid ((p, i), c)
        if (s.queue n).map Prod.fst = some ((p, i), c) then
          some ((s.setServer p r).setQueue n (some (((p, i), c), true)))
        else none
      | none => none
    | .failed | .ended | .shutdown => some ((s.setServer p r).setConnection (p, i) none)
    | .firstPoll | .ready | .slept => some (s.setServer p r)

def step : Action → Cluster → Option Cluster
  | .fleet a, s =>
    (Fleet.step codec castError redis a s.fleet).map fun f =>
      (Fleet.posts codec a s.fleet).foldl (post config uuid) { s with fleet := f }
  | .foreign dest payload, s => some (s.deliver config uuid dest ⟨.amqp dest, payload, none⟩)
  -- a server gets its messages from the AMQP server
  | .server _ (.publish _), _ => none
  | .server p (.turn i t), s => turn codec config uuid p i t s
  | .server p a, s => (Restarts.step codec a (s.server p)).map (s.setServer p)
  | .connect l, s =>
    match (s.listener l).stage, s.connection l with
    | .connecting, none =>
      some { s.setConnection l (some s.connections) with connections := s.connections + 1 }
    | _, _ => none
  | .declare l, s =>
    match (s.listener l).stage, s.connection l with
    | .connecting, some c =>
      let n := queueName config uuid (l, c)
      -- the name is in use, be it by an earlier connection of the same listener
      if s.queue n = none then some (s.setQueue n (some ((l, c), false))) else none
    | _, _ => none
  | .close c, s =>
    let n := queueName config uuid c
    some (if (s.queue n).map Prod.fst = some c then s.setQueue n none else s)

/-- The broadcast that a listener makes of what it reads, by the number of the message. -/
def made : Action → Cluster → List ((Nat × Nat) × Nat × StoreCall)
  | .server p (.receive i), s =>
    (((s.server p).inbox i).take 1).filterMap fun d =>
      (payloadCall codec d.payload).map fun call => ((p, i), d.serial, call)
  | _, _ => []

/-- A message for the AMQP server, and what it is addressed by. -/
def amqp (m : Posted) : Option (AmqpConfig × Posted) :=
  match m.dest with
  | .amqp dest => some (dest, m)
  | .redis _ => none

/-- What the AMQP server is given in a step. -/
def posts : Action → Cluster → List (AmqpConfig × Posted)
  | .fleet a, s => (Fleet.posts codec a s.fleet).filterMap amqp
  | .foreign dest payload, _ => [(dest, ⟨.amqp dest, payload, none⟩)]
  | _, _ => []

/-! ### The queues -/

/-- What the queues hear of a message. -/
def publishEvent (x : AmqpConfig × Posted) :
    Exclusive.Event ((Nat × Nat) × Nat) (String × String) Posted :=
  .publish (x.1.url, x.1.exchange) x.2

def event : Action → Cluster → List (Exclusive.Event ((Nat × Nat) × Nat) (String × String) Posted)
  | .declare l, s => (s.connection l).toList.map fun c => .declare (l, c)
  | .server p (.turn i .subscribed), s => (s.connection (p, i)).toList.map fun c => .bind ((p, i), c)
  | .server p (.receive i), s => (s.connection (p, i)).toList.map fun c => .take ((p, i), c)
  | .close c, _ => [.close c]
  | a, s => (posts codec a s).map publishEvent

end Machine

def Subscribed (l : Nat × Nat) (s : Cluster) : Prop := (s.listener l).subscribed = true

instance (l : Nat × Nat) (s : Cluster) : Decidable (Subscribed l s) :=
  inferInstanceAs (Decidable (_ = _))

/-- The inboxes of the listeners are those of the connections that they have. -/
structure Follows (config : Nat → AmqpConfig) (uuid : Nat → String) (s : Cluster)
    (t : Exclusive ((Nat × Nat) × Nat) (String × String) (String × String) Posted) : Prop where
  unspawned : ∀ p i, (s.server p).spawned ≤ i → ((s.server p).listener i).stage = .unspawned
  published : s.published = t.log.length
  queue : s.queue = t.queue
  known : ∀ l c, s.connection l = some c → c < s.connections
  fresh : ∀ l c, s.connections ≤ c → t.inbox (l, c) = [] ∧ ∀ n b, t.queue n ≠ some ((l, c), b)
  inbox : ∀ l c, s.connection l = some c →
    (t.inbox (l, c)).map Fleet.delivery = (s.listener l).inbox
  subscribed : ∀ l, Subscribed l s → s.connection l ≠ none
  bound : ∀ l c, s.connection l = some c →
    t.queue (queueName config uuid (l, c)) = some ((l, c), true) → Subscribed l s

variable {codec : Codec} {castError : DictValue → PyErr} {redis : Nat → RedisConfig}
  {config : Nat → AmqpConfig} {uuid : Nat → String} {s s' : Cluster}
  {t u : Exclusive ((Nat × Nat) × Nat) (String × String) (String × String) Posted}
  {p i : Nat} {l : Nat × Nat}

/-! ### Steps of one listener -/

theorem inbox_of_not_subscribed {x : Listener} (h : x.subscribed = false) : x.inbox = [] := by
  obtain ⟨stage, shutdown, backoff⟩ := x
  cases stage with
  | subscribing inbox | listening inbox => cases h
  | unspawned | spawned | connecting | backingOff | stopped => rfl

theorem listener_setServer_self (s : Cluster) (p i : Nat) (r : Restarts) :
    (s.setServer p r).listener (p, i) = r.listener i :=
  congrArg (fun r : Restarts => r.listener i) (Server.set_self _ _ _)

theorem listener_setServer_of_ne (s : Cluster) {p : Nat} {k : Nat × Nat} (h : k.1 ≠ p) (r : Restarts) :
    (s.setServer p r).listener k = s.listener k :=
  congrArg (fun r : Restarts => r.listener k.2) (Server.set_of_ne _ h _)

/-- The listeners other than the one that has moved. -/
theorem listener_setServer_others {r : Restarts} {k : Nat × Nat}
    (hothers : ∀ j, j ≠ i → r.listener j = (s.server p).listener j) (hk : k ≠ (p, i)) :
    (s.setServer p r).listener k = s.listener k := by
  obtain ⟨q, j⟩ := k
  by_cases hq : q = p
  · subst hq
    have hj : j ≠ i := fun h => hk (by rw [h])
    rw [listener_setServer_self, hothers j hj, listener]
  · exact listener_setServer_of_ne s hq r

theorem unspawned_setServer {r : Restarts}
    (hs : ∀ p i, (s.server p).spawned ≤ i → ((s.server p).listener i).stage = .unspawned)
    (hr : ∀ i, r.spawned ≤ i → (r.listener i).stage = .unspawned) (q i : Nat)
    (h : ((s.setServer p r).server q).spawned ≤ i) :
    (((s.setServer p r).server q).listener i).stage = .unspawned := by
  by_cases hq : q = p
  · subst hq
    have hself : (s.setServer q r).server q = r := Server.set_self _ _ _
    rw [hself] at h ⊢
    exact hr i h
  · have hsame : (s.setServer p r).server q = s.server q := Server.set_of_ne _ hq _
    rw [hsame] at h ⊢
    exact hs q i h

/-- No listener has moved as far as the queues go. -/
theorem Follows.server (hs : Follows config uuid s t) {r : Restarts}
    (hr : ∀ i, r.spawned ≤ i → (r.listener i).stage = .unspawned)
    (hsame : ∀ i, (r.listener i).subscribed = ((s.server p).listener i).subscribed ∧
      (r.listener i).inbox = ((s.server p).listener i).inbox) :
    Follows config uuid (s.setServer p r) t := by
  have hlistener (k : Nat × Nat) :
      ((s.setServer p r).listener k).subscribed = (s.listener k).subscribed ∧
        ((s.setServer p r).listener k).inbox = (s.listener k).inbox := by
    obtain ⟨q, j⟩ := k
    by_cases hq : q = p
    · subst hq
      rw [listener_setServer_self]
      exact hsame j
    · rw [listener_setServer_of_ne s hq r]
      exact ⟨rfl, rfl⟩
  refine ⟨unspawned_setServer hs.unspawned hr, hs.published, hs.queue, hs.known, hs.fresh,
    fun k c hc => ?_, fun k hk => hs.subscribed k ?_, fun k c hc hbound => ?_⟩
  · rw [(hlistener k).2]
    exact hs.inbox k c hc
  · rw [Subscribed, (hlistener k).1] at hk
    exact hk
  · rw [Subscribed, (hlistener k).1]
    exact hs.bound k c hc hbound

/-- What is to be shown of a listener that has moved. -/
structure Placed (config : Nat → AmqpConfig) (uuid : Nat → String) (l : Nat × Nat) (s : Cluster)
    (t : Exclusive ((Nat × Nat) × Nat) (String × String) (String × String) Posted) : Prop where
  known : ∀ c, s.connection l = some c → c < s.connections
  fresh : ∀ c, s.connections ≤ c → t.inbox (l, c) = [] ∧ ∀ n b, t.queue n ≠ some ((l, c), b)
  inbox : ∀ c, s.connection l = some c → (t.inbox (l, c)).map Fleet.delivery = (s.listener l).inbox
  subscribed : Subscribed l s → s.connection l ≠ none
  bound : ∀ c, s.connection l = some c →
    t.queue (queueName config uuid (l, c)) = some ((l, c), true) → Subscribed l s

/-- One listener has moved. -/
theorem Follows.update (hs : Follows config uuid s t)
    (hunspawned : ∀ p i, (s'.server p).spawned ≤ i → ((s'.server p).listener i).stage = .unspawned)
    (hpublished : s'.published = s.published) (hlog : u.log = t.log) (hqueue : s'.queue = u.queue)
    (hcount : s.connections ≤ s'.connections)
    (hconnection : ∀ k, k ≠ l → s'.connection k = s.connection k)
    (hlistener : ∀ k, k ≠ l → s'.listener k = s.listener k)
    (hinbox : ∀ k c, k ≠ l → u.inbox (k, c) = t.inbox (k, c))
    (hqueues : ∀ k c n b, k ≠ l → u.queue n = some ((k, c), b) → t.queue n = some ((k, c), b))
    (hl : Placed config uuid l s' u) : Follows config uuid s' u := by
  have hplaced (k : Nat × Nat) : Placed config uuid k s' u := by
    by_cases hk : k = l
    · rwa [hk]
    · refine ⟨fun c hc => ?_, fun c hc => ⟨?_, fun n b hn => ?_⟩, fun c hc => ?_, fun hsub => ?_,
        fun c hc hbound => ?_⟩
      · rw [hconnection k hk] at hc
        exact Nat.lt_of_lt_of_le (hs.known k c hc) hcount
      · rw [hinbox k c hk]
        exact (hs.fresh k c (Nat.le_trans hcount hc)).1
      · exact (hs.fresh k c (Nat.le_trans hcount hc)).2 n b (hqueues k c n b hk hn)
      · rw [hconnection k hk] at hc
        rw [hinbox k c hk, hlistener k hk]
        exact hs.inbox k c hc
      · rw [hconnection k hk]
        rw [Subscribed, hlistener k hk] at hsub
        exact hs.subscribed k hsub
      · rw [hconnection k hk] at hc
        rw [Subscribed, hlistener k hk]
        exact hs.bound k c hc (hqueues k c _ true hk hbound)
  exact ⟨hunspawned, by rw [hpublished, hlog]; exact hs.published, hqueue, fun k => (hplaced k).known,
    fun k => (hplaced k).fresh, fun k => (hplaced k).inbox, fun k => (hplaced k).subscribed,
    fun k => (hplaced k).bound⟩

/-- A server has taken a turn of a listener. -/
theorem turn_step {x : Listener.Turn} {r : Restarts}
    (h : Restarts.step codec (.turn i x) (s.server p) = some r) :
    ∃ y, (s.listener (p, i)).turn (s.server p).shutdown x = some y ∧ r.listener i = y ∧
      ∀ j, j ≠ i → r.listener j = (s.server p).listener j := by
  obtain ⟨y, hy, rfl⟩ := Option.map_eq_some_iff.mp h
  exact ⟨y, hy, Restarts.setListener_self, fun j hj => Restarts.setListener_of_ne hj⟩

theorem Follows.unspawned_step (hs : Follows config uuid s t) {a : Restarts.Action} {r : Restarts}
    (h : Restarts.step codec a (s.server p) = some r) :
    ∀ i, r.spawned ≤ i → (r.listener i).stage = .unspawned :=
  (Restarts.step_effect h).unspawned (hs.unspawned p)

/-- A listener that is not subscribed has a connection without messages, if it has one. -/
theorem Follows.inbox_nil (hs : Follows config uuid s t) {c : Nat} (hc : s.connection l = some c)
    (hsub : (s.listener l).subscribed = false) : t.inbox (l, c) = [] := by
  have hinbox := hs.inbox l c hc
  rw [inbox_of_not_subscribed hsub] at hinbox
  exact List.map_eq_nil_iff.mp hinbox

/-- The connection is given up. -/
theorem Follows.leave (hs : Follows config uuid s t) {r : Restarts}
    (hr : ∀ i, r.spawned ≤ i → (r.listener i).stage = .unspawned)
    (hothers : ∀ j, j ≠ i → r.listener j = (s.server p).listener j)
    (hsub : (r.listener i).subscribed = false) :
    Follows config uuid ((s.setServer p r).setConnection (p, i) none) t := by
  have hnone : ((s.setServer p r).setConnection (p, i) none).connection (p, i) = none :=
    Function.update_self _ _ _
  refine hs.update (l := (p, i)) (unspawned_setServer hs.unspawned hr) rfl rfl hs.queue (Nat.le_refl _)
    (fun k hk => Function.update_of_ne hk _ _) (fun k hk => listener_setServer_others hothers hk)
    (fun _ _ _ => rfl) (fun _ _ _ _ _ h => h) ⟨?_, hs.fresh (p, i), ?_, ?_, ?_⟩
  · intro c hc
    rw [hnone] at hc
    cases hc
  · intro c hc
    rw [hnone] at hc
    cases hc
  · intro h
    have hlistener : ((s.setServer p r).setConnection (p, i) none).listener (p, i) = r.listener i :=
      listener_setServer_self s p i r
    rw [Subscribed, hlistener, hsub] at h
    cases h
  · intro c hc
    rw [hnone] at hc
    cases hc

/-- The queue is bound. -/
theorem Follows.bind (hs : Follows config uuid s t) {r : Restarts} {c : Nat}
    (hr : ∀ i, r.spawned ≤ i → (r.listener i).stage = .unspawned)
    (hothers : ∀ j, j ≠ i → r.listener j = (s.server p).listener j)
    (hold : (s.listener (p, i)).subscribed = false) (hsub : (r.listener i).subscribed = true)
    (hinbox : (r.listener i).inbox = []) (hc : s.connection (p, i) = some c)
    (howner : (s.queue (queueName config uuid ((p, i), c))).map Prod.fst = some ((p, i), c)) :
    ∃ u, Exclusive.step (queueName config uuid) (exchange config) (.bind ((p, i), c)) t = some u ∧
      Follows config uuid ((s.setServer p r).setQueue (queueName config uuid ((p, i), c))
        (some (((p, i), c), true))) u := by
  have hnil := hs.inbox_nil hc hold
  have hlistener : (s.setServer p r).listener (p, i) = r.listener i := listener_setServer_self s p i r
  rw [hs.queue] at howner
  refine ⟨t.setQueue (queueName config uuid ((p, i), c)) (some (((p, i), c), true)),
    if_pos howner, hs.update (l := (p, i)) (unspawned_setServer hs.unspawned hr) rfl rfl ?_
    (Nat.le_refl _) (fun _ _ => rfl) (fun k hk => listener_setServer_others hothers hk)
    (fun _ _ _ => rfl) (fun k d n b hk hn => ?_) ⟨hs.known (p, i), fun d hd => ⟨?_, fun n b hn => ?_⟩,
      fun d hd => ?_, fun _ => ?_, fun d hd hbound => ?_⟩⟩
  · show Function.update s.queue _ _ = Function.update t.queue _ _
    rw [hs.queue]
  · rcases Exclusive.queue_setQueue hn with ⟨_, hq⟩ | hold
    · exact absurd (Prod.mk.inj (Prod.mk.inj (Option.some.inj hq)).1).1.symm hk
    · exact hold
  · exact (hs.fresh (p, i) d hd).1
  · rcases Exclusive.queue_setQueue hn with ⟨_, hq⟩ | hold
    · have hcd : c = d := (Prod.mk.inj (Prod.mk.inj (Option.some.inj hq)).1).2
      exact absurd (hs.known (p, i) c hc) (Nat.not_lt.mpr (hcd ▸ hd))
    · exact (hs.fresh (p, i) d hd).2 n b hold
  · obtain rfl : c = d := Option.some.inj (hc.symm.trans hd)
    show (t.inbox ((p, i), c)).map _ = ((s.setServer p r).listener (p, i)).inbox
    rw [hlistener, hinbox, hnil]
    rfl
  · show s.connection (p, i) ≠ none
    rw [hc]
    exact Option.some_ne_none _
  · show ((s.setServer p r).listener (p, i)).subscribed = true
    rw [hlistener, hsub]

/-- A listener takes a turn. -/
theorem Follows.turn (hs : Follows config uuid s t) {x : Listener.Turn}
    (h : turn codec config uuid p i x s = some s') :
    ∃ u, run (Exclusive.step (queueName config uuid) (exchange config)) t
        (event codec (.server p (.turn i x)) s) = some u ∧ Follows config uuid s' u := by
  obtain ⟨r, hr, h⟩ := Option.bind_eq_some_iff.mp h
  have hunspawned := hs.unspawned_step hr
  obtain ⟨y, hy, hself, hothers⟩ := turn_step hr
  have hcases := Fleet.turn_cases hy (p, i)
  have hquiet (hnil : Fleet.turnEvent (p, i) x = []) : Follows config uuid (s.setServer p r) t := by
    rcases hcases with ⟨_, hsub, hinbox⟩ | ⟨he, _⟩ | ⟨he, _⟩
    · refine hs.server hunspawned fun j => ?_
      by_cases hj : j = i
      · rw [hj, hself]
        exact ⟨hsub, hinbox⟩
      · rw [hothers j hj]
        exact ⟨rfl, rfl⟩
    · cases hnil.symm.trans he
    · cases hnil.symm.trans he
  have hleave (hevent : Fleet.turnEvent (p, i) x = [.leave (p, i)]) :
      Follows config uuid ((s.setServer p r).setConnection (p, i) none) t := by
    rcases hcases with ⟨he, _⟩ | ⟨he, _⟩ | ⟨_, hsub, _⟩
    · cases hevent.symm.trans he
    · cases hevent.symm.trans he
    · exact hs.leave hunspawned hothers (hself ▸ hsub)
  cases x with
  | firstPoll | ready | slept =>
    obtain rfl := Option.some.inj h
    exact ⟨t, rfl, hquiet rfl⟩
  | failed | ended | shutdown =>
    obtain rfl := Option.some.inj h
    exact ⟨t, rfl, hleave rfl⟩
  | subscribed =>
    dsimp only at h
    split at h
    · next c hc =>
      split at h
      · next howner =>
        obtain rfl := Option.some.inj h
        rcases hcases with ⟨he, _⟩ | ⟨_, hold, hsub, hinbox⟩ | ⟨he, _⟩
        · cases he
        · obtain ⟨u, hu, hfollows⟩ := hs.bind hunspawned hothers hold (hself ▸ hsub) (hself ▸ hinbox)
            hc howner
          have hevent : event codec (.server p (.turn i .subscribed)) s = [.bind ((p, i), c)] := by
            rw [event, hc]
            rfl
          exact ⟨u, by rw [hevent]; exact run_cons.mpr ⟨u, hu, rfl⟩, hfollows⟩
        · cases he
      · cases h
    · cases h

theorem not_subscribed_of_connecting (h : (s.listener l).stage = .connecting) :
    (s.listener l).subscribed = false := by
  rw [Listener.subscribed, h]

/-- A listener has opened a connection. -/
theorem Follows.connect (hs : Follows config uuid s t) (hl : (s.listener l).stage = .connecting) :
    Follows config uuid { s.setConnection l (some s.connections) with
      connections := s.connections + 1 } t := by
  have hself : (s.setConnection l (some s.connections)).connection l = some s.connections :=
    Function.update_self _ _ _
  have hnew := hs.fresh l s.connections (Nat.le_refl _)
  refine hs.update (l := l) hs.unspawned rfl rfl hs.queue (Nat.le_succ _)
    (fun k hk => Function.update_of_ne hk _ _) (fun _ _ => rfl) (fun _ _ _ => rfl)
    (fun _ _ _ _ _ h => h) ⟨fun c hc => ?_, fun c hc => hs.fresh l c (Nat.le_of_succ_le hc),
      fun c hc => ?_, fun _ => ?_, fun c hc hbound => ?_⟩
  · obtain rfl := Option.some.inj (hself.symm.trans hc)
    exact Nat.lt_succ_self _
  · obtain rfl := Option.some.inj (hself.symm.trans hc)
    show (t.inbox (l, s.connections)).map _ = (s.listener l).inbox
    rw [hnew.1, inbox_of_not_subscribed (not_subscribed_of_connecting hl)]
    rfl
  · show (s.setConnection l (some s.connections)).connection l ≠ none
    rw [hself]
    exact Option.some_ne_none _
  · obtain rfl := Option.some.inj (hself.symm.trans hc)
    exact absurd hbound (hnew.2 _ true)

/-- A listener has declared its queue. -/
theorem Follows.declare (hs : Follows config uuid s t) {c : Nat} (hc : s.connection l = some c)
    (hfree : s.queue (queueName config uuid (l, c)) = none) :
    ∃ u, Exclusive.step (queueName config uuid) (exchange config) (.declare (l, c)) t = some u ∧
      Follows config uuid (s.setQueue (queueName config uuid (l, c)) (some ((l, c), false))) u := by
  rw [hs.queue] at hfree
  refine ⟨t.setQueue (queueName config uuid (l, c)) (some ((l, c), false)), if_pos hfree,
    hs.update (l := l) hs.unspawned rfl rfl ?_ (Nat.le_refl _) (fun _ _ => rfl) (fun _ _ => rfl)
      (fun _ _ _ => rfl) (fun k d n b hk hn => ?_) ⟨hs.known l, fun d hd => ⟨?_, fun n b hn => ?_⟩,
        hs.inbox l, hs.subscribed l, fun d hd hbound => ?_⟩⟩
  · show Function.update s.queue _ _ = Function.update t.queue _ _
    rw [hs.queue]
  · rcases Exclusive.queue_setQueue hn with ⟨_, hq⟩ | hold
    · exact absurd (Prod.mk.inj (Prod.mk.inj (Option.some.inj hq)).1).1.symm hk
    · exact hold
  · exact (hs.fresh l d hd).1
  · rcases Exclusive.queue_setQueue hn with ⟨_, hq⟩ | hold
    · have hcd : c = d := (Prod.mk.inj (Prod.mk.inj (Option.some.inj hq)).1).2
      exact absurd (hs.known l c hc) (Nat.not_lt.mpr (hcd ▸ hd))
    · exact (hs.fresh l d hd).2 n b hold
  · rcases Exclusive.queue_setQueue hbound with ⟨_, hq⟩ | hold
    · exact absurd (Prod.mk.inj (Option.some.inj hq)).2 Bool.false_ne_true
    · exact hs.bound l d hd hold

/-- What is in the inbox of a listener, its connection can take. -/
theorem Follows.head (hs : Follows config uuid s t) {c : Nat} {d : Delivery} {rest : List Delivery}
    (hc : s.connection l = some c) (h : (s.listener l).inbox = d :: rest) :
    ∃ m tail, t.inbox (l, c) = (m, d.serial) :: tail ∧ d.payload = m.payload ∧
      tail.map Fleet.delivery = rest := by
  have hinbox := (hs.inbox l c hc).trans h
  cases hold : t.inbox (l, c) with
  | nil =>
    rw [hold] at hinbox
    cases hinbox
  | cons x tail =>
    rw [hold, List.map_cons] at hinbox
    obtain ⟨rfl, htail⟩ := List.cons.inj hinbox
    exact ⟨x.1, tail, rfl, rfl, htail⟩

/-- A listener reads a message. -/
theorem Follows.receive (hs : Follows config uuid s t) {r : Restarts}
    (hr : Restarts.step codec (.receive i) (s.server p) = some r) :
    ∃ u, run (Exclusive.step (queueName config uuid) (exchange config)) t
        (event codec (.server p (.receive i)) s) = some u ∧
      Follows config uuid (s.setServer p r) u := by
  obtain ⟨d, hinbox, hsub, hsub', _, hothers⟩ := Fleet.receive_step hr
  obtain ⟨c, hc⟩ := Option.ne_none_iff_exists'.mp (hs.subscribed (p, i) hsub)
  obtain ⟨m, tail, hold, _, htail⟩ := hs.head hc hinbox
  have hlistener : (s.setServer p r).listener (p, i) = r.listener i := listener_setServer_self s p i r
  have hevent : event codec (.server p (.receive i)) s = [.take ((p, i), c)] := by
    rw [event, hc]
    rfl
  have hstep : Exclusive.step (queueName config uuid) (exchange config) (.take ((p, i), c)) t =
      some (t.setInbox ((p, i), c) tail) := by
    simp only [Exclusive.step, hold]
  refine ⟨t.setInbox ((p, i), c) tail, by rw [hevent]; exact run_cons.mpr ⟨_, hstep, rfl⟩,
    hs.update (l := (p, i)) (unspawned_setServer hs.unspawned (hs.unspawned_step hr)) rfl rfl hs.queue
      (Nat.le_refl _) (fun _ _ => rfl) (fun k hk => listener_setServer_others hothers hk)
      (fun k d hk => ?_) (fun _ _ _ _ _ h => h) ⟨hs.known (p, i), fun d hd => ⟨?_, ?_⟩,
        fun d hd => ?_, fun _ => ?_, fun _ _ _ => ?_⟩⟩
  · exact Function.update_of_ne (fun h => hk (Prod.mk.inj h).1) _ _
  · have hne : ((p, i), d) ≠ ((p, i), c) := by
      rintro h
      rw [(Prod.mk.inj h).2] at hd
      exact absurd (hs.known (p, i) c hc) (Nat.not_lt.mpr hd)
    exact (Function.update_of_ne hne _ _).trans (hs.fresh (p, i) d hd).1
  · exact (hs.fresh (p, i) d hd).2
  · obtain rfl : c = d := Option.some.inj (hc.symm.trans hd)
    rw [hlistener]
    show (Function.update t.inbox _ tail _).map _ = _
    rw [Function.update_self, htail]
    rfl
  · exact hs.subscribed (p, i) hsub
  · rw [Subscribed, hlistener, hsub']

/-- A connection is closed. -/
theorem Follows.close (hs : Follows config uuid s t) (c : (Nat × Nat) × Nat) :
    ∃ u, Exclusive.step (queueName config uuid) (exchange config) (.close c) t = some u ∧
      Follows config uuid (if (s.queue (queueName config uuid c)).map Prod.fst = some c then
        s.setQueue (queueName config uuid c) none else s) u := by
  rw [hs.queue]
  refine ⟨_, rfl, ?_⟩
  split
  · have hkept {n : String × String} {x : ((Nat × Nat) × Nat) × Bool}
        (h : (t.setQueue (queueName config uuid c) none).queue n = some x) : t.queue n = some x := by
      rcases Exclusive.queue_setQueue h with ⟨_, hq⟩ | hold
      · cases hq
      · exact hold
    refine ⟨hs.unspawned, hs.published, ?_, hs.known, fun l d hd => ⟨(hs.fresh l d hd).1,
      fun n b hn => (hs.fresh l d hd).2 n b (hkept hn)⟩, hs.inbox, hs.subscribed,
      fun l d hd hbound => hs.bound l d hd (hkept hbound)⟩
    show Function.update s.queue _ _ = Function.update t.queue _ _
    rw [hs.queue]
  · exact hs

theorem bound_iff (hs : Follows config uuid s t) {c : Nat} (hc : s.connection l = some c) :
    s.bound config uuid l = true ↔ Exclusive.Holds (queueName config uuid) (l, c) t := by
  rw [bound, hc, Option.any_some, hs.queue, decide_eq_true_eq]
  rfl

/-- A message is published. -/
theorem Follows.deliver (hs : Follows config uuid s t) (dest : AmqpConfig) (m : Posted) :
    ∃ u, Exclusive.step (queueName config uuid) (exchange config)
        (.publish (dest.url, dest.exchange) m) t = some u ∧
      Follows config uuid (s.deliver config uuid dest m) u := by
  have hlistener (l : Nat × Nat) : (s.deliver config uuid dest m).listener l =
      if s.bound config uuid l ∧ (config l.1).url = dest.url ∧ (config l.1).exchange = dest.exchange
      then (s.listener l).deliver ⟨s.published, m.payload⟩ else s.listener l := rfl
  have hsubscribed (l : Nat × Nat) :
      Subscribed l (s.deliver config uuid dest m) ↔ Subscribed l s := by
    rw [Subscribed, hlistener]
    split
    · rw [Restarts.subscribed_deliver, Subscribed]
    · rfl
  have hinbox (k : (Nat × Nat) × Nat) : (t.publish (queueName config uuid) (exchange config)
      (dest.url, dest.exchange) m).inbox k =
        if Exclusive.Holds (queueName config uuid) k t ∧ exchange config k = (dest.url, dest.exchange)
        then t.inbox k ++ [(m, t.log.length)] else t.inbox k := rfl
  refine ⟨_, rfl, fun p i hi => ?_, ?_, hs.queue, hs.known, fun l c hc => ⟨?_, (hs.fresh l c hc).2⟩,
    fun l c hc => ?_, fun l hl => hs.subscribed l ((hsubscribed l).mp hl),
    fun l c hc hbound => (hsubscribed l).mpr (hs.bound l c hc hbound)⟩
  · have hstage := hs.unspawned p i hi
    show ((s.deliver config uuid dest m).listener (p, i)).stage = .unspawned
    rw [hlistener]
    split
    · simp only [Listener.deliver, listener, hstage]
    · exact hstage
  · show s.published + 1 = (t.log ++ [((dest.url, dest.exchange), m)]).length
    rw [hs.published, List.length_append]
    rfl
  · rw [hinbox, if_neg fun h => (hs.fresh l c hc).2 _ true h.1]
    exact (hs.fresh l c hc).1
  · have hiff : Exclusive.Holds (queueName config uuid) (l, c) t ∧
        exchange config (l, c) = (dest.url, dest.exchange) ↔
        s.bound config uuid l = true ∧ (config l.1).url = dest.url ∧
          (config l.1).exchange = dest.exchange :=
      and_congr (bound_iff hs hc).symm Prod.mk_inj
    rw [hinbox, hlistener]
    by_cases hgets : s.bound config uuid l = true ∧ (config l.1).url = dest.url ∧
        (config l.1).exchange = dest.exchange
    · have hsub : (s.listener l).subscribed = true := hs.bound l c hc (hiff.mpr hgets).1
      rw [if_pos (hiff.mpr hgets), if_pos hgets, List.map_append, hs.inbox l c hc,
        Restarts.inbox_deliver, hsub, if_pos rfl, hs.published]
      rfl
    · rw [if_neg (mt hiff.mp hgets), if_neg hgets]
      exact hs.inbox l c hc

/-- The processes, and who listens over Redis, are not the queues' concern. -/
theorem Follows.fleet (hs : Follows config uuid s t) (f : Fleet) :
    Follows config uuid { s with fleet := f } t :=
  ⟨hs.unspawned, hs.published, hs.queue, hs.known, hs.fresh, hs.inbox, hs.subscribed, hs.bound⟩

theorem Follows.post (hs : Follows config uuid s t) (m : Posted) :
    ∃ u, run (Exclusive.step (queueName config uuid) (exchange config)) t
        (([m].filterMap amqp).map publishEvent) = some u ∧
      Follows config uuid (s.post config uuid m) u := by
  obtain ⟨dest, payload, source⟩ := m
  cases dest with
  | redis dest => exact ⟨t, rfl, hs⟩
  | amqp dest =>
    obtain ⟨u, hu, hfollows⟩ := hs.deliver dest ⟨.amqp dest, payload, source⟩
    exact ⟨u, run_cons.mpr ⟨u, hu, rfl⟩, hfollows⟩

theorem posts_fleet (codec : Codec) (a : Fleet.Action) (f : Fleet) :
    Fleet.posts codec a f = [] ∨ ∃ m, Fleet.posts codec a f = [m] := by
  cases a with
  | process q b => exact Fleet.posts_process codec q b f
  | foreign dest payload => exact .inr ⟨_, rfl⟩
  | server q b => exact .inl rfl

/-- A server does something else than to take a turn or to read. -/
theorem Follows.quiet (hs : Follows config uuid s t) {a : Restarts.Action} {r : Restarts}
    (ha : Fleet.Quiet a ∨ ∃ k, a = .spawn k) (hr : Restarts.step codec a (s.server p) = some r) :
    Follows config uuid (s.setServer p r) t := by
  refine hs.server (hs.unspawned_step hr) fun j => ?_
  rcases ha with ha | ⟨k, rfl⟩
  · rw [(Fleet.quiet_step ha hr).1]
    exact ⟨rfl, rfl⟩
  · rcases (Fleet.spawn_step hr).2 with hlistener | hlistener <;> rw [hlistener]
    · exact ⟨rfl, rfl⟩
    · by_cases hj : j = (s.server p).spawned
      · -- the number has not been a listener's before
        have hstage := hs.unspawned p j (Nat.le_of_eq hj.symm)
        rw [hj, Server.set_self]
        rw [hj] at hstage
        simp only [Listener.subscribed, Listener.inbox, Listener.new, hstage, and_self]
      · rw [Server.set_of_ne _ hj]
        exact ⟨rfl, rfl⟩

/-- **The cluster follows the queues**, step by step. -/
theorem step_follows (a : Action) (s s' : Cluster)
    (t : Exclusive ((Nat × Nat) × Nat) (String × String) (String × String) Posted)
    (hs : Follows config uuid s t) (h : step codec castError redis config uuid a s = some s') :
    ∃ u, run (Exclusive.step (queueName config uuid) (exchange config)) t (event codec a s) = some u ∧
      Follows config uuid s' u := by
  cases a with
  | fleet a =>
    obtain ⟨f, _, rfl⟩ := Option.map_eq_some_iff.mp h
    show ∃ u, run _ t (((Fleet.posts codec a s.fleet).filterMap amqp).map publishEvent) = some u ∧ _
    rcases posts_fleet codec a s.fleet with hposts | ⟨m, hposts⟩ <;> rw [hposts]
    · exact ⟨t, rfl, hs.fleet f⟩
    · exact (hs.fleet f).post m
  | foreign dest payload =>
    obtain rfl := Option.some.inj h
    obtain ⟨u, hu, hfollows⟩ := hs.deliver dest ⟨.amqp dest, payload, none⟩
    exact ⟨u, run_cons.mpr ⟨u, hu, rfl⟩, hfollows⟩
  | server p b =>
    have hmap (h : (Restarts.step codec b (s.server p)).map (s.setServer p) = some s') :
        ∃ r, Restarts.step codec b (s.server p) = some r ∧ s.setServer p r = s' :=
      Option.map_eq_some_iff.mp h
    have hquiet (hb : Fleet.Quiet b) (h : (Restarts.step codec b (s.server p)).map (s.setServer p) =
        some s') : Follows config uuid s' t := by
      obtain ⟨r, hr, rfl⟩ := hmap h
      exact hs.quiet (.inl hb) hr
    cases b with
    | publish payload => cases h
    | turn i x => exact hs.turn h
    | receive i =>
      obtain ⟨r, hr, rfl⟩ := hmap h
      exact hs.receive hr
    | spawn k =>
      obtain ⟨r, hr, rfl⟩ := hmap h
      exact ⟨t, rfl, hs.quiet (.inr ⟨k, rfl⟩) hr⟩
    | start | bind k ok | signal k ctrlC | finish k | stop | serve channels outgoing =>
      exact ⟨t, rfl, hquiet trivial h⟩
  | connect l =>
    simp only [step] at h
    split at h
    · next hstage _ =>
      obtain rfl := Option.some.inj h
      exact ⟨t, rfl, hs.connect hstage⟩
    · cases h
  | declare l =>
    simp only [step] at h
    split at h
    · next c hstage hc =>
      split at h
      · next hfree =>
        obtain rfl := Option.some.inj h
        obtain ⟨u, hu, hfollows⟩ := hs.declare hc hfree
        have hevent : event codec (.declare l) s = [.declare (l, c)] := by
          rw [event, hc]
          rfl
        exact ⟨u, by rw [hevent]; exact run_cons.mpr ⟨u, hu, rfl⟩, hfollows⟩
      · cases h
    · cases h
  | close c =>
    obtain rfl := Option.some.inj h
    obtain ⟨u, hu, hfollows⟩ := hs.close c
    exact ⟨u, run_cons.mpr ⟨u, hu, rfl⟩, hfollows⟩

theorem init_follows (fleetBroker broker : Nat → Bool) :
    Follows config uuid (init fleetBroker broker) Exclusive.new where
  unspawned := fun _ _ _ => rfl
  published := rfl
  queue := rfl
  known := fun _ _ h => (nomatch h)
  fresh := fun _ _ _ => ⟨rfl, fun _ _ h => (nomatch h)⟩
  inbox := fun _ _ _ => rfl
  subscribed := fun _ h => (nomatch h)
  bound := fun _ _ h => (nomatch h)

/-! ### What is made of the messages -/

/-- The broadcast that a message asks for, if it is one. -/
def asks (codec : Codec) (x : ((Nat × Nat) × Nat) × Posted × Nat) :
    Option ((Nat × Nat) × Nat × StoreCall) :=
  (payloadCall codec x.2.1.payload).map fun call => (x.1.1, x.2.2, call)

/-- All broadcasts that the listeners make. -/
def madeBy (codec : Codec) (castError : DictValue → PyErr) (redis : Nat → RedisConfig)
    (config : Nat → AmqpConfig) (uuid : Nat → String) (s : Cluster) (actions : List Action) :
    List ((Nat × Nat) × Nat × StoreCall) :=
  emitted (step codec castError redis config uuid) (made codec) s actions

/-- What the AMQP server is given along a run. -/
def log (codec : Codec) (castError : DictValue → PyErr) (redis : Nat → RedisConfig)
    (config : Nat → AmqpConfig) (uuid : Nat → String) (s : Cluster) (actions : List Action) :
    List (AmqpConfig × Posted) :=
  emitted (step codec castError redis config uuid) (posts codec) s actions

theorem made_follows (a : Action) (s s' : Cluster)
    (t : Exclusive ((Nat × Nat) × Nat) (String × String) (String × String) Posted)
    (hs : Follows config uuid s t) (h : step codec castError redis config uuid a s = some s') :
    made codec a s = (emitted (Exclusive.step (queueName config uuid) (exchange config))
      Exclusive.taken t (event codec a s)).filterMap (asks codec) := by
  have hnone (hmade : made codec a s = []) (he : ∀ e ∈ event codec a s, ∀ c, e ≠ .take c) :
      made codec a s = (emitted (Exclusive.step (queueName config uuid) (exchange config))
        Exclusive.taken t (event codec a s)).filterMap (asks codec) := by
    have htakes : emitted (Exclusive.step (queueName config uuid) (exchange config))
        Exclusive.taken t (event codec a s) = [] := Exclusive.takes_eq_nil he t
    rw [hmade, htakes]
    rfl
  have hposts (he : event codec a s = (posts codec a s).map publishEvent) :
      ∀ e ∈ event codec a s, ∀ c, e ≠ .take c := by
    intro e hmem c hc
    rw [he] at hmem
    obtain ⟨x, _, rfl⟩ := List.mem_map.mp hmem
    cases hc
  cases a with
  | fleet b => exact hnone rfl (hposts rfl)
  | foreign dest payload => exact hnone rfl (hposts rfl)
  | connect l => exact hnone rfl (hposts rfl)
  | declare l =>
    refine hnone rfl fun e he c hc => ?_
    obtain ⟨d, _, rfl⟩ := List.mem_map.mp he
    cases hc
  | close c =>
    refine hnone rfl fun e he d hd => ?_
    rw [List.mem_singleton.mp he] at hd
    cases hd
  | server p b =>
    cases b with
    | start | spawn k | bind k ok | signal k ctrlC | finish k | stop | publish m | serve c o =>
      exact hnone rfl (hposts rfl)
    | turn i x =>
      cases x with
      | firstPoll | ready | failed | slept | ended | shutdown => exact hnone rfl (hposts rfl)
      | subscribed =>
        refine hnone rfl fun e he c hc => ?_
        obtain ⟨d, _, rfl⟩ := List.mem_map.mp he
        cases hc
    | receive i =>
      obtain ⟨r, hr, _⟩ := Option.map_eq_some_iff.mp h
      obtain ⟨d, hinbox, hsub, _⟩ := Fleet.receive_step hr
      obtain ⟨c, hc⟩ := Option.ne_none_iff_exists'.mp (hs.subscribed (p, i) hsub)
      obtain ⟨m, tail, hold, hpayload, _⟩ := hs.head hc hinbox
      have hevent : event codec (.server p (.receive i)) s = [.take ((p, i), c)] := by
        rw [event, hc]
        rfl
      have hmade : made codec (.server p (.receive i)) s =
          [d].filterMap fun d =>
            (payloadCall codec d.payload).map fun call => ((p, i), d.serial, call) := by
        show (((s.server p).inbox i).take 1).filterMap _ = _
        rw [hinbox]
        rfl
      have htaken : Exclusive.taken (.take ((p, i), c)) t = [(((p, i), c), m, d.serial)] := by
        rw [Exclusive.taken, hold]
        rfl
      rw [hevent, emitted_singleton, hmade, htaken]
      simp [asks, hpayload, List.filterMap_cons]

theorem published_event (a : Action) (s : Cluster) : Exclusive.published (event codec a s) =
    (posts codec a s).map fun x => ((x.1.url, x.1.exchange), x.2) := by
  have hposts (l : List (AmqpConfig × Posted)) : Exclusive.published (l.map publishEvent) =
      l.map fun x => ((x.1.url, x.1.exchange), x.2) := by
    rw [Exclusive.published, List.filterMap_map]
    exact congrFun List.filterMap_eq_map l
  have hone (c : Option Nat) (e : Nat → Exclusive.Event ((Nat × Nat) × Nat) (String × String) Posted)
      (he : ∀ n, Exclusive.published [e n] = []) : Exclusive.published (c.toList.map e) = [] := by
    cases c with
    | none => rfl
    | some n => exact he n
  cases a with
  | fleet b => exact hposts _
  | foreign dest payload => exact hposts _
  | connect l => rfl
  | declare l => exact hone _ _ fun _ => rfl
  | close c => rfl
  | server p b =>
    cases b with
    | start | spawn k | bind k ok | signal k ctrlC | finish k | stop | publish m | serve c o => rfl
    | receive i => exact hone _ _ fun _ => rfl
    | turn i x =>
      cases x with
      | firstPoll | ready | failed | slept | ended | shutdown => rfl
      | subscribed => exact hone _ _ fun _ => rfl

theorem published_events {actions : List Action}
    (h : run (step codec castError redis config uuid) s actions = some s') :
    Exclusive.published (emitted (step codec castError redis config uuid) (event codec) s actions) =
      (log codec castError redis config uuid s actions).map fun x =>
        ((x.1.url, x.1.exchange), x.2) := by
  induction actions generalizing s with
  | nil => rfl
  | cons a rest ih =>
    obtain ⟨m, hm, hrest⟩ := run_cons.mp h
    have hlog : log codec castError redis config uuid s (a :: rest) =
        posts codec a s ++ log codec castError redis config uuid m rest := emitted_cons hm
    rw [emitted_cons hm, Exclusive.published, List.filterMap_append, hlog, List.map_append, ← ih hrest,
      ← published_event]
    rfl

/-- A run of the cluster is one of the queues. -/
theorem run_queues {fleetBroker broker : Nat → Bool} {actions : List Action}
    (h : run (step codec castError redis config uuid) (init fleetBroker broker) actions = some s) :
    ∃ t, run (Exclusive.step (queueName config uuid) (exchange config)) Exclusive.new
        (emitted (step codec castError redis config uuid) (event codec) (init fleetBroker broker) actions) =
          some t ∧
      Follows config uuid s t :=
  run_follows step_follows actions (init_follows fleetBroker broker) h

/-! ### Where the messages come from -/

/-- What the run does to the processes. -/
def fleetActions (actions : List Action) : List Fleet.Action :=
  actions.filterMap fun
    | .fleet a => some a
    | _ => none

theorem post_fleet (ms : List Posted) (s : Cluster) :
    (ms.foldl (post config uuid) s).fleet = s.fleet := by
  induction ms generalizing s with
  | nil => rfl
  | cons m rest ih =>
    rw [List.foldl_cons, ih]
    obtain ⟨dest, payload, source⟩ := m
    cases dest <;> rfl

theorem turn_fleet {x : Listener.Turn} (h : turn codec config uuid p i x s = some s') :
    s'.fleet = s.fleet := by
  obtain ⟨r, _, h⟩ := Option.bind_eq_some_iff.mp h
  cases x with
  | firstPoll | ready | failed | slept | ended | shutdown =>
    obtain rfl := Option.some.inj h
    rfl
  | subscribed =>
    dsimp only at h
    split at h
    · split at h
      · obtain rfl := Option.some.inj h
        rfl
      · cases h
    · cases h

/-- A step is one of the processes, or no process publishes in it. -/
theorem step_fleet {a : Action} (h : step codec castError redis config uuid a s = some s') :
    (∃ b, a = .fleet b ∧ Fleet.step codec castError redis b s.fleet = some s'.fleet) ∨
      fleetActions [a] = [] ∧ s'.fleet = s.fleet ∧ ∀ x ∈ posts codec a s, x.2.source = none := by
  cases a with
  | fleet b =>
    obtain ⟨f, hf, rfl⟩ := Option.map_eq_some_iff.mp h
    exact .inl ⟨b, rfl, by rw [post_fleet]; exact hf⟩
  | foreign dest payload =>
    obtain rfl := Option.some.inj h
    refine .inr ⟨rfl, rfl, fun x hx => ?_⟩
    rw [List.mem_singleton.mp hx]
  | server p b =>
    refine .inr ⟨rfl, ?_, fun x hx => (nomatch hx)⟩
    have hmap (h : (Restarts.step codec b (s.server p)).map (s.setServer p) = some s') :
        s'.fleet = s.fleet := by
      obtain ⟨r, _, rfl⟩ := Option.map_eq_some_iff.mp h
      rfl
    cases b with
    | publish payload => cases h
    | turn i x => exact turn_fleet h
    | start | spawn k | bind k ok | signal k ctrlC | finish k | stop | receive j | serve c o =>
      exact hmap h
  | connect l =>
    simp only [step] at h
    split at h
    · obtain rfl := Option.some.inj h
      exact .inr ⟨rfl, rfl, fun x hx => (nomatch hx)⟩
    · cases h
  | declare l =>
    simp only [step] at h
    split at h
    · split at h
      · obtain rfl := Option.some.inj h
        exact .inr ⟨rfl, rfl, fun x hx => (nomatch hx)⟩
      · cases h
    · cases h
  | close c =>
    obtain rfl := Option.some.inj h
    refine .inr ⟨rfl, ?_, fun x hx => (nomatch hx)⟩
    split <;> rfl

theorem amqp_eq_some {m : Posted} {x : AmqpConfig × Posted} (h : amqp m = some x) :
    x.2 = m ∧ m.dest = .amqp x.1 := by
  obtain ⟨dest, payload, source⟩ := m
  cases dest with
  | redis dest => cases h
  | amqp dest =>
    cases h
    exact ⟨rfl, rfl⟩

theorem amqp_sublist (ms : List Posted) : ((ms.filterMap amqp).map Prod.snd).Sublist ms := by
  induction ms with
  | nil => exact .slnil
  | cons m rest ih =>
    cases hm : amqp m with
    | none =>
      rw [List.filterMap_cons_none hm]
      exact ih.cons m
    | some x =>
      rw [List.filterMap_cons_some hm, List.map_cons, (amqp_eq_some hm).1]
      exact ih.cons_cons m

/-- A run of the cluster is one of its processes, and what comes from their calls comes from
them. -/
theorem run_fleet {actions : List Action}
    (h : run (step codec castError redis config uuid) s actions = some s') :
    run (Fleet.step codec castError redis) s.fleet (fleetActions actions) = some s'.fleet ∧
      (((log codec castError redis config uuid s actions).map Prod.snd).filter
        fun m => m.source.isSome).Sublist
          (emitted (Fleet.step codec castError redis) (Fleet.posts codec) s.fleet
            (fleetActions actions)) := by
  induction actions generalizing s with
  | nil =>
    cases h
    exact ⟨rfl, List.Sublist.refl _⟩
  | cons a rest ih =>
    obtain ⟨m, hm, hrest⟩ := run_cons.mp h
    obtain ⟨hrun, hsub⟩ := ih hrest
    have hsplit : fleetActions (a :: rest) = fleetActions [a] ++ fleetActions rest := by
      rw [fleetActions, fleetActions, fleetActions, ← List.filterMap_append, List.singleton_append]
    have hlog : log codec castError redis config uuid s (a :: rest) =
        posts codec a s ++ log codec castError redis config uuid m rest := emitted_cons hm
    rw [hsplit, hlog, List.map_append, List.filter_append]
    rcases step_fleet hm with ⟨b, rfl, hb⟩ | ⟨hnone, hsame, hposts⟩
    · have hone : fleetActions [.fleet b] = [b] := rfl
      rw [hone, List.singleton_append, emitted_cons hb]
      refine ⟨run_cons.mpr ⟨_, hb, hrun⟩, List.Sublist.append ?_ hsub⟩
      exact List.filter_sublist.trans (amqp_sublist _)
    · rw [hnone, List.nil_append, ← hsame]
      refine ⟨hrun, ?_⟩
      have hnil : ((posts codec a s).map Prod.snd).filter (fun m => m.source.isSome) = [] := by
        refine List.filter_eq_nil_iff.mpr fun x hx => ?_
        obtain ⟨y, hy, rfl⟩ := List.mem_map.mp hx
        rw [hposts y hy]
        exact Bool.false_ne_true
      rw [hnil, List.nil_append]
      exact hsub

theorem dest_of_posts {a : Action} {x : AmqpConfig × Posted} (hx : x ∈ posts codec a s) :
    x.2.dest = .amqp x.1 := by
  cases a with
  | fleet b =>
    obtain ⟨m, _, hm⟩ := List.mem_filterMap.mp hx
    rw [(amqp_eq_some hm).1]
    exact (amqp_eq_some hm).2
  | foreign dest payload =>
    rw [List.mem_singleton.mp hx]
  | server p b => cases hx
  | connect l => cases hx
  | declare l => cases hx
  | close c => cases hx

theorem dest_of_log {actions : List Action}
    (h : run (step codec castError redis config uuid) s actions = some s') :
    ∀ x ∈ log codec castError redis config uuid s actions, x.2.dest = .amqp x.1 := by
  induction actions generalizing s with
  | nil => exact fun x hx => (nomatch hx)
  | cons a rest ih =>
    obtain ⟨m, hm, hrest⟩ := run_cons.mp h
    intro x hx
    have hlog : log codec castError redis config uuid s (a :: rest) =
        posts codec a s ++ log codec castError redis config uuid m rest := emitted_cons hm
    rw [hlog] at hx
    rcases List.mem_append.mp hx with hx | hx
    · exact dest_of_posts hx
    · exact ih hrest x hx

/-- A message of a call asks for the broadcast that the call is about. -/
theorem asked_of_source {fleetBroker broker : Nat → Bool} {actions : List Action}
    {x : AmqpConfig × Posted} {q k : Nat}
    (h : run (step codec castError redis config uuid) (init fleetBroker broker) actions = some s)
    (hx : x ∈ log codec castError redis config uuid (init fleetBroker broker) actions)
    (hsource : x.2.source = some (q, k)) :
    ∃ pub, Broadcasting.Called codec castError (Fleet.processActions q (fleetActions actions)) k pub
        (.amqp x.1) ∧
      payloadCall codec x.2.payload = some ⟨pub.groups, .text pub.message, none⟩ := by
  obtain ⟨hrun, hsub⟩ := run_fleet h
  have hmem : x.2 ∈ emitted (Fleet.step codec castError redis) (Fleet.posts codec)
      (init fleetBroker broker).fleet (fleetActions actions) := by
    refine hsub.subset (List.mem_filter.mpr ⟨List.mem_map_of_mem hx, ?_⟩)
    rw [hsource]
    rfl
  obtain ⟨post, hpost, rfl, hconfig, hpayload⟩ := Fleet.given_of_source hrun hmem hsource
  obtain ⟨pub, _, hcalled, _, hmade⟩ := Broadcasting.run_posted (Fleet.init_process q hrun) hpost
  refine ⟨pub, ?_, ?_⟩
  · rw [← hconfig, dest_of_log h x hx] at hcalled
    exact hcalled
  · rw [hpayload, hmade, payloadCall, ofPayload_makePayload]
    rfl

theorem count_log_le {fleetBroker broker : Nat → Bool} {actions : List Action}
    (h : run (step codec castError redis config uuid) (init fleetBroker broker) actions = some s)
    (q k : Nat) :
    (log codec castError redis config uuid (init fleetBroker broker) actions).countP
      (fun x => Fleet.From q k x.2) ≤ 1 := by
  obtain ⟨hrun, hsub⟩ := run_fleet h
  have htracked := run_invariant Broadcasting.step_tracked _ (Fleet.init_process q hrun)
    (Broadcasting.init_tracked codec)
  have hcount : (s.fleet.process q).count k = 0 + _ := Fleet.count_posts hrun q k
  have hle := hsub.countP_le (p := Fleet.From q k)
  have hsame : (((log codec castError redis config uuid (init fleetBroker broker) actions).map
      Prod.snd).filter fun m => m.source.isSome).countP (Fleet.From q k) =
        (log codec castError redis config uuid (init fleetBroker broker) actions).countP
          fun x => Fleet.From q k x.2 := by
    rw [List.countP_filter, List.countP_map]
    congr 1
    funext x
    cases hsource : x.2.source <;> simp [Fleet.From, hsource]
  have honce := htracked.once k
  omega

/-! ### Queues that are shared -/

/-- The servers name the same queue in their configurations. -/
def SharesQueue (config : Nat → AmqpConfig) (p q : Nat) : Prop :=
  (config p).url = (config q).url ∧ (config p).queue = (config q).queue ∧ (config p).queue ≠ none

instance (config : Nat → AmqpConfig) (p q : Nat) : Decidable (SharesQueue config p q) :=
  inferInstanceAs (Decidable (_ ∧ _ ∧ _))

theorem SharesQueue.name {k : Nat × Nat} (h : SharesQueue config l.1 k.1) (c d : Nat) :
    queueName config uuid (l, c) = queueName config uuid (k, d) := by
  obtain ⟨hurl, hqueue, hsome⟩ := h
  obtain ⟨name, hname⟩ := Option.ne_none_iff_exists'.mp hsome
  rw [queueName, queueName, hurl, ← hqueue, hname]
  rfl

theorem index_unique {α : Type} {P : α → Bool} {l : List α} (h : l.countP P ≤ 1) {m n : Nat} {x y : α}
    (hx : l[m]? = some x) (hy : l[n]? = some y) (hPx : P x = true) (hPy : P y = true) : m = n := by
  induction l generalizing m n with
  | nil => cases hx
  | cons a rest ih =>
    have hlater {z : α} {k : Nat} (hz : rest[k]? = some z) (hPz : P z = true) (ha : P a = true) :
        False := by
      have hpos : 0 < rest.countP P := List.countP_pos_iff.mpr ⟨z, List.mem_of_getElem? hz, hPz⟩
      rw [List.countP_cons_of_pos ha] at h
      omega
    cases m with
    | zero =>
      cases n with
      | zero => rfl
      | succ n =>
        obtain rfl := Option.some.inj hx
        exact (hlater hy hPy hPx).elim
    | succ m =>
      cases n with
      | zero =>
        obtain rfl := Option.some.inj hy
        exact (hlater hx hPx hPy).elim
      | succ n =>
        exact congrArg _ (ih (Nat.le_trans (List.countP_cons .. ▸ Nat.le_add_right _ _) h) hx hy)

/-- The broadcast comes from the call, by the log. -/
def isFrom (log : List (AmqpConfig × Posted)) (q k : Nat) (x : (Nat × Nat) × Nat × StoreCall) : Bool :=
  log[x.2.1]?.any fun y => Fleet.From q k y.2

/-- Of what is made over one queue, one broadcast at most comes from a call. -/
theorem made_once {made : List ((Nat × Nat) × Nat × StoreCall)} {log : List (AmqpConfig × Posted)}
    {q k : Nat} (hmade : made.Pairwise fun x y => SharesQueue config x.1.1 y.1.1 → x.2.1 ≠ y.2.1)
    (hlog : log.countP (fun x => Fleet.From q k x.2) ≤ 1) (p : Nat) :
    (made.filter fun x => SharesQueue config p x.1.1 ∧ isFrom log q k x).length ≤ 1 := by
  have hfiltered := hmade.filter fun x => SharesQueue config p x.1.1 ∧ isFrom log q k x
  have hmem : ∀ x ∈ made.filter fun x => SharesQueue config p x.1.1 ∧ isFrom log q k x,
      SharesQueue config p x.1.1 ∧ ∃ y, log[x.2.1]? = some y ∧ Fleet.From q k y.2 = true := by
    intro x hx
    obtain ⟨hshares, hfrom⟩ := of_decide_eq_true (List.mem_filter.mp hx).2
    rw [isFrom, Option.any_eq_true] at hfrom
    exact ⟨hshares, hfrom⟩
  generalize made.filter (fun x => SharesQueue config p x.1.1 ∧ isFrom log q k x) = l at hfiltered hmem ⊢
  match l with
  | [] => exact Nat.zero_le 1
  | [x] => exact Nat.le_refl 1
  | x :: y :: rest =>
    obtain ⟨⟨hurl, hqueue, hsome⟩, mx, hx, hPx⟩ := hmem x List.mem_cons_self
    obtain ⟨⟨hurl', hqueue', _⟩, my, hy, hPy⟩ := hmem y (List.mem_cons_of_mem _ List.mem_cons_self)
    have hshares : SharesQueue config x.1.1 y.1.1 :=
      ⟨hurl.symm.trans hurl', hqueue.symm.trans hqueue', hqueue ▸ hsome⟩
    exact absurd (index_unique hlog hx hy hPx hPy)
      ((List.pairwise_cons.mp hfiltered).1 y List.mem_cons_self hshares)

/-- **A queue that is named in the configuration hands out every message once.** Over any run, of
all servers that name the same queue at one URL, through restarts and lost connections, no two
broadcasts are made of one message; each is what a message asks for that was published to the
exchange of the server, and a call of `broadcast` or `abroadcast` comes to one broadcast at most on
all of them together. -/
theorem handed_out_once (codec : Codec) (castError : DictValue → PyErr) (redis : Nat → RedisConfig)
    (config : Nat → AmqpConfig) (uuid : Nat → String) (fleetBroker broker : Nat → Bool)
    (actions : List Action) (s : Cluster)
    (h : run (step codec castError redis config uuid) (init fleetBroker broker) actions = some s) :
    (madeBy codec castError redis config uuid (init fleetBroker broker) actions).Pairwise
      (fun x y => SharesQueue config x.1.1 y.1.1 → x.2.1 ≠ y.2.1) ∧
    (∀ x ∈ madeBy codec castError redis config uuid (init fleetBroker broker) actions,
      ∃ dest m, (log codec castError redis config uuid (init fleetBroker broker) actions)[x.2.1]? =
          some (dest, m) ∧
        dest.url = (config x.1.1).url ∧ dest.exchange = (config x.1.1).exchange ∧
        payloadCall codec m.payload = some x.2.2 ∧
        ∀ q k, m.source = some (q, k) → ∃ pub,
          Broadcasting.Called codec castError (Fleet.processActions q (fleetActions actions)) k pub
            (.amqp dest) ∧
          x.2.2 = ⟨pub.groups, .text pub.message, none⟩) ∧
    ∀ p q k, ((madeBy codec castError redis config uuid (init fleetBroker broker) actions).filter fun x =>
      SharesQueue config p x.1.1 ∧
        isFrom (log codec castError redis config uuid (init fleetBroker broker) actions) q k x).length ≤ 1 := by
  obtain ⟨t, ht, hfollows⟩ := run_queues h
  have hmade : madeBy codec castError redis config uuid (init fleetBroker broker) actions =
      (Exclusive.takes (queueName config uuid) (exchange config) Exclusive.new _).filterMap
        (asks codec) :=
    emitted_follows step_follows made_follows actions (init_follows fleetBroker broker) h
  obtain ⟨honce, hlogged⟩ := Exclusive.run_once ht
  have hlog : t.log = (log codec castError redis config uuid (init fleetBroker broker) actions).map
      fun x => ((x.1.url, x.1.exchange), x.2) := by
    rw [Exclusive.run_log ht, published_events h]
    exact List.nil_append _
  have hasks {x : ((Nat × Nat) × Nat) × Posted × Nat} {y : (Nat × Nat) × Nat × StoreCall}
      (hy : asks codec x = some y) :
      y.1 = x.1.1 ∧ y.2.1 = x.2.2 ∧ payloadCall codec x.2.1.payload = some y.2.2 := by
    obtain ⟨call, hcall, rfl⟩ := Option.map_eq_some_iff.mp hy
    exact ⟨rfl, rfl, hcall⟩
  have hpairwise : (madeBy codec castError redis config uuid (init fleetBroker broker) actions).Pairwise
      fun x y => SharesQueue config x.1.1 y.1.1 → x.2.1 ≠ y.2.1 := by
    rw [hmade]
    refine List.Pairwise.filterMap _ (fun a b hab y hy z hz hshares => ?_) honce
    rw [(hasks hy).2.1, (hasks hz).2.1]
    rw [(hasks hy).1, (hasks hz).1] at hshares
    exact hab (hshares.name _ _)
  refine ⟨hpairwise, fun x hx => ?_, fun p q k => made_once hpairwise (count_log_le h q k) p⟩
  rw [hmade] at hx
  obtain ⟨y, hy, hyx⟩ := List.mem_filterMap.mp hx
  obtain ⟨hlistener, hserial, hcall⟩ := hasks hyx
  have hat := hlogged y hy
  rw [hlog, List.getElem?_map, ← hserial] at hat
  obtain ⟨⟨dest, m⟩, hm, heq⟩ := Option.map_eq_some_iff.mp hat
  obtain ⟨hexchange, rfl⟩ := Prod.mk.inj heq
  obtain ⟨hurl, hname⟩ := Prod.mk.inj hexchange
  refine ⟨dest, _, hm, hlistener ▸ hurl, hlistener ▸ hname, hcall, fun q k hsource => ?_⟩
  obtain ⟨pub, hcalled, hpayload⟩ := asked_of_source h (List.mem_of_getElem? hm) hsource
  exact ⟨pub, hcalled, Option.some.inj (hcall.symm.trans hpayload)⟩

/-! ### Two servers with one queue -/

def sharedQueue (_ : Nat) : AmqpConfig := ⟨"amqp://localhost:5672", "ws_broadcast", some "ws", ""⟩

/-- A server starts, and its listener connects. -/
def connects (p : Nat) : List Action :=
  [.server p .start, .server p (.spawn 0), .server p (.turn 0 .firstPoll), .connect (p, 0)]

/-- The listener has its queue. -/
def listens (p : Nat) : List Action :=
  [.declare (p, 0), .server p (.turn 0 .subscribed), .server p (.turn 0 .ready)]

/-- The one server has the queue, and the other does not get it. -/
def shares : List Action := connects 0 ++ listens 0 ++ connects 1 ++ [.server 1 (.turn 0 .failed)]

def greets : List Action :=
  [.foreign (sharedQueue 0) Restarts.greeting, .server 0 (.receive 0)]

/-- The listener of the first server loses its connection, and that of the second gets the
queue. -/
def hands : List Action :=
  [.close ((0, 0), 0), .server 0 (.turn 0 .ended), .server 1 (.turn 0 .slept), .connect (1, 0)] ++
    listens 1

/-- The dictionary of the documentation for AMQP, with its defaults. -/
def amqpDefaults : PyDict
  | "type" => some (.str "amqp")
  | _ => none

def broadcasts : List Action :=
  [.setup .thread amqpDefaults (.ok ()), .broadcast .thread ["room"] "hi", .send 0,
    .connect 0 (.ok ()), .publish 0 .confirmed true, .finish 0].map fun a => .fleet (.process 0 a)

/-- What another program publishes comes to the one server, and a broadcast to the other. -/
def handedOver : List Action := shares ++ greets ++ hands ++ broadcasts ++ [.server 1 (.receive 0)]

theorem handed_out_once_shared :
    ∃ s, run (step .shortest (fun _ => .typeError "not a str") Fleet.localRedis sharedQueue toString)
        (init (fun _ => false) fun _ => true) handedOver = some s ∧
      madeBy .shortest (fun _ => .typeError "not a str") Fleet.localRedis sharedQueue toString
        (init (fun _ => false) fun _ => true) handedOver =
          [((0, 0), 0, ⟨["chat"], .text "hi", none⟩), ((1, 0), 1, ⟨["room"], .text "hi", none⟩)] ∧
      (madeBy .shortest (fun _ => .typeError "not a str") Fleet.localRedis sharedQueue toString
        (init (fun _ => false) fun _ => true) handedOver).Pairwise
          fun x y => SharesQueue sharedQueue x.1.1 y.1.1 → x.2.1 ≠ y.2.1 :=
  ⟨_, rfl, rfl, (handed_out_once .shortest (fun _ => .typeError "not a str") Fleet.localRedis
    sharedQueue toString (fun _ => false) (fun _ => true) handedOver _ rfl).1⟩

end Cluster
end Webrockets
