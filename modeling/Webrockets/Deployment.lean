import Webrockets.Coverage
import Webrockets.Downstream
import Webrockets.Fleet

/-! Processes that broadcast, and the servers with their connections.

A deployment is a fleet and, for each server of it, the machine of its connections. The two meet
where a listener dispatches what it has read: that is a broadcast of the server, and the listener
goes on when it has returned (`made`). So what is broadcast in a process can be followed to the
client: `reaches_clients`. -/
namespace Webrockets
open Transition Outbox JsonText

/-- The `Restarts` in the fleet have channels of their own, which nothing here reads. -/
structure Deployment where
  fleet : Fleet
  server : Nat → Server

namespace Deployment

def init (broker : Nat → Bool) : Deployment := ⟨.init broker, fun _ => .init⟩

/-- The number of a listener among the callers of its server. -/
def dispatcher (i : Nat) : Nat := 2 * i

inductive Action where
  | fleet (a : Fleet.Action)
  /-- A listener takes up its next message, and dispatches it. -/
  | receive (p i : Nat)
  | server (p : Nat) (a : Server.Action)

/-- Calls are made by those who are no listeners. -/
def Foreign : Server.Action → Prop
  | .call caller .. | .broadcast caller .. => caller % 2 = 1
  | _ => True

instance : DecidablePred Foreign
  | .call caller .. | .broadcast caller .. => inferInstanceAs (Decidable (caller % 2 = 1))
  | .registry _ | .establish _ | .spawn _ | .enterGroup _ | .visit .. | .leaveGroup _ | .finish _
  | .poll _ | .cancel _ | .receive _ | .wrote .. | .abort _ => isTrue trivial

/-- A listener takes no turn while it dispatches. -/
def Free : Fleet.Action → Deployment → Prop
  | .server _ (.receive _), _ => False
  | .server p (.turn i _), d => (d.server p).loop (dispatcher i) = none
  | _, _ => True

instance (d : Deployment) : ∀ a, Decidable (Free a d)
  | .server _ (.receive _) => isFalse id
  | .server p (.turn i _) => inferInstanceAs (Decidable ((d.server p).loop (dispatcher i) = none))
  | .server _ .start | .server _ (.spawn _) | .server _ (.bind ..) | .server _ (.signal ..)
  | .server _ (.finish _) | .server _ .stop | .server _ (.publish _) | .server _ (.serve ..)
  | .process .. | .foreign .. => isTrue trivial

/-- What the listener has its server broadcast. -/
def dispatches (codec : Codec) (i : Nat) (inbox : List Delivery) : List Server.Action :=
  ((inbox.take 1).filterMap fun d => BrokerMessage.ofPayload codec d.payload).map fun m =>
    .broadcast (dispatcher i) .worker (.dispatch m.groups m.message)

def setServer (d : Deployment) (p : Nat) (v : Server) : Deployment :=
  { d with server := Server.set d.server p v }

def step (codec : Codec) (castError : DictValue → PyErr) (config : Nat → RedisConfig) :
    Action → Deployment → Option Deployment
  | .fleet a, d =>
    if Free a d then
      (Fleet.step codec castError config a d.fleet).map fun fleet => { d with fleet := fleet }
    else none
  | .receive p i, d =>
    if (d.server p).loop (dispatcher i) = none then do
      let fleet ← Fleet.step codec castError config (.server p (.receive i)) d.fleet
      let server ← run Server.step (d.server p) (dispatches codec i ((d.fleet.server p).inbox i))
      some { d.setServer p server with fleet := fleet }
    else none
  | .server p a, d =>
    if Foreign a then (Server.step a (d.server p)).map (d.setServer p) else none

/-- What a listener has its server broadcast: the message is the channel's with that serial
number, and the broadcast has a number among the calls on the server. -/
structure Made where
  serial : Nat
  number : Nat
  call : StoreCall

/-- The broadcast that a listener begins at its server. -/
def made (codec : Codec) (p i : Nat) : Action → Deployment → List Made
  | .receive q j, d =>
    if q = p ∧ j = i then
      (((d.fleet.server q).inbox j).take 1).filterMap fun x =>
        (payloadCall codec x.payload).map (⟨x.serial, (d.server q).calls, ·⟩)
    else []
  | _, _ => []

variable {codec : Codec} {castError : DictValue → PyErr} {config : Nat → RedisConfig}
  {d d' : Deployment} {p i : Nat}

/-! ### The fleet and the servers of it -/

def fleetEvent : Action → Deployment → List Fleet.Action
  | .fleet a, _ => [a]
  | .receive p i, _ => [.server p (.receive i)]
  | .server _ _, _ => []

def serverEvent (codec : Codec) (p : Nat) : Action → Deployment → List Server.Action
  | .fleet _, _ => []
  | .receive q i, d => if q = p then dispatches codec i ((d.fleet.server q).inbox i) else []
  | .server q a, _ => if q = p then [a] else []

theorem receive_some (h : step codec castError config (.receive p i) d = some d') :
    (d.server p).loop (dispatcher i) = none ∧
      Fleet.step codec castError config (.server p (.receive i)) d.fleet = some d'.fleet ∧
      ∃ v, run Server.step (d.server p) (dispatches codec i ((d.fleet.server p).inbox i)) = some v ∧
        d'.server = Server.set d.server p v := by
  simp only [step] at h
  split at h
  · next hnone =>
    obtain ⟨fleet, hfleet, h⟩ := Option.bind_eq_some_iff.mp h
    obtain ⟨v, hv, h⟩ := Option.bind_eq_some_iff.mp h
    obtain rfl := Option.some.inj h
    exact ⟨hnone, hfleet, v, hv, rfl⟩
  · cases h

theorem step_fleet (a : Action) (d d' : Deployment) (f : Fleet) (hf : d.fleet = f)
    (h : step codec castError config a d = some d') :
    ∃ f', run (Fleet.step codec castError config) f (fleetEvent a d) = some f' ∧ d'.fleet = f' := by
  subst hf
  cases a with
  | fleet a =>
    simp only [step] at h
    split at h
    · obtain ⟨f', hf', rfl⟩ := Option.map_eq_some_iff.mp h
      exact ⟨f', run_cons.mpr ⟨f', hf', rfl⟩, rfl⟩
    · cases h
  | receive q j =>
    obtain ⟨_, hfleet, _⟩ := receive_some h
    exact ⟨d'.fleet, run_cons.mpr ⟨d'.fleet, hfleet, rfl⟩, rfl⟩
  | server q a =>
    simp only [step] at h
    split at h
    · obtain ⟨v, _, rfl⟩ := Option.map_eq_some_iff.mp h
      exact ⟨d.fleet, rfl, rfl⟩
    · cases h

theorem step_server (a : Action) (d d' : Deployment) (v : Server) (hv : d.server p = v)
    (h : step codec castError config a d = some d') :
    ∃ v', run Server.step v (serverEvent codec p a d) = some v' ∧ d'.server p = v' := by
  subst hv
  cases a with
  | fleet a =>
    simp only [step] at h
    split at h
    · obtain ⟨f', _, rfl⟩ := Option.map_eq_some_iff.mp h
      exact ⟨d.server p, rfl, rfl⟩
    · cases h
  | receive q j =>
    obtain ⟨_, _, v', hv', hset⟩ := receive_some h
    rw [hset]
    by_cases hq : q = p
    · subst hq
      rw [serverEvent, if_pos rfl]
      exact ⟨v', hv', Server.set_self _ _ _⟩
    · rw [serverEvent, if_neg hq]
      exact ⟨d.server p, rfl, Server.set_of_ne _ (Ne.symm hq) _⟩
  | server q a =>
    simp only [step] at h
    split at h
    · obtain ⟨v', hv', rfl⟩ := Option.map_eq_some_iff.mp h
      by_cases hq : q = p
      · subst hq
        rw [serverEvent, if_pos rfl]
        exact ⟨v', run_cons.mpr ⟨v', hv', rfl⟩, Server.set_self _ _ _⟩
      · rw [serverEvent, if_neg hq]
        exact ⟨d.server p, rfl, Server.set_of_ne _ (Ne.symm hq) _⟩
    · cases h

theorem fleetEvent_one (a : Action) (d : Deployment) : fleetEvent a d = [] ∨ ∃ b, fleetEvent a d = [b] := by
  cases a with
  | fleet a => exact .inr ⟨_, rfl⟩
  | receive q j => exact .inr ⟨_, rfl⟩
  | server q a => exact .inl rfl

theorem serverEvent_one (codec : Codec) (p : Nat) (a : Action) (d : Deployment) :
    serverEvent codec p a d = [] ∨ ∃ b, serverEvent codec p a d = [b] := by
  cases a with
  | fleet a => exact .inl rfl
  | receive q j =>
    by_cases hq : q = p
    · rw [serverEvent, if_pos hq, dispatches]
      cases (d.fleet.server q).inbox j with
      | nil => exact .inl rfl
      | cons x rest =>
        rw [List.take_succ_cons, List.take_zero, List.filterMap_cons]
        cases BrokerMessage.ofPayload codec x.payload with
        | none => exact .inl rfl
        | some m => exact .inr ⟨_, rfl⟩
    · exact .inl (by rw [serverEvent, if_neg hq])
  | server q a =>
    by_cases hq : q = p
    · exact .inr ⟨a, by rw [serverEvent, if_pos hq]⟩
    · exact .inl (by rw [serverEvent, if_neg hq])

/-! ### From the listener to the server -/

/-- The messages that a channel gets. -/
def log (codec : Codec) (castError : DictValue → PyErr) (config : Nat → RedisConfig)
    (c : RedisConfig) (d : Deployment) (actions : List Action) : List Posted :=
  Fleet.log codec castError config c d.fleet
    (emitted (step codec castError config) fleetEvent d actions)

/-- The broadcast, as the fleet has it. -/
def Made.heard (x : Made) : Nat × StoreCall := (x.serial, x.call)

/-- The listeners of the fleet make their broadcasts at the servers. -/
theorem made_fleet (a : Action) (d d' : Deployment) (f : Fleet) (hf : d.fleet = f)
    (h : step codec castError config a d = some d') :
    (made codec p i a d).map Made.heard =
      (emitted (Fleet.step codec castError config) (Fleet.made codec p i) f
        (fleetEvent a d)).filterMap some := by
  subst hf
  rw [List.filterMap_some]
  cases a with
  | fleet a =>
    rw [fleetEvent, emitted_singleton]
    simp only [step] at h
    split at h
    · next hfree =>
      cases a with
      | server q b =>
        cases b with
        | receive j => exact hfree.elim
        | _ => rfl
      | _ => rfl
    · cases h
  | receive q j =>
    rw [fleetEvent, emitted_singleton, made, Fleet.made]
    split
    · rw [List.map_filterMap]
      refine List.filterMap_congr fun x _ => ?_
      rw [Option.map_map]
      rfl
    · rfl
  | server q a => rfl

theorem emitted_made {actions : List Action} (h : run (step codec castError config) d actions = some d') :
    (emitted (step codec castError config) (made codec p i) d actions).map Made.heard =
      Fleet.madeBy codec castError config p i d.fleet
        (emitted (step codec castError config) fleetEvent d actions) := by
  rw [← emitted_map]
  exact (emitted_follows step_fleet made_fleet actions rfl h).trans (List.filterMap_some)

/-- A broadcast that a listener makes begins at its server. -/
theorem made_dispatched {a : Action} {x : Made} (h : step codec castError config a d = some d')
    (hx : x ∈ made codec p i a d) :
    (d.server p).loop (dispatcher i) = none ∧ x.number = (d.server p).calls ∧
      ∃ m : BrokerMessage, m.storeCall = x.call ∧
        Server.step (.broadcast (dispatcher i) .worker (.dispatch m.groups m.message)) (d.server p) =
          some (d'.server p) := by
  cases a with
  | fleet a => cases hx
  | server q a => cases hx
  | receive q j =>
    simp only [made] at hx
    split at hx
    · next hqj =>
      obtain ⟨rfl, rfl⟩ := hqj
      obtain ⟨hnone, _, v, hv, hset⟩ := receive_some h
      obtain ⟨y, hy, hyx⟩ := List.mem_filterMap.mp hx
      obtain ⟨call, hcall, rfl⟩ := Option.map_eq_some_iff.mp hyx
      obtain ⟨m, hm, rfl⟩ := Option.map_eq_some_iff.mp hcall
      cases hinbox : (d.fleet.server q).inbox j with
      | nil =>
        rw [hinbox] at hy
        cases hy
      | cons z rest =>
        rw [hinbox, List.take_succ_cons, List.take_zero, List.mem_singleton] at hy
        subst hy
        rw [hinbox, dispatches, List.take_succ_cons, List.take_zero, List.filterMap_cons, hm] at hv
        obtain ⟨u, hu, hend⟩ := run_cons.mp hv
        obtain rfl := Option.some.inj hend
        refine ⟨hnone, rfl, m, rfl, ?_⟩
        rw [hu, hset, Server.set_self]
    · cases hx

/-- Of a call that has returned a listener that was there all the while makes one broadcast. -/
theorem made_once {broker : Nat → Bool} {before during : List Action} {s s' : Deployment}
    {q k : Nat} {pub : Publication}
    (hs : run (step codec castError config) (init broker) before = some s)
    (h : run (step codec castError config) s during = some s')
    (hcalled : (s.fleet.process q).called ≤ k)
    (hreturned : (s'.fleet.process q).call k = .done pub .returned)
    (hconfig : (s'.fleet.process q).config pub.broadcaster = .redis (config p))
    (hi : Always (step codec castError config) (fun d => Fleet.Subscribed p i d.fleet) s during)
    (hread : (s'.fleet.server p).inbox i = []) :
    ∃ serial, ((emitted (step codec castError config) (made codec p i) s during).filter
        (fun x => Fleet.isFrom (log codec castError config (config p) (init broker)
          (before ++ during)) q k x.heard)).map Made.heard =
      [(serial, ⟨pub.groups, .text pub.message, none⟩)] := by
  obtain ⟨_, hfleet, rfl⟩ := run_follows step_fleet before rfl hs
  obtain ⟨_, hfleet', rfl⟩ := run_follows step_fleet during rfl h
  have hstays := always_follows step_fleet fleetEvent_one (Q := Fleet.Subscribed p i)
    (fun d f hf hd => hf ▸ hd) during rfl h hi
  obtain ⟨serial, hmade⟩ := Fleet.reaches hfleet hfleet' hcalled hreturned hconfig hstays hread
  refine ⟨serial, ?_⟩
  rw [← hmade, ← emitted_made h, List.filter_map, log, emitted_append hs]
  rfl

/-! ### From the server to the client -/

theorem run_cancellable {actions : List Server.Action} {v : Server}
    (h : run Server.step .init actions = some v) :
    Cancellable (fun r : Request => r.future = true) v.outgoing := by
  refine run_invariant (P := fun v : Server => Cancellable (fun r : Request => r.future = true)
    v.outgoing) (fun a v w hv hstep => ?_) actions h (cancellable_new _)
  rcases Server.step_event hstep with hsame | ⟨e, he, hc, _⟩
  · rw [hsame]
    exact hv
  · exact step_cancellable hv hc he

/-- Where a server has nothing left to deliver, a client has got as many copies of a broadcast as
were accepted. -/
theorem copies_received {actions : List Server.Action} {v : Server}
    (h : run Server.step .init actions = some v)
    (hsettled : Settled Server.step Server.Delivers v) {tx : Sender} (hopen : v.Open tx) {k : Nat}
    {r : FrameReader} (hr : r.Lawful) (hfits : Fits r (v.sent tx)) {message : String}
    (hvalue : ∀ c ∈ (v.outgoing.link tx).accepted, c.value.call = k →
      c.value.future = false ∧ c.value.message = .text message) :
    ∃ values, Client.iterate r (v.socket tx) = (values, .waits) ∧
      AsyncClient.iterate r (v.socket tx) = (values, .waits) ∧
      v.copiesOf k tx ≤ values.count (.str message) := by
  have hs := Server.run_running h
  have hl : v.sendTask tx ≠ .stopped := by
    intro hstopped
    have hclosed : (v.outgoing.link tx).queue.closed = true := hs.closed_iff.mpr hstopped
    rw [hopen] at hclosed
    cases hclosed
  obtain ⟨hsync, hasync⟩ := hs.iterate hsettled hl hr hfits
  refine ⟨_, hsync, hasync, ?_⟩
  have hperm := (hs.finished hsettled hl).1
  have hcancelled : (v.outgoing.link tx).cancelled.countP (fun c => c.value.call == k) = 0 := by
    refine List.countP_eq_zero.mpr fun c hc hk => ?_
    have hfuture := (run_cancellable h).cancelled tx c hc
    have haccepted := hperm.mem_iff.mpr (List.mem_append_right _ hc)
    rw [(hvalue c haccepted (beq_iff_eq.mp hk)).1] at hfuture
    cases hfuture
  have hcopies : v.copiesOf k tx = (v.outgoing.link tx).taken.countP fun c => c.value.call == k := by
    rw [Server.copiesOf, Outbox.account, hperm.countP_eq, List.countP_append, hcancelled, Nat.add_zero]
  rw [hcopies, List.count, List.countP_filterMap]
  refine List.countP_mono_left fun c hc hk => ?_
  have haccepted := hperm.mem_iff.mpr (List.mem_append_left _ hc)
  rw [(hvalue c haccepted (beq_iff_eq.mp hk)).2]
  simp [Message.data]

/-- **From a call of `broadcast` to the clients.** A broadcast over Redis that has returned, on
whatever process, has come to every server whose listener was subscribed all the while and has
dispatched what it read: of all that this listener has made, one broadcast comes from the message
of the call, with its groups and its message. Of that one broadcast any connection has a copy at
most for each group that it was in at some time, and one that was registered and open all the
while has at least one for each group that it was in all the while; once its server has nothing
left to deliver, a client at the other end gets the message that often when it iterates. -/
theorem reaches_clients (codec : Codec) (castError : DictValue → PyErr) (config : Nat → RedisConfig)
    (broker : Nat → Bool) (before during : List Action) (s s' : Deployment)
    (hs : run (step codec castError config) (init broker) before = some s)
    (h : run (step codec castError config) s during = some s') (q k : Nat) (pub : Publication)
    (p i : Nat) (hcalled : (s.fleet.process q).called ≤ k)
    (hreturned : (s'.fleet.process q).call k = .done pub .returned)
    (hconfig : (s'.fleet.process q).config pub.broadcaster = .redis (config p))
    (hi : Always (step codec castError config) (fun d => Fleet.Subscribed p i d.fleet) s during)
    (hread : (s'.fleet.server p).inbox i = []) (hdone : (s'.server p).loop (dispatcher i) = none) :
    ∃ serial n, (emitted (step codec castError config) (made codec p i) s during).filter
        (fun x => Fleet.isFrom (log codec castError config (config p) (init broker)
          (before ++ during)) q k x.heard) =
        [⟨serial, n, ⟨pub.groups, .text pub.message, none⟩⟩] ∧
      (s.server p).calls ≤ n ∧ ∀ tx,
      (∀ c ∈ ((s'.server p).outgoing.link tx).accepted, c.value.call = n →
        c.value.message = .text pub.message) ∧
      (s'.server p).copiesOf n tx ≤ pub.groups.countP (fun group =>
        ¬ Always (step codec castError config) (fun d =>
          Registry.idOf tx ∉ (d.server p).store.members group) s during) ∧
      (Always (step codec castError config) (fun d =>
          Sendable (d.server p).store none tx ∧ (d.server p).Open tx) s during →
        pub.groups.countP (fun group => Always (step codec castError config) (fun d =>
          Registry.idOf tx ∈ (d.server p).store.members group) s during) ≤
            (s'.server p).copiesOf n tx ∧
        ∀ r : FrameReader, r.Lawful → Fits r ((s'.server p).sent tx) →
          Settled Server.step Server.Delivers (s'.server p) →
          ∃ values, Client.iterate r ((s'.server p).socket tx) = (values, .waits) ∧
            AsyncClient.iterate r ((s'.server p).socket tx) = (values, .waits) ∧
            pub.groups.countP (fun group => Always (step codec castError config) (fun d =>
              Registry.idOf tx ∈ (d.server p).store.members group) s during) ≤
                values.count (.str pub.message)) := by
  -- the listener makes one broadcast of it
  obtain ⟨serial, hheard⟩ := made_once hs h hcalled hreturned hconfig hi hread
  obtain ⟨⟨_, n, call⟩, hmade, hx⟩ := List.map_eq_singleton_iff.mp hheard
  obtain ⟨rfl, rfl⟩ := Prod.mk.inj hx
  refine ⟨_, n, hmade, ?_⟩
  have hmem := (List.mem_filter.mp (hmade.symm ▸ List.mem_singleton_self _)).1
  obtain ⟨first, a, rest, m, u, rfl, hfirst, ha, hx⟩ := mem_emitted h hmem
  clear hheard hmade hmem
  -- with that the listener begins a broadcast at its server
  obtain ⟨_, rfl, ⟨groups, message⟩, hcall, hbroadcast⟩ := made_dispatched ha hx
  obtain ⟨rfl, hmessage, _⟩ := StoreCall.mk.inj hcall
  obtain rfl := Message.text.inj hmessage
  have hbegin : run (step codec castError config) s (first ++ [a]) = some u :=
    run_join hfirst (run_cons.mpr ⟨u, ha, rfl⟩)
  have hsplit : first ++ a :: rest = (first ++ [a]) ++ rest := (List.append_cons first a rest)
  rw [hsplit] at h ⊢
  obtain ⟨u', hu', hrest⟩ := run_split h
  obtain rfl := Option.some.inj (hbegin.symm.trans hu')
  -- which comes to whoever stays
  obtain ⟨v, hv, rfl⟩ := run_follows (step_server (p := p)) before rfl hs
  obtain ⟨w, hw, rfl⟩ := run_follows (step_server (p := p)) first rfl hfirst
  obtain ⟨x, hx, rfl⟩ := run_follows (step_server (p := p)) rest rfl hrest
  have hlater {P : Server → Prop} (hP : Always (step codec castError config) (fun d => P (d.server p)) s
      ((first ++ [a]) ++ rest)) : Always Server.step P (u.server p)
        (emitted (step codec castError config) (serverEvent codec p) u rest) :=
    always_follows step_server (serverEvent_one codec p) (fun d v hv hd => hv ▸ hd) rest rfl hrest
      (always_drop hP hbegin)
  refine ⟨Server.run_calls_le hw, fun tx => ?_⟩
  obtain ⟨hvalue, hupper, hlower⟩ := Server.covers (run_join hv hw) hbroadcast rfl hx
    (fun l hl => by rw [hdone] at hl; cases hl) tx
  refine ⟨fun c hc hk => congrArg Request.message (hvalue c hc hk), Nat.le_trans hupper
    (List.countP_mono_left fun group _ hsome => decide_eq_true fun hnever =>
      of_decide_eq_true hsome (hlater hnever)), fun hthere => ?_⟩
  have hleast := Nat.le_trans (List.countP_mono_left fun group _ hstays =>
    decide_eq_true (hlater (of_decide_eq_true hstays))) (hlower rfl (hlater hthere))
  refine ⟨hleast, fun r hr hfits hsettled => ?_⟩
  obtain ⟨values, hsync, hasync, hcount⟩ := copies_received (run_join (run_join hv hw)
    (run_cons.mpr ⟨_, hbroadcast, hx⟩)) hsettled (always_last hthere h).2 hr hfits fun c hc hk => by
      rw [hvalue c hc hk]
      exact ⟨rfl, rfl⟩
  exact ⟨values, hsync, hasync, Nat.le_trans hleast hcount⟩

/-- A server listens, and a connection of it is in the room. -/
def inRoom : List Action :=
  (Fleet.listens 0).map .fleet ++ [.registry .register, .establish 0, .spawn 0,
    .registry (.join 1 "room")].map (.server 0)

/-- A process broadcasts to the room. -/
def broadcasts : List Action :=
  Fleet.prepares.map .fleet ++ [.fleet (.process 0 (.publish 0 .confirmed true)),
    .fleet (.process 0 (.finish 0)), .receive 0 0] ++
    [.enterGroup 0, .visit 0 1, .leaveGroup 0, .finish 0].map (.server 0)

theorem reaches_clients_room :
    ∃ s s' serial n, run (step .shortest (fun _ => .typeError "not a str") Fleet.localRedis)
        (init fun _ => true) inRoom = some s ∧
      run (step .shortest (fun _ => .typeError "not a str") Fleet.localRedis) s broadcasts = some s' ∧
      (emitted (step .shortest (fun _ => .typeError "not a str") Fleet.localRedis)
        (made .shortest 0 0) s broadcasts).filter (fun x => Fleet.isFrom (log .shortest
          (fun _ => .typeError "not a str") Fleet.localRedis (Fleet.localRedis 0)
          (init fun _ => true) (inRoom ++ broadcasts)) 0 0 x.heard) =
        [⟨serial, n, ⟨["room"], .text "hi", none⟩⟩] ∧
      (s'.server 0).copiesOf n 0 = 1 ∧ ∀ c ∈ ((s'.server 0).outgoing.link 0).accepted,
        c.value.call = n → c.value.message = .text "hi" := by
  obtain ⟨serial, n, hmade, _, hconnections⟩ := reaches_clients .shortest
    (fun _ => .typeError "not a str") Fleet.localRedis (fun _ => true) inRoom broadcasts _ _ rfl rfl 0 0
    ⟨0, .thread, ["room"], "hi", false⟩ 0 0 (Nat.le_refl 0) rfl rfl (by decide) rfl rfl
  obtain ⟨hmessage, hmost, hthere⟩ := hconnections 0
  refine ⟨_, _, serial, n, rfl, rfl, hmade, Nat.le_antisymm (Nat.le_trans hmost ?_)
    (Nat.le_trans ?_ (hthere (by decide)).1), hmessage⟩
  · exact List.countP_le_length
  · exact Nat.le_of_eq (by decide)

end Deployment
end Webrockets
