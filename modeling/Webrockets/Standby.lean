import Webrockets.Cluster

/-! Servers that wait for a queue.

While one listener has a queue, the others that are to have the same one can neither declare it nor
bind it: they connect, fail and pause. `queue_held` says what that means: who holds the queue hears
everything, the others nothing, and those that had not bound it before do not come to it, nor to the
shutdown signal, which they would take up only in the inner loop behind. One that had bound it is in
that loop or on its way into it, even where the AMQP server has given its queue to another. -/
namespace Webrockets.Cluster
open Transition JsonText

variable {codec : Codec} {castError : DictValue → PyErr} {redis : Nat → RedisConfig}
  {config : Nat → AmqpConfig} {uuid : Nat → String} {s s' : Cluster}
  {t u : Exclusive ((Nat × Nat) × Nat) (String × String) (String × String) Posted}
  {p i : Nat} {l k : Nat × Nat}

/-! ### What a step makes of a listener -/

inductive Goes (config : Nat → AmqpConfig) (uuid : Nat → String) (k : Nat × Nat) (s s' : Cluster) :
    Prop where
  | stays (h : s'.listener k = s.listener k)
  | delivered (d : Delivery) (h : s'.listener k = (s.listener k).deliver d)
  | spawned (hold : (s.listener k).stage = .unspawned) (h : (s'.listener k).stage = .spawned)
  | turned (x : Listener.Turn) (w : Watch Bool) (h : (s.listener k).turn w x = some (s'.listener k))
      (hbound : x = .subscribed → ∃ d, s'.queue (queueName config uuid (k, d)) = some ((k, d), true))
  | received (d : Delivery) (rest : List Delivery) (hold : (s.listener k).stage = .listening (d :: rest))
      (h : (s'.listener k).stage = .listening rest)

theorem deliver_goes (s : Cluster) (f : Fleet) (dest : AmqpConfig) (m : Posted) (k : Nat × Nat) :
    Goes config uuid k s ({ s with fleet := f }.deliver config uuid dest m) := by
  by_cases hgets : s.bound config uuid k ∧ (config k.1).url = dest.url ∧
      (config k.1).exchange = dest.exchange
  · exact .delivered ⟨s.published, m.payload⟩ (if_pos hgets)
  · exact .stays (if_neg hgets)

theorem post_goes {ms : List Posted} (hms : ms = [] ∨ ∃ m, ms = [m]) (s : Cluster) (f : Fleet)
    (k : Nat × Nat) : Goes config uuid k s (ms.foldl (post config uuid) { s with fleet := f }) := by
  rcases hms with rfl | ⟨⟨dest, payload, source⟩, rfl⟩
  · exact .stays rfl
  · cases dest with
    | redis dest => exact .stays rfl
    | amqp dest => exact deliver_goes s f dest _ k

theorem turn_goes {x : Listener.Turn} (h : turn codec config uuid p i x s = some s') (k : Nat × Nat) :
    Goes config uuid k s s' := by
  obtain ⟨r, hr, h⟩ := Option.bind_eq_some_iff.mp h
  obtain ⟨y, hy, hself, hothers⟩ := turn_step hr
  have hgoes (hlistener : ∀ k, s'.listener k = (s.setServer p r).listener k) (hbound : x = .subscribed →
      ∃ d, s'.queue (queueName config uuid ((p, i), d)) = some (((p, i), d), true)) :
      Goes config uuid k s s' := by
    by_cases hk : k = (p, i)
    · subst hk
      refine .turned x (s.server p).shutdown ?_ hbound
      rw [hlistener, listener_setServer_self, hself]
      exact hy
    · exact .stays ((hlistener k).trans (listener_setServer_others hothers hk))
  cases x with
  | firstPoll | ready | failed | slept | ended | shutdown =>
    obtain rfl := Option.some.inj h
    exact hgoes (fun _ => rfl) fun hx => by cases hx
  | subscribed =>
    dsimp only at h
    split at h
    · next c hc =>
      split at h
      · obtain rfl := Option.some.inj h
        exact hgoes (fun _ => rfl) fun _ => ⟨c, Function.update_self _ _ _⟩
      · cases h
    · cases h

theorem server_goes {a : Restarts.Action} {r : Restarts} (hs : Follows config uuid s t)
    (ha : ∀ i x, a ≠ .turn i x) (ha' : ∀ payload, a ≠ .publish payload)
    (hr : Restarts.step codec a (s.server p) = some r) (k : Nat × Nat) :
    Goes config uuid k s (s.setServer p r) := by
  obtain ⟨q, j⟩ := k
  by_cases hq : q = p
  case neg => exact .stays (listener_setServer_of_ne s hq r)
  subst hq
  have hself := listener_setServer_self s q j r
  have hquiet (hb : Fleet.Quiet a) : Goes config uuid (q, j) s (s.setServer q r) :=
    .stays (by rw [hself, (Fleet.quiet_step hb hr).1, listener])
  cases a with
  | turn i x => exact absurd rfl (ha i x)
  | publish payload => exact absurd rfl (ha' payload)
  | start | bind k ok | signal k ctrlC | finish k | stop | serve c o => exact hquiet trivial
  | spawn k =>
    rcases (Fleet.spawn_step hr).2 with hlistener | hlistener
    · exact .stays (by rw [hself, hlistener, listener])
    · by_cases hj : j = (s.server q).spawned
      · refine .spawned (hs.unspawned q j (Nat.le_of_eq hj.symm)) ?_
        rw [hself, hlistener, hj, Server.set_self]
        rfl
      · exact .stays (by rw [hself, hlistener, Server.set_of_ne _ hj, listener])
  | receive i =>
    simp only [Restarts.step] at hr
    split at hr
    · next d rest hstage =>
      obtain rfl := Option.some.inj hr
      by_cases hj : j = i
      · subst hj
        refine .received d rest hstage ?_
        rw [hself, Restarts.receives_self]
      · exact .stays (by rw [hself, Restarts.receives_of_ne hj, listener])
    · cases hr

theorem step_goes {a : Action} (hs : Follows config uuid s t)
    (h : step codec castError redis config uuid a s = some s') (k : Nat × Nat) :
    Goes config uuid k s s' := by
  cases a with
  | fleet b =>
    obtain ⟨f, _, rfl⟩ := Option.map_eq_some_iff.mp h
    exact post_goes (posts_fleet codec b s.fleet) s f k
  | foreign dest payload =>
    obtain rfl := Option.some.inj h
    exact deliver_goes s s.fleet dest _ k
  | server p b =>
    have hmap (hb : ∀ i x, b ≠ .turn i x) (hb' : ∀ payload, b ≠ .publish payload)
        (h : (Restarts.step codec b (s.server p)).map (s.setServer p) = some s') :
        Goes config uuid k s s' := by
      obtain ⟨r, hr, rfl⟩ := Option.map_eq_some_iff.mp h
      exact server_goes hs hb hb' hr k
    cases b with
    | publish payload => cases h
    | turn i x => exact turn_goes h k
    | start | spawn k | bind k ok | signal k ctrlC | finish k | stop | receive j | serve c o =>
      exact hmap (fun _ _ h => by cases h) (fun _ h => by cases h) h
  | connect l =>
    simp only [step] at h
    split at h
    · obtain rfl := Option.some.inj h
      exact .stays rfl
    · cases h
  | declare l =>
    simp only [step] at h
    split at h
    · split at h
      · obtain rfl := Option.some.inj h
        exact .stays rfl
      · cases h
    · cases h
  | close c =>
    obtain rfl := Option.some.inj h
    refine .stays ?_
    split <;> rfl

/-- Only a listener that has its queue comes to be subscribed. -/
theorem Goes.subscribed (h : Goes config uuid k s s') (hsub : Subscribed k s') :
    Subscribed k s ∨ ∃ d, s'.queue (queueName config uuid (k, d)) = some ((k, d), true) := by
  cases h with
  | stays h =>
    rw [Subscribed, h] at hsub
    exact .inl hsub
  | delivered d h =>
    rw [Subscribed, h, Restarts.subscribed_deliver] at hsub
    exact .inl hsub
  | spawned hold h =>
    rw [Subscribed, Listener.subscribed, h] at hsub
    cases hsub
  | turned x w h hbound =>
    rcases Fleet.turn_cases h k with ⟨_, hsame, _⟩ | ⟨hevent, _⟩ | ⟨_, hleft, _⟩
    · rw [Subscribed, hsame] at hsub
      exact .inl hsub
    · cases x with
      | subscribed => exact .inr (hbound rfl)
      | firstPoll | ready | failed | slept | ended | shutdown => cases hevent
    · rw [Subscribed, hleft] at hsub
      cases hsub
  | received d rest hold h =>
    refine .inl ?_
    rw [Subscribed, Listener.subscribed, hold]

theorem stopped_of_turn {w : Watch Bool} {x : Listener.Turn} {y z : Listener}
    (h : y.turn w x = some z) (hz : z.stage = .stopped) : y.subscribed = true := by
  unfold Listener.turn at h
  split at h
  case h_8 hstage => simp only [Listener.subscribed, hstage]
  all_goals cases h
  all_goals cases hz

/-- A listener stops only where it is subscribed. -/
theorem Goes.stopped (h : Goes config uuid k s s') (hsub : ¬ Subscribed k s) :
    (s'.listener k).stage = .stopped ↔ (s.listener k).stage = .stopped := by
  cases h with
  | stays h => rw [h]
  | delivered d h =>
    rw [h]
    generalize s.listener k = x
    obtain ⟨stage, shutdown, backoff⟩ := x
    cases stage <;> simp [Listener.deliver]
  | spawned hold h =>
    rw [hold, h]
    constructor <;> intro h <;> cases h
  | turned x w h _ =>
    exact ⟨fun hstage => absurd (stopped_of_turn h hstage) hsub,
      fun hstage => absurd hstage (Restarts.live_of_turn h).2⟩
  | received d rest hold h =>
    exact absurd (by rw [Subscribed, Listener.subscribed, hold]) hsub

/-! ### Connections -/

theorem post_connections (ms : List Posted) (s : Cluster) :
    (ms.foldl (post config uuid) s).connection = s.connection ∧
      (ms.foldl (post config uuid) s).connections = s.connections := by
  induction ms generalizing s with
  | nil => exact ⟨rfl, rfl⟩
  | cons m rest ih =>
    obtain ⟨hconnection, hcount⟩ := ih (post config uuid s m)
    rw [List.foldl_cons, hconnection, hcount]
    obtain ⟨dest, payload, source⟩ := m
    cases dest <;> exact ⟨rfl, rfl⟩

/-- A connection that a listener has it had before, or it is new. -/
structure Ages (s s' : Cluster) : Prop where
  connections : s.connections ≤ s'.connections
  connection : ∀ k d, s'.connection k = some d → s.connection k = some d ∨ s.connections ≤ d

theorem Ages.refl (s : Cluster) : Ages s s := ⟨Nat.le_refl _, fun _ _ h => .inl h⟩

theorem Ages.trans {s m s' : Cluster} (h : Ages s m) (h' : Ages m s') : Ages s s' := by
  refine ⟨Nat.le_trans h.connections h'.connections, fun k d hd => ?_⟩
  rcases h'.connection k d hd with hm | hm
  · exact h.connection k d hm
  · exact .inr (Nat.le_trans h.connections hm)

theorem ages_of_same (hcount : s'.connections = s.connections) (h : s'.connection = s.connection) :
    Ages s s' :=
  ⟨Nat.le_of_eq hcount.symm, fun _ _ hd => .inl (h ▸ hd)⟩

theorem ages_of_update {c : Option Nat} (hcount : s.connections ≤ s'.connections)
    (h : s'.connection = Function.update s.connection l c)
    (hc : ∀ d, c = some d → s.connections ≤ d) : Ages s s' := by
  refine ⟨hcount, fun k d hd => ?_⟩
  rw [h] at hd
  by_cases hk : k = l
  · rw [hk, Function.update_self] at hd
    exact .inr (hc d hd)
  · rw [Function.update_of_ne hk] at hd
    exact .inl hd

theorem turn_ages {x : Listener.Turn} (h : turn codec config uuid p i x s = some s') : Ages s s' := by
  obtain ⟨r, _, h⟩ := Option.bind_eq_some_iff.mp h
  cases x with
  | firstPoll | ready | slept =>
    obtain rfl := Option.some.inj h
    exact ages_of_same rfl rfl
  | failed | ended | shutdown =>
    obtain rfl := Option.some.inj h
    exact ages_of_update (Nat.le_refl _) rfl fun _ hd => (nomatch hd)
  | subscribed =>
    dsimp only at h
    split at h
    · split at h
      · obtain rfl := Option.some.inj h
        exact ages_of_same rfl rfl
      · cases h
    · cases h

theorem step_ages {a : Action} (h : step codec castError redis config uuid a s = some s') :
    Ages s s' := by
  cases a with
  | fleet b =>
    obtain ⟨f, _, rfl⟩ := Option.map_eq_some_iff.mp h
    obtain ⟨hconnection, hcount⟩ :=
      @post_connections config uuid (Fleet.posts codec b s.fleet) { s with fleet := f }
    exact ages_of_same hcount hconnection
  | foreign dest payload =>
    obtain rfl := Option.some.inj h
    exact ages_of_same rfl rfl
  | server p b =>
    have hmap (h : (Restarts.step codec b (s.server p)).map (s.setServer p) = some s') : Ages s s' := by
      obtain ⟨r, _, rfl⟩ := Option.map_eq_some_iff.mp h
      exact ages_of_same rfl rfl
    cases b with
    | publish payload => cases h
    | turn i x => exact turn_ages h
    | start | spawn k | bind k ok | signal k ctrlC | finish k | stop | receive j | serve c o =>
      exact hmap h
  | connect l =>
    simp only [step] at h
    split at h
    · obtain rfl := Option.some.inj h
      refine ages_of_update (Nat.le_succ _) rfl fun d hd => ?_
      exact Nat.le_of_eq (Option.some.inj hd)
    · cases h
  | declare l =>
    simp only [step] at h
    split at h
    · split at h
      · obtain rfl := Option.some.inj h
        exact ages_of_same rfl rfl
      · cases h
    · cases h
  | close c =>
    obtain rfl := Option.some.inj h
    split
    · exact ages_of_same rfl rfl
    · exact .refl s

theorem run_ages {actions : List Action}
    (h : run (step codec castError redis config uuid) s actions = some s') : Ages s s' :=
  run_invariant (P := Ages s) (fun _ _ _ hm hstep => hm.trans (step_ages hstep)) actions h (.refl s)

/-! ### What is taken while a queue is held -/

/-- A listener's connection has its queue, bound. -/
def Held (config : Nat → AmqpConfig) (uuid : Nat → String) (l : Nat × Nat) (c : Nat) (s : Cluster) :
    Prop :=
  s.connection l = some c ∧ s.queue (queueName config uuid (l, c)) = some ((l, c), true)

instance (l : Nat × Nat) (c : Nat) (s : Cluster) : Decidable (Held config uuid l c s) :=
  inferInstanceAs (Decidable (_ ∧ _))

theorem event_single (codec : Codec) (a : Action) (s : Cluster) :
    event codec a s = [] ∨ ∃ e, event codec a s = [e] := by
  have hone (c : Option Nat) (e : Nat → Exclusive.Event ((Nat × Nat) × Nat) (String × String) Posted) :
      c.toList.map e = [] ∨ ∃ e', c.toList.map e = [e'] := by
    cases c with
    | none => exact .inl rfl
    | some n => exact .inr ⟨e n, rfl⟩
  cases a with
  | fleet b =>
    show ((Fleet.posts codec b s.fleet).filterMap amqp).map publishEvent = [] ∨
      ∃ e, ((Fleet.posts codec b s.fleet).filterMap amqp).map publishEvent = [e]
    rcases posts_fleet codec b s.fleet with hposts | ⟨⟨dest, payload, source⟩, hposts⟩ <;> rw [hposts]
    · exact .inl rfl
    · cases dest with
      | redis dest => exact .inl rfl
      | amqp dest => exact .inr ⟨_, rfl⟩
  | foreign dest payload => exact .inr ⟨_, rfl⟩
  | connect l => exact .inl rfl
  | declare l => exact hone _ _
  | close c => exact .inr ⟨_, rfl⟩
  | server p b =>
    cases b with
    | start | spawn k | bind k ok | signal k ctrlC | finish k | stop | publish m | serve c o =>
      exact .inl rfl
    | receive i => exact hone _ _
    | turn i x =>
      cases x with
      | firstPoll | ready | failed | slept | ended | shutdown => exact .inl rfl
      | subscribed => exact hone _ _

theorem connection_of_take {a : Action} {c : (Nat × Nat) × Nat} (h : .take c ∈ event codec a s) :
    s.connection c.1 = some c.2 := by
  have hposts {l : List (AmqpConfig × Posted)} (h : .take c ∈ l.map publishEvent) :
      s.connection c.1 = some c.2 := by
    obtain ⟨x, _, hx⟩ := List.mem_map.mp h
    cases hx
  have hopen {l : Nat × Nat} {e : Nat → Exclusive.Event ((Nat × Nat) × Nat) (String × String) Posted}
      (h : .take c ∈ (s.connection l).toList.map e) :
      ∃ d, s.connection l = some d ∧ e d = .take c := by
    obtain ⟨d, hd, he⟩ := List.mem_map.mp h
    exact ⟨d, Option.mem_toList.mp hd, he⟩
  cases a with
  | fleet b => exact hposts h
  | foreign dest payload => exact hposts h
  | connect l => exact hposts h
  | declare l =>
    obtain ⟨d, _, hd⟩ := hopen h
    cases hd
  | close d => cases List.mem_singleton.mp h
  | server p b =>
    cases b with
    | start | spawn k | bind k ok | signal k ctrlC | finish k | stop | publish m | serve c o =>
      exact hposts h
    | receive i =>
      obtain ⟨d, hd, heq⟩ := hopen h
      cases heq
      exact hd
    | turn i x =>
      cases x with
      | firstPoll | ready | failed | slept | ended | shutdown => exact hposts h
      | subscribed =>
        obtain ⟨d, _, hd⟩ := hopen h
        cases hd

/-- Only reading takes, over the connection of the listener. -/
theorem connection_of_taken {a : Action} {x : ((Nat × Nat) × Nat) × Posted × Nat}
    (hx : x ∈ emitted (Exclusive.step (queueName config uuid) (exchange config)) Exclusive.taken t
      (event codec a s)) : s.connection x.1.1 = some x.1.2 := by
  rcases event_single codec a s with hnil | ⟨e, he⟩
  · rw [hnil] at hx
    cases hx
  · rw [he, emitted_singleton] at hx
    cases e with
    | declare c | bind c | publish x m | close c => cases hx
    | take c =>
      have hc : s.connection c.1 = some c.2 :=
        @connection_of_take codec s a c (by rw [he]; exact List.mem_singleton_self _)
      obtain ⟨y, _, rfl⟩ := List.mem_map.mp hx
      exact hc

/-- The broadcasts that a listener makes, by the numbers of the messages. -/
def madeOf (codec : Codec) (castError : DictValue → PyErr) (redis : Nat → RedisConfig)
    (config : Nat → AmqpConfig) (uuid : Nat → String) (k : Nat × Nat) (s : Cluster)
    (actions : List Action) : List (Nat × StoreCall) :=
  ((madeBy codec castError redis config uuid s actions).filter fun x => x.1 = k).map Prod.snd

/-- Those it is still to make of what it has. -/
def pending (codec : Codec) (k : Nat × Nat) (s : Cluster) : List (Nat × StoreCall) :=
  (s.listener k).inbox.filterMap fun d => (payloadCall codec d.payload).map (d.serial, ·)

/-- Those that are asked for at the exchange of a server. -/
def asked (codec : Codec) (config : Nat → AmqpConfig) (p start : Nat)
    (log : List (AmqpConfig × Posted)) : List (Nat × StoreCall) :=
  (log.zipIdx start).filterMap fun x =>
    if x.1.1.url = (config p).url ∧ x.1.1.exchange = (config p).exchange then
      (payloadCall codec x.1.2.payload).map (x.2, ·)
    else none

theorem Follows.pending (hs : Follows config uuid s t) {c : Nat} (hc : s.connection k = some c) :
    pending codec k s = (t.inbox (k, c)).filterMap (Fleet.asks codec) := by
  rw [Cluster.pending, ← hs.inbox k c hc, List.filterMap_map]
  rfl

theorem asked_eq (p start : Nat) (log : List (AmqpConfig × Posted))
    (events : List (Exclusive.Event ((Nat × Nat) × Nat) (String × String) Posted))
    (h : Exclusive.published events = log.map fun x => ((x.1.url, x.1.exchange), x.2)) :
    (Exclusive.arriving ((config p).url, (config p).exchange) start events).filterMap
      (Fleet.asks codec) = asked codec config p start log := by
  rw [Exclusive.arriving, h, List.zipIdx_map, List.filterMap_map, List.filterMap_filterMap, asked]
  congr 1
  funext x
  by_cases hx : x.1.1.url = (config p).url ∧ x.1.1.exchange = (config p).exchange
  · simp [hx, Fleet.asks]
  · rw [if_neg hx]
    have hne : ¬ (x.1.1.url, x.1.1.exchange) = ((config p).url, (config p).exchange) :=
      fun h => hx (Prod.mk.inj h)
    simp [hne]

/-- What is asked by what one listener takes over one connection. -/
theorem filter_asks {c : Nat} {l : List (((Nat × Nat) × Nat) × Posted × Nat)}
    (hc : ∀ x ∈ l, x.1.1 = k → x.1.2 = c) :
    ((l.filterMap (asks codec)).filter fun x => x.1 = k).map Prod.snd =
      ((l.filter fun x => x.1 = (k, c)).map Prod.snd).filterMap (Fleet.asks codec) := by
  induction l with
  | nil => rfl
  | cons x rest ih =>
    have hrest := ih fun y hy => hc y (List.mem_cons_of_mem _ hy)
    obtain ⟨⟨k', c'⟩, m, n⟩ := x
    by_cases hk : k' = k
    · obtain rfl : c' = c := hc _ List.mem_cons_self hk
      subst hk
      rw [List.filter_cons_of_pos (by simp), List.map_cons]
      cases hcall : payloadCall codec m.payload with
      | none =>
        rw [List.filterMap_cons_none (by simp [asks, hcall]),
          List.filterMap_cons_none (by simp [Fleet.asks, hcall]), hrest]
      | some call =>
        rw [List.filterMap_cons_some (b := ((k', n, call) : (Nat × Nat) × Nat × StoreCall))
            (by simp [asks, hcall]), List.filterMap_cons_some (b := ((n, call) : Nat × StoreCall))
            (by simp [Fleet.asks, hcall]), List.filter_cons_of_pos (by simp), List.map_cons, hrest]
    · rw [List.filter_cons_of_neg (by simp [hk]), ← hrest]
      cases hcall : payloadCall codec m.payload with
      | none => rw [List.filterMap_cons_none (by simp [asks, hcall])]
      | some call =>
        rw [List.filterMap_cons_some (b := ((k', n, call) : (Nat × Nat) × Nat × StoreCall))
            (by simp [asks, hcall]), List.filter_cons_of_neg (by simp [hk])]

/-- Where a listener takes over one connection only, that is what it makes its broadcasts of. -/
theorem madeOf_eq {actions : List Action} (hs : Follows config uuid s t)
    (h : run (step codec castError redis config uuid) s actions = some s') {c : Nat}
    (hc : ∀ x ∈ Exclusive.takes (queueName config uuid) (exchange config) t
        (emitted (step codec castError redis config uuid) (event codec) s actions),
      x.1.1 = k → x.1.2 = c) :
    madeOf codec castError redis config uuid k s actions =
      (Exclusive.takesOf (queueName config uuid) (exchange config) (k, c) t
        (emitted (step codec castError redis config uuid) (event codec) s actions)).filterMap
          (Fleet.asks codec) := by
  have hmade : madeBy codec castError redis config uuid s actions = _ :=
    emitted_follows step_follows made_follows actions hs h
  rw [madeOf, hmade]
  exact filter_asks hc

/-- What is taken in a run, with the state it is taken in. -/
theorem taken_at {actions : List Action} (hs : Follows config uuid s t)
    (h : run (step codec castError redis config uuid) s actions = some s')
    {x : ((Nat × Nat) × Nat) × Posted × Nat}
    (hx : x ∈ Exclusive.takes (queueName config uuid) (exchange config) t
      (emitted (step codec castError redis config uuid) (event codec) s actions)) :
    ∃ first rest m, actions = first ++ rest ∧
      run (step codec castError redis config uuid) s first = some m ∧
      m.connection x.1.1 = some x.1.2 := by
  obtain ⟨first, a, rest, m, _, n, hactions, hm, _, _, hx⟩ :=
    mem_emitted_follows step_follows actions hs h hx
  exact ⟨first, a :: rest, m, hactions, hm, connection_of_taken hx⟩

/-- A listener that waits while another one has the queue goes on waiting. -/
theorem waits {actions : List Action} {c : Nat} (hs : Follows config uuid s t)
    (h : run (step codec castError redis config uuid) s actions = some s')
    (hheld : Always (step codec castError redis config uuid) (Held config uuid l c) s actions)
    (hk : k ≠ l) (hshares : SharesQueue config l.1 k.1) (hsub : ¬ Subscribed k s) :
    Always (step codec castError redis config uuid) (fun s => ¬ Subscribed k s) s actions ∧
      ((s'.listener k).stage = .stopped ↔ (s.listener k).stage = .stopped) := by
  induction actions generalizing s t with
  | nil =>
    cases h
    exact ⟨hsub, Iff.rfl⟩
  | cons a rest ih =>
    obtain ⟨m, hm, hrest⟩ := run_cons.mp h
    obtain ⟨u, _, hu⟩ := step_follows a s m t hs hm
    have hgoes := step_goes hs hm k
    have hlater := hheld.2 m hm
    have hsub' : ¬ Subscribed k m := by
      intro hsub'
      rcases hgoes.subscribed hsub' with hold | ⟨d, hd⟩
      · exact hsub hold
      · have hqueue := (always_start hlater).2
        rw [hshares.name c d, hd] at hqueue
        exact hk (Prod.mk.inj (Prod.mk.inj (Option.some.inj hqueue)).1).1
    obtain ⟨halways, hstage⟩ := ih hu hrest hlater hsub'
    exact ⟨(always_cons hm).mpr ⟨hsub, halways⟩, hstage.trans (hgoes.stopped hsub)⟩

/-- **Who has the queue hears everything, and who waits for it nothing.** While a listener has the
queue that several servers name in their configurations, it makes exactly the broadcasts that are
asked for at its exchange, in their order. Every other listener with the same name, on whatever
server, makes none but those it had received before; where it had not bound the queue, it neither
binds it nor comes to the inner loop, and no `stop` reaches it. -/
theorem queue_held (codec : Codec) (castError : DictValue → PyErr) (redis : Nat → RedisConfig)
    (config : Nat → AmqpConfig) (uuid : Nat → String) (fleetBroker broker : Nat → Bool)
    (before during : List Action) (s s' : Cluster)
    (hbefore : run (step codec castError redis config uuid) (init fleetBroker broker) before = some s)
    (hduring : run (step codec castError redis config uuid) s during = some s')
    (l : Nat × Nat) (c : Nat)
    (hheld : Always (step codec castError redis config uuid) (Held config uuid l c) s during) :
    pending codec l s ++ asked codec config l.1 s.published
        (log codec castError redis config uuid s during) =
      madeOf codec castError redis config uuid l s during ++ pending codec l s' ∧
    ∀ k, k ≠ l → SharesQueue config l.1 k.1 →
      madeOf codec castError redis config uuid k s during <+: pending codec k s ∧
      (¬ Subscribed k s →
        Always (step codec castError redis config uuid) (fun s => ¬ Subscribed k s) s during ∧
        ((s'.listener k).stage = .stopped ↔ (s.listener k).stage = .stopped)) := by
  obtain ⟨t, _, hs⟩ := run_queues hbefore
  obtain ⟨u, hu, hs'⟩ := run_follows step_follows during hs hduring
  have hholds : Always (Exclusive.step (queueName config uuid) (exchange config))
      (Exclusive.Holds (queueName config uuid) (l, c)) t
      (emitted (step codec castError redis config uuid) (event codec) s during) :=
    always_follows step_follows (event_single codec)
      (fun x y hR hheld => by rw [Exclusive.Holds, ← hR.queue]; exact hheld.2) during hs hduring hheld
  obtain ⟨hself, hothers⟩ := Exclusive.run_held hu hholds
  refine ⟨?_, fun k hk hshares => ⟨?_, waits hs hduring hheld hk hshares⟩⟩
  · have hconn : s.connection l = some c := (always_start hheld).1
    have hconn' : s'.connection l = some c := (always_last hheld hduring).1
    have hover : ∀ x ∈ Exclusive.takes (queueName config uuid) (exchange config) t
        (emitted (step codec castError redis config uuid) (event codec) s during),
        x.1.1 = l → x.1.2 = c := by
      rintro x hx rfl
      obtain ⟨first, rest, m, rfl, hm, hopen⟩ := taken_at hs hduring hx
      have hat := (always_start (always_drop hheld hm)).1
      exact Option.some.inj (hopen.symm.trans hat)
    rw [madeOf_eq hs hduring hover, hs.pending hconn, hs'.pending hconn', ← List.filterMap_append,
      ← hself, List.filterMap_append, hs.published]
    congr 1
    exact (asked_eq l.1 _ _ _ (published_events hduring)).symm
  · -- what it has is all on the connection that it has
    have hover : ∀ x ∈ Exclusive.takes (queueName config uuid) (exchange config) t
        (emitted (step codec castError redis config uuid) (event codec) s during),
        x.1.1 = k → s.connection k = some x.1.2 := by
      rintro x hx rfl
      obtain ⟨first, rest, m, _, hm, hopen⟩ := taken_at hs hduring hx
      rcases (run_ages hm).connection _ _ hopen with hold | hnew
      · exact hold
      · have hnil := hothers x.1 (hshares.name c x.1.2).symm fun h => hk (congrArg Prod.fst h)
        rw [(hs.fresh x.1.1 x.1.2 hnew).1] at hnil
        have htaken := (List.append_eq_nil_iff.mp hnil.symm).1
        exact absurd (Exclusive.mem_takesOf.mpr hx) (by rw [htaken]; exact List.not_mem_nil)
    cases hconn : s.connection k with
    | none =>
      have hnever : ∀ x ∈ Exclusive.takes (queueName config uuid) (exchange config) t
          (emitted (step codec castError redis config uuid) (event codec) s during), x.1.1 ≠ k := by
        intro x hx hxk
        cases hconn.symm.trans (hover x hx hxk)
      have htakes : Exclusive.takesOf (queueName config uuid) (exchange config) (k, 0) t
          (emitted (step codec castError redis config uuid) (event codec) s during) = [] :=
        List.eq_nil_iff_forall_not_mem.mpr fun x hx => hnever _ (Exclusive.mem_takesOf.mp hx) rfl
      rw [madeOf_eq (c := 0) hs hduring fun x hx hxk => absurd hxk (hnever x hx), htakes]
      exact List.nil_prefix
    | some d =>
      have hd : ∀ x ∈ Exclusive.takes (queueName config uuid) (exchange config) t
          (emitted (step codec castError redis config uuid) (event codec) s during),
          x.1.1 = k → x.1.2 = d :=
        fun x hx hxk => Option.some.inj ((hover x hx hxk).symm.trans hconn)
      have hkept := hothers (k, d) (hshares.name c d).symm fun h => hk (congrArg Prod.fst h)
      rw [madeOf_eq hs hduring hd, hs.pending hconn, hkept, List.filterMap_append]
      exact List.prefix_append _ _

theorem queue_held_shared :
    ∃ s s', run (step .shortest (fun _ => .typeError "not a str") Fleet.localRedis sharedQueue toString)
        (init (fun _ => false) fun _ => true) shares = some s ∧
      run (step .shortest (fun _ => .typeError "not a str") Fleet.localRedis sharedQueue toString) s
        greets = some s' ∧
      pending .shortest (0, 0) s ++ asked .shortest sharedQueue 0 s.published
          (log .shortest (fun _ => .typeError "not a str") Fleet.localRedis sharedQueue toString s greets) =
        madeOf .shortest (fun _ => .typeError "not a str") Fleet.localRedis sharedQueue toString (0, 0) s
          greets ++ pending .shortest (0, 0) s' ∧
      ((s'.listener (1, 0)).stage = .stopped ↔ (s.listener (1, 0)).stage = .stopped) := by
  refine ⟨_, _, rfl, rfl, ?_⟩
  have hboth := queue_held .shortest (fun _ => .typeError "not a str") Fleet.localRedis sharedQueue
    toString (fun _ => false) (fun _ => true) shares greets _ _ rfl rfl (0, 0) 0 (by decide +kernel)
  exact ⟨hboth.1, ((hboth.2 (1, 0) (by decide) (by decide)).2 (by decide +kernel)).2⟩

end Webrockets.Cluster
