import Webrockets.Publication
import Webrockets.Listen
import Webrockets.Library.Topic

/-! Processes that publish and servers that listen, over one Redis (`broker/broadcaster.rs`,
`broker/redis.rs`).

A message that is published goes to every listener that is subscribed to its channel at that
moment, in one step, as Redis carries out a `PUBLISH`; that it does so is assumed, no code of the
Redis is modelled. Nothing else connects the processes and the servers. To the listeners of a
channel the Redis is a `Topic`: the fleet follows it step by step, and what holds of the topic's
subscribers holds of the listeners. -/
namespace Webrockets
open Transition JsonText

structure Fleet where
  process : Nat → Broadcasting
  server : Nat → Restarts

/-- A message on its way through the Redis, with the process and the call that it comes from;
other programs may publish too. -/
structure Posted where
  dest : BrokerConfig
  payload : ByteArray
  source : Option (Nat × Nat)

namespace Fleet

def init (broker : Nat → Bool) : Fleet := ⟨fun _ => .init, fun p => .init (broker p)⟩

inductive Action where
  | process (q : Nat) (a : Broadcasting.Action)
  | foreign (dest : RedisConfig) (payload : ByteArray)
  | server (p : Nat) (a : Restarts.Action)

/-- What the Redis is given in a step. -/
def posts (codec : Codec) : Action → Fleet → List Posted
  | .process q a, s => (Broadcasting.gives codec a (s.process q)).map fun post =>
      ⟨post.config, post.payload.toUTF8, some (q, post.call)⟩
  | .foreign dest payload, _ => [⟨.redis dest, payload, none⟩]
  | _, _ => []

/-- `config` are the URLs and channels of the servers. -/
def deliver (config : Nat → RedisConfig) (s : Fleet) (m : Posted) : Fleet := { s with
  server := fun p =>
    if m.dest = .redis (config p) then (s.server p).publishes m.payload else s.server p }

def setProcess (s : Fleet) (q : Nat) (t : Broadcasting) : Fleet :=
  { s with process := Server.set s.process q t }

def setServer (s : Fleet) (p : Nat) (t : Restarts) : Fleet :=
  { s with server := Server.set s.server p t }

def step (codec : Codec) (castError : DictValue → PyErr) (config : Nat → RedisConfig) :
    Action → Fleet → Option Fleet
  | .process q a, s =>
    (Broadcasting.step codec castError a (s.process q)).map fun t =>
      (posts codec (.process q a) s).foldl (deliver config) (s.setProcess q t)
  | .foreign dest payload, s => some (s.deliver config ⟨.redis dest, payload, none⟩)
  -- a server gets its messages from the Redis
  | .server _ (.publish _), _ => none
  | .server p a, s => (Restarts.step codec a (s.server p)).map (s.setServer p)

/-- The listener is subscribed. -/
def Subscribed (p i : Nat) (s : Fleet) : Prop := ((s.server p).listener i).subscribed = true

instance (p i : Nat) (s : Fleet) : Decidable (Subscribed p i s) :=
  inferInstanceAs (Decidable (_ = true))

/-- The broadcast that a listener makes of what it reads, by the number of the message. -/
def made (codec : Codec) (p i : Nat) : Action → Fleet → List (Nat × StoreCall)
  | .server q (.receive j), s =>
    if q = p ∧ j = i then
      (((s.server q).inbox j).take 1).filterMap fun d =>
        (payloadCall codec d.payload).map (d.serial, ·)
    else []
  | _, _ => []

/-! ### The topic of a channel -/

/-- A listener comes to a channel, and leaves it. -/
def turnEvent (l : Nat × Nat) : Listener.Turn → List (Topic.Event (Nat × Nat) Posted)
  | .subscribed => [.subscribe l]
  | .failed | .ended | .shutdown => [.leave l]
  | _ => []

def event (codec : Codec) (config : Nat → RedisConfig) (c : RedisConfig) :
    Action → Fleet → List (Topic.Event (Nat × Nat) Posted)
  | .server p (.turn i turn), _ => if config p = c then turnEvent (p, i) turn else []
  | .server p (.receive i), _ => if config p = c then [.read (p, i)] else []
  | a, s => ((posts codec a s).filter fun m => m.dest = .redis c).map .publish

/-- As the inbox of a listener has it. -/
def delivery (x : Posted × Nat) : Delivery := ⟨x.2, x.1.payload⟩

/-- The listeners of a channel are where the subscribers of its topic are. -/
structure Follows (config : Nat → RedisConfig) (c : RedisConfig) (s : Fleet)
    (t : Topic (Nat × Nat) Posted) : Prop where
  numbered : ∀ p, Restarts.Numbered (s.server p)
  published : ∀ p, config p = c → (s.server p).published = t.log.length
  subscribed : ∀ p i, config p = c → (Subscribed p i s ↔ t.position (p, i) ≠ none)
  inbox : ∀ p i, config p = c → (t.unread (p, i)).map delivery = (s.server p).inbox i
  sound : t.Sound

/-! ### Listeners and subscribers -/

variable {codec : Codec} {castError : DictValue → PyErr} {config : Nat → RedisConfig}
  {c : RedisConfig} {s s' : Fleet} {t u : Topic (Nat × Nat) Posted} {p i : Nat}

/-- What a turn does, as the topic has it. -/
theorem turn_cases {w : Watch Bool} {turn : Listener.Turn} {l m : Listener}
    (h : l.turn w turn = some m) (k : Nat × Nat) :
    (turnEvent k turn = [] ∧ m.subscribed = l.subscribed ∧ m.inbox = l.inbox) ∨
    (turnEvent k turn = [.subscribe k] ∧ l.subscribed = false ∧ m.subscribed = true ∧ m.inbox = []) ∨
    (turnEvent k turn = [.leave k] ∧ m.subscribed = false ∧ m.inbox = []) := by
  unfold Listener.turn at h
  split at h
  case h_1 hstage =>
    cases h
    exact .inl ⟨rfl, by simp only [Listener.subscribed, hstage], by simp only [Listener.inbox, hstage]⟩
  case h_2 hstage =>
    cases h
    exact .inr (.inl ⟨rfl, by simp only [Listener.subscribed, hstage], rfl, rfl⟩)
  case h_3 hstage =>
    cases h
    exact .inl ⟨rfl, by simp only [Listener.subscribed, hstage], by simp only [Listener.inbox, hstage]⟩
  case h_6 hstage =>
    cases h
    exact .inl ⟨rfl, by simp only [Listener.subscribed, hstage], by simp only [Listener.inbox, hstage]⟩
  case h_8 =>
    obtain ⟨rx, _, rfl⟩ := Option.map_eq_some_iff.mp h
    exact .inr (.inr ⟨rfl, rfl, rfl⟩)
  case h_9 => cases h
  all_goals
    cases h
    exact .inr (.inr ⟨rfl, rfl, rfl⟩)

/-- Actions of a server that none of its listeners takes part in. -/
def Quiet : Restarts.Action → Prop
  | .spawn _ | .turn _ _ | .receive _ | .publish _ => False
  | _ => True

theorem quiet_step {a : Restarts.Action} {r r' : Restarts} (ha : Quiet a)
    (h : Restarts.step codec a r = some r') :
    r'.listener = r.listener ∧ r'.published = r.published := by
  cases a with
  | start | stop | serve channels outgoing =>
    cases h
    exact ⟨rfl, rfl⟩
  | bind k ok | finish k =>
    simp only [Restarts.step] at h
    split at h
    · cases h
      exact ⟨rfl, rfl⟩
    · cases h
  | signal k ctrlC =>
    simp only [Restarts.step] at h
    split at h
    · split at h
      · cases h
        exact ⟨rfl, rfl⟩
      · cases h
    · cases h
  | spawn k | turn j turn | receive j | publish payload => exact ha.elim

theorem spawn_step {k : Nat} {r r' : Restarts} (h : Restarts.step codec (.spawn k) r = some r') :
    r'.published = r.published ∧ (r'.listener = r.listener ∨
      r'.listener = Server.set r.listener r.spawned (.new r.shutdownRx)) := by
  simp only [Restarts.step] at h
  split at h
  · split at h
    · cases h
      exact ⟨rfl, .inr rfl⟩
    · cases h
      exact ⟨rfl, .inl rfl⟩
  · cases h

@[simp] theorem setServer_self (s : Fleet) (p : Nat) (r : Restarts) :
    (s.setServer p r).server p = r := Server.set_self _ _ _

theorem setServer_of_ne (s : Fleet) {p q : Nat} (h : q ≠ p) (r : Restarts) :
    (s.setServer p r).server q = s.server q := Server.set_of_ne _ h _

/-- One listener and one subscriber have moved. -/
theorem Follows.update (hs : Follows config c s t) (hp : config p = c) {r : Restarts} {j : Nat}
    (hnumbered : Restarts.Numbered r) (hpublished : r.published = (s.server p).published)
    (hsound : u.Sound) (hlog : u.log = t.log)
    (hpositions : ∀ l, l ≠ (p, j) → u.position l = t.position l)
    (hlisteners : ∀ i, i ≠ j → r.listener i = (s.server p).listener i)
    (hsubscribed : (r.listener j).subscribed = true ↔ u.position (p, j) ≠ none)
    (hinbox : (u.unread (p, j)).map delivery = r.inbox j) :
    Follows config c (s.setServer p r) u := by
  have hunread {l : Nat × Nat} (hl : l ≠ (p, j)) : u.unread l = t.unread l := by
    rw [Topic.unread, hpositions l hl, hlog, Topic.unread]
  refine ⟨fun q => ?_, fun q hq => ?_, fun q i hq => ?_, fun q i hq => ?_, hsound⟩
  all_goals by_cases hqp : q = p
  · rwa [hqp, setServer_self]
  · rw [setServer_of_ne s hqp]
    exact hs.numbered q
  · rw [hqp, setServer_self, hpublished, hs.published p hp, hlog]
  · rw [setServer_of_ne s hqp, hs.published q hq, hlog]
  · subst hqp
    rw [Subscribed, setServer_self]
    by_cases hi : i = j
    · rw [hi]
      exact hsubscribed
    · have hne : (q, i) ≠ (q, j) := fun h => hi (Prod.mk.inj h).2
      rw [hlisteners i hi, hpositions _ hne]
      exact hs.subscribed q i hq
  · have hne : (q, i) ≠ (p, j) := fun h => hqp (Prod.mk.inj h).1
    rw [Subscribed, setServer_of_ne s hqp, hpositions _ hne]
    exact hs.subscribed q i hq
  · subst hqp
    rw [setServer_self]
    by_cases hi : i = j
    · rw [hi]
      exact hinbox
    · have hne : (q, i) ≠ (q, j) := fun h => hi (Prod.mk.inj h).2
      rw [hunread hne, hs.inbox q i hq, Restarts.inbox, Restarts.inbox, hlisteners i hi]
  · have hne : (q, i) ≠ (p, j) := fun h => hqp (Prod.mk.inj h).1
    rw [setServer_of_ne s hqp, hunread hne]
    exact hs.inbox q i hq

/-- A server has moved, and none of its listeners as the topic has it. -/
theorem Follows.server (hs : Follows config c s t) {r : Restarts}
    (hnumbered : Restarts.Numbered r) (hsame : config p = c →
      r.published = (s.server p).published ∧ ∀ i,
        (r.listener i).subscribed = ((s.server p).listener i).subscribed ∧
        r.inbox i = (s.server p).inbox i) :
    Follows config c (s.setServer p r) t := by
  refine ⟨fun q => ?_, fun q hq => ?_, fun q i hq => ?_, fun q i hq => ?_, hs.sound⟩
  all_goals by_cases hqp : q = p
  · rwa [hqp, setServer_self]
  · rw [setServer_of_ne s hqp]
    exact hs.numbered q
  · rw [hqp, setServer_self, (hsame (hqp ▸ hq)).1, hs.published p (hqp ▸ hq)]
  · rw [setServer_of_ne s hqp]
    exact hs.published q hq
  · subst hqp
    rw [Subscribed, setServer_self, ((hsame hq).2 i).1]
    exact hs.subscribed q i hq
  · rw [Subscribed, setServer_of_ne s hqp]
    exact hs.subscribed q i hq
  · subst hqp
    rw [setServer_self, ((hsame hq).2 i).2]
    exact hs.inbox q i hq
  · rw [setServer_of_ne s hqp]
    exact hs.inbox q i hq

/-- What the topic of a channel hears of a message. -/
def publishEvents (c : RedisConfig) (m : Posted) : List (Topic.Event (Nat × Nat) Posted) :=
  if m.dest = .redis c then [.publish m] else []

theorem publishes_numbered {r : Restarts} (h : Restarts.Numbered r) (payload : ByteArray) :
    Restarts.Numbered (r.publishes payload) :=
  @Restarts.step_numbered .shortest (.publish payload) r _ h rfl

theorem deliver_numbered (hs : ∀ q, Restarts.Numbered (s.server q)) (m : Posted) (q : Nat) :
    Restarts.Numbered ((s.deliver config m).server q) := by
  show Restarts.Numbered (if m.dest = .redis (config q) then _ else _)
  split
  · exact publishes_numbered (hs q) m.payload
  · exact hs q

/-- A message goes to those whom the topic of its channel has as subscribers. -/
theorem Follows.deliver (hs : Follows config c s t) (m : Posted) :
    ∃ u, run Topic.step t (publishEvents c m) = some u ∧ Follows config c (s.deliver config m) u := by
  unfold publishEvents
  by_cases hdest : m.dest = .redis c
  · rw [if_pos hdest]
    have hstep : Topic.step (.publish m) t = some { t with log := t.log ++ [m] } := rfl
    have hserver {q : Nat} (hq : config q = c) :
        (s.deliver config m).server q = (s.server q).publishes m.payload := by
      show (if m.dest = .redis (config q) then _ else _) = _
      rw [if_pos (hdest.trans (congrArg _ hq.symm))]
    refine ⟨_, run_cons.mpr ⟨_, hstep, rfl⟩, deliver_numbered hs.numbered m, fun q hq => ?_,
      fun q i hq => ?_, fun q i hq => ?_, Topic.step_sound _ t _ hs.sound hstep⟩
    · rw [hserver hq, List.length_append, ← hs.published q hq]
      rfl
    · rw [Subscribed, hserver hq]
      show ((s.server q).listener i |>.deliver _).subscribed = true ↔ _
      rw [Restarts.subscribed_deliver]
      exact hs.subscribed q i hq
    · rw [hserver hq, Restarts.inbox_publishes, ← hs.inbox q i hq, hs.published q hq]
      by_cases hpos : t.position (q, i) = none
      · have hnot : ((s.server q).listener i).subscribed = false :=
          Bool.eq_false_iff.mpr fun h => (hs.subscribed q i hq).mp h hpos
        have hafter : ({ t with log := t.log ++ [m] } : Topic (Nat × Nat) Posted).unread (q, i) = [] :=
          Topic.unread_of_none hpos
        rw [hnot, hafter, Topic.unread_of_none hpos]
        rfl
      · have hyes : ((s.server q).listener i).subscribed = true := (hs.subscribed q i hq).mpr hpos
        have hunread := (Topic.step_unread (l := (q, i)) hs.sound hstep
          ⟨fun h => (nomatch h), fun h => (nomatch h)⟩ hpos).1
        have hnone : Topic.readBy (q, i) (.publish m) t = [] := rfl
        rw [hnone, List.nil_append] at hunread
        rw [← hunread, hyes, if_pos rfl, List.map_append]
        rfl
  · rw [if_neg hdest]
    have hserver {q : Nat} (hq : config q = c) : (s.deliver config m).server q = s.server q := by
      show (if m.dest = .redis (config q) then _ else _) = _
      rw [if_neg (hq ▸ hdest)]
    refine ⟨t, rfl, deliver_numbered hs.numbered m, fun q hq => ?_, fun q i hq => ?_,
      fun q i hq => ?_, hs.sound⟩
    · rw [hserver hq]
      exact hs.published q hq
    · rw [Subscribed, hserver hq]
      exact hs.subscribed q i hq
    · rw [hserver hq]
      exact hs.inbox q i hq

/-- The processes are not the topic's concern. -/
theorem Follows.process (hs : Follows config c s t) (q : Nat) (b : Broadcasting) :
    Follows config c (s.setProcess q b) t :=
  ⟨hs.numbered, hs.published, hs.subscribed, hs.inbox, hs.sound⟩

/-- A step of the processes gives the Redis one message at most. -/
theorem posts_process (codec : Codec) (q : Nat) (a : Broadcasting.Action) (s : Fleet) :
    posts codec (.process q a) s = [] ∨ ∃ m, posts codec (.process q a) s = [m] := by
  rcases Broadcasting.gives_cases codec a (s.process q) with h | ⟨post, h⟩
  · exact .inl (by rw [posts, h]; rfl)
  · exact .inr ⟨_, by rw [posts, h]; rfl⟩

theorem event_posts {a : Action} (ha : ∀ p b, a ≠ .server p b) :
    event codec config c a s = (posts codec a s).flatMap (publishEvents c) := by
  have hpublish (ms : List Posted) : (ms.filter fun m => m.dest = .redis c).map Topic.Event.publish =
      ms.flatMap (publishEvents c) := by
    induction ms with
    | nil => rfl
    | cons m rest ih =>
      rw [List.flatMap_cons, ← ih, publishEvents]
      by_cases hm : m.dest = .redis c <;> simp [hm]
  cases a with
  | server p b => exact absurd rfl (ha p b)
  | process q b => exact hpublish _
  | foreign dest payload => exact hpublish _

/-! ### The fleet follows the topic -/

theorem server_step {b : Restarts.Action} (h : step codec castError config (.server p b) s = some s') :
    (∀ payload, b ≠ .publish payload) ∧ ∃ r, Restarts.step codec b (s.server p) = some r ∧
      s' = s.setServer p r := by
  have hmap (h : (Restarts.step codec b (s.server p)).map (s.setServer p) = some s') :
      ∃ r, Restarts.step codec b (s.server p) = some r ∧ s' = s.setServer p r := by
    obtain ⟨r, hr, rfl⟩ := Option.map_eq_some_iff.mp h
    exact ⟨r, hr, rfl⟩
  cases b with
  | publish payload => cases h
  | _ => exact ⟨fun _ h => (nomatch h), hmap h⟩

/-- A listener takes a turn. -/
theorem Follows.turn (hs : Follows config c s t) {turn : Listener.Turn} {l : Listener}
    (hp : config p = c) (hl : ((s.server p).listener i).turn (s.server p).shutdown turn = some l)
    (hnumbered : Restarts.Numbered ((s.server p).setListener i l)) :
    ∃ u, run Topic.step t (turnEvent (p, i) turn) = some u ∧
      Follows config c (s.setServer p ((s.server p).setListener i l)) u := by
  have hself : ((s.server p).setListener i l).listener i = l := Restarts.setListener_self
  have hothers : ∀ j, j ≠ i →
      ((s.server p).setListener i l).listener j = (s.server p).listener j :=
    fun j hj => Restarts.setListener_of_ne hj
  rcases turn_cases hl (p, i) with ⟨hevent, hsub, hinbox⟩ | ⟨hevent, _, hsub, hinbox⟩ |
    ⟨hevent, hsub, hinbox⟩ <;> rw [hevent]
  · refine ⟨t, rfl, hs.server hnumbered fun _ => ⟨rfl, fun j => ?_⟩⟩
    by_cases hj : j = i
    · rw [Restarts.inbox, hj, hself]
      exact ⟨hsub, hinbox⟩
    · rw [Restarts.inbox, hothers j hj]
      exact ⟨rfl, rfl⟩
  · have hstep : Topic.step (.subscribe (p, i)) t = some
        (t.setPosition (p, i) (some t.log.length)) := rfl
    refine ⟨_, run_cons.mpr ⟨_, hstep, rfl⟩, hs.update hp hnumbered rfl
      (Topic.step_sound _ t _ hs.sound hstep) rfl (fun k hk => Topic.setPosition_of_ne _ hk _) hothers
      ?_ ?_⟩
    · rw [hself, Topic.setPosition_self]
      exact ⟨fun _ => Option.some_ne_none _, fun _ => hsub⟩
    · rw [Restarts.inbox, hself, hinbox, Topic.unread_end]
      rfl
  · have hstep : Topic.step (.leave (p, i)) t = some (t.setPosition (p, i) none) := rfl
    refine ⟨_, run_cons.mpr ⟨_, hstep, rfl⟩, hs.update hp hnumbered rfl
      (Topic.step_sound _ t _ hs.sound hstep) rfl (fun k hk => Topic.setPosition_of_ne _ hk _) hothers
      ?_ ?_⟩
    · rw [hself, Topic.setPosition_self, hsub]
      exact ⟨fun h => absurd h Bool.false_ne_true, fun h => absurd rfl h⟩
    · rw [Restarts.inbox, hself, hinbox, Topic.unread_of_none (Topic.setPosition_self _ _ _)]
      rfl

/-- What is in the inbox of a listener, its subscriber can read. -/
theorem Follows.head (hs : Follows config c s t) (hp : config p = c) {d : Delivery}
    {rest : List Delivery} (h : (s.server p).inbox i = d :: rest) :
    ∃ m u, Topic.step (.read (p, i)) t = some u ∧ t.unread (p, i) = (m, d.serial) :: u.unread (p, i) ∧
      (u.unread (p, i)).map delivery = rest ∧ u.position (p, i) ≠ none ∧ u.log = t.log ∧
      ∀ l, l ≠ (p, i) → u.position l = t.position l := by
  have hinbox := (hs.inbox p i hp).trans h
  cases hpos : t.position (p, i) with
  | none =>
    rw [Topic.unread_of_none hpos] at hinbox
    cases hinbox
  | some n =>
    have hlt : n < t.log.length := by
      by_contra hge
      rw [Topic.unread_of_position hpos, List.drop_eq_nil_of_le
        (by rw [List.length_zipIdx]; exact Nat.le_of_not_lt hge)] at hinbox
      cases hinbox
    have hm : t.log[n]? = some t.log[n] := List.getElem?_eq_getElem hlt
    have hunread := Topic.unread_cons hpos hm
    have hstep : Topic.step (.read (p, i)) t = some
        (t.setPosition (p, i) (some (n + 1))) := by
      simp only [Topic.step, hpos, hlt, if_true]
    have hafter : (t.setPosition (p, i) (some (n + 1))).unread (p, i) = t.log.zipIdx.drop (n + 1) :=
      Topic.unread_of_position (Topic.setPosition_self _ _ _)
    rw [hunread, List.map_cons] at hinbox
    obtain ⟨rfl, htail⟩ := List.cons.inj hinbox
    refine ⟨t.log[n], _, hstep, by rw [hunread, hafter]; rfl, by rw [hafter, htail], ?_, rfl,
      fun l hl => Topic.setPosition_of_ne _ hl _⟩
    rw [Topic.setPosition_self]
    exact Option.some_ne_none _

theorem receive_step {r r' : Restarts} (h : Restarts.step codec (.receive i) r = some r') :
    ∃ d, r.inbox i = d :: r'.inbox i ∧ (r.listener i).subscribed = true ∧
      (r'.listener i).subscribed = true ∧ r'.published = r.published ∧
      ∀ j, j ≠ i → r'.listener j = r.listener j := by
  simp only [Restarts.step] at h
  split at h
  · next d rest hstage =>
    obtain rfl := Option.some.inj h
    refine ⟨d, ?_, ?_, ?_, rfl, fun j hj => Restarts.receives_of_ne hj⟩
    · simp only [Restarts.inbox, Restarts.receives_self, Listener.inbox, hstage]
    · simp only [Listener.subscribed, hstage]
    · simp only [Restarts.receives_self, Listener.subscribed]
  · cases h

theorem step_follows (a : Action) (s s' : Fleet) (t : Topic (Nat × Nat) Posted)
    (hs : Follows config c s t) (h : step codec castError config a s = some s') :
    ∃ u, run Topic.step t (event codec config c a s) = some u ∧ Follows config c s' u := by
  cases a with
  | process q b =>
    obtain ⟨x, _, rfl⟩ := Option.map_eq_some_iff.mp h
    rw [event_posts fun _ _ h => by cases h]
    rcases posts_process codec q b s with hposts | ⟨m, hposts⟩ <;> rw [hposts]
    · exact ⟨t, rfl, hs.process q x⟩
    · rw [List.flatMap_singleton]
      exact (hs.process q x).deliver m
  | foreign dest payload =>
    obtain rfl := Option.some.inj h
    rw [event_posts fun _ _ h => by cases h]
    exact List.flatMap_singleton (f := publishEvents c) _ ▸ hs.deliver _
  | server p b =>
    obtain ⟨hpublish, r, hr, rfl⟩ := server_step h
    have hnumbered := Restarts.step_numbered b _ r (hs.numbered p) hr
    have hquiet (hb : Quiet b) : Follows config c (s.setServer p r) t := by
      obtain ⟨hlistener, hpublished⟩ := quiet_step hb hr
      refine hs.server hnumbered fun _ => ⟨hpublished, fun j => ?_⟩
      rw [Restarts.inbox, hlistener]
      exact ⟨rfl, rfl⟩
    cases b with
    | publish payload => exact absurd rfl (hpublish payload)
    | start | bind k ok | signal k ctrlC | finish k | stop | serve channels outgoing =>
      exact ⟨t, rfl, hquiet trivial⟩
    | spawn k =>
      obtain ⟨hpublished, hlistener⟩ := spawn_step hr
      refine ⟨t, rfl, hs.server hnumbered fun _ => ⟨hpublished, fun j => ?_⟩⟩
      rcases hlistener with hlistener | hlistener <;> rw [Restarts.inbox, hlistener]
      · exact ⟨rfl, rfl⟩
      · by_cases hj : j = (s.server p).spawned
        · -- the number has not been a listener's before
          have hstage := (hs.numbered p).listener j (Nat.le_of_eq hj.symm)
          rw [Restarts.inbox, hj, Server.set_self]
          rw [hj] at hstage
          simp only [Listener.subscribed, Listener.inbox, Listener.new, hstage, and_self]
        · rw [Server.set_of_ne _ hj]
          exact ⟨rfl, rfl⟩
    | turn i turn =>
      obtain ⟨l, hl, rfl⟩ := Option.map_eq_some_iff.mp hr
      show ∃ u, run Topic.step t (if config p = c then _ else _) = some u ∧ _
      by_cases hp : config p = c
      · rw [if_pos hp]
        exact hs.turn hp hl hnumbered
      · rw [if_neg hp]
        exact ⟨t, rfl, hs.server hnumbered fun h => absurd h hp⟩
    | receive i =>
      show ∃ u, run Topic.step t (if config p = c then _ else _) = some u ∧ _
      by_cases hp : config p = c
      · rw [if_pos hp]
        obtain ⟨d, hinbox, _, hsub, hpublished, hothers⟩ := receive_step hr
        obtain ⟨m, u, hu, _, hrest, hpos, hlog, hsame⟩ := hs.head hp hinbox
        refine ⟨u, run_cons.mpr ⟨u, hu, rfl⟩, hs.update hp hnumbered hpublished
          (Topic.step_sound _ t u hs.sound hu) hlog hsame hothers ?_ hrest⟩
        exact ⟨fun _ => hpos, fun _ => hsub⟩
      · rw [if_neg hp]
        exact ⟨t, rfl, hs.server hnumbered fun h => absurd h hp⟩

theorem init_follows (broker : Nat → Bool) : Follows config c (init broker) Topic.new where
  numbered := fun p => Restarts.init_numbered (broker p)
  published := fun _ _ => rfl
  subscribed := fun _ _ _ => ⟨fun h => (nomatch h), fun h => absurd rfl h⟩
  inbox := fun _ _ _ => rfl
  sound := Topic.new_sound

/-- The broadcast that a message asks for, if it is one. -/
def asks (codec : Codec) (x : Posted × Nat) : Option (Nat × StoreCall) :=
  (payloadCall codec x.1.payload).map (x.2, ·)

/-- What a listener makes is what its subscriber reads. -/
theorem made_follows (hp : config p = c) (i : Nat) (a : Action) (s s' : Fleet)
    (t : Topic (Nat × Nat) Posted) (hs : Follows config c s t)
    (_ : step codec castError config a s = some s') :
    made codec p i a s =
      (Topic.reads (p, i) t (event codec config c a s)).filterMap (asks codec) := by
  have hnone {events : List (Topic.Event (Nat × Nat) Posted)}
      (h : ∀ e ∈ events, ∀ k, e ≠ .read k) :
      (Topic.reads (p, i) t events).filterMap (asks codec) = [] := by
    rw [Topic.reads_eq_nil h]
    rfl
  have hposts (ha : ∀ q b, a ≠ .server q b) :
      ∀ e ∈ event codec config c a s, ∀ k, e ≠ .read k := by
    intro e he k hk
    rw [event_posts ha] at he
    obtain ⟨m, _, hm⟩ := List.mem_flatMap.mp he
    unfold publishEvents at hm
    split at hm
    · rw [List.mem_singleton.mp hm] at hk
      cases hk
    · cases hm
  cases a with
  | process q b => exact (hnone (hposts fun _ _ h => by cases h)).symm
  | foreign dest payload => exact (hnone (hposts fun _ _ h => by cases h)).symm
  | server q b =>
    cases b with
    | turn j turn =>
      refine (hnone fun e he k hk => ?_).symm
      subst hk
      change _ ∈ (if config q = c then turnEvent (q, j) turn else []) at he
      split at he
      · cases turn <;> simp [turnEvent] at he
      · cases he
    | receive j =>
      show (if q = p ∧ j = i then _ else []) = (Topic.reads (p, i) t
        (if config q = c then [.read (q, j)] else [])).filterMap (asks codec)
      by_cases hq : config q = c
      · rw [if_pos hq]
        have hreads : Topic.reads (p, i) t [.read (q, j)] =
            if (q, j) = (p, i) then (t.unread (p, i)).take 1 else [] := by
          rw [Topic.reads, emitted_singleton, Topic.readBy]
        rw [hreads]
        by_cases hl : q = p ∧ j = i
        · obtain ⟨rfl, rfl⟩ := hl
          rw [if_pos ⟨rfl, rfl⟩, if_pos rfl, ← hs.inbox q j hq, ← List.map_take, List.filterMap_map]
          rfl
        · rw [if_neg hl, if_neg fun h => hl (Prod.mk.inj h)]
          rfl
      · rw [if_neg hq, if_neg fun h : q = p ∧ j = i => hq (h.1 ▸ hp)]
        rfl
    | _ => exact (hnone fun e he => by cases he).symm

/-! ### What a listener hears -/

/-- A listener that is subscribed before a step and after it has neither come nor gone. -/
theorem event_stays {a : Action} (h : step codec castError config a s = some s')
    (hs : Subscribed p i s) (hs' : Subscribed p i s') :
    ∀ e ∈ event codec config c a s, e ≠ .subscribe (p, i) ∧ e ≠ .leave (p, i) := by
  have hposts (ha : ∀ q b, a ≠ .server q b) :
      ∀ e ∈ event codec config c a s, e ≠ .subscribe (p, i) ∧ e ≠ .leave (p, i) := by
    intro e he
    rw [event_posts ha] at he
    obtain ⟨m, _, hm⟩ := List.mem_flatMap.mp he
    unfold publishEvents at hm
    split at hm
    · rw [List.mem_singleton.mp hm]
      exact ⟨fun h => (nomatch h), fun h => (nomatch h)⟩
    · cases hm
  cases a with
  | process q b => exact hposts fun _ _ h => by cases h
  | foreign dest payload => exact hposts fun _ _ h => by cases h
  | server q b =>
    cases b with
    | turn j turn =>
      intro e he
      change _ ∈ (if config q = c then turnEvent (q, j) turn else []) at he
      split at he
      · obtain ⟨_, r, hr, rfl⟩ := server_step h
        obtain ⟨l, hl, rfl⟩ := Option.map_eq_some_iff.mp hr
        have hthere (hq : (q, j) = (p, i)) : l.subscribed = true ∧
            ((s.server q).listener j).subscribed = true := by
          obtain ⟨rfl, rfl⟩ := Prod.mk.inj hq
          rw [Subscribed, setServer_self, Restarts.setListener_self] at hs'
          exact ⟨hs', hs⟩
        rcases turn_cases hl (q, j) with ⟨hevent, _⟩ | ⟨hevent, hout, _⟩ | ⟨hevent, hout, _⟩ <;>
          rw [hevent] at he
        · cases he
        · rw [List.mem_singleton.mp he]
          refine ⟨fun heq => ?_, fun heq => (nomatch heq)⟩
          rw [(hthere (Topic.Event.subscribe.inj heq)).2] at hout
          cases hout
        · rw [List.mem_singleton.mp he]
          refine ⟨fun heq => (nomatch heq), fun heq => ?_⟩
          rw [(hthere (Topic.Event.leave.inj heq)).1] at hout
          cases hout
      · cases he
    | receive j =>
      intro e he
      change _ ∈ (if config q = c then [Topic.Event.read (q, j)] else []) at he
      split at he
      · rw [List.mem_singleton.mp he]
        exact ⟨fun heq => (nomatch heq), fun heq => (nomatch heq)⟩
      · cases he
    | _ => exact fun e he => nomatch he

theorem stays_of_subscribed {actions : List Action}
    (h : run (step codec castError config) s actions = some s')
    (hs : Always (step codec castError config) (Subscribed p i) s actions) :
    Topic.Stays (p, i) (emitted (step codec castError config) (event codec config c) s actions) := by
  induction actions generalizing s with
  | nil => exact fun e he => nomatch he
  | cons a rest ih =>
    obtain ⟨m, hm, hrest⟩ := run_cons.mp h
    intro e he
    rw [emitted_cons hm] at he
    rcases List.mem_append.mp he with he | he
    · exact event_stays hm hs.1 (always_start (hs.2 m hm)) e he
    · exact ih hrest (hs.2 m hm) e he

/-- The messages that a run gives to a channel. -/
def posted (codec : Codec) (c : RedisConfig) (a : Action) (s : Fleet) : List Posted :=
  (posts codec a s).filter fun m => m.dest = .redis c

theorem published_event (a : Action) (s : Fleet) :
    Topic.published (event codec config c a s) = posted codec c a s := by
  have hposts (ms : List Posted) : Topic.published (L := Nat × Nat) (ms.map .publish) = ms := by
    induction ms with
    | nil => rfl
    | cons m rest ih =>
      rw [List.map_cons, Topic.published_cons, ih]
      rfl
  cases a with
  | process q b => exact hposts _
  | foreign dest payload => exact hposts _
  | server q b =>
    cases b with
    | turn j turn =>
      show Topic.published (if config q = c then turnEvent (q, j) turn else []) = []
      split
      · cases turn <;> rfl
      · rfl
    | receive j =>
      show Topic.published (if config q = c then [Topic.Event.read (q, j)] else []) = []
      split <;> rfl
    | _ => rfl

theorem published_events {actions : List Action}
    (h : run (step codec castError config) s actions = some s') :
    Topic.published (emitted (step codec castError config) (event codec config c) s actions) =
      emitted (step codec castError config) (posted codec c) s actions := by
  induction actions generalizing s with
  | nil => rfl
  | cons a rest ih =>
    obtain ⟨m, hm, hrest⟩ := run_cons.mp h
    rw [emitted_cons hm, emitted_cons hm, Topic.published, List.filterMap_append,
      ← Topic.published, ← Topic.published, published_event, ih hrest]

/-- The broadcasts that a listener makes along a run. -/
def madeBy (codec : Codec) (castError : DictValue → PyErr) (config : Nat → RedisConfig) (p i : Nat)
    (s : Fleet) (actions : List Action) : List (Nat × StoreCall) :=
  emitted (step codec castError config) (made codec p i) s actions

/-- The broadcasts that it has yet to make. -/
def pending (codec : Codec) (s : Fleet) (p i : Nat) : List (Nat × StoreCall) :=
  ((s.server p).inbox i).filterMap fun d => (payloadCall codec d.payload).map (d.serial, ·)

/-- The messages that a channel gets along a run. -/
def log (codec : Codec) (castError : DictValue → PyErr) (config : Nat → RedisConfig)
    (c : RedisConfig) (s : Fleet) (actions : List Action) : List Posted :=
  emitted (step codec castError config) (posted codec c) s actions

theorem Follows.pending (hs : Follows config c s t) (hp : config p = c) (i : Nat) :
    pending codec s p i = (t.unread (p, i)).filterMap (asks codec) := by
  rw [Fleet.pending, ← hs.inbox p i hp, List.filterMap_map]
  rfl

theorem run_topic {broker : Nat → Bool} {actions : List Action} (c : RedisConfig)
    (h : run (step codec castError config) (init broker) actions = some s) :
    ∃ t, run Topic.step Topic.new
        (emitted (step codec castError config) (event codec config c) (init broker) actions) = some t ∧
      Follows config c s t :=
  run_follows step_follows actions (init_follows broker) h

/-- What a listener had to make and what the channel gets is what it makes and has to make. -/
theorem heard {broker : Nat → Bool} {before during : List Action}
    (hs : run (step codec castError config) (init broker) before = some s)
    (h : run (step codec castError config) s during = some s')
    (hi : Always (step codec castError config) (Subscribed p i) s during) :
    pending codec s p i ++ ((log codec castError config (config p) s during).zipIdx
        (s.server p).published).filterMap (asks codec) =
      madeBy codec castError config p i s during ++ pending codec s' p i := by
  obtain ⟨t, ht, hfollows⟩ := run_topic (config p) hs
  obtain ⟨u, hu, hfollows'⟩ := run_follows step_follows during hfollows h
  have hposition := (hfollows.subscribed p i rfl).mp (always_start hi)
  have hunread := Topic.unread_append hfollows.sound hu (stays_of_subscribed h hi) hposition
  have hmade := emitted_follows step_follows (made_follows rfl i) during hfollows h
  rw [hfollows.pending rfl i, hfollows'.pending rfl i, madeBy, hmade, ← List.filterMap_append,
    ← List.filterMap_append, hfollows.published p rfl, log, ← published_events h]
  exact congrArg _ hunread

/-- **Servers of one channel hear the same.** Whatever happens meanwhile, a listener that stays
subscribed makes exactly the broadcasts that the messages of its channel ask for, in the order
in which they are published; of two listeners, on one server or on two, that both begin with
nothing to read, one has made what the other has, and what it makes next is what the other has
made already; and when both have read all they have made the same. -/
theorem servers_agree (codec : Codec) (castError : DictValue → PyErr) (config : Nat → RedisConfig)
    (broker : Nat → Bool) (before during : List Action) (s s' : Fleet)
    (hs : run (step codec castError config) (init broker) before = some s)
    (h : run (step codec castError config) s during = some s') (p i : Nat)
    (hi : Always (step codec castError config) (Subscribed p i) s during) :
    pending codec s p i ++ ((log codec castError config (config p) s during).zipIdx
        (s.server p).published).filterMap (asks codec) =
      madeBy codec castError config p i s during ++ pending codec s' p i ∧
    ∀ q j, config q = config p →
      Always (step codec castError config) (Subscribed q j) s during →
      (s.server p).inbox i = [] → (s.server q).inbox j = [] →
      (madeBy codec castError config p i s during <+: madeBy codec castError config q j s during ∨
        madeBy codec castError config q j s during <+: madeBy codec castError config p i s during) ∧
      ((s'.server p).inbox i = [] → (s'.server q).inbox j = [] →
        madeBy codec castError config p i s during = madeBy codec castError config q j s during) := by
  refine ⟨heard hs h hi, fun q j hq hj hpi hqj => ?_⟩
  have hsame : (s.server q).published = (s.server p).published := by
    obtain ⟨t, _, hfollows⟩ := run_topic (config p) hs
    rw [hfollows.published p rfl, hfollows.published q hq]
  have hempty {s : Fleet} {p i : Nat} (hinbox : (s.server p).inbox i = []) :
      pending codec s p i = [] := by
    rw [pending, hinbox]
    rfl
  have h1 := heard hs h hi
  have h2 := heard hs h hj
  rw [hempty hpi, List.nil_append] at h1
  rw [hempty hqj, List.nil_append, hq, hsame] at h2
  refine ⟨List.prefix_or_prefix_of_prefix ⟨_, h1.symm⟩ ⟨_, h2.symm⟩, fun hpend hqend => ?_⟩
  rw [hempty hpend, List.append_nil] at h1
  rw [hempty hqend, List.append_nil] at h2
  exact h1.symm.trans h2

/-- Every server reads the channel that a process broadcasts to by default. -/
def localRedis (_ : Nat) : RedisConfig := ⟨"redis://localhost:6379", "ws_broadcast"⟩

/-- A server starts, and its listener subscribes. -/
def listens (p : Nat) : List Action :=
  .server p .start :: .server p (.spawn 0) ::
    [.firstPoll, .subscribed, .ready].map fun turn => .server p (.turn 0 turn)

/-- A process broadcasts, up to where the Redis gets the message. -/
def prepares : List Action :=
  [.process 0 (.setup .thread Broadcasting.redisExample (.ok ())),
    .process 0 (.broadcast .thread ["room"] "hi"), .process 0 (.send 0),
    .process 0 (.connect 0 (.ok ()))]

/-- The message comes to the servers, and the broadcast returns. -/
def arrives (servers : List Nat) : List Action :=
  .process 0 (.publish 0 .confirmed true) ::
    (servers.map fun p => .server p (.receive 0)) ++ [.process 0 (.finish 0)]

theorem servers_agree_two :
    ∃ s s', run (step .shortest (fun _ => .typeError "not a str") localRedis) (init fun _ => true)
        (listens 0 ++ listens 1 ++ prepares) = some s ∧
      run (step .shortest (fun _ => .typeError "not a str") localRedis) s (arrives [1, 0]) = some s' ∧
      madeBy .shortest (fun _ => .typeError "not a str") localRedis 0 0 s (arrives [1, 0]) =
        madeBy .shortest (fun _ => .typeError "not a str") localRedis 1 0 s (arrives [1, 0]) := by
  refine ⟨_, _, rfl, rfl, ?_⟩
  exact ((servers_agree .shortest (fun _ => .typeError "not a str") localRedis (fun _ => true)
    (listens 0 ++ listens 1 ++ prepares) (arrives [1, 0]) _ _ rfl rfl 0 0 (by decide)).2 1 0 rfl
      (by decide) rfl rfl).2 rfl rfl

/-! ### Where the messages come from -/

/-- What the run does to a process. -/
def processActions (q : Nat) (actions : List Action) : List Broadcasting.Action :=
  actions.filterMap fun
    | .process r a => if r = q then some a else none
    | _ => none

theorem deliver_process (ms : List Posted) (s : Fleet) :
    (ms.foldl (deliver config) s).process = s.process := by
  induction ms generalizing s with
  | nil => rfl
  | cons m rest ih => exact (ih _).trans rfl

/-- The message comes from the call `k` of the process `q`. -/
def From (q k : Nat) (m : Posted) : Bool := m.source == some (q, k)

/-- A step is one of the process, or none of its. -/
theorem process_step {a : Action} (h : step codec castError config a s = some s') (q : Nat) :
    (∃ b, a = .process q b ∧ Broadcasting.step codec castError b (s.process q) = some (s'.process q)) ∨
      processActions q [a] = [] ∧ s'.process q = s.process q ∧
        ∀ k, (posts codec a s).countP (From q k) = 0 := by
  cases a with
  | process r b =>
    obtain ⟨x, hx, rfl⟩ := Option.map_eq_some_iff.mp h
    rw [deliver_process]
    by_cases hr : q = r
    · subst hr
      refine .inl ⟨b, rfl, ?_⟩
      rw [hx]
      exact congrArg some (Server.set_self s.process q x).symm
    · refine .inr ⟨?_, Server.set_of_ne s.process hr x, ?_⟩
      · simp [processActions, Ne.symm hr]
      · refine fun k => List.countP_eq_zero.mpr fun m hm => ?_
        obtain ⟨post, _, rfl⟩ := List.mem_map.mp hm
        simp [From, Ne.symm hr]
  | foreign dest payload =>
    obtain rfl := Option.some.inj h
    exact .inr ⟨rfl, rfl, fun k => rfl⟩
  | server p b =>
    obtain ⟨_, r, _, rfl⟩ := server_step h
    exact .inr ⟨rfl, rfl, fun k => rfl⟩

theorem run_process {actions : List Action} (q : Nat)
    (h : run (step codec castError config) s actions = some s') :
    run (Broadcasting.step codec castError) (s.process q) (processActions q actions) =
      some (s'.process q) := by
  induction actions generalizing s with
  | nil =>
    cases h
    rfl
  | cons a rest ih =>
    obtain ⟨m, hm, hrest⟩ := run_cons.mp h
    have hsplit : processActions q (a :: rest) = processActions q [a] ++ processActions q rest := by
      rw [processActions, processActions, processActions, ← List.filterMap_append,
        List.singleton_append]
    rw [hsplit]
    rcases process_step hm q with ⟨b, rfl, hb⟩ | ⟨hnone, hsame, _⟩
    · have hone : processActions q [.process q b] = [b] := by simp [processActions]
      rw [hone]
      exact run_cons.mpr ⟨_, hb, ih hrest⟩
    · rw [hnone, List.nil_append, ← hsame]
      exact ih hrest

/-- A run adds to what the brokers have been given of a call what it gives them. -/
theorem count_posts {actions : List Action}
    (h : run (step codec castError config) s actions = some s') (q k : Nat) :
    (s'.process q).count k = (s.process q).count k +
      (emitted (step codec castError config) (posts codec) s actions).countP (From q k) := by
  induction actions generalizing s with
  | nil =>
    cases h
    rfl
  | cons a rest ih =>
    obtain ⟨m, hm, hrest⟩ := run_cons.mp h
    rw [emitted_cons hm, List.countP_append, ih hrest, ← Nat.add_assoc]
    congr 1
    rcases process_step hm q with ⟨b, rfl, hb⟩ | ⟨_, hsame, hnone⟩
    · rw [Broadcasting.count, Broadcasting.posted_step hb, List.countP_append, Broadcasting.count,
        posts, List.countP_map]
      congr 2
      funext post
      simp [From]
    · rw [hsame, hnone k, Nat.add_zero]

/-- What comes from a call, the broker of its process has been given. -/
theorem given_of_source {actions : List Action}
    (h : run (step codec castError config) s actions = some s') {m : Posted} {q k : Nat}
    (hm : m ∈ emitted (step codec castError config) (posts codec) s actions)
    (hsource : m.source = some (q, k)) :
    ∃ post ∈ (s'.process q).posted, post.call = k ∧ m.dest = post.config ∧
      m.payload = post.payload.toUTF8 := by
  refine run_history (P := fun actions s' =>
    m ∈ emitted (step codec castError config) (posts codec) s actions →
      ∃ post ∈ (s'.process q).posted, post.call = k ∧ m.dest = post.config ∧
        m.payload = post.payload.toUTF8) (fun h => by cases h) ?_ actions h hm
  intro actions a x y hx ih hstep hmem
  rw [emitted_concat hx] at hmem
  have hgrows : ∀ post ∈ (x.process q).posted, post ∈ (y.process q).posted := by
    intro post hpost
    rcases process_step hstep q with ⟨b, _, hb⟩ | ⟨_, hsame, _⟩
    · rw [Broadcasting.posted_step hb]
      exact List.mem_append_left _ hpost
    · exact hsame ▸ hpost
  rcases List.mem_append.mp hmem with hold | hnew
  · obtain ⟨post, hpost, hrest⟩ := ih hold
    exact ⟨post, hgrows post hpost, hrest⟩
  · rcases process_step hstep q with ⟨b, rfl, hb⟩ | ⟨_, _, hnone⟩
    · obtain ⟨post, hpost, rfl⟩ := List.mem_map.mp hnew
      refine ⟨post, ?_, (Prod.mk.inj (Option.some.inj hsource)).2, rfl, rfl⟩
      rw [Broadcasting.posted_step hb]
      exact List.mem_append_right _ hpost
    · exact absurd (beq_iff_eq.mpr hsource) (List.countP_eq_zero.mp (hnone k) m hnew)

theorem log_eq (c : RedisConfig) (s : Fleet) (actions : List Action) :
    log codec castError config c s actions =
      (emitted (step codec castError config) (posts codec) s actions).filter fun m =>
        m.dest = .redis c :=
  emitted_filter _ s actions

theorem init_process {broker : Nat → Bool} {actions : List Action} (q : Nat)
    (h : run (step codec castError config) (init broker) actions = some s) :
    run (Broadcasting.step codec castError) Broadcasting.init (processActions q actions) =
      some (s.process q) :=
  run_process q h

/-- A message of a call asks for the broadcast that the call is about. -/
theorem asked_of_source {broker : Nat → Bool} {actions : List Action} {m : Posted} {q k : Nat}
    (h : run (step codec castError config) (init broker) actions = some s)
    (hm : m ∈ log codec castError config c (init broker) actions)
    (hsource : m.source = some (q, k)) :
    ∃ pub, ((s.process q).call k).publication = some pub ∧
      Broadcasting.Called codec castError (processActions q actions) k pub (.redis c) ∧
      payloadCall codec m.payload = some ⟨pub.groups, .text pub.message, none⟩ := by
  rw [log_eq] at hm
  obtain ⟨hm, hdest⟩ := List.mem_filter.mp hm
  obtain ⟨post, hpost, rfl, hconfig, hpayload⟩ := given_of_source h hm hsource
  obtain ⟨pub, hpub, hcalled, _, hmade⟩ := Broadcasting.run_posted (init_process q h) hpost
  refine ⟨pub, hpub, ?_, ?_⟩
  · rw [← hconfig, of_decide_eq_true hdest] at hcalled
    exact hcalled
  · rw [hpayload, hmade, payloadCall, ofPayload_makePayload]
    rfl

theorem count_log_le {broker : Nat → Bool} {actions : List Action}
    (h : run (step codec castError config) (init broker) actions = some s) (c : RedisConfig)
    (q k : Nat) : (log codec castError config c (init broker) actions).countP (From q k) ≤ 1 := by
  have htracked := run_invariant Broadcasting.step_tracked _ (init_process q h)
    (Broadcasting.init_tracked codec)
  have hcount : (s.process q).count k = 0 + _ := count_posts h q k
  have hle : (log codec castError config c (init broker) actions).countP (From q k) ≤
      (emitted (step codec castError config) (posts codec) (init broker) actions).countP (From q k) := by
    rw [log_eq]
    exact List.Sublist.countP_le List.filter_sublist
  have honce := htracked.once k
  omega

/-- **A listener hears every message once at most, and as it was broadcast.** Over all of its
life, whatever it misses, a listener makes its broadcasts in the order of the channel and none
of them twice. Each is what a message of the channel asks for, and where that message comes from
a call of one of the processes, it has the groups and the message of that call; no call has two
messages. -/
theorem heard_once (codec : Codec) (castError : DictValue → PyErr) (config : Nat → RedisConfig)
    (broker : Nat → Bool) (actions : List Action) (s : Fleet)
    (h : run (step codec castError config) (init broker) actions = some s) (p i : Nat) :
    (madeBy codec castError config p i (init broker) actions).Pairwise (fun x y => x.1 < y.1) ∧
    (∀ x ∈ madeBy codec castError config p i (init broker) actions,
      ∃ m, (log codec castError config (config p) (init broker) actions)[x.1]? = some m ∧
        payloadCall codec m.payload = some x.2 ∧
        ∀ q k, m.source = some (q, k) → ∃ pub,
          Broadcasting.Called codec castError (processActions q actions) k pub (.redis (config p)) ∧
          x.2 = ⟨pub.groups, .text pub.message, none⟩) ∧
    ∀ q k, (log codec castError config (config p) (init broker) actions).countP (From q k) ≤ 1 := by
  obtain ⟨t, ht, hfollows⟩ := run_topic (config p) h
  have hmade : madeBy codec castError config p i (init broker) actions = _ :=
    emitted_follows step_follows (made_follows rfl i) actions (init_follows broker) h
  have hbehind := Topic.run_behind ht (p, i)
  have hlog : t.log = log codec castError config (config p) (init broker) actions := by
    rw [Topic.run_log ht, published_events h]
    exact List.nil_append _
  have hasks {x : Posted × Nat} {y : Nat × StoreCall} (hy : asks codec x = some y) :
      y.1 = x.2 ∧ payloadCall codec x.1.payload = some y.2 := by
    obtain ⟨call, hcall, rfl⟩ := Option.map_eq_some_iff.mp hy
    exact ⟨rfl, hcall⟩
  refine ⟨?_, fun x hx => ?_, fun q k => count_log_le h (config p) q k⟩
  · rw [hmade]
    refine List.Pairwise.filterMap _ (fun a b hab y hy z hz => ?_) hbehind.increasing
    rw [(hasks hy).1, (hasks hz).1]
    exact hab
  · rw [hmade] at hx
    obtain ⟨y, hy, hyx⟩ := List.mem_filterMap.mp hx
    obtain ⟨hserial, hcall⟩ := hasks hyx
    have hat := (hbehind.behind y hy).1
    rw [hlog] at hat
    refine ⟨y.1, hserial ▸ hat, hcall, fun q k hsource => ?_⟩
    obtain ⟨pub, _, hcalled, hpayload⟩ :=
      asked_of_source h (List.mem_of_getElem? hat) hsource
    exact ⟨pub, hcalled, Option.some.inj (hcall.symm.trans hpayload)⟩

theorem heard_once_listener :
    ∃ s, run (step .shortest (fun _ => .typeError "not a str") localRedis) (init fun _ => true)
        (listens 0 ++ prepares ++ arrives [0]) = some s ∧
      (madeBy .shortest (fun _ => .typeError "not a str") localRedis 0 0 (init fun _ => true)
        (listens 0 ++ prepares ++ arrives [0])).Pairwise (fun x y => x.1 < y.1) := by
  refine ⟨_, rfl, ?_⟩
  exact (heard_once .shortest (fun _ => .typeError "not a str") localRedis (fun _ => true)
    (listens 0 ++ prepares ++ arrives [0]) _ rfl 0 0).1

/-! ### A broadcast that has returned -/

/-- The number of a message that comes from the call, in a channel with that log. -/
def isFrom (log : List Posted) (q k : Nat) (x : Nat × StoreCall) : Bool :=
  log[x.1]?.any (From q k)

theorem filter_isFrom_nil {log : List Posted} {l : List (Posted × Nat)} {q k : Nat}
    (h : ∀ x ∈ l, log[x.2]? = some x.1 ∧ From q k x.1 = false) :
    (l.filterMap (asks codec)).filter (isFrom log q k) = [] := by
  refine List.filter_eq_nil_iff.mpr fun y hy => ?_
  obtain ⟨x, hx, hxy⟩ := List.mem_filterMap.mp hy
  obtain ⟨call, _, rfl⟩ := Option.map_eq_some_iff.mp hxy
  rw [isFrom, (h x hx).1, Option.any_some, (h x hx).2]
  exact Bool.false_ne_true

/-- Of what is read in full, one broadcast comes from the one message of the call. -/
theorem filter_isFrom {log old new : List Posted} {unread : List (Posted × Nat)} {q k : Nat}
    {call : StoreCall} (hlog : log = old ++ new) (hunread : ∀ x ∈ unread, old[x.2]? = some x.1)
    (hold : old.countP (From q k) = 0) (hnew : new.countP (From q k) = 1)
    (hcall : ∀ m ∈ new, From q k m = true → payloadCall codec m.payload = some call) :
    ∃ n, ((unread ++ new.zipIdx old.length).filterMap (asks codec)).filter (isFrom log q k) =
      [(n, call)] := by
  obtain ⟨m, hm, hfrom⟩ := List.countP_pos_iff.mp (Nat.lt_of_lt_of_eq Nat.zero_lt_one hnew.symm)
  obtain ⟨first, last, rfl⟩ := List.append_of_mem hm
  rw [List.countP_append, List.countP_cons_of_pos hfrom] at hnew
  have hfirst : first.countP (From q k) = 0 := by omega
  have hlast : last.countP (From q k) = 0 := by omega
  have hnone {l : List Posted} (hl : l.countP (From q k) = 0) {x : Posted} (hx : x ∈ l) :
      From q k x = false := Bool.eq_false_iff.mpr (List.countP_eq_zero.mp hl x hx)
  have hat {x : Posted × Nat} (hx : x ∈ (old ++ (first ++ m :: last)).zipIdx) :
      log[x.2]? = some x.1 := by
    rw [hlog]
    exact List.mem_zipIdx_iff_getElem?.mp hx
  have hsplit : (old ++ (first ++ m :: last)).zipIdx = old.zipIdx ++
      (first.zipIdx old.length ++ (m, old.length + first.length) ::
        last.zipIdx (old.length + first.length + 1)) := by
    rw [List.zipIdx_append, List.zipIdx_append, List.zipIdx_cons, Nat.zero_add]
  rw [hsplit] at hat
  refine ⟨old.length + first.length, ?_⟩
  have hbefore : ((unread ++ first.zipIdx old.length).filterMap (asks codec)).filter
      (isFrom log q k) = [] := by
    refine filter_isFrom_nil fun x hx => ?_
    rcases List.mem_append.mp hx with hx | hx
    · have hx' : x ∈ old.zipIdx := List.mem_zipIdx_iff_getElem?.mpr (hunread x hx)
      exact ⟨hat (List.mem_append_left _ hx'), hnone hold (List.fst_mem_of_mem_zipIdx hx')⟩
    · exact ⟨hat (List.mem_append_right _ (List.mem_append_left _ hx)),
        hnone hfirst (List.fst_mem_of_mem_zipIdx hx)⟩
  have hafter : ((last.zipIdx (old.length + first.length + 1)).filterMap (asks codec)).filter
      (isFrom log q k) = [] := by
    refine filter_isFrom_nil fun x hx => ⟨?_, hnone hlast (List.fst_mem_of_mem_zipIdx hx)⟩
    exact hat (List.mem_append_right _ (List.mem_append_right _ (List.mem_cons_of_mem _ hx)))
  have hself : log[old.length + first.length]? = some m :=
    @hat (m, _) (List.mem_append_right _ (List.mem_append_right _ List.mem_cons_self))
  have hasks : asks codec (m, old.length + first.length) = some (old.length + first.length, call) := by
    rw [asks, hcall m hm hfrom]
    rfl
  rw [List.zipIdx_append, List.zipIdx_cons, ← List.append_assoc, List.filterMap_append,
    List.filter_append, hbefore, List.nil_append, List.filterMap_cons, hasks]
  have hkept : isFrom log q k (old.length + first.length, call) = true := by
    rw [isFrom, hself, Option.any_some, hfrom]
  rw [List.filter_cons, if_pos hkept, hafter]

/-- A call of the run that has returned has one message, and that goes where the broker of the
call sends. -/
theorem returned_posted {broker : Nat → Bool} {before during : List Action} {q k : Nat}
    {pub : Publication} (hs : run (step codec castError config) (init broker) before = some s)
    (h : run (step codec castError config) s during = some s')
    (hcalled : (s.process q).called ≤ k) (hreturned : (s'.process q).call k = .done pub .returned)
    (hconfig : (s'.process q).config pub.broadcaster = .redis c) :
    (log codec castError config c (init broker) before).countP (From q k) = 0 ∧
      (log codec castError config c s during).countP (From q k) = 1 ∧
      ∀ m ∈ log codec castError config c s during, From q k m = true →
        payloadCall codec m.payload = some ⟨pub.groups, .text pub.message, none⟩ := by
  have htracked := run_invariant Broadcasting.step_tracked _ (init_process q hs)
    (Broadcasting.init_tracked codec)
  have htracked' := run_invariant Broadcasting.step_tracked _ (run_process q h) htracked
  have hzero : (s.process q).count k = 0 :=
    htracked.count_eq_zero (by rw [htracked.counted.called k hcalled]; rfl)
  have hone : (s'.process q).count k = 1 :=
    htracked'.returned k pub hreturned (by rw [hconfig]; rfl)
  have hmessage : ∀ m ∈ emitted (step codec castError config) (posts codec) s during,
      From q k m = true → m.dest = .redis c ∧
        payloadCall codec m.payload = some ⟨pub.groups, .text pub.message, none⟩ := by
    intro m hm hfrom
    obtain ⟨post, hpost, hcall, hdest, hpayload⟩ := given_of_source h hm (beq_iff_eq.mp hfrom)
    obtain ⟨p, hp, hmade⟩ := htracked'.posted post hpost
    rw [hcall, hreturned] at hp
    obtain rfl := Option.some.inj hp
    refine ⟨?_, ?_⟩
    · rw [hdest, hmade]
      exact hconfig
    · rw [hpayload, hmade, payloadCall]
      show (BrokerMessage.ofPayload codec (makePayload codec pub.groups pub.message).toUTF8).map _ = _
      rw [ofPayload_makePayload]
      rfl
  refine ⟨?_, ?_, fun m hm hfrom => ?_⟩
  · have hcount := count_posts hs q k
    rw [hzero] at hcount
    have hle : (log codec castError config c (init broker) before).countP (From q k) ≤
        (emitted (step codec castError config) (posts codec) (init broker) before).countP
          (From q k) := by
      rw [log_eq]
      exact List.Sublist.countP_le List.filter_sublist
    omega
  · have hcount := count_posts h q k
    rw [hzero, hone, Nat.zero_add] at hcount
    rw [log_eq, List.countP_filter, hcount]
    refine List.countP_congr fun m hm => ?_
    rw [Bool.and_eq_true, decide_eq_true_iff]
    exact ⟨fun hfrom => hfrom.1, fun hfrom => ⟨hfrom, (hmessage m hm hfrom).1⟩⟩
  · rw [log_eq] at hm
    exact (hmessage m (List.mem_of_mem_filter hm) hfrom).2

/-- What a listener makes of a broadcast that has returned. -/
theorem reaches {broker : Nat → Bool} {before during : List Action} {q k : Nat} {pub : Publication}
    (hs : run (step codec castError config) (init broker) before = some s)
    (h : run (step codec castError config) s during = some s')
    (hcalled : (s.process q).called ≤ k) (hreturned : (s'.process q).call k = .done pub .returned)
    (hconfig : (s'.process q).config pub.broadcaster = .redis (config p))
    (hi : Always (step codec castError config) (Subscribed p i) s during)
    (hread : (s'.server p).inbox i = []) :
    ∃ n, (madeBy codec castError config p i s during).filter
        (isFrom (log codec castError config (config p) (init broker) (before ++ during)) q k) =
      [(n, ⟨pub.groups, .text pub.message, none⟩)] := by
  obtain ⟨t, ht, hfollows⟩ := run_topic (config p) hs
  have hlog : t.log = log codec castError config (config p) (init broker) before := by
    rw [Topic.run_log ht, published_events hs]
    exact List.nil_append _
  have hmade := heard hs h hi
  have hdone : pending codec s' p i = [] := by
    rw [pending, hread]
    rfl
  rw [hdone, List.append_nil, hfollows.pending rfl i, ← List.filterMap_append,
    hfollows.published p rfl, hlog] at hmade
  obtain ⟨hbefore, hduring, hmessage⟩ := returned_posted hs h hcalled hreturned hconfig
  rw [← hmade]
  refine filter_isFrom (emitted_append hs) (fun x hx => ?_) hbefore hduring hmessage
  rw [← hlog]
  unfold Topic.unread at hx
  cases hposition : t.position (p, i) with
  | none =>
    rw [hposition] at hx
    cases hx
  | some n =>
    rw [hposition] at hx
    exact List.mem_zipIdx_iff_getElem?.mp (List.mem_of_mem_drop hx)

/-- **A broadcast that has returned has reached whoever listens.** A listener that is subscribed
from before the call until after it has returned, and has read what there is, has made one
broadcast of it, with its groups and its message, whatever else has been published and whatever
has happened to the process and its connection meanwhile. -/
theorem broadcast_reaches (codec : Codec) (castError : DictValue → PyErr)
    (config : Nat → RedisConfig) (broker : Nat → Bool) (before during : List Action) (s s' : Fleet)
    (hs : run (step codec castError config) (init broker) before = some s)
    (h : run (step codec castError config) s during = some s') (q k : Nat) (pub : Publication)
    (p i : Nat) (hcalled : (s.process q).called ≤ k)
    (hreturned : (s'.process q).call k = .done pub .returned)
    (hconfig : (s'.process q).config pub.broadcaster = .redis (config p))
    (hi : Always (step codec castError config) (Subscribed p i) s during)
    (hread : (s'.server p).inbox i = []) :
    ∃ n, (madeBy codec castError config p i s during).filter
        (isFrom (log codec castError config (config p) (init broker) (before ++ during)) q k) =
      [(n, ⟨pub.groups, .text pub.message, none⟩)] :=
  reaches hs h hcalled hreturned hconfig hi hread

theorem broadcast_reaches_listener :
    ∃ s n, run (step .shortest (fun _ => .typeError "not a str") localRedis) (init fun _ => true)
        (listens 0) = some s ∧
      (madeBy .shortest (fun _ => .typeError "not a str") localRedis 0 0 s
        (prepares ++ arrives [0])).filter (isFrom (log .shortest (fun _ => .typeError "not a str")
          localRedis (localRedis 0) (init fun _ => true) (listens 0 ++ (prepares ++ arrives [0]))) 0 0) =
        [(n, ⟨["room"], .text "hi", none⟩)] := by
  obtain ⟨n, hn⟩ := broadcast_reaches .shortest (fun _ => .typeError "not a str") localRedis
    (fun _ => true) (listens 0) (prepares ++ arrives [0]) _ _ rfl rfl 0 0
    ⟨0, .thread, ["room"], "hi", false⟩ 0 0 (Nat.le_refl 0) rfl rfl (by decide) rfl
  exact ⟨_, n, rfl, hn⟩

end Fleet
end Webrockets
