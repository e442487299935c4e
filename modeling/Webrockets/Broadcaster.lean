import Mathlib.Data.Finset.Card
import Webrockets.Broker
import Webrockets.BrokerConfig

/-! The broadcaster of a process (`broker/broadcaster.rs`).

`BROADCASTER` is one slot behind a lock. `setup_broadcast` puts another broadcaster there and
`reset_broadcast` none; a call of `broadcast` or `abroadcast` takes what is there and keeps it,
so that it goes on over the old broadcaster when there is a new one. Who gives up the last
handle of a broadcaster drops its runtime as well. On a worker of a runtime that panics, and
where it is a setup or a reset that does it, it panics under the lock. The future of an
`abroadcast` may be cancelled: a worker drops it, wherever it is, and the handle with it. -/
namespace Webrockets
open Transition JsonText

/-- `strong` is the count of the `Arc` that it is in. -/
structure Broadcaster where
  config : BrokerConfig
  publisher : Publisher
  strong : Nat

def BrokerConfig.backend : BrokerConfig → Backend
  | .redis _ => .redis
  | .amqp _ => .amqp

/-- `runtime` is what `Runtime::new` comes back with. -/
def Broadcaster.new (castError : DictValue → PyErr) (dict : PyDict) (runtime : Except String Unit) :
    Except PyErr Broadcaster := do
  let config ← BrokerConfig.fromPy castError dict
  match runtime with
  | .ok () => return ⟨config, .init, 1⟩
  | .error e => .error (.runtimeError ("Failed to create runtime: " ++ e))

/-- A call that has its broadcaster. `ctx` is where it gives it up again. -/
structure Publication where
  broadcaster : Nat
  ctx : Context
  groups : List String
  message : String
  /-- It is an `abroadcast`, and hands a future back. -/
  future : Bool

inductive Publication.Stage where
  | uncalled
  /-- It has got no broadcaster. -/
  | refused (e : PyErr)
  | sending (p : Publication)
  | done (p : Publication) (outcome : Outcome)

/-- It holds the broadcaster. -/
def Publication.Stage.Holds (b : Nat) : Publication.Stage → Prop
  | .sending p => p.broadcaster = b
  | _ => False

/-- The call, if it has got a broadcaster. -/
def Publication.Stage.publication : Publication.Stage → Option Publication
  | .sending p | .done p _ => some p
  | _ => none

/-- A payload that a broker has been given. -/
structure Post where
  call : Nat
  config : BrokerConfig
  payload : String

/-- Calls and broadcasters are numbered in the order in which they come. -/
structure Broadcasting where
  slot : Option Nat
  poisoned : Bool
  made : Nat
  broadcaster : Nat → Broadcaster
  called : Nat
  call : Nat → Publication.Stage
  posted : List Post

/-- What a `send` comes to for the caller. -/
def Answer.outcome : Answer → Outcome
  | .sent _ => .returned
  | .connectFailed text | .publishFailed _ text => .raised (.runtimeError text)

/-- A reply is possible where the broker has been given the payload or not. `PUBLISH` is
confirmed after it was carried out. A channel of AMQP is not in confirm mode: it confirms what
it has not sent yet. -/
def Backend.Honest (taken : Bool) : Backend → PublishReply → Prop
  | .redis, .confirmed => taken = true
  | _, _ => True

instance (taken : Bool) : ∀ (b : Backend) (reply : PublishReply), Decidable (b.Honest taken reply)
  | .redis, .confirmed => inferInstanceAs (Decidable (taken = true))
  | .redis, .refused _ | .redis, .unconfirmed _ | .amqp, _ => isTrue trivial

namespace Broadcasting

def lockPoisoned : PyErr :=
  .runtimeError "Lock poisoned: poisoned lock: another task failed inside"

def notInitialized : PyErr := .runtimeError "broadcast is not initialized"

def init : Broadcasting where
  slot := none
  poisoned := false
  made := 0
  broadcaster := fun _ => ⟨.redis ⟨"", ""⟩, .init, 0⟩
  called := 0
  call := fun _ => .uncalled
  posted := []

def setBroadcaster (s : Broadcasting) (b : Nat) (x : Broadcaster) : Broadcasting :=
  { s with broadcaster := Server.set s.broadcaster b x }

def setCall (s : Broadcasting) (k : Nat) (stage : Publication.Stage) : Broadcasting :=
  { s with call := Server.set s.call k stage }

def setStrong (s : Broadcasting) (b n : Nat) : Broadcasting :=
  s.setBroadcaster b { s.broadcaster b with strong := n }

def setPublisher (s : Broadcasting) (b : Nat) (p : Publisher) : Broadcasting :=
  s.setBroadcaster b { s.broadcaster b with publisher := p }

/-- To drop the last handle panics on a worker. -/
def dropPanics (s : Broadcasting) (ctx : Context) (b : Nat) : Bool :=
  ctx.hasRuntime && (s.broadcaster b).strong == 1

def dropHandle (s : Broadcasting) (b : Nat) : Broadcasting :=
  s.setStrong b ((s.broadcaster b).strong - 1)

/-- What was in the slot is dropped while the lock is held. The slot is written even where
that panics. -/
def replace (ctx : Context) (slot : Option Nat) (s : Broadcasting) : Outcome × Broadcasting :=
  match s.slot with
  | some old =>
    (if s.dropPanics ctx old then .panicked else .returned,
      { s.dropHandle old with slot := slot, poisoned := s.dropPanics ctx old })
  | none => (.returned, { s with slot := slot })

/-- A new broadcaster is not in the slot yet. -/
def add (s : Broadcasting) (x : Broadcaster) : Broadcasting :=
  { s.setBroadcaster s.made x with made := s.made + 1 }

def setupBroadcast (castError : DictValue → PyErr) (ctx : Context) (dict : PyDict)
    (runtime : Except String Unit) (s : Broadcasting) : Outcome × Broadcasting :=
  match Broadcaster.new castError dict runtime with
  | .error e => (.raised e, s)
  | .ok x =>
    -- the new broadcaster goes the way of the others
    if s.poisoned then (if ctx.hasRuntime then .panicked else .raised lockPoisoned, s)
    else (s.add x).replace ctx (some s.made)

def resetBroadcast (ctx : Context) (s : Broadcasting) : Outcome × Broadcasting :=
  if s.poisoned then (.raised lockPoisoned, s) else s.replace ctx none

def getBroadcaster (s : Broadcasting) : Except PyErr Nat :=
  if s.poisoned then .error lockPoisoned
  else match s.slot with
    | some b => .ok b
    | none => .error notInitialized

/-- A new call gets no broadcaster. -/
def refuse (s : Broadcasting) (e : PyErr) : Broadcasting :=
  { s.setCall s.called (.refused e) with called := s.called + 1 }

/-- A new call gets one: the handle is cloned. -/
def lend (s : Broadcasting) (p : Publication) : Broadcasting :=
  { (s.setStrong p.broadcaster ((s.broadcaster p.broadcaster).strong + 1)).setCall s.called
      (.sending p) with called := s.called + 1 }

/-- Of either call. -/
def begin (s : Broadcasting) (ctx : Context) (groups : List String) (message : String)
    (future : Bool) : Broadcasting :=
  match s.getBroadcaster with
  | .error e => s.refuse e
  | .ok b => s.lend ⟨b, ctx, groups, message, future⟩

/-- `future_into_py` looks for the event loop after that, and gives the handle back where it
finds none. -/
def abegin (s : Broadcasting) (ctx : Context) (groups : List String) (message : String) :
    Broadcasting :=
  match s.getBroadcaster with
  | .error e => s.refuse e
  | .ok _ =>
    if ctx.hasLoop then s.begin .worker groups message true
    else s.refuse (.runtimeError "no running event loop")

inductive Action where
  | setup (ctx : Context) (dict : PyDict) (runtime : Except String Unit)
  | reset (ctx : Context)
  | broadcast (ctx : Context) (groups : List String) (message : String)
  | abroadcast (ctx : Context) (groups : List String) (message : String)
  /-- A call comes to `send` of the broker. -/
  | send (k : Nat)
  | connect (k : Nat) (reply : Except String Unit)
  /-- `taken` says whether the broker has been given the payload. -/
  | publish (k : Nat) (reply : PublishReply) (taken : Bool)
  /-- Connections are lost, brokers go away and come back. -/
  | lose (b conn : Nat)
  | outage (b : Nat)
  | restore (b : Nat)
  /-- The call returns. -/
  | finish (k : Nat)
  /-- The future of an `abroadcast` is cancelled, and a worker drops what it has not done yet. -/
  | cancel (k : Nat)

/-- The broker of `b` goes on. -/
def publisherStep (s : Broadcasting) (b : Nat) (a : Publisher.Action) : Option Broadcasting :=
  (Publisher.step (s.broadcaster b).config.backend a (s.broadcaster b).publisher).map
    (s.setPublisher b)

/-- The call gives its handle up and ends. -/
def conclude (s : Broadcasting) (k : Nat) (p : Publication) (outcome : Outcome) : Broadcasting :=
  (s.dropHandle p.broadcaster).setCall k (.done p outcome)

/-- Of a call that has its answer. -/
def outcomeOf (s : Broadcasting) (p : Publication) (answer : Answer) : Outcome :=
  if s.dropPanics p.ctx p.broadcaster then .panicked else answer.outcome

/-- What a coroutine gets that waits for a future that is cancelled, also where a worker panics
as it drops what the future has held. -/
def cancelledError : PyErr := .other "CancelledError" ""

/-- What the broker is given. -/
def post (codec : Codec) (s : Broadcasting) (k : Nat) (p : Publication) : Post :=
  ⟨k, (s.broadcaster p.broadcaster).config, makePayload codec p.groups p.message⟩

/-- The broker takes it or not. -/
def give (s : Broadcasting) (taken : Bool) (post : Post) : Broadcasting :=
  { s with posted := if taken then s.posted ++ [post] else s.posted }

def step (codec : Codec) (castError : DictValue → PyErr) : Action → Broadcasting → Option Broadcasting
  | .setup ctx dict runtime, s => some (s.setupBroadcast castError ctx dict runtime).2
  | .reset ctx, s => some (s.resetBroadcast ctx).2
  | .broadcast ctx groups message, s => some (s.begin ctx groups message false)
  | .abroadcast ctx groups message, s => some (s.abegin ctx groups message)
  | .send k, s =>
    match s.call k with
    | .sending p => s.publisherStep p.broadcaster (.send k)
    | _ => none
  | .connect k reply, s =>
    match s.call k with
    | .sending p => s.publisherStep p.broadcaster (.connect k reply)
    | _ => none
  | .publish k reply taken, s =>
    -- the answer to a call that is cancelled comes to nobody
    match (s.call k).publication with
    | some p =>
      if (s.broadcaster p.broadcaster).config.backend.Honest taken reply then
        (s.publisherStep p.broadcaster (.publish k reply)).map fun t =>
          t.give taken (s.post codec k p)
      else none
    | none => none
  | .lose b conn, s => s.publisherStep b (.lose conn)
  | .outage b, s => s.publisherStep b .outage
  | .restore b, s => s.publisherStep b .restore
  | .finish k, s =>
    match s.call k with
    | .sending p =>
      match (s.broadcaster p.broadcaster).publisher.stage k with
      | .answered answer => some (s.conclude k p (s.outcomeOf p answer))
      | _ => none
    | _ => none
  | .cancel k, s =>
    match s.call k with
    | .sending p =>
      if p.future then
        (s.publisherStep p.broadcaster (.cancel k)).map fun t =>
          t.conclude k p (.raised cancelledError)
      else none
    | _ => none

variable {codec : Codec} {castError : DictValue → PyErr} {s t : Broadcasting}

@[simp] theorem setBroadcaster_self (s : Broadcasting) (b : Nat) (x : Broadcaster) :
    (s.setBroadcaster b x).broadcaster b = x := Server.set_self _ _ _

theorem setBroadcaster_of_ne (s : Broadcasting) {b c : Nat} (h : c ≠ b) (x : Broadcaster) :
    (s.setBroadcaster b x).broadcaster c = s.broadcaster c := Server.set_of_ne _ h _

@[simp] theorem setCall_self (s : Broadcasting) (k : Nat) (stage : Publication.Stage) :
    (s.setCall k stage).call k = stage := Server.set_self _ _ _

theorem setCall_of_ne (s : Broadcasting) {k j : Nat} (h : j ≠ k) (stage : Publication.Stage) :
    (s.setCall k stage).call j = s.call j := Server.set_of_ne _ h _

def publisher (s : Broadcasting) (b : Nat) : Publisher := (s.broadcaster b).publisher

def config (s : Broadcasting) (b : Nat) : BrokerConfig := (s.broadcaster b).config

/-! ### What a step does -/

/-- Steps of the broker of `b` in which it takes no payload. -/
inductive Drives (s : Broadcasting) : Action → Nat → Publisher.Action → Prop where
  | send {k : Nat} {p : Publication} (call : s.call k = .sending p) :
      Drives s (.send k) p.broadcaster (.send k)
  | connect {k : Nat} {p : Publication} (reply : Except String Unit) (call : s.call k = .sending p) :
      Drives s (.connect k reply) p.broadcaster (.connect k reply)
  | lose (b conn : Nat) : Drives s (.lose b conn) b (.lose conn)
  | outage (b : Nat) : Drives s (.outage b) b .outage
  | restore (b : Nat) : Drives s (.restore b) b .restore

inductive Effect (codec : Codec) (castError : DictValue → PyErr) (s : Broadcasting) :
    Action → Broadcasting → Prop where
  | failed {ctx : Context} {dict : PyDict} {runtime : Except String Unit}
      (h : s.poisoned = true ∨ ∃ e, Broadcaster.new castError dict runtime = .error e) :
      Effect codec castError s (.setup ctx dict runtime) s
  | installed {ctx : Context} {dict : PyDict} {runtime : Except String Unit} {x : Broadcaster}
      (lock : s.poisoned = false) (new : Broadcaster.new castError dict runtime = .ok x) :
      Effect codec castError s (.setup ctx dict runtime) ((s.add x).replace ctx (some s.made)).2
  | stuck {ctx : Context} (lock : s.poisoned = true) : Effect codec castError s (.reset ctx) s
  | reset {ctx : Context} (lock : s.poisoned = false) :
      Effect codec castError s (.reset ctx) (s.replace ctx none).2
  | refused {ctx : Context} {groups : List String} {message : String} {e : PyErr}
      (why : s.getBroadcaster = .error e) :
      Effect codec castError s (.broadcast ctx groups message) (s.refuse e)
  | arefused {ctx : Context} {groups : List String} {message : String} {e : PyErr}
      (why : s.getBroadcaster = .error e ∨
        (∃ b, s.getBroadcaster = .ok b) ∧ e = .runtimeError "no running event loop") :
      Effect codec castError s (.abroadcast ctx groups message) (s.refuse e)
  | begun {ctx : Context} {groups : List String} {message : String} {b : Nat}
      (has : s.getBroadcaster = .ok b) :
      Effect codec castError s (.broadcast ctx groups message)
        (s.lend ⟨b, ctx, groups, message, false⟩)
  | abegun {ctx : Context} {groups : List String} {message : String} {b : Nat}
      (has : s.getBroadcaster = .ok b) :
      Effect codec castError s (.abroadcast ctx groups message)
        (s.lend ⟨b, .worker, groups, message, true⟩)
  | moved {a : Action} {b : Nat} {e : Publisher.Action} {q : Publisher} (drives : Drives s a b e)
      (step : Publisher.step (s.broadcaster b).config.backend e (s.broadcaster b).publisher = some q) :
      Effect codec castError s a (s.setPublisher b q)
  | published {k : Nat} {reply : PublishReply} {taken : Bool} {p : Publication} {q : Publisher}
      (call : (s.call k).publication = some p)
      (honest : (s.broadcaster p.broadcaster).config.backend.Honest taken reply)
      (step : Publisher.step (s.broadcaster p.broadcaster).config.backend (.publish k reply)
        (s.broadcaster p.broadcaster).publisher = some q) :
      Effect codec castError s (.publish k reply taken)
        ((s.setPublisher p.broadcaster q).give taken (s.post codec k p))
  | finished {k : Nat} {p : Publication} {answer : Answer} (call : s.call k = .sending p)
      (answered : (s.broadcaster p.broadcaster).publisher.stage k = .answered answer) :
      Effect codec castError s (.finish k) (s.conclude k p (s.outcomeOf p answer))
  | cancelled {k : Nat} {p : Publication} {q : Publisher} (call : s.call k = .sending p)
      (future : p.future = true)
      (step : Publisher.step (s.broadcaster p.broadcaster).config.backend (.cancel k)
        (s.broadcaster p.broadcaster).publisher = some q) :
      Effect codec castError s (.cancel k)
        ((s.setPublisher p.broadcaster q).conclude k p (.raised cancelledError))

theorem begin_effect (s : Broadcasting) (ctx : Context) (groups : List String) (message : String)
    (future : Bool) :
    (∃ e, s.getBroadcaster = .error e ∧ s.begin ctx groups message future = s.refuse e) ∨
      ∃ b, s.getBroadcaster = .ok b ∧
        s.begin ctx groups message future = s.lend ⟨b, ctx, groups, message, future⟩ := by
  unfold begin
  cases h : s.getBroadcaster with
  | error e => exact .inl ⟨e, rfl, rfl⟩
  | ok b => exact .inr ⟨b, rfl, rfl⟩

theorem Effect.of_publisherStep {a : Action} {b : Nat} {e : Publisher.Action}
    (hdrives : Drives s a b e) (h : s.publisherStep b e = some t) : Effect codec castError s a t := by
  obtain ⟨p, hp, rfl⟩ := Option.map_eq_some_iff.mp h
  exact .moved hdrives hp

theorem step_effect {a : Action} (h : step codec castError a s = some t) :
    Effect codec castError s a t := by
  cases a with
  | setup ctx dict runtime =>
    obtain rfl := Option.some.inj h
    unfold setupBroadcast
    cases hnew : Broadcaster.new castError dict runtime with
    | error e => exact .failed (.inr ⟨e, hnew⟩)
    | ok x =>
      cases hlock : s.poisoned with
      | true => exact .failed (.inl hlock)
      | false => exact .installed hlock hnew
  | reset ctx =>
    obtain rfl := Option.some.inj h
    unfold resetBroadcast
    cases hlock : s.poisoned with
    | true => exact .stuck hlock
    | false => exact .reset hlock
  | broadcast ctx groups message =>
    obtain rfl := Option.some.inj h
    rcases begin_effect s ctx groups message false with ⟨e, he, heq⟩ | ⟨b, hb, heq⟩ <;> rw [heq]
    · exact .refused he
    · exact .begun hb
  | abroadcast ctx groups message =>
    obtain rfl := Option.some.inj h
    unfold abegin
    cases hget : s.getBroadcaster with
    | error e => exact .arefused (.inl hget)
    | ok b =>
      cases hloop : ctx.hasLoop with
      | false => exact .arefused (.inr ⟨⟨b, hget⟩, rfl⟩)
      | true =>
        rcases begin_effect s .worker groups message true with ⟨e, he, _⟩ | ⟨c, hc, heq⟩
        · rw [hget] at he
          cases he
        · show Effect codec castError s _ (s.begin .worker groups message true)
          rw [heq]
          exact .abegun hc
  | send k =>
    simp only [step] at h
    split at h
    · next p hcall => exact .of_publisherStep (.send hcall) h
    · cases h
  | connect k reply =>
    simp only [step] at h
    split at h
    · next p hcall => exact .of_publisherStep (.connect reply hcall) h
    · cases h
  | publish k reply taken =>
    simp only [step] at h
    split at h
    · next p hcall =>
      split at h
      · next honest =>
        simp only [publisherStep, Option.map_map, Option.map_eq_some_iff] at h
        obtain ⟨q, hq, rfl⟩ := h
        exact .published hcall honest hq
      · cases h
    · cases h
  | lose b conn => exact .of_publisherStep (.lose b conn) h
  | outage b => exact .of_publisherStep (.outage b) h
  | restore b => exact .of_publisherStep (.restore b) h
  | finish k =>
    simp only [step] at h
    split at h
    · next p hcall =>
      split at h
      · next answer hanswer =>
        obtain rfl := Option.some.inj h
        exact .finished hcall hanswer
      · cases h
    · cases h
  | cancel k =>
    simp only [step] at h
    split at h
    · next p hcall =>
      split at h
      · next hfuture =>
        simp only [publisherStep, Option.map_map, Option.map_eq_some_iff] at h
        obtain ⟨q, hq, rfl⟩ := h
        exact .cancelled hcall hfuture hq
      · cases h
    · cases h

/-! ### Handles -/

theorem new_fresh {dict : PyDict} {runtime : Except String Unit} {x : Broadcaster}
    (h : Broadcaster.new castError dict runtime = .ok x) :
    BrokerConfig.fromPy castError dict = .ok x.config ∧ runtime = .ok () ∧
      x.publisher = .init ∧ x.strong = 1 := by
  cases hconfig : BrokerConfig.fromPy castError dict with
  | error e => simp [Broadcaster.new, hconfig, bind, Except.bind] at h
  | ok config =>
    cases runtime with
    | error e => simp [Broadcaster.new, hconfig, bind, Except.bind] at h
    | ok u =>
      simp only [Broadcaster.new, hconfig, bind, Except.bind, pure, Except.pure, Except.ok.injEq] at h
      subst h
      exact ⟨rfl, rfl, rfl, rfl⟩

/-- The calls that are under way with `b`. -/
def Users (s : Broadcasting) (b : Nat) (calls : Finset Nat) : Prop :=
  ∀ k, k ∈ calls ↔ (s.call k).Holds b

/-- The slot's handle. -/
def kept (s : Broadcasting) (b : Nat) : Nat := if s.slot = some b then 1 else 0

/-- Every handle is that of the slot or of a call. -/
structure Counted (s : Broadcasting) : Prop where
  slot : ∀ b, s.slot = some b → b < s.made
  lent : ∀ k p, s.call k = .sending p → p.broadcaster < s.made
  called : ∀ k, s.called ≤ k → s.call k = .uncalled
  strong : ∀ b, ∃ calls, s.Users b calls ∧ (s.broadcaster b).strong = calls.card + s.kept b

theorem init_counted : Counted init where
  slot := fun _ h => nomatch h
  lent := fun _ _ h => nomatch h
  called := fun _ _ => rfl
  strong := fun _ => ⟨∅, fun _ => ⟨fun h => (nomatch h), fun h => h.elim⟩, rfl⟩

theorem getBroadcaster_ok {b : Nat} (h : s.getBroadcaster = .ok b) :
    s.poisoned = false ∧ s.slot = some b := by
  unfold getBroadcaster at h
  cases hlock : s.poisoned with
  | true => simp [hlock] at h
  | false =>
    cases hslot : s.slot with
    | none => simp [hlock, hslot] at h
    | some c =>
      simp only [hlock, hslot, Bool.false_eq_true, if_false, Except.ok.injEq] at h
      exact ⟨rfl, congrArg some h⟩

/-- Where a call has another stage, the users are the others and, if it holds `b` now, it. -/
theorem Users.setCall {b k : Nat} {calls : Finset Nat} {stage : Publication.Stage}
    (h : s.Users b calls) (j : Nat) :
    (Server.set s.call k stage j).Holds b ↔ (j = k ∧ stage.Holds b) ∨ (j ≠ k ∧ j ∈ calls) := by
  by_cases hj : j = k
  · subst hj
    rw [Server.set_self]
    simp
  · rw [Server.set_of_ne _ hj, ← h j]
    simp [hj]

theorem Counted.refuse (hs : Counted s) (e : PyErr) : Counted (s.refuse e) := by
  refine ⟨hs.slot, fun k p hk => ?_, fun k hk => ?_, fun b => ?_⟩
  · by_cases hne : k = s.called
    · subst hne
      cases (setCall_self s s.called _).symm.trans hk
    · exact hs.lent k p ((setCall_of_ne s hne _).symm.trans hk)
  · have hlt : s.called < k := hk
    exact (setCall_of_ne s (Nat.ne_of_gt hlt) _).trans (hs.called k (Nat.le_of_lt hlt))
  · obtain ⟨calls, husers, hstrong⟩ := hs.strong b
    refine ⟨calls, fun j => ?_, hstrong⟩
    have hnew : s.called ∉ calls := by
      rw [husers, hs.called _ (Nat.le_refl _)]
      exact id
    refine Iff.trans ?_ (husers.setCall j).symm
    constructor
    · intro hj
      exact .inr ⟨fun h => hnew (h ▸ hj), hj⟩
    · rintro (⟨_, h⟩ | ⟨_, h⟩)
      · exact h.elim
      · exact h

theorem strong_setStrong (s : Broadcasting) (b c n : Nat) :
    ((s.setStrong b n).broadcaster c).strong = if c = b then n else (s.broadcaster c).strong := by
  by_cases h : c = b
  · subst h
    simp [setStrong]
  · rw [setStrong, setBroadcaster_of_ne _ h, if_neg h]

theorem Counted.lend {p : Publication} (hs : Counted s) (hslot : s.slot = some p.broadcaster) :
    Counted (s.lend p) := by
  have hcall (k : Nat) : (s.lend p).call k = Server.set s.call s.called (.sending p) k := rfl
  refine ⟨hs.slot, fun k q hk => ?_, fun k hk => ?_, fun b => ?_⟩
  · rw [hcall] at hk
    by_cases hne : k = s.called
    · subst hne
      rw [Server.set_self] at hk
      cases hk
      exact hs.slot _ hslot
    · rw [Server.set_of_ne _ hne] at hk
      exact hs.lent k q hk
  · have hlt : s.called < k := hk
    rw [hcall, Server.set_of_ne _ (Nat.ne_of_gt hlt)]
    exact hs.called k (Nat.le_of_lt hlt)
  · obtain ⟨calls, husers, hstrong⟩ := hs.strong b
    have hnew : s.called ∉ calls := by
      rw [husers, hs.called _ (Nat.le_refl _)]
      exact id
    have hcount : ((s.lend p).broadcaster b).strong =
        if b = p.broadcaster then (s.broadcaster p.broadcaster).strong + 1
        else (s.broadcaster b).strong := strong_setStrong s p.broadcaster b _
    by_cases hb : b = p.broadcaster
    · subst hb
      refine ⟨insert s.called calls, fun j => ?_, ?_⟩
      · rw [hcall, husers.setCall j, Finset.mem_insert]
        constructor
        · rintro (rfl | hj)
          · exact .inl ⟨rfl, rfl⟩
          · exact .inr ⟨fun h => hnew (h ▸ hj), hj⟩
        · rintro (⟨rfl, _⟩ | ⟨_, hj⟩)
          · exact .inl rfl
          · exact .inr hj
      · rw [hcount, if_pos rfl, hstrong, Finset.card_insert_of_notMem hnew]
        show _ = calls.card + 1 + s.kept p.broadcaster
        omega
    · refine ⟨calls, fun j => ?_, ?_⟩
      · rw [hcall, husers.setCall j]
        constructor
        · intro hj
          exact .inr ⟨fun h => hnew (h ▸ hj), hj⟩
        · rintro (⟨_, h⟩ | ⟨_, hj⟩)
          · exact absurd h.symm hb
          · exact hj
      · rw [hcount, if_neg hb]
        exact hstrong

theorem Counted.conclude {k : Nat} {p : Publication} (hs : Counted s) (hk : s.call k = .sending p)
    (outcome : Outcome) : Counted (s.conclude k p outcome) := by
  have hcall (j : Nat) :
      (s.conclude k p outcome).call j = Server.set s.call k (.done p outcome) j := rfl
  refine ⟨hs.slot, fun j q hj => ?_, fun j hj => ?_, fun b => ?_⟩
  · rw [hcall] at hj
    by_cases hne : j = k
    · subst hne
      rw [Server.set_self] at hj
      cases hj
    · rw [Server.set_of_ne _ hne] at hj
      exact hs.lent j q hj
  · have hne : j ≠ k := by
      rintro rfl
      rw [hs.called j hj] at hk
      cases hk
    rw [hcall, Server.set_of_ne _ hne]
    exact hs.called j hj
  · obtain ⟨calls, husers, hstrong⟩ := hs.strong b
    have hcount : ((s.conclude k p outcome).broadcaster b).strong =
        if b = p.broadcaster then (s.broadcaster p.broadcaster).strong - 1
        else (s.broadcaster b).strong := strong_setStrong s p.broadcaster b _
    refine ⟨calls.erase k, fun j => ?_, ?_⟩
    · rw [hcall, husers.setCall j, Finset.mem_erase]
      constructor
      · exact .inr
      · rintro (⟨_, h⟩ | hj)
        · exact h.elim
        · exact hj
    · rw [hcount]
      by_cases hb : b = p.broadcaster
      · subst hb
        have hmem : k ∈ calls := by
          rw [husers, hk]
          rfl
        have hpos := Finset.card_pos.mpr ⟨k, hmem⟩
        rw [if_pos rfl, hstrong, Finset.card_erase_of_mem hmem]
        show _ = calls.card - 1 + s.kept p.broadcaster
        omega
      · have hmem : k ∉ calls := by
          rw [husers, hk]
          exact fun h => hb h.symm
        rw [if_neg hb, Finset.erase_eq_of_notMem hmem]
        exact hstrong

/-- What was in the slot has lost a handle. -/
theorem strong_replace (s : Broadcasting) (ctx : Context) (slot : Option Nat) (b : Nat) :
    ((s.replace ctx slot).2.broadcaster b).strong = (s.broadcaster b).strong - s.kept b := by
  unfold replace kept
  cases hslot : s.slot with
  | none => rfl
  | some old =>
    show ((s.dropHandle old).broadcaster b).strong = _
    rw [dropHandle, strong_setStrong]
    by_cases hb : b = old
    · subst hb
      simp
    · have hne : old ≠ b := fun h => hb h.symm
      simp [hb, hne]

theorem replace_kept (s : Broadcasting) (ctx : Context) (slot : Option Nat) :
    (s.replace ctx slot).2.slot = slot ∧ (s.replace ctx slot).2.call = s.call ∧
      (s.replace ctx slot).2.called = s.called ∧ (s.replace ctx slot).2.made = s.made ∧
      (s.replace ctx slot).2.posted = s.posted := by
  unfold replace
  cases s.slot <;> exact ⟨rfl, rfl, rfl, rfl, rfl⟩

theorem Counted.reset (hs : Counted s) (ctx : Context) : Counted (s.replace ctx none).2 := by
  obtain ⟨hslot, hcall, hcalled, hmade, _⟩ := replace_kept s ctx none
  refine ⟨fun b hb => ?_, fun k p hk => ?_, fun k hk => ?_, fun b => ?_⟩
  · rw [hslot] at hb
    cases hb
  · rw [hmade]
    exact hs.lent k p (hcall ▸ hk)
  · rw [hcall]
    exact hs.called k (hcalled ▸ hk)
  · obtain ⟨calls, husers, hstrong⟩ := hs.strong b
    refine ⟨calls, fun k => hcall ▸ husers k, ?_⟩
    rw [strong_replace, hstrong, Nat.add_sub_cancel, kept, hslot]
    rfl

theorem Counted.install {x : Broadcaster} (hs : Counted s) (hx : x.strong = 1) (ctx : Context) :
    Counted ((s.add x).replace ctx (some s.made)).2 := by
  obtain ⟨hslot, hcall, hcalled, hmade, _⟩ := replace_kept (s.add x) ctx (some s.made)
  refine ⟨fun b hb => ?_, fun k p hk => ?_, fun k hk => ?_, fun b => ?_⟩
  · rw [hslot] at hb
    rw [hmade, ← Option.some.inj hb]
    exact Nat.lt_succ_self _
  · rw [hmade]
    exact Nat.lt_succ_of_lt (hs.lent k p (hcall ▸ hk))
  · rw [hcall]
    exact hs.called k (hcalled ▸ hk)
  · obtain ⟨calls, husers, hstrong⟩ := hs.strong b
    refine ⟨calls, fun k => hcall ▸ husers k, ?_⟩
    have hkept : ((s.add x).replace ctx (some s.made)).2.kept b =
        if some s.made = some b then 1 else 0 := by rw [kept, hslot]
    have hbefore : (s.add x).kept b = s.kept b := rfl
    rw [strong_replace, hbefore, hkept]
    by_cases hb : b = s.made
    · -- nobody has had it before
      subst hb
      have hnone : calls = ∅ := by
        refine Finset.eq_empty_of_forall_notMem fun k hk => ?_
        have hholds := (husers k).mp hk
        cases hcallk : s.call k with
        | sending p =>
          rw [hcallk] at hholds
          exact absurd hholds (Nat.ne_of_lt (hs.lent k p hcallk))
        | uncalled | refused e | done p o =>
          rw [hcallk] at hholds
          exact hholds
      have hfree : s.kept s.made = 0 := if_neg fun h => Nat.lt_irrefl _ (hs.slot _ h)
      have hnew : ((s.add x).broadcaster s.made).strong = 1 := by
        rw [add, setBroadcaster_self, hx]
      rw [hnew, hfree, hnone, if_pos rfl, Finset.card_empty]
    · have hne : ¬ (some s.made = some b) := fun h => hb (Option.some.inj h).symm
      have hold : ((s.add x).broadcaster b).strong = (s.broadcaster b).strong := by
        rw [add, setBroadcaster_of_ne _ hb]
      rw [hold, hstrong, if_neg hne, Nat.add_sub_cancel, Nat.add_zero]

/-- The broker of a broadcaster has nothing to do with the handles. -/
theorem Counted.setPublisher (hs : Counted s) (b : Nat) (q : Publisher) :
    Counted (s.setPublisher b q) := by
  refine ⟨hs.slot, hs.lent, hs.called, fun c => ?_⟩
  obtain ⟨calls, husers, hstrong⟩ := hs.strong c
  refine ⟨calls, husers, ?_⟩
  have hsame : ((s.setPublisher b q).broadcaster c).strong = (s.broadcaster c).strong := by
    by_cases hc : c = b
    · subst hc
      rw [Broadcasting.setPublisher, setBroadcaster_self]
    · rw [Broadcasting.setPublisher, setBroadcaster_of_ne _ hc]
  rw [hsame]
  exact hstrong

theorem step_counted (a : Action) (s t : Broadcasting) (hs : Counted s)
    (h : step codec castError a s = some t) : Counted t := by
  cases step_effect h with
  | failed _ => exact hs
  | stuck _ => exact hs
  | installed _ new => exact hs.install (new_fresh new).2.2.2 _
  | reset _ => exact hs.reset _
  | refused _ => exact hs.refuse _
  | arefused _ => exact hs.refuse _
  | begun has => exact hs.lend (getBroadcaster_ok has).2
  | abegun has => exact hs.lend (getBroadcaster_ok has).2
  | moved _ _ => exact hs.setPublisher _ _
  | @published _ _ _ p q call _ _ =>
    have hmoved := hs.setPublisher p.broadcaster q
    exact ⟨hmoved.slot, hmoved.lent, hmoved.called, hmoved.strong⟩
  | finished call _ => exact hs.conclude call _
  | cancelled call _ _ => exact (hs.setPublisher _ _).conclude call _

/-! ### What stays -/

theorem setStrong_same (s : Broadcasting) (b n c : Nat) :
    (s.setStrong b n).publisher c = s.publisher c ∧ (s.setStrong b n).config c = s.config c := by
  unfold publisher config setStrong
  by_cases hc : c = b
  · subst hc
    rw [setBroadcaster_self]
    exact ⟨rfl, rfl⟩
  · rw [setBroadcaster_of_ne _ hc]
    exact ⟨rfl, rfl⟩

theorem replace_same (s : Broadcasting) (ctx : Context) (slot : Option Nat) (b : Nat) :
    (s.replace ctx slot).2.publisher b = s.publisher b ∧
      (s.replace ctx slot).2.config b = s.config b := by
  unfold replace
  cases s.slot with
  | none => exact ⟨rfl, rfl⟩
  | some old => exact setStrong_same s old _ b

theorem setPublisher_self (s : Broadcasting) (b : Nat) (q : Publisher) :
    (s.setPublisher b q).publisher b = q := by
  rw [publisher, setPublisher, setBroadcaster_self]

theorem setPublisher_of_ne (s : Broadcasting) {b c : Nat} (h : c ≠ b) (q : Publisher) :
    (s.setPublisher b q).publisher c = s.publisher c := by
  rw [publisher, setPublisher, setBroadcaster_of_ne _ h, publisher]

theorem setPublisher_config (s : Broadcasting) (b : Nat) (q : Publisher) (c : Nat) :
    (s.setPublisher b q).config c = s.config c := by
  unfold config setPublisher
  by_cases hc : c = b
  · subst hc
    rw [setBroadcaster_self]
  · rw [setBroadcaster_of_ne _ hc]

theorem config_kept {a : Action} (h : step codec castError a s = some t) {b : Nat}
    (hb : b < s.made) : t.config b = s.config b := by
  cases step_effect h with
  | failed _ | stuck _ | refused _ | arefused _ => rfl
  | @installed ctx dict runtime x lock new =>
    rw [(replace_same (s.add x) ctx (some s.made) b).2, config, add,
      setBroadcaster_of_ne s (Nat.ne_of_lt hb), config]
  | @reset ctx lock => exact (replace_same s ctx none b).2
  | begun has | abegun has => exact (setStrong_same s _ _ b).2
  | moved _ _ => exact setPublisher_config s _ _ b
  | @published k reply taken p q call honest step => exact setPublisher_config s p.broadcaster q b
  | @finished k p answer call answered => exact (setStrong_same s p.broadcaster _ b).2
  | @cancelled k p q call future step =>
    exact (setStrong_same (s.setPublisher p.broadcaster q) p.broadcaster _ b).2.trans
      (setPublisher_config s p.broadcaster q b)

/-- A step leaves the slot, or empties it, or sets it up. -/
theorem slot_step {a : Action} (h : step codec castError a s = some t) {b : Nat}
    (hb : t.slot = some b) : s.slot = some b ∨ ∃ ctx dict runtime, a = .setup ctx dict runtime ∧
      BrokerConfig.fromPy castError dict = .ok (t.config b) ∧ b = s.made := by
  cases step_effect h with
  | @installed ctx dict runtime x lock new =>
    obtain ⟨hslot, _⟩ := replace_kept (s.add x) ctx (some s.made)
    obtain rfl := Option.some.inj (hslot.symm.trans hb)
    refine .inr ⟨ctx, dict, runtime, rfl, ?_, rfl⟩
    rw [(replace_same (s.add x) ctx (some s.made) s.made).2, config, add, setBroadcaster_self]
    exact (new_fresh new).1
  | @reset ctx lock =>
    rw [(replace_kept s ctx none).1] at hb
    cases hb
  | _ => exact .inl hb

/-- What a step makes of a call. -/
inductive Moves (a : Action) (s t : Broadcasting) (k : Nat) : Prop where
  | stays (h : t.call k = s.call k)
  | refused (e : PyErr) (h : t.call k = .refused e)
  /-- It gets what is in the slot. -/
  | begins (p : Publication) (h : t.call k = .sending p) (hk : k = s.called)
      (hget : s.getBroadcaster = .ok p.broadcaster)
      (ha : a = .broadcast p.ctx p.groups p.message ∨
        p.ctx = .worker ∧ ∃ ctx, a = .abroadcast ctx p.groups p.message)
  | ends (p : Publication) (outcome : Outcome) (hold : s.call k = .sending p)
      (h : t.call k = .done p outcome)

theorem Moves.of_set {a : Action} {j k : Nat} {stage : Publication.Stage}
    (hcall : t.call = Server.set s.call j stage) (hat : t.call j = stage → Moves a s t j) :
    Moves a s t k := by
  by_cases hj : k = j
  · subst hj
    exact hat (by rw [hcall, Server.set_self])
  · exact .stays (by rw [hcall, Server.set_of_ne _ hj])

theorem step_moves {a : Action} (h : step codec castError a s = some t) (k : Nat) :
    Moves a s t k := by
  cases step_effect h with
  | failed _ | stuck _ | moved _ _ | published _ _ _ => exact .stays rfl
  | @installed ctx dict runtime x lock new =>
    exact .stays (by rw [(replace_kept (s.add x) ctx (some s.made)).2.1]; rfl)
  | @reset ctx lock => exact .stays (by rw [(replace_kept s ctx none).2.1])
  | refused _ | arefused _ => exact .of_set rfl fun hk => .refused _ hk
  | begun has => exact .of_set rfl fun hk => .begins _ hk rfl has (.inl rfl)
  | abegun has => exact .of_set rfl fun hk => .begins _ hk rfl has (.inr ⟨rfl, _, rfl⟩)
  | finished call _ => exact .of_set rfl fun hk => .ends _ _ call hk
  | cancelled call _ _ => exact .of_set rfl fun hk => .ends _ _ call hk

theorem made_le {a : Action} (h : step codec castError a s = some t) : s.made ≤ t.made := by
  cases step_effect h with
  | @installed ctx dict runtime x lock new =>
    rw [(replace_kept (s.add x) ctx (some s.made)).2.2.2.1]
    exact Nat.le_succ _
  | @reset ctx lock => exact Nat.le_of_eq (replace_kept s ctx none).2.2.2.1.symm
  | _ => exact Nat.le_refl _

/-! ### How long a broadcaster lives -/

theorem Counted.unused_iff (hs : Counted s) (b : Nat) :
    (s.broadcaster b).strong = 0 ↔ s.slot ≠ some b ∧ ∀ k, ¬ (s.call k).Holds b := by
  obtain ⟨calls, husers, hstrong⟩ := hs.strong b
  have hcalls : calls.card = 0 ↔ ∀ k, ¬ (s.call k).Holds b := by
    rw [Finset.card_eq_zero, Finset.eq_empty_iff_forall_notMem]
    exact forall_congr' fun k => not_congr (husers k)
  rw [hstrong, ← hcalls, kept]
  by_cases hslot : s.slot = some b
  · simp [hslot]
  · simp [hslot]

/-- Nobody has it, and nobody can get it. -/
structure Gone (b : Nat) (s : Broadcasting) : Prop where
  counted : Counted s
  made : b < s.made
  unused : s.slot ≠ some b ∧ ∀ k, ¬ (s.call k).Holds b

theorem step_gone {b : Nat} (a : Action) (s t : Broadcasting) (hs : Gone b s)
    (h : step codec castError a s = some t) : Gone b t := by
  obtain ⟨hcounted, hmade, hslot, hcalls⟩ := hs
  refine ⟨step_counted a s t hcounted h, Nat.lt_of_lt_of_le hmade (made_le h), fun hb => ?_,
    fun k hk => ?_⟩
  · rcases slot_step h hb with hold | ⟨_, _, _, _, _, hnew⟩
    · exact hslot hold
    · exact absurd hmade (hnew ▸ Nat.lt_irrefl _)
  · cases step_moves h k with
    | stays hcall => exact hcalls k (hcall ▸ hk)
    | refused e hcall =>
      rw [hcall] at hk
      exact hk
    | begins p hcall _ hget _ =>
      rw [hcall] at hk
      exact hslot (hk ▸ (getBroadcaster_ok hget).2)
    | ends p outcome _ hcall =>
      rw [hcall] at hk
      exact hk

/-- **A broadcaster lives as long as somebody has it.** Its runtime is dropped when it is in
the slot no more and no call is under way with it, not before, and it does not come back. -/
theorem lives_while_held (codec : Codec) (castError : DictValue → PyErr) (actions : List Action)
    (s : Broadcasting) (h : run (step codec castError) init actions = some s) (b : Nat) :
    ((s.broadcaster b).strong = 0 ↔ s.slot ≠ some b ∧ ∀ k, ¬ (s.call k).Holds b) ∧
    ((s.broadcaster b).strong = 0 → b < s.made → ∀ after t,
      run (step codec castError) s after = some t → (t.broadcaster b).strong = 0) := by
  have hcounted := run_invariant step_counted actions h init_counted
  refine ⟨hcounted.unused_iff b, fun hzero hmade after t ht => ?_⟩
  have hgone := run_invariant step_gone after ht
    ⟨hcounted, hmade, (hcounted.unused_iff b).mp hzero⟩
  exact (hgone.counted.unused_iff b).mpr hgone.unused

/-- The dictionary of the documentation for Redis, with its defaults. -/
def redisExample : PyDict
  | "type" => some (.str "redis")
  | _ => none

/-- A message is broadcast, and `meanwhile` something happens. -/
def broadcasting (call : Action) (meanwhile : List Action) : List Action :=
  .setup .thread redisExample (.ok ()) :: call :: .send 0 :: .connect 0 (.ok ()) :: meanwhile ++
    [.publish 0 .confirmed true, .finish 0]

theorem lives_while_held_reset :
    ∃ s t, run (step .shortest fun _ => .typeError "not a str") init
        (broadcasting (.broadcast .thread ["room"] "hi") [.reset .thread]) = some s ∧
      run (step .shortest fun _ => .typeError "not a str") s
        [.setup .thread redisExample (.ok ())] = some t ∧
      t.slot = some 1 ∧ (t.broadcaster 0).strong = 0 := by
  refine ⟨_, _, rfl, rfl, rfl, ?_⟩
  exact (lives_while_held .shortest (fun _ => .typeError "not a str")
    (broadcasting (.broadcast .thread ["room"] "hi") [.reset .thread]) _ rfl 0).2 rfl
    (by decide) [.setup .thread redisExample (.ok ())] _ rfl

end Broadcasting
end Webrockets
