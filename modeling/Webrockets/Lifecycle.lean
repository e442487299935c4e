import Webrockets.Handshake
import Webrockets.Registry
import Webrockets.Session

/-! A request from its arrival to the end of its connection (`server.rs`).

The handshake is answered with a response, and on success `handle_client` is spawned.
It waits for the upgrade future, registers the connection in the channel store and
joins its default group, calls `connect_after` and serves. Later it removes the
connection from the store. Other threads use the store all the time, and the coroutine
of a callback runs on the event loop at its own pace.

The machine puts `Handshake`, `Registry` and `Session` together, and keeps a record of
the callbacks that are called for the request. `CallbackTrace`, `Rejection` and
`Departure` have the theorems about its runs. -/
namespace Webrockets
open Transition

/-! ### The record -/

/-- What the record of a request holds: `receive` has the number of the frame. A callback is
recorded when its function is called; the body of a coroutine runs later. -/
inductive Entry where
  | authenticated
  | before
  /-- `connect("before")` has finished without an error. -/
  | beforeDone
  | after (call : Invocation)
  | receive (n : Nat) (call : Invocation)
  | disconnect (call : Invocation)
  deriving DecidableEq, Repr

/-- The call of a callback of the connection. -/
def Entry.call : Entry → Option Invocation
  | .after call => some call
  | .receive _ call => some call
  | .disconnect call => some call
  | _ => none

/-- What the `n`th frame makes the listener call. -/
def turnEntries (n : Nat) (calls : List Invocation) : List Entry :=
  calls.map fun call => if call.isDisconnect then .disconnect call else .receive n call

/-- What a step of the handshake adds. -/
def handshakeEntries (a : Handshake.Action) (s t : Handshake) : List Entry :=
  match a, s.stage, t.stage with
  | .authenticate, _, .authenticated _ => [.authenticated]
  | .invoke raised, .authenticated view, _ =>
    match view.connectBeforeCallback with
    | none => []
    | some cb => if raised || cb.isAsync then [.before] else [.before, .beforeDone]
  | .finish .returned, _, _ => [.beforeDone]
  | _, _, _ => []

/-! ### The machine -/

/-- A request, with what is there for it once it is accepted. -/
structure Arrival extends Upgrade where
  defaultGroup : Option String
  py : Python
  serde : Serde

/-- How far `handle_client` has come. -/
inductive Client where
  | unspawned
  /-- It waits for the upgrade future. -/
  | waiting
  | failed
  | upgraded
  /-- Registered, with a default group still to join or none. -/
  | registered (id : ConnectionID) (group : Option String)
  | serving (id : ConnectionID) (svc : Service) (session : Session)

def Client.id : Client → Option ConnectionID
  | .registered id _ => some id
  | .serving id _ _ => some id
  | _ => none

/-- The body of the disconnect callback. A function runs on the listener's task, a
coroutine is scheduled and runs on the event loop. -/
inductive Body where
  | none
  | onTask
  | scheduled
  | onLoop
  | ended
  deriving DecidableEq, Repr

def Body.running : Body → Bool
  | .onTask | .onLoop => true
  | _ => false

/-- `groups` are those the disconnect callback should see, `frames` what the listener read. -/
structure Lifecycle where
  registry : Registry.State
  handshake : Handshake
  client : Client
  frames : List (Option Frame)
  body : Body
  groups : List String
  trace : List Entry

/-- The connection that an action of the store removes. -/
def Registry.Action.removes : Registry.Action → Option ConnectionID
  | .removeSender id => some id
  | .beginSweep id => some id
  | .sweep id _ => some id
  | .removed id => some id
  | _ => none

namespace Lifecycle

inductive Action where
  /-- Another thread at the channel store, or user code that holds the connection. -/
  | store (a : Registry.Action)
  | handshake (a : Handshake.Action)
  /-- The upgrade future is done, well or not. -/
  | upgraded (ok : Bool)
  | register
  | joinDefault
  /-- `connect_after` is called and the listeners are spawned, with the route as it is by then. -/
  | serve (view : WebsocketRoute)
  | session (a : Session.Action)
  | bodyBegins
  | bodyJoins (group : String)
  | bodyLeaves (group : String)
  | bodyEnds
  /-- `handle_client` removes the connection, in the steps of `remove`. -/
  | remove (a : Registry.Action)

def start (r : Arrival) (registry : Registry.State) : Lifecycle where
  registry := registry
  handshake := .start r.toUpgrade
  client := .unspawned
  frames := []
  body := .none
  groups := []
  trace := []

/-- `handle_client` is not back from its `select!` before the listener's task has ended, so
not while the callback runs on it; and its last step is part of `remove`. -/
def allowed (body : Body) : Session.Action → Bool
  | .select .receive => body ≠ .onTask
  | .remove => false
  | _ => true

/-- The disconnect callback, where the listener calls it. -/
def calledBack (svc : Service) : Session.Action → Option Callback
  | .turn (some frame) => if frame.opcode = .close then svc.disconnectCallback else none
  | _ => none

/-- The step of the session, with what it has called in the record. A Close frame starts the
body of the disconnect callback, and the groups are those of that moment. -/
def sessionStep (svc : Service) (id : ConnectionID) (a : Session.Action) (session : Session)
    (s : Lifecycle) : Lifecycle :=
  let s := { s with client := .serving id svc session }
  let s := match calledBack svc a with
    | some cb => { s with
        body := if cb.isAsync then .scheduled else .onTask
        groups := s.registry.store.getGroups id }
    | none => s
  match a with
  | .turn frame => { s with
      frames := s.frames ++ [frame]
      trace := s.trace ++ turnEntries s.frames.length (Webrockets.turn svc.py svc.serde
        svc.receiveCallback svc.disconnectCallback frame).1 }
  | _ => s

def afterEntries (svc : Service) : List Entry :=
  match svc.connectAfterCallback with
  | some cb => [.after ⟨cb, .connect⟩]
  | none => []

def step (r : Arrival) (a : Action) (s : Lifecycle) : Option Lifecycle :=
  match a with
  | .store ra =>
    -- no one else removes the connection
    if s.client.id.isSome ∧ ra.removes = s.client.id then none
    else (Registry.step ra s.registry).map fun registry => { s with registry := registry }
  | .handshake ha => (Handshake.step r.toUpgrade ha s.handshake).map fun handshake => { s with
      handshake := handshake
      client := if ha = .upgrade true then .waiting else s.client
      trace := s.trace ++ handshakeEntries ha s.handshake handshake }
  | .upgraded ok =>
    match s.client with
    | .waiting => some { s with client := if ok then .upgraded else .failed }
    | _ => none
  | .register =>
    match s.client with
    | .upgraded => (Registry.step .register s.registry).map fun registry => { s with
        registry := registry
        client := .registered s.registry.store.nextId r.defaultGroup }
    | _ => none
  | .joinDefault =>
    match s.client with
    | .registered id (some group) => (Registry.step (.join id group) s.registry).map fun registry =>
        { s with registry := registry, client := .registered id none }
    | _ => none
  | .serve view =>
    match s.client with
    | .registered id none =>
      let svc := view.service r.py r.serde
      some { s with client := .serving id svc (Session.start svc), trace := s.trace ++ afterEntries svc }
    | _ => none
  | .session sa =>
    match s.client with
    | .serving id svc session =>
      if allowed s.body sa then
        (Session.step svc sa session).map fun session => s.sessionStep svc id sa session
      else none
    | _ => none
  | .bodyBegins => if s.body = .scheduled then some { s with body := .onLoop } else none
  | .bodyJoins group =>
    match s.client.id with
    | some id =>
      if s.body.running then (Registry.step (.join id group) s.registry).map fun registry => { s with
        registry := registry
        groups := group :: s.groups }
      else none
    | none => none
  | .bodyLeaves group =>
    match s.client.id with
    | some id =>
      if s.body.running then (Registry.step (.leave id group) s.registry).map fun registry => { s with
        registry := registry
        groups := s.groups.filter (· ≠ group) }
      else none
    | none => none
  | .bodyEnds => if s.body.running then some { s with body := .ended } else none
  | .remove ra =>
    match s.client with
    | .serving id svc session =>
      if session.handler = .removing ∧ ra.removes = some id then
        (Registry.step ra s.registry).map fun registry => { s with
          registry := registry
          -- `handle_client` returns when `remove` does
          client := .serving id svc
            (if ra = .removed id then { session with handler := .returned } else session) }
      else none
    | _ => none

section sessionStep

variable (svc : Service) (id : ConnectionID) (a : Session.Action) (session : Session) (s : Lifecycle)

@[simp] theorem sessionStep_client :
    (s.sessionStep svc id a session).client = .serving id svc session := by
  simp only [sessionStep]
  cases calledBack svc a <;> cases a <;> rfl

@[simp] theorem sessionStep_handshake : (s.sessionStep svc id a session).handshake = s.handshake := by
  simp only [sessionStep]
  cases calledBack svc a <;> cases a <;> rfl

@[simp] theorem sessionStep_registry : (s.sessionStep svc id a session).registry = s.registry := by
  simp only [sessionStep]
  cases calledBack svc a <;> cases a <;> rfl

theorem sessionStep_turn (frame : Option Frame) :
    (s.sessionStep svc id (.turn frame) session).frames = s.frames ++ [frame] ∧
      (s.sessionStep svc id (.turn frame) session).trace = s.trace ++ turnEntries s.frames.length
        (Webrockets.turn svc.py svc.serde svc.receiveCallback svc.disconnectCallback frame).1 := by
  simp only [sessionStep]
  cases calledBack svc (.turn frame) <;> exact ⟨rfl, rfl⟩

variable {svc a} in
theorem sessionStep_called {cb : Callback} (h : calledBack svc a = some cb) :
    (s.sessionStep svc id a session).body = (if cb.isAsync then .scheduled else .onTask) ∧
      (s.sessionStep svc id a session).groups = s.registry.store.getGroups id := by
  simp only [sessionStep, h]
  cases a <;> exact ⟨rfl, rfl⟩

variable {svc a} in
theorem sessionStep_uncalled (h : calledBack svc a = none) :
    (s.sessionStep svc id a session).body = s.body ∧
      (s.sessionStep svc id a session).groups = s.groups := by
  simp only [sessionStep, h]
  cases a <;> exact ⟨rfl, rfl⟩

/-- Without a turn nothing is recorded. -/
theorem sessionStep_quiet (ha : ∀ frame, a ≠ .turn frame) :
    s.sessionStep svc id a session = { s with client := .serving id svc session } := by
  cases a with
  | turn frame => exact absurd rfl (ha frame)
  | _ => rfl

end sessionStep

/-! ### What a step requires and does -/

/-- What each action requires and does. -/
inductive Moves (r : Arrival) (s : Lifecycle) : Action → Lifecycle → Prop
  | store {ra : Registry.Action} {registry : Registry.State}
      (hother : ¬ (s.client.id.isSome = true ∧ ra.removes = s.client.id))
      (h : Registry.step ra s.registry = some registry) :
      Moves r s (.store ra) { s with registry := registry }
  | handshake {ha : Handshake.Action} {handshake : Handshake}
      (h : Handshake.step r.toUpgrade ha s.handshake = some handshake) :
      Moves r s (.handshake ha) { s with
        handshake := handshake
        client := if ha = .upgrade true then .waiting else s.client
        trace := s.trace ++ handshakeEntries ha s.handshake handshake }
  | upgraded {ok : Bool} (hc : s.client = .waiting) :
      Moves r s (.upgraded ok) { s with client := if ok then .upgraded else .failed }
  | register {registry : Registry.State} (hc : s.client = .upgraded)
      (h : Registry.step .register s.registry = some registry) :
      Moves r s .register { s with
        registry := registry, client := .registered s.registry.store.nextId r.defaultGroup }
  | joinDefault {id : ConnectionID} {group : String} {registry : Registry.State}
      (hc : s.client = .registered id (some group))
      (h : Registry.step (.join id group) s.registry = some registry) :
      Moves r s .joinDefault { s with registry := registry, client := .registered id none }
  | serve {id : ConnectionID} {view : WebsocketRoute} (hc : s.client = .registered id none) :
      Moves r s (.serve view) { s with
        client := .serving id (view.service r.py r.serde) (Session.start (view.service r.py r.serde))
        trace := s.trace ++ afterEntries (view.service r.py r.serde) }
  | session {id : ConnectionID} {svc : Service} {session session' : Session} {sa : Session.Action}
      (hc : s.client = .serving id svc session) (ha : allowed s.body sa = true)
      (h : Session.step svc sa session = some session') :
      Moves r s (.session sa) (s.sessionStep svc id sa session')
  | bodyBegins (hb : s.body = .scheduled) : Moves r s .bodyBegins { s with body := .onLoop }
  | bodyJoins {id : ConnectionID} {group : String} {registry : Registry.State}
      (hc : s.client.id = some id) (hb : s.body.running = true)
      (h : Registry.step (.join id group) s.registry = some registry) :
      Moves r s (.bodyJoins group) { s with registry := registry, groups := group :: s.groups }
  | bodyLeaves {id : ConnectionID} {group : String} {registry : Registry.State}
      (hc : s.client.id = some id) (hb : s.body.running = true)
      (h : Registry.step (.leave id group) s.registry = some registry) :
      Moves r s (.bodyLeaves group) { s with
        registry := registry, groups := s.groups.filter (· ≠ group) }
  | bodyEnds (hb : s.body.running = true) : Moves r s .bodyEnds { s with body := .ended }
  | remove {id : ConnectionID} {svc : Service} {session : Session} {ra : Registry.Action}
      {registry : Registry.State} (hc : s.client = .serving id svc session)
      (hremoving : session.handler = .removing) (hown : ra.removes = some id)
      (h : Registry.step ra s.registry = some registry) :
      Moves r s (.remove ra) { s with
        registry := registry
        client := .serving id svc
          (if ra = .removed id then { session with handler := .returned } else session) }

theorem step_moves {r : Arrival} {a : Action} {s t : Lifecycle} (h : step r a s = some t) :
    Moves r s a t := by
  cases a with
  | store ra =>
    simp only [step] at h
    split at h
    · cases h
    · next hother =>
      obtain ⟨registry, hr, rfl⟩ := Option.map_eq_some_iff.mp h
      exact .store hother hr
  | handshake ha =>
    obtain ⟨handshake, hh, rfl⟩ := Option.map_eq_some_iff.mp h
    exact .handshake hh
  | upgraded ok =>
    simp only [step] at h
    split at h
    · next hc =>
      cases h
      exact .upgraded hc
    · cases h
  | register =>
    simp only [step] at h
    split at h
    · next hc =>
      obtain ⟨registry, hr, rfl⟩ := Option.map_eq_some_iff.mp h
      exact .register hc hr
    · cases h
  | joinDefault =>
    simp only [step] at h
    split at h
    · next id group hc =>
      obtain ⟨registry, hr, rfl⟩ := Option.map_eq_some_iff.mp h
      exact .joinDefault hc hr
    · cases h
  | serve view =>
    simp only [step] at h
    split at h
    · next id hc =>
      cases h
      exact .serve hc
    · cases h
  | session sa =>
    simp only [step] at h
    split at h
    · next id svc session hc =>
      split at h
      · next ha =>
        obtain ⟨session', hs, rfl⟩ := Option.map_eq_some_iff.mp h
        exact .session hc ha hs
      · cases h
    · cases h
  | bodyBegins =>
    simp only [step] at h
    split at h
    · next hb =>
      cases h
      exact .bodyBegins hb
    · cases h
  | bodyJoins group =>
    simp only [step] at h
    split at h
    · next id hc =>
      split at h
      · next hb =>
        obtain ⟨registry, hr, rfl⟩ := Option.map_eq_some_iff.mp h
        exact .bodyJoins hc hb hr
      · cases h
    · cases h
  | bodyLeaves group =>
    simp only [step] at h
    split at h
    · next id hc =>
      split at h
      · next hb =>
        obtain ⟨registry, hr, rfl⟩ := Option.map_eq_some_iff.mp h
        exact .bodyLeaves hc hb hr
      · cases h
    · cases h
  | bodyEnds =>
    simp only [step] at h
    split at h
    · next hb =>
      cases h
      exact .bodyEnds hb
    · cases h
  | remove ra =>
    simp only [step] at h
    split at h
    · next id svc session hc =>
      split at h
      · next hg =>
        obtain ⟨registry, hr, rfl⟩ := Option.map_eq_some_iff.mp h
        exact .remove hc hg.1 hg.2 hr
      · cases h
    · cases h

/-! ### A chat -/

/-- A route with every callback. The first and the last are coroutine functions. -/
def chatView : WebsocketRoute :=
  { WebsocketRoute.new "/ws" (some "chat") [] with
    connectBeforeCallback := some ⟨3, true⟩
    connectAfterCallback := some ⟨4, false⟩
    genericReceive := some ⟨5, false⟩
    disconnectCallback := some ⟨6, true⟩ }

def chatArrival : Arrival where
  handler := some chatView
  incoming := plainRequest
  authenticator := fun _ => .plain .none
  assignments := fun _ => []
  headerFromStr := fun s => some s.toUTF8.data.toList
  defaultGroup := some "chat"
  py := ⟨fun _ => false, fun _ => .ok true, fun _ _ => .ok 0, id⟩
  serde := ⟨fun _ => none, fun _ => none⟩

def chatHandshake : List Action :=
  [.handshake .lookup, .handshake .authenticate, .handshake (.invoke false), .handshake (.copy true),
    .handshake (.finish .returned), .handshake .await, .handshake (.upgrade true)]

def chatServed : List Action := [.upgraded true, .register, .joinDefault, .serve chatView]

/-- The listener reads a binary frame and a Close frame. -/
def chatFrames : List Action :=
  [.session (.wake .receive), .session (.turn (some ⟨.binary, [104, 105]⟩)),
    .session (.turn (some ⟨.close, []⟩))]

end Lifecycle

end Webrockets
