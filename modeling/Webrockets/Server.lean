import Webrockets.Connection
import Webrockets.Registry
import Webrockets.Library.Outbox

/-! The outgoing side of a server as a machine of interleaved steps.

A call from Python (`send`, `asend`, `close`, `aclose`) is one step: it tries the
queue and, when that is full, hands the message to a task. A broadcast is a step
for every turn of its two loops, with its blocked senders collected until the end.
The tasks, the `send_listener` of every connection and the threads at the
channel store run in between, in any order. -/
namespace Webrockets
open Outbox (Event)

def channelBufferSize : Nat := 10000

/-- Where a call comes from: a synchronous callback on a worker of the runtime, a
coroutine on the event loop's thread, or any other thread of Python. -/
inductive Context where
  | worker
  | eventLoop
  | thread
  deriving DecidableEq, Repr

/-- `tokio::spawn` panics without it. -/
def Context.hasRuntime : Context → Bool
  | .worker => true
  | _ => false

/-- `future_into_py` raises without it. -/
def Context.hasLoop : Context → Bool
  | .eventLoop => true
  | _ => false

/-- A message on its way, with the call that sent it: the number of the call,
whose it was, and whether it handed a future back. -/
structure Request where
  call : Nat
  caller : Nat
  future : Bool
  message : Message
  deriving DecidableEq, Repr

abbrev Outgoing := Outbox channelBufferSize Sender Request

/-! ### The calls -/

/-- `try_send`, and for a full queue the task that sends later: spawned by `send`
and `close`, handed to the event loop by `asend` and `aclose`. -/
def enqueue (ctx : Context) (tx : Sender) (r : Request) (o : Outgoing) : Outcome × Outgoing :=
  match o.put tx r with
  | .ok o => (.returned, o)
  | .error .full =>
    if r.future then
      if ctx.hasLoop then (.returned, o.defer true r [tx])
      else (.raised (.runtimeError "no running event loop"), o)
    else if ctx.hasRuntime then (.returned, o.defer false r [tx])
    else (.panicked, o)
  | .error .closed => (.returned, o)

/-- Whose call it is, which one, and where it is made. -/
structure Call where
  number : Nat
  caller : Nat
  ctx : Context

namespace Connection

def sendVia (future : Bool) (conn : Connection) (call : Call) (msg : PyValue) (o : Outgoing) :
    Outcome × Outgoing :=
  match conn.sender with
  | none => (.raised notEstablished, o)
  | some tx =>
    match Message.tryFrom msg with
    | .error e => (.raised e, o)
    | .ok message => enqueue call.ctx tx ⟨call.number, call.caller, future, message⟩ o

def closeVia (future : Bool) (conn : Connection) (call : Call) (code : UInt16) (reason : String)
    (o : Outgoing) : Outcome × Outgoing :=
  match conn.sender with
  | none => (.raised notEstablished, o)
  | some tx =>
    enqueue call.ctx tx ⟨call.number, call.caller, future, .close code reason.toUTF8.data.toList⟩ o

def send : Connection → Call → PyValue → Outgoing → Outcome × Outgoing := sendVia false
def asend : Connection → Call → PyValue → Outgoing → Outcome × Outgoing := sendVia true
def close : Connection → Call → UInt16 → String → Outgoing → Outcome × Outgoing := closeVia false
def aclose : Connection → Call → UInt16 → String → Outgoing → Outcome × Outgoing := closeVia true

/-- The four calls that enqueue on one connection. -/
inductive Method where
  | send (msg : PyValue)
  | asend (msg : PyValue)
  | close (code : UInt16) (reason : String)
  | aclose (code : UInt16) (reason : String)
  deriving DecidableEq, Repr

def Method.future : Method → Bool
  | .send _ => false
  | .asend _ => true
  | .close _ _ => false
  | .aclose _ _ => true

def invoke (conn : Connection) (call : Call) : Method → Outgoing → Outcome × Outgoing
  | .send msg => conn.send call msg
  | .asend msg => conn.asend call msg
  | .close code reason => conn.close call code reason
  | .aclose code reason => conn.aclose call code reason

end Connection

/-! ### Broadcasts -/

/-- One turn of the inner loop, with the senders found blocked so far. -/
def ChannelStore.visit (store : ChannelStore) (exclude : Option ConnectionID) (r : Request)
    (id : ConnectionID) (s : Outgoing × List Sender) : Outgoing × List Sender :=
  match store.recipient exclude id with
  | none => s
  | some tx =>
    match s.1.put tx r with
    | .ok o => (o, s.2)
    | .error .full => (s.1, s.2 ++ [tx])
    | .error .closed => s

/-- What comes after the loops: one task for all the blocked senders. -/
def spawnBlocked (ctx : Context) (r : Request) (s : Outgoing × List Sender) : Outcome × Outgoing :=
  if s.2.isEmpty then (.returned, s.1)
  else if ctx.hasRuntime then (.returned, s.1.defer false r s.2)
  else (.panicked, s.1)

/-- `broadcast` with nothing running in between. -/
def ChannelStore.broadcast (store : ChannelStore) (ctx : Context) (groups : List String) (r : Request)
    (exclude : Option ConnectionID) (o : Outgoing) : Outcome × Outgoing :=
  spawnBlocked ctx r <| groups.foldl (fun s group =>
    match store.groups.get? group with
    | none => s
    | some members => members.elems.foldl (fun s id => store.visit exclude r id s) s) (o, [])

/-- The calls that broadcast: two of a connection, and the broker's `dispatch`. -/
inductive Broadcast where
  | broadcast (conn : Sender) (groups : List String) (msg : PyValue) (excludeSelf : Bool)
  | abroadcast (conn : Sender) (groups : List String) (msg : PyValue) (excludeSelf : Bool)
  | dispatch (groups : List String) (message : String)
  deriving DecidableEq, Repr

def Broadcast.groups : Broadcast → List String
  | .broadcast _ groups _ _ => groups
  | .abroadcast _ groups _ _ => groups
  | .dispatch groups _ => groups

/-- The message and the excluded id, or the error that ends the call. -/
def Broadcast.args (handle : Sender → Connection) :
    Broadcast → Except PyErr (Message × Option ConnectionID)
  | .broadcast conn _ msg excludeSelf => (handle conn).broadcastArgs msg excludeSelf
  | .abroadcast conn _ msg excludeSelf => (handle conn).broadcastArgs msg excludeSelf
  | .dispatch _ message => .ok (.text message, none)

/-! ### The machine -/

/-- The task that runs `send_listener`. The writer holds `message` until its
`write_frame` is done. -/
inductive SendTask where
  | unspawned
  | receiving
  | writing (message : Message)
  | stopped
  deriving DecidableEq, Repr

/-- The inner loop of a broadcast: `ahead` are the members that were there when it
began and that it has not come to. -/
structure Inside where
  group : String
  ahead : List ConnectionID
  visited : List ConnectionID
  deriving DecidableEq, Repr

/-- A broadcast under way, `groups` being those the outer loop has not come to. -/
structure Loop where
  request : Request
  ctx : Context
  exclude : Option ConnectionID
  groups : List String
  inside : Option Inside
  blocked : List Sender
  deriving DecidableEq, Repr

/-- A connection, its channel and its tasks go by the number of the channel. A
caller makes one call after the other, so it has one broadcast under way at most. -/
structure Server where
  registry : Registry.State
  /-- What `register` returned to `handle_client`. -/
  channelId : Sender → ConnectionID
  handle : Sender → Connection
  outgoing : Outgoing
  sendTask : Sender → SendTask
  loop : Nat → Option Loop
  calls : Nat

namespace Server

def init : Server where
  registry := Registry.init
  channelId := fun _ => 0
  handle := fun _ => .new default none
  outgoing := Outbox.new
  sendTask := fun _ => .unspawned
  loop := fun _ => none
  calls := 0

def store (s : Server) : ChannelStore := s.registry.store

/-- The function with a new value at one number. -/
def set {α : Type} (f : Nat → α) (n : Nat) (a : α) : Nat → α := fun m => if m = n then a else f m

@[simp] theorem set_self {α : Type} (f : Nat → α) (n : Nat) (a : α) : set f n a n = a := if_pos rfl

theorem set_of_ne {α : Type} (f : Nat → α) {n m : Nat} (h : m ≠ n) (a : α) : set f n a m = f m := if_neg h

@[simp] theorem set_set {α : Type} (f : Nat → α) (n : Nat) (a b : α) : set (set f n a) n b = set f n b := by
  funext m
  simp only [set]
  split <;> rfl

theorem set_eq {α : Type} {f : Nat → α} {n : Nat} {a : α} (h : f n = a) : set f n a = f := by
  funext m
  simp only [set]
  split
  · next hm => rw [hm, h]
  · rfl

inductive Action where
  /-- A thread at the channel store. -/
  | registry (a : Registry.Action)
  /-- `handle_client` sets sender, store and id of its connection. -/
  | establish (tx : Sender)
  /-- `handle_client` spawns `send_listener`. -/
  | spawn (tx : Sender)
  | call (caller : Nat) (ctx : Context) (conn : Sender) (m : Connection.Method)
  | broadcast (caller : Nat) (ctx : Context) (b : Broadcast)
  /-- The outer loop of a broadcast comes to its next group. -/
  | enterGroup (caller : Nat)
  /-- The inner loop comes to a member. -/
  | visit (caller : Nat) (id : ConnectionID)
  | leaveGroup (caller : Nat)
  /-- The broadcast returns. -/
  | finish (caller : Nat)
  /-- The runtime polls a deferred task. -/
  | poll (i : Nat)
  /-- The future of an `asend` or `aclose` is cancelled. -/
  | cancel (i : Nat)
  /-- `recv` gives `send_listener` a message, which goes on to `write_frame`. -/
  | receive (tx : Sender)
  /-- `write_frame` is done, well or not. -/
  | wrote (tx : Sender) (ok : Bool)
  /-- `handle_client` aborts `send_listener`. -/
  | abort (tx : Sender)
  deriving DecidableEq, Repr

/-- The listener is gone and its receiver with it. -/
def stopListener (s : Server) (tx : Sender) : Server :=
  { s with outgoing := s.outgoing.stop tx, sendTask := set s.sendTask tx .stopped }

def step : Action → Server → Option Server
  | .registry a, s => (Registry.step a s.registry).map fun registry => { s with
      registry := registry
      channelId := if a = .register then set s.channelId s.registry.issued s.store.nextId else s.channelId }
  | .establish tx, s =>
    if tx < s.registry.issued ∧ (s.handle tx).sender = none then
      some { s with handle := set s.handle tx ((s.handle tx).establish tx (s.channelId tx)) }
    else none
  | .spawn tx, s =>
    if (s.handle tx).sender = some tx ∧ s.sendTask tx = .unspawned then
      some { s with sendTask := set s.sendTask tx .receiving }
    else none
  | .call caller ctx conn m, s =>
    if s.loop caller = none then
      some { s with
        outgoing := ((s.handle conn).invoke ⟨s.calls, caller, ctx⟩ m s.outgoing).2
        calls := s.calls + 1 }
    else none
  | .broadcast caller ctx b, s =>
    if s.loop caller = none then
      match b.args s.handle with
      | .error _ => some { s with calls := s.calls + 1 }
      | .ok (message, exclude) => some { s with
          loop := set s.loop caller
            (some ⟨⟨s.calls, caller, false, message⟩, ctx, exclude, b.groups, none, []⟩)
          calls := s.calls + 1 }
    else none
  | .enterGroup caller, s =>
    match s.loop caller with
    | some ⟨r, ctx, exclude, group :: groups, none, blocked⟩ =>
      -- an unknown group is skipped
      let inside := (s.store.groups.get? group).map fun members => ⟨group, members.elems, []⟩
      some { s with loop := set s.loop caller (some ⟨r, ctx, exclude, groups, inside, blocked⟩) }
    | _ => none
  | .visit caller id, s =>
    match s.loop caller with
    | some ⟨r, ctx, exclude, groups, some ⟨group, ahead, visited⟩, blocked⟩ =>
      if id ∈ s.store.members group ∧ id ∉ visited then
        let inside := ⟨group, ahead.filter (· ≠ id), id :: visited⟩
        let (outgoing, blocked) := s.store.visit exclude r id (s.outgoing, blocked)
        some { s with
          outgoing := outgoing
          loop := set s.loop caller (some ⟨r, ctx, exclude, groups, some inside, blocked⟩) }
      else none
    | _ => none
  | .leaveGroup caller, s =>
    match s.loop caller with
    | some ⟨r, ctx, exclude, groups, some ⟨group, ahead, _⟩, blocked⟩ =>
      if ahead.all fun id => id ∉ s.store.members group then
        some { s with loop := set s.loop caller (some ⟨r, ctx, exclude, groups, none, blocked⟩) }
      else none
    | _ => none
  | .finish caller, s =>
    match s.loop caller with
    | some ⟨r, ctx, _, [], none, blocked⟩ => some { s with
        outgoing := (spawnBlocked ctx r (s.outgoing, blocked)).2
        loop := set s.loop caller none }
    | _ => none
  | .poll i, s => (s.outgoing.poll i).map fun outgoing => { s with outgoing := outgoing }
  | .cancel i, s => (s.outgoing.cancel i).map fun outgoing => { s with outgoing := outgoing }
  | .receive tx, s =>
    if s.sendTask tx = .receiving then
      match s.outgoing.take tx with
      | some (c, outgoing) => some { s with
          outgoing := outgoing
          sendTask := set s.sendTask tx (.writing c.value.message) }
      | none => none
    else none
  | .wrote tx ok, s =>
    match s.sendTask tx with
    | .writing message =>
      if ok ∧ message.isClose = false then
        some { s with sendTask := set s.sendTask tx .receiving }
      else some (s.stopListener tx)
    | _ => none
  | .abort tx, s =>
    if s.sendTask tx = .unspawned ∨ s.sendTask tx = .stopped then none
    else some (s.stopListener tx)

/-! ### What a step requires and does -/

theorem registry_some {a : Registry.Action} {s t : Server} (h : step (.registry a) s = some t) :
    ∃ registry, Registry.step a s.registry = some registry ∧ t = { s with
      registry := registry
      channelId := if a = .register then set s.channelId s.registry.issued s.store.nextId
        else s.channelId } := by
  obtain ⟨registry, hr, rfl⟩ := Option.map_eq_some_iff.mp h
  exact ⟨registry, hr, rfl⟩

theorem establish_some {tx : Sender} {s t : Server} (h : step (.establish tx) s = some t) :
    tx < s.registry.issued ∧ (s.handle tx).sender = none ∧
      t = { s with handle := set s.handle tx ((s.handle tx).establish tx (s.channelId tx)) } := by
  simp only [step] at h
  split at h
  · next hg =>
    cases h
    exact ⟨hg.1, hg.2, rfl⟩
  · cases h

theorem spawn_some {tx : Sender} {s t : Server} (h : step (.spawn tx) s = some t) :
    (s.handle tx).sender = some tx ∧ s.sendTask tx = .unspawned ∧
      t = { s with sendTask := set s.sendTask tx .receiving } := by
  simp only [step] at h
  split at h
  · next hg =>
    cases h
    exact ⟨hg.1, hg.2, rfl⟩
  · cases h

theorem call_some {caller : Nat} {ctx : Context} {conn : Sender} {m : Connection.Method}
    {s t : Server} (h : step (.call caller ctx conn m) s = some t) :
    s.loop caller = none ∧ t = { s with
      outgoing := ((s.handle conn).invoke ⟨s.calls, caller, ctx⟩ m s.outgoing).2
      calls := s.calls + 1 } := by
  simp only [step] at h
  split at h
  · next hg =>
    cases h
    exact ⟨hg, rfl⟩
  · cases h

theorem broadcast_some {caller : Nat} {ctx : Context} {b : Broadcast} {s t : Server}
    (h : step (.broadcast caller ctx b) s = some t) :
    s.loop caller = none ∧ (t = { s with calls := s.calls + 1 } ∨
      ∃ message exclude, b.args s.handle = .ok (message, exclude) ∧ t = { s with
        loop := set s.loop caller
          (some ⟨⟨s.calls, caller, false, message⟩, ctx, exclude, b.groups, none, []⟩)
        calls := s.calls + 1 }) := by
  simp only [step] at h
  split at h
  · next hg =>
    split at h
    · cases h
      exact ⟨hg, .inl rfl⟩
    · next message exclude hargs =>
      cases h
      exact ⟨hg, .inr ⟨message, exclude, hargs, rfl⟩⟩
  · cases h

/-- A loop that moves on in its groups keeps everything else. -/
theorem enterGroup_some {caller : Nat} {s t : Server} (h : step (.enterGroup caller) s = some t) :
    ∃ l group groups inside, s.loop caller = some l ∧ l.groups = group :: groups ∧ l.inside = none ∧
      t = { s with loop := set s.loop caller (some { l with groups := groups, inside := inside }) } := by
  simp only [step] at h
  split at h
  · next r ctx exclude group groups blocked hl =>
    cases h
    exact ⟨_, group, groups, _, hl, rfl, rfl, rfl⟩
  · cases h

theorem visit_some {caller : Nat} {id : ConnectionID} {s t : Server}
    (h : step (.visit caller id) s = some t) :
    ∃ l inside inside', s.loop caller = some l ∧ l.inside = some inside ∧
      id ∈ s.store.members inside.group ∧ id ∉ inside.visited ∧
      t = { s with
        outgoing := (s.store.visit l.exclude l.request id (s.outgoing, l.blocked)).1
        loop := set s.loop caller (some { l with
          inside := some inside'
          blocked := (s.store.visit l.exclude l.request id (s.outgoing, l.blocked)).2 }) } := by
  simp only [step] at h
  split at h
  · next r ctx exclude groups group ahead visited blocked hl =>
    split at h
    · next hg =>
      cases h
      exact ⟨_, _, _, hl, rfl, hg.1, hg.2, rfl⟩
    · cases h
  · cases h

theorem leaveGroup_some {caller : Nat} {s t : Server} (h : step (.leaveGroup caller) s = some t) :
    ∃ l inside, s.loop caller = some l ∧ l.inside = some inside ∧
      (∀ id ∈ inside.ahead, id ∉ s.store.members inside.group) ∧
      t = { s with loop := set s.loop caller (some { l with inside := none }) } := by
  simp only [step] at h
  split at h
  · next r ctx exclude groups group ahead visited blocked hl =>
    split at h
    · next hg =>
      cases h
      exact ⟨_, _, hl, rfl, by simpa using hg, rfl⟩
    · cases h
  · cases h

theorem finish_some {caller : Nat} {s t : Server} (h : step (.finish caller) s = some t) :
    ∃ l, s.loop caller = some l ∧ l.groups = [] ∧ l.inside = none ∧ t = { s with
      outgoing := (spawnBlocked l.ctx l.request (s.outgoing, l.blocked)).2
      loop := set s.loop caller none } := by
  simp only [step] at h
  split at h
  · next r ctx exclude blocked hl =>
    cases h
    exact ⟨_, hl, rfl, rfl, rfl⟩
  · cases h

theorem poll_some {i : Nat} {s t : Server} (h : step (.poll i) s = some t) :
    ∃ outgoing, s.outgoing.poll i = some outgoing ∧ t = { s with outgoing := outgoing } := by
  obtain ⟨outgoing, ho, rfl⟩ := Option.map_eq_some_iff.mp h
  exact ⟨outgoing, ho, rfl⟩

theorem cancel_some {i : Nat} {s t : Server} (h : step (.cancel i) s = some t) :
    ∃ outgoing, s.outgoing.cancel i = some outgoing ∧ t = { s with outgoing := outgoing } := by
  obtain ⟨outgoing, ho, rfl⟩ := Option.map_eq_some_iff.mp h
  exact ⟨outgoing, ho, rfl⟩

theorem receive_some {tx : Sender} {s t : Server} (h : step (.receive tx) s = some t) :
    ∃ c outgoing, s.sendTask tx = .receiving ∧ s.outgoing.take tx = some (c, outgoing) ∧
      t = { s with
        outgoing := outgoing
        sendTask := set s.sendTask tx (.writing c.value.message) } := by
  simp only [step] at h
  split at h
  · next hg =>
    split at h
    · next c outgoing ht =>
      cases h
      exact ⟨c, outgoing, hg, ht, rfl⟩
    · cases h
  · cases h

theorem wrote_some {tx : Sender} {ok : Bool} {s t : Server} (h : step (.wrote tx ok) s = some t) :
    ∃ message, s.sendTask tx = .writing message ∧
      ((ok = true ∧ message.isClose = false ∧ t = { s with sendTask := set s.sendTask tx .receiving }) ∨
        t = s.stopListener tx) := by
  simp only [step] at h
  split at h
  · next message hm =>
    split at h
    · next hg =>
      cases h
      exact ⟨message, hm, .inl ⟨hg.1, hg.2, rfl⟩⟩
    · cases h
      exact ⟨message, hm, .inr rfl⟩
  · cases h

theorem abort_some {tx : Sender} {s t : Server} (h : step (.abort tx) s = some t) :
    s.sendTask tx ≠ .unspawned ∧ s.sendTask tx ≠ .stopped ∧ t = s.stopListener tx := by
  simp only [step] at h
  split at h
  · cases h
  · next hg =>
    cases h
    exact ⟨fun he => hg (.inl he), fun he => hg (.inr he), rfl⟩

/-! ### What a step leaves alone -/

/-- A thread at the channel store. -/
def Action.atStore : Action → Bool
  | .registry _ => true
  | _ => false

/-- A call of a caller, which is numbered. -/
def Action.calls : Action → Bool
  | .call .. | .broadcast .. => true
  | _ => false

/-- A broadcast begins, goes on or returns. -/
def Action.broadcasts : Action → Bool
  | .broadcast .. | .enterGroup _ | .visit .. | .leaveGroup _ | .finish _ => true
  | _ => false

/-- The parts of the state that only some actions write to. -/
structure Untouched (a : Action) (s t : Server) : Prop where
  registry : a.atStore = false → t.registry = s.registry
  calls : a.calls = false → t.calls = s.calls
  loop : a.broadcasts = false → t.loop = s.loop

theorem step_untouched {a : Action} {s t : Server} (h : step a s = some t) : Untouched a s t := by
  cases a with
  | registry ra =>
    obtain ⟨registry, _, rfl⟩ := registry_some h
    exact ⟨fun hw => absurd hw.symm Bool.false_ne_true, fun _ => rfl, fun _ => rfl⟩
  | establish tx =>
    obtain ⟨_, _, rfl⟩ := establish_some h
    exact ⟨fun _ => rfl, fun _ => rfl, fun _ => rfl⟩
  | spawn tx =>
    obtain ⟨_, _, rfl⟩ := spawn_some h
    exact ⟨fun _ => rfl, fun _ => rfl, fun _ => rfl⟩
  | call caller ctx conn m =>
    obtain ⟨_, rfl⟩ := call_some h
    exact ⟨fun _ => rfl, fun hw => absurd hw.symm Bool.false_ne_true, fun _ => rfl⟩
  | broadcast caller ctx b =>
    obtain ⟨_, rfl | ⟨_, _, _, rfl⟩⟩ := broadcast_some h <;>
      exact ⟨fun _ => rfl, fun hw => absurd hw.symm Bool.false_ne_true,
        fun hw => absurd hw.symm Bool.false_ne_true⟩
  | enterGroup caller =>
    obtain ⟨_, _, _, _, _, _, _, rfl⟩ := enterGroup_some h
    exact ⟨fun _ => rfl, fun _ => rfl, fun hw => absurd hw.symm Bool.false_ne_true⟩
  | visit caller id =>
    obtain ⟨_, _, _, _, _, _, _, rfl⟩ := visit_some h
    exact ⟨fun _ => rfl, fun _ => rfl, fun hw => absurd hw.symm Bool.false_ne_true⟩
  | leaveGroup caller =>
    obtain ⟨_, _, _, _, _, rfl⟩ := leaveGroup_some h
    exact ⟨fun _ => rfl, fun _ => rfl, fun hw => absurd hw.symm Bool.false_ne_true⟩
  | finish caller =>
    obtain ⟨_, _, _, _, rfl⟩ := finish_some h
    exact ⟨fun _ => rfl, fun _ => rfl, fun hw => absurd hw.symm Bool.false_ne_true⟩
  | poll i =>
    obtain ⟨_, _, rfl⟩ := poll_some h
    exact ⟨fun _ => rfl, fun _ => rfl, fun _ => rfl⟩
  | cancel i =>
    obtain ⟨_, _, rfl⟩ := cancel_some h
    exact ⟨fun _ => rfl, fun _ => rfl, fun _ => rfl⟩
  | receive tx =>
    obtain ⟨_, _, _, _, rfl⟩ := receive_some h
    exact ⟨fun _ => rfl, fun _ => rfl, fun _ => rfl⟩
  | wrote tx ok =>
    obtain ⟨_, _, ⟨_, _, rfl⟩ | rfl⟩ := wrote_some h <;>
      exact ⟨fun _ => rfl, fun _ => rfl, fun _ => rfl⟩
  | abort tx =>
    obtain ⟨_, _, rfl⟩ := abort_some h
    exact ⟨fun _ => rfl, fun _ => rfl, fun _ => rfl⟩

/-- Calls on a connection change neither the store nor the connections. -/
theorem run_calls_frame {caller : Nat} {ctx : Context} {conn : Sender} {m : Connection.Method}
    (n : Nat) {s t : Server}
    (h : Transition.run step s (List.replicate n (.call caller ctx conn m)) = some t) :
    t.registry = s.registry ∧ t.handle = s.handle := by
  induction n generalizing s with
  | zero =>
    cases h
    exact ⟨rfl, rfl⟩
  | succ n ih =>
    obtain ⟨u, hu, hrest⟩ := Transition.run_cons.mp h
    obtain ⟨_, rfl⟩ := call_some hu
    obtain ⟨hregistry, hhandle⟩ := ih hrest
    exact ⟨hregistry, hhandle⟩

/-! ### The registry of the machine is the registry machine's -/

/-- A step of the server is a step of the registry or none. -/
theorem step_registry {a : Action} {s t : Server} (h : step a s = some t) :
    t.registry = s.registry ∨ ∃ ra, Registry.step ra s.registry = some t.registry := by
  cases a with
  | registry ra =>
    obtain ⟨registry, hr, rfl⟩ := registry_some h
    exact .inr ⟨ra, hr⟩
  | _ => exact .inl ((step_untouched h).registry rfl)

theorem step_numbered (a : Action) (s t : Server) (hs : Registry.Numbered s.registry)
    (h : step a s = some t) : Registry.Numbered t.registry := by
  rcases step_registry h with he | ⟨ra, hr⟩
  · rw [he]
    exact hs
  · exact Registry.step_numbered ra _ _ hs hr

theorem run_numbered {actions : List Action} {t : Server}
    (h : Transition.run step init actions = some t) : Registry.Numbered t.registry :=
  Transition.run_invariant (P := fun s => Registry.Numbered s.registry) step_numbered actions h
    Registry.init_numbered

end Server

end Webrockets
