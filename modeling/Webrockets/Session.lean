import Webrockets.Dispatch
import Webrockets.Library.AbortableTask
import Webrockets.Library.Transition

/-! The life of one connection (`handle_client` and its two listeners).

`handle_client` registers the connection, calls `connect_after` and spawns
`send_listener` and `receive_listener`. It waits for either to end, aborts the
other, removes the connection from the store and returns. Whatever the scheduler,
the peer, the network and the senders of messages do is the choice of the action.

`disconnect_once` says which runs call the disconnect callback. -/
namespace Webrockets
open Transition

/-- Where `handle_client` is once the tasks are spawned: at its `select!`, past it, or
back, with the connection removed from the store. -/
inductive HandleClient where
  | selecting
  | removing
  | returned
  deriving DecidableEq, Repr

/-- What a connection takes from its route. -/
structure Service where
  py : Python
  serde : Serde
  connectAfterCallback : Option Callback
  receiveCallback : ReceiveCallback
  disconnectCallback : Option Callback

def WebsocketRoute.service (view : WebsocketRoute) (py : Python) (serde : Serde) : Service :=
  ⟨py, serde, view.connectAfterCallback, view.receiveCallback.1, view.disconnectCallback⟩

/-- `writing` is the message `send_listener` holds between its queue and its writer,
`calls` are the Python functions called so far. -/
structure Session where
  handler : HandleClient
  sendTask : AbortableTask
  receiveTask : AbortableTask
  queue : List Message
  writing : Option Message
  calls : List Invocation

namespace Session

inductive Side where
  | send
  | receive
  deriving DecidableEq, Repr

inductive Action where
  | put (m : Message)
  | wake (side : Side)
  | suspend (side : Side)
  | recv
  | wrote (ok : Bool)
  | turn (frame : Option Frame)
  | select (side : Side)
  | remove
  deriving DecidableEq, Repr

def start (svc : Service) : Session where
  handler := .selecting
  sendTask := .spawned
  receiveTask := .spawned
  queue := []
  writing := none
  calls := match svc.connectAfterCallback with
    | some cb => cb.invoke .connect
    | none => []

def task (s : Session) : Side → AbortableTask
  | .send => s.sendTask
  | .receive => s.receiveTask

def setTask (s : Session) : Side → AbortableTask → Session
  | .send, t => { s with sendTask := t }
  | .receive, t => { s with receiveTask := t }

def Side.other : Side → Side
  | .send => .receive
  | .receive => .send

def step (svc : Service) (a : Action) (s : Session) : Option Session :=
  match a with
  -- once the listener has dropped its queue, a message goes nowhere
  | .put m => some (if s.sendTask.ended then s else { s with queue := s.queue ++ [m] })
  | .wake side => (s.task side).wake.map (s.setTask side)
  | .suspend side => (s.task side).suspend.map (s.setTask side)
  | .recv =>
    match s.sendTask.isPolled, s.writing, s.queue with
    | true, none, m :: rest => some { s with queue := rest, writing := some m }
    | _, _, _ => none
  | .wrote ok =>
    match s.sendTask.isPolled, s.writing with
    | true, some m =>
      some { s with
        writing := none
        sendTask := if ok && !m.isClose then s.sendTask else s.sendTask.finish }
    | _, _ => none
  | .turn frame =>
    if s.receiveTask.isPolled then
      let (calls, next) := Webrockets.turn svc.py svc.serde svc.receiveCallback svc.disconnectCallback frame
      some { s with
        calls := s.calls ++ calls
        receiveTask := if next then s.receiveTask else s.receiveTask.finish }
    else none
  | .select side =>
    if s.handler = .selecting ∧ (s.task side).ended = true then
      some { s.setTask side.other (s.task side.other).abort with handler := .removing }
    else none
  | .remove => if s.handler = .removing then some { s with handler := .returned } else none

end Session

def Invocation.isDisconnect (call : Invocation) : Bool :=
  match call.args with
  | .disconnect _ _ => true
  | _ => false

namespace Session

/-- The calls of the disconnect callback. -/
def disconnects (s : Session) : List Invocation := s.calls.filter (·.isDisconnect)

/-- The listener gets a Close frame. -/
def Action.closes : Action → Bool
  | .turn (some frame) => frame.opcode = .close
  | _ => false

/-! ### What a step does to the calls -/

variable {svc : Service} {s t : Session}

theorem turn_some {frame : Option Frame} (h : step svc (.turn frame) s = some t) :
    s.receiveTask.isPolled = true ∧
      t.calls = s.calls ++ (Webrockets.turn svc.py svc.serde svc.receiveCallback
        svc.disconnectCallback frame).1 ∧
      t.receiveTask = (if (Webrockets.turn svc.py svc.serde svc.receiveCallback
        svc.disconnectCallback frame).2 then s.receiveTask else s.receiveTask.finish) := by
  simp only [step] at h
  split at h
  · next hpolled =>
    cases h
    exact ⟨hpolled, rfl, rfl⟩
  · cases h

/-- Only a turn of `receive_listener` makes calls, and a listener that has ended stays so. -/
theorem step_quiet {a : Action} (ha : ∀ frame, a ≠ .turn frame) (h : step svc a s = some t) :
    t.calls = s.calls ∧ (s.receiveTask.ended = true → t.receiveTask.ended = true) := by
  cases a with
  | put m =>
    simp only [step, Option.some.injEq] at h
    subst h
    split <;> exact ⟨rfl, id⟩
  | wake side =>
    obtain ⟨task, htask, rfl⟩ := Option.map_eq_some_iff.mp h
    cases side with
    | send => exact ⟨rfl, id⟩
    | receive =>
      refine ⟨rfl, fun hended => ?_⟩
      have hnone := AbortableTask.wake_of_ended hended
      cases hnone.symm.trans htask
  | suspend side =>
    obtain ⟨task, htask, rfl⟩ := Option.map_eq_some_iff.mp h
    cases side with
    | send => exact ⟨rfl, id⟩
    | receive =>
      refine ⟨rfl, fun hended => ?_⟩
      have hnone := AbortableTask.suspend_of_ended hended
      cases hnone.symm.trans htask
  | recv =>
    simp only [step] at h
    split at h
    · cases h
      exact ⟨rfl, id⟩
    · cases h
  | wrote ok =>
    simp only [step] at h
    split at h
    · cases h
      exact ⟨rfl, id⟩
    · cases h
  | turn frame => exact absurd rfl (ha frame)
  | select side =>
    simp only [step] at h
    split at h
    · cases h
      cases side with
      | send =>
        refine ⟨rfl, fun hended => ?_⟩
        exact AbortableTask.ended_abort.trans hended
      | receive => exact ⟨rfl, id⟩
    · cases h
  | remove =>
    simp only [step] at h
    split at h
    · cases h
      exact ⟨rfl, id⟩
    · cases h

/-- What `read_frame` gave the listener, turn by turn. -/
def reads : List Action → List (Option Frame)
  | [] => []
  | .turn frame :: rest => frame :: reads rest
  | _ :: rest => reads rest

/-- The calls of a run are the ones its turns make, in their order. -/
theorem run_calls {sched : List Action} (h : run (step svc) s sched = some t) :
    t.calls = s.calls ++ (reads sched).flatMap fun frame =>
      (Webrockets.turn svc.py svc.serde svc.receiveCallback svc.disconnectCallback frame).1 := by
  induction sched generalizing s with
  | nil =>
    cases h
    exact (List.append_nil _).symm
  | cons a rest ih =>
    obtain ⟨m, hm, hrest⟩ := run_cons.mp h
    rw [ih hrest]
    cases a with
    | turn frame => rw [(turn_some hm).2.1, reads, List.flatMap_cons, List.append_assoc]
    | _ =>
      rw [(step_quiet (fun _ he => by cases he) hm).1]
      rfl

/-- Once `receive_listener` has ended nothing is called any more. -/
theorem run_ended {sched : List Action} (h : run (step svc) s sched = some t)
    (hended : s.receiveTask.ended = true) :
    t.disconnects = s.disconnects ∧ ∀ a ∈ sched, a.closes = false := by
  induction sched generalizing s with
  | nil =>
    cases h
    exact ⟨rfl, fun a ha => absurd ha List.not_mem_nil⟩
  | cons a rest ih =>
    obtain ⟨m, hm, hrest⟩ := run_cons.mp h
    have hturn : ∀ frame, a ≠ .turn frame := by
      intro frame he
      subst he
      have hpolled := (turn_some hm).1
      rw [AbortableTask.not_polled_of_ended hended] at hpolled
      cases hpolled
    obtain ⟨hcalls, hkept⟩ := step_quiet hturn hm
    obtain ⟨hd, hc⟩ := ih hrest (hkept hended)
    refine ⟨hd.trans (congrArg (List.filter _) hcalls), fun b hb => ?_⟩
    rcases List.mem_cons.mp hb with rfl | hb
    · cases b with
      | turn frame => exact absurd rfl (hturn frame)
      | _ => rfl
    · exact hc b hb

/-- Until `receive_listener` gets a Close frame the disconnect callback is not called. -/
theorem step_open {a : Action} (ha : a.closes = false) (h : step svc a s = some t) :
    t.disconnects = s.disconnects := by
  cases a with
  | turn frame =>
    rw [disconnects, (turn_some h).2.1, List.filter_append]
    refine (congrArg _ (List.filter_eq_nil_iff.mpr fun call hcall => ?_)).trans (List.append_nil _)
    cases frame with
    | none => cases hcall
    | some frame =>
      obtain ⟨cb, data, rfl⟩ := turn_receive (by simpa [Action.closes] using ha) hcall
      exact Bool.false_ne_true
  | _ => exact congrArg (List.filter _) (step_quiet (fun _ he => by cases he) h).1

/-- A Close frame calls it once and ends `receive_listener`. -/
theorem step_close {payload : List UInt8} {cb : Callback} (hcb : svc.disconnectCallback = some cb)
    (h : step svc (.turn (some ⟨.close, payload⟩)) s = some t) :
    (∃ code reason, t.disconnects = s.disconnects ++ [⟨cb, .disconnect code reason⟩]) ∧
      t.receiveTask.ended = true := by
  obtain ⟨_, hcalls, htask⟩ := turn_some h
  rw [hcb] at hcalls htask
  obtain ⟨code, reason, hturn⟩ := turn_close svc.py svc.serde svc.receiveCallback cb payload
  rw [hturn] at hcalls htask
  refine ⟨⟨code, reason, ?_⟩, by rw [htask]; rfl⟩
  rw [disconnects, hcalls, List.filter_append]
  rfl

theorem Action.closes_eq {a : Action} (h : a.closes = true) :
    ∃ payload, a = .turn (some ⟨.close, payload⟩) := by
  cases a with
  | turn frame =>
    cases frame with
    | none => cases h
    | some frame =>
      obtain ⟨opcode, payload⟩ := frame
      obtain rfl : opcode = .close := by simpa [closes] using h
      exact ⟨payload, rfl⟩
  | _ => cases h

/-- A run calls the disconnect callback once if the listener gets a Close frame in it, and
not at all otherwise. -/
theorem run_disconnects {cb : Callback} (hcb : svc.disconnectCallback = some cb)
    {sched : List Action} (h : run (step svc) s sched = some t) :
    ((∃ a ∈ sched, a.closes = true) ∧
        ∃ code reason, t.disconnects = s.disconnects ++ [⟨cb, .disconnect code reason⟩]) ∨
      ((∀ a ∈ sched, a.closes = false) ∧ t.disconnects = s.disconnects) := by
  induction sched generalizing s with
  | nil =>
    cases h
    exact .inr ⟨fun a ha => absurd ha List.not_mem_nil, rfl⟩
  | cons a rest ih =>
    obtain ⟨m, hm, hrest⟩ := run_cons.mp h
    cases ha : a.closes with
    | true =>
      obtain ⟨payload, rfl⟩ := Action.closes_eq ha
      obtain ⟨⟨code, reason, hd⟩, hended⟩ := step_close hcb hm
      refine .inl ⟨⟨_, List.mem_cons_self, ha⟩, code, reason, ?_⟩
      exact (run_ended hrest hended).1.trans hd
    | false =>
      have hopen := step_open ha hm
      rcases ih hrest with ⟨⟨b, hb, hc⟩, hd⟩ | ⟨hc, hd⟩
      · rw [hopen] at hd
        exact .inl ⟨⟨b, List.mem_cons_of_mem _ hb, hc⟩, hd⟩
      · refine .inr ⟨fun b hb => ?_, hd.trans hopen⟩
        rcases List.mem_cons.mp hb with rfl | hb
        · exact ha
        · exact hc b hb

theorem start_disconnects (svc : Service) : (start svc).disconnects = [] := by
  simp only [disconnects, start]
  cases svc.connectAfterCallback <;> rfl

/-- **The disconnect callback is called exactly for the connections that end with a Close
frame.** When `handle_client` returns, it has been called once if `receive_listener` got
a Close frame before, and not at all if it did not. -/
theorem disconnect_once {cb : Callback} (hcb : svc.disconnectCallback = some cb)
    {sched : List Action} (hrun : run (step svc) (start svc) (sched ++ [.remove]) = some s) :
    (∃ code reason, s.disconnects = [⟨cb, .disconnect code reason⟩]) ↔
      ∃ payload, Action.turn (some ⟨.close, payload⟩) ∈ sched := by
  have hruns := run_disconnects hcb hrun
  rw [start_disconnects] at hruns
  refine ⟨fun h => ?_, fun h => ?_⟩
  · obtain ⟨code, reason, hd⟩ := h
    rcases hruns with ⟨⟨a, ha, hc⟩, _⟩ | ⟨_, hnone⟩
    · obtain ⟨payload, rfl⟩ := Action.closes_eq hc
      rcases List.mem_append.mp ha with ha | ha
      · exact ⟨payload, ha⟩
      · cases List.mem_singleton.mp ha
    · rw [hd] at hnone
      cases hnone
  · obtain ⟨payload, ha⟩ := h
    rcases hruns with ⟨_, hd⟩ | ⟨hc, _⟩
    · exact hd
    · cases hc _ (List.mem_append_left _ ha)

/-- A route with a disconnect callback and nothing else. -/
def quietService : Service :=
  let view := { WebsocketRoute.new "/ws" none [] with disconnectCallback := some ⟨3, false⟩ }
  view.service ⟨fun _ => false, fun _ => .ok true, fun _ _ => .ok 0, id⟩
    ⟨fun _ => none, fun _ => none⟩

theorem disconnect_once_goodbye :
    ∃ s, run (step quietService) (start quietService) ([.wake .receive,
        .turn (some (.close 1000 [])), .select .receive] ++ [.remove]) = some s ∧
      ∃ code reason, s.disconnects = [⟨⟨3, false⟩, .disconnect code reason⟩] := by
  let s := (run (step quietService) (start quietService) ([.wake .receive,
    .turn (some (.close 1000 [])), .select .receive] ++ [.remove])).get (by decide)
  have hrun : run (step quietService) (start quietService) ([.wake .receive,
      .turn (some (.close 1000 [])), .select .receive] ++ [.remove]) = some s :=
    (Option.some_get _).symm
  exact ⟨s, hrun, (disconnect_once rfl hrun).mpr ⟨[3, 232], by decide⟩⟩

/-- A peer that vanishes, a server that closes and a write that fails: the connection is
removed and the callback was not called. -/
theorem ends_unnoticed :
    let ends (sched : List Action) :=
      (run (step quietService) (start quietService) (sched ++ [.remove])).map (·.disconnects)
    ends [.wake .receive, .turn none, .select .receive] = some [] ∧
      ends [.put (.close 1000 []), .wake .send, .recv, .wrote true, .select .send] = some [] ∧
      ends [.put (.text "hi"), .wake .send, .recv, .wrote false, .select .send] = some [] := by
  decide

end Session

end Webrockets
