import Webrockets.Authentication
import Webrockets.Route
import Webrockets.Library.Transition

/-! The handshake (`handle_ws_upgrade`, `authenticate_and_connect`).

A request is authenticated and `connect("before")` is called. Then the incoming
connection is copied to the `Connection` of all later callbacks, and only then a
coroutine that the callback started is awaited. The coroutine runs on the event
loop's thread, at its own pace.

`connect_before_kept` says in which runs the copy holds what the callback left in
the incoming connection. -/
namespace Webrockets
open Transition

/-! ### What a callback does to the incoming connection -/

inductive Assignment where
  | user (u : Option PyObj)
  | subprotocol (s : Option String)
  deriving DecidableEq, Repr

def IncomingConnection.assign (conn : IncomingConnection) : Assignment → IncomingConnection
  | .user u => conn.setUser u
  | .subprotocol s => ⟨{ conn.base with subprotocol := s }⟩

def IncomingConnection.assignAll (conn : IncomingConnection) (l : List Assignment) :
    IncomingConnection :=
  l.foldl assign conn

/-- How the task that drives a coroutine ends: the coroutine returned or raised, or the
task did not see it through. -/
inductive CoroutineEnd where
  | returned
  | raised (text : String)
  | lost
  deriving DecidableEq, Repr

/-- A coroutine on the event loop, with the assignments it still has to make. -/
structure Coroutine where
  todo : List Assignment
  ended : Option CoroutineEnd

/-! ### The machine -/

/-- A request and what it meets: the route registered for its path, what the Python objects
that the route names do in this handshake, and `HeaderValue::from_str`. -/
structure Upgrade where
  handler : Option WebsocketRoute
  incoming : IncomingConnection
  authenticator : PyObj → Authenticator
  assignments : PyObj → List Assignment
  headerFromStr : String → Option (List UInt8)

/-- How far the handshake has come. -/
inductive Stage where
  | arrived
  | found (view : WebsocketRoute)
  | authenticated (view : WebsocketRoute)
  | invoked
  | copied (conn : Connection)
  | connected (conn : Connection)
  | accepted (response : Response) (conn : Connection)
  | rejected (response : Response)

structure Handshake where
  stage : Stage
  incoming : IncomingConnection
  coroutine : Option Coroutine

namespace Handshake

/-- The last two are the coroutine's, the others the server's. -/
inductive Action where
  | lookup
  | authenticate
  | invoke (raised : Bool)
  | copy (ok : Bool)
  | blockingLost
  | await
  | upgrade (ok : Bool)
  | assign
  | finish (how : CoroutineEnd)
  deriving DecidableEq, Repr

def start (r : Upgrade) : Handshake := ⟨.arrived, r.incoming, none⟩

def authClasses (r : Upgrade) (view : WebsocketRoute) : List Authenticator :=
  view.authenticationClasses.map r.authenticator

def reject (s : Handshake) (response : Response) : Handshake := { s with stage := .rejected response }

def lookup (r : Upgrade) (s : Handshake) : Handshake :=
  match r.handler with
  | some view => { s with stage := .found view }
  | none => s.reject (.refused 404 "Handler not found")

def authenticate (r : Upgrade) (view : WebsocketRoute) (s : Handshake) : Handshake :=
  match Webrockets.authenticate (authClasses r view) s.incoming with
  | .ok conn => { s with stage := .authenticated view, incoming := conn }
  | .error response => s.reject response

/-- The call of `connect("before")`: a function runs to its end, a coroutine function only
makes a coroutine and hands it to the event loop. -/
def invoke (r : Upgrade) (view : WebsocketRoute) (s : Handshake) : Handshake :=
  match view.connectBeforeCallback with
  | none => { s with stage := .invoked }
  | some cb =>
    if cb.isAsync then
      { s with stage := .invoked, coroutine := some ⟨r.assignments cb.func, none⟩ }
    else
      { s with stage := .invoked, incoming := s.incoming.assignAll (r.assignments cb.func) }

/-- Waits for the coroutine, if there is one. -/
def await (conn : Connection) (s : Handshake) : Option Handshake :=
  match s.coroutine with
  | none => some { s with stage := .connected conn }
  | some c =>
    match c.ended with
    | none => none
    | some .returned => some { s with stage := .connected conn }
    | some (.raised text) => some (s.reject (.refused 401 text))
    | some .lost => some (s.reject connectionFailed)

/-- The protocol is negotiated by what is in the copy. -/
def accept (r : Upgrade) (conn : Connection) (s : Handshake) : Handshake :=
  { s with stage := .accepted ⟨101, "", conn.base.subprotocol.bind r.headerFromStr⟩ conn }

/-- What a panic in the blocking task would come out as. -/
def internalError : Response := .refused 500 "Internal error"

def step (r : Upgrade) (a : Action) (s : Handshake) : Option Handshake :=
  match a with
  | .lookup =>
    match s.stage with
    | .arrived => some (s.lookup r)
    | _ => none
  | .authenticate =>
    match s.stage with
    | .found view => some (s.authenticate r view)
    | _ => none
  | .invoke raised =>
    match s.stage with
    | .authenticated view => some (if raised then s.reject connectionFailed else s.invoke r view)
    | _ => none
  | .copy ok =>
    match s.stage with
    | .invoked =>
      some (if ok then { s with stage := .copied s.incoming.upgrade }
        else s.reject (.refused 500 "Upgrade failed"))
    | _ => none
  | .blockingLost =>
    match s.stage with
    | .found _ | .authenticated _ | .invoked => some (s.reject internalError)
    | _ => none
  | .await =>
    match s.stage with
    | .copied conn => s.await conn
    | _ => none
  | .upgrade ok =>
    match s.stage with
    | .connected conn =>
      some (if ok then s.accept r conn else s.reject (.refused 400 "WebSocket upgrade failed"))
    | _ => none
  | .assign =>
    match s.coroutine with
    | some ⟨a :: rest, none⟩ =>
      some { s with incoming := s.incoming.assign a, coroutine := some ⟨rest, none⟩ }
    | _ => none
  | .finish how =>
    match s.coroutine with
    | some ⟨todo, none⟩ =>
      if how = .returned ∧ todo ≠ [] then none
      else some { s with coroutine := some ⟨todo, some how⟩ }
    | _ => none

/-- What each action requires and does. -/
inductive Moves (r : Upgrade) (s : Handshake) : Action → Handshake → Prop
  | lookup (h : s.stage = .arrived) : Moves r s .lookup (s.lookup r)
  | authenticate {view : WebsocketRoute} (h : s.stage = .found view) :
      Moves r s .authenticate (s.authenticate r view)
  | invoke {view : WebsocketRoute} (h : s.stage = .authenticated view) :
      Moves r s (.invoke false) (s.invoke r view)
  | raise {view : WebsocketRoute} (h : s.stage = .authenticated view) :
      Moves r s (.invoke true) (s.reject connectionFailed)
  | copy (h : s.stage = .invoked) :
      Moves r s (.copy true) { s with stage := .copied s.incoming.upgrade }
  | copyFailed : Moves r s (.copy false) (s.reject (.refused 500 "Upgrade failed"))
  | blockingLost : Moves r s .blockingLost (s.reject internalError)
  | await {conn : Connection} {t : Handshake} (h : s.stage = .copied conn)
      (ht : s.await conn = some t) : Moves r s .await t
  | upgrade {conn : Connection} (h : s.stage = .connected conn) :
      Moves r s (.upgrade true) (s.accept r conn)
  | upgradeFailed :
      Moves r s (.upgrade false) (s.reject (.refused 400 "WebSocket upgrade failed"))
  | assign {a : Assignment} {rest : List Assignment} (h : s.coroutine = some ⟨a :: rest, none⟩) :
      Moves r s .assign
        { s with incoming := s.incoming.assign a, coroutine := some ⟨rest, none⟩ }
  | finish {todo : List Assignment} {how : CoroutineEnd} (h : s.coroutine = some ⟨todo, none⟩)
      (hdone : ¬ (how = .returned ∧ todo ≠ [])) :
      Moves r s (.finish how) { s with coroutine := some ⟨todo, some how⟩ }

theorem step_moves {r : Upgrade} {a : Action} {s t : Handshake} (h : step r a s = some t) :
    Moves r s a t := by
  cases a with
  | lookup =>
    simp only [step] at h
    split at h
    · next hstage =>
      cases h
      exact .lookup hstage
    · cases h
  | authenticate =>
    simp only [step] at h
    split at h
    · next view hstage =>
      cases h
      exact .authenticate hstage
    · cases h
  | invoke raised =>
    simp only [step] at h
    split at h
    · next view hstage =>
      cases h
      cases raised with
      | true => exact .raise hstage
      | false => exact .invoke hstage
    · cases h
  | copy ok =>
    simp only [step] at h
    split at h
    · next hstage =>
      cases h
      cases ok with
      | true => exact .copy hstage
      | false => exact .copyFailed
    · cases h
  | blockingLost =>
    simp only [step] at h
    split at h <;> cases h <;> exact .blockingLost
  | await =>
    simp only [step] at h
    split at h
    · next conn hstage => exact .await hstage h
    · cases h
  | upgrade ok =>
    simp only [step] at h
    split at h
    · next conn hstage =>
      cases h
      cases ok with
      | true => exact .upgrade hstage
      | false => exact .upgradeFailed
    · cases h
  | assign =>
    simp only [step] at h
    split at h
    · next hc =>
      cases h
      exact .assign hc
    · cases h
  | finish how =>
    simp only [step] at h
    split at h
    · next hc =>
      split at h
      · cases h
      · next hdone =>
        cases h
        exact .finish hc hdone
    · cases h

/-- Awaiting connects once the coroutine, if there is one, has returned, or it refuses. -/
theorem await_some {conn : Connection} {s t : Handshake} (h : s.await conn = some t) :
    (t = { s with stage := .connected conn } ∧
        (s.coroutine = none ∨ ∃ c, s.coroutine = some c ∧ c.ended = some .returned)) ∨
      ∃ response, t = s.reject response := by
  rw [await] at h
  split at h
  · next hc =>
    cases h
    exact .inl ⟨rfl, .inl hc⟩
  · next c hc =>
    split at h
    · cases h
    · next hended =>
      cases h
      exact .inl ⟨rfl, .inr ⟨c, hc, hended⟩⟩
    · cases h
      exact .inr ⟨_, rfl⟩
    · cases h
      exact .inr ⟨_, rfl⟩

/-! ### What the callback leaves -/

/-- The assignments the coroutine still has to make. -/
def outstanding (s : Handshake) : List Assignment :=
  match s.coroutine with
  | some c => c.todo
  | none => []

end Handshake

/-- What the incoming connection holds when `connect("before")` has finished. -/
def Upgrade.held (r : Upgrade) : IncomingConnection :=
  match r.handler with
  | none => r.incoming
  | some view =>
    let conn := (authenticated (Handshake.authClasses r view) r.incoming).2
    match view.connectBeforeCallback with
    | none => conn
    | some cb => conn.assignAll (r.assignments cb.func)

namespace Handshake

/-- The coroutine will leave user and subprotocol as they are now. -/
structure Settled (s : Handshake) : Prop where
  user : (s.incoming.assignAll s.outstanding).base.user = s.incoming.base.user
  subprotocol : (s.incoming.assignAll s.outstanding).base.subprotocol = s.incoming.base.subprotocol

/-- The connection is what the callback left. -/
structure Holds (r : Upgrade) (conn : Connection) : Prop where
  user : conn.base.user = r.held.base.user
  base : conn.base.subprotocol = r.held.base.subprotocol
  subprotocol : conn.subprotocol = r.held.base.subprotocol

/-- What holds at each stage. -/
def Follows (r : Upgrade) (s : Handshake) : Prop :=
  match s.stage with
  | .arrived => s.incoming = r.incoming ∧ s.coroutine = none
  | .found view => r.handler = some view ∧ s.incoming = r.incoming ∧ s.coroutine = none
  | .authenticated view => r.handler = some view ∧ s.coroutine = none ∧
      s.incoming = (authenticated (authClasses r view) r.incoming).2
  | .invoked => s.incoming.assignAll s.outstanding = r.held
  | .copied _ => s.incoming.assignAll s.outstanding = r.held
  | .connected _ => s.incoming = r.held ∧ s.outstanding = []
  | .accepted response conn => s.incoming = r.held ∧ s.outstanding = [] ∧
      response.protocol = conn.base.subprotocol.bind r.headerFromStr
  | .rejected _ => True

/-- A coroutine that has returned has nothing left to do. -/
def Returned (s : Handshake) : Prop :=
  ∀ c, s.coroutine = some c → c.ended = some .returned → c.todo = []

theorem authenticate_ok {l : List Authenticator} {conn conn' : IncomingConnection}
    (h : Webrockets.authenticate l conn = .ok conn') : conn' = (authenticated l conn).2 := by
  simp only [Webrockets.authenticate] at h
  split at h
  · next hok =>
    rw [hok]
    exact (Except.ok.inj h).symm
  · cases h

/-- Both of it: what the induction over runs carries. -/
structure Sound (r : Upgrade) (s : Handshake) : Prop where
  follows : Follows r s
  returned : Returned s

variable {r : Upgrade} {s t : Handshake}

theorem start_sound (r : Upgrade) : Sound r (start r) :=
  ⟨⟨rfl, rfl⟩, fun _ hc => by cases hc⟩

theorem reject_sound (hs : Sound r s) (response : Response) : Sound r (s.reject response) :=
  ⟨trivial, hs.returned⟩

/-- The call itself: the assignments are made, or left to the coroutine. -/
theorem invoke_sound {view : WebsocketRoute} (hview : r.handler = some view)
    (hnone : s.coroutine = none)
    (hincoming : s.incoming = (authenticated (authClasses r view) r.incoming).2) :
    Sound r (s.invoke r view) := by
  have hheld : r.held = match view.connectBeforeCallback with
      | none => s.incoming
      | some cb => s.incoming.assignAll (r.assignments cb.func) := by
    rw [Upgrade.held, hview, hincoming]
  rw [invoke]
  cases hcb : view.connectBeforeCallback with
  | none =>
    rw [hcb] at hheld
    refine ⟨?_, fun c hc => ?_⟩
    · show s.incoming.assignAll (match s.coroutine with | some c => c.todo | none => []) = r.held
      rw [hnone, hheld]
      rfl
    · cases hnone.symm.trans hc
  | some cb =>
    rw [hcb] at hheld
    dsimp only at hheld ⊢
    split
    · refine ⟨hheld.symm, fun c hc hreturned => ?_⟩
      cases hc
      cases hreturned
    · refine ⟨?_, fun c hc => ?_⟩
      · show (s.incoming.assignAll _).assignAll (match s.coroutine with
          | some c => c.todo
          | none => []) = r.held
        rw [hnone, hheld]
        rfl
      · cases hnone.symm.trans hc

/-- One more assignment of the coroutine is one fewer outstanding. -/
theorem assign_sound (hs : Sound r s) {a : Assignment} {rest : List Assignment}
    (hc : s.coroutine = some ⟨a :: rest, none⟩) :
    Sound r { s with incoming := s.incoming.assign a, coroutine := some ⟨rest, none⟩ } := by
  refine ⟨?_, fun c hc' hreturned => ?_⟩
  · have hf := hs.follows
    have hout : s.outstanding = a :: rest := by rw [outstanding, hc]
    simp only [Follows] at hf ⊢
    cases hstage : s.stage with
    | arrived | found view | authenticated view =>
      simp [hstage, hc] at hf
    | invoked | copied conn =>
      rw [hstage, hout] at hf
      exact hf
    | connected conn | accepted response conn =>
      simp [hstage, hout] at hf
    | rejected response => trivial
  · cases hc'
    cases hreturned

theorem finish_sound (hs : Sound r s) {todo : List Assignment} {how : CoroutineEnd}
    (hc : s.coroutine = some ⟨todo, none⟩) (hdone : ¬ (how = .returned ∧ todo ≠ [])) :
    Sound r { s with coroutine := some ⟨todo, some how⟩ } := by
  refine ⟨?_, fun c hc' hreturned => ?_⟩
  · have hf := hs.follows
    have hout : s.outstanding = todo := by rw [outstanding, hc]
    simp only [Follows] at hf ⊢
    cases hstage : s.stage with
    | arrived | found view | authenticated view =>
      simp [hstage, hc] at hf
    | invoked | copied conn | connected conn | accepted response conn =>
      rw [hstage, hout] at hf
      exact hf
    | rejected response => trivial
  · cases hc'
    obtain rfl : how = .returned := Option.some.inj hreturned
    by_contra hne
    exact hdone ⟨rfl, hne⟩

/-- Awaiting takes the copy as it is, when nothing is outstanding any more. -/
theorem connected_sound (hs : Sound r s) {conn : Connection} (hstage : s.stage = .copied conn)
    (hdone : s.outstanding = []) : Sound r { s with stage := .connected conn } := by
  have hf := hs.follows
  simp only [Follows, hstage, hdone] at hf
  exact ⟨⟨hf, hdone⟩, hs.returned⟩

theorem step_sound (hs : Sound r s) {a : Action} (h : step r a s = some t) : Sound r t := by
  have hf := hs.follows
  cases step_moves h with
  | lookup hstage =>
    simp only [Follows, hstage] at hf
    rw [lookup]
    split
    · next view hview => exact ⟨⟨hview, hf⟩, hs.returned⟩
    · exact reject_sound hs _
  | authenticate hstage =>
    simp only [Follows, hstage] at hf
    obtain ⟨hview, hincoming, hnone⟩ := hf
    rw [authenticate]
    split
    · next conn hok =>
      rw [hincoming] at hok
      exact ⟨⟨hview, hnone, authenticate_ok hok⟩, hs.returned⟩
    · exact reject_sound hs _
  | invoke hstage =>
    simp only [Follows, hstage] at hf
    obtain ⟨hview, hnone, hincoming⟩ := hf
    exact invoke_sound hview hnone hincoming
  | copy hstage =>
    simp only [Follows, hstage] at hf
    exact ⟨hf, hs.returned⟩
  | await hstage ht =>
    rcases await_some ht with ⟨rfl, hnone | ⟨c, hc, hended⟩⟩ | ⟨response, rfl⟩
    · exact connected_sound hs hstage (by rw [outstanding, hnone])
    · apply connected_sound hs hstage
      rw [outstanding, hc]
      exact hs.returned c hc hended
    · exact reject_sound hs _
  | upgrade hstage =>
    simp only [Follows, hstage] at hf
    exact ⟨⟨hf.1, hf.2, rfl⟩, hs.returned⟩
  | assign hc => exact assign_sound hs hc
  | finish hc hdone => exact finish_sound hs hc hdone
  | raise | copyFailed | blockingLost | upgradeFailed => exact reject_sound hs _

/-! ### The copy -/

/-- The copy, once it is taken. -/
def conn (s : Handshake) : Option Connection :=
  match s.stage with
  | .copied conn => some conn
  | .connected conn => some conn
  | .accepted _ conn => some conn
  | _ => none

def IsRejected (s : Handshake) : Prop := ∃ response, s.stage = .rejected response

theorem conn_of_rejected (h : s.IsRejected) : s.conn = none := by
  obtain ⟨response, hstage⟩ := h
  rw [conn, hstage]

theorem step_rejected (hs : s.IsRejected) {a : Action} (h : step r a s = some t) : t.IsRejected := by
  obtain ⟨response, hrejected⟩ := hs
  cases step_moves h with
  | raise | copyFailed | blockingLost | upgradeFailed => exact ⟨_, rfl⟩
  | assign | finish => exact ⟨response, hrejected⟩
  | lookup hstage | authenticate hstage | invoke hstage | copy hstage | await hstage
  | upgrade hstage => cases hrejected.symm.trans hstage

theorem run_rejected {sched : List Action} (h : run (step r) s sched = some t)
    (hs : s.IsRejected) : t.conn = none :=
  conn_of_rejected (run_invariant (fun _ _ _ hm hstep => step_rejected hm hstep) sched h hs)

/-- The copy is taken once, by the action for it, and nothing changes it. -/
theorem step_conn {a : Action} (h : step r a s = some t) :
    t.IsRejected ∨ (a ≠ .copy true ∧ t.conn = s.conn) ∨
      (a = .copy true ∧ s.conn = none ∧ t.conn = some s.incoming.upgrade) := by
  cases step_moves h with
  | raise | copyFailed | blockingLost | upgradeFailed => exact .inl ⟨_, rfl⟩
  | assign | finish => exact .inr (.inl ⟨Action.noConfusion, rfl⟩)
  | lookup hstage =>
    rw [lookup]
    split
    · exact .inr (.inl ⟨Action.noConfusion, by rw [conn, conn, hstage]⟩)
    · exact .inl ⟨_, rfl⟩
  | authenticate hstage =>
    rw [authenticate]
    split
    · exact .inr (.inl ⟨Action.noConfusion, by rw [conn, conn, hstage]⟩)
    · exact .inl ⟨_, rfl⟩
  | invoke hstage =>
    have hnone : s.conn = none := by rw [conn, hstage]
    refine .inr (.inl ⟨Action.noConfusion, ?_⟩)
    rw [hnone, invoke]
    split
    · rfl
    · split <;> rfl
  | copy hstage => exact .inr (.inr ⟨rfl, by rw [conn, hstage], rfl⟩)
  | await hstage ht =>
    rcases await_some ht with ⟨rfl, _⟩ | ⟨response, rfl⟩
    · exact .inr (.inl ⟨Action.noConfusion, by rw [conn, conn, hstage]⟩)
    · exact .inl ⟨response, rfl⟩
  | upgrade hstage => exact .inr (.inl ⟨Action.noConfusion, by rw [conn, conn, hstage]; rfl⟩)

/-- What is asked of a step: a copy is taken of a settled connection. -/
def CopiesSettled (a : Action) (s : Handshake) : Prop := a = .copy true → s.Settled

/-- After the copy, it stays as it is. -/
theorem run_copied {c d : Connection} {sched : List Action} (h : run (step r) s sched = some t)
    (hs : s.conn = some c) (ht : t.conn = some d) :
    d = c ∧ Meets (step r) CopiesSettled s sched := by
  induction sched generalizing s with
  | nil =>
    cases h
    exact ⟨Option.some.inj (ht.symm.trans hs), trivial⟩
  | cons a rest ih =>
    obtain ⟨m, hm, hrest⟩ := run_cons.mp h
    rw [meets_cons hm]
    rcases step_conn hm with hrejected | ⟨ha, hconn⟩ | ⟨_, hnone, _⟩
    · cases (run_rejected hrest hrejected).symm.trans ht
    · obtain ⟨hd, hmeets⟩ := ih hrest (hconn.trans hs)
      exact ⟨hd, fun he => absurd he ha, hmeets⟩
    · cases hnone.symm.trans hs

/-- A copy of a connection whose outcome is known holds it exactly if that is settled. -/
theorem holds_upgrade (hs : s.incoming.assignAll s.outstanding = r.held) :
    Holds r s.incoming.upgrade ↔ s.Settled := by
  refine ⟨fun h => ⟨?_, ?_⟩, fun h => ⟨?_, ?_, ?_⟩⟩
  · rw [hs]
    exact h.user.symm
  · rw [hs]
    exact h.base.symm
  · rw [← hs]
    exact h.user.symm
  · rw [← hs]
    exact h.subprotocol.symm
  · rw [← hs]
    exact h.subprotocol.symm

theorem run_holds {d : Connection} {sched : List Action} (h : run (step r) s sched = some t)
    (hsound : Sound r s) (hs : s.conn = none) (ht : t.conn = some d) :
    Holds r d ↔ Meets (step r) CopiesSettled s sched := by
  induction sched generalizing s with
  | nil =>
    cases h
    cases hs.symm.trans ht
  | cons a rest ih =>
    obtain ⟨m, hm, hrest⟩ := run_cons.mp h
    rw [meets_cons hm]
    rcases step_conn hm with hrejected | ⟨ha, hconn⟩ | ⟨ha, _, hcopy⟩
    · cases (run_rejected hrest hrejected).symm.trans ht
    · rw [ih hrest (step_sound hsound hm) (hconn.trans hs)]
      exact ⟨fun hmeets => ⟨fun he => absurd he ha, hmeets⟩, fun hmeets => hmeets.2⟩
    · obtain ⟨rfl, hmeets⟩ := run_copied hrest hcopy ht
      subst ha
      have hf := hsound.follows
      cases step_moves hm with
      | copy hstage =>
        simp only [Follows, hstage] at hf
        rw [holds_upgrade hf]
        exact ⟨fun hsettled => ⟨fun _ => hsettled, hmeets⟩, fun h => h.1 rfl⟩

/-- **What `connect("before")` writes is what the connection gets, exactly if the copy is
taken when it is settled.** In a handshake that succeeds the incoming connection ends as
the callback left it. The `Connection` has that user and that subprotocol, and the
response names the subprotocol, if and only if the assignments a coroutine had left to
make when the copy was taken do not change them. -/
theorem connect_before_kept {sched : List Action} {response : Response} {conn : Connection}
    (hrun : run (step r) (start r) sched = some s) (hstage : s.stage = .accepted response conn) :
    s.incoming = r.held ∧
      (Holds r conn ∧ response.protocol = r.held.base.subprotocol.bind r.headerFromStr ↔
        Meets (step r) CopiesSettled (start r) sched) := by
  have hsound : Sound r s :=
    run_invariant (fun _ _ _ hm hstep => step_sound hm hstep) sched hrun (start_sound r)
  have hf := hsound.follows
  simp only [Follows, hstage] at hf
  obtain ⟨hincoming, _, hprotocol⟩ := hf
  have hconn : s.conn = some conn := by rw [Handshake.conn, hstage]
  rw [← run_holds hrun (start_sound r) rfl hconn]
  refine ⟨hincoming, fun h => h.1, fun h => ⟨h, ?_⟩⟩
  rw [hprotocol, h.base]

/-- Without a coroutine function there is no coroutine. -/
theorem step_sync (hsync : ∀ view cb, r.handler = some view →
      view.connectBeforeCallback = some cb → cb.isAsync = false)
    (hs : Sound r s ∧ s.coroutine = none) {a : Action} (h : step r a s = some t) :
    Sound r t ∧ t.coroutine = none := by
  obtain ⟨hsound, hnone⟩ := hs
  refine ⟨step_sound hsound h, ?_⟩
  cases step_moves h with
  | raise | copyFailed | blockingLost | upgradeFailed | copy | upgrade => exact hnone
  | assign hc | finish hc => cases hnone.symm.trans hc
  | lookup =>
    rw [lookup]
    split <;> exact hnone
  | authenticate =>
    rw [authenticate]
    split <;> exact hnone
  | @invoke view hstage =>
    have hf := hsound.follows
    simp only [Follows, hstage] at hf
    rw [invoke]
    cases hcb : view.connectBeforeCallback with
    | none => exact hnone
    | some cb =>
      dsimp only
      rw [hsync view cb hf.1 hcb]
      exact hnone
  | await hstage ht =>
    rcases await_some ht with ⟨rfl, _⟩ | ⟨response, rfl⟩ <;> exact hnone

/-- With a function that is not a coroutine function every copy is settled. -/
theorem sync_settled (hsync : ∀ view cb, r.handler = some view →
      view.connectBeforeCallback = some cb → cb.isAsync = false) (sched : List Action) :
    Meets (step r) CopiesSettled (start r) sched := by
  apply meets_of_invariant (P := fun s => Sound r s ∧ s.coroutine = none)
  · exact fun _ _ _ hs hstep => step_sync hsync hs hstep
  · intro a s hs _
    have hout : s.outstanding = [] := by rw [outstanding, hs.2]
    exact ⟨by rw [hout]; rfl, by rw [hout]; rfl⟩
  · exact ⟨start_sound r, rfl⟩

/-- A route whose `connect("before")` is a coroutine function that chooses a subprotocol. -/
def choosing : Upgrade where
  handler := some { WebsocketRoute.new "/ws" none [] with
    connectBeforeCallback := some ⟨3, true⟩ }
  incoming := plainRequest
  authenticator := fun _ => .plain .none
  assignments := fun _ => [.subprotocol (some "chat")]
  headerFromStr := fun s => some s.toUTF8.data.toList

/-- The coroutine is through before the copy is taken. -/
def prompt : List Action :=
  [.lookup, .authenticate, .invoke false, .assign, .finish .returned, .copy true, .await,
    .upgrade true]

/-- The copy is taken before the coroutine gets to its assignment. -/
def late : List Action :=
  [.lookup, .authenticate, .invoke false, .copy true, .assign, .finish .returned, .await,
    .upgrade true]

theorem prompt_settled : Meets (step choosing) CopiesSettled (start choosing) prompt := by
  refine ⟨Action.noConfusion, fun t ht => ?_⟩
  cases ht
  refine ⟨Action.noConfusion, fun t ht => ?_⟩
  cases ht
  refine ⟨Action.noConfusion, fun t ht => ?_⟩
  cases ht
  refine ⟨Action.noConfusion, fun t ht => ?_⟩
  cases ht
  refine ⟨Action.noConfusion, fun t ht => ?_⟩
  cases ht
  refine ⟨fun _ => ⟨rfl, rfl⟩, fun t ht => ?_⟩
  cases ht
  exact ⟨Action.noConfusion, fun t _ => ⟨Action.noConfusion, fun _ _ => trivial⟩⟩

theorem connect_before_kept_chat : ∃ s response conn,
    run (step choosing) (start choosing) prompt = some s ∧ s.stage = .accepted response conn ∧
      s.incoming = choosing.held ∧ Holds choosing conn ∧
        response.protocol = choosing.held.base.subprotocol.bind choosing.headerFromStr := by
  let s := (run (step choosing) (start choosing) prompt).get (by decide)
  have hrun : run (step choosing) (start choosing) prompt = some s := (Option.some_get _).symm
  obtain ⟨hincoming, hkept⟩ := connect_before_kept hrun rfl
  exact ⟨s, _, _, hrun, rfl, hincoming, hkept.mpr prompt_settled⟩

/-- The callback chose `chat`, and the connection and the response have no subprotocol. -/
theorem subprotocol_lost : ∃ s response conn,
    run (step choosing) (start choosing) late = some s ∧ s.stage = .accepted response conn ∧
      s.incoming.base.subprotocol = some "chat" ∧ conn.subprotocol = none ∧
      response.protocol = none := by
  let s := (run (step choosing) (start choosing) late).get (by decide)
  have hrun : run (step choosing) (start choosing) late = some s := (Option.some_get _).symm
  exact ⟨s, _, _, hrun, rfl, rfl, rfl, rfl⟩

end Handshake

end Webrockets
