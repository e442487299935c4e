import Webrockets.Dispatch

/-! The life of a route: registrations and connections in any order.

`handle_client` takes the handlers of a connection from the route, and the first
connection freezes the table of patterns. Until then is the registration phase.
`afterEvents` is the route after any interleaving of `receive` calls and
connections; `frozen_table` says which patterns a connection dispatches with and
`registrations_kept` that none registered in time is lost. -/
namespace Webrockets

inductive RouteEvent where
  | receive (c : ReceiveCall)
  | connection

namespace RouteEvent

/-- A call that raises leaves the route as it is. -/
def apply (py : Python) (view : WebsocketRoute) : RouteEvent → WebsocketRoute
  | .receive c =>
    match c.run py view with
    | .ok view => view
    | .error _ => view
  | .connection => view.receiveCallback.2

def isReceive : RouteEvent → Bool
  | .receive _ => true
  | .connection => false

end RouteEvent

def afterEvents (py : Python) (events : List RouteEvent) (view : WebsocketRoute) : WebsocketRoute :=
  events.foldl (RouteEvent.apply py) view

/-- The calls made before the first connection. -/
def registrationPhase : List RouteEvent → List ReceiveCall
  | .receive c :: rest => c :: registrationPhase rest
  | _ => []

/-- What a connection that comes after the events dispatches with. -/
def receiveCallbackAfter (py : Python) (events : List RouteEvent) (view : WebsocketRoute) :
    ReceiveCallback :=
  (afterEvents py events view).receiveCallback.1

/-! ### The frozen table -/

theorem afterEvents_append (py : Python) (a b : List RouteEvent) (view : WebsocketRoute) :
    afterEvents py (a ++ b) view = afterEvents py b (afterEvents py a view) := List.foldl_append

theorem apply_ok {py : Python} {view view' : WebsocketRoute} {c : ReceiveCall}
    (h : c.run py view = .ok view') : RouteEvent.apply py view (.receive c) = view' := by
  rw [RouteEvent.apply, h]

theorem apply_receiveHandlers {py : Python} {view : WebsocketRoute} {handlers : Handlers}
    (h : view.receiveHandlers = some handlers) (e : RouteEvent) :
    (e.apply py view).receiveHandlers = some handlers := by
  cases e with
  | receive c => exact (receiveAll_receiveHandlers py [c] view).trans h
  | connection =>
    simp only [RouteEvent.apply, WebsocketRoute.receiveCallback, WebsocketRoute.frozenHandlers, h]

theorem frozen_kept {py : Python} (events : List RouteEvent) {view : WebsocketRoute}
    {handlers : Handlers} (h : view.receiveHandlers = some handlers) :
    (receiveCallbackAfter py events view).handlers = handlers := by
  induction events generalizing view with
  | nil =>
    simp only [receiveCallbackAfter, afterEvents, List.foldl_nil, WebsocketRoute.receiveCallback,
      WebsocketRoute.frozenHandlers, h]
  | cons e rest ih => exact ih (apply_receiveHandlers h e)

/-- A connection dispatches with the table as it was when the registration phase ended. -/
theorem frozen_table (py : Python) (events : List RouteEvent) {view : WebsocketRoute}
    (h : view.receiveHandlers = none) :
    (receiveCallbackAfter py events view).handlers =
      (receiveAll py (registrationPhase events) view).receiveHandlersMut := by
  induction events generalizing view with
  | nil =>
    simp only [receiveCallbackAfter, afterEvents, List.foldl_nil, WebsocketRoute.receiveCallback,
      WebsocketRoute.frozenHandlers, h]
    rfl
  | cons e rest ih =>
    cases e with
    | receive c => exact ih ((receiveAll_receiveHandlers py [c] view).trans h)
    | connection =>
      have hfrozen : (RouteEvent.connection.apply py view).receiveHandlers =
          some view.receiveHandlersMut := by
        simp only [RouteEvent.apply, WebsocketRoute.receiveCallback, WebsocketRoute.frozenHandlers, h]
      exact frozen_kept rest hfrozen

theorem registrationPhase_append {before : List RouteEvent}
    (h : ∀ e ∈ before, e.isReceive = true) (rest : List RouteEvent) :
    registrationPhase (before ++ rest) = registrationPhase before ++ registrationPhase rest := by
  induction before with
  | nil => rfl
  | cons e before ih =>
    cases e with
    | receive c =>
      have hrest := ih fun e he => h e (List.mem_cons_of_mem _ he)
      exact congrArg (List.cons c) hrest
    | connection => cases h _ List.mem_cons_self

/-- Before the first connection there is nothing but registrations. -/
theorem afterEvents_phase {py : Python} {events : List RouteEvent}
    (h : ∀ e ∈ events, e.isReceive = true) (view : WebsocketRoute) :
    afterEvents py events view = receiveAll py (registrationPhase events) view := by
  induction events generalizing view with
  | nil => rfl
  | cons e rest ih =>
    cases e with
    | receive c => exact ih (fun e he => h e (List.mem_cons_of_mem _ he)) _
    | connection => cases h _ List.mem_cons_self

theorem patterns_append (py : Python) (a b : List ReceiveCall) (view : WebsocketRoute) :
    patterns py (a ++ b) view = patterns py a view ++ patterns py b (receiveAll py a view) := by
  induction a generalizing view with
  | nil => rfl
  | cons c rest ih =>
    simp only [List.cons_append, patterns, receiveAll, List.foldl_cons]
    cases c.run py view with
    | ok view' => simp only [ih, List.append_assoc, receiveAll]
    | error e => exact ih view

/-! ### The generic handler -/

/-- The generic handler that is set stays. -/
theorem apply_generic (py : Python) {view : WebsocketRoute} {cb : Callback}
    (h : view.genericReceive = some cb) (e : RouteEvent) :
    (e.apply py view).genericReceive = some cb ∧
      (e.apply py view).genericReceiveSchema = view.genericReceiveSchema := by
  cases e with
  | receive c =>
    simp only [RouteEvent.apply]
    cases hc : c.run py view with
    | error e => exact ⟨h, rfl⟩
    | ok view' =>
      rcases ReceiveCall.run_ok hc with ⟨p, _, _, rfl⟩ | ⟨_, hg⟩
      · exact ⟨h, rfl⟩
      · simp [WebsocketRoute.setGeneric, h] at hg
  | connection =>
    simp only [RouteEvent.apply, WebsocketRoute.receiveCallback, WebsocketRoute.frozenHandlers]
    split <;> exact ⟨h, rfl⟩

theorem generic_kept {py : Python} (events : List RouteEvent) {view : WebsocketRoute} {cb : Callback}
    (h : view.genericReceive = some cb) :
    (receiveCallbackAfter py events view).generic = some cb ∧
      (receiveCallbackAfter py events view).genericSchema = view.genericReceiveSchema := by
  induction events generalizing view with
  | nil => exact ⟨h, rfl⟩
  | cons e rest ih =>
    obtain ⟨hcb, hschema⟩ := apply_generic py h e
    obtain ⟨hgeneric, hkept⟩ := ih hcb
    exact ⟨hgeneric, hkept.trans hschema⟩

/-! ### Registrations in time -/

def Match.Accepts (m : Match) (json : Json) : Prop := ∃ k, m.AcceptsAt json k

/-- The patterns of the registration phase, by their numbers. -/
def phasePatterns (py : Python) (events : List RouteEvent) (view : WebsocketRoute) : List Pattern :=
  patterns py (registrationPhase events) view

/-- A pattern that is the only one of the table to accept a message gets it. -/
theorem only_accepting {py : Python} {ps : List Pattern} {view : WebsocketRoute}
    (hb : Built py ps view) {n : Nat} {p : Pattern} (hp : ps[n]? = some p) {json : Json}
    (ha : p.spec.Accepts json) (honly : ∀ (m : Nat) (q : Pattern), ps[m]? = some q →
      q.spec.Accepts json → m = n) :
    ∃ k, findHandler view.receiveHandlersMut json = some (p.handler py n, k) ∧
      p.spec.AcceptsAt json k := by
  obtain ⟨k, hk⟩ := ha
  have hsome := findHandler_complete hb (List.mem_of_getElem? hp) hk
  obtain ⟨⟨handler, k'⟩, hfind⟩ := Option.isSome_iff_exists.mp hsome
  obtain ⟨m, q, hq, hhandler, haccepts⟩ := findHandler_sound hb hfind
  obtain rfl := honly m q hq ⟨k', haccepts⟩
  obtain rfl : q = p := Option.some.inj (hq.symm.trans hp)
  exact ⟨k', by rw [hfind, hhandler], haccepts⟩

/-- The number a pattern gets that is registered in the registration phase. -/
theorem phasePatterns_getElem {py : Python} {before after : List RouteEvent} {c : ReceiveCall}
    {p : Pattern} {view view' : WebsocketRoute} (hphase : ∀ e ∈ before, e.isReceive = true)
    (h : c.run py (afterEvents py before view) = .ok view') (hc : c.pattern = some p) :
    (phasePatterns py (before ++ .receive c :: after) view)[(phasePatterns py before view).length]? =
      some p := by
  rw [afterEvents_phase hphase] at h
  simp only [phasePatterns, registrationPhase_append hphase, registrationPhase, patterns_append,
    patterns, h, hc, Option.toList_some, List.singleton_append]
  simp

/-- **No registration made in time is lost.** A call that returned before a connection has
registered for it: the generic handler, with its schema, whenever that was, so that it is called
for a message that no pattern is selected for; a pattern, if it was before the route's first
connection, so that its handler is called for a message which it alone accepts. -/
theorem registrations_kept (py : Python) (serde : Serde) (path : String)
    (defaultGroup : Option String) (authenticationClasses : List PyObj)
    (before after : List RouteEvent) (c : ReceiveCall) (view' : WebsocketRoute)
    (disconnectCallback : Option Callback)
    (h : c.run py (afterEvents py before (.new path defaultGroup authenticationClasses)) =
      .ok view') :
    let route := WebsocketRoute.new path defaultGroup authenticationClasses
    let events := before ++ .receive c :: after
    let rc := receiveCallbackAfter py events route
    let calls := fun payload => (turn py serde rc disconnectCallback (some (Message.text payload).frame)).1
    (c.pattern = none →
      (rc.generic = some ⟨c.func, py.isAsync c.func⟩ ∧ rc.genericSchema = c.schema) ∧
      ∀ payload, rc.matchResult serde payload = none →
        calls payload = Callback.invokeText ⟨c.func, py.isAsync c.func⟩ py c.schema payload) ∧
    ∀ p, c.pattern = some p → (∀ e ∈ before, e.isReceive = true) →
      ∃ n, (phasePatterns py events route)[n]? = some p ∧
        ∀ payload json, serde.fromStr payload = some json → p.spec.Accepts json →
          (∀ (m : Nat) (q : Pattern), (phasePatterns py events route)[m]? = some q →
            q.spec.Accepts json → m = n) →
          ∃ k, rc.matchResult serde payload = some (p.handler py n, k) ∧ p.spec.AcceptsAt json k ∧
            calls payload = (p.handler py n).callback.invokeText py (p.handler py n).schema
              ((p.handler py n).payload serde json k payload) := by
  intro route events rc calls
  have hcalls : ∀ payload, calls payload = rc.onText py serde payload := fun payload =>
    congrArg Prod.fst (turn_text py serde rc disconnectCallback payload)
  refine ⟨fun hc => ?_, fun p hc hphase => ?_⟩
  · suffices hset : rc.generic = some ⟨c.func, py.isAsync c.func⟩ ∧ rc.genericSchema = c.schema by
      refine ⟨hset, fun payload hnone => ?_⟩
      rw [hcalls, rc.onText_generic hnone, hset.1, hset.2]
    have hafter : rc = receiveCallbackAfter py after view' := by
      show (afterEvents py (before ++ .receive c :: after) route).receiveCallback.1 = _
      rw [afterEvents_append, afterEvents, List.foldl_cons, apply_ok h]
      rfl
    rcases ReceiveCall.run_ok h with ⟨p, hp, _⟩ | ⟨_, hg⟩
    · cases hc.symm.trans hp
    · rw [hafter, WebsocketRoute.setGeneric_ok hg]
      exact generic_kept after rfl
  · refine ⟨_, phasePatterns_getElem hphase h hc, fun payload json hjson ha honly => ?_⟩
    have hb : Built py (phasePatterns py events route)
        (receiveAll py (registrationPhase events) route) :=
      receiveAll_built py _ (built_new py path defaultGroup authenticationClasses)
    obtain ⟨k, hfind, haccepts⟩ :=
      only_accepting hb (phasePatterns_getElem hphase h hc) ha honly
    have hmatch : rc.matchResult serde payload =
        some (p.handler py (phasePatterns py before route).length, k) := by
      rw [rc.matchResult_eq, hjson, frozen_table py events rfl]
      exact hfind
    obtain ⟨json', hjson', honText⟩ := rc.onText_selected hmatch py
    obtain rfl : json' = json := Option.some.inj (hjson'.symm.trans hjson)
    exact ⟨k, hmatch, haccepts, (hcalls payload).trans honText⟩

/-- A plain Python: no coroutine functions, and every schema accepts with the object 9. -/
def plainPython : Python := ⟨fun _ => false, fun _ => .ok true, fun _ _ => .ok 9, id⟩

/-- Every text is the same object. -/
def constantSerde (json : Json) : Serde := ⟨fun _ => some json, fun _ => some ""⟩

/-- `Match("type", "chat")`. -/
def chatMatch : Match := ⟨["type"], [.string "chat"], false, List.cons_ne_nil _ _, List.cons_ne_nil _ _⟩

def chatMessage : Json := .object [("type", .string "chat")]

theorem chatMatch_accepts : chatMatch.Accepts chatMessage :=
  ⟨"type", List.mem_cons_self, .string "chat", rfl, .string "chat", List.mem_cons_self, .string "chat"⟩

/-- A pattern registered before the first connection, and a generic handler after it. -/
theorem registrations_kept_chat :
    let events : List RouteEvent := [.receive (.decorated (some chatMatch) none 3), .connection,
      .receive (.decorated none none 4), .connection]
    let rc := receiveCallbackAfter plainPython events (.new "/ws" none [])
    (turn plainPython (constantSerde chatMessage) rc none (some (Message.text "hi").frame)).1 =
        [⟨⟨3, false⟩, .receive (.text "hi")⟩] ∧
      (turn plainPython ⟨fun _ => none, fun _ => none⟩ rc none (some (Message.text "hi").frame)).1 =
        [⟨⟨4, false⟩, .receive (.text "hi")⟩] := by
  intro events rc
  have hpattern := registrations_kept plainPython (constantSerde chatMessage) "/ws" none []
    [] [.connection, .receive (.decorated none none 4), .connection]
    (.decorated (some chatMatch) none 3) _ none rfl
  have hgeneric := registrations_kept plainPython ⟨fun _ => none, fun _ => none⟩ "/ws" none []
    [.receive (.decorated (some chatMatch) none 3), .connection] [.connection]
    (.decorated none none 4) _ none rfl
  refine ⟨?_, (hgeneric.1 rfl).2 "hi" rfl⟩
  have hone {m : Nat} {q : Pattern}
      (hm : (phasePatterns plainPython events (.new "/ws" none []))[m]? = some q) : m = 0 := by
    have hlt := (List.getElem?_eq_some_iff.mp hm).1
    exact Nat.lt_one_iff.mp hlt
  obtain ⟨n, hn, hmatch⟩ := hpattern.2 _ rfl fun e he => nomatch he
  obtain ⟨k, _, _, hcalls⟩ := hmatch "hi" chatMessage rfl chatMatch_accepts
    fun m q hm _ => (hone hm).trans (hone hn).symm
  exact hcalls

/-- Registered after the first connection, without an error: no connection has the pattern,
and all have the generic handler. -/
theorem late_pattern_ignored :
    let before : List RouteEvent := [.connection]
    let late := ReceiveCall.decorated (some chatMatch) none 3
    let generic := ReceiveCall.decorated none none 4
    let rc := receiveCallbackAfter plainPython (before ++ [.receive late, .receive generic])
      (.new "/ws" none [])
    (∃ view', late.run plainPython (afterEvents plainPython before (.new "/ws" none [])) = .ok view') ∧
      chatMatch.Accepts chatMessage ∧
      rc.matchResult (constantSerde chatMessage) "hi" = none ∧ rc.generic = some ⟨4, false⟩ := by
  exact ⟨⟨_, rfl⟩, chatMatch_accepts, rfl, rfl⟩

end Webrockets
