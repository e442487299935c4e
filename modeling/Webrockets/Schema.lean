import Webrockets.History
import Webrockets.Session

/-! Callbacks that are registered with a schema.

Such a callback is there for validated objects: `model_validate_json` of its schema is
called on the text, and its error takes the place of the call. `schema_safe` says in
which runs of a connection that is all such a callback gets: exactly when no binary
frame comes to a generic handler with a schema, which is handed the bytes as they are.
`rejected_unhandled` is what becomes of a message that the schema of its pattern
rejects: nothing. -/
namespace Webrockets
open Transition

/-! ### What a frame is handed to -/

/-- The registration a data frame is handed to, by its callback and its schema, and the
text that goes with it: what is left of the payload of a text frame. -/
structure Handed where
  callback : Callback
  schema : Option PyObj
  text : Option String

def ReceiveCallback.textHanded (rc : ReceiveCallback) (serde : Serde) (payload : String) :
    Option Handed :=
  match rc.jsonValue serde payload, rc.matchResult serde payload with
  | some json, some (handler, matchedKey) =>
    some ⟨handler.callback, handler.schema, some (handler.payload serde json matchedKey payload)⟩
  | _, _ => rc.generic.map fun cb => ⟨cb, rc.genericSchema, some payload⟩

/-- The choice that `receive_listener` makes for a frame. -/
def ReceiveCallback.handed (rc : ReceiveCallback) (serde : Serde) (frame : Frame) : Option Handed :=
  match frame.opcode with
  | .text => (fromUtf8 frame.payload).bind (rc.textHanded serde)
  | .binary => rc.generic.map fun cb => ⟨cb, rc.genericSchema, none⟩
  | _ => none

/-- The callback is called with what its schema makes of the text, or not at all. -/
def Handed.Validates (h : Handed) (py : Python) (calls : List Invocation) : Prop :=
  ∀ schema, h.schema = some schema → ∀ call ∈ calls, ∃ text validated, h.text = some text ∧
    py.modelValidateJson schema text = .ok validated ∧
    call = ⟨h.callback, .receive (.validated validated)⟩

theorem invokeText_validates (py : Python) (cb : Callback) (schema : Option PyObj) (text : String) :
    Handed.Validates ⟨cb, schema, some text⟩ py (cb.invokeText py schema text) := by
  rintro S rfl call hcall
  simp only [Callback.invokeText, Callback.invokeWithSchema] at hcall
  split at hcall
  · next validated hok => exact ⟨text, validated, rfl, hok, List.mem_singleton.mp hcall⟩
  · cases hcall

/-- A text is handed to nobody, or its callback is called with schema and text. -/
theorem onText_handed (rc : ReceiveCallback) (py : Python) (serde : Serde) (payload : String) :
    (rc.textHanded serde payload = none ∧ rc.onText py serde payload = []) ∨
      ∃ cb schema text, rc.textHanded serde payload = some ⟨cb, schema, some text⟩ ∧
        rc.onText py serde payload = cb.invokeText py schema text := by
  cases hmatch : rc.matchResult serde payload with
  | none =>
    have hh : rc.textHanded serde payload =
        rc.generic.map fun cb => ⟨cb, rc.genericSchema, some payload⟩ := by
      rw [ReceiveCallback.textHanded, hmatch]
      cases rc.jsonValue serde payload <;> rfl
    rw [hh, rc.onText_generic hmatch]
    cases rc.generic with
    | none => exact .inl ⟨rfl, rfl⟩
    | some cb => exact .inr ⟨cb, _, payload, rfl, rfl⟩
  | some found =>
    obtain ⟨handler, matchedKey⟩ := found
    obtain ⟨json, hjson, _⟩ := Option.bind_eq_some_iff.mp hmatch
    refine .inr ⟨handler.callback, handler.schema, handler.payload serde json matchedKey payload, ?_, ?_⟩
    · simp only [ReceiveCallback.textHanded, hjson, hmatch]
    · simp only [ReceiveCallback.onText, hjson, hmatch]

/-- What a data frame makes the listener call is the callback it is handed to. -/
theorem turn_handed {py : Python} {serde : Serde} {rc : ReceiveCallback}
    {disconnectCallback : Option Callback} {frame : Frame} (hframe : frame.opcode ≠ .close)
    {call : Invocation} (h : call ∈ (turn py serde rc disconnectCallback (some frame)).1) :
    ∃ handed, rc.handed serde frame = some handed ∧ call.callback = handed.callback := by
  obtain ⟨opcode, payload⟩ := frame
  cases opcode with
  | close => exact absurd rfl hframe
  | continuation | ping | pong => cases h
  | binary =>
    simp only [turn, ReceiveCallback.onBinary] at h
    cases hg : rc.generic with
    | none => rw [hg] at h; cases h
    | some cb =>
      rw [hg] at h
      refine ⟨⟨cb, rc.genericSchema, none⟩, ?_, by rw [List.mem_singleton.mp h]⟩
      simp only [ReceiveCallback.handed, hg, Option.map_some]
  | text =>
    simp only [turn] at h
    cases hp : fromUtf8 payload with
    | none => rw [hp] at h; cases h
    | some payload' =>
      rw [hp] at h
      simp only [ReceiveCallback.handed, hp, Option.bind_some]
      rcases onText_handed rc py serde payload' with ⟨_, hnil⟩ | ⟨cb, schema, text, hh, hcalls⟩
      · simp only [hnil, List.not_mem_nil] at h
      · simp only [hcalls] at h
        obtain ⟨data, rfl⟩ := Callback.mem_invokeText h
        exact ⟨_, hh, rfl⟩

/-- A frame is safe to hand over if it is no binary frame for a callback with a schema. -/
theorem turn_validates {py : Python} {serde : Serde} {rc : ReceiveCallback}
    {disconnectCallback : Option Callback} {frame : Frame} {handed : Handed}
    (hh : rc.handed serde frame = some handed) :
    handed.Validates py (turn py serde rc disconnectCallback (some frame)).1 ↔
      (handed.schema.isSome = true → frame.opcode ≠ .binary) := by
  obtain ⟨opcode, payload⟩ := frame
  cases opcode with
  | close | continuation | ping | pong => cases hh
  | binary =>
    obtain ⟨cb, hg, rfl⟩ := Option.map_eq_some_iff.mp hh
    refine ⟨fun hv hsome => ?_, fun hnot S hS => ?_⟩
    · obtain ⟨S, hS⟩ := Option.isSome_iff_exists.mp hsome
      have hcall : (⟨cb, .receive (.bytes payload)⟩ : Invocation) ∈
          (turn py serde rc disconnectCallback (some ⟨.binary, payload⟩)).1 := by
        simp only [turn, ReceiveCallback.onBinary, hg]
        exact List.mem_singleton_self _
      obtain ⟨text, validated, htext, _⟩ := hv S hS _ hcall
      cases htext
    · exact absurd rfl (hnot (Option.isSome_iff_exists.mpr ⟨S, hS⟩))
  | text =>
    refine ⟨fun _ _ => OpCode.noConfusion, fun _ => ?_⟩
    obtain ⟨payload', hp, hh⟩ := Option.bind_eq_some_iff.mp hh
    simp only [turn, hp]
    rcases onText_handed rc py serde payload' with ⟨hnone, _⟩ | ⟨cb, schema, text, hsome, hcalls⟩
    · cases hnone.symm.trans hh
    · cases hsome.symm.trans hh
      rw [hcalls]
      exact invokeText_validates py cb schema text

/-! ### Frames and registrations -/

/-- The `receive` calls that returned. -/
def accepted (py : Python) : List RouteEvent → WebsocketRoute → List ReceiveCall
  | [], _ => []
  | .connection :: rest, view => accepted py rest (RouteEvent.connection.apply py view)
  | .receive c :: rest, view =>
    match c.run py view with
    | .ok view' => c :: accepted py rest view'
    | .error _ => accepted py rest view

/-- The registration is the call's: its function and its schema. -/
def Handed.MadeBy (h : Handed) (py : Python) (c : ReceiveCall) : Prop :=
  h.callback = ⟨c.func, py.isAsync c.func⟩ ∧ h.schema = c.schema

/-- Once there is a generic handler, only patterns are accepted. -/
theorem accepted_patterns (py : Python) (events : List RouteEvent) {view : WebsocketRoute}
    {cb : Callback} (h : view.genericReceive = some cb) :
    ∀ c ∈ accepted py events view, c.pattern ≠ none := by
  induction events generalizing view with
  | nil => exact fun c hc => nomatch hc
  | cons e rest ih =>
    have hkept := (apply_generic py h e).1
    cases e with
    | connection => exact ih hkept
    | receive c =>
      rw [accepted]
      cases hc : c.run py view with
      | error e => exact ih h
      | ok view' =>
        rw [apply_ok hc] at hkept
        intro d hd
        rcases List.mem_cons.mp hd with rfl | hd
        · intro hnone
          rcases ReceiveCall.run_ok hc with ⟨p, hp, _⟩ | ⟨_, hg⟩
          · cases hnone.symm.trans hp
          · simp [WebsocketRoute.setGeneric, h] at hg
        · exact ih hkept d hd

/-- What the generic handler of the route is after the events. -/
theorem accepted_generic (py : Python) (events : List RouteEvent) (view : WebsocketRoute)
    (hnone : view.genericReceive = none) :
    (∀ c ∈ accepted py events view, c.pattern = none →
      (receiveCallbackAfter py events view).generic = some ⟨c.func, py.isAsync c.func⟩ ∧
        (receiveCallbackAfter py events view).genericSchema = c.schema) ∧
    ((receiveCallbackAfter py events view).generic.isSome = true →
      ∃ c ∈ accepted py events view, c.pattern = none) := by
  induction events generalizing view with
  | nil =>
    refine ⟨fun c hc => (nomatch hc), fun h => ?_⟩
    rw [show (receiveCallbackAfter py [] view).generic = view.genericReceive from rfl, hnone] at h
    cases h
  | cons e rest ih =>
    cases e with
    | connection =>
      have hkept : (RouteEvent.connection.apply py view).genericReceive = none := by
        simp only [RouteEvent.apply, WebsocketRoute.receiveCallback, WebsocketRoute.frozenHandlers]
        split <;> exact hnone
      exact ih _ hkept
    | receive c =>
      have hstep : receiveCallbackAfter py (.receive c :: rest) view =
          receiveCallbackAfter py rest (RouteEvent.apply py view (.receive c)) := rfl
      rw [hstep, accepted]
      cases hc : c.run py view with
      | error e =>
        have herror : RouteEvent.apply py view (.receive c) = view := by rw [RouteEvent.apply, hc]
        rw [herror]
        exact ih view hnone
      | ok view' =>
        rw [apply_ok hc]
        rcases ReceiveCall.run_ok hc with ⟨p, hp, _, hview⟩ | ⟨hp, hg⟩
        · have hrest := ih view' (by rw [hview]; exact hnone)
          refine ⟨fun d hd hdp => ?_, fun h => ?_⟩
          · rcases List.mem_cons.mp hd with rfl | hd
            · cases hdp.symm.trans hp
            · exact hrest.1 d hd hdp
          · obtain ⟨d, hd, hdp⟩ := hrest.2 h
            exact ⟨d, List.mem_cons_of_mem _ hd, hdp⟩
        · rw [WebsocketRoute.setGeneric_ok hg]
          refine ⟨fun d hd hdp => ?_, fun _ => ⟨c, List.mem_cons_self, hp⟩⟩
          rcases List.mem_cons.mp hd with rfl | hd
          · exact generic_kept rest rfl
          · exact absurd hdp (accepted_patterns py rest rfl d hd)

theorem accepted_pattern (py : Python) (events : List RouteEvent) {view : WebsocketRoute} {p : Pattern}
    (hp : p ∈ phasePatterns py events view) : ∃ c ∈ accepted py events view, c.pattern = some p := by
  induction events generalizing view with
  | nil => cases hp
  | cons e rest ih =>
    cases e with
    | connection => cases hp
    | receive c =>
      simp only [phasePatterns, registrationPhase, patterns] at hp
      rw [accepted]
      cases hc : c.run py view with
      | error e =>
        rw [hc] at hp
        exact ih hp
      | ok view' =>
        rw [hc] at hp
        rcases List.mem_append.mp hp with hp | hp
        · exact ⟨c, List.mem_cons_self, Option.mem_toList.mp hp⟩
        · obtain ⟨d, hd, hdp⟩ := ih hp
          exact ⟨d, List.mem_cons_of_mem _ hd, hdp⟩

section Service

variable (py : Python) (serde : Serde) (path : String) (defaultGroup : Option String)
  (authenticationClasses : List PyObj) (events : List RouteEvent)

/-- A frame is handed to a registration of the route's history. -/
theorem handed_madeBy {frame : Frame} {h : Handed}
    (hh : (receiveCallbackAfter py events (.new path defaultGroup authenticationClasses)).handed serde
      frame = some h) :
    ∃ c ∈ accepted py events (.new path defaultGroup authenticationClasses), h.MadeBy py c := by
  generalize hrc : receiveCallbackAfter py events (.new path defaultGroup authenticationClasses) = rc at hh
  have hgeneric (cb : Callback) (text : Option String) (hcb : rc.generic = some cb) :
      ∃ c ∈ accepted py events (.new path defaultGroup authenticationClasses),
        Handed.MadeBy ⟨cb, rc.genericSchema, text⟩ py c := by
    obtain ⟨hset, hfrom⟩ := accepted_generic py events
      (.new path defaultGroup authenticationClasses) rfl
    rw [hrc] at hset hfrom
    obtain ⟨c, hc, hnone⟩ := hfrom (Option.isSome_iff_exists.mpr ⟨cb, hcb⟩)
    obtain ⟨hfunc, hschema⟩ := hset c hc hnone
    exact ⟨c, hc, Option.some.inj (hcb.symm.trans hfunc), hschema⟩
  obtain ⟨opcode, payload⟩ := frame
  cases opcode with
  | close | continuation | ping | pong => cases hh
  | binary =>
    obtain ⟨cb, hcb, rfl⟩ := Option.map_eq_some_iff.mp hh
    exact hgeneric cb none hcb
  | text =>
    obtain ⟨payload', _, hh⟩ := Option.bind_eq_some_iff.mp hh
    simp only [ReceiveCallback.textHanded] at hh
    split at hh
    · next json handler matchedKey _ hmatch =>
      cases hh
      rw [rc.matchResult_eq, ← hrc, frozen_table py events rfl] at hmatch
      obtain ⟨json', _, hfind⟩ := Option.bind_eq_some_iff.mp hmatch
      have hb := receiveAll_built py (registrationPhase events)
        (built_new py path defaultGroup authenticationClasses)
      obtain ⟨n, p, hp, rfl, _⟩ := findHandler_sound hb hfind
      obtain ⟨c, hc, hcp⟩ := accepted_pattern py events (List.mem_of_getElem? hp)
      obtain ⟨hfunc, hschema⟩ := ReceiveCall.of_pattern hcp
      exact ⟨c, hc, by rw [← hfunc]; rfl, hschema⟩
    · obtain ⟨cb, hcb, rfl⟩ := Option.map_eq_some_iff.mp hh
      exact hgeneric cb _ hcb

/-- **A callback with a schema gets validated objects only, exactly as long as no binary
frame comes to a generic handler with a schema.** In a run of a connection, whatever the
history of its route, the calls are those of the frames that are read, a frame is handed
to a registration of the history, and a registration with a schema is only called with
what the schema makes of the text, if and only if the condition holds. -/
theorem schema_safe (connectAfter disconnect : Option Callback) {sched : List Session.Action}
    {s : Session} :
    let route := WebsocketRoute.new path defaultGroup authenticationClasses
    let rc := receiveCallbackAfter py events route
    let svc : Service := ⟨py, serde, connectAfter, rc, disconnect⟩
    run (Session.step svc) (Session.start svc) sched = some s →
    s.calls = (Session.start svc).calls ++
      (Session.reads sched).flatMap (fun frame => (turn py serde rc disconnect frame).1) ∧
    (∀ frame h, rc.handed serde frame = some h → ∃ c ∈ accepted py events route, h.MadeBy py c) ∧
    ((∀ frame, some frame ∈ Session.reads sched → ∀ h, rc.handed serde frame = some h →
        h.Validates py (turn py serde rc disconnect (some frame)).1) ↔
      ((∃ c ∈ accepted py events route, c.pattern = none ∧ c.schema.isSome = true) →
        ∀ frame, some frame ∈ Session.reads sched → frame.opcode ≠ .binary)) := by
  intro route rc svc hrun
  obtain ⟨hset, hfrom⟩ := accepted_generic py events route rfl
  refine ⟨Session.run_calls hrun, fun frame h hh => handed_madeBy py serde path _ _ events hh,
    fun hsafe hschema frame hframe hbinary => ?_, fun hbinary frame hframe h hh => ?_⟩
  · obtain ⟨c, hc, hnone, hsome⟩ := hschema
    obtain ⟨hcb, hcschema⟩ := hset c hc hnone
    have hh : rc.handed serde frame = some ⟨⟨c.func, py.isAsync c.func⟩, rc.genericSchema, none⟩ := by
      have hcb' : rc.generic = some ⟨c.func, py.isAsync c.func⟩ := hcb
      simp only [ReceiveCallback.handed, hbinary, hcb', Option.map_some]
    have hcschema' : rc.genericSchema = c.schema := hcschema
    exact (turn_validates hh).mp (hsafe frame hframe _ hh) (by rw [hcschema']; exact hsome) hbinary
  · refine (turn_validates hh).mpr fun hsome hopcode => ?_
    rw [ReceiveCallback.handed, hopcode] at hh
    obtain ⟨cb, hcb, rfl⟩ := Option.map_eq_some_iff.mp hh
    obtain ⟨c, hc, hnone⟩ := hfrom (Option.isSome_iff_exists.mpr ⟨cb, hcb⟩)
    have hcschema : rc.genericSchema = c.schema := (hset c hc hnone).2
    exact hbinary ⟨c, hc, hnone, by rw [← hcschema]; exact hsome⟩ frame hframe hopcode

/-! ### Messages that are rejected -/

/-- The generic handler is called once, with the payload or, if it has a schema, with what
that makes of it, and nothing else is called. -/
def FallsBack (rc : ReceiveCallback) (payload : String) (calls : List Invocation) : Prop :=
  ∃ cb data, rc.generic = some cb ∧ calls = [⟨cb, .receive data⟩] ∧
    (data = .text payload ∨ ∃ schema validated, rc.genericSchema = some schema ∧
      py.modelValidateJson schema payload = .ok validated ∧ data = .validated validated)

/-- **A message that the schema of its pattern rejects is dropped.** Whatever the history of
the route: if a pattern with a schema is selected for a text frame and the schema rejects
what it is given, nothing is called, so the generic handler is not fallen back on. -/
theorem rejected_unhandled (disconnect : Option Callback) {payload matchedKey : String} {json : Json}
    {handler : ReceiveHandler} {schema : PyObj} {e : PyErr}
    (hjson : serde.fromStr payload = some json)
    (hmatch : (receiveCallbackAfter py events
      (.new path defaultGroup authenticationClasses)).matchResult serde payload = some (handler, matchedKey))
    (hschema : handler.schema = some schema)
    (hrejected : py.modelValidateJson schema (handler.payload serde json matchedKey payload) = .error e) :
    let rc := receiveCallbackAfter py events (.new path defaultGroup authenticationClasses)
    let calls := (turn py serde rc disconnect (some (Message.text payload).frame)).1
    calls = [] ∧ ¬ FallsBack py rc payload calls := by
  intro rc calls
  have hcalls : calls = [] := by
    obtain ⟨json', hjson', honText⟩ := rc.onText_selected hmatch py
    obtain rfl : json' = json := Option.some.inj (hjson'.symm.trans hjson)
    show (turn py serde rc disconnect (some (Message.text payload).frame)).1 = []
    rw [turn_text, honText, hschema]
    simp only [Callback.invokeText, Callback.invokeWithSchema, hrejected]
  refine ⟨hcalls, ?_⟩
  rintro ⟨cb, data, _, hone, _⟩
  cases hcalls.symm.trans hone

end Service

/-! ### A chat with a schema -/

/-- The generic handler is registered with the schema 7. -/
def genericSchema : List RouteEvent := [.receive (.decorated none (some 7) 3)]

/-- `Match("type", "chat")` is registered with the schema 7, the generic handler with none. -/
def patternSchema : List RouteEvent :=
  [.receive (.decorated (some chatMatch) (some 7) 3), .receive (.decorated none none 4)]

/-- A Python whose schemas reject everything. -/
def strictPython : Python :=
  { plainPython with modelValidateJson := fun _ _ => .error (.valueError "invalid") }

/-- A text frame for the handler with a schema. -/
theorem schema_safe_text :
    let rc := receiveCallbackAfter plainPython genericSchema (.new "/ws" none [])
    let frame := (Message.text "hi").frame
    (turn plainPython (constantSerde chatMessage) rc none (some frame)).1 ≠ [] ∧
      ∀ h, rc.handed (constantSerde chatMessage) frame = some h →
        h.Validates plainPython (turn plainPython (constantSerde chatMessage) rc none (some frame)).1 := by
  intro rc frame
  let svc : Service := ⟨plainPython, constantSerde chatMessage, none, rc, none⟩
  have hrun : run (Session.step svc) (Session.start svc) [.wake .receive, .turn (some frame)] =
    some _ := rfl
  have hsafe := schema_safe plainPython (constantSerde chatMessage) "/ws" none [] genericSchema none
    none hrun
  refine ⟨by decide, hsafe.2.2.mpr (fun _ f hf => ?_) frame List.mem_cons_self⟩
  obtain rfl : f = frame := Option.some.inj (List.mem_singleton.mp hf)
  exact OpCode.noConfusion

/-- A binary frame comes to the handler as it is. -/
theorem binary_unvalidated :
    let route := WebsocketRoute.new "/ws" none []
    let rc := receiveCallbackAfter plainPython genericSchema route
    let svc : Service := ⟨plainPython, constantSerde chatMessage, none, rc, none⟩
    accepted plainPython genericSchema route = [.decorated none (some 7) 3] ∧
      (run (Session.step svc) (Session.start svc) [.wake .receive, .turn (some ⟨.binary, [1, 2]⟩)]).map
        Session.calls = some [⟨⟨3, false⟩, .receive (.bytes [1, 2])⟩] := by
  exact ⟨rfl, by decide⟩

/-- What is selected for a chat message. -/
def selectedHandler : ReceiveHandler := ⟨0, ⟨3, false⟩, some 7, false⟩

theorem rejected_unhandled_chat :
    let rc := receiveCallbackAfter strictPython patternSchema (.new "/ws" none [])
    let calls := (turn strictPython (constantSerde chatMessage) rc none (some (Message.text "hi").frame)).1
    calls = [] ∧ ¬ FallsBack strictPython rc "hi" calls := by
  have hmatch : (receiveCallbackAfter strictPython patternSchema (.new "/ws" none [])).matchResult
      (constantSerde chatMessage) "hi" = some (selectedHandler, "type") := rfl
  exact rejected_unhandled strictPython (constantSerde chatMessage) "/ws" none [] patternSchema none
    rfl hmatch rfl rfl

/-- The pattern is selected, its schema rejects the message, and the generic handler that is
there is not called. -/
theorem fallback_missed :
    let rc := receiveCallbackAfter strictPython patternSchema (.new "/ws" none [])
    rc.matchResult (constantSerde chatMessage) "hi" = some (selectedHandler, "type") ∧
      strictPython.modelValidateJson 7
        (selectedHandler.payload (constantSerde chatMessage) chatMessage "type" "hi") =
        .error (.valueError "invalid") ∧
      rc.generic = some ⟨4, false⟩ ∧
      (turn strictPython (constantSerde chatMessage) rc none (some (Message.text "hi").frame)).1 = [] :=
  ⟨rfl, rfl, rfl, by decide⟩

end Webrockets
