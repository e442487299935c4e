import Webrockets.Registration

/-! The two ways to register a generic handler (`receive` and `ReceiveDecorator` in `route.rs`),
and the schemas that a route stores.

A decorator looks whether its schema has `model_validate_json`, which dispatch calls on it. The
bare form writes the same two fields and does not look. `generic_ways_agree` says when the two
come to the same, and in which runs every schema that is stored can be called. -/
namespace Webrockets
open WebsocketRoute

/-! ### One registration -/

/-- The class of an exception. -/
inductive PyErr.Kind where
  | runtimeError
  | typeError
  | valueError
  | unicodeEncodeError
  | other (cls : String)
  deriving DecidableEq, Repr

def PyErr.kind : PyErr → PyErr.Kind
  | .runtimeError _ => .runtimeError
  | .typeError _ => .typeError
  | .valueError _ => .valueError
  | .unicodeEncodeError => .unicodeEncodeError
  | .other cls _ => .other cls

/-- `route.receive(f, schema=S)` and `route.receive(schema=S)(f)` both raise an exception of one
class and leave the route unchanged, or both register the same. -/
def WaysAgree (py : Python) (view : WebsocketRoute) (func : PyObj) (schema : Option PyObj) : Prop :=
  match (ReceiveCall.exec py (.bare func none schema)).run view,
    (ReceiveCall.exec py (.decorated none schema func)).run view with
  | .ok _ a, .ok _ b =>
    a.genericReceive = b.genericReceive ∧ a.genericReceiveSchema = b.genericReceiveSchema
  | .error e a, .error e' b => e.kind = e'.kind ∧ a = view ∧ b = view
  | _, _ => False

/-- The schema has the method, or the error of looking for it is of the class that a taken slot
raises. -/
def SchemaAgrees (py : Python) (view : WebsocketRoute) (schema : Option PyObj) : Prop :=
  (ReceiveDecorator.mk none schema).schemaUsable py = .ok true ∨
    view.genericReceive.isSome = true ∧
      ∃ e, (ReceiveDecorator.mk none schema).schemaUsable py = .error e ∧ e.kind = .valueError

theorem run_bare (py : Python) (view : WebsocketRoute) (func : PyObj) (schema : Option PyObj) :
    (ReceiveCall.bare func none schema).run py view = view.setGeneric py func schema := by
  simp only [ReceiveCall.run, WebsocketRoute.receive]
  cases view.setGeneric py func schema <;> rfl

theorem waysAgree_iff (py : Python) (view : WebsocketRoute) (func : PyObj) (schema : Option PyObj) :
    WaysAgree py view func schema ↔ SchemaAgrees py view schema := by
  unfold WaysAgree SchemaAgrees
  rw [exec_eq, exec_eq, run_bare]
  simp only [ReceiveCall.run, WebsocketRoute.receive, ReceiveDecorator.call]
  cases (ReceiveDecorator.mk none schema).schemaUsable py with
  | ok usable =>
    cases usable with
    | true =>
      refine iff_of_true ?_ (.inl rfl)
      cases view.setGeneric py func schema <;> simp
    | false =>
      unfold setGeneric
      cases view.genericReceive <;> simp [genericRegistered, PyErr.kind]
  | error e =>
    unfold setGeneric
    cases view.genericReceive <;> simp [genericRegistered, PyErr.kind, eq_comm]

/-! ### What is stored -/

def HasSchema (handlers : Handlers) (schema : PyObj) : Prop :=
  ∃ e handler, bound handlers e = some handler ∧ handler.schema = some schema

/-- The schemas that dispatch can come to: the generic one, those of the table and those of the
snapshot that connections have of it. -/
def WebsocketRoute.Stores (view : WebsocketRoute) (schema : PyObj) : Prop :=
  view.genericReceiveSchema = some schema ∨ HasSchema view.receiveHandlersMut schema ∨
    ∃ handlers, view.receiveHandlers = some handlers ∧ HasSchema handlers schema

/-- Every schema in the route has the method that dispatch calls. -/
def Callable (py : Python) (view : WebsocketRoute) : Prop :=
  ∀ schema, view.Stores schema → py.hasModelValidateJson schema = .ok true

theorem callable_new (py : Python) (path : String) (defaultGroup : Option String)
    (authenticationClasses : List PyObj) :
    Callable py (.new path defaultGroup authenticationClasses) := by
  rintro schema (h | ⟨e, handler, h, _⟩ | ⟨handlers, h, _⟩)
  · cases h
  · cases h
  · cases h

/-- The snapshot is one of the table. -/
theorem Callable.connection {py : Python} {view : WebsocketRoute} (h : Callable py view) :
    Callable py view.receiveCallback.2 := by
  unfold WebsocketRoute.receiveCallback frozenHandlers
  cases hfrozen : view.receiveHandlers with
  | some handlers => exact h
  | none =>
    rintro schema (hstored | hstored | ⟨handlers, heq, hstored⟩)
    · exact h schema (.inl hstored)
    · exact h schema (.inr (.inl hstored))
    · cases heq
      exact h schema (.inr (.inl hstored))

/-- A decorator that returns has looked at its schema. -/
theorem usable_of_run {py : Python} {view view' : WebsocketRoute} {matchSpec : Option Match}
    {schema : Option PyObj} {func : PyObj}
    (h : (ReceiveCall.decorated matchSpec schema func).run py view = .ok view') :
    (ReceiveDecorator.mk matchSpec schema).schemaUsable py = .ok true := by
  simp only [ReceiveCall.run, WebsocketRoute.receive, ReceiveDecorator.call] at h
  split at h
  · cases h
  · cases h
  · next husable => exact husable

/-- What a call stores is what was stored, and its own schema. -/
theorem stores_run {py : Python} {view view' : WebsocketRoute} {c : ReceiveCall}
    (h : c.run py view = .ok view') {schema : PyObj} (hstored : view'.Stores schema) :
    view.Stores schema ∨ c.schema = some schema := by
  rcases ReceiveCall.run_ok h with ⟨p, hp, _, rfl⟩ | ⟨_, hg⟩
  · rcases hstored with hstored | ⟨e, handler, hbound, hschema⟩ | hstored
    · exact .inl (.inl hstored)
    · have hbound := (bound_foldl (pairs p.spec) _).symm.trans hbound
      split at hbound
      · cases hbound
        exact .inr ((ReceiveCall.of_pattern hp).2.symm.trans hschema)
      · exact .inl (.inr (.inl ⟨e, handler, hbound, hschema⟩))
    · exact .inl (.inr (.inr hstored))
  · rw [WebsocketRoute.setGeneric_ok hg] at hstored
    rcases hstored with hstored | hstored
    · exact .inr hstored
    · exact .inl (.inr hstored)

/-- The event is a bare registration that takes effect, with this schema. -/
def BareSchema (view : WebsocketRoute) (event : RouteEvent) (schema : PyObj) : Prop :=
  view.genericReceive = none ∧ ∃ func, event = .receive (.bare func none (some schema))

/-- Whatever happens, only a bare registration brings in a schema that nobody has looked at. -/
theorem callable_apply {py : Python} {view : WebsocketRoute} {event : RouteEvent}
    (h : Callable py view)
    (hbare : ∀ schema, BareSchema view event schema → py.hasModelValidateJson schema = .ok true) :
    Callable py (event.apply py view) := by
  cases event with
  | connection => exact h.connection
  | receive c =>
    cases hc : c.run py view with
    | error e =>
      simp only [RouteEvent.apply, hc]
      exact h
    | ok view' =>
      rw [apply_ok hc]
      intro schema hstored
      rcases stores_run hc hstored with hold | hnew
      · exact h schema hold
      · cases c with
        | bare func matchSpec own =>
          cases hnew
          cases matchSpec with
          | some m => cases hc
          | none =>
            rw [run_bare] at hc
            refine hbare schema ⟨?_, func, rfl⟩
            unfold setGeneric at hc
            split at hc
            · cases hc
            · next hfree => exact Option.not_isSome_iff_eq_none.mp hfree
        | decorated matchSpec own func =>
          cases hnew
          exact usable_of_run hc

/-- The bare registrations among the events that took effect have a schema with the method. -/
def BareSchemasCallable (py : Python) (events : List RouteEvent) (view : WebsocketRoute) : Prop :=
  ∀ a event b schema, events = a ++ event :: b → BareSchema (afterEvents py a view) event schema →
    py.hasModelValidateJson schema = .ok true

theorem callable_afterEvents {py : Python} {view : WebsocketRoute} (h : Callable py view)
    {events : List RouteEvent} (hbare : BareSchemasCallable py events view) :
    Callable py (afterEvents py events view) := by
  induction events using List.reverseRecOn with
  | nil => exact h
  | append_singleton events event ih =>
    rw [afterEvents_append]
    refine callable_apply (ih fun a e b schema heq => hbare a e (b ++ [event]) schema ?_)
      fun schema => hbare events event [] schema rfl
    rw [heq, List.append_assoc, List.cons_append]

/-- A bare registration stores its schema. -/
theorem stores_bare {py : Python} {view : WebsocketRoute} {event : RouteEvent} {schema : PyObj}
    (h : BareSchema view event schema) : (event.apply py view).Stores schema := by
  obtain ⟨hfree, func, rfl⟩ := h
  have hrun : (ReceiveCall.bare func none (some schema)).run py view = .ok { view with
      genericReceive := some ⟨func, py.isAsync func⟩, genericReceiveSchema := some schema } := by
    rw [run_bare, setGeneric, hfree]
    rfl
  rw [apply_ok hrun]
  exact .inl rfl

/-- **When the two ways to register agree.** They do for a schema exactly if `SchemaAgrees` says
so; and in a run of registrations and connections every route has only schemas that dispatch
can call exactly if those of the bare registrations that took effect are. -/
theorem generic_ways_agree (py : Python) (view : WebsocketRoute) (func : PyObj)
    (schema : Option PyObj) (path : String) (defaultGroup : Option String)
    (authenticationClasses : List PyObj) (events : List RouteEvent) :
    let route := WebsocketRoute.new path defaultGroup authenticationClasses
    (WaysAgree py view func schema ↔ SchemaAgrees py view schema) ∧
    ((∀ before, before <+: events → Callable py (afterEvents py before route)) ↔
      BareSchemasCallable py events route) := by
  intro route
  refine ⟨waysAgree_iff py view func schema, fun h a event b schema heq hbare => ?_, ?_⟩
  · refine h (a ++ [event]) ⟨b, ?_⟩ schema ?_
    · rw [heq, List.append_assoc, List.singleton_append]
    · rw [afterEvents_append]
      exact stores_bare hbare
  · rintro h before ⟨rest, rfl⟩
    refine callable_afterEvents (callable_new py path defaultGroup authenticationClasses) ?_
    intro a event b schema heq
    refine h a event (b ++ rest) schema ?_
    rw [heq, List.append_assoc, List.cons_append]

/-- Without Pydantic a schema has no `model_validate_json`. -/
def schemaless : Python :=
  ⟨fun _ => false, fun _ => .ok false, fun _ _ => .error (.runtimeError ""), id⟩

/-- The decorator raises, and the bare form stores a schema that no message gets past. -/
theorem bare_schema_unchecked :
    let route := WebsocketRoute.new "/ws" none []
    ¬ WaysAgree schemaless route 3 (some 7) ∧
      ¬ Callable schemaless
        (afterEvents schemaless [.receive (.bare 3 none (some 7))] route) := by
  refine ⟨fun h => h, fun h => ?_⟩
  cases h 7 (.inl rfl)

end Webrockets
