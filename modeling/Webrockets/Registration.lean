import Webrockets.History

/-! Registrations as they write to the route (`receive` and `ReceiveDecorator` in `route.rs`).

`exec` is a call with everything it does to the route, so that a call that raises midway would
leave behind what it has written by then. A registration with a match goes over its pairs twice,
first to check and then to insert. `exec_eq` says that no call raises after it has begun to
write; `registration_all_or_nothing` and `generic_ways_agree` are about runs of such calls. -/
namespace Webrockets
open WebsocketRoute

/-- A call that reads and writes the route, and may raise at any point. -/
abbrev RouteM := EStateM PyErr WebsocketRoute

/-! ### The calls -/

def schemaNotPydantic : PyErr :=
  .typeError "schema must be a Pydantic model. Install webrockets[schema] for Pydantic support."

def checkSchema (py : Python) : Option PyObj → RouteM Unit
  | none => pure ()
  | some schema =>
    match py.hasModelValidateJson schema with
    | .ok true => pure ()
    | .ok false => throw schemaNotPydantic
    | .error e => throw e

def writeGeneric (py : Python) (func : PyObj) (schema : Option PyObj) : RouteM Unit := do
  if (← get).genericReceive.isSome then throw genericRegistered
  modify fun view => { view with genericReceive := some ⟨func, py.isAsync func⟩ }
  modify fun view => { view with genericReceiveSchema := schema }

def checkPair (py : Python) (e : String × MatchValue) : RouteM Unit := do
  if contains (← get).receiveHandlersMut e then throw (handlerRegistered py e)

def insertPair (handler : ReceiveHandler) (e : String × MatchValue) : RouteM Unit :=
  modify fun view => { view with
    receiveHandlersMut := view.receiveHandlersMut.upsert e.1 .empty (·.insert e.2 handler) }

/-- `Arc::new`. -/
def newHandler (callback : Callback) (schema : Option PyObj) (removeKey : Bool) :
    RouteM ReceiveHandler := do
  let view ← get
  set { view with allocated := view.allocated + 1 }
  return ⟨view.allocated, callback, schema, removeKey⟩

def ReceiveDecorator.exec (d : ReceiveDecorator) (py : Python) (func : PyObj) : RouteM Unit := do
  checkSchema py d.schema
  match d.matchSpec with
  | some m =>
    forM m.keys fun key => forM m.values fun value => checkPair py (key, value)
    let handler ← newHandler ⟨func, py.isAsync func⟩ d.schema m.removeKey
    forM m.keys fun key => forM m.values fun value => insertPair handler (key, value)
  | none => writeGeneric py func d.schema

def ReceiveCall.exec (py : Python) : ReceiveCall → RouteM Unit
  | .bare func none schema => writeGeneric py func schema
  | .bare _ (some _) _ => throw (.valueError "Cannot use match= with bare decorator syntax")
  | .decorated matchSpec schema func => (ReceiveDecorator.mk matchSpec schema).exec py func

/-- The route that a call leaves behind. -/
def ReceiveCall.leaves (py : Python) (view : WebsocketRoute) (c : ReceiveCall) : WebsocketRoute :=
  match (c.exec py).run view with
  | .ok _ view => view
  | .error _ view => view

def execAll (py : Python) (calls : List ReceiveCall) (view : WebsocketRoute) : WebsocketRoute :=
  calls.foldl (ReceiveCall.leaves py) view

/-! ### Nothing is written before a call raises -/

theorem forM_pairs (m : Match) (f : String × MatchValue → RouteM Unit) :
    (forM m.keys fun key => forM m.values fun value => f (key, value)) = forM (pairs m) f := by
  unfold pairs
  induction m.keys with
  | nil => rfl
  | cons key keys ih =>
    rw [List.forM_cons, ih, List.flatMap_cons, List.forM_append, List.forM_map]

/-- The first loop comes to the first pair that is taken. -/
theorem forM_checkPair (py : Python) (l : List (String × MatchValue)) (view : WebsocketRoute) :
    (forM l (checkPair py)).run view =
      match l.find? (contains view.receiveHandlersMut) with
      | some e => .error (handlerRegistered py e) view
      | none => .ok () view := by
  induction l with
  | nil => rfl
  | cons e l ih =>
    rw [List.forM_cons, List.find?_cons]
    have hcheck : (checkPair py e).run view =
        if contains view.receiveHandlersMut e then .error (handlerRegistered py e) view
        else .ok () view := by
      unfold checkPair
      simp
      split <;> rfl
    rw [EStateM.run_bind, hcheck]
    cases contains view.receiveHandlersMut e with
    | true => rfl
    | false => exact ih

/-- The second loop does not end early. -/
theorem forM_insertPair (handler : ReceiveHandler) (l : List (String × MatchValue))
    (view : WebsocketRoute) : (forM l (insertPair handler)).run view = .ok () { view with
      receiveHandlersMut := l.foldl (fun handlers e =>
        handlers.upsert e.1 .empty (·.insert e.2 handler)) view.receiveHandlersMut } := by
  induction l generalizing view with
  | nil => rfl
  | cons e l ih => 
    rw [List.forM_cons]
    exact ih _

theorem run_checkSchema (py : Python) (d : ReceiveDecorator) (view : WebsocketRoute) :
    (checkSchema py d.schema).run view =
      match d.schemaUsable py with
      | .ok true => .ok () view
      | .ok false => .error schemaNotPydantic view
      | .error e => .error e view := by
  unfold checkSchema ReceiveDecorator.schemaUsable
  cases d.schema with
  | none => rfl
  | some schema =>
    dsimp only
    cases py.hasModelValidateJson schema with
    | error e => rfl
    | ok b => cases b <;> rfl

theorem run_writeGeneric (py : Python) (func : PyObj) (schema : Option PyObj)
    (view : WebsocketRoute) : (writeGeneric py func schema).run view =
      match view.setGeneric py func schema with
      | .ok view' => .ok () view'
      | .error e => .error e view := by
  unfold writeGeneric setGeneric
  cases hg : view.genericReceive <;> simp [hg]

/-- A call that raises has not written anything, and one that returns leaves behind what
`run` says. -/
theorem exec_eq (py : Python) (c : ReceiveCall) (view : WebsocketRoute) :
    (c.exec py).run view =
      match c.run py view with
      | .ok view' => .ok () view'
      | .error e => .error e view := by
  cases c with
  | bare func matchSpec schema =>
    cases matchSpec with
    | some m => rfl
    | none =>
      refine (run_writeGeneric py func schema view).trans ?_
      simp only [ReceiveCall.run, WebsocketRoute.receive]
      cases view.setGeneric py func schema <;> rfl
  | decorated matchSpec schema func =>
    show ((ReceiveDecorator.mk matchSpec schema).exec py func).run view =
      match (ReceiveDecorator.mk matchSpec schema).call py func view with
      | .ok view' => .ok () view'
      | .error e => .error e view
    rw [ReceiveDecorator.exec, EStateM.run_bind, run_checkSchema, ReceiveDecorator.call]
    cases (ReceiveDecorator.mk matchSpec schema).schemaUsable py with
    | error e => rfl
    | ok usable =>
      cases usable with
      | false => rfl
      | true =>
        cases matchSpec with
        | none => exact run_writeGeneric py func schema view
        | some m =>
          simp only [forM_pairs, EStateM.run_bind, forM_checkPair]
          cases (pairs m).find? (contains view.receiveHandlersMut) with
          | some e => rfl
          | none => exact forM_insertPair _ _ _

theorem exec_error {py : Python} {c : ReceiveCall} {view view' : WebsocketRoute} {e : PyErr}
    (h : (c.exec py).run view = .error e view') : view' = view ∧ c.run py view = .error e := by
  rw [exec_eq] at h
  cases hc : c.run py view with
  | ok v => rw [hc] at h; cases h
  | error e' =>
    rw [hc] at h
    cases h
    exact ⟨rfl, rfl⟩

theorem exec_ok {py : Python} {c : ReceiveCall} {view view' : WebsocketRoute}
    (h : (c.exec py).run view = .ok () view') : c.run py view = .ok view' := by
  rw [exec_eq] at h
  cases hc : c.run py view with
  | ok v =>
    rw [hc] at h
    cases h
    rfl
  | error e => rw [hc] at h; cases h

theorem leaves_eq (py : Python) (view : WebsocketRoute) (c : ReceiveCall) :
    c.leaves py view =
      match c.run py view with
      | .ok view' => view'
      | .error _ => view := by
  rw [ReceiveCall.leaves, exec_eq]
  cases c.run py view <;> rfl

/-! ### The table -/

/-- The handler a pair is bound to. -/
def bound (handlers : Handlers) (e : String × MatchValue) : Option ReceiveHandler :=
  (handlers.get? e.1).bind (·.get? e.2)

/-- The pairs in the order in which a search comes to them, with their handlers. -/
def listing (handlers : Handlers) : List ((String × MatchValue) × ReceiveHandler) :=
  handlers.entries.flatMap fun e => e.2.entries.map fun v => ((e.1, v.1), v.2)

/-- What `insert` in the second loop makes of the table. -/
def bindPair (handler : ReceiveHandler) (handlers : Handlers) (e : String × MatchValue) : Handlers :=
  handlers.upsert e.1 .empty (·.insert e.2 handler)

variable {handlers : Handlers} {handler : ReceiveHandler} {e d : String × MatchValue}

theorem contains_eq : contains handlers e = (bound handlers e).isSome := by
  unfold contains bound
  cases handlers.get? e.1 <;> rfl

theorem mem_listing : (e, handler) ∈ listing handlers ↔ bound handlers e = some handler := by
  simp only [listing, List.mem_flatMap, List.mem_map, bound, Option.bind_eq_some_iff]
  constructor
  · rintro ⟨⟨key, values⟩, hkey, ⟨value, handler⟩, hvalue, heq⟩
    cases heq
    exact ⟨values, IndexMap.get?_eq_some.mpr hkey, IndexMap.get?_eq_some.mpr hvalue⟩
  · rintro ⟨values, hkey, hvalue⟩
    exact ⟨(e.1, values), IndexMap.get?_mem hkey, (e.2, handler), IndexMap.get?_mem hvalue, rfl⟩

theorem bound_bindPair : bound (bindPair handler handlers e) d =
    if d = e then some handler else bound handlers d := by
  unfold bound bindPair
  by_cases hkey : d.1 = e.1
  · rw [hkey, IndexMap.get?_upsert_self, Option.bind_some]
    by_cases hvalue : d.2 = e.2
    · rw [if_pos (Prod.ext hkey hvalue), hvalue, IndexMap.get?_insert_self]
    · rw [if_neg (fun h => hvalue (congrArg Prod.snd h)), IndexMap.get?_insert_of_ne _ hvalue]
      cases handlers.get? e.1 <;> rfl
  · rw [if_neg (fun h => hkey (congrArg Prod.fst h)), IndexMap.get?_upsert_of_ne _ hkey]

theorem bound_foldl (l : List (String × MatchValue)) (handlers : Handlers) :
    bound (l.foldl (bindPair handler) handlers) d =
      if d ∈ l then some handler else bound handlers d := by
  induction l generalizing handlers with
  | nil => simp
  | cons e l ih =>
    rw [List.foldl_cons, ih, bound_bindPair]
    by_cases hl : d ∈ l
    · simp [hl]
    · by_cases he : d = e <;> simp [hl, he]

theorem flatMap_sublist {α β : Type} {f g : α → List β} {l : List α}
    (h : ∀ a ∈ l, (f a).Sublist (g a)) : (l.flatMap f).Sublist (l.flatMap g) := by
  induction l with
  | nil => exact .slnil
  | cons a l ih =>
    obtain ⟨ha, hl⟩ := List.forall_mem_cons.mp h
    rw [List.flatMap_cons, List.flatMap_cons]
    exact ha.append (ih hl)

theorem insert_sublist {values : IndexMap MatchValue ReceiveHandler} {v : MatchValue}
    (h : values.get? v = none ∨ values.get? v = some handler) :
    values.entries.Sublist (values.insert v handler).entries := by
  rcases h with h | h
  · rw [IndexMap.entries_insert_of_not_mem (IndexMap.get?_eq_none.mp h)]
    exact List.sublist_append_left _ _
  · rw [IndexMap.insert_of_get? h]

/-- A pair that is free, or bound to the same handler, comes in among the others. -/
theorem listing_bindPair (h : bound handlers e = none ∨ bound handlers e = some handler) :
    (listing handlers).Sublist (listing (bindPair handler handlers e)) := by
  unfold listing bindPair
  by_cases hkey : e.1 ∈ handlers.keys
  · rw [IndexMap.upsert_of_mem hkey]
    show List.Sublist _ ((handlers.entries.map _).flatMap _)
    rw [List.flatMap_map]
    refine flatMap_sublist fun a ha => ?_
    split
    · next heq =>
      have hget : handlers.get? e.1 = some a.2 := IndexMap.get?_eq_some.mpr (heq ▸ ha)
      simp only [bound, hget, Option.bind_some] at h
      exact (insert_sublist h).map _
    · exact List.Sublist.refl _
  · rw [IndexMap.upsert_entries_of_not_mem hkey, List.flatMap_append]
    exact List.sublist_append_left _ _

theorem listing_foldl {l : List (String × MatchValue)} {handlers : Handlers}
    (h : ∀ e ∈ l, bound handlers e = none ∨ bound handlers e = some handler) :
    (listing handlers).Sublist (listing (l.foldl (bindPair handler) handlers)) := by
  induction l generalizing handlers with
  | nil => exact List.Sublist.refl _
  | cons e l ih =>
    obtain ⟨he, hl⟩ := List.forall_mem_cons.mp h
    refine (listing_bindPair he).trans (ih fun d hd => ?_)
    rw [bound_bindPair]
    split
    · exact .inr rfl
    · exact hl d hd

/-! ### What stays -/

/-- What is registered in the first route is in the second one too, in the same order. -/
structure Keeps (view view' : WebsocketRoute) : Prop where
  pairs : (listing view.receiveHandlersMut).Sublist (listing view'.receiveHandlersMut)
  generic : ∀ cb, view.genericReceive = some cb →
    view'.genericReceive = some cb ∧ view'.genericReceiveSchema = view.genericReceiveSchema

theorem Keeps.refl (view : WebsocketRoute) : Keeps view view :=
  ⟨List.Sublist.refl _, fun _ h => ⟨h, rfl⟩⟩

theorem Keeps.trans {u v w : WebsocketRoute} (huv : Keeps u v) (hvw : Keeps v w) : Keeps u w := by
  refine ⟨huv.pairs.trans hvw.pairs, fun cb h => ?_⟩
  obtain ⟨hcb, hschema⟩ := huv.generic cb h
  obtain ⟨hcb', hschema'⟩ := hvw.generic cb hcb
  exact ⟨hcb', hschema'.trans hschema⟩

/-- The pairs of a match that was registered were free. -/
theorem free_of_find? {m : Match} (h : (pairs m).find? (contains handlers) = none) :
    ∀ e ∈ pairs m, bound handlers e = none := by
  intro e he
  have hnot := List.find?_eq_none.mp h e he
  rwa [contains_eq, Bool.not_eq_true, Option.isSome_eq_false_iff, Option.isNone_iff_eq_none] at hnot

/-- What was registered stays after one more call. -/
theorem keeps_leaves (py : Python) (view : WebsocketRoute) (c : ReceiveCall) :
    Keeps view (c.leaves py view) := by
  rw [leaves_eq]
  cases hc : c.run py view with
  | error e => exact Keeps.refl view
  | ok view' =>
    rcases ReceiveCall.run_ok hc with ⟨p, _, hfree, rfl⟩ | ⟨_, hg⟩
    · exact ⟨listing_foldl fun e he => .inl (free_of_find? hfree e he), fun _ h => ⟨h, rfl⟩⟩
    · refine ⟨?_, fun cb h => ?_⟩
      · rw [WebsocketRoute.setGeneric_ok hg]
      · simp [setGeneric, h] at hg

theorem keeps_execAll (py : Python) (calls : List ReceiveCall) (view : WebsocketRoute) :
    Keeps view (execAll py calls view) := by
  induction calls generalizing view with
  | nil => exact Keeps.refl view
  | cons c rest ih => exact (keeps_leaves py view c).trans (ih _)

/-! ### What a call is refused for -/

/-- The arguments go together, and the schema, if the call looks at it, is one. -/
def ReceiveCall.Passes (py : Python) : ReceiveCall → Prop
  | .bare _ matchSpec _ => matchSpec = none
  | .decorated matchSpec schema _ => (ReceiveDecorator.mk matchSpec schema).schemaUsable py = .ok true

/-- One of the pairs, or the generic slot, has a handler already. -/
def ReceiveCall.Taken (view : WebsocketRoute) (c : ReceiveCall) : Prop :=
  match c.pattern with
  | some p => ∃ e ∈ pairs p.spec, (bound view.receiveHandlersMut e).isSome = true
  | none => view.genericReceive.isSome = true

theorem setGeneric_refused {py : Python} {view : WebsocketRoute} {func : PyObj}
    {schema : Option PyObj} :
    (∃ e, view.setGeneric py func schema = .error e) ↔ view.genericReceive.isSome = true := by
  unfold setGeneric
  split
  · next h => exact iff_of_true ⟨_, rfl⟩ h
  · next h => exact iff_of_false nofun h

theorem run_refused {py : Python} {view : WebsocketRoute} {c : ReceiveCall} (hc : c.Passes py) :
    (∃ e, c.run py view = .error e) ↔ c.Taken view := by
  cases c with
  | bare func matchSpec schema =>
    cases hc
    show _ ↔ view.genericReceive.isSome = true
    rw [← setGeneric_refused]
    simp only [ReceiveCall.run, WebsocketRoute.receive]
    cases view.setGeneric py func schema <;> simp [Except.map]
  | decorated matchSpec schema func =>
    rw [ReceiveCall.Passes] at hc
    simp only [ReceiveCall.run, WebsocketRoute.receive, ReceiveDecorator.call, hc]
    cases matchSpec with
    | none => exact setGeneric_refused
    | some m =>
      show _ ↔ ∃ e ∈ pairs m, (bound view.receiveHandlersMut e).isSome = true
      simp only [← contains_eq, ← List.find?_isSome]
      cases (pairs m).find? (contains view.receiveHandlersMut) <;> simp

/-- **Registration is all or nothing, and the first one wins.** After any calls, one that raises
leaves the table, the generic handler and its schema as they were; one that returns binds the
product of its keys and values to one handler, or takes the generic slot, and changes nothing
else; one whose arguments and schema pass is refused exactly if something of it is taken; and
whatever comes after, what was registered stays, in the order in which it was. -/
theorem registration_all_or_nothing (py : Python) (path : String) (defaultGroup : Option String)
    (authenticationClasses : List PyObj) (before after : List ReceiveCall) (c : ReceiveCall) :
    let route := WebsocketRoute.new path defaultGroup authenticationClasses
    let view := execAll py before route
    let final := execAll py (before ++ c :: after) route
    (∀ e view', (c.exec py).run view = .error e view' →
      view'.receiveHandlersMut = view.receiveHandlersMut ∧
      view'.genericReceive = view.genericReceive ∧
      view'.genericReceiveSchema = view.genericReceiveSchema) ∧
    (∀ view', (c.exec py).run view = .ok () view' →
      match c.pattern with
      | some p =>
        (∃ handler : ReceiveHandler, handler.callback = ⟨p.func, py.isAsync p.func⟩ ∧
          handler.schema = p.schema ∧ handler.removeKey = p.spec.removeKey ∧
          ∀ e, bound view'.receiveHandlersMut e =
            if e ∈ pairs p.spec then some handler else bound view.receiveHandlersMut e) ∧
        view'.genericReceive = view.genericReceive ∧
        view'.genericReceiveSchema = view.genericReceiveSchema
      | none =>
        view'.genericReceive = some ⟨c.func, py.isAsync c.func⟩ ∧
        view'.genericReceiveSchema = c.schema ∧
        view'.receiveHandlersMut = view.receiveHandlersMut) ∧
    (c.Passes py → ((∃ e view', (c.exec py).run view = .error e view') ↔ c.Taken view)) ∧
    (∀ e handler, bound view.receiveHandlersMut e = some handler →
      bound final.receiveHandlersMut e = some handler) ∧
    (∀ cb, view.genericReceive = some cb →
      final.genericReceive = some cb ∧ final.genericReceiveSchema = view.genericReceiveSchema) ∧
    (listing view.receiveHandlersMut).Sublist (listing final.receiveHandlersMut) := by
  intro route view final
  have hkeeps : Keeps view final := by
    show Keeps view ((before ++ c :: after).foldl _ route)
    rw [List.foldl_append]
    exact keeps_execAll py (c :: after) view
  refine ⟨fun e view' h => ?_, fun view' h => ?_, fun hpasses => ?_, fun e handler h => ?_,
    hkeeps.generic, hkeeps.pairs⟩
  · rw [(exec_error h).1]
    exact ⟨rfl, rfl, rfl⟩
  · rcases ReceiveCall.run_ok (exec_ok h) with ⟨p, hp, _, rfl⟩ | ⟨hp, hg⟩
    · rw [hp]
      exact ⟨⟨_, rfl, rfl, rfl, fun e => bound_foldl (pairs p.spec) _⟩, rfl, rfl⟩
    · rw [hp, WebsocketRoute.setGeneric_ok hg]
      exact ⟨rfl, rfl, rfl⟩
  · rw [← run_refused hpasses, exec_eq]
    cases c.run py view <;> simp
  · exact mem_listing.mp (hkeeps.pairs.subset (mem_listing.mpr h))

end Webrockets
