import Webrockets.Connection
import Webrockets.Json

/-! Routes and their receive handlers (`route.rs`, `receive_handler.rs`).

Handlers are registered in a table of tables, by key and then by value. What
Python can find out about a function or a schema, and how Rust prints a string
for a programmer, are parameters: see `Python`.

`receiveAll_built` says what any history of registrations leaves in the table:
the product of keys and values of every registration that succeeded, in the order
in which they were made, and no pair twice. -/
namespace Webrockets

/-! ### Matches -/

inductive MatchValue where
  | wildcard
  | string (s : String)
  | int (i : Int64)
  deriving DecidableEq, Repr

def MatchValue.matchesJson : MatchValue → Json → Bool
  | .wildcard, _ => true
  | .string s, json => match json with
    | .string js => s = js
    | _ => false
  | .int i, json => match json with
    | .number n => n.asI64 = some i
    | _ => false

/-- What a value of a match stands for. -/
inductive MatchValue.Accepts : MatchValue → Json → Prop
  | wildcard (json : Json) : Accepts .wildcard json
  | string (s : String) : Accepts (.string s) (.string s)
  | int (i : Int64) (n : Number) (h : n.integer = some i.toInt) : Accepts (.int i) (.number n)

theorem MatchValue.matchesJson_iff {v : MatchValue} {json : Json} :
    v.matchesJson json = true ↔ v.Accepts json := by
  refine ⟨fun h => ?_, fun h => ?_⟩
  · cases v with
    | wildcard => exact .wildcard json
    | string s =>
      cases json with
      | string js =>
        obtain rfl : s = js := by simpa [matchesJson] using h
        exact .string s
      | _ => cases h
    | int i =>
      cases json with
      | number n => exact .int i n (Number.asI64_eq_some.mp (by simpa [matchesJson] using h))
      | _ => cases h
  · cases h with
    | wildcard => rfl
    | string s => simp [matchesJson]
    | int i n h => simpa [matchesJson] using Number.asI64_eq_some.mpr h

/-- An argument of `Match`. Iterating over it gives `items` and then ends, or raises. -/
inductive PyArg where
  | str (s : String)
  | surrogateStr
  | int (i : Int)
  | iterable (items : List PyArg) (raised : Option PyErr)
  | other

/-- The lists are what the constructor makes sure they are: not empty. -/
structure Match where
  keys : List String
  values : List MatchValue
  removeKey : Bool
  keys_ne : keys ≠ []
  values_ne : values ≠ []

namespace Match

/-- The tail of the two `extract` functions: items one by one, then the end of the
iteration, then the check that there was something. -/
def collect {α : Type} (extract : PyArg → Except PyErr α) (items : List PyArg) (raised : Option PyErr)
    (emptyError : PyErr) : Except PyErr { l : List α // l ≠ [] } :=
  match items.mapM extract, raised with
  | .error e, _ => .error e
  | .ok _, some e => .error e
  | .ok result, none => if h : result ≠ [] then .ok ⟨result, h⟩ else .error emptyError

def extractKey : PyArg → Except PyErr String
  | .str s => .ok s
  | _ => .error (.typeError "key iterable must contain only strings")

def extractKeys : PyArg → Except PyErr { l : List String // l ≠ [] }
  | .str s => .ok ⟨[s], List.cons_ne_nil s []⟩
  -- a string iterates over its characters, and one of them is not UTF-8
  | .surrogateStr => .error (.typeError "key iterable must contain only strings")
  | .iterable items raised =>
    collect extractKey items raised (.valueError "key iterable must not be empty")
  | _ => .error (.typeError "key must be str or iterable of str")

def extractSingleValue : PyArg → Except PyErr MatchValue
  | .str s => .ok (if s = "*" then .wildcard else .string s)
  | .int i =>
    if Int64.minValue.toInt ≤ i ∧ i ≤ Int64.maxValue.toInt then .ok (.int (Int64.ofInt i))
    else .error (.typeError "value must be str, int, or \"*\" for wildcard")
  | _ => .error (.typeError "value must be str, int, or \"*\" for wildcard")

def extractValues (obj : PyArg) : Except PyErr { l : List MatchValue // l ≠ [] } :=
  match extractSingleValue obj with
  | .ok v => .ok ⟨[v], List.cons_ne_nil v []⟩
  | .error single =>
    match obj with
    | .iterable items raised =>
      collect extractSingleValue items raised (.valueError "value iterable must not be empty")
    | .surrogateStr => .error single
    | _ => .error (.typeError "value must be str, int, or iterable of these")

def new (key value : PyArg) (removeKey : Bool) : Except PyErr Match :=
  match extractKeys key with
  | .error e => .error e
  | .ok keys =>
    match extractValues value with
    | .error e => .error e
    | .ok values => .ok ⟨keys.1, values.1, removeKey, keys.2, values.2⟩

end Match

/-! ### Routes -/

structure Callback where
  func : PyObj
  isAsync : Bool
  deriving DecidableEq, Repr

/-- `arc` tells allocations apart: a handler is registered under many pairs and shared. -/
structure ReceiveHandler where
  arc : Nat
  callback : Callback
  schema : Option PyObj
  removeKey : Bool
  deriving DecidableEq, Repr

abbrev Handlers := IndexMap String (IndexMap MatchValue ReceiveHandler)

/-- `receiveHandlers` is the `OnceLock` with the snapshot, `allocated` the number of
handlers made so far. -/
structure WebsocketRoute where
  path : String
  defaultGroup : Option String
  authenticationClasses : List PyObj
  connectBeforeCallback : Option Callback
  connectAfterCallback : Option Callback
  receiveHandlersMut : Handlers
  receiveHandlers : Option Handlers
  genericReceive : Option Callback
  genericReceiveSchema : Option PyObj
  disconnectCallback : Option Callback
  allocated : Nat

/-- What the code asks of Python: `inspect.iscoroutinefunction`, `hasattr` and a call
of `model_validate_json` on a schema; and `{:?}` for a string. -/
structure Python where
  isAsync : PyObj → Bool
  hasModelValidateJson : PyObj → Except PyErr Bool
  modelValidateJson : PyObj → String → Except PyErr PyObj
  debugStr : String → String

structure ReceiveDecorator where
  matchSpec : Option Match
  schema : Option PyObj

namespace WebsocketRoute

def new (path : String) (defaultGroup : Option String) (authenticationClasses : List PyObj) :
    WebsocketRoute :=
  ⟨path, defaultGroup, authenticationClasses, none, none, .empty, none, none, none, none, 0⟩

/-- The snapshot is taken by the first call. -/
def frozenHandlers (view : WebsocketRoute) : Handlers × WebsocketRoute :=
  match view.receiveHandlers with
  | some handlers => (handlers, view)
  | none => (view.receiveHandlersMut, { view with receiveHandlers := some view.receiveHandlersMut })

def genericRegistered : PyErr := .valueError "Generic receive handler already registered"

def setGeneric (view : WebsocketRoute) (py : Python) (func : PyObj) (schema : Option PyObj) :
    Except PyErr WebsocketRoute :=
  if view.genericReceive.isSome then .error genericRegistered
  else .ok { view with genericReceive := some ⟨func, py.isAsync func⟩, genericReceiveSchema := schema }

def debugValue (py : Python) : MatchValue → String
  | .wildcard => "Wildcard"
  | .string s => "String(" ++ py.debugStr s ++ ")"
  | .int i => "Int(" ++ toString i ++ ")"

def handlerRegistered (py : Python) (e : String × MatchValue) : PyErr :=
  .valueError ("Handler for match(key=" ++ py.debugStr e.1 ++ ", value=" ++ debugValue py e.2 ++
    ") already registered")

/-- The pairs under which a match registers, in the order of the two loops. -/
def pairs (m : Match) : List (String × MatchValue) :=
  m.keys.flatMap fun key => m.values.map fun value => (key, value)

theorem mem_pairs {m : Match} {k : String} {v : MatchValue} :
    (k, v) ∈ pairs m ↔ k ∈ m.keys ∧ v ∈ m.values := by
  simp [pairs]

def contains (handlers : Handlers) (e : String × MatchValue) : Bool :=
  (handlers.get? e.1).any (·.contains e.2)

/-- One new handler under every pair of the match. -/
def register (view : WebsocketRoute) (m : Match) (callback : Callback) (schema : Option PyObj) :
    WebsocketRoute :=
  let handler : ReceiveHandler := ⟨view.allocated, callback, schema, m.removeKey⟩
  { view with
    receiveHandlersMut := (pairs m).foldl (fun handlers e =>
      handlers.upsert e.1 .empty (·.insert e.2 handler)) view.receiveHandlersMut
    allocated := view.allocated + 1 }

/-- `receive` either registers or makes a decorator. -/
def receive (view : WebsocketRoute) (py : Python) (func : Option PyObj) (matchSpec : Option Match)
    (schema : Option PyObj) : Except PyErr (WebsocketRoute ⊕ ReceiveDecorator) :=
  match func, matchSpec with
  | some f, none => (view.setGeneric py f schema).map .inl
  | none, matchSpec => .ok (.inr ⟨matchSpec, schema⟩)
  | some _, some _ => .error (.valueError "Cannot use match= with bare decorator syntax")

end WebsocketRoute

/-- Whether the schema, if there is one, has the method that validation calls. -/
def ReceiveDecorator.schemaUsable (d : ReceiveDecorator) (py : Python) : Except PyErr Bool :=
  match d.schema with
  | none => .ok true
  | some schema => py.hasModelValidateJson schema

open WebsocketRoute in
def ReceiveDecorator.call (d : ReceiveDecorator) (py : Python) (func : PyObj) (view : WebsocketRoute) :
    Except PyErr WebsocketRoute :=
  match d.schemaUsable py with
  | .error e => .error e
  | .ok false => .error (.typeError
      "schema must be a Pydantic model. Install webrockets[schema] for Pydantic support.")
  | .ok true =>
    match d.matchSpec with
    | some m =>
      match (pairs m).find? (contains view.receiveHandlersMut) with
      | some e => .error (handlerRegistered py e)
      | none => .ok (view.register m ⟨func, py.isAsync func⟩ d.schema)
    | none => view.setGeneric py func d.schema

/-! ### Histories of registrations -/

/-- The ways to register: `route.receive(f, match=.., schema=..)` and
`route.receive(match=.., schema=..)(f)`. -/
inductive ReceiveCall where
  | bare (func : PyObj) (matchSpec : Option Match) (schema : Option PyObj)
  | decorated (matchSpec : Option Match) (schema : Option PyObj) (func : PyObj)

def ReceiveCall.run (py : Python) (view : WebsocketRoute) :
    ReceiveCall → Except PyErr WebsocketRoute
  | .bare func matchSpec schema =>
    match view.receive py (some func) matchSpec schema with
    | .ok (.inl view) => .ok view
    | .ok (.inr _) => .ok view
    | .error e => .error e
  | .decorated matchSpec schema func =>
    match view.receive py none matchSpec schema with
    | .ok (.inl view) => .ok view
    | .ok (.inr d) => d.call py func view
    | .error e => .error e

/-- The route after the calls; a call that raises has not written anything yet. -/
def receiveAll (py : Python) (calls : List ReceiveCall) (view : WebsocketRoute) : WebsocketRoute :=
  calls.foldl (fun view c => match c.run py view with
    | .ok view => view
    | .error _ => view) view

/-- A registration with a match. -/
structure Pattern where
  spec : Match
  func : PyObj
  schema : Option PyObj

def ReceiveCall.pattern : ReceiveCall → Option Pattern
  | .decorated (some m) schema func => some ⟨m, func, schema⟩
  | _ => none

def ReceiveCall.func : ReceiveCall → PyObj
  | .bare func _ _ => func
  | .decorated _ _ func => func

def ReceiveCall.schema : ReceiveCall → Option PyObj
  | .bare _ _ schema => schema
  | .decorated _ schema _ => schema

/-- A pattern has the function and the schema of its call. -/
theorem ReceiveCall.of_pattern {c : ReceiveCall} {p : Pattern} (h : c.pattern = some p) :
    p.func = c.func ∧ p.schema = c.schema := by
  cases c with
  | bare func matchSpec schema => cases h
  | decorated matchSpec schema func =>
    cases matchSpec with
    | none => cases h
    | some m =>
      cases h
      exact ⟨rfl, rfl⟩

/-- A call that returns has registered a pattern, all of whose pairs were free, or the
generic handler. -/
theorem ReceiveCall.run_ok {py : Python} {view view' : WebsocketRoute} {c : ReceiveCall}
    (h : c.run py view = .ok view') :
    (∃ p : Pattern, c.pattern = some p ∧ (WebsocketRoute.pairs p.spec).find?
        (WebsocketRoute.contains view.receiveHandlersMut) = none ∧
        view' = view.register p.spec ⟨p.func, py.isAsync p.func⟩ p.schema) ∨
      (c.pattern = none ∧ view.setGeneric py c.func c.schema = .ok view') := by
  cases c with
  | bare func matchSpec schema =>
    cases matchSpec with
    | some m => cases h
    | none =>
      cases hg : view.setGeneric py func schema with
      | error e => simp [run, WebsocketRoute.receive, hg, Except.map] at h
      | ok view'' =>
        simp only [run, WebsocketRoute.receive, hg, Except.map, Except.ok.injEq] at h
        subst h
        exact .inr ⟨rfl, hg⟩
  | decorated matchSpec schema func =>
    simp only [run, WebsocketRoute.receive, ReceiveDecorator.call] at h
    split at h
    · cases h
    · cases h
    · cases matchSpec with
      | some m =>
        dsimp only at h
        split at h
        · cases h
        · next hfree => exact .inl ⟨⟨m, func, schema⟩, rfl, hfree, (Except.ok.inj h).symm⟩
      | none => exact .inr ⟨rfl, h⟩

theorem WebsocketRoute.setGeneric_ok {py : Python} {view view' : WebsocketRoute} {func : PyObj}
    {schema : Option PyObj} (h : view.setGeneric py func schema = .ok view') :
    view' = { view with
      genericReceive := some ⟨func, py.isAsync func⟩, genericReceiveSchema := schema } := by
  rw [setGeneric] at h
  split at h
  · cases h
  · exact (Except.ok.inj h).symm

/-- The registrations with a match that succeed among the calls. -/
def patterns (py : Python) : List ReceiveCall → WebsocketRoute → List Pattern
  | [], _ => []
  | c :: rest, view =>
    match c.run py view with
    | .ok view => c.pattern.toList ++ patterns py rest view
    | .error _ => patterns py rest view

def Pattern.handler (py : Python) (n : Nat) (p : Pattern) : ReceiveHandler :=
  ⟨n, ⟨p.func, py.isAsync p.func⟩, p.schema, p.spec.removeKey⟩

/-- What the `n`th of the patterns puts in the table. -/
def Pattern.triples (py : Python) (n : Nat) (p : Pattern) : List (String × MatchValue × ReceiveHandler) :=
  (WebsocketRoute.pairs p.spec).map fun e => (e.1, e.2, p.handler py n)

def triples (py : Python) (ps : List Pattern) : List (String × MatchValue × ReceiveHandler) :=
  ps.zipIdx.flatMap fun e => e.1.triples py e.2

theorem triples_concat (py : Python) (ps : List Pattern) (p : Pattern) :
    triples py (ps ++ [p]) = triples py ps ++ p.triples py ps.length := by
  simp [triples, List.zipIdx_append]

theorem mem_triples {py : Python} {ps : List Pattern} {k : String} {v : MatchValue} {h : ReceiveHandler} :
    (k, v, h) ∈ triples py ps ↔
      ∃ (n : Nat) (p : Pattern), ps[n]? = some p ∧ (k, v) ∈ WebsocketRoute.pairs p.spec ∧
        h = p.handler py n := by
  simp only [triples, List.mem_flatMap, Pattern.triples, List.mem_map, Prod.mk.injEq]
  refine ⟨fun hm => ?_, fun hm => ?_⟩
  · obtain ⟨⟨p, n⟩, hp, e, he, rfl, rfl, rfl⟩ := hm
    exact ⟨n, p, List.mem_zipIdx_iff_getElem?.mp hp, he, rfl⟩
  · obtain ⟨n, p, hp, he, rfl⟩ := hm
    exact ⟨(p, n), List.mem_zipIdx_iff_getElem?.mpr hp, (k, v), he, rfl, rfl, rfl⟩

/-- The route's table is made of the patterns, which have no pair in common. -/
structure Built (py : Python) (ps : List Pattern) (view : WebsocketRoute) : Prop where
  table : view.receiveHandlersMut = IndexMap.table (triples py ps)
  allocated : view.allocated = ps.length
  apart : ps.Pairwise fun p q => ∀ e ∈ WebsocketRoute.pairs p.spec, e ∉ WebsocketRoute.pairs q.spec

theorem contains_table {py : Python} {ps : List Pattern} {e : String × MatchValue} :
    WebsocketRoute.contains (IndexMap.table (triples py ps)) e = true ↔
      ∃ p ∈ ps, e ∈ WebsocketRoute.pairs p.spec := by
  have hget : WebsocketRoute.contains (IndexMap.table (triples py ps)) e =
      (IndexMap.ofList (IndexMap.under e.1 (triples py ps))).contains e.2 := by
    rw [← IndexMap.get?_table]
    simp only [WebsocketRoute.contains]
    cases (IndexMap.table (triples py ps)).get? e.1 <;> rfl
  rw [hget, IndexMap.contains_iff, IndexMap.mem_keys_ofList, List.mem_map]
  refine ⟨fun h => ?_, fun h => ?_⟩
  · obtain ⟨⟨v, handler⟩, hm, rfl⟩ := h
    obtain ⟨n, p, hp, he, _⟩ := mem_triples.mp (IndexMap.mem_under.mp hm)
    exact ⟨p, List.mem_of_getElem? hp, he⟩
  · obtain ⟨p, hp, he⟩ := h
    obtain ⟨n, hn⟩ := List.mem_iff_getElem?.mp hp
    exact ⟨(e.2, p.handler py n), IndexMap.mem_under.mpr (mem_triples.mpr ⟨n, p, hn, he, rfl⟩), rfl⟩

/-- Registering a pattern adds it to the ones the table is made of. -/
theorem Built.register {py : Python} {ps : List Pattern} {view : WebsocketRoute}
    (hb : Built py ps view) {p : Pattern}
    (hfree : (WebsocketRoute.pairs p.spec).find?
      (WebsocketRoute.contains view.receiveHandlersMut) = none) :
    Built py (ps ++ [p]) (view.register p.spec ⟨p.func, py.isAsync p.func⟩ p.schema) := by
  obtain ⟨htable, hallocated, hapart⟩ := hb
  refine ⟨?_, ?_, ?_⟩
  · show (WebsocketRoute.pairs p.spec).foldl _ _ = _
    rw [triples_concat, IndexMap.table_append, Pattern.triples, List.foldl_map, htable, hallocated]
    rfl
  · show view.allocated + 1 = _
    rw [hallocated, List.length_append, List.length_singleton]
  · apply List.pairwise_append.mpr ⟨hapart, List.pairwise_singleton _ _, _⟩
    intro q hq p' hp' e he hep
    rw [List.mem_singleton.mp hp'] at hep
    have hcontains := List.find?_eq_none.mp hfree e hep
    rw [htable] at hcontains
    exact hcontains (contains_table.mpr ⟨q, hq, he⟩)

/-- **The table holds exactly what was registered.** After any history of calls it
is filled from the patterns whose registration succeeded, and no two of these have
a pair in common. -/
theorem receiveAll_built (py : Python) (calls : List ReceiveCall) {ps : List Pattern}
    {view : WebsocketRoute} (hb : Built py ps view) :
    Built py (ps ++ patterns py calls view) (receiveAll py calls view) := by
  induction calls generalizing ps view with
  | nil => simpa [patterns, receiveAll] using hb
  | cons c rest ih =>
    simp only [patterns, receiveAll, List.foldl_cons]
    cases hc : c.run py view with
    | ok view' =>
      rw [← List.append_assoc]
      apply ih
      rcases ReceiveCall.run_ok hc with ⟨p, hp, hfree, rfl⟩ | ⟨hp, hg⟩
      · rw [hp]
        exact hb.register hfree
      · rw [hp, WebsocketRoute.setGeneric_ok hg]
        exact ⟨by rw [hb.table]; simp, by rw [hb.allocated]; simp, by simpa using hb.apart⟩
    | error e => exact ih hb

/-- No call takes the snapshot of the table, or changes it once it is taken. -/
theorem receiveAll_receiveHandlers (py : Python) (calls : List ReceiveCall) (view : WebsocketRoute) :
    (receiveAll py calls view).receiveHandlers = view.receiveHandlers := by
  induction calls generalizing view with
  | nil => rfl
  | cons c rest ih =>
    simp only [receiveAll, List.foldl_cons]
    cases hc : c.run py view with
    | ok view' =>
      refine (ih view').trans ?_
      rcases ReceiveCall.run_ok hc with ⟨p, _, _, rfl⟩ | ⟨_, hg⟩
      · rfl
      · rw [WebsocketRoute.setGeneric_ok hg]
    | error e => exact ih view

theorem built_new (py : Python) (path : String) (defaultGroup : Option String)
    (authenticationClasses : List PyObj) : Built py [] (.new path defaultGroup authenticationClasses) :=
  ⟨rfl, rfl, .nil⟩

/-- A pair belongs to one of the patterns. -/
theorem Built.functional {py : Python} {ps : List Pattern} {view : WebsocketRoute}
    (hb : Built py ps view) (k : String) : IndexMap.Functional (IndexMap.under k (triples py ps)) := by
  intro a ha b hb' he
  obtain ⟨v, h⟩ := a
  obtain ⟨w, h'⟩ := b
  obtain rfl : v = w := he
  obtain ⟨n, p, hp, hpe, rfl⟩ := mem_triples.mp (IndexMap.mem_under.mp ha)
  obtain ⟨m, q, hq, hqe, rfl⟩ := mem_triples.mp (IndexMap.mem_under.mp hb')
  obtain ⟨hn, rfl⟩ := List.getElem?_eq_some_iff.mp hp
  obtain ⟨hm, rfl⟩ := List.getElem?_eq_some_iff.mp hq
  have hapart := List.pairwise_iff_getElem.mp hb.apart
  rcases Nat.lt_trichotomy n m with hlt | rfl | hgt
  · exact absurd hqe (hapart n m hn hm hlt (k, v) hpe)
  · rfl
  · exact absurd hpe (hapart m n hm hn hgt (k, v) hqe)

end Webrockets
