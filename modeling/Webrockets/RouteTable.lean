import Webrockets.Handshake

/-! The routes of a server (`create_route`, `runserver`).

`create_route` writes to two places. The list `context` is what `runserver` hands to the router,
and the map `registry` is where a handshake looks for its route. A path that is there already gets
another entry in the list, where the map keeps one route a path: `route_table_consistent`. -/
namespace Webrockets

/-- `context` has a default group and a path for each route. -/
structure RouteTable where
  context : List (Option String × String)
  registry : IndexMap String WebsocketRoute

/-- A call of `create_route`. `failure` is what `Py::new` raises, when it does. -/
structure CreateRoute where
  path : String
  defaultGroup : Option String
  authenticationClasses : Option (List PyObj)
  failure : Option PyErr

namespace RouteTable

def empty : RouteTable := ⟨[], .empty⟩

/-- `path.strip_prefix('/').unwrap_or(&path)`. -/
def stripPrefix (path : String) : String :=
  match path.toList with
  | '/' :: rest => String.ofList rest
  | _ => path

def pyNew (failure : Option PyErr) (view : WebsocketRoute) :
    EStateM PyErr RouteTable WebsocketRoute :=
  match failure with
  | some e => throw e
  | none => pure view

def createRoute (c : CreateRoute) : EStateM PyErr RouteTable WebsocketRoute := do
  let path := stripPrefix c.path
  modify fun t => { t with context := t.context ++ [(c.defaultGroup, path)] }
  let view ← pyNew c.failure
    (.new path c.defaultGroup (c.authenticationClasses.getD []))
  modify fun t => { t with registry := t.registry.insert path view }
  return view

/-- The table that a call leaves behind. -/
def leaves (t : RouteTable) (c : CreateRoute) : RouteTable :=
  match (createRoute c).run t with
  | .ok _ t => t
  | .error _ t => t

def createAll (calls : List CreateRoute) (t : RouteTable) : RouteTable := calls.foldl leaves t

/-- What `runserver` hands to the router: `format!("/{path}")`. -/
def routePaths (t : RouteTable) : List String := t.context.map fun entry => "/" ++ entry.2

/-! ### What calls write -/

end RouteTable

/-- The path under which a call writes. -/
def CreateRoute.key (c : CreateRoute) : String := RouteTable.stripPrefix c.path

def CreateRoute.view (c : CreateRoute) : WebsocketRoute :=
  .new c.key c.defaultGroup (c.authenticationClasses.getD [])

namespace RouteTable

theorem leaves_eq (t : RouteTable) (c : CreateRoute) : t.leaves c =
    ⟨t.context ++ [(c.defaultGroup, c.key)],
      if c.failure = none then t.registry.insert c.key c.view else t.registry⟩ := by
  unfold leaves createRoute pyNew
  cases hfailure : c.failure with
  | none => rfl
  | some e => rfl

theorem createAll_concat (t : RouteTable) (calls : List CreateRoute) (c : CreateRoute) :
    t.createAll (calls ++ [c]) = (t.createAll calls).leaves c := by
  simp only [createAll, List.foldl_append, List.foldl_cons, List.foldl_nil]

/-- Every call is in the list, and those that did not raise are in the map. -/
theorem createAll_empty (calls : List CreateRoute) : empty.createAll calls =
    ⟨calls.map fun c => (c.defaultGroup, c.key),
      .ofList ((calls.filter (·.failure = none)).map fun c => (c.key, c.view))⟩ := by
  induction calls using List.reverseRecOn with
  | nil => rfl
  | append_singleton calls c ih =>
    rw [createAll_concat, leaves_eq, ih, List.map_append, List.filter_append, List.map_append]
    by_cases hfailure : c.failure = none
    · simp [hfailure, IndexMap.ofList_concat]
    · simp [hfailure]

/-- A route that can be looked up stays. -/
theorem registered_createAll {t : RouteTable} {path : String} (h : path ∈ t.registry.keys)
    (later : List CreateRoute) : path ∈ (t.createAll later).registry.keys := by
  induction later using List.reverseRecOn with
  | nil => exact h
  | append_singleton later c ih =>
    rw [createAll_concat, leaves_eq]
    by_cases hfailure : c.failure = none
    · simp [hfailure, IndexMap.mem_keys_insert, ih]
    · simpa [hfailure] using ih

/-! ### Consistency -/

/-- The list and the map have the same routes. No path is routed twice, and whatever is created
later, a handshake for a path of the list finds a route. -/
structure Consistent (t : RouteTable) : Prop where
  distinct : (t.context.map Prod.snd).Nodup
  same : ∀ path, path ∈ t.context.map Prod.snd ↔ path ∈ t.registry.keys
  groups : ∀ entry ∈ t.context, ∀ view, t.registry.get? entry.2 = some view →
    view.defaultGroup = entry.1
  routed : t.routePaths.Nodup
  found : ∀ entry ∈ t.context, ∀ (later : List CreateRoute) (r : Upgrade),
    r.handler = (t.createAll later).registry.get? entry.2 →
      ∃ view, (Handshake.lookup r (Handshake.start r)).stage = .found view

theorem nodup_routePaths {t : RouteTable} (h : (t.context.map Prod.snd).Nodup) :
    t.routePaths.Nodup := by
  have hinj : Function.Injective fun path : String => "/" ++ path := by
    intro p q hpq
    have hlist : '/' :: p.toList = '/' :: q.toList := by
      simpa using congrArg String.toList hpq
    exact String.toList_inj.mp (List.cons.inj hlist).2
  have hmap := h.map hinj
  rwa [List.map_map] at hmap

theorem found_of_same {t : RouteTable}
    (same : ∀ path, path ∈ t.context.map Prod.snd ↔ path ∈ t.registry.keys)
    {entry : Option String × String} (hentry : entry ∈ t.context) {later : List CreateRoute}
    {r : Upgrade} (hr : r.handler = (t.createAll later).registry.get? entry.2) :
    ∃ view, (Handshake.lookup r (Handshake.start r)).stage = .found view := by
  have hmem : entry.2 ∈ t.registry.keys := (same _).mp (List.mem_map_of_mem hentry)
  obtain ⟨view, hview⟩ := IndexMap.mem_keys.mp (registered_createAll hmem later)
  refine ⟨view, ?_⟩
  rw [hview] at hr
  simp only [Handshake.lookup, hr]

theorem mem_registry {calls : List CreateRoute} {path : String} :
    path ∈ (empty.createAll calls).registry.keys ↔
      ∃ c ∈ calls, c.failure = none ∧ c.key = path := by
  rw [createAll_empty, IndexMap.mem_keys_ofList]
  simp [and_assoc]

/-- Of calls for distinct paths, the map has the route that the call made. -/
theorem view_of_registry {calls : List CreateRoute}
    (hdistinct : (calls.map CreateRoute.key).Nodup) {c : CreateRoute} (hc : c ∈ calls)
    {view : WebsocketRoute} (h : (empty.createAll calls).registry.get? c.key = some view) :
    view = c.view := by
  rw [createAll_empty, IndexMap.get?_ofList_last] at h
  obtain ⟨e, hfind, rfl⟩ := Option.map_eq_some_iff.mp h
  have hkey : e.1 = c.key := by simpa using List.find?_some hfind
  have hmem := List.mem_reverse.mp (List.mem_of_find?_eq_some hfind)
  obtain ⟨c', hc', rfl⟩ := List.mem_map.mp hmem
  have hsame : c' = c :=
    List.inj_on_of_nodup_map hdistinct (List.mem_filter.mp hc').1 hc hkey
  rw [hsame]

/-- **The list and the map agree as long as no path is created twice.** After any calls of
`create_route` the table is consistent if and only if the paths that they wrote under, without
their first slash, are distinct and `Py::new` has made every route. -/
theorem route_table_consistent (calls : List CreateRoute) :
    Consistent (empty.createAll calls) ↔
      (calls.map CreateRoute.key).Nodup ∧ ∀ c ∈ calls, c.failure = none := by
  have hpaths : (empty.createAll calls).context.map Prod.snd = calls.map CreateRoute.key := by
    rw [createAll_empty, List.map_map]
    rfl
  constructor
  · intro h
    have hdistinct : (calls.map CreateRoute.key).Nodup := hpaths ▸ h.distinct
    refine ⟨hdistinct, fun c hc => ?_⟩
    have hlisted : c.key ∈ (empty.createAll calls).context.map Prod.snd :=
      hpaths ▸ List.mem_map_of_mem hc
    obtain ⟨c', hc', hmade, hkey⟩ := mem_registry.mp ((h.same _).mp hlisted)
    have hsame : c' = c := List.inj_on_of_nodup_map hdistinct hc' hc hkey
    exact hsame ▸ hmade
  · rintro ⟨hdistinct, hmade⟩
    have hnodup : ((empty.createAll calls).context.map Prod.snd).Nodup := hpaths ▸ hdistinct
    have hsame : ∀ path, path ∈ (empty.createAll calls).context.map Prod.snd ↔
        path ∈ (empty.createAll calls).registry.keys := by
      intro path
      rw [hpaths, mem_registry, List.mem_map]
      constructor
      · rintro ⟨c, hc, rfl⟩
        exact ⟨c, hc, hmade c hc, rfl⟩
      · rintro ⟨c, hc, -, rfl⟩
        exact ⟨c, hc, rfl⟩
    have hgroups : ∀ entry ∈ (empty.createAll calls).context, ∀ view,
        (empty.createAll calls).registry.get? entry.2 = some view →
          view.defaultGroup = entry.1 := by
      intro entry hentry view hview
      rw [createAll_empty] at hentry
      obtain ⟨c, hc, rfl⟩ := List.mem_map.mp hentry
      rw [view_of_registry hdistinct hc hview]
      rfl
    exact ⟨hnodup, hsame, hgroups, nodup_routePaths hnodup,
      fun entry hentry later r hr => found_of_same hsame hentry hr⟩

/-- The same path, with and without its slash. -/
def chatTwice : List CreateRoute :=
  [⟨"ws/chat/", some "chat", none, none⟩, ⟨"/ws/chat/", some "lobby", none, none⟩]

/-- The router gets one path twice. -/
theorem chat_routed_twice :
    ¬ Consistent (empty.createAll chatTwice) ∧
      (empty.createAll chatTwice).routePaths = ["/ws/chat/", "/ws/chat/"] := by
  have hpaths : (empty.createAll chatTwice).routePaths = ["/ws/chat/", "/ws/chat/"] := by decide
  refine ⟨fun h => ?_, hpaths⟩
  have hrouted := h.routed
  rw [hpaths] at hrouted
  exact absurd hrouted (by decide)

end RouteTable
end Webrockets
