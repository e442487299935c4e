import Webrockets.Dispatch
import Webrockets.Library.FirstMatch

/-! Whether patterns are tried in the order in which they were registered.

The table is filed by key, so the code tries the keys in the order in which they
were first registered, and the registrations in order only under one key.
`dispatch_order` says for which messages that comes out as if all registrations
had been tried in order. -/
namespace Webrockets
open FirstMatch

/-- Whether the match accepts a message through a key. -/
def Match.acceptsAt (m : Match) (json : Json) (k : String) : Bool :=
  m.keys.contains k && match json.get k with
    | none => false
    | some x => m.values.any (·.matchesJson x)

theorem Match.acceptsAt_iff {m : Match} {json : Json} {k : String} :
    m.acceptsAt json k = true ↔ m.AcceptsAt json k := by
  simp only [acceptsAt, AcceptsAt, Bool.and_eq_true, List.contains_iff_mem]
  apply and_congr_right
  intro _
  cases json.get k with
  | none => simp
  | some x => simp [MatchValue.matchesJson_iff]

/-- Whether the match accepts a message through one of its keys. -/
def Match.accepts (m : Match) (json : Json) : Bool := m.keys.any (m.acceptsAt json)

/-- The handler of the registration that came first among those that accept a message. -/
def earliest (py : Python) (ps : List Pattern) (json : Json) : Option ReceiveHandler :=
  (ps.zipIdx.find? fun e => e.1.spec.accepts json).map fun e => e.1.handler py e.2

/-- The key that was registered first among those through which a message is accepted. -/
def leadingKey (ps : List Pattern) (json : Json) : Option String :=
  (ps.flatMap (·.spec.keys)).find? fun k => ps.any (·.spec.acceptsAt json k)

/-! ### The table as rules filed under keys -/

/-- What one registration has under a key. -/
theorem findSome?_triples (py : Python) (json : Json) (k : String) (p : Pattern) (n : Nat) :
    ((p.triples py n).findSome? fun e => if e.1 = k then hit json k e.2 else none) =
      if p.spec.acceptsAt json k then some (p.handler py n, k) else none := by
  have hresult : ∀ e ∈ p.triples py n, ∀ r, (if e.1 = k then hit json k e.2 else none) = some r →
      r = (p.handler py n, k) := by
    intro e he r hr
    obtain ⟨pair, _, rfl⟩ := List.mem_map.mp he
    split at hr
    · exact (hit_eq_some.mp hr).1
    · cases hr
  split
  · next haccepts =>
    obtain ⟨hk, x, hget, v, hv, hx⟩ := Match.acceptsAt_iff.mp haccepts
    apply findSome?_eq _ hresult
    refine ⟨(k, v, p.handler py n), List.mem_map.mpr ⟨(k, v), ?_, rfl⟩, ?_⟩
    · exact WebsocketRoute.mem_pairs.mpr ⟨hk, hv⟩
    · rw [if_pos rfl]
      exact hit_eq_some.mpr ⟨rfl, x, hget, hx⟩
  · next hrefuses =>
    apply List.findSome?_eq_none_iff.mpr
    intro e he
    obtain ⟨⟨j, v⟩, hpair, rfl⟩ := List.mem_map.mp he
    obtain ⟨hj, hv⟩ := WebsocketRoute.mem_pairs.mp hpair
    split
    · next hjk =>
      obtain rfl : j = k := hjk
      cases hhit : hit json j (v, p.handler py n) with
      | none => rfl
      | some r =>
        obtain ⟨_, x, hget, hx⟩ := hit_eq_some.mp hhit
        exact absurd (Match.acceptsAt_iff.mpr ⟨hj, x, hget, v, hv, hx⟩) hrefuses
    · rfl

/-- The keys of the table, in the order in which they came in. -/
theorem findSome?_keys (py : Python) (ps : List Pattern) {β : Type} (f : String → Option β) :
    ((triples py ps).map Prod.fst).findSome? f =
      (ps.zipIdx.flatMap fun e => e.1.spec.keys).findSome? f := by
  rw [triples, List.map_flatMap, findSome?_flatMap, findSome?_flatMap]
  congr 1
  funext e
  have hkeys : (e.1.triples py e.2).map Prod.fst =
      e.1.spec.keys.flatMap fun k => e.1.spec.values.map fun _ => k := by
    simp [Pattern.triples, WebsocketRoute.pairs, List.map_flatMap, Function.comp_def]
  rw [hkeys, findSome?_flatMap]
  congr 1
  funext k
  rw [List.findSome?_map]
  exact findSome?_const e.1.spec.values_ne (f k)

/-- The search through the table is the search through the registrations filed under
their keys. -/
theorem findHandler_filed {py : Python} {ps : List Pattern} {view : WebsocketRoute}
    (hb : Built py ps view) (json : Json) :
    (findHandler view.receiveHandlersMut json).map Prod.fst =
      (filed (fun e : Pattern × Nat => e.1.spec.keys) (fun e k => e.1.spec.acceptsAt json k)
        ps.zipIdx).map fun e => e.1.handler py e.2 := by
  have hunder : ∀ k, (IndexMap.under k (triples py ps)).findSome? (hit json k) =
      (ps.zipIdx.find? fun e => e.1.spec.acceptsAt json k).map fun e => (e.1.handler py e.2, k) := by
    intro k
    rw [IndexMap.findSome?_under, triples, findSome?_flatMap, ← findSome?_ite]
    congr 1
    funext e
    exact findSome?_triples py json k e.1 e.2
  rw [findHandler_table hb, findSome?_keys, filed]
  induction ps.zipIdx.flatMap fun e => e.1.spec.keys with
  | nil => rfl
  | cons k rest ih =>
    rw [List.findSome?_cons, List.findSome?_cons, hunder]
    cases ps.zipIdx.find? fun e => e.1.spec.acceptsAt json k with
    | none => exact ih
    | some e => rfl

theorem leadingKey_eq (ps : List Pattern) (json : Json) :
    leadingKey ps json = firstKey (fun e : Pattern × Nat => e.1.spec.keys)
      (fun e k => e.1.spec.acceptsAt json k) ps.zipIdx := by
  have hmap : ps.zipIdx.map Prod.fst = ps := List.zipIdx_map_fst 0 ps
  have hkeys : (ps.zipIdx.flatMap fun e => e.1.spec.keys) = ps.flatMap (·.spec.keys) := by
    conv_rhs => rw [← hmap, List.flatMap_map]
  rw [leadingKey, firstKey, hkeys]
  congr 1
  funext k
  conv_lhs => rw [← hmap, List.any_map]
  rfl

theorem find?_zipIdx (ps : List Pattern) (accepts : Pattern → Bool) :
    ps.find? accepts = (ps.zipIdx.find? fun e => accepts e.1).map Prod.fst := by
  conv_lhs => rw [← List.zipIdx_map_fst 0 ps, List.find?_map]
  rfl

/-- Two registrations do not share a handler. -/
theorem handler_inj {py : Python} {ps : List Pattern} {a b : Pattern × Nat} (ha : a ∈ ps.zipIdx)
    (hb : b ∈ ps.zipIdx) (h : a.1.handler py a.2 = b.1.handler py b.2) : a = b := by
  have harc : a.2 = b.2 := congrArg ReceiveHandler.arc h
  have hpa := List.mem_zipIdx_iff_getElem?.mp ha
  have hpb := List.mem_zipIdx_iff_getElem?.mp hb
  rw [harc, hpb] at hpa
  exact Prod.ext (Option.some.inj hpa).symm harc

/-! ### When the order is kept -/

theorem findHandler_earliest {py : Python} {ps : List Pattern} {view : WebsocketRoute}
    (hb : Built py ps view) (json : Json) :
    (findHandler view.receiveHandlersMut json).map Prod.fst = earliest py ps json ↔
      ∀ k, leadingKey ps json = some k →
        ∀ p, ps.find? (·.spec.accepts json) = some p → p.spec.acceptsAt json k = true := by
  have hkeys : ∀ (e : Pattern × Nat) k, e.1.spec.acceptsAt json k = true → k ∈ e.1.spec.keys :=
    fun e k h => (Match.acceptsAt_iff.mp h).1
  have hfirst : (∀ k, leadingKey ps json = some k →
      ∀ p, ps.find? (·.spec.accepts json) = some p → p.spec.acceptsAt json k = true) ↔
      ∀ k, leadingKey ps json = some k → ∀ e,
        ps.zipIdx.find? (fun e => e.1.spec.accepts json) = some e → e.1.spec.acceptsAt json k = true := by
    simp only [find?_zipIdx ps (·.spec.accepts json), Option.map_eq_some_iff, forall_exists_index,
      and_imp, forall_apply_eq_imp_iff₂]
  have horder := filed_eq_flat_iff hkeys ps.zipIdx
  rw [hfirst, leadingKey_eq, findHandler_filed hb, earliest]
  refine Iff.trans ⟨fun h => ?_, fun h => congrArg _ h⟩ horder
  cases hfiled : filed (fun e : Pattern × Nat => e.1.spec.keys)
      (fun e k => e.1.spec.acceptsAt json k) ps.zipIdx with
  | none =>
    rw [hfiled] at h
    exact (Option.map_eq_none_iff.mp h.symm).symm
  | some e =>
    rw [hfiled] at h
    obtain ⟨e', he', hh⟩ := Option.map_eq_some_iff.mp h.symm
    rw [handler_inj (mem_of_filed _ _ hfiled) (List.mem_of_find?_eq_some he') hh.symm]
    exact he'.symm

/-- **Patterns are tried in the order of registration exactly as far as keys allow.** For a
message the handler selected is the one of the earliest registration that accepts it, if
and only if that registration accepts it through the key that was registered first among
those through which any registration does. -/
theorem dispatch_order (py : Python) (serde : Serde) (path : String) (defaultGroup : Option String)
    (authenticationClasses : List PyObj) (before later : List ReceiveCall) (payload : String) :
    let route := WebsocketRoute.new path defaultGroup authenticationClasses
    let rc := connected py before later route
    let ps := patterns py before route
    (rc.matchResult serde payload).map Prod.fst = (serde.fromStr payload).bind (earliest py ps) ↔
      ∀ json, serde.fromStr payload = some json → ∀ k, leadingKey ps json = some k →
        ∀ p, ps.find? (·.spec.accepts json) = some p → p.spec.acceptsAt json k = true := by
  intro route rc ps
  have hb : Built py ps (receiveAll py before route) :=
    receiveAll_built py before (built_new py path defaultGroup authenticationClasses)
  rw [rc.matchResult_eq, connected_handlers rfl]
  cases serde.fromStr payload with
  | none => simp
  | some json =>
    refine (findHandler_earliest hb json).trans ⟨fun h json' hjson => ?_, fun h => h json rfl⟩
    cases hjson
    exact h

/-- Three registrations, for `a = "1"`, `b = "1"` and `a = "2"`. The last one takes the
message that the second one accepts, too. -/
theorem first_key_overtakes :
    let py : Python := ⟨fun _ => false, fun _ => .ok true, fun _ _ => .ok 9, id⟩
    let json : Json := .object [("a", .string "2"), ("b", .string "1")]
    let text := "\x7b\"a\": \"2\", \"b\": \"1\"\x7d"
    let serde : Serde := ⟨fun s => if s = text then some json else none, fun _ => none⟩
    let route := WebsocketRoute.new "/ws" none []
    let spec (key value : String) : Match :=
      ⟨[key], [.string value], false, List.cons_ne_nil key [], List.cons_ne_nil _ []⟩
    let calls : List ReceiveCall := [.decorated (some (spec "a" "1")) none 1,
      .decorated (some (spec "b" "1")) none 2, .decorated (some (spec "a" "2")) none 3]
    let selected := ((connected py calls [] route).matchResult serde text).map Prod.fst
    let first := (serde.fromStr text).bind (earliest py (patterns py calls route))
    selected = some ⟨2, ⟨3, false⟩, none, false⟩ ∧ first = some ⟨1, ⟨2, false⟩, none, false⟩ ∧
      selected ≠ first := by
  decide

end Webrockets
