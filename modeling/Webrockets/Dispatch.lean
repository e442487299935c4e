import Webrockets.Route

/-! What `receive_listener` does with a frame (`server.rs`, `callback.rs`).

`turn` is one turn of its loop: the Python functions it calls and whether the loop
goes on. The payload of a text frame is parsed only if there are patterns; the
table is searched by key and then by value, and without a hit the generic handler
gets the payload.

`dispatch_text` relates that search to the history of registrations the table was
built from, and `turn_calls` bounds the calls of a turn. -/
namespace Webrockets

/-! ### Bytes as text -/

def fromUtf8 (bytes : List UInt8) : Option String := String.fromUTF8? ⟨bytes.toArray⟩

def replacementCharacter : Char := Char.ofNat 0xFFFD

def isContinuation (b : UInt8) : Bool := 0x80 ≤ b && b ≤ 0xBF

/-- The length of the sequences that start with a byte, 0 if none does. -/
def utf8Width (b : UInt8) : Nat :=
  if b < 0x80 then 1
  else if b < 0xC2 then 0
  else if b < 0xE0 then 2
  else if b < 0xF0 then 3
  else if b < 0xF5 then 4
  else 0

/-- What the first byte of a sequence adds to its code point. -/
def utf8Lead (b : UInt8) : Nat :=
  match utf8Width b with
  | 2 => b.toNat - 0xC0
  | 3 => b.toNat - 0xE0
  | 4 => b.toNat - 0xF0
  | _ => b.toNat

/-- Overlong forms, surrogates and what lies past the last code point are ruled out
by the second byte. -/
def isSecond (b c : UInt8) : Bool :=
  isContinuation c && !(b = 0xE0 && c < 0xA0) && !(b = 0xED && 0x9F < c) &&
    !(b = 0xF0 && c < 0x90) && !(b = 0xF4 && 0x8F < c)

/-- The bytes that go on with the sequence a byte starts, as far as they do. -/
def utf8Tail (b : UInt8) : List UInt8 → List UInt8
  | [] => []
  | c :: rest =>
    if isSecond b c then (c :: rest.takeWhile isContinuation).take (utf8Width b - 1) else []

def utf8Char (b : UInt8) (tail : List UInt8) : Char :=
  if tail.length + 1 = utf8Width b then
    Char.ofNat (tail.foldl (fun n c => n * 64 + (c.toNat - 0x80)) (utf8Lead b))
  else replacementCharacter

/-- A sequence that is not finished counts as one character, as far as it goes. -/
def lossyChars : List UInt8 → Nat → List Char
  | [], _ => []
  | _ :: rest, skip + 1 => lossyChars rest skip
  | b :: rest, 0 => utf8Char b (utf8Tail b rest) :: lossyChars rest (utf8Tail b rest).length

def fromUtf8Lossy (bytes : List UInt8) : String := String.ofList (lossyChars bytes 0)

/-! ### Calls of Python functions -/

/-- The data argument of a receive callback. -/
inductive Data where
  | text (s : String)
  | bytes (b : List UInt8)
  | validated (o : PyObj)
  deriving DecidableEq, Repr

/-- What a callback gets besides the connection. -/
inductive Args where
  | connect
  | receive (data : Data)
  | disconnect (code : UInt16) (reason : String)
  deriving DecidableEq, Repr

/-- A call of a callback's function. What it returns or raises does not matter to the
loop, which only logs errors. -/
structure Invocation where
  callback : Callback
  args : Args
  deriving DecidableEq, Repr

def Callback.invoke (cb : Callback) (args : Args) : List Invocation := [⟨cb, args⟩]

/-- The schema is asked first, and its error is logged in place of a call. -/
def Callback.invokeWithSchema (cb : Callback) (py : Python) (jsonStr : String) (schema : PyObj) :
    List Invocation :=
  match py.modelValidateJson schema jsonStr with
  | .ok validated => [⟨cb, .receive (.validated validated)⟩]
  | .error _ => []

/-- A call with a schema or, without one, with the text itself. -/
def Callback.invokeText (cb : Callback) (py : Python) (schema : Option PyObj) (payload : String) :
    List Invocation :=
  match schema with
  | some schema => cb.invokeWithSchema py payload schema
  | none => cb.invoke (.receive (.text payload))

/-! ### Dispatch -/

structure ReceiveCallback where
  generic : Option Callback
  genericSchema : Option PyObj
  handlers : Handlers

/-- What `handle_client` takes from the route. -/
def WebsocketRoute.receiveCallback (view : WebsocketRoute) : ReceiveCallback × WebsocketRoute :=
  (⟨view.genericReceive, view.genericReceiveSchema, view.frozenHandlers.1⟩, view.frozenHandlers.2)

def ReceiveCallback.jsonValue (rc : ReceiveCallback) (serde : Serde) (payload : String) : Option Json :=
  if rc.handlers.isEmpty then none else serde.fromStr payload

def findHandler (handlers : Handlers) (json : Json) : Option (ReceiveHandler × String) :=
  handlers.entries.findSome? fun e =>
    match json.get e.1 with
    | none => none
    | some jsonVal => e.2.entries.findSome? fun v =>
        if v.1.matchesJson jsonVal then some (v.2, e.1) else none

def ReceiveCallback.matchResult (rc : ReceiveCallback) (serde : Serde) (payload : String) :
    Option (ReceiveHandler × String) :=
  (rc.jsonValue serde payload).bind (findHandler rc.handlers)

/-- The payload of a handler with `remove_key` is printed anew, without the key. -/
def ReceiveHandler.payload (handler : ReceiveHandler) (serde : Serde) (json : Json)
    (matchedKey payload : String) : String :=
  if handler.removeKey then (serde.toString (json.remove matchedKey)).getD "" else payload

def ReceiveCallback.onText (rc : ReceiveCallback) (py : Python) (serde : Serde) (payload : String) :
    List Invocation :=
  match rc.jsonValue serde payload, rc.matchResult serde payload with
  | some json, some (handler, matchedKey) =>
    handler.callback.invokeText py handler.schema (handler.payload serde json matchedKey payload)
  | _, _ =>
    match rc.generic with
    | some cb => cb.invokeText py rc.genericSchema payload
    | none => []

/-- The generic handler gets the bytes as they are, whatever its schema. -/
def ReceiveCallback.onBinary (rc : ReceiveCallback) (payload : List UInt8) : List Invocation :=
  match rc.generic with
  | some cb => cb.invoke (.receive (.bytes payload))
  | none => []

/-- The first two bytes are the code; a shorter payload has none, which is `CloseCode::Status`. -/
def closeArgs (payload : List UInt8) : UInt16 × List UInt8 :=
  match payload with
  | hi :: lo :: reason => (hi.toUInt16 <<< 8 ||| lo.toUInt16, reason)
  | payload => (1005, payload)

def onClose (disconnectCallback : Option Callback) (payload : List UInt8) : List Invocation :=
  match disconnectCallback with
  | some cb =>
    let (closeCode, reasonBytes) := closeArgs payload
    cb.invoke (.disconnect closeCode ((fromUtf8 reasonBytes).getD (fromUtf8Lossy reasonBytes)))
  | none => []

/-- A turn of the loop. `read_frame` gives a frame or an error, and the second part says
whether there is a next turn. -/
def turn (py : Python) (serde : Serde) (rc : ReceiveCallback) (disconnectCallback : Option Callback) :
    Option Frame → List Invocation × Bool
  | none => ([], false)
  | some frame =>
    match frame.opcode with
    | .close => (onClose disconnectCallback frame.payload, false)
    | .text =>
      match fromUtf8 frame.payload with
      | some payload => (rc.onText py serde payload, true)
      | none => ([], true)
    | .binary => (rc.onBinary frame.payload, true)
    | .continuation | .ping | .pong => ([], true)

/-! ### Turns -/

theorem fromUtf8_toUTF8 (s : String) : fromUtf8 s.toUTF8.data.toList = some s :=
  (dif_pos s.isValidUTF8).trans rfl

theorem code_of_bytes (code : UInt16) :
    (code >>> 8).toUInt8.toUInt16 <<< 8 ||| code.toUInt8.toUInt16 = code := by
  apply UInt16.toNat_inj.mp
  have hcode : code.toNat < 65536 := code.toNat_lt
  simp only [UInt16.toNat_or, UInt16.toNat_shiftLeft, UInt8.toNat_toUInt16, UInt16.toNat_toUInt8,
    UInt16.toNat_shiftRight]
  show (code.toNat >>> 8 % 256) <<< 8 % 65536 ||| code.toNat % 256 = code.toNat
  have hhigh : code.toNat >>> 8 = code.toNat / 256 := Nat.shiftRight_eq_div_pow _ _
  have hshift : (code.toNat / 256) <<< 8 = code.toNat / 256 * 256 := Nat.shiftLeft_eq _ _
  have hor := Nat.shiftLeft_add_eq_or_of_lt (show code.toNat % 256 < 2 ^ 8 by omega)
    (code.toNat / 256)
  rw [hhigh, Nat.mod_eq_of_lt (show code.toNat / 256 < 256 by omega),
    Nat.mod_eq_of_lt (show (code.toNat / 256) <<< 8 < 65536 by omega), ← hor, hshift]
  omega

theorem closeArgs_close (code : UInt16) (reason : List UInt8) :
    closeArgs (Frame.close code reason).payload = (code, reason) := by
  simp only [Frame.close, closeArgs, code_of_bytes]

@[simp] theorem turn_text (py : Python) (serde : Serde) (rc : ReceiveCallback)
    (disconnectCallback : Option Callback) (payload : String) :
    turn py serde rc disconnectCallback (some (Message.text payload).frame) =
      (rc.onText py serde payload, true) := by
  show (match fromUtf8 payload.toUTF8.data.toList with
    | some payload => (rc.onText py serde payload, true)
    | none => ([], true)) = _
  rw [fromUtf8_toUTF8]

theorem Callback.invokeText_length (cb : Callback) (py : Python) (schema : Option PyObj)
    (payload : String) : (cb.invokeText py schema payload).length ≤ 1 := by
  cases schema with
  | none => exact Nat.le_refl 1
  | some schema =>
    simp only [invokeText, invokeWithSchema]
    split
    · exact Nat.le_refl 1
    · exact Nat.zero_le 1

theorem Callback.mem_invokeText {cb : Callback} {py : Python} {schema : Option PyObj}
    {payload : String} {call : Invocation} (h : call ∈ cb.invokeText py schema payload) :
    ∃ data, call = ⟨cb, .receive data⟩ := by
  cases schema with
  | none => exact ⟨_, List.mem_singleton.mp h⟩
  | some schema =>
    simp only [invokeText, invokeWithSchema] at h
    split at h
    · exact ⟨_, List.mem_singleton.mp h⟩
    · cases h

theorem ReceiveCallback.onText_length (rc : ReceiveCallback) (py : Python) (serde : Serde)
    (payload : String) : (rc.onText py serde payload).length ≤ 1 := by
  simp only [onText]
  split
  · apply Callback.invokeText_length
  · cases rc.generic with
    | none => exact Nat.zero_le 1
    | some cb => apply Callback.invokeText_length

/-- No frame makes the listener call two functions, or one twice. -/
theorem turn_calls (py : Python) (serde : Serde) (rc : ReceiveCallback)
    (disconnectCallback : Option Callback) (frame : Option Frame) :
    (turn py serde rc disconnectCallback frame).1.length ≤ 1 := by
  cases frame with
  | none => exact Nat.zero_le 1
  | some frame =>
    obtain ⟨opcode, payload⟩ := frame
    cases opcode with
    | text =>
      simp only [turn]
      cases fromUtf8 payload with
      | none => exact Nat.zero_le 1
      | some payload => exact rc.onText_length py serde payload
    | binary =>
      simp only [turn, ReceiveCallback.onBinary]
      cases rc.generic with
      | none => exact Nat.zero_le 1
      | some cb => exact Nat.le_refl 1
    | close =>
      simp only [turn, onClose]
      cases disconnectCallback with
      | none => exact Nat.zero_le 1
      | some cb => exact Nat.le_refl 1
    | continuation | ping | pong => exact Nat.zero_le 1

theorem turn_close (py : Python) (serde : Serde) (rc : ReceiveCallback) (cb : Callback)
    (payload : List UInt8) : ∃ code reason,
      turn py serde rc (some cb) (some ⟨.close, payload⟩) = ([⟨cb, .disconnect code reason⟩], false) :=
  ⟨_, _, rfl⟩

/-- A frame that is not a Close makes calls of receive callbacks. -/
theorem turn_receive {py : Python} {serde : Serde} {rc : ReceiveCallback}
    {disconnectCallback : Option Callback} {frame : Frame} (hframe : frame.opcode ≠ .close)
    {call : Invocation} (h : call ∈ (turn py serde rc disconnectCallback (some frame)).1) :
    ∃ cb data, call = ⟨cb, .receive data⟩ := by
  obtain ⟨opcode, payload⟩ := frame
  cases opcode with
  | close => exact absurd rfl hframe
  | continuation | ping | pong => cases h
  | binary =>
    simp only [turn, ReceiveCallback.onBinary] at h
    cases hg : rc.generic with
    | none => rw [hg] at h; cases h
    | some cb => rw [hg] at h; exact ⟨cb, _, List.mem_singleton.mp h⟩
  | text =>
    simp only [turn] at h
    cases hp : fromUtf8 payload with
    | none => rw [hp] at h; cases h
    | some payload =>
      simp only [hp, ReceiveCallback.onText] at h
      split at h
      · exact ⟨_, Callback.mem_invokeText h⟩
      · cases hg : rc.generic with
        | none => rw [hg] at h; cases h
        | some cb => rw [hg] at h; exact ⟨cb, Callback.mem_invokeText h⟩

/-! ### The search and the registrations -/

/-- A match accepts a message through one of its keys. -/
def Match.AcceptsAt (m : Match) (json : Json) (k : String) : Prop :=
  k ∈ m.keys ∧ ∃ x, json.get k = some x ∧ ∃ v ∈ m.values, v.Accepts x

/-- What the search finds at one place of the table. -/
def hit (json : Json) (k : String) (e : MatchValue × ReceiveHandler) :
    Option (ReceiveHandler × String) :=
  match json.get k with
  | none => none
  | some x => if e.1.matchesJson x then some (e.2, k) else none

theorem hit_eq_some {json : Json} {k : String} {e : MatchValue × ReceiveHandler}
    {r : ReceiveHandler × String} :
    hit json k e = some r ↔ r = (e.2, k) ∧ ∃ x, json.get k = some x ∧ e.1.Accepts x := by
  rw [hit]
  cases hget : json.get k with
  | none => simp
  | some x =>
    by_cases hv : e.1.matchesJson x = true
    · simp [hv, MatchValue.matchesJson_iff.mp hv, eq_comm]
    · have hnot : ¬ e.1.Accepts x := fun h => hv (MatchValue.matchesJson_iff.mpr h)
      simp [hv, hnot]

/-- The two loops over the table come to the first hit, key by key in the order in which
the keys were first registered, and under a key in the order of the registrations. -/
theorem findHandler_table {py : Python} {ps : List Pattern} {view : WebsocketRoute}
    (hb : Built py ps view) (json : Json) :
    findHandler view.receiveHandlersMut json =
      ((triples py ps).map Prod.fst).findSome? fun k =>
        (IndexMap.under k (triples py ps)).findSome? (hit json k) := by
  rw [← IndexMap.findSome?_table hb.functional, ← hb.table]
  apply IndexMap.findSome?_congr
  intro e _
  cases hget : json.get e.1 with
  | none =>
    have hnone : hit json e.1 = fun _ => none := by
      funext v
      rw [hit, hget]
    rw [hnone]
    exact (List.findSome?_eq_none_iff.mpr fun _ _ => rfl).symm
  | some x =>
    have hsome : hit json e.1 = fun v => if v.1.matchesJson x then some (v.2, e.1) else none := by
      funext v
      rw [hit, hget]
    rw [hsome]

theorem findHandler_sound {py : Python} {ps : List Pattern} {view : WebsocketRoute}
    (hb : Built py ps view) {json : Json} {handler : ReceiveHandler} {k : String}
    (h : findHandler view.receiveHandlersMut json = some (handler, k)) :
    ∃ (n : Nat) (p : Pattern), ps[n]? = some p ∧ handler = p.handler py n ∧
      p.spec.AcceptsAt json k := by
  rw [findHandler_table hb] at h
  obtain ⟨j, _, hj⟩ := List.exists_of_findSome?_eq_some h
  obtain ⟨⟨v, handler'⟩, he, hhit⟩ := List.exists_of_findSome?_eq_some hj
  obtain ⟨hr, x, hget, hv⟩ := hit_eq_some.mp hhit
  cases hr
  obtain ⟨n, p, hp, hpair, rfl⟩ := mem_triples.mp (IndexMap.mem_under.mp he)
  obtain ⟨hk, hmem⟩ := WebsocketRoute.mem_pairs.mp hpair
  exact ⟨n, p, hp, rfl, hk, x, hget, v, hmem, hv⟩

theorem findHandler_complete {py : Python} {ps : List Pattern} {view : WebsocketRoute}
    (hb : Built py ps view) {json : Json} {k : String} {p : Pattern} (hp : p ∈ ps)
    (ha : p.spec.AcceptsAt json k) : (findHandler view.receiveHandlersMut json).isSome = true := by
  obtain ⟨hk, x, hget, v, hv, haccepts⟩ := ha
  obtain ⟨n, hn⟩ := List.mem_iff_getElem?.mp hp
  have htriple : (k, v, p.handler py n) ∈ triples py ps :=
    mem_triples.mpr ⟨n, p, hn, WebsocketRoute.mem_pairs.mpr ⟨hk, hv⟩, rfl⟩
  rw [findHandler_table hb, List.findSome?_isSome_iff]
  refine ⟨k, List.mem_map.mpr ⟨_, htriple, rfl⟩, List.findSome?_isSome_iff.mpr
    ⟨(v, p.handler py n), IndexMap.mem_under.mpr htriple, ?_⟩⟩
  rw [hit_eq_some.mpr ⟨rfl, x, hget, haccepts⟩]
  rfl

/-- Not parsing when there is no pattern does not change what is found. -/
theorem ReceiveCallback.matchResult_eq (rc : ReceiveCallback) (serde : Serde) (payload : String) :
    rc.matchResult serde payload = (serde.fromStr payload).bind (findHandler rc.handlers) := by
  simp only [matchResult, jsonValue]
  split
  · next hempty =>
    have hnone : findHandler rc.handlers = fun _ => none := by
      funext json
      rw [findHandler, List.isEmpty_iff.mp hempty]
      rfl
    rw [hnone]
    cases serde.fromStr payload <;> rfl
  · rfl

theorem ReceiveCallback.onText_selected {rc : ReceiveCallback} {serde : Serde} {payload : String}
    {handler : ReceiveHandler} {k : String} (h : rc.matchResult serde payload = some (handler, k))
    (py : Python) : ∃ json, serde.fromStr payload = some json ∧
      rc.onText py serde payload =
        handler.callback.invokeText py handler.schema (handler.payload serde json k payload) := by
  obtain ⟨json, hjson, _⟩ := Option.bind_eq_some_iff.mp h
  refine ⟨json, ?_, ?_⟩
  · rw [jsonValue] at hjson
    split at hjson
    · cases hjson
    · exact hjson
  · simp only [onText, hjson, h]

theorem ReceiveCallback.onText_generic {rc : ReceiveCallback} {serde : Serde} {payload : String}
    (h : rc.matchResult serde payload = none) (py : Python) :
    rc.onText py serde payload =
      match rc.generic with
      | some cb => cb.invokeText py rc.genericSchema payload
      | none => [] := by
  rw [onText, h]
  cases rc.jsonValue serde payload <;> rfl

/-! ### What a connection dispatches with -/

/-- `before` are the registrations made before the route's first connection, `later` the
ones between it and the connection in question, which do not reach the table. -/
def connected (py : Python) (before later : List ReceiveCall) (view : WebsocketRoute) :
    ReceiveCallback :=
  (receiveAll py later (receiveAll py before view).receiveCallback.2).receiveCallback.1

theorem connected_handlers {py : Python} {before later : List ReceiveCall} {view : WebsocketRoute}
    (h : view.receiveHandlers = none) :
    (connected py before later view).handlers = (receiveAll py before view).receiveHandlersMut := by
  have hbefore := (receiveAll_receiveHandlers py before view).trans h
  have hfrozen : (receiveAll py before view).receiveCallback.2.receiveHandlers =
      some (receiveAll py before view).receiveHandlersMut := by
    simp only [WebsocketRoute.receiveCallback, WebsocketRoute.frozenHandlers, hbefore]
  have hlater := (receiveAll_receiveHandlers py later _).trans hfrozen
  simp only [connected, WebsocketRoute.receiveCallback, WebsocketRoute.frozenHandlers] at hlater ⊢
  rw [hlater]

/-- **Dispatch is sound and complete.** A pattern is selected exactly for the messages
that parse as an object one of the registered matches accepts, and the selected handler
is one of such a match: it is called, and nothing else. Without a pattern the generic handler is
called: with the payload, or with what its schema makes of it, unless that raises. No
frame makes two calls. -/
theorem dispatch_text (py : Python) (serde : Serde) (path : String) (defaultGroup : Option String)
    (authenticationClasses : List PyObj) (before later : List ReceiveCall) (payload : String)
    (disconnectCallback : Option Callback) :
    let route := WebsocketRoute.new path defaultGroup authenticationClasses
    let rc := connected py before later route
    let calls := (turn py serde rc disconnectCallback (some (Message.text payload).frame)).1
    let ps := patterns py before route
    ((rc.matchResult serde payload).isSome = true ↔
      ∃ members, serde.fromStr payload = some (.object members) ∧
        ∃ p ∈ ps, ∃ k, p.spec.AcceptsAt (.object members) k) ∧
    (∀ handler k, rc.matchResult serde payload = some (handler, k) →
      (∃ (n : Nat) (p : Pattern) (json : Json), ps[n]? = some p ∧ handler = p.handler py n ∧
        serde.fromStr payload = some json ∧ p.spec.AcceptsAt json k ∧
        calls = handler.callback.invokeText py handler.schema
          (handler.payload serde json k payload)) ∧
      ∀ call ∈ calls, call.callback = handler.callback) ∧
    (rc.matchResult serde payload = none → calls =
      match rc.generic, rc.genericSchema with
      | none, _ => []
      | some cb, none => [⟨cb, .receive (.text payload)⟩]
      | some cb, some schema =>
        match py.modelValidateJson schema payload with
        | .ok validated => [⟨cb, .receive (.validated validated)⟩]
        | .error _ => []) ∧
    ∀ frame, (turn py serde rc disconnectCallback frame).1.length ≤ 1 := by
  intro route rc calls ps
  have hb : Built py ps (receiveAll py before route) :=
    receiveAll_built py before (built_new py path defaultGroup authenticationClasses)
  have hmatch : rc.matchResult serde payload =
      (serde.fromStr payload).bind (findHandler (receiveAll py before route).receiveHandlersMut) := by
    rw [rc.matchResult_eq, connected_handlers rfl]
  have hcalls : calls = rc.onText py serde payload := by
    show (turn py serde rc disconnectCallback (some (Message.text payload).frame)).1 = _
    rw [turn_text]
  refine ⟨⟨fun h => ?_, fun h => ?_⟩, fun handler k h => ⟨?_, ?_⟩, fun h => ?_,
    turn_calls py serde rc disconnectCallback⟩
  · obtain ⟨⟨handler, k⟩, hr⟩ := Option.isSome_iff_exists.mp h
    obtain ⟨json, hjson, hfind⟩ := Option.bind_eq_some_iff.mp (hmatch.symm.trans hr)
    obtain ⟨n, p, hp, _, haccepts⟩ := findHandler_sound hb hfind
    obtain ⟨members, rfl, _⟩ := Json.get_some haccepts.2.choose_spec.1
    exact ⟨members, hjson, p, List.mem_of_getElem? hp, k, haccepts⟩
  · obtain ⟨members, hjson, p, hp, k, haccepts⟩ := h
    rw [hmatch, hjson]
    exact findHandler_complete hb hp haccepts
  · obtain ⟨json, hjson, hfind⟩ := Option.bind_eq_some_iff.mp (hmatch.symm.trans h)
    obtain ⟨n, p, hp, hhandler, haccepts⟩ := findHandler_sound hb hfind
    obtain ⟨json', hjson', honText⟩ := rc.onText_selected h py
    obtain rfl : json' = json := Option.some.inj (hjson'.symm.trans hjson)
    exact ⟨n, p, json', hp, hhandler, hjson, haccepts, hcalls.trans honText⟩
  · obtain ⟨json, _, honText⟩ := rc.onText_selected h py
    intro call hcall
    rw [hcalls, honText] at hcall
    obtain ⟨data, rfl⟩ := Callback.mem_invokeText hcall
    rfl
  · rw [hcalls, rc.onText_generic h]
    cases rc.generic with
    | none => rfl
    | some cb => cases rc.genericSchema <;> rfl

/-- A generic handler with a schema does not get the payload. -/
theorem generic_validated :
    let py : Python := ⟨fun _ => false, fun _ => .ok true, fun _ _ => .ok 9, id⟩
    let serde : Serde := ⟨fun _ => none, fun _ => none⟩
    let rc := connected py [.decorated none (some 7) 3] [] (.new "/ws" none [])
    rc.matchResult serde "hi" = none ∧ rc.generic = some ⟨3, false⟩ ∧
      (turn py serde rc none (some (Message.text "hi").frame)).1 ≠
        [⟨⟨3, false⟩, .receive (.text "hi")⟩] := by
  decide

end Webrockets
