import Webrockets.FrameReader

/-! What a client gets to see (`client/sync.rs`, `client/async.rs`).

`recv` hands out the next message, and a `for` loop over a client all of them up to the Close.
A Ping is answered below them. A Pong is not kept from them, and they do not expect it: it is
raised as an error, so that a client that sends a Ping cannot go on iterating. So is what the
reader refuses. -/
namespace Webrockets

/-! ### The two clients -/

/-- What is raised, of which `StopIteration` and `StopAsyncIteration` end a loop. The text of a
`Utf8Error` is left out. -/
inductive ClientErr where
  | runtimeError (text : String)
  | invalidUtf8
  | connectionClosed (code : UInt16) (reason : String)
  | stopIteration
  | stopAsyncIteration
  deriving DecidableEq, Repr

/-- A connected client: what its reader is going to read, and what its writer has written. -/
structure ClientStream where
  incoming : List Frame
  written : List Frame

/-- `{:?}` of an opcode. -/
def OpCode.debug : OpCode → String
  | .continuation => "Continuation"
  | .text => "Text"
  | .binary => "Binary"
  | .close => "Close"
  | .ping => "Ping"
  | .pong => "Pong"

def closeNormal : UInt16 := 1000

def closeStatus : UInt16 := 1005

def parseClosePayload (payload : List UInt8) : UInt16 × String :=
  match payload with
  | hi :: lo :: reason => (hi.toUInt16 <<< 8 ||| lo.toUInt16, (fromUtf8 reason).getD "")
  | _ => (closeStatus, "")

def frameToPyObject (frame : Frame) : Except ClientErr PyValue :=
  match frame.opcode with
  | .text =>
    match fromUtf8 frame.payload with
    | some s => .ok (.str s)
    | none => .error .invalidUtf8
  | .binary => .ok (.bytes frame.payload)
  | opcode => .error (.runtimeError ("unexpected opcode: " ++ opcode.debug))

/-- The next frame, as `recv` and the iterators read it. What is to be answered goes to the
writer. `onClose` is what they raise for a Close. -/
def ClientStream.receive (r : FrameReader) (onClose : UInt16 → String → ClientErr)
    (s : ClientStream) : Option (Except ClientErr PyValue) × ClientStream :=
  match r.readFrame (fun frame written => written ++ [frame]) s.incoming s.written with
  | (none, written) => (none, ⟨[], written⟩)
  | (some (.error e, rest), written) => (some (.error (.runtimeError e)), ⟨rest, written⟩)
  | (some (.ok frame, rest), written) =>
    if frame.opcode = .close then
      let (code, reason) := parseClosePayload frame.payload
      (some (.error (onClose code reason)), ⟨rest, written⟩)
    else (some (frameToPyObject frame), ⟨rest, written⟩)

def Client.recv (r : FrameReader) : ClientStream → Option (Except ClientErr PyValue) × ClientStream :=
  ClientStream.receive r .connectionClosed

def Client.next (r : FrameReader) : ClientStream → Option (Except ClientErr PyValue) × ClientStream :=
  ClientStream.receive r fun code reason =>
    if code = closeNormal then .stopIteration else .connectionClosed code reason

def AsyncClient.recv (r : FrameReader) :
    ClientStream → Option (Except ClientErr PyValue) × ClientStream :=
  ClientStream.receive r .connectionClosed

def AsyncClient.anext (r : FrameReader) :
    ClientStream → Option (Except ClientErr PyValue) × ClientStream :=
  ClientStream.receive r fun code reason =>
    if code = closeNormal then .stopAsyncIteration else .connectionClosed code reason

/-! ### Loops over a client -/

inductive Ending where
  /-- There is no frame yet that would go on with it. -/
  | waits
  | stops
  | raises (e : ClientErr)
  deriving DecidableEq, Repr

/-- A `for` loop over an iterator that `stop` ends. Every turn reads a frame, so the number of
the frames is enough `fuel`. -/
def forLoop (next : ClientStream → Option (Except ClientErr PyValue) × ClientStream)
    (stop : ClientErr) : Nat → ClientStream → List PyValue × Ending
  | 0, _ => ([], .waits)
  | fuel + 1, s =>
    match next s with
    | (none, _) => ([], .waits)
    | (some (.ok msg), s) =>
      let (msgs, ending) := forLoop next stop fuel s
      (msg :: msgs, ending)
    | (some (.error e), _) => ([], if e = stop then .stops else .raises e)

/-- `recv` over and over, until the connection is closed. -/
def recvs (recv : ClientStream → Option (Except ClientErr PyValue) × ClientStream) :
    Nat → ClientStream → List (Except ClientErr PyValue)
  | 0, _ => []
  | fuel + 1, s =>
    match recv s with
    | (none, _) => []
    | (some (.error (.connectionClosed code reason)), _) => [.error (.connectionClosed code reason)]
    | (some received, s) => received :: recvs recv fuel s

def Client.iterate (r : FrameReader) (s : ClientStream) : List PyValue × Ending :=
  forLoop (Client.next r) .stopIteration s.incoming.length s

def AsyncClient.iterate (r : FrameReader) (s : ClientStream) : List PyValue × Ending :=
  forLoop (AsyncClient.anext r) .stopAsyncIteration s.incoming.length s

def Client.recvAll (r : FrameReader) (s : ClientStream) : List (Except ClientErr PyValue) :=
  recvs (Client.recv r) s.incoming.length s

def AsyncClient.recvAll (r : FrameReader) (s : ClientStream) : List (Except ClientErr PyValue) :=
  recvs (AsyncClient.recv r) s.incoming.length s

/-! ### What a peer sends -/

inductive PeerMessage where
  | text (s : String)
  | binary (b : List UInt8)
  | ping (payload : List UInt8)
  | pong (payload : List UInt8)
  deriving DecidableEq, Repr

namespace PeerMessage

def frame : PeerMessage → Frame
  | .text s => ⟨.text, s.toUTF8.data.toList⟩
  | .binary b => ⟨.binary, b⟩
  | .ping payload => ⟨.ping, payload⟩
  | .pong payload => ⟨.pong, payload⟩

/-- What Python is to get of it. -/
def data : PeerMessage → Option PyValue
  | .text s => some (.str s)
  | .binary b => some (.bytes b)
  | _ => none

end PeerMessage

/-- What a Close says: a code and a reason, or nothing. -/
abbrev CloseStatus := Option (UInt16 × String)

def CloseStatus.frame : CloseStatus → Frame
  | none => ⟨.close, []⟩
  | some (code, reason) => .close code reason.toUTF8.data.toList

/-- The code and the reason of a Close. A Close without a code counts as 1005. -/
def CloseStatus.parts (status : CloseStatus) : UInt16 × String := status.getD (closeStatus, "")

/-- A client to which a peer sends messages, and then perhaps a Close. -/
def peer (messages : List PeerMessage) (close : Option CloseStatus) : ClientStream :=
  ⟨messages.map PeerMessage.frame ++ (close.map CloseStatus.frame).toList, []⟩

/-- How a loop is to end. -/
def closeEnding : Option CloseStatus → Ending
  | none => .waits
  | some status =>
    if status.parts.1 = closeNormal then .stops
    else .raises (.connectionClosed status.parts.1 status.parts.2)

/-- What `recv` is to do at the end. -/
def closeReceived (close : Option CloseStatus) : List (Except ClientErr PyValue) :=
  close.toList.map fun status => .error (.connectionClosed status.parts.1 status.parts.2)

/-! ### One message -/

section Receive
variable {r : FrameReader} {onClose : UInt16 → String → ClientErr} {stop : ClientErr}

def unexpectedPong : ClientErr := .runtimeError "unexpected opcode: Pong"

theorem parseClosePayload_frame (status : CloseStatus) :
    parseClosePayload status.frame.payload = status.parts := by
  obtain _ | ⟨code, reason⟩ := status
  · rfl
  · simp only [CloseStatus.frame, Frame.close, parseClosePayload, code_of_bytes, fromUtf8_toUTF8]
    rfl

theorem receive_ping {payload : List UInt8} (hr : r.Reads (PeerMessage.ping payload).frame)
    (rest written : List Frame) :
    ClientStream.receive r onClose ⟨(PeerMessage.ping payload).frame :: rest, written⟩ =
      ClientStream.receive r onClose ⟨rest, written ++ [⟨.pong, payload⟩]⟩ := by
  simp only [ClientStream.receive, PeerMessage.frame, FrameReader.readFrame_ping hr]

/-- Data and Pongs are handed on to Python, or rather what becomes of them there. -/
theorem receive_other {frame : Frame} (hr : r.Reads frame)
    (h : frame.opcode = .text ∨ frame.opcode = .binary ∨ frame.opcode = .pong)
    (rest written : List Frame) : ClientStream.receive r onClose ⟨frame :: rest, written⟩ =
      (some (frameToPyObject frame), ⟨rest, written⟩) := by
  have hopcode : frame.opcode ≠ .close := by rcases h with h | h | h <;> simp [h]
  simp only [ClientStream.receive, FrameReader.readFrame_other hr h, if_neg hopcode]

/-- Data is received as it was sent. -/
theorem receive_data {m : PeerMessage} {v : PyValue} (hr : r.Reads m.frame) (h : m.data = some v)
    (rest written : List Frame) :
    ClientStream.receive r onClose ⟨m.frame :: rest, written⟩ = (some (.ok v), ⟨rest, written⟩) := by
  cases m with
  | text s =>
    obtain rfl : PyValue.str s = v := Option.some.inj h
    rw [receive_other hr (.inl rfl)]
    simp only [frameToPyObject, PeerMessage.frame, fromUtf8_toUTF8]
  | binary b =>
    obtain rfl : PyValue.bytes b = v := Option.some.inj h
    exact receive_other hr (.inr (.inl rfl)) rest written
  | ping payload | pong payload => cases h

/-- A Pong is an error. -/
theorem receive_pong {payload : List UInt8} (hr : r.Reads (PeerMessage.pong payload).frame)
    (rest written : List Frame) :
    ClientStream.receive r onClose ⟨(PeerMessage.pong payload).frame :: rest, written⟩ =
      (some (.error unexpectedPong), ⟨rest, written⟩) :=
  receive_other hr (.inr (.inr rfl)) rest written

/-- So is what is refused. -/
theorem receive_refused {frame : Frame} {e : String} (h : r.reading frame = .refused e)
    (onClose : UInt16 → String → ClientErr) (rest written : List Frame) :
    ∃ s, ClientStream.receive r onClose ⟨frame :: rest, written⟩ =
      (some (.error (.runtimeError e)), s) := by
  refine ⟨⟨rest, r.answer (fun frame written => written ++ [frame]) frame written⟩, ?_⟩
  simp only [ClientStream.receive, FrameReader.readFrame_refused h]

theorem CloseStatus.frame_eq (status : CloseStatus) :
    status.frame = ⟨.close, status.frame.payload⟩ := by
  obtain _ | ⟨code, reason⟩ := status <;> rfl

theorem receive_close {status : CloseStatus} (hr : r.Reads status.frame)
    (onClose : UInt16 → String → ClientErr) (rest written : List Frame) :
    ∃ s, ClientStream.receive r onClose ⟨status.frame :: rest, written⟩ =
      (some (.error (onClose status.parts.1 status.parts.2)), s) := by
  have hframe := status.frame_eq
  have hopcode : status.frame.opcode = .close := congrArg Frame.opcode hframe
  rw [hframe] at hr
  obtain ⟨echo, hread⟩ := FrameReader.readFrame_close hr (fun frame written => written ++ [frame])
    rest written
  rw [← hframe] at hread
  refine ⟨⟨rest, written ++ [⟨.close, echo⟩]⟩, ?_⟩
  simp only [ClientStream.receive, hread, hopcode, if_true, parseClosePayload_frame]

/-! ### All of them -/

/-- The messages that are not control frames. -/
def PeerMessage.isData (m : PeerMessage) : Bool := m.data.isSome

/-- A loop that a Close with code 1000 ends, and any other Close breaks off. -/
def EndsLoop (onClose : UInt16 → String → ClientErr) (stop : ClientErr) : Prop :=
  (∀ text, stop ≠ .runtimeError text) ∧ ∀ code reason,
    (if onClose code reason = stop then Ending.stops else .raises (onClose code reason)) =
      if code = closeNormal then .stops else .raises (.connectionClosed code reason)

/-- The reader does with every frame of a stream as it is to. -/
def FrameReader.ReadsAll (r : FrameReader) (stream : ClientStream) : Prop :=
  ∀ frame ∈ stream.incoming, r.Reads frame

theorem FrameReader.Lawful.readsAll {stream : ClientStream} (hr : r.Lawful)
    (h : ∀ frame ∈ stream.incoming, Acceptable r.maxMessageSize frame) : r.ReadsAll stream :=
  fun frame hframe => hr.reads_acceptable (h frame hframe)

theorem FrameReader.ReadsAll.messages {messages : List PeerMessage} {close : Option CloseStatus}
    (h : r.ReadsAll (peer messages close)) : ∀ m ∈ messages, r.Reads m.frame :=
  fun _ hm => h _ (List.mem_append_left _ (List.mem_map_of_mem hm))

theorem FrameReader.ReadsAll.close {messages : List PeerMessage} {close : Option CloseStatus}
    (h : r.ReadsAll (peer messages close)) {status : CloseStatus} (hclose : close = some status) :
    r.Reads status.frame := by
  subst hclose
  exact h _ (List.mem_append_right _ List.mem_cons_self)

theorem FrameReader.ReadsAll.tail {m : PeerMessage} {messages : List PeerMessage}
    {close : Option CloseStatus} (h : r.ReadsAll (peer (m :: messages) close)) :
    r.ReadsAll (peer messages close) :=
  fun frame hframe => h frame (List.mem_cons_of_mem _ hframe)

theorem length_peer (m : PeerMessage) (messages : List PeerMessage) (close : Option CloseStatus) :
    (peer (m :: messages) close).incoming.length = (peer messages close).incoming.length + 1 := rfl

/-- A turn that a Ping precedes is a turn. -/
theorem forLoop_ping {payload : List UInt8} (hr : r.Reads (PeerMessage.ping payload).frame)
    (fuel : Nat) (rest written : List Frame) :
    forLoop (ClientStream.receive r onClose) stop (fuel + 1)
        ⟨(PeerMessage.ping payload).frame :: rest, written⟩ =
      forLoop (ClientStream.receive r onClose) stop (fuel + 1)
        ⟨rest, written ++ [⟨.pong, payload⟩]⟩ := by
  simp only [forLoop, receive_ping hr]

/-- Without Pongs, a loop gets the data of the messages, and goes on with what follows them. -/
theorem forLoop_messages (onClose : UInt16 → String → ClientErr) (stop : ClientErr)
    {messages : List PeerMessage} (hr : ∀ m ∈ messages, r.Reads m.frame)
    (h : ∀ payload, .pong payload ∉ messages) (rest written : List Frame) (fuel : Nat)
    (hfuel : messages.length + rest.length ≤ fuel) :
    ∃ written' fuel', rest.length ≤ fuel' ∧
      forLoop (ClientStream.receive r onClose) stop fuel
          ⟨messages.map PeerMessage.frame ++ rest, written⟩ =
        (messages.filterMap PeerMessage.data ++
          (forLoop (ClientStream.receive r onClose) stop fuel' ⟨rest, written'⟩).1,
          (forLoop (ClientStream.receive r onClose) stop fuel' ⟨rest, written'⟩).2) := by
  induction messages generalizing fuel written with
  | nil => exact ⟨written, fuel, by simpa using hfuel, rfl⟩
  | cons m messages ih =>
    have hm := hr m List.mem_cons_self
    have ih := ih (fun m hm => hr m (List.mem_cons_of_mem _ hm))
      fun payload hm => h payload (List.mem_cons_of_mem _ hm)
    rw [List.length_cons] at hfuel
    obtain ⟨fuel, rfl⟩ : ∃ n, fuel = n + 1 := ⟨fuel - 1, by omega⟩
    rw [List.map_cons, List.cons_append]
    cases hdata : m.data with
    | some v =>
      obtain ⟨written', fuel', hrest, hloop⟩ := ih written fuel (by omega)
      refine ⟨written', fuel', hrest, ?_⟩
      simp only [forLoop, receive_data hm hdata, hloop, List.filterMap_cons, hdata, List.cons_append]
    | none =>
      cases m with
      | ping payload =>
        rw [forLoop_ping hm, List.filterMap_cons, hdata]
        exact ih _ (fuel + 1) (by omega)
      | pong payload => exact absurd List.mem_cons_self (h payload)
      | text s | binary b => cases hdata

/-- A loop over nothing waits. -/
theorem forLoop_nil (fuel : Nat) (written : List Frame) :
    forLoop (ClientStream.receive r onClose) stop fuel ⟨[], written⟩ = ([], .waits) := by
  cases fuel <;> rfl

theorem forLoop_close {status : CloseStatus} (hr : r.Reads status.frame)
    (hstop : EndsLoop onClose stop) {fuel : Nat} (hfuel : 1 ≤ fuel) (written : List Frame) :
    forLoop (ClientStream.receive r onClose) stop fuel ⟨[status.frame], written⟩ =
      ([], closeEnding (some status)) := by
  obtain ⟨fuel, rfl⟩ : ∃ n, fuel = n + 1 := ⟨fuel - 1, by omega⟩
  obtain ⟨s, hclose⟩ := receive_close hr onClose [] written
  simp only [forLoop, hclose, hstop.2, closeEnding]

/-- What is refused breaks a loop off. -/
theorem forLoop_refused {frame : Frame} {e : String} (h : r.reading frame = .refused e)
    (hstop : EndsLoop onClose stop) {fuel : Nat} (hfuel : 1 ≤ fuel) (rest written : List Frame) :
    forLoop (ClientStream.receive r onClose) stop fuel ⟨frame :: rest, written⟩ =
      ([], .raises (.runtimeError e)) := by
  obtain ⟨fuel, rfl⟩ : ∃ n, fuel = n + 1 := ⟨fuel - 1, by omega⟩
  obtain ⟨s, hrefused⟩ := receive_refused h onClose rest written
  simp only [forLoop, hrefused, if_neg (hstop.1 e).symm]

/-- Without Pongs, a loop gets the data, and ends as the Close says. -/
theorem forLoop_peer {messages : List PeerMessage} {close : Option CloseStatus}
    (hr : r.ReadsAll (peer messages close)) (hstop : EndsLoop onClose stop)
    (h : ∀ payload, .pong payload ∉ messages) (written : List Frame) (fuel : Nat)
    (hfuel : (peer messages close).incoming.length ≤ fuel) :
    forLoop (ClientStream.receive r onClose) stop fuel ⟨(peer messages close).incoming, written⟩ =
      (messages.filterMap PeerMessage.data, closeEnding close) := by
  have hlength : messages.length + (close.map CloseStatus.frame).toList.length ≤ fuel := by
    simpa [peer] using hfuel
  obtain ⟨written', fuel', hrest, hloop⟩ :=
    forLoop_messages onClose stop hr.messages h _ written fuel hlength
  refine hloop.trans ?_
  cases close with
  | none =>
    simp only [Option.map_none, Option.toList_none, forLoop_nil, List.append_nil, closeEnding]
  | some status =>
    have hclose := forLoop_close (hr.close rfl) hstop hrest written'
    simp only [Option.map_some, Option.toList_some, hclose, List.append_nil]

/-- A Pong before the Close breaks a loop off. -/
theorem forLoop_pong {messages : List PeerMessage} {close : Option CloseStatus}
    (hr : r.ReadsAll (peer messages close)) (hstop : EndsLoop onClose stop)
    {payload : List UInt8} (h : .pong payload ∈ messages)
    (written : List Frame) (fuel : Nat) (hfuel : (peer messages close).incoming.length ≤ fuel) :
    (forLoop (ClientStream.receive r onClose) stop fuel
      ⟨(peer messages close).incoming, written⟩).2 = .raises unexpectedPong := by
  induction messages generalizing fuel written with
  | nil => cases h
  | cons m messages ih =>
    have hm := hr.messages m List.mem_cons_self
    have ih := ih hr.tail
    rw [length_peer] at hfuel
    obtain ⟨fuel, rfl⟩ : ∃ n, fuel = n + 1 := ⟨fuel - 1, by omega⟩
    show (forLoop _ stop (fuel + 1) ⟨m.frame :: (peer messages close).incoming, written⟩).2 = _
    cases hdata : m.data with
    | some v =>
      have hmem : .pong payload ∈ messages := by
        rcases List.mem_cons.mp h with rfl | hmem
        · cases hdata
        · exact hmem
      have hloop := ih hmem written fuel (by omega)
      simp only [forLoop, receive_data hm hdata, hloop]
    | none =>
      cases m with
      | ping other =>
        have hmem : .pong payload ∈ messages := (List.mem_cons.mp h).resolve_left (by simp)
        rw [forLoop_ping hm, ih hmem _ _ (by omega)]
      | pong other =>
        simp only [forLoop, receive_pong hm, unexpectedPong, if_neg (Ne.symm (hstop.1 _))]
      | text s | binary b => cases hdata

theorem recvs_ping {payload : List UInt8} (hr : r.Reads (PeerMessage.ping payload).frame)
    (fuel : Nat) (rest written : List Frame) :
    recvs (ClientStream.receive r onClose) (fuel + 1)
        ⟨(PeerMessage.ping payload).frame :: rest, written⟩ =
      recvs (ClientStream.receive r onClose) (fuel + 1) ⟨rest, written ++ [⟨.pong, payload⟩]⟩ := by
  simp only [recvs, receive_ping hr]

/-- What `recv` makes of a message: nothing of a Ping, and an error of a Pong. -/
def received (m : PeerMessage) : Option (Except ClientErr PyValue) :=
  match m with
  | .pong _ => some (.error unexpectedPong)
  | m => m.data.map .ok

/-- `recv` over and over gives what there is, the Pongs too, and then the Close. -/
theorem recvs_peer {messages : List PeerMessage} {close : Option CloseStatus}
    (hr : r.ReadsAll (peer messages close)) (written : List Frame) (fuel : Nat)
    (hfuel : (peer messages close).incoming.length ≤ fuel) :
    recvs (ClientStream.receive r .connectionClosed) fuel ⟨(peer messages close).incoming, written⟩ =
      messages.filterMap received ++ closeReceived close := by
  induction messages generalizing fuel written with
  | nil =>
    cases close with
    | none => cases fuel <;> rfl
    | some status =>
      obtain ⟨fuel, rfl⟩ : ∃ n, fuel = n + 1 := ⟨fuel - 1, by simp [peer] at hfuel; omega⟩
      obtain ⟨s, hclose⟩ := receive_close (hr.close rfl) .connectionClosed [] written
      show recvs _ (fuel + 1) ⟨[status.frame], written⟩ = _
      simp only [recvs, hclose]
      rfl
  | cons m messages ih =>
    have hm := hr.messages m List.mem_cons_self
    have ih := ih hr.tail
    rw [length_peer] at hfuel
    obtain ⟨fuel, rfl⟩ : ∃ n, fuel = n + 1 := ⟨fuel - 1, by omega⟩
    show recvs _ (fuel + 1) ⟨m.frame :: (peer messages close).incoming, written⟩ = _
    have hloop := ih written fuel (by omega)
    cases m with
    | ping payload =>
      rw [recvs_ping hm, ih _ _ (by omega)]
      rfl
    | pong payload =>
      simp only [recvs, receive_pong hm, unexpectedPong, hloop]
      rfl
    | text s =>
      simp only [recvs, receive_data (m := .text s) hm rfl, hloop]
      rfl
    | binary b =>
      simp only [recvs, receive_data (m := .binary b) hm rfl, hloop]
      rfl

end Receive

/-! ### The law -/

def NoPong (messages : List PeerMessage) : Prop := ∀ payload, .pong payload ∉ messages

theorem client_endsLoop : EndsLoop (fun code reason =>
    if code = closeNormal then .stopIteration else .connectionClosed code reason) .stopIteration := by
  refine ⟨fun _ h => (by cases h), fun code reason => ?_⟩
  by_cases h : code = closeNormal <;> simp [h]

theorem asyncClient_endsLoop : EndsLoop (fun code reason =>
    if code = closeNormal then .stopAsyncIteration else .connectionClosed code reason)
    .stopAsyncIteration := by
  refine ⟨fun _ h => (by cases h), fun code reason => ?_⟩
  by_cases h : code = closeNormal <;> simp [h]

variable {r : FrameReader}

/-- The Close never looks like a Pong. -/
theorem closeEnding_ne (close : Option CloseStatus) : closeEnding close ≠ .raises unexpectedPong := by
  cases close with
  | none => simp [closeEnding]
  | some status =>
    simp only [closeEnding]
    split <;> simp [unexpectedPong]

/-- A loop over a peer's messages gets the data exactly where there is no Pong. -/
theorem forLoop_iff {onClose : UInt16 → String → ClientErr} {stop : ClientErr}
    (hstop : EndsLoop onClose stop) {messages : List PeerMessage} {close : Option CloseStatus}
    (hr : r.ReadsAll (peer messages close)) :
    forLoop (ClientStream.receive r onClose) stop (peer messages close).incoming.length
        (peer messages close) = (messages.filterMap PeerMessage.data, closeEnding close) ↔
      NoPong messages := by
  constructor
  · intro h payload hmem
    have hpong := forLoop_pong hr hstop hmem [] _ (Nat.le_refl _)
    have hlaw := congrArg Prod.snd h
    exact closeEnding_ne close (hlaw.symm.trans hpong)
  · intro h
    exact forLoop_peer hr hstop h [] _ (Nat.le_refl _)

theorem received_of_noPong {messages : List PeerMessage} (h : NoPong messages) :
    messages.filterMap received = (messages.filterMap PeerMessage.data).map .ok := by
  rw [List.map_filterMap]
  refine List.filterMap_congr fun m hm => ?_
  cases m with
  | pong payload => exact absurd hm (h payload)
  | _ => rfl

/-- So does `recv`, called over and over. -/
theorem recvs_iff {messages : List PeerMessage} {close : Option CloseStatus}
    (hr : r.ReadsAll (peer messages close)) :
    recvs (ClientStream.receive r .connectionClosed) (peer messages close).incoming.length
        (peer messages close) =
      (messages.filterMap PeerMessage.data).map .ok ++ closeReceived close ↔ NoPong messages := by
  have hrecvs := recvs_peer hr [] _ (Nat.le_refl _)
  rw [show peer messages close = ⟨(peer messages close).incoming, []⟩ from rfl, hrecvs,
    List.append_left_inj]
  constructor
  · intro h payload hmem
    have herror : .error unexpectedPong ∈ messages.filterMap received :=
      List.mem_filterMap.mpr ⟨_, hmem, rfl⟩
    rw [h] at herror
    simp at herror
  · exact received_of_noPong

/-- The messages without the control frames. -/
def withoutControl (messages : List PeerMessage) : List PeerMessage :=
  messages.filter PeerMessage.isData

theorem noPong_withoutControl (messages : List PeerMessage) : NoPong (withoutControl messages) := by
  intro payload hmem
  exact Bool.noConfusion (List.mem_filter.mp hmem).2

theorem data_withoutControl (messages : List PeerMessage) :
    (withoutControl messages).filterMap PeerMessage.data = messages.filterMap PeerMessage.data := by
  rw [withoutControl, List.filterMap_filter]
  refine List.filterMap_congr fun m _ => ?_
  cases m <;> rfl

/-- Without the control frames there is less to read. -/
theorem FrameReader.ReadsAll.withoutControl {messages : List PeerMessage}
    {close : Option CloseStatus} (h : r.ReadsAll (peer messages close)) :
    r.ReadsAll (peer (withoutControl messages) close) := by
  intro frame hframe
  refine h frame ?_
  rcases List.mem_append.mp hframe with hframe | hframe
  · obtain ⟨m, hm, rfl⟩ := List.mem_map.mp hframe
    exact List.mem_append_left _ (List.mem_map_of_mem (List.mem_of_mem_filter hm))
  · exact List.mem_append_right _ hframe

/-- What holds of a loop holds of it without the control frames, whatever the messages. -/
theorem iterate_withoutControl {iterate : ClientStream → List PyValue × Ending}
    {messages : List PeerMessage} {close : Option CloseStatus}
    (hr : r.ReadsAll (peer messages close))
    (h : ∀ {messages}, r.ReadsAll (peer messages close) → (iterate (peer messages close) =
      (messages.filterMap PeerMessage.data, closeEnding close) ↔ NoPong messages)) :
    iterate (peer messages close) = iterate (peer (withoutControl messages) close) ↔
      NoPong messages := by
  rw [(h hr.withoutControl).mpr (noPong_withoutControl messages), data_withoutControl]
  exact h hr

theorem recvs_withoutControl {recvAll : ClientStream → List (Except ClientErr PyValue)}
    {messages : List PeerMessage} {close : Option CloseStatus}
    (hr : r.ReadsAll (peer messages close))
    (h : ∀ {messages}, r.ReadsAll (peer messages close) → (recvAll (peer messages close) =
      (messages.filterMap PeerMessage.data).map .ok ++ closeReceived close ↔ NoPong messages)) :
    recvAll (peer messages close) = recvAll (peer (withoutControl messages) close) ↔
      NoPong messages := by
  rw [(h hr.withoutControl).mpr (noPong_withoutControl messages), data_withoutControl]
  exact h hr

/-- **The law of iteration.** For either client whose reader answers the Pings of a peer and hands
the rest on, a loop over the messages gets their data, in order, and ends as the Close says,
exactly where there is no Pong among them; and only there it makes no difference, to a loop and to
`recv`, to leave the control frames out. -/
theorem iteration_law (r : FrameReader) (messages : List PeerMessage) (close : Option CloseStatus)
    (hr : r.ReadsAll (peer messages close)) :
    (Client.iterate r (peer messages close) =
        (messages.filterMap PeerMessage.data, closeEnding close) ↔ NoPong messages) ∧
    (AsyncClient.iterate r (peer messages close) =
        (messages.filterMap PeerMessage.data, closeEnding close) ↔ NoPong messages) ∧
    (Client.iterate r (peer messages close) =
        Client.iterate r (peer (withoutControl messages) close) ↔ NoPong messages) ∧
    (AsyncClient.iterate r (peer messages close) =
        AsyncClient.iterate r (peer (withoutControl messages) close) ↔ NoPong messages) ∧
    (Client.recvAll r (peer messages close) =
        Client.recvAll r (peer (withoutControl messages) close) ↔ NoPong messages) ∧
    (AsyncClient.recvAll r (peer messages close) =
        AsyncClient.recvAll r (peer (withoutControl messages) close) ↔ NoPong messages) := by
  have hsync {messages} (h : r.ReadsAll (peer messages close)) := forLoop_iff client_endsLoop h
  have hasync {messages} (h : r.ReadsAll (peer messages close)) := forLoop_iff asyncClient_endsLoop h
  have hrecvs {messages} (h : r.ReadsAll (peer messages close)) := recvs_iff h
  exact ⟨hsync hr, hasync hr, iterate_withoutControl hr hsync, iterate_withoutControl hr hasync,
    recvs_withoutControl hr hrecvs, recvs_withoutControl hr hrecvs⟩

/-- A Ping between two messages is not noticed. -/
theorem iteration_law_ping :
    Client.iterate .standard (peer [.text "one", .ping [1], .binary [2]] (some (some (1011, "oops")))) =
      ([.str "one", .bytes [2]], .raises (.connectionClosed 1011 "oops")) :=
  (iteration_law .standard [.text "one", .ping [1], .binary [2]] (some (some (1011, "oops")))
    (FrameReader.standard_lawful.readsAll (by decide))).1.mpr (by simp [NoPong])

/-- A Pong between two messages, which answers a Ping of the client, breaks the loop off. -/
theorem iteration_broken :
    Client.iterate .standard (peer [.text "one", .pong [], .text "two"] (some (some (1000, "")))) =
      ([.str "one"], .raises (.runtimeError "unexpected opcode: Pong")) ∧
    ¬ ∀ (messages : List PeerMessage) (close : Option CloseStatus),
      Client.iterate .standard (peer messages close) =
        (messages.filterMap PeerMessage.data, closeEnding close) := by
  have hbroken : Client.iterate .standard
      (peer [.text "one", .pong [], .text "two"] (some (some (1000, "")))) =
        ([.str "one"], .raises (.runtimeError "unexpected opcode: Pong")) := by decide
  refine ⟨hbroken, fun hall => ?_⟩
  have hlaw := hall [.text "one", .pong [], .text "two"] (some (some (1000, "")))
  rw [hbroken] at hlaw
  simp [PeerMessage.data] at hlaw

end Webrockets
