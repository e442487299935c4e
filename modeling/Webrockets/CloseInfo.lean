import Webrockets.Client
import Webrockets.ControlFrames

/-! What a Close says, at both ends (`receive_listener` and `parse_close_payload`).

Server and client take the code and the reason out of the payload each on their own, and their
ways differ where it is too short for a code or its reason is no text (`closeInfo_eq_iff`). Such a
payload comes to neither of them: the reader refuses it. Of what comes to them they make the same,
`close_info_agrees`; and a code that a Close may not come with comes to neither, too. -/
namespace Webrockets

/-- What a disconnect callback is called with. -/
def closeInfo (payload : List UInt8) : UInt16 × String :=
  ((closeArgs payload).1,
    (fromUtf8 (closeArgs payload).2).getD (fromUtf8Lossy (closeArgs payload).2))

theorem turn_closeInfo (py : Python) (serde : Serde) (rc : ReceiveCallback) (cb : Callback)
    (payload : List UInt8) :
    turn py serde rc (some cb) (some ⟨.close, payload⟩) =
      ([⟨cb, .disconnect (closeInfo payload).1 (closeInfo payload).2⟩], false) := rfl

/-- What is called for a frame that the reader of `receive_listener` comes to. -/
def handled (r : FrameReader) (svc : Service) (frame : Frame) : List Invocation :=
  match r.reading frame with
  | .passed => []
  | .returned => (turn svc.py svc.serde svc.receiveCallback svc.disconnectCallback (some frame)).1
  | .refused _ => (turn svc.py svc.serde svc.receiveCallback svc.disconnectCallback none).1

/-- It is what the session calls. -/
theorem calls_deliver {r : FrameReader} {svc : Service} {frame : Frame} {u v : Session}
    (h : Wire.deliver r svc frame u = some v) : v.calls = u.calls ++ handled r svc frame := by
  unfold Wire.deliver at h
  split at h
  · next hreading =>
    cases h
    rw [handled, hreading, List.append_nil]
  · next hreading =>
    rw [handled, hreading]
    exact (Session.turn_some h).2.1
  · next hreading =>
    rw [handled, hreading]
    exact (Session.turn_some h).2.1

/-! ### Reasons -/

/-- Text is not lost altogether. -/
theorem nil_of_fromUtf8Lossy {bytes : List UInt8} (h : fromUtf8Lossy bytes = "") : bytes = [] := by
  cases bytes with
  | nil => rfl
  | cons b rest =>
    rw [fromUtf8Lossy, lossyChars, ← String.toList_inj, String.toList_ofList] at h
    cases h

theorem fromUtf8_nil : fromUtf8 [] = some "" := fromUtf8_toUTF8 ""

/-- Only of no bytes an empty text is made. -/
theorem nil_of_fromUtf8 {bytes : List UInt8} (h : fromUtf8 bytes = some "") : bytes = [] := by
  rw [fromUtf8, String.fromUTF8?] at h
  split at h
  · next hvalid =>
    have hbytes : (⟨bytes.toArray⟩ : ByteArray) = "".toByteArray :=
      congrArg String.toByteArray (Option.some.inj h)
    exact congrArg (fun b => b.data.toList) hbytes
  · cases h

/-- The reason a server makes is empty only where there is none. -/
theorem lossyReason_eq_empty {bytes : List UInt8} :
    (fromUtf8 bytes).getD (fromUtf8Lossy bytes) = "" ↔ bytes = [] := by
  constructor
  · intro h
    cases hvalid : fromUtf8 bytes with
    | some s =>
      rw [hvalid] at h
      have hs : s = "" := h
      exact nil_of_fromUtf8 (hs ▸ hvalid)
    | none =>
      rw [hvalid] at h
      exact nil_of_fromUtf8Lossy h
  · rintro rfl
    rw [fromUtf8_nil]
    rfl

/-! ### Both decoders -/

/-- The two ways agree exactly on what is not one byte and has a text for a reason. -/
theorem closeInfo_eq_iff (payload : List UInt8) :
    closeInfo payload = parseClosePayload payload ↔
      payload.length ≠ 1 ∧ (fromUtf8 (payload.drop 2)).isSome = true := by
  match payload with
  | [] =>
    have hnil : closeInfo [] = parseClosePayload [] := by
      simp [closeInfo, closeArgs, fromUtf8_nil, parseClosePayload, closeStatus]
    simp [hnil, fromUtf8_nil]
  | [b] =>
    refine iff_of_false (fun h => ?_) (by simp)
    have hreason := congrArg Prod.snd h
    exact List.cons_ne_nil b [] (lossyReason_eq_empty.mp hreason)
  | hi :: lo :: reason =>
    have hlength : (hi :: lo :: reason).length ≠ 1 := by simp
    rw [and_iff_right hlength, List.drop_succ_cons, List.drop_succ_cons, List.drop_zero]
    cases hvalid : fromUtf8 reason with
    | some s => simp [closeInfo, closeArgs, parseClosePayload, hvalid]
    | none =>
      refine iff_of_false (fun h => ?_) (by simp)
      have hreason := congrArg Prod.snd h
      simp only [closeInfo, closeArgs, parseClosePayload, hvalid, Option.getD_none] at hreason
      rw [nil_of_fromUtf8Lossy hreason, fromUtf8_nil] at hvalid
      cases hvalid

/-- So they agree on a payload that is well formed. -/
theorem closeInfo_eq {payload : List UInt8} (h : invalidClose payload = none) :
    closeInfo payload = parseClosePayload payload := by
  rw [closeInfo_eq_iff]
  match payload with
  | [] => simp [fromUtf8_nil]
  | [_] => cases h
  | hi :: lo :: reason =>
    refine ⟨by simp, ?_⟩
    show (fromUtf8 reason).isSome = true
    by_contra hvalid
    have hnone : (fromUtf8 reason).isNone = true := by simpa using hvalid
    simp [invalidClose, closeArgs, hnone] at h

/-! ### Both ends -/

section
variable {r : FrameReader} {svc : Service}

theorem handled_refused {frame : Frame} {e : String} (h : r.reading frame = .refused e) :
    handled r svc frame = [] := by
  rw [handled, h]
  rfl

/-- The disconnect callback gets what a client gets. -/
theorem handled_returned_close (svc : Service) (hr : r.Lawful) {payload : List UInt8}
    (h : r.returns ⟨.close, payload⟩ = true) : handled r svc ⟨.close, payload⟩ =
      svc.disconnectCallback.toList.map fun cb =>
        ⟨cb, .disconnect (parseClosePayload payload).1 (parseClosePayload payload).2⟩ := by
  have hreading : r.reading ⟨.close, payload⟩ = .returned := of_decide_eq_true h
  have hformed : invalidClose payload = none := by
    rcases hr.reading_close payload with ⟨_, hclose⟩ | ⟨e, he⟩
    · exact hclose
    · rw [hreading] at he
      cases he
  rw [handled, hreading, ← closeInfo_eq hformed]
  cases hcb : svc.disconnectCallback with
  | none => rfl
  | some cb =>
    exact congrArg Prod.fst (turn_closeInfo svc.py svc.serde svc.receiveCallback cb payload)

/-- A client gets a Close that its reader hands on. -/
theorem receive_returned_close {payload : List UInt8} (h : r.returns ⟨.close, payload⟩ = true)
    (onClose : UInt16 → String → ClientErr) (rest written : List Frame) :
    (ClientStream.receive r onClose ⟨⟨.close, payload⟩ :: rest, written⟩).1 =
      some (.error (onClose (parseClosePayload payload).1 (parseClosePayload payload).2)) := by
  have hreading : r.reading ⟨.close, payload⟩ = .returned := of_decide_eq_true h
  simp only [ClientStream.receive, FrameReader.readFrame, hreading, if_true]

/-- What is not handed on is an error. -/
theorem FrameReader.Lawful.refuses (hr : r.Lawful) {payload : List UInt8}
    (h : r.returns ⟨.close, payload⟩ = false) : ∃ e, r.reading ⟨.close, payload⟩ = .refused e := by
  rcases hr.reading_close payload with ⟨hreading, _⟩ | hrefused
  · rw [FrameReader.returns, hreading] at h
    cases h
  · exact hrefused

/-- What may be sent is handed on. -/
theorem FrameReader.Lawful.returns_close (hr : r.Lawful) {code : UInt16} {reason : String}
    (hcode : isAllowed code = true) (hshort : reason.utf8ByteSize ≤ 123)
    (hlimit : reason.utf8ByteSize + 2 < r.maxMessageSize) :
    r.returns ⟨.close, (Frame.close code reason.toUTF8.data.toList).payload⟩ = true :=
  decide_eq_true (hr.reads_acceptable (FrameReader.acceptable_close.mpr ⟨hcode, hshort, hlimit⟩)).2

theorem parseClosePayload_close (code : UInt16) (reason : String) :
    parseClosePayload (Frame.close code reason.toUTF8.data.toList).payload = (code, reason) :=
  parseClosePayload_frame (some (code, reason))

theorem handled_close (svc : Service) (hr : r.Lawful) {code : UInt16} {reason : String}
    (hcode : isAllowed code = true) (hshort : reason.utf8ByteSize ≤ 123)
    (hlimit : reason.utf8ByteSize + 2 < r.maxMessageSize) :
    handled r svc (.close code reason.toUTF8.data.toList) =
      svc.disconnectCallback.toList.map fun cb => ⟨cb, .disconnect code reason⟩ := by
  have hcalls := handled_returned_close svc hr (hr.returns_close hcode hshort hlimit)
  rw [parseClosePayload_close] at hcalls
  exact hcalls

end

/-- **Both ends read the same out of a Close.** Whatever the payload, the disconnect callback of a
server and the `ConnectionClosed` of a client, sync or async, have the same code and reason, if it
comes to them; where the reader refuses it, nothing is called and the client raises the reader's
error. Every Close that has a code which is allowed and a reason of at most 123 bytes comes to
both as it was sent, unless it is over their limits, and none comes to either that has another
code. -/
theorem close_info_agrees (r r' : FrameReader) (hr : r.Lawful) (hr' : r'.Lawful) (svc : Service)
    (cb : Callback) (hcb : svc.disconnectCallback = some cb) (rest written : List Frame) :
    let client := fun frame => (Client.recv r' ⟨frame :: rest, written⟩).1
    let asyncClient := fun frame => (AsyncClient.recv r' ⟨frame :: rest, written⟩).1
    (∀ payload, ∃ code reason,
      handled r svc ⟨.close, payload⟩ =
        (if r.returns ⟨.close, payload⟩ then [⟨cb, .disconnect code reason⟩] else []) ∧
      ∃ e, client ⟨.close, payload⟩ = some (.error
          (if r'.returns ⟨.close, payload⟩ then .connectionClosed code reason else .runtimeError e)) ∧
        asyncClient ⟨.close, payload⟩ = client ⟨.close, payload⟩) ∧
    (∀ (code : UInt16) (reason : String), isAllowed code = true → reason.utf8ByteSize ≤ 123 →
      (reason.utf8ByteSize + 2 < r.maxMessageSize →
        handled r svc (.close code reason.toUTF8.data.toList) = [⟨cb, .disconnect code reason⟩]) ∧
      (reason.utf8ByteSize + 2 < r'.maxMessageSize →
        client (.close code reason.toUTF8.data.toList) =
          some (.error (.connectionClosed code reason)))) ∧
    ∀ (code : UInt16) (reason : String), isAllowed code = false →
      handled r svc (.close code reason.toUTF8.data.toList) = [] ∧
        ∃ e, client (.close code reason.toUTF8.data.toList) = some (.error (.runtimeError e)) := by
  intro client asyncClient
  refine ⟨fun payload => ⟨(parseClosePayload payload).1, (parseClosePayload payload).2, ?_, ?_⟩,
    fun code reason hcode hshort => ⟨fun hlimit => ?_, fun hlimit => ?_⟩,
    fun code reason hcode => ⟨?_, ?_⟩⟩
  · cases hreturns : r.returns ⟨.close, payload⟩ with
    | true =>
      have hcalls := handled_returned_close svc hr hreturns
      rw [hcb] at hcalls
      exact hcalls
    | false =>
      obtain ⟨e, he⟩ := hr.refuses hreturns
      exact handled_refused he
  · cases hreturns : r'.returns ⟨.close, payload⟩ with
    | true => exact ⟨"", receive_returned_close hreturns .connectionClosed rest written, rfl⟩
    | false =>
      obtain ⟨e, he⟩ := hr'.refuses hreturns
      obtain ⟨s, hs⟩ := receive_refused he .connectionClosed rest written
      exact ⟨e, congrArg Prod.fst hs, rfl⟩
  · have hcalls := handled_close svc hr hcode hshort hlimit
    rw [hcb] at hcalls
    exact hcalls
  · have hclosed := receive_returned_close (hr'.returns_close hcode hshort hlimit) .connectionClosed
      rest written
    rw [parseClosePayload_close] at hclosed
    exact hclosed
  · obtain ⟨e, he⟩ := hr.refused_close hcode reason
    exact handled_refused he
  · obtain ⟨e, he⟩ := hr'.refused_close hcode reason
    obtain ⟨s, hs⟩ := receive_refused he .connectionClosed rest written
    exact ⟨e, congrArg Prod.fst hs⟩

/-- A route whose only callback is for disconnections. -/
def farewellService : Service :=
  ⟨plainPython, constantSerde chatMessage, none, ⟨none, none, .empty⟩, some ⟨2, false⟩⟩

theorem close_info_agrees_bye :
    handled .standard farewellService (.close 1000 "bye".toUTF8.data.toList) =
        [⟨⟨2, false⟩, .disconnect 1000 "bye"⟩] ∧
      (Client.recv .standard ⟨[.close 1000 "bye".toUTF8.data.toList], []⟩).1 =
        some (.error (.connectionClosed 1000 "bye")) := by
  have hboth := (close_info_agrees .standard .standard FrameReader.standard_lawful
    FrameReader.standard_lawful farewellService ⟨2, false⟩ rfl [] []).2.1 1000 "bye"
    (by decide) (by decide)
  exact ⟨hboth.1 (by decide), hboth.2 (by decide)⟩

/-- A code that no Close may come with is heard at neither end. -/
theorem close_999_unheard :
    handled .standard farewellService (.close 999 "r".toUTF8.data.toList) = [] ∧
      (Client.recv .standard ⟨[.close 999 "r".toUTF8.data.toList], []⟩).1 =
        some (.error (.runtimeError "Invalid close code")) ∧
      ¬ ∀ (code : UInt16) (reason : String),
        handled .standard farewellService (.close code reason.toUTF8.data.toList) =
          [⟨⟨2, false⟩, .disconnect code reason⟩] := by
  have hnone : handled .standard farewellService (.close 999 "r".toUTF8.data.toList) = [] := by decide
  refine ⟨hnone, by decide, fun hall => ?_⟩
  have hheard := hall 999 "r"
  rw [hnone] at hheard
  cases hheard

end Webrockets
