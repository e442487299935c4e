import Webrockets.Dispatch

/-! `read_frame` of `FragmentCollectorRead`, as its callers see it.

It belongs to `fastwebsockets`, and so it is a parameter. It goes through the frames that come
in until it has one for its caller, or one that it refuses and ends at with an error. A frame can
oblige the reader to an answer, which it hands to the `send_fn` of the caller: it has no writer of
its own. What is known of it is `Lawful`: it refuses a Close that RFC 6455 does not allow, and
nothing that is within the limits (`Acceptable`). -/
namespace Webrockets

/-- What becomes of a frame at the reader. -/
inductive Reading where
  /-- The reader goes on to the next frame. -/
  | passed
  /-- The caller gets the frame. -/
  | returned
  /-- The caller gets an error. -/
  | refused (error : String)
  deriving DecidableEq, Repr

structure FrameReader where
  /-- What `set_max_message_size` sets. -/
  maxMessageSize : Nat
  /-- What a frame is answered with. -/
  reply : Frame → Option Frame
  reading : Frame → Reading

/-! ### Which frames are read -/

/-- The codes that a Close may come with, `is_allowed` of a `CloseCode`. -/
def isAllowed (code : UInt16) : Bool :=
  1000 ≤ code && code ≤ 1003 || 1007 ≤ code && code ≤ 1013 || 3000 ≤ code && code ≤ 4999

/-- What is wrong with the payload of a Close. -/
def invalidClose (payload : List UInt8) : Option String :=
  match payload with
  | [] => none
  | [_] => some "Invalid close frame"
  | _ =>
    if (fromUtf8 (closeArgs payload).2).isNone then some "Invalid UTF-8"
    else if isAllowed (closeArgs payload).1 then none
    else some "Invalid close code"

/-- A frame that every reader takes. A Close over 125 bytes may be taken or not. -/
def Acceptable (maxMessageSize : Nat) (frame : Frame) : Prop :=
  frame.payload.length < maxMessageSize ∧
    match frame.opcode with
    | .text => (fromUtf8 frame.payload).isSome = true
    | .binary | .pong => True
    | .ping => frame.payload.length ≤ 125
    | .close => frame.payload.length ≤ 125 ∧ invalidClose frame.payload = none
    | .continuation => False

instance (maxMessageSize : Nat) (frame : Frame) : Decidable (Acceptable maxMessageSize frame) := by
  unfold Acceptable
  split <;> infer_instance

namespace FrameReader

def returns (r : FrameReader) (frame : Frame) : Bool := r.reading frame = .returned

/-- The error that a frame ends the reader with. -/
def error (r : FrameReader) (frame : Frame) : Option String :=
  match r.reading frame with
  | .refused e => some e
  | _ => none

/-- A Ping is answered and kept from the caller; a Close is answered too; data and Pongs are
not. -/
def Reads (r : FrameReader) (frame : Frame) : Prop :=
  match frame.opcode with
  | .ping => r.reply frame = some ⟨.pong, frame.payload⟩ ∧ r.reading frame = .passed
  | .close => (∃ echo, r.reply frame = some ⟨.close, echo⟩) ∧ r.reading frame = .returned
  | .text | .binary | .pong => r.reply frame = none ∧ r.reading frame = .returned
  | .continuation => True

structure Lawful (r : FrameReader) : Prop where
  /-- A frame is refused if it is not read. -/
  reads : ∀ frame, r.Reads frame ∨ ∃ e, r.reading frame = .refused e
  acceptable : ∀ frame, Acceptable r.maxMessageSize frame → ∀ e, r.reading frame ≠ .refused e
  close : ∀ payload, invalidClose payload ≠ none → ∃ e, r.reading ⟨.close, payload⟩ = .refused e

theorem Lawful.reads_acceptable {r : FrameReader} (hr : r.Lawful) {frame : Frame}
    (h : Acceptable r.maxMessageSize frame) : r.Reads frame := by
  rcases hr.reads frame with hreads | ⟨e, he⟩
  · exact hreads
  · exact absurd he (hr.acceptable frame h e)

/-- A Close is handed on or refused, and what is handed on is well formed. -/
theorem Lawful.reading_close {r : FrameReader} (hr : r.Lawful) (payload : List UInt8) :
    (r.reading ⟨.close, payload⟩ = .returned ∧ invalidClose payload = none) ∨
      ∃ e, r.reading ⟨.close, payload⟩ = .refused e := by
  by_cases hclose : invalidClose payload = none
  · rcases hr.reads ⟨.close, payload⟩ with ⟨_, hreading⟩ | hrefused
    · exact .inl ⟨hreading, hclose⟩
    · exact .inr hrefused
  · exact .inr (hr.close payload hclose)

/-- What a frame makes of a writer `w`, where `sendFn` is what the caller does with an answer. -/
def answer {W : Type} (r : FrameReader) (sendFn : Frame → W → W) (frame : Frame) (w : W) : W :=
  match r.reply frame with
  | some reply => sendFn reply w
  | none => w

/-- The frame that the caller gets, or the error, if there is one yet, the frames that are left,
and what `send_fn` has made of the writer `w`. -/
def readFrame {W : Type} (r : FrameReader) (sendFn : Frame → W → W) :
    List Frame → W → Option (Except String Frame × List Frame) × W
  | [], w => (none, w)
  | frame :: rest, w =>
    let w := r.answer sendFn frame w
    match r.reading frame with
    | .passed => r.readFrame sendFn rest w
    | .returned => (some (.ok frame, rest), w)
    | .refused e => (some (.error e, rest), w)

/-- The replies that RFC 6455 asks for, and the limit that a reader comes with. -/
def standard : FrameReader where
  maxMessageSize := 67108864
  reply := fun frame =>
    match frame.opcode with
    | .ping => some ⟨.pong, frame.payload⟩
    | .close =>
      match invalidClose frame.payload with
      | none => some frame
      | some "Invalid close code" => some (.close 1002 (closeArgs frame.payload).2)
      | some _ => none
    | _ => none
  reading := fun frame =>
    if 67108864 ≤ frame.payload.length then .refused "Frame too large"
    else match frame.opcode with
      | .ping => if 125 < frame.payload.length then .refused "Ping frame too large" else .passed
      | .close => ((invalidClose frame.payload).map Reading.refused).getD .returned
      | .text => if (fromUtf8 frame.payload).isSome then .returned else .refused "Invalid UTF-8"
      | _ => .returned

theorem standard_lawful : standard.Lawful where
  reads := by
    rintro ⟨opcode, payload⟩
    by_cases hlimit : 67108864 ≤ payload.length
    · exact .inr ⟨"Frame too large", by rw [standard]; simp [hlimit]⟩
    · cases opcode with
      | continuation => exact .inl trivial
      | binary | pong => exact .inl ⟨rfl, by rw [standard]; simp [hlimit]⟩
      | text =>
        by_cases htext : (fromUtf8 payload).isSome = true
        · exact .inl ⟨rfl, by rw [standard]; simp [hlimit, htext]⟩
        · exact .inr ⟨"Invalid UTF-8", by rw [standard]; simp [hlimit, htext]⟩
      | ping =>
        by_cases hlong : 125 < payload.length
        · exact .inr ⟨"Ping frame too large", by rw [standard]; simp [hlimit, hlong]⟩
        · exact .inl ⟨rfl, by rw [standard]; simp [hlimit, hlong]⟩
      | close =>
        cases hclose : invalidClose payload with
        | none =>
          exact .inl ⟨⟨payload, by simp [standard, hclose]⟩, by rw [standard]; simp [hlimit, hclose]⟩
        | some e => exact .inr ⟨e, by rw [standard]; simp [hlimit, hclose]⟩
  acceptable := by
    rintro ⟨opcode, payload⟩ ⟨hsize, hread⟩ e
    have hlimit : ¬ 67108864 ≤ payload.length := Nat.not_le.mpr hsize
    cases opcode with
    | continuation => exact hread.elim
    | binary | pong => rw [standard]; simp [hlimit]
    | text => rw [standard]; simp [hlimit, show (fromUtf8 payload).isSome from hread]
    | ping => rw [standard]; simp [hlimit, Nat.not_lt.mpr (show payload.length ≤ 125 from hread)]
    | close => rw [standard]; simp [hlimit, show invalidClose payload = none from hread.2]
  close := by
    intro payload hclose
    obtain ⟨e, he⟩ := Option.ne_none_iff_exists'.mp hclose
    by_cases hlimit : 67108864 ≤ payload.length
    · exact ⟨"Frame too large", by rw [standard]; simp [hlimit]⟩
    · exact ⟨e, by rw [standard]; simp [hlimit, he]⟩

variable {W : Type} {r : FrameReader} {sendFn : Frame → W → W}

/-- A Ping is answered and passed over. -/
theorem readFrame_ping {payload : List UInt8} (hr : r.Reads ⟨.ping, payload⟩) (rest : List Frame)
    (w : W) : r.readFrame sendFn (⟨.ping, payload⟩ :: rest) w =
      r.readFrame sendFn rest (sendFn ⟨.pong, payload⟩ w) := by
  obtain ⟨hreply, hreading⟩ := hr
  simp [readFrame, answer, hreply, hreading]

/-- Data and Pongs are handed on. -/
theorem readFrame_other {frame : Frame} (hr : r.Reads frame)
    (h : frame.opcode = .text ∨ frame.opcode = .binary ∨ frame.opcode = .pong) (rest : List Frame)
    (w : W) : r.readFrame sendFn (frame :: rest) w = (some (.ok frame, rest), w) := by
  obtain ⟨hreply, hreading⟩ : r.reply frame = none ∧ r.reading frame = .returned := by
    unfold Reads at hr
    rcases h with h | h | h <;> (rw [h] at hr; exact hr)
  simp [readFrame, answer, hreply, hreading]

theorem readFrame_close {payload : List UInt8} (hr : r.Reads ⟨.close, payload⟩)
    (sendFn : Frame → W → W) (rest : List Frame) (w : W) :
    ∃ echo, r.readFrame sendFn (⟨.close, payload⟩ :: rest) w =
      (some (.ok ⟨.close, payload⟩, rest), sendFn ⟨.close, echo⟩ w) := by
  obtain ⟨⟨echo, hreply⟩, hreading⟩ := hr
  exact ⟨echo, by simp [readFrame, answer, hreply, hreading]⟩

/-- A frame that is refused ends the reader. -/
theorem readFrame_refused {frame : Frame} {e : String} (h : r.reading frame = .refused e)
    (rest : List Frame) (w : W) : r.readFrame sendFn (frame :: rest) w =
      (some (.error e, rest), r.answer sendFn frame w) := by
  simp [readFrame, h]

/-! ### Closes that are sent -/

theorem invalidClose_close (code : UInt16) (reason : String) :
    invalidClose (Frame.close code reason.toUTF8.data.toList).payload =
      if isAllowed code then none else some "Invalid close code" := by
  show (if (fromUtf8 (closeArgs (Frame.close code _).payload).2).isNone then _ else _) = _
  rw [closeArgs_close, fromUtf8_toUTF8]
  rfl

/-- Every reader takes a Close with a code that is allowed and a short reason. -/
theorem acceptable_close {limit : Nat} {code : UInt16} {reason : String} :
    Acceptable limit (.close code reason.toUTF8.data.toList) ↔
      isAllowed code = true ∧ reason.utf8ByteSize ≤ 123 ∧ reason.utf8ByteSize + 2 < limit := by
  have hlength : (Frame.close code reason.toUTF8.data.toList).payload.length =
      reason.utf8ByteSize + 2 := rfl
  show _ ∧ _ ∧ invalidClose _ = none ↔ _
  rw [invalidClose_close, hlength]
  cases isAllowed code <;> simp; omega

/-- A Close with any other code is refused. -/
theorem Lawful.refused_close (hr : r.Lawful) {code : UInt16} (h : isAllowed code = false)
    (reason : String) :
    ∃ e, r.reading (.close code reason.toUTF8.data.toList) = .refused e := by
  refine hr.close (Frame.close code reason.toUTF8.data.toList).payload ?_
  rw [invalidClose_close, h]
  exact Option.some_ne_none _

theorem error_eq_some {frame : Frame} {e : String} :
    r.error frame = some e ↔ r.reading frame = .refused e := by
  unfold error
  cases r.reading frame <;> simp

end FrameReader
end Webrockets
