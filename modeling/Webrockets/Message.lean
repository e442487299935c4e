import Mathlib.Data.List.Basic

/-! What Python hands over, what it gets back, and the messages of the outgoing
queues.

`Message` is the enum of `lib.rs`; `Message.tryFrom` is its `TryFrom` for a
Python argument. A WebSocket frame is an opcode and a payload, and
`Message.frame` is the frame `send_listener` writes for a message. -/
namespace Webrockets

/-! ### Python values and errors -/

/-- A Python argument, as far as the code tells arguments apart. A `str` with a
lone surrogate has no UTF-8 form, so it is not a `String`. -/
inductive PyValue where
  | str (s : String)
  | surrogateStr
  | bytes (b : List UInt8)
  | other
  deriving DecidableEq, Repr

/-- An exception raised into Python, with its text. -/
inductive PyErr where
  | runtimeError (text : String)
  | typeError (text : String)
  | valueError (text : String)
  | unicodeEncodeError
  /-- Of any other class. -/
  | other (cls text : String)
  deriving DecidableEq, Repr

/-- How a call from Python ends. A panic of the Rust side is not an exception of the API. -/
inductive Outcome where
  | returned
  | raised (e : PyErr)
  | panicked
  deriving DecidableEq, Repr

/-! ### Frames -/

inductive OpCode where
  | continuation
  | text
  | binary
  | close
  | ping
  | pong
  deriving DecidableEq, Repr

structure Frame where
  opcode : OpCode
  payload : List UInt8
  deriving DecidableEq, Repr

/-- `Frame::close`: the code in big-endian order, then the reason. -/
def Frame.close (code : UInt16) (reason : List UInt8) : Frame :=
  ⟨.close, (code >>> 8).toUInt8 :: code.toUInt8 :: reason⟩

/-! ### Messages -/

inductive Message where
  | text (s : String)
  | binary (b : List UInt8)
  | close (code : UInt16) (reason : List UInt8)
  deriving DecidableEq, Repr

namespace Message

def tryFrom : PyValue → Except PyErr Message
  | .str s => .ok (.text s)
  | .surrogateStr => .error .unicodeEncodeError
  | .bytes b => .ok (.binary b)
  | .other => .error (.typeError "send() argument must be str or bytes")

def isClose : Message → Bool
  | .close _ _ => true
  | _ => false

def frame : Message → Frame
  | .text s => ⟨.text, s.toUTF8.data.toList⟩
  | .binary b => ⟨.binary, b⟩
  | .close code reason => .close code reason

/-- A Close message is exactly one that is written as a Close frame. -/
@[simp] theorem frame_opcode (m : Message) : m.frame.opcode = .close ↔ m.isClose = true := by
  cases m <;> simp [frame, isClose, Frame.close]

/-- No Python argument makes a Close message: only `close` and `aclose` do. -/
theorem tryFrom_not_close {v : PyValue} {m : Message} (h : tryFrom v = .ok m) : m.isClose = false := by
  cases v <;> simp only [tryFrom, Except.ok.injEq, reduceCtorEq] at h <;> subst h <;> rfl

end Message

end Webrockets
