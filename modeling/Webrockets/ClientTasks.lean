import Webrockets.Emission
import Webrockets.Library.Drain

/-! Several tasks that share a client (`client/sync.rs`, `client/async.rs`).

The reader and the writer of a client have a lock each, and a lock goes to those who wait for
it in their order. A call that writes holds the writer for one frame. A `recv` holds the reader
until it has a frame for its caller, and where a frame obliges it to an answer it waits for the
writer meanwhile. It can end without a frame, too: at its `timeout`, with an error of the stream,
or because its future is cancelled. If it was to answer then, nobody does. `shared_client` says
what comes of it for any number of tasks: frames and callers meet in their order, every other
answer is given, and nobody waits for another for ever. To read a frame is one step here, and to
write one, so that a task never ends amid a frame. -/
namespace Webrockets
open Transition

/-! ### The calls that write -/

inductive WriteCall where
  | send (data : PyValue)
  | ping (data : Option PyValue)
  | pong (data : Option PyValue)
  | close (code : UInt16) (reason : String)
  /-- `__exit__` and `__aexit__`, of a block that an exception has left or not. -/
  | exit (raised : Bool)
  deriving DecidableEq, Repr

namespace WriteCall

def closeError : UInt16 := 1011

/-- The frame that is written, or the error raised in place of it. -/
def frame : WriteCall → Except PyErr Frame
  | .send (.str s) => .ok ⟨.text, s.toUTF8.data.toList⟩
  | .send (.bytes b) => .ok ⟨.binary, b⟩
  | .send _ => .error (.runtimeError "data must be str or bytes")
  | .ping data => (controlPayload data).map (⟨.ping, ·⟩)
  | .pong data => (controlPayload data).map (⟨.pong, ·⟩)
  | .close code reason => .ok (.close code reason.toUTF8.data.toList)
  | .exit raised => .ok (.close (if raised then closeError else closeNormal) [])

/-- What the call comes to when `write_frame` has failed with an error or not, `text` being
what the client puts in front of it. Leaving a block ignores the error. -/
def result (text : String) (err : Option String) : WriteCall → Except PyErr Unit
  | .exit _ => .ok ()
  | .close _ _ => match err with
    | none => .ok ()
    | some e => .error (.runtimeError e)
  | _ => match err with
    | none => .ok ()
    | some e => .error (.runtimeError (text ++ e))

end WriteCall

/-- Who hands a frame to the writer: a call, or a `recv` that answers. -/
inductive Origin where
  | call (c : WriteCall)
  | reply
  deriving DecidableEq, Repr

/-! ### The machine -/

/-- What has become of a frame that a `recv` has come to. -/
inductive Fate where
  /-- It is dealt with, and answered where it asks for that. -/
  | done
  /-- Its answer was not written, with this error. -/
  | unanswered (e : String)
  /-- Its `recv` gave up before it was answered. -/
  | dropped
  deriving DecidableEq, Repr

/-- How a call of `recv` ends. -/
inductive RecvEnd where
  /-- With a frame, or with the error for one. -/
  | frame (result : Except String Frame)
  /-- `recv timed out`. -/
  | timedOut
  /-- The stream is at its end, or broken. -/
  | failed (e : String)
  deriving DecidableEq

/-- What `recv` makes of the frame that it ends with. -/
def RecvEnd.result : RecvEnd → Option (Except String Frame)
  | .frame result => some result
  | _ => none

/-- A client and the tasks that are in its calls. The first of the `readers` has the reader, the
first of the `writers` the writer. -/
structure ClientTasks where
  /-- What has come in and has not been read. -/
  incoming : List Frame
  /-- The calls of `recv` that have not ended, by their numbers. -/
  readers : List Nat
  /-- The frame that the first reader is at, while its answer is not written. -/
  answering : Option Frame
  writers : List (Origin × Frame)
  /-- What `write_frame` was called for, with its error. -/
  tried : List ((Origin × Frame) × Option String)
  /-- The frames that were read. -/
  dealt : List (Frame × Fate)
  returned : List (Nat × RecvEnd)
  /-- The calls of `recv` whose future was cancelled. -/
  cancelled : List Nat
  ended : List (WriteCall × Except PyErr Unit)
  /-- The calls that write and were cancelled before they did. -/
  abandoned : List (WriteCall × Frame)
  recvs : Nat
  deriving DecidableEq

namespace ClientTasks

def init : ClientTasks := ⟨[], [], none, [], [], [], [], [], [], [], 0⟩

inductive Action where
  /-- A frame comes in. -/
  | arrive (frame : Frame)
  /-- A call of `recv`, or of an iterator, comes to the lock of the reader. -/
  | recv
  /-- A call comes to the lock of the writer, or raises before. -/
  | call (c : WriteCall)
  /-- The first reader comes to a frame. -/
  | read
  /-- The first writer writes, well or not. -/
  | write (err : Option String)
  /-- The time of the first reader is over. -/
  | timeout
  /-- There is no more to read for the first reader. -/
  | fail (e : String)
  /-- The future of a `recv` is cancelled. -/
  | cancel (i : Nat)
  /-- The future of a call that waits for the writer is cancelled. -/
  | abandon (j : Nat)
  deriving DecidableEq, Repr

/-- What `write_frame` has written. -/
def written (s : ClientTasks) : List (Origin × Frame) :=
  (s.tried.filter fun e => e.2.isNone).map Prod.fst

section Machine
variable (r : FrameReader) (text : String)

/-- What `recv` returns of a frame that was read, if anything. -/
def received : Frame × Fate → Option (Except String Frame)
  | (frame, .done) =>
    match r.reading frame with
    | .passed => none
    | .returned => some (.ok frame)
    | .refused e => some (.error e)
  | (_, .unanswered e) => some (.error e)
  | (_, .dropped) => none

/-- The first reader is done with a frame: it returns or goes on to the next one. -/
def deal (s : ClientTasks) (dealt : Frame × Fate) : ClientTasks :=
  match received r dealt, s.readers with
  | some result, i :: readers => { s with
      dealt := s.dealt ++ [dealt]
      readers := readers
      returned := s.returned ++ [(i, .frame result)] }
  | _, _ => { s with dealt := s.dealt ++ [dealt] }

/-- The first reader ends. The frame that it is at is lost, and nobody writes the answer. -/
def giveUp (s : ClientTasks) : ClientTasks :=
  match s.answering with
  | some frame => { s with
      answering := none
      writers := s.writers.filter fun e => e.1 ≠ Origin.reply
      dealt := s.dealt ++ [(frame, .dropped)] }
  | none => s

/-- A `recv` leaves the lock or its queue before it has its frame. -/
def leave (s : ClientTasks) (i : Nat) : ClientTasks :=
  if s.readers.head? = some i then s.giveUp else s

def step : Action → ClientTasks → Option ClientTasks
  | .arrive frame, s => some { s with incoming := s.incoming ++ [frame] }
  | .recv, s => some { s with readers := s.readers ++ [s.recvs], recvs := s.recvs + 1 }
  | .call c, s =>
    match c.frame with
    | .ok frame => some { s with writers := s.writers ++ [(.call c, frame)] }
    | .error _ => some s
  | .read, s =>
    match s.readers, s.answering, s.incoming with
    | _ :: _, none, frame :: incoming =>
      match r.reply frame with
      | some reply => some { s with
          incoming := incoming
          answering := some frame
          writers := s.writers ++ [(.reply, reply)] }
      | none => some ({ s with incoming := incoming }.deal r (frame, .done))
    | _, _, _ => none
  | .write err, s =>
    match s.writers with
    | [] => none
    | (.call c, frame) :: writers => some { s with
        writers := writers
        tried := s.tried ++ [((Origin.call c, frame), err)]
        ended := s.ended ++ [(c, c.result text err)] }
    | (.reply, frame) :: writers =>
      match s.answering with
      | some f => some ({ s with
          writers := writers
          tried := s.tried ++ [((Origin.reply, frame), err)]
          answering := none }.deal r (f, (err.map Fate.unanswered).getD .done))
      | none => none
  | .timeout, s =>
    match s.readers with
    | [] => none
    | i :: readers => some { s.giveUp with
        readers := readers
        returned := s.returned ++ [(i, .timedOut)] }
  | .fail e, s =>
    match s.readers, s.answering with
    | i :: readers, none => some { s with
        readers := readers
        returned := s.returned ++ [(i, .failed e)] }
    | _, _ => none
  | .cancel i, s =>
    if i ∈ s.readers then
      some { s.leave i with
        readers := s.readers.erase i
        cancelled := s.cancelled ++ [i] }
    else none
  | .abandon j, s =>
    match s.writers[j]? with
    | some (.call c, frame) => some { s with
        writers := s.writers.eraseIdx j
        abandoned := s.abandoned ++ [(c, frame)] }
    | _ => none

end Machine

/-! ### What is kept -/

/-- The frames that came in. -/
def arrivals (actions : List Action) : List Frame :=
  actions.filterMap fun a => match a with
    | .arrive frame => some frame
    | _ => none

/-- The calls that write, with their frames. -/
def askedBy (actions : List Action) : List (WriteCall × Frame) :=
  actions.filterMap fun a => match a with
    | .call c => match c.frame with
      | .ok frame => some (c, frame)
      | .error _ => none
    | _ => none

def recvsOf (actions : List Action) : Nat := actions.countP fun a => a = .recv

/-- The actions that end a `recv` in which it may owe an answer. -/
def Action.givesUp : Action → Bool
  | .timeout | .cancel _ => true
  | _ => false

def repliesIn (frames : List (Origin × Frame)) : List Frame :=
  frames.filterMap fun e => match e.1 with
    | .reply => some e.2
    | .call _ => none

def callsIn (frames : List (Origin × Frame)) : List (WriteCall × Frame) :=
  frames.filterMap fun e => match e.1 with
    | .reply => none
    | .call c => some (c, e.2)

/-- The answers that were tried to write, with the errors. -/
def repliesTried (tried : List ((Origin × Frame) × Option String)) : List (Frame × Option String) :=
  tried.filterMap fun e => match e.1.1 with
    | .reply => some (e.1.2, e.2)
    | .call _ => none

/-- How the calls end that were tried to write. -/
def callsTried (text : String) (tried : List ((Origin × Frame) × Option String)) :
    List (WriteCall × Except PyErr Unit) :=
  tried.filterMap fun e => match e.1.1 with
    | .reply => none
    | .call c => some (c, c.result text e.2)

/-- The answer that a frame has got, with its error. -/
def answered (r : FrameReader) : Frame × Fate → Option (Frame × Option String)
  | (frame, .done) => (r.reply frame).map (·, none)
  | (frame, .unanswered e) => (r.reply frame).map (·, some e)
  | (_, .dropped) => none

/-- The frames that the readers have come to. -/
def met (s : ClientTasks) : List Frame := s.dealt.map Prod.fst ++ s.answering.toList

variable {r : FrameReader} {text : String} {actions : List Action} {s t : ClientTasks}

@[simp] theorem arrivals_append (a b : List Action) : arrivals (a ++ b) = arrivals a ++ arrivals b :=
  List.filterMap_append

@[simp] theorem askedBy_append (a b : List Action) : askedBy (a ++ b) = askedBy a ++ askedBy b :=
  List.filterMap_append

@[simp] theorem recvsOf_append (a b : List Action) : recvsOf (a ++ b) = recvsOf a + recvsOf b :=
  List.countP_append

@[simp] theorem repliesIn_append (a b : List (Origin × Frame)) :
    repliesIn (a ++ b) = repliesIn a ++ repliesIn b :=
  List.filterMap_append

@[simp] theorem callsIn_append (a b : List (Origin × Frame)) :
    callsIn (a ++ b) = callsIn a ++ callsIn b :=
  List.filterMap_append

theorem callsIn_calls (frames : List (Origin × Frame)) :
    callsIn (frames.filter fun e => e.1 ≠ Origin.reply) = callsIn frames := by
  rw [callsIn, List.filterMap_filter]
  refine List.filterMap_congr fun e _ => ?_
  obtain ⟨origin, frame⟩ := e
  cases origin <;> rfl

theorem repliesIn_calls (frames : List (Origin × Frame)) :
    repliesIn (frames.filter fun e => e.1 ≠ Origin.reply) = [] := by
  rw [repliesIn, List.filterMap_filter, List.filterMap_eq_nil_iff]
  intro e _
  obtain ⟨origin, frame⟩ := e
  cases origin <;> rfl

/-- What a step can do. -/
inductive Effect (r : FrameReader) (text : String) (s : ClientTasks) : Action → ClientTasks → Prop
  | arrived (frame : Frame) :
    Effect r text s (.arrive frame) { s with incoming := s.incoming ++ [frame] }
  | came : Effect r text s .recv { s with readers := s.readers ++ [s.recvs], recvs := s.recvs + 1 }
  | called {c : WriteCall} {frame : Frame} (h : c.frame = .ok frame) :
    Effect r text s (.call c) { s with writers := s.writers ++ [(.call c, frame)] }
  | raised {c : WriteCall} {e : PyErr} (h : c.frame = .error e) : Effect r text s (.call c) s
  | obliged {frame reply : Frame} {incoming : List Frame} (hreaders : s.readers ≠ [])
    (hanswering : s.answering = none) (hincoming : s.incoming = frame :: incoming)
    (hreply : r.reply frame = some reply) : Effect r text s .read { s with
      incoming := incoming
      answering := some frame
      writers := s.writers ++ [(.reply, reply)] }
  | dealt {frame : Frame} {incoming : List Frame} (hreaders : s.readers ≠ [])
    (hanswering : s.answering = none) (hincoming : s.incoming = frame :: incoming)
    (hreply : r.reply frame = none) :
    Effect r text s .read ({ s with incoming := incoming }.deal r (frame, .done))
  | wrote {c : WriteCall} {frame : Frame} {writers : List (Origin × Frame)} {err : Option String}
    (hwriters : s.writers = (.call c, frame) :: writers) : Effect r text s (.write err) { s with
      writers := writers
      tried := s.tried ++ [((Origin.call c, frame), err)]
      ended := s.ended ++ [(c, c.result text err)] }
  | replied {frame f : Frame} {writers : List (Origin × Frame)} {err : Option String}
    (hwriters : s.writers = (.reply, frame) :: writers) (hanswering : s.answering = some f) :
    Effect r text s (.write err) ({ s with
      writers := writers
      tried := s.tried ++ [((Origin.reply, frame), err)]
      answering := none }.deal r (f, (err.map Fate.unanswered).getD .done))
  | timedOut {i : Nat} {readers : List Nat} (hreaders : s.readers = i :: readers) :
    Effect r text s .timeout { s.giveUp with
      readers := readers
      returned := s.returned ++ [(i, .timedOut)] }
  | failed {i : Nat} {readers : List Nat} {e : String} (hreaders : s.readers = i :: readers)
    (hanswering : s.answering = none) : Effect r text s (.fail e) { s with
      readers := readers
      returned := s.returned ++ [(i, .failed e)] }
  | cancelled {i : Nat} (hi : i ∈ s.readers) : Effect r text s (.cancel i) { s.leave i with
      readers := s.readers.erase i
      cancelled := s.cancelled ++ [i] }
  | abandoned {j : Nat} {c : WriteCall} {frame : Frame} (hj : s.writers[j]? = some (.call c, frame)) :
    Effect r text s (.abandon j) { s with
      writers := s.writers.eraseIdx j
      abandoned := s.abandoned ++ [(c, frame)] }

theorem step_effect {a : Action} (h : step r text a s = some t) : Effect r text s a t := by
  cases a with
  | arrive frame =>
    cases h
    exact .arrived frame
  | recv =>
    cases h
    exact .came
  | call c =>
    simp only [step] at h
    split at h
    · next frame hframe =>
      cases h
      exact .called hframe
    · next e hframe =>
      cases h
      exact .raised hframe
  | read =>
    simp only [step] at h
    split at h
    · next i readers frame incoming hreaders hanswering hincoming =>
      have hne : s.readers ≠ [] := by
        rw [hreaders]
        exact List.cons_ne_nil _ _
      split at h
      · next reply hreply =>
        cases h
        exact .obliged hne hanswering hincoming hreply
      · next hreply =>
        cases h
        exact .dealt hne hanswering hincoming hreply
    · cases h
  | write err =>
    simp only [step] at h
    split at h
    · cases h
    · next c frame writers hwriters =>
      cases h
      exact .wrote hwriters
    · next frame writers hwriters =>
      split at h
      · next f hf =>
        cases h
        exact .replied hwriters hf
      · cases h
  | timeout =>
    simp only [step] at h
    split at h
    · cases h
    · next i readers hreaders =>
      cases h
      exact .timedOut hreaders
  | fail e =>
    simp only [step] at h
    split at h
    · next i readers hreaders hanswering =>
      cases h
      exact .failed hreaders hanswering
    · cases h
  | cancel i =>
    simp only [step] at h
    split at h
    · next hi =>
      cases h
      exact .cancelled hi
    · cases h
  | abandon j =>
    simp only [step] at h
    split at h
    · next c frame hj =>
      cases h
      exact .abandoned hj
    · cases h

/-- What dealing with a frame changes, and what it does not. -/
structure DealFrame (s : ClientTasks) (d : Frame × Fate) (t : ClientTasks) : Prop where
  dealt : t.dealt = s.dealt ++ [d]
  incoming : t.incoming = s.incoming
  answering : t.answering = s.answering
  writers : t.writers = s.writers
  tried : t.tried = s.tried
  ended : t.ended = s.ended
  abandoned : t.abandoned = s.abandoned
  cancelled : t.cancelled = s.cancelled
  recvs : t.recvs = s.recvs

theorem deal_frame (r : FrameReader) (s : ClientTasks) (d : Frame × Fate) :
    DealFrame s d (s.deal r d) := by
  unfold deal
  split <;> exact ⟨rfl, rfl, rfl, rfl, rfl, rfl, rfl, rfl, rfl⟩

/-- A frame that is returned goes to the first reader. -/
theorem deal_returned (h : s.readers ≠ []) (d : Frame × Fate) :
    (s.deal r d).returned.filterMap (fun e => e.2.result) =
      s.returned.filterMap (fun e => e.2.result) ++ (received r d).toList := by
  obtain ⟨i, readers, hreaders⟩ := List.exists_cons_of_ne_nil h
  unfold deal
  cases hd : received r d with
  | none => exact (List.append_nil _).symm
  | some result =>
    simp only [hreaders]
    exact List.filterMap_append

/-- Who has come to the lock stays in order. -/
theorem deal_callers (r : FrameReader) (s : ClientTasks) (d : Frame × Fate) :
    (s.deal r d).returned.map Prod.fst ++ (s.deal r d).readers =
      s.returned.map Prod.fst ++ s.readers := by
  unfold deal
  split
  · next hreaders =>
    rw [List.map_append, List.append_assoc, hreaders]
    rfl
  · rfl

/-- What giving up changes, and what it does not. -/
structure GiveUpFrame (s t : ClientTasks) : Prop where
  dealt : t.dealt = s.dealt ++ s.answering.toList.map (·, .dropped)
  answering : t.answering = none
  /-- Only the answer leaves the queue for the writer. -/
  calls : callsIn t.writers = callsIn s.writers
  idle : s.answering = none → t.writers = s.writers
  freed : s.answering ≠ none → repliesIn t.writers = []
  incoming : t.incoming = s.incoming
  readers : t.readers = s.readers
  returned : t.returned = s.returned
  tried : t.tried = s.tried
  ended : t.ended = s.ended
  abandoned : t.abandoned = s.abandoned
  cancelled : t.cancelled = s.cancelled
  recvs : t.recvs = s.recvs

theorem giveUp_frame (s : ClientTasks) : GiveUpFrame s s.giveUp := by
  unfold giveUp
  cases h : s.answering with
  | none =>
    exact ⟨by simp [h], h, rfl, fun _ => rfl, fun hne => absurd h hne, rfl, rfl, rfl, rfl, rfl, rfl, rfl,
      rfl⟩
  | some frame =>
    exact ⟨by simp [h], rfl, callsIn_calls _, fun hnone => (nomatch h.symm.trans hnone),
      fun _ => repliesIn_calls _, rfl, rfl, rfl, rfl, rfl, rfl, rfl, rfl⟩

theorem leave_eq (s : ClientTasks) (i : Nat) :
    s.leave i = s.giveUp ∧ s.readers.head? = some i ∨ s.leave i = s ∧ s.readers.head? ≠ some i := by
  unfold leave
  split
  · next hfirst => exact .inl ⟨rfl, hfirst⟩
  · next hlater => exact .inr ⟨rfl, hlater⟩

/-- What a frame that is taken out of the queue stood between. -/
theorem eraseIdx_split {α : Type} {l : List α} {j : Nat} {a : α} (h : l[j]? = some a) :
    ∃ before after, l = before ++ a :: after ∧ l.eraseIdx j = before ++ after := by
  obtain ⟨hlt, rfl⟩ := List.getElem?_eq_some_iff.mp h
  refine ⟨l.take j, l.drop (j + 1), ?_, List.eraseIdx_eq_take_drop_succ _ _⟩
  rw [List.getElem_cons_drop, List.take_append_drop]

/-! #### The calls that write -/

/-- The calls are tried in the order in which they came, and none is lost but those that were
cancelled. -/
structure CallsKept (text : String) (actions : List Action) (s : ClientTasks) : Prop where
  order : (callsIn (s.tried.map Prod.fst) ++ callsIn s.writers).Sublist (askedBy actions)
  all : (callsIn (s.tried.map Prod.fst) ++ callsIn s.writers ++ s.abandoned).Perm (askedBy actions)
  ended : s.ended = callsTried text s.tried

/-- They are kept where they are the same. -/
theorem CallsKept.same {a : Action} (h : CallsKept text actions s) (hasked : askedBy [a] = [])
    (hlist : callsIn (t.tried.map Prod.fst) ++ callsIn t.writers =
      callsIn (s.tried.map Prod.fst) ++ callsIn s.writers)
    (habandoned : t.abandoned = s.abandoned) (hended : t.ended = callsTried text t.tried) :
    CallsKept text (actions ++ [a]) t := by
  have hnone : askedBy (actions ++ [a]) = askedBy actions := by
    rw [askedBy_append, hasked, List.append_nil]
  refine ⟨?_, ?_, hended⟩
  · rw [hlist, hnone]
    exact h.order
  · rw [hlist, hnone, habandoned]
    exact h.all

/-- The readers have nothing to do with them. -/
theorem CallsKept.deal (h : CallsKept text actions s) (r : FrameReader) (d : Frame × Fate) :
    CallsKept text actions (s.deal r d) := by
  have hframe := deal_frame r s d
  refine ⟨?_, ?_, ?_⟩
  · rw [hframe.tried, hframe.writers]
    exact h.order
  · rw [hframe.tried, hframe.writers, hframe.abandoned]
    exact h.all
  · rw [hframe.ended, hframe.tried]
    exact h.ended

theorem CallsKept.giveUp (h : CallsKept text actions s) : CallsKept text actions s.giveUp := by
  have hframe := giveUp_frame s
  refine ⟨?_, ?_, ?_⟩
  · rw [hframe.tried, hframe.calls]
    exact h.order
  · rw [hframe.tried, hframe.calls, hframe.abandoned]
    exact h.all
  · rw [hframe.ended, hframe.tried]
    exact h.ended

theorem CallsKept.leave (h : CallsKept text actions s) (i : Nat) :
    CallsKept text actions (s.leave i) := by
  rcases leave_eq s i with ⟨hleave, _⟩ | ⟨hleave, _⟩ <;> rw [hleave]
  · exact h.giveUp
  · exact h

theorem step_callsKept {a : Action} (h : CallsKept text actions s) (he : Effect r text s a t) :
    CallsKept text (actions ++ [a]) t := by
  cases he with
  | arrived frame => exact h.same rfl rfl rfl h.ended
  | came => exact h.same rfl rfl rfl h.ended
  | @called c frame hframe =>
    have hone : askedBy (actions ++ [.call c]) = askedBy actions ++ [(c, frame)] := by
      rw [askedBy_append]
      simp [askedBy, hframe]
    have hcalls : callsIn (s.writers ++ [(Origin.call c, frame)]) = callsIn s.writers ++ [(c, frame)] :=
      callsIn_append _ _
    refine ⟨?_, ?_, h.ended⟩
    · show (_ ++ callsIn (s.writers ++ [(Origin.call c, frame)])).Sublist _
      rw [hone, hcalls, ← List.append_assoc]
      exact h.order.append (List.Sublist.refl _)
    · show (_ ++ callsIn (s.writers ++ [(Origin.call c, frame)]) ++ s.abandoned).Perm _
      rw [hone, hcalls, ← List.append_assoc]
      refine List.Perm.trans ?_ (h.all.append_right [(c, frame)])
      simp only [List.append_assoc]
      exact (List.perm_append_comm.append_left _).append_left _
  | @raised c e hframe => exact h.same (by simp [askedBy, hframe]) rfl rfl h.ended
  | obliged hreaders hanswering hincoming hreply =>
    refine h.same rfl ?_ rfl h.ended
    show _ ++ callsIn (s.writers ++ [(Origin.reply, _)]) = _
    rw [callsIn_append]
    exact congrArg _ (List.append_nil _)
  | dealt hreaders hanswering hincoming hreply =>
    refine CallsKept.deal ?_ r _
    exact h.same rfl rfl rfl h.ended
  | @wrote c frame writers err hwriters =>
    refine h.same rfl ?_ rfl ?_
    · show callsIn ((s.tried ++ [((Origin.call c, frame), err)]).map Prod.fst) ++ callsIn writers = _
      rw [hwriters, List.map_append, callsIn_append, List.append_assoc]
      rfl
    · show s.ended ++ [(c, c.result text err)] = _
      rw [h.ended, callsTried, callsTried, List.filterMap_append]
      rfl
  | @replied frame f writers err hwriters hanswering =>
    refine CallsKept.deal ?_ r _
    refine h.same rfl ?_ rfl ?_
    · show callsIn ((s.tried ++ [((Origin.reply, frame), err)]).map Prod.fst) ++ callsIn writers = _
      rw [hwriters, List.map_append, callsIn_append, List.append_assoc]
      rfl
    · show s.ended = callsTried text (s.tried ++ [((Origin.reply, frame), err)])
      rw [callsTried, List.filterMap_append]
      exact h.ended.trans (List.append_nil _).symm
  | timedOut hreaders => exact h.giveUp.same rfl rfl rfl h.giveUp.ended
  | failed hreaders hanswering => exact h.same rfl rfl rfl h.ended
  | @cancelled i hi => exact (h.leave i).same rfl rfl rfl (h.leave i).ended
  | @abandoned j c frame hj =>
    obtain ⟨before, after, hsplit, herased⟩ := eraseIdx_split hj
    have hcalls : callsIn s.writers = callsIn before ++ (c, frame) :: callsIn after := by
      rw [hsplit, callsIn_append]
      rfl
    have hrest : callsIn (s.writers.eraseIdx j) = callsIn before ++ callsIn after := by
      rw [herased, callsIn_append]
    have horder := h.order
    have hall := h.all
    rw [hcalls] at horder hall
    have hnone : askedBy (actions ++ [.abandon j]) = askedBy actions := by
      rw [askedBy_append]
      exact List.append_nil _
    refine ⟨?_, ?_, h.ended⟩
    · show (_ ++ callsIn (s.writers.eraseIdx j)).Sublist _
      rw [hnone, hrest]
      exact (((List.sublist_cons_self _ _).append_left _).append_left _).trans horder
    · show (_ ++ callsIn (s.writers.eraseIdx j) ++ (s.abandoned ++ [(c, frame)])).Perm _
      rw [hnone, hrest]
      refine List.Perm.trans ?_ hall
      simp only [List.append_assoc, List.cons_append]
      refine List.Perm.append_left _ (List.Perm.append_left _ ?_)
      rw [← List.append_assoc]
      exact List.perm_append_singleton _ _

/-! #### The calls of `recv` -/

/-- The readers come to the lock one after the other, and leave it so, but for those that are
cancelled. -/
structure RecvsKept (actions : List Action) (s : ClientTasks) : Prop where
  order : (s.returned.map Prod.fst ++ s.readers).Sublist (List.range (recvsOf actions))
  all : (s.returned.map Prod.fst ++ s.readers ++ s.cancelled).Perm (List.range (recvsOf actions))
  recvs : s.recvs = recvsOf actions

theorem RecvsKept.same {a : Action} (h : RecvsKept actions s) (hrecvs : recvsOf [a] = 0)
    (hlist : t.returned.map Prod.fst ++ t.readers = s.returned.map Prod.fst ++ s.readers)
    (hcancelled : t.cancelled = s.cancelled) (hcount : t.recvs = s.recvs) :
    RecvsKept (actions ++ [a]) t := by
  have hsame : recvsOf (actions ++ [a]) = recvsOf actions := by
    rw [recvsOf_append, hrecvs, Nat.add_zero]
  refine ⟨?_, ?_, ?_⟩
  · rw [hlist, hsame]
    exact h.order
  · rw [hlist, hsame, hcancelled]
    exact h.all
  · rw [hcount, hsame]
    exact h.recvs

theorem RecvsKept.deal (h : RecvsKept actions s) (r : FrameReader) (d : Frame × Fate) :
    RecvsKept actions (s.deal r d) := by
  have hframe := deal_frame r s d
  refine ⟨?_, ?_, hframe.recvs.trans h.recvs⟩
  · rw [deal_callers]
    exact h.order
  · rw [deal_callers, hframe.cancelled]
    exact h.all

theorem step_recvsKept {a : Action} (h : RecvsKept actions s) (he : Effect r text s a t) :
    RecvsKept (actions ++ [a]) t := by
  cases he with
  | arrived frame => exact h.same rfl rfl rfl rfl
  | came =>
    have hone : recvsOf (actions ++ [.recv]) = recvsOf actions + 1 := recvsOf_append _ _
    refine ⟨?_, ?_, ?_⟩
    · show (_ ++ (s.readers ++ [s.recvs])).Sublist _
      rw [hone, List.range_succ, ← List.append_assoc, h.recvs]
      exact h.order.append (List.Sublist.refl _)
    · show (_ ++ (s.readers ++ [s.recvs]) ++ s.cancelled).Perm _
      rw [hone, List.range_succ, ← List.append_assoc, h.recvs]
      refine List.Perm.trans ?_ (h.all.append_right _)
      simp only [List.append_assoc]
      exact (List.perm_append_comm.append_left _).append_left _
    · show s.recvs + 1 = _
      rw [hone, h.recvs]
  | called hframe => exact h.same rfl rfl rfl rfl
  | raised hframe => exact h.same rfl rfl rfl rfl
  | obliged hreaders hanswering hincoming hreply => exact h.same rfl rfl rfl rfl
  | dealt hreaders hanswering hincoming hreply =>
    refine RecvsKept.deal ?_ r _
    exact h.same rfl rfl rfl rfl
  | wrote hwriters => exact h.same rfl rfl rfl rfl
  | replied hwriters hanswering =>
    refine RecvsKept.deal ?_ r _
    exact h.same rfl rfl rfl rfl
  | @timedOut i readers hreaders =>
    have hframe := giveUp_frame s
    refine h.same rfl ?_ hframe.cancelled hframe.recvs
    show (s.returned ++ [(i, RecvEnd.timedOut)]).map Prod.fst ++ readers = _
    rw [List.map_append, List.append_assoc, hreaders]
    rfl
  | @failed i readers e hreaders hanswering =>
    refine h.same rfl ?_ rfl rfl
    show (s.returned ++ [(i, RecvEnd.failed e)]).map Prod.fst ++ readers = _
    rw [List.map_append, List.append_assoc, hreaders]
    rfl
  | @cancelled i hi =>
    have hnone : recvsOf (actions ++ [.cancel i]) = recvsOf actions := recvsOf_append _ _
    have hsame : (s.leave i).returned = s.returned ∧ (s.leave i).recvs = s.recvs := by
      rcases leave_eq s i with ⟨hleave, _⟩ | ⟨hleave, _⟩ <;> rw [hleave]
      · exact ⟨(giveUp_frame s).returned, (giveUp_frame s).recvs⟩
      · exact ⟨rfl, rfl⟩
    refine ⟨?_, ?_, ?_⟩
    · show ((s.leave i).returned.map Prod.fst ++ s.readers.erase i).Sublist _
      rw [hsame.1, hnone]
      exact (List.erase_sublist.append_left _).trans h.order
    · show ((s.leave i).returned.map Prod.fst ++ s.readers.erase i ++ (s.cancelled ++ [i])).Perm _
      rw [hsame.1, hnone]
      refine List.Perm.trans ?_ h.all
      simp only [List.append_assoc]
      refine List.Perm.append_left _ ?_
      refine List.Perm.trans ?_ ((List.perm_cons_erase hi).symm.append_right _)
      rw [← List.append_assoc]
      exact List.perm_append_singleton _ _
    · show (s.leave i).recvs = _
      rw [hsame.2, hnone]
      exact h.recvs
  | abandoned hj => exact h.same rfl rfl rfl rfl

/-! #### The frames that come in -/

/-- The frames are read in order and go to the readers in order, and what is to be answered is, but
for what is dropped. -/
structure FramesKept (r : FrameReader) (actions : List Action) (s : ClientTasks) : Prop where
  arrived : s.met ++ s.incoming = arrivals actions
  returned : s.returned.filterMap (fun e => e.2.result) = s.dealt.filterMap (received r)
  replies : repliesTried s.tried = s.dealt.filterMap (answered r)
  /-- The first reader waits for the writer exactly while it answers. -/
  answering : repliesIn s.writers = s.answering.toList.filterMap r.reply
  obliged : ∀ frame, s.answering = some frame → r.reply frame ≠ none ∧ s.readers ≠ []
  dropped : s.dealt.countP (fun d => d.2 = .dropped) ≤ actions.countP Action.givesUp

/-- A step that has nothing to do with frames. -/
theorem FramesKept.same {a : Action} (h : FramesKept r actions s) (harrivals : arrivals [a] = [])
    (hincoming : t.incoming = s.incoming) (hdealt : t.dealt = s.dealt)
    (hanswering : t.answering = s.answering)
    (hreturned : t.returned.filterMap (fun e => e.2.result) =
      s.returned.filterMap fun e => e.2.result)
    (htried : repliesTried t.tried = repliesTried s.tried)
    (hwriters : repliesIn t.writers = repliesIn s.writers)
    (hreaders : s.answering ≠ none → s.readers ≠ [] → t.readers ≠ []) :
    FramesKept r (actions ++ [a]) t := by
  refine ⟨?_, ?_, ?_, ?_, fun frame hframe => ?_, ?_⟩
  · rw [met, hdealt, hanswering, hincoming, arrivals_append, harrivals, List.append_nil]
    exact h.arrived
  · rw [hreturned, hdealt]
    exact h.returned
  · rw [htried, hdealt]
    exact h.replies
  · rw [hwriters, hanswering]
    exact h.answering
  · rw [hanswering] at hframe
    obtain ⟨hreply, hne⟩ := h.obliged frame hframe
    exact ⟨hreply, hreaders (by simp [hframe]) hne⟩
  · rw [hdealt, List.countP_append]
    exact Nat.le_add_right_of_le h.dropped

/-- The first reader has come to the frame, and it has no answer to wait for. -/
theorem FramesKept.deal {a : Action} {d : Frame × Fate} (hanswering : s.answering = none)
    (hreaders : s.readers ≠ []) (hfate : d.2 ≠ .dropped)
    (harrived : s.met ++ d.1 :: s.incoming = arrivals (actions ++ [a]))
    (hreturned : s.returned.filterMap (fun e => e.2.result) = s.dealt.filterMap (received r))
    (hreplies : repliesTried s.tried = s.dealt.filterMap (answered r) ++ (answered r d).toList)
    (hwriters : repliesIn s.writers = [])
    (hdropped : s.dealt.countP (fun d => d.2 = .dropped) ≤ actions.countP Action.givesUp) :
    FramesKept r (actions ++ [a]) (s.deal r d) := by
  have hframe := deal_frame r s d
  refine ⟨?_, ?_, ?_, ?_, fun f hf => ?_, ?_⟩
  · rw [met, hframe.dealt, hframe.answering, hframe.incoming, hanswering, List.map_append, ← harrived,
      met, hanswering]
    simp
  · rw [deal_returned hreaders, hframe.dealt, hreturned, List.filterMap_append]
    cases hd : received r d <;> simp [hd]
  · rw [hframe.tried, hframe.dealt, hreplies, List.filterMap_append]
    cases hd : answered r d <;> simp [hd]
  · rw [hframe.writers, hframe.answering, hwriters, hanswering]
    rfl
  · rw [hframe.answering, hanswering] at hf
    cases hf
  · rw [hframe.dealt, List.countP_append, List.countP_append]
    have hnone : [d].countP (fun d => d.2 = .dropped) = 0 := by simp [hfate]
    omega

/-- A `recv` leaves, and the answer that it owes is dropped. -/
theorem FramesKept.giveUp {a : Action} (h : FramesKept r actions s) (harrivals : arrivals [a] = [])
    (ha : a.givesUp = true) (hdealt : t.dealt = s.giveUp.dealt) (hincoming : t.incoming = s.incoming)
    (hanswering : t.answering = none) (htried : t.tried = s.tried)
    (hwriters : t.writers = s.giveUp.writers)
    (hreturned : t.returned.filterMap (fun e => e.2.result) =
      s.returned.filterMap fun e => e.2.result) : FramesKept r (actions ++ [a]) t := by
  have hframe := giveUp_frame s
  rw [hframe.dealt] at hdealt
  refine ⟨?_, ?_, ?_, ?_, fun f hf => ?_, ?_⟩
  · rw [met, hdealt, hanswering, hincoming, arrivals_append, harrivals, List.append_nil, ← h.arrived,
      met, List.map_append, List.map_map]
    simp [Function.comp_def]
  · rw [hreturned, hdealt, h.returned, List.filterMap_append]
    cases s.answering <;> simp [received]
  · rw [htried, hdealt, h.replies, List.filterMap_append]
    cases s.answering <;> simp [answered]
  · rw [hwriters, hanswering]
    cases hans : s.answering with
    | none =>
      rw [hframe.idle hans, h.answering, hans]
    | some frame => exact hframe.freed (by simp [hans])
  · rw [hanswering] at hf
    cases hf
  · rw [hdealt, List.countP_append, List.countP_append]
    have hone : [a].countP Action.givesUp = 1 := by simp [ha]
    have hmost : (s.answering.toList.map fun frame => (frame, Fate.dropped)).countP
        (fun d => d.2 = .dropped) ≤ 1 := by
      cases s.answering <;> simp
    have := h.dropped
    omega

theorem step_framesKept {a : Action} (h : FramesKept r actions s) (he : Effect r text s a t) :
    FramesKept r (actions ++ [a]) t := by
  cases he with
  | arrived frame =>
    refine ⟨?_, h.returned, h.replies, h.answering, h.obliged, ?_⟩
    · rw [arrivals_append, ← h.arrived, List.append_assoc]
      rfl
    · rw [List.countP_append]
      exact Nat.le_add_right_of_le h.dropped
  | came =>
    exact h.same rfl rfl rfl rfl rfl rfl rfl fun _ _ =>
      List.append_ne_nil_of_right_ne_nil _ (List.cons_ne_nil _ _)
  | @called c frame hframe =>
    refine h.same rfl rfl rfl rfl rfl rfl ?_ fun _ hne => hne
    exact (repliesIn_append _ _).trans (List.append_nil _)
  | raised hframe => exact h.same rfl rfl rfl rfl rfl rfl rfl fun _ hne => hne
  | @obliged frame reply incoming hreaders hanswering hincoming hreply =>
    refine ⟨?_, h.returned, h.replies, ?_, fun f hf => ?_, ?_⟩
    · rw [arrivals_append, ← h.arrived, met, met, hanswering, hincoming]
      simp [arrivals]
    · have hnone := h.answering
      rw [hanswering] at hnone
      show repliesIn (s.writers ++ [(.reply, reply)]) = _
      rw [repliesIn_append, hnone]
      simp [repliesIn, hreply]
    · cases hf
      exact ⟨by simp [hreply], hreaders⟩
    · rw [List.countP_append]
      exact Nat.le_add_right_of_le h.dropped
  | @dealt frame incoming hreaders hanswering hincoming hreply =>
    have hnone := h.answering
    rw [hanswering] at hnone
    refine FramesKept.deal hanswering hreaders (by simp) ?_ h.returned ?_ hnone h.dropped
    · rw [arrivals_append, ← h.arrived, met, met, hincoming]
      exact (List.append_nil _).symm
    · show repliesTried s.tried = _
      rw [h.replies]
      simp [answered, hreply]
  | @wrote c frame writers err hwriters =>
    refine h.same rfl rfl rfl rfl rfl ?_ ?_ fun _ hne => hne
    · show repliesTried (s.tried ++ [((.call c, frame), err)]) = _
      rw [repliesTried, List.filterMap_append]
      exact List.append_nil _
    · rw [hwriters]
      rfl
  | @replied frame f writers err hwriters hanswering =>
    obtain ⟨hreply, hreaders⟩ := h.obliged f hanswering
    obtain ⟨answer, hanswer⟩ := Option.ne_none_iff_exists'.mp hreply
    have hlist := h.answering
    rw [hwriters, hanswering] at hlist
    simp only [repliesIn, Option.toList_some, List.filterMap_cons, hanswer, List.filterMap_nil,
      List.cons.injEq] at hlist
    obtain ⟨rfl, hrest⟩ := hlist
    refine FramesKept.deal rfl hreaders ?_ ?_ h.returned ?_ hrest h.dropped
    · cases err <;> simp
    · rw [arrivals_append, ← h.arrived, met, met, hanswering]
      simp [arrivals]
    · show repliesTried (s.tried ++ [((.reply, frame), err)]) = _
      rw [repliesTried, List.filterMap_append, ← repliesTried, h.replies]
      cases err <;> simp [answered, hanswer]
  | @timedOut i readers hreaders =>
    have hframe := giveUp_frame s
    refine h.giveUp rfl rfl rfl hframe.incoming hframe.answering hframe.tried rfl ?_
    exact List.filterMap_append.trans (List.append_nil _)
  | @failed i readers e hreaders hanswering =>
    refine h.same rfl rfl rfl rfl ?_ rfl rfl fun hne => absurd hanswering hne
    exact List.filterMap_append.trans (List.append_nil _)
  | @cancelled i hi =>
    have hframe := giveUp_frame s
    rcases leave_eq s i with ⟨hleave, _⟩ | ⟨hleave, hlater⟩
    · rw [hleave]
      exact h.giveUp rfl rfl rfl hframe.incoming hframe.answering hframe.tried rfl
        (congrArg (List.filterMap _) hframe.returned)
    · rw [hleave]
      refine h.same rfl rfl rfl rfl rfl rfl rfl fun _ hne => ?_
      obtain ⟨j, readers, hreaders⟩ := List.exists_cons_of_ne_nil hne
      rw [hreaders, List.head?_cons, Ne, Option.some.injEq] at hlater
      show s.readers.erase i ≠ []
      rw [hreaders, List.erase_cons_tail (by simpa using hlater)]
      exact List.cons_ne_nil _ _
  | @abandoned j c frame hj =>
    refine h.same rfl rfl rfl rfl rfl rfl ?_ fun _ hne => hne
    obtain ⟨before, after, hsplit, herased⟩ := eraseIdx_split hj
    show repliesIn (s.writers.eraseIdx j) = _
    rw [herased, hsplit, repliesIn_append, repliesIn_append]
    rfl

/-! #### All of it -/

structure Kept (r : FrameReader) (text : String) (actions : List Action) (s : ClientTasks) :
    Prop where
  frames : FramesKept r actions s
  recvs : RecvsKept actions s
  calls : CallsKept text actions s

theorem init_kept (r : FrameReader) (text : String) : Kept r text [] init where
  frames := ⟨rfl, rfl, rfl, rfl, fun _ h => (nomatch h), Nat.le_refl _⟩
  recvs := ⟨List.Sublist.refl _, List.Perm.refl _, rfl⟩
  calls := ⟨List.Sublist.refl _, List.Perm.refl _, rfl⟩

theorem run_kept (h : run (step r text) init actions = some s) : Kept r text actions s :=
  run_history (init_kept r text) (fun _ _ _ _ _ hm hstep =>
    ⟨step_framesKept hm.frames (step_effect hstep), step_recvsKept hm.recvs (step_effect hstep),
      step_callsKept hm.calls (step_effect hstep)⟩) actions h

/-! ### Nobody waits for ever -/

/-- The steps that the tasks take when the locks and the socket let them. -/
def GoesOn : Action → ClientTasks → Prop
  | .read, _ => True
  | .write _, _ => True
  | _, _ => False

/-- A frame is to be read and perhaps to be answered. -/
def left (s : ClientTasks) : Nat := 2 * s.incoming.length + s.writers.length

theorem step_left {a : Action} (hgo : GoesOn a s) (he : Effect r text s a t) : t.left < s.left := by
  cases he with
  | obliged hreaders hanswering hincoming hreply =>
    simp only [left, hincoming, List.length_cons, List.length_append, List.length_nil]
    omega
  | @dealt frame incoming hreaders hanswering hincoming hreply =>
    have hframe := deal_frame r { s with incoming := incoming } (frame, .done)
    simp only [left, hframe.incoming, hframe.writers, hincoming, List.length_cons]
    omega
  | wrote hwriters =>
    simp only [left, hwriters, List.length_cons]
    omega
  | @replied frame f writers err hwriters hanswering =>
    have hframe := deal_frame r
      { s with writers := writers, tried := s.tried ++ [((.reply, frame), err)], answering := none }
      (f, (err.map Fate.unanswered).getD .done)
    simp only [left, hframe.incoming, hframe.writers, hwriters, List.length_cons]
    omega
  | _ => exact hgo.elim

/-- Where no task can go on, none waits for another: nothing is to be written, and who is in
`recv` has read all that came in. -/
theorem FramesKept.settled (h : FramesKept r actions s)
    (hsettled : Settled (step r text) GoesOn s) :
    s.writers = [] ∧ s.answering = none ∧ (s.readers = [] ∨ s.incoming = []) := by
  have hwriters : s.writers = [] := by
    have hwrite := hsettled (.write none) trivial
    simp only [step] at hwrite
    split at hwrite
    · assumption
    · cases hwrite
    · next frame writers hwriters =>
      split at hwrite
      · cases hwrite
      · next hnone =>
        have hanswering := h.answering
        simp [hwriters, hnone, repliesIn] at hanswering
  have hanswering : s.answering = none := by
    cases hf : s.answering with
    | none => rfl
    | some f =>
      obtain ⟨answer, hanswer⟩ := Option.ne_none_iff_exists'.mp (h.obliged f hf).1
      have := h.answering
      simp [hwriters, hf, hanswer, repliesIn] at this
  refine ⟨hwriters, hanswering, ?_⟩
  have hread := hsettled .read trivial
  cases hreaders : s.readers with
  | nil => exact .inl rfl
  | cons i readers =>
    cases hincoming : s.incoming with
    | nil => exact .inr rfl
    | cons frame incoming =>
      simp only [step, hreaders, hanswering, hincoming] at hread
      split at hread <;> cases hread

/-! ### As if one task called after the other -/

/-- What a `recv` makes of its frame, or of the error for one. -/
def recvResult (onClose : UInt16 → String → ClientErr) : Except String Frame → Except ClientErr PyValue
  | .error e => .error (.runtimeError e)
  | .ok frame =>
    if frame.opcode = .close then
      let (code, reason) := parseClosePayload frame.payload
      .error (onClose code reason)
    else frameToPyObject frame

/-- One task that receives a number of times. -/
def receiveTimes (r : FrameReader) (onClose : UInt16 → String → ClientErr) :
    Nat → ClientStream → List (Except ClientErr PyValue)
  | 0, _ => []
  | n + 1, stream =>
    match ClientStream.receive r onClose stream with
    | (some result, stream) => result :: receiveTimes r onClose n stream
    | (none, _) => []

/-- A task gets what the reader has for it of the first frame. -/
theorem receive_received (onClose : UInt16 → String → ClientErr) {frame : Frame}
    {result : Except String Frame} (h : received r (frame, .done) = some result)
    (rest written : List Frame) :
    ∃ written', ClientStream.receive r onClose ⟨frame :: rest, written⟩ =
      (some (recvResult onClose result), ⟨rest, written'⟩) := by
  simp only [received] at h
  split at h
  · cases h
  · next hreading =>
    cases h
    simp only [ClientStream.receive, FrameReader.readFrame, hreading, recvResult]
    split <;> exact ⟨_, rfl⟩
  · next e hreading =>
    cases h
    simp only [ClientStream.receive, FrameReader.readFrame, hreading, recvResult]
    exact ⟨_, rfl⟩

theorem receive_passed (onClose : UInt16 → String → ClientErr) {frame : Frame}
    (h : received r (frame, .done) = none) (rest written : List Frame) :
    ∃ written', ClientStream.receive r onClose ⟨frame :: rest, written⟩ =
      ClientStream.receive r onClose ⟨rest, written'⟩ := by
  refine ⟨r.answer (fun frame written => written ++ [frame]) frame written, ?_⟩
  simp only [received] at h
  split at h
  · next hreading => simp only [ClientStream.receive, FrameReader.readFrame, hreading]
  · cases h
  · cases h

theorem receiveTimes_received (onClose : UInt16 → String → ClientErr) (frames rest written : List Frame) :
    let results := frames.filterMap fun frame => received r (frame, .done)
    receiveTimes r onClose results.length ⟨frames ++ rest, written⟩ =
      results.map (recvResult onClose) := by
  induction frames generalizing written with
  | nil => rfl
  | cons frame frames ih =>
    cases hframe : received r (frame, .done) with
    | some result =>
      obtain ⟨written', hreceive⟩ := receive_received onClose hframe (frames ++ rest) written
      simp only [List.filterMap_cons, hframe, List.length_cons, List.cons_append, receiveTimes,
        hreceive, ih, List.map_cons]
    | none =>
      obtain ⟨written', hreceive⟩ := receive_passed onClose hframe (frames ++ rest) written
      simp only [List.filterMap_cons, hframe, List.cons_append]
      rw [← ih written']
      cases (frames.filterMap fun frame => received r (frame, .done)).length with
      | zero => rfl
      | succ n => simp only [receiveTimes, hreceive]

/-- The results that the callers got of frames. -/
def results (s : ClientTasks) : List (Except String Frame) :=
  s.returned.filterMap fun e => e.2.result

/-- Where every frame was dealt with, the callers got what one task would have got. -/
theorem FramesKept.sequential (h : FramesKept r actions s) (hdone : ∀ d ∈ s.dealt, d.2 = .done)
    (onClose : UInt16 → String → ClientErr) :
    s.results.map (recvResult onClose) =
      receiveTimes r onClose s.results.length ⟨arrivals actions, []⟩ := by
  have hresults : s.results =
      (s.dealt.map Prod.fst).filterMap fun frame => received r (frame, .done) := by
    rw [results, h.returned, List.filterMap_map]
    refine List.filterMap_congr fun d hd => ?_
    obtain ⟨frame, fate⟩ := d
    obtain rfl : fate = .done := hdone _ hd
    rfl
  rw [hresults, ← h.arrived, met, List.append_assoc]
  exact (receiveTimes_received onClose _ _ _).symm

/-- **Tasks that share a client are served in their order, and all of them.** In every run, the
frames that came in are those that were read, the one being answered and the rest, in order. The
calls of `recv` end in the order in which they came to the lock, but for those that are cancelled,
and what they get are the frames that were read, in order, but for those that are the reader's own
business, and those whose `recv` gave up before it had answered: no more than ended at their time
or were cancelled. Every other frame that asks for an answer is answered, in order. Every call that
writes has its frame tried once, in the order in which they came to the lock, but for those that
are cancelled before, and ends as `write_frame` did. Where every frame that was read is dealt with,
the calls of `recv` together get what one task would get that calls one after the other. The tasks
go on until all that is to be written is written and no frame is left for those who wait for one. -/
theorem shared_client (r : FrameReader) (text : String) (actions : List Action) (s : ClientTasks)
    (h : run (step r text) init actions = some s) :
    (s.met ++ s.incoming = arrivals actions ∧ s.results = s.dealt.filterMap (received r) ∧
      s.dealt.countP (fun d => d.2 = .dropped) ≤ actions.countP Action.givesUp) ∧
    ((s.returned.map Prod.fst ++ s.readers).Sublist (List.range (recvsOf actions)) ∧
      (s.returned.map Prod.fst ++ s.readers ++ s.cancelled).Perm (List.range (recvsOf actions))) ∧
    (repliesTried s.tried = s.dealt.filterMap (answered r) ∧
      repliesIn s.writers = s.answering.toList.filterMap r.reply) ∧
    ((callsIn (s.tried.map Prod.fst) ++ callsIn s.writers).Sublist (askedBy actions) ∧
      (callsIn (s.tried.map Prod.fst) ++ callsIn s.writers ++ s.abandoned).Perm (askedBy actions) ∧
      s.ended = callsTried text s.tried) ∧
    ((∀ d ∈ s.dealt, d.2 = .done) → ∀ onClose : UInt16 → String → ClientErr,
      s.results.map (recvResult onClose) =
        receiveTimes r onClose s.results.length ⟨arrivals actions, []⟩) ∧
    (∀ more t, run (step r text) s more = some t → Meets (step r text) GoesOn s more →
      more.length + t.left ≤ s.left) ∧
    (Settled (step r text) GoesOn s →
      (callsIn (s.tried.map Prod.fst) ++ s.abandoned).Perm (askedBy actions) ∧
      s.answering = none ∧ (s.readers = [] ∨ s.dealt.map Prod.fst = arrivals actions)) := by
  have hs := run_kept h
  refine ⟨⟨hs.frames.arrived, hs.frames.returned, hs.frames.dropped⟩, ⟨hs.recvs.order, hs.recvs.all⟩,
    ⟨hs.frames.replies, hs.frames.answering⟩, ⟨hs.calls.order, hs.calls.all, hs.calls.ended⟩,
    hs.frames.sequential, fun more t hrun hmeets => ?_, fun hsettled => ?_⟩
  · refine length_add_rank_le (P := fun _ => True) (fun a s t _ hgo hstep => ?_) more trivial hmeets hrun
    exact ⟨trivial, step_left hgo (step_effect hstep)⟩
  · obtain ⟨hwriters, hanswering, hwaits⟩ := hs.frames.settled hsettled
    have hall := hs.calls.all
    rw [hwriters] at hall
    refine ⟨?_, hanswering, hwaits.imp_right fun hnone => ?_⟩
    · simpa [callsIn] using hall
    · have harrived := hs.frames.arrived
      rw [hnone, List.append_nil, met, hanswering] at harrived
      simpa using harrived

/-- A `recv` that answers a Ping behind a `send`, one that runs out of time with a Ping to answer,
and a `send` that fails. -/
def pingRun : List Action :=
  [.recv, .recv, .recv, .call (.send (.str "hi")), .arrive ⟨.ping, [1]⟩, .arrive ⟨.binary, [2]⟩, .read,
    .write none, .write none, .read, .arrive ⟨.ping, [3]⟩, .arrive ⟨.text, [97]⟩, .read, .timeout,
    .call (.send (.str "ho")), .write (some "Connection is closed"), .read]

theorem shared_client_ping :
    ∃ s, run (step .standard "") init pingRun = some s ∧
      (s.returned.map Prod.fst ++ s.readers).Sublist (List.range (recvsOf pingRun)) ∧
      s.returned = [(0, .frame (.ok ⟨.binary, [2]⟩)), (1, .timedOut), (2, .frame (.ok ⟨.text, [97]⟩))] ∧
      s.written.map Prod.snd = [⟨.text, [104, 105]⟩, ⟨.pong, [1]⟩] ∧
      s.ended = [(.send (.str "hi"), .ok ()),
        (.send (.str "ho"), .error (.runtimeError "Connection is closed"))] := by
  let s := (run (step .standard "") init pingRun).get (by decide)
  have hrun : run (step .standard "") init pingRun = some s := (Option.some_get _).symm
  exact ⟨s, hrun, (shared_client .standard "" pingRun s hrun).2.1.1, by decide, by decide, by decide⟩

end ClientTasks
end Webrockets
