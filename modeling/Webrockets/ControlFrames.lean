import Webrockets.FrameReader
import Webrockets.History
import Webrockets.Session

/-! What a server owes for control frames (`receive_listener` and `send_listener`).

A Ping is owed a Pong and a Close a Close. The reader of `receive_listener` makes the answers,
and `receive_listener` drops them: the writer belongs to `send_listener`, which has no message
for a Pong. So a Ping is never answered, and a Close only where the application has closed the
connection itself: `control_frames`. -/
namespace Webrockets
open Transition

/-- `&mut |_| async { Ok(()) }`. -/
def receiveSendFn (_ : Frame) (written : List Frame) : List Frame := written

/-- A connection and its two halves: the payloads of the Pings that its listener is past,
whether it has got a Close, the messages that `send_listener` has come to, and what has been
handed to the writer. -/
structure Wire where
  session : Session
  pings : List (List UInt8)
  closed : Bool
  sent : List Message
  written : List Frame

namespace Wire

def start (svc : Service) : Wire := ⟨.start svc, [], false, [], []⟩

inductive Action where
  /-- The reader of `receive_listener` comes to a frame. -/
  | frame (frame : Frame)
  | session (a : Session.Action)

/-- The message that `write_frame` is called for. -/
def takes (s : Wire) : Session.Action → List Message
  | .wrote _ => s.session.writing.toList
  | _ => []

/-- What a frame comes to at the session: nothing, or a turn with the frame or with an error. -/
def deliver (r : FrameReader) (svc : Service) (frame : Frame) (s : Session) : Option Session :=
  match r.reading frame with
  | .passed => some s
  | .returned => Session.step svc (.turn (some frame)) s
  | .refused _ => Session.step svc (.turn none) s

def step (r : FrameReader) (svc : Service) : Action → Wire → Option Wire
  | .frame frame, s =>
    if s.session.receiveTask.isPolled then
      (deliver r svc frame s.session).map fun session => { s with
          session := session
          pings :=
            if frame.opcode = .ping ∧ r.error frame = none then s.pings ++ [frame.payload] else s.pings
          closed := s.closed || (frame.opcode = .close ∧ r.returns frame = true)
          written := r.answer receiveSendFn frame s.written }
    else none
  -- frames come from the reader
  | .session (.turn (some _)), _ => none
  | .session a, s => (Session.step svc a s.session).map fun session => { s with
      session := session
      sent := s.sent ++ s.takes a
      written := s.written ++ (s.takes a).map Message.frame }

/-- What is owed: a Pong for every Ping, in their order, and a Close before the connection is
torn down after one. -/
structure Answered (s : Wire) : Prop where
  pongs : (s.written.filter fun frame => frame.opcode = .pong) =
    s.pings.map fun payload => ⟨.pong, payload⟩
  close : s.closed = true → s.session.handler ≠ .selecting →
    ∃ frame ∈ s.written, frame.opcode = .close

/-- The application has closed the connection. -/
def ClosedByServer (s : Wire) : Prop := ∃ m ∈ s.sent, m.isClose = true

/-- No Ping comes that the reader takes, and a connection that is torn down after a Close has been
closed by the application too. -/
def Excused (r : FrameReader) : Action → Wire → Prop
  | .frame frame, s => ¬(frame.opcode = .ping ∧ r.error frame = none) ∧
    (frame.opcode = .close ∧ r.returns frame = true → s.session.handler ≠ .selecting →
      s.ClosedByServer)
  | .session (.select _), s => s.closed = true → s.ClosedByServer
  | .session _, _ => True

instance (s : Wire) : Decidable s.ClosedByServer :=
  inferInstanceAs (Decidable (∃ m ∈ s.sent, m.isClose = true))

instance (r : FrameReader) : ∀ (a : Action) (s : Wire), Decidable (Excused r a s)
  | .frame frame, s => inferInstanceAs (Decidable (¬(frame.opcode = .ping ∧ r.error frame = none) ∧
      (frame.opcode = .close ∧ r.returns frame = true → s.session.handler ≠ .selecting →
        s.ClosedByServer)))
  | .session a, s =>
    match a with
    | .select _ => inferInstanceAs (Decidable (s.closed = true → s.ClosedByServer))
    | .put _ | .wake _ | .suspend _ | .recv | .wrote _ | .turn _ | .remove => isTrue trivial

/-! ### What a step does -/

variable {r : FrameReader} {svc : Service} {s t : Wire}

/-- The answer is dropped. -/
theorem answer_receiveSendFn (r : FrameReader) (frame : Frame) (written : List Frame) :
    r.answer receiveSendFn frame written = written := by
  unfold FrameReader.answer
  split <;> rfl

/-- Only `select` and `remove` take a handler on. -/
theorem handler_step {a : Session.Action} {u v : Session} (h : Session.step svc a u = some v) :
    v.handler = u.handler ∨ (∃ side, a = .select side) ∨ a = .remove ∧ u.handler ≠ .selecting := by
  cases a with
  | put m =>
    simp only [Session.step, Option.some.injEq] at h
    subst h
    split <;> exact .inl rfl
  | wake side | suspend side =>
    obtain ⟨task, _, rfl⟩ := Option.map_eq_some_iff.mp h
    cases side <;> exact .inl rfl
  | recv | wrote ok =>
    simp only [Session.step] at h
    split at h
    · cases h
      exact .inl rfl
    · cases h
  | turn frame =>
    simp only [Session.step] at h
    split at h
    · cases h
      exact .inl rfl
    · cases h
  | select side => exact .inr (.inl ⟨side, rfl⟩)
  | remove =>
    simp only [Session.step] at h
    split at h
    · next hremoving =>
      cases h
      exact .inr (.inr ⟨rfl, by simp [hremoving]⟩)
    · cases h

theorem handler_select {side : Session.Side} {u v : Session}
    (h : Session.step svc (.select side) u = some v) : v.handler ≠ .selecting := by
  simp only [Session.step] at h
  split at h
  · cases h
    simp
  · cases h

theorem handler_deliver {frame : Frame} {u v : Session} (h : deliver r svc frame u = some v) :
    v.handler = u.handler := by
  have hturn : ∀ {got : Option Frame}, Session.step svc (.turn got) u = some v →
      v.handler = u.handler := by
    intro got hstep
    rcases handler_step hstep with hsame | ⟨side, hselect⟩ | ⟨hremove, _⟩
    · exact hsame
    · cases hselect
    · cases hremove
  unfold deliver at h
  split at h
  · exact congrArg Session.handler (Option.some.inj h).symm
  · exact hturn h
  · exact hturn h

/-- A frame leaves the writer and the handler alone. -/
theorem step_frame {frame : Frame} (h : step r svc (.frame frame) s = some t) :
    t.written = s.written ∧ t.sent = s.sent ∧
      t.pings = (if frame.opcode = .ping ∧ r.error frame = none then s.pings ++ [frame.payload]
        else s.pings) ∧
      t.closed = (s.closed || (frame.opcode = .close ∧ r.returns frame = true)) ∧
      t.session.handler = s.session.handler := by
  simp only [step] at h
  split at h
  · obtain ⟨session, hsession, rfl⟩ := Option.map_eq_some_iff.mp h
    exact ⟨answer_receiveSendFn r frame s.written, rfl, rfl, rfl, handler_deliver hsession⟩
  · cases h

/-- `send_listener` hands its messages to the writer. -/
theorem step_session {a : Session.Action} (h : step r svc (.session a) s = some t) :
    Session.step svc a s.session = some t.session ∧ t.pings = s.pings ∧ t.closed = s.closed ∧
      t.sent = s.sent ++ s.takes a ∧ t.written = s.written ++ (s.takes a).map Message.frame := by
  by_cases hturn : ∃ frame, a = .turn (some frame)
  · obtain ⟨frame, rfl⟩ := hturn
    cases h
  · have hstep : step r svc (.session a) s = (Session.step svc a s.session).map fun session =>
        { s with
          session := session
          sent := s.sent ++ s.takes a
          written := s.written ++ (s.takes a).map Message.frame } := by
      cases a with
      | turn frame =>
        cases frame with
        | none => rfl
        | some frame => exact absurd ⟨frame, rfl⟩ hturn
      | _ => rfl
    rw [hstep] at h
    obtain ⟨session, hsession, rfl⟩ := Option.map_eq_some_iff.mp h
    exact ⟨hsession, rfl, rfl, rfl, rfl⟩

/-! ### What has been handed to the writer -/

/-- Only messages are written, and a message is no Pong. -/
def Relayed (s : Wire) : Prop := s.written = s.sent.map Message.frame

theorem step_relayed (a : Action) (s t : Wire) (hs : Relayed s) (h : step r svc a s = some t) :
    Relayed t := by
  unfold Relayed at hs ⊢
  cases a with
  | frame frame =>
    obtain ⟨hwritten, hsent, _⟩ := step_frame h
    rw [hwritten, hsent, hs]
  | session a =>
    obtain ⟨_, _, _, hsent, hwritten⟩ := step_session h
    rw [hwritten, hsent, hs, List.map_append]

theorem pongs_messages (messages : List Message) :
    ((messages.map Message.frame).filter fun frame => frame.opcode = .pong) = [] := by
  rw [List.filter_eq_nil_iff]
  intro frame hframe
  obtain ⟨m, _, rfl⟩ := List.mem_map.mp hframe
  cases m <;> simp [Message.frame, Frame.close]

theorem Relayed.closedByServer (hs : Relayed s) :
    s.ClosedByServer ↔ ∃ frame ∈ s.written, frame.opcode = .close := by
  rw [hs]
  simp only [ClosedByServer, List.mem_map, exists_exists_and_eq_and, Message.frame_opcode]

/-- What is owed to Pings is paid where there was none. -/
theorem Relayed.answered (hs : Relayed s) : Answered s ↔
    s.pings = [] ∧ (s.closed = true → s.session.handler ≠ .selecting → s.ClosedByServer) := by
  have hpongs : (s.written.filter fun frame => frame.opcode = .pong) = [] := by
    rw [hs, pongs_messages]
  constructor
  · intro h
    refine ⟨List.map_eq_nil_iff.mp (h.pongs.symm.trans hpongs), fun hclosed hhandler => ?_⟩
    exact hs.closedByServer.mpr (h.close hclosed hhandler)
  · rintro ⟨hpings, hclose⟩
    refine ⟨by rw [hpongs, hpings]; rfl, fun hclosed hhandler => ?_⟩
    exact hs.closedByServer.mp (hclose hclosed hhandler)

theorem ClosedByServer.mono (h : s.ClosedByServer) {more : List Message}
    (hsent : t.sent = s.sent ++ more) : t.ClosedByServer := by
  obtain ⟨m, hm, hclose⟩ := h
  exact ⟨m, by rw [hsent]; exact List.mem_append_left _ hm, hclose⟩

theorem excused_of_answered (a : Action) (s t : Wire) (hs : Relayed s)
    (h : step r svc a s = some t) (ht : Answered t) : Excused r a s := by
  have hrelayed := step_relayed a s t hs h
  obtain ⟨hpings, hclose⟩ := hrelayed.answered.mp ht
  cases a with
  | frame frame =>
    obtain ⟨_, hsent, hping, hclosed, hhandler⟩ := step_frame h
    refine ⟨fun hop => ?_, fun hop htorn => ?_⟩
    · rw [hping, if_pos hop] at hpings
      simp at hpings
    · have hclosed' : t.closed = true := by simp [hclosed, hop]
      obtain ⟨m, hm, hm'⟩ := hclose hclosed' (hhandler ▸ htorn)
      exact ⟨m, hsent ▸ hm, hm'⟩
  | session a =>
    obtain ⟨hstep, _, hclosed, hsent, _⟩ := step_session h
    cases a with
    | select side =>
      intro hs'
      have htorn := handler_select hstep
      obtain ⟨m, hm, hm'⟩ := hclose (hclosed ▸ hs') htorn
      exact ⟨m, by simpa [hsent, takes] using hm, hm'⟩
    | _ => trivial

theorem answered_of_excused (a : Action) (s t : Wire) (hs : Relayed s ∧ Answered s)
    (hexcused : Excused r a s) (h : step r svc a s = some t) : Relayed t ∧ Answered t := by
  have hrelayed := step_relayed a s t hs.1 h
  obtain ⟨hpings, hclose⟩ := hs.1.answered.mp hs.2
  refine ⟨hrelayed, hrelayed.answered.mpr ?_⟩
  cases a with
  | frame frame =>
    obtain ⟨_, hsent, hping, hclosed, hhandler⟩ := step_frame h
    rw [hping, if_neg hexcused.1, hclosed, hhandler]
    refine ⟨hpings, fun hclosed' htorn => ?_⟩
    have hserver : s.ClosedByServer := by
      rcases Bool.or_eq_true_iff.mp hclosed' with hearlier | hnow
      · exact hclose hearlier htorn
      · exact hexcused.2 (of_decide_eq_true hnow) htorn
    exact hserver.mono (hsent.trans (List.append_nil _).symm)
  | session a =>
    obtain ⟨hstep, hpings', hclosed, hsent, _⟩ := step_session h
    rw [hpings', hclosed]
    refine ⟨hpings, fun hclosed' htorn => ?_⟩
    have hserver : s.ClosedByServer := by
      rcases handler_step hstep with hsame | ⟨side, rfl⟩ | ⟨rfl, htorn'⟩
      · exact hclose hclosed' (hsame ▸ htorn)
      · exact hexcused hclosed'
      · exact hclose hclosed' htorn'
    exact hserver.mono hsent

/-- **What control frames are answered with.** All along a run a Ping has been answered once the
listener is past it, and a Close before the connection is torn down, exactly where no Ping
comes, and the application has closed every connection that is torn down after a Close. -/
theorem control_frames (r : FrameReader) (svc : Service) (actions : List Action) (t : Wire)
    (h : run (step r svc) (start svc) actions = some t) :
    Always (step r svc) Answered (start svc) actions ↔
      Meets (step r svc) (Excused r) (start svc) actions := by
  have hrelayed : Relayed (start svc) := rfl
  have hanswered : Answered (start svc) := ⟨rfl, fun hclosed => nomatch hclosed⟩
  constructor
  · intro halways
    have hall : Always (step r svc) Relayed (start svc) actions :=
      always_of_invariant step_relayed actions hrelayed
    exact meets_of_always (fun a s t hs ht hgood => excused_of_answered a s t hs.1 ht hgood.2)
      actions h (always_and hall halways)
  · intro hmeets
    exact always_mono (fun _ hs => hs.2)
      (always_of_meets answered_of_excused actions hmeets ⟨hrelayed, hanswered⟩)

/-- A connection without callbacks. -/
def quietService : Service :=
  ⟨plainPython, constantSerde chatMessage, none, ⟨none, none, .empty⟩, none⟩

/-- The application closes the connection, the peer answers, and it is torn down. -/
def closes : List Action :=
  [.session (.put (.close 1000 [])), .session (.wake .send), .session .recv, .session (.wrote true),
    .session (.wake .receive), .frame ⟨.text, [104, 105]⟩, .frame ⟨.close, []⟩,
    .session (.select .receive)]

theorem control_frames_closed :
    Always (step .standard quietService) Answered (start quietService) closes := by
  obtain ⟨t, ht⟩ : ∃ t, run (step .standard quietService) (start quietService) closes = some t :=
    ⟨_, rfl⟩
  exact (control_frames .standard quietService closes t ht).mpr (by decide)

/-- A Ping is passed over without a Pong, and a connection is torn down after a Close without
another one. -/
theorem control_frames_unanswered :
    (∃ t, run (step .standard quietService) (start quietService)
        [.session (.wake .receive), .frame ⟨.ping, [7]⟩] = some t ∧
      t.pings = [[7]] ∧ t.written = []) ∧
    (∃ t, run (step .standard quietService) (start quietService)
        [.session (.wake .receive), .frame ⟨.close, []⟩, .session (.select .receive),
          .session .remove] = some t ∧
      t.closed = true ∧ t.session.handler = .returned ∧ t.written = []) ∧
    ¬ ∀ (actions : List Action) (t : Wire),
      run (step .standard quietService) (start quietService) actions = some t →
      Always (step .standard quietService) Answered (start quietService) actions := by
  have hping : ∃ t, run (step .standard quietService) (start quietService)
      [.session (.wake .receive), .frame ⟨.ping, [7]⟩] = some t ∧
        t.pings = [[7]] ∧ t.written = [] := ⟨_, rfl, rfl, rfl⟩
  refine ⟨hping, ⟨_, rfl, rfl, rfl, rfl⟩, fun hall => ?_⟩
  obtain ⟨t, ht, hpings, hwritten⟩ := hping
  have hpongs := (always_last (hall _ t ht) ht).pongs
  rw [hpings, hwritten] at hpongs
  cases hpongs

end Wire
end Webrockets
