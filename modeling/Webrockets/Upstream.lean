import Webrockets.ClientTasks
import Webrockets.CloseInfo

/-! From a call on a client to the callbacks of the server at the other end.

Each call of a client that writes has something it comes to at the server (`atServer`): a
message goes to the receive callbacks, a Close to the disconnect callback, a Ping or a Pong to
nobody. What the server's reader refuses comes to nothing, and its listener ends there. `upstream`
puts the tasks that share the client together with the tasks of the server's connection: what is
called at the server is what the calls of the client come to, in their order, up to the first
Close or frame that is refused. -/
namespace Webrockets
open Transition

/-- What a call of the client comes to at the server. -/
def WriteCall.atServer (svc : Service) : WriteCall → List Invocation
  | .send (.str s) => svc.receiveCallback.onText svc.py svc.serde s
  | .send (.bytes b) => svc.receiveCallback.onBinary b
  | .send _ => []
  | .ping _ => []
  | .pong _ => []
  | .close code reason => svc.disconnectCallback.toList.map fun cb => ⟨cb, .disconnect code reason⟩
  | .exit raised => svc.disconnectCallback.toList.map fun cb =>
      ⟨cb, .disconnect (if raised then closeError else closeNormal) ""⟩

/-- What a frame of the client comes to there. -/
def atServer (r : FrameReader) (svc : Service) : Origin × Frame → List Invocation
  | (.call c, frame) => if (r.error frame).isSome then [] else c.atServer svc
  | (.reply, frame) => handled r svc frame

/-! ### One call -/

section Calls
variable {r : FrameReader} {svc : Service}

/-- A frame that is read is handled as it says. -/
theorem handled_reads {frame : Frame} (h : r.Reads frame)
    (hop : frame.opcode = .text ∨ frame.opcode = .binary) : handled r svc frame =
      (turn svc.py svc.serde svc.receiveCallback svc.disconnectCallback (some frame)).1 := by
  have hreading : r.reading frame = .returned := by
    unfold FrameReader.Reads at h
    rcases hop with hop | hop <;> (rw [hop] at h; exact h.2)
  rw [handled, hreading]

theorem handled_ping (hr : r.Lawful) (payload : List UInt8) : handled r svc ⟨.ping, payload⟩ = [] := by
  rcases hr.reads ⟨.ping, payload⟩ with hreads | ⟨e, he⟩
  · rw [handled, hreads.2]
  · exact handled_refused he

theorem handled_pong (payload : List UInt8) : handled r svc ⟨.pong, payload⟩ = [] := by
  unfold handled
  split <;> rfl

/-- The disconnect callback gets the code and the reason of a Close that is not refused. -/
theorem handled_close_frame (hr : r.Lawful) {code : UInt16} {reason : String}
    (h : r.error (.close code reason.toUTF8.data.toList) = none) :
    handled r svc (.close code reason.toUTF8.data.toList) =
      svc.disconnectCallback.toList.map fun cb => ⟨cb, .disconnect code reason⟩ := by
  have hreturns : r.returns ⟨.close, (Frame.close code reason.toUTF8.data.toList).payload⟩ = true := by
    rcases hr.reads (.close code reason.toUTF8.data.toList) with hreads | ⟨e, he⟩
    · exact decide_eq_true hreads.2
    · rw [FrameReader.error_eq_some.mpr he] at h
      cases h
  have hcalls := handled_returned_close svc hr hreturns
  rw [parseClosePayload_close] at hcalls
  exact hcalls

/-- A frame that a call writes is handled as the call says, unless it is refused. -/
theorem handled_call (hr : r.Lawful) {c : WriteCall} {frame : Frame} (h : c.frame = .ok frame) :
    handled r svc frame = atServer r svc (.call c, frame) := by
  have hcontrol : ∀ {opcode : OpCode} {data : Option PyValue},
      (controlPayload data).map (⟨opcode, ·⟩) = .ok frame → ∃ payload, frame = ⟨opcode, payload⟩ := by
    intro opcode data hdata
    cases hpayload : controlPayload data with
    | error e => simp [hpayload, Except.map] at hdata
    | ok payload =>
      rw [hpayload] at hdata
      exact ⟨payload, (Except.ok.inj hdata).symm⟩
  show _ = if (r.error frame).isSome then [] else c.atServer svc
  cases herror : r.error frame with
  | some e => exact handled_refused (FrameReader.error_eq_some.mp herror)
  | none =>
    have hreads : r.Reads frame := by
      rcases hr.reads frame with hreads | ⟨e, he⟩
      · exact hreads
      · rw [FrameReader.error_eq_some.mpr he] at herror
        cases herror
    cases c with
    | send data =>
      cases data with
      | str s =>
        cases h
        rw [handled_reads hreads (.inl rfl)]
        exact congrArg Prod.fst
          (turn_text svc.py svc.serde svc.receiveCallback svc.disconnectCallback s)
      | bytes b =>
        cases h
        rw [handled_reads hreads (.inr rfl)]
        rfl
      | surrogateStr | other => cases h
    | ping data =>
      obtain ⟨payload, rfl⟩ := hcontrol h
      exact handled_ping hr payload
    | pong data =>
      obtain ⟨payload, rfl⟩ := hcontrol h
      exact handled_pong payload
    | close code reason =>
      cases h
      exact handled_close_frame hr herror
    | exit raised =>
      cases h
      exact handled_close_frame hr
        (show r.error (.close _ "".toUTF8.data.toList) = none from herror)

end Calls

/-! ### The server's side -/

namespace Wire
variable {r : FrameReader} {svc : Service} {s t : Wire}

/-- The frames that the reader of `receive_listener` comes to. -/
def come (actions : List Action) : List Frame :=
  actions.filterMap fun a => match a with
    | .frame frame => some frame
    | .session _ => none

/-- The listener ends at the frame. -/
def Ends (r : FrameReader) (frame : Frame) : Prop := frame.opcode = .close ∨ r.error frame ≠ none

/-- The calls are those for the frames, and the listener is done with a Close. -/
structure Served (r : FrameReader) (svc : Service) (frames : List Frame) (s : Wire) : Prop where
  calls : s.session.calls = (Session.start svc).calls ++ frames.flatMap (handled r svc)
  closed : ∀ frame ∈ frames, Ends r frame → s.session.receiveTask.ended = true
  last : ∀ frame ∈ frames.dropLast, ¬ Ends r frame

theorem start_served (r : FrameReader) (svc : Service) : Served r svc [] (start svc) :=
  ⟨(List.append_nil _).symm, fun _ h => (nomatch h), fun _ h => nomatch h⟩

/-- A listener that reads has come to no end. -/
theorem Served.reading {frames : List Frame} (h : Served r svc frames s)
    (hpolled : s.session.receiveTask.isPolled = true) : ∀ frame ∈ frames, ¬ Ends r frame := by
  intro frame hframe hends
  have hended := h.closed frame hframe hends
  rw [AbortableTask.not_ended_of_polled hpolled] at hended
  cases hended

/-- A Close, or a frame that is refused, ends the listener. -/
theorem ended_deliver (hr : r.Lawful) {frame : Frame} {u v : Session} (hends : Ends r frame)
    (h : deliver r svc frame u = some v) : v.receiveTask.ended = true := by
  have hturn : ∀ {got : Option Frame}, Session.step svc (.turn got) u = some v →
      (turn svc.py svc.serde svc.receiveCallback svc.disconnectCallback got).2 = false →
      v.receiveTask.ended = true := by
    intro got hstep hlast
    rw [(Session.turn_some hstep).2.2, hlast]
    exact AbortableTask.ended_finish
  unfold deliver at h
  obtain ⟨opcode, payload⟩ := frame
  rcases hends with hclose | hrefused
  · obtain rfl : opcode = .close := hclose
    rcases hr.reading_close payload with ⟨hreading, _⟩ | ⟨e, hreading⟩
    · rw [hreading] at h
      exact hturn h rfl
    · rw [hreading] at h
      exact hturn h rfl
  · obtain ⟨e, he⟩ := Option.ne_none_iff_exists'.mp hrefused
    rw [FrameReader.error_eq_some.mp he] at h
    exact hturn h rfl

theorem Served.frame {frames : List Frame} {frame : Frame} (hr : r.Lawful) (h : Served r svc frames s)
    (hstep : step r svc (.frame frame) s = some t) : Served r svc (frames ++ [frame]) t := by
  simp only [step] at hstep
  split at hstep
  · next hpolled =>
    have hreading := h.reading hpolled
    obtain ⟨session, hsession, rfl⟩ := Option.map_eq_some_iff.mp hstep
    refine ⟨?_, fun f hf hends => ?_, fun f hf => ?_⟩
    · show session.calls = _
      rw [calls_deliver hsession, h.calls, List.flatMap_append, List.append_assoc,
        List.flatMap_singleton]
    · rcases List.mem_append.mp hf with hf | hf
      · exact absurd hends (hreading f hf)
      · obtain rfl := List.mem_singleton.mp hf
        exact ended_deliver hr hends hsession
    · rw [List.dropLast_concat] at hf
      exact hreading f hf
  · cases hstep

theorem Served.session {frames : List Frame} {a : Session.Action} (h : Served r svc frames s)
    (hstep : step r svc (.session a) s = some t) : Served r svc frames t := by
  have hsession := (step_session hstep).1
  have hquiet : t.session.calls = s.session.calls ∧
      (s.session.receiveTask.ended = true → t.session.receiveTask.ended = true) := by
    cases a with
    | turn frame =>
      cases frame with
      | some frame => cases hstep
      | none =>
        obtain ⟨hpolled, hcalls, _⟩ := Session.turn_some hsession
        refine ⟨hcalls.trans (List.append_nil _), fun hended => ?_⟩
        rw [AbortableTask.not_polled_of_ended hended] at hpolled
        cases hpolled
    | _ => exact Session.step_quiet (fun _ he => by cases he) hsession
  exact ⟨hquiet.1.trans h.calls, fun frame hf hends => hquiet.2 (h.closed frame hf hends), h.last⟩

theorem run_served {actions : List Action} (hr : r.Lawful)
    (h : run (step r svc) (start svc) actions = some t) : Served r svc (come actions) t := by
  refine run_history (P := fun actions t => Served r svc (come actions) t) (start_served r svc)
    (fun actions a m t _ hm ht => ?_) actions h
  have hcome : come (actions ++ [a]) = come actions ++ come [a] := List.filterMap_append
  rw [hcome]
  cases a with
  | frame frame => exact hm.frame hr ht
  | session a => exact (List.append_nil (come actions)).symm ▸ hm.session ht

end Wire

/-! ### Both sides -/

/-- What the calls of a client have handed to its writer is handled as they say. -/
theorem handled_written {r : FrameReader} (hr : r.Lawful) (svc : Service) {entries : List (Origin × Frame)}
    (h : ∀ c frame, (c, frame) ∈ ClientTasks.callsIn entries → c.frame = .ok frame) :
    (entries.map Prod.snd).flatMap (handled r svc) = entries.flatMap (atServer r svc) := by
  rw [List.flatMap_map]
  refine List.flatMap_congr fun e he => ?_
  obtain ⟨origin, frame⟩ := e
  cases origin with
  | reply => rfl
  | call c => exact handled_call hr (h c frame (List.mem_filterMap.mpr ⟨_, he, rfl⟩))

/-- A call that was asked for has its frame. -/
theorem frame_of_asked {actions : List ClientTasks.Action} {c : WriteCall} {frame : Frame}
    (h : (c, frame) ∈ ClientTasks.askedBy actions) : c.frame = .ok frame := by
  obtain ⟨a, _, ha⟩ := List.mem_filterMap.mp h
  cases a with
  | call c' =>
    cases hframe : c'.frame with
    | error e => simp [hframe] at ha
    | ok frame' =>
      simp only [hframe, Option.some.injEq, Prod.mk.injEq] at ha
      obtain ⟨rfl, rfl⟩ := ha
      exact hframe
  | _ => cases ha

/-- What is written are calls that were asked for, in their order. -/
theorem callsIn_written {r : FrameReader} {text : String} {actions : List ClientTasks.Action}
    {c : ClientTasks} (h : ClientTasks.Kept r text actions c) :
    (ClientTasks.callsIn c.written).Sublist (ClientTasks.askedBy actions) :=
  ((List.filter_sublist.map Prod.fst).filterMap _).trans
    ((List.sublist_append_left _ _).trans h.calls.order)

/-- **What a client's calls send is what the server's callbacks get.** Whatever tasks share the
client and whatever the tasks of the server's connection do: where its listener has come to some of
the frames that the client has written, what has been called since `connect_after` is what they come
to, one after the other. The calls of the client among them are calls that it has made, in their
order, and only the last of the frames can be a Close or one that is refused. No frame within the
limits is refused; a Close with a code that is not allowed always is. -/
theorem upstream (r r' : FrameReader) (hr' : r'.Lawful) (svc : Service) (text : String)
    (clientActions : List ClientTasks.Action) (c : ClientTasks)
    (hc : run (ClientTasks.step r text) ClientTasks.init clientActions = some c)
    (serverActions : List Wire.Action) (w : Wire)
    (hw : run (Wire.step r' svc) (Wire.start svc) serverActions = some w)
    (hwire : Wire.come serverActions <+: c.written.map Prod.snd) :
    ∃ got, got <+: c.written ∧ Wire.come serverActions = got.map Prod.snd ∧
      w.session.calls = (Session.start svc).calls ++ got.flatMap (atServer r' svc) ∧
      (ClientTasks.callsIn got).Sublist (ClientTasks.askedBy clientActions) ∧
      (∀ e ∈ got.dropLast, e.2.opcode ≠ .close ∧ r'.error e.2 = none) ∧
      (∀ e ∈ got, Acceptable r'.maxMessageSize e.2 → r'.error e.2 = none) ∧
      ∀ code reason frame, (.call (.close code reason), frame) ∈ got → isAllowed code = false →
        r'.error frame ≠ none := by
  have hserved := Wire.run_served hr' hw
  have hkept := ClientTasks.run_kept hc
  obtain ⟨got, hgot, hcome⟩ := List.prefix_map_iff.mp hwire
  have hcalls : (ClientTasks.callsIn got).Sublist (ClientTasks.askedBy clientActions) :=
    (hgot.sublist.filterMap _).trans (callsIn_written hkept)
  refine ⟨got, hgot, hcome, ?_, hcalls, fun e he => ?_, fun e he hacceptable => ?_,
    fun code reason frame he hcode => ?_⟩
  · rw [hserved.calls, hcome]
    exact congrArg _ (handled_written hr' svc fun c frame h => frame_of_asked (hcalls.subset h))
  · have hlast := hserved.last e.2 (by
      rw [hcome, ← List.map_dropLast]
      exact List.mem_map.mpr ⟨e, he, rfl⟩)
    rw [Wire.Ends, not_or, not_not] at hlast
    exact hlast
  · cases herror : r'.error e.2 with
    | none => rfl
    | some text =>
      exact absurd (FrameReader.error_eq_some.mp herror) (hr'.acceptable e.2 hacceptable _)
  · have hasked : (.close code reason, frame) ∈ ClientTasks.callsIn got :=
      List.mem_filterMap.mpr ⟨_, he, rfl⟩
    cases frame_of_asked (hcalls.subset hasked)
    obtain ⟨e, hreading⟩ := hr'.refused_close hcode reason
    rw [FrameReader.error_eq_some.mpr hreading]
    exact Option.some_ne_none e

/-- A generic handler and a disconnect callback. -/
def echoService : Service :=
  ⟨plainPython, constantSerde chatMessage, none, ⟨some ⟨1, false⟩, none, .empty⟩, some ⟨2, false⟩⟩

/-- A message, a Ping, and the block is left by an exception. -/
def blockRun : List ClientTasks.Action :=
  [.call (.send (.str "hi")), .call (.ping none), .call (.exit true), .write none, .write none,
    .write none]

theorem upstream_block :
    ∃ c w got, run (ClientTasks.step .standard "") ClientTasks.init blockRun = some c ∧
      run (Wire.step .standard echoService) (Wire.start echoService)
        [.session (.wake .receive), .frame ⟨.text, [104, 105]⟩, .frame ⟨.ping, []⟩,
          .frame (.close 1011 [])] = some w ∧
      got <+: c.written ∧ w.session.calls = (Session.start echoService).calls ++
        got.flatMap (atServer .standard echoService) ∧
      w.session.calls = [⟨⟨1, false⟩, .receive (.text "hi")⟩, ⟨⟨2, false⟩, .disconnect 1011 ""⟩] := by
  let c := (run (ClientTasks.step .standard "") ClientTasks.init blockRun).get (by decide)
  have hc : run (ClientTasks.step .standard "") ClientTasks.init blockRun = some c :=
    (Option.some_get _).symm
  obtain ⟨w, hw, hcalls⟩ : ∃ w, run (Wire.step .standard echoService) (Wire.start echoService)
      [.session (.wake .receive), .frame ⟨.text, [104, 105]⟩, .frame ⟨.ping, []⟩,
        .frame (.close 1011 [])] = some w ∧
      w.session.calls = [⟨⟨1, false⟩, .receive (.text "hi")⟩, ⟨⟨2, false⟩, .disconnect 1011 ""⟩] :=
    ⟨_, rfl, by decide⟩
  obtain ⟨got, hgot, _, hall, _⟩ := upstream .standard .standard FrameReader.standard_lawful
    echoService "" blockRun c hc _ w hw (by decide)
  exact ⟨c, w, got, hc, hw, hgot, hall, hcalls⟩

end Webrockets
