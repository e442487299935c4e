import Webrockets.Order
import Webrockets.Client

/-! The control frames that an endpoint hands to `write_frame`.

`close`, `ping` and `pong` do not look at their arguments. A frame has what the call was given, at
the server after its way through the queue, and it is valid where that is within the limits of
the protocol: `control_frames_as_asked`. -/
namespace Webrockets
open Transition Outbox

/-! ### Valid control frames -/

/-- The codes that an endpoint may send. -/
def AllowedCode (code : UInt16) : Prop :=
  1000 ≤ code.toNat ∧ code ≠ 1005 ∧ code ≠ 1006 ∧ code ≠ 1015

instance (code : UInt16) : Decidable (AllowedCode code) := inferInstanceAs (Decidable (_ ∧ _))

def OpCode.isControl : OpCode → Bool
  | .close | .ping | .pong => true
  | _ => false

structure ValidControl (frame : Frame) : Prop where
  short : frame.payload.length ≤ 125
  code : ∀ code reason, frame = .close code reason → AllowedCode code

theorem validControl_close {code : UInt16} {reason : List UInt8} :
    ValidControl (.close code reason) ↔ reason.length ≤ 123 ∧ AllowedCode code := by
  have hlength : (Frame.close code reason).payload.length = reason.length + 2 := rfl
  constructor
  · intro h
    have hshort := h.short
    exact ⟨by omega, h.code code reason rfl⟩
  · rintro ⟨hshort, hcode⟩
    refine ⟨by omega, fun code' reason' hsame => ?_⟩
    have hargs : (code, reason) = (code', reason') := by
      rw [← closeArgs_close, hsame, closeArgs_close]
    cases hargs
    exact hcode

theorem validControl_of_not_close {opcode : OpCode} (hop : opcode ≠ .close) {payload : List UInt8} :
    ValidControl ⟨opcode, payload⟩ ↔ payload.length ≤ 125 := by
  refine ⟨ValidControl.short, fun h => ⟨h, fun code reason hsame => ?_⟩⟩
  exact absurd (congrArg Frame.opcode hsame) hop

/-- What may be asked of a close. -/
def CloseWithin (code : UInt16) (reason : String) : Prop :=
  reason.utf8ByteSize ≤ 123 ∧ AllowedCode code

instance (code : UInt16) (reason : String) : Decidable (CloseWithin code reason) :=
  inferInstanceAs (Decidable (_ ∧ _))

def closeMessage (code : UInt16) (reason : String) : Message :=
  .close code reason.toUTF8.data.toList

theorem validControl_closeMessage {code : UInt16} {reason : String} :
    ValidControl (closeMessage code reason).frame ↔ CloseWithin code reason :=
  validControl_close

/-! ### At the server -/

/-- What a call closes its connection with. -/
def Connection.Method.closing : Connection.Method → Option (UInt16 × String)
  | .close code reason => some (code, reason)
  | .aclose code reason => some (code, reason)
  | _ => none

namespace Server

/-- Some call of the run has closed the connection with this message. -/
def Asked (actions : List Action) (tx : Sender) (message : Message) : Prop :=
  ∃ caller ctx m code reason, Action.call caller ctx tx m ∈ actions ∧
    m.closing = some (code, reason) ∧ message = closeMessage code reason

/-- Whatever closes a connection is from a call that does. -/
structure Sourced (actions : List Action) (s : Server) : Prop where
  own : ∀ conn tx, (s.handle conn).sender = some tx → conn = tx
  loops : ∀ caller l, s.loop caller = some l → l.request.message.isClose = false
  closes : ∀ tx, ∀ c ∈ (s.outgoing.account tx).accepted, c.value.message.isClose = true →
    Asked actions tx c.value.message

theorem init_sourced (actions : List Action) : Sourced actions init :=
  ⟨fun _ _ h => (nomatch h), fun _ _ h => (nomatch h), fun _ _ h => nomatch h⟩

/-- Only `handle_client` sets a sender, the connection's own. -/
theorem step_handle {a : Action} {s t : Server} (h : step a s = some t) :
    t.handle = s.handle ∨
      ∃ tx, t.handle = set s.handle tx ((s.handle tx).establish tx (s.channelId tx)) := by
  cases a with
  | establish tx =>
    obtain ⟨_, _, rfl⟩ := establish_some h
    exact .inr ⟨tx, rfl⟩
  | registry ra =>
    obtain ⟨_, _, rfl⟩ := registry_some h
    exact .inl rfl
  | spawn tx =>
    obtain ⟨_, _, rfl⟩ := spawn_some h
    exact .inl rfl
  | call caller ctx conn m =>
    obtain ⟨_, rfl⟩ := call_some h
    exact .inl rfl
  | broadcast caller ctx b =>
    obtain ⟨_, rfl | ⟨_, _, _, rfl⟩⟩ := broadcast_some h <;> exact .inl rfl
  | enterGroup caller =>
    obtain ⟨_, _, _, _, _, _, _, rfl⟩ := enterGroup_some h
    exact .inl rfl
  | visit caller id =>
    obtain ⟨_, _, _, _, _, _, _, rfl⟩ := visit_some h
    exact .inl rfl
  | leaveGroup caller =>
    obtain ⟨_, _, _, _, _, rfl⟩ := leaveGroup_some h
    exact .inl rfl
  | finish caller =>
    obtain ⟨_, _, _, _, rfl⟩ := finish_some h
    exact .inl rfl
  | poll i =>
    obtain ⟨_, _, rfl⟩ := poll_some h
    exact .inl rfl
  | cancel i =>
    obtain ⟨_, _, rfl⟩ := cancel_some h
    exact .inl rfl
  | receive tx =>
    obtain ⟨_, _, _, _, rfl⟩ := receive_some h
    exact .inl rfl
  | wrote tx ok =>
    obtain ⟨_, _, ⟨_, _, rfl⟩ | rfl⟩ := wrote_some h <;> exact .inl rfl
  | abort tx =>
    obtain ⟨_, _, rfl⟩ := abort_some h
    exact .inl rfl

/-- No broadcast closes a connection. -/
theorem args_not_close {handle : Sender → Connection} {b : Broadcast} {message : Message}
    {exclude : Option ConnectionID} (h : b.args handle = .ok (message, exclude)) :
    message.isClose = false := by
  have htry : ∀ conn msg excludeSelf,
      (handle conn).broadcastArgs msg excludeSelf = .ok (message, exclude) →
      message.isClose = false := by
    intro conn msg excludeSelf hargs
    unfold Connection.broadcastArgs at hargs
    cases htry : Message.tryFrom msg with
    | error e => simp [htry] at hargs
    | ok m =>
      simp only [htry] at hargs
      split at hargs
      · cases hargs
        exact Message.tryFrom_not_close htry
      · cases hargs
  cases b with
  | broadcast conn groups msg excludeSelf => exact htry conn msg excludeSelf h
  | abroadcast conn groups msg excludeSelf => exact htry conn msg excludeSelf h
  | dispatch groups message' =>
    cases h
    rfl

/-- A broadcast that has just begun. -/
theorem message_of_begun {a : Action} {s t : Server} (h : step a s = some t) {caller : Nat}
    {l : Loop} (hnone : s.loop caller = none) (hcalls : t.calls = s.calls + 1)
    (hl : t.loop caller = some l) : l.request.message.isClose = false := by
  cases a with
  | broadcast caller' ctx b =>
    obtain ⟨_, rfl | ⟨message, exclude, hargs, rfl⟩⟩ := broadcast_some h
    · rw [hnone] at hl
      cases hl
    · by_cases hcaller : caller = caller'
      · subst hcaller
        cases (set_self s.loop caller _).symm.trans hl
        exact args_not_close hargs
      · have hsame := (set_of_ne s.loop hcaller _).symm.trans hl
        rw [hnone] at hsame
        cases hsame
  | call caller' ctx conn m =>
    rw [(step_untouched h).loop rfl, hnone] at hl
    cases hl
  | _ =>
    have hkept := (step_untouched h).calls rfl
    omega

theorem enqueue_given {ctx : Context} {tx k : Sender} {r : Request} {o : Outgoing} {c : Copy Request}
    (hc : c ∈ ((enqueue ctx tx r o).2.account k).accepted) :
    c ∈ (o.account k).accepted ∨ c.value = r := by
  have hdefer : ∀ future, c ∈ ((o.defer future r [tx]).account k).accepted →
      c ∈ (o.account k).accepted ∨ c.value = r :=
    fun future hc => ((defer_feed o future r [tx] k).given hc).imp_right And.right
  unfold enqueue at hc
  cases hput : o.put tx r with
  | ok o' =>
    simp only [hput] at hc
    exact ((put_feed hput k).given hc).imp_right And.right
  | error e =>
    cases e with
    | full =>
      simp only [hput] at hc
      split at hc
      · split at hc
        · exact hdefer true hc
        · exact .inl hc
      · split at hc
        · exact hdefer false hc
        · exact .inl hc
    | closed =>
      simp only [hput] at hc
      exact .inl hc

/-- A call that closes a connection gives it the message it was asked for, and the others give it
none that closes. -/
theorem invoke_given {conn : Connection} {call : Call} {m : Connection.Method} {o : Outgoing}
    {k : Sender} {c : Copy Request} (hc : c ∈ ((conn.invoke call m o).2.account k).accepted)
    (hclose : c.value.message.isClose = true) :
    c ∈ (o.account k).accepted ∨
      ∃ code reason, m.closing = some (code, reason) ∧ c.value.message = closeMessage code reason := by
  have hsend : ∀ future msg, c ∈ ((conn.sendVia future call msg o).2.account k).accepted →
      c ∈ (o.account k).accepted := by
    intro future msg hc
    unfold Connection.sendVia at hc
    cases hsender : conn.sender with
    | none =>
      simpa only [hsender] using hc
    | some tx =>
      cases htry : Message.tryFrom msg with
      | error e => simpa only [hsender, htry] using hc
      | ok message =>
        simp only [hsender, htry] at hc
        refine (enqueue_given hc).resolve_right fun hvalue => ?_
        rw [hvalue] at hclose
        simp [Message.tryFrom_not_close htry] at hclose
  have hcloses : ∀ future code reason,
      c ∈ ((conn.closeVia future call code reason o).2.account k).accepted →
      c ∈ (o.account k).accepted ∨ c.value.message = closeMessage code reason := by
    intro future code reason hc
    unfold Connection.closeVia at hc
    cases hsender : conn.sender with
    | none => exact .inl (by simpa only [hsender] using hc)
    | some tx =>
      simp only [hsender] at hc
      exact (enqueue_given hc).imp_right fun hvalue => by rw [hvalue]; rfl
  cases m with
  | send msg => exact .inl (hsend false msg hc)
  | asend msg => exact .inl (hsend true msg hc)
  | close code reason => exact (hcloses false code reason hc).imp_right fun h => ⟨code, reason, rfl, h⟩
  | aclose code reason => exact (hcloses true code reason hc).imp_right fun h => ⟨code, reason, rfl, h⟩

theorem step_sourced {actions : List Action} (a : Action) (s t : Server) (hs : Sourced actions s)
    (ha : a ∈ actions) (h : step a s = some t) : Sourced actions t where
  own := by
    intro conn tx hsender
    rcases step_handle h with hsame | ⟨tx', hset⟩
    · exact hs.own conn tx (hsame ▸ hsender)
    · rw [hset] at hsender
      by_cases hconn : conn = tx'
      · subst hconn
        rw [set_self] at hsender
        exact Option.some.inj hsender
      · rw [set_of_ne _ hconn] at hsender
        exact hs.own conn tx hsender
  loops := by
    intro caller l hl
    rcases step_loop h hl with ⟨l', hl', hcontinues⟩ | ⟨hnone, _, hcalls, _⟩
    · rw [hcontinues.1]
      exact hs.loops caller l' hl'
    · exact message_of_begun h hnone hcalls hl
  closes := by
    intro tx c hc hclose
    rcases (step_account h tx).given hc with hearlier | hgives
    · exact hs.closes tx c hearlier hclose
    · cases a with
      | call caller ctx conn m =>
        obtain ⟨_, rfl⟩ := call_some h
        obtain rfl := hs.own conn tx hgives.1
        rcases invoke_given hc hclose with hearlier | ⟨code, reason, hm, hmessage⟩
        · exact hs.closes conn c hearlier hclose
        · exact ⟨caller, ctx, m, code, reason, ha, hm, hmessage⟩
      | visit caller id =>
        obtain ⟨l, hl, _, hr, _⟩ := hgives
        rw [hr, hs.loops caller l hl] at hclose
        cases hclose
      | finish caller =>
        obtain ⟨l, hl, _, hr⟩ := hgives
        rw [hr, hs.loops caller l hl] at hclose
        cases hclose
      | _ => exact hgives.elim

theorem run_sourced {actions : List Action} {s : Server} (h : run step init actions = some s) :
    Sourced actions s :=
  always_last (always_of_meets (G := fun a _ => a ∈ actions) step_sourced actions
    (meets_of_forall (fun _ ha _ => ha) init) (init_sourced actions)) h

/-- A control frame that is written is the Close of a call that closed the connection. -/
theorem Sourced.frame {actions : List Action} {s : Server} (hs : Sourced actions s)
    (hdelivered : Delivered s) {tx : Sender} {frame : Frame} (hframe : frame ∈ s.written tx)
    (hcontrol : frame.opcode.isControl = true) :
    ∃ caller ctx m code reason, Action.call caller ctx tx m ∈ actions ∧
      m.closing = some (code, reason) ∧ frame = (closeMessage code reason).frame := by
  obtain ⟨c, hc, rfl⟩ := List.mem_map.mp hframe
  have hclose : c.value.message.isClose = true := by
    cases hmessage : c.value.message with
    | text text => simp [hmessage, Message.frame, OpCode.isControl] at hcontrol
    | binary bytes => simp [hmessage, Message.frame, OpCode.isControl] at hcontrol
    | close code reason => rfl
  have hentered : c ∈ (s.outgoing.account tx).entered :=
    (hdelivered.ledger tx).taken.subset (List.mem_append_left _ hc)
  obtain ⟨caller, ctx, m, code, reason, hcall, hm, hmessage⟩ :=
    hs.closes tx c ((hdelivered.ledger tx).entered_accepted hentered) hclose
  exact ⟨caller, ctx, m, code, reason, hcall, hm, congrArg Message.frame hmessage⟩

end Server

/-! ### At the clients -/

/-- The frames that a client's writer has been handed, if there is one. -/
abbrev ClientWritten := Option (List Frame)

def noWebsocket : PyErr := .runtimeError "no websocket connection"

/-- The payload that `ping` and `pong` make of `data`. -/
def controlPayload : Option PyValue → Except PyErr (List UInt8)
  | none => .ok []
  | some (.str s) => .ok s.toUTF8.data.toList
  | some (.bytes b) => .ok b
  | some _ => .error (.runtimeError "data must be str or bytes")

section Clients
variable (writeFrame : Frame → Option String)

/-- The frame goes to `write_frame`, whose error is raised with a text in front. -/
def handOver (text : String) (frame : Frame) : ClientWritten → Except PyErr Unit × ClientWritten
  | none => (.error noWebsocket, none)
  | some written =>
    (match writeFrame frame with
      | none => .ok ()
      | some e => .error (.runtimeError (text ++ e)), some (written ++ [frame]))

def handPayload (text : String) (opcode : OpCode) (data : Option PyValue) (w : ClientWritten) :
    Except PyErr Unit × ClientWritten :=
  match controlPayload data with
  | .ok payload => handOver writeFrame text ⟨opcode, payload⟩ w
  | .error e => (.error e, w)

namespace Client

def ping : Option PyValue → ClientWritten → Except PyErr Unit × ClientWritten :=
  handPayload writeFrame "" .ping

def pong : Option PyValue → ClientWritten → Except PyErr Unit × ClientWritten :=
  handPayload writeFrame "" .pong

def close (code : UInt16) (reason : String) : ClientWritten → Except PyErr Unit × ClientWritten :=
  handOver writeFrame "" (.close code reason.toUTF8.data.toList)

end Client

namespace AsyncClient

def ping : Option PyValue → ClientWritten → Except PyErr Unit × ClientWritten :=
  handPayload writeFrame "failed to send frame: " .ping

def pong : Option PyValue → ClientWritten → Except PyErr Unit × ClientWritten :=
  handPayload writeFrame "failed to send frame: " .pong

def close (code : UInt16) (reason : String) : ClientWritten → Except PyErr Unit × ClientWritten :=
  handOver writeFrame "" (.close code reason.toUTF8.data.toList)

end AsyncClient
end Clients

/-- Whenever the call succeeds, it has handed over one such frame. -/
def Emits (call : ClientWritten → Except PyErr Unit × ClientWritten) (P : Frame → Prop) : Prop :=
  ∀ w w', call w = (.ok (), w') →
    ∃ written frame, w = some written ∧ w' = some (written ++ [frame]) ∧ P frame

variable {writeFrame : Frame → Option String} {text : String}

theorem handOver_emits {frame : Frame} {P : Frame → Prop} (h : P frame) :
    Emits (handOver writeFrame text frame) P := by
  intro w w' hcall
  cases w with
  | none => cases congrArg Prod.fst hcall
  | some written => exact ⟨written, frame, rfl, (congrArg Prod.snd hcall).symm, h⟩

/-- A Ping or a Pong has the data, and no other limit than its length. -/
def HasData (opcode : OpCode) (data : Option PyValue) (frame : Frame) : Prop :=
  ∃ payload, controlPayload data = .ok payload ∧ frame = ⟨opcode, payload⟩ ∧
    (ValidControl frame ↔ payload.length ≤ 125)

theorem handPayload_emits {opcode : OpCode} (hop : opcode ≠ .close) (data : Option PyValue) :
    Emits (handPayload writeFrame text opcode data) (HasData opcode data) := by
  intro w w' hcall
  unfold handPayload at hcall
  cases hpayload : controlPayload data with
  | error e =>
    simp only [hpayload] at hcall
    cases congrArg Prod.fst hcall
  | ok payload =>
    simp only [hpayload] at hcall
    exact handOver_emits ⟨payload, hpayload, rfl, validControl_of_not_close hop⟩ w w' hcall

/-- A Close has the code and the reason, and no other limits than theirs. -/
def HasClose (code : UInt16) (reason : String) (frame : Frame) : Prop :=
  frame = (closeMessage code reason).frame ∧ (ValidControl frame ↔ CloseWithin code reason)

/-- **A control frame is what was asked for, and valid if that was.** In every run of the server,
each control frame handed to `write_frame` is the Close of a `close` or `aclose` of that connection,
with its code and its reason. A client's `close`, `ping` or `pong` that succeeds has handed over
one frame with what it was given. The frame is valid if and only if the reason has at most 123 bytes
and the code may be sent, or the data has at most 125 bytes. -/
theorem control_frames_as_asked (writeFrame : Frame → Option String) :
    (∀ actions s, run Server.step Server.init actions = some s → ∀ tx, ∀ frame ∈ s.written tx,
      frame.opcode.isControl = true →
        ∃ caller ctx m code reason, Server.Action.call caller ctx tx m ∈ actions ∧
          m.closing = some (code, reason) ∧ HasClose code reason frame) ∧
    (∀ code reason, Emits (Client.close writeFrame code reason) (HasClose code reason) ∧
      Emits (AsyncClient.close writeFrame code reason) (HasClose code reason)) ∧
    ∀ data, Emits (Client.ping writeFrame data) (HasData .ping data) ∧
      Emits (AsyncClient.ping writeFrame data) (HasData .ping data) ∧
      Emits (Client.pong writeFrame data) (HasData .pong data) ∧
      Emits (AsyncClient.pong writeFrame data) (HasData .pong data) := by
  have hping : OpCode.ping ≠ .close := by decide
  have hpong : OpCode.pong ≠ .close := by decide
  refine ⟨fun actions s h tx frame hframe hcontrol => ?_, fun code reason => ?_, fun data => ?_⟩
  · obtain ⟨caller, ctx, m, code, reason, hcall, hm, rfl⟩ :=
      (Server.run_sourced h).frame (Server.run_delivered h) hframe hcontrol
    exact ⟨caller, ctx, m, code, reason, hcall, hm, rfl, validControl_closeMessage⟩
  · exact ⟨handOver_emits ⟨rfl, validControl_closeMessage⟩,
      handOver_emits ⟨rfl, validControl_closeMessage⟩⟩
  · exact ⟨handPayload_emits hping data, handPayload_emits hping data,
      handPayload_emits hpong data, handPayload_emits hpong data⟩

/-- A connection is made and closed. -/
def closeRun (code : UInt16) (reason : String) : List Server.Action :=
  [.registry .register, .establish 0, .spawn 0, .call 0 .worker 0 (.close code reason), .receive 0]

theorem control_frames_as_asked_bye :
    ∃ caller ctx m code reason, Server.Action.call caller ctx 0 m ∈ closeRun 1000 "bye" ∧
      m.closing = some (code, reason) ∧ HasClose code reason (.close 1000 [98, 121, 101]) := by
  let s := (run Server.step Server.init (closeRun 1000 "bye")).get (by decide)
  have hrun : run Server.step Server.init (closeRun 1000 "bye") = some s := (Option.some_get _).symm
  exact (control_frames_as_asked fun _ => none).1 _ s hrun 0 _ (by decide) rfl

/-- A code that may not be sent is, and so is data of 126 bytes. -/
theorem invalid_frames_written :
    (∃ s, run Server.step Server.init (closeRun 1005 "") = some s ∧
      s.written 0 = [.close 1005 []]) ∧ ¬ ValidControl (.close 1005 []) ∧
    Client.ping (fun _ => none) (some (.bytes (List.replicate 126 0))) (some []) =
      (.ok (), some [⟨.ping, List.replicate 126 0⟩]) ∧
    ¬ ValidControl ⟨.ping, List.replicate 126 0⟩ := by
  refine ⟨⟨_, rfl, rfl⟩, ?_, rfl, ?_⟩
  · rw [validControl_close]
    decide
  · rw [validControl_of_not_close (by decide), List.length_replicate]
    decide

end Webrockets
