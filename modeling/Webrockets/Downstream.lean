import Webrockets.Emission
import Webrockets.Progress

/-! From a call on a server to the loop over a client at the other end.

What a listener has written is what the client's reader finds. So a client that iterates
gets messages that calls of the server's run gave to its connection and nothing else
(`Given`), ends as the last of them says, if that is a Close which the reader takes, and once
nothing is left to carry on it has got all of them: `end_to_end`. The messages are to be within the
limit of its reader (`Fits`). -/
namespace Webrockets
open Transition Outbox

/-- What a call on a connection sends. -/
def Connection.Method.message : Connection.Method → Except PyErr Message
  | .send msg => Message.tryFrom msg
  | .asend msg => Message.tryFrom msg
  | .close code reason => .ok (closeMessage code reason)
  | .aclose code reason => .ok (closeMessage code reason)

/-- What a broadcast sends. -/
def Broadcast.message : Broadcast → Except PyErr Message
  | .broadcast _ _ msg _ => Message.tryFrom msg
  | .abroadcast _ _ msg _ => Message.tryFrom msg
  | .dispatch _ message => .ok (.text message)

theorem Broadcast.message_of_args {handle : Sender → Connection} {b : Broadcast} {message : Message}
    {exclude : Option ConnectionID} (h : b.args handle = .ok (message, exclude)) :
    b.message = .ok message := by
  have hmsg : ∀ conn msg excludeSelf,
      (handle conn).broadcastArgs msg excludeSelf = .ok (message, exclude) →
      Message.tryFrom msg = .ok message := by
    intro conn msg excludeSelf hargs
    unfold Connection.broadcastArgs at hargs
    cases htry : Message.tryFrom msg with
    | error e => simp [htry] at hargs
    | ok m =>
      simp only [htry] at hargs
      split at hargs
      · cases hargs
        rfl
      · cases hargs
  cases b with
  | broadcast conn groups msg excludeSelf => exact hmsg conn msg excludeSelf h
  | abroadcast conn groups msg excludeSelf => exact hmsg conn msg excludeSelf h
  | dispatch groups message' =>
    cases h
    rfl

namespace Server

/-! ### Where a message comes from -/

/-- A call of the run gave the message to the connection: a call on the connection itself,
or a broadcast whose loop has come to it as a member of one of the broadcast's groups. -/
inductive Given (actions : List Action) (tx : Sender) (message : Message) : Prop
  | call {caller : Nat} {ctx : Context} {m : Connection.Method}
      (h : Action.call caller ctx tx m ∈ actions) (hm : m.message = .ok message)
  | visited {caller : Nat} {ctx : Context} {b : Broadcast} {pre post : List Action}
      {id : ConnectionID} {group : String} {s : Server} (h : Action.broadcast caller ctx b ∈ pre)
      (hm : b.message = .ok message) (hactions : actions = pre ++ .visit caller id :: post)
      (hs : run step init pre = some s) (hgroup : group ∈ b.groups)
      (hmember : id ∈ s.store.members group) (hsender : s.store.senders.get? id = some tx)

theorem Given.later {actions : List Action} {tx : Sender} {message : Message}
    (h : Given actions tx message) (a : Action) : Given (actions ++ [a]) tx message := by
  cases h with
  | call h hm => exact .call (List.mem_append_left _ h) hm
  | @visited caller ctx b pre post id group s h hm hactions hs hgroup hmember hsender =>
    have hlater : actions ++ [a] = pre ++ .visit caller id :: (post ++ [a]) := by
      rw [hactions, List.append_assoc, List.cons_append]
    exact .visited h hm hlater hs hgroup hmember hsender

/-- A broadcast under way was called, and is in its groups. -/
def Begun (actions : List Action) (caller : Nat) (l : Loop) : Prop :=
  ∃ ctx b, Action.broadcast caller ctx b ∈ actions ∧ b.message = .ok l.request.message ∧
    (∀ group ∈ l.groups, group ∈ b.groups) ∧ ∀ i, l.inside = some i → i.group ∈ b.groups

structure Traced (actions : List Action) (s : Server) : Prop where
  loops : ∀ caller l, s.loop caller = some l → Begun actions caller l
  blocked : ∀ caller l, s.loop caller = some l → ∀ tx ∈ l.blocked, Given actions tx l.request.message
  accepted : ∀ tx, ∀ c ∈ (s.outgoing.account tx).accepted, Given actions tx c.value.message

theorem init_traced : Traced [] init :=
  ⟨fun _ _ h => (nomatch h), fun _ _ h => (nomatch h), fun _ _ h => nomatch h⟩

/-- The outer loop goes on in the group it has come to, if that is known. -/
theorem enterGroup_inside {caller : Nat} {s t : Server} (h : step (.enterGroup caller) s = some t) :
    ∃ l group groups inside, s.loop caller = some l ∧ l.groups = group :: groups ∧
      (∀ i, inside = some i → i.group = group) ∧
      t = { s with loop := set s.loop caller (some { l with groups := groups, inside := inside }) } := by
  simp only [step] at h
  split at h
  · next r ctx exclude group groups blocked hl =>
    cases h
    refine ⟨_, group, groups, _, hl, rfl, fun i hi => ?_, rfl⟩
    obtain ⟨_, _, rfl⟩ := Option.map_eq_some_iff.mp hi
    rfl
  · cases h

/-- The inner loop stays in its group. -/
theorem visit_inside {caller : Nat} {id : ConnectionID} {s t : Server}
    (h : step (.visit caller id) s = some t) :
    ∃ l inside inside' blocked, s.loop caller = some l ∧ l.inside = some inside ∧
      inside'.group = inside.group ∧
      t.loop = set s.loop caller (some { l with inside := some inside', blocked := blocked }) := by
  simp only [step] at h
  split at h
  · next r ctx exclude groups group ahead visited blocked hl =>
    split at h
    · cases h
      exact ⟨_, _, ⟨group, ahead.filter (· ≠ id), id :: visited⟩, _, hl, rfl, rfl, rfl⟩
    · cases h
  · cases h

/-- A broadcast under way at the end of a step has begun before, or in it. -/
theorem step_begun {actions : List Action} {a : Action} {s t : Server} (h : step a s = some t)
    (hs : ∀ caller l, s.loop caller = some l → Begun actions caller l) {caller : Nat} {l' : Loop}
    (hl' : t.loop caller = some l') : Begun (actions ++ [a]) caller l' := by
  have hkept : ∀ {l m : Loop}, s.loop caller = some l → m.request = l.request →
      (∀ group ∈ m.groups, group ∈ l.groups) →
      (∀ i, m.inside = some i → i.group ∈ l.groups ∨ ∃ j, l.inside = some j ∧ i.group = j.group) →
      Begun (actions ++ [a]) caller m := by
    intro l m hl hrequest hgroups hinside
    obtain ⟨ctx, b, hb, hm, hin, hat⟩ := hs caller l hl
    refine ⟨ctx, b, List.mem_append_left _ hb, hrequest ▸ hm, fun g hg => hin g (hgroups g hg), ?_⟩
    intro i hi
    rcases hinside i hi with hg | ⟨j, hj, hgroup⟩
    · exact hin _ hg
    · rw [hgroup]
      exact hat j hj
  have hsame : s.loop caller = some l' → Begun (actions ++ [a]) caller l' := fun hl =>
    hkept hl rfl (fun _ hg => hg) fun i hi => .inr ⟨i, hi, rfl⟩
  have hmoved : ∀ {j : Nat} {m : Loop}, t.loop = set s.loop j (some m) →
      (caller = j → Begun (actions ++ [a]) caller m) → Begun (actions ++ [a]) caller l' := by
    intro j m ht hm
    rw [ht] at hl'
    by_cases hj : caller = j
    · subst hj
      rw [set_self] at hl'
      cases hl'
      exact hm rfl
    · rw [set_of_ne _ hj] at hl'
      exact hsame hl'
  cases a with
  | broadcast caller' ctx b =>
    obtain ⟨_, rfl | ⟨message, exclude, hargs, rfl⟩⟩ := broadcast_some h
    · exact hsame hl'
    · refine hmoved rfl fun hj => ?_
      subst hj
      exact ⟨ctx, b, List.mem_append_right _ List.mem_cons_self, Broadcast.message_of_args hargs,
        fun _ hg => hg, fun _ hi => nomatch hi⟩
  | enterGroup caller' =>
    obtain ⟨l, group, groups, inside, hl, hgroups, hinside, rfl⟩ := enterGroup_inside h
    refine hmoved rfl fun hj => ?_
    subst hj
    refine hkept hl rfl (fun g hg => ?_) fun i hi => .inl ?_
    · rw [hgroups]
      exact List.mem_cons_of_mem _ hg
    · rw [hgroups, hinside i hi]
      exact List.mem_cons_self
  | visit caller' id =>
    obtain ⟨l, inside, inside', blocked, hl, hin, hgroup, ht⟩ := visit_inside h
    refine hmoved ht fun hj => ?_
    subst hj
    refine hkept hl rfl (fun _ hg => hg) fun i hi => .inr ⟨inside, hin, ?_⟩
    cases hi
    exact hgroup
  | leaveGroup caller' =>
    obtain ⟨l, inside, hl, _, _, rfl⟩ := leaveGroup_some h
    refine hmoved rfl fun hj => ?_
    subst hj
    exact hkept hl rfl (fun _ hg => hg) fun _ hi => nomatch hi
  | finish caller' =>
    obtain ⟨l, _, _, _, rfl⟩ := finish_some h
    by_cases hj : caller = caller'
    · subst hj
      have hnone := (set_self s.loop caller none).symm.trans hl'
      cases hnone
    · exact hsame ((set_of_ne s.loop hj none).symm.trans hl')
  | _ => exact hsame ((step_untouched h).loop rfl ▸ hl')

/-- A call gives its connection the message that it sends. -/
theorem invoke_message {conn : Connection} {call : Call} {m : Connection.Method} {o : Outgoing}
    {k : Sender} {c : Copy Request} (hc : c ∈ ((conn.invoke call m o).2.account k).accepted) :
    c ∈ (o.account k).accepted ∨ m.message = .ok c.value.message := by
  have hsend : ∀ future msg, c ∈ ((conn.sendVia future call msg o).2.account k).accepted →
      c ∈ (o.account k).accepted ∨ Message.tryFrom msg = .ok c.value.message := by
    intro future msg hc
    unfold Connection.sendVia at hc
    cases hsender : conn.sender with
    | none => exact .inl (by simpa only [hsender] using hc)
    | some tx =>
      cases htry : Message.tryFrom msg with
      | error e => exact .inl (by simpa only [hsender, htry] using hc)
      | ok message =>
        simp only [hsender, htry] at hc
        exact (enqueue_given hc).imp_right fun hvalue => by rw [hvalue]
  have hclose : ∀ future code reason,
      c ∈ ((conn.closeVia future call code reason o).2.account k).accepted →
      c ∈ (o.account k).accepted ∨ Except.ok (closeMessage code reason) =
        (Except.ok c.value.message : Except PyErr Message) := by
    intro future code reason hc
    unfold Connection.closeVia at hc
    cases hsender : conn.sender with
    | none => exact .inl (by simpa only [hsender] using hc)
    | some tx =>
      simp only [hsender] at hc
      exact (enqueue_given hc).imp_right fun hvalue => by rw [hvalue]; rfl
  cases m with
  | send msg => exact hsend false msg hc
  | asend msg => exact hsend true msg hc
  | close code reason => exact hclose false code reason hc
  | aclose code reason => exact hclose true code reason hc

theorem step_traced {actions : List Action} {a : Action} {s t : Server}
    (hrun : run step init actions = some s) (hs : Traced actions s) (h : step a s = some t) :
    Traced (actions ++ [a]) t := by
  have hreached : ∀ caller l id tx, a = .visit caller id → s.loop caller = some l →
      s.store.recipient l.exclude id = some tx → Given (actions ++ [a]) tx l.request.message := by
    rintro caller l id tx rfl hl hrecipient
    obtain ⟨l', inside, _, hl', hinside, hmember, _⟩ := visit_some h
    cases hl.symm.trans hl'
    obtain ⟨ctx, b, hb, hm, _, hat⟩ := hs.loops caller l hl
    unfold ChannelStore.recipient at hrecipient
    split at hrecipient
    · cases hrecipient
    · exact .visited hb hm rfl hrun (hat inside hinside) hmember hrecipient
  refine ⟨fun caller l hl => step_begun h hs.loops hl, fun caller l' hl' tx htx => ?_,
    fun tx c hc => ?_⟩
  · rcases step_loop h hl' with ⟨l, hl, hrequest, hblocked⟩ | ⟨_, _, _, _, _, hnone⟩
    · rw [hrequest]
      rcases hblocked tx htx with htx | ⟨id, ha, _, hrecipient, _⟩
      · exact (hs.blocked caller l hl tx htx).later a
      · exact hreached caller l id tx ha hl hrecipient
    · rw [hnone] at htx
      cases htx
  · rcases (step_account h tx).given hc with hold | hgives
    · exact (hs.accepted tx c hold).later a
    · cases a with
      | call caller ctx conn m =>
        obtain ⟨_, rfl⟩ := call_some h
        obtain rfl := (run_sourced hrun).own conn tx hgives.1
        rcases invoke_message hc with hold | hm
        · exact (hs.accepted conn c hold).later _
        · exact .call (List.mem_append_right _ List.mem_cons_self) hm
      | visit caller id =>
        obtain ⟨l, hl, hrecipient, hr, _⟩ := hgives
        rw [hr]
        exact hreached caller l id tx rfl hl hrecipient
      | finish caller =>
        obtain ⟨l, hl, htx, hr⟩ := hgives
        rw [hr]
        exact (hs.blocked caller l hl tx htx).later _
      | _ => exact hgives.elim

theorem run_traced {actions : List Action} {s : Server} (h : run step init actions = some s) :
    Traced actions s :=
  run_history init_traced (fun _ _ _ _ hrun hs hstep => step_traced hrun hs hstep) actions h

/-! ### At the other end -/

/-- The connection's other end, where what the writer is handed comes in. -/
def socket (s : Server) (tx : Sender) : ClientStream := ⟨s.written tx, []⟩

/-- The messages that the listener has written, the last one perhaps still on its way. -/
def sent (s : Server) (tx : Sender) : List Message :=
  (s.outgoing.link tx).taken.map fun c => c.value.message

/-- A Close has a message of its own, and stands at the end. -/
theorem sent_cases {actions : List Action} {s : Server} (h : run step init actions = some s)
    (tx : Sender) : ∃ (messages : List Message) (close : Option (UInt16 × String)),
      s.sent tx = messages ++ (close.map fun c => closeMessage c.1 c.2).toList ∧
        ∀ m ∈ messages, m.isClose = false := by
  have hdelivered := run_delivered h
  have hdata := (hdelivered.agrees.2 tx).dropLast
  have hledger := hdelivered.ledger tx
  rcases List.eq_nil_or_concat (s.outgoing.account tx).taken with hnil | ⟨before, c, htaken⟩
  · exact ⟨[], none, congrArg (List.map _) hnil, fun _ hm => nomatch hm⟩
  · rw [htaken, List.concat_eq_append, List.dropLast_concat] at hdata
    have hsent : s.sent tx = (before.map fun c => c.value.message) ++ [c.value.message] := by
      have := congrArg (List.map fun c => c.value.message) htaken
      rwa [List.concat_eq_append, List.map_append] at this
    have hbefore : ∀ m ∈ before.map (fun c => c.value.message), m.isClose = false := by
      intro m hm
      obtain ⟨d, hd, rfl⟩ := List.mem_map.mp hm
      exact hdata d hd
    cases hclose : c.value.message.isClose with
    | false =>
      refine ⟨_, none, hsent.trans (List.append_nil _).symm, fun m hm => ?_⟩
      rcases List.mem_append.mp hm with hm | hm
      · exact hbefore m hm
      · rw [List.mem_singleton.mp hm]
        exact hclose
    | true =>
      have hc : c ∈ (s.outgoing.account tx).accepted := by
        refine hledger.entered_accepted (hledger.taken.subset (List.mem_append_left _ ?_))
        rw [htaken, List.concat_eq_append]
        exact List.mem_append_right _ List.mem_cons_self
      obtain ⟨_, _, _, code, reason, _, _, hmessage⟩ := (run_sourced h).closes tx c hc hclose
      exact ⟨_, some (code, reason), by rw [hsent, hmessage]; rfl, hbefore⟩

end Server

/-- What Python gets of a message at the other end. -/
def Message.data : Message → Option PyValue
  | .text s => some (.str s)
  | .binary b => some (.bytes b)
  | .close _ _ => none

/-- The message as a client's peer sends it. -/
def Message.toPeer : Message → Option PeerMessage
  | .text s => some (.text s)
  | .binary b => some (.binary b)
  | .close _ _ => none

theorem toPeer_frames {messages : List Message} (h : ∀ m ∈ messages, m.isClose = false) :
    (messages.filterMap Message.toPeer).map PeerMessage.frame = messages.map Message.frame := by
  induction messages with
  | nil => rfl
  | cons m rest ih =>
    have hrest := ih fun m hm => h m (List.mem_cons_of_mem _ hm)
    cases m with
    | text s => simpa [Message.toPeer, PeerMessage.frame, Message.frame] using hrest
    | binary b => simpa [Message.toPeer, PeerMessage.frame, Message.frame] using hrest
    | close code reason => exact absurd (h _ List.mem_cons_self) Bool.noConfusion

theorem toPeer_data (messages : List Message) :
    (messages.filterMap Message.toPeer).filterMap PeerMessage.data = messages.filterMap Message.data := by
  rw [List.filterMap_filterMap]
  refine List.filterMap_congr fun m _ => ?_
  cases m <;> rfl

theorem toPeer_noPong (messages : List Message) : NoPong (messages.filterMap Message.toPeer) := by
  intro payload hmem
  obtain ⟨m, _, hm⟩ := List.mem_filterMap.mp hmem
  cases m <;> cases hm

/-- The messages are within the limit of a client's reader. -/
def Fits (r : FrameReader) (messages : List Message) : Prop :=
  ∀ m ∈ messages, m.frame.payload.length < r.maxMessageSize

instance (r : FrameReader) (messages : List Message) : Decidable (Fits r messages) :=
  inferInstanceAs (Decidable (∀ m ∈ messages, _))

theorem toPeer_reads {r : FrameReader} (hr : r.Lawful) {messages : List Message}
    (hfits : Fits r messages) : ∀ p ∈ messages.filterMap Message.toPeer, r.Reads p.frame := by
  intro p hp
  obtain ⟨m, hm, hpeer⟩ := List.mem_filterMap.mp hp
  have hlimit := hfits m hm
  cases m with
  | text s =>
    cases hpeer
    refine hr.reads_acceptable ⟨hlimit, ?_⟩
    show (fromUtf8 s.toUTF8.data.toList).isSome = true
    rw [fromUtf8_toUTF8]
    rfl
  | binary b =>
    cases hpeer
    exact hr.reads_acceptable ⟨hlimit, trivial⟩
  | close code reason => cases hpeer

/-- How a loop ends that comes to this Close, or to none. -/
def FrameReader.ending (r : FrameReader) : Option (UInt16 × String) → Ending
  | none => .waits
  | some (code, reason) =>
    match r.error (closeMessage code reason).frame with
    | some e => .raises (.runtimeError e)
    | none => closeEnding (some (some (code, reason)))

theorem FrameReader.Lawful.ending_allowed {r : FrameReader} (hr : r.Lawful) {code : UInt16}
    {reason : String} (hcode : isAllowed code = true) (hshort : reason.utf8ByteSize ≤ 123)
    (hlimit : reason.utf8ByteSize + 2 < r.maxMessageSize) :
    r.ending (some (code, reason)) = closeEnding (some (some (code, reason))) := by
  have hacceptable := FrameReader.acceptable_close.mpr ⟨hcode, hshort, hlimit⟩
  have hnone : r.error (closeMessage code reason).frame = none := by
    rw [Option.eq_none_iff_forall_ne_some]
    exact fun e he => hr.acceptable _ hacceptable e (FrameReader.error_eq_some.mp he)
  simp only [FrameReader.ending, hnone]

theorem FrameReader.Lawful.ending_refused {r : FrameReader} (hr : r.Lawful) {code : UInt16}
    (hcode : isAllowed code = false) (reason : String) :
    ∃ e, r.ending (some (code, reason)) = .raises (.runtimeError e) := by
  obtain ⟨e, he⟩ := hr.refused_close hcode reason
  have herror : r.error (closeMessage code reason).frame = some e :=
    FrameReader.error_eq_some.mpr he
  exact ⟨e, by simp only [FrameReader.ending, herror]⟩

section
variable {r : FrameReader} {onClose : UInt16 → String → ClientErr} {stop : ClientErr}

/-- A loop over these messages, and then perhaps a Close, gets the messages. -/
theorem forLoop_sent (hr : r.Lawful) (hstop : EndsLoop onClose stop) {messages : List Message}
    (h : ∀ m ∈ messages, m.isClose = false) (hfits : Fits r messages)
    (close : Option (UInt16 × String)) :
    let stream : ClientStream :=
      ⟨(messages ++ (close.map fun c => closeMessage c.1 c.2).toList).map Message.frame, []⟩
    forLoop (ClientStream.receive r onClose) stop stream.incoming.length stream =
      (messages.filterMap Message.data, r.ending close) := by
  intro stream
  have hincoming : stream.incoming = (messages.filterMap Message.toPeer).map PeerMessage.frame ++
      (close.map fun c => (closeMessage c.1 c.2).frame).toList := by
    show (messages ++ _).map Message.frame = _
    rw [List.map_append, toPeer_frames h]
    cases close <;> rfl
  have hfuel : (messages.filterMap Message.toPeer).length +
      (close.map fun c => (closeMessage c.1 c.2).frame).toList.length ≤ stream.incoming.length := by
    rw [hincoming, List.length_append, List.length_map]
  obtain ⟨written', fuel, hrest, hloop⟩ := forLoop_messages onClose stop (toPeer_reads hr hfits)
    (toPeer_noPong messages) _ [] _ hfuel
  rw [← hincoming, toPeer_data] at hloop
  refine hloop.trans ?_
  cases close with
  | none =>
    simp only [Option.map_none, Option.toList_none, forLoop_nil, List.append_nil, FrameReader.ending]
  | some c =>
    obtain ⟨code, reason⟩ := c
    simp only [Option.map_some, Option.toList_some, List.length_singleton] at hrest ⊢
    cases herror : r.error (closeMessage code reason).frame with
    | some e =>
      have hrefused := forLoop_refused (FrameReader.error_eq_some.mp herror) hstop hrest [] written'
      simp only [hrefused, FrameReader.ending, herror, List.append_nil]
    | none =>
      have hreads : r.Reads (CloseStatus.frame (some (code, reason))) := by
        rcases hr.reads (closeMessage code reason).frame with hreads | ⟨e, he⟩
        · exact hreads
        · rw [FrameReader.error_eq_some.mpr he] at herror
          cases herror
      have hclose := forLoop_close hreads hstop hrest written'
      rw [show (closeMessage code reason).frame = CloseStatus.frame (some (code, reason)) from rfl]
        at herror ⊢
      simp only [hclose, FrameReader.ending, List.append_nil]
      rw [show (closeMessage code reason).frame = CloseStatus.frame (some (code, reason)) from rfl,
        herror]

end

/-- A client whose peer has sent these messages and then perhaps a Close gets them all. -/
theorem iterate_sent {r : FrameReader} (hr : r.Lawful) {messages : List Message}
    (h : ∀ m ∈ messages, m.isClose = false) (hfits : Fits r messages)
    (close : Option (UInt16 × String)) :
    let stream : ClientStream :=
      ⟨(messages ++ (close.map fun c => closeMessage c.1 c.2).toList).map Message.frame, []⟩
    Client.iterate r stream = (messages.filterMap Message.data, r.ending close) ∧
      AsyncClient.iterate r stream = (messages.filterMap Message.data, r.ending close) :=
  ⟨forLoop_sent hr client_endsLoop h hfits close, forLoop_sent hr asyncClient_endsLoop h hfits close⟩

namespace Server

/-- A listener that is there and has nothing to do has taken no Close. -/
theorem Running.none_closing {s : Server} (hs : Running s) (hsettled : Settled step Delivers s)
    {tx : Sender} (hl : s.sendTask tx ≠ .stopped) :
    ∀ c ∈ (s.outgoing.link tx).taken, c.value.message.isClose = false := by
  have hclose := hs.delivered.agrees.2 tx
  cases htask : s.sendTask tx with
  | stopped => exact absurd htask hl
  | writing m =>
    have hwrote := hsettled (.wrote tx false) trivial
    simp [step, htask] at hwrote
  | unspawned | receiving =>
    rw [htask] at hclose
    exact hclose

/-- What the listener has written, as the client finds it. -/
theorem socket_eq (s : Server) (tx : Sender) : s.socket tx = ⟨(s.sent tx).map Message.frame, []⟩ := by
  rw [sent, List.map_map]
  rfl

/-- A client of a listener that is there and has nothing to do gets all that has been taken. -/
theorem Running.iterate {s : Server} (hs : Running s) (hsettled : Settled step Delivers s)
    {tx : Sender} (hl : s.sendTask tx ≠ .stopped) {r : FrameReader} (hr : r.Lawful)
    (hfits : Fits r (s.sent tx)) :
    let values := (s.outgoing.link tx).taken.filterMap fun c => c.value.message.data
    Client.iterate r (s.socket tx) = (values, .waits) ∧
      AsyncClient.iterate r (s.socket tx) = (values, .waits) := by
  have hopen : ∀ m ∈ s.sent tx, m.isClose = false := by
    intro m hm
    obtain ⟨c, hc, rfl⟩ := List.mem_map.mp hm
    exact hs.none_closing hsettled hl c hc
  have hdata : (s.sent tx).filterMap Message.data =
      (s.outgoing.link tx).taken.filterMap fun c => c.value.message.data := by
    rw [sent, List.filterMap_map]
    rfl
  have hsent := iterate_sent hr hopen hfits none
  rw [Option.map_none, Option.toList_none, List.append_nil] at hsent
  rw [socket_eq, ← hdata]
  exact hsent

/-- **What is sent is what is received.** In every state of every run, the messages that a listener
has written are perhaps a Close, and before it others, and every one of them was given to that
connection by a call of the run. A client at the other end that iterates, of either kind, gets the
others, each with its data and in order, if they are within the limit of its reader, and ends as the
Close says, if one is there. A Close with a code that is not allowed is refused, and the client
raises the error of its reader. Where a run of steps that carry messages on has come to its end and
the listener is still there, the client gets all that was accepted for the connection, but for what
was cancelled. -/
theorem end_to_end (actions : List Action) (s : Server) (h : run step init actions = some s)
    (tx : Sender) (r : FrameReader) (hr : r.Lawful) :
    (∃ (messages : List Message) (close : Option (UInt16 × String)),
      s.sent tx = messages ++ (close.map fun c => closeMessage c.1 c.2).toList ∧
      (∀ m ∈ messages, m.isClose = false) ∧ (∀ m ∈ s.sent tx, Given actions tx m) ∧
      (Fits r messages →
        Client.iterate r (s.socket tx) = (messages.filterMap Message.data, r.ending close) ∧
        AsyncClient.iterate r (s.socket tx) = (messages.filterMap Message.data, r.ending close)) ∧
      (close = none → r.ending close = .waits) ∧
      ∀ code reason, close = some (code, reason) →
        (isAllowed code = true → reason.utf8ByteSize ≤ 123 →
          reason.utf8ByteSize + 2 < r.maxMessageSize →
          r.ending close = closeEnding (some (some (code, reason)))) ∧
        (isAllowed code = false → ∃ e, r.ending close = .raises (.runtimeError e))) ∧
    (Settled step Delivers s → s.sendTask tx ≠ .stopped → Fits r (s.sent tx) →
      ∃ values, Client.iterate r (s.socket tx) = (values, .waits) ∧
        AsyncClient.iterate r (s.socket tx) = (values, .waits) ∧
        ((s.outgoing.link tx).accepted.filterMap fun c => c.value.message.data).Perm
          (values ++ (s.outgoing.link tx).cancelled.filterMap fun c => c.value.message.data)) := by
  obtain ⟨messages, close, hsent, hdata⟩ := sent_cases h tx
  have hledger := (run_delivered h).ledger tx
  refine ⟨⟨messages, close, hsent, hdata, fun m hm => ?_, fun hfits => ?_, fun hnone => ?_,
    fun code reason hclose => ⟨fun hcode hshort hlimit => ?_, fun hcode => ?_⟩⟩,
    fun hsettled hl hfits => ?_⟩
  · obtain ⟨c, hc, rfl⟩ := List.mem_map.mp hm
    refine (run_traced h).accepted tx c (hledger.entered_accepted (hledger.taken.subset ?_))
    exact List.mem_append_left _ hc
  · have hloops := iterate_sent hr hdata hfits close
    rw [← hsent, ← socket_eq] at hloops
    exact hloops
  · rw [hnone]
    rfl
  · rw [hclose]
    exact hr.ending_allowed hcode hshort hlimit
  · rw [hclose]
    exact hr.ending_refused hcode reason
  · have hs := run_running h
    obtain ⟨hsync, hasync⟩ := hs.iterate hsettled hl hr hfits
    refine ⟨_, hsync, hasync, ?_⟩
    rw [← List.filterMap_append]
    exact (hs.finished hsettled hl).1.filterMap _

/-- A greeting, and a Close that makes the client's loop raise. -/
theorem end_to_end_greeting :
    ∃ s, run step init [.registry .register, .establish 0, .spawn 0, .call 0 .worker 0 (.send (.str "hi")),
        .call 0 .worker 0 (.close 1011 "bye"), .receive 0, .wrote 0 true, .receive 0] = some s ∧
      ∃ (messages : List Message) (close : Option (UInt16 × String)),
        s.sent 0 = messages ++ (close.map fun c => closeMessage c.1 c.2).toList ∧
        Client.iterate .standard (s.socket 0) =
          (messages.filterMap Message.data, FrameReader.standard.ending close) ∧
        Client.iterate .standard (s.socket 0) =
          ([.str "hi"], .raises (.connectionClosed 1011 "bye")) := by
  let s := (run step init [.registry .register, .establish 0, .spawn 0,
    .call 0 .worker 0 (.send (.str "hi")), .call 0 .worker 0 (.close 1011 "bye"), .receive 0,
    .wrote 0 true, .receive 0]).get (by decide)
  have hrun : run step init _ = some s := (Option.some_get _).symm
  obtain ⟨messages, close, hsent, _, _, hloops, _⟩ :=
    (end_to_end _ s hrun 0 .standard FrameReader.standard_lawful).1
  have hall : Fits .standard (s.sent 0) := by decide
  have hfits : Fits .standard messages := fun m hm =>
    hall m (by rw [hsent]; exact List.mem_append_left _ hm)
  exact ⟨s, hrun, messages, close, hsent, (hloops hfits).1, by decide⟩

end Server
end Webrockets
