import Webrockets.Restart
import Webrockets.Library.EventLoop

/-! The inner loops of the two listeners (`listen` of `broker/redis.rs` and `broker/amqp.rs`).

They are written twice, over streams of a different shape. A message of Redis is read with
`get_payload`, a delivery of AMQP with `from_utf8`; a stream of Redis ends, one of AMQP ends
or fails. What they do to the channel store is the same (`listeners_agree`), and it is what a
listener of `Restarts` does: `receive_iterate`. -/
namespace Webrockets
open EventLoop JsonText

/-- The arguments of `ChannelStore::broadcast`. -/
structure StoreCall where
  groups : List String
  message : Message
  exclude : Option ConnectionID
  deriving DecidableEq, Repr

/-- The call that `dispatch` makes. -/
def BrokerMessage.storeCall (m : BrokerMessage) : StoreCall := ⟨m.groups, .text m.message, none⟩

def StoreCall.perform (channels : ChannelStore) (number caller : Nat) (o : Outgoing)
    (call : StoreCall) : Outgoing :=
  (channels.broadcast .worker call.groups ⟨number, caller, false, call.message⟩ call.exclude o).2

/-- How the inner loop is left: the listener returns, or it connects again. -/
inductive Leave where
  | shutdown
  | reconnect
  deriving DecidableEq, Repr

/-! ### Redis -/

/-- What the `select` comes back with. -/
inductive Redis.Event where
  | shutdown
  | message (payload : ByteArray)
  | ended

/-- `getPayload` is `Msg::get_payload` of the `redis` crate. -/
def Redis.iterate (codec : Codec) (getPayload : ByteArray → Except String String) :
    Redis.Event → Turn StoreCall Leave
  | .shutdown => ⟨[], some .shutdown⟩
  | .message msg =>
    match getPayload msg with
    | .error _ => ⟨[], none⟩
    | .ok payload =>
      match BrokerMessage.fromStr codec payload with
      | some brokerMsg => ⟨[brokerMsg.storeCall], none⟩
      | none => ⟨[], none⟩
  | .ended => ⟨[], some .reconnect⟩

/-! ### AMQP -/

inductive Amqp.Event where
  | shutdown
  | delivery (data : ByteArray)
  /-- The consumer hands out an error. -/
  | failed
  | ended

def Amqp.iterate (codec : Codec) : Amqp.Event → Turn StoreCall Leave
  | .shutdown => ⟨[], some .shutdown⟩
  | .delivery data =>
    match String.fromUTF8? data with
    | none => ⟨[], none⟩
    | some payload =>
      match BrokerMessage.fromStr codec payload with
      | some brokerMsg => ⟨[brokerMsg.storeCall], none⟩
      | none => ⟨[], none⟩
  | .failed => ⟨[], some .reconnect⟩
  | .ended => ⟨[], some .reconnect⟩

/-! ### What a payload comes to -/

/-- The call that a payload asks for, if it is a message. -/
def payloadCall (codec : Codec) (payload : ByteArray) : Option StoreCall :=
  (BrokerMessage.ofPayload codec payload).map BrokerMessage.storeCall

/-- `get_payload::<String>` fails on what is not UTF-8, and on nothing else. -/
def ReadsUtf8 (getPayload : ByteArray → Except String String) : Prop :=
  ∀ payload, (getPayload payload).toOption = String.fromUTF8? payload

variable {codec : Codec} {getPayload : ByteArray → Except String String}

theorem iterate_delivery (codec : Codec) (payload : ByteArray) :
    Amqp.iterate codec (.delivery payload) = ⟨(payloadCall codec payload).toList, none⟩ := by
  simp only [Amqp.iterate, payloadCall, BrokerMessage.ofPayload]
  cases String.fromUTF8? payload with
  | none => rfl
  | some text =>
    simp only [Option.bind_some]
    cases BrokerMessage.fromStr codec text <;> rfl

/-- The two read a payload alike. -/
theorem iterate_message (hget : ReadsUtf8 getPayload) (payload : ByteArray) :
    Redis.iterate codec getPayload (.message payload) = Amqp.iterate codec (.delivery payload) := by
  simp only [Redis.iterate, Amqp.iterate, ← hget payload]
  cases getPayload payload <;> rfl

/-- Events that are the same to both: a stream that ends, and one that fails, are connected
again. -/
inductive SameEvent : Redis.Event → Amqp.Event → Prop where
  | shutdown : SameEvent .shutdown .shutdown
  | payload (payload : ByteArray) : SameEvent (.message payload) (.delivery payload)
  | failed : SameEvent .ended .failed
  | ended : SameEvent .ended .ended

theorem iterate_sameEvent (hget : ReadsUtf8 getPayload) (e : Redis.Event) (f : Amqp.Event)
    (h : SameEvent e f) : Redis.iterate codec getPayload e = Amqp.iterate codec f := by
  cases h with
  | payload payload => exact iterate_message hget payload
  | shutdown | failed | ended => rfl

/-- Over any events, also those that end it, the one loop does what the other does. -/
theorem loops_agree (hget : ReadsUtf8 getPayload) {events : List Redis.Event}
    {others : List Amqp.Event} (h : List.Forall₂ SameEvent events others) :
    loop (Redis.iterate codec getPayload) events = loop (Amqp.iterate codec) others :=
  loop_agree (iterate_sameEvent hget) h

theorem loop_deliveries (codec : Codec) (payloads : List ByteArray) :
    loop (Amqp.iterate codec) (payloads.map .delivery) =
      ⟨payloads.filterMap (payloadCall codec), none⟩ := by
  have hwaits : ∀ e ∈ payloads.map Amqp.Event.delivery, (Amqp.iterate codec e).exit = none := by
    intro e he
    obtain ⟨payload, _, rfl⟩ := List.mem_map.mp he
    rw [iterate_delivery]
  rw [loop_waits hwaits, List.flatMap_map, List.filterMap_eq_flatMap_toList]
  simp only [iterate_delivery]

/-- **The two listeners agree.** However many payloads come, each listener makes one broadcast
for every payload that is a message, in their order, to its groups and to all of their
members; it does nothing about the others, and it waits for the next one. -/
theorem listeners_agree (codec : Codec) (getPayload : ByteArray → Except String String)
    (hget : ReadsUtf8 getPayload) (payloads : List ByteArray) :
    loop (Redis.iterate codec getPayload) (payloads.map .message) =
        ⟨payloads.filterMap (payloadCall codec), none⟩ ∧
      loop (Amqp.iterate codec) (payloads.map .delivery) =
        ⟨payloads.filterMap (payloadCall codec), none⟩ := by
  have hsame : List.Forall₂ SameEvent (payloads.map .message) (payloads.map .delivery) := by
    rw [List.forall₂_map_left_iff, List.forall₂_map_right_iff, List.forall₂_same]
    exact fun payload _ => .payload payload
  exact ⟨(loops_agree hget hsame).trans (loop_deliveries codec payloads),
    loop_deliveries codec payloads⟩

/-- `get_payload`, where the payload is a bulk string. -/
def getString (payload : ByteArray) : Except String String :=
  match String.fromUTF8? payload with
  | some text => .ok text
  | none => .error "Invalid UTF-8"

/-- Two messages, and between them bytes that are no text and a text that is no message. -/
theorem listeners_agree_hostile :
    loop (Redis.iterate .shortest getString)
        ([Restarts.greeting, ⟨#[0xc3, 0x28]⟩, "[[\"chat\"]]".toUTF8, Restarts.greeting].map .message) =
      ⟨[⟨["chat"], .text "hi", none⟩, ⟨["chat"], .text "hi", none⟩], none⟩ := by
  have hget : ReadsUtf8 getString := by
    intro payload
    unfold getString
    cases String.fromUTF8? payload <;> rfl
  have hcalls : [Restarts.greeting, ⟨#[0xc3, 0x28]⟩, "[[\"chat\"]]".toUTF8, Restarts.greeting].filterMap
      (payloadCall .shortest) = [⟨["chat"], .text "hi", none⟩, ⟨["chat"], .text "hi", none⟩] := by
    decide
  rw [(listeners_agree .shortest getString hget _).1, hcalls]

/-! ### The listeners of `Restarts` -/

/-- What a listener does with a payload is what its loop asks of the store. -/
theorem perform_iterate (codec : Codec) (payload : ByteArray) (channels : ChannelStore)
    (number caller : Nat) (o : Outgoing) :
    (Amqp.iterate codec (.delivery payload)).effects.foldl
        (StoreCall.perform channels number caller) o =
      (listened codec payload channels number caller o).2 := by
  rw [iterate_delivery, payloadCall, listened]
  cases BrokerMessage.ofPayload codec payload <;> rfl

/-- **A listener of `Restarts` is the loop of either backend.** It takes up a message as the
loop does: with the same effect on the channel store, and without leaving. -/
theorem receive_iterate (hget : ReadsUtf8 getPayload) {s : Restarts} {i : Nat} {d : Delivery}
    {inbox : List Delivery} (hstage : (s.listener i).stage = .listening (d :: inbox)) :
    ∃ t, Restarts.step codec (.receive i) s = some t ∧
      (t.listener i).stage = .listening inbox ∧
      t.outgoing = (Redis.iterate codec getPayload (.message d.payload)).effects.foldl
        (StoreCall.perform s.channels s.dispatched.length i) s.outgoing ∧
      t.outgoing = (Amqp.iterate codec (.delivery d.payload)).effects.foldl
        (StoreCall.perform s.channels s.dispatched.length i) s.outgoing := by
  refine ⟨s.receives codec i d inbox, ?_, ?_, ?_, ?_⟩
  · simp only [Restarts.step, hstage]
  · simp [Restarts.receives, Restarts.setListener]
  · rw [iterate_message hget, perform_iterate]
    rfl
  · rw [perform_iterate]
    rfl

end Webrockets
