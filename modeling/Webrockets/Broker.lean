import Webrockets.Deferral
import Webrockets.Library.JsonText

/-! Broadcasts that go through a broker (`broker/mod.rs`, `broker/broadcaster.rs`).

A process that serves nobody builds a payload (`makePayload`) and publishes it. The listener
of a server reads it into a `BrokerMessage` and hands that to the channel store. The payload
is put together by hand and read by a derived `Deserialize`, so the two meet in the text
only: `ofPayload_makePayload` says that they agree on it, whatever the names of the groups
and the message are. What `serde_json` does to the characters of a string is the `Codec`. -/
namespace Webrockets
open Transition JsonText

structure BrokerMessage where
  groups : List String
  message : String
  deriving DecidableEq, Repr

/-! ### The payload -/

/-- An object with two members, in the order of their names and without spaces. -/
def payloadTokens (codec : Codec) (groups : List String) (message : String) : List Token :=
  .beginObject :: codec.token "groups" :: .colon :: (stringTokens codec groups ++
    [.comma, codec.token "message", .colon, codec.token message, .endObject])

def makePayload (codec : Codec) (groups : List String) (message : String) : String :=
  .ofList (text (payloadTokens codec groups message))

/-! ### `Deserialize` -/

inductive Field where
  | groups
  | message
  | ignore
  deriving DecidableEq, Repr

def Field.ofKey (key : String) : Field :=
  if key = "groups" then .groups else if key = "message" then .message else .ignore

/-- The fields that have been read. -/
structure Fields where
  groups : Option (List String)
  message : Option String

def readString (codec : Codec) : List Token → Option (String × List Token)
  | .string raw :: rest => (codec.unescape raw).map fun s => (s, rest)
  | _ => none

/-- The value of a member. -/
def Fields.member (codec : Codec) (fields : Fields) (key : String) (ts : List Token) :
    Option (Fields × List Token) :=
  match Field.ofKey key with
  | .groups =>
    -- a field that is there twice is an error
    if fields.groups.isSome then none
    else (strings codec ts).map fun p => ({ fields with groups := some p.1 }, p.2)
  | .message =>
    if fields.message.isSome then none
    else (readString codec ts).map fun p => ({ fields with message := some p.1 }, p.2)
  | .ignore => (ignore ts).map fun rest => (fields, rest)

/-- The members of an object that has begun. Every turn reads a token at least, so the number
of the tokens is enough `fuel`. -/
def Fields.members (codec : Codec) : Nat → Fields → List Token → Option (Fields × List Token)
  | fuel + 1, fields, .string raw :: .colon :: ts =>
    match codec.unescape raw with
    | none => none
    | some key =>
      match fields.member codec key ts with
      | some (fields, .comma :: rest) => members codec fuel fields rest
      | some (fields, .endObject :: rest) => some (fields, rest)
      | _ => none
  | _, _, _ => none

/-- A struct is read from an object, or from an array that has its fields in order. -/
def BrokerMessage.ofTokens (codec : Codec) : List Token → Option BrokerMessage
  | .beginObject :: ts =>
    match Fields.members codec ts.length ⟨none, none⟩ ts with
    | some (⟨some groups, some message⟩, []) => some ⟨groups, message⟩
    | _ => none
  | .beginArray :: ts =>
    match strings codec ts with
    | some (groups, .comma :: ts) =>
      match readString codec ts with
      | some (message, [.endArray]) => some ⟨groups, message⟩
      | _ => none
    | _ => none
  | _ => none

/-- `serde_json::from_str::<BrokerMessage>`. -/
def BrokerMessage.fromStr (codec : Codec) (payload : String) : Option BrokerMessage :=
  (tokens payload.toList).bind (ofTokens codec)

-- Payloads of other senders are read too.
example : BrokerMessage.fromStr .shortest "[ [\"a\"] , \"\\u00e9\\ud83d\\ude00\" ]" =
    some ⟨["a"], "é😀"⟩ := by decide

/-- A payload arrives as bytes. -/
def BrokerMessage.ofPayload (codec : Codec) (payload : ByteArray) : Option BrokerMessage :=
  (String.fromUTF8? payload).bind (fromStr codec)

/-! ### The listener -/

/-- A listener is a task of the runtime. -/
def BrokerMessage.dispatch (m : BrokerMessage) (channels : ChannelStore) (number caller : Nat)
    (o : Outgoing) : Outcome × Outgoing :=
  channels.broadcast .worker m.groups ⟨number, caller, false, .text m.message⟩ none o

/-- What a listener does with a payload. One that cannot be read is logged. -/
def listened (codec : Codec) (payload : ByteArray) (channels : ChannelStore) (number caller : Nat)
    (o : Outgoing) : Outcome × Outgoing :=
  match BrokerMessage.ofPayload codec payload with
  | some m => m.dispatch channels number caller o
  | none => (.returned, o)

/-! ### The payload is read back -/

theorem payloadTokens_delimited (codec : Codec) (groups : List String) (message : String) :
    ∀ t ∈ payloadTokens codec groups message, t.Delimited := by
  intro t ht
  simp only [payloadTokens, List.mem_cons, List.mem_append, List.not_mem_nil, or_false] at ht
  rcases ht with rfl | rfl | rfl | ht | rfl | rfl | rfl | rfl | rfl
  · trivial
  · exact codec.delimited _
  · trivial
  · exact stringTokens_delimited codec groups t ht
  · trivial
  · exact codec.delimited _
  · trivial
  · exact codec.delimited _
  · trivial

theorem readString_token (codec : Codec) (s : String) (rest : List Token) :
    readString codec (codec.token s :: rest) = some (s, rest) := by
  show (codec.unescape (codec.escape s)).map _ = _
  rw [codec.inverse, Option.map_some]

theorem member_groups (codec : Codec) (groups : List String) (rest : List Token) :
    Fields.member codec ⟨none, none⟩ "groups" (stringTokens codec groups ++ rest) =
      some (⟨some groups, none⟩, rest) := by
  show (strings codec (stringTokens codec groups ++ rest)).map _ = _
  rw [strings_stringTokens, Option.map_some]

theorem member_message (codec : Codec) (groups : List String) (message : String)
    (rest : List Token) :
    Fields.member codec ⟨some groups, none⟩ "message" (codec.token message :: rest) =
      some (⟨some groups, some message⟩, rest) := by
  show (readString codec (codec.token message :: rest)).map _ = _
  rw [readString_token, Option.map_some]

/-- One turn of the loop over the members. -/
theorem members_turn (codec : Codec) (fuel : Nat) (fields : Fields) (key : String)
    (ts : List Token) :
    fields.members codec (fuel + 1) (codec.token key :: .colon :: ts) =
      match fields.member codec key ts with
      | some (fields, .comma :: rest) => fields.members codec fuel rest
      | some (fields, .endObject :: rest) => some (fields, rest)
      | _ => none := by
  rw [Codec.token, Fields.members, codec.inverse]

theorem ofTokens_payloadTokens (codec : Codec) (groups : List String) (message : String) :
    BrokerMessage.ofTokens codec (payloadTokens codec groups message) = some ⟨groups, message⟩ := by
  have hmembers (fuel : Nat) : Fields.members codec (fuel + 2) ⟨none, none⟩
      (payloadTokens codec groups message).tail = some (⟨some groups, some message⟩, []) := by
    rw [payloadTokens, List.tail_cons, members_turn, member_groups]
    show Fields.members codec (fuel + 1) _ _ = _
    rw [members_turn, member_message]
  obtain ⟨fuel, hfuel⟩ : ∃ fuel, (payloadTokens codec groups message).tail.length = fuel + 2 :=
    ⟨_, rfl⟩
  show (match Fields.members codec (payloadTokens codec groups message).tail.length ⟨none, none⟩
    (payloadTokens codec groups message).tail with
    | some (⟨some groups, some message⟩, []) => some (BrokerMessage.mk groups message)
    | _ => none) = _
  rw [hfuel, hmembers]

/-- The payload is read as the message it was made of. -/
theorem ofPayload_makePayload (codec : Codec) (groups : List String) (message : String) :
    BrokerMessage.ofPayload codec (makePayload codec groups message).toUTF8 =
      some ⟨groups, message⟩ := by
  have hutf8 : String.fromUTF8? (makePayload codec groups message).toUTF8 =
      some (makePayload codec groups message) := dif_pos (String.isValidUTF8 _)
  rw [BrokerMessage.ofPayload, hutf8, Option.bind_some, BrokerMessage.fromStr, makePayload,
    String.toList_ofList, tokens_text (payloadTokens_delimited codec groups message),
    Option.bind_some, ofTokens_payloadTokens]

/-! ### A broadcast through the broker is one of the server's own -/

/-- Nothing depends on where a broadcast is called from but what becomes of senders that
find no room. -/
theorem spawnBlocked_worker {ctx : Context} {r : Request} {s : Outgoing × List Sender}
    (h : (spawnBlocked ctx r s).1 = .returned) : spawnBlocked .worker r s = spawnBlocked ctx r s := by
  unfold spawnBlocked at h ⊢
  split
  · rfl
  · next hblocked =>
    rw [if_neg hblocked] at h
    split at h
    · next hruntime => rw [if_pos hruntime, if_pos (show Context.worker.hasRuntime = true from rfl)]
    · cases h

theorem broadcastVia_channels {conn : Connection} (h : conn.channels = true) (store : ChannelStore)
    (call : Call) (groups : List String) (message : String) (o : Outgoing) :
    conn.broadcastVia store call groups (.str message) false o =
      store.broadcast call.ctx groups ⟨call.number, call.caller, false, .text message⟩ none o := by
  simp only [Connection.broadcastVia, Connection.broadcastArgs, Message.tryFrom, h, if_true,
    Bool.false_eq_true, if_false]

/-- In the machine of steps too, the two are the same call. -/
theorem step_dispatch {s : Server} {conn : Sender} (h : (s.handle conn).channels = true)
    (caller : Nat) (ctx : Context) (groups : List String) (message : String) :
    Server.step (.broadcast caller ctx (.dispatch groups message)) s =
      Server.step (.broadcast caller ctx (.broadcast conn groups (.str message) false)) s := by
  have hargs : Broadcast.args s.handle (.broadcast conn groups (.str message) false) =
      Broadcast.args s.handle (.dispatch groups message) := by
    simp only [Broadcast.args, Connection.broadcastArgs, Message.tryFrom, h, if_true,
      Bool.false_eq_true, if_false]
  simp only [Server.step, hargs, Broadcast.groups]

/-- **A broadcast through the broker is a broadcast of the server.** The payload is read as
what it was built from. What the listener then does to the queues is what `broadcast` of any
connection of the server does, called from a callback or from wherever else it returns; and
no other step of the server tells the two calls apart. -/
theorem broadcast_through_broker (codec : Codec) (groups : List String) (message : String)
    (s : Server) (conn : Sender) (hconn : (s.handle conn).channels = true) (caller : Nat) :
    BrokerMessage.ofPayload codec (makePayload codec groups message).toUTF8 =
        some ⟨groups, message⟩ ∧
      listened codec (makePayload codec groups message).toUTF8 s.store s.calls caller s.outgoing =
        (s.handle conn).broadcastVia s.store ⟨s.calls, caller, .worker⟩ groups (.str message) false
          s.outgoing ∧
      (∀ ctx, ((s.handle conn).broadcastVia s.store ⟨s.calls, caller, ctx⟩ groups (.str message)
          false s.outgoing).1 = .returned →
        listened codec (makePayload codec groups message).toUTF8 s.store s.calls caller s.outgoing =
          (s.handle conn).broadcastVia s.store ⟨s.calls, caller, ctx⟩ groups (.str message) false
            s.outgoing) ∧
      ∀ ctx rest, run Server.step s (.broadcast caller ctx (.dispatch groups message) :: rest) =
        run Server.step s
          (.broadcast caller ctx (.broadcast conn groups (.str message) false) :: rest) := by
  have hread := ofPayload_makePayload codec groups message
  have hlistened : listened codec (makePayload codec groups message).toUTF8 s.store s.calls caller
      s.outgoing = s.store.broadcast .worker groups ⟨s.calls, caller, false, .text message⟩ none
        s.outgoing := by
    rw [listened, hread]
    rfl
  refine ⟨hread, ?_, fun ctx hreturned => ?_, fun ctx rest => ?_⟩
  · rw [hlistened, broadcastVia_channels hconn]
  · rw [broadcastVia_channels hconn] at hreturned ⊢
    rw [hlistened]
    rw [broadcast_eq] at hreturned ⊢
    rw [broadcast_eq]
    exact spawnBlocked_worker hreturned
  · simp only [run, step_dispatch hconn]

/-- A message that has to be escaped, to groups whose names have to be. -/
theorem broadcast_through_broker_escaped :
    ∃ s : Server, run Server.step .init [.registry .register, .establish 0] = some s ∧
      BrokerMessage.ofPayload .shortest
          (makePayload .shortest ["room \"1\"", "", "a\\b"] "\"\\\n\x01\x7fé").toUTF8 =
        some ⟨["room \"1\"", "", "a\\b"], "\"\\\n\x01\x7fé"⟩ ∧
      listened .shortest
          (makePayload .shortest ["room \"1\"", "", "a\\b"] "\"\\\n\x01\x7fé").toUTF8
          s.store s.calls 0 s.outgoing =
        (s.handle 0).broadcastVia s.store ⟨s.calls, 0, .worker⟩ ["room \"1\"", "", "a\\b"]
          (.str "\"\\\n\x01\x7fé") false s.outgoing := by
  obtain ⟨s, hs, hconn⟩ : ∃ s : Server,
      run Server.step .init [.registry .register, .establish 0] = some s ∧
        (s.handle 0).channels = true := ⟨_, rfl, rfl⟩
  have h := broadcast_through_broker .shortest ["room \"1\"", "", "a\\b"] "\"\\\n\x01\x7fé"
    s 0 hconn 0
  exact ⟨s, hs, h.1, h.2.1⟩

end Webrockets
