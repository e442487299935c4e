import Webrockets.ChannelStore
import Webrockets.Message

/-! The connection objects that Python code holds (`connection.rs`).

An `IncomingConnection` is what authenticators and `connect("before")` see. The
`Connection` that all later callbacks see is made from it by `upgrade`, which
copies the fields at that moment. `sender`, `channels` and `id` are set by
`handle_client` when the connection is registered. -/
namespace Webrockets

/-- A Python object, known by its identity. -/
abbrev PyObj := Nat

structure BaseConnection where
  path : String
  queryString : String
  headers : IndexMap String String
  cookies : IndexMap String String
  user : Option PyObj
  subprotocol : Option String

def BaseConnection.new (path queryString : String) (headers cookies : IndexMap String String) :
    BaseConnection :=
  ⟨path, queryString, headers, cookies, none, none⟩

instance : Inhabited BaseConnection := ⟨.new "" "" .empty .empty⟩

/-- `channels` says whether the store is set: a server has one. -/
structure Connection where
  base : BaseConnection
  sender : Option Sender
  channels : Bool
  id : Option ConnectionID
  subprotocol : Option String

def Connection.new (base : BaseConnection) (subprotocol : Option String) : Connection :=
  ⟨base, none, false, none, subprotocol⟩

structure IncomingConnection where
  base : BaseConnection

def IncomingConnection.upgrade (incoming : IncomingConnection) : Connection :=
  .new incoming.base incoming.base.subprotocol

namespace Connection

def notEstablished : PyErr := .runtimeError "connection not established"

def channelStoreNotSet : PyErr := .runtimeError "ChannelStore is not set"

/-- What `handle_client` sets once the connection is registered. -/
def establish (conn : Connection) (tx : Sender) (id : ConnectionID) : Connection :=
  { conn with sender := some tx, channels := true, id := some id }

/-- What `broadcast` and `abroadcast` find out before they call the store. The
argument is looked at before the connection is. -/
def broadcastArgs (conn : Connection) (msg : PyValue) (excludeSelf : Bool) :
    Except PyErr (Message × Option ConnectionID) :=
  match Message.tryFrom msg with
  | .error e => .error e
  | .ok message =>
    if conn.channels then .ok (message, if excludeSelf then conn.id else none)
    else .error channelStoreNotSet

/-- The id that `join`, `leave` and `groups` go on with. -/
def connId (conn : Connection) : Except PyErr ConnectionID :=
  if conn.channels then
    match conn.id with
    | some id => .ok id
    | none => .error notEstablished
  else .error channelStoreNotSet

def join (conn : Connection) (group : String) (store : ChannelStore) :
    Except PyErr (Bool × ChannelStore) :=
  conn.connId.map fun id => store.join id group

def leave (conn : Connection) (group : String) (store : ChannelStore) :
    Except PyErr (Bool × ChannelStore) :=
  conn.connId.map fun id => store.leave id group

def groups (conn : Connection) (store : ChannelStore) : Except PyErr (List String) :=
  conn.connId.map store.getGroups

def groupSize (conn : Connection) (group : String) (store : ChannelStore) : Except PyErr Nat :=
  if conn.channels then .ok (store.groupSize group) else .error channelStoreNotSet

end Connection

end Webrockets
