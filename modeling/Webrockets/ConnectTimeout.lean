import Webrockets.WsConnect

/-! Connecting with a timeout (`client/sync.rs`, `client/async.rs`).

A call with a timeout hands on what `ws_connect` has in time. It does so for a connection, and makes
a `RuntimeError` of every exception, which a call without a timeout raises as it is:
`timed_connect_agrees`. -/
namespace Webrockets
open Fallible

/-! ### The calls -/

/-- What a call of `ws_connect` meets, how long it takes in milliseconds, and what is made of that:
whether tokio's `timeout` has the result or `Elapsed`, and `{e}` of an exception. -/
structure World (W : Type) where
  crates : Crates
  net : Network
  handshakes : Handshakes W
  elapsed : Nat
  inTime : Nat → Nat → Bool
  display : ConnectErr → String

/-- `Client` of `client/sync.rs`. -/
structure SyncClient (W : Type) where
  reader : Option (ClientReader W)
  writer : Option (ClientWriter W)
  config : ClientConfig
  negotiatedProtocol : Option String
  deriving DecidableEq, Repr

structure AsyncClient (W : Type) extends SyncClient W where
  pendingUrl : Option String
  pendingTimeout : Option Nat

abbrev Connected (W : Type) := ClientReader W × ClientWriter W × Option String

def ClientConfig.default : ClientConfig := ⟨none, none, false, none⟩

section Calls
variable {W : Type} (w : World W)

def World.wsConnect (config : ClientConfig) (url : String) : Except Failure (Connected W) :=
  Webrockets.wsConnect w.crates w.net config w.handshakes url

/-- Both exceptions of a call with a timeout, one `map_err` after the other. A panic is none. -/
def World.mapTimed (result : Option (Except Failure (Connected W))) :
    Except Failure (Connected W) :=
  match result with
  | none => .error (.raised (.osError "TimeoutError" "connect timed out"))
  | some (.ok connected) => .ok connected
  | some (.error (.raised e)) => raiseRuntimeError (w.display e)
  | some (.error .panicked) => .error .panicked

/-- The `match timeout` of the calls. -/
def World.connect (config : ClientConfig) (url : String) (timeout : Option Nat) :
    Except Failure (Connected W) :=
  match timeout with
  | some millis =>
    w.mapTimed (if w.inTime millis w.elapsed then some (w.wsConnect config url) else none)
  | none => w.wsConnect config url

def SyncClient.install (client : SyncClient W) :
    Except Failure (Connected W) → Except Failure Unit × SyncClient W
  | .ok (reader, writer, protocol) =>
    (.ok (), { client with
      reader := some reader, writer := some writer, negotiatedProtocol := protocol })
  | .error e => (.error e, client)

def SyncClient.connect (client : SyncClient W) (url : String) (timeout : Option Nat) :
    Except Failure Unit × SyncClient W :=
  client.install (w.connect client.config url timeout)

/-- `?`, and then the client. -/
def returned : Except Failure Unit × SyncClient W → Except Failure (SyncClient W)
  | (.ok (), client) => .ok client
  | (.error e, _) => .error e

def connect (url : String) (config : Option ClientConfig) (timeout : Option Nat) :
    Except Failure (SyncClient W) :=
  returned ((SyncClient.mk none none (config.getD .default) none).connect w url timeout)

namespace AsyncClient

def install (client : AsyncClient W) (connected : Except Failure (Connected W)) :
    Except Failure Unit × AsyncClient W :=
  let (result, opened) := client.toSyncClient.install connected
  (result, { client with toSyncClient := opened })

def connect (client : AsyncClient W) (url : String) (timeout : Option Nat) :
    Except Failure Unit × AsyncClient W :=
  client.install (w.connect client.config url timeout)

def aenter (client : AsyncClient W) : Except Failure Unit × AsyncClient W :=
  match client.pendingUrl with
  | some url => client.install (w.connect client.config url client.pendingTimeout)
  | none => (raiseRuntimeError "no url was provided", client)

end AsyncClient

def aconnect (url : String) (config : Option ClientConfig) (timeout : Option Nat) : AsyncClient W :=
  ⟨⟨none, none, config.getD .default, none⟩, some url, timeout⟩

end Calls

/-- What is in time has its result, and an exception is told with its type. -/
structure World.Lawful {W : Type} (w : World W) : Prop where
  inTime : ∀ millis elapsed, elapsed < millis → w.inTime millis elapsed = true
  display : ∀ text, w.display (.runtimeError text) = "RuntimeError: " ++ text

/-! ### Failures -/

def Raises {α : Type} (result : Except Failure α) : Prop := ∃ e, result = .error (.raised e)

theorem raises_bind {α β : Type} {first : Except Failure α} {next : α → Except Failure β} :
    Raises (first >>= next) ↔ Raises first ∨ ∃ a, first = .ok a ∧ Raises (next a) := by
  unfold Raises
  simp only [bind_eq_error]
  grind

theorem not_raises_ok {α : Type} (a : α) : ¬ Raises (.ok a) := by
  rintro ⟨e, he⟩
  cases he

section Steps
variable {crates : Crates} {net : Network} {config : ClientConfig}

theorem raises_parseUrl {url : String} :
    Raises (parseUrl crates url) ↔ ∃ e, crates.parse url = .error e := by
  unfold Raises parseUrl raiseRuntimeError
  cases crates.parse url <;> simp

theorem raises_hostOf {uri : Uri} : Raises (hostOf uri) ↔ uri.host = none := by
  unfold Raises hostOf raiseRuntimeError
  cases uri.host <;> simp

theorem raises_tcpConnect {addr : String} :
    Raises (tcpConnect net addr) ↔ ∃ e, net.tcpError addr = some e := by
  unfold Raises tcpConnect raiseRuntimeError
  cases net.tcpError addr <;> simp

/-- The stream fails for the name or in the TLS handshake. Without a connector it panics. -/
theorem raises_openStream {host addr : String} :
    Raises (openStream crates net config host addr) ↔
      config.verifySsl = true ∧ net.tlsConnectorError = none ∧
        (crates.serverName host = false ∨ ∃ e, net.tlsError host addr = some e) := by
  unfold Raises openStream
  cases config.verifySsl with
  | false => simp
  | true =>
    cases net.tlsConnectorError with
    | some e => simp
    | none =>
      cases crates.serverName host with
      | false => simp
      | true => cases net.tlsError host addr <;> simp

/-- With a connector there is a stream, or an exception. -/
theorem stream_of_not_raises {host addr : String}
    (h : ¬ Raises (openStream crates net config host addr))
    (hconnector : config.verifySsl = true → net.tlsConnectorError = none) :
    config.verifySsl = true → net.tlsConnectorError = none ∧ crates.serverName host = true ∧
      net.tlsError host addr = none := by
  intro hverify
  have hnot : ¬ (crates.serverName host = false ∨ ∃ e, net.tlsError host addr = some e) :=
    fun hfails => h (raises_openStream.mpr ⟨hverify, hconnector hverify, hfails⟩)
  obtain ⟨hname, htls⟩ := not_or.mp hnot
  refine ⟨hconnector hverify, by simpa using hname, ?_⟩
  exact Option.eq_none_iff_forall_ne_some.mpr fun e he => htls ⟨e, he⟩

theorem raises_buildRequest {request : HandshakeRequest} :
    Raises (buildRequest crates request) ↔ ∃ e, crates.requestError request = some e := by
  unfold Raises buildRequest raiseRuntimeError
  cases crates.requestError request <;> simp

theorem raises_handshakeClient {W : Type} {handshakes : Handshakes W} {sent : Sent} :
    Raises (handshakeClient handshakes sent) ↔ ∃ e, handshakes sent = .error e := by
  unfold Raises handshakeClient raiseRuntimeError
  cases handshakes sent with
  | ok answer => simp
  | error e => cases e <;> simp

end Steps

section Failures
variable {W : Type} (w : World W) (config : ClientConfig)

/-- What goes out to a host, once there is a stream. -/
def sentTo (uri : Uri) (host : String) : Sent :=
  ⟨if config.verifySsl then .tls else .plain, uri.addr host,
    handshakeRequest w.crates config uri (uri.addr host)⟩

/-- The ways in which connecting to a host raises. -/
inductive FailsAt (uri : Uri) (host : String) : Prop where
  | unreachable {e : String} (h : w.net.tcpError (uri.addr host) = some e)
  | invalidName (hverify : config.verifySsl = true) (hconnector : w.net.tlsConnectorError = none)
    (h : w.crates.serverName host = false)
  | tls {e : ConnectErr} (hverify : config.verifySsl = true)
    (hconnector : w.net.tlsConnectorError = none)
    (h : w.net.tlsError host (uri.addr host) = some e)
  | invalidRequest {e : String}
    (hconnector : config.verifySsl = true → w.net.tlsConnectorError = none)
    (h : w.crates.requestError (sentTo w config uri host).request = some e)
  | handshake {e : WebSocketError}
    (hconnector : config.verifySsl = true → w.net.tlsConnectorError = none)
    (h : w.handshakes (sentTo w config uri host) = .error e)

inductive Fails (url : String) : Prop where
  | invalidUrl {e : String} (h : w.crates.parse url = .error e)
  | missingHost {uri : Uri} (hparse : w.crates.parse url = .ok uri) (h : uri.host = none)
  | failsAt {uri : Uri} {host : String} (hparse : w.crates.parse url = .ok uri)
    (hhost : uri.host = some host) (h : FailsAt w config uri host)

variable {w config} {url : String}

theorem raises_sendRequest {uri : Uri} {host : String} (hparse : w.crates.parse url = .ok uri)
    (hhost : uri.host = some host) :
    Raises (sendRequest w.crates w.net config url) ↔
      (∃ e, w.net.tcpError (uri.addr host) = some e) ∨
      w.net.tcpError (uri.addr host) = none ∧
        (Raises (openStream w.crates w.net config host (uri.addr host)) ∨
        (∃ transport, openStream w.crates w.net config host (uri.addr host) = .ok transport) ∧
          ∃ e, w.crates.requestError (sentTo w config uri host).request = some e) := by
  rw [sendRequest, parseUrl_eq_ok.mpr hparse, ok_bind, hostOf_eq_ok.mpr hhost, ok_bind]
  simp [-bind_pure_comp, raises_bind, raises_tcpConnect, tcpConnect_eq_ok, raises_buildRequest,
    sentTo, pure, Except.pure, not_raises_ok]

theorem raises_wsConnect_sent :
    Raises (w.wsConnect config url) ↔ Raises (sendRequest w.crates w.net config url) ∨
      ∃ sent, sendRequest w.crates w.net config url = .ok sent ∧ ∃ e, w.handshakes sent = .error e := by
  unfold World.wsConnect Webrockets.wsConnect
  simp only [raises_bind, raises_handshakeClient, pure, Except.pure, not_raises_ok, and_false,
    exists_false, or_false]

theorem raises_wsConnect {uri : Uri} {host : String} (hparse : w.crates.parse url = .ok uri)
    (hhost : uri.host = some host) :
    Raises (w.wsConnect config url) ↔ FailsAt w config uri host := by
  rw [raises_wsConnect_sent, raises_sendRequest hparse hhost]
  simp only [sendRequest_eq_ok hparse hhost]
  constructor
  · rintro ((⟨e, h⟩ | ⟨-, hstream | ⟨⟨transport, hstream⟩, e, h⟩⟩) |
      ⟨sent, ⟨-, hstream, -, rfl⟩, e, h⟩)
    · exact .unreachable h
    · obtain ⟨hverify, hconnector, h | ⟨e, h⟩⟩ := raises_openStream.mp hstream
      · exact .invalidName hverify hconnector h
      · exact .tls hverify hconnector h
    · exact .invalidRequest (fun hverify => ((openStream_eq_ok.mp hstream).1 hverify).1) h
    · exact .handshake (fun hverify => (hstream hverify).1) h
  · intro h
    cases htcp : w.net.tcpError (uri.addr host) with
    | some e => exact .inl (.inl ⟨e, rfl⟩)
    | none =>
      by_cases hraises : Raises (openStream w.crates w.net config host (uri.addr host))
      · exact .inl (.inr ⟨rfl, .inl hraises⟩)
      · cases h with
        | unreachable h => simp [htcp] at h
        | invalidName hverify hconnector h =>
          exact absurd (raises_openStream.mpr ⟨hverify, hconnector, .inl h⟩) hraises
        | tls hverify hconnector h =>
          exact absurd (raises_openStream.mpr ⟨hverify, hconnector, .inr ⟨_, h⟩⟩) hraises
        | invalidRequest hconnector h =>
          have hstream := stream_of_not_raises hraises hconnector
          exact .inl (.inr ⟨rfl, .inr ⟨⟨_, openStream_eq_ok.mpr ⟨hstream, rfl⟩⟩, _, h⟩⟩)
        | handshake hconnector h =>
          have hstream := stream_of_not_raises hraises hconnector
          cases hrequest : w.crates.requestError (sentTo w config uri host).request with
          | some e =>
            exact .inl (.inr ⟨rfl, .inr ⟨⟨_, openStream_eq_ok.mpr ⟨hstream, rfl⟩⟩, e, rfl⟩⟩)
          | none => exact .inr ⟨_, ⟨rfl, hstream, hrequest, rfl⟩, _, h⟩

/-- Connecting raises for each of these and for nothing else. -/
theorem raises_iff_fails : Raises (w.wsConnect config url) ↔ Fails w config url := by
  cases hparse : w.crates.parse url with
  | error e =>
    refine iff_of_true ?_ (.invalidUrl hparse)
    rw [raises_wsConnect_sent, sendRequest, raises_bind, raises_parseUrl]
    exact .inl (.inl ⟨e, hparse⟩)
  | ok uri =>
    cases hhost : uri.host with
    | none =>
      refine iff_of_true ?_ (.missingHost hparse hhost)
      rw [raises_wsConnect_sent, sendRequest, parseUrl_eq_ok.mpr hparse, ok_bind, raises_bind,
        raises_hostOf]
      exact .inl (.inl hhost)
    | some host =>
      rw [raises_wsConnect hparse hhost]
      constructor
      · exact fun h => .failsAt hparse hhost h
      · intro h
        cases h with
        | invalidUrl h => simp [hparse] at h
        | missingHost hparse' h =>
          obtain rfl := Except.ok.inj (hparse.symm.trans hparse')
          simp [hhost] at h
        | failsAt hparse' hhost' h =>
          obtain rfl := Except.ok.inj (hparse.symm.trans hparse')
          obtain rfl := Option.some.inj (hhost.symm.trans hhost')
          exact h

/-! ### Calls with and without a timeout -/

/-- The text of an exception is longer than its argument. -/
theorem display_ne (hw : w.Lawful) (e : ConnectErr) : .runtimeError (w.display e) ≠ e := by
  intro he
  have htext : w.display e = "RuntimeError: " ++ w.display e := by
    rw [← hw.display, he]
  have hlength := congrArg String.length htext
  rw [String.length_append] at hlength
  have hprefix : "RuntimeError: ".length = 14 := by decide
  omega

/-- In time, everything but an exception is handed on. -/
theorem mapTimed_eq (hw : w.Lawful) (result : Except Failure (Connected W)) :
    w.mapTimed (some result) = result ↔ ¬ Raises result := by
  cases result with
  | ok connected => exact iff_of_true rfl (not_raises_ok connected)
  | error failure =>
    cases failure with
    | panicked =>
      refine iff_of_true rfl ?_
      rintro ⟨e, he⟩
      cases he
    | raised e =>
      refine iff_of_false (fun h => ?_) (fun h => h ⟨e, rfl⟩)
      exact display_ne hw e (Failure.raised.inj (Except.error.inj h))

theorem connect_agrees (hw : w.Lawful) (config : ClientConfig) (url : String) {millis : Nat}
    (hmillis : w.elapsed < millis) :
    w.connect config url (some millis) = w.connect config url none ↔ ¬ Fails w config url := by
  simp only [World.connect, hw.inTime millis w.elapsed hmillis, if_true]
  rw [mapTimed_eq hw, raises_iff_fails]

/-- A client that has been connected says what it was given. -/
theorem SyncClient.install_inj {client : SyncClient W} {x y : Except Failure (Connected W)} :
    client.install x = client.install y ↔ x = y := by
  refine ⟨fun h => ?_, congrArg client.install⟩
  cases x with
  | ok a =>
    cases y with
    | ok b =>
      obtain ⟨reader, writer, protocol⟩ := a
      obtain ⟨reader', writer', protocol'⟩ := b
      simp only [SyncClient.install, Prod.mk.injEq, SyncClient.mk.injEq, Option.some.injEq] at h
      obtain ⟨-, rfl, rfl, -, rfl⟩ := h
      rfl
    | error e => cases congrArg Prod.fst h
  | error e =>
    cases y with
    | ok b => cases congrArg Prod.fst h
    | error e' =>
      have he : (.error e : Except Failure Unit) = .error e' := congrArg Prod.fst h
      rw [Except.error.inj he]

theorem returned_install_inj {client : SyncClient W} {x y : Except Failure (Connected W)} :
    returned (client.install x) = returned (client.install y) ↔ x = y := by
  refine ⟨fun h => ?_, fun h => by rw [h]⟩
  refine SyncClient.install_inj.mp (?_ : client.install x = client.install y)
  cases x with
  | ok a =>
    cases y with
    | ok b =>
      have hclient := Except.ok.inj h
      exact Prod.ext rfl hclient
    | error e => cases h
  | error e =>
    cases y with
    | ok b => cases h
    | error e' =>
      have he : e = e' := Except.error.inj h
      rw [he]

/-- What a caller of an `AsyncClient` sees of a call: how it ends, and what the client has then. -/
def AsyncClient.seen (call : Except Failure Unit × AsyncClient W) :
    Except Failure Unit × SyncClient W :=
  (call.1, call.2.toSyncClient)

theorem AsyncClient.install_inj {client : AsyncClient W} {x y : Except Failure (Connected W)} :
    client.install x = client.install y ↔ x = y := by
  refine ⟨fun h => ?_, congrArg client.install⟩
  have hseen := congrArg AsyncClient.seen h
  exact SyncClient.install_inj.mp hseen

end Failures

/-- **A timeout does not change how connecting ends, unless it fails.** For a result of
`ws_connect` that is there in time, each of the four calls does with a timeout what it does
without one if and only if connecting raises nothing. -/
theorem timed_connect_agrees {W : Type} (w : World W) (hw : w.Lawful) (url : String) (millis : Nat)
    (hmillis : w.elapsed < millis) :
    (∀ client : SyncClient W, client.connect w url (some millis) = client.connect w url none ↔
      ¬ Fails w client.config url) ∧
    (∀ config, connect w url config (some millis) = connect w url config none ↔
      ¬ Fails w (config.getD .default) url) ∧
    (∀ client : AsyncClient W, client.connect w url (some millis) = client.connect w url none ↔
      ¬ Fails w client.config url) ∧
    ∀ config, AsyncClient.seen ((aconnect url config (some millis)).aenter w) =
        AsyncClient.seen ((aconnect url config none).aenter w) ↔
      ¬ Fails w (config.getD .default) url := by
  have hagrees := fun config => connect_agrees hw config url hmillis
  refine ⟨fun client => ?_, fun config => ?_, fun client => ?_, fun config => ?_⟩
  · rw [← hagrees]
    exact SyncClient.install_inj
  · rw [← hagrees]
    exact returned_install_inj
  · rw [← hagrees]
    exact AsyncClient.install_inj
  · rw [← hagrees]
    exact SyncClient.install_inj

/-- The local server, five milliseconds away, as it answers a handshake. -/
def localWorld (handshakes : Handshakes Unit) : World Unit where
  crates := localhost
  net := .quiet
  handshakes := handshakes
  elapsed := 5
  inTime := fun millis elapsed => elapsed < millis
  display
    | .runtimeError text => "RuntimeError: " ++ text
    | .invalidStatusCode statusCode => "InvalidStatusCode: InvalidStatusCode(status_code=" ++
        toString statusCode.toNat ++ ")"
    | .osError name text => name ++ ": " ++ text

theorem localWorld_lawful (handshakes : Handshakes Unit) : (localWorld handshakes).Lawful where
  inTime := by
    intro millis elapsed h
    exact decide_eq_true h
  display := fun _ => rfl

def chatWorld : World Unit := localWorld fun _ => .ok ((), none)

theorem timed_connect_agrees_chat :
    connect chatWorld "wss://localhost:8443/ws/" none (some 5000) =
      connect chatWorld "wss://localhost:8443/ws/" none none := by
  have hagrees := (timed_connect_agrees chatWorld (localWorld_lawful _) "wss://localhost:8443/ws/"
    5000 (by decide)).2.1 none
  refine hagrees.mpr fun hfails => ?_
  exact not_raises_ok _ (raises_iff_fails.mpr hfails)

def forbiddenWorld : World Unit := localWorld fun _ => .error (.invalidStatusCode 403)

/-- The status code is lost in a text. -/
theorem status_code_lost :
    connect forbiddenWorld "wss://localhost:8443/ws/" none none =
        .error (.raised (.invalidStatusCode 403)) ∧
      connect forbiddenWorld "wss://localhost:8443/ws/" none (some 5000) =
        .error (.raised (.runtimeError "InvalidStatusCode: InvalidStatusCode(status_code=403)")) :=
  ⟨rfl, rfl⟩

end Webrockets
