import Webrockets.Request
import Webrockets.Library.Fallible

/-! How a client connects (`ws_connect`).

The port is chosen by the scheme of the URL, and the stream by `verify_ssl`. A `wss` request goes
over TLS if `verify_ssl` is set, and in plain text if it is not: `transport_by_scheme`. -/
namespace Webrockets
open Fallible

/-! ### Configurations and failures -/

/-- `extraHeaders` has the headers in the order in which the map goes through them. -/
structure ClientConfig where
  extraHeaders : Option (List (String × String))
  maxMessageSize : Option Nat
  verifySsl : Bool
  subprotocols : Option (List String)
  deriving DecidableEq, Repr

/-- What connecting raises. The subclasses of `OSError` have their name. -/
inductive ConnectErr where
  | runtimeError (text : String)
  | invalidStatusCode (statusCode : UInt16)
  | osError (name text : String)
  deriving DecidableEq, Repr

/-- How a call ends that does not return. -/
inductive Failure where
  | raised (e : ConnectErr)
  | panicked
  deriving DecidableEq, Repr

inductive WebSocketError where
  | invalidStatusCode (statusCode : UInt16)
  | other (text : String)
  deriving DecidableEq, Repr

structure HandshakeRequest where
  uri : Uri
  headers : List (String × String)
  deriving DecidableEq, Repr

inductive Transport where
  | tls
  | plain
  deriving DecidableEq, Repr

/-- A request, the stream it is written to and the address at the other end. -/
structure Sent where
  transport : Transport
  addr : String
  request : HandshakeRequest
  deriving DecidableEq, Repr

structure ClientReader (W : Type) where
  stream : W
  maxMessageSize : Option Nat
  deriving DecidableEq, Repr

structure ClientWriter (W : Type) where
  stream : W
  deriving DecidableEq, Repr

/-! ### What connecting asks for -/

/-- `Uri::from_str`, `ServerName::try_from`, the error of `Builder::body`, `HeaderValue::to_str`
and what `generate_key` gives this time. -/
structure Crates where
  parse : String → Except String Uri
  serverName : String → Bool
  requestError : HandshakeRequest → Option String
  toStr : List UInt8 → Option String
  key : String

/-- The errors of `TcpStream::connect`, `tls_connector` and `TlsConnector::connect`, if any. The
last one is raised as it is. -/
structure Network where
  tcpError : String → Option String
  tlsConnectorError : Option String
  tlsError : String → String → Option ConnectErr

/-- What the server answers: a websocket and the value of `Sec-WebSocket-Protocol`, or an error. -/
abbrev Handshakes (W : Type) := Sent → Except WebSocketError (W × Option (List UInt8))

/-! ### `ws_connect` -/

def Uri.defaultPort (uri : Uri) : UInt16 := if uri.scheme = some "wss" then 443 else 80

/-- `format!("{host}:{port}")`. -/
def addrOf (host : String) (port : UInt16) : String := host ++ ":" ++ toString port.toNat

def Uri.addr (uri : Uri) (host : String) : String :=
  addrOf host (uri.port.getD uri.defaultPort)

def raiseRuntimeError {α : Type} (text : String) : Except Failure α :=
  .error (.raised (.runtimeError text))

section Connect
variable (crates : Crates) (net : Network) (config : ClientConfig)

def parseUrl (url : String) : Except Failure Uri :=
  match crates.parse url with
  | .ok uri => .ok uri
  | .error e => raiseRuntimeError ("invalid URL: " ++ e)

def hostOf (uri : Uri) : Except Failure String :=
  match uri.host with
  | some host => .ok host
  | none => raiseRuntimeError "URL missing host"

def tcpConnect (addr : String) : Except Failure Unit :=
  match net.tcpError addr with
  | some e => raiseRuntimeError ("unable to connect to " ++ addr ++ ": " ++ e)
  | none => .ok ()

/-- The stream over the connection. `tls_connector().unwrap()` panics. -/
def openStream (host addr : String) : Except Failure Transport :=
  if config.verifySsl then
    if net.tlsConnectorError.isSome then .error .panicked
    else if !crates.serverName host then
      .error (.raised (.osError "OSError" "invalid dnsname"))
    else
      match net.tlsError host addr with
      | some e => .error (.raised e)
      | none => .ok .tls
  else .ok .plain

def handshakeRequest (uri : Uri) (addr : String) : HandshakeRequest where
  uri := uri
  headers :=
    [("Host", addr), ("upgrade", "websocket"), ("connection", "upgrade"),
      ("Sec-WebSocket-Key", crates.key), ("Sec-WebSocket-Version", "13")] ++
    (match config.subprotocols with
      | some protocols => [("Sec-WebSocket-Protocol", ", ".intercalate protocols)]
      | none => []) ++
    config.extraHeaders.getD []

def buildRequest (request : HandshakeRequest) : Except Failure HandshakeRequest :=
  match crates.requestError request with
  | some e => raiseRuntimeError ("unable to construct request: " ++ e)
  | none => .ok request

/-- `ws_connect` up to the handshake. -/
def sendRequest (url : String) : Except Failure Sent := do
  let uri ← parseUrl crates url
  let host ← hostOf uri
  let addr := uri.addr host
  tcpConnect net addr
  let transport ← openStream crates net config host addr
  let request ← buildRequest crates (handshakeRequest crates config uri addr)
  return ⟨transport, addr, request⟩

def handshakeClient {W : Type} (handshakes : Handshakes W) (sent : Sent) :
    Except Failure (W × Option (List UInt8)) :=
  match handshakes sent with
  | .ok answer => .ok answer
  | .error (.invalidStatusCode statusCode) => .error (.raised (.invalidStatusCode statusCode))
  | .error (.other text) => raiseRuntimeError ("error on client handshake: " ++ text)

def wsConnect {W : Type} (handshakes : Handshakes W) (url : String) :
    Except Failure (ClientReader W × ClientWriter W × Option String) := do
  let sent ← sendRequest crates net config url
  let (ws, protocol) ← handshakeClient handshakes sent
  return (⟨ws, config.maxMessageSize⟩, ⟨ws⟩, (protocol.bind crates.toStr).map trim)

end Connect

/-! ### The steps -/

section Steps
variable {crates : Crates} {net : Network} {config : ClientConfig}

theorem parseUrl_eq_ok {url : String} {uri : Uri} :
    parseUrl crates url = .ok uri ↔ crates.parse url = .ok uri := by
  unfold parseUrl raiseRuntimeError
  cases crates.parse url <;> simp

theorem hostOf_eq_ok {uri : Uri} {host : String} : hostOf uri = .ok host ↔ uri.host = some host := by
  unfold hostOf raiseRuntimeError
  cases uri.host <;> simp

theorem tcpConnect_eq_ok {addr : String} {u : Unit} :
    tcpConnect net addr = .ok u ↔ net.tcpError addr = none := by
  unfold tcpConnect raiseRuntimeError
  cases net.tcpError addr <;> simp

theorem buildRequest_eq_ok {request sent : HandshakeRequest} :
    buildRequest crates request = .ok sent ↔ crates.requestError request = none ∧ request = sent := by
  unfold buildRequest raiseRuntimeError
  cases crates.requestError request <;> simp

/-- The stream is the one that `verify_ssl` asks for. -/
theorem openStream_eq_ok {host addr : String} {transport : Transport} :
    openStream crates net config host addr = .ok transport ↔
      (config.verifySsl = true → net.tlsConnectorError = none ∧ crates.serverName host = true ∧
        net.tlsError host addr = none) ∧
      transport = if config.verifySsl then .tls else .plain := by
  unfold openStream
  cases config.verifySsl with
  | false => simp [@eq_comm _ transport]
  | true =>
    cases net.tlsConnectorError with
    | some e => simp
    | none =>
      cases crates.serverName host with
      | false => simp
      | true => cases net.tlsError host addr <;> simp [@eq_comm _ transport]

end Steps

/-! ### Schemes -/

/-- Schemes are compared without case. -/
def Uri.IsWss (uri : Uri) : Prop :=
  uri.scheme.map (fun scheme => scheme.toList.map Char.toLower) = some ['w', 's', 's']

instance (uri : Uri) : Decidable uri.IsWss := inferInstanceAs (Decidable (_ = _))

/-- What the scheme says of a request that is sent. -/
structure BySchemeOnly (config : ClientConfig) (uri : Uri) (host : String) (sent : Sent) : Prop where
  transport : sent.transport = .tls ↔ uri.IsWss
  addr : sent.addr = addrOf host (uri.port.getD (if uri.IsWss then 443 else 80))
  uri : sent.request.uri = uri
  protocols : ∀ protocols, config.subprotocols = some protocols →
    ("Sec-WebSocket-Protocol", ", ".intercalate protocols) ∈ sent.request.headers
  extraHeaders : ∀ headers, config.extraHeaders = some headers →
    ∀ header ∈ headers, header ∈ sent.request.headers

/-- Whatever the network does, nothing is sent: the request cannot be built, or the host is no
name for TLS. -/
def NeverSends (crates : Crates) (config : ClientConfig) (uri : Uri) (host : String) : Prop :=
  (crates.requestError (handshakeRequest crates config uri (uri.addr host))).isSome = true ∨
  config.verifySsl = true ∧ crates.serverName host = false

theorem isWss_of_scheme {uri : Uri} (h : uri.scheme = some "wss") : uri.IsWss := by
  rw [Uri.IsWss, h]
  decide

theorem addrOf_inj {host : String} {p q : UInt16} (h : addrOf host p = addrOf host q) :
    toString p.toNat = toString q.toNat := by
  have hlist := congrArg String.toList h
  simp only [addrOf, String.toList_append, List.append_assoc, List.append_cancel_left_eq] at hlist
  exact String.toList_inj.mp hlist

section Scheme
variable {crates : Crates} {net : Network} {config : ClientConfig} {uri : Uri} {host url : String}

/-- When a request is sent, and what it is. -/
theorem sendRequest_eq_ok (hparse : crates.parse url = .ok uri) (hhost : uri.host = some host)
    {sent : Sent} :
    sendRequest crates net config url = .ok sent ↔
      net.tcpError (uri.addr host) = none ∧
      (config.verifySsl = true → net.tlsConnectorError = none ∧ crates.serverName host = true ∧
        net.tlsError host (uri.addr host) = none) ∧
      crates.requestError (handshakeRequest crates config uri (uri.addr host)) = none ∧
      sent = ⟨if config.verifySsl then .tls else .plain, uri.addr host,
        handshakeRequest crates config uri (uri.addr host)⟩ := by
  have huri : parseUrl crates url = .ok uri := parseUrl_eq_ok.mpr hparse
  have hname : hostOf uri = .ok host := hostOf_eq_ok.mpr hhost
  rw [sendRequest, huri, ok_bind, hname, ok_bind]
  simp [-bind_pure_comp, bind_eq_ok, tcpConnect_eq_ok, openStream_eq_ok, buildRequest_eq_ok, pure,
    Except.pure, @eq_comm _ sent, and_assoc]

/-- The port is 443 for a scheme that is written `wss`. -/
theorem addr_byScheme :
    uri.addr host = addrOf host (uri.port.getD (if uri.IsWss then 443 else 80)) ↔
      (uri.IsWss → uri.port = none → uri.scheme = some "wss") := by
  unfold Uri.addr
  cases hport : uri.port with
  | some port => simp
  | none =>
    rw [Option.getD_none, Option.getD_none, Uri.defaultPort]
    by_cases hscheme : uri.scheme = some "wss"
    · simp [hscheme, isWss_of_scheme hscheme]
    · by_cases hwss : uri.IsWss
      · refine iff_of_false (fun h => ?_) (by simp [hscheme, hwss])
        rw [if_neg hscheme, if_pos hwss] at h
        exact absurd (addrOf_inj h) (by decide)
      · simp [hscheme, hwss]

theorem bySchemeOnly_of (hverify : config.verifySsl = true ↔ uri.IsWss)
    (hport : uri.IsWss → uri.port = none → uri.scheme = some "wss") :
    BySchemeOnly config uri host ⟨if config.verifySsl then .tls else .plain, uri.addr host,
      handshakeRequest crates config uri (uri.addr host)⟩ where
  transport := by
    rw [← hverify]
    cases config.verifySsl <;> simp
  addr := addr_byScheme.mpr hport
  uri := rfl
  protocols := by
    intro protocols h
    simp [handshakeRequest, h]
  extraHeaders := by
    intro headers h header hheader
    simp [handshakeRequest, h, hheader]

/-- Nothing goes wrong in the network. -/
def Network.quiet : Network := ⟨fun _ => none, none, fun _ _ => none⟩

/-- **The scheme decides the transport only where `verify_ssl` agrees with it.** Of a URL with a
host, whatever the network does, every request that is sent goes over TLS if and only if the scheme
is `wss`, to the port given or 443 for `wss` and 80 otherwise, with all headers of the
configuration, if and only if no request is sent at all, or `verify_ssl` is set exactly for `wss`
and `wss` without a port is written in lower case. -/
theorem transport_by_scheme (crates : Crates) (config : ClientConfig) (url : String) (uri : Uri)
    (host : String) (hparse : crates.parse url = .ok uri) (hhost : uri.host = some host) :
    (∀ net sent, sendRequest crates net config url = .ok sent →
        BySchemeOnly config uri host sent) ↔
      NeverSends crates config uri host ∨
      (config.verifySsl = true ↔ uri.IsWss) ∧
        (uri.IsWss → uri.port = none → uri.scheme = some "wss") := by
  constructor
  · intro h
    by_cases hnever : NeverSends crates config uri host
    · exact .inl hnever
    · obtain ⟨hrequest, hname⟩ := not_or.mp hnever
      have hrequest :
          crates.requestError (handshakeRequest crates config uri (uri.addr host)) = none := by
        simpa using hrequest
      have hname : config.verifySsl = true → crates.serverName host = true := by
        simpa using hname
      have hsent := h .quiet _ ((sendRequest_eq_ok hparse hhost).mpr
        ⟨rfl, fun hverify => ⟨rfl, hname hverify, rfl⟩, hrequest, rfl⟩)
      refine .inr ⟨?_, addr_byScheme.mp hsent.addr⟩
      rw [← hsent.transport]
      cases config.verifySsl <;> simp
  · rintro (hnever | ⟨hverify, hport⟩) net sent hsent
    · obtain ⟨-, hstream, hrequest, -⟩ := (sendRequest_eq_ok hparse hhost).mp hsent
      rcases hnever with hnever | ⟨hverify, hname⟩
      · simp [hrequest] at hnever
      · simp [(hstream hverify).2.1] at hname
    · obtain ⟨-, -, -, rfl⟩ := (sendRequest_eq_ok hparse hhost).mp hsent
      exact bySchemeOnly_of hverify hport

end Scheme

def localhostUri : Uri := ⟨some "wss", some "localhost", some 8443, "/ws/", none⟩

/-- Crates for a server on this host. -/
def localhost : Crates where
  parse := fun url =>
    if url = "wss://localhost:8443/ws/" then .ok localhostUri else .error "invalid uri character"
  serverName := fun host => host = "localhost"
  requestError := fun _ => none
  toStr := readVisible
  key := "dGhlIHNhbXBsZSBub25jZQ=="

theorem transport_by_scheme_localhost :
    ∃ sent, sendRequest localhost .quiet ⟨none, none, true, none⟩ "wss://localhost:8443/ws/" =
        .ok sent ∧
      BySchemeOnly ⟨none, none, true, none⟩ localhostUri "localhost" sent :=
  ⟨_, rfl, (transport_by_scheme localhost ⟨none, none, true, none⟩ "wss://localhost:8443/ws/"
    localhostUri "localhost" rfl rfl).mpr (.inr ⟨by decide, by decide⟩) .quiet _ rfl⟩

def tokenConfig : ClientConfig :=
  ⟨some [("Authorization", "Bearer your-token-here")], none, false, none⟩

/-- The token of a `wss` request is written to the connection as it is. -/
theorem token_in_plain_text :
    localhostUri.IsWss ∧
      sendRequest localhost .quiet tokenConfig "wss://localhost:8443/ws/" =
        .ok ⟨.plain, "localhost:8443", ⟨localhostUri, [("Host", "localhost:8443"),
          ("upgrade", "websocket"), ("connection", "upgrade"),
          ("Sec-WebSocket-Key", "dGhlIHNhbXBsZSBub25jZQ=="), ("Sec-WebSocket-Version", "13"),
          ("Authorization", "Bearer your-token-here")]⟩⟩ := by
  decide

end Webrockets
