import Webrockets.DjangoAuth
import Webrockets.Handshake
import Webrockets.WsConnect

/-! A client that connects to a route with authenticators.

The client puts its credentials into the headers of its configuration and into the URL
(`ws_connect`). They come to the server, which asks the authenticators and answers
(`handle_ws_upgrade`), and the client returns or raises the status that it is answered with.
`login` says how `ws_connect` ends: as the credentials have it, and otherwise with 401. It is about
requests that `Arrives` describes, and about `connect` without a timeout: with one, every error is
a `RuntimeError`. -/
namespace Webrockets
open Transition Fallible

/-! ### What comes to the server -/

/-- The values of a header, however its name is written. -/
def headerValues (headers : List (String × String)) (name : String) : List String :=
  (headers.filter fun h => h.1.toLower = name.toLower).map Prod.snd

/-- How a request comes to the server: plain values under their names, in the order of each name,
and the query of the URL. Cookies and the query are put together as they are listed. -/
structure Arrives (request : HandshakeRequest) (uri : Uri) (headerMap : HeaderMap)
    (cookies : Option (List Segment)) (fields : List QueryString.Field) : Prop where
  plain : ∀ h ∈ request.headers, Plain h.2
  headers : ∀ name, (headerMap.filter fun e => e.1.text = name.toLower).map Prod.snd =
    (headerValues request.headers name).map bytesOf
  query : uri.query = request.uri.query
  cookies : (headerValues request.headers "cookie").head? = cookies.map cookieHeader
  fields : request.uri.query.getD "" = .ofList (QueryString.queryOf fields)

section Arrives
variable {request : HandshakeRequest} {uri : Uri} {headerMap : HeaderMap}
  {cookies : Option (List Segment)} {fields : List QueryString.Field}

theorem Arrives.readable (h : Arrives request uri headerMap cookies fields) :
    headerMap.readable = headerValues request.headers := by
  funext name
  have hreadable : headerMap.readable name =
      ((headerMap.filter fun e => e.1.text = name.toLower).map Prod.snd).filterMap fun value =>
        if value.all isVisibleByte then some (.ofList (value.map charOfByte)) else none := by
    rw [List.filterMap_map, List.filterMap_filter]
    refine List.filterMap_congr fun e _ => ?_
    rw [HeaderName.toLower_text]
    by_cases hname : e.1.text = name.toLower
    · simp [hname]
    · simp [hname]
  rw [hreadable, h.headers, List.filterMap_map]
  refine (List.filterMap_congr fun v hv => ?_).trans List.filterMap_some
  obtain ⟨e, he, rfl⟩ := List.mem_map.mp hv
  have hvisible := (h.plain e (List.mem_of_mem_filter he)).visible
  have hmap := map_bytesOf hvisible
  rw [← hmap, List.all_map] at hvisible
  show (if (bytesOf e.2).all isVisibleByte then some (.ofList ((bytesOf e.2).map charOfByte))
    else none) = some e.2
  rw [hmap, String.ofList_toList]
  exact if_pos hvisible

theorem Arrives.cookie (h : Arrives request uri headerMap cookies fields) :
    headerMap.get "cookie" = cookies.map fun segments => bytesOf (cookieHeader segments) := by
  have hlower : "cookie".toLower = "cookie" := HeaderName.toLower_text cookieName
  have hheaders := h.headers "cookie"
  rw [hlower] at hheaders
  rw [HeaderMap.get, ← List.head?_filter, ← List.head?_map, hheaders, List.head?_map, h.cookies,
    Option.map_map]
  rfl

end Arrives

/-! ### What the server answers -/

namespace Handshake
variable {r : Upgrade} {s t : Handshake} {view : WebsocketRoute}

def answer (s : Handshake) : Option Response :=
  match s.stage with
  | .accepted response _ => some response
  | .rejected response => some response
  | _ => none

/-- The authenticators let the request in. -/
def LetsIn (r : Upgrade) (view : WebsocketRoute) : Prop :=
  ∃ conn, Webrockets.authenticate (authClasses r view) r.incoming = .ok conn

/-- What the authenticators have decided, at each stage. -/
def Judged (r : Upgrade) (view : WebsocketRoute) (s : Handshake) : Prop :=
  match s.stage with
  | .arrived | .found _ => True
  | .authenticated _ | .invoked | .copied _ | .connected _ => LetsIn r view
  | .accepted response _ => LetsIn r view ∧ response.status = 101
  | .rejected response => ¬ LetsIn r view ∧ response.status = 401 ∨
      LetsIn r view ∧ (response.status = 400 ∨ response.status = 500)

theorem authenticate_error {l : List Authenticator} {conn : IncomingConnection} {response : Response}
    (h : Webrockets.authenticate l conn = .error response) : response = authenticationFailed := by
  simp only [Webrockets.authenticate] at h
  split at h
  · cases h
  · exact (Except.error.inj h).symm

theorem step_judged (hview : r.handler = some view) (hbefore : view.connectBeforeCallback = none)
    (hs : Sound r s) (hnone : s.coroutine = none) (hj : Judged r view s) {a : Action}
    (ha : a ≠ .blockingLost) (h : step r a s = some t) : Judged r view t := by
  have hfollows := hs.follows
  cases a with
  | lookup =>
    simp only [step] at h
    split at h
    · obtain rfl := Option.some.inj h
      rw [lookup, hview]
      trivial
    · cases h
  | authenticate =>
    simp only [step] at h
    split at h
    · next view' hstage =>
      simp only [Follows, hstage] at hfollows
      obtain ⟨hview', hincoming, _⟩ := hfollows
      obtain rfl : view = view' := Option.some.inj (hview.symm.trans hview')
      obtain rfl := Option.some.inj h
      rw [authenticate, hincoming]
      cases hauth : Webrockets.authenticate (authClasses r view) r.incoming with
      | ok conn => exact ⟨conn, hauth⟩
      | error response =>
        refine .inl ⟨?_, ?_⟩
        · rintro ⟨conn, hconn⟩
          cases hauth.symm.trans hconn
        · rw [authenticate_error hauth]
          rfl
    · cases h
  | invoke raised =>
    simp only [step] at h
    split at h
    · next view' hstage =>
      simp only [Follows, hstage] at hfollows
      obtain rfl : view = view' := Option.some.inj (hview.symm.trans hfollows.1)
      simp only [Judged, hstage] at hj
      obtain rfl := Option.some.inj h
      cases raised with
      | true => exact .inr ⟨hj, .inr rfl⟩
      | false =>
        rw [if_neg Bool.false_ne_true, invoke, hbefore]
        exact hj
    · cases h
  | copy ok =>
    simp only [step] at h
    split at h
    · next hstage =>
      simp only [Judged, hstage] at hj
      obtain rfl := Option.some.inj h
      cases ok with
      | true => exact hj
      | false => exact .inr ⟨hj, .inr rfl⟩
    · cases h
  | blockingLost => exact absurd rfl ha
  | await =>
    simp only [step] at h
    split at h
    · next conn hstage =>
      simp only [Judged, hstage] at hj
      rw [await, hnone] at h
      obtain rfl := Option.some.inj h
      exact hj
    · cases h
  | upgrade ok =>
    simp only [step] at h
    split at h
    · next conn hstage =>
      simp only [Judged, hstage] at hj
      obtain rfl := Option.some.inj h
      cases ok with
      | true => exact ⟨hj, rfl⟩
      | false => exact .inr ⟨hj, .inl rfl⟩
    · cases h
  | assign =>
    simp only [step, hnone] at h
    cases h
  | finish how =>
    simp only [step, hnone] at h
    cases h

/-- Without `connect("before")` there is no coroutine. -/
theorem sync_of_none (hview : r.handler = some view) (hbefore : view.connectBeforeCallback = none)
    {view' : WebsocketRoute} {cb : Callback} (hview' : r.handler = some view')
    (hcb : view'.connectBeforeCallback = some cb) : cb.isAsync = false := by
  obtain rfl : view = view' := Option.some.inj (hview.symm.trans hview')
  cases hbefore.symm.trans hcb

theorem run_judged {actions : List Action} (hview : r.handler = some view)
    (hbefore : view.connectBeforeCallback = none) (hkept : .blockingLost ∉ actions)
    (h : run (step r) (start r) actions = some s) : Judged r view s := by
  refine (run_history (P := fun actions s => .blockingLost ∉ actions →
    (Sound r s ∧ s.coroutine = none) ∧ Judged r view s) (fun _ => ⟨⟨start_sound r, rfl⟩, trivial⟩)
    (fun actions a m t _ hm hstep hkept => ?_) actions h hkept).2
  rw [List.mem_append, not_or, List.mem_singleton] at hkept
  obtain ⟨hsound, hj⟩ := hm hkept.1
  exact ⟨step_sync (fun _ _ => sync_of_none hview hbefore) hsound hstep,
    step_judged hview hbefore hsound.1 hsound.2 hj (Ne.symm hkept.2) hstep⟩

/-- Without `connect("before")` the connection has the user that the authenticators have found. -/
theorem user_of_accepted {actions : List Action} {response : Response} {conn : Connection}
    (hview : r.handler = some view) (hbefore : view.connectBeforeCallback = none)
    (h : run (step r) (start r) actions = some s) (hstage : s.stage = .accepted response conn) :
    conn.base.user = (authenticated (authClasses r view) r.incoming).2.base.user := by
  have hconn : s.conn = some conn := by rw [Handshake.conn, hstage]
  have hholds := (run_holds h (start_sound r) rfl hconn).mpr (sync_settled
    (fun _ _ => sync_of_none hview hbefore) actions)
  rw [hholds.user, Upgrade.held, hview]
  dsimp only
  rw [hbefore]

end Handshake

/-! ### What the client makes of it -/

/-- `handshake::client`: a response that switches protocols is returned, of another one the
status is. -/
structure Obtains {W : Type} (handshakes : Handshakes W) (sent : Sent) (response : Response) :
    Prop where
  switched : response.status = 101 → ∃ answer, handshakes sent = .ok answer
  refused : response.status ≠ 101 →
    handshakes sent = .error (.invalidStatusCode (UInt16.ofNat response.status))

section Client
variable {W : Type} {crates : Crates} {net : Network} {config : ClientConfig}
  {handshakes : Handshakes W} {url : String} {sent : Sent} {response : Response}

theorem wsConnect_refused (hsent : sendRequest crates net config url = .ok sent)
    (hobtains : Obtains handshakes sent response) (h : response.status ≠ 101) :
    wsConnect crates net config handshakes url =
      .error (.raised (.invalidStatusCode (UInt16.ofNat response.status))) := by
  rw [wsConnect, hsent, ok_bind, handshakeClient, hobtains.refused h]
  rfl

theorem wsConnect_switched (hsent : sendRequest crates net config url = .ok sent)
    (hobtains : Obtains handshakes sent response) (h : response.status = 101) :
    ∃ result, wsConnect crates net config handshakes url = .ok result := by
  obtain ⟨answer, hanswer⟩ := hobtains.switched h
  rw [wsConnect, hsent, ok_bind, handshakeClient, hanswer]
  exact ⟨_, rfl⟩

end Client

/-- **A client gets in as its credentials have it.** The request that `ws_connect` sends comes to a
route with authenticators of these classes and without `connect("before")`. If no credential in the
headers, the cookies and the query that the client has put together is anybody's, `ws_connect`
raises the status 401. If one is, it returns, and the connection that the callbacks see has the
user of the first such; or it raises 400 or 500, but never 401. -/
theorem login {W : Type} (crates : Crates) (net : Network) (config : ClientConfig)
    (handshakes : Handshakes W) (url : String) (sent : Sent)
    (hsent : sendRequest crates net config url = .ok sent)
    (toStr : List UInt8 → Option String) (hread : ReadsVisible toStr) (lower : String → String)
    (uri : Uri) (headerMap : HeaderMap) (cookies : Option (List Segment))
    (fields : List QueryString.Field)
    (harrives : Arrives sent.request uri headerMap cookies fields) (r : Upgrade)
    (hincoming : r.incoming = .pyNew toStr uri headerMap) (view : WebsocketRoute)
    (hview : r.handler = some view) (hbefore : view.connectBeforeCallback = none)
    (l : List DjangoAuth) (hl : l ≠ [])
    (hclasses : view.authenticationClasses.map r.authenticator =
      l.map (DjangoAuth.authenticator lower r.incoming.base))
    (actions : List Handshake.Action) (s : Handshake)
    (hrun : run (Handshake.step r) (.start r) actions = some s) (hkept : .blockingLost ∉ actions)
    (response : Response) (hanswer : s.answer = some response)
    (hobtains : Obtains handshakes sent response) :
    match DjangoAuth.firstUser lower (headerValues sent.request.headers) (cookies.getD []) fields
      l with
    | none => wsConnect crates net config handshakes url = .error (.raised (.invalidStatusCode 401))
    | some user =>
      (∃ conn result, s.stage = .accepted response conn ∧ conn.base.user = some user ∧
        wsConnect crates net config handshakes url = .ok result) ∨
      ∃ status, (status = 400 ∨ status = 500) ∧
        wsConnect crates net config handshakes url =
          .error (.raised (.invalidStatusCode status)) := by
  have hquery : uri.query.getD "" = .ofList (QueryString.queryOf fields) := by
    rw [harrives.query, harrives.fields]
  have hdecided := DjangoAuth.authenticated_django lower hread harrives.cookie hquery hl
  rw [← hincoming, ← hclasses, harrives.readable] at hdecided
  have hjudged := Handshake.run_judged hview hbefore hkept hrun
  have hletsIn : Handshake.LetsIn r view ↔ DjangoAuth.firstUser lower
      (headerValues sent.request.headers) (cookies.getD []) fields l ≠ none := by
    rw [Handshake.LetsIn, authenticate, Handshake.authClasses, hdecided]
    cases DjangoAuth.firstUser lower (headerValues sent.request.headers) (cookies.getD []) fields l
    · simp
    · simp
  have hstage : (∃ conn, s.stage = .accepted response conn) ∨ s.stage = .rejected response := by
    rw [Handshake.answer] at hanswer
    split at hanswer
    · next conn hstage =>
      cases hanswer
      exact .inl ⟨conn, hstage⟩
    · next hstage =>
      cases hanswer
      exact .inr hstage
    · cases hanswer
  rcases hstage with ⟨conn, hstage⟩ | hstage
  · simp only [Handshake.Judged, hstage] at hjudged
    have huser := Handshake.user_of_accepted hview hbefore hrun hstage
    rw [Handshake.authClasses, hdecided] at huser
    obtain ⟨result, hresult⟩ := wsConnect_switched hsent hobtains hjudged.2
    cases hfirst : DjangoAuth.firstUser lower (headerValues sent.request.headers) (cookies.getD [])
        fields l with
    | none => exact absurd hfirst (hletsIn.mp hjudged.1)
    | some user =>
      rw [hfirst] at huser
      exact .inl ⟨conn, result, hstage, huser, hresult⟩
  · simp only [Handshake.Judged, hstage] at hjudged
    rcases hjudged with ⟨hout, hstatus⟩ | ⟨hin, hstatus⟩
    · have hresult := wsConnect_refused hsent hobtains (by rw [hstatus]; decide)
      rw [hstatus] at hresult
      rw [hletsIn, not_not] at hout
      rw [hout]
      exact hresult
    · have hrefused : response.status ≠ 101 := by
        rcases hstatus with h | h <;> rw [h] <;> decide
      have hresult := wsConnect_refused hsent hobtains hrefused
      cases hfirst : DjangoAuth.firstUser lower (headerValues sent.request.headers) (cookies.getD [])
          fields l with
      | none => exact absurd hfirst (hletsIn.mp hin)
      | some user =>
        refine .inr ⟨_, ?_, hresult⟩
        rcases hstatus with h | h <;> rw [h]
        · exact .inl rfl
        · exact .inr rfl

/-! ### A token in a header -/

def tokenSent : Sent := ⟨.plain, "localhost:8443",
  handshakeRequest localhost tokenConfig localhostUri "localhost:8443"⟩

/-- The headers as they arrive, by their names. -/
def tokenArrived : List (HeaderName × String × String) :=
  [(⟨"host", by decide⟩, "Host", "localhost:8443"), (⟨"upgrade", by decide⟩, "upgrade", "websocket"),
    (⟨"connection", by decide⟩, "connection", "upgrade"),
    (⟨"sec-websocket-key", by decide⟩, "Sec-WebSocket-Key", "dGhlIHNhbXBsZSBub25jZQ=="),
    (⟨"sec-websocket-version", by decide⟩, "Sec-WebSocket-Version", "13"),
    (authorization, "Authorization", "Bearer your-token-here")]

def tokenHeaders : HeaderMap := tokenArrived.map fun e => (e.1, bytesOf e.2.2)

def bearerToken (token : String) : Authenticated :=
  if token = "your-token-here" then .ok (some 7) else failed "Invalid token"

def bearerAuth : DjangoAuth := .header { validateToken := bearerToken }

def tokenUpgrade : Upgrade where
  handler := some (WebsocketRoute.new "ws/" none [0])
  incoming := .pyNew readVisible localhostUri tokenHeaders
  authenticator := fun _ => bearerAuth.authenticator String.toLower
    (IncomingConnection.pyNew readVisible localhostUri tokenHeaders).base
  assignments := fun _ => []
  headerFromStr := fun s => some (bytesOf s)

def letIn : List Handshake.Action :=
  [.lookup, .authenticate, .invoke false, .copy true, .await, .upgrade true]

theorem headers_arrive {l : List (HeaderName × String × String)}
    (hl : ∀ e ∈ l, e.2.1.toLower = e.1.text) (name : String) :
    ((l.map fun e => (e.1, bytesOf e.2.2)).filter fun e => e.1.text = name.toLower).map Prod.snd =
      (headerValues (l.map Prod.snd) name).map bytesOf := by
  have hfilter : l.filter (fun e => decide (e.1.text = name.toLower)) =
      l.filter fun e => decide (e.2.1.toLower = name.toLower) := by
    refine List.filter_congr fun e he => ?_
    rw [hl e he]
  rw [headerValues, List.filter_map, List.filter_map, List.map_map, List.map_map, List.map_map]
  exact congrArg (List.map fun e => bytesOf e.2.2) hfilter

theorem arrives_token : Arrives tokenSent.request localhostUri tokenHeaders none [] where
  plain := by
    intro h hh
    have hmem : h ∈ tokenArrived.map Prod.snd := hh
    simp only [tokenArrived, List.map_cons, List.map_nil, List.mem_cons, List.not_mem_nil,
      or_false] at hmem
    rcases hmem with rfl | rfl | rfl | rfl | rfl | rfl <;>
      exact ⟨by decide, by simp [isBlank], by simp [isBlank]⟩
  headers := headers_arrive (l := tokenArrived) (by decide +kernel)
  query := rfl
  cookies := by decide +kernel
  fields := rfl

theorem login_token :
    ∃ s conn result, run (Handshake.step tokenUpgrade) (.start tokenUpgrade) letIn = some s ∧
      s.stage = .accepted ⟨101, "", none⟩ conn ∧ conn.base.user = some 7 ∧
      wsConnect localhost .quiet tokenConfig (fun _ => .ok ((), none)) "wss://localhost:8443/ws/" =
        .ok result := by
  have hbind : (run (Handshake.step tokenUpgrade) (.start tokenUpgrade) letIn).bind
      Handshake.answer = some ⟨101, "", none⟩ := by decide +kernel
  obtain ⟨s, hrun, hanswer⟩ := Option.bind_eq_some_iff.mp hbind
  have hlogin := login localhost .quiet tokenConfig (fun _ => .ok ((), none))
    "wss://localhost:8443/ws/" tokenSent rfl readVisible readsVisible_readVisible String.toLower
    localhostUri tokenHeaders none [] arrives_token tokenUpgrade rfl _ rfl rfl [bearerAuth] (by simp)
    rfl letIn s hrun (by decide) ⟨101, "", none⟩ hanswer ⟨fun _ => ⟨_, rfl⟩, fun h => absurd rfl h⟩
  have hfirst : DjangoAuth.firstUser String.toLower (headerValues tokenSent.request.headers)
      ((none : Option (List Segment)).getD []) [] [bearerAuth] = some 7 := by decide +kernel
  rw [hfirst] at hlogin
  rcases hlogin with ⟨conn, result, hstage, huser, hresult⟩ | ⟨status, _, hresult⟩
  · exact ⟨s, conn, result, hrun, hstage, huser, hresult⟩
  · cases hresult

end Webrockets
