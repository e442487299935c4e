import Webrockets.Authentication
import Webrockets.Cookies
import Webrockets.Dispatch
import Webrockets.Library.QueryString

/-! The authenticators for Django (`django/auth.py`).

Each of them reads a session or a token from a cookie, a header or the query string, and asks
Django or the application whose it is. Where it finds none it raises `AuthenticationFailed` with a
close code. `django_authenticated` says what a route with such authenticators answers to a request:
the first credential that is somebody's decides, wherever the others are missing or wrong, and no
client hears of an error more than that there is one. -/
namespace Webrockets

/-! ### Python -/

/-- An exception; `AuthenticationFailed` has a close code. -/
structure AuthError where
  detail : String
  closeCode : Option Nat
  deriving DecidableEq, Repr

/-- What comes of `authenticate` and `validate_token`. -/
abbrev Authenticated := Except AuthError (Option PyObj)

/-- Neither `None` nor empty. -/
def truthy (value : Option String) : Option String := value.filter fun s => s ≠ ""

/-- The white space of `str.split`. -/
def isPySpace (c : Char) : Bool := isWhitespace c || (0x1C ≤ c.toNat && c.toNat ≤ 0x1F)

/-- `str.split` without a separator. -/
def words (s : String) : List String :=
  ((s.toList.splitOnP isPySpace).filter (· ≠ [])).map .ofList

/-- `bytes.decode` with `errors="replace"`. -/
def decodeReplace (bytes : List UInt8) : List Char :=
  ((fromUtf8 bytes).getD (fromUtf8Lossy bytes)).toList

/-- The values that `parse_qs` has for a name. -/
def queryValues (qs name : String) : List String :=
  ((QueryString.parseQsl decodeReplace qs.toList).filter fun p => .ofList p.1 = name).map
    fun p => .ofList p.2

/-- What a field of a query says. -/
def fieldTexts (f : QueryString.Field) : Option (String × String) :=
  f.bytes.map fun p => (.ofList (decodeReplace p.1), .ofList (decodeReplace p.2))

/-! ### The authenticators -/

def failed (detail : String) : Authenticated := .error ⟨detail, some 4001⟩

/-- What a cookie or a header is good for, if there is one. -/
def required (found : Option String) (missing : String) (next : String → Authenticated) :
    Authenticated :=
  match truthy found with
  | some value => next value
  | none => failed missing

/-- With the name of the cookie in the settings. `getUser` is `auth.get_user` of the session, with
`is_authenticated`. -/
structure SessionAuthentication where
  sessionCookieName : Option String
  setting : Option String
  getUser : String → Except AuthError (PyObj × Bool)

namespace SessionAuthentication

def cookieName (a : SessionAuthentication) : String :=
  (truthy a.sessionCookieName).getD (a.setting.getD "sessionid")

def validate (a : SessionAuthentication) (sessionId : String) : Authenticated :=
  match a.getUser sessionId with
  | .ok (user, true) => .ok (some user)
  | .ok (_, false) => failed "No authenticated user in session"
  | .error e => .error e

def authenticate (a : SessionAuthentication) (conn : BaseConnection) : Authenticated :=
  required (conn.getCookie a.cookieName) "No session cookie found" a.validate

end SessionAuthentication

/-- `validate_token` where no subclass has its own. -/
def notImplemented (_ : String) : Authenticated :=
  .error ⟨"Subclasses must implement validate_token()", none⟩

structure CookieTokenAuthentication where
  cookieName : String := "auth_token"
  validateToken : String → Authenticated := notImplemented

def CookieTokenAuthentication.authenticate (a : CookieTokenAuthentication) (conn : BaseConnection) :
    Authenticated :=
  required (conn.getCookie a.cookieName) ("No " ++ a.cookieName ++ " cookie found") a.validateToken

structure HeaderTokenAuthentication where
  headerName : String := "authorization"
  keyword : String := "Bearer"
  validateToken : String → Authenticated := notImplemented

section Header
variable (lower : String → String)

/-- The token after the keyword; `lower` is `str.lower`. -/
def tokenAfter (keyword authHeader : String) : Option String :=
  match words authHeader with
  | [word, token] => if lower word ≠ lower keyword then none else some token
  | _ => none

def HeaderTokenAuthentication.authenticate (a : HeaderTokenAuthentication) (conn : BaseConnection) :
    Authenticated :=
  required (conn.getHeader a.headerName) ("No " ++ a.headerName ++ " header found") fun authHeader =>
    match tokenAfter lower a.keyword authHeader with
    | some token => a.validateToken token
    | none => failed ("Invalid " ++ a.headerName ++ " header format")

end Header

structure QueryStringTokenAuthentication where
  queryParam : String := "token"
  validateToken : String → Authenticated := notImplemented

def QueryStringTokenAuthentication.authenticate (a : QueryStringTokenAuthentication)
    (conn : BaseConnection) : Authenticated :=
  match queryValues conn.queryString a.queryParam with
  | token :: _ => a.validateToken token
  | [] => failed ("No " ++ a.queryParam ++ " in query string")

/-- An authenticator that a route may have, of one of the classes or a subclass with its own
`validate_token`. -/
inductive DjangoAuth where
  | session (a : SessionAuthentication)
  | cookie (a : CookieTokenAuthentication)
  | header (a : HeaderTokenAuthentication)
  | query (a : QueryStringTokenAuthentication)

namespace DjangoAuth

def validate : DjangoAuth → String → Authenticated
  | .session a => a.validate
  | .cookie a => a.validateToken
  | .header a => a.validateToken
  | .query a => a.validateToken

section
variable (lower : String → String)

def authenticate (conn : BaseConnection) : DjangoAuth → Authenticated
  | .session a => a.authenticate conn
  | .cookie a => a.authenticate conn
  | .header a => a.authenticate lower conn
  | .query a => a.authenticate conn

/-- As the server sees it. -/
def authenticator (conn : BaseConnection) (a : DjangoAuth) : Authenticator where
  hasAuthenticate := true
  assigns := id
  outcome :=
    match a.authenticate lower conn with
    | .ok (some user) => .user user
    | .ok none => .none
    | .error e => .raised e.detail

/-! ### What a request carries -/

/-- What the client has put into its request for an authenticator: into its cookies, the header of
that name, or the fields of its query. -/
def carried (values : String → List String) (cookies : List Segment)
    (fields : List QueryString.Field) : DjangoAuth → Option String
  | .session a => truthy (lastValue (cookiesOf cookies) a.cookieName)
  | .cookie a => truthy (lastValue (cookiesOf cookies) a.cookieName)
  | .header a =>
    -- a name with capitals is not found
    if a.headerName.toLower = a.headerName then
      (values a.headerName).getLast?.bind (tokenAfter lower a.keyword)
    else none
  | .query a => ((fields.filterMap fieldTexts).find? (·.1 = a.queryParam)).map Prod.snd

end

/-- Whose a credential is. -/
def user (a : DjangoAuth) (credential : String) : Option PyObj :=
  match a.validate credential with
  | .ok user => user
  | .error _ => none

/-- Whose the first credential is that is somebody's. -/
def firstUser (lower : String → String) (values : String → List String) (cookies : List Segment)
    (fields : List QueryString.Field) (l : List DjangoAuth) : Option PyObj :=
  l.findSome? fun a => (a.carried lower values cookies fields).bind a.user

end DjangoAuth

/-! ### Reading a request -/

section Request
variable {toStr : List UInt8 → Option String} {uri : Uri} {headerMap : HeaderMap}

/-- A header that has come several times has its last value. -/
theorem getHeader_last (h : ReadsVisible toStr) (name : String) :
    (IncomingConnection.pyNew toStr uri headerMap).base.getHeader name =
      if name.toLower = name then (headerMap.readable name).getLast? else none := by
  have hfiled : ((filedHeaders toStr headerMap).filter (·.1 = name)).map Prod.snd =
      if name.toLower = name then headerMap.readable name else [] := by
    rw [filedHeaders, List.filter_filterMap, List.map_filterMap]
    split
    · next hlower =>
      refine List.filterMap_congr fun e _ => ?_
      rw [h e.2, HeaderName.toLower_text, hlower]
      by_cases hname : e.1.text = name
      · by_cases hvisible : e.2.all isVisibleByte = true
        · simp [hname, hvisible]
        · simp [hvisible]
      · by_cases hvisible : e.2.all isVisibleByte = true
        · simp [hname, hvisible]
        · simp [hvisible]
    · next hlower =>
      rw [List.filterMap_eq_nil_iff]
      intro e _
      have hname : e.1.text ≠ name := by
        rintro rfl
        exact hlower e.1.toLower_text
      rw [h e.2, HeaderName.toLower_text]
      by_cases hvisible : e.2.all isVisibleByte = true
      · simp [hname, hvisible]
      · simp [hvisible]
  show (collectHeaders toStr headerMap).get? name = _
  rw [collectHeaders_eq, IndexMap.get?_ofList_last, ← List.head?_filter, List.filter_reverse,
    List.head?_reverse, ← List.getLast?_map, hfiled]
  split <;> rfl

/-- A request without a `cookie` header has no cookies. -/
theorem getCookie_cookies (h : ReadsVisible toStr) {cookies : Option (List Segment)}
    (hcookies : headerMap.get "cookie" = cookies.map fun segments => bytesOf (cookieHeader segments))
    (name : String) : (IncomingConnection.pyNew toStr uri headerMap).base.getCookie name =
      lastValue (cookiesOf (cookies.getD [])) name := by
  cases cookies with
  | none =>
    show (collectCookies toStr headerMap).get? name = none
    simp only [collectCookies, hcookies, Option.map_none]
    rfl
  | some segments => exact getCookie_header h hcookies name

/-- A text that is sent in UTF-8 is read as it is. -/
theorem decodeReplace_bytesOf (s : String) : decodeReplace (bytesOf s) = s.toList := by
  rw [decodeReplace, bytesOf, fromUtf8_toUTF8]
  rfl

theorem decodeReplace_nil : decodeReplace [] = [] := decodeReplace_bytesOf ""

theorem quotePlus_ne_nil {s : String} (h : s ≠ "") : QueryString.quotePlus (bytesOf s) ≠ [] := by
  intro hnil
  have hbytes := (QueryString.quoted_quotePlus (bytesOf s)).1.bytes
  rw [hnil] at hbytes
  have htext := decodeReplace_bytesOf s
  rw [← hbytes] at htext
  exact h (String.toList_eq_nil_iff.mp (htext.symm.trans decodeReplace_nil))

/-- A name and a text, as `urlencode` puts them into a query. -/
def queryField (name value : String) (h : value ≠ "") : QueryString.Field :=
  .pair (QueryString.quotePlus (bytesOf name)) (QueryString.quotePlus (bytesOf value)) (bytesOf name)
    (bytesOf value) (QueryString.quoted_quotePlus _).1 (QueryString.quoted_quotePlus _).2
    (QueryString.quoted_quotePlus _).1 (quotePlus_ne_nil h)

/-- Any text can be sent so. -/
theorem fieldTexts_queryField {name value : String} (h : value ≠ "") :
    fieldTexts (queryField name value h) = some (name, value) := by
  show some (String.ofList (decodeReplace (bytesOf name)),
    String.ofList (decodeReplace (bytesOf value))) = _
  rw [decodeReplace_bytesOf, decodeReplace_bytesOf, String.ofList_toList, String.ofList_toList]

/-- The fields of a query are what its text is read as. -/
theorem queryValues_fields {fields : List QueryString.Field}
    (hquery : uri.query.getD "" = .ofList (QueryString.queryOf fields)) (name : String) :
    queryValues (IncomingConnection.pyNew toStr uri headerMap).base.queryString name =
      ((fields.filterMap fieldTexts).filter (·.1 = name)).map Prod.snd := by
  have hfields : (fields.filterMap fieldTexts) =
      (QueryString.parseQsl decodeReplace (QueryString.queryOf fields)).map
        fun p => (.ofList p.1, .ofList p.2) := by
    rw [QueryString.parseQsl_fields decodeReplace_nil, List.map_map, List.map_filterMap]
    rfl
  show queryValues (uri.query.getD "") name = _
  rw [hquery, queryValues, String.toList_ofList, hfields, List.filter_map, List.map_map]
  rfl

end Request

/-! ### The answer -/

namespace DjangoAuth
variable {toStr : List UInt8 → Option String} (lower : String → String) {uri : Uri}
  {headerMap : HeaderMap}

/-- What is there is gone on with, and else it fails. -/
theorem required_cases (found : Option String) (missing : String) (next : String → Authenticated) :
    match truthy found with
    | some value => required found missing next = next value
    | none => ∃ detail, required found missing next = failed detail := by
  cases hfound : truthy found with
  | some value => simp only [required, hfound]
  | none => exact ⟨missing, by simp only [required, hfound]⟩

/-- An authenticator validates what the request carries for it, and fails where there is nothing. -/
theorem authenticate_carried (h : ReadsVisible toStr) {cookies : Option (List Segment)}
    (hcookies : headerMap.get "cookie" = cookies.map fun segments => bytesOf (cookieHeader segments))
    {fields : List QueryString.Field}
    (hquery : uri.query.getD "" = .ofList (QueryString.queryOf fields)) (a : DjangoAuth) :
    match a.carried lower headerMap.readable (cookies.getD []) fields with
    | some credential =>
      a.authenticate lower (IncomingConnection.pyNew toStr uri headerMap).base = a.validate credential
    | none => ∃ detail,
      a.authenticate lower (IncomingConnection.pyNew toStr uri headerMap).base = failed detail := by
  cases a with
  | session a =>
    rw [authenticate, SessionAuthentication.authenticate, getCookie_cookies h hcookies]
    exact required_cases _ _ _
  | cookie a =>
    rw [authenticate, CookieTokenAuthentication.authenticate, getCookie_cookies h hcookies]
    exact required_cases _ _ _
  | header a =>
    rw [authenticate, HeaderTokenAuthentication.authenticate, getHeader_last h, carried]
    by_cases hlower : a.headerName.toLower = a.headerName
    · rw [if_pos hlower, if_pos hlower]
      cases (headerMap.readable a.headerName).getLast? with
      | none => exact ⟨_, rfl⟩
      | some authHeader =>
        by_cases hempty : authHeader = ""
        · subst hempty
          exact ⟨_, rfl⟩
        · have htruthy : truthy (some authHeader) = some authHeader := by simp [truthy, hempty]
          rw [required, htruthy, Option.bind_some]
          dsimp only
          cases tokenAfter lower a.keyword authHeader with
          | none => exact ⟨_, rfl⟩
          | some token => rfl
    · rw [if_neg hlower, if_neg hlower]
      exact ⟨_, rfl⟩
  | query a =>
    rw [authenticate, QueryStringTokenAuthentication.authenticate, queryValues_fields hquery]
    show match ((fields.filterMap fieldTexts).find? (·.1 = a.queryParam)).map Prod.snd with
      | some credential => _
      | none => _
    rw [← List.head?_filter, ← List.head?_map]
    cases ((fields.filterMap fieldTexts).filter (·.1 = a.queryParam)).map Prod.snd with
    | nil => exact ⟨_, rfl⟩
    | cons token rest => rfl

/-- Who an authenticator says has sent the request. -/
def accepted (conn : BaseConnection) (a : DjangoAuth) : Option PyObj :=
  match a.authenticate lower conn with
  | .ok user => user
  | .error _ => none

theorem tryAuthenticators_django (base : BaseConnection) (l : List DjangoAuth)
    (conn : IncomingConnection) :
    tryAuthenticators (l.map (authenticator lower base)) conn =
      match l.findSome? (accepted lower base) with
      | some user => (true, conn.setUser (some user))
      | none => (false, conn) := by
  induction l with
  | nil => rfl
  | cons a rest ih =>
    rw [List.map_cons, tryAuthenticators, List.findSome?_cons, accepted]
    simp only [authenticator, if_true]
    cases a.authenticate lower base with
    | error e => exact ih
    | ok user =>
      cases user with
      | none => exact ih
      | some user => rfl

theorem accepted_carried (h : ReadsVisible toStr) {cookies : Option (List Segment)}
    (hcookies : headerMap.get "cookie" = cookies.map fun segments => bytesOf (cookieHeader segments))
    {fields : List QueryString.Field}
    (hquery : uri.query.getD "" = .ofList (QueryString.queryOf fields)) (a : DjangoAuth) :
    a.accepted lower (IncomingConnection.pyNew toStr uri headerMap).base =
      (a.carried lower headerMap.readable (cookies.getD []) fields).bind a.user := by
  have hcarried := authenticate_carried lower h hcookies hquery a
  cases hc : a.carried lower headerMap.readable (cookies.getD []) fields with
  | some credential =>
    rw [hc] at hcarried
    rw [accepted, hcarried, Option.bind_some, user]
  | none =>
    rw [hc] at hcarried
    obtain ⟨detail, hdetail⟩ := hcarried
    rw [accepted, hdetail]
    rfl

/-- What the loop over the authenticators comes to. -/
theorem authenticated_django (h : ReadsVisible toStr) {cookies : Option (List Segment)}
    (hcookies : headerMap.get "cookie" = cookies.map fun segments => bytesOf (cookieHeader segments))
    {fields : List QueryString.Field}
    (hquery : uri.query.getD "" = .ofList (QueryString.queryOf fields)) {l : List DjangoAuth}
    (hl : l ≠ []) :
    authenticated (l.map (authenticator lower (IncomingConnection.pyNew toStr uri headerMap).base))
        (IncomingConnection.pyNew toStr uri headerMap) =
      match firstUser lower headerMap.readable (cookies.getD []) fields l with
      | some user => (true, (IncomingConnection.pyNew toStr uri headerMap).setUser (some user))
      | none => (false, IncomingConnection.pyNew toStr uri headerMap) := by
  have hempty : (l.map (authenticator lower
      (IncomingConnection.pyNew toStr uri headerMap).base)).isEmpty = false := by
    simpa using hl
  have haccepted : l.findSome? (accepted lower (IncomingConnection.pyNew toStr uri headerMap).base) =
      firstUser lower headerMap.readable (cookies.getD []) fields l := by
    rw [firstUser]
    congr 1
    funext a
    exact accepted_carried lower h hcookies hquery a
  rw [authenticated, hempty, if_neg Bool.false_ne_true, tryAuthenticators_django, haccepted]

end DjangoAuth

/-- **The first credential that is somebody's decides.** A route with authenticators of these
classes, in whatever order, lets a request in as the user of the first credential that it carries
and that is validated; cookies and the query are read back as the client has put them together. If
there is none, the answer is always the same: of what is raised, and of the close code 4001 where
something is missing, the client does not hear. -/
theorem django_authenticated (toStr : List UInt8 → Option String) (h : ReadsVisible toStr)
    (lower : String → String) (uri : Uri) (headerMap : HeaderMap) (cookies : Option (List Segment))
    (hcookies : headerMap.get "cookie" = cookies.map fun segments => bytesOf (cookieHeader segments))
    (fields : List QueryString.Field)
    (hquery : uri.query.getD "" = .ofList (QueryString.queryOf fields)) (l : List DjangoAuth)
    (hl : l ≠ []) :
    authenticate (l.map fun a =>
          a.authenticator lower (IncomingConnection.pyNew toStr uri headerMap).base)
        (IncomingConnection.pyNew toStr uri headerMap) =
      (match DjangoAuth.firstUser lower headerMap.readable (cookies.getD []) fields l with
      | some user => .ok ((IncomingConnection.pyNew toStr uri headerMap).setUser (some user))
      | none => .error authenticationFailed) ∧
    ∀ a ∈ l, a.carried lower headerMap.readable (cookies.getD []) fields = none →
      ∃ e, a.authenticate lower (IncomingConnection.pyNew toStr uri headerMap).base = .error e ∧
        e.closeCode = some 4001 := by
  refine ⟨?_, fun a _ hnone => ?_⟩
  · have hdecided := DjangoAuth.authenticated_django lower h hcookies hquery hl
    rw [authenticate, hdecided]
    cases DjangoAuth.firstUser lower headerMap.readable (cookies.getD []) fields l <;> rfl
  · have hcarried := DjangoAuth.authenticate_carried lower h hcookies hquery a
    rw [hnone] at hcarried
    obtain ⟨detail, hdetail⟩ := hcarried
    exact ⟨_, hdetail, rfl⟩

/-- The request has no header, and a token in its query. -/
def tokenUri : Uri :=
  { rootUri with
    query := some (.ofList (QueryString.queryOf [queryField "token" "naïve token" (by decide)])) }

def validToken (token : String) : Authenticated :=
  if token = "naïve token" then .ok (some 7) else failed "Invalid token"

def tokenClasses : List DjangoAuth :=
  [.header { validateToken := fun _ => .ok (some 1) }, .query { validateToken := validToken }]

theorem django_authenticated_query :
    authenticate (tokenClasses.map fun a =>
        a.authenticator String.toLower (IncomingConnection.pyNew readVisible tokenUri []).base)
      (IncomingConnection.pyNew readVisible tokenUri []) =
        .ok ((IncomingConnection.pyNew readVisible tokenUri []).setUser (some 7)) := by
  have hanswer := (django_authenticated readVisible readsVisible_readVisible String.toLower tokenUri
    [] none rfl [queryField "token" "naïve token" (by decide)] rfl tokenClasses
    (by simp [tokenClasses])).1
  rw [hanswer]
  simp [tokenClasses, DjangoAuth.firstUser, DjangoAuth.carried, DjangoAuth.user, DjangoAuth.validate,
    HeaderMap.readable, validToken, fieldTexts_queryField]

end Webrockets
