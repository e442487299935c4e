import Webrockets.Connection
import Webrockets.HeaderValue

/-! What an incoming connection takes from its request (`IncomingConnection::py_new`).

Headers are filed under their names in lower case, as far as they can be read, and the cookies of
the first `cookie` header by their names. `get_header` and `get_cookie` look them up. A header is
looked up as its name is written: `header_lookup` says for which names that is enough. -/
namespace Webrockets

/-! ### Requests -/

/-- `http::Uri`. -/
structure Uri where
  scheme : Option String
  host : Option String
  port : Option UInt16
  path : String
  query : Option String
  deriving DecidableEq, Repr

/-- The name of a header is ASCII, and has been put in lower case. -/
structure HeaderName where
  text : String
  valid : text.toList.all (fun c => c.toNat < 128 && !c.isUpper) = true

/-- The headers in the order in which `HeaderMap` goes through them: a name comes as often as it
has values. -/
abbrev HeaderMap := List (HeaderName × List UInt8)

/-- The first value. -/
def HeaderMap.get (headerMap : HeaderMap) (name : String) : Option (List UInt8) :=
  (headerMap.find? (·.1.text = name)).map Prod.snd

/-! ### Text -/

/-- `str::split` at a character. -/
def split (c : Char) (s : String) : List String := (s.toList.splitOn c).map .ofList

/-- `str::split_once` at a character. -/
def splitOnce (c : Char) (s : String) : Option (String × String) :=
  (TextFields.splitOnce c s.toList).map fun p => (.ofList p.1, .ofList p.2)

/-! ### `py_new` -/

section PyNew
variable (toStr : List UInt8 → Option String)

def collectHeaders (headerMap : HeaderMap) : IndexMap String String :=
  headerMap.foldl (fun headers e =>
    match toStr e.2 with
    | some v => headers.insert e.1.text.toLower v
    | none => headers) .empty

/-- One turn of the loop over the segments of a `cookie` header. -/
def insertCookie (cookies : IndexMap String String) (cookie : String) : IndexMap String String :=
  match splitOnce '=' (trim cookie) with
  | some (name, value) => cookies.insert (trim name) (trim value)
  | none => cookies

def decodeCookies (cookieStr : String) : IndexMap String String :=
  (split ';' cookieStr).foldl insertCookie .empty

def collectCookies (headerMap : HeaderMap) : IndexMap String String :=
  match headerMap.get "cookie" with
  | some cookieHeader =>
    match toStr cookieHeader with
    | some cookieStr => decodeCookies cookieStr
    | none => .empty
  | none => .empty

def IncomingConnection.pyNew (uri : Uri) (headerMap : HeaderMap) : IncomingConnection :=
  ⟨.new uri.path (uri.query.getD "") (collectHeaders toStr headerMap) (collectCookies toStr headerMap)⟩

end PyNew

def BaseConnection.getCookie (conn : BaseConnection) (name : String) : Option String :=
  conn.cookies.get? name

def BaseConnection.getHeader (conn : BaseConnection) (name : String) : Option String :=
  conn.headers.get? name

/-! ### Names -/

theorem toLower_of_not_isUpper {c : Char} (h : c.isUpper = false) : c.toLower = c := by
  refine dif_neg fun hupper => ?_
  have : c.isUpper = true := decide_eq_true hupper
  rw [h] at this
  cases this

theorem toList_toLower (s : String) : s.toLower.toList = s.toList.map Char.toLower :=
  String.toList_map

theorem HeaderName.toLower_text (name : HeaderName) : name.text.toLower = name.text := by
  rw [← String.toList_inj, toList_toLower]
  refine (List.map_congr_left fun c hc => ?_).trans (List.map_id _)
  have hvalid := List.all_eq_true.mp name.valid c hc
  simp only [Bool.and_eq_true, Bool.not_eq_true'] at hvalid
  exact toLower_of_not_isUpper hvalid.2

/-! ### Headers -/

/-- What a request carries under a name, however that is written, as far as it is visible. -/
def HeaderMap.readable (headerMap : HeaderMap) (name : String) : List String :=
  headerMap.filterMap fun e =>
    if e.1.text.toLower = name.toLower ∧ e.2.all isVisibleByte then
      some (.ofList (e.2.map charOfByte))
    else none

/-- A lookup is to give one of the values, if there is one. -/
def HeaderMap.Answers (headerMap : HeaderMap) (name : String) : Option String → Prop
  | some v => v ∈ headerMap.readable name
  | none => headerMap.readable name = []

section Headers
variable {toStr : List UInt8 → Option String} {uri : Uri} {headerMap : HeaderMap}
  {name other v : String}

/-- The pairs that the loop files. -/
def filedHeaders (toStr : List UInt8 → Option String) (headerMap : HeaderMap) :
    List (String × String) :=
  headerMap.filterMap fun e => (toStr e.2).map fun v => (e.1.text.toLower, v)

theorem collectHeaders_eq (toStr : List UInt8 → Option String) (headerMap : HeaderMap) :
    collectHeaders toStr headerMap = .ofList (filedHeaders toStr headerMap) := by
  rw [IndexMap.ofList, filedHeaders, List.foldl_filterMap, collectHeaders]
  congr 1
  funext headers e
  cases toStr e.2 <;> rfl

theorem HeaderMap.mem_readable : v ∈ headerMap.readable name ↔ ∃ e ∈ headerMap,
    e.1.text = name.toLower ∧ e.2.all isVisibleByte = true ∧ .ofList (e.2.map charOfByte) = v := by
  simp only [readable, List.mem_filterMap, HeaderName.toLower_text]
  refine exists_congr fun e => and_congr_right fun _ => ?_
  by_cases he : e.1.text = name.toLower ∧ e.2.all isVisibleByte = true
  · simp [he]
  · rw [if_neg he]
    constructor
    · rintro ⟨⟩
    · rintro ⟨hname, hvisible, _⟩
      exact absurd ⟨hname, hvisible⟩ he

/-- A pair is filed under a name as it is looked up only if that is in lower case. -/
theorem mem_filedHeaders (h : ReadsVisible toStr) : (name, v) ∈ filedHeaders toStr headerMap ↔
    name.toLower = name ∧ v ∈ headerMap.readable name := by
  simp only [filedHeaders, HeaderMap.mem_readable, List.mem_filterMap, Option.map_eq_some_iff,
    h.eq_some, HeaderName.toLower_text]
  constructor
  · rintro ⟨e, he, w, hw, hpair⟩
    obtain ⟨rfl, rfl⟩ := Prod.mk.inj hpair
    exact ⟨e.1.toLower_text, e, he, e.1.toLower_text.symm, hw⟩
  · rintro ⟨hlower, e, he, hname, hv⟩
    exact ⟨e, he, v, hv, by rw [hname, hlower]⟩

theorem getHeader_some (h : ReadsVisible toStr)
    (hget : (IncomingConnection.pyNew toStr uri headerMap).base.getHeader name = some v) :
    name.toLower = name ∧ v ∈ headerMap.readable name := by
  have hfind : (collectHeaders toStr headerMap).get? name = some v := hget
  rw [collectHeaders_eq, IndexMap.get?_ofList_last] at hfind
  obtain ⟨⟨name', v'⟩, he, rfl⟩ := Option.map_eq_some_iff.mp hfind
  have hname : name' = name := by simpa using List.find?_some he
  subst hname
  exact (mem_filedHeaders h).mp (List.mem_reverse.mp (List.mem_of_find?_eq_some he))

theorem getHeader_none (h : ReadsVisible toStr) (hlower : name.toLower = name)
    (hget : (IncomingConnection.pyNew toStr uri headerMap).base.getHeader name = none) :
    headerMap.readable name = [] := by
  have hfind : (collectHeaders toStr headerMap).get? name = none := hget
  rw [collectHeaders_eq, IndexMap.get?_eq_none, IndexMap.mem_keys_ofList] at hfind
  rw [List.eq_nil_iff_forall_not_mem]
  intro v hv
  exact hfind (List.mem_map_of_mem ((mem_filedHeaders h).mpr ⟨hlower, hv⟩))

theorem getHeader_of_readable_nil (h : ReadsVisible toStr) (hnil : headerMap.readable name = []) :
    (IncomingConnection.pyNew toStr uri headerMap).base.getHeader name = none := by
  rw [Option.eq_none_iff_forall_ne_some]
  intro v hget
  have hv := (getHeader_some h hget).2
  rw [hnil] at hv
  cases hv

/-- **A header is found under its name in lower case.** For two spellings of a name, the first
finds a value if there is one that is visible, and both find the same, if and only if there is
none, or both are spelled in lower case. -/
theorem header_lookup (toStr : List UInt8 → Option String) (h : ReadsVisible toStr) (uri : Uri)
    (headerMap : HeaderMap) (name other : String) (hsame : name.toLower = other.toLower) :
    (headerMap.Answers name ((IncomingConnection.pyNew toStr uri headerMap).base.getHeader name) ∧
      (IncomingConnection.pyNew toStr uri headerMap).base.getHeader name =
        (IncomingConnection.pyNew toStr uri headerMap).base.getHeader other) ↔
      headerMap.readable name = [] ∨ name.toLower = name ∧ other.toLower = other := by
  constructor
  · rintro ⟨hanswers, heq⟩
    cases hget : (IncomingConnection.pyNew toStr uri headerMap).base.getHeader name with
    | none =>
      rw [hget] at hanswers
      exact .inl hanswers
    | some v =>
      exact .inr ⟨(getHeader_some h hget).1, (getHeader_some h (heq.symm.trans hget)).1⟩
  · rintro (hnil | ⟨hlower, hlower'⟩)
    · have hnil' : headerMap.readable other = [] := by
        rw [← hnil]
        simp only [HeaderMap.readable, hsame]
      rw [getHeader_of_readable_nil h hnil, getHeader_of_readable_nil h hnil']
      exact ⟨hnil, rfl⟩
    · obtain rfl : name = other := by rw [← hlower, ← hlower', hsame]
      refine ⟨?_, rfl⟩
      cases hget : (IncomingConnection.pyNew toStr uri headerMap).base.getHeader name with
      | none => exact getHeader_none h hlower hget
      | some v => exact (getHeader_some h hget).2

end Headers

/-! ### A spelling in capitals -/

def rootUri : Uri := ⟨none, none, none, "/", none⟩

def authorization : HeaderName := ⟨"authorization", by decide⟩

/-- `authorization: Token`. -/
def tokenRequest : HeaderMap := [(authorization, [84, 111, 107, 101, 110])]

theorem header_lookup_authorization : tokenRequest.Answers "authorization"
    ((IncomingConnection.pyNew readVisible rootUri tokenRequest).base.getHeader "authorization") :=
  ((header_lookup readVisible readsVisible_readVisible rootUri tokenRequest "authorization"
    "authorization" rfl).mpr (.inr ⟨authorization.toLower_text, authorization.toLower_text⟩)).1

theorem toLower_authorization : "Authorization".toLower = "authorization" := by
  rw [← String.toList_inj, toList_toLower]
  decide

/-- A header is not found as it is usually written. -/
theorem header_missed :
    tokenRequest.readable "Authorization" = ["Token"] ∧
      (IncomingConnection.pyNew readVisible rootUri tokenRequest).base.getHeader "Authorization" =
        none ∧
      (IncomingConnection.pyNew readVisible rootUri tokenRequest).base.getHeader "authorization" =
        some "Token" := by
  refine ⟨?_, ?_, ?_⟩
  · simp only [HeaderMap.readable, tokenRequest, HeaderName.toLower_text, toLower_authorization]
    decide
  · rw [Option.eq_none_iff_forall_ne_some]
    intro v hget
    have hlower := (getHeader_some readsVisible_readVisible hget).1
    rw [toLower_authorization] at hlower
    exact absurd hlower (by decide)
  · show (collectHeaders readVisible tokenRequest).get? "authorization" = _
    simp only [collectHeaders_eq, filedHeaders, tokenRequest, HeaderName.toLower_text]
    decide

end Webrockets
